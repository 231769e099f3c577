import Mathlib.Logic.Relation
import ObjectFlush.Proofs.Upload.Footprint
import ObjectFlush.Proofs.Upload.Leases

/-!
The turns of a schedule. A turn is a sequence of small steps of one errand (`Schedule.Step`): it joins the line
of its key, is given the lease, goes on with its dialogue, hears its alarm, or lets go of the lease. Along them
the leases always have just the claims that the errands stand for (`Schedule.Seated`). So an errand waits only
for errands of its own key, and once all turns of an instant are taken, only for one that is under way
(`Schedule.Seated.passes_settle`).
-/

namespace ObjectFlush

/-! ## Claims -/

namespace Leases

variable {ι : Type} {l : Leases ι} {lines : ObjectKey → Option (Line ι)}
  {claim : ι → Option (ObjectKey × Bool)}
  {i j : ι} {key : ObjectKey} {granted : Bool}

/-- The leases are those of the lines, and each claimant has the claim that is given. -/
structure Seats (l : Leases ι) (lines : ObjectKey → Option (Line ι)) (claim : ι → Option (ObjectKey × Bool)) :
    Prop where
  keeps : l.Keeps lines
  claims : ∀ i key granted, (∃ n, ⟨i, key, n, granted⟩ ∈ l.claims) ↔ claim i = some (key, granted)

theorem seats_empty : ({} : Leases ι).Seats (fun _ => none) fun _ => none :=
  ⟨keeps_empty, fun i key granted => by simp⟩

namespace Seats

/-- Whoever has a claim stands in the line of its key. -/
theorem claim_iff (h : l.Seats lines claim) :
    claim i = some (key, granted) ↔ ∃ line, lines key = some line ∧ (i, granted) ∈ line.members := by
  rw [← h.claims]
  constructor
  · rintro ⟨n, hc⟩
    obtain ⟨line, hline, -, hin⟩ := (h.keeps.mem_claims _).1 hc
    exact ⟨line, hline, hin⟩
  · rintro ⟨line, hline, hin⟩
    obtain ⟨n, hslot, -⟩ := h.keeps.taken key line hline
    exact ⟨n, (h.keeps.mem_claims_iff hline hslot rfl).2 ⟨rfl, hin⟩⟩

theorem claim_holder (h : l.Seats lines claim) {line : Line ι} (hline : lines key = some line) :
    claim line.holder = some (key, line.noticed) :=
  h.claim_iff.2 ⟨line, hline, Line.mem_members_iff.2 (.inl ⟨rfl, rfl⟩)⟩

/-- A claimant that knows of its lease is the holder. -/
theorem holder_of_granted (h : l.Seats lines claim) (hi : claim i = some (key, true)) {line : Line ι}
    (hline : lines key = some line) : line.holder = i ∧ line.noticed = true := by
  obtain ⟨line', hline', hin⟩ := h.claim_iff.1 hi
  obtain rfl := Option.some.inj (hline.symm.trans hline')
  rcases Line.mem_members_iff.1 hin with ⟨hholder, hnoticed⟩ | ⟨-, hfalse⟩
  · exact ⟨hholder.symm, hnoticed.symm⟩
  · cases hfalse

/-- Nobody else holds the key. -/
theorem exclusive (h : l.Seats lines claim) (hi : claim i = some (key, true)) (hj : claim j = some (key, true)) :
    i = j := by
  obtain ⟨line, hline, -⟩ := h.claim_iff.1 hi
  rw [← (h.holder_of_granted hi hline).1, (h.holder_of_granted hj hline).1]

theorem isActive_iff (h : l.Seats lines claim) :
    l.isActive key = true ↔ ∃ i granted, claim i = some (key, granted) := by
  rw [isActive, h.keeps.check]
  constructor
  · intro hsome
    obtain ⟨line, hline⟩ := Option.isSome_iff_exists.1 hsome
    exact ⟨_, _, h.claim_holder hline⟩
  · rintro ⟨i, granted, hclaim⟩
    obtain ⟨line, hline, -⟩ := h.claim_iff.1 hclaim
    rw [hline]
    rfl

variable [DecidableEq ι]

theorem claim?_eq (h : l.Seats lines claim) (hi : claim i = some (key, granted)) :
    ∃ n, l.claim? i = some ⟨i, key, n, granted⟩ := by
  obtain ⟨n, hc⟩ := (h.claims i key granted).2 hi
  exact ⟨n, h.keeps.claim?_eq_some_iff.2 ⟨hc, rfl⟩⟩

theorem acquire (h : l.Seats lines claim) (hnew : claim i = none) (key : ObjectKey) :
    (l.acquire i key).1.Seats (Function.update lines key (some (Line.entered (lines key) i)))
      (Function.update claim i (some (key, (l.acquire i key).2))) ∧
      ((l.acquire i key).2 = true ↔ lines key = none) := by
  have hunknown : ∀ c ∈ l.claims, c.claimant ≠ i := by
    rintro ⟨j, key', n, granted⟩ hc rfl
    have hclaim := (h.claims j key' granted).1 ⟨n, hc⟩
    rw [hnew] at hclaim
    cases hclaim
  obtain ⟨hkeeps, n, hclaims⟩ := h.keeps.acquire hunknown key
  refine ⟨⟨hkeeps, fun j key' granted => ?_⟩, h.keeps.acquire_eq_true_iff i key⟩
  simp only [hclaims, List.mem_cons, exists_or, h.claims]
  by_cases hj : j = i
  · subst hj
    simp [hnew, eq_comm]
  · simp [hj]

/-- Whoever looks whether it was handed the lease either finds so, or finds somebody else in its place. -/
theorem poll (h : l.Seats lines claim) (hi : claim i = some (key, false)) :
    ∃ line, lines key = some line ∧
      if line.holder = i then ∃ l', l.poll i = some (l', true) ∧
        l'.Seats (Function.update lines key (some line.notice)) (Function.update claim i (some (key, true)))
      else l.poll i = some (l, false) := by
  obtain ⟨n, hc⟩ := h.claim?_eq hi
  obtain ⟨line, hline, hpoll⟩ := h.keeps.poll hc rfl
  refine ⟨line, hline, ?_⟩
  split at hpoll
  · next hholder =>
    obtain ⟨l', hpoll, hkeeps, hclaims⟩ := hpoll
    rw [if_pos hholder]
    refine ⟨l', hpoll, hkeeps, fun j key' granted => ?_⟩
    simp only [hclaims, List.mem_cons, exists_or, Keeps.mem_others_iff]
    by_cases hj : j = i
    · subst hj
      simp [eq_comm]
    · simp [hj, h.claims]
  · next hholder =>
    rw [if_neg hholder]
    exact hpoll

theorem release (h : l.Seats lines claim) (hi : claim i = some (key, granted)) :
    ∃ l' lines', l.release i = some l' ∧ l'.Seats lines' (Function.update claim i none) := by
  obtain ⟨n, hc⟩ := h.claim?_eq hi
  obtain ⟨line, l', -, hrelease, hkeeps, hclaims⟩ := h.keeps.release hc
  refine ⟨l', _, hrelease, hkeeps, fun j key' granted' => ?_⟩
  simp only [hclaims, Keeps.mem_others_iff]
  by_cases hj : j = i
  · subst hj
    simp
  · simp [hj, h.claims]

end Seats

end Leases

/-! ## Steps -/

namespace Standing

variable {σ α : Type} [Endpoint σ]

/-- The claim of an errand on its key: whether it knows that it holds the lease. -/
def claim? : Standing α → Option Bool
  | .fresh .. | .finished _ => none
  | .queued _ => some false
  | .calling .. | .pausing .. | .sending .. | .over _ => some true

def finish? : Standing α → Option (Finish α)
  | .finished finish => some finish
  | _ => none

omit [Endpoint σ] in
theorem finish?_of_claim {s : Standing α} {granted : Bool} (h : s.claim? = some granted) : s.finish? = none := by
  cases s with
  | finished finish => cases h
  | _ => rfl

theorem claim?_talk (d : Dialogue α) (l : Link σ) : (talk d l).2.claim? = some true := by
  induction d generalizing l with
  | done a => rfl
  | ask r next ih =>
    simp only [talk]
    split
    · exact ih ..
    · rfl
  | pause base next ih =>
    simp only [talk]
    split
    · exact ih ..
    · rfl
  | parts run next ih =>
    simp only [talk]
    split
    · rfl
    · exact ih ..
  | raise s next ih => exact ih ..

theorem claim?_proceed {s : Standing α} (h : s.claim? = some true) (l : Link σ) :
    (s.proceed l).2.claim? = some true := by
  cases s with
  | calling r ticket due next =>
    simp only [proceed]
    split
    · exact claim?_talk ..
    · rfl
  | pausing due next =>
    simp only [proceed]
    split
    · exact claim?_talk ..
    · rfl
  | sending run due next =>
    simp only [proceed]
    split
    · rfl
    · exact claim?_talk ..
  | «over» value => rfl
  | fresh start d => cases h
  | queued d => cases h
  | finished finish => cases h

end Standing

namespace Schedule

variable {σ α : Type}

/-- The claim of an errand, with its key. -/
def claim (s : Schedule σ α) (i : Nat) : Option (ObjectKey × Bool) :=
  s.errands[i]?.bind fun c => c.standing.claim?.map (c.key, ·)

/-- The schedule after a step of the `i`-th errand. -/
def put (s : Schedule σ α) (i : Nat) (leases : Leases Nat) (link : Link σ) (course : Course α) :
    Schedule σ α :=
  { link, leases
    errands := s.errands.set i course
    callers := s.callers ++ List.replicate (link.calls.length - s.link.calls.length) i }

variable {s s' : Schedule σ α} {i j : Nat} {c c' : Course α} {leases leases' : Leases Nat} {link link' : Link σ}

theorem put_self (h : s.errands[i]? = some c) : s.put i s.leases s.link c = s := by
  obtain ⟨hlt, hget⟩ := List.getElem?_eq_some_iff.1 h
  simp only [put, Nat.sub_self, List.replicate_zero, List.append_nil]
  rw [← hget, List.set_getElem_self]

theorem put_put (h : s.link.calls.length ≤ link.calls.length) (h' : link.calls.length ≤ link'.calls.length) :
    (s.put i leases link c).put i leases' link' c' = s.put i leases' link' c' := by
  simp only [put, List.set_set, List.append_assoc, List.replicate_append_replicate, Schedule.mk.injEq, true_and,
    List.append_cancel_left_eq]
  congr 1
  omega

theorem errands_put (h : s.errands[i]? = some c) (j : Nat) :
    (s.put i leases link c').errands[j]? = if i = j then some c' else s.errands[j]? := by
  have hlt := (List.getElem?_eq_some_iff.1 h).1
  simp [put, List.getElem?_set, hlt]

theorem keys_put (h : s.errands[i]? = some c) (hkey : c'.key = c.key) :
    (s.put i leases link c').errands.map (·.key) = s.errands.map (·.key) := by
  apply List.ext_getElem?
  intro j
  rw [List.getElem?_map, List.getElem?_map, errands_put h]
  split
  · next heq =>
    subst heq
    rw [h, Option.map_some, Option.map_some, hkey]
  · rfl

theorem claim_put (h : s.errands[i]? = some c) :
    (s.put i leases link c').claim = Function.update s.claim i (c'.standing.claim?.map (c'.key, ·)) := by
  funext j
  rw [claim, errands_put h, Function.update_apply]
  by_cases hj : i = j
  · subst hj
    simp
  · rw [if_neg hj, if_neg (Ne.symm hj), claim]

theorem claim_of_errand (h : s.errands[i]? = some c) : s.claim i = c.standing.claim?.map (c.key, ·) := by
  rw [claim, h, Option.bind_some]

theorem claim_eq_some_iff {key : ObjectKey} {granted : Bool} : s.claim i = some (key, granted) ↔
    ∃ c, s.errands[i]? = some c ∧ c.key = key ∧ c.standing.claim? = some granted := by
  simp only [claim, Option.bind_eq_some_iff, Option.map_eq_some_iff, Prod.mk.injEq]
  constructor
  · rintro ⟨c, hc, g, hg, rfl, rfl⟩
    exact ⟨c, hc, rfl, hg⟩
  · rintro ⟨c, hc, rfl, hg⟩
    exact ⟨c, hc, granted, hg, rfl, rfl⟩

/-- One thing that the `i`-th errand does within its turn. -/
inductive Step [Endpoint σ] (i : Nat) (s : Schedule σ α) : Schedule σ α → Prop
  | join {key : ObjectKey} {alarm : Option Alarm} {start : Nat} {d : Dialogue α}
    (errand : s.errands[i]? = some ⟨key, alarm, .fresh start d⟩) (refused : (s.leases.acquire i key).2 = false) :
    Step i s (s.put i (s.leases.acquire i key).1 s.link ⟨key, alarm, .queued d⟩)
  | grant {key : ObjectKey} {alarm : Option Alarm} {start : Nat} {d : Dialogue α}
    (errand : s.errands[i]? = some ⟨key, alarm, .fresh start d⟩) (given : (s.leases.acquire i key).2 = true) :
    Step i s (s.put i (s.leases.acquire i key).1 s.link ⟨key, alarm, .pausing s.link.now d⟩)
  | notice {key : ObjectKey} {alarm : Option Alarm} {d : Dialogue α} {leases : Leases Nat}
    (errand : s.errands[i]? = some ⟨key, alarm, .queued d⟩) (handed : s.leases.poll i = some (leases, true)) :
    Step i s (s.put i leases s.link ⟨key, alarm, .pausing s.link.now d⟩)
  | go {key : ObjectKey} {alarm : Option Alarm} {standing : Standing α}
    (errand : s.errands[i]? = some ⟨key, alarm, standing⟩) (holds : standing.claim? = some true) :
    Step i s (s.put i s.leases (standing.proceed s.link).1 ⟨key, alarm, (standing.proceed s.link).2⟩)
  | ring {key : ObjectKey} {alarm : Alarm} {standing : Standing α}
    (errand : s.errands[i]? = some ⟨key, some alarm, standing⟩) (unfinished : standing.finish? = none) :
    Step i s (s.put i s.leases (s.link.raise alarm.signal) ⟨key, none, standing⟩)
  | leave {key : ObjectKey} {alarm : Option Alarm} {value : α} {leases : Leases Nat} {contended : Bool}
    (errand : s.errands[i]? = some ⟨key, alarm, .over value⟩) (left : leases = (s.leases.release i).getD s.leases) :
    Step i s (s.put i leases s.link ⟨key, alarm, .finished ⟨value, s.link.now, contended⟩⟩)

/-- Small steps of the `i`-th errand, one after the other. -/
abbrev Steps [Endpoint σ] (i : Nat) : Schedule σ α → Schedule σ α → Prop := Relation.ReflTransGen (Step i)

/-- The errands wait for calls of the log, and no dialogue goes on with parts that it has not started. -/
structure Sound (s : Schedule σ α) : Prop where
  only : ∀ c ∈ s.errands, c.standing.Only fun _ => True
  issues : ∀ c ∈ s.errands, s.link.Issues c.standing.pending

/-- The claims of the errands are those of the leases. -/
abbrev Seated (s : Schedule σ α) (lines : ObjectKey → Option (Line Nat)) : Prop := s.leases.Seats lines s.claim

theorem Sound.put (h : s.Sound) (honly : c.standing.Only fun _ => True) (hissues : link.Issues c.standing.pending)
    (hkeeps : ∀ r t, s.link.Issued 0 r t → link.Issued 0 r t) : (s.put i leases link c).Sound := by
  refine ⟨fun c' hc' => ?_, fun c' hc' => ?_⟩
  · rcases List.mem_or_eq_of_mem_set hc' with hin | rfl
    · exact h.only c' hin
    · exact honly
  · rcases List.mem_or_eq_of_mem_set hc' with hin | rfl
    · exact fun x hx => hkeeps _ _ (h.issues c' hin x hx)
    · exact hissues

section

variable [Endpoint σ]

theorem Sound.touches (h : s.Sound) (hc : s.errands[i]? = some c) :
    s.link.Touches (fun _ => True) c.standing.pending (c.standing.proceed s.link).2.pending
      (c.standing.proceed s.link).1 ∧ (c.standing.proceed s.link).2.Only fun _ => True :=
  Standing.touches_proceed (h.only c (List.mem_of_getElem? hc)) (h.issues c (List.mem_of_getElem? hc))

theorem Sound.step (h : s.Sound) (hstep : Step i s s') : s'.Sound := by
  have hold : ∀ {c}, s.errands[i]? = some c → c.standing.Only (fun _ => True) ∧
      s.link.Issues c.standing.pending :=
    fun hc => ⟨h.only _ (List.mem_of_getElem? hc), h.issues _ (List.mem_of_getElem? hc)⟩
  cases hstep with
  | join errand _ => exact h.put (hold errand).1 (List.forall_mem_nil _) fun _ _ ht => ht
  | grant errand _ => exact h.put (hold errand).1 (List.forall_mem_nil _) fun _ _ ht => ht
  | notice errand _ => exact h.put (hold errand).1 (List.forall_mem_nil _) fun _ _ ht => ht
  | go errand _ =>
    obtain ⟨htouches, honly⟩ := h.touches errand
    exact h.put honly htouches.issues fun _ _ => htouches.issued
  | ring errand _ =>
    exact h.put (hold errand).1 (fun x hx => ((hold errand).2 x hx).of_calls_eq rfl) fun _ _ ht => ht.of_calls_eq rfl
  | leave errand _ => exact h.put trivial (List.forall_mem_nil _) fun _ _ ht => ht

end

/-! ## What steps do to the lines -/

/-- How many errands have not ended. -/
def unfinished (s : Schedule σ α) : Nat := s.errands.countP fun c => c.standing.finish?.isNone

/-- How many alarms have not rung. -/
def alarms (s : Schedule σ α) : Nat := s.errands.countP fun c => c.alarm.isSome

/-- A lease was handed to the claimant, and it has not noticed. -/
def Unnoticed (lines : ObjectKey → Option (Line Nat)) (i : Nat) : Prop :=
  ∃ key line, lines key = some line ∧ line.holder = i ∧ line.noticed = false

/-- From one state to a later one errands end and alarms ring. As long as no errand ends, no lease is handed
to another. -/
structure Advances (s : Schedule σ α) (lines : ObjectKey → Option (Line Nat)) (s' : Schedule σ α)
    (lines' : ObjectKey → Option (Line Nat)) : Prop where
  unfinished : s'.unfinished ≤ s.unfinished
  alarms : s'.alarms ≤ s.alarms
  noticed : s'.unfinished = s.unfinished → ∀ j, Unnoticed lines' j → Unnoticed lines j

variable {lines lines' lines'' : ObjectKey → Option (Line Nat)} {s'' : Schedule σ α}

namespace Advances

theorem refl (s : Schedule σ α) (lines : ObjectKey → Option (Line Nat)) : s.Advances lines s lines :=
  ⟨Nat.le_refl _, Nat.le_refl _, fun _ _ => id⟩

theorem trans (h : s.Advances lines s' lines') (h' : s'.Advances lines' s'' lines'') :
    s.Advances lines s'' lines'' := by
  have hle := h.unfinished
  have hle' := h'.unfinished
  exact ⟨Nat.le_trans hle' hle, Nat.le_trans h'.alarms h.alarms, fun heq j hj =>
    h.noticed (by omega) j (h'.noticed (by omega) j hj)⟩

end Advances

theorem unfinished_put (h : s.errands[i]? = some c) (leases : Leases Nat) (link : Link σ) (c' : Course α) :
    (s.put i leases link c').unfinished + (if c.standing.finish?.isNone then 1 else 0) =
      s.unfinished + if c'.standing.finish?.isNone then 1 else 0 := by
  obtain ⟨hlt, rfl⟩ := List.getElem?_eq_some_iff.1 h
  have hpos : (if s.errands[i].standing.finish?.isNone then 1 else 0) ≤ s.unfinished := by
    split
    · next hnone => exact List.countP_pos_iff.2 ⟨_, List.getElem_mem hlt, hnone⟩
    · exact Nat.zero_le _
  have hset := List.countP_set (p := fun c : Course α => c.standing.finish?.isNone) (a := c') hlt
  simp only [unfinished, put] at hpos ⊢
  rw [hset]
  omega

theorem alarms_put_le (h : s.errands[i]? = some c) (halarm : c'.alarm.isSome → c.alarm.isSome) :
    (s.put i leases link c').alarms ≤ s.alarms := by
  obtain ⟨hlt, rfl⟩ := List.getElem?_eq_some_iff.1 h
  have hpos : (if s.errands[i].alarm.isSome then 1 else 0) ≤ s.alarms := by
    split
    · next hsome => exact List.countP_pos_iff.2 ⟨_, List.getElem_mem hlt, hsome⟩
    · exact Nat.zero_le _
  have hset := List.countP_set (p := fun c : Course α => c.alarm.isSome) (a := c') hlt
  have hle : (if c'.alarm.isSome then 1 else 0) ≤ if s.errands[i].alarm.isSome then 1 else 0 := by
    split
    · next hsome => rw [if_pos (halarm hsome)]
    · exact Nat.zero_le _
  simp only [alarms, put] at hpos ⊢
  rw [hset]
  omega

theorem seated_put (h : s.errands[i]? = some c)
    (hseats : leases.Seats lines (Function.update s.claim i (c'.standing.claim?.map (c'.key, ·)))) :
    (s.put i leases link c').Seated lines := by
  rw [Seated, claim_put h]
  exact hseats

/-- A step with which the errand does not end. -/
theorem advances_put (h : s.errands[i]? = some c) (halarm : c'.alarm.isSome → c.alarm.isSome)
    (hfinish : c.standing.finish? = none) (hfinish' : c'.standing.finish? = none)
    (hnoticed : ∀ j, Unnoticed lines' j → Unnoticed lines j) :
    s.Advances lines (s.put i leases link c') lines' := by
  have hput := unfinished_put h leases link c'
  rw [hfinish, hfinish'] at hput
  exact ⟨Nat.le_of_eq (Nat.add_right_cancel hput), alarms_put_le h halarm, fun _ => hnoticed⟩

/-- The line of one key changes, but its holder does not, unless to one who knows it. -/
theorem Unnoticed.of_update {key : ObjectKey} {line : Line Nat}
    (h : Unnoticed (Function.update lines key (some line)) j)
    (hline : line.noticed = false → ∃ old, lines key = some old ∧ old.holder = line.holder ∧
      old.noticed = false) :
    Unnoticed lines j := by
  obtain ⟨key', line', hline', hholder, hnoticed⟩ := h
  rw [Function.update_apply] at hline'
  split at hline'
  · cases hline'
    obtain ⟨old, hold, hsame, hnot⟩ := hline hnoticed
    exact ⟨key, old, hold, hsame.trans hholder, hnot⟩
  · exact ⟨key', line', hline', hholder, hnoticed⟩

/-- What a step does to the lines: it keeps them those of the leases, and hands a lease over only when an errand
ends. -/
theorem Seated.step [Endpoint σ] (h : s.Seated lines) (hstep : Step i s s') :
    ∃ lines', s'.Seated lines' ∧ s.Advances lines s' lines' := by
  cases hstep with
  | @join key alarm start d errand refused =>
    have hclaim : s.claim i = none := by rw [claim_of_errand errand]; rfl
    obtain ⟨hseats, hgranted⟩ := h.acquire hclaim key
    rw [refused] at hseats hgranted
    cases hline : lines key with
    | none => simp [hline] at hgranted
    | some line =>
      rw [hline] at hseats
      refine ⟨_, seated_put errand hseats, advances_put errand id rfl rfl fun j hj => ?_⟩
      exact hj.of_update fun hnot => ⟨line, hline, rfl, hnot⟩
  | @grant key alarm start d errand given =>
    have hclaim : s.claim i = none := by rw [claim_of_errand errand]; rfl
    obtain ⟨hseats, hgranted⟩ := h.acquire hclaim key
    rw [given] at hseats hgranted
    rw [hgranted.1 rfl] at hseats
    refine ⟨_, seated_put errand hseats, advances_put errand id rfl rfl fun j hj => ?_⟩
    exact hj.of_update fun hnot => by cases hnot
  | @notice key alarm d leases errand handed =>
    have hclaim : s.claim i = some (key, false) := by rw [claim_of_errand errand]; rfl
    obtain ⟨line, -, hpoll⟩ := h.poll hclaim
    rw [handed] at hpoll
    split at hpoll
    · obtain ⟨l', hpoll, hseats⟩ := hpoll
      cases hpoll
      refine ⟨_, seated_put errand hseats, advances_put errand id rfl rfl fun j hj => ?_⟩
      exact hj.of_update fun hnot => by cases hnot
    · cases hpoll
  | @go key alarm standing errand holds =>
    have hholds := Standing.claim?_proceed holds s.link
    refine ⟨lines, seated_put errand ?_, advances_put errand id (Standing.finish?_of_claim holds)
      (Standing.finish?_of_claim hholds) fun _ => id⟩
    have hsame : standing.claim?.map (key, ·) = s.claim i := (claim_of_errand errand).symm
    rw [hholds, ← holds, hsame, Function.update_eq_self]
    exact h
  | @ring key alarm standing errand unfinished =>
    refine ⟨lines, seated_put errand ?_, ?_⟩
    · have hsame : standing.claim?.map (key, ·) = s.claim i := (claim_of_errand errand).symm
      rw [hsame, Function.update_eq_self]
      exact h
    · have hput := unfinished_put errand s.leases (s.link.raise alarm.signal) ⟨key, none, standing⟩
      exact ⟨Nat.le_of_eq (Nat.add_right_cancel hput), alarms_put_le errand nofun, fun _ _ => id⟩
  | @leave key alarm value leases contended errand left =>
    have hclaim : s.claim i = some (key, true) := by rw [claim_of_errand errand]; rfl
    obtain ⟨l', lines', hrelease, hseats⟩ := h.release hclaim
    rw [hrelease] at left
    obtain rfl : leases = l' := left
    refine ⟨lines', seated_put errand hseats, ?_⟩
    have hput := unfinished_put errand leases s.link
      ⟨key, alarm, .finished ⟨value, s.link.now, contended⟩⟩
    change _ + 1 = _ + 0 at hput
    exact ⟨by omega, alarms_put_le errand id, fun heq => by omega⟩

theorem Seated.steps [Endpoint σ] (h : s.Seated lines) (hsteps : Steps i s s') :
    ∃ lines', s'.Seated lines' ∧ s.Advances lines s' lines' := by
  induction hsteps with
  | refl => exact ⟨lines, h, .refl s lines⟩
  | tail _ hstep ih =>
    obtain ⟨lines₁, h₁, hadvances⟩ := ih
    obtain ⟨lines₂, h₂, hadvances'⟩ := h₁.step hstep
    exact ⟨lines₂, h₂, hadvances.trans hadvances'⟩

theorem Sound.steps [Endpoint σ] (h : s.Sound) (hsteps : Steps i s s') : s'.Sound := by
  induction hsteps with
  | refl => exact h
  | tail _ hstep ih => exact ih.step hstep

/-! ## Turns -/

/-- The errand has asked for its lease, if the time for that has come. -/
def Started (s : Schedule σ α) (i : Nat) : Prop :=
  ∀ c start d, s.errands[i]? = some c → c.standing = .fresh start d → s.link.now < start

/-- The errand has done what it can at this instant: it waits neither for a time that has come nor for a lease
that it was handed. -/
structure Rests (s : Schedule σ α) (i : Nat) : Prop where
  started : s.Started i
  queued : ∀ c d, s.errands[i]? = some c → c.standing = .queued d →
    ∀ leases, s.leases.poll i ≠ some (leases, true)

theorem rests_of_standing (h : s.errands[i]? = some c) (hfresh : ∀ start d, c.standing ≠ .fresh start d)
    (hqueued : ∀ d, c.standing ≠ .queued d) : s.Rests i := by
  refine ⟨fun c' start d hc' => ?_, fun c' d hc' => ?_⟩
  · obtain rfl := Option.some.inj (h.symm.trans hc')
    exact fun heq => absurd heq (hfresh start d)
  · obtain rfl := Option.some.inj (h.symm.trans hc')
    exact fun heq => absurd heq (hqueued d)

theorem rests_of_claim (h : s.errands[i]? = some c) (hclaim : c.standing.claim? = some true) : s.Rests i := by
  refine rests_of_standing h (fun start d heq => ?_) fun d heq => ?_ <;>
  · rw [heq] at hclaim
    cases hclaim

/-- A queued errand that nobody has handed its lease waits behind another. -/
theorem Seated.rests_of_queued (h : s.Seated lines) {d : Dialogue α} (hc : s.errands[i]? = some c)
    (hqueued : c.standing = .queued d) {line : Line Nat} (hline : lines c.key = some line) (hi : line.holder ≠ i) :
    s.Rests i := by
  refine ⟨fun c' start d' hc' heq => ?_, fun c' d' hc' _ leases hpoll => ?_⟩
  · obtain rfl := Option.some.inj (hc.symm.trans hc')
    rw [hqueued] at heq
    cases heq
  · have hclaim : s.claim i = some (c.key, false) := by rw [claim_of_errand hc, hqueued]; rfl
    obtain ⟨line', hline', hout⟩ := h.poll hclaim
    obtain rfl := Option.some.inj (hline.symm.trans hline')
    rw [if_neg hi, hpoll] at hout
    cases hout

variable [Endpoint σ]

omit [Endpoint σ] in
theorem errands_put_self (h : s.errands[i]? = some c) : (s.put i leases link c').errands[i]? = some c' := by
  rw [errands_put h, if_pos rfl]

theorem steps_put (hsteps : Steps i s (s.put i leases link c)) (h : s.link.calls.length ≤ link.calls.length)
    (hnext : Steps i (s.put i leases link c) ((s.put i leases link c).put i leases' link' c'))
    (h' : link.calls.length ≤ link'.calls.length) : Steps i s (s.put i leases' link' c') := by
  rw [put_put h h'] at hnext
  exact hsteps.trans hnext

theorem steps_go (hs : s.Sound) {key : ObjectKey} {alarm : Option Alarm} {standing : Standing α}
    (hc : s.errands[i]? = some ⟨key, alarm, standing⟩) (hclaim : standing.claim? = some true) :
    let out := standing.proceed s.link
    let s' := s.put i s.leases out.1 ⟨key, alarm, out.2⟩
    Steps i s s' ∧ s'.Rests i ∧ s.link.calls.length ≤ out.1.calls.length := by
  intro out s'
  refine ⟨.single (.go hc hclaim), ?_, (hs.touches hc).1.length_le⟩
  exact rests_of_claim (errands_put_self hc) (Standing.claim?_proceed hclaim s.link)

/-- An errand that is given its lease goes on at once. -/
theorem steps_begin (hs : s.Sound) {key : ObjectKey} {alarm : Option Alarm} {d : Dialogue α}
    (hc : s.errands[i]? = some c) (hgrant : Step i s (s.put i leases s.link ⟨key, alarm, .pausing s.link.now d⟩)) :
    let out := Standing.talk d s.link
    let s' := s.put i leases out.1 ⟨key, alarm, out.2⟩
    Steps i s s' ∧ s'.Rests i ∧ s.link.calls.length ≤ out.1.calls.length := by
  -- To talk is to go on after a pause that ends now.
  have htalk : Standing.talk d s.link = (Standing.pausing s.link.now d).proceed s.link :=
    (if_pos (Nat.le_refl _)).symm
  obtain ⟨hsteps, hrests, hlength⟩ := steps_go (hs.step hgrant) (errands_put_self hc) rfl
  change s.link.calls.length ≤ _ at hlength
  rw [put_put (Nat.le_refl s.link.calls.length) hlength] at hsteps hrests
  rw [htalk]
  exact ⟨.head hgrant hsteps, hrests, hlength⟩

omit [Endpoint σ] in
/-- Whoever is not given its lease finds somebody else in its place. -/
theorem Seated.rests_of_join (h : s.Seated lines) {key : ObjectKey} {alarm : Option Alarm}
    {start : Nat} {d : Dialogue α}
    (hc : s.errands[i]? = some ⟨key, alarm, .fresh start d⟩) (hout : (s.leases.acquire i key).2 = false) :
    (s.put i (s.leases.acquire i key).1 s.link ⟨key, alarm, .queued d⟩).Rests i := by
  have hclaim : s.claim i = none := by rw [claim_of_errand hc]; rfl
  obtain ⟨hseats, hfree⟩ := h.acquire hclaim key
  cases hline : lines key with
  | none =>
    rw [hfree.2 hline] at hout
    cases hout
  | some line =>
    have hother : (line.join i).holder ≠ i := by
      intro heq
      have hholder := h.claim_holder hline
      change line.holder = i at heq
      rw [heq, hclaim] at hholder
      cases hholder
    rw [hout, hline] at hseats
    exact (seated_put hc hseats).rests_of_queued (errands_put_self hc) rfl
      (Function.update_self key (some (line.join i)) lines) hother

/-- An errand that has nothing to do stays as it is. -/
theorem steps_stay (hc : s.errands[i]? = some c) (hrests : s.Rests i) :
    let s' := s.put i s.leases s.link c
    Steps i s s' ∧ s'.Rests i ∧ s.link.calls.length ≤ s.link.calls.length := by
  intro s'
  have hself : s' = s := put_self hc
  rw [hself]
  exact ⟨.refl, hrests, Nat.le_refl _⟩

/-- What an errand does as far as it can. -/
theorem Seated.steps_goOn (h : s.Seated lines) (hs : s.Sound) {key : ObjectKey} {alarm : Option Alarm}
    {standing : Standing α} (hc : s.errands[i]? = some ⟨key, alarm, standing⟩) :
    let out := goOn s.leases i key standing s.link
    let s' := s.put i out.1 out.2.1 ⟨key, alarm, out.2.2⟩
    Steps i s s' ∧ s'.Rests i ∧ s.link.calls.length ≤ out.2.1.calls.length := by
  cases standing with
  | fresh start d =>
    simp only [goOn]
    by_cases hdue : start ≤ s.link.now
    · rw [if_pos hdue]
      cases hout : (s.leases.acquire i key).2 with
      | true =>
        have hacquire : s.leases.acquire i key = ((s.leases.acquire i key).1, true) := by rw [← hout]
        rw [hacquire]
        exact steps_begin hs hc (.grant hc hout)
      | false =>
        have hacquire : s.leases.acquire i key = ((s.leases.acquire i key).1, false) := by rw [← hout]
        rw [hacquire]
        exact ⟨.single (.join hc hout), h.rests_of_join hc hout, Nat.le_refl _⟩
    · rw [if_neg hdue]
      refine steps_stay hc ⟨fun c' start' d' hc' heq => ?_, fun c' d' hc' heq => ?_⟩
      · obtain rfl := Option.some.inj (hc.symm.trans hc')
        cases heq
        omega
      · obtain rfl := Option.some.inj (hc.symm.trans hc')
        cases heq
  | queued d =>
    have hclaim : s.claim i = some (key, false) := by rw [claim_of_errand hc]; rfl
    obtain ⟨line, hline, hpoll⟩ := h.poll hclaim
    simp only [goOn]
    split at hpoll
    · obtain ⟨l', hpoll, -⟩ := hpoll
      rw [hpoll]
      exact steps_begin hs hc (.notice hc hpoll)
    · next hother =>
      rw [hpoll]
      exact steps_stay hc (h.rests_of_queued hc rfl hline hother)
  | calling r ticket due next => exact steps_go hs hc rfl
  | pausing due next => exact steps_go hs hc rfl
  | sending run due next => exact steps_go hs hc rfl
  | «over» value => exact steps_go hs hc rfl
  | finished finish => exact steps_stay hc (rests_of_standing hc nofun nofun)

/-- The turn of an errand, before it may let go of its lease. -/
theorem Seated.steps_attend (h : s.Seated lines) (hs : s.Sound) (hc : s.errands[i]? = some c) :
    let out := attend s.leases i c s.link
    let s' := s.put i out.1 out.2.1 out.2.2
    Steps i s s' ∧ s'.Rests i ∧ s.link.calls.length ≤ out.2.1.calls.length := by
  obtain ⟨key, alarm, standing⟩ := c
  obtain ⟨hsteps, hrests, hlength⟩ := h.steps_goOn hs hc
  simp only [attend]
  generalize goOn s.leases i key standing s.link = out at hsteps hrests hlength ⊢
  obtain ⟨leases, link, standing'⟩ := out
  dsimp only at hsteps hrests hlength ⊢
  cases alarm with
  | none => exact ⟨hsteps, hrests, hlength⟩
  | some alarm =>
    dsimp only
    split
    · next hring =>
      -- The alarm rings, and the errand goes on once more.
      have hunfinished : standing'.finish? = none := by
        rw [Bool.and_eq_true, Bool.not_eq_true'] at hring
        cases standing' with
        | finished f => exact absurd hring.2 (by simp [Standing.isOver])
        | _ => rfl
      have hraised : s.link.calls.length ≤ (link.raise alarm.signal).calls.length := hlength
      have hrung : Steps i s (s.put i leases (link.raise alarm.signal) ⟨key, none, standing'⟩) :=
        steps_put hsteps hlength (.single (.ring (errands_put_self hc) hunfinished)) (Nat.le_refl _)
      obtain ⟨lines', h', -⟩ := h.steps hrung
      obtain ⟨hsteps', hrests', hlength'⟩ := h'.steps_goOn (hs.steps hrung) (errands_put_self hc)
      rw [put_put hraised hlength'] at hrests'
      exact ⟨steps_put hrung hraised hsteps' hlength', hrests', Nat.le_trans hraised hlength'⟩
    · exact ⟨hsteps, hrests, hlength⟩

/-- No errand is over and still holds its lease. -/
def Released (s : Schedule σ α) : Prop := ∀ c ∈ s.errands, ∀ value, c.standing ≠ .over value

/-- What a turn is: steps of the one errand, until it can do nothing more at this instant. -/
theorem Seated.turn (h : s.Seated lines) (hs : s.Sound) (i : Nat) :
    Steps i s (s.turn i) ∧ (s.turn i).Rests i ∧ (s.Released → (s.turn i).Released) := by
  unfold Schedule.turn
  cases hc : s.errands[i]? with
  | none =>
    refine ⟨.refl, ⟨fun c start d hc' => ?_, fun c d hc' => ?_⟩, id⟩
    · rw [hc] at hc'
      cases hc'
    · rw [hc] at hc'
      cases hc'
  | some c =>
    obtain ⟨hsteps, hrests, hlength⟩ := h.steps_attend hs hc
    dsimp only
    generalize attend s.leases i c s.link = out at hsteps hrests hlength ⊢
    obtain ⟨leases, link, c'⟩ := out
    obtain ⟨key, alarm, standing⟩ := c'
    dsimp only at hsteps hrests hlength ⊢
    have hreleased : ∀ {leases' : Leases Nat} {c' : Course α}, (∀ value, c'.standing ≠ .over value) →
        s.Released → (s.put i leases' link c').Released := by
      intro leases' c' hc' hs c₀ hin
      rcases List.mem_or_eq_of_mem_set hin with hin | rfl
      · exact hs c₀ hin
      · exact hc'
    cases standing with
    | «over» value =>
      refine ⟨steps_put hsteps hlength (.single (.leave (errands_put_self hc) rfl)) (Nat.le_refl _), ?_,
        hreleased nofun⟩
      exact rests_of_standing (errands_put_self hc) nofun nofun
    | fresh start d => exact ⟨hsteps, hrests, hreleased nofun⟩
    | queued d => exact ⟨hsteps, hrests, hreleased nofun⟩
    | calling r ticket due next => exact ⟨hsteps, hrests, hreleased nofun⟩
    | pausing due next => exact ⟨hsteps, hrests, hreleased nofun⟩
    | sending run due next => exact ⟨hsteps, hrests, hreleased nofun⟩
    | finished finish => exact ⟨hsteps, hrests, hreleased nofun⟩

omit [Endpoint σ] in
/-- What all steps have in common, from an errand at `c` to the errand at `c'` and the link that it leaves. -/
structure Changes (s : Schedule σ α) (i : Nat) (c c' : Course α) (link : Link σ) : Prop where
  errand : s.errands[i]? = some c
  key : c'.key = c.key
  touches : s.link.Touches (fun _ => True) c.standing.pending c'.standing.pending link
  holds : c.standing.claim? = some true ∨ link.calls = s.link.calls
  begun : c.standing.claim? = some true → c'.standing.claim? = some true ∨ ∃ f, c'.standing.finish? = some f
  unfinished : c.standing.finish? = none
  ends : ∀ f, c'.standing.finish? = some f → c.standing = .over f.value ∧ f.time = s.link.now ∧ link = s.link

theorem Step.changes (hs : s.Sound) (h : Step i s s') :
    ∃ leases link c c', s' = s.put i leases link c' ∧ s.Changes i c c' link := by
  have hnone : s.link.Touches (fun _ => True) [] [] s.link := .same (List.forall_mem_nil _)
  cases h with
  | join errand _ =>
    exact ⟨_, _, _, _, rfl, errand, rfl, hnone, .inr rfl, nofun, rfl, nofun⟩
  | grant errand _ =>
    exact ⟨_, _, _, _, rfl, errand, rfl, hnone, .inr rfl, nofun, rfl, nofun⟩
  | notice errand _ =>
    exact ⟨_, _, _, _, rfl, errand, rfl, hnone, .inr rfl, nofun, rfl, nofun⟩
  | go errand holds =>
    have hclaim := Standing.claim?_proceed holds s.link
    refine ⟨_, _, _, _, rfl, errand, rfl, (hs.touches errand).1, .inl holds, fun _ => .inl hclaim,
      Standing.finish?_of_claim holds, fun f hf => ?_⟩
    rw [Standing.finish?_of_claim hclaim] at hf
    cases hf
  | ring errand unfinished =>
    have hissues := hs.issues _ (List.mem_of_getElem? errand)
    exact ⟨_, _, _, _, rfl, errand, rfl, .of_calls_eq hissues rfl rfl, .inr rfl, .inl, unfinished, fun f hf => by
      rw [unfinished] at hf
      cases hf⟩
  | leave errand _ =>
    refine ⟨_, _, _, _, rfl, errand, rfl, hnone, .inr rfl, fun _ => .inr ⟨_, rfl⟩, rfl, fun f hf => ?_⟩
    cases hf
    exact ⟨rfl, rfl, rfl⟩

theorem Step.changes_put (hs : s.Sound) (h : Step i s (s.put i leases link c')) (hc : s.errands[i]? = some c) :
    s.Changes i c c' link := by
  obtain ⟨leases', link', c₀, c₁, heq, hchanges⟩ := h.changes hs
  obtain rfl := Option.some.inj (hc.symm.trans hchanges.errand)
  have hlink : link = link' := congrArg Schedule.link heq
  have hcourse : (s.put i leases link c').errands[i]? = some c' := errands_put_self hc
  rw [heq, errands_put_self hc] at hcourse
  rw [hlink, ← Option.some.inj hcourse]
  exact hchanges

theorem Steps.frame (hs : s.Sound) (h : Steps i s s') : s'.link.now = s.link.now ∧
    s'.errands.map (·.key) = s.errands.map (·.key) ∧ ∀ j, i ≠ j → s'.errands[j]? = s.errands[j]? := by
  induction h with
  | refl => exact ⟨rfl, rfl, fun _ _ => rfl⟩
  | tail hsteps hstep ih =>
    obtain ⟨hnow, hkeys, hothers⟩ := ih
    obtain ⟨leases, link, c, c', rfl, hchanges⟩ := hstep.changes (hs.steps hsteps)
    refine ⟨hchanges.touches.now.trans hnow, (keys_put hchanges.errand hchanges.key).trans hkeys, fun j hj => ?_⟩
    rw [errands_put hchanges.errand, if_neg hj]
    exact hothers j hj

omit [Endpoint σ] in
/-- An errand whose lease was handed to it still waits. -/
theorem Seated.not_unnoticed (h : s.Seated lines) (hrests : s.Rests i) : ¬ Unnoticed lines i := by
  rintro ⟨key, line, hline, rfl, hnoticed⟩
  have hclaim := h.claim_holder hline
  rw [hnoticed] at hclaim
  obtain ⟨c, hc, rfl, hwaits⟩ := claim_eq_some_iff.1 hclaim
  obtain ⟨line', hline', hpoll⟩ := h.poll hclaim
  obtain rfl := Option.some.inj (hline.symm.trans hline')
  rw [if_pos rfl] at hpoll
  obtain ⟨l', hpoll, -⟩ := hpoll
  cases hstanding : c.standing with
  | queued d => exact hrests.queued c d hc hstanding l' hpoll
  | _ =>
    rw [hstanding] at hwaits
    cases hwaits

/-! ## All turns of an instant -/

omit [Endpoint σ] in
theorem pending_eq (h : s.Released) : s.pending = s.unfinished + s.alarms := by
  have hover : s.errands.filter (!·.standing.isOver) = s.errands.filter (·.standing.finish?.isNone) := by
    apply List.filter_congr
    intro c hc
    cases hstanding : c.standing with
    | «over» value => exact absurd hstanding (h c hc value)
    | _ => rfl
  rw [pending, hover, unfinished, alarms, List.countP_eq_length_filter, List.countP_eq_length_filter]

/-- What turns, one after the other, come to. -/
structure Passes (s : Schedule σ α) (lines : ObjectKey → Option (Line Nat)) (order : List Nat) (s' : Schedule σ α)
    (lines' : ObjectKey → Option (Line Nat)) : Prop where
  seated : s'.Seated lines'
  sound : s'.Sound
  released : s.Released → s'.Released
  advances : s.Advances lines s' lines'
  keys : s'.errands.map (·.key) = s.errands.map (·.key)
  noticed : s'.unfinished = s.unfinished → ∀ j ∈ order, ¬ Unnoticed lines' j
  started : ∀ j, s.Started j ∨ j ∈ order → s'.Started j

omit [Endpoint σ] in
theorem Passes.trans {order order' : List Nat} (h : s.Passes lines order s' lines')
    (h' : s'.Passes lines' order' s'' lines'') : s.Passes lines (order ++ order') s'' lines'' := by
  have hle := h.advances.unfinished
  have hle' := h'.advances.unfinished
  refine ⟨h'.seated, h'.sound, h'.released ∘ h.released, h.advances.trans h'.advances, h'.keys.trans h.keys,
    fun heq j hj hun => ?_, fun j hj => ?_⟩
  · rcases List.mem_append.1 hj with hj | hj
    · exact h.noticed (by omega) j hj (h'.advances.noticed (by omega) j hun)
    · exact h'.noticed (by omega) j hj hun
  · rcases hj with hstarted | hj
    · exact h'.started j (.inl (h.started j (.inl hstarted)))
    · exact h'.started j ((List.mem_append.1 hj).imp_left fun hj => h.started j (.inr hj))

theorem Seated.passes_turn (h : s.Seated lines) (hs : s.Sound) (i : Nat) :
    ∃ lines', s.Passes lines [i] (s.turn i) lines' := by
  obtain ⟨hsteps, hrests, hreleased⟩ := h.turn hs i
  obtain ⟨lines', h', hadvances⟩ := h.steps hsteps
  obtain ⟨hnow, hkeys, hothers⟩ := hsteps.frame hs
  refine ⟨lines', h', hs.steps hsteps, hreleased, hadvances, hkeys, fun _ j hj => ?_, fun j hj => ?_⟩
  · obtain rfl := List.mem_singleton.1 hj
    exact h'.not_unnoticed hrests
  · by_cases hij : i = j
    · subst hij
      exact hrests.started
    · have hstarted := hj.resolve_right fun hin => hij (List.mem_singleton.1 hin).symm
      intro c start d hc
      rw [hnow]
      rw [hothers j hij] at hc
      exact hstarted c start d hc

theorem Seated.passes_turns (h : s.Seated lines) (hs : s.Sound) (order : List Nat) :
    ∃ lines', s.Passes lines order (order.foldl Schedule.turn s) lines' := by
  induction order generalizing s lines with
  | nil =>
    exact ⟨lines, h, hs, id, .refl s lines, rfl, fun _ => List.forall_mem_nil _, fun j hj => hj.resolve_right
      List.not_mem_nil⟩
  | cons i rest ih =>
    obtain ⟨lines₁, hturn⟩ := h.passes_turn hs i
    obtain ⟨lines₂, hrest⟩ := ih hturn.seated hturn.sound
    exact ⟨lines₂, hturn.trans hrest⟩

/-- Once all turns of an instant are taken, whoever holds a lease knows it, and every errand whose time has come
has asked for its lease. -/
theorem Seated.passes_settle (h : s.Seated lines) (hs : s.Sound) (hr : s.Released) :
    ∃ order lines', s.settle = order.foldl Schedule.turn s ∧ s.Passes lines order s.settle lines' ∧
      (∀ j, ¬ Unnoticed lines' j) ∧ ∀ j < s.errands.length, s.settle.Started j := by
  suffices hrounds : ∀ n, s.pending < n → ∃ order lines', s.rounds n = order.foldl Schedule.turn s ∧
      s.Passes lines order (s.rounds n) lines' ∧ (∀ j, ¬ Unnoticed lines' j) ∧
        ∀ j < s.errands.length, (s.rounds n).Started j from hrounds _ (Nat.lt_succ_self _)
  intro n
  induction n generalizing s lines with
  | zero => exact fun hn => absurd hn (Nat.not_lt_zero _)
  | succ n ih =>
    intro hn
    obtain ⟨lines₁, h₁⟩ := h.passes_turns hs (List.range s.errands.length)
    change s.Passes lines _ s.sweep lines₁ at h₁
    have hlength : s.sweep.errands.length = s.errands.length := by
      simpa using congrArg List.length h₁.keys
    rw [rounds]
    split
    · next hless =>
      -- The round has ended an errand or rung an alarm; there are only so many of them.
      obtain ⟨order, lines₂, hrounds, h₂, hnoticed, hstarted⟩ :=
        ih h₁.seated h₁.sound (h₁.released hr) (by omega)
      refine ⟨List.range s.errands.length ++ order, lines₂, ?_, h₁.trans h₂, hnoticed, fun j hj => ?_⟩
      · rw [List.foldl_append, hrounds]
        rfl
      · exact hstarted j (by rw [hlength]; exact hj)
    · next hstill =>
      rw [pending_eq hr, pending_eq (h₁.released hr)] at hstill
      have hle := h₁.advances.unfinished
      have hle' := h₁.advances.alarms
      refine ⟨_, lines₁, rfl, h₁, fun j hun => ?_, fun j hj => h₁.started j (.inr (List.mem_range.2 hj))⟩
      obtain ⟨key, line, hline, rfl, -⟩ := id hun
      obtain ⟨c, hc, -⟩ := claim_eq_some_iff.1 (h₁.seated.claim_holder hline)
      have hlt := (List.getElem?_eq_some_iff.1 hc).1
      exact h₁.noticed (by omega) _ (List.mem_range.2 (by omega)) hun

end Schedule

end ObjectFlush
