import ObjectFlush.Proofs.Upload.Awaited
import ObjectFlush.Proofs.Upload.PartRun
import ObjectFlush.Upload.Schedule

/-!
What one who waits for calls of its own leaves behind in the log when it goes on. It starts calls and ends
calls that it waited for, and touches no other call (`Link.Touches`). So the errands of a schedule do not get
in each other's way in the log: `Standing.touches_proceed` says this of whatever an errand does at one instant.
-/

namespace ObjectFlush

/-- A call without an end: what was asked, and the ticket. -/
abbrev Pending := Request × Ticket

/-- The places of the calls in the log. -/
def Pending.places (a : List Pending) : List Nat := a.map (·.2.place)

/-- The request is made for a part. -/
def Request.IsPart (r : Request) : Prop := ∃ number, r.lane = .part number

theorem ActivePart.isPart_request (part : ActivePart) (upload : String) : (part.request upload).IsPart := by
  refine ⟨part.number, ?_⟩
  simp only [request]
  cases part.payload <;> rfl

namespace Link

variable {σ : Type} {P Q : Request → Prop} {a b c : List Pending} {l l' l'' : Link σ} {r : Request} {t : Ticket}

/-- The calls are in the log. -/
def Issues (l : Link σ) (a : List Pending) : Prop := ∀ x ∈ a, l.Issued 0 x.1 x.2

/-- Who waits for `a` goes on, in no time, until it waits for `b`: it starts calls of `P`, and ends no call but
its own. It leaves no call without an end but those of `b` and calls for parts that it has given up; and of `b`,
only calls for parts are not the last that it started. -/
structure Touches (P : Request → Prop) (a b : List Pending) (l l' : Link σ) : Prop where
  now : l'.now = l.now
  heads : ∃ added, l'.heads = l.heads ++ added ∧ ∀ head ∈ added, P head.1 ∧ head.2 = l.now
  issues : l'.Issues b
  own : ∀ x ∈ b, x ∈ a ∨ l.calls.length ≤ x.2.place
  spares : ∀ (p : Nat) c, l'.calls[p]? = some c → l.calls[p]? = some c ∨
    ((p ∈ Pending.places a ∨ l.calls.length ≤ p) ∧
      ∀ time answer, c.finish = some (time, answer) → time = l.now)
  leaves : ∀ (p : Nat) c, l'.calls[p]? = some c → c.finish = none →
    (l.calls[p]? = some c ∧ p ∉ Pending.places a) ∨ p ∈ Pending.places b ∨ c.request.IsPart
  last : ∀ x ∈ b, x.1.IsPart ∨ (x ∈ a ∧ l'.calls.length = l.calls.length) ∨ x.2.place + 1 = l'.calls.length

theorem Issued.of_calls_eq {base : Nat} (h : l.Issued base r t) (hcalls : l'.calls = l.calls) :
    l'.Issued base r t := by
  refine ⟨h.recent, ?_⟩
  rw [heads, hcalls]
  exact h.head

namespace Issues

theorem mono (h : l.Issues b) (hsub : ∀ x ∈ a, x ∈ b) : l.Issues a := fun x hx => h x (hsub x hx)

theorem append (ha : l.Issues a) (hb : l.Issues b) : l.Issues (a ++ b) :=
  fun x hx => (List.mem_append.1 hx).elim (ha x) (hb x)

theorem left (h : l.Issues (a ++ b)) : l.Issues a := h.mono fun _ => List.mem_append_left b

theorem right (h : l.Issues (a ++ b)) : l.Issues b := h.mono fun _ => List.mem_append_right a

theorem place_lt (h : l.Issues a) {x : Pending} (hx : x ∈ a) : x.2.place < l.calls.length := by
  have hlt := (List.getElem?_eq_some_iff.1 (h x hx).head).1
  rwa [length_heads] at hlt

theorem request_eq (h : l.Issues a) {x : Pending} (hx : x ∈ a) {call : Call}
    (hcall : l.calls[x.2.place]? = some call) : x.1 = call.request := by
  have hhead := (h x hx).head
  rw [heads, List.getElem?_map, hcall] at hhead
  exact (congrArg Prod.fst (Option.some.inj hhead)).symm

end Issues

namespace Touches

theorem length_le (h : l.Touches P a b l') : l.calls.length ≤ l'.calls.length := by
  obtain ⟨added, hadded, -⟩ := h.heads
  rw [← length_heads, ← length_heads, hadded, List.length_append]
  exact Nat.le_add_right ..

theorem issued (h : l.Touches P a b l') (ht : l.Issued 0 r t) : l'.Issued 0 r t := by
  obtain ⟨added, hadded, -⟩ := h.heads
  refine ⟨Nat.zero_le _, ?_⟩
  rw [hadded, List.getElem?_append_left (List.getElem?_eq_some_iff.1 ht.head).1]
  exact ht.head

/-- A call keeps its request and the time at which it started. -/
theorem head_of_lt (h : l.Touches P a b l') {p : Nat} {call : Call} (hp : p < l.calls.length)
    (hcall : l'.calls[p]? = some call) : ∃ old, l.calls[p]? = some old ∧ old.head = call.head := by
  obtain ⟨added, hadded, -⟩ := h.heads
  refine ⟨l.calls[p], List.getElem?_eq_getElem hp, ?_⟩
  have hhead : l'.heads[p]? = (l.heads ++ added)[p]? := by rw [hadded]
  rw [List.getElem?_append_left (by rwa [length_heads]), Link.heads, Link.heads, List.getElem?_map,
    List.getElem?_map, hcall, List.getElem?_eq_getElem hp] at hhead
  exact (Option.some.inj hhead).symm

/-- Calls are started now, and are of `P`. -/
theorem head_of_le (h : l.Touches P a b l') {p : Nat} {call : Call} (hp : l.calls.length ≤ p)
    (hcall : l'.calls[p]? = some call) : P call.request ∧ call.started = l.now := by
  obtain ⟨added, hadded, hnew⟩ := h.heads
  have hhead : l'.heads[p]? = (l.heads ++ added)[p]? := by rw [hadded]
  rw [List.getElem?_append_right (by rwa [length_heads]), Link.heads, List.getElem?_map, hcall] at hhead
  exact hnew _ (List.mem_of_getElem? hhead.symm)

/-- What was not waited for is left as it is. -/
theorem spared (h : l.Touches P a b l') {p : Nat} (hp : p < l.calls.length) (hnot : p ∉ Pending.places a) :
    l'.calls[p]? = l.calls[p]? := by
  have hlt := Nat.lt_of_lt_of_le hp h.length_le
  have hget := List.getElem?_eq_getElem hlt
  rcases h.spares p _ hget with hsame | ⟨hown, -⟩
  · rw [hget, hsame]
  · exact absurd hown (not_or.2 ⟨hnot, by omega⟩)

/-- Nothing is done in the log. -/
theorem of_calls_eq (h : l.Issues a) (hnow : l'.now = l.now) (hcalls : l'.calls = l.calls) :
    l.Touches P a a l' := by
  refine ⟨hnow, ⟨[], ?_, List.forall_mem_nil _⟩, fun x hx => (h x hx).of_calls_eq hcalls, fun x => .inl,
    fun p c hc => .inl (hcalls ▸ hc), fun p c hc _ => ?_, fun x hx =>
      .inr (.inl ⟨hx, congrArg List.length hcalls⟩)⟩
  · rw [Link.heads, hcalls, List.append_nil, Link.heads]
  · by_cases hp : p ∈ Pending.places a
    · exact .inr (.inl hp)
    · exact .inl ⟨hcalls ▸ hc, hp⟩

theorem same (h : l.Issues a) : l.Touches P a a l := .of_calls_eq h rfl rfl

theorem trans (h : l.Touches P a b l') (h' : l'.Touches P b c l'') : l.Touches P a c l'' := by
  have hown : ∀ p, p ∈ Pending.places b ∨ l'.calls.length ≤ p →
      p ∈ Pending.places a ∨ l.calls.length ≤ p := by
    rintro p (hp | hp)
    · obtain ⟨x, hx, rfl⟩ := List.mem_map.1 hp
      exact (h.own x hx).imp_left (List.mem_map_of_mem (f := fun x : Pending => x.2.place))
    · exact .inr (Nat.le_trans h.length_le hp)
  obtain ⟨added, hadded, hnew⟩ := h.heads
  obtain ⟨added', hadded', hnew'⟩ := h'.heads
  refine ⟨h'.now.trans h.now, ⟨added ++ added', ?_, ?_⟩, h'.issues, fun x hx => ?_, fun p call hcall => ?_,
    fun p call hcall hnone => ?_, fun x hx => ?_⟩
  · rw [hadded', hadded, List.append_assoc]
  · intro head hhead
    rcases List.mem_append.1 hhead with hin | hin
    · exact hnew head hin
    · rw [← h.now]
      exact hnew' head hin
  · rcases h'.own x hx with hx | hx
    · exact h.own x hx
    · exact .inr (Nat.le_trans h.length_le hx)
  · rcases h'.spares p call hcall with hsame | ⟨hp, htime⟩
    · exact h.spares p call hsame
    · rw [h.now] at htime
      exact .inr ⟨hown p hp, htime⟩
  · rcases h'.leaves p call hcall hnone with ⟨hsame, hnot⟩ | hrest
    · rcases h.leaves p call hsame hnone with hleft | hp | hpart
      · exact .inl hleft
      · exact absurd hp hnot
      · exact .inr (.inr hpart)
    · exact .inr hrest
  · rcases h'.last x hx with hpart | ⟨hx, hlength⟩ | hlast
    · exact .inl hpart
    · rw [hlength]
      exact h.last x hx
    · exact .inr (.inr hlast)

/-- Calls that other parts wait for are still waited for. -/
theorem frame (h : l.Touches P a b l') (hc : l.Issues c) (hpart : ∀ x ∈ c, x.1.IsPart) :
    l.Touches P (a ++ c) (b ++ c) l' := by
  have hplaces : ∀ p (x y : List Pending), p ∈ Pending.places (x ++ y) ↔
      p ∈ Pending.places x ∨ p ∈ Pending.places y := by simp [Pending.places]
  refine ⟨h.now, h.heads, h.issues.append fun x hx => h.issued (hc x hx), fun x hx => ?_,
    fun p call hcall => ?_, fun p call hcall hnone => ?_, fun x hx => ?_⟩
  · rcases List.mem_append.1 hx with hx | hx
    · exact (h.own x hx).imp_left (List.mem_append_left c)
    · exact .inl (List.mem_append_right a hx)
  · refine (h.spares p call hcall).imp_right (And.imp_left (Or.imp_left fun hp => ?_))
    exact (hplaces ..).2 (.inl hp)
  · rcases h.leaves p call hcall hnone with ⟨hsame, hnot⟩ | hp | hpart
    · by_cases hp : p ∈ Pending.places c
      · exact .inr (.inl ((hplaces ..).2 (.inr hp)))
      · exact .inl ⟨hsame, fun hin => ((hplaces ..).1 hin).elim hnot hp⟩
    · exact .inr (.inl ((hplaces ..).2 (.inl hp)))
    · exact .inr (.inr hpart)
  · rcases List.mem_append.1 hx with hx | hx
    · exact (h.last x hx).imp_right (Or.imp_left (And.imp_left (List.mem_append_left c)))
    · exact .inl (hpart x hx)

/-- In which order calls are waited for does not matter. -/
theorem congr {a' b' : List Pending} (h : l.Touches P a b l') (ha : ∀ x, x ∈ a' ↔ x ∈ a)
    (hb : ∀ x, x ∈ b' ↔ x ∈ b) : l.Touches P a' b' l' := by
  have hplaces : ∀ {x y : List Pending}, (∀ z, z ∈ y ↔ z ∈ x) →
      ∀ p, p ∈ Pending.places y ↔ p ∈ Pending.places x := by
    intro x y hxy p
    simp only [Pending.places, List.mem_map, hxy]
  refine ⟨h.now, h.heads, h.issues.mono fun x => (hb x).1, fun x hx => ?_, fun p call hcall => ?_,
    fun p call hcall hnone => ?_, fun x hx => ?_⟩
  · rw [ha]
    exact h.own x ((hb x).1 hx)
  · rw [hplaces ha]
    exact h.spares p call hcall
  · rw [hplaces ha, hplaces hb]
    exact h.leaves p call hcall hnone
  · rw [ha]
    exact h.last x ((hb x).1 hx)

end Touches

/-- Calls for parts may be given up. -/
theorem touches_giveUp (h : l.Issues a) (hpart : ∀ x ∈ a, x.1.IsPart) : l.Touches P a [] l := by
  refine ⟨rfl, ⟨[], (List.append_nil _).symm, List.forall_mem_nil _⟩, List.forall_mem_nil _,
    List.forall_mem_nil _, fun p c => .inl, fun p c hc _ => ?_, List.forall_mem_nil _⟩
  by_cases hp : p ∈ Pending.places a
  · obtain ⟨x, hx, rfl⟩ := List.mem_map.1 hp
    exact .inr (.inr (h.request_eq hx hc ▸ hpart x hx))
  · exact .inl ⟨hc, hp⟩

theorem touches_start (hr : P r) : l.Touches P [] [(r, (l.start r).2)] (l.start r).1 := by
  have hlast : ∀ (p : Nat) c, (l.start r).1.calls[p]? = some c →
      l.calls[p]? = some c ∨ (p = l.calls.length ∧ c.finish = none) := by
    intro p c hc
    change (l.calls ++ [_])[p]? = some c at hc
    rcases Nat.lt_trichotomy p l.calls.length with hlt | rfl | hgt
    · rw [List.getElem?_append_left hlt] at hc
      exact .inl hc
    · rw [List.getElem?_concat_length] at hc
      cases hc
      exact .inr ⟨rfl, rfl⟩
    · rw [List.getElem?_eq_none (by simp only [List.length_append, List.length_singleton]; omega)] at hc
      cases hc
  refine ⟨rfl, ⟨[(r, l.now)], l.heads_start r, by simpa using hr⟩, ?_, ?_,
    fun p c hc => ?_, fun p c hc _ => ?_, ?_⟩
  · intro x hx
    obtain rfl := List.mem_singleton.1 hx
    exact issued_start (Nat.zero_le _)
  · intro x hx
    obtain rfl := List.mem_singleton.1 hx
    exact .inr (Nat.le_refl _)
  · rcases hlast p c hc with hold | ⟨rfl, hnone⟩
    · exact .inl hold
    · refine .inr ⟨.inr (Nat.le_refl _), fun time answer hfinish => ?_⟩
      rw [hnone] at hfinish
      cases hfinish
  · rcases hlast p c hc with hold | ⟨rfl, -⟩
    · exact .inl ⟨hold, List.not_mem_nil⟩
    · exact .inr (.inl (List.mem_singleton.2 rfl))
  · intro x hx
    obtain rfl := List.mem_singleton.1 hx
    refine .inr (.inr ?_)
    show l.calls.length + 1 = (l.calls ++ [_]).length
    rw [List.length_append, List.length_singleton]

theorem touches_finish [Endpoint σ] (h : l.Issues [(r, t)]) : l.Touches P [(r, t)] [] (l.finish r t).1 := by
  have hset : ∀ (p : Nat) c, (l.finish r t).1.calls[p]? = some c →
      (l.calls[p]? = some c ∧ p ≠ t.place) ∨ (p = t.place ∧ ∃ answer, c.finish = some (l.now, answer)) := by
    intro p c hc
    change (l.calls.set t.place _)[p]? = some c at hc
    by_cases hp : t.place = p
    · subst hp
      rw [List.getElem?_set_self'] at hc
      obtain ⟨_, -, rfl⟩ := Option.map_eq_some_iff.1 hc
      exact .inr ⟨rfl, _, rfl⟩
    · rw [List.getElem?_set_ne hp] at hc
      exact .inl ⟨hc, fun heq => hp heq.symm⟩
  have hadded := (heads_finish (h (r, t) (List.mem_singleton.2 rfl))).trans (List.append_nil _).symm
  refine ⟨rfl, ⟨[], hadded, List.forall_mem_nil _⟩, List.forall_mem_nil _, List.forall_mem_nil _,
    fun p c hc => ?_, fun p c hc hfinish => ?_, List.forall_mem_nil _⟩
  · rcases hset p c hc with ⟨hsame, -⟩ | ⟨rfl, answer, hanswer⟩
    · exact .inl hsame
    · refine .inr ⟨.inl (List.mem_singleton.2 rfl), fun time answer' htime => ?_⟩
      rw [hanswer] at htime
      cases htime
      rfl
  · rcases hset p c hc with ⟨hsame, hne⟩ | ⟨rfl, answer, hanswer⟩
    · exact .inl ⟨hsame, by simpa [Pending.places] using hne⟩
    · rw [hfinish] at hanswer
      cases hanswer

theorem touches_drawPause (base : Nat) : l.Touches P [] [] (l.drawPause base).1 :=
  .of_calls_eq (List.forall_mem_nil _) rfl rfl

end Link

variable {σ : Type} [Endpoint σ] {P : Request → Prop} {l : Link σ}

/-! ## Parts -/

namespace ActivePart

variable {policy : PartPolicy} {upload : String}

/-- The call that the part waits for between its turns. -/
def pending (upload : String) (part : ActivePart) : List Pending :=
  part.ticket?.toList.map (part.request upload, ·)

theorem isPart_of_mem_pending {part : ActivePart} {x : Pending} (h : x ∈ part.pending upload) : x.1.IsPart := by
  obtain ⟨t, -, rfl⟩ := List.mem_map.1 h
  exact part.isPart_request upload

end ActivePart

/-- The call that the part waits for after the turn. -/
def Turn.pending (upload : String) : Turn → List Pending
  | .waits _ part => part.pending upload
  | .done _ | .failed _ => []

namespace ActivePart

variable {policy : PartPolicy} {upload : String}

variable (policy upload) in
theorem touches_call (hP : ∀ r : Request, r.IsPart → P r) (part : ActivePart) :
    l.Touches P [] ((part.call policy upload l).2.elim (fun _ => []) (·.2.pending upload))
      (part.call policy upload l).1 := by
  have hstart := Link.touches_start (l := l) (hP _ (part.isPart_request upload))
  simp only [call]
  split
  · exact hstart.trans (Link.touches_finish hstart.issues)
  · split
    · refine hstart.trans (Link.touches_giveUp hstart.issues fun x hx => ?_)
      obtain rfl := List.mem_singleton.1 hx
      exact part.isPart_request upload
    · exact hstart

theorem touches_conclude (hP : ∀ r : Request, r.IsPart → P r) (left : Nat) :
    ∀ (part : ActivePart) (backoff : Nat) {l : Link σ} (answer : Except RequestError String),
      l.Touches P [] ((part.conclude policy upload left backoff l answer).2.pending upload)
        (part.conclude policy upload left backoff l answer).1 := by
  -- Only a failure that may pass leads on, and it costs one of the repetitions that are left.
  induction left with
  | zero =>
    intro part backoff l answer
    cases answer <;> exact .same (List.forall_mem_nil _)
  | succ left ih =>
    intro part backoff l answer
    cases answer with
    | ok tag => exact .same (List.forall_mem_nil _)
    | error e =>
      simp only [conclude]
      split
      · split
        · let again : ActivePart := { part with left, backoff := policy.retry.next backoff }
          have hcall := (Link.touches_drawPause (l := l) backoff).trans (touches_call policy upload hP again)
          split
          · next hc =>
            rw [hc] at hcall
            exact hcall.trans (ih again _ _)
          · next hc =>
            rw [hc] at hcall
            exact hcall
        · exact Link.touches_drawPause backoff
      · exact .same (List.forall_mem_nil _)

theorem touches_attempt (hP : ∀ r : Request, r.IsPart → P r) (part : ActivePart) :
    l.Touches P [] ((part.attempt policy upload l).2.pending upload) (part.attempt policy upload l).1 := by
  have hcall := touches_call policy upload hP part (l := l)
  simp only [attempt]
  split
  · next hc =>
    rw [hc] at hcall
    exact hcall.trans (touches_conclude hP _ _ _ _)
  · next hc =>
    rw [hc] at hcall
    exact hcall

theorem touches_wake (hP : ∀ r : Request, r.IsPart → P r) {part : ActivePart}
    (h : l.Issues (part.pending upload)) :
    l.Touches P (part.pending upload) ((part.wake policy upload l).2.pending upload)
      (part.wake policy upload l).1 := by
  simp only [wake]
  split
  · next hstage =>
    have hnone : part.pending upload = [] := by simp [pending, ticket?, hstage]
    rw [hnone]
    exact part.touches_attempt hP
  · next ticket late hstage =>
    have hone : part.pending upload = [(part.request upload, ticket)] := by simp [pending, ticket?, hstage]
    split
    · exact (Link.touches_giveUp h fun x => isPart_of_mem_pending).trans (touches_conclude hP _ _ _ _)
    · rw [hone] at h ⊢
      exact (Link.touches_finish h).trans (touches_conclude hP _ _ _ _)

end ActivePart

namespace ReadyPart

variable {policy : PartPolicy} {upload : String}

/-- The call that the part waited for. -/
def pending (upload : String) : ReadyPart → List Pending
  | .fresh .. => []
  | .woken part => part.pending upload

theorem isPart_of_mem_pending {part : ReadyPart} {x : Pending} (h : x ∈ part.pending upload) : x.1.IsPart := by
  cases part with
  | fresh slot part => cases h
  | woken part => exact ActivePart.isPart_of_mem_pending h

variable (policy) in
theorem touches_look (hP : ∀ r : Request, r.IsPart → P r) {part : ReadyPart}
    (h : l.Issues (part.pending upload)) :
    l.Touches P (part.pending upload) ((part.look policy upload l).2.pending upload)
      (part.look policy upload l).1 := by
  cases part with
  | woken part => exact ActivePart.touches_wake hP h
  | fresh slot part =>
    simp only [look]
    split
    · exact .same h
    · exact ActivePart.touches_attempt hP _

end ReadyPart

namespace PartRun

/-- The calls that the parts of the run wait for. -/
def pending (r : PartRun) : List Pending :=
  r.ready.flatMap (·.pending r.upload) ++ r.asleep.flatMap (·.2.pending r.upload)

theorem isPart_of_mem_pending {r : PartRun} {x : Pending} (h : x ∈ r.pending) : x.1.IsPart := by
  rcases List.mem_append.1 h with h | h
  · obtain ⟨part, -, hx⟩ := List.mem_flatMap.1 h
    exact ReadyPart.isPart_of_mem_pending hx
  · obtain ⟨p, -, hx⟩ := List.mem_flatMap.1 h
    exact ActivePart.isPart_of_mem_pending hx

/-- A part that is given a place waits for no call yet. -/
theorem pending_fill (r : PartRun) : r.fill.pending = r.pending := by
  have hnone : ((r.queue.take r.free).map fun p => ReadyPart.fresh p.1 p.2).flatMap (·.pending r.upload) = [] := by
    simp only [List.flatMap_eq_nil_iff, List.mem_map]
    rintro part ⟨p, -, rfl⟩
    rfl
  show (r.ready ++ _).flatMap (·.pending r.upload) ++ _ = _
  rw [List.flatMap_append, hnone, List.append_nil]
  rfl

theorem pending_rouse (r : PartRun) (time : Nat) : (r.rouse time).pending.Perm r.pending := by
  have hdue := (due_append_perm r.asleep time).flatMap_right (·.2.pending r.upload)
  have hready : (r.rouse time).ready.flatMap (·.pending r.upload) = r.ready.flatMap (·.pending r.upload) ++
      (r.asleep.filter (·.1 ≤ time)).flatMap (·.2.pending r.upload) := by
    rw [rouse, List.flatMap_append, List.flatMap_map]
    rfl
  show ((r.rouse time).ready.flatMap (·.pending r.upload) ++
    (r.asleep.filter (time < ·.1)).flatMap (·.2.pending r.upload)).Perm _
  rw [hready, List.append_assoc, ← List.flatMap_append]
  exact hdue.append_left _

variable {r : PartRun}

theorem touches_turn (hP : ∀ r : Request, r.IsPart → P r) {part : ReadyPart} {rest : List ReadyPart}
    (hready : r.ready = part :: rest) (h : l.Issues r.pending) :
    l.Touches P r.pending (r.turn l part rest).2.1.pending (r.turn l part rest).1 := by
  let others := rest.flatMap (·.pending r.upload) ++ r.asleep.flatMap (·.2.pending r.upload)
  have hpending : r.pending = part.pending r.upload ++ others := by
    rw [pending, hready, List.flatMap_cons, List.append_assoc]
  rw [hpending] at h ⊢
  have hothers : ∀ x ∈ others, x.1.IsPart := by
    intro x hx
    apply isPart_of_mem_pending (r := r)
    rw [hpending]
    exact List.mem_append_right _ hx
  have hlook := (part.touches_look r.policy hP h.left).frame h.right hothers
  simp only [turn, mark]
  split
  · next time next hout =>
    rw [hout] at hlook
    refine hlook.congr (fun x => Iff.rfl) fun x => ?_
    have hperm : (others ++ next.pending r.upload).Perm (next.pending r.upload ++ others) := List.perm_append_comm
    refine Iff.trans ?_ hperm.mem_iff
    simp [others, pending, List.flatMap_append]
  · next hout =>
    rw [hout] at hlook
    exact hlook
  · next hout =>
    rw [hout] at hlook
    exact hlook

theorem touches_step (hP : ∀ r : Request, r.IsPart → P r) (h : l.Issues r.pending) :
    l.Touches P r.pending (r.step l).2.1.pending (r.step l).1 := by
  simp only [step]
  split
  · exact .same h
  · rw [← r.pending_fill] at h ⊢
    split
    · next hready => exact touches_turn hP hready h
    · exact .same h
    · exact .same h

/-- The calls that a run waits for when no part has a turn, if it has not ended. -/
def pendingAfter (out : PartRun × (Nat ⊕ Outcome)) : List Pending := out.2.elim (fun _ => out.1.pending) fun _ => []

theorem touches_settle (hP : ∀ r : Request, r.IsPart → P r) (h : l.Issues r.pending) :
    l.Touches P r.pending (pendingAfter (r.settle l).2) (r.settle l).1 := by
  fun_induction PartRun.settle r l with
  | case1 r l l' r' outcome hstep =>
    have hstep' := touches_step hP h
    rw [hstep] at hstep'
    -- The parts that are still under way are given up.
    exact hstep'.trans (Link.touches_giveUp hstep'.issues fun x => isPart_of_mem_pending)
  | case2 r l l' r' hstep ih =>
    have hstep' := touches_step hP h
    rw [hstep] at hstep'
    exact hstep'.trans (ih hstep'.issues)
  | case3 r l l' r' due hstep =>
    have hstep' := touches_step hP h
    rw [hstep] at hstep'
    exact hstep'

end PartRun

/-! ## Dialogues -/

namespace Dialogue

variable {α β : Type}

/-- Every request of the dialogue is of `P`. -/
def Only (P : Request → Prop) : Dialogue α → Prop
  | .done _ => True
  | .ask r next => P r ∧ ∀ answer, (next answer).Only P
  | .pause _ next => next.Only P
  | .parts run next => (run.pending = [] ∧ ∀ r : Request, r.IsPart → P r) ∧ ∀ outcome, (next outcome).Only P
  | .raise _ next => next.Only P

theorem Only.bind {d : Dialogue α} {f : α → Dialogue β} (hd : d.Only P) (hf : ∀ a, (f a).Only P) :
    (d >>= f).Only P := by
  show (Dialogue.bind d f).Only P
  induction d with
  | done a => exact hf a
  | ask r next ih => exact ⟨hd.1, fun answer => ih answer (hd.2 answer)⟩
  | pause base next ih => exact ih hd
  | parts run next ih => exact ⟨hd.1, fun outcome => ih outcome (hd.2 outcome)⟩
  | raise s next ih => exact ih hd

theorem only_attempt {p : RepeatPolicy} {r : Request} (hr : P r) (left : Nat) :
    ∀ backoff, (p.attempt wait (request r) left backoff).Only P := by
  induction left with
  | zero =>
    intro backoff
    exact ⟨hr, fun _ => trivial⟩
  | succ left ih =>
    intro backoff
    refine Only.bind (d := request r) ⟨hr, fun _ => trivial⟩ fun answer => ?_
    cases answer with
    | ok a => trivial
    | error e =>
      show Only P (if e.retryable then wait backoff >>= fun _ => p.attempt wait (request r) left (p.next backoff)
        else pure (.error e))
      split
      · exact Only.bind (d := wait backoff) trivial fun _ => ih _
      · trivial

theorem only_persist (policy : RepeatPolicy) {r : Request} (hr : P r) : (persist policy r).Only P :=
  only_attempt hr policy.limit policy.pause

end Dialogue

namespace Standing

variable {α : Type}

/-- The calls that the errand waits for. -/
def pending : Standing α → List Pending
  | .calling r ticket _ _ => [(r, ticket)]
  | .sending run _ _ => run.pending
  | .fresh .. | .queued _ | .pausing .. | .over _ | .finished _ => []

/-- Every request that the errand is still going to make is of `P`. -/
def Only (P : Request → Prop) : Standing α → Prop
  | .fresh _ d | .queued d => d.Only P
  | .calling _ _ _ next => ∀ answer, (next answer).Only P
  | .pausing _ next => next.Only P
  | .sending _ _ next => (∀ r : Request, r.IsPart → P r) ∧ ∀ outcome, (next outcome).Only P
  | .over _ | .finished _ => True

theorem touches_talk {d : Dialogue α} (hd : d.Only P) {l : Link σ} :
    l.Touches P [] (talk d l).2.pending (talk d l).1 ∧ (talk d l).2.Only P := by
  induction d generalizing l with
  | done a => exact ⟨.same (List.forall_mem_nil _), trivial⟩
  | ask r next ih =>
    have hstart := Link.touches_start (l := l) hd.1
    simp only [talk]
    split
    · obtain ⟨hnext, honly⟩ := ih _ (hd.2 ((l.start r).1.finish r (l.start r).2).2)
        (l := ((l.start r).1.finish r (l.start r).2).1)
      exact ⟨(hstart.trans (Link.touches_finish hstart.issues)).trans hnext, honly⟩
    · exact ⟨hstart, hd.2⟩
  | pause base next ih =>
    simp only [talk]
    split
    · obtain ⟨hnext, honly⟩ := ih hd (l := (l.drawPause base).1)
      exact ⟨(Link.touches_drawPause base).trans hnext, honly⟩
    · exact ⟨Link.touches_drawPause base, hd⟩
  | parts run next ih =>
    obtain ⟨⟨hnone, hP⟩, hnext⟩ := hd
    have hsettle := run.touches_settle (l := l) hP (by rw [hnone]; exact List.forall_mem_nil _)
    rw [hnone] at hsettle
    simp only [talk]
    split
    · next hout =>
      rw [hout] at hsettle
      exact ⟨hsettle, hP, hnext⟩
    · next hout =>
      rw [hout] at hsettle
      obtain ⟨hrest, honly⟩ := ih _ (hnext _)
      exact ⟨hsettle.trans hrest, honly⟩
  | raise s next ih =>
    obtain ⟨hnext, honly⟩ := ih hd (l := l.raise s)
    have hraise : l.Touches P [] [] (l.raise s) := .of_calls_eq (List.forall_mem_nil _) rfl rfl
    exact ⟨hraise.trans hnext, honly⟩

/-- What an errand that holds its lease does at one instant. -/
theorem touches_proceed {s : Standing α} (hs : s.Only P) (h : l.Issues s.pending) :
    l.Touches P s.pending (s.proceed l).2.pending (s.proceed l).1 ∧ (s.proceed l).2.Only P := by
  cases s with
  | calling r ticket due next =>
    simp only [proceed]
    split
    · obtain ⟨hnext, honly⟩ := touches_talk (hs (l.finish r ticket).2) (l := (l.finish r ticket).1)
      exact ⟨(Link.touches_finish h).trans hnext, honly⟩
    · exact ⟨.same h, hs⟩
  | pausing due next =>
    simp only [proceed]
    split
    · exact touches_talk hs
    · exact ⟨.same h, hs⟩
  | sending run due next =>
    obtain ⟨hP, hnext⟩ := hs
    have hperm := run.pending_rouse l.now
    have hroused : l.Issues (run.rouse l.now).pending := h.mono fun x => hperm.mem_iff.1
    have hsettle := (PartRun.touches_settle hP hroused).congr (fun x => hperm.symm.mem_iff) fun x => Iff.rfl
    simp only [proceed]
    split
    · next hout =>
      rw [hout] at hsettle
      exact ⟨hsettle, hP, hnext⟩
    · next l' run' outcome hout =>
      rw [hout] at hsettle
      obtain ⟨hrest, honly⟩ := touches_talk (hnext outcome) (l := l')
      exact ⟨hsettle.trans hrest, honly⟩
  | fresh start d => exact ⟨.same h, hs⟩
  | queued d => exact ⟨.same h, hs⟩
  | «over» value => exact ⟨.same h, hs⟩
  | finished finish => exact ⟨.same h, hs⟩

end Standing

end ObjectFlush
