import ObjectFlush.Proofs.Upload.Cancellation
import ObjectFlush.Proofs.Upload.Interference
import ObjectFlush.Proofs.Upload.Turns

/-!
Dialogues that watch one signal, and raise it when they abort. `Dialogue.Heeds` says that a dialogue raises the
signal just before it makes an abort, sends no parts after that, and is cancelled only by the signal: what it ends
with may depend on whether somebody else is to blame for that. `Dialogue.Doomed` says what becomes of a dialogue if
the signal is raised all the while. Both are read off the tree of the dialogue, and an errand that goes on keeps to
them (`Standing.heeds_proceed`, `Standing.doomed_proceed`).
-/

namespace ObjectFlush

/-! ## A part run and its signal -/

section

variable {σ : Type} [Endpoint σ] (policy : PartPolicy) (upload : String)

namespace ActivePart

theorem call_raised (part : ActivePart) (l : Link σ) : (part.call policy upload l).1.raised = l.raised := by
  simp only [call]
  split
  · rfl
  · split <;> rfl

theorem conclude_raised (left : Nat) :
    ∀ (part : ActivePart) (backoff : Nat) (l : Link σ) (answer : Except RequestError String),
      (part.conclude policy upload left backoff l answer).1.raised = l.raised := by
  induction left with
  | zero =>
    intro part backoff l answer
    cases answer <;> rfl
  | succ left ih =>
    intro part backoff l answer
    cases answer with
    | ok tag => rfl
    | error e =>
      have hcall := call_raised policy upload { part with left, backoff := policy.retry.next backoff }
        (l.drawPause backoff).1
      simp only [conclude]
      split
      · split
        · split
          · next hc =>
            rw [hc] at hcall
            exact (ih _ _ _ _).trans hcall
          · next hc =>
            rw [hc] at hcall
            exact hcall
        · rfl
      · rfl

theorem attempt_raised (part : ActivePart) (l : Link σ) :
    (part.attempt policy upload l).1.raised = l.raised := by
  have hcall := call_raised policy upload part l
  simp only [attempt]
  split
  · next hc =>
    rw [hc] at hcall
    exact (conclude_raised policy upload _ _ _ _ _).trans hcall
  · next hc =>
    rw [hc] at hcall
    exact hcall

theorem wake_raised (part : ActivePart) (l : Link σ) : (part.wake policy upload l).1.raised = l.raised := by
  simp only [wake]
  split
  · exact attempt_raised policy upload part l
  · split
    · exact conclude_raised policy upload _ _ _ _ _
    · exact conclude_raised policy upload _ part _ (l.finish (part.request upload) _).1 _

end ActivePart

theorem ReadyPart.look_raised (part : ReadyPart) (l : Link σ) :
    (part.look policy upload l).1.raised = l.raised := by
  rw [look_eq]
  split
  · exact ActivePart.wake_raised policy upload _ l
  · rfl

end

namespace PartRun

variable {σ : Type} [Endpoint σ] {r : PartRun} {l : Link σ} {signal : Signal}

theorem turn_signals (r : PartRun) (l : Link σ) (part : ReadyPart) (rest : List ReadyPart) :
    (r.turn l part rest).1.raised = l.raised ∧ (r.turn l part rest).2.1.cancel = r.cancel := by
  have hlook := ReadyPart.look_raised r.policy r.upload part l
  simp only [turn, mark]
  split
  · next hout =>
    rw [hout] at hlook
    exact ⟨hlook, rfl⟩
  · next hout =>
    rw [hout] at hlook
    exact ⟨hlook, rfl⟩
  · next hout =>
    rw [hout] at hlook
    exact ⟨hlook, rfl⟩

/-- A step raises nothing, and a run is cancelled by its own signal only. -/
theorem step_signals (r : PartRun) (l : Link σ) :
    (r.step l).1.raised = l.raised ∧ (r.step l).2.1.cancel = r.cancel ∧
      ((r.step l).2.2 = .ended (.error .cancelled) → r.isCancelled l = true) := by
  obtain ⟨hcancel, hstep⟩ | ⟨-, ⟨part, rest, hready, hstep⟩ |
    ⟨-, ⟨-, hstep⟩ | ⟨due, -, hstep⟩⟩⟩ := r.step_cases l
  · rw [hstep]
    exact ⟨rfl, rfl, fun _ => hcancel⟩
  · rw [hstep]
    obtain ⟨hraised, hsame⟩ := r.fill.turn_signals l part rest
    exact ⟨hraised, hsame, fun h => absurd h (r.fill.turn_ne_cancelled l part rest)⟩
  · rw [hstep]
    exact ⟨rfl, rfl, fun h => by cases h⟩
  · rw [hstep]
    exact ⟨rfl, rfl, fun h => by cases h⟩

/-- The turns of an instant raise nothing either. -/
theorem settle_signals (hcancel : r.cancel = some signal) (l : Link σ) :
    (r.settle l).1.raised = l.raised ∧ (r.settle l).1.alarms = l.alarms ∧
      (r.settle l).2.1.cancel = some signal ∧
        ((r.settle l).2.2 = .inr (.error .cancelled) → signal ∈ l.raised) := by
  fun_induction PartRun.settle r l with
  | case1 r l l' r' outcome hstep =>
    obtain ⟨hraised, hsame, hcancelled⟩ := r.step_signals l
    have halarms := r.step_alarms l
    rw [hstep] at hraised halarms hsame hcancelled
    refine ⟨hraised, halarms, hsame.trans hcancel, fun h => ?_⟩
    cases h
    have hended := hcancelled rfl
    rw [isCancelled, hcancel] at hended
    exact Link.isRaised_iff.1 hended
  | case2 r l l' r' hstep ih =>
    obtain ⟨hraised, hsame, -⟩ := r.step_signals l
    have halarms := r.step_alarms l
    rw [hstep] at hraised halarms hsame
    obtain ⟨hraised', halarms', hrest⟩ := ih (hsame.trans hcancel)
    rw [hraised] at hraised' hrest
    exact ⟨hraised', halarms'.trans halarms, hrest⟩
  | case3 r l l' r' due hstep =>
    obtain ⟨hraised, hsame, -⟩ := r.step_signals l
    have halarms := r.step_alarms l
    rw [hstep] at hraised halarms hsame
    exact ⟨hraised, halarms, hsame.trans hcancel, fun h => by cases h⟩

/-- Once its signal is raised, a run ends at its next turn. -/
theorem settle_of_raised (hcancel : r.cancel = some signal) (hraised : signal ∈ l.raised) :
    r.settle l = (l, r, .inr (.error .cancelled)) := by
  have hcancelled : r.isCancelled l = true := by
    rw [isCancelled, hcancel]
    exact Link.isRaised_iff.2 hraised
  have hstep : r.step l = (l, r, .ended (.error .cancelled)) := by
    rw [step, hcancelled]
    rfl
  rw [settle]
  split
  · next heq =>
    cases hstep.symm.trans heq
    rfl
  · next heq => cases hstep.symm.trans heq
  · next heq => cases hstep.symm.trans heq

end PartRun

/-! ## Who raises the signal -/

/-- One of the requests is an abort. -/
def Aborts (requests : List Request) : Prop := ∃ r ∈ requests, r.lane = .abort

@[simp] theorem aborts_nil : ¬Aborts [] := by
  simp [Aborts]

@[simp] theorem aborts_append {a b : List Request} : Aborts (a ++ b) ↔ Aborts a ∨ Aborts b := by
  simp [Aborts, or_and_right, exists_or]

theorem not_aborts_of_parts {requests : List Request} (h : ∀ r ∈ requests, r.IsPart) : ¬Aborts requests := by
  rintro ⟨r, hr, hlane⟩
  obtain ⟨number, hpart⟩ := h r hr
  rw [hpart] at hlane
  cases hlane

/-- From `l` to `l'` somebody who had aborted or not makes requests, and raises the signal just if one of them is an
abort. -/
structure Link.Raises {σ : Type} (signal : Signal) (aborted aborted' : Bool) (l l' : Link σ) : Prop where
  alarms : l'.alarms = l.alarms
  heads : ∃ added, l'.heads = l.heads ++ added ∧
    (signal ∈ l'.raised ↔ signal ∈ l.raised ∨ Aborts (added.map (·.1))) ∧
    (aborted' = true ↔ aborted = true ∨ Aborts (added.map (·.1)))

namespace Link.Raises

variable {σ : Type} {signal : Signal} {aborted aborted' aborted'' : Bool} {l l' l'' : Link σ}

theorem trans (h : l.Raises signal aborted aborted' l') (h' : l'.Raises signal aborted' aborted'' l'') :
    l.Raises signal aborted aborted'' l'' := by
  obtain ⟨added, hadded, hraised, haborted⟩ := h.heads
  obtain ⟨added', hadded', hraised', haborted'⟩ := h'.heads
  refine ⟨h'.alarms.trans h.alarms, added ++ added', ?_, ?_, ?_⟩
  · rw [hadded', hadded, List.append_assoc]
  · rw [hraised', hraised, List.map_append, aborts_append, or_assoc]
  · rw [haborted', haborted, List.map_append, aborts_append, or_assoc]

/-- Without an abort nothing is raised. -/
theorem quiet {added : List (Request × Nat)} (hadded : l'.heads = l.heads ++ added)
    (hnone : ¬Aborts (added.map (·.1))) (hraised : l'.raised = l.raised) (halarms : l'.alarms = l.alarms) :
    l.Raises signal aborted aborted l' := by
  refine ⟨halarms, added, hadded, ?_, (or_iff_left hnone).symm⟩
  rw [hraised]
  exact (or_iff_left hnone).symm

theorem same (hheads : l'.heads = l.heads) (hraised : l'.raised = l.raised) (halarms : l'.alarms = l.alarms) :
    l.Raises signal aborted aborted l' :=
  quiet (hheads.trans (List.append_nil _).symm) aborts_nil hraised halarms

theorem start {r : Request} (hr : r.lane ≠ .abort) : l.Raises signal aborted aborted (l.start r).1 := by
  refine quiet (l.heads_start r) ?_ rfl rfl
  rintro ⟨r', hr', hlane⟩
  obtain rfl := List.mem_singleton.1 hr'
  exact hr hlane

theorem abort (name : String) :
    l.Raises signal aborted true ((l.raise signal).start (.abort name)).1 := by
  have habort : Aborts ([((.abort name : Request), l.now)].map (·.1)) := ⟨_, List.mem_singleton.2 rfl, rfl⟩
  exact ⟨rfl, _, (l.raise signal).heads_start (.abort name), iff_of_true List.mem_cons_self (.inr habort),
    iff_of_true rfl (.inr habort)⟩

theorem finish [Endpoint σ] {r : Request} {t : Ticket} (ht : l.Issued 0 r t) :
    l.Raises signal aborted aborted (l.finish r t).1 :=
  same (Link.heads_finish ht) rfl rfl

/-- The alarm of another signal raises nothing that counts. -/
theorem raise {other : Signal} (hother : other ≠ signal) : l.Raises signal aborted aborted (l.raise other) := by
  refine ⟨rfl, [], (List.append_nil _).symm, ?_, (or_iff_left aborts_nil).symm⟩
  show signal ∈ other :: l.raised ↔ _
  rw [List.mem_cons, or_iff_right (Ne.symm hother)]
  exact (or_iff_left aborts_nil).symm

end Link.Raises

theorem PartRun.settle_raises {σ : Type} [Endpoint σ] {r : PartRun} {l : Link σ} {signal : Signal} {aborted : Bool}
    (hcancel : r.cancel = some signal) (hissues : l.Issues r.pending) :
    l.Raises signal aborted aborted (r.settle l).1 := by
  obtain ⟨added, hadded, hparts⟩ := (PartRun.touches_settle (P := Request.IsPart) (fun _ hr => hr) hissues).heads
  obtain ⟨hraised, halarms, -⟩ := PartRun.settle_signals hcancel l
  exact .quiet hadded (not_aborts_of_parts (List.forall_mem_map.2 fun head hhead => (hparts head hhead).1)) hraised
    halarms

/-! ## Dialogues -/

namespace Dialogue

variable {α β : Type} {signal : Signal} {aborted : Bool} {blamed : Prop}

/-- A dialogue that has made an abort or not, and has been cancelled only if somebody else is to blame, keeps to the
signal. With that knowledge about it, it may end as `post` says. -/
inductive Heeds (signal : Signal) (post : Bool → Prop → α → Prop) : Bool → Prop → Dialogue α → Prop
  | done {aborted : Bool} {blamed : Prop} {a : α} (allowed : post aborted blamed a) :
    Heeds signal post aborted blamed (.done a)
  | ask {aborted : Bool} {blamed : Prop} {r : Request} {next : Except RequestError r.Answer → Dialogue α}
    (other : r.lane ≠ .abort) (rest : ∀ answer, Heeds signal post aborted blamed (next answer)) :
    Heeds signal post aborted blamed (.ask r next)
  | pause {aborted : Bool} {blamed : Prop} {base : Nat} {next : Dialogue α}
    (rest : Heeds signal post aborted blamed next) : Heeds signal post aborted blamed (.pause base next)
  /-- Parts are sent before any abort only. -/
  | parts {blamed : Prop} {run : PartRun} {next : PartRun.Outcome → Dialogue α} (new : run.pending = [])
    (watches : run.cancel = some signal)
    (rest : ∀ outcome, Heeds signal post false (blamed ∨ outcome = .error .cancelled) (next outcome)) :
    Heeds signal post false blamed (.parts run next)
  /-- An abort is made as soon as the signal is raised. -/
  | abort {aborted : Bool} {blamed : Prop} {name : String} {next : Except RequestError Unit → Dialogue α}
    (rest : ∀ answer, Heeds signal post true blamed (next answer)) :
    Heeds signal post aborted blamed (.raise signal (.ask (.abort name) next))

theorem Heeds.only {post : Bool → Prop → α → Prop} {d : Dialogue α} (h : d.Heeds signal post aborted blamed) :
    d.Only fun _ => True := by
  induction h with
  | done => trivial
  | ask _ _ ih => exact ⟨trivial, ih⟩
  | pause _ ih => exact ih
  | parts new _ _ ih => exact ⟨⟨new, fun _ _ => trivial⟩, ih⟩
  | abort _ ih => exact ⟨trivial, ih⟩

theorem Heeds.mono {post post' : Bool → Prop → α → Prop} {d : Dialogue α}
    (h : d.Heeds signal post aborted blamed)
    (hpost : ∀ aborted' blamed' a, post aborted' blamed' a → post' aborted' blamed' a) :
    d.Heeds signal post' aborted blamed := by
  induction h with
  | done allowed => exact .done (hpost _ _ _ allowed)
  | ask other _ ih => exact .ask other ih
  | pause _ ih => exact .pause ih
  | parts new watches _ ih => exact .parts new watches ih
  | abort _ ih => exact .abort ih

/-- What the first dialogue allows, the second starts from; nobody is excused on the way. -/
theorem Heeds.bind {post : Bool → Prop → α → Prop} {post' : Bool → Prop → β → Prop} {d : Dialogue α}
    {f : α → Dialogue β} (h : d.Heeds signal post aborted blamed)
    (hf : ∀ aborted' blamed' a, post aborted' blamed' a → (blamed → blamed') →
      (f a).Heeds signal post' aborted' blamed') : (d >>= f).Heeds signal post' aborted blamed := by
  show (Dialogue.bind d f).Heeds signal post' aborted blamed
  induction h with
  | done allowed => exact hf _ _ _ allowed id
  | ask other _ ih => exact .ask other fun answer => ih answer hf
  | pause _ ih => exact .pause (ih hf)
  | parts new watches _ ih =>
    refine .parts new watches fun outcome => ih outcome fun aborted' blamed' a hpost hblamed => ?_
    exact hf aborted' blamed' a hpost fun h => hblamed (.inl h)
  | abort _ ih => exact .abort fun answer => ih answer hf

/-- A request that is repeated aborts nothing, if it is no abort itself. -/
theorem heeds_persist (policy : RepeatPolicy) {r : Request} (hr : r.lane ≠ .abort) (aborted : Bool) (blamed : Prop) :
    (persist policy r).Heeds signal (fun aborted' blamed' _ => aborted' = aborted ∧ (blamed → blamed')) aborted
      blamed := by
  suffices hattempt : ∀ left backoff, (policy.attempt wait (request r) left backoff).Heeds signal
      (fun aborted' blamed' _ => aborted' = aborted ∧ (blamed → blamed')) aborted blamed from
    hattempt policy.limit policy.pause
  intro left
  induction left with
  | zero => exact fun _ => .ask hr fun _ => .done ⟨rfl, id⟩
  | succ left ih =>
    intro backoff
    refine .ask hr fun answer => ?_
    cases answer with
    | ok a => exact .done ⟨rfl, id⟩
    | error e =>
      show Heeds signal _ aborted blamed
        (if e.retryable then wait backoff >>= fun _ => policy.attempt wait (request r) left (policy.next backoff)
        else pure (.error e))
      split
      · exact .pause (ih _)
      · exact .done ⟨rfl, id⟩

/-- Held while the signal is raised, the dialogue ends as `post` says. -/
def Doomed (signal : Signal) (post : α → Prop) : Dialogue α → Prop
  | .done a => post a
  | .ask _ next => ∀ answer, (next answer).Doomed signal post
  | .pause _ next => next.Doomed signal post
  | .parts run next => run.cancel = some signal ∧ (next (.error .cancelled)).Doomed signal post
  | .raise _ next => next.Doomed signal post

theorem Doomed.bind {post : α → Prop} {post' : β → Prop} {d : Dialogue α} {f : α → Dialogue β}
    (h : d.Doomed signal post) (hf : ∀ a, post a → (f a).Doomed signal post') :
    (d >>= f).Doomed signal post' := by
  show (Dialogue.bind d f).Doomed signal post'
  induction d with
  | done a => exact hf a h
  | ask r next ih => exact fun answer => ih answer (h answer)
  | pause base next ih => exact ih h
  | parts run next ih => exact ⟨h.1, ih _ h.2⟩
  | raise s next ih => exact ih h

end Dialogue

/-! ## Errands -/

namespace Standing

variable {σ α : Type} {signal : Signal} {post : Bool → Prop → α → Prop} {aborted : Bool} {blamed : Prop}

/-- Where an errand stands whose dialogue keeps to the signal. -/
def Heeds (signal : Signal) (post : Bool → Prop → α → Prop) (aborted : Bool) (blamed : Prop) :
    Standing α → Prop
  | .fresh _ d | .queued d | .pausing _ d => d.Heeds signal post aborted blamed
  | .calling _ _ _ next => ∀ answer, (next answer).Heeds signal post aborted blamed
  | .sending run _ next => aborted = false ∧ run.cancel = some signal ∧
      ∀ outcome, (next outcome).Heeds signal post false (blamed ∨ outcome = .error .cancelled)
  | .over a => post aborted blamed a
  | .finished f => post aborted blamed f.value

theorem Heeds.of_finish {s : Standing α} (h : s.Heeds signal post aborted blamed) {f : Finish α}
    (hf : s.finish? = some f) : post aborted blamed f.value := by
  cases s with
  | finished f' =>
    cases hf
    exact h
  | _ => cases hf

variable [Endpoint σ] {l : Link σ}

/-- What comes of a turn: the errand goes on to keep to the signal, and if it was cancelled, the signal was raised
before, and before it made an abort itself. -/
def Turned (signal : Signal) (post : Bool → Prop → α → Prop) (aborted : Bool) (blamed : Prop) (l : Link σ)
    (out : Link σ × Standing α) : Prop :=
  ∃ aborted' blamed', l.Raises signal aborted aborted' out.1 ∧
    (blamed' → blamed ∨ aborted = false ∧ signal ∈ l.raised) ∧ out.2.Heeds signal post aborted' blamed'

omit [Endpoint σ] in
/-- What comes before without an abort does not count. -/
theorem Turned.after {l' : Link σ} {out : Link σ × Standing α} (h : Turned signal post aborted blamed l' out)
    (hraises : l.Raises signal aborted aborted l') (hraised : l'.raised = l.raised) :
    Turned signal post aborted blamed l out := by
  obtain ⟨aborted', blamed', hnext, hblamed, hheeds⟩ := h
  rw [hraised] at hblamed
  exact ⟨aborted', blamed', hraises.trans hnext, hblamed, hheeds⟩

omit [Endpoint σ] in
theorem Turned.waits {l' : Link σ} {s : Standing α} (hraises : l.Raises signal aborted aborted l')
    (h : s.Heeds signal post aborted blamed) : Turned signal post aborted blamed l (l', s) :=
  ⟨aborted, blamed, hraises, .inl, h⟩

/-- The turns that parts have at one instant, and what follows if the run ends. -/
theorem turned_settle {run : PartRun} {next : PartRun.Outcome → Dialogue α} (hwatches : run.cancel = some signal)
    (hissues : l.Issues run.pending)
    (hrest : ∀ outcome, (next outcome).Heeds signal post false (blamed ∨ outcome = .error .cancelled))
    (hnext : ∀ outcome (l' : Link σ),
      Turned signal post false (blamed ∨ outcome = .error .cancelled) l' (talk (next outcome) l')) :
    match run.settle l with
    | (l', run', .inl due) => Turned signal post false blamed l (l', .sending run' due next)
    | (l', _, .inr outcome) => Turned signal post false blamed l (talk (next outcome) l') := by
  have hraises : l.Raises signal false false (run.settle l).1 := PartRun.settle_raises hwatches hissues
  obtain ⟨hraised, -, hsame, hcancelled⟩ := PartRun.settle_signals hwatches l
  generalize run.settle l = out at hraises hraised hsame hcancelled
  obtain ⟨l', run', due | outcome⟩ := out
  · exact .waits hraises ⟨rfl, hsame, hrest⟩
  · obtain ⟨aborted', blamed', hafter, hblamed, hheeds⟩ := hnext outcome l'
    refine ⟨aborted', blamed', hraises.trans hafter, fun h => ?_, hheeds⟩
    rcases hblamed h with (hold | rfl) | ⟨-, hin⟩
    · exact .inl hold
    · exact .inr ⟨rfl, hcancelled rfl⟩
    · exact .inr ⟨rfl, hraised ▸ hin⟩

theorem heeds_talk {d : Dialogue α} (h : d.Heeds signal post aborted blamed) :
    ∀ l : Link σ, Turned signal post aborted blamed l (talk d l) := by
  induction h with
  | done allowed => exact fun l => .waits (.same rfl rfl rfl) allowed
  | @ask aborted blamed r next other rest ih =>
    intro l
    have hstart : l.Raises signal aborted aborted (l.start r).1 := .start other
    simp only [talk]
    split
    · have hfinish : (l.start r).1.Raises signal aborted aborted ((l.start r).1.finish r (l.start r).2).1 :=
        .finish (Link.issued_start (Nat.zero_le _))
      exact (ih _ _).after (hstart.trans hfinish) rfl
    · exact .waits hstart rest
  | @pause aborted blamed base next rest ih =>
    intro l
    have hpause : l.Raises signal aborted aborted (l.drawPause base).1 := .same rfl rfl rfl
    simp only [talk]
    split
    · exact (ih _).after hpause rfl
    · exact .waits hpause rest
  | @parts blamed run next new watches rest ih =>
    intro l
    have hissues : l.Issues run.pending := by
      rw [new]
      exact List.forall_mem_nil _
    have hsettle := turned_settle watches hissues rest ih
    simp only [talk]
    split
    · next hout =>
      rw [hout] at hsettle
      exact hsettle
    · next hout =>
      rw [hout] at hsettle
      exact hsettle
  | @abort aborted blamed name next rest ih =>
    intro l
    have habort : l.Raises signal aborted true ((l.raise signal).start (.abort name)).1 := .abort name
    simp only [talk]
    split
    · have hfinish : ((l.raise signal).start (.abort name)).1.Raises signal true true
          (((l.raise signal).start (.abort name)).1.finish (.abort name)
            ((l.raise signal).start (.abort name)).2).1 :=
        .finish (Link.issued_start (Nat.zero_le _))
      obtain ⟨aborted', blamed', hafter, hblamed, hheeds⟩ := ih _ _
      refine ⟨aborted', blamed', (habort.trans hfinish).trans hafter, fun h => ?_, hheeds⟩
      rcases hblamed h with hold | ⟨hfalse, -⟩
      · exact .inl hold
      · cases hfalse
    · exact ⟨true, blamed, habort, .inl, rest⟩

/-- An errand that goes on keeps to the signal. -/
theorem heeds_proceed {s : Standing α} (h : s.Heeds signal post aborted blamed) (hissues : l.Issues s.pending) :
    Turned signal post aborted blamed l (s.proceed l) := by
  cases s with
  | calling r ticket due next =>
    simp only [proceed]
    split
    · have hfinish : l.Raises signal aborted aborted (l.finish r ticket).1 :=
        .finish (hissues (r, ticket) List.mem_cons_self)
      exact (heeds_talk (h _) _).after hfinish rfl
    · exact .waits (.same rfl rfl rfl) h
  | pausing due next =>
    simp only [proceed]
    split
    · exact heeds_talk h l
    · exact .waits (.same rfl rfl rfl) h
  | sending run due next =>
    obtain ⟨rfl, hwatches, hrest⟩ := h
    have hissued : l.Issues (run.rouse l.now).pending := hissues.mono fun x => (run.pending_rouse l.now).mem_iff.1
    have hroused : (run.rouse l.now).cancel = some signal := hwatches
    have hsettle := turned_settle hroused hissued hrest fun outcome l' => heeds_talk (hrest outcome) l'
    simp only [proceed]
    split
    · next hout =>
      rw [hout] at hsettle
      exact hsettle
    · next hout =>
      rw [hout] at hsettle
      exact hsettle
  | fresh start d => exact .waits (.same rfl rfl rfl) h
  | queued d => exact .waits (.same rfl rfl rfl) h
  | «over» value => exact .waits (.same rfl rfl rfl) h
  | finished f => exact .waits (.same rfl rfl rfl) h

variable {fate : α → Prop}

omit [Endpoint σ] in
theorem of_doomed {s : Standing α} (h : s.left.Doomed signal fate) {f : Finish α} (hf : s.finish? = some f) :
    fate f.value := by
  cases s with
  | finished f' =>
    cases hf
    exact h
  | _ => cases hf

theorem doomed_talk {d : Dialogue α} (h : d.Doomed signal fate) {l : Link σ} (hraised : signal ∈ l.raised) :
    (talk d l).2.left.Doomed signal fate := by
  induction d generalizing l with
  | done a => exact h
  | ask r next ih =>
    simp only [talk]
    split
    · exact ih _ (h _) (l := ((l.start r).1.finish r (l.start r).2).1) hraised
    · exact h
  | pause base next ih =>
    simp only [talk]
    split
    · exact ih h (l := (l.drawPause base).1) hraised
    · exact h
  | parts run next ih =>
    obtain ⟨hwatches, hnext⟩ := h
    simp only [talk, PartRun.settle_of_raised hwatches hraised]
    exact ih _ hnext hraised
  | raise s next ih => exact ih h (l := l.raise s) (List.mem_cons_of_mem _ hraised)

theorem doomed_proceed {s : Standing α} (h : s.left.Doomed signal fate) (hraised : signal ∈ l.raised) :
    (s.proceed l).2.left.Doomed signal fate := by
  cases s with
  | calling r ticket due next =>
    simp only [proceed]
    split
    · exact doomed_talk (l := (l.finish r ticket).1) (h _) hraised
    · exact h
  | pausing due next =>
    simp only [proceed]
    split
    · exact doomed_talk h hraised
    · exact h
  | sending run due next =>
    have htalk := doomed_talk (d := .parts (run.rouse l.now) next) h hraised
    simp only [talk] at htalk
    exact htalk
  | fresh start d => exact h
  | queued d => exact h
  | «over» value => exact h
  | finished f => exact h

end Standing

end ObjectFlush
