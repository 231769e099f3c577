import ObjectFlush.Proofs.Upload.Awaited
import ObjectFlush.Proofs.Upload.Seating

/-!
How a run gives out its places. At every moment of a run no more parts are in flight than the policy
allows, no more calls are outstanding than parts are in flight, and no place stays free while a part is
pending (`Moment.Bounded`). Parts are started, and make their first calls, in the order of their numbers
(`part_run_dispatch`). No two parts need different numbers for that.
-/

namespace ObjectFlush

namespace Moment

variable {σ : Type} [Endpoint σ]

/-- The instants of a moment: its beats, if a part has its turn. -/
def beats (m : Moment σ) : List (Beat σ) :=
  match m.turn with
  | none => [⟨m.link, none⟩]
  | some part => part.beats m.run.policy m.run.upload m.link

/-- The place of the part that makes the calls of a moment, once for each call. -/
def callers (m : Moment σ) : List Nat :=
  match m.turn with
  | none => []
  | some part =>
    ((part.look m.run.policy m.run.upload m.link).1.calls.drop m.link.calls.length).map
      fun _ => part.slot

end Moment

/-- The places in the log of the calls that the parts of a run wait for. -/
def PartRun.outstanding (r : PartRun) : List Nat :=
  r.ready.flatMap (·.places) ++ r.asleep.flatMap (·.2.places)

/-- The parts that make the calls of some moments, call by call. -/
def callers {σ : Type} [Endpoint σ] (history : List (Moment σ)) : List Nat :=
  history.flatMap Moment.callers

/-- The places at a moment of a run whose parts are started in `order` and whose calls follow the first
`base`. -/
structure Moment.Bounded {σ : Type} [Endpoint σ] (policy : PartPolicy) (base : Nat) (order : List Nat)
    (m : Moment σ) : Prop where
  /-- A policy that allows no part at once allows one. -/
  inFlight : m.run.statuses.count .inFlight ≤ max 1 policy.concurrency
  /-- A call that is not awaited has ended, or its time is over. -/
  outstanding : ∀ b ∈ m.beats,
    (b.places ++ m.run.outstanding).length ≤ m.run.statuses.count .inFlight ∧
      b.link.Awaits policy.timeout base (b.places ++ m.run.outstanding)
  /-- The parts that are not pending are the first in order. -/
  started : ∃ started waiting, order = started ++ waiting ∧
    ∀ i : Nat, m.run.statuses[i]? = some .pending ↔ i ∈ waiting
  /-- When no part has a turn, no place is free, or no part is pending. -/
  full : m.turn = none → m.run.fill.ready = [] →
    .pending ∉ m.run.statuses ∨ m.run.statuses.count .inFlight = max 1 policy.concurrency

namespace PartRun

variable {σ : Type} {policy : PartPolicy} {upload : String} {parts : List PartRequest} {order : List Nat}
  {origin l l' : Link σ} {r r' : PartRun} {part : ReadyPart} {rest : List ReadyPart}

/-! ## The calls that are outstanding -/

theorem outstanding_fill (r : PartRun) : r.fill.outstanding = r.outstanding := by
  have hfresh : ((r.queue.take r.free).map fun p => ReadyPart.fresh p.1 p.2).flatMap (·.places) = [] := by
    rw [List.flatMap_map]
    exact List.flatMap_eq_nil_iff.2 fun _ _ => rfl
  rw [outstanding, fill, List.flatMap_append, hfresh, List.append_nil, outstanding]

theorem outstanding_rouse (r : PartRun) (time : Nat) : (r.rouse time).outstanding.Perm r.outstanding := by
  have hwoken : ((r.asleep.filter (·.1 ≤ time)).map fun p => ReadyPart.woken p.2).flatMap (·.places) =
      (r.asleep.filter (·.1 ≤ time)).flatMap (·.2.places) := List.flatMap_map ..
  rw [outstanding, rouse, List.flatMap_append, hwoken, List.append_assoc, ← List.flatMap_append,
    outstanding]
  exact ((due_append_perm r.asleep time).flatMap_right _).append_left _

/-- A part waits for one call at most. -/
theorem length_outstanding_le (r : PartRun) : r.outstanding.length ≤ r.underway.length := by
  have hone : ∀ part : ActivePart, part.places.length ≤ 1 := by
    intro part
    rw [ActivePart.places, List.length_map]
    exact Option.length_toList_le
  have hready : ∀ ready : List ReadyPart,
      (ready.flatMap (·.places)).length ≤ (ready.filterMap ReadyPart.woken?).length := by
    intro ready
    induction ready with
    | nil => exact Nat.le_refl _
    | cons part rest ih =>
      cases part with
      | fresh slot part => exact ih
      | woken part =>
        have := hone part
        simp only [List.flatMap_cons, List.length_append, ReadyPart.places]
        exact Nat.le_trans (Nat.add_le_add this ih) (by simp [ReadyPart.woken?]; omega)
  have hasleep : ∀ asleep : List (Nat × ActivePart),
      (asleep.flatMap (·.2.places)).length ≤ asleep.length := by
    intro asleep
    induction asleep with
    | nil => exact Nat.le_refl _
    | cons p rest ih =>
      have := hone p.2
      simp only [List.flatMap_cons, List.length_append, List.length_cons]
      omega
  have := hready r.ready
  have := hasleep r.asleep
  simp only [outstanding, underway, List.length_append, List.length_map]
  omega

theorem outstanding_of_ready (hready : r.ready = part :: rest) :
    r.outstanding = part.places ++ (r.begun part rest).outstanding := by
  simp only [outstanding, hready, List.flatMap_cons, List.append_assoc]
  rfl

theorem awaiting_turn [Endpoint σ] (l : Link σ) (hready : r.ready = part :: rest) :
    r.awaiting = part.fresh?.toList ++ (r.turn l part rest).2.1.awaiting := by
  have hturn : (r.turn l part rest).2.1.awaiting = (r.begun part rest).awaiting := by
    simp only [PartRun.turn]
    split <;> rfl
  rw [hturn]
  exact awaiting_of_ready hready

theorem awaiting_await (r : PartRun) (l : Link σ) (due : Nat) :
    (r.await l due).2.awaiting = r.awaiting := by
  unfold PartRun.await
  split
  · split
    · rfl
    · exact r.awaiting_rouse due
  · exact r.awaiting_rouse due

theorem outstanding_await (r : PartRun) (l : Link σ) (due : Nat) :
    (r.await l due).2.outstanding.Perm r.outstanding := by
  unfold PartRun.await
  split
  · split
    · exact .refl _
    · exact r.outstanding_rouse due
  · exact r.outstanding_rouse due

theorem underway_await (r : PartRun) (l : Link σ) (due : Nat) :
    (r.await l due).2.underway.Perm r.underway := by
  unfold PartRun.await
  split
  · split
    · exact .refl _
    · exact r.underway_rouse due
  · exact r.underway_rouse due

/-- Time does not pass by a turn. -/
theorem turn_moves_or_ends [Endpoint σ] (r : PartRun) (l : Link σ) (part : ReadyPart)
    (rest : List ReadyPart) :
    (r.turn l part rest).2.2 = .moved ∨ ∃ e, (r.turn l part rest).2.2 = .ended (.error e) := by
  simp only [PartRun.turn]
  split
  · exact .inl rfl
  · exact .inl rfl
  · exact .inr ⟨_, rfl⟩

/-- A step that goes on at once is the turn of a part. -/
theorem of_step_moved [Endpoint σ] (h : r.step l = (l', r', .moved)) :
    r.isCancelled l = false ∧
      ∃ part rest, r.fill.ready = part :: rest ∧ r.fill.turn l part rest = (l', r', .moved) := by
  obtain ⟨-, hstep⟩ | ⟨hcancel, ⟨part, rest, hready, hstep⟩ |
    ⟨-, ⟨-, hstep⟩ | ⟨due, -, hstep⟩⟩⟩ := r.step_cases l
  · cases h.symm.trans hstep
  · exact ⟨hcancel, part, rest, hready, hstep.symm.trans h⟩
  · cases h.symm.trans hstep
  · cases h.symm.trans hstep

/-- A step that has the run wait fills its places, and no more. -/
theorem of_step_idle [Endpoint σ] {due : Nat} (h : r.step l = (l', r', .idle due)) :
    r.isCancelled l = false ∧ r.fill.ready = [] ∧ r.fill.due? = some due ∧ l' = l ∧ r' = r.fill := by
  obtain ⟨-, hstep⟩ | ⟨hcancel, ⟨part, rest, -, hstep⟩ |
    ⟨hready, ⟨-, hstep⟩ | ⟨due', hdue, hstep⟩⟩⟩ := r.step_cases l
  · cases h.symm.trans hstep
  · have hidle := congrArg (·.2.2) (h.symm.trans hstep)
    rcases r.fill.turn_moves_or_ends l part rest with hmoved | ⟨e, hended⟩
    · cases hidle.trans hmoved
    · cases hidle.trans hended
  · cases h.symm.trans hstep
  · cases h.symm.trans hstep
    exact ⟨hcancel, hready, hdue, rfl, rfl⟩

/-- The step that ends a run finds it cancelled, is the turn of a part, or finds none left. -/
theorem of_step_ended [Endpoint σ] {outcome : Outcome} (h : r.step l = (l', r', .ended outcome)) :
    (r.isCancelled l = true ∧ l' = l ∧ r' = r ∧ outcome = .error .cancelled) ∨ r.isCancelled l = false ∧
      ((∃ part rest, r.fill.ready = part :: rest ∧ r.fill.turn l part rest = (l', r', .ended outcome)) ∨
        r.fill.ready = [] ∧ r.fill.due? = none ∧ l' = l ∧ r' = r.fill ∧ outcome = .ok r.fill.sorted) := by
  obtain ⟨hcancel, hstep⟩ | ⟨hcancel, ⟨part, rest, hready, hstep⟩ |
    ⟨hready, ⟨hdue, hstep⟩ | ⟨due', -, hstep⟩⟩⟩ :=
    r.step_cases l
  · cases h.symm.trans hstep
    exact .inl ⟨hcancel, rfl, rfl, rfl⟩
  · exact .inr ⟨hcancel, .inl ⟨part, rest, hready, hstep.symm.trans h⟩⟩
  · cases h.symm.trans hstep
    exact .inr ⟨hcancel, .inr ⟨hready, hdue, rfl, rfl, rfl⟩⟩
  · cases h.symm.trans hstep

/-- The run, started over `origin`, sends `parts` in `order`, and a call of it that has no end is
outstanding, or its time is over. -/
structure Serves (policy : PartPolicy) (upload : String) (parts : List PartRequest) (order : List Nat)
    (origin l : Link σ) (r : PartRun) : Prop where
  seated : r.Seated parts order
  samePolicy : r.policy = policy
  sameUpload : r.upload = upload
  /-- The calls that were made before the run are still there. -/
  base_le : origin.calls.length ≤ l.calls.length
  earlier : l.calls.take origin.calls.length = origin.calls
  waits : ∀ h ∈ r.held, h.Waits policy upload origin.calls.length l
  due : ∀ h ∈ r.ready, h.Due policy l.now
  later : ∀ p ∈ r.asleep, l.now ≤ p.1 ∧ p.2.DueAt policy p.1
  awaits : l.Awaits policy.timeout origin.calls.length r.outstanding

namespace Serves

theorem start (policy : PartPolicy) (upload : String) (cancel : Option Signal)
    (parts : List PartRequest) (l : Link σ) :
    Serves policy upload parts ((PartRun.start policy upload cancel parts).queue.map (·.1)) l l
      (PartRun.start policy upload cancel parts) := by
  refine ⟨.start policy upload cancel parts l, rfl, rfl, Nat.le_refl _, List.take_length, ?_,
    List.forall_mem_nil _, List.forall_mem_nil _, ?_⟩
  · intro x hx
    obtain ⟨p, -, rfl⟩ := List.mem_map.1 hx
    trivial
  · intro i c hi hc _
    exact absurd (List.getElem?_eq_some_iff.1 hc).1 (Nat.not_lt.2 hi)

theorem fill (h : Serves policy upload parts order origin l r) :
    Serves policy upload parts order origin l r.fill := by
  refine ⟨h.seated.fill, h.samePolicy, h.sameUpload, h.base_le, h.earlier,
    fun x hx => h.waits x (r.held_fill.mem_iff.1 hx), fill_due h.due, h.later, ?_⟩
  rw [outstanding_fill]
  exact h.awaits

/-- The clock may run as long as no part has a turn and none is overdue. -/
theorem pass (h : Serves policy upload parts order origin l r) (hready : r.ready = [])
    (hcalls : l'.calls = l.calls) (hle : l.now ≤ l'.now) (hnow : ∀ p ∈ r.asleep, l'.now ≤ p.1) :
    Serves policy upload parts order origin l' r := by
  refine ⟨h.seated, h.samePolicy, h.sameUpload, hcalls ▸ h.base_le, hcalls ▸ h.earlier, ?_, ?_,
    fun p hp => ⟨hnow p hp, (h.later p hp).2⟩, h.awaits.mono hcalls hle fun _ hi => hi⟩
  · intro x hx
    refine (h.waits x hx).imp fun q t ht => ⟨ht.recent, ?_⟩
    rw [Link.heads, hcalls]
    exact ht.head
  · rw [hready]
    exact List.forall_mem_nil _

theorem rouse (h : Serves policy upload parts order origin l r) {time : Nat} (hnow : l.now = time)
    (hdue : ∀ p ∈ r.asleep, time ≤ p.1) : Serves policy upload parts order origin l (r.rouse time) := by
  refine ⟨h.seated.rouse time, h.samePolicy, h.sameUpload, h.base_le, h.earlier,
    fun x hx => h.waits x ((r.held_rouse time).mem_iff.1 hx), ?_,
    fun p hp => h.later p (List.mem_filter.1 hp).1,
    h.awaits.mono rfl (Nat.le_refl _) fun i hi => (r.outstanding_rouse time).mem_iff.2 hi⟩
  subst hnow
  exact rouse_due h.due (fun p hp => (h.later p hp).2) hdue

theorem await (h : Serves policy upload parts order origin l r) {due : Nat} (hready : r.ready = [])
    (hdue : r.due? = some due) :
    Serves policy upload parts order origin (r.await l due).1 (r.await l due).2 := by
  obtain ⟨-, hle, hnow, hrun⟩ := await_spec l hdue fun p hp => (h.later p hp).1
  have hpassed := h.pass hready (r.calls_await l due) hle hnow
  rcases hrun with hrun | ⟨hdueNow, hrun⟩
  · rw [hrun]
    exact hpassed
  · rw [hrun]
    exact hpassed.rouse hdueNow (due_le hdue)

/-- What the turn of a part does: it starts calls of its own only, and at each of its beats a call without
an end is awaited, or its time is over. -/
theorem turn [Endpoint σ] (h : Serves policy upload parts order origin l r)
    (hready : r.ready = part :: rest) :
    l.Adds origin.calls.length (part.part.Sends upload) (r.turn l part rest).1 ∧
      ActivePart.Steady policy origin.calls.length (r.begun part rest).outstanding
        (part.beats policy upload l) ∧
      Serves policy upload parts order origin (r.turn l part rest).1 (r.turn l part rest).2.1 := by
  have hawaits := h.awaits
  rw [outstanding_of_ready hready] at hawaits
  obtain ⟨hadds, hlook, hsteady⟩ := ReadyPart.look_leaves h.base_le
    (h.waits part (by simp [held, hready])) (h.due part (by simp [hready])) hawaits
  have hseated := h.seated.turn (l := l) hready
  obtain rfl := h.samePolicy
  obtain rfl := h.sameUpload
  have hwaits : ∀ x ∈ (r.begun part rest).held, x.Waits r.policy r.upload origin.calls.length
      (part.look r.policy r.upload l).1 := by
    intro x hx
    refine (h.waits x ?_).imp fun _ _ ht => hadds.issued ht
    rw [held, hready]
    exact List.mem_cons_of_mem _ hx
  have hdue : ∀ x ∈ rest, x.Due r.policy (part.look r.policy r.upload l).1.now := by
    intro x hx
    rw [hadds.now]
    exact h.due x (by simp [hready, hx])
  have hlater : ∀ p ∈ r.asleep, (part.look r.policy r.upload l).1.now ≤ p.1 ∧
      p.2.DueAt r.policy p.1 := by
    intro p hp
    rw [hadds.now]
    exact h.later p hp
  have hbase := Nat.le_trans h.base_le hadds.length_le
  have hearlier := hadds.earlier.trans h.earlier
  unfold PartRun.turn at hseated ⊢
  simp only [mark, List.set_set] at hseated ⊢
  generalize part.look r.policy r.upload l = out at *
  obtain ⟨l', turn⟩ := out
  cases turn with
  | waits time next =>
    obtain ⟨hsame, hnextWaits, htime, hnextDue, hnextAwaits⟩ := hlook
    refine ⟨hadds, hsteady, hseated ?_, rfl, rfl, hbase, hearlier, ?_, hdue, ?_, ?_⟩
    · intro time' next' heq
      cases heq
      exact hsame
    · intro x hx
      simp only [held, List.map_append, List.mem_append, List.map_singleton, List.mem_singleton] at hx
      obtain (hx | hx | rfl) | hx := hx
      · exact hwaits x (by simp [held, PartRun.begun, mark, hx])
      · exact hwaits x (List.mem_append_left _ (List.mem_append_right _ hx))
      · exact hnextWaits
      · exact hwaits x (List.mem_append_right _ hx)
    · intro p hp
      rcases List.mem_append.1 hp with hp | hp
      · exact hlater p hp
      · rw [List.mem_singleton.1 hp]
        exact ⟨htime, hnextDue⟩
    · refine hnextAwaits.mono rfl (Nat.le_refl _) fun i hi => ?_
      simp only [outstanding, PartRun.begun, mark, List.flatMap_append, List.mem_append,
        List.flatMap_singleton] at hi ⊢
      tauto
  | done tag =>
    exact ⟨hadds, hsteady, hseated fun _ _ h => (by cases h), rfl, rfl, hbase, hearlier, hwaits, hdue,
      hlater, hlook⟩
  | failed e =>
    exact ⟨hadds, hsteady, hseated fun _ _ h => (by cases h), rfl, rfl, hbase, hearlier, hwaits, hdue,
      hlater, hlook⟩

/-- A property of the course of a run goes by its turns. -/
theorem along [Endpoint σ] {motive : Link σ → PartRun → List (Moment σ) → Link σ → PartRun → Prop}
    (ended : ∀ l r r', Serves policy upload parts order origin l r → r' = r ∨ r' = r.fill →
      motive l r [⟨l, r, none⟩] l r')
    (last : ∀ l r part rest, Serves policy upload parts order origin l r → r.fill.ready = part :: rest →
      motive l r [⟨l, r, none⟩, ⟨l, r.fill.begun part rest, some part⟩]
        (r.fill.turn l part rest).1 (r.fill.turn l part rest).2.1)
    (next : ∀ l r part rest moments l' r', Serves policy upload parts order origin l r →
      r.fill.ready = part :: rest → (r.fill.turn l part rest).2.2 = .moved →
      motive (r.fill.turn l part rest).1 (r.fill.turn l part rest).2.1 moments l' r' →
      motive l r (⟨l, r, none⟩ :: ⟨l, r.fill.begun part rest, some part⟩ :: moments) l' r')
    (waited : ∀ l r due moments l' r', Serves policy upload parts order origin l r →
      r.fill.ready = [] → r.fill.due? = some due →
      motive (r.fill.await l due).1 (r.fill.await l due).2 moments l' r' →
      motive l r (⟨l, r, none⟩ :: moments) l' r')
    (h : Serves policy upload parts order origin l r) :
    motive l r (r.history l) (r.run l).1 (r.run l).2.1 := by
  fun_induction PartRun.history r l with
  | case1 r l l' r' outcome hstep =>
    rw [run_of_ended hstep]
    rcases of_step_ended hstep with ⟨hcancel, rfl, rfl, -⟩ | ⟨hcancel, ⟨part, rest, hready, hturn⟩ |
      ⟨hready, -, rfl, rfl, -⟩⟩
    · rw [moments_of_no_turn (.inl hcancel)]
      exact ended _ _ _ h (.inl rfl)
    · have hlast := last l r part rest h hready
      rw [hturn] at hlast
      rwa [moments_of_turn hcancel hready]
    · rw [moments_of_no_turn (.inr hready)]
      exact ended _ _ _ h (.inr rfl)
  | case2 r l l' r' hstep ih =>
    rw [run_of_moved hstep]
    obtain ⟨hcancel, part, rest, hready, hturn⟩ := of_step_moved hstep
    have hserves := (h.fill.turn hready).2.2
    have hnext := next l r part rest (r'.history l') (r'.run l').1 (r'.run l').2.1 h hready (by rw [hturn])
    rw [hturn] at hserves hnext
    rw [moments_of_turn hcancel hready]
    exact hnext (ih hserves)
  | case3 r l l' r' due hstep ih =>
    rw [run_of_idle hstep]
    obtain ⟨-, hready, hdue, rfl, rfl⟩ := of_step_idle hstep
    rw [moments_of_no_turn (.inr hready)]
    exact waited _ _ _ _ _ _ h hready hdue (ih (h.fill.await hready hdue))

/-! ## The moments of a run -/

variable [Endpoint σ]

theorem bounded_quiet (h : Serves policy upload parts order origin l r) :
    Moment.Bounded policy origin.calls.length order ⟨l, r, none⟩ := by
  have hcount := h.seated.ledger.count_inFlight
  have hlimit : r.limit = max 1 policy.concurrency := by rw [limit, h.samePolicy]
  obtain ⟨started, hstarted⟩ := h.seated.order
  refine ⟨?_, ?_, ⟨started, r.awaiting, hstarted.symm, h.seated.ledger.pending⟩, ?_⟩
  · rw [hcount, ← hlimit]
    exact Nat.le_trans r.length_underway_le h.seated.room
  · intro b hb
    obtain rfl := List.mem_singleton.1 hb
    exact ⟨hcount ▸ r.length_outstanding_le, h.awaits⟩
  · intro _ hready
    rw [← hlimit]
    exact h.seated.full hready

theorem bounded_turn (h : Serves policy upload parts order origin l r) (hready : r.ready = part :: rest) :
    Moment.Bounded policy origin.calls.length order ⟨l, r.begun part rest, some part⟩ := by
  have hledger := h.seated.begun hready
  have hcount := hledger.count_inFlight
  have hlimit : r.limit = max 1 policy.concurrency := by rw [limit, h.samePolicy]
  obtain ⟨started, hstarted⟩ := h.seated.order
  refine ⟨?_, ?_, ⟨started ++ part.fresh?.toList, (r.begun part rest).awaiting, ?_, hledger.pending⟩,
    fun hnone => by cases hnone⟩
  · -- The part has the place that it had as it was ready.
    have hroom := h.seated.room
    have hunderway := (r.begun part rest).length_underway_le
    rw [hready, List.length_cons] at hroom
    rw [hcount, ← hlimit, List.length_cons]
    exact Nat.le_trans (Nat.succ_le_succ hunderway)
      (by simp only [PartRun.begun, mark]; omega)
  · intro b hb
    have hplaces : b.places.length ≤ 1 := by
      rw [Beat.places, List.length_map]
      exact Option.length_toList_le
    have hothers := (r.begun part rest).length_outstanding_le
    refine ⟨?_, ?_⟩
    · rw [hcount, List.length_append, List.length_cons]
      show b.places.length + (r.begun part rest).outstanding.length ≤ _
      omega
    · have hsteady := (h.turn hready).2.1
      obtain rfl := h.samePolicy
      obtain rfl := h.sameUpload
      exact hsteady b hb
  · rw [← hstarted, awaiting_of_ready hready, List.append_assoc]

theorem bounded (h : Serves policy upload parts order origin l r) :
    (∀ m ∈ r.history l, m.Bounded policy origin.calls.length order) ∧
      Serves policy upload parts order origin (r.run l).1 (r.run l).2.1 := by
  refine h.along (motive := fun _ _ moments l' r' =>
    (∀ m ∈ moments, m.Bounded policy origin.calls.length order) ∧
      Serves policy upload parts order origin l' r') ?_ ?_ ?_ ?_
  · rintro l r r' h hr
    refine ⟨List.forall_mem_singleton.2 h.bounded_quiet, ?_⟩
    rcases hr with rfl | rfl
    · exact h
    · exact h.fill
  · intro l r part rest h hready
    exact ⟨List.forall_mem_cons.2 ⟨h.bounded_quiet, List.forall_mem_singleton.2
      (h.fill.bounded_turn hready)⟩, (h.fill.turn hready).2.2⟩
  · intro l r part rest moments l' r' h hready _ ih
    exact ⟨List.forall_mem_cons.2 ⟨h.bounded_quiet, List.forall_mem_cons.2
      ⟨h.fill.bounded_turn hready, ih.1⟩⟩, ih.2⟩
  · intro l r due moments l' r' h _ _ ih
    exact ⟨List.forall_mem_cons.2 ⟨h.bounded_quiet, ih.1⟩, ih.2⟩

/-! ## The order of a run -/

omit [Endpoint σ] in
theorem eraseDups_replicate_append (n i : Nat) (later : List Nat) :
    (List.replicate (n + 1) i ++ later).eraseDups = i :: (later.filter (· ≠ i)).eraseDups := by
  have hsame : (List.replicate n i).filter (fun b => !b == i) = [] := by simp
  rw [List.replicate_succ, List.cons_append, List.eraseDups_cons, List.filter_append, hsame,
    List.nil_append]
  congr 2
  refine List.filter_congr fun b _ => ?_
  by_cases hb : b = i <;> simp [hb]

/-- The parts that are started are the next in order. -/
theorem awaiting_eq (h : Serves policy upload parts order origin l r) :
    r.awaiting = dispatched (r.history l) ++ (r.run l).2.1.awaiting := by
  refine h.along (motive := fun _ r moments _ r' => r.awaiting = dispatched moments ++ r'.awaiting)
    ?_ ?_ ?_ ?_
  · rintro l r r' - (rfl | rfl)
    · rfl
    · exact r.awaiting_fill.symm
  · intro l r part rest _ hready
    rw [← awaiting_fill, awaiting_turn l hready]
    cases part <;> rfl
  · intro l r part rest moments l' r' _ hready _ ih
    rw [← awaiting_fill, awaiting_turn l hready, ih, ← List.append_assoc]
    cases part <;> rfl
  · intro l r due moments l' r' _ _ _ ih
    rw [← awaiting_fill, ← awaiting_await r.fill l due, ih]
    rfl

/-- The call, known by its head, is one of the part at `i`. -/
def CalledFor (parts : List PartRequest) (upload : String) (i : Nat) (head : Request × Nat) : Prop :=
  ∃ p, parts[i]? = some p ∧ p.Sends upload head.1

theorem calls_of_turn (h : Serves policy upload parts order origin l r) (hready : r.ready = part :: rest) :
    ∃ added, (r.turn l part rest).1.heads = l.heads ++ added ∧
      List.Forall₂ (CalledFor parts upload)
        (Moment.callers ⟨l, r.begun part rest, some part⟩) added := by
  obtain ⟨added, hadded, hsends⟩ := (h.turn hready).1.heads
  refine ⟨added, hadded, ?_⟩
  have hlog : added = ((r.turn l part rest).1.calls.drop l.calls.length).map Call.head := by
    rw [List.map_drop]
    change added = (r.turn l part rest).1.heads.drop _
    rw [hadded, ← Link.length_heads, List.drop_left]
  rw [hlog, turn_link]
  refine List.forall₂_map_left_iff.2 (List.forall₂_map_right_iff.2 (List.forall₂_same.2 ?_))
  intro c hc
  refine ⟨part.part, h.seated.part part (by simp [held, hready]), hsends _ ?_⟩
  rw [hlog, turn_link]
  exact List.mem_map_of_mem hc

/-- Each call of a run is one of the part that makes it. -/
theorem calls_of_run (h : Serves policy upload parts order origin l r) :
    ∃ added, (r.run l).1.heads = l.heads ++ added ∧
      List.Forall₂ (CalledFor parts upload) (callers (r.history l)) added := by
  refine h.along (motive := fun l _ moments l' _ => ∃ added, l'.heads = l.heads ++ added ∧
    List.Forall₂ (CalledFor parts upload) (callers moments) added) ?_ ?_ ?_ ?_
  · intro l r r' _ _
    exact ⟨[], (List.append_nil _).symm, .nil⟩
  · intro l r part rest h hready
    obtain ⟨added, hadded, hcalls⟩ := h.fill.calls_of_turn hready
    refine ⟨added, hadded, ?_⟩
    simpa [callers, Moment.callers] using hcalls
  · intro l r part rest moments l' r' h hready _ ⟨later, hlater, hcallers⟩
    obtain ⟨added, hadded, hcalls⟩ := h.fill.calls_of_turn hready
    refine ⟨added ++ later, ?_, List.rel_append hcalls hcallers⟩
    rw [hlater, hadded, List.append_assoc]
  · intro l r due moments l' r' _ _ _ ⟨later, hlater, hcallers⟩
    refine ⟨later, hlater.trans ?_, hcallers⟩
    rw [Link.heads, calls_await, Link.heads]

/-- A turn leaves no part under way that was not, but its own. -/
theorem underway_turn (h : Serves policy upload parts order origin l r) (hready : r.ready = part :: rest)
    {i : Nat} (hi : i ∈ (r.turn l part rest).2.1.underway) : i = part.slot ∨ i ∈ r.underway := by
  have hstatus := ((h.turn hready).2.2.seated.ledger.inFlight i).2 hi
  obtain ⟨status, -, hturn⟩ := r.turn_statuses l part rest
  rw [hturn, List.set_set] at hstatus
  by_cases heq : part.slot = i
  · exact .inl heq.symm
  · rw [List.getElem?_set_ne heq] at hstatus
    exact .inr ((h.seated.ledger.inFlight i).1 hstatus)

/-- A part that does not fail in its first turn makes a call in it. -/
theorem calls_of_first_turn (h : Serves policy upload parts order origin l r) {slot : Nat}
    {part : PartRequest} (hmoved : (r.turn l (.fresh slot part) rest).2.2 = .moved) :
    l.calls.length < (r.turn l (.fresh slot part) rest).1.calls.length := by
  obtain rfl := h.samePolicy
  rw [turn_link]
  rcases ReadyPart.calls_of_fresh h.base_le h.awaits with hcalls | ⟨e, hfailed⟩
  · exact hcalls
  · simp only [PartRun.turn, mark] at hmoved
    rw [show ((ReadyPart.fresh slot part).look r.policy r.upload l) = (_, .failed e) from
      Prod.ext rfl hfailed] at hmoved
    cases hmoved

/-- The calls of a turn, and of the turns after it, keep to the order. -/
theorem firsts_of_turn (h : Serves policy upload parts order origin l r) (hready : r.ready = part :: rest)
    {later : List Nat} (hmoved : (r.turn l part rest).2.2 = .moved ∨ later = [])
    (hlater : ∀ begun : List Nat, (∀ i ∈ (r.turn l part rest).2.1.underway, i ∈ begun) →
      (∀ i ∈ (r.turn l part rest).2.1.awaiting, i ∉ begun) →
        (later.filter (· ∉ begun)).eraseDups <+: (r.turn l part rest).2.1.awaiting)
    {begun : List Nat} (hunderway : ∀ i ∈ r.underway, i ∈ begun)
    (hawaiting : ∀ i ∈ r.awaiting, i ∉ begun) :
    ((Moment.callers ⟨l, r.begun part rest, some part⟩ ++ later).filter (· ∉ begun)).eraseDups <+:
      r.awaiting := by
  have hnext := awaiting_turn l hready
  have honce := h.seated.ledger.pendingOnce
  have hcalls : Moment.callers ⟨l, r.begun part rest, some part⟩ = List.replicate
      ((part.look r.policy r.upload l).1.calls.drop l.calls.length).length part.slot :=
    List.map_const' ..
  rw [hcalls, List.filter_append]
  cases part with
  | woken part =>
    -- The part was under way before its turn.
    have hmem : part.slot ∈ begun := hunderway _ (by simp [underway, hready, ReadyPart.woken?])
    have hdropped : (decide ((ReadyPart.woken part).slot ∉ begun)) = false :=
      decide_eq_false (not_not_intro hmem)
    have hsame : r.awaiting = (r.turn l (.woken part) rest).2.1.awaiting := hnext
    rw [List.filter_replicate, hdropped, if_neg Bool.false_ne_true, List.nil_append, hsame]
    rw [hsame] at hawaiting
    refine hlater begun ?_ hawaiting
    intro i hi
    rcases h.underway_turn hready hi with rfl | hi
    · exact hmem
    · exact hunderway i hi
  | fresh slot part =>
    have hsame : r.awaiting = slot :: (r.turn l (.fresh slot part) rest).2.1.awaiting := hnext
    rw [hsame] at hawaiting honce ⊢
    obtain ⟨hnot, -⟩ := List.nodup_cons.1 honce
    have hslot : decide (slot ∉ begun) = true := decide_eq_true (hawaiting slot List.mem_cons_self)
    show (List.filter _ (List.replicate _ slot) ++ _).eraseDups <+: _
    rw [List.filter_replicate, if_pos hslot]
    cases hcount : (((ReadyPart.fresh slot part).look r.policy r.upload l).1.calls.drop
        l.calls.length).length with
    | zero =>
      -- The part has failed without a call, and that is the end of the run.
      rcases hmoved with hmoved | rfl
      · have hfirst := h.calls_of_first_turn hmoved
        rw [turn_link] at hfirst
        rw [List.length_drop] at hcount
        omega
      · exact List.nil_prefix
    | succ n =>
      rw [eraseDups_replicate_append, List.cons_prefix_cons, List.filter_filter]
      refine ⟨rfl, ?_⟩
      have hrest := hlater (slot :: begun) ?_ ?_
      · simpa [List.mem_cons, not_or] using hrest
      · intro i hi
        rcases h.underway_turn hready hi with rfl | hi
        · exact List.mem_cons_self
        · exact List.mem_cons_of_mem _ (hunderway i hi)
      · intro i hi hbegun
        rcases List.mem_cons.1 hbegun with rfl | hbegun
        · exact hnot hi
        · exact hawaiting i (List.mem_cons_of_mem _ hi) hbegun

/-- The parts make their first calls in order, those in `begun` aside. -/
theorem firsts_in_order (h : Serves policy upload parts order origin l r) :
    ∀ begun : List Nat, (∀ i ∈ r.underway, i ∈ begun) → (∀ i ∈ r.awaiting, i ∉ begun) →
      ((callers (r.history l)).filter (· ∉ begun)).eraseDups <+: r.awaiting := by
  refine h.along (motive := fun _ r moments _ _ => ∀ begun : List Nat, (∀ i ∈ r.underway, i ∈ begun) →
    (∀ i ∈ r.awaiting, i ∉ begun) → ((callers moments).filter (· ∉ begun)).eraseDups <+: r.awaiting)
    ?_ ?_ ?_ ?_
  · intro l r r' _ _ begun _ _
    exact List.nil_prefix
  · intro l r part rest h hready begun hunderway hawaiting
    rw [← awaiting_fill] at hawaiting ⊢
    rw [← underway_fill] at hunderway
    exact h.fill.firsts_of_turn hready (.inr rfl) (fun _ _ _ => List.nil_prefix) hunderway hawaiting
  · intro l r part rest moments l' r' h hready hmoved ih begun hunderway hawaiting
    rw [← awaiting_fill] at hawaiting ⊢
    rw [← underway_fill] at hunderway
    exact h.fill.firsts_of_turn hready (.inl hmoved) ih hunderway hawaiting
  · intro l r due moments l' r' _ _ _ ih begun hunderway hawaiting
    rw [← awaiting_fill, ← awaiting_await r.fill l due] at hawaiting ⊢
    refine ih begun (fun i hi => hunderway i ?_) hawaiting
    rw [← underway_fill]
    exact (r.fill.underway_await l due).mem_iff.1 hi

end Serves

/-- All that a run adds to the log is calls of its parts. -/
theorem log_of_run [Endpoint σ] (policy : PartPolicy) (upload : String) (cancel : Option Signal)
    (parts : List PartRequest) (l : Link σ) :
    ∃ log, ((PartRun.start policy upload cancel parts).run l).1.calls = l.calls ++ log ∧
      List.Forall₂ (fun i (c : Call) => ∃ p, parts[i]? = some p ∧ p.Sends upload c.request)
        (callers ((PartRun.start policy upload cancel parts).history l)) log := by
  have hstart := Serves.start policy upload cancel parts l
  obtain ⟨added, hadded, hcallers⟩ := hstart.calls_of_run
  have hearlier := hstart.bounded.2.earlier
  generalize (PartRun.start policy upload cancel parts).run l = out at *
  refine ⟨out.1.calls.drop l.calls.length, ?_, ?_⟩
  · conv_lhs => rw [← List.take_append_drop l.calls.length out.1.calls, hearlier]
  · have hlog : (out.1.calls.drop l.calls.length).map Call.head = added := by
      rw [List.map_drop]
      change out.1.heads.drop _ = added
      rw [hadded, ← Link.length_heads, List.drop_left]
    rw [← hlog] at hcallers
    exact List.forall₂_map_right_iff.1 hcallers

theorem sends_of_run [Endpoint σ] (policy : PartPolicy) (upload : String) (cancel : Option Signal)
    (parts : List PartRequest) (l : Link σ) :
    ∃ log, ((PartRun.start policy upload cancel parts).run l).1.calls = l.calls ++ log ∧
      ∀ c ∈ log, ∃ p ∈ parts, p.Sends upload c.request := by
  obtain ⟨log, hlog, hcallers⟩ := log_of_run policy upload cancel parts l
  refine ⟨log, hlog, ?_⟩
  clear hlog
  generalize callers ((PartRun.start policy upload cancel parts).history l) = slots at hcallers
  induction hcallers with
  | nil => exact List.forall_mem_nil _
  | cons hcall _ ih =>
    obtain ⟨p, hp, hsends⟩ := hcall
    exact List.forall_mem_cons.2 ⟨⟨p, List.mem_of_getElem? hp, hsends⟩, ih⟩

end PartRun

/-- **A run is bounded, keeps to the order of the numbers, and leaves no place free.** The parts that it
starts are the first by number, and their first calls come in that order. At each of its moments and at
its end no more parts are in flight than allowed, no more calls are outstanding than parts are in flight,
and when no part has a turn, all places are taken or no part is pending. -/
theorem part_run_dispatch {σ : Type} [Endpoint σ] (policy : PartPolicy) (upload : String)
    (cancel : Option Signal) (parts : List PartRequest) (l : Link σ) :
    let r := PartRun.start policy upload cancel parts
    ∃ order, StableOrder parts order ∧
      (∃ waiting, order = dispatched (r.history l) ++ waiting ∧
        ∀ i : Nat, (r.run l).2.1.statuses[i]? = some .pending ↔ i ∈ waiting) ∧
      (callers (r.history l)).eraseDups <+: order ∧
      (∃ log, (r.run l).1.calls = l.calls ++ log ∧
        List.Forall₂ (fun i (c : Call) => ∃ p, parts[i]? = some p ∧ p.Sends upload c.request)
          (callers (r.history l)) log) ∧
      ∀ m ∈ r.history l ++ [⟨(r.run l).1, (r.run l).2.1, none⟩],
        m.Bounded policy l.calls.length order := by
  intro r
  have hstart := PartRun.Serves.start policy upload cancel parts l
  have horder : r.awaiting = r.queue.map (·.1) := rfl
  obtain ⟨hbounded, hend⟩ := hstart.bounded
  have hfirsts := hstart.firsts_in_order [] (List.forall_mem_nil _) (fun _ _ => List.not_mem_nil)
  refine ⟨r.awaiting, PartRun.stableOrder_start policy upload cancel parts,
    ⟨_, hstart.awaiting_eq, hend.seated.ledger.pending⟩, ?_,
    PartRun.log_of_run policy upload cancel parts l, ?_⟩
  · simpa using hfirsts
  · intro m hm
    rcases List.mem_append.1 hm with hm | hm
    · exact hbounded m hm
    · obtain rfl := List.mem_singleton.1 hm
      exact hend.bounded_quiet

/-- Of three parts two may be in flight, and the two of one number come first, as given. The first of them
keeps its place while it pauses, so the third part is started only when the second is done. -/
example :
    let policy : PartPolicy :=
      { concurrency := 2, retry := { limit := 1, pause := 10, longestPause := 10 }, timeout := 50 }
    let failing : Conditions := { reaction := fun _ n =>
      if n = 0 then { delay := 5, failure := some (.http 503 "busy") } else { delay := 20 } }
    let link : Link DryRun := { endpoint := {}, conditions := failing }
    let parts : List PartRequest := [⟨2, .ok (.bytes [2])⟩, ⟨1, .ok (.bytes [1])⟩, ⟨1, .ok (.bytes [0])⟩]
    let r := PartRun.start policy "u" none parts
    dispatched (r.history link) = [1, 2, 0] ∧ callers (r.history link) = [1, 2, 1, 0, 0] := by
  cbv

end ObjectFlush
