import ObjectFlush.Proofs.Upload.PartCalls

/-!
The calls of a run, told apart by the parts that make them. At each moment of a run, what the calls of a part came to
keeps to the law of repetition (`PartRun.Recorded`): a turn adds calls to those of its part, and leaves those of the
others as they are (`PartRun.Recorded.update`). At the end of a run (`part_run_repeats`) it tells where each part is.
-/

namespace ObjectFlush

/-- What the calls of a part came to by the time at which it is there: as many as the policy allows, and where it
is over, all that the policy asks for. -/
structure PartRequest.Repeats (policy : RepeatPolicy) (part : PartRequest) (status : PartStatus)
    (failures : List (Option RequestError)) : Prop where
  allows : policy.Allows failures
  pending : status = .pending → failures = []
  done : status = .done → policy.Settles none failures
  failed : status = .failed →
    (∃ cause, policy.Settles (some cause) failures) ∨ (∃ reason, part.payload = .error reason) ∧ failures = []

/-- The entries that are of `slot`, `senders` telling of each whose it is. -/
def entriesOf {α : Type} (senders : List Nat) (entries : List α) (slot : Nat) : List α :=
  ((senders.zip entries).filter (·.1 = slot)).map (·.2)

section

variable {α β : Type} {senders : List Nat} {slot other : Nat}

theorem entriesOf_append {entries : List α} (h : senders.length = entries.length) (senders' : List Nat)
    (entries' : List α) (slot : Nat) :
    entriesOf (senders ++ senders') (entries ++ entries') slot =
      entriesOf senders entries slot ++ entriesOf senders' entries' slot := by
  rw [entriesOf, List.zip_append h, List.filter_append, List.map_append]
  rfl

theorem entriesOf_replicate_self (entries : List α) (slot : Nat) :
    entriesOf (List.replicate entries.length slot) entries slot = entries := by
  induction entries with
  | nil => rfl
  | cons x entries ih =>
    rw [List.length_cons, List.replicate_succ, entriesOf, List.zip_cons_cons, List.filter_cons_of_pos (by simp)]
    exact congrArg (x :: ·) ih

theorem entriesOf_replicate_other (n : Nat) (entries : List α) (h : other ≠ slot) :
    entriesOf (List.replicate n other) entries slot = [] := by
  refine List.map_eq_nil_iff.2 (List.filter_eq_nil_iff.2 fun p hp heq => h ?_)
  rw [← List.eq_of_mem_replicate (List.of_mem_zip (show (p.1, p.2) ∈ _ from hp)).1]
  exact of_decide_eq_true heq

theorem entriesOf_rel {R : α → β → Prop} {entries : List α} {entries' : List β}
    (h : List.Forall₂ R entries entries') (senders : List Nat) (slot : Nat) :
    List.Forall₂ R (entriesOf senders entries slot) (entriesOf senders entries' slot) := by
  induction h generalizing senders with
  | nil => simp [entriesOf]
  | cons hr _ ih =>
    cases senders with
    | nil => exact .nil
    | cons sender senders =>
      have hrest := ih senders
      unfold entriesOf at hrest ⊢
      rw [List.zip_cons_cons, List.zip_cons_cons]
      by_cases hsender : sender = slot
      · rw [List.filter_cons_of_pos (by simpa using hsender), List.filter_cons_of_pos (by simpa using hsender)]
        exact .cons hr hrest
      · rw [List.filter_cons_of_neg (by simpa using hsender), List.filter_cons_of_neg (by simpa using hsender)]
        exact hrest

/-- The places of the calls of `slot`, the first call of all being at `base`. -/
def placesOf (base : Nat) (senders : List Nat) (slot : Nat) : List Nat :=
  entriesOf senders (List.range' base senders.length) slot

theorem placesOf_concat_self (base : Nat) (senders : List Nat) (n slot : Nat) :
    placesOf base (senders ++ List.replicate n slot) slot =
      placesOf base senders slot ++ List.range' (base + senders.length) n := by
  have hself := entriesOf_replicate_self (List.range' (base + senders.length) n) slot
  rw [List.length_range'] at hself
  rw [placesOf, List.length_append, List.length_replicate, ← List.range'_append_1,
    entriesOf_append List.length_range'.symm, hself]
  rfl

theorem placesOf_concat_other (base : Nat) (senders : List Nat) (n : Nat) (h : other ≠ slot) :
    placesOf base (senders ++ List.replicate n other) slot = placesOf base senders slot := by
  rw [placesOf, List.length_append, ← List.range'_append_1, entriesOf_append List.length_range'.symm,
    entriesOf_replicate_other _ _ h, List.append_nil]
  rfl

theorem mem_placesOf {base i : Nat} :
    i ∈ placesOf base senders slot ↔ ∃ k, senders[k]? = some slot ∧ i = base + k := by
  constructor
  · intro hi
    obtain ⟨⟨s, i⟩, hmem, rfl⟩ := List.mem_map.1 hi
    obtain ⟨hzip, hs⟩ := List.mem_filter.1 hmem
    obtain ⟨k, hk⟩ := List.mem_iff_getElem?.1 hzip
    obtain ⟨hk, hplace⟩ := List.getElem?_zip_eq_some.1 hk
    obtain ⟨hlt, rfl⟩ := List.getElem?_eq_some_iff.1 hplace
    obtain rfl : s = slot := of_decide_eq_true hs
    exact ⟨k, hk, by rw [List.getElem_range', Nat.one_mul]⟩
  · rintro ⟨k, hk, rfl⟩
    have hlt := (List.getElem?_eq_some_iff.1 hk).1
    refine List.mem_map.2 ⟨(slot, base + k), List.mem_filter.2 ⟨List.mem_iff_getElem?.2 ⟨k, ?_⟩, ?_⟩, rfl⟩
    · exact List.getElem?_zip_eq_some.2 ⟨hk, by simp [hlt]⟩
    · exact decide_eq_true rfl

/-- A call is of one part. -/
theorem placesOf_disjoint {base i : Nat} (h : other ≠ slot) (hi : i ∈ placesOf base senders slot) :
    i ∉ placesOf base senders other := by
  intro hother
  obtain ⟨k, hk, rfl⟩ := mem_placesOf.1 hi
  obtain ⟨k', hk', heq⟩ := mem_placesOf.1 hother
  obtain rfl := Nat.add_left_cancel heq
  exact h (Option.some.inj (hk'.symm.trans hk))

/-- Calls are made in the order of their places. -/
theorem pairwise_placesOf (base : Nat) (senders : List Nat) (slot : Nat) :
    (placesOf base senders slot).Pairwise (· < ·) := by
  have hsub : (placesOf base senders slot).Sublist (List.range' base senders.length) := by
    refine (List.filter_sublist.map Prod.snd).trans ?_
    rw [List.map_snd_zip (Nat.le_of_eq List.length_range')]
  exact List.Pairwise.sublist hsub List.pairwise_lt_range'

end

/-- Calls that were added to the log are at the places behind those that were there. -/
theorem Link.forall₂_places {σ : Type} {l l' : Link σ} {log : List Call} (h : l'.calls = l.calls ++ log) :
    List.Forall₂ (fun place c => l'.calls[place]? = some c) (List.range' l.calls.length log.length) log := by
  rw [h]
  exact List.forall₂_iff_get.2 ⟨List.length_range', fun i _ hi => by simp [hi]⟩

namespace PartRun

variable {σ : Type} {policy : PartPolicy} {upload : String} {parts : List PartRequest} {order senders : List Nat}
  {base : Nat} {origin l l' : Link σ} {r r' : PartRun} {part : ReadyPart} {rest : List ReadyPart}

/-- A part that the run holds is pending or in flight, by its place. -/
theorem slot_mem_of_held {x : ReadyPart} (hx : x ∈ r.held) : x.slot ∈ r.awaiting ∨ x.slot ∈ r.underway := by
  simp only [held, List.mem_append, List.mem_map] at hx
  simp only [awaiting, underway, List.mem_append, List.mem_filterMap, List.mem_map]
  obtain (hx | ⟨p, hp, rfl⟩) | ⟨p, hp, rfl⟩ := hx
  · cases x with
    | fresh slot part => exact .inl (.inl ⟨_, hx, rfl⟩)
    | woken part => exact .inr (.inl ⟨_, hx, rfl⟩)
  · exact .inr (.inr ⟨p, hp, rfl⟩)
  · exact .inl (.inr ⟨p, hp, rfl⟩)

theorem exists_fresh_of_awaiting {i : Nat} (hi : i ∈ r.awaiting) : ∃ p, ReadyPart.fresh i p ∈ r.held := by
  simp only [awaiting, List.mem_append, List.mem_filterMap, List.mem_map] at hi
  simp only [held, List.mem_append, List.mem_map]
  obtain ⟨x, hx, hslot⟩ | ⟨p, hp, rfl⟩ := hi
  · cases x with
    | fresh slot part =>
      cases hslot
      exact ⟨part, .inl (.inl hx)⟩
    | woken part => cases hslot
  · exact ⟨p.2, .inr ⟨p, hp, rfl⟩⟩

theorem exists_woken_of_underway {i : Nat} (hi : i ∈ r.underway) :
    ∃ active : ActivePart, active.slot = i ∧ .woken active ∈ r.held := by
  simp only [underway, List.mem_append, List.mem_filterMap, List.mem_map] at hi
  simp only [held, List.mem_append, List.mem_map]
  obtain ⟨x, hx, hslot⟩ | ⟨p, hp, rfl⟩ := hi
  · cases x with
    | fresh slot part => cases hslot
    | woken part =>
      cases hslot
      exact ⟨part, rfl, .inl (.inl hx)⟩
  · exact ⟨p.2, rfl, .inl (.inr ⟨p, hp, rfl⟩)⟩

/-- While a part has its turn, it is held nowhere else. -/
theorem Seated.slot_ne (h : r.Seated parts order) (hready : r.ready = part :: rest) {x : ReadyPart}
    (hx : x ∈ (r.begun part rest).held) : x.slot ≠ part.slot := by
  have hledger := h.begun hready
  intro heq
  rcases slot_mem_of_held hx with hmem | hmem
  · exact hledger.disjoint hmem (heq ▸ List.mem_cons_self)
  · exact (List.nodup_cons.1 hledger.inFlightOnce).1 (heq ▸ hmem)

theorem held_await (r : PartRun) (l : Link σ) (due : Nat) : (r.await l due).2.held.Perm r.held := by
  unfold PartRun.await
  split
  · split
    · exact .refl _
    · exact r.held_rouse due
  · exact r.held_rouse due

theorem keeps_await (r : PartRun) (l : Link σ) (due : Nat) : l.Keeps [] (r.await l due).1 := by
  refine .of_eq [] ?_ (r.calls_await l due)
  unfold PartRun.await
  split
  · split
    · exact l.conditions_passTo _
    · exact l.conditions_passTo due
  · exact l.conditions_passTo due

/-- While a part has its turn, the clock stands still and the part keeps its place. -/
theorem Serves.look [Endpoint σ] (h : Serves policy upload parts order origin l r) (hready : r.ready = part :: rest) :
    (part.look policy upload l).1.now = l.now ∧
      ∀ time next, (part.look policy upload l).2 = .waits time next → next.slot = part.slot := by
  have hawaits := h.awaits
  rw [outstanding_of_ready hready] at hawaits
  obtain ⟨hadds, hleaves, -⟩ := ReadyPart.look_leaves h.base_le (h.waits part (by simp [held, hready]))
    (h.due part (by simp [hready])) hawaits
  refine ⟨hadds.now, fun time next hwaits => ?_⟩
  rw [hwaits] at hleaves
  exact hleaves.1.1

/-- The calls that a part makes in its turn are its own. -/
theorem callers_begun [Endpoint σ] {n : Nat}
    (h : (part.look r.policy r.upload l).1.calls.length = l.calls.length + n) :
    Moment.callers ⟨l, r.begun part rest, some part⟩ = List.replicate n part.slot := by
  show ((part.look r.policy r.upload l).1.calls.drop l.calls.length).map (fun _ => part.slot) = _
  rw [List.map_const', List.length_drop, h, Nat.add_sub_cancel_left]

/-- A place of the ledger after another was set. -/
theorem status_of_set {statuses : List PartStatus} {slot i : Nat} {status status' : PartStatus}
    (h : (statuses.set slot status)[i]? = some status') :
    (i = slot ∧ status' = status) ∨ (i ≠ slot ∧ statuses[i]? = some status') := by
  by_cases hi : slot = i
  · subst hi
    rw [List.getElem?_set_self'] at h
    obtain ⟨_, -, rfl⟩ := Option.map_eq_some_iff.1 h
    exact .inl ⟨rfl, rfl⟩
  · rw [List.getElem?_set_ne hi] at h
    exact .inr ⟨Ne.symm hi, h⟩

/-- The calls of each part at a moment of a run. The run has made a call for each of `senders`, the first of them at
`base`. -/
structure Recorded (policy : PartPolicy) (upload : String) (parts : List PartRequest) (base : Nat)
    (senders : List Nat) (l : Link σ) (r : PartRun) : Prop where
  length : l.calls.length = base + senders.length
  statuses : r.statuses.length = parts.length
  held : ∀ x ∈ r.held, x.Records policy upload (placesOf base senders x.slot) l
  told : ∀ (i : Nat) p (status : PartStatus), parts[i]? = some p → r.statuses[i]? = some status →
    status.Told policy p (placesOf base senders i) l

namespace Recorded

theorem start (policy : PartPolicy) (upload : String) (cancel : Option Signal) (parts : List PartRequest)
    (l : Link σ) :
    Recorded policy upload parts l.calls.length [] l (PartRun.start policy upload cancel parts) := by
  refine ⟨rfl, List.length_map _, fun x hx => ?_, fun i p status _ hstatus => ?_⟩
  · obtain ⟨p, -, rfl⟩ := List.mem_map.1 hx
    rfl
  · obtain ⟨q, -, rfl⟩ := List.mem_map.1 (List.mem_of_getElem? hstatus)
    trivial

theorem fill (h : Recorded policy upload parts base senders l r) :
    Recorded policy upload parts base senders l r.fill :=
  ⟨h.length, h.statuses, fun x hx => h.held x (r.held_fill.mem_iff.1 hx), h.told⟩

theorem await (h : Recorded policy upload parts base senders l r) (due : Nat) :
    Recorded policy upload parts base senders (r.await l due).1 (r.await l due).2 := by
  have hkeep := r.keeps_await l due
  refine ⟨r.calls_await l due ▸ h.length, r.statuses_await l due ▸ h.statuses, fun x hx => ?_,
    fun i p status hp hstatus => ?_⟩
  · exact (h.held x ((r.held_await l due).mem_iff.1 hx)).keep hkeep fun _ _ => List.not_mem_nil
  · rw [statuses_await] at hstatus
    exact (h.told i p status hp hstatus).keep hkeep fun _ _ => List.not_mem_nil

/-- When the part at `slot` makes `n` calls, and no call ends on the way but at `own`, which are its own, then the
calls of the other parts stay as they are. -/
theorem update (h : Recorded policy upload parts base senders l r) {slot n : Nat} {own : List Nat} {p : PartRequest}
    {status : PartStatus} (hp : parts[slot]? = some p) (hkeeps : l.Keeps own l')
    (hown : own ⊆ placesOf base senders slot) (hlength : l'.calls.length = l.calls.length + n)
    (hstatuses : r'.statuses = r.statuses.set slot status)
    (hheld : ∀ x ∈ r'.held, (x.slot ≠ slot ∧ x ∈ r.held) ∨ x.slot = slot ∧
      x.Records policy upload (placesOf base senders slot ++ List.range' l.calls.length n) l')
    (htold : status.Told policy p (placesOf base senders slot ++ List.range' l.calls.length n) l') :
    Recorded policy upload parts base (senders ++ List.replicate n slot) l' r' := by
  rw [h.length, ← placesOf_concat_self] at hheld htold
  have hothers : ∀ s, s ≠ slot → placesOf base (senders ++ List.replicate n slot) s = placesOf base senders s ∧
      ∀ i ∈ placesOf base senders s, i ∉ own := by
    intro s hs
    exact ⟨placesOf_concat_other base senders n hs.symm, fun i hi hmem => placesOf_disjoint hs.symm hi (hown hmem)⟩
  refine ⟨?_, ?_, fun x hx => ?_, fun i q status' hq hstatus => ?_⟩
  · rw [hlength, h.length, List.length_append, List.length_replicate, Nat.add_assoc]
  · rw [hstatuses, List.length_set, h.statuses]
  · rcases hheld x hx with ⟨hne, hx⟩ | ⟨heq, hrecords⟩
    · obtain ⟨hsame, hapart⟩ := hothers x.slot hne
      rw [hsame]
      exact (h.held x hx).keep hkeeps hapart
    · rw [heq]
      exact hrecords
  · rw [hstatuses] at hstatus
    rcases status_of_set hstatus with ⟨rfl, rfl⟩ | ⟨hne, hold⟩
    · cases hp.symm.trans hq
      exact htold
    · obtain ⟨hsame, hapart⟩ := hothers i hne
      rw [hsame]
      exact (h.told i q status' hq hold).keep hkeeps hapart

/-- The turn of a part adds the calls that it makes to its own. -/
theorem turn [Endpoint σ] (h : Recorded policy upload parts base senders l r)
    (hserves : Serves policy upload parts order origin l r) (hready : r.ready = part :: rest) :
    Recorded policy upload parts base (senders ++ Moment.callers ⟨l, r.begun part rest, some part⟩)
      (r.turn l part rest).1 (r.turn l part rest).2.1 := by
  have hself : part ∈ r.held := by simp [PartRun.held, hready]
  have hdue := hserves.due part (by simp [hready])
  have hpart := hserves.seated.part part hself
  have hslot := (hserves.look hready).2
  have hrest : ∀ x ∈ (r.begun part rest).held, x.slot ≠ part.slot ∧ x ∈ r.held := by
    intro x hx
    refine ⟨hserves.seated.slot_ne hready hx, ?_⟩
    rw [PartRun.held, hready]
    exact List.mem_cons_of_mem _ hx
  have hown := (h.held part hself).places_subset
  obtain rfl := hserves.samePolicy
  obtain rfl := hserves.sameUpload
  obtain ⟨hkeeps, n, hn, hrecords⟩ := ReadyPart.look_records (h.held part hself) hdue
  rw [callers_begun hn]
  unfold PartRun.turn
  simp only [mark, List.set_set]
  generalize part.look r.policy r.upload l = out at *
  obtain ⟨l', turn⟩ := out
  cases turn with
  | waits time next =>
    refine h.update hpart hkeeps hown hn rfl (fun x hx => ?_) (show PartStatus.inFlight.Told .. from trivial)
    have hx : x ∈ (r.begun part rest).held ∨ x = .woken next := by
      simp only [PartRun.held, List.mem_append, List.map_append, List.map_cons, List.map_nil,
        List.mem_singleton] at hx ⊢
      tauto
    rcases hx with hx | rfl
    · exact .inl (hrest x hx)
    · exact .inr ⟨hslot time next rfl, hrecords⟩
  | done tag => exact h.update hpart hkeeps hown hn rfl (fun x hx => .inl (hrest x hx)) hrecords
  | failed e => exact h.update hpart hkeeps hown hn rfl (fun x hx => .inl (hrest x hx)) hrecords

/-- A part that is pending has made no call. -/
theorem of_pending (h : Recorded policy upload parts base senders l r) (hseated : r.Seated parts order) {i : Nat}
    (hstatus : r.statuses[i]? = some .pending) : placesOf base senders i = [] := by
  obtain ⟨p, hheld⟩ := exists_fresh_of_awaiting ((hseated.ledger.pending i).1 hstatus)
  exact h.held _ hheld

/-- A part that is in flight is under way. -/
theorem of_inFlight (h : Recorded policy upload parts base senders l r) (hseated : r.Seated parts order) {i : Nat}
    (hstatus : r.statuses[i]? = some .inFlight) :
    ∃ active : ActivePart, active.Records policy upload (placesOf base senders i) l := by
  obtain ⟨active, rfl, hheld⟩ := exists_woken_of_underway ((hseated.ledger.inFlight i).1 hstatus)
  exact ⟨active, h.held _ hheld⟩

/-- Each call is over, but for the last of a part that is in flight. -/
theorem timely (h : Recorded policy upload parts base senders l r) (hseated : r.Seated parts order) {i place : Nat}
    {p : PartRequest} {status : PartStatus} (hp : parts[i]? = some p) (hstatus : r.statuses[i]? = some status)
    (hplace : place ∈ placesOf base senders i) {c : Call} (hc : l.calls[place]? = some c) :
    c.Timely policy.timeout (l.inStore place c.request) ∨
      c.finish = none ∧ status = .inFlight ∧ ∀ later ∈ placesOf base senders i, later ≤ place := by
  have htold := h.told i p status hp hstatus
  cases status with
  | pending =>
    rw [h.of_pending hseated hstatus] at hplace
    cases hplace
  | inFlight =>
    obtain ⟨active, hrecords⟩ := h.of_inFlight hseated hstatus
    rcases hrecords.timely (pairwise_placesOf base senders i) hplace hc with htimely | ⟨hnone, hlast⟩
    · exact .inl htimely
    · exact .inr ⟨hnone, rfl, hlast⟩
  | done =>
    obtain ⟨q, htells⟩ := htold
    exact .inl (htells.timely hplace hc)
  | failed =>
    rcases htold with ⟨q, cause, htells⟩ | ⟨-, hnone⟩
    · exact .inl (htells.timely hplace hc)
    · rw [hnone] at hplace
      cases hplace

/-- What the calls of a part came to keeps to the law of repetition. -/
theorem repeats (h : Recorded policy upload parts base senders l r) (hseated : r.Seated parts order) {i : Nat}
    {p : PartRequest} {status : PartStatus} (hp : parts[i]? = some p) (hstatus : r.statuses[i]? = some status)
    {calls : List Call}
    (hcalls : List.Forall₂ (fun place c => l.calls[place]? = some c) (placesOf base senders i) calls) :
    p.Repeats policy.retry status (calls.map Call.failure?) := by
  have htold := h.told i p status hp hstatus
  have hnone : placesOf base senders i = [] → calls = [] := fun hnone =>
    List.forall₂_nil_left_iff.1 (hnone ▸ hcalls)
  cases status with
  | pending =>
    rw [hnone (h.of_pending hseated hstatus)]
    exact ⟨policy.retry.spent_nil.allows, fun _ => rfl, fun h => (by cases h), fun h => (by cases h)⟩
  | inFlight =>
    obtain ⟨active, hrecords⟩ := h.of_inFlight hseated hstatus
    exact ⟨hrecords.allows hcalls, fun h => (by cases h), fun h => (by cases h), fun h => (by cases h)⟩
  | done =>
    obtain ⟨q, htells⟩ := htold
    have hsettles := htells.of_calls hcalls
    exact ⟨hsettles.allows, fun h => (by cases h), fun _ => hsettles, fun h => (by cases h)⟩
  | failed =>
    rcases htold with ⟨q, cause, htells⟩ | ⟨hunreadable, hplaces⟩
    · have hsettles := htells.of_calls hcalls
      exact ⟨hsettles.allows, fun h => (by cases h), fun h => (by cases h), fun _ => .inl ⟨cause, hsettles⟩⟩
    · rw [hnone hplaces]
      exact ⟨policy.retry.spent_nil.allows, fun _ => rfl, fun h => (by cases h), fun _ =>
        .inr ⟨hunreadable, rfl⟩⟩

/-- The calls of a run are told apart by the parts that make them. -/
theorem run [Endpoint σ] (hserves : Serves policy upload parts order origin l r) :
    ∀ senders, Recorded policy upload parts base senders l r →
      Recorded policy upload parts base (senders ++ callers (r.history l)) (r.run l).1 (r.run l).2.1 := by
  refine hserves.along (motive := fun l r moments l' r' => ∀ senders,
    Recorded policy upload parts base senders l r →
      Recorded policy upload parts base (senders ++ callers moments) l' r') ?_ ?_ ?_ ?_
  · rintro l r r' - hr senders h
    rw [show callers [⟨l, r, none⟩] = [] from rfl, List.append_nil]
    rcases hr with rfl | rfl
    · exact h
    · exact h.fill
  · intro l r part rest hserves hready senders h
    have hturn := h.fill.turn hserves.fill hready
    simpa [callers, Moment.callers] using hturn
  · intro l r part rest moments l' r' hserves hready _ ih senders h
    have hrest := ih _ (h.fill.turn hserves.fill hready)
    rw [List.append_assoc] at hrest
    exact hrest
  · intro l r due moments l' r' _ _ _ ih senders h
    exact ih senders (h.fill.await due)

end Recorded

end PartRun

/-- The run `r` of `parts`, over by now, has made the calls of `log`, one for each of `senders`, the first of them at
`base`. -/
structure PartRun.Repeats {σ : Type} (policy : PartPolicy) (upload : String) (parts : List PartRequest) (base : Nat)
    (senders : List Nat) (log : List Call) (l : Link σ) (r : PartRun) : Prop where
  sends : List.Forall₂ (fun i (c : Call) => ∃ p, parts[i]? = some p ∧ p.Sends upload c.request) senders log
  /-- The calls of each part keep to the policy, and tell where it is. -/
  parts : ∀ (i : Nat) p, parts[i]? = some p → ∃ status, r.statuses[i]? = some status ∧
    p.Repeats policy.retry status ((entriesOf senders log i).map Call.failure?)
  /-- Each call is over, in time or given up, but for the last of a part that was still in flight at the end. -/
  ended : ∀ (k i : Nat) c, senders[k]? = some i → log[k]? = some c →
    c.Timely policy.timeout (l.inStore (base + k) c.request) ∨
      c.finish = none ∧ r.statuses[i]? = some .inFlight ∧ ∀ k' > k, senders[k']? ≠ some i
  /-- A call whose answer would come too late has timed out, which may pass. -/
  late : ∀ (k : Nat) c, log[k]? = some c → policy.timeout < (l.inStore (base + k) c.request).delay →
    c.failure? = some .timeout ∧ MayPass c.failure?

/-- The calls of a run keep to the law of repetition, part by part, whatever the numbers of the parts. -/
theorem part_run_repeats {σ : Type} [Endpoint σ] (policy : PartPolicy) (upload : String) (cancel : Option Signal)
    (parts : List PartRequest) (l : Link σ) :
    let r := PartRun.start policy upload cancel parts
    let out := r.run l
    ∃ log, out.1.calls = l.calls ++ log ∧
      PartRun.Repeats policy upload parts l.calls.length (callers (r.history l)) log out.1 out.2.1 := by
  intro r out
  let senders := callers (r.history l)
  have hstart := PartRun.Serves.start policy upload cancel parts l
  have hseated := hstart.bounded.2.seated
  have hrecorded : PartRun.Recorded policy upload parts l.calls.length senders out.1 out.2.1 :=
    PartRun.Recorded.run hstart [] (.start policy upload cancel parts l)
  obtain ⟨log, hlog, hsends⟩ := PartRun.log_of_run policy upload cancel parts l
  have hplaces := Link.forall₂_places hlog
  rw [← hsends.length_eq] at hplaces
  have hstatus : ∀ (i : Nat) p, parts[i]? = some p → ∃ status, out.2.1.statuses[i]? = some status := by
    intro i p hp
    obtain ⟨hlt, -⟩ := List.getElem?_eq_some_iff.1 hp
    exact ⟨_, List.getElem?_eq_getElem (hrecorded.statuses.symm ▸ hlt)⟩
  have hover : ∀ (k i : Nat) c, senders[k]? = some i → log[k]? = some c →
      c.Timely policy.timeout (out.1.inStore (l.calls.length + k) c.request) ∨
        c.finish = none ∧ out.2.1.statuses[i]? = some .inFlight ∧ ∀ k' > k, senders[k']? ≠ some i := by
    intro k i c hk hc
    obtain ⟨p, hp, -⟩ : ∃ p, parts[i]? = some p ∧ p.Sends upload c.request :=
      List.forall₂_zip hsends (List.mem_iff_getElem?.2 ⟨k, List.getElem?_zip_eq_some.2 ⟨hk, hc⟩⟩)
    obtain ⟨status, hstatus⟩ := hstatus i p hp
    have hcall : out.1.calls[l.calls.length + k]? = some c := by
      rw [hlog, List.getElem?_append_right (Nat.le_add_right ..), Nat.add_sub_cancel_left, hc]
    rcases hrecorded.timely hseated hp hstatus (mem_placesOf.2 ⟨k, hk, rfl⟩) hcall with
      htimely | ⟨hnone, rfl, hlast⟩
    · exact .inl htimely
    · refine .inr ⟨hnone, hstatus, fun k' hk' hlater => ?_⟩
      have := hlast _ (mem_placesOf.2 ⟨k', hlater, rfl⟩)
      omega
  refine ⟨log, hlog, hsends, fun i p hp => ?_, hover, fun k c hc hlate => ?_⟩
  · obtain ⟨status, hstatus⟩ := hstatus i p hp
    exact ⟨status, hstatus, hrecorded.repeats hseated hp hstatus (entriesOf_rel hplaces senders i)⟩
  · have hlt : k < senders.length := by
      rw [hsends.length_eq]
      exact (List.getElem?_eq_some_iff.1 hc).1
    refine Call.timed_out_of_none ?_
    rcases hover k _ c (List.getElem?_eq_getElem hlt) hc with htimely | ⟨hnone, -⟩
    · exact htimely.finish_eq_none hlate
    · exact hnone

end ObjectFlush
