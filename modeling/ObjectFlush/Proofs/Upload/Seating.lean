import ObjectFlush.Proofs.Upload.FailFast

/-!
Who has a place in a run. The parts that are pending are those at the end of the order of their numbers, and
the parts that are in flight are those that have a turn or wait, never more than the policy allows
(`PartRun.Seated`). A part keeps its place while it waits; when no part has a turn, either all places are
taken or nothing is left to start (`PartRun.Seated.full`).
-/

namespace ObjectFlush

/-- The places of the parts by their numbers; parts of one number keep the order given. -/
structure StableOrder (parts : List PartRequest) (order : List Nat) : Prop where
  places : order.Perm (List.range parts.length)
  sorted : order.Pairwise fun i j => ∀ p q, parts[i]? = some p → parts[j]? = some q →
    p.number < q.number ∨ p.number = q.number ∧ i < j

/-- The ledger has the parts at `awaiting` as pending, those at `underway` as in flight, and no others. -/
structure Ledger (statuses : List PartStatus) (awaiting underway : List Nat) : Prop where
  pending : ∀ i : Nat, statuses[i]? = some .pending ↔ i ∈ awaiting
  inFlight : ∀ i : Nat, statuses[i]? = some .inFlight ↔ i ∈ underway
  pendingOnce : awaiting.Nodup
  inFlightOnce : underway.Nodup

namespace Ledger

variable {statuses : List PartStatus} {awaiting underway underway' : List Nat} {i : Nat}

theorem perm (h : Ledger statuses awaiting underway) (hperm : underway'.Perm underway) :
    Ledger statuses awaiting underway' :=
  ⟨h.pending, fun i => (h.inFlight i).trans hperm.mem_iff.symm, h.pendingOnce,
    hperm.nodup_iff.2 h.inFlightOnce⟩

/-- No place is pending and in flight at once. -/
theorem disjoint (h : Ledger statuses awaiting underway) (hp : i ∈ awaiting) : i ∉ underway := by
  intro hf
  have hsame := ((h.pending i).2 hp).symm.trans ((h.inFlight i).2 hf)
  cases hsame

theorem dispatch (h : Ledger statuses (i :: awaiting) underway) :
    Ledger (statuses.set i .inFlight) awaiting (i :: underway) := by
  have hi := (h.pending i).2 List.mem_cons_self
  have hself := List.getElem?_set_self (a := PartStatus.inFlight) (List.getElem?_eq_some_iff.1 hi).1
  obtain ⟨hnot, honce⟩ := List.nodup_cons.1 h.pendingOnce
  refine ⟨fun j => ?_, fun j => ?_, honce,
    List.nodup_cons.2 ⟨h.disjoint List.mem_cons_self, h.inFlightOnce⟩⟩
  · by_cases hj : i = j
    · subst hj
      rw [hself]
      exact iff_of_false (fun h => by cases h) hnot
    · rw [List.getElem?_set_ne hj, h.pending j, List.mem_cons, or_iff_right (Ne.symm hj)]
  · by_cases hj : i = j
    · subst hj
      exact iff_of_true hself List.mem_cons_self
    · rw [List.getElem?_set_ne hj, h.inFlight j, List.mem_cons, or_iff_right (Ne.symm hj)]

/-- A part in flight that has its turn stays in flight. -/
theorem stay (h : Ledger statuses awaiting underway) (hi : i ∈ underway) :
    statuses.set i .inFlight = statuses := by
  obtain ⟨hlt, hget⟩ := List.getElem?_eq_some_iff.1 ((h.inFlight i).2 hi)
  calc statuses.set i .inFlight = statuses.set i statuses[i] := by rw [hget]
    _ = statuses := List.set_getElem_self hlt

theorem finish (h : Ledger statuses awaiting (i :: underway)) {status : PartStatus}
    (hstatus : status = .done ∨ status = .failed) :
    Ledger (statuses.set i status) awaiting underway := by
  have hi := (h.inFlight i).2 List.mem_cons_self
  have hself := List.getElem?_set_self (a := status) (List.getElem?_eq_some_iff.1 hi).1
  obtain ⟨hnot, honce⟩ := List.nodup_cons.1 h.inFlightOnce
  refine ⟨fun j => ?_, fun j => ?_, h.pendingOnce, honce⟩
  · by_cases hj : i = j
    · subst hj
      rw [hself]
      refine iff_of_false ?_ fun hp => h.disjoint hp List.mem_cons_self
      rcases hstatus with rfl | rfl <;> exact fun h => by cases h
    · rw [List.getElem?_set_ne hj, h.pending j]
  · by_cases hj : i = j
    · subst hj
      rw [hself]
      refine iff_of_false ?_ hnot
      rcases hstatus with rfl | rfl <;> exact fun h => by cases h
    · rw [List.getElem?_set_ne hj, h.inFlight j, List.mem_cons, or_iff_right (Ne.symm hj)]

theorem count_inFlight (h : Ledger statuses awaiting underway) :
    statuses.count .inFlight = underway.length := by
  let holds (i : Nat) : Bool := statuses[i]? == some .inFlight
  have hcount : statuses.count .inFlight = ((List.range statuses.length).filter holds).length := by
    have hplaces : statuses.map some = (List.range statuses.length).map (statuses[·]?) :=
      List.ext_getElem (by simp) (by simp)
    calc statuses.count .inFlight
        = (statuses.map some).count (some .inFlight) :=
          (List.count_map_of_injective _ some (Option.some_injective _) _).symm
      _ = ((List.range statuses.length).filter holds).length := by
          rw [hplaces, List.count, List.countP_map, List.countP_eq_length_filter]
          rfl
  rw [hcount]
  refine List.Perm.length_eq ((List.perm_ext_iff_of_nodup (List.nodup_range.filter _)
    h.inFlightOnce).2 fun i => ?_)
  rw [List.mem_filter, ← h.inFlight i, List.mem_range, beq_iff_eq]
  exact ⟨fun h => h.2, fun h => ⟨(List.getElem?_eq_some_iff.1 h).1, h⟩⟩

theorem not_pending (h : Ledger statuses [] underway) : .pending ∉ statuses := by
  intro hmem
  obtain ⟨i, hi⟩ := List.mem_iff_getElem?.1 hmem
  cases (h.pending i).1 hi

end Ledger

/-- The place of a part that was started before its turn. -/
def ReadyPart.woken? : ReadyPart → Option Nat
  | .fresh .. => none
  | .woken part => some part.slot

namespace PartRun

/-! ## The order of the parts -/

/-- A queue that is sorted by number keeps the parts of one number in the order of their places. -/
theorem stableOrder_start (policy : PartPolicy) (upload : String) (cancel : Option Signal)
    (parts : List PartRequest) :
    StableOrder parts ((start policy upload cancel parts).queue.map (·.1)) := by
  let byNumber (a b : Nat × PartRequest) : Bool := a.2.number ≤ b.2.number
  let numbered := parts.zipIdx.map fun p => (p.2, p.1)
  have hplaces : numbered.map (·.1) = List.range parts.length := by
    rw [List.map_map]
    exact (List.zipIdx_map_snd 0 parts).trans List.range_eq_range'.symm
  have hperm : (numbered.mergeSort byNumber).Perm numbered := List.mergeSort_perm ..
  have hget : ∀ p ∈ numbered.mergeSort byNumber, parts[p.1]? = some p.2 := by
    intro p hp
    obtain ⟨q, hq, rfl⟩ := List.mem_map.1 (hperm.mem_iff.1 hp)
    exact List.mem_zipIdx_iff_getElem?.1 hq
  have htrans : ∀ a b c, byNumber a b → byNumber b c → byNumber a c := by
    intro a b c hab hbc
    exact decide_eq_true (Nat.le_trans (of_decide_eq_true hab) (of_decide_eq_true hbc))
  have htotal : ∀ a b, (byNumber a b || byNumber b a) = true := by
    intro a b
    simpa [byNumber] using Nat.le_total a.2.number b.2.number
  have hinOrder : numbered.Pairwise fun a b => a.1 < b.1 :=
    List.pairwise_map.1 (hplaces ▸ List.pairwise_lt_range)
  -- Sorting leaves the parts of one number as they are.
  have hstable : ∀ n, (numbered.mergeSort byNumber).filter (·.2.number = n) =
      numbered.filter (·.2.number = n) := by
    intro n
    have hsame : (numbered.filter (·.2.number = n)).Pairwise fun a b => byNumber a b := by
      refine List.Pairwise.imp_of_mem ?_ (hinOrder.filter _)
      intro a b ha hb _
      have ha : a.2.number = n := by simpa using (List.mem_filter.1 ha).2
      have hb : b.2.number = n := by simpa using (List.mem_filter.1 hb).2
      exact decide_eq_true (Nat.le_of_eq (ha.trans hb.symm))
    have hsub := (List.sublist_mergeSort htrans htotal hsame List.filter_sublist).filter
      (·.2.number = n)
    rw [List.filter_filter] at hsub
    simp only [Bool.and_self] at hsub
    exact (hsub.eq_of_length (hperm.filter _).length_eq.symm).symm
  have hnumbers := List.pairwise_mergeSort htrans htotal numbered
  refine ⟨hplaces ▸ hperm.map _, List.pairwise_map.2 (List.pairwise_iff_forall_sublist.2 ?_)⟩
  intro a b hab p q hp hq
  change [a, b].Sublist (numbered.mergeSort byNumber) at hab
  have hmem := hab.subset
  obtain rfl := Option.some.inj ((hget a (hmem (by simp))).symm.trans hp)
  obtain rfl := Option.some.inj ((hget b (hmem (by simp))).symm.trans hq)
  have hle : a.2.number ≤ b.2.number := by
    simpa [byNumber] using List.pairwise_iff_forall_sublist.1 hnumbers hab
  rcases Nat.lt_or_eq_of_le hle with hlt | heq
  · exact .inl hlt
  · refine .inr ⟨heq, List.pairwise_iff_forall_sublist.1 hinOrder ?_⟩
    have hfilter := hab.filter (·.2.number = b.2.number)
    rw [hstable] at hfilter
    simpa [heq] using hfilter.trans List.filter_sublist

/-! ## The places that are taken -/

/-- The parts that were not started, first to last. -/
def awaiting (r : PartRun) : List Nat := r.ready.filterMap ReadyPart.fresh? ++ r.queue.map (·.1)

/-- The parts that were started and are not done. -/
def underway (r : PartRun) : List Nat :=
  r.ready.filterMap ReadyPart.woken? ++ r.asleep.map (·.2.slot)

/-- The run holds `parts`, which are started in `order`, no more of them at once than is allowed. -/
structure Seated (parts : List PartRequest) (order : List Nat) (r : PartRun) : Prop where
  part : ∀ h ∈ r.held, parts[h.slot]? = some h.part
  ledger : Ledger r.statuses r.awaiting r.underway
  order : r.awaiting <:+ order
  room : r.ready.length + r.asleep.length ≤ r.limit

variable {σ : Type} {parts : List PartRequest} {order : List Nat} {r : PartRun} {part : ReadyPart}
  {rest : List ReadyPart}

theorem length_underway_le (r : PartRun) : r.underway.length ≤ r.ready.length + r.asleep.length := by
  have := List.length_filterMap_le ReadyPart.woken? r.ready
  simp only [underway, List.length_append, List.length_map]
  omega

theorem awaiting_fill (r : PartRun) : r.fill.awaiting = r.awaiting := by
  have hfresh : ((r.queue.take r.free).map fun p => ReadyPart.fresh p.1 p.2).filterMap
      ReadyPart.fresh? = (r.queue.take r.free).map (·.1) := by
    rw [List.filterMap_map]
    exact congrFun List.filterMap_eq_map _
  rw [awaiting, fill, List.filterMap_append, hfresh, List.append_assoc, ← List.map_append,
    List.take_append_drop, awaiting]

theorem underway_fill (r : PartRun) : r.fill.underway = r.underway := by
  have hfresh : ((r.queue.take r.free).map fun p => ReadyPart.fresh p.1 p.2).filterMap
      ReadyPart.woken? = [] := by
    rw [List.filterMap_map]
    exact List.filterMap_eq_nil_iff.2 fun _ _ => rfl
  rw [underway, fill, List.filterMap_append, hfresh, List.append_nil, underway]

theorem awaiting_rouse (r : PartRun) (time : Nat) : (r.rouse time).awaiting = r.awaiting := by
  have hwoken : ((r.asleep.filter (·.1 ≤ time)).map fun p => ReadyPart.woken p.2).filterMap
      ReadyPart.fresh? = [] := by
    rw [List.filterMap_map]
    exact List.filterMap_eq_nil_iff.2 fun _ _ => rfl
  rw [awaiting, rouse, List.filterMap_append, hwoken, List.append_nil, awaiting]

theorem underway_rouse (r : PartRun) (time : Nat) : (r.rouse time).underway.Perm r.underway := by
  have hwoken : ((r.asleep.filter (·.1 ≤ time)).map fun p => ReadyPart.woken p.2).filterMap
      ReadyPart.woken? = (r.asleep.filter (·.1 ≤ time)).map (·.2.slot) := by
    rw [List.filterMap_map]
    exact congrFun List.filterMap_eq_map _
  rw [underway, rouse, List.filterMap_append, hwoken, List.append_assoc, ← List.map_append, underway]
  exact ((due_append_perm r.asleep time).map _).append_left _

/-- A part that has its first turn is the next in order. -/
theorem awaiting_of_ready (hready : r.ready = part :: rest) :
    r.awaiting = part.fresh?.toList ++ (r.begun part rest).awaiting := by
  simp only [awaiting, hready]
  cases part <;> rfl

namespace Seated

theorem start (policy : PartPolicy) (upload : String) (cancel : Option Signal)
    (parts : List PartRequest) (l : Link σ) :
    Seated parts ((PartRun.start policy upload cancel parts).queue.map (·.1))
      (PartRun.start policy upload cancel parts) := by
  have htracks := Tracks.start policy upload cancel parts l
  have horder := stableOrder_start policy upload cancel parts
  refine ⟨htracks.part, ⟨fun i => ?_, fun i => ?_, ?_, List.nodup_nil⟩, List.suffix_refl _, Nat.zero_le _⟩
  · show (parts.map fun _ => PartStatus.pending)[i]? = some .pending ↔
      i ∈ (PartRun.start policy upload cancel parts).queue.map (·.1)
    rw [horder.places.mem_iff, List.mem_range]
    simp [List.getElem?_replicate]
  · show (parts.map fun _ => PartStatus.pending)[i]? = some .inFlight ↔ i ∈ []
    simp [List.getElem?_replicate]
  · exact horder.places.nodup_iff.2 List.nodup_range

theorem fill (h : r.Seated parts order) : r.fill.Seated parts order := by
  refine ⟨fun x hx => h.part x (r.held_fill.mem_iff.1 hx), ?_, ?_, ?_⟩
  · rw [awaiting_fill, underway_fill]
    exact h.ledger
  · rw [awaiting_fill]
    exact h.order
  · have := h.room
    simp only [PartRun.fill, limit, free, List.length_append, List.length_map, List.length_take] at this ⊢
    omega

theorem rouse (h : r.Seated parts order) (time : Nat) : (r.rouse time).Seated parts order := by
  refine ⟨fun x hx => h.part x ((r.held_rouse time).mem_iff.1 hx), ?_, ?_, ?_⟩
  · rw [awaiting_rouse]
    exact h.ledger.perm (r.underway_rouse time)
  · rw [awaiting_rouse]
    exact h.order
  · have hlength := (due_append_perm r.asleep time).length_eq
    rw [List.length_append] at hlength
    have := h.room
    simp only [PartRun.rouse, limit, List.length_append, List.length_map] at this ⊢
    omega

/-- As the turn of a part begins, it is in flight. -/
theorem begun (h : r.Seated parts order) (hready : r.ready = part :: rest) :
    Ledger (r.begun part rest).statuses (r.begun part rest).awaiting
      (part.slot :: (r.begun part rest).underway) := by
  have hledger := h.ledger
  simp only [awaiting, underway, hready] at hledger
  cases part with
  | fresh slot part => exact hledger.dispatch
  | woken part =>
    show Ledger (r.statuses.set part.slot .inFlight) _ _
    rw [hledger.stay List.mem_cons_self]
    exact hledger

theorem turn [Endpoint σ] (h : r.Seated parts order) {l : Link σ} (hready : r.ready = part :: rest)
    (hsame : ∀ time next, (part.look r.policy r.upload l).2 = .waits time next →
      next.slot = part.slot ∧ (⟨next.number, .ok next.payload⟩ : PartRequest) = part.part) :
    (r.turn l part rest).2.1.Seated parts order := by
  have hbegun := h.begun hready
  have hrest : ∀ x, x ∈ rest ++ r.asleep.map (fun p => .woken p.2) ++
      r.queue.map (fun p => .fresh p.1 p.2) → parts[x.slot]? = some x.part := by
    intro x hx
    refine h.part x ?_
    rw [held, hready]
    exact List.mem_cons_of_mem _ hx
  have hself := h.part part (by simp [held, hready])
  have horder : (r.begun part rest).awaiting <:+ order :=
    .trans ⟨_, (awaiting_of_ready hready).symm⟩ h.order
  have hroom := h.room
  rw [hready, List.length_cons] at hroom
  have hleft : rest.length + r.asleep.length ≤ r.limit := by omega
  unfold PartRun.turn
  simp only [mark, List.set_set]
  generalize part.look r.policy r.upload l = out at hsame ⊢
  obtain ⟨l', turn⟩ := out
  cases turn with
  | waits time next =>
    -- The part keeps its place while it waits.
    obtain ⟨hslot, hpart⟩ := hsame time next rfl
    have hledger : Ledger (r.statuses.set part.slot .inFlight) (r.begun part rest).awaiting
        (rest.filterMap ReadyPart.woken? ++ (r.asleep ++ [(time, next)]).map (·.2.slot)) := by
      refine hbegun.perm ?_
      rw [List.map_append, ← List.append_assoc, List.map_singleton, hslot]
      exact List.perm_append_singleton ..
    refine ⟨?_, hledger, horder, ?_⟩
    · intro x hx
      simp only [held, List.map_append, List.mem_append, List.map_singleton, List.mem_singleton] at hx
      obtain (hx | hx | rfl) | hx := hx
      · exact hrest x (by simp [hx])
      · exact hrest x (by simp only [List.mem_append]; exact .inl (.inr hx))
      · show parts[next.slot]? = some ⟨next.number, .ok next.payload⟩
        rw [hslot, hpart]
        exact hself
      · exact hrest x (by simp only [List.mem_append]; exact .inr hx)
    · show rest.length + (r.asleep ++ [(time, next)]).length ≤ r.limit
      rw [List.length_append, List.length_singleton]
      omega
  | done tag =>
    have hledger := hbegun.finish (.inl rfl)
    rw [PartRun.begun, mark, List.set_set] at hledger
    exact ⟨hrest, hledger, horder, hleft⟩
  | failed e =>
    have hledger := hbegun.finish (.inr rfl)
    rw [PartRun.begun, mark, List.set_set] at hledger
    exact ⟨hrest, hledger, horder, hleft⟩

/-- When no part has a turn, all places are taken, or nothing is left to start. -/
theorem full (h : r.Seated parts order) (hready : r.fill.ready = []) :
    .pending ∉ r.fill.statuses ∨ r.fill.statuses.count .inFlight = r.limit := by
  have hledger := h.fill.ledger
  have hcount := hledger.count_inFlight
  obtain ⟨hr, htake⟩ := List.append_eq_nil_iff.1 hready
  rcases List.take_eq_nil_iff.1 (List.map_eq_nil_iff.1 htake) with hfree | hqueue
  · -- No place is free, and all that are taken are taken by parts that wait.
    refine .inr ?_
    have hroom := h.room
    rw [hcount, underway_fill, underway, hr, List.filterMap_nil, List.nil_append, List.length_map]
    simp only [free, hr, List.length_nil] at hfree hroom
    omega
  · rw [awaiting_fill, awaiting, hr, hqueue] at hledger
    exact .inl hledger.not_pending

end Seated

end PartRun

end ObjectFlush
