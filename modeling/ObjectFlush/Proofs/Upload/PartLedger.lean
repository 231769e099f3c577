import ObjectFlush.Proofs.Upload.PartRun
import ObjectFlush.Proofs.Upload.PartTurn

/-!
The ledger of a run, and the log of its link, tell the same. `PartRun.Tracks` ties them: a part that is
held by the run stands as its place says, one that is done has the receipt that its last attempt came to,
and the part that ended the run, if one has, failed by what its last attempt came to. It holds from the
start of a run to its end, whatever the endpoint answers and however long it takes
(`PartRun.Tracks.run`).
-/

namespace ObjectFlush

namespace PartRun

variable {σ : Type}

/-- The parts that the run still has to do with, in whatever place. -/
def held (r : PartRun) : List ReadyPart :=
  r.ready ++ r.asleep.map (fun p => .woken p.2) ++ r.queue.map fun p => .fresh p.1 p.2

theorem held_fill (r : PartRun) : r.fill.held.Perm r.held := by
  have hsplit : (r.queue.map fun p => ReadyPart.fresh p.1 p.2) =
      (r.queue.take r.free).map (fun p => .fresh p.1 p.2) ++
        (r.queue.drop r.free).map fun p => .fresh p.1 p.2 := by
    rw [← List.map_append, List.take_append_drop]
  simp only [held, fill, hsplit, List.append_assoc]
  refine List.Perm.append_left _ ?_
  rw [← List.append_assoc, ← List.append_assoc]
  exact List.perm_append_comm.append_right _

theorem held_rouse (r : PartRun) (time : Nat) : (r.rouse time).held.Perm r.held := by
  have hsplit := (due_append_perm r.asleep time).map fun p => ReadyPart.woken p.2
  rw [List.map_append] at hsplit
  simp only [held, rouse, List.append_assoc]
  refine List.Perm.append_left _ ?_
  rw [← List.append_assoc]
  exact hsplit.append_right _

/-- What the run holds beside the part whose turn it is, `rest` being the others that have one. -/
def beside (r : PartRun) (rest : List ReadyPart) : List ReadyPart :=
  rest ++ r.asleep.map (fun p => .woken p.2) ++ r.queue.map fun p => .fresh p.1 p.2

theorem held_eq_cons {r : PartRun} {part : ReadyPart} {rest : List ReadyPart} (hready : r.ready = part :: rest) :
    r.held = part :: r.beside rest := by
  rw [held, hready]
  rfl

/-- The run holds the others, and of `part` what is `again` to have a turn, in the place of `part`. -/
structure InPlaceOf (part : ReadyPart) (others : List ReadyPart) (again : Option ReadyPart) (r : PartRun) : Prop where
  held : r.held.Perm (again.toList ++ others)
  same : ∀ x ∈ again, x.slot = part.slot ∧ x.part = part.part

namespace InPlaceOf

variable {part : ReadyPart} {others : List ReadyPart} {again : Option ReadyPart} {r : PartRun}

theorem forall_held (h : InPlaceOf part others again r) {P : ReadyPart → Prop} (hagain : ∀ x ∈ again, P x)
    (hothers : ∀ x ∈ others, P x) : ∀ x ∈ r.held, P x := by
  intro x hx
  rcases List.mem_append.1 (h.held.mem_iff.1 hx) with hx | hx
  · exact hagain x (Option.mem_toList.1 hx)
  · exact hothers x hx

theorem mem_slots_iff (h : InPlaceOf part others again r) {i : Nat} :
    i ∈ r.held.map (·.slot) ↔ (again.isSome ∧ i = part.slot) ∨ i ∈ others.map (·.slot) := by
  rw [(h.held.map _).mem_iff, List.map_append, List.mem_append]
  cases again with
  | none => simp
  | some x => simp [(h.same x rfl).1]

theorem nodup_slots (h : InPlaceOf part others again r) (hslots : ((part :: others).map (·.slot)).Nodup) :
    (r.held.map (·.slot)).Nodup := by
  rw [(h.held.map _).nodup_iff]
  cases again with
  | none => exact (List.nodup_cons.1 hslots).2
  | some x =>
    show (x.slot :: others.map (·.slot)).Nodup
    rw [(h.same x rfl).1]
    exact hslots

/-- A part that waits stands behind those that waited before. -/
theorem waiting {r' : PartRun} {rest : List ReadyPart} {time : Nat} {next : ActivePart} (hready : r'.ready = rest)
    (hasleep : r'.asleep = r.asleep ++ [(time, next)]) (hqueue : r'.queue = r.queue)
    (hsame : next.slot = part.slot ∧ (⟨next.number, .ok next.payload⟩ : PartRequest) = part.part) :
    InPlaceOf part (r.beside rest) (some (.woken next)) r' := by
  refine ⟨?_, fun x hx => by cases hx; exact hsame⟩
  simp only [PartRun.held, beside, hready, hasleep, hqueue, List.map_append, List.map_cons, List.map_nil,
    List.append_assoc, Option.toList_some, List.singleton_append]
  rw [← List.append_assoc, ← List.append_assoc]
  exact List.perm_middle

theorem gone {r' : PartRun} {rest : List ReadyPart} (hready : r'.ready = rest) (hasleep : r'.asleep = r.asleep)
    (hqueue : r'.queue = r.queue) : InPlaceOf part (r.beside rest) none r' := by
  refine ⟨.of_eq ?_, fun x hx => by cases hx⟩
  rw [PartRun.held, hready, hasleep, hqueue]
  rfl

end InPlaceOf

/-- All that a step can do. -/
theorem step_cases [Endpoint σ] (r : PartRun) (l : Link σ) :
    (r.isCancelled l = true ∧ r.step l = (l, r, .ended (.error .cancelled))) ∨
      r.isCancelled l = false ∧
        ((∃ part rest, r.fill.ready = part :: rest ∧ r.step l = r.fill.turn l part rest) ∨
          r.fill.ready = [] ∧
            ((r.fill.due? = none ∧ r.step l = (l, r.fill, .ended (.ok r.fill.sorted))) ∨
              ∃ due, r.fill.due? = some due ∧ r.step l = (l, r.fill, .idle due))) := by
  cases hcancel : r.isCancelled l with
  | true => exact .inl ⟨rfl, by simp [PartRun.step, hcancel]⟩
  | false =>
    refine .inr ⟨rfl, ?_⟩
    cases hready : r.fill.ready with
    | cons part rest => exact .inl ⟨part, rest, rfl, by simp [PartRun.step, hcancel, hready]⟩
    | nil =>
      refine .inr ⟨rfl, ?_⟩
      cases hdue : r.fill.due? with
      | none => exact .inl ⟨rfl, by simp [PartRun.step, hcancel, hready, hdue]⟩
      | some due => exact .inr ⟨due, rfl, by simp [PartRun.step, hcancel, hready, hdue]⟩

theorem due_le {r : PartRun} {due : Nat} (h : r.due? = some due) : ∀ p ∈ r.asleep, due ≤ p.1 := by
  intro p hp
  exact (List.min?_eq_some_iff.1 h).2 p.1 (List.mem_map_of_mem hp)

/-- The clock runs to an alarm before the time at which the first part is due, or to that time; no part
becomes overdue. -/
theorem await_spec {r : PartRun} {due : Nat} (l : Link σ) (hdue : r.due? = some due)
    (hlater : ∀ p ∈ r.asleep, l.now ≤ p.1) :
    (r.await l due).1.conditions = l.conditions ∧
      l.now ≤ (r.await l due).1.now ∧ (∀ p ∈ r.asleep, (r.await l due).1.now ≤ p.1) ∧
      ((r.await l due).2 = r ∨ (r.await l due).1.now = due ∧ (r.await l due).2 = r.rouse due) := by
  have hmin := due_le hdue
  have hle : l.now ≤ due := by
    obtain ⟨p, hp, rfl⟩ := List.mem_map.1 (List.min?_mem hdue)
    exact hlater p hp
  have hnow : (l.passTo due).now = due := (l.now_passTo due).trans (Nat.max_eq_right hle)
  have hwake : (l.passTo due).conditions = l.conditions ∧ l.now ≤ (l.passTo due).now ∧
      ∀ p ∈ r.asleep, (l.passTo due).now ≤ p.1 :=
    ⟨l.conditions_passTo due, hle.trans_eq hnow.symm, fun p hp => hnow.trans_le (hmin p hp)⟩
  unfold PartRun.await
  split
  · next alarm _ =>
    split
    · next hlt =>
      refine ⟨l.conditions_passTo alarm, l.now_le_passTo alarm, fun p hp => ?_, .inl rfl⟩
      have := hmin p hp
      show (l.passTo alarm).now ≤ p.1
      rw [l.now_passTo]
      omega
    · exact ⟨hwake.1, hwake.2.1, hwake.2.2, .inr ⟨hnow, rfl⟩⟩
  · exact ⟨hwake.1, hwake.2.1, hwake.2.2, .inr ⟨hnow, rfl⟩⟩

/-- A part that is started has never waited. -/
theorem fill_due {policy : PartPolicy} {r : PartRun} {time : Nat}
    (hready : ∀ h ∈ r.ready, h.Due policy time) : ∀ h ∈ r.fill.ready, h.Due policy time := by
  intro x hx
  rcases List.mem_append.1 hx with hx | hx
  · exact hready x hx
  · obtain ⟨q, -, rfl⟩ := List.mem_map.1 hx
    trivial

/-- A part that is woken is due at this very time, if none was overdue. -/
theorem rouse_due {policy : PartPolicy} {r : PartRun} {time : Nat}
    (hready : ∀ h ∈ r.ready, h.Due policy time) (hlater : ∀ p ∈ r.asleep, p.2.DueAt policy p.1)
    (hmin : ∀ p ∈ r.asleep, time ≤ p.1) : ∀ h ∈ (r.rouse time).ready, h.Due policy time := by
  intro x hx
  rcases List.mem_append.1 hx with hx | hx
  · exact hready x hx
  · obtain ⟨p, hp, rfl⟩ := List.mem_map.1 hx
    obtain ⟨hmem, hle⟩ := List.mem_filter.1 hp
    have htime : p.1 = time := Nat.le_antisymm (by simpa using hle) (hmin p hmem)
    exact htime ▸ hlater p hmem

/-- The receipt is of a part that is done, and has the tag that its last attempt came to. -/
def Vouched (policy : PartPolicy) (parts : List PartRequest) (log : List Call)
    (statuses : List PartStatus) (receipt : Receipt) : Prop :=
  (∃ i : Nat, ∃ p, parts[i]? = some p ∧ p.number = receipt.number ∧
      statuses[i]? = some PartStatus.done) ∧
    policy.Concluded (.ok receipt.tag) (attempts log receipt.number)

/-- The `i`-th part has come to its end: it is done and has a receipt, or its failure is that of the
run. -/
def Ended (policy : PartPolicy) (log : List Call) (failure : Option PartRunError)
    (statuses : List PartStatus) (receipts : List Receipt) (i : Nat) (p : PartRequest) : Prop :=
  (statuses[i]? = some .done ∧ ∃ receipt ∈ receipts, receipt.number = p.number) ∨
    statuses[i]? = some .failed ∧ ∃ e, failure = some e ∧ p.Fails policy (attempts log p.number) e

/-- The run, started over `origin`, sends `parts`, and its ledger tells what the log tells. -/
structure Tracks (policy : PartPolicy) (upload : String) (parts : List PartRequest) (origin : Link σ)
    (failure : Option PartRunError) (l : Link σ) (r : PartRun) : Prop where
  samePolicy : r.policy = policy
  sameUpload : r.upload = upload
  conditions : l.conditions = origin.conditions
  /-- The calls that were made before the run are still there. -/
  earlier : l.calls.take origin.calls.length = origin.calls
  sent : ∀ c ∈ l.since origin.calls.length, ∃ p ∈ parts, p.Sends upload c.request
  length : r.statuses.length = parts.length
  /-- Each part that is held has a place of its own. -/
  slots : (r.held.map (·.slot)).Nodup
  part : ∀ h ∈ r.held, parts[h.slot]? = some h.part
  status : ∀ h ∈ r.held, r.statuses[h.slot]? = some h.status
  stands : ∀ h ∈ r.held, h.Stands policy upload origin.calls.length l
  ended : ∀ i p, parts[i]? = some p → i ∈ r.held.map (·.slot) ∨
    Ended policy (l.since origin.calls.length) failure r.statuses r.receipts i p
  vouched : ∀ receipt ∈ r.receipts,
    Vouched policy parts (l.since origin.calls.length) r.statuses receipt
  failed : failure.isSome → ∃ i : Nat, r.statuses[i]? = some .failed ∧
    ∀ j : Nat, r.statuses[j]? = some .failed → j = i
  due : ∀ h ∈ r.ready, h.Due policy l.now
  later : ∀ p ∈ r.asleep, l.now ≤ p.1 ∧ p.2.DueAt policy p.1

namespace Tracks

variable {policy : PartPolicy} {upload : String} {parts : List PartRequest} {origin l l' : Link σ}
  {failure : Option PartRunError} {r r' : PartRun}

theorem base_le (h : Tracks policy upload parts origin failure l r) :
    origin.calls.length ≤ l.calls.length := by
  have hlength := congrArg List.length h.earlier
  rw [List.length_take] at hlength
  omega

theorem calls_eq (h : Tracks policy upload parts origin failure l r) :
    l.calls = origin.calls ++ l.since origin.calls.length := by
  calc l.calls
      = l.calls.take origin.calls.length ++ l.calls.drop origin.calls.length :=
        (List.take_append_drop ..).symm
    _ = origin.calls ++ l.since origin.calls.length := by rw [h.earlier, Link.since]

theorem start (policy : PartPolicy) (upload : String) (cancel : Option Signal)
    (parts : List PartRequest) (l : Link σ) :
    Tracks policy upload parts l none l (.start policy upload cancel parts) := by
  let numbered := parts.zipIdx.map fun p => (p.2, p.1)
  have hperm : (PartRun.start policy upload cancel parts).held.Perm
      (numbered.map fun p => ReadyPart.fresh p.1 p.2) :=
    (List.mergeSort_perm numbered fun a b => a.2.number ≤ b.2.number).map _
  have hsince : l.since l.calls.length = [] := List.drop_length
  have hmem : ∀ h ∈ (PartRun.start policy upload cancel parts).held,
      ∃ i p, parts[i]? = some p ∧ h = .fresh i p := by
    intro h hh
    obtain ⟨q, hq, rfl⟩ := List.mem_map.1 (hperm.mem_iff.1 hh)
    obtain ⟨p, hp, rfl⟩ := List.mem_map.1 hq
    exact ⟨p.2, p.1, List.mem_zipIdx_iff_getElem?.1 hp, rfl⟩
  have hslots : ((PartRun.start policy upload cancel parts).held.map (·.slot)).Perm
      (List.range parts.length) := by
    refine (hperm.map _).trans (List.Perm.of_eq ?_)
    calc (numbered.map fun p => ReadyPart.fresh p.1 p.2).map (·.slot)
        = parts.zipIdx.map Prod.snd := by rw [List.map_map, List.map_map]; rfl
      _ = List.range parts.length := by rw [List.zipIdx_map_snd, List.range_eq_range']
  have hpending : ∀ (i : Nat) p, parts[i]? = some p →
      (PartRun.start policy upload cancel parts).statuses[i]? = some PartStatus.pending := by
    intro i p hp
    show (parts.map _)[i]? = _
    rw [List.getElem?_map, hp]
    rfl
  refine ⟨rfl, rfl, rfl, List.take_length, ?_, List.length_map .., ?_, ?_, ?_, ?_, ?_, ?_, ?_, ?_, ?_⟩
  · rw [hsince]
    exact fun _ hc => by cases hc
  · exact hslots.nodup_iff.2 List.nodup_range
  · intro h hh
    obtain ⟨i, p, hp, rfl⟩ := hmem h hh
    exact hp
  · intro h hh
    obtain ⟨i, p, hp, rfl⟩ := hmem h hh
    exact hpending i p hp
  · intro h hh
    obtain ⟨i, p, hp, rfl⟩ := hmem h hh
    show attempts (l.since l.calls.length) p.number = []
    rw [hsince]
    rfl
  · intro i p hp
    refine .inl (hslots.mem_iff.2 (List.mem_range.2 ?_))
    exact (List.getElem?_eq_some_iff.1 hp).1
  · exact fun _ hreceipt => by cases hreceipt
  · exact fun hsome => by cases hsome
  · exact fun _ hready => by cases hready
  · exact fun _ hasleep => by cases hasleep

/-- Only what the run holds matters, not where it holds it. -/
theorem of_perm (h : Tracks policy upload parts origin failure l r) (hheld : r'.held.Perm r.held)
    (hpolicy : r'.policy = r.policy) (hupload : r'.upload = r.upload)
    (hstatuses : r'.statuses = r.statuses) (hreceipts : r'.receipts = r.receipts)
    (hdue : ∀ h ∈ r'.ready, h.Due policy l.now)
    (hlater : ∀ p ∈ r'.asleep, l.now ≤ p.1 ∧ p.2.DueAt policy p.1) :
    Tracks policy upload parts origin failure l r' := by
  have hmem : ∀ h ∈ r'.held, h ∈ r.held := fun h hh => hheld.mem_iff.1 hh
  refine ⟨hpolicy.trans h.samePolicy, hupload.trans h.sameUpload, h.conditions, h.earlier, h.sent,
    hstatuses ▸ h.length, (hheld.map _).nodup_iff.2 h.slots, fun x hx => h.part x (hmem x hx),
    fun x hx => hstatuses ▸ h.status x (hmem x hx), fun x hx => h.stands x (hmem x hx), ?_, ?_, ?_,
    hdue, hlater⟩
  · intro i p hp
    rw [hstatuses, hreceipts, (hheld.map _).mem_iff]
    exact h.ended i p hp
  · rw [hstatuses, hreceipts]
    exact h.vouched
  · rw [hstatuses]
    exact h.failed

theorem fill (h : Tracks policy upload parts origin failure l r) :
    Tracks policy upload parts origin failure l r.fill :=
  h.of_perm r.held_fill rfl rfl rfl rfl (fill_due h.due) h.later

/-- The clock may run as long as no part has a turn and none is overdue. -/
theorem pass (h : Tracks policy upload parts origin failure l r) (hready : r.ready = [])
    (hcalls : l'.calls = l.calls) (hconditions : l'.conditions = l.conditions)
    (hnow : ∀ p ∈ r.asleep, l'.now ≤ p.1) : Tracks policy upload parts origin failure l' r := by
  have hsince : l'.since origin.calls.length = l.since origin.calls.length := by
    rw [Link.since, hcalls, Link.since]
  have hopen : ∀ q t, l.Open origin.calls.length q t → l'.Open origin.calls.length q t := by
    intro q t ho
    exact ⟨hcalls ▸ ho.call, ho.recent, hcalls ▸ ho.last⟩
  refine ⟨h.samePolicy, h.sameUpload, hconditions.trans h.conditions, hcalls ▸ h.earlier, hsince ▸ h.sent,
    h.length, h.slots, h.part, h.status, ?_, hsince ▸ h.ended, hsince ▸ h.vouched, h.failed, ?_,
    fun p hp => ⟨hnow p hp, (h.later p hp).2⟩⟩
  · intro x hx
    have hstands := h.stands x hx
    cases x with
    | fresh slot part =>
      show attempts (l'.since _) part.number = []
      rw [hsince]
      exact hstands
    | woken part =>
      simp only [ReadyPart.Stands, ActivePart.Underway] at hstands ⊢
      split at hstands
      · rw [hsince]
        exact hstands
      · rw [hsince]
        exact ⟨hopen _ _ hstands.1, hstands.2⟩
  · rw [hready]
    exact fun _ hx => by cases hx

theorem rouse (h : Tracks policy upload parts origin failure l r) {time : Nat} (hnow : l.now = time)
    (hdue : ∀ p ∈ r.asleep, time ≤ p.1) :
    Tracks policy upload parts origin failure l (r.rouse time) := by
  refine h.of_perm (r.held_rouse time) rfl rfl rfl rfl ?_
    fun p hp => h.later p (List.mem_filter.1 hp).1
  subst hnow
  exact rouse_due h.due (fun p hp => (h.later p hp).2) hdue

/-- The run takes no notice of a clock that runs to the time at which the first part is due, or to an
alarm before that. -/
theorem await (h : Tracks policy upload parts origin failure l r) {due : Nat} (hready : r.ready = [])
    (hdue : r.due? = some due) :
    Tracks policy upload parts origin failure (r.await l due).1 (r.await l due).2 := by
  obtain ⟨hconditions, -, hnow, hrun⟩ := await_spec l hdue fun p hp => (h.later p hp).1
  have hpassed := h.pass hready (r.calls_await l due) hconditions hnow
  rcases hrun with hrun | ⟨hdueNow, hrun⟩
  · rw [hrun]
    exact hpassed
  · rw [hrun]
    exact hpassed.rouse hdueNow (due_le hdue)

/-! ## A turn -/

/-- Parts have different numbers, so a turn of one is in no other's lane. -/
theorem number_ne (h : Tracks policy upload parts origin failure l r)
    (hdistinct : (parts.map (·.number)).Nodup) {part : ReadyPart} (hheld : part ∈ r.held) {i : Nat}
    {p : PartRequest} (hp : parts[i]? = some p) (hi : i ≠ part.slot) : p.number ≠ part.number := by
  intro heq
  have hself := h.part part hheld
  have hlt : i < (parts.map (·.number)).length := by
    rw [List.length_map]
    exact (List.getElem?_eq_some_iff.1 hp).1
  apply hi
  apply (List.getElem?_inj hlt hdistinct).1
  rw [List.getElem?_map, List.getElem?_map, hp, hself, Option.map_some, Option.map_some, heq,
    ReadyPart.number_part]

variable {part : ReadyPart} {others : List ReadyPart}

/-- A turn of a part leaves all other parts as they are. -/
theorem keeps_others (h : Tracks policy upload parts origin none l r)
    (hdistinct : (parts.map (·.number)).Nodup) (hheld : r.held = part :: others)
    (hasks : part.Asks upload origin.calls.length l l') (status : PartStatus) (failure : Option PartRunError) :
    (∀ x ∈ others, (r.statuses.set part.slot status)[x.slot]? = some x.status ∧
        x.Stands policy upload origin.calls.length l') ∧
      (∀ i p, parts[i]? = some p → i ≠ part.slot → i ∈ others.map (·.slot) ∨
        Ended policy (l'.since origin.calls.length) failure (r.statuses.set part.slot status)
          r.receipts i p) ∧
      ∀ receipt ∈ r.receipts, Vouched policy parts (l'.since origin.calls.length)
        (r.statuses.set part.slot status) receipt := by
  obtain ⟨⟨q, hlane, hmakes⟩, -⟩ := hasks
  have hpart : part ∈ r.held := by simp [hheld]
  have hslots := h.slots
  rw [hheld, List.map_cons, List.nodup_cons] at hslots
  have hlanes : ∀ i p, parts[i]? = some p → i ≠ part.slot → q.lane ≠ .part p.number := by
    intro i p hp hi heq
    rw [hlane] at heq
    exact h.number_ne hdistinct hpart hp hi (Request.Lane.part.inj heq).symm
  have hdone : ∀ i : Nat, r.statuses[i]? = some .done → i ≠ part.slot := by
    intro i hi heq
    rw [heq, h.status part hpart] at hi
    cases part <;> cases hi
  refine ⟨?_, ?_, ?_⟩
  · intro x hx
    have hmem : x ∈ r.held := by simp [hheld, hx]
    have hne : part.slot ≠ x.slot := fun heq => hslots.1 (heq ▸ List.mem_map_of_mem hx)
    refine ⟨?_, (h.stands x hmem).frame hmakes ?_⟩
    · rw [List.getElem?_set_ne hne]
      exact h.status x hmem
    · rw [← ReadyPart.number_part]
      exact hlanes x.slot x.part (h.part x hmem) hne.symm
  · intro i p hp hi
    rcases h.ended i p hp with hin | ⟨hstatus, hreceipt⟩ | ⟨-, e, he, -⟩
    · rw [hheld, List.map_cons] at hin
      exact .inl ((List.mem_cons.1 hin).resolve_left hi)
    · refine .inr (.inl ⟨?_, hreceipt⟩)
      rw [List.getElem?_set_ne hi.symm]
      exact hstatus
    · cases he
  · intro receipt hreceipt
    obtain ⟨⟨i, p, hp, hpn, hstatus⟩, hconcluded⟩ := h.vouched receipt hreceipt
    have hi := hdone i hstatus
    refine ⟨⟨i, p, hp, hpn, ?_⟩, ?_⟩
    · rw [List.getElem?_set_ne hi.symm]
      exact hstatus
    · rw [hmakes.others receipt.number (hpn ▸ hlanes i p hp hi)]
      exact hconcluded

/-- No part has failed before the one that ends the run. -/
theorem not_failed (h : Tracks policy upload parts origin none l r) (i : Nat) :
    r.statuses[i]? ≠ some .failed := by
  intro hi
  have hlt := (List.getElem?_eq_some_iff.1 hi).1
  rw [h.length] at hlt
  rcases h.ended i parts[i] (List.getElem?_eq_getElem hlt) with hin | ⟨hstatus, -⟩ | ⟨-, e, he, -⟩
  · obtain ⟨x, hx, rfl⟩ := List.mem_map.1 hin
    rw [h.status x hx] at hi
    cases x <;> cases hi
  · rw [hstatus] at hi
    cases hi
  · cases he

/-- With the status of one part, it is the only one that has failed if that is what it has come to. -/
theorem failed_once (h : Tracks policy upload parts origin none l r) (hpart : part ∈ r.held)
    {status : PartStatus} (hstatus : status = .failed) :
    ∃ i : Nat, (r.statuses.set part.slot status)[i]? = some .failed ∧
      ∀ j : Nat, (r.statuses.set part.slot status)[j]? = some .failed → j = i := by
  subst hstatus
  have hlt := (List.getElem?_eq_some_iff.1 (h.status part hpart)).1
  refine ⟨part.slot, List.getElem?_set_self hlt, fun j hj => ?_⟩
  by_contra hne
  rw [List.getElem?_set_ne (Ne.symm hne)] at hj
  exact h.not_failed j hj

end Tracks

/-- What the turn of a part makes of the ledger: the part has `status`, and is held as `again` or has come to
its end, by `failure` if the run has. -/
structure AfterTurn (policy : PartPolicy) (upload : String) (parts : List PartRequest) (base : Nat)
    (part : ReadyPart) (again : Option ReadyPart) (status : PartStatus) (failure : Option PartRunError)
    (l' : Link σ) (r r' : PartRun) : Prop where
  samePolicy : r'.policy = r.policy
  sameUpload : r'.upload = r.upload
  statuses : r'.statuses = r.statuses.set part.slot status
  stands : ∀ x ∈ again, x.status = status ∧ x.Stands policy upload base l'
  ends : again = none → Ended policy (l'.since base) failure r'.statuses r'.receipts part.slot part.part
  kept : ∀ receipt ∈ r.receipts, receipt ∈ r'.receipts
  vouched : ∀ receipt ∈ r'.receipts, receipt ∈ r.receipts ∨
    Vouched policy parts (l'.since base) r'.statuses receipt
  failed : failure.isSome → status = .failed
  due : ∀ x ∈ r'.ready, x.Due policy l'.now
  later : ∀ p ∈ r'.asleep, l'.now ≤ p.1 ∧ p.2.DueAt policy p.1

theorem Ended.mono {policy : PartPolicy} {log : List Call} {failure : Option PartRunError}
    {statuses : List PartStatus} {receipts receipts' : List Receipt} {i : Nat} {p : PartRequest}
    (h : Ended policy log failure statuses receipts i p) (hkept : ∀ receipt ∈ receipts, receipt ∈ receipts') :
    Ended policy log failure statuses receipts' i p := by
  rcases h with ⟨hstatus, receipt, hreceipt, hn⟩ | hfail
  · exact .inl ⟨hstatus, receipt, hkept receipt hreceipt, hn⟩
  · exact .inr hfail

namespace Tracks

variable {policy : PartPolicy} {upload : String} {parts : List PartRequest} {origin l l' : Link σ}
  {failure : Option PartRunError} {r r' : PartRun} {part : ReadyPart} {others : List ReadyPart}
  {again : Option ReadyPart} {status : PartStatus}

/-- The ledger goes on to tell what the log tells after a turn. -/
theorem after_turn (h : Tracks policy upload parts origin none l r) (hdistinct : (parts.map (·.number)).Nodup)
    (hheld : r.held = part :: others) (hasks : part.Asks upload origin.calls.length l l')
    (hplace : InPlaceOf part others again r')
    (hafter : AfterTurn policy upload parts origin.calls.length part again status failure l' r r') :
    Tracks policy upload parts origin failure l' r' := by
  obtain ⟨hothers, hended, hvouched⟩ := h.keeps_others hdistinct hheld hasks status failure
  rw [← hafter.statuses] at hothers hended hvouched
  obtain ⟨⟨q, hlane, hmakes⟩, hsent⟩ := hasks
  have hin : part ∈ r.held := by simp [hheld]
  have hpart := h.part part hin
  have hset : r'.statuses[part.slot]? = some status := by
    rw [hafter.statuses]
    exact List.getElem?_set_self (List.getElem?_eq_some_iff.1 (h.status part hin)).1
  exact {
    samePolicy := hafter.samePolicy.trans h.samePolicy
    sameUpload := hafter.sameUpload.trans h.sameUpload
    conditions := hmakes.conditions.trans h.conditions
    earlier := hmakes.earlier.trans h.earlier
    sent := fun c hc => by
      rcases hsent c hc with hc | ⟨c', hc', heq⟩
      · exact ⟨part.part, List.mem_of_getElem? hpart, hc⟩
      · rw [← heq]
        exact h.sent c' hc'
    length := by
      rw [hafter.statuses, List.length_set]
      exact h.length
    slots := hplace.nodup_slots (hheld ▸ h.slots)
    part := hplace.forall_held
      (fun x hx => by rw [(hplace.same x hx).1, (hplace.same x hx).2, hpart])
      fun x hx => h.part x (by simp [hheld, hx])
    status := hplace.forall_held
      (fun x hx => by rw [(hplace.same x hx).1, hset, (hafter.stands x hx).1])
      fun x hx => (hothers x hx).1
    stands := hplace.forall_held (fun x hx => (hafter.stands x hx).2) fun x hx => (hothers x hx).2
    ended := fun i p hp => by
      rw [hplace.mem_slots_iff]
      by_cases hi : i = part.slot
      · subst hi
        obtain rfl : p = part.part := Option.some.inj (hp.symm.trans hpart)
        cases again with
        | none => exact .inr (hafter.ends rfl)
        | some x => exact .inl (.inl ⟨rfl, rfl⟩)
      · exact (hended i p hp hi).imp .inr fun hover => hover.mono hafter.kept
    vouched := fun receipt hreceipt => (hafter.vouched receipt hreceipt).elim (hvouched receipt) id
    failed := fun hsome => by
      rw [hafter.statuses]
      exact h.failed_once hin (hafter.failed hsome)
    due := hafter.due
    later := hafter.later }

/-- What a turn comes to: it moves the run on, or the part fails and the run ends by its failure. -/
theorem turn [Endpoint σ] (h : Tracks policy upload parts origin none l r)
    (hdistinct : (parts.map (·.number)).Nodup) {rest : List ReadyPart} (hready : r.ready = part :: rest) :
    (∃ e, (r.turn l part rest).2.2 = .ended (.error e) ∧
        Tracks policy upload parts origin (some e) (r.turn l part rest).1 (r.turn l part rest).2.1) ∨
      (r.turn l part rest).2.2 = .moved ∧
        Tracks policy upload parts origin none (r.turn l part rest).1 (r.turn l part rest).2.1 := by
  have hheld := held_eq_cons hready
  have hin : part ∈ r.held := by simp [hheld]
  have hpart := h.part part hin
  have hset : ∀ status, (r.statuses.set part.slot status)[part.slot]? = some status := fun status =>
    List.getElem?_set_self (List.getElem?_eq_some_iff.1 (h.status part hin)).1
  obtain ⟨hasks, hlook⟩ := ReadyPart.look_spec h.base_le (h.stands part hin) (h.due part (by simp [hready]))
  obtain rfl := h.samePolicy
  obtain rfl := h.sameUpload
  have hdue : ∀ x ∈ rest, x.Due r.policy l.now := fun x hx => h.due x (by simp [hready, hx])
  unfold PartRun.turn
  simp only [mark, List.set_set]
  generalize part.look r.policy r.upload l = out at hasks hlook
  obtain ⟨l', turn⟩ := out
  have hnow : l'.now = l.now := hasks.now
  rw [← hnow] at hdue
  have hlater : ∀ p ∈ r.asleep, l'.now ≤ p.1 ∧ p.2.DueAt r.policy p.1 := by
    rw [hnow]
    exact h.later
  cases turn with
  | waits time next =>
    obtain ⟨hsame, htime, hnextDue, hunderway⟩ := hlook
    refine .inr ⟨rfl, h.after_turn hdistinct hheld hasks (.waiting rfl rfl rfl hsame) {
      samePolicy := rfl
      sameUpload := rfl
      statuses := rfl
      stands := fun x hx => by cases hx; exact ⟨rfl, hunderway⟩
      ends := fun hnone => by cases hnone
      kept := fun _ hreceipt => hreceipt
      vouched := fun _ hreceipt => .inl hreceipt
      failed := fun hsome => by cases hsome
      due := hdue
      later := fun p hp => ?_ }⟩
    rcases List.mem_append.1 hp with hp | hp
    · exact hlater p hp
    · rw [List.mem_singleton.1 hp]
      exact ⟨htime, hnextDue⟩
  | done tag =>
    refine .inr ⟨rfl, h.after_turn hdistinct hheld hasks (.gone rfl rfl rfl) {
      samePolicy := rfl
      sameUpload := rfl
      statuses := rfl
      stands := fun x hx => by cases hx
      ends := fun _ => .inl ⟨hset .done, _, List.mem_append_right _ (List.mem_singleton.2 rfl), by simp⟩
      kept := fun _ hreceipt => List.mem_append_left _ hreceipt
      vouched := fun receipt hreceipt => ?_
      failed := fun hsome => by cases hsome
      due := hdue
      later := hlater }⟩
    rcases List.mem_append.1 hreceipt with hold | hnew
    · exact .inl hold
    · rw [List.mem_singleton.1 hnew]
      exact .inr ⟨⟨part.slot, part.part, hpart, part.number_part, hset .done⟩, hlook⟩
  | failed e =>
    refine .inl ⟨e, rfl, h.after_turn hdistinct hheld hasks (.gone rfl rfl rfl) {
      samePolicy := rfl
      sameUpload := rfl
      statuses := rfl
      stands := fun x hx => by cases hx
      ends := fun _ => .inr ⟨hset .failed, e, rfl, part.number_part.symm ▸ hlook⟩
      kept := fun _ hreceipt => hreceipt
      vouched := fun _ hreceipt => .inl hreceipt
      failed := fun _ => rfl
      due := hdue
      later := hlater }⟩

end Tracks

/-! ## A run -/

variable {policy : PartPolicy} {upload : String} {parts : List PartRequest} {origin l : Link σ}
  {r : PartRun}

/-- What is known at the end of a run, by its outcome. -/
def AtEnd (policy : PartPolicy) (upload : String) (parts : List PartRequest) (origin l : Link σ)
    (r : PartRun) : Outcome → Prop
  | .ok receipts => Tracks policy upload parts origin none l r ∧ r.held = [] ∧ receipts = r.sorted
  | .error .cancelled => Tracks policy upload parts origin none l r
  | .error e => Tracks policy upload parts origin (some e) l r

theorem AtEnd.tracks {outcome : Outcome} (h : AtEnd policy upload parts origin l r outcome) :
    ∃ failure, Tracks policy upload parts origin failure l r := by
  match outcome, h with
  | .ok _, h => exact ⟨none, h.1⟩
  | .error .cancelled, h => exact ⟨none, h⟩
  | .error (.partFailed ..), h => exact ⟨_, h⟩
  | .error (.unreadable ..), h => exact ⟨_, h⟩

theorem AtEnd.tracks_error {e : PartRunError} (h : AtEnd policy upload parts origin l r (.error e))
    (he : e ≠ .cancelled) : Tracks policy upload parts origin (some e) l r := by
  cases e with
  | cancelled => exact absurd rfl he
  | partFailed number cause => exact h
  | unreadable number message => exact h

namespace Tracks

/-- The part whose failure ended the run. -/
theorem failed_part {e : PartRunError} (h : Tracks policy upload parts origin (some e) l r) :
    ∃ (i : Nat) (p : PartRequest), parts[i]? = some p ∧ r.statuses[i]? = some .failed ∧
      (∀ j : Nat, r.statuses[j]? = some .failed → j = i) ∧
      p.Fails policy (attempts (l.since origin.calls.length) p.number) e := by
  obtain ⟨i, hi, hall⟩ := h.failed rfl
  have hlt := (List.getElem?_eq_some_iff.1 hi).1
  rw [h.length] at hlt
  have hpart := List.getElem?_eq_getElem hlt
  refine ⟨i, parts[i], hpart, hi, hall, ?_⟩
  rcases h.ended i _ hpart with hin | ⟨hstatus, -⟩ | ⟨-, e', he', hfails⟩
  · obtain ⟨x, hx, rfl⟩ := List.mem_map.1 hin
    rw [h.status x hx] at hi
    cases x <;> cases hi
  · rw [hstatus] at hi
    cases hi
  · cases he'
    exact hfails

theorem atEnd_error {e : PartRunError} (h : Tracks policy upload parts origin (some e) l r) :
    AtEnd policy upload parts origin l r (.error e) := by
  obtain ⟨i, p, -, -, -, ⟨cause, rfl, -⟩ | ⟨reason, -, rfl, -⟩⟩ := h.failed_part
  · exact h
  · exact h

/-- What a step comes to. -/
theorem step [Endpoint σ] (h : Tracks policy upload parts origin none l r)
    (hdistinct : (parts.map (·.number)).Nodup) :
    match (r.step l).2.2 with
    | .moved => Tracks policy upload parts origin none (r.step l).1 (r.step l).2.1
    | .idle due => Tracks policy upload parts origin none (r.step l).1 (r.step l).2.1 ∧
        (r.step l).2.1.ready = [] ∧ (r.step l).2.1.due? = some due
    | .ended outcome => AtEnd policy upload parts origin (r.step l).1 (r.step l).2.1 outcome := by
  obtain ⟨-, hstep⟩ | ⟨-, ⟨part, rest, hready, hstep⟩ |
    ⟨hready, ⟨hdue, hstep⟩ | ⟨due, hdue, hstep⟩⟩⟩ :=
    r.step_cases l
  · rw [hstep]
    exact h
  · rw [hstep]
    rcases h.fill.turn hdistinct hready with ⟨e, hended, htracks⟩ | ⟨hmoved, htracks⟩
    · rw [hended]
      exact htracks.atEnd_error
    · rw [hmoved]
      exact htracks
  · rw [hstep]
    obtain ⟨hqueue, hr, hasleep⟩ := nothing_left hready hdue
    refine ⟨h.fill, List.Perm.eq_nil (r.held_fill.trans (.of_eq ?_)), rfl⟩
    simp [held, hqueue, hr, hasleep]
  · rw [hstep]
    exact ⟨h.fill, hready, hdue⟩

/-- Whatever a run comes to, its ledger tells what the log of its link tells. -/
theorem run [Endpoint σ] (h : Tracks policy upload parts origin none l r)
    (hdistinct : (parts.map (·.number)).Nodup) :
    AtEnd policy upload parts origin (r.run l).1 (r.run l).2.1 (r.run l).2.2 := by
  fun_induction PartRun.run r l with
  | case1 r l l' r' outcome hstep =>
    have hnext := h.step hdistinct
    rw [hstep] at hnext
    exact hnext
  | case2 r l l' r' hstep ih =>
    have hnext := h.step hdistinct
    rw [hstep] at hnext
    exact ih hnext
  | case3 r l l' r' due hstep ih =>
    have hnext := h.step hdistinct
    rw [hstep] at hnext
    obtain ⟨htracks, hready, hdue⟩ := hnext
    exact ih (htracks.await hready hdue)

end Tracks

end PartRun

end ObjectFlush
