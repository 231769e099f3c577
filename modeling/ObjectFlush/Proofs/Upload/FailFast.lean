import Mathlib.Data.List.Chain
import ObjectFlush.Proofs.Upload.Delivery

/-!
The course of a part run, and what is left of it when a part fails. The ledger goes through each place
step by step and never back, and gives a part to the endpoint once (`PartRun.Tracks.orderly`). The first
failure of a part is the end: the ledger that is left has that one failure, tells for every other part what
the log tells, and no request follows (`part_run_fails_fast`).
-/

namespace ObjectFlush

/-- How the place of a part may change. -/
inductive PartStatus.Moves : PartStatus → PartStatus → Prop
  | dispatched : Moves .pending .inFlight
  | delivered : Moves .inFlight .done
  | refused : Moves .inFlight .failed

/-- From one ledger to the next, each part stays or moves. -/
def Advances (a b : List PartStatus) : Prop :=
  a.length = b.length ∧
    ∀ (i : Nat) s t, a[i]? = some s → b[i]? = some t → s = t ∨ s.Moves t

namespace Advances

theorem refl (a : List PartStatus) : Advances a a := by
  refine ⟨rfl, fun i s t hs ht => .inl ?_⟩
  rw [hs] at ht
  exact Option.some.inj ht

theorem set {a : List PartStatus} {slot : Nat} {s t : PartStatus} (hslot : a[slot]? = some s)
    (h : s = t ∨ s.Moves t) : Advances a (a.set slot t) := by
  refine ⟨(List.length_set ..).symm, fun i s' t' hs' ht' => ?_⟩
  by_cases hi : slot = i
  · subst hi
    rw [List.getElem?_set_self (List.getElem?_eq_some_iff.1 hslot).1] at ht'
    rw [hslot] at hs'
    cases hs'
    cases ht'
    exact h
  · rw [List.getElem?_set_ne hi] at ht'
    exact (refl a).2 i s' t' hs' ht'

/-- Nothing becomes pending. -/
theorem pending {a b : List PartStatus} (h : Advances a b) {i : Nat} (hb : b[i]? = some .pending) :
    a[i]? = some .pending := by
  have hlt : i < a.length := h.1 ▸ (List.getElem?_eq_some_iff.1 hb).1
  have ha := List.getElem?_eq_getElem hlt
  rcases h.2 i _ _ ha hb with heq | hmoves
  · rw [ha, heq]
  · generalize a[i] = s at hmoves
    cases hmoves

end Advances

/-- A moment of a run: the link and the run, and the part whose turn has just begun, if one has. -/
structure Moment (σ : Type) where
  link : Link σ
  run : PartRun
  turn : Option ReadyPart := none

/-- The place of a part that was not started before its turn. -/
def ReadyPart.fresh? : ReadyPart → Option Nat
  | .fresh slot _ => some slot
  | .woken _ => none

/-- The places of the parts that are started in some moments. -/
def dispatched {σ : Type} (history : List (Moment σ)) : List Nat :=
  history.filterMap fun m => m.turn.bind ReadyPart.fresh?

namespace PartRun

variable {σ : Type} [Endpoint σ] {policy : PartPolicy} {upload : String} {parts : List PartRequest}
  {origin l l' : Link σ} {r r' : PartRun}

/-! ## The course of a run -/

/-- The run as the turn of `part` begins, `rest` being the others that have one. -/
def begun (r : PartRun) (part : ReadyPart) (rest : List ReadyPart) : PartRun :=
  { r.mark part.slot .inFlight with ready := rest }

/-- The moments of a step before its end: the run as it is, and as the turn of a part begins. -/
def moments {σ : Type} (r : PartRun) (l : Link σ) : List (Moment σ) :=
  ⟨l, r, none⟩ ::
    if r.isCancelled l then []
    else
      match r.fill.ready with
      | [] => []
      | part :: rest => [⟨l, r.fill.begun part rest, some part⟩]

theorem moments_of_turn {σ : Type} {r : PartRun} {l : Link σ} {part : ReadyPart} {rest : List ReadyPart}
    (hcancel : r.isCancelled l = false) (hready : r.fill.ready = part :: rest) :
    r.moments l = [⟨l, r, none⟩, ⟨l, r.fill.begun part rest, some part⟩] := by
  rw [moments, hcancel, if_neg Bool.false_ne_true, hready]

theorem moments_of_no_turn {σ : Type} {r : PartRun} {l : Link σ}
    (h : r.isCancelled l = true ∨ r.fill.ready = []) : r.moments l = [⟨l, r, none⟩] := by
  rw [moments]
  rcases h with hcancel | hready
  · rw [if_pos hcancel]
  · rw [hready, ite_self]

/-- The moments of a run before its end, first to last. -/
def history (r : PartRun) (l : Link σ) : List (Moment σ) :=
  match _hstep : r.step l with
  | (_, _, .ended _) => r.moments l
  | (l', r', .moved) => r.moments l ++ history r' l'
  | (l', r', .idle due) => r.moments l ++ history (r'.await l' due).2 (r'.await l' due).1
termination_by r.weight + l.alarms.length
decreasing_by
  · exact measure_moved _hstep
  · exact measure_idle _hstep

/-- From some moments to a ledger after them: each part moves step by step, none fails before the end, and
a part that is started was pending up to then. -/
structure Orderly (moments : List (Moment σ)) (first last : List PartStatus) : Prop where
  advances : (moments.map (·.run.statuses) ++ [last]).IsChain Advances
  head : (moments.map (·.run.statuses)).head? = some first
  unfailed : ∀ m ∈ moments, ∀ i : Nat, m.run.statuses[i]? ≠ some .failed
  started : ∀ i ∈ dispatched moments, first[i]? = some .pending ∧ last[i]? ≠ some .pending
  once : (dispatched moments).Nodup

/-- A turn moves its part on from the ledger at its beginning, or leaves it under way. -/
theorem turn_statuses (r : PartRun) (l : Link σ) (part : ReadyPart) (rest : List ReadyPart) :
    ∃ status, (PartStatus.inFlight = status ∨ PartStatus.inFlight.Moves status) ∧
      (r.turn l part rest).2.1.statuses = (r.statuses.set part.slot .inFlight).set part.slot status := by
  simp only [turn, mark]
  split
  · exact ⟨.inFlight, .inl rfl, (List.set_set ..).symm⟩
  · exact ⟨.done, .inr .delivered, rfl⟩
  · exact ⟨.failed, .inr .refused, rfl⟩

/-- A turn moves its part alone, from pending or from under way. -/
theorem Tracks.orderly_turn (h : Tracks policy upload parts origin none l r) {part : ReadyPart}
    {rest : List ReadyPart} (hready : r.fill.ready = part :: rest) :
    Orderly [⟨l, r, none⟩, ⟨l, r.fill.begun part rest, some part⟩] r.statuses
      (r.fill.turn l part rest).2.1.statuses := by
  have hslot : r.statuses[part.slot]? = some part.status :=
    h.fill.status part (by simp [held, hready])
  have hbegun : (r.fill.begun part rest).statuses[part.slot]? = some .inFlight :=
    List.getElem?_set_self (List.getElem?_eq_some_iff.1 hslot).1
  have hbegins : Advances r.statuses (r.fill.begun part rest).statuses := by
    refine Advances.set hslot ?_
    cases part with
    | fresh => exact .inr .dispatched
    | woken => exact .inl rfl
  obtain ⟨status, hmoves, hturn⟩ := r.fill.turn_statuses l part rest
  have hends : Advances (r.fill.begun part rest).statuses (r.fill.turn l part rest).2.1.statuses := by
    rw [hturn]
    exact Advances.set hbegun hmoves
  have hunfailed : ∀ i : Nat, (r.fill.begun part rest).statuses[i]? ≠ some .failed := by
    intro i hi
    by_cases hpart : part.slot = i
    · subst hpart
      cases hbegun.symm.trans hi
    · change (r.statuses.set part.slot .inFlight)[i]? = _ at hi
      rw [List.getElem?_set_ne hpart] at hi
      exact h.not_failed i hi
  refine ⟨.cons_cons hbegins (.cons_cons hends (.singleton _)), rfl, ?_, ?_, ?_⟩
  · intro m hm
    rcases List.mem_cons.1 hm with rfl | hm
    · exact h.not_failed
    · rw [List.mem_singleton.1 hm]
      exact hunfailed
  · intro i hi
    cases part with
    | woken part => cases hi
    | fresh slot part =>
      obtain rfl := List.mem_singleton.1 hi
      exact ⟨hslot, fun hlast => by cases hbegun.symm.trans (hends.pending hlast)⟩
  · cases part with
    | woken part => exact List.nodup_nil
    | fresh slot part => exact List.nodup_singleton slot

theorem Tracks.orderly_step (h : Tracks policy upload parts origin none l r) :
    Orderly (r.moments l) r.statuses (r.step l).2.1.statuses := by
  have hquiet : Orderly [(⟨l, r, none⟩ : Moment σ)] r.statuses r.statuses := by
    refine ⟨by simpa using Advances.refl r.statuses, rfl, ?_, List.forall_mem_nil _, List.nodup_nil⟩
    intro m hm
    rw [List.mem_singleton.1 hm]
    exact h.not_failed
  obtain ⟨hcancel, hstep⟩ | ⟨hcancel, ⟨part, rest, hready, hstep⟩ |
    ⟨hready, ⟨-, hstep⟩ | ⟨due, -, hstep⟩⟩⟩ := r.step_cases l
  · rw [hstep, moments_of_no_turn (.inl hcancel)]
    exact hquiet
  · rw [hstep, moments_of_turn hcancel hready]
    exact h.orderly_turn hready
  · rw [hstep, moments_of_no_turn (.inr hready)]
    exact hquiet
  · rw [hstep, moments_of_no_turn (.inr hready)]
    exact hquiet

namespace Orderly

variable {a b : List (Moment σ)} {first mid last : List PartStatus}

omit [Endpoint σ]

/-- Nothing becomes pending. -/
theorem pending (h : Orderly a first last) {i : Nat} (hlast : last[i]? = some .pending) :
    first[i]? = some .pending := by
  let Back (s t : List PartStatus) : Prop := t[i]? = some .pending → s[i]? = some .pending
  have hback : (a.map (·.run.statuses) ++ [last]).IsChain Back :=
    h.advances.imp fun _ _ hab => hab.pending
  have htrans : Trans Back Back Back := ⟨fun hst htu hu => hst (htu hu)⟩
  obtain ⟨rest, hrest⟩ := List.head?_eq_some_iff.1 h.head
  rw [hrest, List.cons_append] at hback
  exact List.rel_of_pairwise_cons hback.pairwise (by simp) hlast

theorem append (h : Orderly a first mid) (h' : Orderly b mid last) : Orderly (a ++ b) first last := by
  have hdispatched : dispatched (a ++ b) = dispatched a ++ dispatched b := List.filterMap_append
  refine ⟨?_, ?_, ?_, ?_, ?_⟩
  · have hchain := h'.advances
    obtain ⟨rest, hrest⟩ := List.head?_eq_some_iff.1 h'.head
    rw [hrest] at hchain
    rw [List.map_append, hrest]
    have hjoined := List.IsChain.append_overlap h.advances hchain (by simp)
    simpa using hjoined
  · rw [List.map_append, List.head?_append, h.head]
    rfl
  · intro m hm
    rcases List.mem_append.1 hm with hm | hm
    · exact h.unfailed m hm
    · exact h'.unfailed m hm
  · intro i hi
    rw [hdispatched] at hi
    rcases List.mem_append.1 hi with hi | hi
    · obtain ⟨hfirst, hmid⟩ := h.started i hi
      exact ⟨hfirst, fun hlast => hmid (h'.pending hlast)⟩
    · obtain ⟨hmid, hlast⟩ := h'.started i hi
      exact ⟨h.pending hmid, hlast⟩
  · rw [hdispatched]
    refine List.nodup_append.2 ⟨h.once, h'.once, ?_⟩
    rintro i hi _ hi' rfl
    exact (h.started i hi).2 (h'.started i hi').1

end Orderly

theorem run_of_ended {outcome : Outcome} (h : r.step l = (l', r', .ended outcome)) :
    r.run l = (l', r', outcome) := by
  rw [PartRun.run, h]

theorem run_of_moved (h : r.step l = (l', r', .moved)) : r.run l = r'.run l' := by
  rw [PartRun.run, h]

theorem run_of_idle {due : Nat} (h : r.step l = (l', r', .idle due)) :
    r.run l = (r'.await l' due).2.run (r'.await l' due).1 := by
  rw [PartRun.run, h]

theorem statuses_await {σ : Type} (r : PartRun) (l : Link σ) (due : Nat) :
    (r.await l due).2.statuses = r.statuses := by
  unfold PartRun.await
  split
  · split <;> rfl
  · rfl

theorem Tracks.orderly (h : Tracks policy upload parts origin none l r)
    (hdistinct : (parts.map (·.number)).Nodup) :
    Orderly (r.history l) r.statuses (r.run l).2.1.statuses := by
  fun_induction PartRun.history r l with
  | case1 r l l' r' outcome hstep =>
    have hmoments := h.orderly_step
    rw [hstep] at hmoments
    rw [run_of_ended hstep]
    exact hmoments
  | case2 r l l' r' hstep ih =>
    have hmoments := h.orderly_step
    have hnext := h.step hdistinct
    rw [hstep] at hmoments hnext
    rw [run_of_moved hstep]
    exact hmoments.append (ih hnext)
  | case3 r l l' r' due hstep ih =>
    have hmoments := h.orderly_step
    have hnext := h.step hdistinct
    rw [hstep] at hmoments hnext
    obtain ⟨htracks, hready, hdue⟩ := hnext
    have hrest := ih (htracks.await hready hdue)
    rw [statuses_await] at hrest
    rw [run_of_idle hstep]
    exact hmoments.append hrest

/-! ## The end of a run by a failure -/

/-- The run ends within the turn of its failed part: since that turn began, no request was started but for
this part. -/
def StopsAt {σ : Type} (history : List (Moment σ)) (l : Link σ) (statuses : List PartStatus) : Prop :=
  ∃ earlier m part, history = earlier ++ [m] ∧ m.turn = some part ∧
    statuses[part.slot]? = some .failed ∧
    ∀ c ∈ l.calls.drop m.link.calls.length, c.request.lane = .part part.number

/-- A turn that ends the run marks its part as failed. -/
theorem turn_ended {part : ReadyPart} {rest : List ReadyPart} {outcome : Outcome}
    (h : (r.turn l part rest).2.2 = .ended outcome) :
    (r.turn l part rest).2.1.statuses = r.statuses.set part.slot .failed := by
  simp only [turn, mark] at h ⊢
  split at h
  · cases h
  · cases h
  · exact List.set_set ..

theorem turn_link (r : PartRun) (l : Link σ) (part : ReadyPart) (rest : List ReadyPart) :
    (r.turn l part rest).1 = (part.look r.policy r.upload l).1 := by
  simp only [turn]
  split <;> next heq => exact (congrArg Prod.fst heq).symm

theorem Tracks.step_stopsAt (h : Tracks policy upload parts origin none l r) {e : PartRunError}
    (hstep : r.step l = (l', r', .ended (.error e))) (he : e ≠ .cancelled) :
    StopsAt (r.moments l) l' r'.statuses := by
  obtain ⟨-, hstep'⟩ | ⟨hcancel, ⟨part, rest, hready, hstep'⟩ |
    ⟨-, ⟨-, hstep'⟩ | ⟨due, -, hstep'⟩⟩⟩ := r.step_cases l
  · rw [hstep] at hstep'
    cases hstep'
    exact absurd rfl he
  · rw [hstep] at hstep'
    have hmem : part ∈ r.fill.held := by simp [held, hready]
    have hlt := (List.getElem?_eq_some_iff.1 (h.fill.status part hmem)).1
    have hfailed := turn_ended (congrArg (·.2.2) hstep').symm
    have hlink := r.fill.turn_link l part rest
    rw [← hstep'] at hfailed hlink
    obtain rfl := h.samePolicy
    obtain rfl := h.sameUpload
    obtain ⟨⟨⟨q, hlane, hmakes⟩, -⟩, -⟩ := ReadyPart.look_spec h.fill.base_le (h.fill.stands part hmem)
      (h.fill.due part (by simp [hready]))
    refine ⟨[⟨l, r, none⟩], ⟨l, r.fill.begun part rest, some part⟩, part,
      moments_of_turn hcancel hready, rfl, ?_, ?_⟩
    · show r'.statuses[part.slot]? = _
      rw [show r'.statuses = _ from hfailed]
      exact List.getElem?_set_self hlt
    · intro c hc
      rw [show l' = _ from hlink] at hc
      rw [hmakes.request_of_new hc, hlane]
  · rw [hstep] at hstep'
    cases hstep'
  · rw [hstep] at hstep'
    cases hstep'

theorem Tracks.stopsAt (h : Tracks policy upload parts origin none l r)
    (hdistinct : (parts.map (·.number)).Nodup) {e : PartRunError}
    (hend : (r.run l).2.2 = .error e) (he : e ≠ .cancelled) :
    StopsAt (r.history l) (r.run l).1 (r.run l).2.1.statuses := by
  have hprefix : ∀ {a b : List (Moment σ)} {l' : Link σ} {statuses : List PartStatus},
      StopsAt b l' statuses → StopsAt (a ++ b) l' statuses := by
    rintro a b l' statuses ⟨earlier, m, part, rfl, hstops⟩
    exact ⟨a ++ earlier, m, part, (List.append_assoc ..).symm, hstops⟩
  fun_induction PartRun.history r l with
  | case1 r l l' r' outcome hstep =>
    rw [run_of_ended hstep] at hend ⊢
    cases hend
    exact h.step_stopsAt hstep he
  | case2 r l l' r' hstep ih =>
    have hnext := h.step hdistinct
    rw [hstep] at hnext
    rw [run_of_moved hstep] at hend ⊢
    exact hprefix (ih hnext hend)
  | case3 r l l' r' due hstep ih =>
    have hnext := h.step hdistinct
    rw [hstep] at hnext
    obtain ⟨htracks, hready, hdue⟩ := hnext
    rw [run_of_idle hstep] at hend ⊢
    exact hprefix (ih (htracks.await hready hdue) hend)

end PartRun

/-- The ledger of a run that `e` has ended, and its log, tell the same. -/
structure Truthful (policy : PartPolicy) (parts : List PartRequest) (log : List Call)
    (statuses : List PartStatus) (e : PartRunError) : Prop where
  /-- One part has failed, and `e` tells how: what its last attempt came to, or that it could not be read
  and was not attempted. -/
  failed : ∃ (i : Nat) (p : PartRequest), parts[i]? = some p ∧ statuses[i]? = some .failed ∧
    (∀ j : Nat, statuses[j]? = some .failed → j = i) ∧ p.Fails policy (attempts log p.number) e
  done : ∀ (i : Nat) p, parts[i]? = some p → statuses[i]? = some .done →
    ∃ tag, DeliveredBy policy.timeout tag (attempts log p.number)
  pending : ∀ (i : Nat) p, parts[i]? = some p → statuses[i]? = some .pending →
    attempts log p.number = []
  inFlight : ∀ (i : Nat) p, parts[i]? = some p → statuses[i]? = some .inFlight →
    ∀ a ∈ attempts log p.number, ¬a.Succeeds

/-- No attempt at a part under way has succeeded. -/
theorem ActivePart.Underway.not_succeeds {σ : Type} {policy : PartPolicy} {upload : String} {base : Nat}
    {l : Link σ} {part : ActivePart} (h : part.Underway policy upload base l) {a : Attempt}
    (ha : a ∈ attempts (l.since base) part.number) : ¬a.Succeeds := by
  unfold Underway at h
  split at h
  · exact h.not_succeeds ha
  · obtain ⟨-, -, failed, hattempts, htried⟩ := h
    rw [hattempts] at ha
    rcases List.mem_append.1 ha with ha | ha
    · exact htried.not_succeeds ha
    · rw [List.mem_singleton.1 ha]
      exact Attempt.not_succeeds (e := .timeout) rfl

theorem PartRun.Tracks.truthful {σ : Type} {policy : PartPolicy} {upload : String}
    {parts : List PartRequest} {origin l : Link σ} {r : PartRun} {e : PartRunError}
    (h : PartRun.Tracks policy upload parts origin (some e) l r) :
    Truthful policy parts (l.since origin.calls.length) r.statuses e := by
  -- A part that is neither done nor failed is still held, and stands as its place says.
  have hheld : ∀ (i : Nat) p status, parts[i]? = some p → r.statuses[i]? = some status →
      status ≠ .done → status ≠ .failed → ∃ x : ReadyPart, x.part = p ∧ x.status = status ∧
        x.Stands policy upload origin.calls.length l := by
    intro i p status hp hstatus hdone hfailed
    rcases h.ended i p hp with hin | ⟨hstatus', -⟩ | ⟨hstatus', -⟩
    · obtain ⟨x, hx, rfl⟩ := List.mem_map.1 hin
      refine ⟨x, ?_, ?_, h.stands x hx⟩
      · exact Option.some.inj ((h.part x hx).symm.trans hp)
      · exact Option.some.inj ((h.status x hx).symm.trans hstatus)
    · exact absurd (Option.some.inj (hstatus.symm.trans hstatus')) hdone
    · exact absurd (Option.some.inj (hstatus.symm.trans hstatus')) hfailed
  refine ⟨h.failed_part, ?_, ?_, ?_⟩
  · intro i p hp hstatus
    rcases h.ended i p hp with hin | ⟨-, receipt, hreceipt, hnumber⟩ | ⟨hstatus', -⟩
    · obtain ⟨x, hx, rfl⟩ := List.mem_map.1 hin
      have hsame := (h.status x hx).symm.trans hstatus
      cases x <;> cases hsame
    · rw [← hnumber]
      exact ⟨receipt.tag, (h.vouched receipt hreceipt).2.delivered⟩
    · cases hstatus.symm.trans hstatus'
  · intro i p hp hstatus
    obtain ⟨x, rfl, hsame, hstands⟩ := hheld i p _ hp hstatus (by decide) (by decide)
    cases x with
    | fresh slot part => exact hstands
    | woken part => cases hsame
  · intro i p hp hstatus a ha
    obtain ⟨x, rfl, hsame, hstands⟩ := hheld i p _ hp hstatus (by decide) (by decide)
    cases x with
    | fresh slot part => cases hsame
    | woken part => exact hstands.not_succeeds ha

/-- **The first failure of a part ends a run, and its ledger is true.** In every run the parts go through
their places in order and are started once. If a part ends it, no request is started after that failure,
and the ledger tells for each part what the log tells. -/
theorem part_run_fails_fast {σ : Type} [Endpoint σ] (policy : PartPolicy) (upload : String)
    (cancel : Option Signal) (parts : List PartRequest) (hdistinct : (parts.map (·.number)).Nodup)
    (l : Link σ) :
    let r := PartRun.start policy upload cancel parts
    PartRun.Orderly (r.history l) (parts.map fun _ => .pending) (r.run l).2.1.statuses ∧
      ∀ e, (r.run l).2.2 = .error e → e ≠ .cancelled →
        PartRun.StopsAt (r.history l) (r.run l).1 (r.run l).2.1.statuses ∧
        ∃ log, (r.run l).1.calls = l.calls ++ log ∧
          Truthful policy parts log (r.run l).2.1.statuses e := by
  intro r
  have hstart := PartRun.Tracks.start policy upload cancel parts l
  refine ⟨hstart.orderly hdistinct, ?_⟩
  intro e hend he
  have htracks := hstart.run hdistinct
  rw [hend] at htracks
  have htracks := htracks.tracks_error he
  exact ⟨hstart.stopsAt hdistinct hend he, _, htracks.calls_eq, htracks.truthful⟩

/-- Of three parts two are sent at once. While the first takes its time, the second is refused; so the
third is never sent. -/
theorem refused_part_ends_run :
    let policy : PartPolicy :=
      { concurrency := 2, retry := { limit := 3, pause := 10, longestPause := 100 }, timeout := 50 }
    let refusing : Conditions := { reaction := fun lane _ =>
      match lane with
      | .part 2 => { delay := 5, failure := some (.http 403 "denied") }
      | _ => { delay := 20 } }
    let link : Link DryRun := { endpoint := {}, conditions := refusing }
    let parts : List PartRequest := [⟨1, .ok (.bytes [1])⟩, ⟨2, .ok (.bytes [2])⟩, ⟨3, .ok (.bytes [3])⟩]
    let r := PartRun.start policy "u" none parts
    (parts.map (·.number)).Nodup ∧ (r.run link).2.2 = .error (.partFailed 2 (.http 403 "denied")) ∧
      (r.run link).2.1.statuses = [.inFlight, .failed, .pending] ∧
      PartRun.Orderly (r.history link) [.pending, .pending, .pending] (r.run link).2.1.statuses ∧
      PartRun.StopsAt (r.history link) (r.run link).1 (r.run link).2.1.statuses ∧
      ∃ log, (r.run link).1.calls = link.calls ++ log ∧
        Truthful policy parts log (r.run link).2.1.statuses (.partFailed 2 (.http 403 "denied")) := by
  intro policy refusing link parts r
  have hdistinct : (parts.map (·.number)).Nodup := by decide
  have hend : (r.run link).2.2 = .error (.partFailed 2 (.http 403 "denied")) := by
    unfold r link refusing policy parts
    cbv
  have hstatuses : (r.run link).2.1.statuses = [.inFlight, .failed, .pending] := by
    unfold r link refusing policy parts
    cbv
  obtain ⟨horderly, hfails⟩ := part_run_fails_fast policy "u" none parts hdistinct link
  exact ⟨hdistinct, hend, hstatuses, horderly, hfails _ hend (by decide)⟩

end ObjectFlush
