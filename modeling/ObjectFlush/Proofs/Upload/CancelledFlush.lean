import ObjectFlush.Proofs.Upload.Cancellation
import ObjectFlush.Proofs.Upload.HealthyFlush

/-!
A flush that is cancelled before it begins. Where it sends parts it is cancelled: an upload that it has started it
aborts. Where the file goes whole, nobody asks for the signal, and the file is written: `cancelled_flush`.
-/

namespace ObjectFlush

/-- The request has the store write an object. -/
def Request.Stores : Request → Prop
  | .put .. => True
  | .complete .. => True
  | _ => False

namespace Link

variable {σ : Type} {s : Signal} {l : Link σ}

theorem isRaised_passTo (h : l.isRaised s = true) (time : Nat) : (l.passTo time).isRaised s = true := by
  unfold passTo
  split
  · exact isRaised_iff.2 (List.mem_append_right _ (isRaised_iff.1 h))
  · exact h

/-- A signal that was raised stays raised. -/
theorem isRaised_ask [Endpoint σ] (h : l.isRaised s = true) (r : Request) : (l.ask r).1.isRaised s = true :=
  isRaised_passTo (l := (l.start r).1) h _

end Link

/-- All that a transaction does whose signal was raised before: it is started, and aborted if that succeeds. -/
theorem Session.execute_of_raised {σ : Type} [Endpoint σ] (s : Session) (hidle : s.stage = .idle) {signal : Signal}
    (hcancel : s.cancel = some signal) (jobs : List BoundPart) {l : Link σ} (hraised : l.isRaised signal = true)
    {name : String} (hopened : (l.ask (.initiate s.key)).2 = .ok name) :
    ((s.execute jobs).run l).2.2 = .error (.upload .cancelled) ∧
      ∃ opening closing answer, ((s.execute jobs).run l).1.calls = l.calls ++ [opening, closing] ∧
        opening.Answered (.initiate s.key) (.ok name) ∧ closing.Answered (.abort name) answer := by
  obtain ⟨opening, hopening, hcalls⟩ := l.calls_ask (.initiate s.key)
  obtain ⟨rest, hrest, hconcludes⟩ := s.execute_rest hidle jobs l hopened
  rw [hcancel, PartRun.run_of_raised rfl (Link.isRaised_ask hraised _)] at hrest hconcludes
  generalize (s.execute jobs).run l = out at hrest hconcludes ⊢
  obtain ⟨l', out⟩ := out
  cases hconcludes with
  | unsent hclosing =>
    refine ⟨rfl, opening, _, _, ?_, hopened ▸ hopening, hclosing⟩
    rw [show l'.calls = _ from hrest, hcalls, List.append_assoc]
    rfl

namespace Flusher

variable (f : Flusher)

/-- The file goes in one piece, if it can be sent at all: it is small, or would have too many parts. -/
def GoesWhole (order : FlushOrder) : Prop :=
  order.size < f.settings.multipartThreshold ∨ ∃ e, f.planned order.size order.dirty order.stored = .error e

/-- How to send the parts is of no concern to what goes whole. -/
theorem choose_of_whole {α : Type} {size : Nat} {planned : Except PlanError (List Portion)}
    (h : size < f.settings.multipartThreshold ∨ ∃ e, planned = .error e) (whole : Dialogue (Except FlushError α))
    (inParts inParts' : List Portion → Dialogue (Except FlushError α)) :
    f.choose size planned whole inParts = f.choose size planned whole inParts' := by
  unfold choose
  rcases h with hsmall | ⟨e, rfl⟩
  · rw [if_pos hsmall, if_pos hsmall]
  · rfl

theorem flush_of_goesWhole {order : FlushOrder} (h : f.GoesWhole order) (cancel : Option Signal) :
    f.flush order = f.flush { order with cancel } := by
  rw [f.flush_eq, f.flush_eq]
  exact f.choose_of_whole h _ _ _

variable {σ : Type} [Endpoint σ] (l : Link σ)

/-- A file that is sent with a single request is stored by it, if the request may carry it and it can be read. -/
theorem stores_sendFile_iff (key : ObjectKey) (source : LocalFile) (size : Nat) :
    (∃ c ∈ (f.sendFile key source size).sent l, c.request.Stores) ↔
      size ≤ f.settings.maxSinglePut ∧ ∃ data, source.read 0 size = .ok data := by
  unfold sendFile
  split
  · next hlimit =>
    refine iff_of_false (fun ⟨c, hc, _⟩ => ?_) fun h => absurd h.1 (Nat.not_le.2 hlimit)
    rw [Dialogue.sent_pure] at hc
    cases hc
  · next hfits =>
    split
    · next data hread =>
      obtain ⟨hsent, hputs⟩ := f.sent_send l key data
      obtain ⟨c, hc⟩ := List.exists_mem_of_ne_nil _ hsent
      refine iff_of_true ⟨c, hc, ?_⟩ ⟨Nat.le_of_not_lt hfits, data, hread⟩
      rw [hputs c hc]
      trivial
    · next e hread =>
      refine iff_of_false (fun ⟨c, hc, _⟩ => ?_) fun ⟨_, data, hdata⟩ => by cases hread.symm.trans hdata
      rw [Dialogue.sent_pure] at hc
      cases hc

end Flusher

/-- What a flush in parts comes to that was cancelled before, by the answer to its start: it is refused that, or the
upload is aborted without a part being sent. -/
inductive CancelledInParts (key : ObjectKey) :
    Except RequestError (Request.initiate key).Answer → List Call → Except FlushError ObjectSummary → Prop
  | refused {e opening} (opened : opening.Answered (.initiate key) (.error e)) :
    CancelledInParts key (.error e) [opening] (.error (.session (.initFailed e)))
  | aborted {name opening closing answer} (opened : opening.Answered (.initiate key) (.ok name))
    (closed : closing.Answered (.abort name) answer) :
    CancelledInParts key (.ok name) [opening, closing] (.error (.session (.upload .cancelled)))

theorem CancelledInParts.not_stores {key : ObjectKey} {opened : Except RequestError String} {sent : List Call}
    {out : Except FlushError ObjectSummary} (h : CancelledInParts key opened sent out) :
    ¬∃ c ∈ sent, c.request.Stores := by
  rintro ⟨c, hc, hstores⟩
  cases h with
  | refused hopened =>
    obtain rfl := List.mem_singleton.1 hc
    rw [hopened.request_eq] at hstores
    exact hstores
  | aborted hopened hclosed =>
    rcases List.mem_cons.1 hc with rfl | hc
    · rw [hopened.request_eq] at hstores
      exact hstores
    · obtain rfl := List.mem_singleton.1 hc
      rw [hclosed.request_eq] at hstores
      exact hstores

theorem Flusher.cancelled_sendParts {σ : Type} [Endpoint σ] (f : Flusher) {s : Signal} {l : Link σ}
    (hraised : l.isRaised s = true) (key : ObjectKey) (parts : List Portion) (source : FreshContent) :
    CancelledInParts key (l.ask (.initiate key)).2 ((f.sendParts key parts source (some s)).sent l)
      ((f.sendParts key parts source (some s)).run l).2 := by
  let jobs := bindPortions parts source key
  have hrun := f.run_sendParts l key parts source (some s)
  cases hanswer : (l.ask (.initiate key)).2 with
  | error e =>
    obtain ⟨opening, hopening, hcalls⟩ := l.calls_ask (.initiate key)
    rw [(f.session key (some s)).execute_unopened rfl jobs l hanswer] at hrun
    rw [Dialogue.sent_eq (d := f.sendParts key parts source (some s)) (by rw [hrun]; exact hcalls), hrun]
    exact .refused (hanswer ▸ hopening)
  | ok name =>
    obtain ⟨hresult, opening, closing, answer, hcalls, hopening, hclosing⟩ :=
      (f.session key (some s)).execute_of_raised rfl rfl jobs hraised hanswer
    rw [Dialogue.sent_eq (d := f.sendParts key parts source (some s)) (by rw [hrun]; exact hcalls), hrun, hresult]
    exact .aborted hopening hclosing

/-- **A flush that was cancelled before it began.** If the file goes whole, it is the flush that nobody cancels, and
this is the only way in which the store is told to write an object: just if a single request may carry the file,
and the file can be read. If the flush sends parts, its upload is started and at once aborted, and the result is
that it was cancelled, unless the start is refused. -/
theorem cancelled_flush {σ : Type} [Endpoint σ] (f : Flusher) (order : FlushOrder) {s : Signal}
    (hcancel : order.cancel = some s) (l : Link σ) (hraised : l.isRaised s = true) :
    (f.GoesWhole order → f.flush order = f.flush { order with cancel := none }) ∧
    ((∃ c ∈ (f.flush order).sent l, c.request.Stores) ↔
      f.GoesWhole order ∧ order.size ≤ f.settings.maxSinglePut ∧
        ∃ data, order.source.read 0 order.size = .ok data) ∧
    (¬f.GoesWhole order → CancelledInParts order.key (l.ask (.initiate order.key)).2 ((f.flush order).sent l)
      ((f.flush order).run l).2) := by
  refine ⟨fun hwhole => f.flush_of_goesWhole hwhole none, ?_⟩
  have hstores := f.stores_sendFile_iff l order.key order.source order.size
  rw [f.flush_eq]
  rcases f.choose_cases order.size (f.planned order.size order.dirty order.stored)
    (f.sendFile order.key order.source order.size)
    (f.sendParts order.key · (.file order.source) order.cancel) with
    ⟨hsmall, hway⟩ | ⟨hlarge, ⟨parts, hplan, hway⟩ | ⟨e, hplan, ⟨hfits, hway⟩ | ⟨hlimit, hway⟩⟩⟩
  · have hwhole : f.GoesWhole order := .inl hsmall
    rw [hway, hstores]
    exact ⟨(and_iff_right hwhole).symm, fun hnot => absurd hwhole hnot⟩
  · have hparts : ¬f.GoesWhole order := by
      rintro (hsmall | ⟨e, he⟩)
      · exact Nat.not_lt.2 hlarge hsmall
      · cases hplan.symm.trans he
    have hcancelled := f.cancelled_sendParts hraised order.key parts (.file order.source)
    rw [hway, hcancel]
    exact ⟨iff_of_false hcancelled.not_stores fun h => hparts h.1, fun _ => hcancelled⟩
  · have hwhole : f.GoesWhole order := .inr ⟨e, hplan⟩
    rw [hway, hstores]
    exact ⟨(and_iff_right hwhole).symm, fun hnot => absurd hwhole hnot⟩
  · have hwhole : f.GoesWhole order := .inr ⟨e, hplan⟩
    rw [hway, Dialogue.sent_pure]
    refine ⟨iff_of_false ?_ fun h => absurd h.2.1 (Nat.not_le.2 hlimit), fun hnot => absurd hwhole hnot⟩
    rintro ⟨c, hc, -⟩
    cases hc

/-- A file of six bytes above the threshold: its upload is started and aborted. -/
theorem cancelled_upload_aborted :
    let f : Flusher := ⟨{ minPartSize := 3, maxPartSize := 4, multipartThreshold := 5 }, rfl⟩
    let l : Link DryRun := { endpoint := {}, raised := [0] }
    let order : FlushOrder :=
      { key := ⟨"k", by decide⟩, source := .memory [0, 1, 2, 3, 4, 5], size := 6, dirty := [⟨0, 6, 0⟩],
        stored := false, cancel := some 0 }
    order.cancel = some 0 ∧ l.isRaised 0 = true ∧ ¬f.GoesWhole order ∧
      CancelledInParts order.key (.ok "upload-0") ((f.flush order).sent l) ((f.flush order).run l).2 := by
  intro f l order
  have hparts : ¬f.GoesWhole order := by
    have hplan : f.planned order.size order.dirty order.stored =
        .ok [⟨1, 0, 4, .upload⟩, ⟨2, 4, 2, .upload⟩] := by
      unfold order f
      cbv
    rintro (hsmall | ⟨e, he⟩)
    · exact absurd hsmall (by decide)
    · cases hplan.symm.trans he
  have hname : (l.ask (.initiate order.key)).2 = .ok "upload-0" := by
    unfold l order
    cbv
  refine ⟨rfl, rfl, hparts, ?_⟩
  have hcancelled := (cancelled_flush f order rfl l rfl).2.2 hparts
  rwa [hname] at hcancelled

/-- A file of six bytes below the threshold: it is stored, although its flush was cancelled before. -/
theorem small_flush_not_cancelled :
    let f : Flusher := ⟨{ multipartThreshold := 20 }, rfl⟩
    let key : ObjectKey := ⟨"k", by decide⟩
    let l : Link LocalEndpoint := { endpoint := ⟨{}, 0, {}, 0⟩, raised := [0] }
    let order : FlushOrder :=
      { key, source := .memory [0, 1, 2, 3, 4, 5], size := 6, dirty := [⟨0, 6, 0⟩],
        stored := false, cancel := some 0 }
    let out := (f.flush order).run l
    order.cancel = some 0 ∧ l.isRaised 0 = true ∧ l.endpoint.bucket.objects.get? key = none ∧
      (∃ written, out.2 = .ok written) ∧
        (∃ c ∈ (f.flush order).sent l, c.request = .put key [0, 1, 2, 3, 4, 5]) ∧
      (out.1.endpoint.bucket.objects.get? key).map (·.data) = some [0, 1, 2, 3, 4, 5] := by
  intro f key l order out
  have hhealthy : l.conditions.Healthy f.settings.partTimeout :=
    ⟨fun _ _ => ⟨rfl, rfl⟩, fun _ _ => Nat.zero_le _⟩
  have hway : f.flush order = f.send key [0, 1, 2, 3, 4, 5] := rfl
  have hrun := f.run_send_local hhealthy key [0, 1, 2, 3, 4, 5]
  obtain ⟨hsent, hputs⟩ := f.sent_send l key [0, 1, 2, 3, 4, 5]
  obtain ⟨c, hc⟩ := List.exists_mem_of_ne_nil _ hsent
  refine ⟨rfl, rfl, rfl, ?_, ?_, ?_⟩
  · unfold out
    rw [hway, hrun]
    exact ⟨_, rfl⟩
  · rw [hway]
    exact ⟨c, hc, hputs c hc⟩
  · unfold out
    rw [hway, hrun]
    rfl

end ObjectFlush
