import ObjectFlush.Proofs.Upload.Route

/-!
Uploads without parts. An upload is begun for a plan, and a plan is empty just if there is nothing to write
(`plan_eq_nil_iff`). A write of nothing goes whole, unless the threshold is zero: then an upload is begun for which
there is no part to send, and a local store does not complete it. `empty_upload` says so for every write.
-/

namespace ObjectFlush

/-- An upload is begun only for a plan with parts, and completed only with receipts. -/
structure UploadsParts (planned : Except PlanError (List Portion)) (log : List Call) : Prop where
  begun : ∀ c ∈ log, ∀ key, c.request = .initiate key → ∃ first rest, planned = .ok (first :: rest)
  completed : ∀ c ∈ log, ∀ name receipts, c.request = .complete name receipts → receipts ≠ []

theorem uploadsParts_of_puts {planned : Except PlanError (List Portion)} {log : List Call}
    (h : ∀ c ∈ log, ∃ key data, c.request = .put key data) : UploadsParts planned log := by
  refine ⟨fun c hc key hrequest => ?_, fun c hc name receipts hrequest => ?_⟩ <;>
  · obtain ⟨_, _, hput⟩ := h c hc
    cases hput.symm.trans hrequest

/-- An empty file is planned with no part, and no other file is. -/
theorem plan_eq_nil_iff {fileSize : Nat} {ranges : List DirtyRange} {b : PartBounds} {parts : List Portion}
    (h : plan fileSize ranges b = .ok parts) : parts = [] ↔ fileSize = 0 := by
  have hwell := (cut_of_plan h).wellPlanned (numbers_of_plan h)
  refine ⟨?_, hwell.none⟩
  rintro rfl
  exact hwell.tiles.symm

/-- Nothing needs no parts. -/
theorem plan_empty {b : PartBounds} (hvalid : b.validate = .ok ()) (ranges : List DirtyRange) :
    plan 0 ranges b = .ok [] := by
  refine plan_eq_ok_iff.2 ⟨hvalid, Nat.zero_le _, ?_⟩
  simp [runs, pieces, number]

namespace Flusher

variable {σ : Type} [Endpoint σ] (f : Flusher) (l : Link σ)

theorem uploadsParts_sendParts_iff {parts : List Portion} {planned : Except PlanError (List Portion)}
    (hplanned : planned = .ok parts) (key : ObjectKey) (source : FreshContent) (cancel : Option Signal) :
    UploadsParts planned ((f.sendParts key parts source cancel).sent l) ↔ parts ≠ [] := by
  obtain ⟨opening, rest, hsent, hopening, hrest⟩ := f.sent_sendParts l key parts source cancel
  rw [hsent]
  constructor
  · rintro h rfl
    obtain ⟨first, others, hparts⟩ := h.begun opening List.mem_cons_self key hopening
    cases hplanned.symm.trans hparts
  · intro hparts
    obtain ⟨first, others, rfl⟩ := List.exists_cons_of_ne_nil hparts
    refine ⟨fun _ _ _ _ => ⟨first, others, hplanned⟩, List.forall_mem_cons.2 ⟨?_, fun c hc => ?_⟩⟩
    · intro name receipts hrequest
      cases hopening.symm.trans hrequest
    · rintro name receipts hrequest rfl
      cases (hrest c hc).2 name [] hrequest

/-- Whichever way a write is chosen, it uploads parts unless there are none and none is small enough to be put. -/
theorem uploadsParts_choose_iff (size : Nat) (dirty : List DirtyRange) (stored : Bool) (key : ObjectKey)
    (source : FreshContent) (cancel : Option Signal) (whole : Dialogue (Except FlushError ObjectSummary))
    (hwhole : ∀ c ∈ whole.sent l, ∃ key data, c.request = .put key data) :
    UploadsParts (f.planned size dirty stored)
        ((f.choose size (f.planned size dirty stored) whole (f.sendParts key · source cancel)).sent l) ↔
      ¬(size = 0 ∧ f.settings.multipartThreshold = 0) := by
  rcases f.choose_cases size (f.planned size dirty stored) whole (f.sendParts key · source cancel) with
    ⟨hsmall, h⟩ | ⟨hlarge, ⟨parts, hplan, h⟩ | ⟨e, hplan, hrest⟩⟩
  · rw [h]
    exact iff_of_true (uploadsParts_of_puts hwhole) (by omega)
  · rw [h, f.uploadsParts_sendParts_iff l hplan, Ne, plan_eq_nil_iff hplan]
    omega
  · -- Only a file with bytes can need too many parts.
    have hsize : size ≠ 0 := by
      rintro rfl
      cases hplan.symm.trans (plan_empty (f.valid_partBounds _) dirty)
    refine iff_of_true ?_ (fun h => hsize h.1)
    rcases hrest with ⟨-, h⟩ | ⟨-, h⟩
    · rw [h]
      exact uploadsParts_of_puts hwhole
    · rw [h, Dialogue.sent_pure]
      exact uploadsParts_of_puts (List.forall_mem_nil _)

end Flusher

/-! ## Over a local store -/

/-- A local store completes no upload from no receipts. -/
theorem LocalEndpoint.serve_complete_nil (e : LocalEndpoint) (name : String) :
    ∃ failure, (Endpoint.serve e (.complete name [])).2 = .error failure := by
  have hrefused : ∃ failure, e.bucket.finishUpload name [] e.minPartSize e.options = .error failure := by
    unfold Bucket.finishUpload
    cases e.bucket.upload name with
    | error failure => exact ⟨failure, rfl⟩
    | ok u => exact ⟨.invalidPart 0 "no parts listed", rfl⟩
  obtain ⟨failure, hfailure⟩ := hrefused
  refine ⟨failure.toRequestError, ?_⟩
  show (e.answer (e.bucket.finishUpload name [] e.minPartSize e.options)).2 = _
  rw [hfailure]
  rfl

namespace Session

open Dialogue

theorem triple_complete_nil {s : Session} (hnone : s.receipts = []) :
    Triple (fun _ : LocalEndpoint => True) s.complete fun out _ => ∃ e, out.2 = .error e := by
  unfold complete
  split
  · next e _ => exact triple_pure fun _ _ => ⟨e, rfl⟩
  · next s' name henter =>
    have hreceipts : s'.receipts = [] := by
      rcases s.enter_cases .completing with ⟨-, hrefused⟩ | ⟨-, _, -, hentered⟩
      · cases henter.symm.trans hrefused
      · cases henter.symm.trans hentered
        exact hnone
    have hask : Triple (fun _ : LocalEndpoint => True) (request (.complete name s'.receipts))
        fun answer _ => ∃ e, answer = .error e := by
      apply triple_request
      intro e _ e' answer hends
      rw [hreceipts] at hends
      obtain ⟨failure, hfailure⟩ := e.serve_complete_nil name
      rcases hends.untagged fun _ _ => rfl with ⟨-, lost⟩ | ⟨-, rfl⟩
      · exact lost
      · exact ⟨failure, hfailure⟩
    refine (triple_persist s'.policy.retry hask fun _ _ _ => trivial).bind ?_
    intro answer
    cases answer with
    | ok written => exact triple_pure fun _ h => by obtain ⟨_, h⟩ := h; cases h
    | error e => exact triple_pure fun _ _ => ⟨_, rfl⟩

/-- A transaction without parts does not succeed. -/
theorem triple_execute_nil (s : Session) :
    Triple (fun _ : LocalEndpoint => True) (s.execute []) fun out _ => ∃ e, out.2 = .error e := by
  have hany : ∀ {α : Type} (d : Dialogue α), Triple (fun _ : LocalEndpoint => True) d fun _ _ => True :=
    fun _ _ _ => trivial
  refine (hany s.start).bind ?_
  rintro ⟨s₁, e | name⟩
  · exact triple_pure fun _ _ => ⟨e, rfl⟩
  · have hsend : Triple (fun _ : LocalEndpoint => True) (s₁.sendParts []) fun out _ =>
        (out.2 = .ok () → out.1.receipts = []) ∧ True := by
      intro l _
      refine ⟨?_, trivial⟩
      rcases s₁.sendParts_cases [] l with ⟨-, hsent⟩ |
        ⟨-, upload, -, ⟨e, -, hsent⟩ | ⟨receipts, hrun, hsent⟩⟩
      · rw [hsent]
        exact fun h => by cases h
      · rw [hsent]
        exact fun h => by cases h
      · rw [hsent]
        exact fun _ => List.map_eq_nil_iff.1 (PartRun.complete_of_run hrun).numbers.eq_nil
    refine hsend.bind ?_
    rintro ⟨s₂, e | ⟨⟩⟩
    · exact .of_fact fun _ => (hany s₂.abort).bind fun _ => triple_pure fun _ _ => ⟨e, rfl⟩
    · refine .of_fact fun hnone => (triple_complete_nil (hnone rfl)).bind ?_
      rintro ⟨s₃, e | written⟩
      · exact (hany s₃.abort).consequence (fun _ _ => trivial) (fun _ _ h => h) |>.bind fun _ =>
          triple_pure fun _ _ => ⟨e, rfl⟩
      · exact triple_pure fun _ h => by obtain ⟨_, h⟩ := h; cases h

end Session

/-! ## Empty objects -/

namespace Flusher

variable (f : Flusher) (l : Link LocalEndpoint)

theorem sendFile_empty (key : ObjectKey) (source : LocalFile) : f.sendFile key source 0 = f.send key [] := by
  have hread : source.read 0 0 = .ok [] := by
    cases source with
    | disk content => rfl
    | directory size => rfl
    | memory bytes => simp [LocalFile.read, Bytes.slice?]
  rw [sendFile, if_neg (Nat.not_lt_zero _), hread]

theorem run_sendParts_nil (key : ObjectKey) (source : FreshContent) (cancel : Option Signal) :
    ∃ e, ((f.sendParts key [] source cancel).run l).2 = .error e := by
  obtain ⟨e, hfailed⟩ := (f.session key cancel).triple_execute_nil l trivial
  rw [run_sendParts]
  exact ⟨.session e, congrArg (Except.mapError FlushError.session) hfailed⟩

/-- Nothing is written over a local store unless a threshold sends it whole. -/
theorem run_choose_empty {timeout : Nat} (hhealthy : l.conditions.Healthy timeout) (key : ObjectKey)
    (dirty : List DirtyRange) (stored : Bool) (source : FreshContent) (cancel : Option Signal) :
    (∃ written, ((f.choose 0 (f.planned 0 dirty stored) (f.send key []) (f.sendParts key · source cancel)).run l).2 =
        .ok written) ↔ 0 < f.settings.multipartThreshold := by
  rcases f.choose_cases 0 (f.planned 0 dirty stored) (f.send key []) (f.sendParts key · source cancel) with
    ⟨hsmall, h⟩ | ⟨hlarge, ⟨parts, hplan, h⟩ | ⟨e, hplan, -⟩⟩
  · rw [h, f.run_send_local hhealthy]
    exact iff_of_true ⟨_, rfl⟩ hsmall
  · cases (plan_empty (f.valid_partBounds _) dirty).symm.trans hplan
    obtain ⟨e, hfailed⟩ := f.run_sendParts_nil l key source cancel
    rw [h, hfailed]
    exact iff_of_false (fun ⟨_, h⟩ => by cases h) (by omega)
  · cases (plan_empty (f.valid_partBounds _) dirty).symm.trans hplan

end Flusher

/-- **When an upload has no part.** Over every link, a flush and the write of a buffer begin an upload only for a
plan with parts and complete it only with receipts, but for an empty object where the threshold is zero. An empty
object is therefore written to a local store, of which every call is answered, just if the threshold is not zero. -/
theorem empty_upload (f : Flusher) :
    (∀ {σ : Type} [Endpoint σ] (l : Link σ),
      (∀ order : FlushOrder,
        UploadsParts (f.planned order.size order.dirty order.stored) ((f.flush order).sent l) ↔
          ¬(order.size = 0 ∧ f.settings.multipartThreshold = 0)) ∧
      ∀ (key : ObjectKey) (data : Bytes),
        UploadsParts (f.planned data.length [] false) ((f.flushBuffer key data).sent l) ↔
          ¬(data.length = 0 ∧ f.settings.multipartThreshold = 0)) ∧
    ∀ l : Link LocalEndpoint, l.conditions.Healthy f.settings.partTimeout →
      (∀ order : FlushOrder, order.size = 0 →
        ((∃ written, ((f.flush order).run l).2 = .ok written) ↔ 0 < f.settings.multipartThreshold)) ∧
      ∀ key : ObjectKey,
        (∃ written, ((f.flushBuffer key []).run l).2 = .ok written) ↔ 0 < f.settings.multipartThreshold := by
  refine ⟨fun l => ⟨fun order => ?_, fun key data => ?_⟩, fun l hhealthy =>
    ⟨fun order hsize => ?_, fun key => ?_⟩⟩
  · rw [f.flush_eq]
    refine f.uploadsParts_choose_iff l _ _ _ _ _ _ _ fun c hc => ?_
    obtain ⟨-, data, -, hput⟩ := f.sent_sendFile l _ _ _ c hc
    exact ⟨_, data, hput⟩
  · rw [f.flushBuffer_eq]
    refine f.uploadsParts_choose_iff l _ _ _ _ _ _ _ fun c hc => ?_
    exact ⟨_, _, (f.sent_send l key data).2 c hc⟩
  · rw [f.flush_eq, hsize]
    rw [f.sendFile_empty]
    exact f.run_choose_empty l hhealthy _ _ _ _ _
  · rw [f.flushBuffer_eq]
    exact f.run_choose_empty l hhealthy _ _ _ _ _

/-- With the settings as they are given, an empty file is written. -/
theorem empty_file_written :
    let f : Flusher := ⟨{}, rfl⟩
    let l : Link LocalEndpoint := { endpoint := ⟨{}, 0, {}, 0⟩ }
    let order : FlushOrder :=
      { key := ⟨"k", by decide⟩, source := .memory [], size := 0, dirty := [], stored := false }
    l.conditions.Healthy f.settings.partTimeout ∧ order.size = 0 ∧
      ∃ written, ((f.flush order).run l).2 = .ok written := by
  intro f l order
  have hhealthy : l.conditions.Healthy f.settings.partTimeout :=
    ⟨fun _ _ => ⟨rfl, rfl⟩, fun _ _ => Nat.zero_le _⟩
  exact ⟨hhealthy, rfl, (((empty_upload f).2 l hhealthy).1 order rfl).2 (by decide)⟩

/-- With a threshold of zero an upload is begun for an empty file although no part is planned. The store refuses
to complete it, and the file is not written. -/
theorem empty_file_refused :
    let f : Flusher := ⟨{ multipartThreshold := 0 }, rfl⟩
    let l : Link LocalEndpoint := { endpoint := ⟨{}, 0, {}, 0⟩ }
    let order : FlushOrder :=
      { key := ⟨"k", by decide⟩, source := .memory [], size := 0, dirty := [], stored := false }
    ¬UploadsParts (f.planned order.size order.dirty order.stored) ((f.flush order).sent l) ∧
      ((f.flush order).run l).2 =
        .error (.session (.completeFailed (.invalidPart 0 "no parts listed"))) := by
  intro f l order
  have hsent : ((f.flush order).sent l).map (·.request) =
      [.initiate ⟨"k", by decide⟩, .complete "upload-0" [], .abort "upload-0"] := by
    unfold order l f
    cbv
  refine ⟨fun hlaw => ?_, ?_⟩
  · have hcomplete : Request.complete "upload-0" [] ∈ ((f.flush order).sent l).map (·.request) := by
      rw [hsent]
      exact List.mem_cons_of_mem _ List.mem_cons_self
    obtain ⟨c, hc, hrequest⟩ := List.mem_map.1 hcomplete
    exact hlaw.completed c hc "upload-0" [] hrequest rfl
  · unfold order l f
    cbv

end ObjectFlush
