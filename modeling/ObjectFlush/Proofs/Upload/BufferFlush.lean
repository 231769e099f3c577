import ObjectFlush.Exchange.DryRun
import ObjectFlush.Proofs.Upload.Flush
import ObjectFlush.Proofs.Upload.Opening

/-!
A buffer and a file in memory. What a flush says depends on its bytes and not on what holds them
(`Flusher.sendParts_of_holds`, `Flusher.sendFile_of_holds`), and without a stored object it does not depend on
which of them are dirty. So the flush of a file that is held in memory is the write of a buffer
(`buffer_flush_agrees`), but where a put may not carry the buffer: there only the flush looks.
-/

namespace ObjectFlush

/-- A transaction depends on what its parts request, not on where they read it. -/
theorem Session.execute_congr (s : Session) {jobs jobs' : List BoundPart}
    (h : jobs.map BoundPart.toRequest = jobs'.map BoundPart.toRequest) : s.execute jobs = s.execute jobs' := by
  unfold execute sendParts
  rw [h]

/-- Whatever holds the bytes of the file, its parts request the same. -/
theorem WellPlanned.toRequest_of_holds {ranges : List DirtyRange} {b : PartBounds} {parts : List Portion}
    {file : Bytes} (h : WellPlanned file.length ranges b parts) {source source' : FreshContent}
    (hsource : source.Holds file) (hsource' : source'.Holds file) (key : ObjectKey) :
    (bindPortions parts source key).map BoundPart.toRequest =
      (bindPortions parts source' key).map BoundPart.toRequest := by
  rw [bindPortions, bindPortions, List.map_map, List.map_map]
  refine List.map_congr_left fun p hp => ?_
  cases hk : p.kind with
  | copy => simp only [Function.comp_apply, Portion.bind, BoundPart.toRequest, hk]
  | upload =>
    have hstop := h.stop_le p hp
    have hpayload := Portion.payload_bind_upload key hsource hk hstop
    have hpayload' := Portion.payload_bind_upload key hsource' hk hstop
    exact congrArg (PartRequest.mk p.number) (hpayload.trans hpayload'.symm)

namespace Flusher

variable (f : Flusher)

/-- Where no object is stored, the plan is for all bytes, dirty or not. -/
theorem planned_unstored (size : Nat) (dirty : List DirtyRange) :
    f.planned size dirty false = f.planned size [] false := by
  unfold planned plan runs
  rw [Bool.and_false]
  rfl

theorem sendParts_of_holds {file : Bytes} {source source' : FreshContent} (hsource : source.Holds file)
    (hsource' : source'.Holds file) (key : ObjectKey) (cancel : Option Signal) {dirty : List DirtyRange}
    {stored : Bool} {parts : List Portion} (hplan : f.planned file.length dirty stored = .ok parts) :
    f.sendParts key parts source cancel = f.sendParts key parts source' cancel := by
  have hwell := (cut_of_plan hplan).wellPlanned (numbers_of_plan hplan)
  unfold sendParts
  dsimp only
  rw [Session.execute_congr _ (hwell.toRequest_of_holds hsource hsource' key)]

theorem sendFile_of_holds {file : Bytes} {source : LocalFile} (hsource : (FreshContent.file source).Holds file)
    (hfits : file.length ≤ f.settings.maxSinglePut) (key : ObjectKey) :
    f.sendFile key source file.length = f.send key file := by
  rw [sendFile, if_neg (Nat.not_lt.2 hfits), LocalFile.read_all hsource]

/-- A put is not refused before it is requested. -/
theorem send_ne_pure (key : ObjectKey) (data : Bytes) (a : Except FlushError ObjectSummary) :
    f.send key data ≠ pure a := by
  have hask : ∀ use : Except RequestError ObjectSummary → Dialogue (Except FlushError ObjectSummary),
      Dialogue.persist f.settings.repeatPolicy (.put key data) >>= use ≠ pure a := by
    intro use h
    obtain ⟨next, hnext⟩ := Dialogue.exists_persist_bind_eq f.settings.repeatPolicy (.put key data) use
    cases hnext.symm.trans h
  exact hask _

end Flusher

/-- The flush of a file that is held in memory, of which nothing is stored and which nobody cancels. -/
def FlushOrder.ofBuffer (key : ObjectKey) (data : Bytes) (dirty : List DirtyRange) : FlushOrder :=
  { key, source := .memory data, size := data.length, dirty, stored := false }

/-- The two agree wherever the limit for puts is kept by the write of the buffer too. -/
theorem Flusher.flush_ofBuffer_eq_iff (f : Flusher) (key : ObjectKey) (data : Bytes) (dirty : List DirtyRange) :
    f.flush (.ofBuffer key data dirty) = f.flushBuffer key data ↔
      ¬(f.settings.maxSinglePut < data.length ∧ data.length < f.settings.multipartThreshold) := by
  have hsource : (FreshContent.file (.memory data)).Holds data := rfl
  have hbuffer : (FreshContent.buffer data).Holds data := rfl
  have hplanned := f.planned_unstored data.length dirty
  rw [f.flush_eq, f.flushBuffer_eq]
  show f.choose data.length (f.planned data.length dirty false) (f.sendFile key (.memory data) data.length)
    (f.sendParts key · (.file (.memory data)) none) = _ ↔ _
  rw [hplanned]
  unfold choose
  by_cases hsmall : data.length < f.settings.multipartThreshold
  · rw [if_pos hsmall, if_pos hsmall]
    by_cases hfits : data.length ≤ f.settings.maxSinglePut
    · exact iff_of_true (f.sendFile_of_holds hsource hfits key) (by omega)
    · -- The flush refuses the file, and the buffer is put.
      refine iff_of_false ?_ (by omega)
      rw [sendFile, if_pos (Nat.lt_of_not_le hfits)]
      exact fun h => f.send_ne_pure key data _ h.symm
  · refine iff_of_true ?_ (by omega)
    rw [if_neg hsmall, if_neg hsmall]
    cases hplan : f.planned data.length [] false with
    | ok parts => exact f.sendParts_of_holds hsource hbuffer key none hplan
    | error e =>
      by_cases hfits : data.length ≤ f.settings.maxSinglePut
      · simp only [if_pos hfits]
        exact f.sendFile_of_holds hsource hfits key
      · simp only [if_neg hfits]

/-- **The write of a buffer is the flush of a file that is held in memory.** If a put may carry the buffer, both
say the same before any store has answered, whichever bytes are said to be dirty. So over every link they make
the same calls at the same times, and come to the same. -/
theorem buffer_flush_agrees (f : Flusher) (key : ObjectKey) (data : Bytes) (dirty : List DirtyRange)
    (hfits : data.length ≤ f.settings.maxSinglePut) :
    f.flush (.ofBuffer key data dirty) = f.flushBuffer key data ∧
      ∀ {σ : Type} [Endpoint σ] (l : Link σ),
        ((f.flush (.ofBuffer key data dirty)).run l).1.calls = ((f.flushBuffer key data).run l).1.calls ∧
        ((f.flush (.ofBuffer key data dirty)).run l).1.now = ((f.flushBuffer key data).run l).1.now ∧
        ((f.flush (.ofBuffer key data dirty)).run l).2 = ((f.flushBuffer key data).run l).2 := by
  have hsame := (f.flush_ofBuffer_eq_iff key data dirty).2 (by omega)
  refine ⟨hsame, fun l => ?_⟩
  rw [hsame]
  exact ⟨rfl, rfl, rfl⟩

/-- Six bytes, of which two are said to be dirty, go in two parts. The first is late once and sent again, and the
store refuses to complete the upload: the flush and the write of the buffer say so alike. -/
theorem refused_buffer_flush_agrees :
    let f : Flusher :=
      ⟨{ minPartSize := 2, maxPartSize := 4, multipartThreshold := 4, retryBackoff := 2, partTimeout := 9 },
        by decide⟩
    let key : ObjectKey := ⟨"k", by decide⟩
    let data : Bytes := [0, 1, 2, 3, 4, 5]
    let refusing : Conditions := { reaction := fun lane n =>
      match lane, n with
      | .part 1, 0 => { delay := 10 }
      | .complete, _ => { delay := 3, failure := some (.http 403 "denied") }
      | _, _ => { delay := 1 } }
    let link : Link DryRun := { endpoint := {}, conditions := refusing }
    data.length ≤ f.settings.maxSinglePut ∧
      ((f.flush (.ofBuffer key data [⟨1, 2, 1⟩])).run link).1.calls =
        ((f.flushBuffer key data).run link).1.calls ∧
      ((f.flushBuffer key data).run link).1.calls.map (fun c => (c.request, c.started)) =
        [(.initiate key, 0), (.uploadPart "upload-0" 1 [0, 1, 2, 3], 1), (.uploadPart "upload-0" 2 [4, 5], 1),
          (.uploadPart "upload-0" 1 [0, 1, 2, 3], 12),
          (.complete "upload-0" [⟨1, "etag-1"⟩, ⟨2, "etag-2"⟩], 13),
          (.abort "upload-0", 16)] ∧
      ((f.flush (.ofBuffer key data [⟨1, 2, 1⟩])).run link).2 =
        .error (.session (.completeFailed (.http 403 "denied"))) := by
  intro f key data refusing link
  have hfits : data.length ≤ f.settings.maxSinglePut := by decide
  obtain ⟨hcalls, -, hresult⟩ := (buffer_flush_agrees f key data [⟨1, 2, 1⟩] hfits).2 link
  have hlog : ((f.flushBuffer key data).run link).1.calls.map (fun c => (c.request, c.started)) =
      [(.initiate key, 0), (.uploadPart "upload-0" 1 [0, 1, 2, 3], 1), (.uploadPart "upload-0" 2 [4, 5], 1),
        (.uploadPart "upload-0" 1 [0, 1, 2, 3], 12), (.complete "upload-0" [⟨1, "etag-1"⟩, ⟨2, "etag-2"⟩], 13),
        (.abort "upload-0", 16)] := by
    unfold link refusing data key f
    cbv
  have hrefused : ((f.flushBuffer key data).run link).2 =
      .error (.session (.completeFailed (.http 403 "denied"))) := by
    unfold link refusing data key f
    cbv
  exact ⟨hfits, hcalls, hlog, hresult.trans hrefused⟩

end ObjectFlush
