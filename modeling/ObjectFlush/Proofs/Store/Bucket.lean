import Mathlib.Data.List.Forall2
import ObjectFlush.Store.Bucket

/-!
What the operations of a bucket do. Each is turned round once: from its success follow the upload
or object that it found, and the bucket it left. `Stages` is what an upload that is still in
progress keeps true, `Gathers` the same where the content of each part is known, and `Delivered` what
an object is like once it has been written.
-/

namespace ObjectFlush

namespace Bucket

theorem upload_eq_ok_iff {b : Bucket} {name : String} {u : PendingUpload} :
    b.upload name = .ok u ↔ b.uploads.get? name = some u := by
  unfold upload
  split
  · next h => rw [h]; simp
  · next h => rw [h]; simp

theorem storePart_eq_ok_iff {b b' : Bucket} {name tag : String} {number : Nat} {data : Bytes} :
    b.storePart name number data = .ok (b', tag) ↔
      (0 < number ∧ number ≤ maxPartNumber) ∧ tag = Digest.tag data ∧
        ∃ u, b.uploads.get? name = some u ∧
          b' = { b with uploads := b.uploads.set name { u with parts := u.parts.set number data } } := by
  unfold storePart
  cases hu : b.upload name with
  | error e =>
    have hnone : ∀ u, b.uploads.get? name ≠ some u := fun u h => by
      rw [upload_eq_ok_iff.2 h] at hu; cases hu
    simp [bind, Except.bind, hnone]
  | ok u =>
    rw [upload_eq_ok_iff] at hu
    simp only [bind, Except.bind, hu, Option.some.injEq]
    split
    · next hn =>
      constructor
      · intro h; cases h
      · intro h
        obtain ⟨hb, _⟩ := h; omega
    · next hn =>
      constructor
      · intro h; cases h; exact ⟨by omega, rfl, u, rfl, rfl⟩
      · intro h
        obtain ⟨_, htag, v, hv, hb⟩ := h
        subst htag hv hb
        rfl

theorem read_eq_ok {b : Bucket} {key : ObjectKey} {offset length : Nat} {data : Bytes}
    (h : b.read key offset length = .ok data) :
    ∃ o, b.objects.get? key = some o ∧ o.data.slice? offset length = some data := by
  unfold read data? at h
  split at h
  · cases h
  · next stored hd =>
    obtain ⟨o, ho, rfl⟩ := Option.map_eq_some_iff.1 hd
    split at h
    · cases h
    · split at h
      · next bytes hs => cases h; exact ⟨o, ho, hs⟩
      · cases h

theorem fillPart_eq_ok {b b' : Bucket} {name tag : String} {number : Nat} {source : StoredRange}
    (h : b.fillPart name number source = .ok (b', tag)) :
    ∃ data, b.read source.key source.offset source.length = .ok data ∧
      b.storePart name number data = .ok (b', tag) := by
  unfold fillPart at h
  cases hr : b.read source.key source.offset source.length with
  | error e => rw [hr] at h; cases h
  | ok data => rw [hr] at h; exact ⟨data, rfl, h⟩

theorem discardUpload_eq_ok {b b' : Bucket} {name : String} (h : b.discardUpload name = .ok b') :
    b' = b.dropUpload name := by
  unfold discardUpload at h
  cases hu : b.upload name with
  | error e => rw [hu] at h; cases h
  | ok u => rw [hu] at h; cases h; rfl

theorem finishUpload_eq_ok {b b' : Bucket} {name : String} {receipts : List Receipt} {minSize : Nat}
    {options : ObjectOptions} {written : ObjectSummary}
    (h : b.finishUpload name receipts minSize options = .ok (b', written)) :
    ∃ u data, b.uploads.get? name = some u ∧ assemble u.parts minSize 0 receipts = .ok data ∧
      b' = (b.write u.key data (multipartTag receipts) options).1.dropUpload name ∧
      written = (b.write u.key data (multipartTag receipts) options).2 := by
  unfold finishUpload at h
  cases hu : b.upload name with
  | error e => rw [hu] at h; cases h
  | ok u =>
    rw [hu] at h
    simp only [bind, Except.bind] at h
    split at h
    · cases h
    · cases ha : assemble u.parts minSize 0 receipts with
      | error e => rw [ha] at h; cases h
      | ok data =>
        rw [ha] at h
        cases h
        exact ⟨u, data, upload_eq_ok_iff.1 hu, ha, rfl, rfl⟩

/-- What an upload is put together from: the parts of the receipts, one after the other. -/
theorem assemble_eq_ok {parts : Table Nat Bytes} {minSize : Nat} :
    ∀ {receipts : List Receipt} {previous : Nat} {data : Bytes},
      assemble parts minSize previous receipts = .ok data →
        ∃ chunks : List Bytes, data = chunks.flatten ∧
          List.Forall₂ (fun (r : Receipt) chunk => parts.get? r.number = some chunk) receipts chunks := by
  intro receipts
  induction receipts with
  | nil =>
    intro previous data h
    cases h
    exact ⟨[], rfl, .nil⟩
  | cons r rest ih =>
    intro previous data h
    simp only [assemble] at h
    split at h
    · cases h
    · split at h
      · cases h
      · next chunk hchunk =>
        split at h
        · cases h
        · split at h
          · cases h
          · split at h
            · next bytes hrest =>
              cases h
              obtain ⟨chunks, rfl, hchunks⟩ := ih hrest
              exact ⟨chunk :: chunks, rfl, .cons hchunk hchunks⟩
            · cases h

/-- An upload for `key` is in progress, and what is stored of it is `content`, by part number; the
object under `key` is still `old`. -/
structure Gathers (b : Bucket) (name : String) (key : ObjectKey) (content : Nat → Bytes)
    (old : Option StoredObject) : Prop where
  object : b.objects.get? key = old
  upload : ∃ u, b.uploads.get? name = some u ∧ u.key = key ∧
    ∀ n data, u.parts.get? n = some data → data = content n

/-- An upload for `key` is in progress, and what is stored of it is as `Part` says, by part number; the object
under `key` is still `old`. -/
structure Stages (b : Bucket) (name : String) (key : ObjectKey) (Part : Nat → Bytes → Prop)
    (old : Option StoredObject) : Prop where
  object : b.objects.get? key = old
  upload : ∃ u, b.uploads.get? name = some u ∧ u.key = key ∧
    ∀ n data, u.parts.get? n = some data → Part n data

/-- The object under `key` holds `data`, and the summary is of that object. -/
def Delivered (b : Bucket) (key : ObjectKey) (data : Bytes) (written : ObjectSummary) : Prop :=
  ∃ o, b.objects.get? key = some o ∧ o.data = data ∧ o.record.size = data.length ∧
    written = ⟨key.text, data.length, o.record.tag⟩

variable {b b' : Bucket} {name tag : String} {number : Nat} {key : ObjectKey}
  {content : Nat → Bytes} {Part : Nat → Bytes → Prop} {old : Option StoredObject}

theorem write_delivered (b : Bucket) (key : ObjectKey) (data : Bytes) (tag : String)
    (options : ObjectOptions) :
    (b.write key data tag options).1.Delivered key data (b.write key data tag options).2 := by
  refine ⟨⟨data, data.length, tag, options.acl, options.encryption.header?, options.signature⟩, ?_,
    rfl, rfl, rfl⟩
  simp only [write]
  rw [Table.get?_set, if_pos rfl]

/-- An upload that is started holds nothing yet, which is in keeping with any parts. -/
theorem stages_startUpload (h : b.objects.get? key = old) (name : String) (Part : Nat → Bytes → Prop) :
    (b.startUpload name key).Stages name key Part old := by
  refine ⟨h, { key }, ?_, rfl, ?_⟩
  · simp only [startUpload]
    rw [Table.get?_set, if_pos rfl]
  · intro n data h
    cases h

theorem Stages.storePart {data : Bytes} (h : b.Stages name key Part old)
    (hs : b.storePart name number data = .ok (b', tag)) (hdata : Part number data) :
    b'.Stages name key Part old := by
  obtain ⟨-, -, u, hu, rfl⟩ := storePart_eq_ok_iff.1 hs
  obtain ⟨v, hv, hkey, hparts⟩ := h.upload
  obtain rfl : u = v := Option.some.inj (hu.symm.trans hv)
  refine ⟨h.object, { u with parts := u.parts.set number data }, ?_, hkey, ?_⟩
  · show Table.get? name (b.uploads.set name _) = _
    rw [Table.get?_set, if_pos rfl]
  · intro n d hd
    rw [Table.get?_set] at hd
    split at hd
    · next hn => cases hd; rw [hn]; exact hdata
    · exact hparts n d hd

/-- A part that is copied holds bytes of the object as it was when the upload started. -/
theorem Stages.fillPart {offset length : Nat} (h : b.Stages name key Part old)
    (hf : b.fillPart name number ⟨key, offset, length⟩ = .ok (b', tag))
    (hcopy : ∀ o data, old = some o → o.data.slice? offset length = some data → Part number data) :
    b'.Stages name key Part old := by
  obtain ⟨data, hread, hs⟩ := fillPart_eq_ok hf
  obtain ⟨o, ho, hslice⟩ := read_eq_ok hread
  exact h.storePart hs (hcopy o data (h.object.symm.trans ho) hslice)

/-- An upload that is finished delivers its parts, in the order of the receipts. -/
theorem Stages.finishUpload {receipts : List Receipt} {minSize : Nat} {options : ObjectOptions}
    {written : ObjectSummary} (h : b.Stages name key Part old)
    (hf : b.finishUpload name receipts minSize options = .ok (b', written)) :
    ∃ chunks : List Bytes, List.Forall₂ (fun (r : Receipt) chunk => Part r.number chunk) receipts chunks ∧
      b'.Delivered key chunks.flatten written := by
  obtain ⟨u, data, hu, ha, rfl, rfl⟩ := finishUpload_eq_ok hf
  obtain ⟨v, hv, rfl, hparts⟩ := h.upload
  obtain rfl : u = v := Option.some.inj (hu.symm.trans hv)
  obtain ⟨chunks, rfl, hchunks⟩ := assemble_eq_ok ha
  exact ⟨chunks, hchunks.imp fun (r : Receipt) chunk => hparts r.number chunk,
    b.write_delivered u.key chunks.flatten (multipartTag receipts) options⟩

/-! ## Parts of known content -/

theorem Gathers.stages (h : b.Gathers name key content old) :
    b.Stages name key (fun n data => data = content n) old := ⟨h.object, h.upload⟩

theorem Stages.gathers (h : b.Stages name key (fun n data => data = content n) old) :
    b.Gathers name key content old := ⟨h.object, h.upload⟩

theorem gathers_startUpload (h : b.objects.get? key = old) (name : String)
    (content : Nat → Bytes) : (b.startUpload name key).Gathers name key content old :=
  (stages_startUpload h name _).gathers

theorem Gathers.storePart {data : Bytes} (h : b.Gathers name key content old)
    (hs : b.storePart name number data = .ok (b', tag)) (hdata : data = content number) :
    b'.Gathers name key content old :=
  (h.stages.storePart hs hdata).gathers

theorem Gathers.fillPart {offset length : Nat} (h : b.Gathers name key content old)
    (hf : b.fillPart name number ⟨key, offset, length⟩ = .ok (b', tag))
    (hcopy : ∀ o data, old = some o → o.data.slice? offset length = some data →
      data = content number) : b'.Gathers name key content old :=
  (h.stages.fillPart hf hcopy).gathers

theorem Gathers.finishUpload {receipts : List Receipt} {minSize : Nat} {options : ObjectOptions}
    {written : ObjectSummary} (h : b.Gathers name key content old)
    (hf : b.finishUpload name receipts minSize options = .ok (b', written)) :
    b'.Delivered key (receipts.map fun r => content r.number).flatten written := by
  obtain ⟨chunks, hchunks, hdelivered⟩ := h.stages.finishUpload hf
  have hcontent : List.Forall₂ (· = ·) (receipts.map fun r => content r.number) chunks :=
    List.forall₂_map_left_iff.2 (hchunks.imp fun _ _ => Eq.symm)
  rw [List.forall₂_eq_eq_eq] at hcontent
  rw [hcontent]
  exact hdelivered

end Bucket

end ObjectFlush
