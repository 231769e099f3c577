import ObjectFlush.Proofs.Store.Alone

/-!
A store that is used for many keys at a time. A request for one key keeps to that key: of all others it leaves the
object and the uploads alone (`Bucket.KeepsTo`). That takes names for uploads that are not in use, and that an upload
is only spoken of by who started it. There is one lemma for each request that a flush makes, which also says what
becomes of the key itself.
-/

namespace ObjectFlush

namespace Bucket

/-- From `b` to `b'` nothing changes of any key but `key`. -/
def KeepsTo (key : ObjectKey) (b b' : Bucket) : Prop := ∀ other, other ≠ key → Undisturbed other b b'

variable {b b' b'' : Bucket} {name tag : String} {number : Nat} {key : ObjectKey} {Part : Nat → Bytes → Prop}
  {old : Option StoredObject}

theorem KeepsTo.refl (key : ObjectKey) (b : Bucket) : KeepsTo key b b := fun other _ => .refl other b

theorem KeepsTo.trans (h : KeepsTo key b b') (h' : KeepsTo key b' b'') : KeepsTo key b b'' :=
  fun other hother => (h other hother).trans (h' other hother)

theorem keepsTo_write (b : Bucket) (key : ObjectKey) (data : Bytes) (tag : String) (options : ObjectOptions) :
    KeepsTo key b (b.write key data tag options).1 := by
  refine fun other hother => ⟨?_, fun _ _ h _ => h⟩
  show Table.get? other (b.objects.set key _) = _
  rw [Table.get?_set, if_neg hother]

theorem keepsTo_startUpload (h : b.uploads.get? name = none) (key : ObjectKey) :
    KeepsTo key b (b.startUpload name key) := by
  refine fun other _ => ⟨rfl, fun name' u hu _ => ?_⟩
  have hne : name' ≠ name := by
    rintro rfl
    rw [h] at hu
    cases hu
  show Table.get? name' (b.uploads.set name _) = some u
  rw [Table.get?_set, if_neg hne]
  exact hu

/-- An upload for another key has another name. -/
theorem Stages.name_ne (h : b.Stages name key Part old) {name' : String} {u : PendingUpload}
    (hu : b.uploads.get? name' = some u) (hkey : u.key ≠ key) : name' ≠ name := by
  rintro rfl
  obtain ⟨v, hv, hvkey, -⟩ := h.upload
  obtain rfl := Option.some.inj (hu.symm.trans hv)
  exact hkey hvkey

theorem Stages.keepsTo_storePart {data : Bytes} (h : b.Stages name key Part old)
    (hs : b.storePart name number data = .ok (b', tag)) : KeepsTo key b b' := by
  obtain ⟨-, -, v, -, rfl⟩ := storePart_eq_ok_iff.1 hs
  refine fun other hother => ⟨rfl, fun name' u hu hkey => ?_⟩
  show Table.get? name' (b.uploads.set name _) = some u
  rw [Table.get?_set, if_neg (h.name_ne hu (hkey ▸ hother))]
  exact hu

theorem Stages.keepsTo_dropUpload (h : b.Stages name key Part old) : KeepsTo key b (b.dropUpload name) := by
  refine fun other hother => ⟨rfl, fun name' u hu hkey => ?_⟩
  show Table.get? name' (b.uploads.erase name) = some u
  rw [Table.get?_erase, if_neg (h.name_ne hu (hkey ▸ hother))]
  exact hu

theorem Stages.keepsTo_finishUpload {receipts : List Receipt} {minSize : Nat} {options : ObjectOptions}
    {written : ObjectSummary} (h : b.Stages name key Part old)
    (hf : b.finishUpload name receipts minSize options = .ok (b', written)) : KeepsTo key b b' := by
  obtain ⟨u, data, hu, -, rfl, -⟩ := finishUpload_eq_ok hf
  obtain ⟨v, hv, rfl, -⟩ := h.upload
  obtain rfl : u = v := Option.some.inj (hu.symm.trans hv)
  -- The object that is written is of the key, and the upload that ends is for it.
  intro other hother
  have hwrite := b.keepsTo_write u.key data (multipartTag receipts) options other hother
  have hdrop := h.keepsTo_dropUpload other hother
  exact ⟨hwrite.object, hdrop.uploads⟩

end Bucket

namespace LocalEndpoint

variable {e : LocalEndpoint} {name : String} {number : Nat} {key : ObjectKey} {Part : Nat → Bytes → Prop}
  {old : Option StoredObject}

theorem stages_initiate (hfresh : e.Fresh) (h : e.bucket.objects.get? key = old) (Part : Nat → Bytes → Prop) :
    Bucket.KeepsTo key e.bucket (Endpoint.serve e (.initiate key)).1.bucket ∧
      ∃ name, (Endpoint.serve e (.initiate key)).2 = .ok name ∧
        (Endpoint.serve e (.initiate key)).1.bucket.Stages name key Part old :=
  ⟨Bucket.keepsTo_startUpload (hfresh e.started (Nat.le_refl _)) key, _, rfl, Bucket.stages_startUpload h _ Part⟩

theorem stages_uploadPart {data : Bytes} (h : e.bucket.Stages name key Part old) (hdata : Part number data) :
    Bucket.KeepsTo key e.bucket (Endpoint.serve e (.uploadPart name number data)).1.bucket ∧
      (Endpoint.serve e (.uploadPart name number data)).1.bucket.Stages name key Part old := by
  refine answer_bucket (P := fun b => Bucket.KeepsTo key e.bucket b ∧ b.Stages name key Part old)
    ⟨.refl key _, h⟩ ?_
  intro b tag hs
  exact ⟨h.keepsTo_storePart hs, h.storePart hs hdata⟩

theorem stages_copyPart {offset length : Nat} (h : e.bucket.Stages name key Part old)
    (hcopy : ∀ o data, old = some o → o.data.slice? offset length = some data → Part number data) :
    Bucket.KeepsTo key e.bucket (Endpoint.serve e (.copyPart name number ⟨key, offset, length⟩)).1.bucket ∧
      (Endpoint.serve e (.copyPart name number ⟨key, offset, length⟩)).1.bucket.Stages name key Part old := by
  refine answer_bucket (P := fun b => Bucket.KeepsTo key e.bucket b ∧ b.Stages name key Part old)
    ⟨.refl key _, h⟩ ?_
  intro b tag hf
  obtain ⟨data, -, hs⟩ := Bucket.fillPart_eq_ok hf
  exact ⟨h.keepsTo_storePart hs, h.fillPart hf hcopy⟩

/-- A completion delivers the parts in the order of the receipts, or is refused without effect. -/
theorem stages_complete (h : e.bucket.Stages name key Part old) (receipts : List Receipt) :
    Bucket.KeepsTo key e.bucket (Endpoint.serve e (.complete name receipts)).1.bucket ∧
      match (Endpoint.serve e (.complete name receipts)).2 with
      | .ok written => ∃ chunks : List Bytes,
          List.Forall₂ (fun (r : Receipt) chunk => Part r.number chunk) receipts chunks ∧
            (Endpoint.serve e (.complete name receipts)).1.bucket.Delivered key chunks.flatten written
      | .error _ => (Endpoint.serve e (.complete name receipts)).1.bucket.Stages name key Part old := by
  have hserve : Endpoint.serve e (.complete name receipts) =
    e.answer (e.bucket.finishUpload name receipts e.minPartSize e.options) := rfl
  rw [hserve]
  cases hf : e.bucket.finishUpload name receipts e.minPartSize e.options with
  | error failure => exact ⟨.refl key _, h⟩
  | ok result => exact ⟨h.keepsTo_finishUpload hf, h.finishUpload hf⟩

/-- Discarding the upload leaves every object as it is. -/
theorem stages_abort (h : e.bucket.Stages name key Part old) :
    Bucket.KeepsTo key e.bucket (Endpoint.serve e (.abort name)).1.bucket ∧
      (Endpoint.serve e (.abort name)).1.bucket.objects.get? key = old := by
  refine answer_bucket (P := fun b => Bucket.KeepsTo key e.bucket b ∧ b.objects.get? key = old)
    ⟨.refl key _, h.object⟩ ?_
  intro b _ hmap
  cases hd : e.bucket.discardUpload name with
  | error failure => rw [hd] at hmap; cases hmap
  | ok b' =>
    rw [hd] at hmap
    cases hmap
    rw [Bucket.discardUpload_eq_ok hd]
    exact ⟨h.keepsTo_dropUpload, h.object⟩

theorem keepsTo_put (e : LocalEndpoint) (key : ObjectKey) (data : Bytes) :
    Bucket.KeepsTo key e.bucket (Endpoint.serve e (.put key data)).1.bucket ∧
      ∃ written, (Endpoint.serve e (.put key data)).2 = .ok written ∧
        (Endpoint.serve e (.put key data)).1.bucket.Delivered key data written :=
  ⟨Bucket.keepsTo_write e.bucket key data (Digest.tag data) e.options, _, rfl,
    Bucket.write_delivered e.bucket key data (Digest.tag data) e.options⟩

end LocalEndpoint

end ObjectFlush
