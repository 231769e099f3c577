import Mathlib.Data.List.Nodup
import ObjectFlush.Proofs.Store.Bucket
import ObjectFlush.Proofs.Store.EntryName

/-!
A bucket and its layout. `Represents` says that the entries of a partition are those of a bucket and no
others. Every operation on the entries then does to them what the operation on the bucket does, and answers
alike (`Performs`); what is refused leaves every entry as it was.

The operations that go over all entries of an upload need names without colons, and the listings that no
name or number occurs twice: `Bucket.Tidy` is what every operation keeps of that.
-/

namespace ObjectFlush

namespace Bucket

/-- What stands in a bucket under the name of an entry. -/
def entryAt? (b : Bucket) : EntryName → Option Entry
  | .data key => (b.objects.get? key).map fun o => .bytes o.data
  | .record key => (b.objects.get? key).map fun o => .object o.record
  | .upload name => (b.uploads.get? name).map fun u => .upload ⟨name, u.key⟩
  | .part name number => (b.uploads.get? name).bind fun u => (u.parts.get? number).map .bytes

/-- What holds of every bucket. -/
structure Tidy (b : Bucket) : Prop where
  sized : ∀ key o, b.objects.get? key = some o → o.record.size = o.data.length
  plain : ∀ name u, b.uploads.get? name = some u → ':' ∉ name.toList
  numbered : ∀ name u n data, b.uploads.get? name = some u → u.parts.get? n = some data →
    0 < n ∧ n ≤ maxPartNumber
  distinct : b.uploads.names.Nodup
  distinctParts : ∀ name u, b.uploads.get? name = some u → u.parts.names.Nodup

/-! ## What the operations keep -/

variable {b : Bucket}

theorem tidy_empty : Tidy {} :=
  ⟨fun _ _ h => (by cases h), fun _ _ h => (by cases h), fun _ _ _ _ h => (by cases h), List.nodup_nil,
    fun _ _ h => (by cases h)⟩

theorem Tidy.write (h : b.Tidy) (key : ObjectKey) (data : Bytes) (tag : String)
    (options : ObjectOptions) : (b.write key data tag options).1.Tidy := by
  refine ⟨?_, h.plain, h.numbered, h.distinct, h.distinctParts⟩
  intro k o ho
  simp only [Bucket.write, Table.get?_set] at ho
  split at ho
  · cases ho
    rfl
  · exact h.sized k o ho

theorem Tidy.delete (h : b.Tidy) (key : ObjectKey) : (b.delete key).Tidy := by
  refine ⟨?_, h.plain, h.numbered, h.distinct, h.distinctParts⟩
  intro k o ho
  simp only [Bucket.delete, Table.get?_erase] at ho
  split at ho
  · cases ho
  · exact h.sized k o ho

/-- An upload is set to one whose parts are in order. -/
theorem Tidy.setUpload (h : b.Tidy) {name : String} {u : PendingUpload} (hplain : ':' ∉ name.toList)
    (hnumbered : ∀ n data, u.parts.get? n = some data → 0 < n ∧ n ≤ maxPartNumber)
    (hdistinct : u.parts.names.Nodup) : Tidy { b with uploads := b.uploads.set name u } := by
  have hcases : ∀ {x v}, Table.get? x (b.uploads.set name u) = some v →
      (x = name ∧ v = u) ∨ b.uploads.get? x = some v := by
    intro x v hx
    rw [Table.get?_set] at hx
    split at hx
    · next heq => exact .inl ⟨heq, (Option.some.inj hx).symm⟩
    · exact .inr hx
  refine ⟨h.sized, ?_, ?_, Table.nodup_names_set _ _ h.distinct, ?_⟩
  · intro x v hx
    rcases hcases hx with ⟨rfl, -⟩ | hx
    · exact hplain
    · exact h.plain x v hx
  · intro x v n data hx
    rcases hcases hx with ⟨-, rfl⟩ | hx
    · exact hnumbered n data
    · exact h.numbered x v n data hx
  · intro x v hx
    rcases hcases hx with ⟨-, rfl⟩ | hx
    · exact hdistinct
    · exact h.distinctParts x v hx

theorem Tidy.startUpload (h : b.Tidy) {name : String} (hplain : ':' ∉ name.toList) (key : ObjectKey) :
    (b.startUpload name key).Tidy :=
  h.setUpload hplain (fun _ _ hn => by cases hn) List.nodup_nil

theorem Tidy.storePart (h : b.Tidy) {b' : Bucket} {name tag : String} {number : Nat} {data : Bytes}
    (hs : b.storePart name number data = .ok (b', tag)) : b'.Tidy := by
  obtain ⟨hnumber, -, u, hu, rfl⟩ := storePart_eq_ok_iff.1 hs
  refine h.setUpload (h.plain name u hu) ?_ (Table.nodup_names_set _ _ (h.distinctParts name u hu))
  intro n d hn
  simp only [Table.get?_set] at hn
  split at hn
  · next heq =>
    rw [heq]
    exact hnumber
  · exact h.numbered name u n d hu hn

theorem Tidy.dropUpload (h : b.Tidy) (name : String) : (b.dropUpload name).Tidy := by
  have hget : ∀ {x v}, (b.dropUpload name).uploads.get? x = some v → b.uploads.get? x = some v := by
    intro x v hx
    simp only [Bucket.dropUpload, Table.get?_erase] at hx
    split at hx
    · cases hx
    · exact hx
  exact ⟨h.sized, fun x v hx => h.plain x v (hget hx), fun x v n data hx => h.numbered x v n data (hget hx),
    Table.nodup_names_erase _ h.distinct, fun x v hx => h.distinctParts x v (hget hx)⟩

theorem Tidy.finishUpload (h : b.Tidy) {b' : Bucket} {name : String} {receipts : List Receipt}
    {minSize : Nat} {options : ObjectOptions} {written : ObjectSummary}
    (hf : b.finishUpload name receipts minSize options = .ok (b', written)) : b'.Tidy := by
  obtain ⟨u, data, -, -, rfl, -⟩ := finishUpload_eq_ok hf
  exact (h.write u.key data (multipartTag receipts) options).dropUpload name

end Bucket

namespace BucketPartition

@[simp] theorem entryAt?_put (p : BucketPartition) (name x : EntryName) (entry : Entry) :
    (p.put name entry).entryAt? x = if x = name then some entry else p.entryAt? x := by
  by_cases h : x = name
  · subst h
    simp [put, entryAt?]
  · have hne : x.text ≠ name.text := fun heq => h (EntryName.text_inj heq)
    simp [put, entryAt?, h, hne]

@[simp] theorem entryAt?_clear (p : BucketPartition) (name x : EntryName) :
    (p.clear name).entryAt? x = if x = name then none else p.entryAt? x := by
  by_cases h : x = name
  · subst h
    simp [clear, entryAt?]
  · have hne : x.text ≠ name.text := fun heq => h (EntryName.text_inj heq)
    simp [clear, entryAt?, h, hne]

/-- The entries of the partition are those of the bucket, and no others. -/
structure Represents (p : BucketPartition) (b : Bucket) : Prop where
  entry : ∀ name, p.entryAt? name = b.entryAt? name
  named : ∀ x entry, p.get? x = some entry → ∃ name : EntryName, x = name.text

/-- An operation on the partition `p` does what the one on the bucket does: it answers alike and leaves the
entries of the bucket that is left. What is refused leaves `p`. -/
def Performs {α : Type} (p : BucketPartition) (out : BucketPartition × Except StoreError α) :
    Except StoreError (Bucket × α) → Prop
  | .ok (b, a) => out.2 = .ok a ∧ out.1.Represents b
  | .error e => out = (p, .error e)

theorem represents_empty : Represents {} {} := by
  refine ⟨?_, fun _ _ h => by cases h⟩
  intro name
  cases name <;> rfl

namespace Represents

variable {p : BucketPartition} {b : Bucket}

theorem put (h : p.Represents b) {b' : Bucket} (name : EntryName) (entry : Entry)
    (hb : ∀ x, b'.entryAt? x = if x = name then some entry else b.entryAt? x) :
    (p.put name entry).Represents b' := by
  refine ⟨fun x => by rw [entryAt?_put, h.entry, hb], ?_⟩
  intro x e hx
  rw [BucketPartition.put, Partition.get?_insert] at hx
  split at hx
  · next heq => exact ⟨name, heq⟩
  · exact h.named x e hx

/-! ## Objects -/

theorem bytes?_part (h : p.Represents b) {name : String} {u : PendingUpload}
    (hu : b.uploads.get? name = some u) (number : Nat) :
    p.bytes? (.part name number) = u.parts.get? number := by
  rw [bytes?, h.entry, Bucket.entryAt?, hu, Option.bind_some]
  cases u.parts.get? number <;> rfl

theorem data? (h : p.Represents b) (key : ObjectKey) : p.data? key = b.data? key := by
  rw [BucketPartition.data?, bytes?, h.entry, Bucket.entryAt?, Bucket.data?]
  cases b.objects.get? key <;> rfl

theorem record? (h : p.Represents b) (key : ObjectKey) : p.record? key = .ok (b.record? key) := by
  rw [BucketPartition.record?, h.entry, Bucket.entryAt?, Bucket.record?]
  cases b.objects.get? key <;> rfl

theorem read (h : p.Represents b) (key : ObjectKey) (offset length : Nat) :
    p.read key offset length = b.read key offset length := by
  have hdata := h.data? key
  unfold BucketPartition.read Bucket.read
  generalize p.data? key = found at hdata ⊢
  subst hdata
  cases b.data? key <;> rfl

/-- An object is there with both of its entries. -/
theorem write (h : p.Represents b) (key : ObjectKey) (data : Bytes) (tag : String)
    (options : ObjectOptions) : (p.write key data tag options).1.Represents (b.write key data tag options).1 := by
  let record : ObjectRecord :=
    ⟨data.length, tag, options.acl, options.encryption.header?, options.signature⟩
  refine ⟨?_, ?_⟩
  · intro x
    show ((p.put (.data key) (.bytes data)).put (.record key) (.object record)).entryAt? x = _
    rw [entryAt?_put, entryAt?_put, h.entry]
    cases x with
    | data k =>
      by_cases hk : k = key
      · simp [Bucket.entryAt?, Bucket.write, Table.get?_set, hk]
      · simp [Bucket.entryAt?, Bucket.write, Table.get?_set, hk]
    | record k =>
      by_cases hk : k = key
      · simp [Bucket.entryAt?, Bucket.write, Table.get?_set, hk, record]
      · simp [Bucket.entryAt?, Bucket.write, Table.get?_set, hk]
    | upload name => simp [Bucket.entryAt?, Bucket.write]
    | part name n => simp [Bucket.entryAt?, Bucket.write]
  · intro x e hx
    simp only [BucketPartition.write, BucketPartition.put, Partition.get?_insert] at hx
    split at hx
    · next heq => exact ⟨.record key, heq⟩
    · split at hx
      · next heq => exact ⟨.data key, heq⟩
      · exact h.named x e hx

theorem delete (h : p.Represents b) (key : ObjectKey) : (p.delete key).Represents (b.delete key) := by
  refine ⟨?_, ?_⟩
  · intro x
    rw [BucketPartition.delete, entryAt?_clear, entryAt?_clear, h.entry]
    cases x with
    | data k =>
      by_cases hk : k = key
      · simp [Bucket.entryAt?, Bucket.delete, Table.get?_erase, hk]
      · simp [Bucket.entryAt?, Bucket.delete, Table.get?_erase, hk]
    | record k =>
      by_cases hk : k = key
      · simp [Bucket.entryAt?, Bucket.delete, Table.get?_erase, hk]
      · simp [Bucket.entryAt?, Bucket.delete, Table.get?_erase, hk]
    | upload name => simp [Bucket.entryAt?, Bucket.delete]
    | part name n => simp [Bucket.entryAt?, Bucket.delete]
  · intro x e hx
    simp only [BucketPartition.delete, BucketPartition.clear, Partition.get?_remove] at hx
    split at hx
    · cases hx
    · split at hx
      · cases hx
      · exact h.named x e hx

/-! ## Uploads -/

theorem upload (h : p.Represents b) (name : String) :
    p.upload name = (b.upload name).map fun u => ⟨name, u.key⟩ := by
  rw [BucketPartition.upload, h.entry, Bucket.entryAt?, Bucket.upload]
  cases b.uploads.get? name <;> rfl

theorem startUpload (h : p.Represents b) {name : String} (hnew : b.uploads.get? name = none)
    (key : ObjectKey) : (p.startUpload name key).Represents (b.startUpload name key) := by
  apply h.put
  intro x
  cases x with
  | data k => simp [Bucket.entryAt?, Bucket.startUpload]
  | record k => simp [Bucket.entryAt?, Bucket.startUpload]
  | upload other =>
    by_cases hother : other = name
    · simp [Bucket.entryAt?, Bucket.startUpload, Table.get?_set, hother]
    · simp [Bucket.entryAt?, Bucket.startUpload, Table.get?_set, hother]
  | part other n =>
    -- An upload that has just been started has no parts, as one that is not there has none.
    by_cases hother : other = name
    · simp [Bucket.entryAt?, Bucket.startUpload, Table.get?_set, hother, hnew, Table.get?]
    · simp [Bucket.entryAt?, Bucket.startUpload, Table.get?_set, hother]

theorem storePart (h : p.Represents b) (name : String) (number : Nat) (data : Bytes) :
    p.Performs (p.storePart name number data) (b.storePart name number data) := by
  unfold BucketPartition.storePart Bucket.storePart
  rw [h.upload]
  cases hu : b.upload name with
  | error e => rfl
  | ok u =>
    rw [Bucket.upload_eq_ok_iff] at hu
    dsimp only [Except.map, bind, Except.bind]
    by_cases hn : number = 0 ∨ Bucket.maxPartNumber < number
    · rw [if_pos hn, if_pos hn]
      rfl
    · rw [if_neg hn, if_neg hn]
      refine ⟨rfl, h.put _ _ ?_⟩
      intro x
      cases x with
      | data k => simp [Bucket.entryAt?]
      | record k => simp [Bucket.entryAt?]
      | upload other =>
        by_cases hother : other = name
        · simp [Bucket.entryAt?, Table.get?_set, hother, hu]
        · simp [Bucket.entryAt?, Table.get?_set, hother]
      | part other n =>
        by_cases hother : other = name
        · by_cases hnumber : n = number
          · simp [Bucket.entryAt?, Table.get?_set, hother, hnumber]
          · simp [Bucket.entryAt?, Table.get?_set, hother, hnumber, hu]
        · simp [Bucket.entryAt?, Table.get?_set, hother]

theorem fillPart (h : p.Represents b) (name : String) (number : Nat) (source : StoredRange) :
    p.Performs (p.fillPart name number source) (b.fillPart name number source) := by
  unfold BucketPartition.fillPart Bucket.fillPart
  rw [h.read]
  cases b.read source.key source.offset source.length with
  | error e => rfl
  | ok data => exact h.storePart name number data

/-- The parts are put together as they are listed, from either side. -/
theorem gather (h : p.Represents b) {name : String} {u : PendingUpload}
    (hu : b.uploads.get? name = some u) (minSize : Nat) (receipts : List Receipt) :
    ∀ previous gathered, p.gather name minSize previous gathered receipts =
      (Bucket.assemble u.parts minSize previous receipts).map (gathered ++ ·) := by
  induction receipts with
  | nil =>
    intro previous gathered
    simp [BucketPartition.gather, Bucket.assemble, Except.map]
  | cons r rest ih =>
    intro previous gathered
    rw [BucketPartition.gather, Bucket.assemble, h.bytes?_part hu]
    split
    · rfl
    · cases u.parts.get? r.number with
      | none => rfl
      | some data =>
        dsimp only
        split
        · rfl
        · split
          · rfl
          · rw [ih]
            cases Bucket.assemble u.parts minSize r.number rest with
            | error e => rfl
            | ok bytes => simp [Except.map]

/-- The walk over the prefix of an upload removes its parts, all of them and no others. -/
theorem dropUpload (h : p.Represents b) (ht : b.Tidy) (name : String) :
    (p.dropUpload name).Represents (b.dropUpload name) := by
  have hget : ∀ x, (p.dropUpload name).get? x = if x = (EntryName.upload name).text then none
      else if x ∈ p.namesUnder (EntryName.parts name) then none else p.get? x := by
    intro x
    simp only [BucketPartition.dropUpload, BucketPartition.clear, Partition.get?_remove,
      Partition.get?_foldl_remove]
  refine ⟨?_, ?_⟩
  · intro x
    have hplain : ∀ e, p.get? x.text = some e → ∀ other n, x = .part other n → ':' ∉ other.toList := by
      intro e hx other n heq
      change p.entryAt? x = some e at hx
      rw [h.entry, heq, Bucket.entryAt?] at hx
      obtain ⟨u, hu, -⟩ := Option.bind_eq_some_iff.1 hx
      exact ht.plain other u hu
    have hunder : x.text ∈ p.namesUnder (EntryName.parts name) ↔
        (∃ e, p.entryAt? x = some e) ∧ ∃ n, x = .part name n := by
      rw [Partition.mem_namesUnder_iff]
      refine and_congr_right fun hx => ?_
      obtain ⟨e, hx⟩ := hx
      exact EntryName.parts_prefix_iff (hplain e hx)
    have hgone : ∀ n, x = .part name n → (p.dropUpload name).entryAt? x = none := by
      intro n hx
      cases hp : p.entryAt? x with
      | none =>
        rw [entryAt?, hget, show p.get? x.text = none from hp, ite_self, ite_self]
      | some e => rw [entryAt?, hget, if_pos (hunder.2 ⟨⟨e, hp⟩, n, hx⟩), ite_self]
    have hkept : (∀ n, x ≠ .part name n) →
        (p.dropUpload name).entryAt? x = if x = .upload name then none else b.entryAt? x := by
      intro hx
      have hnot : x.text ∉ p.namesUnder (EntryName.parts name) := fun hmem =>
        (hunder.1 hmem).2.elim hx
      rw [entryAt?, hget, if_neg hnot, ← h.entry]
      exact if_congr EntryName.text_inj_iff rfl rfl
    cases x with
    | data k => exact (hkept nofun).trans (if_neg nofun)
    | record k => exact (hkept nofun).trans (if_neg nofun)
    | upload other =>
      rw [hkept nofun]
      by_cases hother : other = name
      · simp [Bucket.entryAt?, Bucket.dropUpload, Table.get?_erase, hother]
      · simp [Bucket.entryAt?, Bucket.dropUpload, Table.get?_erase, hother]
    | part other n =>
      by_cases hother : other = name
      · rw [hgone n (by rw [hother])]
        simp [Bucket.entryAt?, Bucket.dropUpload, Table.get?_erase, hother]
      · rw [hkept (by simp [hother])]
        simp [Bucket.entryAt?, Bucket.dropUpload, Table.get?_erase, hother]
  · intro x e hx
    rw [hget] at hx
    split at hx
    · cases hx
    · split at hx
      · cases hx
      · exact h.named x e hx

theorem finishUpload (h : p.Represents b) (ht : b.Tidy) (name : String) (receipts : List Receipt)
    (minSize : Nat) (options : ObjectOptions) :
    p.Performs (p.finishUpload name receipts minSize options)
      (b.finishUpload name receipts minSize options) := by
  unfold BucketPartition.finishUpload Bucket.finishUpload
  rw [h.upload]
  cases hu : b.upload name with
  | error e => rfl
  | ok u =>
    dsimp only [Except.map, bind, Except.bind]
    by_cases hnil : receipts = []
    · rw [if_pos hnil, if_pos hnil]
      rfl
    · rw [if_neg hnil, if_neg hnil, h.gather (Bucket.upload_eq_ok_iff.1 hu)]
      cases Bucket.assemble u.parts minSize 0 receipts with
      | error e => rfl
      | ok data =>
        exact ⟨rfl, (h.write u.key data _ options).dropUpload (ht.write u.key data _ options) name⟩

theorem discardUpload (h : p.Represents b) (ht : b.Tidy) (name : String) :
    p.Performs (p.discardUpload name) ((b.discardUpload name).map fun b => (b, ())) := by
  unfold BucketPartition.discardUpload Bucket.discardUpload
  rw [h.upload]
  cases b.upload name with
  | error e => rfl
  | ok u => exact ⟨rfl, h.dropUpload ht name⟩

end Represents

end BucketPartition

end ObjectFlush
