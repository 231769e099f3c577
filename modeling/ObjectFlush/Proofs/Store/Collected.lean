import ObjectFlush.Proofs.Store.Assembly
import ObjectFlush.Proofs.Store.Shared

/-!
What a bucket grants to an upload that keeps to the rules. Each part with a number in range is stored, and a
range inside the object is copied; the receipts so far stand for parts that are there (`Bucket.Collects`). From
receipts that are well formed the object is then assembled: `Bucket.Collects.finishUpload`.
-/

namespace ObjectFlush

namespace Bucket

/-- An upload for `key` is in progress, and each receipt stands for a stored part with its `content`; the object
under `key` is still `old`. -/
structure Collects (b : Bucket) (name : String) (key : ObjectKey) (content : Nat → Bytes)
    (old : Option StoredObject) (receipts : List Receipt) : Prop where
  object : b.objects.get? key = old
  upload : ∃ u, b.uploads.get? name = some u ∧ u.key = key ∧
    ∀ r ∈ receipts, u.parts.get? r.number = some (content r.number)
  tags : ∀ r ∈ receipts, r.tag = Digest.tag (content r.number)

variable {b : Bucket} {name : String} {key : ObjectKey} {content : Nat → Bytes} {old : Option StoredObject}
  {receipts : List Receipt} {number : Nat}

theorem collects_startUpload (h : b.objects.get? key = old) (name : String) (content : Nat → Bytes) :
    (b.startUpload name key).Collects name key content old [] :=
  ⟨h, ⟨{ key }, by rw [startUpload, Table.get?_set, if_pos rfl], rfl, List.forall_mem_nil _⟩,
    List.forall_mem_nil _⟩

namespace Collects

theorem perm (h : b.Collects name key content old receipts) {receipts' : List Receipt}
    (hperm : receipts'.Perm receipts) : b.Collects name key content old receipts' := by
  obtain ⟨u, hu, hkey, hstored⟩ := h.upload
  exact ⟨h.object, ⟨u, hu, hkey, fun r hr => hstored r (hperm.mem_iff.1 hr)⟩,
    fun r hr => h.tags r (hperm.mem_iff.1 hr)⟩

/-- A part in range is stored. -/
theorem storePart (h : b.Collects name key content old receipts) (hpos : 0 < number)
    (hmax : number ≤ maxPartNumber) :
    ∃ b', b.storePart name number (content number) = .ok (b', Digest.tag (content number)) ∧
      b'.Collects name key content old (receipts ++ [⟨number, Digest.tag (content number)⟩]) := by
  obtain ⟨u, hu, hkey, hstored⟩ := h.upload
  refine ⟨_, storePart_eq_ok_iff.2 ⟨⟨hpos, hmax⟩, rfl, u, hu, rfl⟩, h.object,
    ⟨{ u with parts := u.parts.set number (content number) }, ?_, hkey, ?_⟩, ?_⟩
  · show Table.get? name (b.uploads.set name _) = _
    rw [Table.get?_set, if_pos rfl]
  · -- The part may be there already, with the same content.
    have hset : ∀ n, n = number ∨ u.parts.get? n = some (content n) →
        Table.get? n (u.parts.set number (content number)) = some (content n) := by
      intro n hn
      rw [Table.get?_set]
      split
      · next heq => rw [heq]
      · next hne => exact hn.resolve_left hne
    exact List.forall_mem_append.2 ⟨fun r hr => hset _ (.inr (hstored r hr)),
      List.forall_mem_singleton.2 (hset _ (.inl rfl))⟩
  · exact List.forall_mem_append.2 ⟨h.tags, List.forall_mem_singleton.2 rfl⟩

/-- A range inside the object is copied. -/
theorem fillPart (h : b.Collects name key content old receipts) (hpos : 0 < number) (hmax : number ≤ maxPartNumber)
    {offset length : Nat} {o : StoredObject} (hold : old = some o) (hlength : 0 < length)
    (hslice : o.data.slice? offset length = some (content number)) :
    ∃ b', b.fillPart name number ⟨key, offset, length⟩ = .ok (b', Digest.tag (content number)) ∧
      b'.Collects name key content old (receipts ++ [⟨number, Digest.tag (content number)⟩]) := by
  have hread : b.read key offset length = .ok (content number) := by
    have hdata : b.data? key = some o.data := by rw [data?, h.object, hold, Option.map_some]
    rw [read, hdata]
    dsimp only
    rw [if_neg (Nat.pos_iff_ne_zero.1 hlength), hslice]
  obtain ⟨b', hb', hcollects⟩ := h.storePart hpos hmax
  refine ⟨b', ?_, hcollects⟩
  rw [Bucket.fillPart, hread]
  exact hb'

/-- From well-formed receipts the object is assembled. -/
theorem finishUpload (h : b.Collects name key content old receipts) (minSize : Nat) (hlisted : receipts ≠ [])
    (hpositive : ∀ r ∈ receipts, 1 ≤ r.number) (hascending : receipts.Pairwise fun r r' => r.number < r'.number)
    (hlarge : ∀ r ∈ receipts.dropLast, minSize ≤ (content r.number).length) (options : ObjectOptions) :
    ∃ b', b.finishUpload name receipts minSize options =
      .ok (b', ⟨key.text, (receipts.map fun r => content r.number).flatten.length, multipartTag receipts⟩) := by
  obtain ⟨u, hu, rfl, hstored⟩ := h.upload
  have hwell : Receipt.WellFormed (fun n data => u.parts.get? n = some data) minSize receipts := by
    refine ⟨hlisted, hpositive, hascending, fun r hr => ⟨_, hstored r hr, (h.tags r hr).symm⟩,
      fun r hr data hdata => ?_⟩
    rw [hstored r (List.dropLast_subset _ hr)] at hdata
    cases hdata
    exact hlarge r hr
  rcases finishUpload_verdict hu receipts minSize options with ⟨-, chunks, hchunks, hok⟩ | ⟨hnot, -⟩
  · have hfound : receipts.map (fun r => u.parts.get? r.number) = chunks.map some := by
      rw [← List.forall₂_eq_eq_eq, List.forall₂_map_left_iff, List.forall₂_map_right_iff]
      exact hchunks
    have hcontent : (receipts.map fun r => content r.number) = chunks := by
      refine List.map_injective_iff.2 (Option.some_injective Bytes) ?_
      rw [← hfound, List.map_map]
      exact List.map_congr_left fun r hr => (hstored r hr).symm
    rw [hcontent]
    exact ⟨_, hok⟩
  · exact absurd hwell hnot

end Collects

end Bucket

namespace LocalEndpoint

/-- The endpoint demands no more than `floor` bytes of a part, and has collected the parts of the receipts. -/
structure Collects (floor : Nat) (name : String) (key : ObjectKey) (content : Nat → Bytes)
    (old : Option StoredObject) (receipts : List Receipt) (e : LocalEndpoint) : Prop where
  floor : e.minPartSize ≤ floor
  bucket : e.bucket.Collects name key content old receipts

theorem Collects.answer {floor : Nat} {name : String} {key : ObjectKey} {content : Nat → Bytes}
    {old : Option StoredObject} {receipts receipts' : List Receipt} {e : LocalEndpoint}
    (h : Collects floor name key content old receipts e) {α : Type} {result : Except StoreError (Bucket × α)}
    {b : Bucket} {a : α} (hresult : result = .ok (b, a)) (hb : b.Collects name key content old receipts') :
    (e.answer result).2 = .ok a ∧ Collects floor name key content old receipts' (e.answer result).1 := by
  rw [hresult]
  exact ⟨rfl, h.floor, hb⟩

end LocalEndpoint

end ObjectFlush
