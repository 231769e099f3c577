import Mathlib.Data.List.Forall2
import Mathlib.Data.List.Nodup
import ObjectFlush.Proofs.Plan.Rebuild

/-!
Bytes put together from the parts of a plan, where all that is known of a part is which bytes may stand at
each of its places. Unlike for a plan that rebuilds a file, the local bytes may be wrong or missing, and the
stored object may be any: what can be read, and what can be copied, is what comes to stand there
(`WellPlanned.fills_flatten`).
-/

namespace ObjectFlush

/-- All that can be read of local bytes. -/
def LocalFile.bytes : LocalFile → Bytes
  | .disk content => content.toBytes
  | .directory _ => []
  | .memory bytes => bytes

def FreshContent.bytes : FreshContent → Bytes
  | .file f => f.bytes
  | .buffer data => data

/-- `len` bytes for the places from `offset` on, where `May i x` allows the byte `x` at `i`. -/
def Bytes.Fills (May : Nat → UInt8 → Prop) (offset len : Nat) (data : Bytes) : Prop :=
  data.length = len ∧ ∀ (i : Nat) x, data[i]? = some x → May (offset + i) x

variable {May : Nat → UInt8 → Prop}

namespace Bytes

/-- Bytes that are taken from a place stand there again. -/
theorem fills_slice? {b data : Bytes} {offset len : Nat} (h : b.slice? offset len = some data)
    (hmay : ∀ i x, offset ≤ i → i < offset + len → b[i]? = some x → May i x) :
    Fills May offset len data := by
  obtain ⟨hle, rfl⟩ := Bytes.slice?_eq_some_iff.1 h
  refine ⟨length_slice hle, ?_⟩
  intro i x hx
  rw [← slice, getElem?_slice] at hx
  split at hx
  · exact hmay _ _ (by omega) (by omega) hx
  · cases hx

theorem eq_take_of_fills {b data : Bytes} {len : Nat} (h : Fills (fun i x => b[i]? = some x) 0 len data) :
    data = b.take len := by
  obtain ⟨hlength, hbytes⟩ := h
  refine List.ext_getElem? fun i => ?_
  rw [List.getElem?_take]
  split
  · next hi =>
    have hget := List.getElem?_eq_getElem (l := data) (hlength ▸ hi)
    have hb := hbytes i data[i] hget
    rw [Nat.zero_add] at hb
    rw [hget, hb]
  · next hi => exact List.getElem?_eq_none (by omega)

theorem eq_of_fills {b data : Bytes} (h : Fills (fun i x => b[i]? = some x) 0 b.length data) : data = b :=
  (eq_take_of_fills h).trans b.take_length

theorem fills_nil (May : Nat → UInt8 → Prop) (offset : Nat) : Fills May offset 0 [] :=
  ⟨rfl, fun _ _ h => by cases h⟩

/-- Bytes for consecutive spans, put together, are bytes for all of them. -/
theorem fills_flatten {start stop : Nat} {spans : List (Nat × Nat)} (h : Tiles start stop spans)
    {chunks : List Bytes}
    (hchunks : List.Forall₂ (fun (s : Nat × Nat) => Fills May s.1 (s.2 - s.1)) spans chunks) :
    Fills May start (stop - start) chunks.flatten := by
  induction hchunks generalizing start with
  | nil =>
    obtain rfl : start = stop := h
    rw [Nat.sub_self]
    exact fills_nil May start
  | @cons s chunk spans chunks hchunk _ ih =>
    obtain ⟨rfl, hse, hrest⟩ := h
    obtain ⟨hlength, hbytes⟩ := hchunk
    obtain ⟨hrestLength, hrestBytes⟩ := ih hrest
    have hstop := hrest.le
    refine ⟨?_, ?_⟩
    · rw [List.flatten_cons, List.length_append, hlength, hrestLength]
      omega
    · intro i x hx
      rw [List.flatten_cons] at hx
      rcases Nat.lt_or_ge i chunk.length with hlt | hge
      · rw [List.getElem?_append_left hlt] at hx
        exact hbytes i x hx
      · rw [List.getElem?_append_right hge] at hx
        have hplace : s.2 + (i - chunk.length) = s.1 + i := by omega
        rw [← hplace]
        exact hrestBytes _ x hx

end Bytes

/-- What can be read fills its place with the local bytes. -/
theorem LocalFile.fills_read {f : LocalFile} {offset len : Nat} {data : Bytes}
    (h : f.read offset len = .ok data) (hmay : ∀ i x, f.bytes[i]? = some x → May i x) :
    Bytes.Fills May offset len data := by
  have hslice : ∀ b : Bytes, b.slice? offset len = some data → (∀ i x, b[i]? = some x → May i x) →
      Bytes.Fills May offset len data :=
    fun b hb hb' => Bytes.fills_slice? hb fun i x _ _ hx => hb' i x hx
  cases f with
  | directory size =>
    simp only [read] at h
    split at h
    · next hlen => cases h; rw [hlen]; exact Bytes.fills_nil May offset
    · cases h
  | memory bytes =>
    simp only [read] at h
    split at h
    · next hb => cases h; exact hslice bytes hb hmay
    · cases h
  | disk content =>
    simp only [read] at h
    split at h
    · next hlen => cases h; rw [hlen]; exact Bytes.fills_nil May offset
    · split at h
      · cases h
      · split at h
        · next hb =>
          cases h
          rw [SparseBytes.slice?_eq] at hb
          exact hslice content.toBytes hb hmay
        · cases h

/-- A part that is read fills its place with the fresh bytes. -/
theorem Portion.fills_read_bind {p : Portion} {source : FreshContent} {key : ObjectKey} {data : Bytes}
    (h : (p.bind source key).read = .ok data) (hmay : ∀ i x, source.bytes[i]? = some x → May i x) :
    Bytes.Fills May p.offset p.size data := by
  cases hk : p.kind with
  | copy => simp [BoundPart.read, p.source_bind_copy hk] at h
  | upload =>
    cases source with
    | file f =>
      simp only [bind, BoundPart.read, hk] at h
      exact LocalFile.fills_read h hmay
    | buffer bytes =>
      simp only [bind, BoundPart.read, hk] at h
      split at h
      · next hb => cases h; exact Bytes.fills_slice? hb fun i x _ _ hx => hmay i x hx
      · cases h

/-- The bytes fill the place of the part of that number. -/
def FillsPart (May : Nat → UInt8 → Prop) (parts : List Portion) (number : Nat) (data : Bytes) : Prop :=
  ∃ p ∈ parts, p.number = number ∧ Bytes.Fills May p.offset p.size data

/-- The numbers of a plan tell its parts apart. -/
theorem WellPlanned.nodup_numbers {size : Nat} {ranges : List DirtyRange} {b : PartBounds}
    {parts : List Portion} (h : WellPlanned size ranges b parts) : (parts.map (·.number)).Nodup := by
  rw [h.numbers]
  exact List.nodup_range'

/-- Bytes for all parts, in the order of their numbers, fill the whole object. -/
theorem WellPlanned.fills_flatten {size : Nat} {ranges : List DirtyRange} {b : PartBounds}
    {parts : List Portion} (h : WellPlanned size ranges b parts) {chunks : List Bytes}
    (hchunks : List.Forall₂ (FillsPart May parts) (parts.map (·.number)) chunks) :
    Bytes.Fills May 0 size chunks.flatten := by
  -- The number of a part is that of no other part.
  have hself : List.Forall₂ (fun (p : Portion) => Bytes.Fills May p.offset p.size) parts chunks := by
    rw [List.forall₂_map_left_iff] at hchunks
    have hmem : ∀ p ∈ parts, p ∈ parts := fun _ hp => hp
    refine ((List.forall₂_and_left ..).2 ⟨hmem, hchunks⟩).imp ?_
    intro p chunk h
    obtain ⟨hp, q, hq, hnumber, hfills⟩ := h
    rwa [List.inj_on_of_nodup_map h.nodup_numbers hq hp hnumber] at hfills
  have hspans : List.Forall₂ (fun (s : Nat × Nat) => Bytes.Fills May s.1 (s.2 - s.1))
      (parts.map Portion.span) chunks := by
    rw [List.forall₂_map_left_iff]
    refine hself.imp fun p chunk hfills => ?_
    show Bytes.Fills May p.offset (p.stop - p.offset) chunk
    rwa [Portion.stop, Nat.add_sub_cancel_left]
  have hall := Bytes.fills_flatten h.tiles hspans
  rwa [Nat.sub_zero] at hall

end ObjectFlush
