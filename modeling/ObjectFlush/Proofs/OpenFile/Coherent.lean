import ObjectFlush.FileHandle
import ObjectFlush.Proofs.Dirty.Canonical
import ObjectFlush.Proofs.Plan.Rebuild

/-!
What an open file knows of the stored object (`Coherent`), and that local operations keep it.

  1. A write changes no byte outside the range it marks; the gap that it fills with zeros behind the
     old end is marked with it (`Coherent.write`).
  2. A file that shrinks forgets the dirty bytes it loses, and one that grows marks those it gains
     (`Coherent.truncate`), so that bytes cut off and grown again are never taken for stored ones.
-/

namespace ObjectFlush

/-- What is true of an open file while `stored` is the object under its key. -/
structure Coherent (f : FileHandle) (stored : Option Bytes) : Prop where
  length : f.cache.length = f.size
  limit : f.size ≤ maxFileLength
  canonical : Canonical f.dirty.ranges
  inside : ∀ r ∈ f.dirty.ranges, r.stop ≤ f.size
  /-- Where the file counts on an object, there is one, of the size it takes it to have, and it has
  every byte of the file that is not dirty. -/
  agrees : ∀ n, f.storedSize = some n →
    ∃ bytes, stored = some bytes ∧ bytes.length = n ∧ AgreesOutside f.dirty.ranges f.cache.bytes bytes

namespace Bytes

theorem getElem?_patch {b data : Bytes} {offset o : Nat} (hdata : data ≠ []) (ho : o < b.length)
    (hout : o < offset ∨ offset + data.length ≤ o) : (b.patch offset data)[o]? = b[o]? := by
  have hnonempty : data.isEmpty = false := by cases data <;> simp_all
  rw [patch, hnonempty, if_neg Bool.false_ne_true]
  rcases hout with hlt | hle
  · rw [List.append_assoc, List.append_assoc, List.getElem?_append_left (by simp; omega),
      List.getElem?_take_of_lt hlt]
  · have hfront : (b.take offset ++ zeros (offset - b.length) ++ data).length = offset + data.length := by
      simp; omega
    rw [List.getElem?_append_right (by omega), hfront, List.getElem?_drop,
      Nat.add_sub_cancel' hle]

theorem getElem?_resize {b : Bytes} {n o : Nat} (ho : o < b.length) (hn : o < n) :
    (b.resize n)[o]? = b[o]? := by
  rw [resize, List.getElem?_append_left (by simp; omega), List.getElem?_take_of_lt hn]

end Bytes

namespace Cache

theorem length_bytes (f : Cache) : f.bytes.length = f.length := SparseBytes.length_toBytes f.content

theorem write_eq_ok {f f' : Cache} {offset : Nat} {data : Bytes} (hdata : data ≠ [])
    (h : f.write offset data = .ok f') :
    f'.bytes = f.bytes.patch offset data ∧ offset + data.length ≤ maxFileLength := by
  unfold write at h
  split at h
  · cases h
  · next hle =>
    cases h
    exact ⟨SparseBytes.toBytes_patch .., Nat.not_lt.1 fun hlt => hle ⟨hdata, hlt⟩⟩

theorem setLength_eq_ok {f f' : Cache} {n : Nat} (h : f.setLength n = .ok f') :
    f'.bytes = f.bytes.resize n ∧ n ≤ maxFileLength := by
  unfold setLength at h
  split at h
  · cases h
  · next hle =>
    cases h
    exact ⟨SparseBytes.toBytes_resize .., by omega⟩

/-- A file of a possible length can be read from its start to its end. -/
theorem read_all {f : Cache} (h : f.length ≤ maxFileLength) : f.read 0 f.length = .ok f.bytes := by
  rw [← length_bytes] at h ⊢
  have hf : (FreshContent.file f.source).Holds f.bytes := ⟨rfl, h⟩
  exact LocalFile.read_all hf

end Cache

namespace FileHandle

variable {f f' : FileHandle}

/-- The dirty bytes after a write: its own, those of the gap in front of it, and those before. -/
theorem markWrite_spec (hc : Canonical f.dirty.ranges) {range : DirtyRange} (hrange : 0 < range.size) :
    ∃ dirty, f.markWrite range = .ok dirty ∧ Canonical dirty.ranges ∧
      ∀ o, Dirty dirty.ranges o ↔
        range.Holds o ∨ (f.size ≤ o ∧ o < range.start) ∨ Dirty f.dirty.ranges o := by
  unfold markWrite
  split
  · next hgap =>
    obtain ⟨d₁, h₁, hc₁, hd₁⟩ :=
      DirtySet.mark_spec hc f.size (show 0 < range.start - f.size by omega) range.tag
    obtain ⟨d₂, h₂, hc₂, hd₂⟩ := DirtySet.mark_spec hc₁ range.start hrange range.tag
    refine ⟨d₂, ?_, hc₂, fun o => ?_⟩
    · rw [h₁]; exact h₂
    · rw [hd₂, hd₁, Nat.add_sub_cancel' (Nat.le_of_lt hgap)]
      exact Iff.rfl
  · next hgap =>
    obtain ⟨d₂, h₂, hc₂, hd₂⟩ := DirtySet.mark_spec hc range.start hrange range.tag
    refine ⟨d₂, h₂, hc₂, fun o => ?_⟩
    rw [hd₂]
    constructor
    · intro h
      rcases h with hin | hd
      · exact .inl hin
      · exact .inr (.inr hd)
    · intro h
      rcases h with hin | ⟨hle, hlt⟩ | hd
      · exact .inl hin
      · omega
      · exact .inr hd

/-- What an accepted write of at least one byte does. -/
theorem write_eq_ok {offset : Int} {data : Bytes} {n : Nat} (hdata : data ≠ [])
    (h : f.write offset data = .ok (f', n)) :
    ∃ range cache dirty, range.start = offset.toNat ∧ range.size = data.length ∧
      f.cache.write range.start data = .ok cache ∧ f.markWrite range = .ok dirty ∧
      f' = { f with cache, dirty, size := max f.size range.stop, changes := range.tag } := by
  unfold write at h
  rw [if_neg hdata] at h
  cases hr : DirtyRange.new offset data.length (f.changes + 1) with
  | error e => rw [hr] at h; cases h
  | ok range =>
    rw [hr] at h
    have hrange : range.start = offset.toNat ∧ range.size = data.length := by
      unfold DirtyRange.new at hr
      split at hr
      · cases hr
      · cases hr
        exact ⟨rfl, Int.toNat_natCast _⟩
    cases hw : f.cache.write range.start data with
    | error e => simp [Except.mapError, bind, Except.bind, hw] at h
    | ok cache =>
      cases hm : f.markWrite range with
      | error e => simp [Except.mapError, bind, Except.bind, hw, hm] at h
      | ok dirty =>
        simp only [Except.mapError, bind, Except.bind, hw, hm] at h
        cases h
        exact ⟨range, cache, dirty, hrange.1, hrange.2, hw, hm, rfl⟩

theorem key_write {offset : Int} {data : Bytes} {n : Nat} (h : f.write offset data = .ok (f', n)) :
    f'.key = f.key := by
  by_cases hdata : data = []
  · rw [write, if_pos hdata] at h
    cases h
    rfl
  · obtain ⟨range, cache, dirty, -, -, -, -, rfl⟩ := write_eq_ok hdata h
    rfl

/-- What an accepted change of the size does. -/
theorem truncate_eq_ok {n : Nat} (h : f.truncate n = .ok f') :
    f.cache.setLength n = .ok f'.cache ∧ f'.key = f.key ∧ f'.size = n ∧
      f'.storedSize = f.storedSize ∧
      ((n < f.size ∧ f'.dirty = f.dirty.truncate n) ∨
        (f.size < n ∧ ∃ tag, f.dirty.mark f.size (n - f.size : Nat) tag = .ok f'.dirty) ∨
        (n = f.size ∧ f'.dirty = f.dirty)) := by
  unfold truncate at h
  cases hc : f.cache.setLength n with
  | error e => rw [hc] at h; cases h
  | ok cache =>
    simp only [hc, Except.mapError, bind, Except.bind] at h
    split at h
    · next hlt =>
      cases h
      exact ⟨rfl, rfl, rfl, rfl, .inl ⟨hlt, rfl⟩⟩
    · next hge =>
      split at h
      · next hlt =>
        cases hm : f.dirty.mark f.size (n - f.size : Nat) (f.changes + 1) with
        | error e => rw [hm] at h; cases h
        | ok dirty =>
          rw [hm] at h
          cases h
          exact ⟨rfl, rfl, rfl, rfl, .inr (.inl ⟨hlt, _, hm⟩)⟩
      · next hle =>
        cases h
        have heq : n = f.size := by omega
        exact ⟨rfl, rfl, heq.symm, rfl, .inr (.inr ⟨heq, rfl⟩)⟩

end FileHandle

namespace Coherent

variable {f f' : FileHandle} {stored : Option Bytes}

theorem length_bytes (h : Coherent f stored) : f.cache.bytes.length = f.size :=
  f.cache.length_bytes.trans h.length

/-- The whole file can be read. -/
theorem read_all (h : Coherent f stored) : f.read 0 f.size = .ok f.cache.bytes := by
  have hread := Cache.read_all (h.length ▸ h.limit)
  simp only [FileHandle.read, Nat.sub_zero, Nat.min_self]
  split
  · next h₀ =>
    have hlen := h.length_bytes
    rw [h₀, List.length_eq_zero_iff] at hlen
    rw [hlen]
  · rw [← h.length, hread]
    rfl

/-- No byte past the end is dirty. -/
theorem dirty_lt (h : Coherent f stored) {o : Nat} (ho : Dirty f.dirty.ranges o) : o < f.size := by
  obtain ⟨r, hr, -, hlt⟩ := ho
  exact Nat.lt_of_lt_of_le hlt (h.inside r hr)

/-- A range whose bytes all lie below `n` ends at or before it. -/
theorem inside_of_dirty {ranges : List DirtyRange} {n : Nat} (hc : Canonical ranges)
    (h : ∀ o, Dirty ranges o → o < n) : ∀ r ∈ ranges, r.stop ≤ n := by
  intro r hr
  have hsize := hc.nonempty r hr
  have hlast := h (r.start + r.size - 1) ⟨r, hr, by omega, by simp only [DirtyRange.stop]; omega⟩
  simp only [DirtyRange.stop]; omega

/-- A change of the file keeps it coherent if every byte that stays clean was clean before and keeps
its value. -/
theorem change (h : Coherent f stored) (hsize : f'.cache.bytes.length = f'.size)
    (hlimit : f'.size ≤ maxFileLength) (hcanonical : Canonical f'.dirty.ranges)
    (hdirty : ∀ o, Dirty f'.dirty.ranges o → o < f'.size) (hstored : f'.storedSize = f.storedSize)
    (hclean : ∀ o < f'.size, ¬Dirty f'.dirty.ranges o →
      o < f.size ∧ ¬Dirty f.dirty.ranges o ∧ f'.cache.bytes[o]? = f.cache.bytes[o]?) :
    Coherent f' stored := by
  refine ⟨?_, hlimit, hcanonical, inside_of_dirty hcanonical hdirty, ?_⟩
  · rw [← Cache.length_bytes]
    exact hsize
  · intro n hn
    rw [hstored] at hn
    obtain ⟨bytes, hbytes, hlen, hagree⟩ := h.agrees n hn
    refine ⟨bytes, hbytes, hlen, ?_⟩
    intro o ho hno
    rw [hsize] at ho
    obtain ⟨hlt, hno', heq⟩ := hclean o ho hno
    rw [← h.length_bytes] at hlt
    rw [heq]
    exact hagree o hlt hno'

theorem write (h : Coherent f stored) {offset : Int} {data : Bytes} {n : Nat}
    (hw : f.write offset data = .ok (f', n)) : Coherent f' stored := by
  by_cases hdata : data = []
  · rw [FileHandle.write, if_pos hdata] at hw
    cases hw
    exact h
  · obtain ⟨range, cache, dirty, -, hsize, hcache, hmark, rfl⟩ := FileHandle.write_eq_ok hdata hw
    obtain ⟨hbytes, hmax⟩ := Cache.write_eq_ok hdata hcache
    have hpos : 0 < range.size := by
      rw [hsize]
      exact List.length_pos_iff.2 hdata
    obtain ⟨dirty', hmark', hc, hd⟩ := FileHandle.markWrite_spec h.canonical hpos
    obtain rfl : dirty = dirty' := by
      rw [hmark] at hmark'
      exact Except.ok.inj hmark'
    have hold := h.length_bytes
    have hstop : range.stop = range.start + data.length := by rw [DirtyRange.stop, hsize]
    refine h.change ?_ ?_ hc ?_ rfl ?_
    · show cache.bytes.length = max f.size range.stop
      rw [hbytes, Bytes.length_patch hdata, hold, hstop]
    · show max f.size range.stop ≤ maxFileLength
      have := h.limit
      omega
    · intro o ho
      show o < max f.size range.stop
      rcases (hd o).1 ho with ⟨-, hlt⟩ | ⟨-, hlt⟩ | hbefore
      · omega
      · omega
      · have := h.dirty_lt hbefore
        omega
    · intro o ho hclean
      -- A byte that is clean now lies neither in the range nor in the gap before it.
      rw [hd, not_or, not_or] at hclean
      obtain ⟨hout, hgap, hbefore⟩ := hclean
      have ho : o < max f.size range.stop := ho
      simp only [DirtyRange.Holds] at hout
      have hlt : o < f.size := by omega
      refine ⟨hlt, hbefore, ?_⟩
      show cache.bytes[o]? = f.cache.bytes[o]?
      rw [hbytes, Bytes.getElem?_patch hdata (by omega) (by omega)]

theorem truncate (h : Coherent f stored) {n : Nat} (ht : f.truncate n = .ok f') :
    Coherent f' stored := by
  obtain ⟨hcache, -, hsize, hstored, hcases⟩ := FileHandle.truncate_eq_ok ht
  obtain ⟨hbytes, hmax⟩ := Cache.setLength_eq_ok hcache
  have hold := h.length_bytes
  have hlength : f'.cache.bytes.length = f'.size := by
    rw [hbytes, Bytes.length_resize, hsize]
  have hkept : ∀ o < f'.size, o < f.size → f'.cache.bytes[o]? = f.cache.bytes[o]? := by
    intro o ho hlt
    rw [hbytes, Bytes.getElem?_resize (by omega) (by omega)]
  rcases hcases with ⟨hlt, hdirty⟩ | ⟨hlt, tag, hmark⟩ | ⟨heq, hdirty⟩
  · have hd := dirty_truncate h.canonical n
    rw [← hdirty] at hd
    refine h.change hlength (by omega) ?_ ?_ hstored ?_
    · rw [hdirty]
      exact h.canonical.truncate n
    · intro o ho
      rw [hsize]
      exact ((hd o).1 ho).2
    · intro o ho hclean
      -- A byte below the new end was dirty before if it is dirty now, and the other way round.
      rw [hd, hsize.symm] at hclean
      exact ⟨by omega, fun hb => hclean ⟨hb, ho⟩, hkept o ho (by omega)⟩
  · obtain ⟨dirty, hmark', hc, hd⟩ :=
      DirtySet.mark_spec h.canonical f.size (show 0 < n - f.size by omega) tag
    obtain rfl : f'.dirty = dirty := by
      rw [hmark] at hmark'
      exact Except.ok.inj hmark'
    refine h.change hlength (by omega) hc ?_ hstored ?_
    · intro o ho
      rcases (hd o).1 ho with ⟨-, hlt⟩ | hbefore
      · omega
      · have := h.dirty_lt hbefore
        omega
    · intro o ho hclean
      -- Every byte behind the old end is dirty, also one that is stored from before the file shrank.
      rw [hd, not_or] at hclean
      obtain ⟨hgrown, hbefore⟩ := hclean
      have hlt : o < f.size := by omega
      exact ⟨hlt, hbefore, hkept o ho hlt⟩
  · refine h.change hlength (by omega) ?_ ?_ hstored ?_
    · rw [hdirty]
      exact h.canonical
    · intro o ho
      rw [hdirty] at ho
      have := h.dirty_lt ho
      omega
    · intro o ho hclean
      rw [hdirty] at hclean
      exact ⟨by omega, hclean, hkept o ho (by omega)⟩

/-- Once the object holds the file, nothing of it is dirty. -/
theorem flushed (h : Coherent f stored) : Coherent f.flushed (some f.cache.bytes) := by
  refine ⟨h.length, h.limit, .nil, by simp [FileHandle.flushed], ?_⟩
  intro n hn
  refine ⟨f.cache.bytes, rfl, ?_, fun o ho _ => ⟨ho, rfl⟩⟩
  rw [h.length_bytes]
  exact Option.some.inj hn

/-- A file that needs no flush is the stored object. -/
theorem stored_of_clean (h : Coherent f stored) (hclean : f.needsFlush = false) :
    stored = some f.cache.bytes := by
  simp only [FileHandle.needsFlush, Bool.or_eq_false_iff, Bool.not_eq_false', decide_eq_false_iff_not,
    ne_eq, not_not, DirtySet.isEmpty, List.isEmpty_iff] at hclean
  obtain ⟨hdirty, hsize⟩ := hclean
  obtain ⟨bytes, hbytes, hlen, hagree⟩ := h.agrees _ hsize
  rw [hbytes]
  congr 1
  apply List.ext_getElem?
  intro o
  by_cases ho : o < f.cache.bytes.length
  · exact (hagree o ho (by simp [hdirty])).2.symm
  · have hold := h.length_bytes
    rw [List.getElem?_eq_none (by omega), List.getElem?_eq_none (by omega)]

end Coherent

end ObjectFlush
