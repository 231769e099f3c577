import ObjectFlush.Cache
import ObjectFlush.Proofs.Part.DiskRead

/-!
The places from which a part can read its bytes.

  1. In memory the bounds of a range are checked in words of 64 bits: its end is added up, which may leave the words,
     and then compared with the length. No bytes in memory are as many as there are words, and so this finds what
     `Bytes.slice?` finds (`checkedSlice?_eq`).
  2. Each place answers what `Bytes.slice?` finds, or an error of its own (`BoundPart.read_buffer`,
     `BoundPart.read_memory`, `BoundPart.read_disk`).
  3. So the places agree about every range that is not empty: all of them give its bytes, or all of them fail
     (`local_sources_agree`).
-/

namespace ObjectFlush

/-! ## Bounds in words -/

/-- Where a range ends, if that is a word. A sum past the last word wraps around and is less than either summand. -/
def rangeStop? (offset len : UInt64) : Option UInt64 :=
  if offset + len < offset then none else some (offset + len)

namespace Bytes

/-- The bytes from `start` on and before `stop`, if these are bounds of a range inside. -/
def between? (b : Bytes) (start stop : UInt64) : Option Bytes :=
  if start ≤ stop ∧ stop.toNat ≤ b.length then some ((b.take stop.toNat).drop start.toNat) else none

/-- The `len` bytes at `offset`, if this range has an end and lies inside. -/
def checkedSlice? (b : Bytes) (offset len : UInt64) : Option Bytes :=
  (rangeStop? offset len).bind (b.between? offset)

end Bytes

theorem rangeStop?_of_lt {offset len : UInt64} (h : offset.toNat + len.toNat < UInt64.size) :
    rangeStop? offset len = some (offset + len) := by
  rw [rangeStop?, if_neg]
  rw [UInt64.lt_iff_toNat_lt, UInt64.toNat_add, Nat.mod_eq_of_lt h]
  exact Nat.not_lt.2 (Nat.le_add_right _ _)

theorem rangeStop?_of_le {offset len : UInt64} (h : UInt64.size ≤ offset.toNat + len.toNat) :
    rangeStop? offset len = none := by
  have hoffset : offset.toNat < UInt64.size := offset.toNat_lt
  have hlen : len.toNat < UInt64.size := len.toNat_lt
  rw [rangeStop?, if_pos]
  rw [UInt64.lt_iff_toNat_lt, UInt64.toNat_add]
  simp only [UInt64.size] at *
  omega

theorem Bytes.checkedSlice?_eq {b : Bytes} (hb : b.length < UInt64.size) (offset len : UInt64) :
    b.checkedSlice? offset len = b.slice? offset.toNat len.toNat := by
  obtain hword | hwrap := Nat.lt_or_ge (offset.toNat + len.toNat) UInt64.size
  · have hstop : (offset + len).toNat = offset.toNat + len.toNat := by
      rw [UInt64.toNat_add, Nat.mod_eq_of_lt hword]
    have hle : offset ≤ offset + len := by
      rw [UInt64.le_iff_toNat_le, hstop]
      exact Nat.le_add_right _ _
    rw [checkedSlice?, rangeStop?_of_lt hword, Option.bind_some, between?, slice?, hstop, List.drop_take,
      Nat.add_sub_cancel_left]
    simp only [hle, true_and]
  · -- a range without an end reaches behind any bytes
    rw [checkedSlice?, rangeStop?_of_le hwrap, Option.bind_none, slice?_of_not_le (by omega)]

/-! ## Each place -/

namespace BoundPart

variable {data : Bytes} {number start size : Nat}

theorem read_buffer :
    (⟨number, size, .buffer data start⟩ : BoundPart).read =
      (data.slice? start size).elim (.error .shortBuffer) .ok := by
  simp only [read]
  cases data.slice? start size <;> rfl

theorem read_memory :
    (⟨number, size, .file (.memory data) start⟩ : BoundPart).read =
      (data.slice? start size).elim (.error .pastEnd) .ok := by
  simp only [read, LocalFile.read]
  cases data.slice? start size <;> rfl

/-- A file on disk has no bytes past the longest length, so it does not matter that this is checked first. -/
theorem read_disk {file : SparseBytes} (hfile : file.toBytes = data) (hmax : data.length ≤ maxFileLength)
    (hsize : 0 < size) :
    (⟨number, size, .file (.disk file) start⟩ : BoundPart).read =
      (data.slice? start size).elim
        (.error (if maxFileLength < start + size then .offsetTooLarge else .shortFile)) .ok := by
  simp only [read]
  rw [LocalFile.read_disk hsize, ← SparseBytes.length_toBytes, hfile]
  by_cases hin : start + size ≤ data.length
  · rw [if_neg (by omega), if_pos hin, Bytes.slice?_of_le hin]
    rfl
  · rw [if_neg hin, Bytes.slice?_of_not_le hin]
    exact (apply_ite Except.error _ _ _).symm

theorem read_copy {p : BoundPart} (h : p.source.isCopy) : p.read = .error .noLocalBytes := by
  obtain ⟨number, size, source⟩ := p
  cases source with
  | copy range => rfl
  | file f offset => cases h
  | buffer data cursor => cases h

end BoundPart

/-- A part gives the same bytes from a buffer, a file in memory, a file on disk and a cache that hold the same, or it
fails from each of them: just where it ends behind the last byte, also where its end is no word any more. The bounds of
the first two may be checked in words, and a file on disk may be read by any calls. A part that the store copies gives
nothing. Neither memory nor a file holds more than `maxFileLength` bytes. -/
theorem local_sources_agree {data : Bytes} (hmax : data.length ≤ maxFileLength) {file : SparseBytes}
    (hfile : file.toBytes = data) {cache : Cache} (hcache : cache.bytes = data) (number : Nat) (offset size : UInt64)
    (hsize : 0 < size) :
    let start := offset.toNat
    let len := size.toNat
    let buffer : BoundPart := ⟨number, len, .buffer data start⟩
    let memory : BoundPart := ⟨number, len, .file (.memory data) start⟩
    let disk : BoundPart := ⟨number, len, .file (.disk file) start⟩
    let cached : BoundPart := ⟨number, len, .file cache.source start⟩
    let bytes := (data.drop start).take len
    let behind : FileError := if maxFileLength < start + len then .offsetTooLarge else .shortFile
    (start + len ≤ data.length →
      buffer.read = .ok bytes ∧ memory.read = .ok bytes ∧ disk.read = .ok bytes ∧ cached.read = .ok bytes) ∧
    (data.length < start + len →
      buffer.read = .error .shortBuffer ∧ memory.read = .error .pastEnd ∧
        disk.read = .error behind ∧ cached.read = .error behind) ∧
    buffer.read = (data.checkedSlice? offset size).elim (.error .shortBuffer) .ok ∧
    memory.read = (data.checkedSlice? offset size).elim (.error .pastEnd) .ok ∧
    (∀ r, Fetches file start len r ↔ r = disk.read) ∧
    ∀ p : BoundPart, p.source.isCopy → p.read = .error .noLocalBytes := by
  intro start len buffer memory disk cached bytes behind
  have hlen : 0 < len := UInt64.lt_iff_toNat_lt.1 hsize
  have hwords : data.checkedSlice? offset size = data.slice? start len :=
    Bytes.checkedSlice?_eq (Nat.lt_of_le_of_lt hmax (by decide)) offset size
  have hbuffer : buffer.read = (data.slice? start len).elim (.error .shortBuffer) .ok := BoundPart.read_buffer
  have hmemory : memory.read = (data.slice? start len).elim (.error .pastEnd) .ok := BoundPart.read_memory
  have hdisk : disk.read = (data.slice? start len).elim (.error behind) .ok := BoundPart.read_disk hfile hmax hlen
  have hcached : cached.read = (data.slice? start len).elim (.error behind) .ok := BoundPart.read_disk hcache hmax hlen
  rw [hwords]
  refine ⟨fun hin => ?_, fun hout => ?_, hbuffer, hmemory, fun r => fetches_iff, fun p => BoundPart.read_copy⟩
  · rw [Bytes.slice?_of_le hin] at hbuffer hmemory hdisk hcached
    exact ⟨hbuffer, hmemory, hdisk, hcached⟩
  · rw [Bytes.slice?_of_not_le (Nat.not_le.2 hout)] at hbuffer hmemory hdisk hcached
    exact ⟨hbuffer, hmemory, hdisk, hcached⟩

/-- A file with a hole is read up to its end from each place. A range without an end is read from none, although its
bounds add up to an offset inside of the file. -/
theorem bounds_checked_alike :
    let data : Bytes := [1, 2, 0, 0, 0, 3]
    let file : SparseBytes := [.data [1, 2], .hole 3, .data [3]]
    let cache := Cache.ofBytes data
    let read (source : PartContent) := (⟨1, 4, source⟩ : BoundPart).read
    data.length ≤ maxFileLength ∧ file.toBytes = data ∧ cache.bytes = data ∧ (0 : UInt64) < 4 ∧
      (read (.buffer data 2) = .ok [0, 0, 0, 3] ∧ read (.file (.memory data) 2) = .ok [0, 0, 0, 3] ∧
        read (.file (.disk file) 2) = .ok [0, 0, 0, 3] ∧ read (.file cache.source 2) = .ok [0, 0, 0, 3]) ∧
      (0xffffffffffffffff + 4 : UInt64) = 3 ∧
      (read (.buffer data 0xffffffffffffffff) = .error .shortBuffer ∧
        read (.file (.memory data) 0xffffffffffffffff) = .error .pastEnd ∧
        read (.file (.disk file) 0xffffffffffffffff) = .error .offsetTooLarge ∧
        read (.file cache.source 0xffffffffffffffff) = .error .offsetTooLarge) := by
  intro data file cache read
  have hmax : data.length ≤ maxFileLength := by decide
  have hfile : file.toBytes = data := rfl
  have hcache : cache.bytes = data := rfl
  have hsize : (0 : UInt64) < 4 := by decide
  have hinside := (local_sources_agree hmax hfile hcache 1 2 4 hsize).1 (by decide)
  have hbehind := (local_sources_agree hmax hfile hcache 1 0xffffffffffffffff 4 hsize).2.1 (by decide)
  exact ⟨hmax, hfile, hcache, hsize, hinside, by decide, hbehind⟩

/-- A part of no bytes is where the places differ: a file on disk may be asked for it anywhere. -/
example : (⟨1, 0, .file (.disk (.ofBytes [7])) 2⟩ : BoundPart).read = .ok [] ∧
    (⟨1, 0, .buffer [7] 2⟩ : BoundPart).read = .error .shortBuffer := ⟨rfl, rfl⟩

end ObjectFlush
