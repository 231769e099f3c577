import ObjectFlush.Proofs.Plan.Rebuild

/-!
A file on disk is read by calls. A call may give only the first few of the bytes it asks for, and it may be interrupted;
so the rest is asked for until all the bytes have come or no more do. What this comes to does not depend on what each
call gives: it is what `LocalFile.read` says of the file (`fetches_iff`).
-/

namespace ObjectFlush

/-- What a call for the `len` bytes at `offset` can come back with. -/
inductive ReadAnswer (f : SparseBytes) (offset len : Nat) : Except FileError Bytes → Prop
  /-- Those of the bytes that the file has, or only the first of them. -/
  | given {data : Bytes} (hmax : offset + len ≤ maxFileLength) (hfront : data <+: f.toBytes.slice offset len)
      (hsome : f.toBytes.slice offset len ≠ [] → data ≠ []) : ReadAnswer f offset len (.ok data)
  | interrupted : ReadAnswer f offset len (.error (.os .interruptedCall))
  /-- No file is long enough to have them. -/
  | refused (hmax : maxFileLength < offset + len) : ReadAnswer f offset len (.error .offsetTooLarge)

/-- What it comes to when the `len` bytes at `offset` are asked for, call by call. -/
inductive Fetches (f : SparseBytes) : Nat → Nat → Except FileError Bytes → Prop
  | nothing (offset : Nat) : Fetches f offset 0 (.ok [])
  /-- Some bytes have come, and the others are asked for. -/
  | more {offset len : Nat} {data : Bytes} {r : Except FileError Bytes} (hlen : 0 < len)
      (hanswer : ReadAnswer f offset len (.ok data)) (hdata : data ≠ [])
      (hrest : Fetches f (offset + data.length) (len - data.length) r) : Fetches f offset len (r.map (data ++ ·))
  /-- No bytes have come, so the file ends here. -/
  | ended {offset len : Nat} (hlen : 0 < len) (hanswer : ReadAnswer f offset len (.ok [])) :
      Fetches f offset len (.error .shortFile)
  | again {offset len : Nat} {e : FileError} {r : Except FileError Bytes} (hlen : 0 < len)
      (hanswer : ReadAnswer f offset len (.error e)) (hkind : e.kind = .interrupted) (hrest : Fetches f offset len r) :
      Fetches f offset len r
  | failed {offset len : Nat} {e : FileError} (hlen : 0 < len) (hanswer : ReadAnswer f offset len (.error e))
      (hkind : e.kind ≠ .interrupted) : Fetches f offset len (.error e)

variable {f : SparseBytes} {offset len : Nat} {data : Bytes}

namespace Bytes

variable {b : Bytes}

/-- Behind its first bytes a slice goes on as the slice from there. -/
theorem slice_eq_append (h : data <+: b.slice offset len) :
    b.slice offset len = data ++ b.slice (offset + data.length) (len - data.length) := by
  calc b.slice offset len
      = (b.slice offset len).take data.length ++ (b.slice offset len).drop data.length :=
        (List.take_append_drop _ _).symm
    _ = data ++ (b.slice offset len).drop data.length := by rw [← List.prefix_iff_eq_take.1 h]
    _ = data ++ b.slice (offset + data.length) (len - data.length) := by
        rw [slice, List.drop_take, List.drop_drop, slice]

theorem slice_eq_nil_iff (hlen : 0 < len) : b.slice offset len = [] ↔ b.length ≤ offset := by
  rw [slice, List.take_eq_nil_iff, List.drop_eq_nil_iff]
  omega

theorem slice?_of_not_le (h : ¬offset + len ≤ b.length) : b.slice? offset len = none := by
  rw [slice?, if_neg h]

end Bytes

namespace LocalFile

theorem read_disk (hlen : 0 < len) :
    (disk f).read offset len =
      if maxFileLength < offset + len then .error .offsetTooLarge
      else if offset + len ≤ f.size then .ok (f.toBytes.slice offset len)
      else .error .shortFile := by
  rw [read, if_neg (Nat.ne_of_gt hlen), SparseBytes.slice?_eq, ← SparseBytes.length_toBytes]
  by_cases hin : offset + len ≤ f.toBytes.length
  · rw [if_pos hin, Bytes.slice?_of_le hin]
  · rw [if_neg hin, Bytes.slice?_of_not_le hin]

/-- The step of the calls: bytes that have come stand in front of what the read of the others gives. -/
theorem read_disk_after (hlen : 0 < len) (hmax : offset + len ≤ maxFileLength)
    (hfront : data <+: f.toBytes.slice offset len) :
    (disk f).read offset len = ((disk f).read (offset + data.length) (len - data.length)).map (data ++ ·) := by
  have hslice := Bytes.slice_eq_append hfront
  have hle : data.length ≤ min len (f.size - offset) := by
    simpa [Bytes.slice] using hfront.length_le
  have hstop : offset + data.length + (len - data.length) = offset + len := by omega
  rw [read_disk hlen, if_neg (Nat.not_lt.2 hmax), hslice]
  obtain hrest | hrest := Nat.eq_zero_or_pos (len - data.length)
  · rw [if_pos (by omega), hrest]
    rfl
  · rw [read_disk hrest, hstop, if_neg (Nat.not_lt.2 hmax)]
    split <;> rfl

end LocalFile

/-! ## The calls -/

theorem Fetches.eq_read {r : Except FileError Bytes} (h : Fetches f offset len r) :
    r = (LocalFile.disk f).read offset len := by
  induction h with
  | nothing offset => rfl
  | more hlen hanswer _ _ ih =>
    cases hanswer with
    | given hmax hfront _ => rw [ih, LocalFile.read_disk_after hlen hmax hfront]
  | @ended offset len hlen hanswer =>
    cases hanswer with
    | given hmax _ hsome =>
      have hbehind : f.toBytes.length ≤ offset := (Bytes.slice_eq_nil_iff hlen).1 (by_contra fun h => hsome h rfl)
      rw [SparseBytes.length_toBytes] at hbehind
      rw [LocalFile.read_disk hlen, if_neg (by omega), if_neg (by omega)]
  | again _ _ _ _ ih => exact ih
  | failed hlen hanswer hkind =>
    cases hanswer with
    | interrupted => exact absurd rfl hkind
    | refused hmax => rw [LocalFile.read_disk hlen, if_pos hmax]

/-- Behind the end of the file a call gives nothing, and no further one is made. -/
theorem exists_fetches_behind (hmax : offset + len ≤ maxFileLength) (hbehind : len = 0 ∨ f.size ≤ offset) :
    ∃ r, Fetches f offset len r := by
  obtain rfl | hlen := Nat.eq_zero_or_pos len
  · exact ⟨_, .nothing offset⟩
  · have hnil : f.toBytes.slice offset len = [] := by
      rw [Bytes.slice_eq_nil_iff hlen, SparseBytes.length_toBytes]
      omega
    exact ⟨_, .ended hlen (.given hmax List.nil_prefix fun h => absurd hnil h)⟩

/-- One call may give all that the file has of the bytes; what is missing then lies behind its end. -/
theorem exists_fetches (f : SparseBytes) (offset len : Nat) : ∃ r, Fetches f offset len r := by
  obtain rfl | hlen := Nat.eq_zero_or_pos len
  · exact ⟨_, .nothing offset⟩
  obtain hmax | hmax := Nat.lt_or_ge maxFileLength (offset + len)
  · exact ⟨_, .failed hlen (.refused hmax) (by decide)⟩
  by_cases hbehind : f.size ≤ offset
  · exact exists_fetches_behind hmax (.inr hbehind)
  let data := f.toBytes.slice offset len
  have hdata : data ≠ [] := by
    rw [Ne, Bytes.slice_eq_nil_iff hlen, SparseBytes.length_toBytes]
    exact hbehind
  have hlength : data.length = min len (f.size - offset) := by
    simp [data, Bytes.slice]
  have hleft : len - data.length = 0 ∨ f.size ≤ offset + data.length := by omega
  obtain ⟨r, hrest⟩ := exists_fetches_behind (by omega) hleft
  exact ⟨_, .more hlen (.given hmax (List.prefix_refl data) id) hdata hrest⟩

/-- Whatever the calls give, they come to the read of the file, and some calls do. -/
theorem fetches_iff {r : Except FileError Bytes} :
    Fetches f offset len r ↔ r = (LocalFile.disk f).read offset len := by
  constructor
  · exact Fetches.eq_read
  · intro h
    obtain ⟨r', hr'⟩ := exists_fetches f offset len
    rw [h, ← hr'.eq_read]
    exact hr'

end ObjectFlush
