/-!
Byte strings, with the positional operations a local file and a stored object share: read a
range, write over a range (zero-filling a gap), and change the length.
-/

namespace ObjectFlush

/-- The contents of a file, an object or a part. -/
abbrev Bytes := List UInt8

namespace Bytes

/-- `n` zero bytes. -/
def zeros (n : Nat) : Bytes := List.replicate n 0

/-- The bytes of a text, in UTF-8. -/
def ofString (s : String) : Bytes := s.toUTF8.data.toList

/-- The text whose UTF-8 bytes these are, if they are UTF-8. -/
def toString? (b : Bytes) : Option String := String.fromUTF8? ⟨b.toArray⟩

/-- The `len` bytes at `offset`, if all of `[offset, offset + len)` lies inside. -/
def slice? (b : Bytes) (offset len : Nat) : Option Bytes :=
  if offset + len ≤ b.length then some ((b.drop offset).take len) else none

/-- The bytes after writing `data` at `offset`. A gap between the end and `offset` is filled with
zeros; writing nothing changes nothing, wherever it is written. -/
def patch (b : Bytes) (offset : Nat) (data : Bytes) : Bytes :=
  if data.isEmpty then b
  else b.take offset ++ zeros (offset - b.length) ++ data ++ b.drop (offset + data.length)

/-- Cut to `n` bytes, or grown to `n` bytes with zeros. -/
def resize (b : Bytes) (n : Nat) : Bytes := b.take n ++ zeros (n - b.length)

/-- The lower-case hexadecimal digit of a number below sixteen. -/
def hexDigit (n : Nat) : Char :=
  if n < 10 then Char.ofNat ('0'.toNat + n) else Char.ofNat ('a'.toNat + (n - 10))

/-- Two lower-case hexadecimal digits per byte, high half first. -/
def toHex (b : Bytes) : String :=
  String.ofList (b.flatMap fun x => [hexDigit (x.toNat / 16), hexDigit (x.toNat % 16)])

/-- The value of a hexadecimal digit of either case. -/
def hexValue? (c : Char) : Option Nat :=
  if '0' ≤ c ∧ c ≤ '9' then some (c.toNat - '0'.toNat)
  else if 'a' ≤ c ∧ c ≤ 'f' then some (c.toNat - 'a'.toNat + 10)
  else if 'A' ≤ c ∧ c ≤ 'F' then some (c.toNat - 'A'.toNat + 10)
  else none

/-- The bytes that pairs of hexadecimal digits stand for. -/
def ofHexDigits? : List Char → Option Bytes
  | [] => some []
  | [_] => none
  | a :: b :: rest => do
    let high ← hexValue? a
    let low ← hexValue? b
    let bytes ← ofHexDigits? rest
    return UInt8.ofNat (16 * high + low) :: bytes

/-- The bytes a hexadecimal text stands for. -/
def ofHex? (s : String) : Option Bytes := ofHexDigits? s.toList

@[simp] theorem length_zeros (n : Nat) : (zeros n).length = n := List.length_replicate ..

theorem slice?_eq_some_iff {b : Bytes} {offset len : Nat} {s : Bytes} :
    b.slice? offset len = some s ↔ offset + len ≤ b.length ∧ (b.drop offset).take len = s := by
  unfold slice?
  split
  · next h => simp [h]
  · next h => simp [h]

theorem length_resize (b : Bytes) (n : Nat) : (b.resize n).length = n := by
  simp [resize]; omega

theorem length_patch {b : Bytes} {offset : Nat} {data : Bytes} (h : data ≠ []) :
    (b.patch offset data).length = max b.length (offset + data.length) := by
  have : data.isEmpty = false := by cases data <;> simp_all
  simp [patch, this]; omega

end Bytes

end ObjectFlush
