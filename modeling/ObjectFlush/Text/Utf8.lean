import ObjectFlush.Bytes

/-!
UTF-8 that may be damaged: the characters that bytes spell, and a gap for each byte that is part of
none. No byte below 0x80 is ever lost in a gap or in another character, so what is written in ASCII
around damaged text can still be read.
-/

namespace ObjectFlush

/-- What is read of a text: a character, or `none` for a byte that is part of no character. -/
abbrev Symbol := Option Char

namespace Utf8

/-- What the first byte of a character tells: how many bytes follow it, its own part of the
character's number, and the least number that is written with so many bytes. -/
structure Lead where
  count : Nat
  bits : Nat
  least : Nat

/-- What a byte tells as the first one of a character. -/
def lead? (b : UInt8) : Option Lead :=
  if b < 0x80 then some ⟨0, b.toNat, 0⟩
  else if b < 0xC0 then none
  else if b < 0xE0 then some ⟨1, b.toNat - 0xC0, 0x80⟩
  else if b < 0xF0 then some ⟨2, b.toNat - 0xE0, 0x800⟩
  else if b < 0xF8 then some ⟨3, b.toNat - 0xF0, 0x10000⟩
  else none

/-- Whether a byte goes on with a character. -/
def isTail (b : UInt8) : Bool := 0x80 ≤ b && b < 0xC0

/-- The number of a character, given the part of its first byte and the bytes behind that. -/
def scalar (bits : Nat) (tail : Bytes) : Nat :=
  tail.foldl (fun n b => 64 * n + (b.toNat - 0x80)) bits

/-- The character that starts with `b` and goes on with the bytes behind it, and how many of those
belong to it. A number that is written with more bytes than it needs is no character, nor is a
surrogate or a number past the last character. -/
def char? (b : UInt8) (rest : Bytes) : Option (Char × Nat) := do
  let lead ← lead? b
  let tail := rest.take lead.count
  if tail.length = lead.count ∧ tail.all isTail then
    let n := scalar lead.bits tail
    if lead.least ≤ n ∧ n.isValidChar then return (Char.ofNat n, lead.count) else none
  else none

/-- The symbols of a text, of which the first `skip` bytes belong to a character already read. -/
def symbolsFrom : (skip : Nat) → Bytes → List Symbol
  | _, [] => []
  | skip + 1, _ :: rest => symbolsFrom skip rest
  | 0, b :: rest =>
    match char? b rest with
    | some (c, count) => some c :: symbolsFrom count rest
    | none => none :: symbolsFrom 0 rest

/-- The symbols of a text. -/
def symbols (text : Bytes) : List Symbol := symbolsFrom 0 text

end Utf8

end ObjectFlush
