/-!
Names of stored objects. A key is a non-empty text of at most 1023 bytes that starts with no
separator and holds no control character; `ofString?` accepts exactly those texts.
-/

namespace ObjectFlush

/-- Why a text is not an object key. -/
inductive KeyFault where
  | empty
  | tooLong (bytes : Nat)
  | leadingSeparator (text : String)
  | controlCharacter
  deriving DecidableEq, Repr

/-- The longest key, in bytes. -/
def maxKeyLength : Nat := 1023

namespace KeyFault

def message : KeyFault → String
  | .empty => "empty key"
  | .tooLong n => s!"key is {n} bytes, limit is {maxKeyLength}"
  | .leadingSeparator text => s!"leading separator in '{text}'"
  | .controlCharacter => "control characters not allowed"

/-- Control characters: the C0 and C1 blocks and the delete character. -/
def isControl (c : Char) : Bool := c.toNat < 0x20 || (0x7F ≤ c.toNat && c.toNat ≤ 0x9F)

/-- The first rule that `text` breaks. -/
def of? (text : String) : Option KeyFault :=
  if text.isEmpty then some .empty
  else if maxKeyLength < text.utf8ByteSize then some (.tooLong text.utf8ByteSize)
  else if text.toList.head? = some '/' ∨ text.toList.head? = some '\\' then
    some (.leadingSeparator text)
  else if text.toList.any isControl then some .controlCharacter
  else none

end KeyFault

/-- The name of an object within a bucket. -/
structure ObjectKey where
  text : String
  valid : KeyFault.of? text = none
  deriving DecidableEq

namespace ObjectKey

/-- The key that `text` spells, or the first rule that it breaks. -/
def ofString? (text : String) : Except KeyFault ObjectKey :=
  match h : KeyFault.of? text with
  | none => .ok ⟨text, h⟩
  | some fault => .error fault

instance : ToString ObjectKey := ⟨text⟩

theorem ofString?_text (k : ObjectKey) : ofString? k.text = .ok k := by
  unfold ofString?
  split
  · rfl
  · next h => exact absurd (h.symm.trans k.valid) (by simp)

theorem ofString?_eq_ok_iff {text : String} {k : ObjectKey} :
    ofString? text = .ok k ↔ k.text = text := by
  constructor
  · unfold ofString?
    split
    · next h => rintro ⟨⟩; rfl
    · next h => nofun
  · rintro rfl; exact ofString?_text k

end ObjectKey

end ObjectFlush
