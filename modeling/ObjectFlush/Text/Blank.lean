/-!
White space: the characters with the Unicode property `White_Space`, and texts without it at their
ends.
-/

namespace ObjectFlush.Text

/-- The code points of white space, as first and last of each block. -/
def blankBlocks : List (Nat × Nat) :=
  [(0x09, 0x0D), (0x20, 0x20), (0x85, 0x85), (0xA0, 0xA0), (0x1680, 0x1680), (0x2000, 0x200A),
    (0x2028, 0x2029), (0x202F, 0x202F), (0x205F, 0x205F), (0x3000, 0x3000)]

def isBlank (c : Char) : Bool := blankBlocks.any fun b => b.1 ≤ c.toNat && c.toNat ≤ b.2

/-- The text without white space at either end. -/
def trim (s : List Char) : List Char :=
  ((s.dropWhile isBlank).reverse.dropWhile isBlank).reverse

end ObjectFlush.Text
