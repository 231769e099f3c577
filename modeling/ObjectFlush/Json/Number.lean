/-!
Numbers as a text spells them. An integer that fits into 64 bits is known exactly. Of any other
number as many leading digits are kept as fit into 64 bits, with a power of ten; that is enough to
tell whether the number, rounded to a double, is finite.
-/

namespace ObjectFlush

/-- A number as spelt: an integer, or `significand * 10 ^ exponent`. -/
inductive JsonNumber where
  | integer (negative : Bool) (magnitude : Nat)
  | decimal (negative : Bool) (significand : Nat) (exponent : Int)
  deriving DecidableEq, Repr

namespace JsonNumber

/-- What a significand has to stay below. -/
def capacity : Nat := UInt64.size

/-- The value of a decimal digit. -/
def digit (c : Char) : Nat := c.toNat - '0'.toNat

/-- The number spelt by digits behind those that spell `n`, as far as it stays below `capacity`,
and the digits left over. -/
def absorb (n : Nat) : List Char → Nat × List Char
  | [] => (n, [])
  | c :: cs => if 10 * n + digit c < capacity then absorb (10 * n + digit c) cs else (n, c :: cs)

/-- What every written exponent is cut to. It is farther out of range than the digits of any text
can make up for. -/
def farExponent : Nat := 1 <<< 31

/-- The number that the digits of an exponent spell. -/
def exponentValue (cs : List Char) : Nat :=
  cs.foldl (fun n c => min farExponent (10 * n + digit c)) 0

/-- The number spelt by the digits before the point, those behind it if there is one, and the
written exponent if there is one. Digits before the point that do not fit raise the exponent, and
digits behind it that fit lower it. -/
def ofDigits (negative : Bool) (whole : List Char) (fraction : Option (List Char))
    (exponent : Option Int) : JsonNumber :=
  let (n, dropped) := absorb 0 whole
  match fraction, exponent, dropped with
  | none, none, [] => .integer negative n
  | fraction, exponent, dropped =>
    let fraction := fraction.getD []
    let (m, ignored) := absorb n fraction
    .decimal negative m
      (exponent.getD 0 + dropped.length - (fraction.length - ignored.length : Nat))

/-- The nearest number with 53 binary digits, the even one of two that are as near. -/
def round53 (n : Nat) : Nat :=
  let unit := 1 <<< (n.log2 - 52)
  let quotient := n / unit
  let twice := 2 * (n % unit)
  if unit < twice ∨ (twice = unit ∧ quotient % 2 = 1) then (quotient + 1) * unit
  else quotient * unit

/-- The least magnitude that rounds to an infinite double. -/
def infinite : Nat := 1 <<< 1024 - 1 <<< 970

/-- The greatest power of ten that is a finite double. -/
def maxExponent : Nat := 308

/-- Whether the number is a finite double: the product of its significand and its power of ten, each
of them rounded on its own. -/
def isFinite : JsonNumber → Bool
  | .integer _ _ => true
  | .decimal _ significand exponent =>
    significand = 0 || exponent < 0 ||
      (exponent ≤ maxExponent &&
        round53 significand * round53 (Nat.pow 10 exponent.toNat) < infinite)

end JsonNumber

end ObjectFlush
