/-!
Decimal integers in a signed 64-bit range: an optional sign and at least one digit. The first
character that cannot be taken decides how a text is refused.
-/

namespace ObjectFlush

/-- Why a text is no integer in range. -/
inductive IntegerFault where
  | empty
  | invalidDigit
  | tooLarge
  | tooSmall
  deriving DecidableEq, Repr

namespace IntegerFault

def message : IntegerFault → String
  | .empty => "cannot parse integer from empty string"
  | .invalidDigit => "invalid digit found in string"
  | .tooLarge => "number too large to fit in target type"
  | .tooSmall => "number too small to fit in target type"

end IntegerFault

namespace Text

/-- The value of a decimal digit. -/
def digit? (c : Char) : Option Nat :=
  if '0' ≤ c ∧ c ≤ '9' then some (c.toNat - '0'.toNat) else none

/-- The number whose digits follow those of `value`, refused as `overflow` past `limit`. -/
def digitsFrom (limit : Nat) (overflow : IntegerFault) (value : Nat) :
    List Char → Except IntegerFault Nat
  | [] => .ok value
  | c :: rest =>
    match digit? c with
    | none => .error .invalidDigit
    | some d =>
      if limit < 10 * value + d then .error overflow
      else digitsFrom limit overflow (10 * value + d) rest

/-- The number that at least one digit spells. -/
def digits (limit : Nat) (overflow : IntegerFault) : List Char → Except IntegerFault Nat
  | [] => .error .invalidDigit
  | c :: rest => digitsFrom limit overflow 0 (c :: rest)

/-- The integer that a text spells. -/
def parseInteger : List Char → Except IntegerFault Int
  | [] => .error .empty
  | '-' :: rest => (digits (1 <<< 63) .tooSmall rest).map fun n => -(n : Int)
  | '+' :: rest => (digits (1 <<< 63 - 1) .tooLarge rest).map fun n => (n : Int)
  | rest => (digits (1 <<< 63 - 1) .tooLarge rest).map fun n => (n : Int)

end Text

end ObjectFlush
