import ObjectFlush.Bytes
import ObjectFlush.Json.Basic

/-!
Writing JSON: on one line without blanks, or over several lines, two blanks deeper in each
container. Quotes, backslashes and control characters are escaped, all else is written as it is.
-/

namespace ObjectFlush.Json

/-- A character inside a string. -/
def escape (c : Char) : List Char :=
  if c = '"' then ['\\', '"']
  else if c = '\\' then ['\\', '\\']
  else if c = '\x08' then ['\\', 'b']
  else if c = '\t' then ['\\', 't']
  else if c = '\n' then ['\\', 'n']
  else if c = '\x0c' then ['\\', 'f']
  else if c = '\r' then ['\\', 'r']
  else if c.toNat < 0x20 then
    ['\\', 'u', '0', '0', Bytes.hexDigit (c.toNat / 16), Bytes.hexDigit (c.toNat % 16)]
  else [c]

/-- A string with its quotes. One that is not a Unicode string is written as an unpaired escape. -/
def quoted : JsonString → List Char
  | some s => '"' :: s.toList.flatMap escape ++ ['"']
  | none => ['"', '\\', 'u', 'd', '8', '0', '0', '"']

def numberChars : JsonNumber → List Char
  | .integer negative n => (if negative then ['-'] else []) ++ Nat.toDigits 10 n
  | .decimal negative n e =>
    (if negative then ['-'] else []) ++ Nat.toDigits 10 n ++ 'e' ::
      (if e < 0 then ['-'] else []) ++ Nat.toDigits 10 e.natAbs

mutual

/-- The value on one line. -/
def chars : Json → List Char
  | .null => ['n', 'u', 'l', 'l']
  | .bool true => ['t', 'r', 'u', 'e']
  | .bool false => ['f', 'a', 'l', 's', 'e']
  | .number n => numberChars n
  | .string s => quoted s
  | .array [] => ['[', ']']
  | .array (v :: vs) => '[' :: v.chars ++ itemsChars vs
  | .object [] => ['\x7b', '\x7d']
  | .object ((k, v) :: ms) => '\x7b' :: quoted k ++ ':' :: v.chars ++ membersChars ms

/-- The items after the first, and the closing bracket. -/
def itemsChars : List Json → List Char
  | [] => [']']
  | v :: vs => ',' :: v.chars ++ itemsChars vs

/-- The members after the first, and the closing brace. -/
def membersChars : List (JsonString × Json) → List Char
  | [] => ['\x7d']
  | (k, v) :: ms => ',' :: quoted k ++ ':' :: v.chars ++ membersChars ms

end

/-- The value on one line, as a text. -/
def compact (j : Json) : String := String.ofList j.chars

/-- A line break and the blanks of nesting level `level`. -/
def newLine (level : Nat) : List Char := '\n' :: List.replicate (2 * level) ' '

mutual

/-- The value over several lines, from nesting level `level`. -/
def lines (level : Nat) : Json → List Char
  | .array (v :: vs) => '[' :: newLine (level + 1) ++ v.lines (level + 1) ++ itemsLines level vs
  | .object ((k, v) :: ms) =>
    '\x7b' :: newLine (level + 1) ++ quoted k ++ ':' :: ' ' :: v.lines (level + 1) ++
      membersLines level ms
  | j => j.chars

def itemsLines (level : Nat) : List Json → List Char
  | [] => newLine level ++ [']']
  | v :: vs => ',' :: newLine (level + 1) ++ v.lines (level + 1) ++ itemsLines level vs

def membersLines (level : Nat) : List (JsonString × Json) → List Char
  | [] => newLine level ++ ['\x7d']
  | (k, v) :: ms =>
    ',' :: newLine (level + 1) ++ quoted k ++ ':' :: ' ' :: v.lines (level + 1) ++
      membersLines level ms

end

/-- The value over several lines, as a text. -/
def pretty (j : Json) : String := String.ofList (j.lines 0)

end ObjectFlush.Json
