import ObjectFlush.Json.Number

/-!
JSON values as a text spells them. Members keep their order and may repeat. A string is `none` when
it holds an unpaired surrogate escape or a byte that is part of no character: such a text is well
formed, but it spells no Unicode string.
-/

namespace ObjectFlush

/-- A string as spelt, `none` when it is not a Unicode string. -/
abbrev JsonString := Option String

inductive Json where
  | null
  | bool (value : Bool)
  | number (value : JsonNumber)
  | string (value : JsonString)
  | array (items : List Json)
  | object (members : List (JsonString × Json))
  deriving Repr

namespace Json

/-- A Unicode string. -/
def text (s : String) : Json := .string (some s)

/-- A natural number. -/
def nat (n : Nat) : Json := .number (.integer false n)

/-- An object whose names are Unicode strings. -/
def record (members : List (String × Json)) : Json :=
  .object (members.map fun (k, v) => (some k, v))

mutual

/-- How many containers lie within one another: none in a scalar. -/
def depth : Json → Nat
  | .array items => itemsDepth items + 1
  | .object members => membersDepth members + 1
  | _ => 0

def itemsDepth : List Json → Nat
  | [] => 0
  | v :: rest => max v.depth (itemsDepth rest)

def membersDepth : List (JsonString × Json) → Nat
  | [] => 0
  | (_, v) :: rest => max v.depth (membersDepth rest)

end

mutual

/-- Whether every string in the value is a Unicode string and every number is finite. -/
def isPlain : Json → Bool
  | .number n => n.isFinite
  | .string s => s.isSome
  | .array items => itemsPlain items
  | .object members => membersPlain members
  | _ => true

def itemsPlain : List Json → Bool
  | [] => true
  | v :: rest => v.isPlain && itemsPlain rest

def membersPlain : List (JsonString × Json) → Bool
  | [] => true
  | (k, v) :: rest => k.isSome && v.isPlain && membersPlain rest

end

end Json

end ObjectFlush
