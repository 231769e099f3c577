import ObjectFlush.Json.Basic

/-!
Records in JSON: an object that names the fields, each at most once and among any others, or an
array of the first fields in their order of declaration.
-/

namespace ObjectFlush.Json

/-- The value of a field, if it is given. -/
abbrev Fields := String → Option Json

/-- How often a name is given. -/
def count (name : String) (members : List (JsonString × Json)) : Nat :=
  (members.filter (·.1 = some name)).length

/-- The first value given for a name. -/
def lookup (name : String) : List (JsonString × Json) → Option Json
  | [] => none
  | (k, v) :: rest => if k = some name then some v else lookup name rest

/-- The value at a name's place in an array. -/
def place (name : String) : List String → List Json → Option Json
  | n :: names, v :: values => if n = name then some v else place name names values
  | _, _ => none

/-- The fields of a record with these names. Refused are other values, objects with a name that is
not a Unicode string or with a field given twice, and arrays longer than the record. -/
def fields? (names : List String) : Json → Option Fields
  | .object members =>
    if members.all (·.1.isSome) && names.all (count · members ≤ 1) then
      some fun name => lookup name members
    else none
  | .array items =>
    if items.length ≤ names.length then some fun name => place name names items else none
  | _ => none

/-- A natural number below `bound`, spelt as an integer without a sign. -/
def natBelow? (bound : Nat) : Json → Option Nat
  | .number (.integer false n) => if n < bound then some n else none
  | _ => none

def bool? : Json → Option Bool
  | .bool b => some b
  | _ => none

def string? : Json → JsonString
  | .string s => s
  | _ => none

/-- A field that has a default: refused only when it is given and cannot be read. -/
def orDefault {α : Type} (field : Option Json) (read : Json → Option α) (default : α) : Option α :=
  match field with
  | none => some default
  | some j => read j

end ObjectFlush.Json
