import ObjectFlush.Json.Record
import ObjectFlush.Json.Writer
import ObjectFlush.Object.Basic

/-!
The metadata of an object as a JSON record. All three fields have to be given; the key is taken as
it is.
-/

namespace ObjectFlush.ObjectSummary

/-- The names of the fields, in their order of declaration. -/
def names : List String := ["key", "size", "etag"]

def ofJson? (j : Json) : Option ObjectSummary := do
  let field ← j.fields? names
  return {
    key := ← (← field "key").string?
    size := ← (← field "size").natBelow? UInt64.size
    tag := ← (← field "etag").string? }

def toJson (m : ObjectSummary) : Json :=
  .record [("key", .text m.key), ("size", .nat m.size), ("etag", .text m.tag)]

end ObjectFlush.ObjectSummary
