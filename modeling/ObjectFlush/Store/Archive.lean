import ObjectFlush.Json.Reader
import ObjectFlush.Json.Writer
import ObjectFlush.Json.Record
import ObjectFlush.Store.Basic

/-!
The store as a JSON text, for keeping it between two runs of the command. Bytes are written in
hexadecimal digits; each table is an array, so that its order is kept.
-/

namespace ObjectFlush

/-- Bytes in hexadecimal digits. -/
def Bytes.toJson (b : Bytes) : Json := .text b.toHex

def Bytes.ofJson? (j : Json) : Option Bytes := j.string?.bind Bytes.ofHex?

/-- The items of an array, each read by `read`. -/
def Json.items? {α : Type} (read : Json → Option α) : Json → Option (List α)
  | .array items => items.mapM read
  | _ => none

def ObjectKey.ofJson? (j : Json) : Option ObjectKey :=
  j.string?.bind fun text => (ObjectKey.ofString? text).toOption

namespace StoredObject

def names : List String := ["key", "data", "etag", "acl", "encryption", "signature"]

def toJson (key : ObjectKey) (o : StoredObject) : Json :=
  .record [("key", .text key.text), ("data", o.data.toJson), ("etag", .text o.record.tag),
    ("acl", .text o.record.acl.name),
    ("encryption", (o.record.encryption.map Json.text).getD .null),
    ("signature", .text o.record.signature.name)]

def ofJson? (j : Json) : Option (ObjectKey × StoredObject) := do
  let field ← j.fields? names
  let key ← (field "key").bind ObjectKey.ofJson?
  let data ← (field "data").bind Bytes.ofJson?
  let tag ← (field "etag").bind Json.string?
  let acl ← ((field "acl").bind Json.string?).bind Acl.ofName?
  let signature ← ((field "signature").bind Json.string?).bind Signature.ofName?
  let encryption := (field "encryption").bind Json.string?
  return (key, ⟨data, ⟨data.length, tag, acl, encryption, signature⟩⟩)

end StoredObject

namespace PendingUpload

def toJson (name : String) (u : PendingUpload) : Json :=
  .record [("name", .text name), ("key", .text u.key.text),
    ("parts", .array (u.parts.map fun p => .array [.nat p.1, p.2.toJson]))]

def partOfJson? : Json → Option (Nat × Bytes)
  | .array [number, data] => do return (← number.natBelow? UInt32.size, ← Bytes.ofJson? data)
  | _ => none

def ofJson? (j : Json) : Option (String × PendingUpload) := do
  let field ← j.fields? ["name", "key", "parts"]
  let name ← (field "name").bind Json.string?
  let key ← (field "key").bind ObjectKey.ofJson?
  let parts ← (field "parts").bind (Json.items? partOfJson?)
  return (name, { key, parts })

end PendingUpload

namespace Bucket

def toJson (name : String) (b : Bucket) : Json :=
  .record [("name", .text name),
    ("objects", .array (b.objects.map fun p => p.2.toJson p.1)),
    ("uploads", .array (b.uploads.map fun p => p.2.toJson p.1))]

def ofJson? (j : Json) : Option (String × Bucket) := do
  let field ← j.fields? ["name", "objects", "uploads"]
  let name ← (field "name").bind Json.string?
  let objects ← (field "objects").bind (Json.items? StoredObject.ofJson?)
  let uploads ← (field "uploads").bind (Json.items? PendingUpload.ofJson?)
  return (name, { objects, uploads })

end Bucket

namespace Store

def toJson (s : Store) : Json :=
  .record [("started", .nat s.started),
    ("buckets", .array (s.buckets.map fun p => p.2.toJson p.1))]

def ofJson? (j : Json) : Option Store := do
  let field ← j.fields? ["started", "buckets"]
  let started ← (field "started").bind (Json.natBelow? UInt64.size)
  let buckets ← (field "buckets").bind (Json.items? Bucket.ofJson?)
  return { started, buckets }

/-- The store in a text. -/
def parse? (text : String) : Option Store := (Json.ofString? text).bind ofJson?

end Store

end ObjectFlush
