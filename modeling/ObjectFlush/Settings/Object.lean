import ObjectFlush.SetupError
import ObjectFlush.Json.Record

/-!
What is asked of the store for each object: who may read it, how it is encrypted, and how requests
are signed. Each value has its name, and the three together a JSON record.
-/

namespace ObjectFlush

/-- Who may read and write an object. -/
inductive Acl where
  | privateAccess
  | publicRead
  | publicReadWrite
  /-- Whatever holds for the bucket. -/
  | bucketDefault
  deriving DecidableEq, Repr

namespace Acl

def name : Acl → String
  | .privateAccess => "private"
  | .publicRead => "public-read"
  | .publicReadWrite => "public-read-write"
  | .bucketDefault => "default"

def all : List Acl := [.privateAccess, .publicRead, .publicReadWrite, .bucketDefault]

def ofName? (s : String) : Option Acl := all.find? (·.name == s)

def parse (s : String) : Except SetupError Acl :=
  match ofName? s with
  | some acl => .ok acl
  | none => .error (.config s!"unknown acl '{s}'")

end Acl

/-- How requests are signed. -/
inductive Signature where
  | v1
  | v4
  /-- The newer scheme first, then the older one. -/
  | either
  deriving DecidableEq, Repr

namespace Signature

def name : Signature → String
  | .v1 => "v1"
  | .v4 => "v4"
  | .either => "auto"

def all : List Signature := [.v1, .v4, .either]

def ofName? (s : String) : Option Signature := all.find? (·.name == s)

def parse (s : String) : Except SetupError Signature :=
  match ofName? s with
  | some signature => .ok signature
  | none => .error (.config s!"unknown signature version '{s}'")

end Signature

/-- How the store encrypts an object. -/
inductive Encryption where
  | disabled
  /-- With keys of the store. -/
  | store
  /-- With a key the customer sends, known by its digest. -/
  | custom (keyDigest : String)
  /-- With a key of the key service: a given one or its own choice. -/
  | keyService (keyId : Option String)
  deriving DecidableEq, Repr

namespace Encryption

def mode : Encryption → String
  | .disabled => "disabled"
  | .store => "oss"
  | .custom _ => "custom"
  | .keyService _ => "kms"

/-- The header that asks for it, if one does. -/
def header? : Encryption → Option String
  | .disabled | .custom _ => none
  | .store => some "AES256"
  | .keyService _ => some "KMS"

def toJson : Encryption → Json
  | .disabled => .record [("mode", .text "disabled")]
  | .store => .record [("mode", .text "oss")]
  | .custom digest => .record [("mode", .text "custom"), ("key_md5", .text digest)]
  | .keyService none => .record [("mode", .text "kms"), ("key_id", .null)]
  | .keyService (some id) => .record [("mode", .text "kms"), ("key_id", .text id)]

/-- The name of a key, or none. -/
def keyId? : Json → Option (Option String)
  | .null => some none
  | .string (some s) => some (some s)
  | _ => none

/-- The containers that a text may nest around and inside an encryption record. -/
def maxDepth : Nat := 127

/-- The record of a mode, its members in any order among others. A member that the mode does not
have is not looked at. -/
def ofMembers? (mode : String) (members : List (JsonString × Json)) : Option Encryption :=
  match mode with
  | "disabled" => some .disabled
  | "oss" => some .store
  | "custom" =>
    if Json.count "key_md5" members = 1 then
      ((Json.lookup "key_md5" members).bind Json.string?).map .custom
    else none
  | "kms" =>
    if Json.count "key_id" members ≤ 1 then
      (keyId? ((Json.lookup "key_id" members).getD .null)).map .keyService
    else none
  | _ => none

/-- The array of a mode: all that the mode has, and nothing else. -/
def ofItems? (mode : String) (items : List Json) : Option Encryption :=
  match mode, items with
  | "disabled", [] => some .disabled
  | "oss", [] => some .store
  | "custom", [digest] => digest.string?.map .custom
  | "kms", [id] => (keyId? id).map .keyService
  | _, _ => none

/-- Reads the record, which lies inside `around` containers. The mode may come after the members
it governs, so all of the record has to be plain and bounded in depth. -/
def ofJson? (around : Nat) (j : Json) : Option Encryption :=
  if j.isPlain ∧ around + j.depth ≤ maxDepth then
    match j with
    | .object members =>
      if Json.count "mode" members = 1 then
        ((Json.lookup "mode" members).bind Json.string?).bind fun mode => ofMembers? mode members
      else none
    | .array (mode :: items) => mode.string?.bind fun mode => ofItems? mode items
    | _ => none
  else none

end Encryption

/-- What is asked of the store for each object. -/
structure ObjectOptions where
  acl : Acl := .bucketDefault
  encryption : Encryption := .disabled
  signature : Signature := .either
  deriving DecidableEq, Repr

namespace ObjectOptions

/-- A value known by its name: the name alone, or an object that gives `null` for it. -/
def named? {α : Type} (ofName? : String → Option α) : Json → Option α
  | .string (some s) => ofName? s
  | .object [(some s, .null)] => ofName? s
  | _ => none

/-- The names of the fields, in their order of declaration. -/
def names : List String := ["acl", "sse", "signature"]

/-- Reads the record, which lies inside `around` containers. -/
def ofJson? (around : Nat) (j : Json) : Option ObjectOptions := do
  let field ← j.fields? names
  let standard : ObjectOptions := {}
  return {
    acl := ← Json.orDefault (field "acl") (named? Acl.ofName?) standard.acl
    encryption := ←
      Json.orDefault (field "sse") (Encryption.ofJson? (around + 1)) standard.encryption
    signature := ←
      Json.orDefault (field "signature") (named? Signature.ofName?) standard.signature }

def toJson (o : ObjectOptions) : Json :=
  .record [("acl", .text o.acl.name), ("sse", o.encryption.toJson),
    ("signature", .text o.signature.name)]

end ObjectOptions

end ObjectFlush
