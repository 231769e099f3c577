import ObjectFlush.Bytes
import ObjectFlush.Json.Reader
import ObjectFlush.Settings.Object
import ObjectFlush.Settings.Upload

/-!
The settings file: a JSON record of the upload settings and the store options, each of which may be
left out in whole or in part.
-/

namespace ObjectFlush

structure Settings where
  upload : UploadSettings := {}
  store : ObjectOptions := {}
  deriving DecidableEq, Repr

namespace Settings

/-- The names of the fields, in their order of declaration. -/
def names : List String := ["upload", "store"]

def ofJson? (j : Json) : Option Settings := do
  let field ← j.fields? names
  let standard : Settings := {}
  return {
    upload := ← Json.orDefault (field "upload") UploadSettings.ofJson? standard.upload
    store := ← Json.orDefault (field "store") (ObjectOptions.ofJson? 1) standard.store }

def toJson (s : Settings) : Json := .record [("upload", s.upload.toJson), ("store", s.store.toJson)]

/-- The settings in a text, if they are consistent. -/
def parse (text : String) : Except SetupError Settings :=
  match (Json.ofString? text).bind ofJson? with
  | none => .error .serialization
  | some s =>
    match s.upload.validate with
    | .ok () => .ok s
    | .error e => .error e

/-- The settings in a file, given its contents or why it could not be read. -/
def load (contents : Except FileError Bytes) : Except SetupError Settings :=
  match contents with
  | .error e => .error (.file e)
  | .ok bytes =>
    match bytes.toString? with
    | none => .error (.file .notUtf8)
    | some text => parse text

end Settings

end ObjectFlush
