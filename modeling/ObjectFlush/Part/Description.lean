import ObjectFlush.Part.Basic
import ObjectFlush.Text.Quoted

/-!
Parts as they are described to a reader of logs: where the bytes of each come from, but not the
bytes.
-/

namespace ObjectFlush

/-- A record of a given name, with the texts of its fields. -/
def describeRecord (name : String) (fields : List (String × String)) : String :=
  name ++ " \x7b " ++ ", ".intercalate (fields.map fun (k, v) => k ++ ": " ++ v) ++ " \x7d"

def StoredRange.description (s : StoredRange) : String :=
  describeRecord "CopySource"
    [("key", "ObjectKey(" ++ Text.quoted s.key.text ++ ")"), ("offset", toString s.offset),
      ("len", toString s.length)]

def PartContent.description : PartContent → String
  | .file _ offset => describeRecord "File" [("offset", toString offset)]
  | .buffer data cursor =>
    describeRecord "Buffer" [("len", toString data.length), ("cursor", toString cursor)]
  | .copy source => "Copy(" ++ source.description ++ ")"

end ObjectFlush
