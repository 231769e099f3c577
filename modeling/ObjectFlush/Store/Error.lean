import ObjectFlush.SetupError
import ObjectFlush.Exchange.Error

/-!
Failures of the local store, and how they are reported for a request.
-/

namespace ObjectFlush

inductive StoreError where
  | storage (reason : String)
  | invalidBucketName (name : String)
  | objectNotFound (key : String)
  | uploadNotFound (upload : String)
  | invalidPart (number : Nat) (reason : String)
  | partTooSmall (number : Nat)
  | invalidRange (offset length size : Nat)
  | serialization
  | setup (error : SetupError)
  deriving DecidableEq, Repr

namespace StoreError

def message : StoreError → String
  | .storage reason => s!"Storage error: {reason}"
  | .invalidBucketName name => s!"Invalid bucket name: {name}"
  | .objectNotFound key => s!"Object not found: {key}"
  | .uploadNotFound upload => s!"Upload not found: {upload}"
  | .invalidPart number reason => s!"Invalid part {number}: {reason}"
  | .partTooSmall number => s!"Part {number} is below the minimum part size"
  | .invalidRange offset length size =>
    s!"Range {offset}+{length} is outside an object of {size} bytes"
  | .serialization => "Serialization error: the record is damaged"
  | .setup error => s!"Core error: {error.message}"

/-- The failure as the answer to a request. -/
def toRequestError : StoreError → RequestError
  | .objectNotFound key => .noSuchKey key
  | .uploadNotFound upload => .noSuchUpload upload
  | .invalidPart number reason => .invalidPart number reason
  | .partTooSmall number => .entityTooSmall number
  | .invalidRange offset length size => .http 416 s!"range {offset}+{length} outside {size} bytes"
  | e => .io e.message

end StoreError

end ObjectFlush
