import ObjectFlush.FileError
import ObjectFlush.Plan.Error

/-!
Failures outside any exchange with the store: of keys, of settings and of the files that hold them.
-/

namespace ObjectFlush

inductive SetupError where
  | invalidKey (reason : String)
  | config (reason : String)
  | plan (error : PlanError)
  /-- A text that is not JSON, or not the record it should be. -/
  | serialization
  | file (error : FileError)
  deriving DecidableEq, Repr

def SetupError.message : SetupError → String
  | .invalidKey reason => s!"Invalid object key: {reason}"
  | .config reason => s!"Invalid configuration: {reason}"
  | .plan error => s!"Plan error: {error.message}"
  | .serialization => "Serialization error: the text is not a valid record"
  | .file error => s!"IO error: {error.message}"

end ObjectFlush
