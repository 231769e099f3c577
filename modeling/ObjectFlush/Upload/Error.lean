import ObjectFlush.SetupError
import ObjectFlush.Exchange.Error

/-!
Failures of uploading: of the parts of one upload, of the upload as a transaction, and of a flush as
a whole. Each tells how it reads and, for a flush, which error number it stands for.
-/

namespace ObjectFlush

/-- Where a session is in its life. -/
inductive SessionStage where
  | idle
  | initiated
  | uploading
  | completing
  | completed
  | aborting
  | aborted
  deriving DecidableEq, Repr

namespace SessionStage

def name : SessionStage → String
  | .idle => "Idle"
  | .initiated => "Initiated"
  | .uploading => "Uploading"
  | .completing => "Completing"
  | .completed => "Completed"
  | .aborting => "Aborting"
  | .aborted => "Aborted"

def all : List SessionStage :=
  [.idle, .initiated, .uploading, .completing, .completed, .aborting, .aborted]

/-- The steps of a session. They lead forward only. -/
def leadsTo : SessionStage → SessionStage → Bool
  | .idle, .initiated => true
  | .initiated, .uploading => true
  | .uploading, .completing => true
  | .completing, .completed => true
  | .initiated, .aborting | .uploading, .aborting | .completing, .aborting => true
  | .aborting, .aborted => true
  | _, _ => false

/-- Whether no step leads on. -/
def isFinal : SessionStage → Bool
  | .completed | .aborted => true
  | _ => false

end SessionStage

/-- Failure of a part run. -/
inductive PartRunError where
  /-- A part was refused, or failed too often. -/
  | partFailed (number : Nat) (cause : RequestError)
  | cancelled
  /-- The bytes of a part could not be read. -/
  | unreadable (number : Nat) (reason : String)
  deriving DecidableEq, Repr

def PartRunError.message : PartRunError → String
  | .partFailed number cause => s!"part {number} failed: {cause.message}"
  | .cancelled => "upload cancelled"
  | .unreadable number reason => s!"reading part {number} from the local cache failed: {reason}"

/-- Failure of an upload session. -/
inductive SessionError where
  | initFailed (cause : RequestError)
  | upload (error : PartRunError)
  | completeFailed (cause : RequestError)
  | abortFailed (name : String) (cause : RequestError)
  | invalidTransition (source target : SessionStage)
  deriving DecidableEq, Repr

def SessionError.message : SessionError → String
  | .initFailed cause => s!"initiating multipart upload failed: {cause.message}"
  | .upload error => error.message
  | .completeFailed cause => s!"completing multipart upload failed: {cause.message}"
  | .abortFailed name cause => s!"aborting upload {name} failed: {cause.message}"
  | .invalidTransition source target =>
    s!"invalid session transition {source.name} -> {target.name}"

/-- Failure of a flush, or of an operation on an open file. -/
inductive FlushError where
  | plan (error : PlanError)
  | session (error : SessionError)
  | request (error : RequestError)
  | config (reason : String)
  | setup (error : SetupError)
  | file (error : FileError)
  deriving DecidableEq, Repr

namespace FlushError

def message : FlushError → String
  | .plan error => s!"Plan error: {error.message}"
  | .session error => s!"Session error: {error.message}"
  | .request error => s!"Transport error: {error.message}"
  | .config reason => s!"Invalid configuration: {reason}"
  | .setup error => s!"Core error: {error.message}"
  | .file error => s!"IO error: {error.message}"

/-- The error number that a file system reports for the failure. -/
def number : FlushError → Int
  | .plan (.invalidRange ..) => ErrorNumber.invalidArgument
  | .config _ => ErrorNumber.invalidArgument
  | .setup (.invalidKey _) => ErrorNumber.invalidArgument
  | .file error => error.number?.getD ErrorNumber.inputOutput
  | .session (.upload .cancelled) => ErrorNumber.interruptedCall
  | _ => ErrorNumber.inputOutput

/-- The failure of the part run behind this one, if that is what it is. -/
def partRunError? : FlushError → Option PartRunError
  | .session (.upload error) => some error
  | _ => none

/-- The failure as that of a file operation: a file failure as it is, any other by its number. -/
def toFileError : FlushError → FileError
  | .file error => error
  | e => .os e.number

end FlushError

end ObjectFlush
