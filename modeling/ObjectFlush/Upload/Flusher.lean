import ObjectFlush.Settings.Upload
import ObjectFlush.Upload.Session

/-!
Writing a file or a buffer to the store. What is small enough goes with a single request. All else
is planned and sent in parts; a plan with more parts than the store takes falls back to a single
request where that may be large enough.
-/

namespace ObjectFlush

/-- The longest pause before a repetition, in milliseconds. -/
def longestPause : Nat := 10000

def UploadSettings.repeatPolicy (s : UploadSettings) : RepeatPolicy :=
  ⟨s.retryLimit, s.retryBackoff, longestPause⟩

def UploadSettings.partPolicy (s : UploadSettings) : PartPolicy :=
  ⟨s.concurrency, s.repeatPolicy, s.partTimeout⟩

/-- Upload settings that were found consistent, and what they write. -/
structure Flusher where
  settings : UploadSettings
  valid : settings.validate = .ok ()

/-- What to write of a file. -/
structure FlushOrder where
  key : ObjectKey
  /-- The local bytes of the whole file. -/
  source : LocalFile
  size : Nat
  dirty : List DirtyRange
  /-- Whether the store holds the object, so that clean bytes can be copied from it. -/
  stored : Bool
  /-- The signal that cancels the flush. -/
  cancel : Option Signal := none

namespace Flusher

def new (settings : UploadSettings) : Except FlushError Flusher :=
  match h : settings.validate with
  | .ok () => .ok ⟨settings, h⟩
  | .error e => .error (.setup e)

/-- Writes an object with a single request. -/
def send (f : Flusher) (key : ObjectKey) (data : Bytes) :
    Dialogue (Except FlushError ObjectSummary) := do
  match ← Dialogue.persist f.settings.repeatPolicy (.put key data) with
  | .ok written => return .ok written
  | .error e => return .error (.request e)

/-- Writes a whole file with a single request, if it is not too large for one. -/
def sendFile (f : Flusher) (key : ObjectKey) (source : LocalFile) (size : Nat) :
    Dialogue (Except FlushError ObjectSummary) :=
  if f.settings.maxSinglePut < size then
    return .error (.config
      s!"{size} bytes exceeds the single put limit of {f.settings.maxSinglePut}")
  else match source.read 0 size with
    | .ok data => f.send key data
    | .error e => return .error (.file e)

/-- Sends planned parts in a session of their own. -/
def sendParts (f : Flusher) (key : ObjectKey) (parts : List Portion) (source : FreshContent)
    (cancel : Option Signal) : Dialogue (Except FlushError ObjectSummary) := do
  let session : Session := { key, policy := f.settings.partPolicy, cancel }
  match (← session.execute (bindPortions parts source key)).2 with
  | .ok written => return .ok written
  | .error e => return .error (.session e)

/-- Writes a file. -/
def flush (f : Flusher) (order : FlushOrder) : Dialogue (Except FlushError ObjectSummary) :=
  if order.size < f.settings.multipartThreshold then f.sendFile order.key order.source order.size
  else
    let bounds := { f.settings.partBounds with
      mayCopy := f.settings.copyPart && order.stored }
    match plan order.size order.dirty bounds with
    | .ok parts => f.sendParts order.key parts (.file order.source) order.cancel
    | .error (.tooManyParts needed max) =>
      if order.size ≤ f.settings.maxSinglePut then f.sendFile order.key order.source order.size
      else return .error (.plan (.tooManyParts needed max))
    | .error e => return .error (.plan e)

/-- Writes a buffer. -/
def flushBuffer (f : Flusher) (key : ObjectKey) (data : Bytes) :
    Dialogue (Except FlushError ObjectSummary) :=
  if data.length < f.settings.multipartThreshold then f.send key data
  else
    match plan data.length [] { f.settings.partBounds with mayCopy := false } with
    | .ok parts => f.sendParts key parts (.buffer data) none
    | .error (.tooManyParts needed max) =>
      if data.length ≤ f.settings.maxSinglePut then f.send key data
      else return .error (.plan (.tooManyParts needed max))
    | .error e => return .error (.plan e)

end Flusher

end ObjectFlush
