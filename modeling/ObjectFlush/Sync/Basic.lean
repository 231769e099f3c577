import ObjectFlush.Dirty.Set
import ObjectFlush.Settings.File
import ObjectFlush.Store.Endpoint
import ObjectFlush.Upload.Flusher

/-!
Bringing a stored object up to date with a local file of which the changed ranges are known. When
the store has no copy, or no range was given, all of the file is dirty; so is, always, what lies
past the end of the stored object.
-/

namespace ObjectFlush

/-- A 64-bit size as a signed number: one that does not fit is negative. -/
def signedSize (n : Nat) : Int := Int.bmod n UInt64.size

/-- Records ranges with the tags from `tag` on. -/
def markAll (d : DirtySet) (tag : Nat) : List (Int × Int) → Except PlanError DirtySet
  | [] => .ok d
  | (start, length) :: rest => do
    let d ← d.mark start length tag
    markAll d (tag + 1) rest

/-- The dirty bytes of a file of `fileSize` bytes before its end is respected. -/
def bytesToSend (dirty : List (Int × Int)) (fileSize : Nat) (storedSize : Option Nat) :
    Except PlanError DirtySet :=
  match storedSize, dirty with
  | some remote, range :: rest => do
    let d ← markAll {} 1 (range :: rest)
    if remote < fileSize then d.mark (signedSize remote) (signedSize (fileSize - remote)) 0
    else return d
  | _, _ => if 0 < fileSize then DirtySet.mark {} 0 (signedSize fileSize) 0 else .ok {}

/-- The ranges of a file of `fileSize` bytes that have to be uploaded, given the ranges that were
changed and the size of the stored object. -/
def rangesToSend (dirty : List (Int × Int)) (fileSize : Nat) (storedSize : Option Nat) :
    Except PlanError DirtySet :=
  (bytesToSend dirty fileSize storedSize).map (·.truncate fileSize)

/-- What to bring up to date: the object, the file, its changed ranges, and how to upload. -/
structure SyncRequest where
  bucket : String
  key : ObjectKey
  path : String
  dirty : List (Int × Int)
  settings : Settings

inductive SyncError where
  | store (error : StoreError)
  /-- The local file cannot be opened. -/
  | opening (path : String) (cause : FileError)
  | plan (error : PlanError)
  | flush (error : FlushError)
  deriving DecidableEq, Repr

def SyncError.message : SyncError → String
  | .store error => error.message
  | .opening path _ => s!"opening {path}"
  | .plan error => error.message
  | .flush error => error.message

namespace SyncRequest

/-- The signal that cancels the flush. -/
def cancel : Signal := 0

/-- What has to be written of a file to a bucket. -/
def order (r : SyncRequest) (bucket : Bucket) (file : LocalFile) : Except PlanError FlushOrder := do
  let storedSize := (bucket.head? r.key).map (·.size)
  let dirty ← rangesToSend r.dirty file.length storedSize
  return {
    key := r.key
    source := file
    size := file.length
    dirty := dirty.ranges
    stored := storedSize.isSome
    cancel := some cancel }

/-- Brings the object up to date, given the opened file or why it cannot be opened. The requests travel under
`conditions`; `raised` and `alarms` are the signals that are raised from the start and later. -/
def runUnder (r : SyncRequest) (s : Store) (file : Except FileError LocalFile) (conditions : Conditions)
    (raised : List Signal) (alarms : List Alarm) : Store × Except SyncError ObjectSummary :=
  match s.connect r.bucket r.settings.store r.settings.upload.minPartSize with
  | .error e => (s, .error (.store e))
  | .ok endpoint =>
    match file with
    | .error e => (s, .error (.opening r.path e))
    | .ok file =>
      match r.order endpoint.bucket file with
      | .error e => (s, .error (.plan e))
      | .ok order =>
        match Flusher.new r.settings.upload with
        | .error e => (s, .error (.flush e))
        | .ok flusher =>
          let link : Link LocalEndpoint := { endpoint, conditions, raised, alarms }
          let (link, result) := (flusher.flush order).run link
          (s.commit r.bucket link.endpoint, result.mapError .flush)

/-- Brings the object up to date over a store that answers every request at once. `cancelled` tells whether the
signal is raised from the start. -/
def run (r : SyncRequest) (s : Store) (file : Except FileError LocalFile) (cancelled : Bool) :
    Store × Except SyncError ObjectSummary :=
  r.runUnder s file {} (if cancelled then [cancel] else []) []

end SyncRequest

end ObjectFlush
