import ObjectFlush.Command.Arguments
import ObjectFlush.Command.Workspace
import ObjectFlush.Object.Record
import ObjectFlush.Sync.Basic
import ObjectFlush.Sync.Range

/-!
The command: settings are taken from a file and overridden by arguments, the store is opened, and
the object is brought up to date with the local file. What was written is reported as JSON; the
first failure ends the command.
-/

namespace ObjectFlush

inductive CommandError where
  /-- The settings file cannot be taken. -/
  | loading (path : String) (cause : SetupError)
  | setup (error : SetupError)
  | range (error : RangeTextError)
  /-- The directory of the store cannot be made. -/
  | directory (cause : FileError)
  /-- What is at the path is no store. -/
  | openingStore (path : String)
  | sync (error : SyncError)
  deriving DecidableEq, Repr

def CommandError.message : CommandError → String
  | .loading path _ => s!"loading {path}"
  | .setup error => error.message
  | .range error => error.message
  | .directory cause => cause.message
  | .openingStore path => s!"opening store at {path}"
  | .sync error => error.message

/-- What the command tells its caller. -/
structure Report where
  code : Nat
  output : String := ""
  errors : String := ""
  deriving DecidableEq, Repr

namespace Arguments

/-- The settings: those of the file, if one is named, with what the arguments override. -/
def settings (a : Arguments) (w : Workspace) : Except CommandError Settings := do
  let base ←
    match a.config with
    | some path => (Settings.load (w.read path)).mapError (.loading path)
    | none => pure {}
  let acl ←
    match a.acl with
    | some text => (Acl.parse text).mapError .setup
    | none => pure base.store.acl
  let signature ←
    match a.signature with
    | some text => (Signature.parse text).mapError .setup
    | none => pure base.store.signature
  let settings : Settings :=
    { upload := { base.upload with concurrency := a.concurrency.getD base.upload.concurrency }
      store := { base.store with acl, signature } }
  settings.upload.validate.mapError .setup
  return settings

/-- What has to be brought up to date. -/
def request (a : Arguments) (w : Workspace) : Except CommandError SyncRequest := do
  let settings ← a.settings w
  let dirty ← a.dirty.mapM fun text => (parseStartLength text).mapError .range
  let key ← (ObjectKey.ofString? a.key).mapError fun fault => .setup (.invalidKey fault.message)
  return { bucket := a.bucket, key, path := a.file, dirty, settings }

/-- Carries the arguments out. The directory of the store is made before the file is opened. -/
def run (a : Arguments) (w : Workspace) : Workspace × Except CommandError ObjectSummary :=
  match a.request w with
  | .error e => (w, .error e)
  | .ok request =>
    match w.ensureStore a.store with
    | (w, .error e) => (w, .error (.directory e))
    | (w, .ok ()) =>
      match w.storePlace? a.store with
      | none => (w, .error (.openingStore a.store))
      | some place =>
        let (store, result) := request.run (w.store place) (w.openFile a.file) false
        (w.setStore place store, result.mapError .sync)

end Arguments

/-- Runs the command. -/
def runCommand (w : Workspace) (args : List String) : Workspace × Report :=
  match Arguments.parse args with
  | .error .usage =>
    (w, { code := 2, errors := "error: invalid arguments\n\n" ++ Arguments.usageLine })
  | .error .help => (w, { code := 0, output := Arguments.helpText })
  | .error .version => (w, { code := 0, output := Arguments.versionText })
  | .ok a =>
    match a.run w with
    | (w, .ok written) => (w, { code := 0, output := written.toJson.pretty ++ "\n" })
    | (w, .error e) => (w, { code := 1, errors := s!"Error: {e.message}\n" })

end ObjectFlush
