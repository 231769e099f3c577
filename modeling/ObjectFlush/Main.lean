import ObjectFlush.Command.Basic
import ObjectFlush.Store.Archive

/-!
The program: it reads the files that the arguments name, runs the command on them, and writes the
store back. A store is a directory with one archive in it.
-/

namespace ObjectFlush

/-- The directory of the store at a path: for the empty path, the working directory. -/
def storeDirectory (path : String) : String := if path = "" then "." else path

/-- The archive in the directory of the store at a path. -/
def archivePath (path : String) : String := storeDirectory path ++ "/objects.json"

/-- The workspace with what is at a path: a directory, or a file that can be read. -/
def Workspace.fetchAt (w : Workspace) (path : Path) : IO Workspace := do
  let text := (if path.absolute then "/" else "") ++ "/".intercalate path.names
  match ← (IO.FS.readBinFile text).toBaseIO with
  | .ok data => return w.write text data.toList
  | .error (.inappropriateType ..) => return (w.ensureDirectory path).1
  | .error _ => return w

/-- The workspace with what is at a path and above it. -/
def Workspace.fetch (w : Workspace) (text : String) : IO Workspace := do
  match Path.ofString text with
  | .ok path => (path :: path.ancestors).reverse.foldlM Workspace.fetchAt w
  | .error _ => return w

/-- The workspace with the store at a path, if there is one. -/
def Workspace.fetchStore (w : Workspace) (path : String) : IO Workspace := do
  match ← (IO.FS.readFile (archivePath path)).toBaseIO, w.storePlace? path with
  | .ok text, some p => return w.setStore p ((Store.parse? text).getD {})
  | _, _ => return w

/-- Writes the store at a path back, in its directory. -/
def Workspace.keepStore (w : Workspace) (path : String) : IO Unit := do
  match (w.storePlace? path).bind w.stores.get? with
  | some store =>
    IO.FS.createDirAll (storeDirectory path)
    IO.FS.writeFile (archivePath path) store.toJson.compact
  | none => return

end ObjectFlush

open ObjectFlush

def main (args : List String) : IO UInt32 := do
  let asked := Arguments.parse args
  let mut w : Workspace := {}
  if let .ok a := asked then
    for path in a.file :: a.store :: a.config.toList do
      w ← w.fetch path
    w ← w.fetchStore a.store
  let (after, report) := runCommand w args
  if let .ok a := asked then after.keepStore a.store
  IO.print report.output
  IO.eprint report.errors
  return report.code.toUInt32
