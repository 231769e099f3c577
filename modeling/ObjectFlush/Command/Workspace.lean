import ObjectFlush.Command.Path
import ObjectFlush.Part.LocalFile
import ObjectFlush.Store.Basic

/-!
The files, directories and stores that the command sees. Finding a path takes each name on the way
from a directory that is there; a directory is made in one that is there, or together with all that
are missing above it.
-/

namespace ObjectFlush

/-- The names from the root down. -/
abbrev Place := List String

structure Workspace where
  /-- The working directory. -/
  home : Place := []
  files : Table Place Bytes := []
  /-- The directories, those on the way to the working directory apart. -/
  directories : List Place := []
  stores : Table Place Store := []

namespace Workspace

/-- The size that a directory reports. -/
def directorySize : Nat := 4096

def isFile (w : Workspace) (p : Place) : Bool := (w.files.get? p).isSome

def isDirectory (w : Workspace) (p : Place) : Bool :=
  p.isPrefixOf w.home || w.directories.contains p

/-- Where a name leads from a place. -/
def step (p : Place) (name : String) : Place :=
  if name = "." then p else if name = ".." then p.dropLast else p ++ [name]

/-- Where a name leads from a place, which has to be a directory. -/
def enter (w : Workspace) (p : Place) (name : String) : Except FileError Place :=
  if w.isFile p then .error .notADirectory
  else if !w.isDirectory p then .error .missingFile
  else if Path.maxNameLength < name.utf8ByteSize then .error .nameTooLong
  else .ok (step p name)

/-- Where a path starts. -/
def origin (w : Workspace) (path : Path) : Place := if path.absolute then [] else w.home

/-- Where a path leads, whether there is something or not. -/
def locate (w : Workspace) (path : Path) : Except FileError Place := do
  let p ← path.names.foldlM w.enter (w.origin path)
  if path.slash then w.enter p "." else return p

/-- Opens what is at a place. -/
def openAt (w : Workspace) (p : Place) : Except FileError LocalFile :=
  match w.files.get? p with
  | some data => .ok (.disk (.ofBytes data))
  | none => if w.isDirectory p then .ok (.directory directorySize) else .error .missingFile

/-- Opens what a path leads to. -/
def openFile (w : Workspace) (path : String) : Except FileError LocalFile := do
  w.openAt (← w.locate (← Path.ofString path))

/-- All bytes of the file at a path. -/
def read (w : Workspace) (path : String) : Except FileError Bytes := do
  let file ← w.openFile path
  file.read 0 file.length

/-- The directory that a path leads to, if it leads to one. -/
def directory? (w : Workspace) (path : Path) : Option Place :=
  match w.locate path with
  | .ok p => if w.isDirectory p then some p else none
  | .error _ => none

/-- Makes a directory in one that is there. -/
def makeDirectory (w : Workspace) (path : Path) : Except FileError Workspace := do
  let parent ← w.locate path.parent
  match path.names.getLast? with
  | none => throw .fileExists
  | some name =>
    let p ← w.enter parent name
    if name = "." ∨ name = ".." ∨ w.isFile p ∨ w.isDirectory p then throw .fileExists
    else return { w with directories := p :: w.directories }

/-- Sees to it that a path leads to a directory, if the one above it is there. -/
def ensureDirectory (w : Workspace) (path : Path) : Workspace × Except FileError Unit :=
  match w.makeDirectory path with
  | .ok w => (w, .ok ())
  | .error e => (w, if e = .fileExists ∧ (w.directory? path).isSome then .ok () else .error e)

/-- Sees to it that the first of these paths leads to a directory. The others lead to those above
it, nearest first; what was made of them before a failure stays. -/
def ensureDirectories (w : Workspace) : List Path → Workspace × Except FileError Unit
  | [] => (w, .ok ())
  | path :: above =>
    match w.ensureDirectory path with
    | (w, .error e) =>
      if e = .missingFile then
        match w.ensureDirectories above with
        | (w, .ok ()) => w.ensureDirectory path
        | failed => failed
      else (w, .error e)
    | made => made

/-- The workspace with a file at a path, and the directories above it. -/
def write (w : Workspace) (path : String) (data : Bytes) : Workspace :=
  match Path.ofString path with
  | .error _ => w
  | .ok path =>
    let w := (w.ensureDirectories path.ancestors).1
    match w.locate path with
    | .ok p => { w with files := w.files.set p data }
    | .error _ => w

/-! ## Stores -/

/-- Sees to it that there is something at the path of a store. The empty path leads to the working
directory. -/
def ensureStore (w : Workspace) (path : String) : Workspace × Except FileError Unit :=
  if path = "" then (w, .ok ())
  else match Path.ofString path with
    | .error e => (w, .error e)
    | .ok p =>
      if (w.openFile path).toBool then (w, .ok ()) else w.ensureDirectories (p :: p.ancestors)

/-- The directory at the path of a store, if it is one. -/
def storePlace? (w : Workspace) (path : String) : Option Place :=
  if path = "" then some w.home else (Path.ofString path).toOption.bind w.directory?

/-- The store at a place; one that was never opened is empty. -/
def store (w : Workspace) (p : Place) : Store := (w.stores.get? p).getD {}

def setStore (w : Workspace) (p : Place) (s : Store) : Workspace :=
  { w with stores := w.stores.set p s }

end Workspace

end ObjectFlush
