import ObjectFlush.FileError
import ObjectFlush.SparseBytes

/-!
Local bytes that are read by position: a file on disk, a directory, which opens like a file but
cannot be read, or a file held in memory. They differ only in how they refuse. On disk every byte
that is asked for has to lie below the longest length a file can have, but asking for nothing always
succeeds; in memory even nothing has to lie inside the file.
-/

namespace ObjectFlush

/-- The longest a file can be. -/
def maxFileLength : Nat := 1 <<< 63 - 1

/-- What can be opened and read by position. -/
inductive LocalFile where
  | disk (content : SparseBytes)
  /-- A directory, which reports some size. -/
  | directory (size : Nat)
  | memory (bytes : Bytes)
  deriving DecidableEq, Repr

namespace LocalFile

/-- The length in bytes that is reported before anything is read. -/
def length : LocalFile → Nat
  | .disk content => content.size
  | .memory bytes => bytes.length
  | .directory size => size

/-- Exactly `len` bytes at `offset`. -/
def read (f : LocalFile) (offset len : Nat) : Except FileError Bytes :=
  match f with
  | .disk content =>
    if len = 0 then .ok []
    else if maxFileLength < offset + len then .error .offsetTooLarge
    else match content.slice? offset len with
      | some data => .ok data
      | none => .error .shortFile
  | .directory _ => if len = 0 then .ok [] else .error .isADirectory
  | .memory bytes =>
    match bytes.slice? offset len with
    | some data => .ok data
    | none => .error .pastEnd

end LocalFile

end ObjectFlush
