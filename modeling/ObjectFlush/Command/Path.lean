import ObjectFlush.FileError

/-!
Paths as they are written: names between slashes, from the root or from the working directory. A
path that ends in a slash leads into the directory it names last.
-/

namespace ObjectFlush

structure Path where
  /-- Whether it starts at the root. -/
  absolute : Bool
  /-- The names on the way, the last one included. -/
  names : List String
  /-- Whether it ends in a slash. -/
  slash : Bool
  deriving DecidableEq, Repr

namespace Path

/-- The bytes a path may have. -/
def maxLength : Nat := 4095

/-- The bytes a name may have. -/
def maxNameLength : Nat := 255

/-- The path that a text spells. The empty text leads nowhere. -/
def ofString (text : String) : Except FileError Path :=
  if text = "" then .error .missingFile
  else if maxLength < text.utf8ByteSize then .error .nameTooLong
  else .ok {
    absolute := text.toList.head? = some '/'
    names := (text.splitOn "/").filter (· ≠ "")
    slash := text.toList.getLast? = some '/' }

/-- The paths to the directories above, nearest first, without the one it starts from. -/
def ancestors (path : Path) : List Path :=
  let names := path.names.filter (· ≠ ".")
  ((List.range names.length).filter (0 < ·)).reverse.map fun n =>
    { path with names := names.take n, slash := false }

/-- The path to the directory above the one named last. -/
def parent (path : Path) : Path := { path with names := path.names.dropLast, slash := false }

end Path

end ObjectFlush
