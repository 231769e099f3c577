import ObjectFlush.FileError.Number

/-!
Failures of operations on local files: what kind they are, how they read, and the error number the
operating system gave, if it gave one.
-/

namespace ObjectFlush

/-- A failed file operation: an error number of the operating system, or a failure found by the
library itself, with its own text. -/
inductive FileError where
  | os (number : ErrorNumber)
  | custom (kind : FileErrorKind) (text : String)
  deriving DecidableEq, Repr

namespace FileError

def kind : FileError → FileErrorKind
  | .os n => n.kind
  | .custom k _ => k

/-- The error number, when the operating system gave one. -/
def number? : FileError → Option ErrorNumber
  | .os n => some n
  | .custom _ _ => none

def message : FileError → String
  | .os n => s!"{n.text} (os error {n})"
  | .custom _ text => text

/-- There is no file of that name. -/
def missingFile : FileError := .os .noEntry

/-- Something on the way to a file is no directory. -/
def notADirectory : FileError := .os .notADirectory

/-- A directory cannot be read like a file. -/
def isADirectory : FileError := .os .isADirectory

/-- A file cannot be addressed at this offset. -/
def offsetTooLarge : FileError := .os .invalidArgument

/-- There is something of that name already. -/
def fileExists : FileError := .os .fileExists

/-- A name, or a path, is longer than one can be. -/
def nameTooLong : FileError := .os .nameTooLong

/-- A file ended before the bytes asked for. -/
def shortFile : FileError := .custom .unexpectedEof "failed to fill whole buffer"

/-- An in-memory file ended before the bytes asked for. -/
def pastEnd : FileError := .custom .unexpectedEof "read past end"

/-- A buffer ended before the bytes asked for. -/
def shortBuffer : FileError := .custom .unexpectedEof "buffer too short"

/-- A part that the store copies by itself has no bytes to read here. -/
def noLocalBytes : FileError := .custom .invalidInput "copy parts carry no local bytes"

/-- A file length past the largest one a file can have. -/
def lengthTooLarge : FileError := .custom .invalidInput "number too large to fit in target type"

/-- A text file whose bytes are not UTF-8. -/
def notUtf8 : FileError := .custom .invalidData "stream did not contain valid UTF-8"

end FileError

end ObjectFlush
