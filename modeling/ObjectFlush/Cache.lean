import ObjectFlush.Part.LocalFile

/-!
The local file that holds the contents of an open object.
-/

namespace ObjectFlush

structure Cache where
  content : SparseBytes := []
  deriving DecidableEq, Repr

namespace Cache

/-- A file that holds these bytes. -/
def ofBytes (b : Bytes) : Cache := ⟨.ofBytes b⟩

/-- The bytes of the file. -/
def bytes (f : Cache) : Bytes := f.content.toBytes

/-- The file as a source of part bytes. -/
def source (f : Cache) : LocalFile := .disk f.content

def length (f : Cache) : Nat := f.content.size

def isEmpty (f : Cache) : Bool := f.length == 0

/-- Exactly `len` bytes at `offset`. -/
def read (f : Cache) (offset len : Nat) : Except FileError Bytes := f.source.read offset len

/-- Writes at `offset`, filling a gap behind the end with zeros. Writing nothing succeeds wherever
it is written. -/
def write (f : Cache) (offset : Nat) (data : Bytes) : Except FileError Cache :=
  if data ≠ [] ∧ maxFileLength < offset + data.length then .error .offsetTooLarge
  else .ok ⟨f.content.patch offset data⟩

/-- Cuts the file off, or grows it with zeros. -/
def setLength (f : Cache) (length : Nat) : Except FileError Cache :=
  if maxFileLength < length then .error .lengthTooLarge else .ok ⟨f.content.resize length⟩

end Cache

end ObjectFlush
