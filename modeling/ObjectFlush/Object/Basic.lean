import ObjectFlush.Object.Key

/-!
What the store says about an object and its parts: the metadata of a finished object, the receipt
of an uploaded part, and the range of a stored object that a part copies.
-/

namespace ObjectFlush

/-- What the store reports about an object after a write. -/
structure ObjectSummary where
  key : String
  size : Nat
  tag : String
  deriving DecidableEq, Repr

/-- The tag the store gave for an uploaded part. -/
structure Receipt where
  number : Nat
  tag : String
  deriving DecidableEq, Repr

/-- Bytes of a stored object that a part takes without an upload. -/
structure StoredRange where
  key : ObjectKey
  offset : Nat
  length : Nat
  deriving DecidableEq

namespace StoredRange

/-- The range in the form of a request header: first and last byte, both included. -/
def header (s : StoredRange) : String := s!"bytes={s.offset}-{s.offset + s.length - 1}"

end StoredRange

end ObjectFlush
