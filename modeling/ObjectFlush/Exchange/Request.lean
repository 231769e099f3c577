import ObjectFlush.Bytes
import ObjectFlush.Object.Basic
import ObjectFlush.Exchange.Error

/-!
The requests that an upload makes of a store, what each is answered with, and what serves them.
-/

namespace ObjectFlush

inductive Request where
  /-- Start a multipart upload. -/
  | initiate (key : ObjectKey)
  /-- Send one part. -/
  | uploadPart (upload : String) (number : Nat) (data : Bytes)
  /-- Fill one part from a stored object. -/
  | copyPart (upload : String) (number : Nat) (source : StoredRange)
  /-- Assemble the object from the parts of the receipts. -/
  | complete (upload : String) (receipts : List Receipt)
  /-- Discard an upload and its parts. -/
  | abort (upload : String)
  /-- Write a whole object. -/
  | put (key : ObjectKey) (data : Bytes)
  deriving DecidableEq

namespace Request

/-- What a request is answered with: the name of the upload, the tag of the part, the metadata of
the object, or nothing but success. -/
def Answer : Request → Type
  | .initiate _ => String
  | .uploadPart .. => String
  | .copyPart .. => String
  | .complete .. => ObjectSummary
  | .abort _ => Unit
  | .put .. => ObjectSummary

/-- Which requests count as repetitions of one another: those of one kind, and those for one
part. -/
inductive Lane where
  | initiate
  | part (number : Nat)
  | complete
  | abort
  | put
  deriving DecidableEq, Repr

def lane : Request → Lane
  | .initiate _ => .initiate
  | .uploadPart _ number _ => .part number
  | .copyPart _ number _ => .part number
  | .complete .. => .complete
  | .abort _ => .abort
  | .put .. => .put

/-- The answer with another part tag. Only the answer of a part has one. -/
def retag (tag : String) : (r : Request) → r.Answer → r.Answer
  | .uploadPart .., _ => tag
  | .copyPart .., _ => tag
  | .initiate _, a => a
  | .complete .., a => a
  | .abort _, a => a
  | .put .., a => a

end Request

/-- What serves requests: each is answered, or refused, and leaves the endpoint in a new state. -/
class Endpoint (σ : Type) where
  serve : σ → (r : Request) → σ × Except RequestError r.Answer

end ObjectFlush
