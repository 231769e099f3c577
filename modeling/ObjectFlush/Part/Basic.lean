import ObjectFlush.Object.Basic
import ObjectFlush.Part.LocalFile
import ObjectFlush.Plan.Basic

/-!
Parts tied to their bytes: a planned part bound to a file, to a buffer that holds the whole object,
or to a range of the stored object.
-/

namespace ObjectFlush

/-- Where the fresh bytes of all parts of one object come from. -/
inductive FreshContent where
  | file (file : LocalFile)
  | buffer (data : Bytes)

/-- Where the bytes of one part come from. -/
inductive PartContent where
  | file (file : LocalFile) (offset : Nat)
  | buffer (data : Bytes) (cursor : Nat)
  | copy (source : StoredRange)

/-- One part to send. -/
structure BoundPart where
  number : Nat
  size : Nat
  source : PartContent

namespace PartContent

def isCopy : PartContent → Bool
  | .copy _ => true
  | _ => false

end PartContent

namespace BoundPart

/-- The bytes of the part. A part that the store copies has none. -/
def read (p : BoundPart) : Except FileError Bytes :=
  match p.source with
  | .file file offset => file.read offset p.size
  | .buffer data cursor =>
    match data.slice? cursor p.size with
    | some bytes => .ok bytes
    | none => .error .shortBuffer
  | .copy _ => .error .noLocalBytes

end BoundPart

/-- Ties a planned part to its bytes. What is copied is copied from `key`. -/
def Portion.bind (p : Portion) (source : FreshContent) (key : ObjectKey) : BoundPart :=
  { number := p.number
    size := p.size
    source :=
      match p.kind, source with
      | .copy, _ => .copy ⟨key, p.offset, p.size⟩
      | .upload, .file file => .file file p.offset
      | .upload, .buffer data => .buffer data p.offset }

/-- Ties every planned part to the same bytes. -/
def bindPortions (parts : List Portion) (source : FreshContent) (key : ObjectKey) :
    List BoundPart :=
  parts.map (·.bind source key)

end ObjectFlush
