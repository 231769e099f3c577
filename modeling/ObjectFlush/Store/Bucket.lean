import ObjectFlush.Digest.Basic
import ObjectFlush.Object.Basic
import ObjectFlush.Settings.Object
import ObjectFlush.Store.Error
import ObjectFlush.Table

/-!
A bucket: whole objects, and uploads in progress with the parts sent so far. An object is written
at once or assembled from the parts of an upload; an upload ends when it is completed or discarded,
and its parts with it.
-/

namespace ObjectFlush

/-- What is kept about an object beside its bytes. -/
structure ObjectRecord where
  size : Nat
  tag : String
  acl : Acl
  encryption : Option String
  signature : Signature
  deriving DecidableEq, Repr

structure StoredObject where
  data : Bytes
  record : ObjectRecord
  deriving DecidableEq, Repr

/-- An upload in progress. -/
structure PendingUpload where
  key : ObjectKey
  parts : Table Nat Bytes := []
  deriving DecidableEq

structure Bucket where
  objects : Table ObjectKey StoredObject := []
  uploads : Table String PendingUpload := []
  deriving DecidableEq

namespace Bucket

/-- The largest part number. -/
def maxPartNumber : Nat := 10000

/-- Writes an object with a given tag. -/
def write (b : Bucket) (key : ObjectKey) (data : Bytes) (tag : String) (options : ObjectOptions) :
    Bucket × ObjectSummary :=
  let record : ObjectRecord :=
    ⟨data.length, tag, options.acl, options.encryption.header?, options.signature⟩
  ({ b with objects := b.objects.set key ⟨data, record⟩ }, ⟨key.text, data.length, tag⟩)

/-- Writes a whole object; its tag is the digest of its bytes. -/
def put (b : Bucket) (key : ObjectKey) (data : Bytes) (options : ObjectOptions) :
    Bucket × ObjectSummary :=
  b.write key data (Digest.tag data) options

def data? (b : Bucket) (key : ObjectKey) : Option Bytes := (b.objects.get? key).map (·.data)

def record? (b : Bucket) (key : ObjectKey) : Option ObjectRecord :=
  (b.objects.get? key).map (·.record)

/-- The metadata of an object. -/
def head? (b : Bucket) (key : ObjectKey) : Option ObjectSummary :=
  (b.record? key).map fun r => ⟨key.text, r.size, r.tag⟩

/-- `length` bytes at `offset` of an object: at least one, and all of them inside. -/
def read (b : Bucket) (key : ObjectKey) (offset length : Nat) : Except StoreError Bytes :=
  match b.data? key with
  | none => .error (.objectNotFound key.text)
  | some data =>
    if length = 0 then .error (.invalidRange offset length data.length)
    else match data.slice? offset length with
      | some bytes => .ok bytes
      | none => .error (.invalidRange offset length data.length)

/-- Deletes an object, if there is one. -/
def delete (b : Bucket) (key : ObjectKey) : Bucket :=
  { b with objects := b.objects.erase key }

/-- Starts an upload under a name that is not in use. -/
def startUpload (b : Bucket) (upload : String) (key : ObjectKey) : Bucket :=
  { b with uploads := b.uploads.set upload { key } }

/-- The upload of that name. -/
def upload (b : Bucket) (upload : String) : Except StoreError PendingUpload :=
  match b.uploads.get? upload with
  | some u => .ok u
  | none => .error (.uploadNotFound upload)

/-- Stores a part and returns its tag. A part of the same number is replaced. -/
def storePart (b : Bucket) (upload : String) (number : Nat) (data : Bytes) :
    Except StoreError (Bucket × String) := do
  let u ← b.upload upload
  if number = 0 ∨ maxPartNumber < number then
    throw (.invalidPart number s!"part number must be within 1..={maxPartNumber}")
  let uploads := b.uploads.set upload { u with parts := u.parts.set number data }
  return ({ b with uploads }, Digest.tag data)

/-- Fills a part from a range of a stored object. -/
def fillPart (b : Bucket) (upload : String) (number : Nat) (source : StoredRange) :
    Except StoreError (Bucket × String) := do
  let data ← b.read source.key source.offset source.length
  b.storePart upload number data

/-- The bytes of the listed parts, one after the other. The numbers have to ascend from above
`previous`, each part has to be stored under the listed tag, and each but the last has to hold
`minSize` bytes. -/
def assemble (parts : Table Nat Bytes) (minSize previous : Nat) :
    List Receipt → Except StoreError Bytes
  | [] => .ok []
  | r :: rest =>
    if r.number ≤ previous then .error (.invalidPart r.number "parts out of order")
    else match parts.get? r.number with
      | none => .error (.invalidPart r.number "part was not uploaded")
      | some data =>
        if Digest.tag data ≠ r.tag then .error (.invalidPart r.number "etag mismatch")
        else if rest ≠ [] ∧ data.length < minSize then .error (.partTooSmall r.number)
        else match assemble parts minSize r.number rest with
          | .ok bytes => .ok (data ++ bytes)
          | .error e => .error e

/-- The tag of an object assembled from parts: the digest of their tags, and how many there are. -/
def multipartTag (receipts : List Receipt) : String :=
  s!"{Digest.ofTags (receipts.map (·.tag))}-{receipts.length}"

/-- Forgets an upload and its parts. -/
def dropUpload (b : Bucket) (upload : String) : Bucket :=
  { b with uploads := b.uploads.erase upload }

/-- Assembles the object from the listed parts and ends the upload. -/
def finishUpload (b : Bucket) (upload : String) (receipts : List Receipt) (minSize : Nat)
    (options : ObjectOptions) : Except StoreError (Bucket × ObjectSummary) := do
  let u ← b.upload upload
  if receipts = [] then throw (.invalidPart 0 "no parts listed")
  let data ← assemble u.parts minSize 0 receipts
  let (b, written) := b.write u.key data (multipartTag receipts) options
  return (b.dropUpload upload, written)

/-- Discards an upload. -/
def discardUpload (b : Bucket) (upload : String) : Except StoreError Bucket := do
  let _ ← b.upload upload
  return b.dropUpload upload

/-- The uploads in progress, with the keys they are for. -/
def pendingUploads (b : Bucket) : List (String × ObjectKey) :=
  b.uploads.map fun (n, u) => (n, u.key)

/-- The numbers of the parts stored for an upload, ascending. -/
def partNumbers (b : Bucket) (upload : String) : Except StoreError (List Nat) := do
  let u ← b.upload upload
  return u.parts.names.mergeSort

end Bucket

end ObjectFlush
