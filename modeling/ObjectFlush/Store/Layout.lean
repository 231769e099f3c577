import ObjectFlush.Store.Basic
import ObjectFlush.Store.Partition
import ObjectFlush.Text.Integer

/-!
A bucket as it is laid out in a partition. An object is two entries, one with its bytes and one with its
record; an upload is one, and each of its parts another. The name of an entry starts with its kind, and that
of a part goes on with its upload and its number, in at least five digits so that the numbers ascend with
the names. Every operation reads and writes these entries one by one.
-/

namespace ObjectFlush

/-- What is kept about an upload. -/
structure UploadRecord where
  name : String
  key : ObjectKey
  deriving DecidableEq

/-- What stands under a name: bytes, or a record. -/
inductive Entry where
  | bytes (data : Bytes)
  | object (record : ObjectRecord)
  | upload (record : UploadRecord)

/-- A number in at least five digits. -/
def padded (number : Nat) : List Char :=
  List.replicate (5 - (Nat.toDigits 10 number).length) '0' ++ Nat.toDigits 10 number

/-- The number below 2^32 that digits spell. -/
def paddedNumber? : List Char → Option Nat
  | '+' :: digits => (Text.digits (UInt32.size - 1) .tooLarge digits).toOption
  | digits => (Text.digits (UInt32.size - 1) .tooLarge digits).toOption

/-- The name of an entry: what it is about. -/
inductive EntryName where
  | data (key : ObjectKey)
  | record (key : ObjectKey)
  | upload (name : String)
  | part (name : String) (number : Nat)
  deriving DecidableEq

namespace EntryName

/-- What the names of all uploads start with. -/
def uploads : List Char := "upload:".toList

/-- What the names of all parts of an upload start with. -/
def parts (name : String) : List Char := "part:".toList ++ name.toList ++ [':']

def text : EntryName → List Char
  | .data key => "data:".toList ++ key.text.toList
  | .record key => "meta:".toList ++ key.text.toList
  | .upload name => uploads ++ name.toList
  | .part name number => parts name ++ padded number

end EntryName

/-- A bucket in a partition. -/
abbrev BucketPartition := Partition Entry

namespace BucketPartition

def entryAt? (p : BucketPartition) (name : EntryName) : Option Entry := p.get? name.text

def put (p : BucketPartition) (name : EntryName) (entry : Entry) : BucketPartition :=
  p.insert name.text entry

def clear (p : BucketPartition) (name : EntryName) : BucketPartition := p.remove name.text

/-- The bytes under a name, if bytes stand there. -/
def bytes? (p : BucketPartition) (name : EntryName) : Option Bytes :=
  match p.entryAt? name with
  | some (.bytes data) => some data
  | _ => none

/-! ## Objects -/

/-- Writes an object with a given tag: first its bytes, then its record. -/
def write (p : BucketPartition) (key : ObjectKey) (data : Bytes) (tag : String)
    (options : ObjectOptions) : BucketPartition × ObjectSummary :=
  let record : ObjectRecord :=
    ⟨data.length, tag, options.acl, options.encryption.header?, options.signature⟩
  ((p.put (.data key) (.bytes data)).put (.record key) (.object record),
    ⟨key.text, data.length, tag⟩)

def putObject (p : BucketPartition) (key : ObjectKey) (data : Bytes) (options : ObjectOptions) :
    BucketPartition × ObjectSummary :=
  p.write key data (Digest.tag data) options

def data? (p : BucketPartition) (key : ObjectKey) : Option Bytes := p.bytes? (.data key)

def record? (p : BucketPartition) (key : ObjectKey) : Except StoreError (Option ObjectRecord) :=
  match p.entryAt? (.record key) with
  | some (.object record) => .ok (some record)
  | some _ => .error .serialization
  | none => .ok none

def read (p : BucketPartition) (key : ObjectKey) (offset length : Nat) : Except StoreError Bytes :=
  match p.data? key with
  | none => .error (.objectNotFound key.text)
  | some data =>
    if length = 0 then .error (.invalidRange offset length data.length)
    else match data.slice? offset length with
      | some bytes => .ok bytes
      | none => .error (.invalidRange offset length data.length)

def delete (p : BucketPartition) (key : ObjectKey) : BucketPartition :=
  (p.clear (.record key)).clear (.data key)

/-! ## Uploads -/

def startUpload (p : BucketPartition) (upload : String) (key : ObjectKey) : BucketPartition :=
  p.put (.upload upload) (.upload ⟨upload, key⟩)

def upload (p : BucketPartition) (upload : String) : Except StoreError UploadRecord :=
  match p.entryAt? (.upload upload) with
  | some (.upload record) => .ok record
  | some _ => .error .serialization
  | none => .error (.uploadNotFound upload)

def storePart (p : BucketPartition) (upload : String) (number : Nat) (data : Bytes) :
    BucketPartition × Except StoreError String :=
  match p.upload upload with
  | .error e => (p, .error e)
  | .ok _ =>
    if number = 0 ∨ Bucket.maxPartNumber < number then
      (p, .error (.invalidPart number
        s!"part number must be within 1..={Bucket.maxPartNumber}"))
    else (p.put (.part upload number) (.bytes data), .ok (Digest.tag data))

def fillPart (p : BucketPartition) (upload : String) (number : Nat) (source : StoredRange) :
    BucketPartition × Except StoreError String :=
  match p.read source.key source.offset source.length with
  | .error e => (p, .error e)
  | .ok data => p.storePart upload number data

/-- Adds the bytes of the listed parts to `gathered`, part by part. -/
def gather (p : BucketPartition) (upload : String) (minSize previous : Nat) (gathered : Bytes) :
    List Receipt → Except StoreError Bytes
  | [] => .ok gathered
  | r :: rest =>
    if r.number ≤ previous then .error (.invalidPart r.number "parts out of order")
    else match p.bytes? (.part upload r.number) with
      | none => .error (.invalidPart r.number "part was not uploaded")
      | some data =>
        if Digest.tag data ≠ r.tag then .error (.invalidPart r.number "etag mismatch")
        else if rest ≠ [] ∧ data.length < minSize then .error (.partTooSmall r.number)
        else p.gather upload minSize r.number (gathered ++ data) rest

/-- Removes the parts of an upload one by one, and then the upload. -/
def dropUpload (p : BucketPartition) (upload : String) : BucketPartition :=
  let p : BucketPartition := (p.namesUnder (EntryName.parts upload)).foldl Partition.remove p
  p.clear (.upload upload)

def finishUpload (p : BucketPartition) (upload : String) (receipts : List Receipt) (minSize : Nat)
    (options : ObjectOptions) : BucketPartition × Except StoreError ObjectSummary :=
  match p.upload upload with
  | .error e => (p, .error e)
  | .ok record =>
    if receipts = [] then (p, .error (.invalidPart 0 "no parts listed"))
    else match p.gather upload minSize 0 [] receipts with
      | .error e => (p, .error e)
      | .ok data =>
        let (p, written) := p.write record.key data (Bucket.multipartTag receipts) options
        (p.dropUpload upload, .ok written)

def discardUpload (p : BucketPartition) (upload : String) :
    BucketPartition × Except StoreError Unit :=
  match p.upload upload with
  | .error e => (p, .error e)
  | .ok _ => (p.dropUpload upload, .ok ())

/-- The records of the uploads in progress, in the order of their names. -/
def pendingUploads (p : BucketPartition) : Except StoreError (List UploadRecord) :=
  (p.namesUnder EntryName.uploads).foldr (fun name found => do
    match p.get? name with
    | some (.upload record) => return record :: (← found)
    | some _ => throw .serialization
    | none => found) (.ok [])

/-- The numbers of the parts stored for an upload, in the order of their names. -/
def partNumbers (p : BucketPartition) (upload : String) : Except StoreError (List Nat) :=
  match p.upload upload with
  | .error e => .error e
  | .ok _ =>
    .ok ((p.namesUnder (EntryName.parts upload)).filterMap fun name =>
      paddedNumber? (name.drop (EntryName.parts upload).length))

end BucketPartition

/-! ## All buckets -/

/-- The partitions of a store, and the number of uploads started so far. -/
structure Keyspace where
  partitions : Table String BucketPartition := []
  started : Nat := 0

namespace Keyspace

/-- What is in the partition of a bucket, which may never have been opened. -/
def content (k : Keyspace) (name : String) : BucketPartition := (k.partitions.get? name).getD {}

/-- The partition of a bucket, opened or made. -/
def partition (k : Keyspace) (name : String) : Except StoreError BucketPartition :=
  if Store.validName name then .ok (k.content name) else .error (.invalidBucketName name)

def setPartition (k : Keyspace) (name : String) (p : BucketPartition) : Keyspace :=
  { k with partitions := k.partitions.set name p }

def startUpload (k : Keyspace) (name : String) (p : BucketPartition) (key : ObjectKey) :
    Keyspace × String :=
  let upload := Store.uploadName k.started
  ({ k.setPartition name (p.startUpload upload key) with started := k.started + 1 }, upload)

end Keyspace

end ObjectFlush
