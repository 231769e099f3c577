import ObjectFlush.Store.Bucket

/-!
The store: named buckets, and the number of uploads started so far, from which the next one gets a
name that was never used.
-/

namespace ObjectFlush

structure Store where
  buckets : Table String Bucket := []
  started : Nat := 0

namespace Store

/-- The characters a bucket may be named with. -/
def isNameChar (c : Char) : Bool := c.isAlphanum || c = '-' || c = '_'

/-- Bucket names are not empty and hold letters, digits, dashes and underscores only. -/
def validName (name : String) : Bool := !name.isEmpty && name.toList.all isNameChar

/-- The bucket of that name; one that was never written to is empty. -/
def bucket (s : Store) (name : String) : Except StoreError Bucket :=
  if validName name then .ok ((s.buckets.get? name).getD {})
  else .error (.invalidBucketName name)

/-- The store with another content of a bucket. -/
def setBucket (s : Store) (name : String) (b : Bucket) : Store :=
  { s with buckets := s.buckets.set name b }

/-- The name of the `n`-th upload. -/
def uploadName (n : Nat) : String := s!"upload-{n}"

/-- Starts an upload to a bucket: the store after it, and the name of the upload. -/
def startUpload (s : Store) (name : String) (b : Bucket) (key : ObjectKey) : Store × String :=
  let upload := uploadName s.started
  ({ s.setBucket name (b.startUpload upload key) with started := s.started + 1 }, upload)

end Store

end ObjectFlush
