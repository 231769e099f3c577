import ObjectFlush.Table
import ObjectFlush.Total
import ObjectFlush.Exchange.Request

/-!
An endpoint that accepts every request and stores nothing. It numbers the uploads, remembers the
size of each part, and makes up tags.
-/

namespace ObjectFlush

/-- An upload in progress: its key, and the size of each accepted part. -/
structure DryUpload where
  key : ObjectKey
  sizes : Table Nat Nat := []

/-- The uploads in progress, and how many there were. -/
structure DryRun where
  uploads : Table String DryUpload := []
  started : Nat := 0

namespace DryRun

/-- The name of the `n`-th upload. -/
def uploadName (n : Nat) : String := s!"upload-{n}"

/-- Remembers the size of a part. -/
def accept (d : DryRun) (upload : String) (number size : Nat) : DryRun :=
  match d.uploads.get? upload with
  | some u => { d with uploads := d.uploads.set upload { u with sizes := u.sizes.set number size } }
  | none => d

/-- The object that the listed parts make up. -/
def assemble (d : DryRun) (upload : String) (receipts : List Receipt) : ObjectSummary :=
  let tag := s!"mock-{receipts.length}"
  match d.uploads.get? upload with
  | some u => ⟨u.key.text, total (fun r => (u.sizes.get? r.number).getD 0) receipts, tag⟩
  | none => ⟨"", 0, tag⟩

def serve (d : DryRun) : (r : Request) → DryRun × Except RequestError r.Answer
  | .initiate key =>
    let name := uploadName d.started
    ({ uploads := d.uploads.set name { key }, started := d.started + 1 }, .ok name)
  | .uploadPart upload number data => (d.accept upload number data.length, .ok s!"etag-{number}")
  | .copyPart upload number source => (d.accept upload number source.length, .ok s!"etag-{number}")
  | .complete upload receipts => (d, .ok (d.assemble upload receipts))
  | .abort _ => (d, .ok ())
  | .put key data => (d, .ok ⟨key.text, data.length, "put"⟩)

instance : Endpoint DryRun := ⟨serve⟩

end DryRun

end ObjectFlush
