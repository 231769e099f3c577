import ObjectFlush.Store.Basic
import ObjectFlush.Exchange.Request

/-!
A bucket of the local store as an endpoint. It applies the rules that a remote store has for
completing an upload, the least size of the parts before the last among them.
-/

namespace ObjectFlush

structure LocalEndpoint where
  bucket : Bucket
  /-- How many uploads the store has started. -/
  started : Nat
  options : ObjectOptions
  minPartSize : Nat

namespace LocalEndpoint

/-- A change of the bucket as an answer: a refusal changes nothing. -/
def answer {α : Type} (e : LocalEndpoint) (result : Except StoreError (Bucket × α)) :
    LocalEndpoint × Except RequestError α :=
  match result with
  | .ok (bucket, a) => ({ e with bucket }, .ok a)
  | .error failure => (e, .error failure.toRequestError)

def serve (e : LocalEndpoint) : (r : Request) → LocalEndpoint × Except RequestError r.Answer
  | .initiate key =>
    let name := Store.uploadName e.started
    ({ e with bucket := e.bucket.startUpload name key, started := e.started + 1 }, .ok name)
  | .uploadPart upload number data => e.answer (e.bucket.storePart upload number data)
  | .copyPart upload number source => e.answer (e.bucket.fillPart upload number source)
  | .complete upload receipts =>
    e.answer (e.bucket.finishUpload upload receipts e.minPartSize e.options)
  | .abort upload => e.answer ((e.bucket.discardUpload upload).map fun b => (b, ()))
  | .put key data => e.answer (.ok (e.bucket.put key data e.options))

instance : Endpoint LocalEndpoint := ⟨serve⟩

end LocalEndpoint

namespace Store

/-- The endpoint over a bucket of the store. -/
def connect (s : Store) (name : String) (options : ObjectOptions) (minPartSize : Nat) :
    Except StoreError LocalEndpoint := do
  let bucket ← s.bucket name
  return ⟨bucket, s.started, options, minPartSize⟩

/-- The store after what an endpoint over one of its buckets has served. -/
def commit (s : Store) (name : String) (e : LocalEndpoint) : Store :=
  { s.setBucket name e.bucket with started := e.started }

end Store

end ObjectFlush
