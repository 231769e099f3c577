import ObjectFlush.Proofs.Store.Bucket
import ObjectFlush.Store.Endpoint

/-!
A store with other users. Before each request they may change it in any way that keeps clear of one
key: neither the object under it nor an upload for it is theirs (`Undisturbed`). What a request does
to that key is then the same as if nobody else were there. There is one lemma for each request that a
flush makes; `Gathering` is what holds from the start of its upload to the end of it.
-/

namespace ObjectFlush

/-- From `a` to `b`, the object under `key` and the uploads for it are left alone. -/
structure Undisturbed (key : ObjectKey) (a b : Bucket) : Prop where
  object : b.objects.get? key = a.objects.get? key
  uploads : ∀ name u, a.uploads.get? name = some u → u.key = key → b.uploads.get? name = some u

namespace Undisturbed

variable {key : ObjectKey} {a b c : Bucket} {name : String} {old : Option StoredObject}

theorem refl (key : ObjectKey) (b : Bucket) : Undisturbed key b b := ⟨rfl, fun _ _ h _ => h⟩

theorem trans (h : Undisturbed key a b) (h' : Undisturbed key b c) : Undisturbed key a c :=
  ⟨h'.object.trans h.object, fun name u hu hkey => h'.uploads name u (h.uploads name u hu hkey) hkey⟩

theorem stages {Part : Nat → Bytes → Prop} (h : Undisturbed key a b) (hs : a.Stages name key Part old) :
    b.Stages name key Part old := by
  obtain ⟨u, hu, hkey, hparts⟩ := hs.upload
  exact ⟨h.object.trans hs.object, u, h.uploads name u hu hkey, hkey, hparts⟩

theorem gathers {content : Nat → Bytes} (h : Undisturbed key a b) (hg : a.Gathers name key content old) :
    b.Gathers name key content old :=
  (h.stages hg.stages).gathers

end Undisturbed

/-- What holds of the bucket before an answer, and of the bucket of a result, holds after it. -/
theorem LocalEndpoint.answer_bucket {α : Type} {P : Bucket → Prop} {e : LocalEndpoint}
    {result : Except StoreError (Bucket × α)} (h : P e.bucket)
    (hok : ∀ b a, result = .ok (b, a) → P b) : P (e.answer result).1.bucket := by
  cases result with
  | error failure => exact h
  | ok r => exact hok r.1 r.2 rfl

/-- An endpoint of the local store whose other users keep clear of `key`. -/
structure SharedEndpoint (key : ObjectKey) where
  endpoint : LocalEndpoint
  /-- What the others do before the request of that number. The options and the least part size under
  which the request is served may change too. -/
  others : Nat → LocalEndpoint → LocalEndpoint
  undisturbed : ∀ n e, Undisturbed key e.bucket (others n e).bucket
  /-- How many requests were served. -/
  served : Nat := 0

namespace SharedEndpoint

variable {key : ObjectKey}

/-- The endpoint when it is the turn of the next request. -/
def next (s : SharedEndpoint key) : LocalEndpoint := s.others s.served s.endpoint

def serve (s : SharedEndpoint key) (r : Request) :
    SharedEndpoint key × Except RequestError r.Answer :=
  let (endpoint, answer) := s.next.serve r
  ({ s with endpoint, served := s.served + 1 }, answer)

instance : Endpoint (SharedEndpoint key) := ⟨serve⟩

theorem serve_eq (s : SharedEndpoint key) (r : Request) :
    Endpoint.serve s r = ({ s with endpoint := (s.next.serve r).1, served := s.served + 1 },
      (s.next.serve r).2) := rfl

/-- A store that nobody else uses. -/
def alone (key : ObjectKey) (e : LocalEndpoint) : SharedEndpoint key where
  endpoint := e
  others _ e := e
  undisturbed _ e := .refl key e.bucket

/-- The object under the key. -/
def object (s : SharedEndpoint key) : Option StoredObject := s.endpoint.bucket.objects.get? key

variable {s : SharedEndpoint key} {name : String} {number : Nat} {content : Nat → Bytes}
  {old : Option StoredObject}

/-- The object is still `old`, and an upload for the key gathers `content`. -/
def Gathers (s : SharedEndpoint key) (name : String) (content : Nat → Bytes)
    (old : Option StoredObject) : Prop :=
  s.endpoint.bucket.Gathers name key content old

/-- The object holds `data`, and the summary is of that object. -/
def Delivered (s : SharedEndpoint key) (data : Bytes) (written : ObjectSummary) : Prop :=
  s.endpoint.bucket.Delivered key data written

theorem object_next (h : s.object = old) : s.next.bucket.objects.get? key = old :=
  (s.undisturbed s.served s.endpoint).object.trans h

theorem Gathers.next (h : s.Gathers name content old) :
    s.next.bucket.Gathers name key content old :=
  (s.undisturbed s.served s.endpoint).gathers h

theorem serve_initiate (h : s.object = old) (content : Nat → Bytes) :
    ∃ name, (Endpoint.serve s (.initiate key)).2 = .ok name ∧
      (Endpoint.serve s (.initiate key)).1.Gathers name content old :=
  ⟨Store.uploadName s.next.started, rfl, Bucket.gathers_startUpload (object_next h) _ content⟩

theorem serve_uploadPart {data : Bytes} (h : s.Gathers name content old)
    (hdata : data = content number) :
    (Endpoint.serve s (.uploadPart name number data)).1.Gathers name content old := by
  apply LocalEndpoint.answer_bucket (P := fun b => b.Gathers name key content old) h.next
  intro b tag hs
  exact h.next.storePart hs hdata

theorem serve_copyPart {offset length : Nat} (h : s.Gathers name content old)
    (hcopy : ∀ o data, old = some o → o.data.slice? offset length = some data →
      data = content number) :
    (Endpoint.serve s (.copyPart name number ⟨key, offset, length⟩)).1.Gathers name content old := by
  apply LocalEndpoint.answer_bucket (P := fun b => b.Gathers name key content old) h.next
  intro b tag hf
  exact h.next.fillPart hf hcopy

/-- A completion delivers the parts in the order of the receipts, or is refused without effect. -/
theorem serve_complete (h : s.Gathers name content old) (receipts : List Receipt) :
    match (Endpoint.serve s (.complete name receipts)).2 with
    | .ok written => (Endpoint.serve s (.complete name receipts)).1.Delivered
        (receipts.map fun r => content r.number).flatten written
    | .error _ => (Endpoint.serve s (.complete name receipts)).1.Gathers name content old := by
  have hserve : s.next.serve (.complete name receipts) =
    s.next.answer (s.next.bucket.finishUpload name receipts s.next.minPartSize s.next.options) := rfl
  rw [serve_eq, hserve]
  cases hf : s.next.bucket.finishUpload name receipts s.next.minPartSize s.next.options with
  | error e => exact h.next
  | ok result => exact h.next.finishUpload hf

/-- Discarding an upload leaves every object as it is. -/
theorem serve_abort (h : s.object = old) (name : String) :
    (Endpoint.serve s (.abort name)).1.object = old := by
  apply LocalEndpoint.answer_bucket (P := fun b => b.objects.get? key = old) (object_next h)
  intro b _ hmap
  cases hd : s.next.bucket.discardUpload name with
  | error e => rw [hd] at hmap; cases hmap
  | ok b' =>
    rw [hd] at hmap
    cases hmap
    rw [Bucket.discardUpload_eq_ok hd]
    exact object_next h

theorem serve_put (s : SharedEndpoint key) (data : Bytes) :
    ∃ written, (Endpoint.serve s (.put key data)).2 = .ok written ∧
      (Endpoint.serve s (.put key data)).1.Delivered data written :=
  ⟨_, rfl, Bucket.write_delivered s.next.bucket key data (Digest.tag data) s.next.options⟩

end SharedEndpoint

end ObjectFlush
