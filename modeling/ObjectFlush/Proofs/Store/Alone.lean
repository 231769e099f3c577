import Mathlib.Data.List.Forall2
import ObjectFlush.Proofs.Store.Shared

/-!
A store that nobody else uses while an upload is in progress. From its start to its end the bucket is what
it was, with one more upload (`Bucket.Beside`). Discarding that upload is never refused and gives back the
bucket as it was; completing it replaces the one object that it is for, and leaves no upload behind
(`Bucket.Replaces`). All this takes a name for the upload that no other has: a store that gives its names in
order has such a name at every time (`LocalEndpoint.Fresh`).
-/

namespace ObjectFlush

namespace Table

variable {α β : Type} [DecidableEq α] {a : α} {t : Table α β}

theorem erase_of_unused (h : get? a t = none) : t.erase a = t := by
  induction t with
  | nil => rfl
  | cons e rest ih =>
    obtain ⟨k, v⟩ := e
    simp only [get?] at h
    split at h
    · cases h
    · next hk =>
      have hrest : rest.filter (·.1 ≠ a) = rest := ih h
      rw [erase, List.filter_cons_of_pos (by simpa using hk), hrest]

theorem set_of_unused (h : get? a t = none) (b : β) : t.set a b = (a, b) :: t := by
  rw [set, erase_of_unused h]

theorem erase_cons_self (h : get? a t = none) (b : β) : erase a ((a, b) :: t) = t := by
  rw [erase, List.filter_cons_of_neg (by simp)]
  exact erase_of_unused h

theorem set_cons_self (h : get? a t = none) (b c : β) : set a c ((a, b) :: t) = (a, c) :: t := by
  rw [set, erase_cons_self h]

end Table

namespace Bucket

/-- The bucket is `origin` with one more upload, whose stored parts are all as `Part` says. -/
structure Beside (origin : Bucket) (name : String) (key : ObjectKey) (Part : Nat → Bytes → Prop)
    (b : Bucket) : Prop where
  unused : origin.uploads.get? name = none
  objects : b.objects = origin.objects
  uploads : ∃ parts, b.uploads = (name, ⟨key, parts⟩) :: origin.uploads ∧
    ∀ n data, parts.get? n = some data → Part n data

/-- The bucket is `origin` but for the object under `key`, which is new and as the summary says. -/
structure Replaces (origin : Bucket) (key : ObjectKey) (New : Bytes → Prop) (written : ObjectSummary)
    (b : Bucket) : Prop where
  uploads : b.uploads = origin.uploads
  object : ∃ o, b.objects = origin.objects.set key o ∧ New o.data ∧ o.record.size = o.data.length ∧
    written = ⟨key.text, o.data.length, o.record.tag⟩

variable {origin b b' : Bucket} {name tag : String} {key : ObjectKey} {Part : Nat → Bytes → Prop}
  {New : Bytes → Prop} {written : ObjectSummary} {number : Nat}

theorem beside_startUpload (h : origin.uploads.get? name = none) (key : ObjectKey)
    (Part : Nat → Bytes → Prop) : Beside origin name key Part (origin.startUpload name key) :=
  ⟨h, rfl, [], Table.set_of_unused h _, fun _ _ hget => by cases hget⟩

theorem Beside.storePart {data : Bytes} (h : Beside origin name key Part b)
    (hs : b.storePart name number data = .ok (b', tag)) (hdata : Part number data) :
    Beside origin name key Part b' := by
  obtain ⟨-, -, u, hu, rfl⟩ := storePart_eq_ok_iff.1 hs
  obtain ⟨parts, huploads, hparts⟩ := h.uploads
  have hfound : Table.get? name b.uploads = some ⟨key, parts⟩ := by
    rw [huploads]
    exact if_pos rfl
  obtain rfl : u = ⟨key, parts⟩ := Option.some.inj (hu.symm.trans hfound)
  refine ⟨h.unused, h.objects, parts.set number data, ?_, ?_⟩
  · show b.uploads.set name _ = _
    rw [huploads]
    exact Table.set_cons_self h.unused _ _
  · intro n d hd
    rw [Table.get?_set] at hd
    split at hd
    · next hn => cases hd; rw [hn]; exact hdata
    · exact hparts n d hd

theorem Beside.fillPart {source : StoredRange} (h : Beside origin name key Part b)
    (hf : b.fillPart name number source = .ok (b', tag))
    (hcopy : ∀ o data, origin.objects.get? source.key = some o →
      o.data.slice? source.offset source.length = some data → Part number data) :
    Beside origin name key Part b' := by
  obtain ⟨data, hread, hs⟩ := fillPart_eq_ok hf
  obtain ⟨o, ho, hslice⟩ := read_eq_ok hread
  rw [h.objects] at ho
  exact h.storePart hs (hcopy o data ho hslice)

theorem Beside.finishUpload {receipts : List Receipt} {minSize : Nat} {options : ObjectOptions}
    (h : Beside origin name key Part b)
    (hf : b.finishUpload name receipts minSize options = .ok (b', written)) :
    ∃ chunks : List Bytes, List.Forall₂ (fun (r : Receipt) chunk => Part r.number chunk) receipts chunks ∧
      Replaces origin key (· = chunks.flatten) written b' := by
  obtain ⟨u, data, hu, ha, rfl, rfl⟩ := finishUpload_eq_ok hf
  obtain ⟨parts, huploads, hparts⟩ := h.uploads
  have hfound : Table.get? name b.uploads = some ⟨key, parts⟩ := by
    rw [huploads]
    exact if_pos rfl
  obtain rfl : u = ⟨key, parts⟩ := Option.some.inj (hu.symm.trans hfound)
  obtain ⟨chunks, rfl, hchunks⟩ := assemble_eq_ok ha
  refine ⟨chunks, hchunks.imp fun (r : Receipt) chunk => hparts r.number chunk, ?_, ?_⟩
  · show Table.erase name b.uploads = _
    rw [huploads]
    exact Table.erase_cons_self h.unused _
  · refine ⟨⟨chunks.flatten, chunks.flatten.length, multipartTag receipts, options.acl,
      options.encryption.header?, options.signature⟩, ?_, rfl, rfl, rfl⟩
    show b.objects.set key _ = _
    rw [h.objects]

/-- The upload is there to be discarded, and nothing else changes with it. -/
theorem Beside.discardUpload (h : Beside origin name key Part b) : b.discardUpload name = .ok origin := by
  obtain ⟨parts, huploads, -⟩ := h.uploads
  have hfound : b.upload name = .ok ⟨key, parts⟩ := by
    rw [upload_eq_ok_iff, huploads]
    exact if_pos rfl
  have hdrop : b.dropUpload name = origin := by
    rw [dropUpload, huploads, Table.erase_cons_self h.unused, h.objects]
  rw [Bucket.discardUpload, hfound]
  exact congrArg Except.ok hdrop

theorem replaces_put (origin : Bucket) (key : ObjectKey) (data : Bytes) (options : ObjectOptions) :
    Replaces origin key (· = data) (origin.put key data options).2 (origin.put key data options).1 :=
  ⟨rfl, ⟨data, data.length, Digest.tag data, options.acl, options.encryption.header?, options.signature⟩,
    rfl, rfl, rfl, rfl⟩

theorem Replaces.imp {New' : Bytes → Prop} (h : Replaces origin key New written b)
    (himp : ∀ data, New data → New' data) : Replaces origin key New' written b := by
  obtain ⟨o, hobjects, hnew, hrest⟩ := h.object
  exact ⟨h.uploads, o, hobjects, himp _ hnew, hrest⟩

end Bucket

namespace LocalEndpoint

variable {origin : Bucket} {e : LocalEndpoint} {name : String} {key : ObjectKey}
  {Part : Nat → Bytes → Prop} {number : Nat}

/-! ## Requests -/

theorem beside_initiate (h : e.bucket.uploads.get? (Store.uploadName e.started) = none)
    (key : ObjectKey) (Part : Nat → Bytes → Prop) :
    ∃ name, (Endpoint.serve e (.initiate key)).2 = .ok name ∧
      Bucket.Beside e.bucket name key Part (Endpoint.serve e (.initiate key)).1.bucket :=
  ⟨_, rfl, Bucket.beside_startUpload h key Part⟩

theorem beside_uploadPart {data : Bytes} (h : Bucket.Beside origin name key Part e.bucket)
    (hdata : Part number data) :
    Bucket.Beside origin name key Part (Endpoint.serve e (.uploadPart name number data)).1.bucket := by
  apply answer_bucket (P := Bucket.Beside origin name key Part) h
  intro b tag hs
  exact h.storePart hs hdata

theorem beside_copyPart {source : StoredRange} (h : Bucket.Beside origin name key Part e.bucket)
    (hcopy : ∀ o data, origin.objects.get? source.key = some o →
      o.data.slice? source.offset source.length = some data → Part number data) :
    Bucket.Beside origin name key Part (Endpoint.serve e (.copyPart name number source)).1.bucket := by
  apply answer_bucket (P := Bucket.Beside origin name key Part) h
  intro b tag hf
  exact h.fillPart hf hcopy

/-- A completion replaces the object and ends the upload, or is refused without effect. -/
theorem replaces_complete (h : Bucket.Beside origin name key Part e.bucket) (receipts : List Receipt) :
    match (Endpoint.serve e (.complete name receipts)).2 with
    | .ok written => ∃ chunks : List Bytes,
        List.Forall₂ (fun (r : Receipt) chunk => Part r.number chunk) receipts chunks ∧
          Bucket.Replaces origin key (· = chunks.flatten) written
            (Endpoint.serve e (.complete name receipts)).1.bucket
    | .error _ =>
        Bucket.Beside origin name key Part (Endpoint.serve e (.complete name receipts)).1.bucket := by
  have hserve : Endpoint.serve e (.complete name receipts) =
    e.answer (e.bucket.finishUpload name receipts e.minPartSize e.options) := rfl
  rw [hserve]
  cases hf : e.bucket.finishUpload name receipts e.minPartSize e.options with
  | error failure => exact h
  | ok result => exact h.finishUpload hf

theorem restored_abort (h : Bucket.Beside origin name key Part e.bucket) :
    (Endpoint.serve e (.abort name)).1.bucket = origin := by
  have hserve : Endpoint.serve e (.abort name) =
    e.answer ((e.bucket.discardUpload name).map fun b => (b, ())) := rfl
  rw [hserve, h.discardUpload]
  rfl

/-! ## Names -/

/-- The names that are still to be given to uploads are not in use. -/
def Fresh (e : LocalEndpoint) : Prop :=
  ∀ n, e.started ≤ n → e.bucket.uploads.get? (Store.uploadName n) = none

theorem fresh_of_no_uploads (h : e.bucket.uploads = []) : e.Fresh := by
  intro n _
  rw [h]
  rfl

theorem uploadName_inj {m n : Nat} (h : Store.uploadName m = Store.uploadName n) : m = n := by
  have hnames : String.ofList (Nat.toDigits 10 m) = String.ofList (Nat.toDigits 10 n) := by
    simpa [Store.uploadName, Nat.repr_eq_ofList_toDigits] using h
  have hdigits : Nat.toDigits 10 m = Nat.toDigits 10 n := by
    simpa using congrArg String.toList hnames
  rw [← Nat.ofDigitChars_ten_toDigits (n := m), hdigits, Nat.ofDigitChars_ten_toDigits]

/-- Whatever is asked of a store, the names that it has not given yet stay free. -/
theorem Fresh.serve (h : e.Fresh) (r : Request) : (Endpoint.serve e r).1.Fresh := by
  -- No answer but that to a start counts an upload.
  have hanswer : ∀ {α : Type} {result : Except StoreError (Bucket × α)},
      (∀ b a, result = .ok (b, a) → ∀ n, e.started ≤ n → b.uploads.get? (Store.uploadName n) = none) →
        (e.answer result).1.Fresh := by
    intro α result hresult
    cases result with
    | error failure => exact h
    | ok out => exact hresult out.1 out.2 rfl
  have herase : ∀ name n, e.started ≤ n →
      (e.bucket.uploads.erase name).get? (Store.uploadName n) = none := by
    intro name n hn
    rw [Table.get?_erase, h n hn, ite_self]
  have hstore : ∀ {b : Bucket} {name tag : String} {number : Nat} {data : Bytes},
      e.bucket.storePart name number data = .ok (b, tag) →
        ∀ n, e.started ≤ n → b.uploads.get? (Store.uploadName n) = none := by
    intro b name tag number data hs n hn
    obtain ⟨-, -, u, hu, rfl⟩ := Bucket.storePart_eq_ok_iff.1 hs
    show Table.get? _ (e.bucket.uploads.set name _) = none
    have hne : Store.uploadName n ≠ name := by
      rintro rfl
      rw [h n hn] at hu
      cases hu
    rw [Table.get?_set, if_neg hne]
    exact h n hn
  cases r with
  | initiate key =>
    intro n hn
    show Table.get? _ (e.bucket.uploads.set _ _) = none
    change e.started + 1 ≤ n at hn
    have hne : Store.uploadName n ≠ Store.uploadName e.started := by
      intro heq
      have := uploadName_inj heq
      omega
    rw [Table.get?_set, if_neg hne]
    exact h n (by omega)
  | uploadPart name number data => exact hanswer fun b tag hs => hstore hs
  | copyPart name number source =>
    refine hanswer fun b tag hf => ?_
    obtain ⟨data, -, hs⟩ := Bucket.fillPart_eq_ok hf
    exact hstore hs
  | complete name receipts =>
    refine hanswer fun b written hf => ?_
    obtain ⟨u, data, -, -, rfl, -⟩ := Bucket.finishUpload_eq_ok hf
    exact herase name
  | abort name =>
    refine hanswer fun b _ hmap => ?_
    cases hd : e.bucket.discardUpload name with
    | error failure => rw [hd] at hmap; cases hmap
    | ok b' =>
      rw [hd] at hmap
      cases hmap
      rw [Bucket.discardUpload_eq_ok hd]
      exact herase name
  | put key data => exact h

end LocalEndpoint

end ObjectFlush
