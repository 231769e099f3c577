import ObjectFlush.Proofs.Store.Assembly

/-!
Uploads keep apart. What an upload comes to depends on the calls that concern it and on no others
(`StoreOccasion.Concerns`): those that name it, the one that started it, and those that write or delete an
object out of some `keys`. The same calls on a store of their own are answered alike and leave the same of
the upload and of those objects (`uploads_keep_apart`), as long as nothing that is left out writes or deletes
one of these objects and the upload copies from no other. Only the name of the upload may differ: it is
whatever the store comes to when the upload is started.

The two stores are compared bucket by bucket (`Bucket.Agree`). A call that concerns the upload keeps the two
in agreement when both make it, any other when only one does.
-/

namespace ObjectFlush

/-! ## The same call for an upload of another name -/

namespace BucketCall

/-- The call with another name for its upload. -/
def under (name : String) : BucketCall → BucketCall
  | .storePart _ number data => .storePart name number data
  | .fillPart _ number source => .fillPart name number source
  | .finishUpload _ receipts minSize options => .finishUpload name receipts minSize options
  | .discardUpload _ => .discardUpload name
  | c => c

/-- The object that a call is to write or delete under its key. -/
def object? : BucketCall → Option ObjectKey
  | .put key _ _ => some key
  | .delete key => some key
  | _ => none

/-- The object that a call is to copy from. -/
def source? : BucketCall → Option ObjectKey
  | .fillPart _ _ source => some source.key
  | _ => none

/-- What a bucket has under `key` is written or deleted by the call, which may finish an upload for it. -/
def Writes (b : Bucket) (key : ObjectKey) : BucketCall → Prop
  | .put k _ _ => k = key
  | .delete k => k = key
  | .finishUpload upload _ _ _ => (b.uploads.get? upload).map (·.key) = some key
  | _ => False

instance (b : Bucket) (key : ObjectKey) : (c : BucketCall) → Decidable (c.Writes b key)
  | .put k _ _ => inferInstanceAs (Decidable (k = key))
  | .delete k => inferInstanceAs (Decidable (k = key))
  | .finishUpload upload _ _ _ =>
    inferInstanceAs (Decidable ((b.uploads.get? upload).map (·.key) = some key))
  | .startUpload _ => inferInstanceAs (Decidable False)
  | .storePart _ _ _ => inferInstanceAs (Decidable False)
  | .fillPart _ _ _ => inferInstanceAs (Decidable False)
  | .discardUpload _ => inferInstanceAs (Decidable False)

@[simp] theorem starts_under (name : String) (c : BucketCall) : (c.under name).starts = c.starts := by
  cases c <;> rfl

end BucketCall

/-- The failure with another name for the upload that is missing. -/
def StoreError.under (name : String) : StoreError → StoreError
  | .uploadNotFound _ => .uploadNotFound name
  | e => e

namespace BucketAnswer

/-- The answer with another name for the upload that was started. -/
def under (name : String) : BucketAnswer → BucketAnswer
  | .started _ => .started name
  | a => a

/-- The upload that was started. -/
def upload? : BucketAnswer → Option String
  | .started upload => some upload
  | _ => none

theorem upload?_eq_some_iff {a : BucketAnswer} {upload : String} :
    a.upload? = some upload ↔ a = .started upload := by
  cases a <;> simp [upload?]

end BucketAnswer

namespace StoreOccasion

/-- The upload that the call has started. -/
def started? (o : StoreOccasion) : Option String := o.answer.toOption.bind BucketAnswer.upload?

/-- The call is about the upload, or about one of the objects under `keys`. -/
def Concerns (o : StoreOccasion) (name upload : String) (keys : List ObjectKey) : Prop :=
  o.name = name ∧ (o.call.upload? = some upload ∨ o.started? = some upload ∨
    ∃ key ∈ keys, o.call.object? = some key)

instance (o : StoreOccasion) (name upload : String) (keys : List ObjectKey) :
    Decidable (o.Concerns name upload keys) :=
  inferInstanceAs (Decidable (_ ∧ (_ ∨ _ ∨ _)))

/-- The call has written or deleted the object under `key`. -/
def Writes (o : StoreOccasion) (name : String) (key : ObjectKey) : Prop :=
  o.name = name ∧ o.call.Writes (o.before.content name) key ∧ ∃ a, o.answer = .ok a

/-- The call is to copy from the object under `key` into the upload. -/
def Copies (o : StoreOccasion) (name upload : String) (key : ObjectKey) : Prop :=
  o.name = name ∧ o.call.upload? = some upload ∧ o.call.source? = some key

/-- The call again, with another name for its upload. -/
def again (upload : String) (o : StoreOccasion) : StoreEvent := .call o.name (o.call.under upload)

/-- The answer, with another name for its upload. -/
def answerUnder (upload : String) (o : StoreOccasion) : Except StoreError BucketAnswer :=
  (o.answer.map (·.under upload)).mapError (·.under upload)

end StoreOccasion

/-- The calls that concern an upload. -/
def concerning (course : List StoreOccasion) (name upload : String) (keys : List ObjectKey) :
    List StoreOccasion :=
  course.filter (·.Concerns name upload keys)

/-! ## Two buckets with the same upload -/

namespace Bucket

/-- The buckets hold the same of an upload, which has a name in each, and the same objects under `keys`. -/
structure Agree (b : Bucket) (upload : String) (d : Bucket) (twin : String) (keys : List ObjectKey) :
    Prop where
  upload : d.uploads.get? twin = b.uploads.get? upload
  objects : ∀ key ∈ keys, d.objects.get? key = b.objects.get? key

/-- The same operation on two buckets comes to the same: it is refused for the same reason, or it leaves
buckets that agree and gives the same answer, but for a renaming. -/
inductive Matches (upload twin : String) (keys : List ObjectKey) {α : Type} (rename : α → α) :
    Except StoreError (Bucket × α) → Except StoreError (Bucket × α) → Prop
  | refused (e : StoreError) : Matches upload twin keys rename (.error e) (.error (e.under twin))
  | granted {b d : Bucket} {a a' : α} (answer : a' = rename a) (agree : b.Agree upload d twin keys) :
    Matches upload twin keys rename (.ok (b, a)) (.ok (d, a'))

variable {b b' d : Bucket} {upload twin fresh : String} {keys : List ObjectKey}

/-! ### Failures that name no upload -/

theorem read_error_under {key : ObjectKey} {offset length : Nat} {e : StoreError}
    (h : b.read key offset length = .error e) (name : String) : e.under name = e := by
  unfold read at h
  split at h
  · cases h
    rfl
  · split at h
    · cases h
      rfl
    · split at h
      · cases h
      · cases h
        rfl

/-- A list of receipts fails for one of its parts. -/
theorem assemble_error_under {parts : Table Nat Bytes} {minSize previous : Nat} {receipts : List Receipt}
    {e : StoreError} (h : assemble parts minSize previous receipts = .error e) (name : String) :
    e.under name = e := by
  rcases assemble_verdict parts minSize receipts previous with ⟨-, chunks, hok, -⟩ | ⟨bad, e', -, herror, hpart⟩
  · cases hok.symm.trans h
  · cases herror.symm.trans h
    cases e with
    | uploadNotFound missing => cases hpart
    | _ => rfl

/-! ### One operation on two buckets -/

theorem Matches.failed {α : Type} {rename : α → α} {e : StoreError} (h : e.under twin = e) :
    Matches upload twin keys rename (.error e) (.error e) := by
  have hrefused : Matches upload twin keys rename (.error e) (.error (e.under twin)) := .refused e
  rwa [h] at hrefused

theorem Matches.map {α β : Type} {rename : α → α} {rename' : β → β} {f : α → β}
    {r r' : Except StoreError (Bucket × α)} (h : Matches upload twin keys rename r r')
    (hf : ∀ a, f (rename a) = rename' (f a)) :
    Matches upload twin keys rename' (r.map (·.map id f)) (r'.map (·.map id f)) := by
  cases h with
  | refused e => exact .refused e
  | granted answer agree =>
    subst answer
    exact .granted (hf _) agree

namespace Agree

theorem upload_eq (h : b.Agree upload d twin keys) :
    (∃ u, b.upload upload = .ok u ∧ d.upload twin = .ok u) ∨
      (b.upload upload = .error (.uploadNotFound upload) ∧ d.upload twin = .error (.uploadNotFound twin)) := by
  rw [Bucket.upload, Bucket.upload, h.upload]
  cases b.uploads.get? upload with
  | none => exact .inr ⟨rfl, rfl⟩
  | some u => exact .inl ⟨u, rfl, rfl⟩

theorem setUpload (h : b.Agree upload d twin keys) (u : PendingUpload) :
    Agree { b with uploads := b.uploads.set upload u } upload { d with uploads := d.uploads.set twin u } twin
      keys :=
  ⟨by rw [Table.get?_set, Table.get?_set, if_pos rfl, if_pos rfl], h.objects⟩

theorem dropUpload (h : b.Agree upload d twin keys) :
    (b.dropUpload upload).Agree upload (d.dropUpload twin) twin keys :=
  ⟨by rw [Bucket.dropUpload, Bucket.dropUpload, Table.get?_erase, Table.get?_erase, if_pos rfl, if_pos rfl],
    h.objects⟩

theorem write (h : b.Agree upload d twin keys) (key : ObjectKey) (data : Bytes) (tag : String)
    (options : ObjectOptions) :
    (b.write key data tag options).1.Agree upload (d.write key data tag options).1 twin keys := by
  refine ⟨h.upload, fun k hk => ?_⟩
  rw [Bucket.write, Bucket.write, Table.get?_set, Table.get?_set, h.objects k hk]

theorem delete (h : b.Agree upload d twin keys) (key : ObjectKey) :
    (b.delete key).Agree upload (d.delete key) twin keys := by
  refine ⟨h.upload, fun k hk => ?_⟩
  rw [Bucket.delete, Bucket.delete, Table.get?_erase, Table.get?_erase, h.objects k hk]

theorem read (h : b.Agree upload d twin keys) {key : ObjectKey} (hkey : key ∈ keys) (offset length : Nat) :
    d.read key offset length = b.read key offset length := by
  have hdata : d.data? key = b.data? key := by rw [Bucket.data?, Bucket.data?, h.objects key hkey]
  rw [Bucket.read, Bucket.read, hdata]

theorem storePart (h : b.Agree upload d twin keys) (number : Nat) (data : Bytes) :
    Matches upload twin keys id (b.storePart upload number data) (d.storePart twin number data) := by
  unfold Bucket.storePart
  rcases h.upload_eq with ⟨u, hb, hd⟩ | ⟨hb, hd⟩
  · rw [hb, hd]
    simp only [bind, Except.bind]
    split
    · exact .refused _
    · exact .granted rfl (h.setUpload _)
  · rw [hb, hd]
    exact .refused _

theorem fillPart (h : b.Agree upload d twin keys) (number : Nat) {source : StoredRange}
    (hsource : source.key ∈ keys) :
    Matches upload twin keys id (b.fillPart upload number source) (d.fillPart twin number source) := by
  unfold Bucket.fillPart
  rw [h.read hsource]
  cases hread : b.read source.key source.offset source.length with
  | error e => exact .failed (read_error_under hread twin)
  | ok data => exact h.storePart number data

theorem finishUpload (h : b.Agree upload d twin keys) (receipts : List Receipt) (minSize : Nat)
    (options : ObjectOptions) :
    Matches upload twin keys id (b.finishUpload upload receipts minSize options)
      (d.finishUpload twin receipts minSize options) := by
  unfold Bucket.finishUpload
  rcases h.upload_eq with ⟨u, hb, hd⟩ | ⟨hb, hd⟩
  · rw [hb, hd]
    simp only [bind, Except.bind]
    split
    · exact .refused _
    · cases ha : assemble u.parts minSize 0 receipts with
      | error e => exact .failed (assemble_error_under ha twin)
      | ok data => exact .granted rfl (h.write u.key data _ options).dropUpload
  · rw [hb, hd]
    exact .refused _

theorem discardUpload (h : b.Agree upload d twin keys) {α : Type} {rename : α → α} {a : α}
    (ha : a = rename a) :
    Matches upload twin keys rename ((b.discardUpload upload).map fun b => (b, a))
      ((d.discardUpload twin).map fun d => (d, a)) := by
  unfold Bucket.discardUpload
  rcases h.upload_eq with ⟨u, hb, hd⟩ | ⟨hb, hd⟩
  · rw [hb, hd]
    exact .granted ha h.dropUpload
  · rw [hb, hd]
    exact .refused _

/-- A call for the upload is answered alike, if it copies from none but the objects under `keys`. -/
theorem perform (h : b.Agree upload d twin keys) {c : BucketCall} (hc : c.upload? = some upload)
    (hsource : ∀ key, c.source? = some key → key ∈ keys) (fresh' : String) :
    Matches upload twin keys (BucketAnswer.under twin) (b.perform fresh c) (d.perform fresh' (c.under twin)) := by
  cases c with
  | put key data options => cases hc
  | delete key => cases hc
  | startUpload key => cases hc
  | storePart name number data =>
    cases hc
    exact (h.storePart number data).map fun _ => rfl
  | fillPart name number source =>
    cases hc
    exact (h.fillPart number (hsource source.key rfl)).map fun _ => rfl
  | finishUpload name receipts minSize options =>
    cases hc
    exact (h.finishUpload receipts minSize options).map fun _ => rfl
  | discardUpload name =>
    cases hc
    exact h.discardUpload rfl

theorem perform_object (h : b.Agree upload d twin keys) {c : BucketCall} {key : ObjectKey}
    (hc : c.object? = some key) (fresh' : String) :
    Matches upload twin keys (BucketAnswer.under twin) (b.perform fresh c) (d.perform fresh' (c.under twin)) := by
  cases c with
  | put k data options => exact .granted rfl (h.write k data _ options)
  | delete k => exact .granted rfl (h.delete k)
  | _ => cases hc

theorem perform_start (h : b.Agree upload d twin keys) (key : ObjectKey) :
    Matches upload twin keys (BucketAnswer.under twin) (b.perform upload (.startUpload key))
      (d.perform twin (.startUpload key)) :=
  .granted rfl (h.setUpload _)

end Agree

/-! ### One operation on one of them -/

theorem Outcome.upload_kept {c : BucketCall} {a : BucketAnswer} (h : b.Outcome fresh c b' a)
    (hc : c.upload? ≠ some upload) (ha : a.upload? ≠ some upload) :
    b'.uploads.get? upload = b.uploads.get? upload := by
  cases h with
  | kept call answer uploads => rw [uploads]
  | started key call answer uploads =>
    subst answer
    have hne : upload ≠ fresh := fun heq => ha (congrArg some heq.symm)
    rw [uploads, Table.get?_set, if_neg hne]
  | filled other number data u call ends part answer found uploads =>
    have hne : upload ≠ other := fun heq => hc (call.trans (congrArg some heq.symm))
    rw [uploads, Table.get?_set, if_neg hne]
  | ended other u call ends part answer found uploads =>
    have hne : upload ≠ other := fun heq => hc (call.trans (congrArg some heq.symm))
    rw [uploads, Table.get?_erase, if_neg hne]

/-- Only a start answers with the name of an upload, and that with the name it gives. -/
theorem Outcome.of_started {c : BucketCall} {a : BucketAnswer} (h : b.Outcome fresh c b' a)
    (ha : a.upload? = some upload) : ∃ key, c = .startUpload key ∧ upload = fresh := by
  obtain rfl := BucketAnswer.upload?_eq_some_iff.1 ha
  cases h with
  | kept call answer uploads => exact absurd rfl (answer upload)
  | started key call answer uploads => exact ⟨key, call, BucketAnswer.started.inj answer⟩
  | filled other number data u call ends part answer found uploads => cases answer
  | ended other u call ends part answer found uploads => exact absurd rfl (answer upload)

theorem object_kept {c : BucketCall} {a : BucketAnswer} {key : ObjectKey}
    (hp : b.perform fresh c = .ok (b', a)) (hc : ¬ c.Writes b key) :
    b'.objects.get? key = b.objects.get? key := by
  cases perform_granted hp with
  | put k data options => exact (Table.get?_set _ _ _ _).trans (if_neg fun heq => hc heq.symm)
  | delete k => exact (Table.get?_erase _ _ _).trans (if_neg fun heq => hc heq.symm)
  | startUpload k => rfl
  | storePart stored =>
    obtain ⟨-, -, u, -, rfl⟩ := storePart_eq_ok_iff.1 stored
    rfl
  | fillPart read stored =>
    obtain ⟨-, -, u, -, rfl⟩ := storePart_eq_ok_iff.1 stored
    rfl
  | finishUpload finished =>
    obtain ⟨u, data, hu, -, rfl, -⟩ := finishUpload_eq_ok finished
    refine (Table.get?_set _ _ _ _).trans (if_neg fun heq => hc ?_)
    rw [BucketCall.Writes, hu, heq]
    rfl
  | discardUpload found => rfl

/-- A call for another upload that writes none of the objects leaves the agreement as it is. -/
theorem Agree.perform_other (h : b.Agree upload d twin keys) {c : BucketCall} {a : BucketAnswer}
    (hp : b.perform fresh c = .ok (b', a)) (hc : c.upload? ≠ some upload) (ha : a.upload? ≠ some upload)
    (hkeys : ∀ key ∈ keys, ¬ c.Writes b key) : b'.Agree upload d twin keys := by
  refine ⟨h.upload.trans ((perform_outcome hp).upload_kept hc ha).symm, fun key hkey => ?_⟩
  rw [h.objects key hkey, object_kept hp (hkeys key hkey)]

end Bucket

/-! ## Two stores with the same upload -/

namespace Store

/-- The store `t` has of an upload what the bucket `name` of `s` has of it. Until `s` gives the upload its
name, `t` has none of its own to give but that of the upload, which is its `m`-th. -/
structure Agrees (s : Store) (name upload : String) (t : Store) (m : Nat) (keys : List ObjectKey) : Prop where
  bucket : (s.content name).Agree upload (t.content name) (uploadName m) keys
  named : ∀ n, s.started ≤ n → upload = uploadName n → t.started = m

variable {s t : Store} {name upload : String} {m : Nat} {keys : List ObjectKey}

/-- A call that does not concern the upload is made in `s` only. -/
theorem Agrees.perform_other (h : s.Agrees name upload t m keys) {n : String} {c : BucketCall}
    (hc : ¬ StoreOccasion.Concerns ⟨s, n, c, (s.perform n c).2⟩ name upload keys)
    (hkeys : ∀ key ∈ keys, ¬ StoreOccasion.Writes ⟨s, n, c, (s.perform n c).2⟩ name key) :
    (s.perform n c).1.Agrees name upload t m keys := by
  rcases s.perform_cases n c with ⟨e, hperform⟩ | ⟨b, a, hp, hperform⟩
  · rw [hperform]
    exact h
  · rw [hperform] at hc hkeys ⊢
    refine ⟨?_, fun k hk => h.named k (Nat.le_trans (Nat.le_add_right ..) hk)⟩
    rw [content_granted]
    split
    · next heq =>
      subst heq
      refine h.bucket.perform_other hp (fun hup => hc ⟨rfl, .inl hup⟩)
        (fun ha => hc ⟨rfl, .inr (.inl ha)⟩) fun key hkey hwrites => ?_
      exact hkeys key hkey ⟨rfl, hwrites, a, rfl⟩
    · exact h.bucket

/-- Stores agree after a call in both that comes to the same in their buckets. -/
theorem Agrees.performed (h : s.Agrees name upload t m keys) {c : BucketCall}
    (hc : validName name = true → Bucket.Matches upload (uploadName m) keys (BucketAnswer.under (uploadName m))
      ((s.content name).perform (uploadName s.started) c)
      ((t.content name).perform (uploadName t.started) (c.under (uploadName m))))
    (hnamed : ∀ n, s.started + c.starts ≤ n → upload = uploadName n → c.starts = 0) :
    (t.perform name (c.under (uploadName m))).2 =
        StoreOccasion.answerUnder (uploadName m) ⟨s, name, c, (s.perform name c).2⟩ ∧
      (s.perform name c).1.Agrees name upload (t.perform name (c.under (uploadName m))).1 m keys := by
  by_cases hvalid : validName name = true
  · rw [perform_eq hvalid, perform_eq hvalid]
    have hmatches := hc hvalid
    generalize (s.content name).perform (uploadName s.started) c = r at hmatches ⊢
    generalize (t.content name).perform (uploadName t.started) (c.under (uploadName m)) = r' at hmatches ⊢
    cases hmatches with
    | refused e => exact ⟨rfl, h⟩
    | granted answer agree =>
      refine ⟨congrArg Except.ok answer, ?_, fun n hn hup => ?_⟩
      · rwa [content_granted, content_granted, if_pos rfl, if_pos rfl]
      · have hstarts := hnamed n hn hup
        show t.started + (c.under (uploadName m)).starts = m
        rw [BucketCall.starts_under, hstarts]
        exact h.named n (Nat.le_trans (Nat.le_add_right ..) hn) hup
  · rw [perform_invalid hvalid, perform_invalid hvalid]
    exact ⟨rfl, h⟩

theorem started_of_answer {c : BucketCall}
    (h : StoreOccasion.started? ⟨s, name, c, (s.perform name c).2⟩ = some upload) :
    ∃ key, c = .startUpload key ∧ upload = uploadName s.started := by
  rcases s.perform_cases name c with ⟨e, hperform⟩ | ⟨b, a, hp, hperform⟩
  · rw [hperform] at h
    cases h
  · rw [hperform] at h
    exact (Bucket.perform_outcome hp).of_started h

/-- No call but its own changes an upload that is in progress. -/
theorem Told.upload_kept {course : List StoreOccasion} (ht : s.Told course) {key : ObjectKey}
    (hlive : Live course name upload key) {n : String} {c : BucketCall}
    (hc : n = name → c.upload? ≠ some upload) :
    ((s.perform n c).1.content name).uploads.get? upload = (s.content name).uploads.get? upload := by
  rcases s.perform_cases n c with ⟨e, hperform⟩ | ⟨b, a, hp, hperform⟩
  · rw [hperform]
  · rw [hperform, content_granted]
    split
    · next heq =>
      subst heq
      have hout := Bucket.perform_outcome hp
      refine hout.upload_kept (hc rfl) fun ha => ?_
      -- The name that is given next is not that of an upload in progress.
      obtain ⟨-, -, rfl⟩ := hout.of_started ha
      obtain ⟨u, hu, -⟩ := ((ht.uploads _ _).live key).2 hlive
      rw [ht.fresh _ (Nat.le_refl _)] at hu
      cases hu
    · rfl

/-- A call that concerns the upload is made in both stores, and is answered alike. -/
theorem Agrees.perform_own (h : s.Agrees name upload t m keys) {c : BucketCall}
    (hc : StoreOccasion.Concerns ⟨s, name, c, (s.perform name c).2⟩ name upload keys)
    (hsource : c.upload? = some upload → ∀ key, c.source? = some key → key ∈ keys) :
    (t.perform name (c.under (uploadName m))).2 =
        StoreOccasion.answerUnder (uploadName m) ⟨s, name, c, (s.perform name c).2⟩ ∧
      (s.perform name c).1.Agrees name upload (t.perform name (c.under (uploadName m))).1 m keys := by
  obtain ⟨-, hup | hstarted | ⟨key, -, hobject⟩⟩ := hc
  · refine h.performed (fun _ => h.bucket.perform hup (hsource hup) _) fun _ _ _ => ?_
    cases c <;> first | rfl | cases hup
  · obtain ⟨key, rfl, rfl⟩ := started_of_answer hstarted
    refine h.performed (fun _ => ?_) fun n hn heq => ?_
    · rw [h.named s.started (Nat.le_refl _) rfl]
      exact h.bucket.perform_start key
    · have := LocalEndpoint.uploadName_inj heq
      change s.started + 1 ≤ n at hn
      omega
  · refine h.performed (fun _ => h.bucket.perform_object hobject _) fun _ _ _ => ?_
    cases c <;> first | rfl | cases hobject

/-- What some events leave in one store, those of their calls that concern the upload leave in the other. -/
theorem Agrees.after (events : List StoreEvent) :
    ∀ {s t : Store}, s.Agrees name upload t m keys →
      (∀ o ∈ s.course events, ∀ key, o.Copies name upload key → key ∈ keys) →
      (∀ o ∈ s.course events, ¬ o.Concerns name upload keys → ∀ key ∈ keys, ¬ o.Writes name key) →
      let own := concerning (s.course events) name upload keys
      let alone := own.map (·.again (uploadName m))
      (t.course alone).map (·.answer) = own.map (·.answerUnder (uploadName m)) ∧
        (s.after events).Agrees name upload (t.after alone) m keys := by
  induction events with
  | nil => exact fun h _ _ => ⟨rfl, h⟩
  | cons event rest ih =>
    intro s t h hcopies hothers
    cases event with
    | reopen => exact ih h hcopies hothers
    | call n c =>
      have hcopiesRest := fun o ho => hcopies o (List.mem_cons_of_mem _ ho)
      have hothersRest := fun o ho => hothers o (List.mem_cons_of_mem _ ho)
      by_cases hc : StoreOccasion.Concerns ⟨s, n, c, (s.perform n c).2⟩ name upload keys
      · obtain rfl : n = name := hc.1
        have hcopiesNow : c.upload? = some upload → ∀ key, c.source? = some key → key ∈ keys :=
          fun hup key hsource => hcopies _ (List.mem_cons_self ..) key ⟨rfl, hup, hsource⟩
        obtain ⟨hanswer, hleft⟩ := h.perform_own hc hcopiesNow
        obtain ⟨hanswers, hafter⟩ := ih hleft hcopiesRest hothersRest
        have hown : concerning (s.course (.call n c :: rest)) n upload keys =
            ⟨s, n, c, (s.perform n c).2⟩ :: concerning ((s.perform n c).1.course rest) n upload keys :=
          List.filter_cons_of_pos (by simpa using hc)
        rw [hown]
        refine ⟨?_, hafter⟩
        exact congrArg₂ List.cons hanswer hanswers
      · have hown : concerning (s.course (.call n c :: rest)) name upload keys =
            concerning ((s.perform n c).1.course rest) name upload keys :=
          List.filter_cons_of_neg (by simpa using hc)
        rw [hown]
        exact ih (h.perform_other hc (hothers _ (List.mem_cons_self ..) hc)) hcopiesRest hothersRest

theorem agrees_new (name upload : String) (m : Nat) (keys : List ObjectKey) :
    Agrees {} name upload { started := m } m keys :=
  ⟨⟨rfl, fun _ _ => rfl⟩, fun _ _ _ => rfl⟩

theorem course_append (earlier later : List StoreEvent) (s : Store) :
    s.course (earlier ++ later) = s.course earlier ++ (s.after earlier).course later := by
  induction earlier generalizing s with
  | nil => rfl
  | cons event rest ih =>
    cases event with
    | call n c => exact congrArg (List.cons _) (ih _)
    | reopen => exact ih s

end Store

/-! ## What the entries show -/

/-- The partitions show the same of an upload, which has a name in each: the numbers of its parts, and the
bytes under each number. They show the same objects under `keys`. -/
structure BucketPartition.Agree (p : BucketPartition) (upload : String) (q : BucketPartition) (twin : String)
    (keys : List ObjectKey) : Prop where
  partNumbers : q.partNumbers twin = (p.partNumbers upload).mapError (·.under twin)
  parts : ∀ n, q.bytes? (.part twin n) = p.bytes? (.part upload n)
  data? : ∀ key ∈ keys, q.data? key = p.data? key
  record? : ∀ key ∈ keys, q.record? key = p.record? key

theorem Bucket.Agree.partitions {b d : Bucket} {p q : BucketPartition} {upload twin : String}
    {keys : List ObjectKey} (h : b.Agree upload d twin keys) (hp : p.Represents b) (hb : b.Tidy)
    (hq : q.Represents d) (hd : d.Tidy) : p.Agree upload q twin keys := by
  refine ⟨?_, fun n => ?_, fun key hkey => ?_, fun key hkey => ?_⟩
  · rw [hp.partNumbers hb, hq.partNumbers hd, Bucket.partNumbers, Bucket.partNumbers]
    rcases h.upload_eq with ⟨u, hup, htwin⟩ | ⟨hup, htwin⟩
    · rw [hup, htwin]
      rfl
    · rw [hup, htwin]
      rfl
  · rw [BucketPartition.bytes?, BucketPartition.bytes?, hp.entry, hq.entry, Bucket.entryAt?,
      Bucket.entryAt?, h.upload]
  · rw [hp.data?, hq.data?, Bucket.data?, Bucket.data?, h.objects key hkey]
  · rw [hp.record?, hq.record?, Bucket.record?, Bucket.record?, h.objects key hkey]

/-- **Uploads and objects do not interfere.** Of a history only the calls are kept that concern an upload or
an object under `keys`, and they are made on a store of their own. They are answered as they were in the
whole history, and at every moment the entries show the same: the numbers of the parts of the upload, their
bytes, and the objects under `keys`. The upload has to copy from objects under `keys` only, and no call that
is left out may have written or deleted one of these. The object that the upload is for may stand under
`keys`; if it does not, other uploads may even replace it, and the answers are the same still.

Whatever else is called while the upload is in progress, also the end of another upload for the same key,
leaves its parts as they are. -/
theorem uploads_keep_apart (events : List StoreEvent) (name upload : String) (keys : List ObjectKey) (m : Nat)
    (hcopies : ∀ o ∈ Store.course {} events, ∀ key, o.Copies name upload key → key ∈ keys)
    (hothers : ∀ o ∈ Store.course {} events, ¬ o.Concerns name upload keys →
      ∀ key ∈ keys, ¬ o.Writes name key) :
    let twin := Store.uploadName m
    let own := fun events => concerning (Store.course {} events) name upload keys
    let alone := fun events => (own events).map (·.again twin)
    Keyspace.answers {} events = (Store.course {} events).map (·.answer) ∧
      Keyspace.answers { started := m } (alone events) = (own events).map (·.answerUnder twin) ∧
      ∀ earlier, earlier <+: events →
        let k := Keyspace.after {} earlier
        let k' := Keyspace.after { started := m } (alone earlier)
        (k.content name).Agree upload (k'.content name) twin keys ∧
          ∀ key n c, Live (Store.course {} earlier) name upload key → (n = name → c.upload? ≠ some upload) →
            (k.content name).Agree upload ((k.perform n c).1.content name) upload [] := by
  intro twin own alone
  have hanswers := (Keyspace.carries_empty.after events Store.told_empty).1
  refine ⟨hanswers, ?_, ?_⟩
  · obtain ⟨hown, -⟩ := (Store.agrees_new name upload m keys).after events hcopies hothers
    rw [((Keyspace.carries_new m).after (alone events) (Store.told_new m)).1]
    exact hown
  · rintro earlier ⟨later, rfl⟩ k k'
    rw [Store.course_append] at hcopies hothers
    have hcarries := (Keyspace.carries_empty.after earlier Store.told_empty).2
    have hcarries' := ((Keyspace.carries_new m).after (alone earlier) (Store.told_new m)).2
    have ht := Store.Told.after earlier Store.told_empty
    have ht' := Store.Told.after (alone earlier) (Store.told_new m)
    obtain ⟨-, hagrees⟩ := (Store.agrees_new name upload m keys).after earlier
      (fun o ho => hcopies o (List.mem_append_left _ ho)) fun o ho => hothers o (List.mem_append_left _ ho)
    refine ⟨hagrees.bucket.partitions (hcarries.represents name) (ht.tidy name) (hcarries'.represents name)
      (ht'.tidy name), fun key n c hlive hc => ?_⟩
    have hkept : ((Store.after {} earlier).content name).Agree upload
        (((Store.after {} earlier).perform n c).1.content name) upload [] :=
      ⟨ht.upload_kept hlive hc, fun _ hin => absurd hin List.not_mem_nil⟩
    exact hkept.partitions (hcarries.represents name) (ht.tidy name)
      ((hcarries.perform ht n c).2.represents name) ((ht.perform n c).tidy name)

/-- Of two uploads for one key the first is discarded. The second is none the wiser: it holds what it would
hold in a store of its own, where it is the first. -/
theorem second_upload_undisturbed :
    let key : ObjectKey := ⟨"k", by decide⟩
    let source : ObjectKey := ⟨"s", by decide⟩
    let events : List StoreEvent :=
      [.call "mount" (.put source [1, 2, 3] {}), .call "mount" (.startUpload key),
        .call "mount" (.startUpload key), .call "mount" (.storePart "upload-0" 4 [7]),
        .call "mount" (.fillPart "upload-1" 4 ⟨source, 1, 2⟩), .call "other" (.delete source),
        .call "mount" (.discardUpload "upload-0")]
    let alone : List StoreEvent :=
      [.call "mount" (.put source [1, 2, 3] {}), .call "mount" (.startUpload key),
        .call "mount" (.fillPart "upload-0" 4 ⟨source, 1, 2⟩)]
    ((Keyspace.after {} events).content "mount").Agree "upload-1"
        ((Keyspace.after {} alone).content "mount") "upload-0" [key, source] ∧
      ((Keyspace.after {} events).content "mount").bytes? (.part "upload-1" 4) = some [2, 3] := by
  intro key source events alone
  have hcopies : ∀ o ∈ Store.course {} events, ∀ k, o.Copies "mount" "upload-1" k → k ∈ [key, source] := by
    have hsources : ∀ o ∈ Store.course {} events, o.call.source? = none ∨ o.call.source? = some source := by
      unfold events
      decide +kernel
    rintro o ho k ⟨-, -, hk⟩
    rcases hsources o ho with hnone | hsome
    · cases hnone.symm.trans hk
    · obtain rfl := Option.some.inj (hsome.symm.trans hk)
      simp
  have hothers : ∀ o ∈ Store.course {} events, ¬ o.Concerns "mount" "upload-1" [key, source] →
      ∀ k ∈ [key, source], ¬ o.Writes "mount" k := by
    have hwrites : ∀ o ∈ Store.course {} events, o.Concerns "mount" "upload-1" [key, source] ∨
        o.name ≠ "mount" ∨ ∀ k ∈ [key, source], ¬ o.call.Writes (o.before.content "mount") k := by
      unfold events
      decide +kernel
    rintro o ho hnot k hk ⟨hname, hcall, -⟩
    rcases hwrites o ho with hconcerns | hother | hnone
    · exact hnot hconcerns
    · exact hother hname
    · exact hnone k hk hcall
  have halone : (concerning (Store.course {} events) "mount" "upload-1" [key, source]).map
      (·.again (Store.uploadName 0)) = alone := by
    unfold events alone key source
    decide +kernel
  obtain ⟨-, -, hmoments⟩ := uploads_keep_apart events "mount" "upload-1" [key, source] 0 hcopies hothers
  obtain ⟨hagree, -⟩ := hmoments events (List.prefix_refl _)
  dsimp only at hagree
  rw [halone] at hagree
  refine ⟨hagree, ?_⟩
  have hpart : ((Keyspace.after {} alone).content "mount").bytes? (.part "upload-0" 4) = some [2, 3] := by
    unfold alone key source
    decide +kernel
  exact (hagree.parts 4).symm.trans hpart

end ObjectFlush
