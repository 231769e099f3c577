import Mathlib.Data.List.Induction
import ObjectFlush.Proofs.Store.Alone
import ObjectFlush.Proofs.Store.Listing

/-!
A store over its whole life: any sequence of calls to its buckets, refused or not, and of times at which it
is closed and opened again. What a bucket holds can be told from the calls and their answers alone (`Told`):
the uploads are those that were started and have not come to an end (`Live`), and of each part the bytes that
were last stored under its number (`LastFilled`).

The law goes by single calls. What a call leaves of the uploads of its bucket is said once
(`Bucket.Outcome`); the partitions of the store go through the same calls beside it.
-/

namespace ObjectFlush

/-- A call to a bucket that may change it. -/
inductive BucketCall where
  | put (key : ObjectKey) (data : Bytes) (options : ObjectOptions)
  | delete (key : ObjectKey)
  | startUpload (key : ObjectKey)
  | storePart (upload : String) (number : Nat) (data : Bytes)
  | fillPart (upload : String) (number : Nat) (source : StoredRange)
  | finishUpload (upload : String) (receipts : List Receipt) (minSize : Nat) (options : ObjectOptions)
  | discardUpload (upload : String)
  deriving DecidableEq

/-- What a call comes to. -/
inductive BucketAnswer where
  | written (summary : ObjectSummary)
  | started (upload : String)
  | stored (tag : String)
  | done

namespace BucketCall

/-- The upload that a call names. -/
def upload? : BucketCall → Option String
  | .storePart upload _ _ => some upload
  | .fillPart upload _ _ => some upload
  | .finishUpload upload _ _ _ => some upload
  | .discardUpload upload => some upload
  | _ => none

/-- The upload that a call is to end. -/
def ends? : BucketCall → Option String
  | .finishUpload upload _ _ _ => some upload
  | .discardUpload upload => some upload
  | _ => none

/-- The part that a call is to store in a bucket, with its upload and number. -/
def part? (b : Bucket) : BucketCall → Option (String × Nat × Bytes)
  | .storePart upload number data => some (upload, number, data)
  | .fillPart upload number source =>
    (b.read source.key source.offset source.length).toOption.map fun data => (upload, number, data)
  | _ => none

/-- How many uploads a call starts. -/
def starts : BucketCall → Nat
  | .startUpload _ => 1
  | _ => 0

end BucketCall

/-- One call to a bucket. An upload that it starts gets the name `fresh`. -/
def Bucket.perform (b : Bucket) (fresh : String) : BucketCall → Except StoreError (Bucket × BucketAnswer)
  | .put key data options => .ok ((b.put key data options).map id .written)
  | .delete key => .ok (b.delete key, .done)
  | .startUpload key => .ok (b.startUpload fresh key, .started fresh)
  | .storePart upload number data => (b.storePart upload number data).map (·.map id .stored)
  | .fillPart upload number source => (b.fillPart upload number source).map (·.map id .stored)
  | .finishUpload upload receipts minSize options =>
    (b.finishUpload upload receipts minSize options).map (·.map id .written)
  | .discardUpload upload => (b.discardUpload upload).map fun b => (b, .done)

/-- One call to a partition. -/
def BucketPartition.perform (p : BucketPartition) (fresh : String) :
    BucketCall → BucketPartition × Except StoreError BucketAnswer
  | .put key data options => (p.putObject key data options).map id fun written => .ok (.written written)
  | .delete key => (p.delete key, .ok .done)
  | .startUpload key => (p.startUpload fresh key, .ok (.started fresh))
  | .storePart upload number data => (p.storePart upload number data).map id (·.map .stored)
  | .fillPart upload number source => (p.fillPart upload number source).map id (·.map .stored)
  | .finishUpload upload receipts minSize options =>
    (p.finishUpload upload receipts minSize options).map id (·.map .written)
  | .discardUpload upload => (p.discardUpload upload).map id (·.map fun _ => .done)

namespace Store

/-- One call to the bucket of that name. What is refused changes nothing. -/
def perform (s : Store) (name : String) (c : BucketCall) : Store × Except StoreError BucketAnswer :=
  match s.bucket name with
  | .error e => (s, .error e)
  | .ok b => match b.perform (uploadName s.started) c with
    | .error e => (s, .error e)
    | .ok (b, a) => ({ s.setBucket name b with started := s.started + c.starts }, .ok a)

end Store

/-- One call to the partition of that name; what it leaves of the partition is kept, also when it fails. -/
def Keyspace.perform (k : Keyspace) (name : String) (c : BucketCall) :
    Keyspace × Except StoreError BucketAnswer :=
  match k.partition name with
  | .error e => (k, .error e)
  | .ok p =>
    let (p, answer) := p.perform (Store.uploadName k.started) c
    ({ k.setPartition name p with started := k.started + c.starts }, answer)

/-! ## One call to one bucket -/

/-- What a successful call leaves of the uploads: it starts one, stores a part of one, ends one, or leaves
them all alone. -/
inductive Bucket.Outcome (b : Bucket) (fresh : String) (c : BucketCall) (b' : Bucket) (a : BucketAnswer) : Prop
  | kept (call : c.upload? = none) (answer : ∀ upload, a ≠ .started upload)
    (uploads : b'.uploads = b.uploads)
  | started (key : ObjectKey) (call : c = .startUpload key) (answer : a = .started fresh)
    (uploads : b'.uploads = b.uploads.set fresh { key })
  | filled (upload : String) (number : Nat) (data : Bytes) (u : PendingUpload)
    (call : c.upload? = some upload) (ends : c.ends? = none) (part : c.part? b = some (upload, number, data))
    (answer : a = .stored (Digest.tag data)) (found : b.uploads.get? upload = some u)
    (uploads : b'.uploads = b.uploads.set upload { u with parts := u.parts.set number data })
  | ended (upload : String) (u : PendingUpload) (call : c.upload? = some upload) (ends : c.ends? = some upload)
    (part : c.part? b = none) (answer : ∀ upload, a ≠ .started upload) (found : b.uploads.get? upload = some u)
    (uploads : b'.uploads = b.uploads.erase upload)

namespace Bucket

variable {b b' : Bucket} {fresh : String} {c : BucketCall} {a : BucketAnswer}

theorem map_eq_ok {ε α β : Type} {x : Except ε α} {f : α → β} {y : β} (h : x.map f = .ok y) :
    ∃ v, x = .ok v ∧ f v = y := by
  cases x with
  | error e => cases h
  | ok v => exact ⟨v, rfl, Except.ok.inj h⟩

/-- What a successful call has done to the bucket, and what it is answered with. -/
inductive Granted (b : Bucket) (fresh : String) : BucketCall → Bucket → BucketAnswer → Prop
  | put (key : ObjectKey) (data : Bytes) (options : ObjectOptions) :
    Granted b fresh (.put key data options) (b.put key data options).1 (.written (b.put key data options).2)
  | delete (key : ObjectKey) : Granted b fresh (.delete key) (b.delete key) .done
  | startUpload (key : ObjectKey) : Granted b fresh (.startUpload key) (b.startUpload fresh key) (.started fresh)
  | storePart {upload tag : String} {number : Nat} {data : Bytes} {b' : Bucket}
    (stored : b.storePart upload number data = .ok (b', tag)) :
    Granted b fresh (.storePart upload number data) b' (.stored tag)
  | fillPart {upload tag : String} {number : Nat} {source : StoredRange} {data : Bytes} {b' : Bucket}
    (read : b.read source.key source.offset source.length = .ok data)
    (stored : b.storePart upload number data = .ok (b', tag)) :
    Granted b fresh (.fillPart upload number source) b' (.stored tag)
  | finishUpload {upload : String} {receipts : List Receipt} {minSize : Nat} {options : ObjectOptions}
    {b' : Bucket} {written : ObjectSummary}
    (finished : b.finishUpload upload receipts minSize options = .ok (b', written)) :
    Granted b fresh (.finishUpload upload receipts minSize options) b' (.written written)
  | discardUpload {upload : String} {u : PendingUpload} (found : b.uploads.get? upload = some u) :
    Granted b fresh (.discardUpload upload) (b.dropUpload upload) .done

theorem perform_granted (h : b.perform fresh c = .ok (b', a)) : b.Granted fresh c b' a := by
  cases c with
  | put key data options =>
    cases h
    exact .put key data options
  | delete key =>
    cases h
    exact .delete key
  | startUpload key =>
    cases h
    exact .startUpload key
  | storePart upload number data =>
    obtain ⟨⟨b₁, tag⟩, hs, heq⟩ := map_eq_ok h
    cases heq
    exact .storePart hs
  | fillPart upload number source =>
    obtain ⟨⟨b₁, tag⟩, hf, heq⟩ := map_eq_ok h
    cases heq
    obtain ⟨data, hread, hs⟩ := fillPart_eq_ok hf
    exact .fillPart hread hs
  | finishUpload upload receipts minSize options =>
    obtain ⟨⟨b₁, written⟩, hf, heq⟩ := map_eq_ok h
    cases heq
    exact .finishUpload hf
  | discardUpload upload =>
    obtain ⟨b₁, hd, heq⟩ := map_eq_ok h
    cases heq
    obtain ⟨u, hu⟩ : ∃ u, b.upload upload = .ok u := by
      cases hu : b.upload upload with
      | error e => rw [discardUpload, hu] at hd; cases hd
      | ok u => exact ⟨u, rfl⟩
    obtain rfl := discardUpload_eq_ok hd
    exact .discardUpload (upload_eq_ok_iff.1 hu)

theorem perform_outcome (h : b.perform fresh c = .ok (b', a)) : b.Outcome fresh c b' a := by
  cases perform_granted h with
  | put key data options => exact .kept rfl nofun rfl
  | delete key => exact .kept rfl nofun rfl
  | startUpload key => exact .started key rfl rfl rfl
  | storePart stored =>
    obtain ⟨-, rfl, u, hu, rfl⟩ := storePart_eq_ok_iff.1 stored
    exact .filled _ _ _ u rfl rfl rfl rfl hu rfl
  | fillPart read stored =>
    obtain ⟨-, rfl, u, hu, rfl⟩ := storePart_eq_ok_iff.1 stored
    exact .filled _ _ _ u rfl rfl (by rw [BucketCall.part?, read]; rfl) rfl hu rfl
  | finishUpload finished =>
    obtain ⟨u, data, hu, -, rfl, -⟩ := finishUpload_eq_ok finished
    exact .ended _ u rfl rfl rfl nofun hu rfl
  | discardUpload found => exact .ended _ _ rfl rfl rfl nofun found rfl

theorem Tidy.perform (h : b.Tidy) (hfresh : ':' ∉ fresh.toList) (hp : b.perform fresh c = .ok (b', a)) :
    b'.Tidy := by
  cases perform_granted hp with
  | put key data options => exact h.write key data _ options
  | delete key => exact h.delete key
  | startUpload key => exact h.startUpload hfresh key
  | storePart stored => exact h.storePart stored
  | fillPart read stored => exact h.storePart stored
  | finishUpload finished => exact h.finishUpload finished
  | discardUpload found => exact h.dropUpload _

/-- A call that names an upload which is not there is refused, a copy perhaps already for its source. -/
theorem perform_missing {upload : String} (hc : c.upload? = some upload)
    (hmissing : b.uploads.get? upload = none) (fresh : String) :
    ∃ e, b.perform fresh c = .error e ∧ (e = .uploadNotFound upload ∨
      ∃ number source, c = .fillPart upload number source ∧
        b.read source.key source.offset source.length = .error e) := by
  have hup : b.upload upload = .error (.uploadNotFound upload) := by
    rw [Bucket.upload, hmissing]
  cases c with
  | put key data options => cases hc
  | delete key => cases hc
  | startUpload key => cases hc
  | storePart u number data =>
    cases hc
    refine ⟨_, ?_, .inl rfl⟩
    rw [perform, storePart, hup]
    rfl
  | fillPart u number source =>
    cases hc
    cases hread : b.read source.key source.offset source.length with
    | error e =>
      refine ⟨e, ?_, .inr ⟨number, source, rfl, hread⟩⟩
      rw [perform, fillPart, hread]
      rfl
    | ok data =>
      refine ⟨_, ?_, .inl rfl⟩
      rw [perform, fillPart, hread]
      show ((b.storePart upload number data).map _ : Except StoreError (Bucket × BucketAnswer)) = _
      rw [storePart, hup]
      rfl
  | finishUpload u receipts minSize options =>
    cases hc
    refine ⟨_, ?_, .inl rfl⟩
    rw [perform, finishUpload, hup]
    rfl
  | discardUpload u =>
    cases hc
    refine ⟨_, ?_, .inl rfl⟩
    rw [perform, discardUpload, hup]
    rfl

end Bucket

namespace BucketPartition

variable {p : BucketPartition} {b : Bucket}

theorem Performs.map {α β : Type} {out : BucketPartition × Except StoreError α}
    {result : Except StoreError (Bucket × α)} (h : p.Performs out result) (f : α → β) :
    p.Performs (out.map id (·.map f)) (result.map (·.map id f)) := by
  cases result with
  | error e =>
    obtain rfl : out = (p, .error e) := h
    rfl
  | ok r => exact ⟨by rw [Prod.map_snd, h.1]; rfl, h.2⟩

theorem Represents.perform (h : p.Represents b) (ht : b.Tidy) {fresh : String}
    (hfresh : b.uploads.get? fresh = none) (c : BucketCall) :
    p.Performs (p.perform fresh c) (b.perform fresh c) := by
  cases c with
  | put key data options => exact ⟨rfl, h.write key data _ options⟩
  | delete key => exact ⟨rfl, h.delete key⟩
  | startUpload key => exact ⟨rfl, h.startUpload hfresh key⟩
  | storePart upload number data => exact (h.storePart upload number data).map _
  | fillPart upload number source => exact (h.fillPart upload number source).map _
  | finishUpload upload receipts minSize options =>
    exact (h.finishUpload ht upload receipts minSize options).map _
  | discardUpload upload =>
    have hd := (h.discardUpload ht upload).map fun _ => BucketAnswer.done
    have hboth : ((b.discardUpload upload).map fun b => (b, ())).map (·.map id fun _ => .done) =
        (b.discardUpload upload).map fun b => (b, BucketAnswer.done) := by
      cases b.discardUpload upload <;> rfl
    rwa [hboth] at hd

end BucketPartition

/-! ## Histories -/

/-- What happens to a store: a call to the bucket of a name, or that it is closed and opened again. -/
inductive StoreEvent where
  | call (name : String) (c : BucketCall)
  | reopen
  deriving DecidableEq

/-- A call in a history, with the store that it found and the answer that it got. -/
structure StoreOccasion where
  before : Store
  name : String
  call : BucketCall
  answer : Except StoreError BucketAnswer

namespace Store

/-- The store after some events. All of it is on disk: one that is opened again is what it was. -/
def after (s : Store) : List StoreEvent → Store
  | [] => s
  | .call name c :: rest => (s.perform name c).1.after rest
  | .reopen :: rest => s.after rest

/-- The calls among some events. -/
def course (s : Store) : List StoreEvent → List StoreOccasion
  | [] => []
  | .call name c :: rest => ⟨s, name, c, (s.perform name c).2⟩ :: (s.perform name c).1.course rest
  | .reopen :: rest => s.course rest

/-- What is in the bucket of that name, which may never have been written to. -/
def content (s : Store) (name : String) : Bucket := (s.buckets.get? name).getD {}

theorem bucket_eq_ok_iff {s : Store} {name : String} {b : Bucket} :
    s.bucket name = .ok b ↔ validName name = true ∧ b = s.content name := by
  unfold bucket content
  split
  · next h => simp [h, eq_comm]
  · next h => simp [h]

@[simp] theorem content_setBucket (s : Store) (name other : String) (b : Bucket) :
    (s.setBucket name b).content other = if other = name then b else s.content other := by
  simp only [content, setBucket, Table.get?_set]
  split <;> rfl

theorem perform_eq {s : Store} {name : String} (hvalid : validName name = true) (c : BucketCall) :
    s.perform name c = match (s.content name).perform (uploadName s.started) c with
      | .error e => (s, .error e)
      | .ok (b, a) => ({ s.setBucket name b with started := s.started + c.starts }, .ok a) := by
  have hbucket : s.bucket name = .ok (s.content name) := bucket_eq_ok_iff.2 ⟨hvalid, rfl⟩
  cases hp : (s.content name).perform (uploadName s.started) c with
  | error e => simp only [perform, hbucket, hp]
  | ok out => simp only [perform, hbucket, hp]

theorem perform_invalid {s : Store} {name : String} (hinvalid : ¬ validName name = true) (c : BucketCall) :
    s.perform name c = (s, .error (.invalidBucketName name)) := by
  rw [perform, bucket, if_neg hinvalid]

/-- A call is refused and changes nothing, or the bucket of that name grants it. -/
theorem perform_cases (s : Store) (name : String) (c : BucketCall) :
    (∃ e, s.perform name c = (s, .error e)) ∨
      ∃ b a, (s.content name).perform (uploadName s.started) c = .ok (b, a) ∧
        s.perform name c = ({ s.setBucket name b with started := s.started + c.starts }, .ok a) := by
  by_cases hvalid : validName name = true
  · cases hp : (s.content name).perform (uploadName s.started) c with
    | error e => exact .inl ⟨e, by rw [perform_eq hvalid, hp]⟩
    | ok out => exact .inr ⟨out.1, out.2, rfl, by rw [perform_eq hvalid, hp]⟩
  · exact .inl ⟨_, perform_invalid hvalid c⟩

theorem content_granted (s : Store) (name : String) (b : Bucket) (started : Nat) (other : String) :
    content { s.setBucket name b with started := started } other = if other = name then b else s.content other :=
  s.content_setBucket name other b

end Store

namespace Keyspace

def after (k : Keyspace) : List StoreEvent → Keyspace
  | [] => k
  | .call name c :: rest => (k.perform name c).1.after rest
  | .reopen :: rest => k.after rest

def answers (k : Keyspace) : List StoreEvent → List (Except StoreError BucketAnswer)
  | [] => []
  | .call name c :: rest => (k.perform name c).2 :: (k.perform name c).1.answers rest
  | .reopen :: rest => k.answers rest

@[simp] theorem content_setPartition (k : Keyspace) (name other : String) (p : BucketPartition) :
    (k.setPartition name p).content other = if other = name then p else k.content other := by
  simp only [content, setPartition, Table.get?_set]
  split <;> rfl

end Keyspace

namespace StoreOccasion

/-- The call starts an upload for `key`. -/
def Starts (o : StoreOccasion) (name upload : String) (key : ObjectKey) : Prop :=
  o.name = name ∧ o.call = .startUpload key ∧ o.answer = .ok (.started upload)

/-- The call stores `data` as a part of an upload. -/
def Fills (o : StoreOccasion) (name upload : String) (number : Nat) (data : Bytes) : Prop :=
  o.name = name ∧ o.call.part? (o.before.content name) = some (upload, number, data) ∧
    ∃ a, o.answer = .ok a

/-- The call finishes or discards an upload. -/
def Ends (o : StoreOccasion) (name upload : String) : Prop :=
  o.name = name ∧ o.call.ends? = some upload ∧ ∃ a, o.answer = .ok a

end StoreOccasion

section

variable (course : List StoreOccasion) (name upload : String)

/-- An upload was started for `key`, and has neither been finished nor discarded. -/
def Live (key : ObjectKey) : Prop :=
  (∃ o ∈ course, o.Starts name upload key) ∧ ∀ o ∈ course, ¬ o.Ends name upload

/-- Some part was stored under the number. -/
def Filled (number : Nat) : Prop := ∃ o ∈ course, ∃ data, o.Fills name upload number data

/-- `data` is what was stored under the number, and nothing was stored there since. -/
def LastFilled (number : Nat) (data : Bytes) : Prop :=
  ∃ earlier o later, course = earlier ++ o :: later ∧ o.Fills name upload number data ∧
    ∀ o' ∈ later, ∀ data', ¬ o'.Fills name upload number data'

end

/-! ## What one more call adds to a history -/

namespace BucketCall

theorem upload?_of_ends? {c : BucketCall} {upload : String} (h : c.ends? = some upload) :
    c.upload? = some upload := by
  cases c <;> first | exact h | cases h

theorem upload?_of_part? {c : BucketCall} {b : Bucket} {upload : String} {number : Nat} {data : Bytes}
    (h : c.part? b = some (upload, number, data)) : c.upload? = some upload := by
  cases c with
  | storePart u n d =>
    cases h
    rfl
  | fillPart u n source =>
    obtain ⟨d, -, heq⟩ := Option.map_eq_some_iff.1 h
    cases heq
    rfl
  | _ => cases h

end BucketCall

namespace StoreOccasion

variable {o : StoreOccasion} {name upload : String}

/-- The call is not about the upload, or was refused. -/
def Spares (o : StoreOccasion) (name upload : String) : Prop :=
  o.name = name → ∀ a, o.answer = .ok a → a ≠ .started upload ∧ o.call.upload? ≠ some upload

theorem Spares.not_starts (h : o.Spares name upload) (key : ObjectKey) : ¬ o.Starts name upload key :=
  fun ⟨hname, _, hanswer⟩ => (h hname _ hanswer).1 rfl

theorem Spares.not_fills (h : o.Spares name upload) (number : Nat) (data : Bytes) :
    ¬ o.Fills name upload number data :=
  fun ⟨hname, hpart, a, hanswer⟩ => (h hname a hanswer).2 (BucketCall.upload?_of_part? hpart)

theorem Spares.not_ends (h : o.Spares name upload) : ¬ o.Ends name upload :=
  fun ⟨hname, hends, a, hanswer⟩ => (h hname a hanswer).2 (BucketCall.upload?_of_ends? hends)

end StoreOccasion

section

variable {course : List StoreOccasion} {o : StoreOccasion} {name upload : String}

theorem live_append_iff {key : ObjectKey} (hstarts : ¬ o.Starts name upload key)
    (hends : ¬ o.Ends name upload) :
    Live (course ++ [o]) name upload key ↔ Live course name upload key := by
  simp only [Live, List.mem_append, List.mem_singleton, or_and_right, exists_or, exists_eq_left, hstarts,
    or_false, or_imp, forall_and, forall_eq, hends, not_false_eq_true, and_true]

theorem not_live_append {key : ObjectKey} (hends : o.Ends name upload) :
    ¬ Live (course ++ [o]) name upload key :=
  fun h => h.2 o (by simp) hends

theorem live_append_of_starts {key key' : ObjectKey} (hbefore : ∀ o' ∈ course, o'.Spares name upload)
    (ho : o.Starts name upload key) : Live (course ++ [o]) name upload key' ↔ key' = key := by
  constructor
  · rintro ⟨⟨o', ho', hstarts⟩, -⟩
    rcases List.mem_append.1 ho' with hin | hin
    · exact absurd hstarts ((hbefore o' hin).not_starts key')
    · obtain rfl := List.mem_singleton.1 hin
      exact BucketCall.startUpload.inj (hstarts.2.1.symm.trans ho.2.1)
  · rintro rfl
    refine ⟨⟨o, by simp, ho⟩, ?_⟩
    intro o' ho'
    rcases List.mem_append.1 ho' with hin | hin
    · exact (hbefore o' hin).not_ends
    · obtain rfl := List.mem_singleton.1 hin
      rintro ⟨-, hends, -⟩
      rw [ho.2.1] at hends
      cases hends

theorem lastFilled_append_iff {number : Nat} {data : Bytes} :
    LastFilled (course ++ [o]) name upload number data ↔ o.Fills name upload number data ∨
      (∀ data', ¬ o.Fills name upload number data') ∧ LastFilled course name upload number data := by
  constructor
  · -- The last time is the new call itself, or it lies in the old history and the new call fills nothing.
    rintro ⟨earlier, o', later, hcourse, hfills, hlater⟩
    rcases List.eq_nil_or_concat later with rfl | ⟨before, last, rfl⟩
    · obtain ⟨-, hlast⟩ := List.append_inj' hcourse rfl
      obtain rfl := List.singleton_inj.1 hlast
      exact .inl hfills
    · have hsplit : course ++ [o] = (earlier ++ o' :: before) ++ [last] := by
        rw [hcourse, List.concat_eq_append, List.append_assoc, List.cons_append]
      obtain ⟨hbefore, hlast⟩ := List.append_inj' hsplit rfl
      obtain rfl := List.singleton_inj.1 hlast
      refine .inr ⟨hlater o (by simp), earlier, o', before, hbefore, hfills, ?_⟩
      exact fun o'' ho'' => hlater o'' (by simp [ho''])
  · rintro (hfills | ⟨hnot, earlier, o', later, hcourse, hfills, hlater⟩)
    · exact ⟨course, o, [], rfl, hfills, fun _ hin => absurd hin List.not_mem_nil⟩
    · refine ⟨earlier, o', later ++ [o], by rw [hcourse]; simp, hfills, ?_⟩
      intro o'' ho''
      rcases List.mem_append.1 ho'' with hin | hin
      · exact hlater o'' hin
      · obtain rfl := List.mem_singleton.1 hin
        exact hnot

theorem StoreOccasion.Fills.unique {number : Nat} {data data' : Bytes}
    (h : o.Fills name upload number data) (h' : o.Fills name upload number data') : data = data' := by
  have hpart := h.2.1.symm.trans h'.2.1
  simpa using hpart

/-- There is one last time. -/
theorem LastFilled.unique {number : Nat} {data data' : Bytes}
    (h : LastFilled course name upload number data) (h' : LastFilled course name upload number data') :
    data = data' := by
  induction course using List.reverseRecOn with
  | nil =>
    obtain ⟨earlier, o, later, hcourse, -⟩ := h
    cases earlier <;> cases hcourse
  | append_singleton course o ih =>
    rcases lastFilled_append_iff.1 h with ho | ⟨hnot, h⟩
    · rcases lastFilled_append_iff.1 h' with ho' | ⟨hnot, -⟩
      · exact ho.unique ho'
      · exact absurd ho (hnot data)
    · rcases lastFilled_append_iff.1 h' with ho' | ⟨-, h'⟩
      · exact absurd ho' (hnot data')
      · exact ih h h'

/-- What was filled at all was filled for a last time. -/
theorem filled_iff {number : Nat} :
    Filled course name upload number ↔ ∃ data, LastFilled course name upload number data := by
  constructor
  · -- The induction is over the history from its end, where the last time is looked for.
    induction course using List.reverseRecOn with
    | nil =>
      rintro ⟨o, ho, -⟩
      exact absurd ho List.not_mem_nil
    | append_singleton course o ih =>
      rintro ⟨o', ho', data, hfills⟩
      by_cases hlast : ∃ data', o.Fills name upload number data'
      · obtain ⟨data', hfills'⟩ := hlast
        exact ⟨data', lastFilled_append_iff.2 (.inl hfills')⟩
      · have hnot : ∀ data', ¬ o.Fills name upload number data' := not_exists.1 hlast
        rcases List.mem_append.1 ho' with hin | hin
        · obtain ⟨data', hdata'⟩ := ih ⟨o', hin, data, hfills⟩
          exact ⟨data', lastFilled_append_iff.2 (.inr ⟨hnot, hdata'⟩)⟩
        · obtain rfl := List.mem_singleton.1 hin
          exact absurd hfills (hnot data)
  · rintro ⟨data, earlier, o, later, hcourse, hfills, -⟩
    exact ⟨o, by rw [hcourse]; simp, data, hfills⟩

end

/-! ## What a store holds -/

namespace Store

variable {s : Store} {course : List StoreOccasion}

/-- What the bucket holds of an upload is what the history tells of it. -/
structure TellsUpload (b : Bucket) (course : List StoreOccasion) (name upload : String) : Prop where
  live : ∀ key, (∃ u, b.uploads.get? upload = some u ∧ u.key = key) ↔ Live course name upload key
  parts : ∀ u, b.uploads.get? upload = some u →
    ∀ n data, u.parts.get? n = some data ↔ LastFilled course name upload n data

/-- What the store holds is what its history tells. Uploads have names that were given, and no others. -/
structure Told (s : Store) (course : List StoreOccasion) : Prop where
  tidy : ∀ name, (s.content name).Tidy
  given : ∀ name upload u, (s.content name).uploads.get? upload = some u →
    ∃ n < s.started, upload = uploadName n
  unused : ∀ o ∈ course, ∀ n, s.started ≤ n → ∀ name, o.Spares name (uploadName n)
  uploads : ∀ name upload, TellsUpload (s.content name) course name upload

theorem colon_not_mem_uploadName (n : Nat) : ':' ∉ (uploadName n).toList := by
  have htext : (uploadName n).toList = "upload-".toList ++ Nat.toDigits 10 n := by
    simp [uploadName, Nat.repr_eq_ofList_toDigits]
    rfl
  rw [htext, List.mem_append]
  rintro (h | h)
  · exact absurd h (by decide)
  · exact absurd (Nat.isDigit_of_mem_toDigits (by decide) (by decide) h) (by decide)

theorem Told.fresh (h : s.Told course) (name : String) {n : Nat} (hn : s.started ≤ n) :
    (s.content name).uploads.get? (uploadName n) = none := by
  cases hu : (s.content name).uploads.get? (uploadName n) with
  | none => rfl
  | some u =>
    obtain ⟨m, hm, heq⟩ := h.given name _ u hu
    have := LocalEndpoint.uploadName_inj heq
    omega

theorem TellsUpload.spared {b b' : Bucket} {name upload : String} {o : StoreOccasion}
    (h : TellsUpload b course name upload) (hb : b'.uploads.get? upload = b.uploads.get? upload)
    (ho : o.Spares name upload) : TellsUpload b' (course ++ [o]) name upload := by
  refine ⟨fun key => ?_, fun u hu n data => ?_⟩
  · rw [live_append_iff (ho.not_starts key) ho.not_ends, hb]
    exact h.live key
  · rw [hb] at hu
    rw [lastFilled_append_iff, h.parts u hu]
    simp only [ho.not_fills, not_false_eq_true, implies_true, true_and, false_or]

/-- A store that is new tells of nothing, whatever number its uploads start from. -/
theorem told_new (n : Nat) : Told { started := n } [] := by
  have hnone : ∀ name upload u, ((({ started := n } : Store).content name).uploads).get? upload ≠ some u :=
    nofun
  refine ⟨fun _ => Bucket.tidy_empty, fun name upload u hu => absurd hu (hnone name upload u),
    fun o ho => absurd ho List.not_mem_nil, fun name upload => ⟨fun key => ?_, ?_⟩⟩
  · constructor
    · rintro ⟨u, hu, -⟩
      exact absurd hu (hnone name upload u)
    · rintro ⟨⟨o, ho, -⟩, -⟩
      exact absurd ho List.not_mem_nil
  · exact fun u hu => absurd hu (hnone name upload u)

theorem told_empty : Told {} [] := told_new 0

/-- A call that is refused tells nothing. -/
theorem Told.refused (h : s.Told course) {o : StoreOccasion} {e : StoreError} (ho : o.answer = .error e) :
    s.Told (course ++ [o]) := by
  have hspares : ∀ name upload, o.Spares name upload := by
    intro name upload _ a hanswer
    rw [ho] at hanswer
    cases hanswer
  refine ⟨h.tidy, h.given, ?_, fun name upload => (h.uploads name upload).spared rfl (hspares name upload)⟩
  intro o' ho' n hn name
  rcases List.mem_append.1 ho' with hin | hin
  · exact h.unused o' hin n hn name
  · obtain rfl := List.mem_singleton.1 hin
    exact hspares name _

section

variable {name upload fresh : String} {c : BucketCall} {b : Bucket} {a : BucketAnswer}

theorem TellsUpload.started {key : ObjectKey} (hunused : ∀ o ∈ course, o.Spares name upload)
    (hb : b.uploads.get? upload = some { key }) :
    TellsUpload b (course ++ [⟨s, name, .startUpload key, .ok (.started upload)⟩]) name upload := by
  refine ⟨fun key' => ?_, fun u hu n data => ?_⟩
  · rw [live_append_of_starts hunused ⟨rfl, rfl, rfl⟩, hb]
    simp [eq_comm]
  · obtain rfl := Option.some.inj (hb.symm.trans hu)
    rw [lastFilled_append_iff]
    constructor
    · intro hget
      cases hget
    · -- Nothing can have been stored in the upload before: its name was not in use.
      rintro (⟨-, hpart, -⟩ | ⟨-, earlier, o, later, hcourse, hfills, -⟩)
      · cases hpart
      · exact absurd hfills ((hunused o (by rw [hcourse]; simp)).not_fills n data)

theorem TellsUpload.filled (h : TellsUpload (s.content name) course name upload) {number : Nat}
    {bytes : Bytes} {u : PendingUpload} {tag : String} (hends : c.ends? = none)
    (hpart : c.part? (s.content name) = some (upload, number, bytes))
    (hfound : (s.content name).uploads.get? upload = some u)
    (hb : b.uploads.get? upload = some { u with parts := u.parts.set number bytes }) :
    TellsUpload b (course ++ [⟨s, name, c, .ok (.stored tag)⟩]) name upload := by
  refine ⟨fun key => ?_, fun v hv n data => ?_⟩
  · have hnot : ¬ StoreOccasion.Ends ⟨s, name, c, .ok (.stored tag)⟩ name upload := by
      rintro ⟨-, hcall, -⟩
      rw [hends] at hcall
      cases hcall
    have hstarts : ¬ StoreOccasion.Starts ⟨s, name, c, .ok (.stored tag)⟩ name upload key := by
      rintro ⟨-, -, hanswer⟩
      cases hanswer
    rw [live_append_iff hstarts hnot, ← h.live key, hb, hfound]
    simp
  · obtain rfl := Option.some.inj (hb.symm.trans hv)
    have hfills : ∀ m d, StoreOccasion.Fills ⟨s, name, c, .ok (.stored tag)⟩ name upload m d ↔
        m = number ∧ d = bytes := by
      intro m d
      simp [StoreOccasion.Fills, hpart, eq_comm]
    rw [lastFilled_append_iff, ← h.parts u hfound, Table.get?_set]
    by_cases hn : n = number
    · simp [hfills, hn, eq_comm]
    · simp [hfills, hn]

theorem TellsUpload.ended (hends : c.ends? = some upload) (hb : b.uploads.get? upload = none) :
    TellsUpload b (course ++ [⟨s, name, c, .ok a⟩]) name upload := by
  refine ⟨fun key => ?_, fun u hu => ?_⟩
  · simp [hb, @not_live_append course ⟨s, name, c, .ok a⟩ name upload key ⟨rfl, hends, a, rfl⟩]
  · rw [hb] at hu
    cases hu

/-- What a call that is granted tells of the uploads of its bucket. -/
theorem TellsUpload.granted (h : TellsUpload (s.content name) course name upload)
    (hunused : ∀ o ∈ course, o.Spares name fresh) (hout : (s.content name).Outcome fresh c b a) :
    TellsUpload b (course ++ [⟨s, name, c, .ok a⟩]) name upload := by
  cases hout with
  | kept call answer uploads =>
    refine h.spared (by rw [uploads]) fun _ a' ha' => ?_
    cases ha'
    exact ⟨answer upload, by rw [call]; nofun⟩
  | started key call answer uploads =>
    subst call answer
    -- An upload other than the one that the call is about is spared by it; so in each case below.
    by_cases hup : upload = fresh
    · subst hup
      exact .started hunused (by rw [uploads, Table.get?_set, if_pos rfl])
    · refine h.spared (by rw [uploads, Table.get?_set, if_neg hup]) fun _ a' ha' => ?_
      cases ha'
      exact ⟨fun heq => hup (BucketAnswer.started.inj heq).symm, nofun⟩
  | filled other number bytes u call ends part answer found uploads =>
    subst answer
    by_cases hup : upload = other
    · subst hup
      exact h.filled ends part found (by rw [uploads, Table.get?_set, if_pos rfl])
    · refine h.spared (by rw [uploads, Table.get?_set, if_neg hup]) fun _ a' ha' => ?_
      cases ha'
      exact ⟨nofun, by rw [call]; exact fun heq => hup (Option.some.inj heq).symm⟩
  | ended other u call ends part answer found uploads =>
    by_cases hup : upload = other
    · subst hup
      exact .ended ends (by rw [uploads, Table.get?_erase, if_pos rfl])
    · refine h.spared (by rw [uploads, Table.get?_erase, if_neg hup]) fun _ a' ha' => ?_
      cases ha'
      exact ⟨answer upload, by rw [call]; exact fun heq => hup (Option.some.inj heq).symm⟩

end

/-- An upload that is there after a granted call was there before it, or was started by it. -/
theorem get?_of_outcome {b b' : Bucket} {fresh upload : String} {c : BucketCall} {a : BucketAnswer}
    {u : PendingUpload} (hout : b.Outcome fresh c b' a) (hu : b'.uploads.get? upload = some u) :
    (upload = fresh ∧ c.starts = 1) ∨ ∃ v, b.uploads.get? upload = some v := by
  cases hout with
  | kept call answer uploads => exact .inr ⟨u, by rw [← uploads, hu]⟩
  | started key call answer uploads =>
    rw [uploads, Table.get?_set] at hu
    split at hu
    · next hup => exact .inl ⟨hup, by rw [call]; rfl⟩
    · exact .inr ⟨u, hu⟩
  | filled other number bytes v call ends part answer found uploads =>
    rw [uploads, Table.get?_set] at hu
    split at hu
    · next hup => exact .inr ⟨v, by rw [hup, found]⟩
    · exact .inr ⟨u, hu⟩
  | ended other v call ends part answer found uploads =>
    rw [uploads, Table.get?_erase] at hu
    split at hu
    · cases hu
    · exact .inr ⟨u, hu⟩

/-- A granted call is about an upload that was there before it, or about the one that it started. -/
theorem spares_of_outcome {b b' : Bucket} {fresh name upload : String} {c : BucketCall} {a : BucketAnswer}
    (hout : b.Outcome fresh c b' a) (hnew : upload = fresh → c.starts = 0)
    (hmissing : b.uploads.get? upload = none) :
    StoreOccasion.Spares ⟨s, name, c, .ok a⟩ name upload := by
  intro _ a' ha'
  cases ha'
  cases hout with
  | kept call answer uploads => exact ⟨answer upload, by rw [call]; nofun⟩
  | started key call answer uploads =>
    subst call answer
    refine ⟨fun heq => ?_, nofun⟩
    cases hnew (BucketAnswer.started.inj heq).symm
  | filled other number bytes v call ends part answer found uploads =>
    subst answer
    refine ⟨nofun, fun heq => ?_⟩
    obtain rfl := Option.some.inj (call.symm.trans heq)
    rw [hmissing] at found
    cases found
  | ended other v call ends part answer found uploads =>
    refine ⟨answer upload, fun heq => ?_⟩
    obtain rfl := Option.some.inj (call.symm.trans heq)
    rw [hmissing] at found
    cases found

/-- What a call that is granted leaves. -/
theorem Told.granted (h : s.Told course) {name : String} {c : BucketCall} {b : Bucket} {a : BucketAnswer}
    (hp : (s.content name).perform (uploadName s.started) c = .ok (b, a)) :
    Told { s.setBucket name b with started := s.started + c.starts } (course ++ [⟨s, name, c, .ok a⟩]) := by
  have hout := Bucket.perform_outcome hp
  refine ⟨fun other => ?_, fun other upload u hu => ?_, fun o ho n hn other => ?_, fun other upload => ?_⟩
  · rw [content_granted]
    split
    · exact (h.tidy name).perform (colon_not_mem_uploadName _) hp
    · exact h.tidy other
  · -- An upload that was there before has its name from before.
    have hold : ∀ {x v}, (s.content x).uploads.get? upload = some v →
        ∃ n < s.started + c.starts, upload = uploadName n := by
      intro x v hv
      obtain ⟨n, hn, heq⟩ := h.given x upload v hv
      exact ⟨n, by omega, heq⟩
    rw [content_granted] at hu
    split at hu
    · rcases get?_of_outcome hout hu with ⟨heq, hstarts⟩ | ⟨v, hv⟩
      · refine ⟨s.started, ?_, heq⟩
        show s.started < s.started + c.starts
        omega
      · exact hold hv
    · exact hold hu
  · change s.started + c.starts ≤ n at hn
    rcases List.mem_append.1 ho with hin | hin
    · exact h.unused o hin n (by omega) other
    · obtain rfl := List.mem_singleton.1 hin
      intro hname
      -- Names from here on are still unused: the call had at most the one that has just been given.
      refine spares_of_outcome hout (fun heq => ?_) (h.fresh name (by omega)) rfl
      have := LocalEndpoint.uploadName_inj heq
      omega
  · rw [content_granted]
    split
    · next heq =>
      subst heq
      exact (h.uploads other upload).granted (fun o ho => h.unused o ho _ (Nat.le_refl _) other) hout
    · next hne => exact (h.uploads other upload).spared rfl fun hname => absurd hname.symm hne

theorem Told.perform (h : s.Told course) (name : String) (c : BucketCall) :
    (s.perform name c).1.Told (course ++ [⟨s, name, c, (s.perform name c).2⟩]) := by
  rcases s.perform_cases name c with ⟨e, hperform⟩ | ⟨b, a, hp, hperform⟩
  · rw [hperform]
    exact h.refused rfl
  · rw [hperform]
    exact h.granted hp

theorem Told.after (events : List StoreEvent) :
    ∀ {s : Store} {course : List StoreOccasion}, s.Told course →
      (s.after events).Told (course ++ s.course events) := by
  induction events with
  | nil =>
    intro s course h
    rwa [Store.course, List.append_nil]
  | cons event rest ih =>
    intro s course h
    cases event with
    | call name c =>
      have hrest := ih (h.perform name c)
      rwa [List.append_assoc] at hrest
    | reopen => exact ih h

end Store

end ObjectFlush
