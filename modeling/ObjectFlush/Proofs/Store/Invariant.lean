import ObjectFlush.Proofs.Store.History

/-!
The state of a store, whatever was done to it. Its partitions answer every call as its buckets do and hold
them, entry by entry, and nothing else (`Keyspace.Carries`). So what a bucket shows of itself through its
entries is what its history tells (`store_state_invariant`): objects with records of their size, the live
uploads with their keys, and the numbers of their parts in ascending order. No call that names another
upload is granted.
-/

namespace ObjectFlush

/-- The partitions hold the buckets of the store and nothing else, and name the next upload as it does. -/
structure Keyspace.Carries (k : Keyspace) (s : Store) : Prop where
  started : k.started = s.started
  represents : ∀ name, (k.content name).Represents (s.content name)

theorem Bucket.starts_of_refused {b : Bucket} {fresh : String} {c : BucketCall} {e : StoreError}
    (h : b.perform fresh c = .error e) : c.starts = 0 := by
  cases c with
  | startUpload key => cases h
  | _ => rfl

namespace Keyspace

variable {k : Keyspace} {s : Store} {course : List StoreOccasion}

theorem partition_eq_ok_iff {name : String} {p : BucketPartition} :
    k.partition name = .ok p ↔ Store.validName name = true ∧ p = k.content name := by
  unfold partition
  split
  · next h => simp [h, eq_comm]
  · next h => simp [h]

theorem carries_new (n : Nat) : Carries { started := n } { started := n } :=
  ⟨rfl, fun _ => BucketPartition.represents_empty⟩

theorem carries_empty : Carries {} {} := carries_new 0

theorem perform_eq {name : String} (hvalid : Store.validName name = true) (c : BucketCall) :
    k.perform name c =
      ({ k.setPartition name ((k.content name).perform (Store.uploadName k.started) c).1 with
        started := k.started + c.starts },
      ((k.content name).perform (Store.uploadName k.started) c).2) := by
  rw [Keyspace.perform, partition_eq_ok_iff.2 ⟨hvalid, rfl⟩]

/-- One call is answered alike and leaves alike. -/
theorem Carries.perform (h : k.Carries s) (ht : s.Told course) (name : String) (c : BucketCall) :
    (k.perform name c).2 = (s.perform name c).2 ∧ (k.perform name c).1.Carries (s.perform name c).1 := by
  by_cases hvalid : Store.validName name = true
  · have hp := (h.represents name).perform (ht.tidy name) (ht.fresh name (Nat.le_refl _)) c
    rw [perform_eq hvalid, h.started, Store.perform_eq hvalid]
    cases hout : (s.content name).perform (Store.uploadName s.started) c with
    | error e =>
      rw [hout] at hp
      -- What is refused leaves the store as it is, and the partition too.
      refine ⟨congrArg Prod.snd hp, ?_, fun other => ?_⟩
      · rw [Bucket.starts_of_refused hout]
        rfl
      · refine (congrArg (·.Represents (s.content other)) (k.content_setPartition name other _)).mpr ?_
        rw [congrArg Prod.fst hp]
        split
        · next heq => exact heq ▸ h.represents name
        · exact h.represents other
    | ok out =>
      rw [hout] at hp
      refine ⟨hp.1, rfl, fun other => ?_⟩
      refine (congrArg₂ BucketPartition.Represents (k.content_setPartition name other _)
        (s.content_setBucket name other out.1)).mpr ?_
      split
      · exact hp.2
      · exact h.represents other
  · rw [Keyspace.perform, partition, Store.perform_invalid hvalid, if_neg hvalid]
    exact ⟨rfl, h⟩

theorem Carries.after (events : List StoreEvent) :
    ∀ {k : Keyspace} {s : Store} {course : List StoreOccasion}, k.Carries s → s.Told course →
      k.answers events = (s.course events).map (·.answer) ∧ (k.after events).Carries (s.after events) := by
  induction events with
  | nil => exact fun h _ => ⟨rfl, h⟩
  | cons event rest ih =>
    intro k s course h ht
    cases event with
    | call name c =>
      obtain ⟨hanswer, hleft⟩ := h.perform ht name c
      obtain ⟨hanswers, hafter⟩ := ih hleft (ht.perform name c)
      refine ⟨?_, hafter⟩
      rw [answers, Store.course, List.map_cons, hanswer, hanswers]
    | reopen => exact ih h ht

end Keyspace

/-! ## What a bucket shows -/

/-- A partition shows what the bucket shows. -/
structure BucketPartition.Presents (p : BucketPartition) (b : Bucket) : Prop where
  data? : ∀ key, p.data? key = b.data? key
  record? : ∀ key, p.record? key = .ok (b.record? key)
  pendingUploads : ∃ records, p.pendingUploads = .ok records ∧
    (records.map fun r => (r.name, r.key)).Perm b.pendingUploads
  partNumbers : ∀ upload, p.partNumbers upload = b.partNumbers upload

/-- What the bucket of that name shows after a history: objects that are whole, the uploads that are live,
each with its key, and the numbers of the parts that were stored. -/
structure BucketPartition.Shows (p : BucketPartition) (course : List StoreOccasion) (name : String) :
    Prop where
  objects : ∀ key, (p.data? key = none ∧ p.record? key = .ok none) ∨
    ∃ data record, p.data? key = some data ∧ p.record? key = .ok (some record) ∧ record.size = data.length
  uploads : ∃ records, p.pendingUploads = .ok records ∧ (records.map (·.name)).Nodup ∧
    ∀ upload key, ⟨upload, key⟩ ∈ records ↔ Live course name upload key
  parts : ∀ upload key, Live course name upload key → ∃ numbers, p.partNumbers upload = .ok numbers ∧
    numbers.Pairwise (· < ·) ∧ (∀ n ∈ numbers, 1 ≤ n ∧ n ≤ Bucket.maxPartNumber) ∧
    ∀ n, n ∈ numbers ↔ Filled course name upload n
  missing : ∀ upload, (∀ key, ¬ Live course name upload key) →
    p.partNumbers upload = .error (.uploadNotFound upload)

theorem Store.TellsUpload.missing {b : Bucket} {course : List StoreOccasion} {name upload : String}
    (h : Store.TellsUpload b course name upload) (hnot : ∀ key, ¬ Live course name upload key) :
    b.uploads.get? upload = none := by
  cases hu : b.uploads.get? upload with
  | none => rfl
  | some u => exact absurd ((h.live u.key).1 ⟨u, hu, rfl⟩) (hnot u.key)

namespace BucketPartition.Represents

variable {p : BucketPartition} {b : Bucket}

theorem presents (h : p.Represents b) (ht : b.Tidy) : p.Presents b :=
  ⟨h.data?, h.record?, h.pendingUploads ht, h.partNumbers ht⟩

theorem shows (h : p.Represents b) (ht : b.Tidy) {course : List StoreOccasion} {name : String}
    (htells : ∀ upload, Store.TellsUpload b course name upload) : p.Shows course name := by
  refine ⟨fun key => ?_, ?_, fun upload key hlive => ?_, fun upload hnot => ?_⟩
  · rw [h.data?, h.record?, Bucket.data?, Bucket.record?]
    cases hget : b.objects.get? key with
    | none => exact .inl ⟨rfl, rfl⟩
    | some o => exact .inr ⟨o.data, o.record, rfl, rfl, ht.sized key o hget⟩
  · obtain ⟨records, hlisted, hperm⟩ := h.pendingUploads ht
    refine ⟨records, hlisted, ?_, fun upload key => ?_⟩
    · have hnames : (b.pendingUploads.map (·.1)).Nodup := by
        rw [Bucket.pendingUploads, List.map_map]
        exact ht.distinct
      have hnodup := (hperm.map (·.1)).nodup_iff.2 hnames
      rwa [List.map_map] at hnodup
    · rw [← (htells upload).live key, ← Bucket.mem_pendingUploads_iff ht, ← hperm.mem_iff, List.mem_map]
      constructor
      · exact fun hin => ⟨_, hin, rfl⟩
      · rintro ⟨r, hr, heq⟩
        cases heq
        exact hr
  · obtain ⟨u, hu, -⟩ := ((htells upload).live key).2 hlive
    obtain ⟨numbers, hlisted, hascending, hnumbers⟩ := Bucket.partNumbers_spec ht hu
    refine ⟨numbers, (h.partNumbers ht upload).trans hlisted, hascending, fun n hn => ?_, fun n => ?_⟩
    · obtain ⟨data, hdata⟩ := (hnumbers n).1 hn
      exact ht.numbered upload u n data hu hdata
    · -- A number is listed if a part is stored under it, which is if one was stored there for a last time.
      rw [hnumbers, filled_iff]
      exact exists_congr fun data => (htells upload).parts u hu n data
  · rw [h.partNumbers ht, Bucket.partNumbers, Bucket.upload, (htells upload).missing hnot]
    rfl

end BucketPartition.Represents

/-! ## Every store -/

/-- The call fails with `e`, in the buckets and in their partitions, and leaves both as they are. -/
structure Refused (s : Store) (k : Keyspace) (name : String) (c : BucketCall) (e : StoreError) : Prop where
  store : s.perform name c = (s, .error e)
  answer : (k.perform name c).2 = .error e
  started : (k.perform name c).1.started = k.started
  content : ∀ other, (k.perform name c).1.content other = k.content other

theorem Keyspace.Carries.refused {k : Keyspace} {s : Store} {course : List StoreOccasion} (h : k.Carries s)
    (ht : s.Told course) {name : String} {c : BucketCall} {b : Bucket} {e : StoreError}
    (hb : s.bucket name = .ok b) (hp : b.perform (Store.uploadName s.started) c = .error e) :
    Refused s k name c e := by
  obtain ⟨hvalid, rfl⟩ := Store.bucket_eq_ok_iff.1 hb
  have hperforms := (h.represents name).perform (ht.tidy name) (ht.fresh name (Nat.le_refl _)) c
  rw [hp] at hperforms
  have hstore : s.perform name c = (s, .error e) := by
    rw [Store.perform_eq hvalid, hp]
  refine ⟨hstore, ?_, ?_, fun other => ?_⟩
  · rw [(h.perform ht name c).1, hstore]
  · rw [(h.perform ht name c).2.started, hstore, h.started]
  · rw [perform_eq hvalid, h.started]
    refine (k.content_setPartition name other _).trans ?_
    rw [congrArg Prod.fst hperforms]
    split
    · next heq => rw [heq]
    · rfl

/-- What the partitions are after a call that is granted. -/
theorem Keyspace.Carries.granted {k : Keyspace} {s : Store} {course : List StoreOccasion} (h : k.Carries s)
    (ht : s.Told course) {name : String} {c : BucketCall} {b b' : Bucket} {a : BucketAnswer}
    (hb : s.bucket name = .ok b) (hp : b.perform (Store.uploadName s.started) c = .ok (b', a)) :
    (s.perform name c).2 = .ok a ∧ ((k.perform name c).1.content name).Represents b' ∧
      (∀ other ≠ name, (k.perform name c).1.content other = k.content other) := by
  obtain ⟨hvalid, rfl⟩ := Store.bucket_eq_ok_iff.1 hb
  have hstore : s.perform name c = ({ s.setBucket name b' with started := s.started + c.starts }, .ok a) := by
    rw [Store.perform_eq hvalid, hp]
  refine ⟨by rw [hstore], ?_, fun other hother => ?_⟩
  · have hrepresents := (h.perform ht name c).2.represents name
    rw [hstore] at hrepresents
    rwa [Store.content_granted, if_pos rfl] at hrepresents
  · rw [perform_eq hvalid]
    exact (k.content_setPartition name other _).trans (if_neg hother)

/-- Whatever was done to a store: what each bucket shows through its entries is what its history tells, and
no call that names an upload which is not live is granted or changes anything. -/
theorem store_state_invariant (events : List StoreEvent) (name : String) (b : Bucket)
    (hb : (Store.after {} events).bucket name = .ok b) :
    let course := Store.course {} events
    let k := Keyspace.after {} events
    Keyspace.answers {} events = course.map (·.answer) ∧
      ∃ p, k.partition name = .ok p ∧ p.Presents b ∧ p.Shows course name ∧
        ∀ c upload, c.upload? = some upload → (∀ key, ¬ Live course name upload key) →
          ∃ e, Refused (Store.after {} events) k name c e ∧ (e = .uploadNotFound upload ∨
            ∃ number source, c = .fillPart upload number source ∧
              p.read source.key source.offset source.length = .error e) := by
  obtain ⟨hvalid, rfl⟩ := Store.bucket_eq_ok_iff.1 hb
  have ht := Store.Told.after events Store.told_empty
  obtain ⟨hanswers, hcarries⟩ := Keyspace.carries_empty.after events Store.told_empty
  have h := hcarries.represents name
  refine ⟨hanswers, _, Keyspace.partition_eq_ok_iff.2 ⟨hvalid, rfl⟩, h.presents (ht.tidy name),
    h.shows (ht.tidy name) (ht.uploads name), ?_⟩
  intro c upload hc hnot
  obtain ⟨e, hp, he⟩ := Bucket.perform_missing hc ((ht.uploads name upload).missing hnot)
    (Store.uploadName (Store.after {} events).started)
  refine ⟨e, hcarries.refused ht hb hp, ?_⟩
  simp only [h.read]
  exact he

/-- A part that comes late is listed by its number; an upload that is discarded is not listed. -/
theorem late_part_listed_first :
    let key : ObjectKey := ⟨"k", by decide⟩
    let events : List StoreEvent :=
      [.call "mount" (.startUpload key), .call "mount" (.storePart "upload-0" 7 [1, 2]),
        .call "mount" (.startUpload key), .call "mount" (.storePart "upload-0" 3 [4]), .reopen,
        .call "mount" (.discardUpload "upload-1")]
    ∃ p, (Keyspace.after {} events).partition "mount" = .ok p ∧ p.Shows (Store.course {} events) "mount" ∧
      p.partNumbers "upload-0" = .ok [3, 7] ∧
      ∃ records, p.pendingUploads = .ok records ∧ records.map (fun r => (r.name, r.key)) = [("upload-0", key)] := by
  intro key events
  have hb : (Store.after {} events).bucket "mount" = .ok ((Store.after {} events).content "mount") :=
    Store.bucket_eq_ok_iff.2 ⟨by decide, rfl⟩
  obtain ⟨-, p, hp, hpresents, hshows, -⟩ := store_state_invariant events "mount" _ hb
  refine ⟨p, hp, hshows, ?_, ?_⟩
  · have hup : ((Store.after {} events).content "mount").upload "upload-0" =
        .ok ⟨key, [(3, [4]), (7, [1, 2])]⟩ := by
      unfold events key
      decide +kernel
    rw [hpresents.partNumbers, Bucket.partNumbers, hup]
    exact congrArg Except.ok (List.mergeSort_of_pairwise (by decide))
  · obtain ⟨records, hlisted, hperm⟩ := hpresents.pendingUploads
    refine ⟨records, hlisted, ?_⟩
    have hpending : ((Store.after {} events).content "mount").pendingUploads = [("upload-0", key)] := by
      unfold events key
      decide +kernel
    rw [hpending] at hperm
    exact List.perm_singleton.1 hperm

end ObjectFlush
