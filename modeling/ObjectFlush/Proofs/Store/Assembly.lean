import Mathlib.Algebra.BigOperators.Group.List.Basic
import Mathlib.Algebra.GroupWithZero.Nat
import ObjectFlush.Proofs.Store.Invariant

/-!
The completion of an upload, in any store that a history can leave. It is granted exactly if the upload is
live and the list of receipts is well formed with respect to the parts that were stored last. It then puts
the listed parts together, takes the upload away with all its parts, and touches no other entry; a
completion that is refused names the first receipt that breaks a rule, and touches nothing at all
(`completion_all_or_nothing`).

The rules are stated twice: receipt by receipt, as the loop meets them (`Receipt.Accepted`, and
`Receipt.Breaches` for the first that breaks one), and for the list as a whole (`WellFormed`).
-/

namespace ObjectFlush

/-- The part that a failure is about. -/
def StoreError.part? : StoreError → Option Nat
  | .invalidPart number _ => some number
  | .partTooSmall number => some number
  | _ => none

namespace Receipt

variable (stored : Nat → Bytes → Prop) (minSize : Nat)

/-- The rules for a receipt that stands after the number `previous` and before the receipts `rest`. -/
structure Sound (previous : Nat) (r : Receipt) (rest : List Receipt) : Prop where
  ascends : previous < r.number
  part : ∃ data, stored r.number data ∧ Digest.tag data = r.tag ∧ (rest ≠ [] → minSize ≤ data.length)

/-- No receipt breaks a rule. -/
inductive Accepted : Nat → List Receipt → Prop
  | nil (previous : Nat) : Accepted previous []
  | cons {previous : Nat} {r : Receipt} {rest : List Receipt} (sound : r.Sound stored minSize previous rest)
    (accepted : Accepted r.number rest) : Accepted previous (r :: rest)

/-- `bad` is the first receipt that breaks a rule. -/
inductive Breaches (bad : Receipt) : Nat → List Receipt → Prop
  | here {previous : Nat} {rest : List Receipt} (unsound : ¬ bad.Sound stored minSize previous rest) :
    Breaches bad previous (bad :: rest)
  | later {previous : Nat} {r : Receipt} {rest : List Receipt} (sound : r.Sound stored minSize previous rest)
    (breaches : Breaches bad r.number rest) : Breaches bad previous (r :: rest)

/-- A list of receipts is well formed: it is not empty, the numbers ascend strictly from at least one, every
part is stored under its tag, and all but the last have the least size. -/
structure WellFormed (receipts : List Receipt) : Prop where
  listed : receipts ≠ []
  positive : ∀ r ∈ receipts, 1 ≤ r.number
  ascending : receipts.Pairwise fun r r' => r.number < r'.number
  found : ∀ r ∈ receipts, ∃ data, stored r.number data ∧ Digest.tag data = r.tag
  large : ∀ r ∈ receipts.dropLast, ∀ data, stored r.number data → minSize ≤ data.length

end Receipt

namespace Receipt

variable {stored : Nat → Bytes → Prop} {minSize previous : Nat} {receipts : List Receipt}

theorem not_breaches_of_accepted {bad : Receipt} (h : Accepted stored minSize previous receipts) :
    ¬ Breaches stored minSize bad previous receipts := by
  induction h with
  | nil => nofun
  | cons sound _ ih =>
    rintro (unsound | ⟨-, breaches⟩)
    · exact unsound sound
    · exact ih breaches

theorem accepted_iff (hunique : ∀ n data data', stored n data → stored n data' → data = data') :
    Accepted stored minSize previous receipts ↔ (∀ r ∈ receipts, previous < r.number) ∧
      (receipts.Pairwise fun r r' => r.number < r'.number) ∧
      (∀ r ∈ receipts, ∃ data, stored r.number data ∧ Digest.tag data = r.tag) ∧
      ∀ r ∈ receipts.dropLast, ∀ data, stored r.number data → minSize ≤ data.length := by
  induction receipts generalizing previous with
  | nil => simp [Accepted.nil]
  | cons r rest ih =>
    constructor
    · rintro (_ | ⟨⟨hascends, data, hdata, htag, hlarge⟩, hrest⟩)
      obtain ⟨habove, hpairwise, hstored, hlargeRest⟩ := ih.1 hrest
      refine ⟨?_, List.pairwise_cons.2 ⟨habove, hpairwise⟩, ?_, ?_⟩
      · rintro q (_ | ⟨_, hq⟩)
        · exact hascends
        · exact hascends.trans (habove q hq)
      · rintro q (_ | ⟨_, hq⟩)
        · exact ⟨data, hdata, htag⟩
        · exact hstored q hq
      · -- Only a receipt with another after it must have the least size.
        cases rest with
        | nil => nofun
        | cons next rest =>
          rw [List.dropLast_cons_cons]
          rintro q (_ | ⟨_, hq⟩) data' hdata'
          · rw [hunique _ _ _ hdata' hdata]
            exact hlarge nofun
          · exact hlargeRest q hq data' hdata'
    · rintro ⟨habove, hpairwise, hstored, hlarge⟩
      obtain ⟨hfirst, hpairwise⟩ := List.pairwise_cons.1 hpairwise
      obtain ⟨data, hdata, htag⟩ := hstored r (List.mem_cons_self ..)
      have hsound : r.Sound stored minSize previous rest := by
        refine ⟨habove r (List.mem_cons_self ..), data, hdata, htag, fun hne => ?_⟩
        obtain ⟨next, rest, rfl⟩ := List.exists_cons_of_ne_nil hne
        exact hlarge r (by simp) data hdata
      refine .cons hsound (ih.2 ⟨hfirst, hpairwise, fun q hq => hstored q (List.mem_cons_of_mem _ hq), ?_⟩)
      intro q hq
      cases rest with
      | nil => cases hq
      | cons next rest =>
        rw [List.dropLast_cons_cons] at hlarge
        exact hlarge q (List.mem_cons_of_mem _ hq)

end Receipt

namespace Bucket

/-- What becomes of the receipts: no rule is broken and the parts are put together, or the first receipt
that breaks a rule is named. -/
theorem assemble_verdict (parts : Table Nat Bytes) (minSize : Nat) (receipts : List Receipt) :
    ∀ previous, (Receipt.Accepted (fun n data => parts.get? n = some data) minSize previous receipts ∧
        ∃ chunks : List Bytes, assemble parts minSize previous receipts = .ok chunks.flatten ∧
          List.Forall₂ (fun (r : Receipt) chunk => parts.get? r.number = some chunk) receipts chunks) ∨
      ∃ bad e, Receipt.Breaches (fun n data => parts.get? n = some data) minSize bad previous receipts ∧
        assemble parts minSize previous receipts = .error e ∧ e.part? = some bad.number := by
  induction receipts with
  | nil => exact fun previous => .inl ⟨.nil previous, [], rfl, .nil⟩
  | cons r rest ih =>
    intro previous
    rw [assemble]
    -- The rules are tried in the order of the loop: the number, the part, its tag, its size.
    by_cases hnumber : r.number ≤ previous
    · rw [if_pos hnumber]
      exact .inr ⟨r, _, .here fun h => absurd h.ascends (by omega), rfl, rfl⟩
    · rw [if_neg hnumber]
      cases hpart : parts.get? r.number with
      | none =>
        refine .inr ⟨r, _, .here fun h => ?_, rfl, rfl⟩
        obtain ⟨data, hdata, -⟩ := h.part
        rw [hpart] at hdata
        cases hdata
      | some data =>
        have honly : ∀ data', parts.get? r.number = some data' → data' = data := fun data' h =>
          (Option.some.inj (hpart.symm.trans h)).symm
        dsimp only
        by_cases htag : Digest.tag data ≠ r.tag
        · rw [if_pos htag]
          refine .inr ⟨r, _, .here fun h => ?_, rfl, rfl⟩
          obtain ⟨data', hdata', htag', -⟩ := h.part
          exact htag (honly data' hdata' ▸ htag')
        · rw [if_neg htag]
          by_cases hsmall : rest ≠ [] ∧ data.length < minSize
          · rw [if_pos hsmall]
            refine .inr ⟨r, _, .here fun h => ?_, rfl, rfl⟩
            obtain ⟨data', hdata', -, hlarge⟩ := h.part
            have := honly data' hdata' ▸ hlarge hsmall.1
            omega
          · rw [if_neg hsmall]
            have hsound : r.Sound (fun n data => parts.get? n = some data) minSize previous rest :=
              ⟨by omega, data, hpart, not_not.1 htag, fun hne => by
                by_contra hlt
                exact hsmall ⟨hne, by omega⟩⟩
            rcases ih r.number with ⟨haccepted, chunks, hrest, hchunks⟩ | ⟨bad, e, hbad, hrest, he⟩
            · rw [hrest]
              exact .inl ⟨.cons hsound haccepted, data :: chunks, rfl, .cons hpart hchunks⟩
            · rw [hrest]
              exact .inr ⟨bad, e, .later hsound hbad, rfl, he⟩

theorem wellFormed_iff_accepted {parts : Table Nat Bytes} {minSize : Nat} {receipts : List Receipt} :
    Receipt.WellFormed (fun n data => parts.get? n = some data) minSize receipts ↔
      receipts ≠ [] ∧ Receipt.Accepted (fun n data => parts.get? n = some data) minSize 0 receipts := by
  rw [Receipt.accepted_iff fun n data data' h h' => Option.some.inj (h.symm.trans h')]
  exact ⟨fun h => ⟨h.listed, h.positive, h.ascending, h.found, h.large⟩,
    fun ⟨hlisted, hpositive, hascending, hfound, hlarge⟩ =>
      ⟨hlisted, hpositive, hascending, hfound, hlarge⟩⟩

/-- What becomes of a completion whose upload is there. -/
theorem finishUpload_verdict {b : Bucket} {upload : String} {u : PendingUpload}
    (hu : b.uploads.get? upload = some u) (receipts : List Receipt) (minSize : Nat)
    (options : ObjectOptions) :
    (Receipt.WellFormed (fun n data => u.parts.get? n = some data) minSize receipts ∧
      ∃ chunks : List Bytes,
        List.Forall₂ (fun (r : Receipt) chunk => u.parts.get? r.number = some chunk) receipts chunks ∧
        b.finishUpload upload receipts minSize options =
          .ok ((b.write u.key chunks.flatten (multipartTag receipts) options).1.dropUpload upload,
            ⟨u.key.text, chunks.flatten.length, multipartTag receipts⟩)) ∨
    (¬ Receipt.WellFormed (fun n data => u.parts.get? n = some data) minSize receipts ∧
      ∃ e, b.finishUpload upload receipts minSize options = .error e ∧
        (receipts = [] ∧ e.part? = some 0 ∨
          ∃ bad, Receipt.Breaches (fun n data => u.parts.get? n = some data) minSize bad 0 receipts ∧
            e.part? = some bad.number)) := by
  rw [wellFormed_iff_accepted, finishUpload, upload_eq_ok_iff.2 hu]
  dsimp only [bind, Except.bind]
  by_cases hnil : receipts = []
  · rw [if_pos hnil]
    exact .inr ⟨fun h => h.1 hnil, _, rfl, .inl ⟨hnil, rfl⟩⟩
  · rw [if_neg hnil]
    rcases assemble_verdict u.parts minSize receipts 0 with
      ⟨haccepted, chunks, hdata, hchunks⟩ | ⟨bad, e, hbad, herror, he⟩
    · rw [hdata]
      exact .inl ⟨⟨hnil, haccepted⟩, chunks, hchunks, rfl⟩
    · rw [herror]
      exact .inr ⟨fun h => Receipt.not_breaches_of_accepted h.2 hbad, e, rfl, .inr ⟨bad, hbad, he⟩⟩

end Bucket

/-- From `p` to `p'` an upload has become the object under `key`, and that is all that has changed. -/
structure BucketPartition.Completes (p p' : BucketPartition) (upload : String) (key : ObjectKey)
    (data : Bytes) (tag : String) (options : ObjectOptions) : Prop where
  data? : p'.data? key = some data
  record? : p'.record? key = .ok (some
    ⟨data.length, tag, options.acl, options.encryption.header?, options.signature⟩)
  uploadGone : p'.entryAt? (.upload upload) = none
  partsGone : ∀ n, p'.entryAt? (.part upload n) = none
  kept : ∀ x, x ≠ .data key → x ≠ .record key → x ≠ .upload upload → (∀ n, x ≠ .part upload n) →
    p'.entryAt? x = p.entryAt? x

theorem BucketPartition.Represents.completes {p p' : BucketPartition} {b : Bucket} {upload tag : String}
    {key : ObjectKey} {data : Bytes} {options : ObjectOptions} (h : p.Represents b)
    (h' : p'.Represents ((b.write key data tag options).1.dropUpload upload)) :
    p.Completes p' upload key data tag options := by
  refine ⟨?_, ?_, ?_, fun n => ?_, fun x hdata hrecord hupload hpart => ?_⟩
  · rw [h'.data?]
    simp [Bucket.data?, Bucket.dropUpload, Bucket.write, Table.get?_set]
  · rw [h'.record?]
    simp [Bucket.record?, Bucket.dropUpload, Bucket.write, Table.get?_set]
  · rw [h'.entry]
    simp [Bucket.entryAt?, Bucket.dropUpload, Table.get?_erase]
  · rw [h'.entry]
    simp [Bucket.entryAt?, Bucket.dropUpload, Table.get?_erase]
  · rw [h'.entry, h.entry]
    cases x with
    | data k =>
      have hk : k ≠ key := fun heq => hdata (by rw [heq])
      simp [Bucket.entryAt?, Bucket.dropUpload, Bucket.write, Table.get?_set, hk]
    | record k =>
      have hk : k ≠ key := fun heq => hrecord (by rw [heq])
      simp [Bucket.entryAt?, Bucket.dropUpload, Bucket.write, Table.get?_set, hk]
    | upload other =>
      have hother : other ≠ upload := fun heq => hupload (by rw [heq])
      simp [Bucket.entryAt?, Bucket.dropUpload, Bucket.write, Table.get?_erase, hother]
    | part other n =>
      have hother : other ≠ upload := fun heq => hpart n (by rw [heq])
      simp [Bucket.entryAt?, Bucket.dropUpload, Bucket.write, Table.get?_erase, hother]

section

variable (s : Store) (k : Keyspace) (course : List StoreOccasion) (name upload : String)
  (receipts : List Receipt) (minSize : Nat) (options : ObjectOptions)

/-- The completion has put the parts that were stored last together, one after the other, has answered with
what it wrote, and has changed nothing else in any bucket. -/
def CompletesAll (a : BucketAnswer) : Prop :=
  let call := BucketCall.finishUpload upload receipts minSize options
  let after := (k.perform name call).1
  let tag := Digest.ofTags (receipts.map (·.tag)) ++ "-" ++ toString receipts.length
  ∃ (key : ObjectKey) (chunks : List Bytes), Live course name upload key ∧
    List.Forall₂ (fun r chunk => LastFilled course name upload r.number chunk) receipts chunks ∧
    a = .written ⟨key.text, (chunks.map List.length).sum, tag⟩ ∧
    (k.content name).Completes (after.content name) upload key chunks.flatten tag options ∧
    (∀ other ≠ name, after.content other = k.content other) ∧ after.started = k.started ∧
    (s.perform name call).2 = .ok a ∧ after.Carries (s.perform name call).1

/-- Why a completion may fail: its upload is not live, no part is listed, or one is that breaks a rule. The
failure names the first of these. -/
def FailsFor (e : StoreError) : Prop :=
  (∀ key, ¬ Live course name upload key) ∧ e = .uploadNotFound upload ∨
    (∃ key, Live course name upload key) ∧ (receipts = [] ∧ e.part? = some 0 ∨
      ∃ bad, Receipt.Breaches (LastFilled course name upload) minSize bad 0 receipts ∧
        e.part? = some bad.number)

end

theorem Keyspace.Carries.finishUpload {k : Keyspace} {s : Store} {course : List StoreOccasion}
    (h : k.Carries s) (ht : s.Told course) {name : String} {b : Bucket} (hb : s.bucket name = .ok b)
    (upload : String) (receipts : List Receipt) (minSize : Nat) (options : ObjectOptions) :
    let call := BucketCall.finishUpload upload receipts minSize options
    (((∃ key, Live course name upload key) ∧
        Receipt.WellFormed (LastFilled course name upload) minSize receipts) ∧
      ∃ a, (k.perform name call).2 = .ok a ∧
        CompletesAll s k course name upload receipts minSize options a) ∨
    (¬ ((∃ key, Live course name upload key) ∧
        Receipt.WellFormed (LastFilled course name upload) minSize receipts) ∧
      ∃ e, (k.perform name call).2 = .error e ∧ Refused s k name call e ∧
        FailsFor course name upload receipts minSize e) := by
  intro call
  obtain ⟨hvalid, rfl⟩ := Store.bucket_eq_ok_iff.1 hb
  have htells := ht.uploads name upload
  cases hu : (s.content name).uploads.get? upload with
  | none =>
    have hnot : ∀ key, ¬ Live course name upload key := by
      intro key hlive
      obtain ⟨u, hu', -⟩ := (htells.live key).2 hlive
      rw [hu] at hu'
      cases hu'
    have hp : (s.content name).perform (Store.uploadName s.started) call =
        .error (.uploadNotFound upload) := by
      rw [Bucket.perform, Bucket.finishUpload, Bucket.upload, hu]
      rfl
    have hrefused := h.refused ht hb hp
    exact .inr ⟨fun hlive => hlive.1.elim hnot, _, hrefused.answer, hrefused, .inl ⟨hnot, rfl⟩⟩
  | some u =>
    have hlive : Live course name upload u.key := (htells.live u.key).1 ⟨u, hu, rfl⟩
    have hstored : (fun n data => u.parts.get? n = some data) = LastFilled course name upload :=
      funext fun n => funext fun data => propext (htells.parts u hu n data)
    have hverdict := Bucket.finishUpload_verdict hu receipts minSize options
    rw [hstored] at hverdict
    rcases hverdict with ⟨hwell, chunks, hchunks, hf⟩ | ⟨hnot, e, hf, he⟩
    · let tag := Bucket.multipartTag receipts
      have hp : (s.content name).perform (Store.uploadName s.started) call =
          .ok (((s.content name).write u.key chunks.flatten tag options).1.dropUpload upload,
            .written ⟨u.key.text, chunks.flatten.length, tag⟩) := by
        rw [Bucket.perform, hf]
        rfl
      obtain ⟨hanswer, hrepresents, hothers⟩ := h.granted ht hb hp
      obtain ⟨hsame, hleft⟩ := h.perform ht name call
      refine .inl ⟨⟨⟨u.key, hlive⟩, hwell⟩, _, hsame.trans hanswer, u.key, chunks, hlive, ?_, ?_, ?_,
        hothers, ?_, hanswer, hleft⟩
      · rwa [← hstored]
      · rw [← List.length_flatten]
        rfl
      · exact (h.represents name).completes hrepresents
      · rw [Keyspace.perform_eq hvalid]
        rfl
    · have hp : (s.content name).perform (Store.uploadName s.started) call = .error e := by
        rw [Bucket.perform, hf]
        rfl
      have hrefused := h.refused ht hb hp
      exact .inr ⟨fun hboth => hnot hboth.2, e, hrefused.answer, hrefused, .inr ⟨⟨u.key, hlive⟩, he⟩⟩

/-- A completion is granted exactly if its upload is live and its receipts are well formed, and changes
either all that it should or nothing. -/
theorem completion_all_or_nothing (events : List StoreEvent) (name : String) (b : Bucket)
    (hb : (Store.after {} events).bucket name = .ok b) (upload : String) (receipts : List Receipt)
    (minSize : Nat) (options : ObjectOptions) :
    let course := Store.course {} events
    let s := Store.after {} events
    let k := Keyspace.after {} events
    let call := BucketCall.finishUpload upload receipts minSize options
    ((∃ a, (k.perform name call).2 = .ok a) ↔ (∃ key, Live course name upload key) ∧
      Receipt.WellFormed (LastFilled course name upload) minSize receipts) ∧
    (∀ a, (k.perform name call).2 = .ok a →
      CompletesAll s k course name upload receipts minSize options a) ∧
    ∀ e, (k.perform name call).2 = .error e →
      Refused s k name call e ∧ FailsFor course name upload receipts minSize e := by
  intro course s k call
  have ht : s.Told course := Store.Told.after events Store.told_empty
  have hcarries : k.Carries s := (Keyspace.carries_empty.after events Store.told_empty).2
  rcases hcarries.finishUpload ht hb upload receipts minSize options with
    ⟨hwell, a, ha, hdone⟩ | ⟨hnot, e, he, hrefused, hfails⟩
  · refine ⟨⟨fun _ => hwell, fun _ => ⟨a, ha⟩⟩, fun a' ha' => ?_, fun e' he' => ?_⟩
    · obtain rfl := Except.ok.inj (ha.symm.trans ha')
      exact hdone
    · cases ha.symm.trans he'
  · refine ⟨⟨fun ⟨a, ha⟩ => ?_, fun hwell => absurd hwell hnot⟩, fun a ha => ?_, fun e' he' => ?_⟩
    · cases he.symm.trans ha
    · cases he.symm.trans ha
    · obtain rfl := Except.error.inj (he.symm.trans he')
      exact ⟨hrefused, hfails⟩

/-- A part that was stored twice counts with what was stored last. -/
theorem replaced_part_completed :
    let key : ObjectKey := ⟨"k", by decide⟩
    let events : List StoreEvent :=
      [.call "mount" (.startUpload key), .call "mount" (.storePart "upload-0" 1 [9]),
        .call "mount" (.storePart "upload-0" 4 [3]), .call "mount" (.storePart "upload-0" 1 [1, 2])]
    let receipts : List Receipt := [⟨1, Digest.tag [1, 2]⟩, ⟨4, Digest.tag [3]⟩]
    let course := Store.course {} events
    let s := Store.after {} events
    let k := Keyspace.after {} events
    ∃ a, (k.perform "mount" (.finishUpload "upload-0" receipts 2 {})).2 = .ok a ∧
      CompletesAll s k course "mount" "upload-0" receipts 2 {} a := by
  intro key events receipts course s k
  have hb : s.bucket "mount" = .ok (s.content "mount") := Store.bucket_eq_ok_iff.2 ⟨by decide, rfl⟩
  obtain ⟨hiff, hdone, -⟩ := completion_all_or_nothing events "mount" _ hb "upload-0" receipts 2 {}
  let found (n : Nat) : Store := Store.after {} (events.take n)
  let started : StoreOccasion := ⟨found 0, "mount", .startUpload key, .ok (.started "upload-0")⟩
  let first : StoreOccasion :=
    ⟨found 1, "mount", .storePart "upload-0" 1 [9], .ok (.stored (Digest.tag [9]))⟩
  let second : StoreOccasion :=
    ⟨found 2, "mount", .storePart "upload-0" 4 [3], .ok (.stored (Digest.tag [3]))⟩
  let again : StoreOccasion :=
    ⟨found 3, "mount", .storePart "upload-0" 1 [1, 2], .ok (.stored (Digest.tag [1, 2]))⟩
  have hcourse : course = [started, first, second, again] := rfl
  have hlive : Live course "mount" "upload-0" key := by
    refine ⟨⟨started, by simp [hcourse], rfl, rfl, rfl⟩, ?_⟩
    simp [hcourse, StoreOccasion.Ends, started, first, second, again, BucketCall.ends?]
  have hone : LastFilled course "mount" "upload-0" 1 [1, 2] :=
    ⟨[started, first, second], again, [], hcourse, ⟨rfl, rfl, _, rfl⟩, by simp⟩
  have hfour : LastFilled course "mount" "upload-0" 4 [3] := by
    refine ⟨[started, first], second, [again], hcourse, ⟨rfl, rfl, _, rfl⟩, ?_⟩
    simp [StoreOccasion.Fills, again, BucketCall.part?]
  have hwell : Receipt.WellFormed (LastFilled course "mount" "upload-0") 2 receipts := by
    refine ⟨by simp [receipts], by simp [receipts], by simp [receipts], ?_, ?_⟩
    · simp only [receipts, List.forall_mem_cons]
      exact ⟨⟨_, hone, rfl⟩, ⟨_, hfour, rfl⟩, by simp⟩
    · simp only [receipts, List.dropLast_cons_cons, List.dropLast_singleton, List.forall_mem_singleton]
      intro data hdata
      rw [hdata.unique hone]
      exact Nat.le_refl _
  obtain ⟨a, ha⟩ := hiff.2 ⟨⟨key, hlive⟩, hwell⟩
  exact ⟨a, ha, hdone a ha⟩

end ObjectFlush
