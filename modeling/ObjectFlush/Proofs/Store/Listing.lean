import Mathlib.Data.List.Sort
import ObjectFlush.Proofs.Store.Layout

/-!
The listings of a partition. A walk over the names of uploads, or over those of the parts of one upload,
finds what the bucket holds and nothing else. The numbers of parts come out in ascending order because the
names do: up to the largest number a part may have, all are padded to the same length.
-/

namespace ObjectFlush

theorem Table.mem_iff_get? {α β : Type} [DecidableEq α] {t : Table α β} (h : t.names.Nodup) {a : α} {v : β} :
    (a, v) ∈ t ↔ t.get? a = some v := by
  induction t with
  | nil => simp [Table.get?]
  | cons e t ih =>
    obtain ⟨k, w⟩ := e
    obtain ⟨hk, ht⟩ := List.nodup_cons.1 h
    rw [List.mem_cons, ih ht, Table.get?]
    by_cases hka : k = a
    · subst hka
      have hnone : Table.get? k t ≠ some v := fun hget => hk (Table.mem_names_iff.2 ⟨v, hget⟩)
      simp [hnone, eq_comm]
    · have hak : a ≠ k := fun heq => hka heq.symm
      simp [hka, hak]

namespace Bucket

variable {b : Bucket}

theorem mem_pendingUploads_iff (h : b.Tidy) {name : String} {key : ObjectKey} :
    (name, key) ∈ b.pendingUploads ↔ ∃ u, b.uploads.get? name = some u ∧ u.key = key := by
  have hmem : ∀ u, (name, u) ∈ b.uploads ↔ b.uploads.get? name = some u := fun u =>
    Table.mem_iff_get? h.distinct
  constructor
  · intro hin
    obtain ⟨⟨n, u⟩, hu, heq⟩ := List.mem_map.1 hin
    obtain ⟨rfl, rfl⟩ := Prod.mk.inj heq
    exact ⟨u, (hmem u).1 hu, rfl⟩
  · rintro ⟨u, hu, rfl⟩
    exact List.mem_map.2 ⟨(name, u), (hmem u).2 hu, rfl⟩

theorem nodup_pendingUploads (h : b.Tidy) : b.pendingUploads.Nodup := by
  have hnames : (b.pendingUploads.map (·.1)).Nodup := by
    rw [pendingUploads, List.map_map]
    exact h.distinct
  exact hnames.of_map _

/-- The numbers of the parts of an upload are listed in ascending order, each once. -/
theorem partNumbers_spec (h : b.Tidy) {name : String} {u : PendingUpload}
    (hu : b.uploads.get? name = some u) :
    ∃ numbers, b.partNumbers name = .ok numbers ∧ numbers.Pairwise (· < ·) ∧
      ∀ n, n ∈ numbers ↔ ∃ data, u.parts.get? n = some data := by
  refine ⟨u.parts.names.mergeSort, ?_, ?_, ?_⟩
  · rw [partNumbers, upload_eq_ok_iff.2 hu]
    rfl
  · have hle : u.parts.names.mergeSort.Pairwise (· ≤ ·) := List.pairwise_mergeSort' (· ≤ ·) _
    have hne : u.parts.names.mergeSort.Nodup :=
      (List.mergeSort_perm ..).nodup_iff.2 (h.distinctParts name u hu)
    exact (hle.and hne).imp fun hab => lt_of_le_of_ne hab.1 hab.2
  · intro n
    rw [List.mem_mergeSort, Table.mem_names_iff]

end Bucket

namespace BucketPartition.Represents

variable {p : BucketPartition} {b : Bucket}

/-- What stands under the prefix of uploads is an upload, and its record has its name. -/
theorem upload_of_mem (h : p.Represents b) {x : List Char} (hx : x ∈ p.namesUnder EntryName.uploads) :
    ∃ name u, x = (EntryName.upload name).text ∧ b.uploads.get? name = some u ∧
      p.get? x = some (.upload ⟨name, u.key⟩) := by
  obtain ⟨⟨entry, hentry⟩, hprefix⟩ := Partition.mem_namesUnder_iff.1 hx
  obtain ⟨a, rfl⟩ := h.named x entry hentry
  obtain ⟨name, rfl⟩ := EntryName.uploads_prefix_iff.1 hprefix
  have hb : b.entryAt? (.upload name) = some entry := (h.entry _).symm.trans hentry
  obtain ⟨u, hu, rfl⟩ := Option.map_eq_some_iff.1 hb
  exact ⟨name, u, rfl, hu, hentry⟩

/-- The records that a walk over names of uploads finds. -/
theorem walk_uploads (h : p.Represents b) {names : List (List Char)}
    (hnames : ∀ x ∈ names, x ∈ p.namesUnder EntryName.uploads) :
    ∃ records : List UploadRecord,
      names.foldr (fun name found => do
        match p.get? name with
        | some (.upload record) => return record :: (← found)
        | some _ => throw .serialization
        | none => found) (Except.ok (ε := StoreError) []) = .ok records ∧
      names = records.map (fun r => (EntryName.upload r.name).text) ∧
      ∀ r ∈ records, ∃ u, b.uploads.get? r.name = some u ∧ u.key = r.key := by
  induction names with
  | nil => exact ⟨[], rfl, rfl, nofun⟩
  | cons x names ih =>
    obtain ⟨records, hfound, htexts, hrecords⟩ := ih fun y hy => hnames y (List.mem_cons_of_mem _ hy)
    -- Every name under the prefix is the name of an upload, so the walk finds a record at each step.
    obtain ⟨name, u, rfl, hu, hget⟩ := h.upload_of_mem (hnames x (List.mem_cons_self ..))
    refine ⟨⟨name, u.key⟩ :: records, ?_, by rw [htexts, List.map_cons], ?_⟩
    · rw [List.foldr_cons, hfound, hget]
      rfl
    · intro r hr
      rcases List.mem_cons.1 hr with rfl | hr
      · exact ⟨u, hu, rfl⟩
      · exact hrecords r hr

/-- Each upload is listed once, with the key it is for. -/
theorem pendingUploads (h : p.Represents b) (ht : b.Tidy) :
    ∃ records, p.pendingUploads = .ok records ∧
      (records.map fun r => (r.name, r.key)).Perm b.pendingUploads := by
  obtain ⟨records, hfound, htexts, hrecords⟩ := h.walk_uploads fun _ hx => hx
  refine ⟨records, hfound, (List.perm_ext_iff_of_nodup ?_ (Bucket.nodup_pendingUploads ht)).2 ?_⟩
  · have hnodup := p.nodup_namesUnder EntryName.uploads
    rw [htexts] at hnodup
    refine (List.nodup_map_iff_inj_on hnodup.of_map).2 ?_
    rintro ⟨n, k⟩ - ⟨n', k'⟩ - heq
    obtain ⟨rfl, rfl⟩ := Prod.mk.inj heq
    rfl
  · rintro ⟨name, key⟩
    rw [Bucket.mem_pendingUploads_iff ht, List.mem_map]
    constructor
    · rintro ⟨r, hr, heq⟩
      obtain ⟨rfl, rfl⟩ := Prod.mk.inj heq
      exact hrecords r hr
    · rintro ⟨u, hu, rfl⟩
      have hentry : p.get? (EntryName.upload name).text = some (.upload ⟨name, u.key⟩) := by
        refine (h.entry (.upload name)).trans ?_
        rw [Bucket.entryAt?, hu]
        rfl
      have hmem : (EntryName.upload name).text ∈ p.namesUnder EntryName.uploads :=
        Partition.mem_namesUnder_iff.2 ⟨⟨_, hentry⟩, EntryName.uploads_prefix_iff.2 ⟨name, rfl⟩⟩
      rw [htexts] at hmem
      obtain ⟨r, hr, heq⟩ := List.mem_map.1 hmem
      obtain rfl : r.name = name := EntryName.upload.inj (EntryName.text_inj heq)
      obtain ⟨v, hv, hkey⟩ := hrecords r hr
      obtain rfl : v = u := Option.some.inj (hv.symm.trans hu)
      exact ⟨r, hr, by rw [hkey]⟩

/-- The walk over the parts of an upload meets them in the order of their numbers. -/
theorem namesUnder_parts (h : p.Represents b) (ht : b.Tidy) {name : String} {u : PendingUpload}
    (hu : b.uploads.get? name = some u) {numbers : List Nat} (hascending : numbers.Pairwise (· < ·))
    (hnumbers : ∀ n, n ∈ numbers ↔ ∃ data, u.parts.get? n = some data) :
    p.namesUnder (EntryName.parts name) = numbers.map fun n => (EntryName.part name n).text := by
  -- A number fits into the padding, so the order of the names is the order of the numbers.
  have hsmall : ∀ n ∈ numbers, n < 10 ^ 5 := by
    intro n hn
    obtain ⟨data, hdata⟩ := (hnumbers n).1 hn
    have := (ht.numbered name u n data hu hdata).2
    simp only [Bucket.maxPartNumber] at this
    omega
  have hsorted : (numbers.map fun n => (EntryName.part name n).text).Pairwise
      fun x y => notAfter x y = true := by
    rw [List.pairwise_map]
    refine hascending.imp_of_mem fun {m n} hm hn hlt => ?_
    exact (notAfter_append_left _ _ _).trans
      ((notAfter_padded_iff (hsmall m hm) (hsmall n hn)).2 (Nat.le_of_lt hlt))
  have hnodup : (numbers.map fun n => (EntryName.part name n).text).Nodup := by
    refine (List.nodup_map_iff_inj_on (hascending.imp Nat.ne_of_lt)).2 fun m _ n _ heq => ?_
    exact (EntryName.part.inj (EntryName.text_inj heq)).2
  have hmem : ∀ x, x ∈ p.namesUnder (EntryName.parts name) ↔
      x ∈ numbers.map fun n => (EntryName.part name n).text := by
    intro x
    rw [Partition.mem_namesUnder_iff, List.mem_map]
    constructor
    · rintro ⟨⟨entry, hentry⟩, hprefix⟩
      obtain ⟨a, rfl⟩ := h.named x entry hentry
      have hb : b.entryAt? a = some entry := (h.entry a).symm.trans hentry
      have hplain : ∀ other n, a = .part other n → ':' ∉ other.toList := by
        rintro other n rfl
        obtain ⟨v, hv, -⟩ := Option.bind_eq_some_iff.1 hb
        exact ht.plain other v hv
      obtain ⟨n, rfl⟩ := (EntryName.parts_prefix_iff hplain).1 hprefix
      rw [Bucket.entryAt?, hu, Option.bind_some] at hb
      obtain ⟨data, hdata, -⟩ := Option.map_eq_some_iff.1 hb
      exact ⟨n, (hnumbers n).2 ⟨data, hdata⟩, rfl⟩
    · rintro ⟨n, hn, rfl⟩
      obtain ⟨data, hdata⟩ := (hnumbers n).1 hn
      refine ⟨⟨.bytes data, (h.entry (.part name n)).trans ?_⟩, List.prefix_append _ _⟩
      rw [Bucket.entryAt?, hu, Option.bind_some, hdata]
      rfl
  -- Two sorted lists of the same members, none of them twice, are one list.
  exact List.Perm.eq_of_pairwise (fun _ _ _ _ hab hba => notAfter_antisymm hab hba)
    (p.sorted_namesUnder _) hsorted
    ((List.perm_ext_iff_of_nodup (p.nodup_namesUnder _) hnodup).2 hmem)

/-- The numbers of the parts of an upload, read off their names. -/
theorem partNumbers (h : p.Represents b) (ht : b.Tidy) (name : String) :
    p.partNumbers name = b.partNumbers name := by
  rw [BucketPartition.partNumbers, h.upload]
  cases hup : b.upload name with
  | error e =>
    rw [Bucket.partNumbers, hup]
    rfl
  | ok u =>
    have hu := Bucket.upload_eq_ok_iff.1 hup
    obtain ⟨numbers, hlisted, hascending, hnumbers⟩ := Bucket.partNumbers_spec ht hu
    have hread : ∀ n ∈ numbers, paddedNumber?
        ((EntryName.part name n).text.drop (EntryName.parts name).length) = some n := by
      intro n hn
      obtain ⟨data, hdata⟩ := (hnumbers n).1 hn
      have hsmall := (ht.numbered name u n data hu hdata).2
      rw [EntryName.text, List.drop_left]
      exact paddedNumber?_padded (Nat.lt_of_le_of_lt hsmall (by decide))
    rw [hlisted]
    refine congrArg Except.ok ?_
    rw [h.namesUnder_parts ht hu hascending hnumbers, List.filterMap_map]
    exact (List.filterMap_congr hread).trans List.filterMap_some

end BucketPartition.Represents

end ObjectFlush
