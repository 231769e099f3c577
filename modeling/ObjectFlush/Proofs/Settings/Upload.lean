import ObjectFlush.Proofs.Json.Fields
import ObjectFlush.Settings.Upload

/-!
The upload settings that a JSON record means: of every field the value that is given for it, or its default
(`UploadSettings.Means`). They are what is read from the record (`UploadSettings.ofJson?_eq_some_iff`), and a record
means some just if each value that it gives is one of those that its field may have
(`UploadSettings.WellTyped.exists_means`, `UploadSettings.Means.wellTyped`).
-/

namespace ObjectFlush

open Json (Field)

namespace UploadSettings

/-- The fields that are numbers of 64 bits. -/
def longNames : List String :=
  ["min_part_size", "max_part_size", "retry_backoff_ms", "part_timeout_ms", "multipart_threshold",
    "max_single_put_size"]

/-- The fields that are numbers of 32 bits. -/
def shortNames : List String := ["max_parts", "concurrency_limit", "retry_limit"]

/-- The values that a field may be given. Any other name may have any value. -/
def Allows (name : String) (v : Json) : Prop :=
  (name ∈ longNames → ∃ n < UInt64.size, v = .nat n) ∧
    (name ∈ shortNames → ∃ n < UInt32.size, v = .nat n) ∧
    (name = "copy_part" → ∃ b, v = .bool b)

/-- A record of upload settings whose values all fit. -/
def WellTyped : Json → Prop := Json.WellTyped names Allows

/-- The settings without a file. -/
def standard : UploadSettings := {}

/-- The settings that a record means. -/
structure Means (j : Json) (s : UploadSettings) : Prop where
  isRecord : j.IsRecord names
  minPartSize : Field names j "min_part_size" (Json.MeansBelow UInt64.size) standard.minPartSize s.minPartSize
  maxPartSize : Field names j "max_part_size" (Json.MeansBelow UInt64.size) standard.maxPartSize s.maxPartSize
  maxParts : Field names j "max_parts" (Json.MeansBelow UInt32.size) standard.maxParts s.maxParts
  concurrency : Field names j "concurrency_limit" (Json.MeansBelow UInt32.size) standard.concurrency s.concurrency
  retryLimit : Field names j "retry_limit" (Json.MeansBelow UInt32.size) standard.retryLimit s.retryLimit
  retryBackoff : Field names j "retry_backoff_ms" (Json.MeansBelow UInt64.size) standard.retryBackoff s.retryBackoff
  partTimeout : Field names j "part_timeout_ms" (Json.MeansBelow UInt64.size) standard.partTimeout s.partTimeout
  multipartThreshold :
    Field names j "multipart_threshold" (Json.MeansBelow UInt64.size) standard.multipartThreshold s.multipartThreshold
  maxSinglePut : Field names j "max_single_put_size" (Json.MeansBelow UInt64.size) standard.maxSinglePut s.maxSinglePut
  copyPart : Field names j "copy_part" Json.MeansBool standard.copyPart s.copyPart

theorem names_nodup : names.Nodup := by decide

section

variable {j : Json} {field : Json.Fields} {name : String}

theorem number_field_iff (hfields : j.fields? names = some field) (hname : name ∈ names) {bound default n : Nat} :
    Json.orDefault (field name) (Json.natBelow? bound) default = some n ↔
      Field names j name (Json.MeansBelow bound) default n :=
  Json.orDefault_eq_some_iff names_nodup hfields Json.natBelow?_eq_some_iff hname

theorem flag_field_iff (hfields : j.fields? names = some field) (hname : name ∈ names) {default b : Bool} :
    Json.orDefault (field name) Json.bool? default = some b ↔ Field names j name Json.MeansBool default b :=
  Json.orDefault_eq_some_iff names_nodup hfields Json.bool?_eq_some_iff hname

end

/-- The settings that are read from a record are those that it means. -/
theorem ofJson?_eq_some_iff (j : Json) (s : UploadSettings) : ofJson? j = some s ↔ Means j s := by
  simp only [ofJson?, Option.bind_eq_bind, Option.bind_eq_some_iff]
  constructor
  · intro h
    obtain ⟨field, hfields, minPartSize, hminPartSize, maxPartSize, hmaxPartSize, maxParts, hmaxParts,
      concurrency, hconcurrency, retryLimit, hretryLimit, retryBackoff, hretryBackoff, partTimeout, hpartTimeout,
      multipartThreshold, hmultipartThreshold, maxSinglePut, hmaxSinglePut, copyPart, hcopyPart, hs⟩ := h
    cases hs
    exact {
      isRecord := Json.isRecord_iff.2 ⟨field, hfields⟩
      minPartSize := (number_field_iff hfields (by decide)).1 hminPartSize
      maxPartSize := (number_field_iff hfields (by decide)).1 hmaxPartSize
      maxParts := (number_field_iff hfields (by decide)).1 hmaxParts
      concurrency := (number_field_iff hfields (by decide)).1 hconcurrency
      retryLimit := (number_field_iff hfields (by decide)).1 hretryLimit
      retryBackoff := (number_field_iff hfields (by decide)).1 hretryBackoff
      partTimeout := (number_field_iff hfields (by decide)).1 hpartTimeout
      multipartThreshold := (number_field_iff hfields (by decide)).1 hmultipartThreshold
      maxSinglePut := (number_field_iff hfields (by decide)).1 hmaxSinglePut
      copyPart := (flag_field_iff hfields (by decide)).1 hcopyPart }
  · intro h
    obtain ⟨field, hfields⟩ := Json.isRecord_iff.1 h.isRecord
    exact ⟨field, hfields,
      _, (number_field_iff hfields (by decide)).2 h.minPartSize,
      _, (number_field_iff hfields (by decide)).2 h.maxPartSize,
      _, (number_field_iff hfields (by decide)).2 h.maxParts,
      _, (number_field_iff hfields (by decide)).2 h.concurrency,
      _, (number_field_iff hfields (by decide)).2 h.retryLimit,
      _, (number_field_iff hfields (by decide)).2 h.retryBackoff,
      _, (number_field_iff hfields (by decide)).2 h.partTimeout,
      _, (number_field_iff hfields (by decide)).2 h.multipartThreshold,
      _, (number_field_iff hfields (by decide)).2 h.maxSinglePut,
      _, (flag_field_iff hfields (by decide)).2 h.copyPart, rfl⟩

/-- Every record whose values fit means settings. -/
theorem WellTyped.exists_means {j : Json} (h : WellTyped j) : ∃ s, Means j s := by
  obtain ⟨hrecord, hallows⟩ := h
  have hlong (name : String) (hname : name ∈ longNames) (default : Nat) :
      ∃ n, Field names j name (Json.MeansBelow UInt64.size) default n := by
    refine Field.exists_of_means default fun v hv => ?_
    obtain ⟨n, hlt, hn⟩ := (hallows name v hv).1 hname
    exact ⟨n, hn, hlt⟩
  have hshort (name : String) (hname : name ∈ shortNames) (default : Nat) :
      ∃ n, Field names j name (Json.MeansBelow UInt32.size) default n := by
    refine Field.exists_of_means default fun v hv => ?_
    obtain ⟨n, hlt, hn⟩ := (hallows name v hv).2.1 hname
    exact ⟨n, hn, hlt⟩
  obtain ⟨minPartSize, hminPartSize⟩ := hlong "min_part_size" (by decide) standard.minPartSize
  obtain ⟨maxPartSize, hmaxPartSize⟩ := hlong "max_part_size" (by decide) standard.maxPartSize
  obtain ⟨maxParts, hmaxParts⟩ := hshort "max_parts" (by decide) standard.maxParts
  obtain ⟨concurrency, hconcurrency⟩ := hshort "concurrency_limit" (by decide) standard.concurrency
  obtain ⟨retryLimit, hretryLimit⟩ := hshort "retry_limit" (by decide) standard.retryLimit
  obtain ⟨retryBackoff, hretryBackoff⟩ := hlong "retry_backoff_ms" (by decide) standard.retryBackoff
  obtain ⟨partTimeout, hpartTimeout⟩ := hlong "part_timeout_ms" (by decide) standard.partTimeout
  obtain ⟨multipartThreshold, hmultipartThreshold⟩ :=
    hlong "multipart_threshold" (by decide) standard.multipartThreshold
  obtain ⟨maxSinglePut, hmaxSinglePut⟩ := hlong "max_single_put_size" (by decide) standard.maxSinglePut
  have hflag : ∃ b, Field names j "copy_part" Json.MeansBool standard.copyPart b :=
    Field.exists_of_means _ fun v hv => (hallows "copy_part" v hv).2.2 rfl
  obtain ⟨copyPart, hcopyPart⟩ := hflag
  exact ⟨⟨minPartSize, maxPartSize, maxParts, concurrency, retryLimit, retryBackoff, partTimeout,
    multipartThreshold, maxSinglePut, copyPart⟩, hrecord, hminPartSize, hmaxPartSize, hmaxParts, hconcurrency,
    hretryLimit, hretryBackoff, hpartTimeout, hmultipartThreshold, hmaxSinglePut, hcopyPart⟩

/-- The values of a record that means settings all fit. -/
theorem Means.wellTyped {j : Json} {s : UploadSettings} (h : Means j s) : WellTyped j := by
  have hnumber {name : String} {bound default n : Nat} (hfield : Field names j name (Json.MeansBelow bound) default n)
      (hname : name ∈ names) {v : Json} (hv : j.Gives names name v) : ∃ n < bound, v = .nat n := by
    obtain ⟨hn, hlt⟩ := hfield.means h.isRecord names_nodup hname hv
    exact ⟨n, hlt, hn⟩
  refine ⟨h.isRecord, fun name v hv => ⟨fun hname => ?_, fun hname => ?_, fun hname => ?_⟩⟩
  · simp only [longNames, List.mem_cons, List.not_mem_nil, or_false] at hname
    rcases hname with rfl | rfl | rfl | rfl | rfl | rfl
    · exact hnumber h.minPartSize (by decide) hv
    · exact hnumber h.maxPartSize (by decide) hv
    · exact hnumber h.retryBackoff (by decide) hv
    · exact hnumber h.partTimeout (by decide) hv
    · exact hnumber h.multipartThreshold (by decide) hv
    · exact hnumber h.maxSinglePut (by decide) hv
  · simp only [shortNames, List.mem_cons, List.not_mem_nil, or_false] at hname
    rcases hname with rfl | rfl | rfl
    · exact hnumber h.maxParts (by decide) hv
    · exact hnumber h.concurrency (by decide) hv
    · exact hnumber h.retryLimit (by decide) hv
  · rw [hname] at hv
    exact ⟨s.copyPart, h.copyPart.means h.isRecord names_nodup (by decide) hv⟩

end UploadSettings

end ObjectFlush
