import ObjectFlush.Proofs.Json.RoundTrip
import ObjectFlush.Proofs.Plan.Cutting
import ObjectFlush.Proofs.Settings.Object
import ObjectFlush.Proofs.Settings.Upload
import ObjectFlush.Settings.File

/-!
What a settings file does. Its record means settings, in which all that it does not give is as it is without a file
(`Settings.Means`); they are loaded if they do not contradict themselves, and refused as settings if they do. Of a
record that means no settings, a field that is given twice or a value out of its range, nothing is loaded
(`settings_file_overrides`).
-/

namespace ObjectFlush

open Json (Field)

/-! ## Consistency -/

namespace UploadSettings

/-- Settings that do not contradict themselves. -/
structure Consistent (s : UploadSettings) : Prop where
  minPartSize : 0 < s.minPartSize
  maxPartSize : s.minPartSize ≤ s.maxPartSize
  maxParts : 0 < s.maxParts
  concurrency : 0 < s.concurrency
  partTimeout : 0 < s.partTimeout
  maxSinglePut : 0 < s.maxSinglePut

theorem validate_eq_ok_iff {s : UploadSettings} : s.validate = .ok () ↔ s.Consistent := by
  unfold validate
  split
  · next hbounds =>
    simp only [reduceCtorEq, false_iff]
    intro h
    rw [PartBounds.validate_eq_ok_iff.2 ⟨h.minPartSize, h.maxPartSize, h.maxParts⟩] at hbounds
    cases hbounds
  · next hbounds =>
    obtain ⟨hmin, hmax, hparts⟩ := PartBounds.validate_eq_ok_iff.1 hbounds
    constructor
    · intro h
      split at h
      · cases h
      split at h
      · cases h
      split at h
      · cases h
      exact ⟨hmin, hmax, hparts, by omega, by omega, by omega⟩
    · intro h
      rw [if_neg (Nat.ne_of_gt h.concurrency), if_neg (Nat.ne_of_gt h.partTimeout),
        if_neg (Nat.ne_of_gt h.maxSinglePut)]

/-- Settings that are refused are refused as settings. -/
theorem error_of_validate {s : UploadSettings} {e : SetupError} (h : s.validate = .error e) :
    ∃ reason, e = .config reason := by
  unfold validate at h
  split at h
  · cases h
    exact ⟨_, rfl⟩
  split at h
  · cases h
    exact ⟨_, rfl⟩
  split at h
  · cases h
    exact ⟨_, rfl⟩
  split at h
  · cases h
    exact ⟨_, rfl⟩
  · cases h

end UploadSettings

/-! ## Records -/

namespace Settings

/-- The values that a field may be given. Any other name may have any value. -/
def Allows (name : String) (v : Json) : Prop :=
  (name = "upload" → UploadSettings.WellTyped v) ∧ (name = "store" → ObjectOptions.WellTyped 1 v)

/-- A record of settings whose values all fit. -/
def WellTyped : Json → Prop := Json.WellTyped names Allows

/-- The settings without a file. -/
def standard : Settings := {}

/-- The settings that a record means. -/
structure Means (j : Json) (s : Settings) : Prop where
  isRecord : j.IsRecord names
  upload : Field names j "upload" UploadSettings.Means standard.upload s.upload
  store : Field names j "store" (ObjectOptions.Means 1) standard.store s.store

/-- A known field is given twice or has a value that it may not have: in the file as a whole, among the upload
settings or among the options. -/
def Faulty (j : Json) : Prop :=
  j.Faulty names Allows ∨
    (∃ v, j.Gives names "upload" v ∧ v.Faulty UploadSettings.names UploadSettings.Allows) ∨
    ∃ v, j.Gives names "store" v ∧ v.Faulty ObjectOptions.names (ObjectOptions.Allows 1)

theorem names_nodup : names.Nodup := by decide

theorem upload_field_iff {j : Json} {field : Json.Fields} (hfields : j.fields? names = some field)
    {default upload : UploadSettings} :
    Json.orDefault (field "upload") UploadSettings.ofJson? default = some upload ↔
      Field names j "upload" UploadSettings.Means default upload :=
  Json.orDefault_eq_some_iff names_nodup hfields UploadSettings.ofJson?_eq_some_iff (by decide)

theorem store_field_iff {j : Json} {field : Json.Fields} (hfields : j.fields? names = some field)
    {default store : ObjectOptions} :
    Json.orDefault (field "store") (ObjectOptions.ofJson? 1) default = some store ↔
      Field names j "store" (ObjectOptions.Means 1) default store :=
  Json.orDefault_eq_some_iff names_nodup hfields (ObjectOptions.ofJson?_eq_some_iff 1) (by decide)

/-- The settings that are read from a record are those that it means. -/
theorem ofJson?_eq_some_iff (j : Json) (s : Settings) : ofJson? j = some s ↔ Means j s := by
  simp only [ofJson?, Option.bind_eq_bind, Option.bind_eq_some_iff]
  constructor
  · intro h
    obtain ⟨field, hfields, upload, hupload, store, hstore, hs⟩ := h
    cases hs
    exact {
      isRecord := Json.isRecord_iff.2 ⟨field, hfields⟩
      upload := (upload_field_iff hfields).1 hupload
      store := (store_field_iff hfields).1 hstore }
  · intro h
    obtain ⟨field, hfields⟩ := Json.isRecord_iff.1 h.isRecord
    exact ⟨field, hfields, _, (upload_field_iff hfields).2 h.upload, _, (store_field_iff hfields).2 h.store, rfl⟩

/-- A record means no more than one thing. -/
theorem Means.unique {j : Json} {s s' : Settings} (h : Means j s) (h' : Means j s') : s' = s := by
  have hread := (ofJson?_eq_some_iff j s).2 h
  rw [(ofJson?_eq_some_iff j s').2 h'] at hread
  exact Option.some.inj hread

/-- Every record whose values fit means settings. -/
theorem WellTyped.exists_means {j : Json} (h : WellTyped j) : ∃ s, Means j s := by
  obtain ⟨hrecord, hallows⟩ := h
  obtain ⟨upload, hupload⟩ :=
    Field.exists_of_means standard.upload fun v hv => ((hallows "upload" v hv).1 rfl).exists_means
  obtain ⟨store, hstore⟩ := Field.exists_of_means standard.store fun v hv =>
    ((hallows "store" v hv).2 rfl).exists_means
  exact ⟨⟨upload, store⟩, hrecord, hupload, hstore⟩

/-- The values of a record that means settings all fit. -/
theorem Means.wellTyped {j : Json} {s : Settings} (h : Means j s) : WellTyped j := by
  refine ⟨h.isRecord, fun name v hv => ⟨fun hname => ?_, fun hname => ?_⟩⟩
  all_goals rw [hname] at hv
  · exact (h.upload.means h.isRecord names_nodup (by decide) hv).wellTyped
  · exact (h.store.means h.isRecord names_nodup (by decide) hv).wellTyped

theorem Faulty.not_wellTyped {j : Json} (h : Faulty j) : ¬WellTyped j := by
  obtain h | ⟨v, hv, h⟩ | ⟨v, hv, h⟩ := h
  · exact h.not_wellTyped
  · exact fun hwell => h.not_wellTyped ((hwell.2 "upload" v hv).1 rfl)
  · exact fun hwell => h.not_wellTyped ((hwell.2 "store" v hv).2 rfl)

end Settings

/-! ## Files -/

/-- The file is the text of the value, in UTF-8. -/
def Json.IsFile (contents : Bytes) (j : Json) : Prop :=
  ∃ text, contents.toString? = some text ∧ ofString? text = some j

theorem Bytes.toString?_ofString (text : String) : (ofString text).toString? = some text := by
  have hvalid : ByteArray.IsValidUTF8 ⟨(ofString text).toArray⟩ := text.isValidUTF8
  exact dif_pos hvalid

/-- However a value is laid out in a text, it is read from the file of that text. -/
theorem Json.Layout.isFile (l : Layout) {j : Json} (h : j.Exact) :
    IsFile (Bytes.ofString (String.ofList (l.spell 0 j))) j :=
  ⟨_, Bytes.toString?_ofString _, by rw [ofString?, String.toList_ofList, ofSymbols?_spell l h]⟩

namespace Settings

variable {contents : Bytes} {j : Json} {s : Settings}

/-- Settings are loaded if they do not contradict themselves. -/
theorem load_of_means (hfile : j.IsFile contents) (h : Means j s) :
    (load (.ok contents) = .ok s ↔ s.upload.Consistent) ∧
      (¬s.upload.Consistent → ∃ reason, load (.ok contents) = .error (.config reason)) := by
  obtain ⟨text, hcontents, htext⟩ := hfile
  have hread := (ofJson?_eq_some_iff j s).2 h
  rw [← UploadSettings.validate_eq_ok_iff]
  cases hvalid : s.upload.validate with
  | ok =>
    have hload : load (.ok contents) = .ok s := by
      simp only [load, hcontents, parse, htext, Option.bind_some, hread, hvalid]
    simp [hload]
  | error e =>
    obtain ⟨reason, he⟩ := UploadSettings.error_of_validate hvalid
    have hload : load (.ok contents) = .error (.config reason) := by
      simp only [load, hcontents, parse, htext, Option.bind_some, hread, hvalid, he]
    simp [hload]

theorem load_of_not_wellTyped (hfile : j.IsFile contents) (h : ¬WellTyped j) :
    load (.ok contents) = .error .serialization := by
  obtain ⟨text, hcontents, htext⟩ := hfile
  have hnone : ofJson? j = none := by
    cases hread : ofJson? j with
    | none => rfl
    | some s => exact absurd ((ofJson?_eq_some_iff j s).1 hread).wellTyped h
  simp only [load, hcontents, parse, htext, Option.bind_some, hnone]

end Settings

/-- **A settings file overrides what it names.** However its record is laid out, in whatever order it has its members
and whatever others are among them, under names that are Unicode strings: if the values that it gives all fit, it means
one set of settings, with what is given and the defaults for the rest. These are loaded just if they do not contradict
themselves, and refused as settings otherwise. Of any other record, and so wherever a known field is given twice or has
a value that it may not have, nothing is loaded. -/
theorem settings_file_overrides :
    (∀ (l : Json.Layout) (j : Json), j.Exact → j.IsFile (Bytes.ofString (String.ofList (l.spell 0 j)))) ∧
    ∀ (contents : Bytes) (j : Json), j.IsFile contents →
      (Settings.WellTyped j → ∃ s, (∀ s', Settings.Means j s' ↔ s' = s) ∧
        (Settings.load (.ok contents) = .ok s ↔ s.upload.Consistent) ∧
        (¬s.upload.Consistent → ∃ reason, Settings.load (.ok contents) = .error (.config reason))) ∧
      (¬Settings.WellTyped j → Settings.load (.ok contents) = .error .serialization) ∧
      (Settings.Faulty j → Settings.load (.ok contents) = .error .serialization) := by
  refine ⟨fun l j => l.isFile, fun contents j hfile => ⟨fun hwell => ?_, Settings.load_of_not_wellTyped hfile,
    fun hfaulty => Settings.load_of_not_wellTyped hfile hfaulty.not_wellTyped⟩⟩
  obtain ⟨s, hs⟩ := hwell.exists_means
  refine ⟨s, fun s' => ⟨hs.unique, ?_⟩, Settings.load_of_means hfile hs⟩
  intro h
  rwa [h]

/-- Some fields of either kind among others, in another order than they are declared in; a greatest size of a part
that is below the default for the least one; a number of parts past 32 bits; and upload settings given twice. -/
theorem settings_files :
    let load (j : Json) := Settings.load (.ok (Bytes.ofString (String.ofList (Json.Layout.indented.spell 0 j))))
    load (.record [("store", .record [("sse", .record [("key_id", .text "k"), ("mode", .text "kms")]),
          ("acl", .record [("private", .null)])]), ("?", .array []),
        ("upload", .record [("copy_part", .bool false), ("max_part_size", .nat (UInt64.size - 1))]), ("?", .null)]) =
        .ok ⟨{ maxPartSize := UInt64.size - 1, copyPart := false },
          ⟨.privateAccess, .keyService (some "k"), .either⟩⟩ ∧
      (∃ reason, load (.record [("upload", .record [("max_part_size", .nat 1)])]) = .error (.config reason)) ∧
      load (.record [("upload", .record [("max_parts", .nat UInt32.size)])]) = .error .serialization ∧
      load (.record [("upload", .record []), ("upload", .record [])]) = .error .serialization := by
  intro load
  obtain ⟨hfile, hload⟩ := settings_file_overrides
  have hmeans {j : Json} {s : Settings} (hread : Settings.ofJson? j = some s) (hexact : j.Exact) :
      (load j = .ok s ↔ s.upload.Consistent) ∧
        (¬s.upload.Consistent → ∃ reason, load j = .error (.config reason)) := by
    have hs := (Settings.ofJson?_eq_some_iff j s).1 hread
    obtain ⟨s', hunique, hloaded⟩ := (hload _ j (hfile .indented j hexact)).1 hs.wellTyped
    rwa [← (hunique s).1 hs] at hloaded
  have hfaulty {j : Json} (hexact : j.Exact) := (hload _ j (hfile .indented j hexact)).2.2
  refine ⟨(hmeans (by decide +kernel) ?_).1.2 ⟨by decide, by decide, by decide, by decide, by decide, by decide⟩,
    (hmeans (s := ⟨{ maxPartSize := 1 }, {}⟩) (by decide +kernel) ?_).2 fun h => absurd h.maxPartSize (by decide),
    hfaulty ?_ (.inr (.inl ⟨_, List.mem_singleton.2 rfl, .inr ⟨"max_parts", _, List.mem_singleton.2 rfl, ?_⟩⟩)),
    hfaulty ?_ (.inl (.inl ⟨"upload", by decide, _, rfl, _, _, List.Sublist.refl _⟩))⟩
  case refine_4 =>
    intro hallows
    obtain ⟨n, hlt, hn⟩ := hallows.2.1 (by decide)
    cases hn
    exact absurd hlt (by decide)
  all_goals
    simp [Json.record, Json.text, Json.nat, Json.Exact, Json.MembersExact, Json.ItemsExact, JsonNumber.Exact,
      JsonNumber.capacity, UInt64.size, UInt32.size]

end ObjectFlush
