import ObjectFlush.Proofs.Json.Fields
import ObjectFlush.Proofs.Json.Records

/-!
The options for objects that a JSON record means (`ObjectOptions.Means`), which are what is read from the record
(`ObjectOptions.ofJson?_eq_some_iff`). The access and the signatures are known by their names; the encryption is told
from its mode and from what that mode has (`Encryption.Means`), wherever these stand among other members.
-/

namespace ObjectFlush

open Json (Field Sole)

/-- A value that is known by its name: the name alone, or an object that has nothing for it. -/
def Json.MeansNamed {α : Type} (name : α → String) (v : Json) (a : α) : Prop :=
  v = .text (name a) ∨ v = .record [(name a, .null)]

theorem ObjectOptions.named?_eq_some_iff {α : Type} {ofName? : String → Option α} {name : α → String}
    (h : ∀ s a, ofName? s = some a ↔ name a = s) (v : Json) (a : α) :
    named? ofName? v = some a ↔ Json.MeansNamed name v a := by
  unfold named? Json.MeansNamed Json.text Json.record
  split
  · simp [h, eq_comm]
  · simp [h, eq_comm]
  · next hstring hobject =>
    simp only [reduceCtorEq, false_iff, not_or]
    exact ⟨hstring _, hobject _⟩

theorem Acl.ofName?_eq_some_iff (s : String) (acl : Acl) : ofName? s = some acl ↔ acl.name = s := by
  constructor
  · intro h
    simpa using List.find?_some h
  · intro h
    rw [← h, ofName?_name]

theorem Signature.ofName?_eq_some_iff (s : String) (signature : Signature) :
    ofName? s = some signature ↔ signature.name = s := by
  constructor
  · intro h
    simpa using List.find?_some h
  · intro h
    rw [← h, ofName?_name]

namespace Encryption

/-- What the members of an object say of the encryption: its mode, and what the mode has. Other members may be among
them. -/
inductive OfMembers (members : List (JsonString × Json)) : Encryption → Prop
  | disabled (mode : Sole "mode" (.text "disabled") members) : OfMembers members .disabled
  | store (mode : Sole "mode" (.text "oss") members) : OfMembers members .store
  | custom {digest : String} (mode : Sole "mode" (.text "custom") members)
      (key : Sole "key_md5" (.text digest) members) : OfMembers members (.custom digest)
  | noKey (mode : Sole "mode" (.text "kms") members) (key : ∀ v, (some "key_id", v) ∉ members) :
      OfMembers members (.keyService none)
  | nullKey (mode : Sole "mode" (.text "kms") members) (key : Sole "key_id" .null members) :
      OfMembers members (.keyService none)
  | key {id : String} (mode : Sole "mode" (.text "kms") members) (key : Sole "key_id" (.text id) members) :
      OfMembers members (.keyService (some id))

/-- What the items of an array say of it: the mode, and behind it all that the mode has. -/
inductive OfItems : List Json → Encryption → Prop
  | disabled : OfItems [.text "disabled"] .disabled
  | store : OfItems [.text "oss"] .store
  | custom {digest : String} : OfItems [.text "custom", .text digest] (.custom digest)
  | nullKey : OfItems [.text "kms", .null] (.keyService none)
  | key {id : String} : OfItems [.text "kms", .text id] (.keyService (some id))

/-- The encryption that a value means, which lies inside `around` containers. The value must be plain and may not be
nested too deeply, also where that says nothing of the encryption. -/
def Means (around : Nat) (j : Json) (e : Encryption) : Prop :=
  j.isPlain ∧ around + j.depth ≤ maxDepth ∧
    match j with
    | .object members => OfMembers members e
    | .array items => OfItems items e
    | _ => False

theorem keyId?_eq_some_iff {v : Json} {id? : Option String} :
    keyId? v = some id? ↔ (v = .null ∧ id? = none) ∨ ∃ id, v = .text id ∧ id? = some id := by
  unfold keyId? Json.text
  split
  · simp [eq_comm]
  · simp [eq_comm]
  · next hnull hstring =>
    simp only [reduceCtorEq, false_iff, not_or, not_and, not_exists]
    exact ⟨fun h => absurd h hnull, fun id h => absurd h (hstring id)⟩

theorem OfMembers.read {members : List (JsonString × Json)} {e : Encryption} (h : OfMembers members e) :
    ∃ mode, Sole "mode" (.text mode) members ∧ ofMembers? mode members = some e := by
  cases h with
  | disabled mode => exact ⟨_, mode, rfl⟩
  | store mode => exact ⟨_, mode, rfl⟩
  | custom mode key =>
    obtain ⟨hcount, hlookup⟩ := Json.sole_iff.1 key
    exact ⟨_, mode, by simp [ofMembers?, hcount, hlookup, Json.text, Json.string?]⟩
  | noKey mode key =>
    have hcount : Json.count "key_id" members = 0 := by
      rw [Json.count, List.length_eq_zero_iff, List.filter_eq_nil_iff]
      intro m hm hname
      obtain ⟨k, v⟩ := m
      simp only [decide_eq_true_eq] at hname
      exact key v (hname ▸ hm)
    exact ⟨_, mode, by simp [ofMembers?, hcount, Json.lookup_eq_none_iff.2 key, keyId?]⟩
  | nullKey mode key =>
    obtain ⟨hcount, hlookup⟩ := Json.sole_iff.1 key
    exact ⟨_, mode, by simp [ofMembers?, hcount, hlookup, keyId?]⟩
  | key mode key =>
    obtain ⟨hcount, hlookup⟩ := Json.sole_iff.1 key
    exact ⟨_, mode, by simp [ofMembers?, hcount, hlookup, keyId?, Json.text]⟩

theorem OfMembers.of_read {members : List (JsonString × Json)} {mode : String} {e : Encryption}
    (hmode : Sole "mode" (.text mode) members) (h : ofMembers? mode members = some e) : OfMembers members e := by
  unfold ofMembers? at h
  split at h
  · cases h
    exact .disabled hmode
  · cases h
    exact .store hmode
  · split at h
    · next hcount =>
      obtain ⟨digest, hdigest, he⟩ := Option.map_eq_some_iff.1 h
      obtain ⟨v, hlookup, hv⟩ := Option.bind_eq_some_iff.1 hdigest
      rw [Json.string?_eq_some_iff.1 hv] at hlookup
      rw [← he]
      exact .custom hmode (Json.sole_iff.2 ⟨hcount, hlookup⟩)
    · cases h
  · split at h
    · next hcount =>
      obtain ⟨id?, hid, he⟩ := Option.map_eq_some_iff.1 h
      rw [← he]
      cases hlookup : Json.lookup "key_id" members with
      | none =>
        rw [hlookup] at hid
        cases hid
        exact .noKey hmode (Json.lookup_eq_none_iff.1 hlookup)
      | some v =>
        have hsole := Json.sole_of_lookup hlookup hcount
        rw [hlookup, Option.getD_some, keyId?_eq_some_iff] at hid
        obtain ⟨hv, hnone⟩ | ⟨id, hv, hsome⟩ := hid
        · rw [hnone]
          exact .nullKey hmode (hv ▸ hsole)
        · rw [hsome]
          exact .key hmode (hv ▸ hsole)
    · cases h
  · cases h

theorem ofItems_iff {mode : String} {items : List Json} {e : Encryption} :
    OfItems (.text mode :: items) e ↔ ofItems? mode items = some e := by
  constructor
  · intro h
    cases h with
    | disabled => rfl
    | store => rfl
    | custom => rfl
    | nullKey => rfl
    | key => rfl
  · intro h
    unfold ofItems? at h
    split at h
    · cases h
      exact .disabled
    · cases h
      exact .store
    · obtain ⟨digest, hdigest, he⟩ := Option.map_eq_some_iff.1 h
      rw [Json.string?_eq_some_iff.1 hdigest, ← he]
      exact .custom
    · obtain ⟨id?, hid, he⟩ := Option.map_eq_some_iff.1 h
      obtain ⟨hv, hnone⟩ | ⟨id, hv, hsome⟩ := keyId?_eq_some_iff.1 hid
      · rw [hv, ← he, hnone]
        exact .nullKey
      · rw [hv, ← he, hsome]
        exact .key
    · cases h

theorem OfItems.mode {v : Json} {items : List Json} {e : Encryption} (h : OfItems (v :: items) e) :
    ∃ mode, v = .text mode := by
  cases h <;> exact ⟨_, rfl⟩

/-- The encryption that is read from a value is the one that it means. -/
theorem ofJson?_eq_some_iff (around : Nat) (j : Json) (e : Encryption) :
    ofJson? around j = some e ↔ Means around j e := by
  unfold ofJson? Means
  split
  · next hbounded =>
    simp only [hbounded.1, hbounded.2, true_and]
    cases j with
    | object members =>
      dsimp only
      constructor
      · intro h
        split at h
        · next hcount =>
          obtain ⟨mode, hmode, h⟩ := Option.bind_eq_some_iff.1 h
          obtain ⟨v, hlookup, hv⟩ := Option.bind_eq_some_iff.1 hmode
          rw [Json.string?_eq_some_iff.1 hv] at hlookup
          exact .of_read (Json.sole_iff.2 ⟨hcount, hlookup⟩) h
        · cases h
      · intro h
        obtain ⟨mode, hsole, hread⟩ := h.read
        obtain ⟨hcount, hlookup⟩ := Json.sole_iff.1 hsole
        rw [if_pos hcount, hlookup]
        exact hread
    | array items =>
      cases items with
      | nil =>
        simp only [reduceCtorEq, false_iff]
        exact fun h => by cases h
      | cons v items =>
        dsimp only
        constructor
        · intro h
          obtain ⟨mode, hmode, h⟩ := Option.bind_eq_some_iff.1 h
          rw [Json.string?_eq_some_iff.1 hmode]
          exact ofItems_iff.2 h
        · intro h
          obtain ⟨mode, hv⟩ := h.mode
          rw [hv] at h ⊢
          exact ofItems_iff.1 h
    | null | bool | number | string => simp
  · next hbounded =>
    simp only [reduceCtorEq, false_iff]
    exact fun h => hbounded ⟨h.1, h.2.1⟩

end Encryption

namespace ObjectOptions

/-- The values that a field may be given, in a record that lies inside `around` containers. -/
def Allows (around : Nat) (name : String) (v : Json) : Prop :=
  (name = "acl" → ∃ acl, Json.MeansNamed Acl.name v acl) ∧
    (name = "sse" → ∃ encryption, Encryption.Means (around + 1) v encryption) ∧
    (name = "signature" → ∃ signature, Json.MeansNamed Signature.name v signature)

/-- A record of options whose values all fit. -/
def WellTyped (around : Nat) : Json → Prop := Json.WellTyped names (Allows around)

/-- The options without a file. -/
def standard : ObjectOptions := {}

/-- The options that a record means. -/
structure Means (around : Nat) (j : Json) (o : ObjectOptions) : Prop where
  isRecord : j.IsRecord names
  acl : Field names j "acl" (Json.MeansNamed Acl.name) standard.acl o.acl
  encryption : Field names j "sse" (Encryption.Means (around + 1)) standard.encryption o.encryption
  signature : Field names j "signature" (Json.MeansNamed Signature.name) standard.signature o.signature

theorem names_nodup : names.Nodup := by decide

section

variable {around : Nat} {j : Json} {field : Json.Fields}

theorem acl_field_iff (hfields : j.fields? names = some field) {default acl : Acl} :
    Json.orDefault (field "acl") (named? Acl.ofName?) default = some acl ↔
      Field names j "acl" (Json.MeansNamed Acl.name) default acl :=
  Json.orDefault_eq_some_iff names_nodup hfields (named?_eq_some_iff Acl.ofName?_eq_some_iff) (by decide)

theorem encryption_field_iff (hfields : j.fields? names = some field) {default encryption : Encryption} :
    Json.orDefault (field "sse") (Encryption.ofJson? around) default = some encryption ↔
      Field names j "sse" (Encryption.Means around) default encryption :=
  Json.orDefault_eq_some_iff names_nodup hfields (Encryption.ofJson?_eq_some_iff around) (by decide)

theorem signature_field_iff (hfields : j.fields? names = some field) {default signature : Signature} :
    Json.orDefault (field "signature") (named? Signature.ofName?) default = some signature ↔
      Field names j "signature" (Json.MeansNamed Signature.name) default signature :=
  Json.orDefault_eq_some_iff names_nodup hfields (named?_eq_some_iff Signature.ofName?_eq_some_iff) (by decide)

end

/-- The options that are read from a record are those that it means. -/
theorem ofJson?_eq_some_iff (around : Nat) (j : Json) (o : ObjectOptions) :
    ofJson? around j = some o ↔ Means around j o := by
  simp only [ofJson?, Option.bind_eq_bind, Option.bind_eq_some_iff]
  constructor
  · intro h
    obtain ⟨field, hfields, acl, hacl, encryption, hencryption, signature, hsignature, ho⟩ := h
    cases ho
    exact {
      isRecord := Json.isRecord_iff.2 ⟨field, hfields⟩
      acl := (acl_field_iff hfields).1 hacl
      encryption := (encryption_field_iff hfields).1 hencryption
      signature := (signature_field_iff hfields).1 hsignature }
  · intro h
    obtain ⟨field, hfields⟩ := Json.isRecord_iff.1 h.isRecord
    exact ⟨field, hfields, _, (acl_field_iff hfields).2 h.acl, _, (encryption_field_iff hfields).2 h.encryption,
      _, (signature_field_iff hfields).2 h.signature, rfl⟩

/-- Every record whose values fit means options. -/
theorem WellTyped.exists_means {around : Nat} {j : Json} (h : WellTyped around j) : ∃ o, Means around j o := by
  obtain ⟨hrecord, hallows⟩ := h
  obtain ⟨acl, hacl⟩ := Field.exists_of_means standard.acl fun v hv => (hallows "acl" v hv).1 rfl
  obtain ⟨encryption, hencryption⟩ :=
    Field.exists_of_means standard.encryption fun v hv => (hallows "sse" v hv).2.1 rfl
  obtain ⟨signature, hsignature⟩ :=
    Field.exists_of_means standard.signature fun v hv => (hallows "signature" v hv).2.2 rfl
  exact ⟨⟨acl, encryption, signature⟩, hrecord, hacl, hencryption, hsignature⟩

/-- The values of a record that means options all fit. -/
theorem Means.wellTyped {around : Nat} {j : Json} {o : ObjectOptions} (h : Means around j o) : WellTyped around j := by
  refine ⟨h.isRecord, fun name v hv => ⟨fun hname => ?_, fun hname => ?_, fun hname => ?_⟩⟩
  all_goals rw [hname] at hv
  · exact ⟨o.acl, h.acl.means h.isRecord names_nodup (by decide) hv⟩
  · exact ⟨o.encryption, h.encryption.means h.isRecord names_nodup (by decide) hv⟩
  · exact ⟨o.signature, h.signature.means h.isRecord names_nodup (by decide) hv⟩

end ObjectOptions

end ObjectFlush
