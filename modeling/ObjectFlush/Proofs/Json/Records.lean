import Mathlib.Data.List.Nodup
import ObjectFlush.Object.Record
import ObjectFlush.Proofs.Json.Fields
import ObjectFlush.Proofs.Json.RoundTrip
import ObjectFlush.Settings.Object

/-!
The records that are kept as JSON are read back from what is written of them: what is asked of the
store for an object, and what the store reports of one.

  1. A record that names every field just once is read field by field (`fields?_record`).
  2. Every value is the one that its record is read as (`ObjectOptions.ofJson?_toJson`,
     `ObjectSummary.ofJson?_toJson`), and no number in a record is cut when it is written.
  3. So the text of a value is read as the value, and a text that is read as a value may be replaced by
     the text of that value (`stored_values_round_trip`).
-/

namespace ObjectFlush

namespace Json

/-- A record that names every field just once is well formed. -/
theorem isRecord_record {members : List (String × Json)} (hnodup : (members.map (·.1)).Nodup) (names : List String) :
    (record members).IsRecord names := by
  constructor
  · intro m hm
    obtain ⟨m', -, hm'⟩ := List.mem_map.1 hm
    rw [← hm']
    rfl
  · intro name _ hrepeated
    obtain ⟨v, w, hsub⟩ := hrepeated
    have hnames := hsub.map Prod.fst
    rw [List.map_map] at hnames
    have hsome : (members.map fun m => some m.1).Nodup := by
      have hmapped := hnodup.map fun _ _ h => Option.some.inj h
      rwa [List.map_map] at hmapped
    exact absurd (hsome.sublist hnames) (by simp)

/-- A record that names every field just once is read field by field. -/
theorem fields?_record {members : List (String × Json)} (hnodup : (members.map (·.1)).Nodup) :
    ∃ field, (record members).fields? (members.map (·.1)) = some field ∧
      ∀ k v, (k, v) ∈ members → field k = some v := by
  obtain ⟨field, hfields⟩ := isRecord_iff.1 (isRecord_record hnodup (members.map (·.1)))
  refine ⟨field, hfields, fun k v h => ?_⟩
  exact (fields?_spec hnodup hfields (List.mem_map.2 ⟨_, h, rfl⟩) v).2 (List.mem_map.2 ⟨_, h, rfl⟩)

end Json

theorem Acl.ofName?_name (acl : Acl) : ofName? acl.name = some acl := by
  cases acl <;> decide

theorem Signature.ofName?_name (signature : Signature) : ofName? signature.name = some signature := by
  cases signature <;> decide

namespace Encryption

theorem depth_toJson (e : Encryption) : e.toJson.depth = 1 := by
  rcases e with _ | _ | _ | _ | _ <;> rfl

/-- Each mode is read as itself, with all that it has. -/
theorem ofJson?_toJson {around : Nat} (h : around + 1 ≤ maxDepth) (e : Encryption) :
    ofJson? around e.toJson = some e := by
  have hplain : e.toJson.isPlain = true := by
    rcases e with _ | _ | _ | _ | _ <;> rfl
  unfold ofJson?
  rw [if_pos ⟨hplain, by rwa [depth_toJson]⟩]
  rcases e with _ | _ | _ | _ | _ <;> rfl

end Encryption

namespace ObjectOptions

theorem exact_toJson (o : ObjectOptions) : o.toJson.Exact := by
  obtain ⟨acl, encryption, signature⟩ := o
  rcases encryption with _ | _ | _ | _ | _
  all_goals
    simp [toJson, Encryption.toJson, Json.record, Json.text, Json.Exact, Json.MembersExact]

/-- Options are read as themselves. -/
theorem ofJson?_toJson {around : Nat} (h : around + 2 ≤ Encryption.maxDepth) (o : ObjectOptions) :
    ofJson? around o.toJson = some o := by
  have hnodup : ([("acl", Json.text o.acl.name), ("sse", o.encryption.toJson),
      ("signature", Json.text o.signature.name)].map (·.1)).Nodup := by simp
  obtain ⟨field, hfields, hfield⟩ := Json.fields?_record hnodup
  have hacl := hfield "acl" (.text o.acl.name) (by simp)
  have hsse := hfield "sse" o.encryption.toJson (by simp)
  have hsignature := hfield "signature" (.text o.signature.name) (by simp)
  have hnames : o.toJson.fields? names = some field := hfields
  have hread : Encryption.ofJson? (around + 1) o.encryption.toJson = some o.encryption :=
    Encryption.ofJson?_toJson h o.encryption
  simp only [ofJson?, hnames, hacl, hsse, hsignature, Json.orDefault, Json.text, named?,
    Acl.ofName?_name, Signature.ofName?_name, hread, Option.bind_eq_bind, Option.bind_some]
  rfl

end ObjectOptions

namespace ObjectSummary

theorem exact_toJson {m : ObjectSummary} (h : m.size < UInt64.size) : m.toJson.Exact := by
  simp only [toJson, Json.record, Json.text, Json.nat, List.map_cons, List.map_nil, Json.Exact,
    Json.MembersExact, JsonNumber.Exact, true_and, and_true]
  exact h

/-- A summary is read as itself, if its size fits into 64 bits. -/
theorem ofJson?_toJson {m : ObjectSummary} (h : m.size < UInt64.size) : ofJson? m.toJson = some m := by
  have hnodup : ([("key", Json.text m.key), ("size", .nat m.size), ("etag", .text m.tag)].map
      (·.1)).Nodup := by simp
  obtain ⟨field, hfields, hfield⟩ := Json.fields?_record hnodup
  have hkey := hfield "key" (.text m.key) (by simp)
  have hsize := hfield "size" (.nat m.size) (by simp)
  have htag := hfield "etag" (.text m.tag) (by simp)
  have hnames : m.toJson.fields? names = some field := hfields
  simp only [ofJson?, hnames, hkey, hsize, htag, Json.text, Json.nat, Json.string?, Json.natBelow?,
    if_pos h, Option.bind_eq_bind, Option.bind_some]
  rfl

/-- The size of a summary that is read fits into 64 bits. -/
theorem size_of_ofJson? {j : Json} {m : ObjectSummary} (h : ofJson? j = some m) :
    m.size < UInt64.size := by
  simp only [ofJson?, Option.bind_eq_bind, Option.bind_eq_some_iff] at h
  obtain ⟨field, -, _, -, key, -, size, -, n, hn, _, -, tag, -, hm⟩ := h
  cases hm
  unfold Json.natBelow? at hn
  split at hn
  · split at hn
    · next hlt =>
      cases hn
      exact hlt
    · cases hn
  · cases hn

end ObjectSummary

namespace Json

variable {α : Type}

/-- The text is read as the value, as characters and as bytes. -/
def ReadAs (read : Json → Option α) (text : String) (value : α) : Prop :=
  (ofString? text).bind read = some value ∧ (ofBytes? (Bytes.ofString text)).bind read = some value

theorem Written.readAs {j : Json} {text : String} (h : j.Written text) (hexact : j.Exact)
    {read : Json → Option α} {value : α} (hread : read j = some value) : ReadAs read text value := by
  have htext : (ofString? text).bind read = some value := by
    rw [h.read hexact]
    exact hread
  exact ⟨htext, by rwa [ofBytes?_ofString]⟩

end Json

/-- **Stored values survive their texts.** Every value of the options for an object, and every summary of
an object with a size of 64 bits, is read from either text that is written of it, as characters and as
bytes; and whatever text a value was read from, spelt in characters or in bytes, either text that is
written of the value is read as that value. -/
theorem stored_values_round_trip :
    (∀ (o : ObjectOptions) (text : String), o.toJson.Written text →
      Json.ReadAs (ObjectOptions.ofJson? 0) text o) ∧
    (∀ (m : ObjectSummary) (text : String), m.size < UInt64.size → m.toJson.Written text →
      Json.ReadAs ObjectSummary.ofJson? text m) ∧
    (∀ (input : List Symbol) (o : ObjectOptions) (text : String),
      (Json.ofSymbols? input).bind (ObjectOptions.ofJson? 0) = some o → o.toJson.Written text →
      Json.ReadAs (ObjectOptions.ofJson? 0) text o) ∧
    ∀ (input : List Symbol) (m : ObjectSummary) (text : String),
      (Json.ofSymbols? input).bind ObjectSummary.ofJson? = some m → m.toJson.Written text →
      Json.ReadAs ObjectSummary.ofJson? text m := by
  have hoptions (o : ObjectOptions) (text : String) (h : o.toJson.Written text) :
      Json.ReadAs (ObjectOptions.ofJson? 0) text o :=
    h.readAs o.exact_toJson (ObjectOptions.ofJson?_toJson (by decide) o)
  have hsummary (m : ObjectSummary) (text : String) (hsize : m.size < UInt64.size)
      (h : m.toJson.Written text) : Json.ReadAs ObjectSummary.ofJson? text m :=
    h.readAs (ObjectSummary.exact_toJson hsize) (ObjectSummary.ofJson?_toJson hsize)
  refine ⟨hoptions, hsummary, fun _ o text _ => hoptions o text, ?_⟩
  intro input m text hinput
  obtain ⟨j, -, hj⟩ := Option.bind_eq_some_iff.1 hinput
  exact hsummary m text (ObjectSummary.size_of_ofJson? hj)

/-- A key digest with a quote, a backslash, control characters and a character past sixteen bits, and a
summary of the largest size; options that are read from names in brackets and a pair of escapes among
other members, and a summary that is read from an array. -/
theorem escaped_values_round_trip :
    let o : ObjectOptions := ⟨.publicRead, .custom "\"\\\n\x01\x7f😀", .v4⟩
    let m : ObjectSummary := ⟨"a/é", UInt64.size - 1, "\t"⟩
    let input := "\x7b\"sse\":[\"kms\",\"\\ud83d\\ude00\"],\"acl\":\x7b\"private\":null\x7d,\"x\":2.5e3\x7d"
    let o' : ObjectOptions := ⟨.privateAccess, .keyService (some "😀"), .either⟩
    let m' : ObjectSummary := ⟨"k", 7, ""⟩
    Json.ReadAs (ObjectOptions.ofJson? 0) o.toJson.compact o ∧
      Json.ReadAs ObjectSummary.ofJson? m.toJson.pretty m ∧
      (Json.ofString? input).bind (ObjectOptions.ofJson? 0) = some o' ∧
      Json.ReadAs (ObjectOptions.ofJson? 0) o'.toJson.pretty o' ∧
      (Json.ofString? "[\"k\", 7, \"\"]").bind ObjectSummary.ofJson? = some m' ∧
      Json.ReadAs ObjectSummary.ofJson? m'.toJson.compact m' := by
  intro o m input o' m'
  obtain ⟨hoptions, hsummary, hread, hread'⟩ := stored_values_round_trip
  have hinput : (Json.ofString? input).bind (ObjectOptions.ofJson? 0) = some o' := by
    unfold input o'
    decide +kernel
  have hinput' : (Json.ofString? "[\"k\", 7, \"\"]").bind ObjectSummary.ofJson? = some m' := by
    unfold m'
    decide +kernel
  exact ⟨hoptions o _ .compact, hsummary m _ (by decide) .pretty, hinput,
    hread _ o' _ hinput .pretty, hinput', hread' _ m' _ hinput' .compact⟩

end ObjectFlush
