import Mathlib.Data.List.Nodup
import ObjectFlush.Json.Record

/-!
What a record says of its fields, told from its members or its items and not from how they are looked up.

  1. A record gives a value for a field by a member of that name, or by an item in its place (`Gives`). It is well
     formed if no field is given twice and no item is left over (`IsRecord`); just then its fields can be looked up
     (`isRecord_iff`), and what is found of them is what it gives (`fields?_spec`).
  2. A field that is not given has its default, and any other one has what the value that is given for it means
     (`Field`, `orDefault_eq_some_iff`).
-/

namespace ObjectFlush.Json

variable {α : Type}

/-! ## Members -/

/-- A name is given twice, with the same value or with another one. -/
def Repeated (name : String) (members : List (JsonString × Json)) : Prop :=
  ∃ v w, [(some name, v), (some name, w)].Sublist members

/-- A name is given once, with this value. -/
def Sole (name : String) (v : Json) (members : List (JsonString × Json)) : Prop :=
  (some name, v) ∈ members ∧ ¬Repeated name members

theorem repeated_iff {name : String} {members : List (JsonString × Json)} :
    Repeated name members ↔ 2 ≤ count name members := by
  unfold count
  constructor
  · intro h
    obtain ⟨v, w, hsub⟩ := h
    have hlength := (hsub.filter (·.1 = some name)).length_le
    simpa using hlength
  · intro h
    have hnamed (m : JsonString × Json) (hm : m ∈ members.filter (·.1 = some name)) : m = (some name, m.2) :=
      Prod.ext (by simpa using List.of_mem_filter hm) rfl
    match hfilter : members.filter (·.1 = some name) with
    | [] => simp [hfilter] at h
    | [_] => simp [hfilter] at h
    | a :: b :: rest =>
      have hsub : [a, b].Sublist members := by
        have := List.filter_sublist (p := fun m : JsonString × Json => m.1 = some name) (l := members)
        rw [hfilter] at this
        exact List.Sublist.trans (by simp) this
      rw [hnamed a (by simp [hfilter]), hnamed b (by simp [hfilter])] at hsub
      exact ⟨a.2, b.2, hsub⟩

theorem lookup_eq_none_iff {name : String} {members : List (JsonString × Json)} :
    lookup name members = none ↔ ∀ v, (some name, v) ∉ members := by
  induction members with
  | nil => simp [lookup]
  | cons m members ih =>
    obtain ⟨k, w⟩ := m
    rw [lookup]
    split
    · next hk =>
      simp only [reduceCtorEq, false_iff, not_forall, not_not]
      exact ⟨w, by simp [hk]⟩
    · next hk =>
      rw [ih]
      simp [Ne.symm hk]

theorem mem_of_lookup {name : String} {v : Json} {members : List (JsonString × Json)}
    (h : lookup name members = some v) : (some name, v) ∈ members := by
  induction members with
  | nil => cases h
  | cons m members ih =>
    obtain ⟨k, w⟩ := m
    rw [lookup] at h
    split at h
    · next hk =>
      cases h
      simp [hk]
    · exact List.mem_cons_of_mem _ (ih h)

/-- Of a name that is not repeated, the value that is found is the one that is given. -/
theorem lookup_eq_some_iff {name : String} {v : Json} {members : List (JsonString × Json)}
    (h : ¬Repeated name members) : lookup name members = some v ↔ (some name, v) ∈ members := by
  refine ⟨mem_of_lookup, fun hmem => ?_⟩
  induction members with
  | nil => cases hmem
  | cons m members ih =>
    obtain ⟨k, w⟩ := m
    rw [lookup]
    obtain heq | hrest := List.mem_cons.1 hmem
    · cases heq
      rw [if_pos rfl]
    · have hk : k ≠ some name := by
        intro hk
        refine h ⟨w, v, ?_⟩
        rw [hk]
        exact (List.singleton_sublist.2 hrest).cons_cons _
      rw [if_neg hk]
      exact ih (fun ⟨a, b, hsub⟩ => h ⟨a, b, hsub.cons _⟩) hrest

theorem sole_iff {name : String} {v : Json} {members : List (JsonString × Json)} :
    Sole name v members ↔ count name members = 1 ∧ lookup name members = some v := by
  constructor
  · intro h
    obtain ⟨hmem, hrepeated⟩ := h
    have hpos : 0 < count name members := List.length_pos_of_mem (List.mem_filter.2 ⟨hmem, by simp⟩)
    have hle := mt repeated_iff.2 hrepeated
    exact ⟨by omega, (lookup_eq_some_iff hrepeated).2 hmem⟩
  · intro h
    refine ⟨mem_of_lookup h.2, fun hrepeated => ?_⟩
    have := repeated_iff.1 hrepeated
    omega

theorem sole_of_lookup {name : String} {v : Json} {members : List (JsonString × Json)}
    (h : lookup name members = some v) (hcount : count name members ≤ 1) : Sole name v members :=
  ⟨mem_of_lookup h, fun hrepeated => absurd (repeated_iff.1 hrepeated) (by omega)⟩

/-! ## Records -/

/-- The record gives the value for the name: by a member of that name, or by an item in its place among `names`. -/
def Gives (names : List String) (j : Json) (name : String) (v : Json) : Prop :=
  match j with
  | .object members => (some name, v) ∈ members
  | .array items => (name, v) ∈ names.zip items
  | _ => False

/-- The record gives a name twice. -/
def Repeats (j : Json) (name : String) : Prop :=
  ∃ members, j = .object members ∧ Repeated name members

/-- The value is a record with these fields: an object that names each of them at most once, among any other names as
long as they are Unicode strings, or an array without more items than there are fields. -/
def IsRecord (names : List String) : Json → Prop
  | .object members => (∀ m ∈ members, m.1.isSome) ∧ ∀ name ∈ names, ¬Repeated name members
  | .array items => items.length ≤ names.length
  | _ => False

theorem place_eq_some_iff {names : List String} (hnodup : names.Nodup) {items : List Json} {name : String} {v : Json} :
    place name names items = some v ↔ (name, v) ∈ names.zip items := by
  induction names generalizing items with
  | nil => simp [place]
  | cons n names ih =>
    obtain ⟨hn, hnodup⟩ := List.nodup_cons.1 hnodup
    cases items with
    | nil => simp [place]
    | cons w items =>
      rw [place, List.zip_cons_cons, List.mem_cons, Prod.mk.injEq]
      split
      · next hname =>
        have hrest : (name, v) ∉ names.zip items := fun hmem => hn (hname ▸ (List.of_mem_zip hmem).1)
        simp [hname, hrest, eq_comm]
      · next hname =>
        rw [ih hnodup]
        simp [Ne.symm hname]

theorem isRecord_object_iff {names : List String} {members : List (JsonString × Json)} :
    (object members).IsRecord names ↔ (members.all (·.1.isSome) && names.all (count · members ≤ 1)) = true := by
  simp only [IsRecord, repeated_iff, Nat.not_le, Bool.and_eq_true, List.all_eq_true, decide_eq_true_eq, Nat.lt_succ_iff]

/-- The fields of a well-formed record can be looked up, and those of no other value. -/
theorem isRecord_iff {names : List String} {j : Json} : j.IsRecord names ↔
    ∃ field, j.fields? names = some field := by
  cases j with
  | object members => simp [isRecord_object_iff, fields?]
  | array items => simp [IsRecord, fields?]
  | null | bool | number | string => simp [IsRecord, fields?]

/-- What is found of a field is what the record gives. -/
theorem fields?_spec {names : List String} (hnodup : names.Nodup) {j : Json} {field : Fields}
    (h : j.fields? names = some field) {name : String} (hname : name ∈ names) (v : Json) :
    field name = some v ↔ j.Gives names name v := by
  have hrecord : j.IsRecord names := isRecord_iff.2 ⟨field, h⟩
  cases j with
  | object members =>
    rw [fields?, if_pos (isRecord_object_iff.1 hrecord)] at h
    cases h
    exact lookup_eq_some_iff (hrecord.2 name hname)
  | array items =>
    have hlength : items.length ≤ names.length := hrecord
    rw [fields?, if_pos hlength] at h
    cases h
    exact place_eq_some_iff hnodup
  | null | bool | number | string => cases h

/-- A field that a record gives twice keeps it from being well formed. -/
theorem Repeats.not_isRecord {names : List String} {j : Json} {name : String} (h : j.Repeats name)
    (hname : name ∈ names) : ¬j.IsRecord names := by
  obtain ⟨members, hj, hrepeated⟩ := h
  intro hrecord
  rw [hj] at hrecord
  exact hrecord.2 name hname hrepeated

/-! ## Fields -/

/-- What a record says of a field: what the value that it gives means, or the default if it gives none. -/
def Field (names : List String) (j : Json) (name : String) (Means : Json → α → Prop) (default x : α) : Prop :=
  (∃ v, j.Gives names name v ∧ Means v x) ∨ (∀ v, ¬j.Gives names name v) ∧ x = default

section Field

variable {names : List String} {j : Json} {name : String} {Means : Json → α → Prop} {default x : α}

/-- A field is read from a record as what the record says of it. -/
theorem orDefault_eq_some_iff {field : Fields} {read : Json → Option α} (hnodup : names.Nodup)
    (hfields : j.fields? names = some field) (hread : ∀ v x, read v = some x ↔ Means v x) (hname : name ∈ names) :
    orDefault (field name) read default = some x ↔ j.Field names name Means default x := by
  have hfield := fields?_spec hnodup hfields hname
  cases hv : field name with
  | none =>
    have hnone (v : Json) : ¬j.Gives names name v := by simp [← hfield, hv]
    simp [orDefault, Field, hnone, eq_comm]
  | some v =>
    have hgives (w : Json) : j.Gives names name w ↔ v = w := by rw [← hfield, hv, Option.some.injEq]
    simp [orDefault, Field, hgives, hread]

/-- A field has a value if any value that is given for it means something. -/
theorem Field.exists_of_means (default : α) (h : ∀ v, j.Gives names name v → ∃ x, Means v x) :
    ∃ x, j.Field names name Means default x := by
  by_cases hgiven : ∃ v, j.Gives names name v
  · obtain ⟨v, hv⟩ := hgiven
    obtain ⟨x, hx⟩ := h v hv
    exact ⟨x, .inl ⟨v, hv, hx⟩⟩
  · exact ⟨default, .inr ⟨not_exists.1 hgiven, rfl⟩⟩

/-- The value that is given for a field means what the field has. -/
theorem Field.means (h : j.Field names name Means default x) (hrecord : j.IsRecord names) (hnodup : names.Nodup)
    (hname : name ∈ names) {v : Json} (hv : j.Gives names name v) : Means v x := by
  obtain ⟨w, hw, hmeans⟩ | ⟨hnone, -⟩ := h
  · obtain ⟨field, hfields⟩ := isRecord_iff.1 hrecord
    have hfv := (fields?_spec hnodup hfields hname v).2 hv
    rw [(fields?_spec hnodup hfields hname w).2 hw] at hfv
    cases hfv
    exact hmeans
  · exact absurd hv (hnone v)

end Field

/-- A well-formed record whose fields have the values that are allowed for them. -/
def WellTyped (names : List String) (Allows : String → Json → Prop) (j : Json) : Prop :=
  j.IsRecord names ∧ ∀ name v, j.Gives names name v → Allows name v

/-- A field of the record is given twice, or has a value that is not allowed for it. -/
def Faulty (names : List String) (Allows : String → Json → Prop) (j : Json) : Prop :=
  (∃ name ∈ names, j.Repeats name) ∨ ∃ name v, j.Gives names name v ∧ ¬Allows name v

theorem Faulty.not_wellTyped {names : List String} {Allows : String → Json → Prop} {j : Json}
    (h : j.Faulty names Allows) : ¬j.WellTyped names Allows := by
  intro hwell
  obtain ⟨name, hname, hrepeats⟩ | ⟨name, v, hv, hallows⟩ := h
  · exact hrepeats.not_isRecord hname hwell.1
  · exact hallows (hwell.2 name v hv)

/-! ## Values -/

/-- The value is a natural number below the bound. -/
def MeansBelow (bound : Nat) (v : Json) (n : Nat) : Prop := v = .nat n ∧ n < bound

/-- The value is a truth value. -/
def MeansBool (v : Json) (b : Bool) : Prop := v = .bool b

theorem natBelow?_eq_some_iff {bound : Nat} (v : Json) (n : Nat) :
    natBelow? bound v = some n ↔ MeansBelow bound v n := by
  unfold natBelow? MeansBelow nat
  split
  · next m =>
    simp only [number.injEq, JsonNumber.integer.injEq, true_and]
    split
    · next hlt =>
      rw [Option.some.injEq]
      constructor
      · intro h
        exact ⟨h, h ▸ hlt⟩
      · exact And.left
    · next hlt =>
      simp only [reduceCtorEq, false_iff, not_and]
      intro h
      rwa [← h]
  · next hne =>
    simp only [reduceCtorEq, false_iff, not_and]
    exact fun h => absurd h (hne n)

theorem bool?_eq_some_iff (v : Json) (b : Bool) : bool? v = some b ↔ MeansBool v b := by
  cases v <;> simp [bool?, MeansBool]

theorem string?_eq_some_iff {v : Json} {s : String} : string? v = some s ↔ v = .text s := by
  cases v <;> simp [string?, text]

end ObjectFlush.Json
