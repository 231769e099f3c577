import ObjectFlush.Proofs.Json.Scalars
import ObjectFlush.Proofs.Text.Utf8

/-!
What is written of a JSON value is read back.

  1. Both ways of writing differ only in the blanks that they put in (`Layout`, `chars_eq_spell`,
     `lines_eq_spell`).
  2. A value is read from its text, whatever blanks are in front of it and whatever comes behind it that
     does not go on with a number. The steps that this takes are no more than twice the length of the
     text: a value takes one at its first character, and an item one more at the comma or bracket behind
     it (`value?_spell`).
  3. So a whole text is read back, as characters or as bytes (`Json.Written.read`).
-/

namespace ObjectFlush.Json

/-! ## The two ways of writing -/

/-- Which blanks are put into a text. -/
structure Layout where
  /-- In front of an item, or of the closing bracket, on a nesting level. -/
  line : Nat → List Char
  /-- Between a colon and the value behind it. -/
  space : List Char
  line_blank : ∀ level, ∀ c ∈ line level, Reader.isBlank (some c)
  space_blank : ∀ c ∈ space, Reader.isBlank (some c)

namespace Layout

mutual

/-- The text of a value that stands on a nesting level. -/
def spell (l : Layout) (level : Nat) : Json → List Char
  | .array (v :: vs) => '[' :: l.line (level + 1) ++ l.spell (level + 1) v ++ l.spellItems level vs
  | .object ((k, v) :: ms) =>
    '\x7b' :: l.line (level + 1) ++ quoted k ++ ':' :: l.space ++ l.spell (level + 1) v ++
      l.spellMembers level ms
  | j => j.chars

/-- The items after the first, and the closing bracket. -/
def spellItems (l : Layout) (level : Nat) : List Json → List Char
  | [] => l.line level ++ [']']
  | v :: vs => ',' :: l.line (level + 1) ++ l.spell (level + 1) v ++ l.spellItems level vs

/-- The members after the first, and the closing brace. -/
def spellMembers (l : Layout) (level : Nat) : List (JsonString × Json) → List Char
  | [] => l.line level ++ ['\x7d']
  | (k, v) :: ms =>
    ',' :: l.line (level + 1) ++ quoted k ++ ':' :: l.space ++ l.spell (level + 1) v ++
      l.spellMembers level ms

end

/-- No blanks at all. -/
def oneLine : Layout where
  line _ := []
  space := []
  line_blank _ _ h := by cases h
  space_blank _ h := by cases h

/-- A line for each item, two blanks deeper on each level. -/
def indented : Layout where
  line := newLine
  space := [' ']
  line_blank level c h := by
    rcases List.mem_cons.1 h with rfl | h
    · rfl
    · rw [List.eq_of_mem_replicate h]
      rfl
  space_blank c h := by
    rw [List.mem_singleton.1 h]
    rfl

end Layout

mutual

theorem chars_eq_spell : ∀ (j : Json) (level : Nat), j.chars = Layout.oneLine.spell level j
  | .null, _ => rfl
  | .bool _, _ => rfl
  | .number _, _ => rfl
  | .string _, _ => rfl
  | .array [], _ => rfl
  | .array (v :: vs), level => by
    rw [chars, Layout.spell, chars_eq_spell v (level + 1), itemsChars_eq_spell vs level]
    rfl
  | .object [], _ => rfl
  | .object ((k, v) :: ms), level => by
    rw [chars, Layout.spell, chars_eq_spell v (level + 1), membersChars_eq_spell ms level]
    simp [Layout.oneLine]

theorem itemsChars_eq_spell : ∀ (vs : List Json) (level : Nat),
    itemsChars vs = Layout.oneLine.spellItems level vs
  | [], _ => rfl
  | v :: vs, level => by
    rw [itemsChars, Layout.spellItems, chars_eq_spell v (level + 1), itemsChars_eq_spell vs level]
    rfl

theorem membersChars_eq_spell : ∀ (ms : List (JsonString × Json)) (level : Nat),
    membersChars ms = Layout.oneLine.spellMembers level ms
  | [], _ => rfl
  | (k, v) :: ms, level => by
    rw [membersChars, Layout.spellMembers, chars_eq_spell v (level + 1), membersChars_eq_spell ms level]
    simp [Layout.oneLine]

end

mutual

theorem lines_eq_spell : ∀ (j : Json) (level : Nat), j.lines level = Layout.indented.spell level j
  | .null, _ => rfl
  | .bool _, _ => rfl
  | .number _, _ => rfl
  | .string _, _ => rfl
  | .array [], _ => rfl
  | .array (v :: vs), level => by
    rw [lines, Layout.spell, lines_eq_spell v (level + 1), itemsLines_eq_spell vs level]
    rfl
  | .object [], _ => rfl
  | .object ((k, v) :: ms), level => by
    rw [lines, Layout.spell, lines_eq_spell v (level + 1), membersLines_eq_spell ms level]
    simp [Layout.indented]

theorem itemsLines_eq_spell : ∀ (vs : List Json) (level : Nat),
    itemsLines level vs = Layout.indented.spellItems level vs
  | [], _ => rfl
  | v :: vs, level => by
    rw [itemsLines, Layout.spellItems, lines_eq_spell v (level + 1), itemsLines_eq_spell vs level]
    rfl

theorem membersLines_eq_spell : ∀ (ms : List (JsonString × Json)) (level : Nat),
    membersLines level ms = Layout.indented.spellMembers level ms
  | [], _ => rfl
  | (k, v) :: ms, level => by
    rw [membersLines, Layout.spellMembers, lines_eq_spell v (level + 1), membersLines_eq_spell ms level]
    simp [Layout.indented]

end

/-! ## Reading a value -/

mutual

/-- Nothing was dropped of any number in the value. -/
def Exact : Json → Prop
  | .number n => n.Exact
  | .array items => ItemsExact items
  | .object members => MembersExact members
  | _ => True

def ItemsExact : List Json → Prop
  | [] => True
  | v :: rest => v.Exact ∧ ItemsExact rest

def MembersExact : List (JsonString × Json) → Prop
  | [] => True
  | (_, v) :: rest => v.Exact ∧ MembersExact rest

end

namespace Reader

/-- Blanks in front of a text are skipped. -/
theorem skipBlanks_append {blanks : List Char} (hblanks : ∀ c ∈ blanks, isBlank (some c))
    (rest : List Symbol) : skipBlanks (blanks.map some ++ rest) = skipBlanks rest := by
  induction blanks with
  | nil => rfl
  | cons c cs ih =>
    have hc : isBlank (some c) = true := hblanks c (List.mem_cons_self ..)
    rw [skipBlanks, List.map_cons, List.cons_append, List.dropWhile_cons_of_pos hc]
    exact ih fun d hd => hblanks d (List.mem_cons_of_mem c hd)

theorem skipBlanks_cons {c : Char} (hc : isBlank (some c) = false) (rest : List Symbol) :
    skipBlanks (some c :: rest) = some c :: rest := by
  rw [skipBlanks, List.dropWhile_cons_of_neg (by rw [hc]; exact Bool.false_ne_true)]

theorem blank_nil : ∀ c ∈ ([] : List Char), isBlank (some c) := by simp

theorem blank_cases {c : Char} (h : isBlank (some c) = true) : c = ' ' ∨ c = '\n' ∨ c = '\t' ∨ c = '\r' := by
  simpa [isBlank, or_assoc] using h

theorem stops_cons {c : Char} (hc : c.isDigit = false ∧ c ≠ '.' ∧ c ≠ 'e' ∧ c ≠ 'E') (rest : List Symbol) :
    Stops (some c :: rest) := by
  intro d hd
  cases hd
  exact ⟨by rw [hc.1]; exact Bool.false_ne_true, hc.2⟩

/-- Blanks end a number too. -/
theorem stops_append {blanks : List Char} (hblanks : ∀ c ∈ blanks, isBlank (some c))
    {rest : List Symbol} (hrest : Stops rest) : Stops (blanks.map some ++ rest) := by
  cases blanks with
  | nil => exact hrest
  | cons c cs =>
    refine stops_cons ?_ _
    rcases blank_cases (hblanks c (List.mem_cons_self ..)) with rfl | rfl | rfl | rfl
    all_goals decide

theorem stops_items (l : Layout) (level : Nat) (vs : List Json) (rest : List Symbol) :
    Stops ((l.spellItems level vs).map some ++ rest) := by
  cases vs with
  | nil =>
    rw [Layout.spellItems, List.map_append, List.append_assoc]
    exact stops_append (l.line_blank level) (stops_cons (by decide) rest)
  | cons v vs => exact stops_cons (by decide) _

theorem stops_members (l : Layout) (level : Nat) (ms : List (JsonString × Json)) (rest : List Symbol) :
    Stops ((l.spellMembers level ms).map some ++ rest) := by
  cases ms with
  | nil =>
    rw [Layout.spellMembers, List.map_append, List.append_assoc]
    exact stops_append (l.line_blank level) (stops_cons (by decide) rest)
  | cons m ms => exact stops_cons (by decide) _

/-- What a value may start with: no blank, and not the bracket behind the last item. -/
def Starts (text : List Char) : Prop :=
  ∃ c rest, text = c :: rest ∧ isBlank (some c) = false ∧ c ≠ ']'

theorem numberChars_cons (n : JsonNumber) :
    ∃ c rest, numberChars n = c :: rest ∧ (c = '-' ∨ c.isDigit) := by
  have hdigits (n : Nat) : ∃ d ds, Nat.toDigits 10 n = d :: ds ∧ d.isDigit := by
    obtain ⟨d, ds, hd⟩ := List.exists_cons_of_ne_nil (Nat.toDigits_ne_nil (n := n) (b := 10))
    exact ⟨d, ds, hd, Nat.isDigit_of_mem_toDigits (b := 10) (n := n) (by decide) (by decide)
      (hd ▸ List.mem_cons_self ..)⟩
  cases n with
  | integer negative n =>
    obtain ⟨d, ds, hd, hdigit⟩ := hdigits n
    cases negative with
    | true => exact ⟨'-', _, rfl, .inl rfl⟩
    | false => exact ⟨d, ds, hd, .inr hdigit⟩
  | decimal negative n e =>
    obtain ⟨d, ds, hd, hdigit⟩ := hdigits n
    cases negative with
    | true => exact ⟨'-', _, rfl, .inl rfl⟩
    | false =>
      rw [numberChars, hd]
      exact ⟨d, _, rfl, .inr hdigit⟩

theorem spell_starts (l : Layout) (level : Nat) (j : Json) : Starts (l.spell level j) := by
  cases j with
  | null => exact ⟨'n', _, rfl, rfl, by decide⟩
  | bool b =>
    cases b with
    | true => exact ⟨'t', _, rfl, rfl, by decide⟩
    | false => exact ⟨'f', _, rfl, rfl, by decide⟩
  | number n =>
    obtain ⟨c, rest, htext, hc⟩ := numberChars_cons n
    refine ⟨c, rest, htext, Bool.eq_false_iff.2 fun hblank => ?_, ?_⟩
    · rcases blank_cases hblank with rfl | rfl | rfl | rfl
      all_goals exact absurd hc (by decide)
    · rintro rfl
      exact absurd hc (by decide)
  | string s =>
    obtain ⟨cs, htext, -⟩ := string?_quoted s []
    exact ⟨'"', cs, htext, rfl, by decide⟩
  | array items =>
    cases items with
    | nil => exact ⟨'[', _, rfl, rfl, by decide⟩
    | cons v vs => exact ⟨'[', _, rfl, rfl, by decide⟩
  | object members =>
    cases members with
    | nil => exact ⟨'\x7b', _, rfl, rfl, by decide⟩
    | cons m ms => exact ⟨'\x7b', _, rfl, rfl, by decide⟩

/-- A string is where the blanks in front of it end. -/
theorem skipBlanks_quoted (s : JsonString) (rest : List Symbol) :
    skipBlanks ((quoted s).map some ++ rest) = (quoted s).map some ++ rest := by
  obtain ⟨cs, htext, -⟩ := string?_quoted s []
  rw [htext]
  exact skipBlanks_cons rfl _

/-- A value is where the blanks in front of it end. -/
theorem skipBlanks_spell {blanks : List Char} (hblanks : ∀ c ∈ blanks, isBlank (some c)) (l : Layout)
    (level : Nat) (j : Json) (rest : List Symbol) :
    skipBlanks (blanks.map some ++ ((l.spell level j).map some ++ rest)) =
      (l.spell level j).map some ++ rest := by
  obtain ⟨c, tail, htext, hc, -⟩ := spell_starts l level j
  rw [skipBlanks_append hblanks, htext]
  exact skipBlanks_cons hc _

theorem value?_number {fuel : Nat} {cs : List Symbol} {n : JsonNumber} (h : n.Exact)
    {rest : List Symbol} (hrest : Stops rest)
    (hcs : skipBlanks cs = (numberChars n).map some ++ rest) :
    value? (fuel + 1) cs = some (.number n, rest) := by
  have hread := number?_numberChars h hrest
  obtain ⟨c, tail, htext, hc⟩ := numberChars_cons n
  have hne : ∀ d : Char, ¬(d = '-' ∨ d.isDigit) → c ≠ d := fun d hd hcd => hd (hcd ▸ hc)
  rw [htext, List.map_cons, List.cons_append] at hcs hread
  rw [value?, hcs]
  split
  all_goals try next heq => exact absurd (Option.some.inj (List.cons.inj heq).1) (hne _ (by decide))
  rw [hread]
  rfl

theorem value?_array {fuel : Nat} {cs text next rest : List Symbol} {items : List Json}
    (hcs : skipBlanks cs = some '[' :: text) (htext : skipBlanks text = next)
    (hne : next.head? ≠ some (some ']')) (hitems : items? fuel next = some (items, rest)) :
    value? (fuel + 1) cs = some (.array items, rest) := by
  rw [value?, hcs]
  simp only [htext]
  split
  · exact absurd rfl hne
  · rw [hitems]
    rfl

theorem value?_object {fuel : Nat} {cs text next rest : List Symbol} {members : List (JsonString × Json)}
    (hcs : skipBlanks cs = some '\x7b' :: text) (htext : skipBlanks text = next)
    (hne : next.head? ≠ some (some '\x7d')) (hmembers : members? fuel next = some (members, rest)) :
    value? (fuel + 1) cs = some (.object members, rest) := by
  rw [value?, hcs]
  simp only [htext]
  split
  · exact absurd rfl hne
  · rw [hmembers]
    rfl

theorem items?_cons {fuel : Nat} {cs text rest : List Symbol} {v : Json} {vs : List Json}
    (hv : value? fuel cs = some (v, text))
    (hrest : (skipBlanks text = some ']' :: rest ∧ vs = []) ∨
      ∃ tail, skipBlanks text = some ',' :: tail ∧ items? fuel tail = some (vs, rest)) :
    items? (fuel + 1) cs = some (v :: vs, rest) := by
  rw [items?, hv]
  rcases hrest with ⟨hend, rfl⟩ | ⟨tail, hnext, hitems⟩
  · simp only [Option.bind_eq_bind, Option.bind_some, hend]
    rfl
  · simp only [Option.bind_eq_bind, Option.bind_some, hnext, hitems]
    rfl

theorem members?_cons {fuel : Nat} {cs value after rest : List Symbol} {k : JsonString} {v : Json}
    {ms : List (JsonString × Json)} (hcs : skipBlanks cs = (quoted k).map some ++ some ':' :: value)
    (hv : value? fuel value = some (v, after))
    (hrest : (skipBlanks after = some '\x7d' :: rest ∧ ms = []) ∨
      ∃ tail, skipBlanks after = some ',' :: tail ∧ members? fuel tail = some (ms, rest)) :
    members? (fuel + 1) cs = some ((k, v) :: ms, rest) := by
  obtain ⟨name, htext, hname⟩ := string?_quoted k (some ':' :: value)
  have hcs : skipBlanks cs = some '"' :: (name.map some ++ some ':' :: value) := by
    rw [hcs, htext]
    rfl
  rw [members?, hcs]
  simp only [hname, Option.bind_eq_bind, Option.bind_some, skipBlanks_cons (show isBlank (some ':') = false from rfl),
    hv]
  rcases hrest with ⟨hend, rfl⟩ | ⟨tail, hnext, hmembers⟩
  · rw [hend]
    rfl
  · simp only [hnext, hmembers]
    rfl

/-! ## Reading what was written -/

mutual

/-- A value is read from its text. -/
theorem value?_spell (l : Layout) : ∀ (j : Json) (level fuel : Nat) (cs rest : List Symbol),
    j.Exact → Stops rest → 2 * (l.spell level j).length ≤ fuel →
    skipBlanks cs = (l.spell level j).map some ++ rest → value? fuel cs = some (j, rest)
  | .null, level, fuel + 1, cs, rest, _, _, _, hcs => by
    rw [value?, hcs]
    rfl
  | .bool true, level, fuel + 1, cs, rest, _, _, _, hcs => by
    rw [value?, hcs]
    rfl
  | .bool false, level, fuel + 1, cs, rest, _, _, _, hcs => by
    rw [value?, hcs]
    rfl
  | .number n, level, fuel + 1, cs, rest, hexact, hrest, _, hcs => value?_number hexact hrest hcs
  | .string s, level, fuel + 1, cs, rest, _, _, _, hcs => by
    obtain ⟨text, htext, hread⟩ := string?_quoted s rest
    have hspell : l.spell level (.string s) = '"' :: text := htext
    rw [hspell] at hcs
    rw [value?, hcs]
    show (string? (text.map some ++ rest)).map _ = _
    rw [hread]
    rfl
  | .array [], level, fuel + 1, cs, rest, _, _, _, hcs => by
    rw [value?, hcs]
    rfl
  | .object [], level, fuel + 1, cs, rest, _, _, _, hcs => by
    rw [value?, hcs]
    rfl
  | .array (v :: vs), level, fuel + 1, cs, rest, hexact, hrest, hfuel, hcs => by
    simp only [Layout.spell, List.map_append, List.map_cons, List.append_assoc, List.cons_append,
      List.length_append, List.length_cons] at hcs hfuel
    have hskip := skipBlanks_spell (l.line_blank (level + 1)) l (level + 1) v
      ((l.spellItems level vs).map some ++ rest)
    obtain ⟨c, tail, htext, hc, hne⟩ := spell_starts l (level + 1) v
    refine value?_array hcs hskip ?_ ?_
    · rw [htext]
      exact fun heq => hne (Option.some.inj (Option.some.inj heq))
    · obtain ⟨fuel, rfl⟩ : ∃ f, fuel = f + 1 := ⟨fuel - 1, by omega⟩
      refine items?_spell l vs level fuel v _ rest hexact.2 (by omega) ?_
      refine value?_spell l v (level + 1) fuel _ _ hexact.1 (stops_items l level vs rest) (by omega) ?_
      exact skipBlanks_spell blank_nil l (level + 1) v _
  | .object ((k, v) :: ms), level, fuel + 1, cs, rest, hexact, hrest, hfuel, hcs => by
    simp only [Layout.spell, List.map_append, List.map_cons, List.append_assoc, List.cons_append,
      List.length_append, List.length_cons] at hcs hfuel
    obtain ⟨name, hname, -⟩ := string?_quoted k []
    have hskip : skipBlanks ((l.line (level + 1)).map some ++ ((quoted k).map some ++ some ':' ::
        (l.space.map some ++ ((l.spell (level + 1) v).map some ++
          ((l.spellMembers level ms).map some ++ rest))))) = _ :=
      (skipBlanks_append (l.line_blank (level + 1)) _).trans (skipBlanks_quoted k _)
    refine value?_object hcs hskip ?_ ?_
    · rw [hname]
      exact fun heq => absurd (Option.some.inj (Option.some.inj heq)) (by decide)
    · obtain ⟨fuel, rfl⟩ : ∃ f, fuel = f + 1 := ⟨fuel - 1, by omega⟩
      refine members?_spell l ms level fuel k v _ _ rest hexact.2 (by omega) (skipBlanks_quoted k _) ?_
      exact value?_spell l v (level + 1) fuel _ _ hexact.1 (stops_members l level ms rest) (by omega)
        (skipBlanks_spell l.space_blank l (level + 1) v _)
  | j, level, 0, cs, rest, _, _, hfuel, _ => by
    obtain ⟨c, tail, htext, -⟩ := spell_starts l level j
    rw [htext, List.length_cons] at hfuel
    omega

/-- The items of an array are read once the first of them is. -/
theorem items?_spell (l : Layout) : ∀ (vs : List Json) (level fuel : Nat) (v : Json)
    (cs rest : List Symbol), ItemsExact vs → 2 * (l.spellItems level vs).length ≤ fuel + 1 →
    value? fuel cs = some (v, (l.spellItems level vs).map some ++ rest) →
    items? (fuel + 1) cs = some (v :: vs, rest)
  | [], level, fuel, v, cs, rest, _, _, hv => by
    refine items?_cons hv (.inl ⟨?_, rfl⟩)
    rw [Layout.spellItems, List.map_append, List.append_assoc, skipBlanks_append (l.line_blank level)]
    exact skipBlanks_cons rfl rest
  | v' :: vs, level, fuel, v, cs, rest, hexact, hfuel, hv => by
    simp only [Layout.spellItems, List.map_append, List.map_cons, List.append_assoc, List.cons_append,
      List.length_append, List.length_cons] at hv hfuel
    refine items?_cons hv (.inr ⟨_, skipBlanks_cons rfl _, ?_⟩)
    obtain ⟨fuel, rfl⟩ : ∃ f, fuel = f + 1 := ⟨fuel - 1, by omega⟩
    refine items?_spell l vs level fuel v' _ rest hexact.2 (by omega) ?_
    exact value?_spell l v' (level + 1) fuel _ _ hexact.1 (stops_items l level vs rest) (by omega)
      (skipBlanks_spell (l.line_blank (level + 1)) l (level + 1) v' _)

/-- The members of an object are read once the value of the first of them is. -/
theorem members?_spell (l : Layout) : ∀ (ms : List (JsonString × Json)) (level fuel : Nat)
    (k : JsonString) (v : Json) (cs value rest : List Symbol), MembersExact ms →
    2 * (l.spellMembers level ms).length ≤ fuel + 1 →
    skipBlanks cs = (quoted k).map some ++ some ':' :: value →
    value? fuel value = some (v, (l.spellMembers level ms).map some ++ rest) →
    members? (fuel + 1) cs = some ((k, v) :: ms, rest)
  | [], level, fuel, k, v, cs, value, rest, _, _, hcs, hv => by
    refine members?_cons hcs hv (.inl ⟨?_, rfl⟩)
    rw [Layout.spellMembers, List.map_append, List.append_assoc, skipBlanks_append (l.line_blank level)]
    exact skipBlanks_cons rfl rest
  | (k', v') :: ms, level, fuel, k, v, cs, value, rest, hexact, hfuel, hcs, hv => by
    simp only [Layout.spellMembers, List.map_append, List.map_cons, List.append_assoc, List.cons_append,
      List.length_append, List.length_cons] at hv hfuel
    refine members?_cons hcs hv (.inr ⟨_, skipBlanks_cons rfl _, ?_⟩)
    obtain ⟨fuel, rfl⟩ : ∃ f, fuel = f + 1 := ⟨fuel - 1, by omega⟩
    refine members?_spell l ms level fuel k' v' _ _ rest hexact.2 (by omega)
      ((skipBlanks_append (l.line_blank (level + 1)) _).trans (skipBlanks_quoted k' _)) ?_
    exact value?_spell l v' (level + 1) fuel _ _ hexact.1 (stops_members l level ms rest) (by omega)
      (skipBlanks_spell l.space_blank l (level + 1) v' _)

end

end Reader

/-- The two texts that are written of a value. -/
inductive Written (j : Json) : String → Prop
  | compact : Written j j.compact
  | pretty : Written j j.pretty

theorem ofSymbols?_spell (l : Layout) {j : Json} (h : j.Exact) :
    ofSymbols? ((l.spell 0 j).map some) = some j := by
  have hskip := Reader.skipBlanks_spell Reader.blank_nil l 0 j []
  rw [List.map_nil, List.nil_append, List.append_nil] at hskip
  have hread : Reader.value? (2 * (l.spell 0 j).length + 2) ((l.spell 0 j).map some) = some (j, []) :=
    Reader.value?_spell l j 0 _ _ [] h (fun _ hc => by cases hc) (by omega)
      (hskip.trans (List.append_nil _).symm)
  rw [ofSymbols?, List.length_map, hread]
  rfl

/-- What is written of a value is read as that value. -/
theorem Written.read {j : Json} {text : String} (h : j.Written text) (hexact : j.Exact) :
    ofString? text = some j := by
  cases h with
  | compact =>
    rw [ofString?, Json.compact, String.toList_ofList, chars_eq_spell j 0]
    exact ofSymbols?_spell _ hexact
  | pretty =>
    rw [ofString?, Json.pretty, String.toList_ofList, lines_eq_spell j 0]
    exact ofSymbols?_spell _ hexact

/-- A text is read alike as characters and as bytes. -/
theorem ofBytes?_ofString (text : String) : ofBytes? (Bytes.ofString text) = ofString? text := by
  rw [ofBytes?, Utf8.symbols_ofString, ofString?]

end ObjectFlush.Json
