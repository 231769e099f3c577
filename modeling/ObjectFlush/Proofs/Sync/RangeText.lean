import ObjectFlush.Proofs.Text.Integer
import ObjectFlush.Sync.Range

/-!
Which texts are byte ranges: two numbers with the first colon of the text between them, and nothing else
(`parseStartLength_exact`). A number of 64 bits is one as it is printed, so that every pair of them can be given,
with white space around either. A further colon would be part of the second number, and no number has one.
-/

namespace ObjectFlush

open Text

theorem Text.Spells.colon_not_mem {s : List Char} {n : Int} (h : Spells s n) : ':' ∉ s := by
  have hdigits {ds : List Char} (hds : ∀ c ∈ ds, c.isDigit) : ':' ∉ ds :=
    fun hmem => absurd (hds ':' hmem) (by decide)
  cases h with
  | plain _ hds => exact hdigits hds
  | plus _ hds => exact List.not_mem_cons_of_ne_of_not_mem (by decide) (hdigits hds)
  | minus _ hds => exact List.not_mem_cons_of_ne_of_not_mem (by decide) (hdigits hds)

/-- `s` stands for the number `n` of 64 bits: a spelling of it, with white space around it or without. -/
def Denotes (s : List Char) (n : Int) : Prop := (∃ core, InBlanks core s ∧ Spells core n) ∧ Fits n

theorem Denotes.colon_not_mem {s : List Char} {n : Int} (h : Denotes s n) : ':' ∉ s := by
  obtain ⟨⟨core, ⟨l, r, hs, hl, hr⟩, hspells⟩, _⟩ := h
  intro hmem
  rw [hs, List.mem_append, List.mem_append] at hmem
  obtain (hmem | hmem) | hmem := hmem
  · exact absurd (hl ':' hmem) (by decide)
  · exact hspells.colon_not_mem hmem
  · exact absurd (hr ':' hmem) (by decide)

/-- A number is given by what is printed of it, and white space around that does not matter. -/
theorem denotes_toString {l r : String} (hl : ∀ c ∈ l.toList, isBlank c)
    (hr : ∀ c ∈ r.toList, isBlank c) (n : Int64) :
    Denotes (l ++ toString n ++ r).toList n.toInt := by
  refine ⟨⟨(toString n.toInt).toList, ⟨l.toList, r.toList, ?_, hl, hr⟩, spells_toString n.toInt⟩,
    n.minValue_le_toInt, n.toInt_le⟩
  simp only [String.toList_append]
  rfl

/-! ## The first colon -/

theorem splitAtColon_eq_none_iff {s : List Char} : splitAtColon s = none ↔ ':' ∉ s := by
  induction s with
  | nil => simp [splitAtColon]
  | cons c s ih =>
    by_cases hc : c = ':'
    · simp [splitAtColon, hc]
    · rw [splitAtColon, if_neg hc, Option.map_eq_none_iff, ih]
      simp [Ne.symm hc]

theorem splitAtColon_append {before : List Char} (after : List Char) (h : ':' ∉ before) :
    splitAtColon (before ++ ':' :: after) = some (before, after) := by
  induction before with
  | nil => rfl
  | cons c before ih =>
    obtain ⟨hc, hbefore⟩ := List.ne_and_not_mem_of_not_mem_cons h
    rw [List.cons_append, splitAtColon, if_neg hc.symm, ih hbefore]
    rfl

theorem eq_of_splitAtColon {s before after : List Char} (h : splitAtColon s = some (before, after)) :
    s = before ++ ':' :: after ∧ ':' ∉ before := by
  by_cases hmem : ':' ∈ s
  · obtain ⟨l, r, hs, hl⟩ := List.eq_append_cons_of_mem hmem
    rw [hs, splitAtColon_append r hl] at h
    cases h
    exact ⟨hs, hl⟩
  · rw [splitAtColon_eq_none_iff.2 hmem] at h
    cases h

/-! ## Ranges -/

/-- A text is read as the numbers on either side of its first colon, and only so. -/
theorem parseStartLength_eq_ok_iff {text : String} {a b : Int} :
    parseStartLength text = .ok (a, b) ↔
      ∃ before after, text.toList = before ++ ':' :: after ∧ ':' ∉ before ∧ Denotes before a ∧
        Denotes after b := by
  constructor
  · intro h
    unfold parseStartLength at h
    split at h
    · cases h
    next before after hsplit =>
    split at h
    · cases h
    next start hstart =>
    split at h
    · cases h
    next length hlength =>
    cases h
    obtain ⟨htext, hbefore⟩ := eq_of_splitAtColon hsplit
    exact ⟨before, after, htext, hbefore, parseInteger_trim_eq_ok_iff.1 hstart,
      parseInteger_trim_eq_ok_iff.1 hlength⟩
  · intro h
    obtain ⟨before, after, htext, hbefore, hstart, hlength⟩ := h
    unfold parseStartLength
    rw [htext, splitAtColon_append after hbefore]
    simp only [parseInteger_trim_eq_ok_iff.2 hstart, parseInteger_trim_eq_ok_iff.2 hlength]

/-- Two numbers of 64 bits are read as they are printed, whatever white space there is around them. -/
theorem parseStartLength_printed {l₁ r₁ l₂ r₂ : String} (hl₁ : ∀ c ∈ l₁.toList, isBlank c)
    (hr₁ : ∀ c ∈ r₁.toList, isBlank c) (hl₂ : ∀ c ∈ l₂.toList, isBlank c)
    (hr₂ : ∀ c ∈ r₂.toList, isBlank c)
    (a b : Int64) :
    parseStartLength (l₁ ++ toString a ++ r₁ ++ ":" ++ (l₂ ++ toString b ++ r₂)) = .ok (a.toInt, b.toInt) := by
  have hstart := denotes_toString hl₁ hr₁ a
  refine parseStartLength_eq_ok_iff.2 ⟨_, _, ?_, hstart.colon_not_mem, hstart, denotes_toString hl₂ hr₂ b⟩
  simp [String.toList_append]

/-- A text with a further colon is refused, for the number before the first one or for the one after it. -/
theorem parseStartLength_colons {text : String} (h : 2 ≤ text.toList.count ':') :
    ∃ fault, parseStartLength text = .error (.badStart text fault) ∨
      parseStartLength text = .error (.badLength text fault) := by
  obtain ⟨before, after, htext, hbefore⟩ := List.eq_append_cons_of_mem
    (List.count_pos_iff.1 (Nat.lt_of_lt_of_le (by decide) h) : ':' ∈ text.toList)
  have hafter : ':' ∈ after := by
    rw [htext, List.count_append, List.count_cons_self, List.count_eq_zero_of_not_mem hbefore] at h
    exact List.count_pos_iff.1 (by omega)
  unfold parseStartLength
  rw [htext, splitAtColon_append after hbefore]
  dsimp only
  split
  · next fault _ => exact ⟨fault, .inl rfl⟩
  split
  · next fault _ => exact ⟨fault, .inr rfl⟩
  · next length hlength =>
    have hdenotes : Denotes after length := parseInteger_trim_eq_ok_iff.1 hlength
    exact absurd hafter hdenotes.colon_not_mem

/-- A text is a range just if it has a colon with numbers on either side of the first one, and it is the range of
these. So every pair of numbers can be given as it is printed, and nothing with a further colon is a range. -/
theorem parseStartLength_exact :
    (∀ (text : String) (a b : Int), parseStartLength text = .ok (a, b) ↔
      ∃ before after, text.toList = before ++ ':' :: after ∧ ':' ∉ before ∧ Denotes before a ∧
        Denotes after b) ∧
    (∀ (l₁ r₁ l₂ r₂ : String), (∀ s ∈ [l₁, r₁, l₂, r₂], ∀ c ∈ s.toList, isBlank c) →
      ∀ a b : Int64, parseStartLength (l₁ ++ toString a ++ r₁ ++ ":" ++ (l₂ ++ toString b ++ r₂)) =
        .ok (a.toInt, b.toInt)) ∧
    ∀ text : String, 2 ≤ text.toList.count ':' →
      ∃ fault, parseStartLength text = .error (.badStart text fault) ∨
        parseStartLength text = .error (.badLength text fault) := by
  refine ⟨fun _ _ _ => parseStartLength_eq_ok_iff, ?_, fun _ => parseStartLength_colons⟩
  intro l₁ r₁ l₂ r₂ hblank
  simp only [List.forall_mem_cons, List.not_mem_nil, false_implies, implies_true, and_true] at hblank
  obtain ⟨hl₁, hr₁, hl₂, hr₂⟩ := hblank
  exact parseStartLength_printed hl₁ hr₁ hl₂ hr₂

/-- The extreme numbers with white space of several kinds around them, and two texts with two colons. -/
theorem parseStartLength_extremes :
    parseStartLength "\t-9223372036854775808\u3000:\u00a09223372036854775807\r\n" =
        .ok (Int64.minValue.toInt, Int64.maxValue.toInt) ∧
      (∃ fault, parseStartLength "0:1:2" = .error (.badStart "0:1:2" fault) ∨
        parseStartLength "0:1:2" = .error (.badLength "0:1:2" fault)) :=
  ⟨parseStartLength_exact.2.1 "\t" "\u3000" "\u00a0" "\r\n" (by simp [isBlank, blankBlocks]) Int64.minValue
      Int64.maxValue,
    parseStartLength_exact.2.2 "0:1:2" (by decide)⟩

end ObjectFlush
