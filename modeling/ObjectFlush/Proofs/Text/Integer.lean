import Mathlib.Data.List.DropRight
import ObjectFlush.Text.Blank
import ObjectFlush.Text.Integer

/-!
Which texts are integers, and which integers they are.

  1. Digits are read just if their number stays within the limit, and as that number (`digitsFrom_eq_ok_iff`): it never
     gets smaller while digits are read, so that no digit before the last can exceed the limit on its own.
  2. So an integer is read from its spellings, and from nothing else (`parseInteger_eq_ok_iff`); what is printed of it
     is one of them (`spells_toString`).
  3. White space around a text is removed, and nothing else (`inBlanks_trim`, `InBlanks.trim_eq`); hence a spelling may
     have it on either side (`parseInteger_trim_eq_ok_iff`).
-/

namespace ObjectFlush.Text

/-- The spellings of an integer: at least one decimal digit, with a sign in front of them or without one. -/
inductive Spells : List Char → Int → Prop
  | plain {ds : List Char} (hne : ds ≠ []) (hds : ∀ c ∈ ds, c.isDigit) : Spells ds (Nat.ofDigitChars 10 ds 0)
  | plus {ds : List Char} (hne : ds ≠ []) (hds : ∀ c ∈ ds, c.isDigit) :
    Spells ('+' :: ds) (Nat.ofDigitChars 10 ds 0)
  | minus {ds : List Char} (hne : ds ≠ []) (hds : ∀ c ∈ ds, c.isDigit) :
    Spells ('-' :: ds) (-Nat.ofDigitChars 10 ds 0)

/-- The integers of 64 bits with a sign. -/
def Fits (n : Int) : Prop := Int64.minValue.toInt ≤ n ∧ n ≤ Int64.maxValue.toInt

/-! ## Digits -/

theorem toNat_of_isDigit {c : Char} (h : c.isDigit = true) : 48 ≤ c.toNat ∧ c.toNat ≤ 57 := by
  simp only [Char.isDigit, Bool.and_eq_true, decide_eq_true_eq, ge_iff_le, UInt32.le_iff_toNat_le] at h
  exact h

theorem digit?_of_isDigit {c : Char} (h : c.isDigit) : digit? c = some (c.toNat - '0'.toNat) := by
  simp only [Char.isDigit, Bool.and_eq_true, decide_eq_true_eq] at h
  exact if_pos ⟨h.1, h.2⟩

theorem digit?_of_not_isDigit {c : Char} (h : ¬c.isDigit) : digit? c = none := by
  simp only [Char.isDigit, Bool.and_eq_true, decide_eq_true_eq] at h
  exact if_neg fun hc => h ⟨hc.1, hc.2⟩

/-- A number does not get smaller while its digits are read. -/
theorem le_ofDigitChars (ds : List Char) (value : Nat) : value ≤ Nat.ofDigitChars 10 ds value := by
  induction ds generalizing value with
  | nil => exact Nat.le_refl _
  | cons c ds ih =>
    have := ih (10 * value + (c.toNat - '0'.toNat))
    rw [Nat.ofDigitChars_cons]
    omega

theorem digitsFrom_eq_ok_iff {limit : Nat} {overflow : IntegerFault} {ds : List Char} {value n : Nat}
    (hvalue : value ≤ limit) :
    digitsFrom limit overflow value ds = .ok n ↔
      (∀ c ∈ ds, c.isDigit) ∧ n = Nat.ofDigitChars 10 ds value ∧ n ≤ limit := by
  induction ds generalizing value with
  | nil =>
    simp only [digitsFrom, Except.ok.injEq, Nat.ofDigitChars_nil]
    constructor
    · intro h
      subst h
      simp [hvalue]
    · intro h
      exact h.2.1.symm
  | cons c ds ih =>
    by_cases hc : c.isDigit
    · rw [digitsFrom, digit?_of_isDigit hc, Nat.ofDigitChars_cons]
      simp only [List.forall_mem_cons, hc, true_and]
      split
      · next hlimit =>
        have hgrown := le_ofDigitChars ds (10 * value + (c.toNat - '0'.toNat))
        simp only [reduceCtorEq, false_iff, not_and]
        intro _ hn
        omega
      · next hlimit => exact ih (Nat.not_lt.1 hlimit)
    · rw [digitsFrom, digit?_of_not_isDigit hc]
      simp [hc]

theorem digits_eq_ok_iff {limit : Nat} {overflow : IntegerFault} {ds : List Char} {n : Nat} :
    digits limit overflow ds = .ok n ↔
      ds ≠ [] ∧ (∀ c ∈ ds, c.isDigit) ∧ n = Nat.ofDigitChars 10 ds 0 ∧ n ≤ limit := by
  cases ds with
  | nil => simp [digits]
  | cons c ds => simp [digits, digitsFrom_eq_ok_iff (Nat.zero_le limit)]

/-! ## Integers -/

theorem map_digits_eq_ok_iff {limit : Nat} {overflow : IntegerFault} {ds : List Char} {f : Int → Int} {n : Int} :
    Except.map f (do let m ← digits limit overflow ds; pure (m : Int)) = .ok n ↔
      ds ≠ [] ∧ (∀ c ∈ ds, c.isDigit) ∧ n = f (Nat.ofDigitChars 10 ds 0) ∧
        Nat.ofDigitChars 10 ds 0 ≤ limit := by
  constructor
  · intro h
    cases hd : digits limit overflow ds with
    | error fault =>
      rw [hd] at h
      cases h
    | ok m =>
      rw [hd] at h
      cases h
      obtain ⟨hne, hds, hm, hle⟩ := digits_eq_ok_iff.1 hd
      rw [← hm]
      exact ⟨hne, hds, rfl, hle⟩
  · intro h
    obtain ⟨hne, hds, hn, hle⟩ := h
    rw [digits_eq_ok_iff.2 ⟨hne, hds, rfl, hle⟩, hn]
    rfl

namespace Spells

theorem minus_iff {ds : List Char} {n : Int} :
    Spells ('-' :: ds) n ↔ ds ≠ [] ∧ (∀ c ∈ ds, c.isDigit) ∧ n = -Nat.ofDigitChars 10 ds 0 := by
  constructor
  · intro h
    cases h with
    | plain _ hds => exact absurd (hds '-' (by simp)) (by decide)
    | minus hne hds => exact ⟨hne, hds, rfl⟩
  · intro h
    obtain ⟨hne, hds, hn⟩ := h
    rw [hn]
    exact .minus hne hds

theorem plus_iff {ds : List Char} {n : Int} :
    Spells ('+' :: ds) n ↔ ds ≠ [] ∧ (∀ c ∈ ds, c.isDigit) ∧ n = Nat.ofDigitChars 10 ds 0 := by
  constructor
  · intro h
    cases h with
    | plain _ hds => exact absurd (hds '+' (by simp)) (by decide)
    | plus hne hds => exact ⟨hne, hds, rfl⟩
  · intro h
    obtain ⟨hne, hds, hn⟩ := h
    rw [hn]
    exact .plus hne hds

/-- Without a sign, there are digits only. -/
theorem plain_iff {s : List Char} {n : Int} (hminus : s.head? ≠ some '-') (hplus : s.head? ≠ some '+') :
    Spells s n ↔ s ≠ [] ∧ (∀ c ∈ s, c.isDigit) ∧ n = Nat.ofDigitChars 10 s 0 := by
  constructor
  · intro h
    cases h with
    | plain hne hds => exact ⟨hne, hds, rfl⟩
    | plus => simp at hplus
    | minus => simp at hminus
  · intro h
    obtain ⟨hne, hds, hn⟩ := h
    rw [hn]
    exact .plain hne hds

end Spells

/-- An integer is read from its spellings if it fits, and from nothing else. -/
theorem parseInteger_eq_ok_iff {s : List Char} {n : Int} : parseInteger s = .ok n ↔ Spells s n ∧ Fits n := by
  have hlimit : (1 <<< 63 : Nat) = 9223372036854775808 := by decide
  have hmin : Int64.minValue.toInt = -9223372036854775808 := by decide
  have hmax : Int64.maxValue.toInt = 9223372036854775807 := by decide
  rw [Fits, hmin, hmax]
  unfold parseInteger
  split
  · rw [Spells.plain_iff (by simp) (by simp)]
    simp
  · next ds =>
    rw [map_digits_eq_ok_iff, Spells.minus_iff, hlimit]
    simp only [and_assoc, and_congr_right_iff]
    omega
  · next ds =>
    rw [map_digits_eq_ok_iff, Spells.plus_iff, hlimit]
    simp only [and_assoc, and_congr_right_iff]
    omega
  · next hnil hminus hplus =>
    rw [map_digits_eq_ok_iff, hlimit, Spells.plain_iff]
    · simp only [and_assoc, and_congr_right_iff]
      omega
    · intro h
      obtain ⟨ds, hds⟩ := List.head?_eq_some_iff.1 h
      exact hminus ds hds
    · intro h
      obtain ⟨ds, hds⟩ := List.head?_eq_some_iff.1 h
      exact hplus ds hds

/-- What is printed of an integer spells it. -/
theorem spells_toString (n : Int) : Spells (toString n).toList n := by
  have hdigits (m : Nat) : ∀ c ∈ Nat.toDigits 10 m, c.isDigit :=
    fun _ hc => Nat.isDigit_of_mem_toDigits (by decide : 0 < 10) (by decide) hc
  cases n with
  | ofNat m =>
    have hprinted : (toString (Int.ofNat m)).toList = Nat.toDigits 10 m := by simp [toString, Int.repr]
    have hspells := Spells.plain Nat.toDigits_ne_nil (hdigits m)
    rwa [Nat.ofDigitChars_ten_toDigits, ← hprinted] at hspells
  | negSucc m =>
    have hprinted : (toString (Int.negSucc m)).toList = '-' :: Nat.toDigits 10 (m + 1) := by simp [toString, Int.repr]
    have hspells := Spells.minus Nat.toDigits_ne_nil (hdigits (m + 1))
    rwa [Nat.ofDigitChars_ten_toDigits, ← hprinted] at hspells

/-! ## White space around a text -/

theorem isBlank_of_isDigit {c : Char} (h : c.isDigit) : isBlank c = false := by
  have hc := toNat_of_isDigit h
  simp only [isBlank, blankBlocks, List.any_cons, List.any_nil, Bool.or_false, Bool.or_eq_false_iff,
    Bool.and_eq_false_iff, decide_eq_false_iff_not, Nat.not_le]
  omega

/-- No spelling has white space in it. -/
theorem Spells.isBlank_eq_false {s : List Char} {n : Int} (h : Spells s n) : ∀ c ∈ s, isBlank c = false := by
  cases h with
  | plain _ hds => exact fun c hc => isBlank_of_isDigit (hds c hc)
  | plus _ hds => exact List.forall_mem_cons.2 ⟨rfl, fun c hc => isBlank_of_isDigit (hds c hc)⟩
  | minus _ hds => exact List.forall_mem_cons.2 ⟨rfl, fun c hc => isBlank_of_isDigit (hds c hc)⟩

/-- `s` is `core` with white space before it and behind it, as much as one likes or none. -/
def InBlanks (core s : List Char) : Prop :=
  ∃ l r, s = l ++ core ++ r ∧ (∀ c ∈ l, isBlank c) ∧ ∀ c ∈ r, isBlank c

theorem inBlanks_trim (s : List Char) : InBlanks (trim s) s := by
  refine ⟨s.takeWhile isBlank, (s.dropWhile isBlank).rtakeWhile isBlank, ?_, fun c => List.mem_takeWhile_imp,
    fun c => List.mem_rtakeWhile_imp⟩
  have hright : trim s ++ (s.dropWhile isBlank).rtakeWhile isBlank = s.dropWhile isBlank :=
    List.rdropWhile_append_rtakeWhile
  rw [List.append_assoc, hright, List.takeWhile_append_dropWhile]

theorem dropWhile_isBlank {l rest : List Char} (hl : ∀ c ∈ l, isBlank c)
    (hrest : ∀ c, rest.head? = some c → isBlank c = false) : (l ++ rest).dropWhile isBlank = rest := by
  rw [List.dropWhile_append_of_pos hl]
  cases rest with
  | nil => rfl
  | cons c rest => simp [hrest c rfl]

theorem InBlanks.trim_eq {core s : List Char} (h : InBlanks core s) (hcore : ∀ c ∈ core, isBlank c = false) :
    trim s = core := by
  obtain ⟨l, r, hs, hl, hr⟩ := h
  have hright : (r.reverse ++ core.reverse).dropWhile isBlank = core.reverse :=
    dropWhile_isBlank (fun c hc => hr c (List.mem_reverse.1 hc))
      fun c hc => hcore c (List.mem_reverse.1 (List.mem_of_mem_head? hc))
  cases core with
  | nil =>
    -- All of the text is white space, and the first step removes it.
    have hleft : s.dropWhile isBlank = [] := by
      rw [List.dropWhile_eq_nil_iff, hs, List.append_nil]
      exact fun c hc => (List.mem_append.1 hc).elim (hl c) (hr c)
    rw [trim, hleft]
    rfl
  | cons c core =>
    have hleft : s.dropWhile isBlank = c :: core ++ r := by
      rw [hs, List.append_assoc]
      refine dropWhile_isBlank hl fun d hd => hcore d ?_
      cases hd
      exact List.mem_cons_self ..
    rw [trim, hleft, List.reverse_append, hright, List.reverse_reverse]

/-- An integer is read from its spellings with white space around them if it fits, and from nothing else. -/
theorem parseInteger_trim_eq_ok_iff {s : List Char} {n : Int} :
    parseInteger (trim s) = .ok n ↔ (∃ core, InBlanks core s ∧ Spells core n) ∧ Fits n := by
  rw [parseInteger_eq_ok_iff, and_congr_left_iff]
  intro _
  constructor
  · exact fun h => ⟨trim s, inBlanks_trim s, h⟩
  · intro h
    obtain ⟨core, hinBlanks, hspells⟩ := h
    rwa [hinBlanks.trim_eq hspells.isBlank_eq_false]

end ObjectFlush.Text
