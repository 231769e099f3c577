import Mathlib.Tactic.SplitIfs
import ObjectFlush.Json.Reader
import ObjectFlush.Json.Writer

/-!
What is written of a string or a number is read back, whatever comes behind it.

  1. Each character is escaped so that one unit is read of it, which stands for it alone
     (`units?_escape`, `join?_cons`); so a string is read back, also one that is not a Unicode string
     (`string?_quoted`).
  2. The decimal digits of a number have no zero in front, and all of them are taken if the number fits
     (`JsonNumber.head?_toDigits`, `JsonNumber.absorb_toDigits`); so a number of which nothing was
     dropped is read back (`number?_numberChars`).
-/

namespace ObjectFlush.Json.Reader

theorem hexValue?_hexDigit {n : Nat} (h : n < 16) : Bytes.hexValue? (Bytes.hexDigit n) = some n := by
  revert n
  decide

theorem units?_escaped {e c : Char} (h : escaped? (some e) = some c) (rest : List Symbol) :
    units? (some '\\' :: some e :: rest) = (units? rest).map fun (us, rest) => (.char c :: us, rest) := by
  have hu : e ≠ 'u' := by
    rintro rfl
    cases h
  rw [units?, h]
  · cases units? rest <;> rfl
  · rintro a b c d rest' heq
    exact absurd (Option.some.inj heq) hu

theorem units?_hex {c : Char} (h : c.toNat < 0x20) (rest : List Symbol) :
    units? (some '\\' :: some 'u' :: some '0' :: some '0' :: some (Bytes.hexDigit (c.toNat / 16)) ::
        some (Bytes.hexDigit (c.toNat % 16)) :: rest) =
      (units? rest).map fun (us, rest) => (.code c.toNat :: us, rest) := by
  have hhex : hex4? (some '0') (some '0') (some (Bytes.hexDigit (c.toNat / 16)))
      (some (Bytes.hexDigit (c.toNat % 16))) = some c.toNat := by
    simp only [hex4?, Option.bind_some, hexValue?_hexDigit (show c.toNat / 16 < 16 by omega),
      hexValue?_hexDigit (show c.toNat % 16 < 16 by omega), Option.bind_eq_bind]
    show some (4096 * 0 + 256 * 0 + 16 * (c.toNat / 16) + c.toNat % 16) = some c.toNat
    congr 1
    omega
  rw [units?, hhex]
  cases units? rest <;> rfl

theorem units?_plain {c : Char} (hquote : c ≠ '"') (hslash : c ≠ '\\') (hcontrol : 0x20 ≤ c.toNat)
    (rest : List Symbol) :
    units? (some c :: rest) = (units? rest).map fun (us, rest) => (.char c :: us, rest) := by
  rw [units?, if_neg (by simp only [hslash, false_or]; omega)]
  · cases units? rest <;> rfl
  · exact hquote
  · exact fun _ _ _ _ _ _ => hslash
  · exact fun _ _ _ => hslash

/-- The unit that the escape of a character is read as: for most control characters its number. -/
theorem units?_escape (c : Char) (rest : List Symbol) :
    ∃ u, (u = .char c ∨ (u = .code c.toNat ∧ c.toNat < 0x20)) ∧
      units? ((escape c).map some ++ rest) = (units? rest).map fun (us, rest) => (u :: us, rest) := by
  unfold escape
  split_ifs with h₁ h₂ h₃ h₄ h₅ h₆ h₇ h₈
  · exact ⟨_, .inl rfl, units?_escaped (by rw [h₁]; rfl) rest⟩
  · exact ⟨_, .inl rfl, units?_escaped (by rw [h₂]; rfl) rest⟩
  · exact ⟨_, .inl rfl, units?_escaped (by rw [h₃]; rfl) rest⟩
  · exact ⟨_, .inl rfl, units?_escaped (by rw [h₄]; rfl) rest⟩
  · exact ⟨_, .inl rfl, units?_escaped (by rw [h₅]; rfl) rest⟩
  · exact ⟨_, .inl rfl, units?_escaped (by rw [h₆]; rfl) rest⟩
  · exact ⟨_, .inl rfl, units?_escaped (by rw [h₇]; rfl) rest⟩
  · exact ⟨_, .inr ⟨rfl, h₈⟩, units?_hex h₈ rest⟩
  · exact ⟨_, .inl rfl, units?_plain h₁ h₂ (Nat.not_lt.1 h₈) rest⟩

/-- A unit that stands for a character of its own, whatever comes behind it. -/
theorem join?_cons {u : StringUnit} {c : Char} (hu : u = .char c ∨ (u = .code c.toNat ∧ c.toNat < 0x20))
    (us : List StringUnit) : join? (u :: us) = (join? us).map (c :: ·) := by
  rcases hu with rfl | ⟨rfl, h⟩
  · rfl
  · have hhigh : isHighSurrogate c.toNat = false := by simp [isHighSurrogate]; omega
    have hlow : isLowSurrogate c.toNat = false := by simp [isLowSurrogate]; omega
    rcases us with _ | ⟨_ | _ | _, us⟩
    all_goals simp [join?, hhigh, hlow]

theorem units?_escapes (cs : List Char) (rest : List Symbol) :
    ∃ us, join? us = some cs ∧
      units? ((cs.flatMap escape).map some ++ some '"' :: rest) = some (us, rest) := by
  induction cs with
  | nil => exact ⟨[], rfl, rfl⟩
  | cons c cs ih =>
    obtain ⟨us, hjoin, hunits⟩ := ih
    obtain ⟨u, hu, hescape⟩ := units?_escape c ((cs.flatMap escape).map some ++ some '"' :: rest)
    refine ⟨u :: us, by rw [join?_cons hu, hjoin]; rfl, ?_⟩
    rw [List.flatMap_cons, List.map_append, List.append_assoc, hescape, hunits]
    rfl

/-- A string is read from behind its opening quote. -/
theorem string?_quoted (s : JsonString) (rest : List Symbol) :
    ∃ cs, quoted s = '"' :: cs ∧ string? (cs.map some ++ rest) = some (s, rest) := by
  cases s with
  | none =>
    have hhex : hex4? (some 'd') (some '8') (some '0') (some '0') = some 0xD800 := by decide
    have hunits : units? (some '\\' :: some 'u' :: some 'd' :: some '8' :: some '0' :: some '0' ::
        some '"' :: rest) = some ([.code 0xD800], rest) := by
      rw [units?, hhex, units?]
      rfl
    refine ⟨['\\', 'u', 'd', '8', '0', '0', '"'], rfl, ?_⟩
    simp only [string?, List.map_cons, List.map_nil, List.cons_append, List.nil_append, hunits]
    rfl
  | some s =>
    obtain ⟨us, hjoin, hunits⟩ := units?_escapes s.toList rest
    refine ⟨s.toList.flatMap escape ++ ['"'], rfl, ?_⟩
    rw [List.map_append, List.append_assoc]
    simp only [string?, List.map_cons, List.map_nil, List.cons_append, List.nil_append, hunits]
    simp [hjoin]

end ObjectFlush.Json.Reader

namespace ObjectFlush.JsonNumber

/-- A number of which nothing was dropped when it was read: all its digits fit, and so does its
exponent. -/
def Exact : JsonNumber → Prop
  | .integer _ n => n < capacity
  | .decimal _ n e => n < capacity ∧ e.natAbs ≤ farExponent

theorem digit_digitChar {n : Nat} (h : n < 10) : digit n.digitChar = n := by
  revert n
  decide

theorem absorb_append {n m : Nat} {xs : List Char} (h : absorb n xs = (m, [])) (ys : List Char) :
    absorb n (xs ++ ys) = absorb m ys := by
  induction xs generalizing n with
  | nil =>
    cases h
    rfl
  | cons c xs ih =>
    simp only [absorb, List.cons_append] at h ⊢
    split at h
    · next hfits =>
      rw [if_pos hfits]
      exact ih h
    · cases h

/-- The digits of a number that fits are all taken. -/
theorem absorb_toDigits {n : Nat} (h : n < capacity) : absorb 0 (Nat.toDigits 10 n) = (n, []) := by
  induction n using Nat.strongRecOn with
  | ind n ih =>
    by_cases hn : n < 10
    · rw [Nat.toDigits_of_lt_base hn, absorb, digit_digitChar hn, if_pos (by omega), absorb]
      simp
    · have hlast := digit_digitChar (Nat.mod_lt n (show 0 < 10 by decide))
      rw [Nat.toDigits_of_base_le (by decide) (Nat.not_lt.1 hn),
        absorb_append (ih (n / 10) (by omega) (by omega)), absorb, hlast,
        if_pos (by omega), absorb, Nat.div_add_mod]

/-- An exponent that is not too far out is known exactly. -/
theorem exponentValue_toDigits {n : Nat} (h : n ≤ farExponent) :
    exponentValue (Nat.toDigits 10 n) = n := by
  induction n using Nat.strongRecOn with
  | ind n ih =>
    by_cases hn : n < 10
    · rw [Nat.toDigits_of_lt_base hn, exponentValue, List.foldl_cons, List.foldl_nil,
        digit_digitChar hn]
      omega
    · have hlast := digit_digitChar (Nat.mod_lt n (show 0 < 10 by decide))
      have hfront := ih (n / 10) (by omega) (by omega)
      rw [exponentValue] at hfront
      rw [Nat.toDigits_of_base_le (by decide) (Nat.not_lt.1 hn), exponentValue, List.foldl_append,
        hfront, List.foldl_cons, List.foldl_nil, hlast, Nat.div_add_mod]
      omega

/-- A number is written without a zero in front. -/
theorem head?_toDigits {n : Nat} (h : 0 < n) : (Nat.toDigits 10 n).head? ≠ some '0' := by
  induction n using Nat.strongRecOn with
  | ind n ih =>
    by_cases hn : n < 10
    · rw [Nat.toDigits_of_lt_base hn]
      have hall : ∀ d < 10, 0 < d → d.digitChar ≠ '0' := by decide
      simpa using hall n hn h
    · rw [Nat.toDigits_of_base_le (by decide) (Nat.not_lt.1 hn),
        List.head?_append, Option.or_of_isSome (by simp [Nat.toDigits_ne_nil])]
      exact ih (n / 10) (by omega) (by omega)

end ObjectFlush.JsonNumber

namespace ObjectFlush.Json.Reader

/-- What may stand behind a number: nothing that would go on with it. -/
def Stops (rest : List Symbol) : Prop :=
  ∀ c, rest.head? = some (some c) → ¬c.isDigit ∧ c ≠ '.' ∧ c ≠ 'e' ∧ c ≠ 'E'

theorem digits_append {ds : List Char} (hds : ∀ c ∈ ds, c.isDigit) {rest : List Symbol}
    (hrest : ∀ c, rest.head? = some (some c) → ¬c.isDigit) :
    digits (ds.map some ++ rest) = (ds, rest) := by
  induction ds with
  | nil =>
    rcases rest with _ | ⟨_ | c, rest⟩
    · rfl
    · rfl
    · show digits (some c :: rest) = ([], some c :: rest)
      rw [digits, if_neg (hrest c rfl)]
  | cons d ds ih =>
    rw [List.map_cons, List.cons_append, digits, if_pos (hds d (List.mem_cons_self ..)),
      ih fun c hc => hds c (List.mem_cons_of_mem d hc)]

theorem digits?_toDigits (n : Nat) {rest : List Symbol}
    (hrest : ∀ c, rest.head? = some (some c) → ¬c.isDigit) :
    digits? ((Nat.toDigits 10 n).map some ++ rest) = some (Nat.toDigits 10 n, rest) := by
  rw [digits?, digits_append (fun c => Nat.isDigit_of_mem_toDigits (by decide) (by decide)) hrest]
  split
  · next heq => exact absurd (congrArg Prod.fst heq) Nat.toDigits_ne_nil
  · rfl

theorem whole?_toDigits (n : Nat) {rest : List Symbol}
    (hrest : ∀ c, rest.head? = some (some c) → ¬c.isDigit) :
    whole? ((Nat.toDigits 10 n).map some ++ rest) = some (Nat.toDigits 10 n, rest) := by
  rw [whole?, digits?_toDigits n hrest]
  split
  · next d ds _ heq =>
    have hdigits : Nat.toDigits 10 n = '0' :: d :: ds := congrArg Prod.fst (Option.some.inj heq)
    rcases Nat.eq_zero_or_pos n with rfl | hpos
    · rw [Nat.toDigits_zero] at hdigits
      cases hdigits
    · have hhead := JsonNumber.head?_toDigits hpos
      rw [hdigits] at hhead
      exact absurd rfl hhead
  · rfl

theorem unsigned?_integer {negative : Bool} {n : Nat} (h : n < JsonNumber.capacity)
    {rest : List Symbol} (hrest : Stops rest) :
    unsigned? negative ((Nat.toDigits 10 n).map some ++ rest) = some (.integer negative n, rest) := by
  have hfraction : fraction? rest = some (none, rest) := by
    rw [fraction?]
    rintro _ rfl
    exact (hrest '.' rfl).2.1 rfl
  have hexponent : exponent? rest = some (none, rest) := by
    rw [exponent?]
    · rintro _ rfl
      exact (hrest 'e' rfl).2.2.1 rfl
    · rintro _ rfl
      exact (hrest 'E' rfl).2.2.2 rfl
  simp only [unsigned?, whole?_toDigits n fun c hc => (hrest c hc).1, hfraction, hexponent,
    Option.bind_eq_bind, Option.bind_some, JsonNumber.ofDigits, JsonNumber.absorb_toDigits h]
  rfl

theorem signed?_toDigits {e : Int} (h : e.natAbs ≤ JsonNumber.farExponent) {rest : List Symbol}
    (hrest : Stops rest) :
    signed? (((if e < 0 then ['-'] else []) ++ Nat.toDigits 10 e.natAbs).map some ++ rest) =
      some (e, rest) := by
  have hdigits := digits?_toDigits e.natAbs fun c hc => (hrest c hc).1
  have hvalue := JsonNumber.exponentValue_toDigits h
  split_ifs with hneg
  · rw [List.map_append, List.append_assoc]
    simp only [List.map_cons, List.map_nil, List.cons_append, List.nil_append, signed?, hdigits,
      Option.map_some, hvalue]
    rw [Int.ofNat_natAbs_of_nonpos (Int.le_of_lt hneg), Int.neg_neg]
  · obtain ⟨d, ds, hd⟩ := List.exists_cons_of_ne_nil (Nat.toDigits_ne_nil (n := e.natAbs) (b := 10))
    have hdigit : d.isDigit :=
      Nat.isDigit_of_mem_toDigits (b := 10) (n := e.natAbs) (by decide) (by decide)
        (hd ▸ List.mem_cons_self ..)
    rw [List.nil_append]
    have hunsigned : signed? ((Nat.toDigits 10 e.natAbs).map some ++ rest) =
        some ((JsonNumber.exponentValue (Nat.toDigits 10 e.natAbs) : Int), rest) := by
      rw [hd, List.map_cons, List.cons_append, signed?]
      · rw [hd, List.map_cons, List.cons_append] at hdigits
        rw [hdigits]
        rfl
      · intro _ hc
        cases hc
        cases hdigit
      · intro _ hc
        cases hc
        cases hdigit
    rw [hunsigned, hvalue, Int.natAbs_of_nonneg (Int.not_lt.1 hneg)]

theorem unsigned?_decimal {negative : Bool} {n : Nat} {e : Int} (h : n < JsonNumber.capacity)
    (he : e.natAbs ≤ JsonNumber.farExponent) {rest : List Symbol} (hrest : Stops rest) :
    unsigned? negative ((Nat.toDigits 10 n).map some ++ some 'e' ::
        (((if e < 0 then ['-'] else []) ++ Nat.toDigits 10 e.natAbs).map some ++ rest)) =
      some (.decimal negative n e, rest) := by
  have hsigned := signed?_toDigits he hrest
  generalize ((if e < 0 then ['-'] else []) ++ Nat.toDigits 10 e.natAbs).map some ++ rest = tail at *
  have hwhole : whole? ((Nat.toDigits 10 n).map some ++ some 'e' :: tail) =
      some (Nat.toDigits 10 n, some 'e' :: tail) :=
    whole?_toDigits n fun c hc => by
      cases hc
      decide
  have hfraction : fraction? (some 'e' :: tail) = some (none, some 'e' :: tail) := rfl
  have hexponent : exponent? (some 'e' :: tail) = some (some e, rest) := by
    rw [exponent?, hsigned]
    rfl
  simp only [unsigned?, hwhole, hfraction, hexponent, Option.bind_eq_bind, Option.bind_some,
    JsonNumber.ofDigits, JsonNumber.absorb_toDigits h]
  simp [JsonNumber.absorb]

/-- The sign in front of a number. -/
theorem number?_signed (negative : Bool) {n : JsonNumber} {ds : List Char} (hds : ds ≠ [])
    (hdigits : ∀ c ∈ ds, c.isDigit) {tail rest : List Symbol}
    (h : unsigned? negative (ds.map some ++ tail) = some (n, rest)) :
    number? ((if negative then ['-'] else []).map some ++ (ds.map some ++ tail)) = some (n, rest) := by
  cases negative with
  | true => exact h
  | false =>
    obtain ⟨d, ds, rfl⟩ := List.exists_cons_of_ne_nil hds
    have hdigit := hdigits d (List.mem_cons_self ..)
    show number? (some d :: (ds.map some ++ tail)) = _
    rw [← h, number?]
    · rfl
    · rintro _ hc
      cases hc
      cases hdigit

/-- A number is read as far as it goes. -/
theorem number?_numberChars {n : JsonNumber} (h : n.Exact) {rest : List Symbol} (hrest : Stops rest) :
    number? ((numberChars n).map some ++ rest) = some (n, rest) := by
  have hdigits (n : Nat) : ∀ c ∈ Nat.toDigits 10 n, c.isDigit :=
    fun c => Nat.isDigit_of_mem_toDigits (by decide) (by decide)
  cases n with
  | integer negative n =>
    rw [numberChars, List.map_append, List.append_assoc]
    exact number?_signed negative Nat.toDigits_ne_nil (hdigits n) (unsigned?_integer h hrest)
  | decimal negative n e =>
    have hread : unsigned? negative _ = _ := unsigned?_decimal h.1 h.2 hrest
    have hsplit : (numberChars (.decimal negative n e)).map some ++ rest =
        (if negative then ['-'] else []).map some ++ ((Nat.toDigits 10 n).map some ++ some 'e' ::
          (((if e < 0 then ['-'] else []) ++ Nat.toDigits 10 e.natAbs).map some ++ rest)) := by
      simp [numberChars]
    rw [hsplit]
    exact number?_signed negative Nat.toDigits_ne_nil (hdigits n) hread

end ObjectFlush.Json.Reader
