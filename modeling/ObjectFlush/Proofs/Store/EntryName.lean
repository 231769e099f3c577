import Mathlib.Algebra.GroupWithZero.Nat
import ObjectFlush.Proofs.Store.Partition
import ObjectFlush.Proofs.Text.Integer
import ObjectFlush.Store.Layout

/-!
The names of the entries of a bucket. Each says all that it is about (`EntryName.text_inj`); the parts of an
upload, and of no other, are under its prefix (`EntryName.parts_prefix_iff`), in the order of their numbers
(`notAfter_padded_iff`).
-/

namespace ObjectFlush

/-! ## Padded numbers -/

theorem isDigit_of_mem_padded {n : Nat} {c : Char} (h : c ∈ padded n) : c.isDigit = true := by
  rcases List.mem_append.1 h with h | h
  · rw [List.eq_of_mem_replicate h]
    rfl
  · exact Nat.isDigit_of_mem_toDigits (by decide) (by decide) h

theorem ofDigitChars_padded (n : Nat) : Nat.ofDigitChars 10 (padded n) 0 = n := by
  rw [padded, Nat.ofDigitChars_append, Nat.ofDigitChars_replicate_zero, Nat.mul_zero,
    Nat.ofDigitChars_ten_toDigits]

theorem padded_inj {m n : Nat} (h : padded m = padded n) : m = n := by
  rw [← ofDigitChars_padded m, h, ofDigitChars_padded]

theorem length_padded {n : Nat} (h : n < 10 ^ 5) : (padded n).length = 5 := by
  have hlength := (Nat.length_toDigits_le_iff (b := 10) (k := 5) (by decide) (by decide)).2 h
  simp only [padded, List.length_append, List.length_replicate]
  omega

theorem ofDigitChars_lt {digits : List Char} (h : ∀ c ∈ digits, c.isDigit = true) :
    Nat.ofDigitChars 10 digits 0 < 10 ^ digits.length := by
  induction digits with
  | nil => simp
  | cons c digits ih =>
    have hrest := ih fun d hd => h d (List.mem_cons_of_mem _ hd)
    have hc := Text.toNat_of_isDigit (h c (List.mem_cons_self ..))
    have hzero : '0'.toNat = 48 := rfl
    have hle : 10 ^ digits.length * (c.toNat - 48) ≤ 10 ^ digits.length * 9 :=
      Nat.mul_le_mul_left _ (by omega)
    rw [Nat.ofDigitChars_cons, Nat.ofDigitChars_eq_ofDigitChars_zero, List.length_cons, Nat.pow_succ,
      Nat.mul_zero, Nat.zero_add, hzero]
    omega

/-- Numbers of the same length are ordered as their digits are. -/
theorem notAfter_digits_iff {a b : List Char} (hlength : a.length = b.length)
    (ha : ∀ c ∈ a, c.isDigit = true) (hb : ∀ c ∈ b, c.isDigit = true) :
    notAfter a b = true ↔ Nat.ofDigitChars 10 a 0 ≤ Nat.ofDigitChars 10 b 0 := by
  induction a generalizing b with
  | nil =>
    cases b with
    | nil => simp [notAfter]
    | cons d b => cases hlength
  | cons c a ih =>
    cases b with
    | nil => cases hlength
    | cons d b =>
      have hrest : a.length = b.length := Nat.succ.inj hlength
      have ha' := fun x hx => ha x (List.mem_cons_of_mem c hx)
      have hb' := fun x hx => hb x (List.mem_cons_of_mem d hx)
      have hc := Text.toNat_of_isDigit (ha c (List.mem_cons_self ..))
      have hd := Text.toNat_of_isDigit (hb d (List.mem_cons_self ..))
      have hzero : '0'.toNat = 48 := rfl
      have hlta := ofDigitChars_lt ha'
      have hltb := ofDigitChars_lt hb'
      rw [Nat.ofDigitChars_cons, Nat.ofDigitChars_cons, Nat.ofDigitChars_eq_ofDigitChars_zero,
        @Nat.ofDigitChars_eq_ofDigitChars_zero b, Nat.mul_zero, Nat.zero_add, Nat.zero_add, hzero,
        hrest]
      rw [hrest] at hlta
      simp only [notAfter, Bool.or_eq_true, decide_eq_true_eq, Bool.and_eq_true]
      -- The digits in front decide, unless they are the same.
      rcases Nat.lt_trichotomy c.toNat d.toNat with hlt | heq | hgt
      · have hstep : 10 ^ b.length * (c.toNat - 48) + 10 ^ b.length ≤
            10 ^ b.length * (d.toNat - 48) := by
          rw [← Nat.mul_succ]
          exact Nat.mul_le_mul_left _ (by omega)
        exact iff_of_true (.inl hlt) (by omega)
      · obtain rfl := Char.toNat_inj.1 heq
        rw [ih hrest ha' hb']
        simp
      · have hstep : 10 ^ b.length * (d.toNat - 48) + 10 ^ b.length ≤
            10 ^ b.length * (c.toNat - 48) := by
          rw [← Nat.mul_succ]
          exact Nat.mul_le_mul_left _ (by omega)
        refine iff_of_false ?_ (by omega)
        rintro (h | ⟨rfl, -⟩) <;> omega

theorem notAfter_padded_iff {m n : Nat} (hm : m < 10 ^ 5) (hn : n < 10 ^ 5) :
    notAfter (padded m) (padded n) = true ↔ m ≤ n := by
  rw [notAfter_digits_iff (by rw [length_padded hm, length_padded hn])
    (fun _ => isDigit_of_mem_padded) (fun _ => isDigit_of_mem_padded), ofDigitChars_padded,
    ofDigitChars_padded]

/-- A padded number is read back. -/
theorem paddedNumber?_padded {n : Nat} (h : n < UInt32.size) : paddedNumber? (padded n) = some n := by
  have hdigits := fun c => @isDigit_of_mem_padded n c
  have hvalue := ofDigitChars_padded n
  have hne : padded n ≠ [] := fun hnil => Nat.toDigits_ne_nil (List.append_eq_nil_iff.1 hnil).2
  generalize padded n = digits at hdigits hvalue hne
  have hread : Text.digits (UInt32.size - 1) .tooLarge digits = .ok n :=
    Text.digits_eq_ok_iff.2 ⟨hne, hdigits, hvalue.symm, by omega⟩
  unfold paddedNumber?
  split
  · next rest => exact absurd (hdigits '+' (List.mem_cons_self ..)) (by decide)
  · rw [hread]
    rfl

/-! ## Names -/

namespace EntryName

theorem colon_not_mem_padded (n : Nat) : ':' ∉ padded n := fun h =>
  absurd (isDigit_of_mem_padded h) (by decide)

/-- Where the rest has no colon, the last one parts a text. -/
theorem append_colon_inj {a b s t : List Char} (hs : ':' ∉ s) (ht : ':' ∉ t)
    (h : a ++ ':' :: s = b ++ ':' :: t) : a = b ∧ s = t := by
  rcases List.append_eq_append_iff.1 h with ⟨m, rfl, hm⟩ | ⟨m, rfl, hm⟩
  · cases m with
    | nil => exact ⟨by simp, by simpa using hm⟩
    | cons c m =>
      obtain ⟨rfl, rfl⟩ := List.cons.inj hm
      exact absurd (List.mem_append_right _ (List.mem_cons_self ..)) hs
  · cases m with
    | nil => exact ⟨by simp, by simpa using hm.symm⟩
    | cons c m =>
      obtain ⟨rfl, rfl⟩ := List.cons.inj hm
      exact absurd (List.mem_append_right _ (List.mem_cons_self ..)) ht

theorem parts_append (name : String) (rest : List Char) :
    parts name ++ rest = "part:".toList ++ (name.toList ++ ':' :: rest) :=
  (List.append_assoc _ [':'] rest).trans (List.append_assoc _ name.toList _)

theorem text_inj {a b : EntryName} (h : a.text = b.text) : a = b := by
  have hkey : ∀ {k k' : ObjectKey}, k.text.toList = k'.text.toList → k = k' := by
    rintro ⟨s, _⟩ ⟨t, _⟩ hst
    obtain rfl : s = t := String.toList_inj.1 hst
    rfl
  cases a with
  | data k =>
    cases b with
    | data k' => rw [hkey (List.append_cancel_left h)]
    | record k' => cases h
    | upload name => cases h
    | part name n => cases h
  | record k =>
    cases b with
    | data k' => cases h
    | record k' => rw [hkey (List.append_cancel_left h)]
    | upload name => cases h
    | part name n => cases h
  | upload name =>
    cases b with
    | data k' => cases h
    | record k' => cases h
    | upload name' => rw [String.toList_inj.1 (List.append_cancel_left h)]
    | part name n => cases h
  | part name n =>
    cases b with
    | data k' => cases h
    | record k' => cases h
    | upload name' => cases h
    | part name' n' =>
      change parts name ++ padded n = parts name' ++ padded n' at h
      rw [parts_append, parts_append] at h
      obtain ⟨hname, hnumber⟩ := append_colon_inj (colon_not_mem_padded n) (colon_not_mem_padded n')
        (List.append_cancel_left h)
      rw [String.toList_inj.1 hname, padded_inj hnumber]

theorem text_inj_iff {a b : EntryName} : a.text = b.text ↔ a = b :=
  ⟨text_inj, fun h => h ▸ rfl⟩

/-- Under the prefix of the parts of an upload are its parts, as long as no name has a colon. -/
theorem parts_prefix_iff {upload : String} {a : EntryName}
    (hplain : ∀ name n, a = .part name n → ':' ∉ name.toList) :
    parts upload <+: a.text ↔ ∃ n, a = .part upload n := by
  constructor
  · rintro ⟨rest, h⟩
    cases a with
    | data k => cases h
    | record k => cases h
    | upload name => cases h
    | part name n =>
      refine ⟨n, ?_⟩
      change parts upload ++ rest = parts name ++ padded n at h
      rw [parts_append, parts_append] at h
      replace h := List.append_cancel_left h
      -- The colon after the name is the only one.
      have hcolon : ':' ∉ rest := by
        intro hrest
        have hcount := congrArg (List.count ':') h
        simp only [List.count_append, List.count_cons_self,
          List.count_eq_zero.2 (hplain name n rfl), List.count_eq_zero.2 (colon_not_mem_padded n)] at hcount
        have := List.count_pos_iff.2 hrest
        omega
      obtain ⟨hname, -⟩ := append_colon_inj hcolon (colon_not_mem_padded n) h
      rw [String.toList_inj.1 hname]
  · rintro ⟨n, rfl⟩
    exact List.prefix_append ..

theorem uploads_prefix_iff {a : EntryName} : uploads <+: a.text ↔ ∃ name, a = .upload name := by
  constructor
  · rintro ⟨rest, h⟩
    cases a with
    | data k => cases h
    | record k => cases h
    | upload name => exact ⟨name, rfl⟩
    | part name n => cases h
  · rintro ⟨name, rfl⟩
    exact List.prefix_append ..

end EntryName

end ObjectFlush
