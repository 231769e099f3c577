import ObjectFlush.Store.Partition

/-!
The order of names, and what a walk over a prefix finds. The names that start with `front` stand together,
right where `front` would stand (`prefix_between`), so that the walk finds all of them and nothing else
(`namesUnder_eq_filter`).
-/

namespace ObjectFlush

/-! ## The order of names -/

theorem notAfter_append (front rest : List Char) : notAfter front (front ++ rest) = true := by
  induction front with
  | nil => rfl
  | cons c front ih => simp [notAfter, ih]

theorem notAfter_append_left (front a b : List Char) :
    notAfter (front ++ a) (front ++ b) = notAfter a b := by
  induction front with
  | nil => rfl
  | cons c front ih => simp [notAfter, ih]

theorem notAfter_total (a b : List Char) : (notAfter a b || notAfter b a) = true := by
  induction a generalizing b with
  | nil => rfl
  | cons c a ih =>
    cases b with
    | nil => rfl
    | cons d b =>
      simp only [notAfter]
      rcases Nat.lt_trichotomy c.toNat d.toNat with h | h | h
      · simp [h]
      · obtain rfl := Char.toNat_inj.1 h
        simpa using ih b
      · simp [h]

theorem notAfter_trans {a b c : List Char} (hab : notAfter a b = true) (hbc : notAfter b c = true) :
    notAfter a c = true := by
  induction a generalizing b c with
  | nil => rfl
  | cons x a ih =>
    cases b with
    | nil => cases hab
    | cons y b =>
      cases c with
      | nil => cases hbc
      | cons z c =>
        simp only [notAfter, Bool.or_eq_true, decide_eq_true_eq, Bool.and_eq_true] at hab hbc ⊢
        rcases hab with hxy | ⟨rfl, hab⟩
        · rcases hbc with hyz | ⟨rfl, hbc⟩
          · exact .inl (Nat.lt_trans hxy hyz)
          · exact .inl hxy
        · rcases hbc with hyz | ⟨rfl, hbc⟩
          · exact .inl hyz
          · exact .inr ⟨rfl, ih hab hbc⟩

theorem notAfter_antisymm {a b : List Char} (hab : notAfter a b = true) (hba : notAfter b a = true) :
    a = b := by
  induction a generalizing b with
  | nil =>
    cases b with
    | nil => rfl
    | cons y b => cases hba
  | cons x a ih =>
    cases b with
    | nil => cases hab
    | cons y b =>
      simp only [notAfter, Bool.or_eq_true, decide_eq_true_eq, Bool.and_eq_true] at hab hba
      rcases hab with hxy | ⟨rfl, hab⟩
      · rcases hba with hyx | ⟨rfl, -⟩
        · exact absurd hxy (Nat.lt_asymm hyx)
        · exact absurd hxy (Nat.lt_irrefl _)
      · rcases hba with hyx | ⟨-, hba⟩
        · exact absurd hyx (Nat.lt_irrefl _)
        · rw [ih hab hba]

/-- What stands between a prefix and a name that starts with it starts with it too. -/
theorem prefix_between {front a b : List Char} (hfront : notAfter front a = true)
    (hab : notAfter a b = true) (hb : front <+: b) : front <+: a := by
  induction front generalizing a b with
  | nil => exact List.nil_prefix
  | cons c front ih =>
    obtain ⟨b, rfl⟩ : ∃ b', b = c :: b' := by
      obtain ⟨rest, rfl⟩ := hb
      exact ⟨front ++ rest, rfl⟩
    cases a with
    | nil => cases hfront
    | cons x a =>
      simp only [notAfter, Bool.or_eq_true, decide_eq_true_eq, Bool.and_eq_true] at hfront hab
      rcases hfront with hcx | ⟨rfl, hfront⟩
      · rcases hab with hxc | ⟨rfl, -⟩
        · exact absurd hcx (Nat.lt_asymm hxc)
        · exact absurd hcx (Nat.lt_irrefl _)
      · rcases hab with hxc | ⟨-, hab⟩
        · exact absurd hxc (Nat.lt_irrefl _)
        · exact List.cons_prefix_cons.2 ⟨rfl, ih hfront hab (List.cons_prefix_cons.1 hb).2⟩

theorem notAfter_of_front {front name : List Char} (h : front <+: name) : notAfter front name = true := by
  obtain ⟨rest, rfl⟩ := h
  exact notAfter_append front rest

/-! ## The walk over a prefix -/

/-- Among names in their order, none of them before `front`, those that start with it come first. -/
theorem takeWhile_prefix_eq_filter {front : List Char} {names : List (List Char)}
    (hfront : ∀ name ∈ names, notAfter front name = true)
    (h : names.Pairwise fun a b => notAfter a b = true) :
    names.takeWhile front.isPrefixOf = names.filter front.isPrefixOf := by
  induction names with
  | nil => rfl
  | cons name names ih =>
    obtain ⟨hname, hnames⟩ := List.pairwise_cons.1 h
    by_cases hprefix : front.isPrefixOf name = true
    · rw [List.takeWhile_cons_of_pos hprefix, List.filter_cons_of_pos hprefix,
        ih (fun b hb => hfront b (List.mem_cons_of_mem _ hb)) hnames]
    · -- A later name that starts with `front` would have this one between it and `front`.
      rw [List.takeWhile_cons_of_neg hprefix, List.filter_cons_of_neg hprefix, eq_comm,
        List.filter_eq_nil_iff]
      intro b hb hbfront
      exact hprefix (List.isPrefixOf_iff_prefix.2 (prefix_between (hfront name (List.mem_cons_self ..))
        (hname b hb) (List.isPrefixOf_iff_prefix.1 hbfront)))

/-- Of names in their order, those from `front` on that start with it are all that do. -/
theorem walk_eq_filter {front : List Char} {names : List (List Char)}
    (h : names.Pairwise fun a b => notAfter a b = true) :
    (names.dropWhile fun name => !notAfter front name).takeWhile front.isPrefixOf =
      names.filter front.isPrefixOf := by
  induction names with
  | nil => rfl
  | cons name names ih =>
    obtain ⟨hname, hnames⟩ := List.pairwise_cons.1 h
    by_cases hfront : notAfter front name = true
    · rw [List.dropWhile_cons_of_neg (by simp [hfront])]
      refine takeWhile_prefix_eq_filter ?_ h
      intro b hb
      rcases List.mem_cons.1 hb with rfl | hb
      · exact hfront
      · exact notAfter_trans hfront (hname b hb)
    · have hprefix : ¬front.isPrefixOf name = true := fun hprefix =>
        hfront (notAfter_of_front (List.isPrefixOf_iff_prefix.1 hprefix))
      rw [List.dropWhile_cons_of_pos (by simp [hfront]), List.filter_cons_of_neg hprefix, ih hnames]

namespace Partition

variable {ε : Type} {p : Partition ε} {front : List Char}

theorem sorted_names (p : Partition ε) : p.names.Pairwise fun a b => notAfter a b = true :=
  @List.pairwise_mergeSort _ notAfter (fun _ _ _ => notAfter_trans) notAfter_total p.entries.names

theorem namesUnder_eq_filter (p : Partition ε) (front : List Char) :
    p.namesUnder front = p.names.filter front.isPrefixOf :=
  walk_eq_filter p.sorted_names

theorem mem_namesUnder_iff {name : List Char} :
    name ∈ p.namesUnder front ↔ (∃ entry, p.get? name = some entry) ∧ front <+: name := by
  rw [namesUnder_eq_filter, List.mem_filter, names, List.mem_mergeSort, Table.mem_names_iff,
    List.isPrefixOf_iff_prefix]
  rfl

theorem sorted_namesUnder (p : Partition ε) (front : List Char) :
    (p.namesUnder front).Pairwise fun a b => notAfter a b = true := by
  rw [namesUnder_eq_filter]
  exact p.sorted_names.filter _

theorem nodup_namesUnder (p : Partition ε) (front : List Char) : (p.namesUnder front).Nodup := by
  rw [namesUnder_eq_filter]
  exact ((List.mergeSort_perm ..).nodup_iff.2 p.distinct).filter _

/-- Entries that are removed one by one are gone, and no others. -/
theorem get?_foldl_remove (p : Partition ε) (names : List (List Char)) (x : List Char) :
    (names.foldl remove p).get? x = if x ∈ names then none else p.get? x := by
  induction names generalizing p with
  | nil => simp
  | cons name names ih =>
    rw [List.foldl_cons, ih, get?_remove]
    by_cases hx : x = name
    · simp [hx]
    · simp [hx]

end Partition

end ObjectFlush
