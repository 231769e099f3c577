import ObjectFlush.Proofs.Dirty.Joining

/-!
The tags of dirty ranges over the whole life of a dirty set. A range that joins others takes the tag of the write, also
for bytes that the write does not touch, and one that is cut leaves its tag to what is left of it.

  1. Ranges that are cut keep the tags of the bytes that they keep (`KeepsTags`, `keepsTags_step`).
  2. Recording a range gives its tag to all that it joins, and leaves the tags of all others (`Joins.mem_cases`).
  3. So while the tags that are passed on do not decrease, the tag of a byte is never older than the latest write to it,
     and is one that was passed on (`Fresh.step`, `fresh_run`).
-/

namespace ObjectFlush

namespace DirtyOp

/-- The tag that an operation passes on. -/
def tag? : DirtyOp → Option Nat
  | .add _ _ tag => some tag
  | _ => none

/-- The tag that an operation passes on for the byte at `o`, if it records that byte. -/
def tagOn? (o : Nat) : DirtyOp → Option Nat
  | .add start size tag => if o ∈ span start size then some tag else none
  | _ => none

/-- The tags that operations pass on, in the order of the operations. -/
def tags (ops : List DirtyOp) : List Nat := ops.filterMap tag?

/-- The tag of the latest operation that records the byte at `o`. -/
def latestTag? (o : Nat) (ops : List DirtyOp) : Option Nat := (ops.filterMap (tagOn? o)).getLast?

@[simp] theorem tags_nil : tags [] = [] := rfl

@[simp] theorem tags_append (ops more : List DirtyOp) : tags (ops ++ more) = tags ops ++ tags more := by
  simp [tags]

@[simp] theorem tags_add (start size : Int) (tag : Nat) (ops : List DirtyOp) :
    tags (.add start size tag :: ops) = tag :: tags ops := rfl

@[simp] theorem tags_truncate (size : Nat) (ops : List DirtyOp) : tags (.truncate size :: ops) = tags ops := rfl

@[simp] theorem tags_clearAll (ops : List DirtyOp) : tags (.clearAll :: ops) = tags ops := rfl

theorem latestTag?_append_of_none {o : Nat} {op : DirtyOp} (h : op.tagOn? o = none) (ops : List DirtyOp) :
    latestTag? o (ops ++ [op]) = latestTag? o ops := by
  simp [latestTag?, h]

theorem latestTag?_append_of_some {o tag : Nat} {op : DirtyOp} (h : op.tagOn? o = some tag) (ops : List DirtyOp) :
    latestTag? o (ops ++ [op]) = some tag := by
  simp [latestTag?, h]

/-- Whether an operation only takes bytes away. -/
def Cuts : DirtyOp → Prop
  | .add .. => False
  | _ => True

end DirtyOp

namespace DirtySet

/-- The tag of the byte at `o`: that of the range that holds it. -/
def tagAt? (d : DirtySet) (o : Nat) : Option Nat := (d.ranges.find? fun r => r.Holds o).map (·.tag)

end DirtySet

/-- Two ranges in canonical order that hold the same byte are one. -/
theorem Canonical.eq_of_holds {ranges : List DirtyRange} (hc : Canonical ranges) {r x : DirtyRange} (hr : r ∈ ranges)
    (hx : x ∈ ranges) {o : Nat} (hro : r.Holds o) (hxo : x.Holds o) : r = x := by
  induction ranges with
  | nil => cases hr
  | cons first rest ih =>
    obtain ⟨-, hbelow, hrest⟩ := cons_iff.1 hc
    -- A byte of the first range lies below all others.
    have hfirst : ∀ y ∈ rest, first.Holds o → ¬y.Holds o := by
      intro y hy hfo hyo
      have := hbelow y hy
      simp only [DirtyRange.Holds] at *
      omega
    cases hr with
    | head =>
      cases hx with
      | head => rfl
      | tail _ hx => exact absurd hxo (hfirst x hx hro)
    | tail _ hr =>
      cases hx with
      | head => exact absurd hro (hfirst r hr hxo)
      | tail _ hx => exact ih hrest hr hx

namespace DirtySet

variable {d d' : DirtySet}

/-- In canonical order, just one range can tell the tag of a byte. -/
theorem tagAt?_eq_some_iff (hc : Canonical d.ranges) {o tag : Nat} :
    d.tagAt? o = some tag ↔ ∃ r ∈ d.ranges, r.Holds o ∧ r.tag = tag := by
  unfold tagAt?
  constructor
  · intro h
    obtain ⟨r, hfind, htag⟩ := Option.map_eq_some_iff.1 h
    exact ⟨r, List.mem_of_find?_eq_some hfind, by simpa using List.find?_some hfind, htag⟩
  · intro h
    obtain ⟨r, hr, hro, htag⟩ := h
    cases hfind : d.ranges.find? fun r => r.Holds o with
    | none =>
      have hnone := List.find?_eq_none.1 hfind r hr
      simp [hro] at hnone
    | some x =>
      have hxo : x.Holds o := by simpa using List.find?_some hfind
      have hsame := hc.eq_of_holds (List.mem_of_find?_eq_some hfind) hr hxo hro
      simp [hsame, htag]

/-! ## Cutting -/

/-- Each of the ranges `after` is cut from one of those `before`, and has its tag. -/
def KeepsTags (before after : List DirtyRange) : Prop :=
  ∀ x ∈ after, ∃ r ∈ before, r.tag = x.tag ∧ ∀ o, x.Holds o → r.Holds o

theorem keepsTags_refl (ranges : List DirtyRange) : KeepsTags ranges ranges :=
  fun x hx => ⟨x, hx, rfl, fun _ ho => ho⟩

/-- Both sides that are left of a range have its tag. -/
theorem tag_of_mem_without {r x : DirtyRange} {start stop : Nat} (hx : x ∈ r.without start stop) : x.tag = r.tag := by
  unfold DirtyRange.without at hx
  split at hx
  · simp_all
  · obtain hx | hx := List.mem_append.1 hx
    all_goals
      split at hx
      · simp_all
      · cases hx

theorem keepsTags_forget (d : DirtySet) (w : DirtyRange) : KeepsTags d.ranges (d.forget w).ranges := by
  intro x hx
  obtain ⟨r, hr, hxr⟩ := List.mem_flatMap.1 hx
  refine ⟨r, hr, (tag_of_mem_without hxr).symm, fun o ho => ?_⟩
  exact ((r.dirty_without w.start w.stop o).1 ⟨x, hxr, ho⟩).1

/-- A range that is there after the last was cut off was there before, or is what is left of the last. -/
theorem mem_clipLast {size : Nat} {x : DirtyRange} {ranges : List DirtyRange} (hx : x ∈ clipLast size ranges) :
    ∃ r ∈ ranges, x = r ∨ x = r.clip size := by
  induction ranges using clipLast.induct with
  | case1 => cases hx
  | case2 r => exact ⟨r, List.mem_singleton_self r, .inr (List.mem_singleton.1 hx)⟩
  | case3 r next rest ih =>
    rcases List.mem_cons.1 hx with rfl | hx
    · exact ⟨x, List.mem_cons_self .., .inl rfl⟩
    · obtain ⟨r', hr', hcut⟩ := ih hx
      exact ⟨r', List.mem_cons_of_mem r hr', hcut⟩

theorem keepsTags_truncate (d : DirtySet) (size : Nat) : KeepsTags d.ranges (d.truncate size).ranges := by
  intro x hx
  obtain ⟨r, hr, hcut⟩ := mem_clipLast hx
  obtain ⟨hr, hlt⟩ := List.mem_filter.1 hr
  rcases hcut with rfl | rfl
  · exact ⟨x, hr, rfl, fun o ho => ho⟩
  · have hstop := DirtyRange.stop_clip (show r.start < size by simpa using hlt)
    refine ⟨r, hr, ?_, fun o ho => ?_⟩
    · simp only [DirtyRange.clip]
      split <;> rfl
    · simp only [DirtyRange.Holds, DirtyRange.start_clip, hstop] at ho ⊢
      omega

/-- What only takes bytes away keeps the tags. -/
theorem keepsTags_step (d : DirtySet) {op : DirtyOp} (hop : op.Cuts) : KeepsTags d.ranges (d.step op).ranges := by
  cases op with
  | add => exact hop.elim
  | clear start size =>
    simp only [step]
    split
    · exact keepsTags_forget d _
    · exact keepsTags_refl d.ranges
  | truncate size => exact keepsTags_truncate d size
  | clearAll => simp [KeepsTags, step, empty]

/-- The bytes that are left have the tags that they had. -/
theorem KeepsTags.tagAt?_eq (h : KeepsTags d.ranges d'.ranges) (hc : Canonical d.ranges) (hc' : Canonical d'.ranges)
    {o : Nat} (ho : Dirty d'.ranges o) : d'.tagAt? o = d.tagAt? o := by
  obtain ⟨x, hx, hxo⟩ := ho
  obtain ⟨r, hr, htag, hholds⟩ := h x hx
  have hafter := (tagAt?_eq_some_iff hc').2 ⟨x, hx, hxo, rfl⟩
  have hbefore := (tagAt?_eq_some_iff hc).2 ⟨r, hr, hholds o hxo, htag⟩
  rw [hafter, hbefore]

/-! ## Recording -/

/-- A range that is there after recording `w` is the joined one, or one that does not meet `w` and was there before. -/
theorem Joins.mem_cases {w x : DirtyRange} {ranges after : List DirtyRange} (h : Joins w ranges after)
    (hx : x ∈ after) :
    (x.tag = w.tag ∧ ∀ o, x.Holds o → w.Holds o ∨ ∃ r ∈ ranges, r.Holds o) ∨
      (x ∈ ranges ∧ ∀ o, x.Holds o → ¬w.Holds o) := by
  obtain ⟨below, joined, above, hothers, hafter, -, -, hunites⟩ := h
  subst hafter
  have hkept : x ∈ below ++ above → x ∈ ranges ∧ ∀ o, x.Holds o → ¬w.Holds o := by
    intro hx
    rw [← hothers] at hx
    obtain ⟨hx, hmeets⟩ := List.mem_filter.1 hx
    refine ⟨hx, fun o hxo hwo => ?_⟩
    simp only [DirtyRange.meets, Bool.not_eq_true', Bool.and_eq_false_iff, decide_eq_false_iff_not] at hmeets
    simp only [DirtyRange.Holds] at hxo hwo
    omega
  simp only [List.mem_append, List.mem_cons] at hx hkept
  obtain hx | hx | hx := hx
  · exact .inr (hkept (.inl hx))
  · subst hx
    refine .inl ⟨hunites.tag, fun o ho => ?_⟩
    obtain hw | ⟨r, hr, hro⟩ := (hunites.holds o).1 ho
    · exact .inl hw
    · exact .inr ⟨r, (List.mem_filter.1 hr).1, hro⟩
  · exact .inr (hkept (.inr hx))

/-! ## Every operation -/

/-- What is true of the ranges after some operations: the tag of a range is one that was passed on, and not older than
the latest write to any of its bytes. -/
structure Fresh (ops : List DirtyOp) (ranges : List DirtyRange) : Prop where
  passed : ∀ r ∈ ranges, r.tag ∈ DirtyOp.tags ops
  latest : ∀ r ∈ ranges, ∀ o, r.Holds o → ∃ tag, DirtyOp.latestTag? o ops = some tag ∧ tag ≤ r.tag

/-- Ranges that keep their tags stay fresh while nothing is recorded. -/
theorem Fresh.keep {ops : List DirtyOp} {op : DirtyOp} {ranges after : List DirtyRange} (h : Fresh ops ranges)
    (hkeeps : KeepsTags ranges after) (hnone : ∀ o, op.tagOn? o = none) : Fresh (ops ++ [op]) after := by
  constructor
  · intro x hx
    obtain ⟨r, hr, htag, -⟩ := hkeeps x hx
    rw [← htag, DirtyOp.tags_append]
    exact List.mem_append_left _ (h.passed r hr)
  · intro x hx o ho
    obtain ⟨r, hr, htag, hholds⟩ := hkeeps x hx
    rw [DirtyOp.latestTag?_append_of_none (hnone o), ← htag]
    exact h.latest r hr o (hholds o ho)

/-- Recording with a tag that is not older than those before keeps ranges fresh. -/
theorem Fresh.add {ops : List DirtyOp} (hc : Canonical d.ranges) (h : Fresh ops d.ranges) (start size : Int) {tag : Nat}
    (htag : ∀ t ∈ DirtyOp.tags ops, t ≤ tag) :
    Fresh (ops ++ [.add start size tag]) (d.step (.add start size tag)).ranges := by
  rw [step_add, add_eq]
  obtain ⟨e, hnew, hspan⟩ | ⟨w, hnew, hpos, hholds⟩ := new_cases start size tag
  · rw [hnew]
    exact h.keep (keepsTags_refl d.ranges) fun o => by simp [DirtyOp.tagOn?, hspan]
  · rw [hnew]
    obtain ⟨-, -, hw⟩ := DirtyRange.new_eq_ok hnew
    have hwtag : w.tag = tag := by rw [hw]
    have hjoins := (insert_joins hpos hc).2
    -- A byte of the write has its tag as the latest one, and any other byte the latest tag that it had.
    have hin : ∀ o, w.Holds o → DirtyOp.latestTag? o (ops ++ [.add start size tag]) = some tag := by
      intro o ho
      apply DirtyOp.latestTag?_append_of_some
      simp [DirtyOp.tagOn?, (hholds o).1 ho]
    have hout : ∀ o, ¬w.Holds o → DirtyOp.latestTag? o (ops ++ [.add start size tag]) =
        DirtyOp.latestTag? o ops := by
      intro o ho
      apply DirtyOp.latestTag?_append_of_none
      simp [DirtyOp.tagOn?, mt (hholds o).2 ho]
    constructor
    · intro x hx
      obtain ⟨hxtag, -⟩ | ⟨hx, -⟩ := hjoins.mem_cases hx
      · simp [hxtag, hwtag]
      · rw [DirtyOp.tags_append]
        exact List.mem_append_left _ (h.passed x hx)
    · intro x hx o ho
      obtain ⟨hxtag, hfrom⟩ | ⟨hx, hapart⟩ := hjoins.mem_cases hx
      · by_cases hwo : w.Holds o
        · exact ⟨tag, hin o hwo, by omega⟩
        · obtain ⟨r, hr, hro⟩ := (hfrom o ho).resolve_left hwo
          obtain ⟨t, hlatest, hle⟩ := h.latest r hr o hro
          have := htag r.tag (h.passed r hr)
          exact ⟨t, (hout o hwo).trans hlatest, by omega⟩
      · rw [hout o (hapart o ho)]
        exact h.latest x hx o ho

/-- Every operation keeps ranges fresh, if it passes on no older tag than those before it. -/
theorem Fresh.step {ops : List DirtyOp} {op : DirtyOp} (hc : Canonical d.ranges) (h : Fresh ops d.ranges)
    (htags : (DirtyOp.tags (ops ++ [op])).Pairwise (· ≤ ·)) : Fresh (ops ++ [op]) (d.step op).ranges := by
  cases op with
  | add start size tag =>
    refine h.add hc start size fun t ht => ?_
    rw [DirtyOp.tags_append] at htags
    exact (List.pairwise_append.1 htags).2.2 t ht tag (by simp)
  | clear => exact h.keep (keepsTags_step d trivial) fun _ => rfl
  | truncate => exact h.keep (keepsTags_step d trivial) fun _ => rfl
  | clearAll => exact h.keep (keepsTags_step d trivial) fun _ => rfl

theorem fresh_run {ops : List DirtyOp} (htags : (DirtyOp.tags ops).Pairwise (· ≤ ·)) :
    Fresh ops (run ops).ranges := by
  induction ops using List.reverseRecOn with
  | nil => exact ⟨by simp [run, empty], by simp [run, empty]⟩
  | append_singleton ops op ih =>
    have hbefore : (DirtyOp.tags ops).Pairwise (· ≤ ·) := by
      rw [DirtyOp.tags_append] at htags
      exact (List.pairwise_append.1 htags).1
    rw [run, List.foldl_append]
    exact (ih hbefore).step (run_spec ops).1 htags

end DirtySet

end ObjectFlush
