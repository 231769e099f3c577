import Mathlib.Data.List.Sort
import Mathlib.Order.Interval.Finset.Nat
import ObjectFlush.Proofs.Dirty.Canonical

/-!
Dirty sets over their whole life. Whatever was recorded, forgotten and cut off, in any order, the ranges
are determined by the set of dirty bytes that this comes to.

  1. Canonical ranges are the maximal intervals of their bytes (`Canonical.mem_intervals_iff`), so that
     the bytes determine them (`Canonical.intervals_eq_iff`), and their sizes add up to the number of the
     bytes (`Canonical.card_bytes`).
  2. Each operation does to the ranges what it does to the set of bytes (`DirtySet.step_spec`), and so do
     all of them one after the other (`dirty_set_history`).
-/

namespace ObjectFlush

/-- What can be done to a dirty set. -/
inductive DirtyOp where
  /-- A write of `size` bytes at `start`, recorded with a tag. -/
  | add (start size : Int) (tag : Nat)
  /-- Forgets `size` bytes at `start`. -/
  | clear (start size : Int)
  | truncate (size : Nat)
  | clearAll

namespace DirtyOp

/-- The `size` bytes at `start`. There are none before the file. -/
def span (start size : Int) : Finset Nat :=
  if start < 0 then ∅ else Finset.Ico start.toNat (start.toNat + size.toNat)

/-- What the operation makes of a set of dirty bytes. -/
def apply (bytes : Finset Nat) : DirtyOp → Finset Nat
  | .add start size _ => bytes ∪ span start size
  | .clear start size => bytes \ span start size
  | .truncate size => bytes ∩ Finset.range size
  | .clearAll => ∅

/-- The dirty bytes after some operations, none being dirty at first. -/
def bytesAfter (ops : List DirtyOp) : Finset Nat := ops.foldl apply ∅

end DirtyOp

/-- `[start, stop)` is a maximal interval of `bytes`: not empty, inside, and in no larger one. -/
structure MaximalInterval (bytes : Finset Nat) (start stop : Nat) : Prop where
  nonempty : start < stop
  inside : Finset.Ico start stop ⊆ bytes
  maximal : ∀ s e, s ≤ start → stop ≤ e → Finset.Ico s e ⊆ bytes → s = start ∧ e = stop

/-- The ranges as pairs of start and stop. -/
def intervals (ranges : List DirtyRange) : List (Nat × Nat) := ranges.map fun r => (r.start, r.stop)

/-- The bytes in the ranges. -/
def bytesOf (ranges : List DirtyRange) : Finset Nat :=
  ranges.foldr (fun r bytes => Finset.Ico r.start r.stop ∪ bytes) ∅

@[simp] theorem mem_bytesOf {ranges : List DirtyRange} {o : Nat} :
    o ∈ bytesOf ranges ↔ Dirty ranges o := by
  induction ranges with
  | nil => simp [bytesOf]
  | cons r rest ih =>
    rw [dirty_cons, ← ih]
    simp [bytesOf, DirtyRange.Holds]

/-- The bytes depend on the intervals only. -/
theorem bytesOf_eq_of_intervals {a b : List DirtyRange} (h : intervals a = intervals b) :
    bytesOf a = bytesOf b := by
  have key : ∀ ranges, bytesOf ranges =
      (intervals ranges).foldr (fun i bytes => Finset.Ico i.1 i.2 ∪ bytes) ∅ := by
    intro ranges
    rw [intervals, List.foldr_map]
    rfl
  rw [key, key, h]

namespace Canonical

variable {ranges : List DirtyRange}

/-! ## Maximal intervals -/

/-- The byte just past a range is clean. -/
theorem not_dirty_stop (hc : Canonical ranges) {r : DirtyRange} (hr : r ∈ ranges) :
    ¬Dirty ranges r.stop := by
  induction ranges with
  | nil => cases hr
  | cons x rest ih =>
    obtain ⟨hx, hbelow, hrest⟩ := cons_iff.1 hc
    rw [dirty_cons, not_or]
    rcases List.mem_cons.1 hr with rfl | hr
    · refine ⟨fun h => Nat.lt_irrefl _ h.2, ?_⟩
      intro h
      obtain ⟨y, hy, hs, _⟩ := h
      have := hbelow y hy
      omega
    · refine ⟨?_, ih hrest hr⟩
      intro h
      obtain ⟨_, hlt⟩ := h
      have := hbelow r hr
      simp only [DirtyRange.stop] at *; omega

/-- The byte just before a range is clean. -/
theorem not_dirty_pred (hc : Canonical ranges) {r : DirtyRange} (hr : r ∈ ranges) {o : Nat}
    (ho : o + 1 = r.start) : ¬Dirty ranges o := by
  induction ranges with
  | nil => cases hr
  | cons x rest ih =>
    obtain ⟨hx, hbelow, hrest⟩ := cons_iff.1 hc
    rw [dirty_cons, not_or]
    rcases List.mem_cons.1 hr with rfl | hr
    · refine ⟨fun h => ?_, ?_⟩
      · have := h.1
        omega
      · intro h
        obtain ⟨y, hy, hs, _⟩ := h
        have := hbelow y hy
        simp only [DirtyRange.stop] at *; omega
    · refine ⟨?_, ih hrest hr⟩
      intro h
      obtain ⟨_, hlt⟩ := h
      have := hbelow r hr
      omega

/-- Dirty bytes without a clean one among them lie in one range. -/
theorem exists_range (hc : Canonical ranges) {start stop : Nat} (hlt : start < stop)
    (hin : Finset.Ico start stop ⊆ bytesOf ranges) :
    ∃ r ∈ ranges, r.start ≤ start ∧ stop ≤ r.stop := by
  have hdirty : ∀ o, start ≤ o → o < stop → Dirty ranges o := fun o h₁ h₂ =>
    mem_bytesOf.1 (hin (Finset.mem_Ico.2 ⟨h₁, h₂⟩))
  obtain ⟨r, hr, hs, he⟩ := hdirty start (Nat.le_refl _) hlt
  refine ⟨r, hr, hs, ?_⟩
  -- Else the byte just past the range of `start` would be one of them.
  by_contra hno
  exact hc.not_dirty_stop hr (hdirty r.stop (by omega) (by omega))

theorem mem_intervals_iff (hc : Canonical ranges) {start stop : Nat} :
    (start, stop) ∈ intervals ranges ↔ MaximalInterval (bytesOf ranges) start stop := by
  have hrange : ∀ r ∈ ranges, Finset.Ico r.start r.stop ⊆ bytesOf ranges := fun r hr o ho =>
    mem_bytesOf.2 ⟨r, hr, Finset.mem_Ico.1 ho⟩
  constructor
  · intro h
    obtain ⟨r, hr, heq⟩ := List.mem_map.1 h
    obtain ⟨rfl, rfl⟩ := Prod.mk.inj heq
    have hpos := hc.nonempty r hr
    have hlt : r.start < r.stop := by simp only [DirtyRange.stop]; omega
    refine ⟨hlt, hrange r hr, ?_⟩
    intro s e hs he hin
    have hdirty : ∀ o, s ≤ o → o < e → Dirty ranges o := fun o h₁ h₂ =>
      mem_bytesOf.1 (hin (Finset.mem_Ico.2 ⟨h₁, h₂⟩))
    constructor
    · by_contra hne
      exact hc.not_dirty_pred hr (o := r.start - 1) (by omega) (hdirty _ (by omega) (by omega))
    · by_contra hne
      exact hc.not_dirty_stop hr (hdirty r.stop (by omega) (by omega))
  · intro h
    obtain ⟨r, hr, hs, he⟩ := hc.exists_range h.nonempty h.inside
    obtain ⟨rfl, rfl⟩ := h.maximal r.start r.stop hs he (hrange r hr)
    exact List.mem_map_of_mem hr

/-- The intervals ascend, with a byte between any two. -/
theorem intervals_apart (hc : Canonical ranges) :
    (intervals ranges).Pairwise fun a b => a.2 < b.1 :=
  List.pairwise_map.2 hc.apart

/-- Intervals are in order: each ends at or before the stop of any that follows it. -/
theorem intervals_sorted (hc : Canonical ranges) :
    (intervals ranges).Pairwise fun a b => a.1 < b.1 := by
  refine List.Pairwise.imp_of_mem ?_ hc.intervals_apart
  intro a b ha _ hab
  have hlt := (hc.mem_intervals_iff.1 ha).nonempty
  omega

theorem intervals_eq_iff {a b : List DirtyRange} (ha : Canonical a) (hb : Canonical b) :
    intervals a = intervals b ↔ bytesOf a = bytesOf b := by
  refine ⟨bytesOf_eq_of_intervals, fun h => ?_⟩
  have hmem : ∀ i, i ∈ intervals a ↔ i ∈ intervals b := by
    intro i
    rw [ha.mem_intervals_iff, hb.mem_intervals_iff, h]
  have hnodup : ∀ {c : List DirtyRange}, Canonical c → (intervals c).Nodup := fun hc =>
    hc.intervals_sorted.imp fun hlt heq => by rw [heq] at hlt; exact Nat.lt_irrefl _ hlt
  have hperm := (List.perm_ext_iff_of_nodup (hnodup ha) (hnodup hb)).2 hmem
  exact hperm.eq_of_pairwise (fun x y _ _ hxy hyx => absurd hyx (Nat.lt_asymm hxy))
    ha.intervals_sorted hb.intervals_sorted

/-- The sizes of the ranges add up to the number of their bytes. -/
theorem card_bytes (hc : Canonical ranges) : (bytesOf ranges).card = total (·.size) ranges := by
  induction ranges with
  | nil => rfl
  | cons r rest ih =>
    obtain ⟨_, hbelow, hrest⟩ := cons_iff.1 hc
    have hdisjoint : Disjoint (Finset.Ico r.start r.stop) (bytesOf rest) := by
      rw [Finset.disjoint_left]
      intro o ho hrest
      obtain ⟨x, hx, hs, _⟩ := mem_bytesOf.1 hrest
      have hlt := (Finset.mem_Ico.1 ho).2
      have := hbelow x hx
      omega
    show (Finset.Ico r.start r.stop ∪ bytesOf rest).card = _
    rw [Finset.card_union_of_disjoint hdisjoint, ih hrest, Nat.card_Ico, DirtyRange.stop,
      Nat.add_sub_cancel_left, total_cons]

theorem bytesOf_eq_empty_iff (hc : Canonical ranges) : bytesOf ranges = ∅ ↔ ranges = [] := by
  rw [← Finset.card_eq_zero, hc.card_bytes]
  cases ranges with
  | nil => simp
  | cons r rest =>
    have hpos := hc.nonempty r (by simp)
    simp only [total_cons]
    constructor
    · intro h; omega
    · intro h; cases h

end Canonical

namespace DirtySet

/-! ## Operations -/

/-- The set after an operation. What is refused leaves it as it was. -/
def step (d : DirtySet) : DirtyOp → DirtySet
  | .add start size tag =>
    match d.add start size tag with
    | .ok (_, after) => after
    | .error _ => d
  | .clear start size =>
    match DirtyRange.new start size 0 with
    | .ok r => d.forget r
    | .error _ => d
  | .truncate size => d.truncate size
  | .clearAll => .empty

/-- The set after some operations, nothing being dirty at first. -/
def run (ops : List DirtyOp) : DirtySet := ops.foldl step .empty

/-- A range is refused where it has no bytes, and else it has those of its span. -/
theorem new_cases (start size : Int) (tag : Nat) :
    (∃ e, DirtyRange.new start size tag = .error e ∧ DirtyOp.span start size = ∅) ∨
      ∃ r, DirtyRange.new start size tag = .ok r ∧ 0 < r.size ∧
        ∀ o, r.Holds o ↔ o ∈ DirtyOp.span start size := by
  unfold DirtyRange.new DirtyOp.span
  split
  · next hbad =>
    refine .inl ⟨_, rfl, ?_⟩
    split
    · rfl
    · have hsize : size.toNat = 0 := by omega
      rw [hsize, Nat.add_zero, Finset.Ico_self]
  · next hgood =>
    refine .inr ⟨_, rfl, by show 0 < size.toNat; omega, fun o => ?_⟩
    rw [if_neg (by omega), Finset.mem_Ico]
    rfl

theorem step_spec {d : DirtySet} (hc : Canonical d.ranges) (op : DirtyOp) :
    Canonical (d.step op).ranges ∧ bytesOf (d.step op).ranges = op.apply (bytesOf d.ranges) := by
  cases op with
  | add start size tag =>
    simp only [step, add, DirtyOp.apply]
    rcases new_cases start size tag with ⟨e, hnew, hspan⟩ | ⟨r, hnew, hpos, hholds⟩
    · rw [hnew, hspan, Finset.union_empty]
      exact ⟨hc, rfl⟩
    · rw [hnew]
      refine ⟨hc.insert hpos, ?_⟩
      ext o
      rw [mem_bytesOf, Finset.mem_union, mem_bytesOf, ← hholds, or_comm]
      exact dirty_insert hc hpos o
  | clear start size =>
    simp only [step, DirtyOp.apply]
    rcases new_cases start size 0 with ⟨e, hnew, hspan⟩ | ⟨r, hnew, hpos, hholds⟩
    · rw [hnew, hspan, Finset.sdiff_empty]
      exact ⟨hc, rfl⟩
    · rw [hnew]
      refine ⟨hc.forget hpos, ?_⟩
      ext o
      rw [mem_bytesOf, Finset.mem_sdiff, mem_bytesOf, ← hholds]
      exact dirty_forget d r o
  | truncate size =>
    refine ⟨hc.truncate size, ?_⟩
    ext o
    rw [mem_bytesOf, DirtyOp.apply, Finset.mem_inter, mem_bytesOf, Finset.mem_range]
    exact dirty_truncate hc size o
  | clearAll => exact ⟨.nil, rfl⟩

/-- After any operations the ranges are canonical, and hold the bytes that these come to. -/
theorem run_spec (ops : List DirtyOp) :
    Canonical (run ops).ranges ∧ bytesOf (run ops).ranges = DirtyOp.bytesAfter ops := by
  -- The induction is on the operations, from the last one on.
  induction ops using List.reverseRecOn with
  | nil => exact ⟨.nil, rfl⟩
  | append_singleton ops op ih =>
    obtain ⟨hc, hbytes⟩ := ih
    obtain ⟨hc', hbytes'⟩ := step_spec hc op
    rw [run, DirtyOp.bytesAfter, List.foldl_append, List.foldl_append]
    refine ⟨hc', ?_⟩
    show bytesOf ((run ops).step op).ranges = op.apply (DirtyOp.bytesAfter ops)
    rw [hbytes', hbytes]

end DirtySet

/-- **The bytes determine the set.** After any operations on a set that is empty at first, the ranges are
the maximal intervals of the bytes that these come to, in ascending order and with a byte between any
two; their sizes add up to the number of the bytes; the set is empty where there are none; and two
histories come to the same bytes when they come to the same intervals, and only then. -/
theorem dirty_set_history (ops : List DirtyOp) :
    let d := DirtySet.run ops
    let bytes := DirtyOp.bytesAfter ops
    (∀ start stop, (start, stop) ∈ intervals d.ranges ↔ MaximalInterval bytes start stop) ∧
      (intervals d.ranges).Pairwise (fun a b => a.2 < b.1) ∧
      d.count = bytes.card ∧ (d.isEmpty = true ↔ bytes = ∅) ∧
      ∀ others, intervals (DirtySet.run others).ranges = intervals d.ranges ↔
        DirtyOp.bytesAfter others = bytes := by
  intro d bytes
  obtain ⟨hc, hbytes⟩ := DirtySet.run_spec ops
  have hbytes : bytesOf d.ranges = bytes := hbytes
  refine ⟨?_, hc.intervals_apart, ?_, ?_, ?_⟩
  · intro start stop
    rw [← hbytes]
    exact hc.mem_intervals_iff
  · rw [← hbytes, hc.card_bytes]
    rfl
  · rw [← hbytes, hc.bytesOf_eq_empty_iff]
    exact List.isEmpty_iff
  · intro others
    obtain ⟨hc', hbytes'⟩ := DirtySet.run_spec others
    rw [← hbytes, ← hbytes']
    exact hc'.intervals_eq_iff hc

example : intervals (DirtySet.run [.add 0 10 1, .add 20 10 2, .add 10 10 3, .add 40 0 4, .clear 12 3,
    .truncate 25]).ranges = [(0, 12), (15, 25)] := by decide

end ObjectFlush
