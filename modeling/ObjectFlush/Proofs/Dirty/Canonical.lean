import Mathlib.Tactic.Tauto
import ObjectFlush.Dirty.Set

/-!
Dirty ranges as sets of bytes. `Dirty ranges o` says that the byte at `o` is dirty, and `Canonical`
that the ranges are what a dirty set holds: none empty, in ascending order, a clean byte between any
two of them.

  1. Recording a range makes exactly its bytes dirty (`dirty_insert`) and keeps the ranges canonical
     (`Canonical.insert`).
  2. Cutting off at a size cleans exactly the bytes from there on (`dirty_truncate`), and keeps the
     ranges canonical (`Canonical.truncate`).
  3. Forgetting a range cleans exactly its bytes (`dirty_forget`), and keeps the ranges canonical
     (`Canonical.forget`).
-/

namespace ObjectFlush

/-- Whether the byte at `o` lies in the range. -/
def DirtyRange.Holds (r : DirtyRange) (o : Nat) : Prop := r.start ≤ o ∧ o < r.stop

/-- Whether the byte at `o` lies in one of the ranges. -/
def Dirty (ranges : List DirtyRange) (o : Nat) : Prop := ∃ r ∈ ranges, r.Holds o

instance (r : DirtyRange) (o : Nat) : Decidable (r.Holds o) := inferInstanceAs (Decidable (_ ∧ _))

instance (ranges : List DirtyRange) (o : Nat) : Decidable (Dirty ranges o) :=
  inferInstanceAs (Decidable (∃ r ∈ ranges, r.Holds o))

/-- Ranges in the form in which a dirty set keeps them. -/
structure Canonical (ranges : List DirtyRange) : Prop where
  /-- Each holds a byte. -/
  nonempty : ∀ r ∈ ranges, 0 < r.size
  /-- They ascend, with a clean byte between any two. -/
  apart : ranges.Pairwise fun a b => a.stop < b.start

@[simp] theorem dirty_nil (o : Nat) : ¬Dirty [] o := by simp [Dirty]

@[simp] theorem dirty_cons (r : DirtyRange) (rest : List DirtyRange) (o : Nat) :
    Dirty (r :: rest) o ↔ r.Holds o ∨ Dirty rest o := by simp [Dirty]

@[simp] theorem dirty_append (a b : List DirtyRange) (o : Nat) :
    Dirty (a ++ b) o ↔ Dirty a o ∨ Dirty b o := by simp [Dirty, or_and_right, exists_or]

namespace Canonical

theorem nil : Canonical [] := ⟨by simp, .nil⟩

theorem cons_iff {r : DirtyRange} {rest : List DirtyRange} :
    Canonical (r :: rest) ↔
      0 < r.size ∧ (∀ x ∈ rest, r.stop < x.start) ∧ Canonical rest := by
  constructor
  · intro h
    have hp := List.pairwise_cons.1 h.apart
    exact ⟨h.nonempty r (by simp), hp.1, fun x hx => h.nonempty x (by simp [hx]), hp.2⟩
  · intro h
    obtain ⟨hr, hbelow, hrest⟩ := h
    refine ⟨?_, List.pairwise_cons.2 ⟨hbelow, hrest.apart⟩⟩
    intro x hx
    rcases List.mem_cons.1 hx with rfl | hx
    · exact hr
    · exact hrest.nonempty x hx

theorem append_iff {a b : List DirtyRange} :
    Canonical (a ++ b) ↔
      Canonical a ∧ Canonical b ∧ ∀ x ∈ a, ∀ y ∈ b, x.stop < y.start := by
  constructor
  · intro h
    obtain ⟨ha, hb, hab⟩ := List.pairwise_append.1 h.apart
    exact ⟨⟨fun x hx => h.nonempty x (by simp [hx]), ha⟩,
      ⟨fun x hx => h.nonempty x (by simp [hx]), hb⟩, hab⟩
  · intro h
    obtain ⟨ha, hb, hab⟩ := h
    refine ⟨?_, List.pairwise_append.2 ⟨ha.apart, hb.apart, hab⟩⟩
    intro x hx
    rcases List.mem_append.1 hx with hx | hx
    · exact ha.nonempty x hx
    · exact hb.nonempty x hx

end Canonical

namespace DirtySet

/-! ## Recording a range -/

theorem start_cover (r : DirtyRange) (start stop tag : Nat) :
    (r.cover start stop tag).start = min r.start start := rfl

theorem stop_cover (r : DirtyRange) (start stop tag : Nat) :
    (r.cover start stop tag).stop = max r.stop stop := by
  simp only [DirtyRange.cover, DirtyRange.stop]; omega

/-- A range that meets another covers it and that one, and nothing else. -/
theorem holds_cover {r x : DirtyRange} (tag : Nat) (h : r.meets x.start x.stop = true) (o : Nat) :
    (r.cover x.start x.stop tag).Holds o ↔ r.Holds o ∨ x.Holds o := by
  simp only [DirtyRange.meets, Bool.and_eq_true, decide_eq_true_eq] at h
  simp only [DirtyRange.Holds, start_cover, stop_cover]
  omega

/-- Absorbing goes upwards only, so one induction carries the bytes, the order and the bound that
what stands before the ranges relies on. -/
theorem absorb_spec {rest : List DirtyRange} :
    ∀ {r : DirtyRange}, 0 < r.size → Canonical rest → (∀ x ∈ rest, r.start ≤ x.start) →
      Canonical (absorb r rest) ∧ (∀ x ∈ absorb r rest, r.start ≤ x.start) ∧
        ∀ o, Dirty (absorb r rest) o ↔ r.Holds o ∨ Dirty rest o := by
  induction rest with
  | nil =>
    intro r hr _ _
    exact ⟨Canonical.cons_iff.2 ⟨hr, by simp, .nil⟩, by simp [absorb], by simp [absorb]⟩
  | cons next rest ih =>
    intro r hr hc hle
    obtain ⟨hnext, hbelow, hrest⟩ := Canonical.cons_iff.1 hc
    have hstart : r.start ≤ next.start := hle next (by simp)
    simp only [absorb]
    split
    · next hm =>
      have hcs : (r.cover next.start next.stop r.tag).start = r.start := by
        rw [start_cover]; omega
      have hpos : 0 < (r.cover next.start next.stop r.tag).size := by
        simp only [DirtyRange.cover, DirtyRange.stop] at *; omega
      obtain ⟨h₁, h₂, h₃⟩ := ih hpos hrest fun x hx => by
        rw [hcs]; exact hle x (by simp [hx])
      rw [hcs] at h₂
      refine ⟨h₁, h₂, fun o => ?_⟩
      rw [h₃, holds_cover _ hm, dirty_cons, or_assoc]
    · next hm =>
      -- `next` does not meet `r` and does not start before it, so it lies behind a gap.
      have hgap : r.stop < next.start := by
        simp only [DirtyRange.meets, Bool.and_eq_true, decide_eq_true_eq] at hm
        simp only [DirtyRange.stop] at *; omega
      refine ⟨Canonical.cons_iff.2 ⟨hr, ?_, hc⟩, ?_, fun o => by simp⟩
      · intro x hx
        rcases List.mem_cons.1 hx with rfl | hx
        · exact hgap
        · have := hbelow x hx
          simp only [DirtyRange.stop] at *; omega
      · intro x hx
        rcases List.mem_cons.1 hx with rfl | hx
        · exact Nat.le_refl _
        · exact hle x hx

/-- What ends before a range starts stands before it, and what does not stands behind. -/
theorem dropWhile_spec (start : Nat) {ranges : List DirtyRange} (hc : Canonical ranges) :
    ∀ x ∈ ranges.dropWhile (·.stop < start), start ≤ x.stop := by
  induction ranges with
  | nil => simp
  | cons r rest ih =>
    obtain ⟨_, hbelow, hrest⟩ := Canonical.cons_iff.1 hc
    intro x hx
    rw [List.dropWhile_cons] at hx
    split at hx
    · exact ih hrest x hx
    · next hr =>
      have hr : start ≤ r.stop := by simpa using hr
      rcases List.mem_cons.1 hx with rfl | hx
      · exact hr
      · have := hbelow x hx
        simp only [DirtyRange.stop] at *; omega

theorem insert_spec {r : DirtyRange} {ranges : List DirtyRange} (hr : 0 < r.size)
    (hc : Canonical ranges) :
    Canonical (insert r ranges).2 ∧
      ∀ o, Dirty (insert r ranges).2 o ↔ r.Holds o ∨ Dirty ranges o := by
  have hsplit : ranges.takeWhile (·.stop < r.start) ++ ranges.dropWhile (·.stop < r.start) =
      ranges := List.takeWhile_append_dropWhile
  have hbefore : ∀ x ∈ ranges.takeWhile (·.stop < r.start), x.stop < r.start := fun x hx => by
    simpa using List.all_eq_true.1 List.all_takeWhile x hx
  have hbehind := dropWhile_spec r.start hc
  simp only [insert]
  generalize ranges.takeWhile (·.stop < r.start) = before at hsplit hbefore ⊢
  generalize ranges.dropWhile (·.stop < r.start) = behind at hsplit hbehind ⊢
  subst hsplit
  obtain ⟨hb, hbh, hlt⟩ := Canonical.append_iff.1 hc
  cases behind with
  | nil =>
    refine ⟨Canonical.append_iff.2 ⟨hb, Canonical.cons_iff.2 ⟨hr, by simp, .nil⟩, ?_⟩, fun o => ?_⟩
    · intro x hx y hy
      rw [List.mem_singleton.1 hy]
      exact hbefore x hx
    · simp [or_comm]
  | cons next rest =>
    obtain ⟨hnext, hbelow, hrest⟩ := Canonical.cons_iff.1 hbh
    have hreach : r.start ≤ next.stop := hbehind next (by simp)
    simp only
    split
    · next hm =>
      have hpos : 0 < (next.cover r.start r.stop r.tag).size := by
        simp only [DirtyRange.cover, DirtyRange.stop] at *; omega
      obtain ⟨h₁, h₂, h₃⟩ := absorb_spec hpos hrest fun x hx => by
        have := hbelow x hx
        simp only [start_cover, DirtyRange.stop] at *; omega
      refine ⟨Canonical.append_iff.2 ⟨hb, h₁, ?_⟩, fun o => ?_⟩
      · intro x hx y hy
        have hy := h₂ y hy
        have := hbefore x hx
        have := hlt x hx next (by simp)
        rw [start_cover] at hy; omega
      · rw [dirty_append, h₃, holds_cover _ hm, dirty_append, dirty_cons]
        tauto
    · next hm =>
      have hgap : r.stop < next.start := by
        simp only [DirtyRange.meets, Bool.and_eq_true, decide_eq_true_eq] at hm; omega
      refine ⟨Canonical.append_iff.2 ⟨hb, Canonical.cons_iff.2 ⟨hr, ?_, hbh⟩, ?_⟩, fun o => ?_⟩
      · intro x hx
        rcases List.mem_cons.1 hx with rfl | hx
        · exact hgap
        · have := hbelow x hx
          simp only [DirtyRange.stop] at *; omega
      · intro x hx y hy
        rcases List.mem_cons.1 hy with rfl | hy
        · exact hbefore x hx
        · exact hlt x hx y hy
      · rw [dirty_append, dirty_cons, dirty_append]
        tauto

end DirtySet

theorem Canonical.insert {r : DirtyRange} {ranges : List DirtyRange} (hc : Canonical ranges)
    (hr : 0 < r.size) : Canonical (DirtySet.insert r ranges).2 :=
  (DirtySet.insert_spec hr hc).1

theorem dirty_insert {r : DirtyRange} {ranges : List DirtyRange} (hc : Canonical ranges)
    (hr : 0 < r.size) (o : Nat) :
    Dirty (DirtySet.insert r ranges).2 o ↔ r.Holds o ∨ Dirty ranges o :=
  (DirtySet.insert_spec hr hc).2 o

theorem DirtyRange.new_of_pos {start size : Int} (hstart : 0 ≤ start) (hsize : 0 < size) (tag : Nat) :
    DirtyRange.new start size tag = .ok ⟨start.toNat, size.toNat, tag⟩ := if_neg (by omega)

/-- A write of at least one byte in the file is never refused, whatever the ranges. -/
theorem DirtySet.exists_mark (d : DirtySet) {start size : Int} (hstart : 0 ≤ start) (hsize : 0 < size) (tag : Nat) :
    ∃ d', d.mark start size tag = .ok d' := by
  rw [DirtySet.mark, DirtySet.add, DirtyRange.new_of_pos hstart hsize]
  exact ⟨_, rfl⟩

/-- A write of at least one byte is never refused, and makes its bytes dirty. -/
theorem DirtySet.mark_spec {d : DirtySet} (hc : Canonical d.ranges) (start : Nat) {size : Nat}
    (hsize : 0 < size) (tag : Nat) :
    ∃ d', d.mark start size tag = .ok d' ∧ Canonical d'.ranges ∧
      ∀ o, Dirty d'.ranges o ↔ (start ≤ o ∧ o < start + size) ∨ Dirty d.ranges o := by
  have hnew : DirtyRange.new start size tag = .ok ⟨start, size, tag⟩ :=
    DirtyRange.new_of_pos (Int.natCast_nonneg start) (Int.natCast_pos.2 hsize) tag
  refine ⟨⟨(DirtySet.insert ⟨start, size, tag⟩ d.ranges).2⟩, ?_, hc.insert hsize, dirty_insert hc hsize⟩
  rw [DirtySet.mark, DirtySet.add, hnew]
  rfl

/-! ## Cutting off -/

theorem DirtyRange.stop_clip {r : DirtyRange} {size : Nat} (h : r.start < size) :
    (r.clip size).stop = min r.stop size := by
  unfold clip
  split
  · simp only [stop] at *; omega
  · next hs => simp only [stop] at *; omega

theorem DirtyRange.start_clip (r : DirtyRange) (size : Nat) : (r.clip size).start = r.start := by
  simp only [clip]; split <;> rfl

theorem DirtyRange.clip_eq_self {r : DirtyRange} {size : Nat} (h : r.stop ≤ size) : r.clip size = r :=
  if_neg (Nat.not_lt.2 h)

/-- Where the ranges are apart and all start before `size`, to cut off the last of them is to cut off each:
what comes before the last ends before the last starts. -/
theorem clipLast_eq_map {size : Nat} {ranges : List DirtyRange}
    (hapart : ranges.Pairwise fun a b => a.stop < b.start) (hlt : ∀ r ∈ ranges, r.start < size) :
    DirtySet.clipLast size ranges = ranges.map (·.clip size) := by
  induction ranges using DirtySet.clipLast.induct with
  | case1 => rfl
  | case2 r => rfl
  | case3 r next rest ih =>
    obtain ⟨hfirst, hrest⟩ := List.pairwise_cons.1 hapart
    have hnext := hlt next (by simp)
    have hbefore := hfirst next (by simp)
    rw [DirtySet.clipLast, ih hrest fun x hx => hlt x (List.mem_cons_of_mem r hx), List.map_cons,
      List.map_cons, List.map_cons, DirtyRange.clip_eq_self (r := r) (by omega)]

theorem Canonical.ranges_truncate {d : DirtySet} (hc : Canonical d.ranges) (size : Nat) :
    (d.truncate size).ranges = (d.ranges.filter (·.start < size)).map (·.clip size) :=
  clipLast_eq_map (hc.apart.filter _) fun r hr => by simpa using (List.mem_filter.1 hr).2

theorem dirty_truncate {d : DirtySet} (hc : Canonical d.ranges) (size o : Nat) :
    Dirty (d.truncate size).ranges o ↔ Dirty d.ranges o ∧ o < size := by
  rw [hc.ranges_truncate]
  constructor
  · intro h
    obtain ⟨x, hx, hs, ht⟩ := h
    obtain ⟨r, hr, rfl⟩ := List.mem_map.1 hx
    obtain ⟨hr, hlt⟩ := List.mem_filter.1 hr
    rw [DirtyRange.start_clip] at hs
    rw [DirtyRange.stop_clip (by simpa using hlt)] at ht
    exact ⟨⟨r, hr, hs, by omega⟩, by omega⟩
  · intro h
    obtain ⟨⟨r, hr, hs, ht⟩, ho⟩ := h
    have hlt : r.start < size := by omega
    refine ⟨r.clip size, List.mem_map_of_mem (List.mem_filter.2 ⟨hr, by simpa using hlt⟩), ?_, ?_⟩
    · rwa [DirtyRange.start_clip]
    · rw [DirtyRange.stop_clip hlt]; omega

theorem Canonical.truncate {d : DirtySet} (hc : Canonical d.ranges) (size : Nat) :
    Canonical (d.truncate size).ranges := by
  rw [hc.ranges_truncate]
  refine ⟨?_, ?_⟩
  · intro x hx
    obtain ⟨r, hr, rfl⟩ := List.mem_map.1 hx
    obtain ⟨hr, hlt⟩ := List.mem_filter.1 hr
    have hsize := hc.nonempty r hr
    have hstart := r.start_clip size
    have hlt : r.start < size := by simpa using hlt
    have hstop := DirtyRange.stop_clip hlt
    simp only [DirtyRange.stop] at hstop
    omega
  · refine List.pairwise_map.2 (List.Pairwise.imp_of_mem ?_ (hc.apart.filter _))
    intro a b ha hb hab
    have ha : a.start < size := by simpa using (List.mem_filter.1 ha).2
    rw [DirtyRange.stop_clip ha, DirtyRange.start_clip]; omega

/-! ## Forgetting -/

namespace DirtyRange

/-- What is left of a range without another holds the bytes that only the first one holds. -/
theorem dirty_without (r : DirtyRange) (start stop o : Nat) :
    Dirty (r.without start stop) o ↔ r.Holds o ∧ ¬(start ≤ o ∧ o < stop) := by
  unfold without
  split
  · next hout =>
    simp only [dirty_cons, dirty_nil, or_false, Holds, DirtyRange.stop] at hout ⊢
    omega
  · next hin =>
    rw [dirty_append]
    split <;> split <;>
      simp only [dirty_cons, dirty_nil, or_false, false_or, false_iff, Holds, DirtyRange.stop] at * <;>
      omega

/-- What is left of a range lies inside it and is not empty. -/
theorem mem_without {r x : DirtyRange} {start stop : Nat} (hr : 0 < r.size)
    (hx : x ∈ r.without start stop) : r.start ≤ x.start ∧ x.stop ≤ r.stop ∧ 0 < x.size := by
  unfold without at hx
  split at hx
  · obtain rfl := List.mem_singleton.1 hx
    exact ⟨Nat.le_refl _, Nat.le_refl _, hr⟩
  · next hin =>
    rcases List.mem_append.1 hx with hx | hx
    · split at hx
      · obtain rfl := List.mem_singleton.1 hx
        simp only [DirtyRange.stop] at *; omega
      · cases hx
    · split at hx
      · obtain rfl := List.mem_singleton.1 hx
        simp only [DirtyRange.stop] at *; omega
      · cases hx

/-- The two sides that are left of a range have the forgotten bytes between them. -/
theorem apart_without (r : DirtyRange) {start stop : Nat} (h : start < stop) :
    (r.without start stop).Pairwise fun a b => a.stop < b.start := by
  unfold without
  split
  · exact List.pairwise_singleton _ _
  · split <;> split <;> simp only [List.nil_append, List.append_nil, List.cons_append, List.Pairwise.nil,
      List.pairwise_singleton, List.pairwise_pair, DirtyRange.stop] at *
    -- Only where both sides are left is there something to compare.
    omega

end DirtyRange

theorem dirty_forget (d : DirtySet) (r : DirtyRange) (o : Nat) :
    Dirty (d.forget r).ranges o ↔ Dirty d.ranges o ∧ ¬r.Holds o := by
  constructor
  · intro h
    obtain ⟨x, hx, ho⟩ := h
    obtain ⟨a, ha, hxa⟩ := List.mem_flatMap.1 hx
    obtain ⟨hin, hout⟩ := (a.dirty_without r.start r.stop o).1 ⟨x, hxa, ho⟩
    exact ⟨⟨a, ha, hin⟩, hout⟩
  · intro h
    obtain ⟨⟨a, ha, hin⟩, hout⟩ := h
    obtain ⟨x, hx, ho⟩ := (a.dirty_without r.start r.stop o).2 ⟨hin, hout⟩
    exact ⟨x, List.mem_flatMap.2 ⟨a, ha, hx⟩, ho⟩

theorem Canonical.forget {d : DirtySet} (hc : Canonical d.ranges) {r : DirtyRange}
    (hr : 0 < r.size) : Canonical (d.forget r).ranges := by
  have hrange : r.start < r.stop := by simp only [DirtyRange.stop]; omega
  refine ⟨?_, ?_⟩
  · intro x hx
    obtain ⟨a, ha, hxa⟩ := List.mem_flatMap.1 hx
    exact (DirtyRange.mem_without (hc.nonempty a ha) hxa).2.2
  · refine List.pairwise_flatMap.2 ⟨fun a _ => a.apart_without hrange, ?_⟩
    refine List.Pairwise.imp_of_mem ?_ hc.apart
    intro a b ha hb hab x hx y hy
    have hxa := DirtyRange.mem_without (hc.nonempty a ha) hx
    have hyb := DirtyRange.mem_without (hc.nonempty b hb) hy
    omega

end ObjectFlush
