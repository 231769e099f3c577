import ObjectFlush.Plan.Run
import ObjectFlush.Proofs.Dirty.Canonical

/-!
The runs of a file tile it, and no run that is copied holds a dirty byte.

  1. The intervals that ranges cover inside a file come sorted (`clipped_sorted`), and joining them
     leaves them apart over the same bytes (`joinFrom_spec`).
  2. `Laid.runs`: the runs tile `[0, fileSize)`, the last one holds a byte, and only clean bytes are
     copied, none at all where copies are not allowed.
-/

namespace ObjectFlush

/-- Spans that follow one another from `start` to `stop`. -/
def Tiles : (start stop : Nat) → List (Nat × Nat) → Prop
  | start, stop, [] => start = stop
  | start, stop, (s, e) :: rest => s = start ∧ s ≤ e ∧ Tiles e stop rest

theorem Tiles.le {start stop : Nat} {spans : List (Nat × Nat)} (h : Tiles start stop spans) :
    start ≤ stop := by
  induction spans generalizing start with
  | nil => exact Nat.le_of_eq h
  | cons p rest ih =>
    obtain ⟨hs, hle, hrest⟩ := h
    have := ih hrest
    omega

namespace Run

def span (r : Run) : Nat × Nat := (r.start, r.stop)

/-- Whether one of the intervals holds the byte at `o`. -/
def Within (intervals : List (Nat × Nat)) (o : Nat) : Prop :=
  ∃ p ∈ intervals, p.1 ≤ o ∧ o < p.2

@[simp] theorem within_nil (o : Nat) : ¬Within [] o := by simp [Within]

@[simp] theorem within_cons (p : Nat × Nat) (rest : List (Nat × Nat)) (o : Nat) :
    Within (p :: rest) o ↔ (p.1 ≤ o ∧ o < p.2) ∨ Within rest o := by simp [Within]

/-- An interval that starts inside a file and ends there. -/
def Inside (fileSize : Nat) (p : Nat × Nat) : Prop := p.1 < fileSize ∧ p.1 ≤ p.2 ∧ p.2 ≤ fileSize

/-- Intervals inside a file from `low` on, in ascending order, a byte between any two. -/
def Apart (fileSize : Nat) : (low : Nat) → List (Nat × Nat) → Prop
  | _, [] => True
  | low, p :: rest => low ≤ p.1 ∧ Inside fileSize p ∧ Apart fileSize (p.2 + 1) rest

theorem Apart.mono {fileSize low low' : Nat} {intervals : List (Nat × Nat)}
    (h : Apart fileSize low intervals) (hle : low' ≤ low) : Apart fileSize low' intervals := by
  cases intervals with
  | nil => trivial
  | cons p rest => exact ⟨Nat.le_trans hle h.1, h.2⟩

theorem Apart.low_le {fileSize low : Nat} {intervals : List (Nat × Nat)}
    (h : Apart fileSize low intervals) {o : Nat} (ho : Within intervals o) : low ≤ o := by
  induction intervals generalizing low with
  | nil => exact absurd ho (within_nil o)
  | cons p rest ih =>
    obtain ⟨hlow, hin, hrest⟩ := h
    simp only [Inside] at hin
    rcases (within_cons p rest o).1 ho with h | h
    · omega
    · have := ih hrest h
      omega

/-! ## The intervals that ranges cover -/

theorem within_clipped (fileSize : Nat) (ranges : List DirtyRange) (o : Nat) :
    Within (clipped fileSize ranges) o ↔ Dirty ranges o ∧ o < fileSize := by
  simp only [Within, clipped, List.mem_mergeSort, List.mem_map, List.mem_filter, decide_eq_true_eq]
  constructor
  · intro h
    obtain ⟨p, ⟨r, ⟨hr, hs⟩, hp⟩, hstart, hstop⟩ := h
    subst hp
    obtain ⟨hlt, ho⟩ := Nat.lt_min.1 hstop
    exact ⟨⟨r, hr, hstart, hlt⟩, ho⟩
  · intro h
    obtain ⟨⟨r, hr, hstart, hstop⟩, ho⟩ := h
    exact ⟨_, ⟨r, ⟨hr, Nat.lt_of_le_of_lt hstart ho⟩, rfl⟩, hstart, Nat.lt_min.2 ⟨hstop, ho⟩⟩

theorem clipped_inside (fileSize : Nat) (ranges : List DirtyRange) :
    ∀ p ∈ clipped fileSize ranges, Inside fileSize p := by
  intro p hp
  simp only [clipped, List.mem_mergeSort, List.mem_map, List.mem_filter, decide_eq_true_eq] at hp
  obtain ⟨r, ⟨_, hs⟩, rfl⟩ := hp
  refine ⟨hs, ?_, Nat.min_le_right _ _⟩
  simp only [DirtyRange.stop]; omega

theorem clipped_sorted (fileSize : Nat) (ranges : List DirtyRange) :
    (clipped fileSize ranges).Pairwise fun a b => a.1 ≤ b.1 := by
  refine (List.pairwise_mergeSort ?_ ?_ _).imp ?_
  · intro a b c hab hbc
    simp only [Bool.or_eq_true, Bool.and_eq_true, decide_eq_true_eq, beq_iff_eq] at *
    omega
  · intro a b
    simp only [Bool.or_eq_true, Bool.and_eq_true, decide_eq_true_eq, beq_iff_eq]
    omega
  · intro a b hab
    simp only [Bool.or_eq_true, Bool.and_eq_true, decide_eq_true_eq, beq_iff_eq] at hab
    omega

/-- Joining goes upwards from an interval that starts before all others. -/
theorem joinFrom_spec {fileSize : Nat} {rest : List (Nat × Nat)} :
    ∀ {start stop : Nat}, Inside fileSize (start, stop) → (∀ p ∈ rest, Inside fileSize p) →
      (∀ p ∈ rest, start ≤ p.1) → rest.Pairwise (fun a b => a.1 ≤ b.1) →
      Apart fileSize start (joinFrom start stop rest) ∧
        ∀ o, Within (joinFrom start stop rest) o ↔ (start ≤ o ∧ o < stop) ∨ Within rest o := by
  induction rest with
  | nil =>
    intro start stop hin _ _ _
    exact ⟨⟨Nat.le_refl _, hin, trivial⟩, by simp [joinFrom]⟩
  | cons p rest ih =>
    intro start stop hin hall hlow hsorted
    obtain ⟨s, e⟩ := p
    obtain ⟨hp, hall⟩ := List.forall_mem_cons.1 hall
    obtain ⟨hs, hlow⟩ := List.forall_mem_cons.1 hlow
    obtain ⟨hhead, hsorted⟩ := List.pairwise_cons.1 hsorted
    simp only [Inside] at hin hp hs
    simp only [joinFrom]
    split
    · next he =>
      obtain ⟨h₁, h₂⟩ := ih (show Inside fileSize (start, stop) from hin) hall hlow hsorted
      -- The interval lies inside the one before it.
      have hcover : ∀ o, (start ≤ o ∧ o < stop) ∨ (s ≤ o ∧ o < e) ↔ start ≤ o ∧ o < stop := by
        intro o; omega
      refine ⟨h₁, fun o => ?_⟩
      rw [h₂, within_cons, ← or_assoc, hcover]
    · next he =>
      split
      · next hjoin =>
        have hgrown : Inside fileSize (start, e) := ⟨hin.1, by simp only; omega, hp.2.2⟩
        obtain ⟨h₁, h₂⟩ := ih hgrown hall hlow hsorted
        have hcover : ∀ o, (start ≤ o ∧ o < stop) ∨ (s ≤ o ∧ o < e) ↔ start ≤ o ∧ o < e := by
          intro o; omega
        refine ⟨h₁, fun o => ?_⟩
        rw [h₂, within_cons, ← or_assoc, hcover]
      · next hgap =>
        obtain ⟨h₁, h₂⟩ := ih (show Inside fileSize (s, e) from hp) hall hhead hsorted
        refine ⟨⟨Nat.le_refl _, hin, h₁.mono (by simp only; omega)⟩, fun o => ?_⟩
        rw [within_cons, h₂, within_cons]

theorem join_spec {fileSize : Nat} {intervals : List (Nat × Nat)}
    (hall : ∀ p ∈ intervals, Inside fileSize p)
    (hsorted : intervals.Pairwise fun a b => a.1 ≤ b.1) :
    Apart fileSize 0 (join intervals) ∧ ∀ o, Within (join intervals) o ↔ Within intervals o := by
  induction intervals with
  | nil => exact ⟨trivial, fun o => Iff.rfl⟩
  | cons p rest ih =>
    obtain ⟨s, e⟩ := p
    obtain ⟨hp, hall⟩ := List.forall_mem_cons.1 hall
    obtain ⟨hhead, hsorted⟩ := List.pairwise_cons.1 hsorted
    simp only [join]
    split
    · next he =>
      obtain ⟨h₁, h₂⟩ := ih hall hsorted
      refine ⟨h₁, fun o => ?_⟩
      rw [h₂, within_cons]
      apply Iff.symm
      apply or_iff_right
      intro h
      simp only [he] at h
      omega
    · obtain ⟨h₁, h₂⟩ := joinFrom_spec hp hall hhead hsorted
      exact ⟨h₁.mono (Nat.zero_le _), fun o => by rw [h₂, within_cons]⟩

end Run

/-! ## The runs -/

/-- Runs that tile `[start, stop)`, the last of which holds a byte, and that copy clean bytes only.
This is what cutting them into pieces relies on, and what it keeps for the runs that are left. -/
structure Laid (clean : Nat → Prop) (start stop : Nat) (runs : List Run) : Prop where
  tiles : Tiles start stop (runs.map Run.span)
  copied : ∀ r ∈ runs, r.kind = .copy → ∀ o, r.start ≤ o → o < r.stop → clean o
  last : ∀ r ∈ runs.getLast?, r.start < r.stop

namespace Laid

variable {clean : Nat → Prop} {start stop : Nat}

theorem nil_iff : Laid clean start stop [] ↔ start = stop :=
  ⟨fun h => h.tiles, fun h => ⟨h, by simp, by simp⟩⟩

theorem cons_iff {r : Run} {rest : List Run} :
    Laid clean start stop (r :: rest) ↔
      r.start = start ∧ r.start ≤ r.stop ∧
        (r.kind = .copy → ∀ o, r.start ≤ o → o < r.stop → clean o) ∧
        (rest = [] → r.start < r.stop) ∧ Laid clean r.stop stop rest := by
  constructor
  · intro h
    obtain ⟨hs, hle, hrest⟩ := h.tiles
    refine ⟨hs, hle, h.copied r (by simp), ?_, hrest, fun x hx => h.copied x (by simp [hx]), ?_⟩
    · intro hnil
      exact h.last r (by simp [hnil])
    · intro x hx
      cases rest with
      | nil => simp at hx
      | cons y ys => exact h.last x (by simpa using hx)
  · intro h
    obtain ⟨hs, hle, hcopy, hlast, hrest⟩ := h
    refine ⟨⟨hs, hle, hrest.tiles⟩, ?_, ?_⟩
    · intro x hx
      rcases List.mem_cons.1 hx with rfl | hx
      · exact hcopy
      · exact hrest.copied x hx
    · intro x hx
      cases rest with
      | nil =>
        obtain rfl : r = x := by simpa using hx
        exact hlast rfl
      | cons y ys => exact hrest.last x (by simpa using hx)

end Laid

namespace Run

/-- Between intervals that stand apart, everything is copied; nothing else is. -/
theorem laid_alternate {clean : Nat → Prop} {fileSize : Nat} {intervals : List (Nat × Nat)} :
    ∀ {cursor low : Nat}, cursor ≤ low → cursor ≤ fileSize → Apart fileSize low intervals →
      (∀ o, cursor ≤ o → o < fileSize → ¬Within intervals o → clean o) →
      Laid clean cursor fileSize (alternate fileSize cursor intervals) := by
  induction intervals with
  | nil =>
    intro cursor low _ hfile _ hclean
    simp only [alternate]
    split
    · next hlt =>
      refine Laid.cons_iff.2 ⟨rfl, hfile, fun _ o h₁ h₂ => hclean o h₁ h₂ (by simp),
        fun _ => hlt, Laid.nil_iff.2 rfl⟩
    · next hlt => exact Laid.nil_iff.2 (by omega)
  | cons p rest ih =>
    intro cursor low hlow hfile hap hclean
    obtain ⟨s, e⟩ := p
    obtain ⟨hs, hin, hap⟩ := hap
    simp only [Inside] at hs hin hap
    have hrest : Laid clean e fileSize (alternate fileSize e rest) := by
      refine ih (Nat.le_succ e) hin.2.2 hap fun o h₁ h₂ h₃ => hclean o (by omega) h₂ ?_
      rw [within_cons, not_or]
      refine ⟨?_, h₃⟩
      simp only; omega
    have hupload : Laid clean s fileSize (⟨.upload, s, e⟩ :: alternate fileSize e rest) := by
      refine Laid.cons_iff.2 ⟨rfl, hin.2.1, by simp, fun hnil => ?_, hrest⟩
      -- Nothing follows the interval, so it reaches the end of the file, before which it starts.
      have : e = fileSize := by rw [hnil] at hrest; exact Laid.nil_iff.1 hrest
      simp only; omega
    simp only [alternate]
    split
    · next hlt =>
      refine Laid.cons_iff.2 ⟨rfl, Nat.le_of_lt hlt, fun _ o h₁ h₂ => ?_, fun h => by simp at h,
        hupload⟩
      simp only at h₁ h₂
      refine hclean o h₁ (by omega) ?_
      rw [within_cons, not_or]
      refine ⟨by simp only; omega, ?_⟩
      intro h
      have := hap.low_le h
      omega
    · next hlt =>
      have : cursor = s := by omega
      rw [this]; exact hupload

end Run

/-- Without copies, the only run is uploaded; with them, what is copied is not dirty. -/
theorem Laid.runs (fileSize : Nat) (ranges : List DirtyRange) (mayCopy : Bool) :
    Laid (fun o => mayCopy = true ∧ ¬Dirty ranges o) 0 fileSize (runs fileSize ranges mayCopy) := by
  unfold ObjectFlush.runs
  split
  · next h => exact Laid.nil_iff.2 h.symm
  · next h =>
    split
    · next hcopy =>
      obtain ⟨hap, hwithin⟩ := Run.join_spec (Run.clipped_inside fileSize ranges)
        (Run.clipped_sorted fileSize ranges)
      refine Run.laid_alternate (Nat.le_refl 0) (Nat.zero_le _) hap fun o _ ho hclean => ⟨hcopy, ?_⟩
      intro hdirty
      exact hclean ((hwithin o).2 ((Run.within_clipped fileSize ranges o).2 ⟨hdirty, ho⟩))
    · refine Laid.cons_iff.2 ⟨rfl, Nat.zero_le _, by simp, fun _ => ?_, Laid.nil_iff.2 rfl⟩
      simp only; omega

end ObjectFlush
