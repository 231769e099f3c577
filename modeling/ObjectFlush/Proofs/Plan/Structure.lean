import Mathlib.Data.List.Permutation
import ObjectFlush.Proofs.Plan.Cutting

/-!
The shape of a plan. Every plan numbers its parts from one, tiles the file with them, keeps their
sizes within the bounds, and has only clean bytes copied: `plan_wellPlanned`.
-/

namespace ObjectFlush

namespace Portion

def span (p : Portion) : Nat × Nat := (p.offset, p.stop)

/-- The part as the run of bytes that it is. -/
def run (p : Portion) : Run := ⟨p.kind, p.offset, p.stop⟩

theorem length_run (p : Portion) : p.run.length = p.size := by
  simp [run, Run.length, stop]

end Portion

theorem length_number (pieces : List Run) : (number pieces).length = pieces.length := by
  simp [number]

theorem numbers_number (pieces : List Run) :
    (number pieces).map (·.number) = List.range' 1 pieces.length := by
  apply List.ext_getElem
  · simp [number]
  · intro i h₁ h₂
    simp [number, Nat.add_comm]

/-- Numbering pieces changes nothing about them. -/
theorem run_number {pieces : List Run} (h : ∀ r ∈ pieces, r.start ≤ r.stop) :
    (number pieces).map Portion.run = pieces := by
  apply List.ext_getElem
  · simp [number]
  · intro i h₁ h₂
    have := h pieces[i] (List.getElem_mem _)
    simp only [number, List.getElem_map, List.getElem_zipIdx, Portion.run, Portion.stop, Run.length]
    rw [Nat.add_sub_cancel' this]

theorem plan_eq_ok_iff {fileSize : Nat} {ranges : List DirtyRange} {b : PartBounds}
    {parts : List Portion} :
    plan fileSize ranges b = .ok parts ↔
      b.validate = .ok () ∧ parts.length ≤ b.maxParts ∧
        parts = number (pieces b (runs fileSize ranges b.mayCopy)) := by
  unfold plan
  cases hv : b.validate with
  | error e => simp [bind, Except.bind]
  | ok u =>
    simp only [bind, Except.bind, true_and]
    split
    · next hlt =>
      constructor
      · intro h; cases h
      · intro h
        obtain ⟨hle, hparts⟩ := h; subst hparts; omega
    · next hlt =>
      constructor
      · intro h; cases h; exact ⟨by omega, rfl⟩
      · rintro ⟨_, hparts⟩; rw [hparts]; rfl

/-- The parts of a plan, as runs, are cut from the file's. -/
theorem cut_of_plan {fileSize : Nat} {ranges : List DirtyRange} {b : PartBounds}
    {parts : List Portion} (h : plan fileSize ranges b = .ok parts) :
    Cut b (fun o => b.mayCopy = true ∧ ¬Dirty ranges o) 0 fileSize (parts.map Portion.run) := by
  obtain ⟨hv, -, rfl⟩ := plan_eq_ok_iff.1 h
  have hcut := (Laid.runs fileSize ranges b.mayCopy).cut (b.sizes_of_valid hv)
  rw [run_number fun r hr => Nat.le_of_lt (hcut.nonempty r hr)]
  exact hcut

/-- What the parts of a plan are like. -/
structure WellPlanned (fileSize : Nat) (ranges : List DirtyRange) (b : PartBounds)
    (parts : List Portion) : Prop where
  /-- They are numbered from one, in their order. -/
  numbers : parts.map (·.number) = List.range' 1 parts.length
  /-- They follow one another from the start of the file to its end. -/
  tiles : Tiles 0 fileSize (parts.map Portion.span)
  none : fileSize = 0 → parts = []
  nonempty : ∀ p ∈ parts, 0 < p.size
  ceiling : ∀ p ∈ parts, p.size ≤ b.maxSize
  floor : ∀ p ∈ parts.dropLast, b.minSize ≤ p.size
  /-- No dirty byte is copied. -/
  clean : ∀ p ∈ parts, p.kind = .copy → ∀ o, p.offset ≤ o → o < p.stop → ¬Dirty ranges o
  uploads : b.mayCopy = false → ∀ p ∈ parts, p.kind ≠ .copy

/-- Parts that are cut from the runs of a file, and numbered from one, are as those of a plan. -/
theorem Cut.wellPlanned {fileSize : Nat} {ranges : List DirtyRange} {b : PartBounds} {parts : List Portion}
    (hcut : Cut b (fun o => b.mayCopy = true ∧ ¬Dirty ranges o) 0 fileSize (parts.map Portion.run))
    (hnumbers : parts.map (·.number) = List.range' 1 parts.length) : WellPlanned fileSize ranges b parts := by
  have hnonempty : ∀ p ∈ parts, 0 < p.size := by
    intro p hp
    have := hcut.nonempty p.run (List.mem_map_of_mem hp)
    simp only [Portion.run, Portion.stop] at this; omega
  have htiles : Tiles 0 fileSize (parts.map Portion.span) := by
    have ht := hcut.tiles
    rw [List.map_map] at ht
    exact ht
  refine ⟨hnumbers, htiles, ?_, hnonempty, ?_, ?_, ?_, ?_⟩
  · rintro rfl
    -- A part would end past the end of the file.
    cases parts with
    | nil => rfl
    | cons p rest =>
      have hpos := hnonempty p (List.mem_cons_self ..)
      have hstop : p.stop ≤ 0 := htiles.2.2.le
      simp only [Portion.stop] at hstop
      omega
  · intro p hp
    rw [← p.length_run]
    exact hcut.ceiling p.run (List.mem_map_of_mem hp)
  · intro p hp
    have hfloor := hcut.floor
    rw [← List.map_dropLast] at hfloor
    rw [← p.length_run]
    exact hfloor p.run (List.mem_map_of_mem hp)
  · intro p hp hk o h₁ h₂
    exact (hcut.copied p.run (List.mem_map_of_mem hp) hk o h₁ h₂).2
  · intro hno p hp hk
    -- A copied part holds a byte, and a byte is copied only where copies are allowed.
    have hpos := hnonempty p hp
    have hstop : p.offset < p.stop := by simp only [Portion.stop]; omega
    have := (hcut.copied p.run (List.mem_map_of_mem hp) hk p.offset (Nat.le_refl _) hstop).1
    rw [hno] at this
    exact Bool.false_ne_true this

theorem numbers_of_plan {fileSize : Nat} {ranges : List DirtyRange} {b : PartBounds} {parts : List Portion}
    (h : plan fileSize ranges b = .ok parts) : parts.map (·.number) = List.range' 1 parts.length := by
  obtain ⟨-, -, rfl⟩ := plan_eq_ok_iff.1 h
  rw [numbers_number, length_number]

/-- **The shape of a plan.** Whatever the ranges and the bounds, the parts of a plan tile the file in
the order of their numbers, respect the bounds, and copy no dirty byte. -/
theorem plan_wellPlanned {fileSize : Nat} {ranges : List DirtyRange} {b : PartBounds}
    {parts : List Portion} (h : plan fileSize ranges b = .ok parts) :
    WellPlanned fileSize ranges b parts :=
  (cut_of_plan h).wellPlanned (numbers_of_plan h)

/-- Ranges out of order, twice the same, empty, and past the end; a short head that is padded with the
clean bytes and the dirty run behind it, and a run cut at the ceiling. -/
theorem plan_scattered_ranges :
    let ranges : List DirtyRange :=
      [⟨20, 1, 0⟩, ⟨7, 1, 0⟩, ⟨9, 0, 0⟩, ⟨0, 1, 0⟩, ⟨29, 40, 0⟩, ⟨0, 1, 3⟩]
    let bounds : PartBounds := ⟨5, 7, 10, true⟩
    let parts : List Portion := [⟨1, 0, 7, .upload⟩, ⟨2, 7, 5, .upload⟩, ⟨3, 12, 7, .copy⟩,
      ⟨4, 19, 5, .upload⟩, ⟨5, 24, 5, .copy⟩, ⟨6, 29, 1, .upload⟩]
    plan 30 ranges bounds = .ok parts ∧ WellPlanned 30 ranges bounds parts :=
  have h : plan 30 [⟨20, 1, 0⟩, ⟨7, 1, 0⟩, ⟨9, 0, 0⟩, ⟨0, 1, 0⟩, ⟨29, 40, 0⟩, ⟨0, 1, 3⟩]
      ⟨5, 7, 10, true⟩ = .ok [⟨1, 0, 7, .upload⟩, ⟨2, 7, 5, .upload⟩, ⟨3, 12, 7, .copy⟩,
        ⟨4, 19, 5, .upload⟩, ⟨5, 24, 5, .copy⟩, ⟨6, 29, 1, .upload⟩] := by cbv
  ⟨h, plan_wellPlanned h⟩

end ObjectFlush
