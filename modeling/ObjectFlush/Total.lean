/-!
Sizes that are added up over a list.
-/

namespace ObjectFlush

variable {α : Type}

/-- The sizes of the elements, added up. -/
def total (size : α → Nat) (xs : List α) : Nat := xs.foldr (fun x n => size x + n) 0

@[simp] theorem total_nil (size : α → Nat) : total size [] = 0 := rfl

@[simp] theorem total_cons (size : α → Nat) (x : α) (xs : List α) :
    total size (x :: xs) = size x + total size xs := rfl

theorem total_append (size : α → Nat) (xs ys : List α) :
    total size (xs ++ ys) = total size xs + total size ys := by
  induction xs with
  | nil => simp
  | cons x xs ih => rw [List.cons_append, total_cons, total_cons, ih, Nat.add_assoc]

end ObjectFlush
