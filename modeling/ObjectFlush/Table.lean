/-!
Finite maps as lists of pairs, newest first. Setting a name forgets what it stood for before, so a
name occurs at most once in a table built from the empty one.
-/

namespace ObjectFlush

abbrev Table (α β : Type) := List (α × β)

namespace Table

variable {α β : Type} [DecidableEq α]

/-- What a name stands for. -/
def get? (a : α) : Table α β → Option β
  | [] => none
  | (k, v) :: rest => if k = a then some v else get? a rest

/-- The table without a name. -/
def erase (a : α) (t : Table α β) : Table α β := t.filter (·.1 ≠ a)

/-- The table in which `a` stands for `b`. -/
def set (a : α) (b : β) (t : Table α β) : Table α β := (a, b) :: t.erase a

/-- The names that stand for something. -/
def names (t : Table α β) : List α := t.map (·.1)

theorem get?_erase (a x : α) (t : Table α β) :
    get? x (erase a t) = if x = a then none else get? x t := by
  induction t with
  | nil => simp [erase, get?]
  | cons e rest ih =>
    obtain ⟨k, v⟩ := e
    by_cases hk : k = a
    · subst hk
      have : erase k ((k, v) :: rest) = erase k rest := by simp [erase]
      rw [this, ih]
      by_cases hx : x = k
      · simp [hx]
      · simp [hx, get?, Ne.symm hx]
    · have : erase a ((k, v) :: rest) = (k, v) :: erase a rest := by simp [erase, hk]
      rw [this]
      by_cases hx : k = x
      · subst hx; simp [get?, hk]
      · simp [get?, hx, ih]

theorem get?_set (a x : α) (b : β) (t : Table α β) :
    get? x (set a b t) = if x = a then some b else get? x t := by
  by_cases hx : a = x
  · subst hx; simp [set, get?]
  · have : ¬x = a := fun h => hx h.symm
    simp [set, get?, hx, this, get?_erase]

theorem mem_names_iff {t : Table α β} {a : α} : a ∈ t.names ↔ ∃ b, t.get? a = some b := by
  induction t with
  | nil => simp [names, get?]
  | cons e t ih =>
    obtain ⟨k, v⟩ := e
    by_cases hk : k = a
    · simp [names, get?, hk]
    · have hne : a ≠ k := fun h => hk h.symm
      simpa [names, get?, hk, hne] using ih

theorem nodup_names_erase (a : α) {t : Table α β} (h : t.names.Nodup) : (t.erase a).names.Nodup :=
  h.sublist (List.filter_sublist.map _)

theorem nodup_names_set (a : α) (b : β) {t : Table α β} (h : t.names.Nodup) :
    (t.set a b).names.Nodup :=
  List.nodup_cons.2 ⟨by simp [erase], nodup_names_erase a h⟩

end Table

end ObjectFlush
