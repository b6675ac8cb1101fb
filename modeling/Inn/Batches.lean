import Mathlib.Algebra.BigOperators.Group.List.Basic
import Mathlib.Algebra.GroupWithZero.Nat

/-!
# Inn.Batches — what fits of a list

`fitting size room l` is the part of `l`, from its start, that is taken while there is
room, each element taking up some of it.
-/

namespace Inn

universe u

variable {α : Type u} {size : α → ℕ} {room : ℕ} {l : List α}

/-- Elements from the start, until one does not fit any more. -/
def fitting (size : α → ℕ) : ℕ → List α → List α
  | _, [] => []
  | room, a :: l => if size a ≤ room then a :: fitting size (room - size a) l else []

@[simp] theorem fitting_nil : fitting size room [] = [] := rfl

theorem fitting_cons_of_le {a : α} (h : size a ≤ room) :
    fitting size room (a :: l) = a :: fitting size (room - size a) l := if_pos h

theorem fitting_cons_of_lt {a : α} (h : room < size a) : fitting size room (a :: l) = [] :=
  if_neg (Nat.not_le.mpr h)

theorem fitting_prefix : fitting size room l <+: l := by
  induction l generalizing room with
  | nil => exact List.prefix_rfl
  | cons a l ih =>
    by_cases h : size a ≤ room
    · rw [fitting_cons_of_le h]
      exact (List.prefix_cons_inj a).mpr ih
    · rw [fitting_cons_of_lt (Nat.not_le.mp h)]
      exact List.nil_prefix

theorem sum_fitting_le : ((fitting size room l).map size).sum ≤ room := by
  induction l generalizing room with
  | nil => exact Nat.zero_le _
  | cons a l ih =>
    by_cases h : size a ≤ room
    · rw [fitting_cons_of_le h, List.map_cons, List.sum_cons]
      have := @ih (room - size a)
      omega
    · rw [fitting_cons_of_lt (Nat.not_le.mp h)]
      exact Nat.zero_le _

/-- Everything is taken if there is room for everything. -/
theorem fitting_eq_self (h : (l.map size).sum ≤ room) : fitting size room l = l := by
  induction l generalizing room with
  | nil => rfl
  | cons a l ih =>
    rw [List.map_cons, List.sum_cons] at h
    rw [fitting_cons_of_le (by omega), ih (by omega)]

/-- Something is taken if there is room for the first element. -/
theorem fitting_ne_nil (hl : l ≠ []) (h : ∀ a ∈ l.head?, size a ≤ room) :
    fitting size room l ≠ [] := by
  cases l with
  | nil => exact absurd rfl hl
  | cons a l =>
    rw [fitting_cons_of_le (h a rfl)]
    exact List.cons_ne_nil _ _

end Inn
