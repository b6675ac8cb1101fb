import Inn.Chain

/-!
# Inn.Dlist — both directions of a doubly linked list

The pointers forward are one chain, and the pointers back another one, from the last cell on. What
a list does when it gets or loses a cell is the same in either direction.

* `Chain.cut` — cutting any cell out, with what its neighbour points to then;
* `Chain.snoc` — a new last cell, which is a new first one the other way round.
-/

namespace Inn

variable {ι : Type*}

/-- Pointers to cells are told apart. -/
theorem distinct_some : Chain.Distinct none (some : ι → Option ι) :=
  ⟨fun _ _ h => Option.some.inj h, Option.some_ne_none⟩

/-- The pointer of a cell is to the one behind it. -/
theorem Chain.next_of_split {next : ι → Option ι} {p : Option ι} {before behind : List ι} {i : ι}
    (h : Chain none some next p (before ++ i :: behind)) : next i = behind.head? := by
  have hdrop := h.drop.2
  cases behind with
  | nil => exact hdrop
  | cons j behind => exact hdrop.1

/-- A chain begins at its first cell. -/
theorem Chain.head_eq {next : ι → Option ι} {p : Option ι} {l : List ι}
    (h : Chain none some next p l) : p = l.head? := by
  cases l with
  | nil => exact h
  | cons i l => exact h.1

/-- Cutting a cell out, whether or not it is the first one. -/
theorem Chain.cut [DecidableEq ι] {next : ι → Option ι} {p : Option ι} {before behind : List ι} {i : ι}
    (h : Chain none some next p (before ++ i :: behind)) :
    Chain none some
      (Function.update (before.getLast?.elim next fun b => Function.update next b (next i)) i none)
      (before.getLast?.elim (next i) fun _ => p) (before ++ behind) := by
  have hnodup := Chain.nodup distinct_some h
  have hi : i ∉ before ++ behind := by
    rw [List.nodup_middle] at hnodup
    exact (List.nodup_cons.mp hnodup).1
  have hne : ∀ j ∈ before ++ behind, j ≠ i := fun j hj hji => hi (hji ▸ hj)
  rcases List.eq_nil_or_concat before with rfl | ⟨pre, b, rfl⟩
  · exact h.2.congr fun j hj => Function.update_of_ne (hne j hj) _ _
  · rw [List.concat_eq_append] at h hne ⊢
    rw [List.append_assoc] at h
    rw [List.getLast?_concat]
    have hspliced := Chain.splice distinct_some h
    rw [List.append_assoc] at hne ⊢
    exact hspliced.congr fun j hj => Function.update_of_ne (hne j hj) _ _

/-- A chain with a new last cell. -/
theorem Chain.snoc [DecidableEq ι] {next : ι → Option ι} {p : Option ι} {l : List ι} {i : ι}
    (h : Chain none some next p l) (hi : i ∉ l) :
    Chain none some
      (Function.update (l.getLast?.elim next fun b => Function.update next b (some i)) i none)
      (some (p.getD i)) (l ++ [i]) := by
  induction l generalizing p with
  | nil =>
    rw [nil_iff.mp h]
    exact ⟨rfl, Function.update_self _ _ _⟩
  | cons j l ih =>
    obtain ⟨hij, hil⟩ := not_or.mp fun hor => hi (List.mem_cons.mpr hor)
    have hnodup := (List.nodup_cons.mp (Chain.nodup distinct_some h)).1
    rw [h.1]
    refine ⟨rfl, ?_⟩
    rw [Function.update_of_ne (Ne.symm hij)]
    cases l with
    | nil => exact ⟨Function.update_self _ _ _, Function.update_self _ _ _⟩
    | cons k l =>
      have hlast : (j :: k :: l).getLast? = (k :: l).getLast? := List.getLast?_cons_cons
      obtain ⟨b, hb⟩ : ∃ b, (k :: l).getLast? = some b := ⟨_, List.getLast?_eq_some_getLast (List.cons_ne_nil _ _)⟩
      have hjb : j ≠ b := fun hjb => hnodup (hjb ▸ List.mem_of_getLast? hb)
      have hrest := ih h.2 hil
      rw [hlast, hb]
      rw [hb] at hrest
      rw [Option.elim_some, Function.update_of_ne hjb, h.2.1]
      rw [h.2.1] at hrest
      exact hrest

end Inn
