import Mathlib.Data.List.Basic

/-!
# Inn.Lines — the lines of a stream

A line is everything up to and including the next end mark.

* `completeLines` — the lines of a stream that have their end mark, and
  `completeLines_flatten`, which says that there is one way to cut it into them;
* `memchr` — the place of the first end mark, with `memchr_append`.
-/

namespace Inn

variable {α : Type*} [DecidableEq α]

/-- A line with its end mark. -/
def IsLine (e : α) (l : List α) : Prop := ∃ body, l = body ++ [e] ∧ e ∉ body

/-- The complete lines, where `acc` is the beginning of the first one. -/
def linesFrom (e : α) (acc : List α) : List α → List (List α)
  | [] => []
  | c :: cs => if c = e then (acc ++ [c]) :: linesFrom e [] cs else linesFrom e (acc ++ [c]) cs

/-- The lines of a stream that are complete. -/
def completeLines (e : α) (l : List α) : List (List α) := linesFrom e [] l

/-- Where the first end mark stands. -/
def memchr (e : α) (l : List α) : Option ℕ := l.findIdx? (· == e)

section Lines

variable {e : α} {l rest body acc : List α} {ls : List (List α)} {k : ℕ}

omit [DecidableEq α] in
/-- A line behind text without an end mark. -/
theorem IsLine.append_left (h : IsLine e l) (hno : e ∉ rest) : IsLine e (rest ++ l) := by
  obtain ⟨body, rfl, hbody⟩ := h
  refine ⟨rest ++ body, (List.append_assoc rest body [e]).symm, fun hmem => ?_⟩
  rcases List.mem_append.mp hmem with hmem | hmem
  · exact hno hmem
  · exact hbody hmem

theorem linesFrom_body (h : e ∉ body) :
    linesFrom e acc (body ++ e :: rest) = (acc ++ body ++ [e]) :: linesFrom e [] rest := by
  induction body generalizing acc with
  | nil => rw [List.nil_append, linesFrom, if_pos rfl, List.append_nil]
  | cons c body ih =>
    rw [List.mem_cons, not_or] at h
    rw [List.cons_append, linesFrom, if_neg (Ne.symm h.1), ih h.2, List.append_assoc acc]
    rfl

theorem linesFrom_of_not_mem (h : e ∉ l) : linesFrom e acc l = [] := by
  induction l generalizing acc with
  | nil => rfl
  | cons c l ih =>
    rw [List.mem_cons, not_or] at h
    rw [linesFrom, if_neg (Ne.symm h.1), ih h.2]

/-- There is one way to cut a stream into lines. -/
theorem completeLines_flatten (hls : ∀ l ∈ ls, IsLine e l) (rest : List α) :
    completeLines e (ls.flatten ++ rest) = ls ++ completeLines e rest := by
  induction ls with
  | nil => rfl
  | cons l ls ih =>
    obtain ⟨body, rfl, hbody⟩ := hls l List.mem_cons_self
    rw [List.flatten_cons, List.append_assoc, List.append_assoc, List.singleton_append,
      completeLines, linesFrom_body hbody, List.nil_append, List.cons_append]
    exact congrArg _ (ih fun l' hl' => hls l' (List.mem_cons_of_mem _ hl'))

/-- The place of the end mark behind a text without one. -/
theorem memchr_append (h : e ∉ l) (rest : List α) : memchr e (l ++ e :: rest) = some l.length := by
  induction l with
  | nil => exact List.findIdx?_cons.trans (if_pos (beq_self_eq_true e))
  | cons c l ih =>
    rw [List.mem_cons, not_or] at h
    have := ih h.2
    rw [memchr] at this ⊢
    rw [List.cons_append, List.findIdx?_cons, this, beq_eq_false_iff_ne.mpr (Ne.symm h.1),
      if_neg Bool.false_ne_true]
    rfl

theorem memchr_eq_none (h : memchr e l = none) : e ∉ l := fun hmem => by
  have := List.findIdx?_eq_none_iff.mp h e hmem
  rw [beq_self_eq_true] at this
  cases this

theorem memchr_eq_some (h : memchr e l = some k) : k < l.length ∧ IsLine e (l.take (k + 1)) := by
  obtain ⟨hk, hat, hbefore⟩ := List.findIdx?_eq_some_iff_getElem.mp h
  refine ⟨hk, l.take k, ?_, fun hmem => ?_⟩
  · rw [List.take_add_one, List.getElem?_eq_getElem hk, Option.toList_some, eq_of_beq hat]
  · obtain ⟨j, hj, hget⟩ := List.mem_iff_getElem.mp hmem
    rw [List.length_take] at hj
    rw [List.getElem_take] at hget
    exact hbefore j (by omega) (beq_iff_eq.mpr hget)

end Lines

end Inn
