import Mathlib.Data.List.Basic

/-!
# Inn.Firsts — the first elements with a key

Of the elements with one key the first is taken. A program finds out by an index of the keys
it took, which may be wrong.

* `firsts` — the elements taken;
* `selected` — those a program takes by its index;
* `selected_keys_iff` — the indexes that take the right ones.
-/

namespace Inn

variable {α κ δ : Type*} [DecidableEq κ]

/-- The first element with each key, apart from the keys seen before. -/
def firsts (key : α → κ) : List κ → List α → List α
  | _, [] => []
  | seen, a :: l =>
    if key a ∈ seen then firsts key (key a :: seen) l else a :: firsts key (key a :: seen) l

omit [DecidableEq κ] in
/-- The elements whose keys are not found in the index when they come. -/
def selected (found : δ → κ → Bool) (insert : δ → κ → δ) (key : α → κ) : δ → List α → List α
  | _, [] => []
  | d, a :: l =>
    if found d (key a) then selected found insert key d l
    else a :: selected found insert key (insert d (key a)) l

omit [DecidableEq κ] in
/-- The index when the elements have come. -/
def indexAfter (found : δ → κ → Bool) (insert : δ → κ → δ) (key : α → κ) : δ → List α → δ
  | d, [] => d
  | d, a :: l =>
    if found d (key a) then indexAfter found insert key d l
    else indexAfter found insert key (insert d (key a)) l

/-- The index finds a key just where it came before. -/
def Tells (found : δ → κ → Bool) (insert : δ → κ → δ) : δ → List κ → List κ → Prop
  | _, _, [] => True
  | d, seen, k :: ks => (found d k = true ↔ k ∈ seen) ∧
      Tells found insert (if k ∈ seen then d else insert d k) (k :: seen) ks

section Firsts

variable {key : α → κ} {seen : List κ} {l m : List α} {a : α}

theorem firsts_cons (key : α → κ) (seen : List κ) (a : α) (l : List α) :
    firsts key seen (a :: l) =
      if key a ∈ seen then firsts key (key a :: seen) l
      else a :: firsts key (key a :: seen) l := rfl

theorem firsts_append (key : α → κ) (seen : List κ) (l m : List α) :
    firsts key seen (l ++ m) = firsts key seen l ++ firsts key ((l.map key).reverse ++ seen) m := by
  induction l generalizing seen with
  | nil => rfl
  | cons a l ih =>
    have hseen : (l.map key).reverse ++ key a :: seen = ((a :: l).map key).reverse ++ seen := by
      rw [List.map_cons, List.reverse_cons, List.append_assoc, List.singleton_append]
    rw [List.cons_append, firsts_cons, firsts_cons, ih, hseen]
    split <;> rfl

/-- A key that was seen is not taken again. -/
theorem key_ne_of_mem_firsts (ha : a ∈ firsts key seen l) : key a ∉ seen := by
  induction l generalizing seen with
  | nil => cases ha
  | cons b l ih =>
    rw [firsts_cons] at ha
    split at ha
    · exact fun h => ih ha (List.mem_cons_of_mem _ h)
    · rename_i hb
      rcases List.mem_cons.mp ha with rfl | ha
      · exact hb
      · exact fun h => ih ha (List.mem_cons_of_mem _ h)

theorem firsts_eq_nil_iff : firsts key seen l = [] ↔ ∀ a ∈ l, key a ∈ seen := by
  induction l generalizing seen with
  | nil => exact iff_of_true rfl fun a ha => absurd ha List.not_mem_nil
  | cons b l ih =>
    rw [firsts_cons, List.forall_mem_cons]
    split
    · rename_i hb
      rw [ih]
      constructor
      · intro h
        refine ⟨hb, fun a ha => ?_⟩
        rcases List.mem_cons.mp (h a ha) with heq | hmem
        · exact heq ▸ hb
        · exact hmem
      · exact fun h a ha => List.mem_cons_of_mem _ (h.2 a ha)
    · rename_i hb
      exact iff_of_false (List.cons_ne_nil _ _) fun h => hb h.1

end Firsts

section Selected

variable {found : δ → κ → Bool} {insert : δ → κ → δ} {key : α → κ} {d : δ} {seen : List κ}
  {l : List α}

omit [DecidableEq κ] in
theorem selected_cons (d : δ) (a : α) (l : List α) :
    selected found insert key d (a :: l) =
      if found d (key a) then selected found insert key d l
      else a :: selected found insert key (insert d (key a)) l := rfl

omit [DecidableEq κ] in
theorem indexAfter_cons (d : δ) (a : α) (l : List α) :
    indexAfter found insert key d (a :: l) =
      if found d (key a) then indexAfter found insert key d l
      else indexAfter found insert key (insert d (key a)) l := rfl

theorem tells_cons (d : δ) (seen : List κ) (k : κ) (ks : List κ) :
    Tells found insert d seen (k :: ks) ↔ (found d k = true ↔ k ∈ seen) ∧
      Tells found insert (if k ∈ seen then d else insert d k) (k :: seen) ks := Iff.rfl

omit [DecidableEq κ] in
theorem selected_append (d : δ) (l m : List α) :
    selected found insert key d (l ++ m) = selected found insert key d l ++
      selected found insert key (indexAfter found insert key d l) m := by
  induction l generalizing d with
  | nil => rfl
  | cons a l ih =>
    rw [List.cons_append, selected_cons, selected_cons, indexAfter_cons]
    split
    · exact ih d
    · rw [ih, List.cons_append]

omit [DecidableEq κ] in
theorem indexAfter_append (d : δ) (l m : List α) :
    indexAfter found insert key d (l ++ m) =
      indexAfter found insert key (indexAfter found insert key d l) m := by
  induction l generalizing d with
  | nil => rfl
  | cons a l ih =>
    rw [List.cons_append, indexAfter_cons, indexAfter_cons]
    split
    · exact ih d
    · exact ih _

omit [DecidableEq κ] in
/-- A key that is found is not taken, where the index never loses a key. -/
theorem not_mem_selected (hmono : ∀ d k k', found d k' = true → found (insert d k) k' = true)
    {k : κ} (hk : found d k = true) : k ∉ (selected found insert key d l).map key := by
  induction l generalizing d with
  | nil => exact List.not_mem_nil
  | cons a l ih =>
    rw [selected_cons]
    split
    · exact ih hk
    · rename_i ha
      rw [List.map_cons, List.mem_cons]
      rintro (rfl | h)
      · exact ha hk
      · exact ih (hmono d (key a) k hk) h

/-- The program takes the keys that are right to take just where its index tells what came
before. -/
theorem selected_keys_iff (hmono : ∀ d k k', found d k' = true → found (insert d k) k' = true) :
    (selected found insert key d l).map key = (firsts key seen l).map key ↔
      Tells found insert d seen (l.map key) := by
  induction l generalizing d seen with
  | nil => exact iff_of_true rfl trivial
  | cons a l ih =>
    rw [selected_cons, firsts_cons, List.map_cons, tells_cons]
    by_cases hf : found d (key a) = true
    · rw [if_pos hf]
      by_cases hs : key a ∈ seen
      · rw [if_pos hs, if_pos hs, ih]
        exact ⟨fun h => ⟨iff_of_true hf hs, h⟩, fun h => h.2⟩
      · -- the first element with its key is left out
        rw [if_neg hs]
        refine iff_of_false (fun h => ?_) fun h => hs (h.1.mp hf)
        have hnot := @not_mem_selected _ _ _ _ _ key _ l hmono _ hf
        rw [h] at hnot
        exact hnot List.mem_cons_self
    · rw [if_neg hf]
      by_cases hs : key a ∈ seen
      · -- an element is taken whose key came before
        rw [if_pos hs]
        refine iff_of_false (fun h => ?_) fun h => hf (h.1.mpr hs)
        have hmem : key a ∈ (firsts key (key a :: seen) l).map key := h ▸ List.mem_cons_self
        obtain ⟨b, hb, hkey⟩ := List.mem_map.mp hmem
        exact key_ne_of_mem_firsts hb (hkey ▸ List.mem_cons_self)
      · rw [if_neg hs, if_neg hs, List.map_cons, List.map_cons, List.cons.injEq, ih]
        exact ⟨fun h => ⟨iff_of_false hf hs, h.2⟩, fun h => ⟨rfl, h.2⟩⟩

/-- Where the index tells what came before, the program takes the first elements. -/
theorem Tells.selected_eq (h : Tells found insert d seen (l.map key)) :
    selected found insert key d l = firsts key seen l := by
  induction l generalizing d seen with
  | nil => rfl
  | cons a l ih =>
    rw [List.map_cons, tells_cons] at h
    rw [selected_cons, firsts_cons]
    by_cases hs : key a ∈ seen
    · rw [if_pos (h.1.mpr hs), if_pos hs]
      rw [if_pos hs] at h
      exact ih h.2
    · rw [if_neg fun hf => hs (h.1.mp hf), if_neg hs]
      rw [if_neg hs] at h
      rw [ih h.2]

omit [DecidableEq κ] in
theorem mem_of_mem_selected {a : α} (ha : a ∈ selected found insert key d l) : a ∈ l := by
  induction l generalizing d with
  | nil => cases ha
  | cons b l ih =>
    rw [selected_cons] at ha
    split at ha
    · exact List.mem_cons_of_mem _ (ih ha)
    · rcases List.mem_cons.mp ha with rfl | ha
      · exact List.mem_cons_self
      · exact List.mem_cons_of_mem _ (ih ha)

/-- Where the index tells what came before, and the rest brings no new key, the program takes
the first of all elements. -/
theorem Tells.selected_eq_append {m : List α} (h : Tells found insert d [] (l.map key))
    (hm : ∀ a ∈ m, key a ∈ l.map key) :
    selected found insert key d l = firsts key [] (l ++ m) := by
  have hnil : firsts key ((l.map key).reverse ++ []) m = [] := by
    rw [firsts_eq_nil_iff]
    intro a ha
    rw [List.append_nil, List.mem_reverse]
    exact hm a ha
  rw [firsts_append, hnil, List.append_nil, h.selected_eq]

/-- A program that sees a part of the elements only takes the right keys of all of them just
where its index tells what came before and the rest brings no new key. -/
theorem selected_keys_append_iff
    (hmono : ∀ d k k', found d k' = true → found (insert d k) k' = true) (l m : List α) :
    (selected found insert key d l).map key = (firsts key [] (l ++ m)).map key ↔
      Tells found insert d [] (l.map key) ∧ ∀ a ∈ m, key a ∈ l.map key := by
  refine ⟨fun h => ?_, fun h => congrArg (List.map key) (h.1.selected_eq_append h.2)⟩
  rw [firsts_append, List.map_append, List.append_nil] at h
  have hnil : firsts key (l.map key).reverse m = [] := by
    -- what the rest adds has a key that no element taken has
    rw [List.eq_nil_iff_forall_not_mem]
    intro a ha
    have hmem : key a ∈ (selected found insert key d l).map key := by
      rw [h]
      exact List.mem_append_right _ (List.mem_map_of_mem ha)
    obtain ⟨b, hb, hkey⟩ := List.mem_map.mp hmem
    refine key_ne_of_mem_firsts ha ?_
    rw [List.mem_reverse, ← hkey]
    exact List.mem_map_of_mem (mem_of_mem_selected hb)
  rw [hnil, List.map_nil, List.append_nil, selected_keys_iff hmono] at h
  refine ⟨h, fun a ha => ?_⟩
  exact List.mem_reverse.mp (firsts_eq_nil_iff.mp hnil a ha)

end Selected

end Inn
