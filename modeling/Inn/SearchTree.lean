import Mathlib.Order.Lattice

/-!
# Inn.SearchTree — binary trees searched by a key

A key that is inserted goes where its search ended, and a key that is there already keeps its
value. Both walk down in the same way, so that no order of the tree is needed for
`find_insert`.
-/

namespace Inn

/-- A binary tree with a key and a value at every node. -/
inductive SearchTree (κ α : Type*) where
  | leaf
  | node (left : SearchTree κ α) (key : κ) (value : α) (right : SearchTree κ α)

namespace SearchTree

variable {κ α : Type*} [LinearOrder κ]

/-- The value of a key. -/
def find : SearchTree κ α → κ → Option α
  | leaf, _ => none
  | node l k x r, key => if k = key then some x else if k < key then r.find key else l.find key

/-- A tree with one more key. -/
def insert : SearchTree κ α → κ → α → SearchTree κ α
  | leaf, key, value => node leaf key value leaf
  | node l k x r, key, value =>
    if k < key then node l k x (r.insert key value)
    else if key < k then node (l.insert key value) k x r
    else node l k x r

theorem find_insert (t : SearchTree κ α) (key key' : κ) (value : α) :
    (t.insert key value).find key' =
      if key = key' then some ((t.find key).getD value) else t.find key' := by
  induction t with
  | leaf =>
    rw [insert, find, find, find]
    split
    · rfl
    · split <;> rfl
  | node l k x r ihl ihr =>
    rw [insert]
    rcases lt_trichotomy k key with hlt | rfl | hgt
    · rw [if_pos hlt, find, ihr, find, find, if_neg hlt.ne, if_pos hlt]
      by_cases hk : k = key'
      · rw [if_pos hk, if_pos hk, if_neg fun h => hlt.ne (hk.trans h.symm)]
      · rw [if_neg hk, if_neg hk]
        by_cases heq : key = key'
        · rw [if_pos heq, if_pos heq, if_pos (heq ▸ hlt)]
        · rw [if_neg heq, if_neg heq]
    · rw [if_neg (lt_irrefl k), if_neg (lt_irrefl k)]
      by_cases hk : k = key'
      · rw [if_pos hk, find, find, if_pos hk, if_pos rfl]
        rfl
      · rw [if_neg hk]
    · rw [if_neg hgt.not_gt, if_pos hgt, find, ihl, find, find, if_neg hgt.ne',
        if_neg hgt.not_gt]
      by_cases hk : k = key'
      · rw [if_pos hk, if_pos hk, if_neg fun h => hgt.ne (h.trans hk.symm)]
      · rw [if_neg hk, if_neg hk]
        by_cases heq : key = key'
        · rw [if_pos heq, if_pos heq, if_neg (heq ▸ hgt.not_gt)]
        · rw [if_neg heq, if_neg heq]

end SearchTree

end Inn
