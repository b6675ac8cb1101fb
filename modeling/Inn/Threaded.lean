import Mathlib.Data.Nat.Notation
import Mathlib.Data.List.Basic
import Mathlib.Data.List.Nodup

/-!
# Inn.Threaded — trees held together by links

Every node has a link to its parent, to its first child and to its next sibling. A tree
given by such links is walked in pre-order with no more than the node one is at.

* `Links.Is` — the links are those of a forest;
* `Links.After`, `After.tail` — what comes after a node in pre-order, and that the first of
  these has the others after it;
* `Is.append` — a new node is linked in behind the last sibling.
-/

namespace Inn

universe u

/-- Trees side by side: the first one by its root and what is below it, and the others. -/
inductive Forest (α : Type u) where
  | nil
  | cons (root : α) (below beside : Forest α)

/-- The links of the nodes. -/
structure Links (α : Type u) where
  parent : α → Option α
  child : α → Option α
  next : α → Option α

variable {α : Type u}

namespace Forest

/-- The nodes, each before those below it. -/
def preorder : Forest α → List α
  | nil => []
  | cons a below beside => a :: (below.preorder ++ beside.preorder)

/-- The last root. -/
def last : Forest α → Option α
  | nil => none
  | cons a _ nil => some a
  | cons _ _ beside => beside.last

/-- More trees behind the last one. -/
def append : Forest α → Forest α → Forest α
  | nil, g => g
  | cons a below beside, g => cons a below (beside.append g)

theorem preorder_append (f g : Forest α) : (f.append g).preorder = f.preorder ++ g.preorder := by
  induction f with
  | nil => rfl
  | cons a below beside _ ih =>
    rw [append, preorder, ih, preorder, List.cons_append, List.append_assoc]

theorem mem_preorder_of_last {f : Forest α} {a : α} (h : f.last = some a) : a ∈ f.preorder := by
  induction f with
  | nil => cases h
  | cons b below beside _ ih =>
    cases beside with
    | nil =>
      obtain rfl := Option.some.inj h
      exact List.mem_cons_self
    | cons c cs ss => exact List.mem_cons_of_mem _ (List.mem_append_right _ (ih h))

end Forest

namespace Links

variable (L : Links α)

/-- The links are those of a forest whose nodes have the parent `up`. -/
def Is (up : Option α) : Option α → Forest α → Prop
  | first, .nil => first = none
  | first, .cons a below beside => first = some a ∧ L.parent a = up ∧
      Is (some a) (L.child a) below ∧ Is up (L.next a) beside

/-- What comes after all that is below a node: its next siblings and what is below them, and
what comes after its parent in this way. -/
inductive Above : Option α → List α → Prop where
  | root : Above none []
  | node {a : α} {beside : Forest α} {rest : List α} (hbeside : L.Is (L.parent a) (L.next a) beside)
      (hrest : Above (L.parent a) rest) : Above (some a) (beside.preorder ++ rest)

/-- What comes after a node in pre-order. -/
def After (a : α) (l : List α) : Prop :=
  ∃ below rest, L.Is (some a) (L.child a) below ∧ L.Above (some a) rest ∧
    l = below.preorder ++ rest

variable {L} {L' : Links α} {up first : Option α} {f : Forest α} {a b : α} {l l' : List α}

/-- The first node of a forest has the rest of it after it, and what comes after its parent. -/
theorem Is.after (h : L.Is up first (.cons b f f')) {rest : List α} (hrest : L.Above up rest) :
    L.After b (f.preorder ++ (f'.preorder ++ rest)) := by
  obtain ⟨-, hparent, hbelow, hbeside⟩ := h
  refine ⟨f, _, hbelow, .node ?_ ?_, rfl⟩
  · rwa [hparent]
  · rwa [hparent]

theorem Above.after (h : L.Above up (b :: l)) : L.After b l := by
  generalize hl : b :: l = all at h
  induction h with
  | root => cases hl
  | @node a beside rest hbeside hrest ih =>
    cases beside with
    | nil => exact ih hl
    | cons c below beside =>
      rw [Forest.preorder, List.cons_append] at hl
      obtain ⟨rfl, rfl⟩ := List.cons.inj hl
      rw [List.append_assoc]
      exact hbeside.after hrest

/-- The first node after `a` has the others after it. -/
theorem After.tail (h : L.After a (b :: l)) : L.After b l := by
  obtain ⟨below, rest, hbelow, hrest, hl⟩ := h
  cases below with
  | nil =>
    rw [Forest.preorder, List.nil_append] at hl
    subst hl
    exact hrest.after
  | cons c below beside =>
    rw [Forest.preorder, List.cons_append] at hl
    obtain ⟨rfl, rfl⟩ := List.cons.inj hl
    rw [List.append_assoc]
    exact hbelow.after hrest

theorem After.split (h : L.After a (l ++ b :: l')) : L.After b l' := by
  induction l generalizing a with
  | nil => exact h.tail
  | cons c l ih => exact ih h.tail

/-- Nothing comes after what is below a root. -/
theorem after_root (hparent : L.parent a = none) (hnext : L.next a = none)
    (h : L.Is (some a) (L.child a) f) : L.After a f.preorder := by
  have habove : L.Above (some a) (Forest.nil.preorder ++ []) :=
    .node hnext (by rw [hparent]; exact .root)
  exact ⟨f, [], h, habove, (List.append_nil _).symm⟩

/-- A forest is there as long as the links of its nodes are. -/
theorem Is.congr (h : L.Is up first f) (hsame : ∀ a ∈ f.preorder,
    L'.parent a = L.parent a ∧ L'.child a = L.child a ∧ L'.next a = L.next a) :
    L'.Is up first f := by
  induction f generalizing up first with
  | nil => exact h
  | cons a below beside ihbelow ihbeside =>
    obtain ⟨hfirst, hparent, hbelow, hbeside⟩ := h
    obtain ⟨hp, hc, hn⟩ := hsame a List.mem_cons_self
    refine ⟨hfirst, hp.trans hparent, ?_, ?_⟩
    · rw [hc]
      exact ihbelow hbelow fun b hb =>
        hsame b (List.mem_cons_of_mem _ (List.mem_append_left _ hb))
    · rw [hn]
      exact ihbeside hbeside fun b hb =>
        hsame b (List.mem_cons_of_mem _ (List.mem_append_right _ hb))

/-- A forest goes behind another one, when the last root of that is linked to it. -/
theorem Is.append {g : Forest α} (h : L.Is up first f) (hlast : f.last = some b)
    (hnodup : f.preorder.Nodup)
    (hsame : ∀ a ∈ f.preorder, L'.parent a = L.parent a ∧ L'.child a = L.child a ∧
      (a ≠ b → L'.next a = L.next a))
    (hg : L'.Is up (L'.next b) g) : L'.Is up first (f.append g) := by
  induction f generalizing first with
  | nil => cases hlast
  | cons a below beside _ ih =>
    obtain ⟨hfirst, hparent, hbelow, hbeside⟩ := h
    obtain ⟨hp, hc, hn⟩ := hsame a List.mem_cons_self
    rw [Forest.preorder, List.nodup_cons, List.nodup_append] at hnodup
    obtain ⟨hnew, -, hnodup, hdisjoint⟩ := hnodup
    have hb : b ∉ below.preorder := by
      cases beside with
      | nil =>
        obtain rfl := Option.some.inj hlast
        exact fun hmem => hnew (List.mem_append_left _ hmem)
      | cons c cs ss =>
        exact fun hmem => hdisjoint b hmem b (Forest.mem_preorder_of_last hlast) rfl
    have hbelow' : L'.Is (some a) (L'.child a) below := by
      rw [hc]
      refine hbelow.congr fun d hd => ?_
      obtain ⟨hp, hc, hn⟩ := hsame d (List.mem_cons_of_mem _ (List.mem_append_left _ hd))
      exact ⟨hp, hc, hn fun heq => hb (heq ▸ hd)⟩
    refine ⟨hfirst, hp.trans hparent, hbelow', ?_⟩
    cases beside with
    | nil =>
      obtain rfl := Option.some.inj hlast
      exact hg
    | cons c cs ss =>
      have hne : a ≠ b := fun heq =>
        hnew (List.mem_append_right _ (heq ▸ Forest.mem_preorder_of_last hlast))
      rw [hn hne]
      exact ih hbeside hlast hnodup fun d hd =>
        hsame d (List.mem_cons_of_mem _ (List.mem_append_right _ hd))

end Links

end Inn
