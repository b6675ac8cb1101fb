import Mathlib.Data.List.Nodup
import Mathlib.Logic.Function.Basic

/-!
# Inn.Chain — singly linked lists laid out in numbered cells

`Chain nil addr next p l`: following pointers from `p` visits the cells `l`, in
that order, and ends at `nil`. `next c` is the pointer stored in cell `c` and
`addr c` the pointer to it.

* `Chain.unique`, `Chain.nodup` — a pointer begins at most one chain, and a
  chain never meets a cell twice: being a chain is being acyclic;
* `Chain.reaches_iff` — the cells reached from `p` are those of its chain;
* `Chain.congr` — a chain depends only on the pointers of its own cells;
* `Chain.splice_head`, `Chain.splice` — cutting a cell out.
-/

namespace Inn

variable {ι P : Type*}

/-- The cells met from pointer `p`. -/
def Chain (nil : P) (addr : ι → P) (next : ι → P) : P → List ι → Prop
  | p, [] => p = nil
  | p, c :: l => p = addr c ∧ Chain nil addr next (next c) l

namespace Chain

variable {nil : P} {addr : ι → P} {next next' : ι → P} {p : P}

@[simp] theorem nil_iff : Chain nil addr next p [] ↔ p = nil := Iff.rfl

/-- A chain depends only on the pointers stored in its cells. -/
theorem congr {l : List ι} (h : Chain nil addr next p l)
    (heq : ∀ c ∈ l, next' c = next c) : Chain nil addr next' p l := by
  induction l generalizing p with
  | nil => exact h
  | cons c l ih =>
    refine ⟨h.1, ?_⟩
    rw [heq c (by simp)]
    exact ih h.2 (fun d hd => heq d (by simp [hd]))

/-- The part of a chain from a cell on is the chain of the pointer to it. -/
theorem drop {pre l : List ι} {c : ι} (h : Chain nil addr next p (pre ++ c :: l)) :
    Chain nil addr next (addr c) (c :: l) := by
  induction pre generalizing p with
  | nil =>
    rw [List.nil_append] at h
    exact ⟨rfl, h.2⟩
  | cons d pre ih => exact ih h.2

/-- Cells are told apart by their pointers, and none is at `nil`. -/
structure Distinct (nil : P) (addr : ι → P) : Prop where
  inj : Function.Injective addr
  ne_nil : ∀ c, addr c ≠ nil

/-- A pointer begins at most one chain. -/
theorem unique (hd : Distinct nil addr) {l l' : List ι} (h : Chain nil addr next p l)
    (h' : Chain nil addr next p l') : l = l' := by
  induction l generalizing p l' with
  | nil =>
    cases l' with
    | nil => rfl
    | cons c' l' => exact absurd (h'.1.symm.trans h) (hd.ne_nil c')
  | cons c l ih =>
    cases l' with
    | nil => exact absurd (h.1.symm.trans h') (hd.ne_nil c)
    | cons c' l' =>
      have hc : c = c' := hd.inj (h.1.symm.trans h'.1)
      subst hc
      rw [ih h.2 h'.2]

/-- A chain ends, so it meets no cell twice. -/
theorem nodup (hd : Distinct nil addr) {l : List ι} (h : Chain nil addr next p l) : l.Nodup := by
  induction l generalizing p with
  | nil => exact List.nodup_nil
  | cons c l ih =>
    refine List.nodup_cons.mpr ⟨fun hmem => ?_, ih h.2⟩
    -- a second visit of `c` would begin the same chain, but a shorter one
    obtain ⟨pre, post, hsplit⟩ := List.append_of_mem hmem
    have hpost : Chain nil addr next (addr c) (c :: post) := by
      have htail := h.2
      rw [hsplit] at htail
      exact htail.drop
    have hsame : c :: l = c :: post := unique hd (h.1 ▸ h) hpost
    have hlen := congrArg List.length hsame
    rw [hsplit] at hlen
    simp only [List.length_cons, List.length_append] at hlen
    omega

/-- The cells met from pointer `p`, however the pointers go on after them. -/
inductive Reaches (addr : ι → P) (next : ι → P) : P → ι → Prop where
  | here (c : ι) : Reaches addr next (addr c) c
  | step {c d : ι} : Reaches addr next (next c) d → Reaches addr next (addr c) d

/-- What a chain reaches is what it lists. -/
theorem reaches_iff (hd : Distinct nil addr) {l : List ι} {d : ι}
    (h : Chain nil addr next p l) : Reaches addr next p d ↔ d ∈ l := by
  constructor
  · intro hr
    induction hr generalizing l with
    | here c =>
      cases l with
      | nil => exact absurd h (hd.ne_nil c)
      | cons c' l =>
        rw [hd.inj h.1]
        exact List.mem_cons_self
    | @step c d _ ih =>
      cases l with
      | nil => exact absurd h (hd.ne_nil c)
      | cons c' l =>
        have hc : c = c' := hd.inj h.1
        subst hc
        exact List.mem_cons_of_mem _ (ih h.2)
  · intro hmem
    induction l generalizing p with
    | nil => cases hmem
    | cons c l ih =>
      rw [h.1]
      rcases List.mem_cons.mp hmem with rfl | hmem
      · exact .here d
      · exact .step (ih h.2 hmem)

/-- Cutting the first cell out moves the head to the next one. -/
theorem splice_head {c : ι} {l : List ι} (h : Chain nil addr next p (c :: l)) :
    Chain nil addr next (next c) l := h.2

/-- Cutting a later cell out: its predecessor `b` takes over its pointer. -/
theorem splice [DecidableEq ι] (hd : Distinct nil addr) {pre l : List ι} {b c : ι}
    (h : Chain nil addr next p (pre ++ b :: c :: l)) :
    Chain nil addr (Function.update next b (next c)) p (pre ++ b :: l) := by
  have hnd := nodup hd h
  induction pre generalizing p with
  | nil =>
    simp only [List.nil_append] at *
    obtain ⟨hb, hc⟩ := List.nodup_cons.mp hnd
    refine ⟨h.1, ?_⟩
    rw [Function.update_self]
    refine congr h.2.2 (fun d hmem => ?_)
    rw [Function.update_of_ne]
    intro heq
    exact hb (by rw [← heq]; simp [hmem])
  | cons a pre ih =>
    obtain ⟨ha, hrest⟩ := List.nodup_cons.mp hnd
    refine ⟨h.1, ?_⟩
    rw [Function.update_of_ne]
    · exact ih h.2 hrest
    · intro heq
      exact ha (by rw [heq]; simp)

end Chain

end Inn
