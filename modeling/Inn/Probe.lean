import Mathlib.Logic.Function.Basic

/-!
# Inn.Probe — open addressing over an arbitrary probe sequence

A table maps slots to entries `(tag, value)`; a key `k` is looked for at the
slots `seq k 0, seq k 1, ...` until one is vacant or carries the key's tag. A
new entry goes into the vacant slot where the search stopped. Nothing is ever
removed.

The point of the library is that such an insertion disturbs no other search:

* `StopsAt.unique` — a search stops at one index only;
* `FoundAt.insert` — the inserted key is found where it was put;
* `FoundAt.insert_other`, `Passes.insert_other` — a search that passed or found
  its slots still does after another key went into a vacant slot.
-/

namespace Inn.Probe

variable {κ ι τ ν : Type*}

/-- The entries of a table by slot. -/
abbrev Table (ι τ ν : Type*) := ι → Option (τ × ν)

variable (seq : κ → Nat → ι) (tag : κ → τ) (t : Table ι τ ν)

/-- The first `n` probes for `k` meet entries of other tags. -/
def Passes (k : κ) (n : Nat) : Prop :=
  ∀ j < n, ∃ e, t (seq k j) = some e ∧ e.1 ≠ tag k

/-- The search for `k` ends at probe `n`, in an entry of `k` holding `v`. -/
def FoundAt (k : κ) (n : Nat) (v : ν) : Prop :=
  Passes seq tag t k n ∧ t (seq k n) = some (tag k, v)

/-- The search for `k` ends at probe `n`, in a vacant slot. -/
def VacantAt (k : κ) (n : Nat) : Prop :=
  Passes seq tag t k n ∧ t (seq k n) = none

/-- The search for `k` ends at probe `n`, found or not. -/
def StopsAt (k : κ) (n : Nat) : Prop :=
  Passes seq tag t k n ∧ ∀ e, t (seq k n) = some e → e.1 = tag k

variable {seq tag t}

theorem FoundAt.stops {k : κ} {n : Nat} {v : ν} (h : FoundAt seq tag t k n v) :
    StopsAt seq tag t k n := by
  refine ⟨h.1, fun e he => ?_⟩
  rw [h.2] at he
  cases he
  rfl

theorem VacantAt.stops {k : κ} {n : Nat} (h : VacantAt seq tag t k n) :
    StopsAt seq tag t k n := by
  refine ⟨h.1, fun e he => ?_⟩
  rw [h.2] at he
  cases he

/-- One more slot of another tag. -/
theorem Passes.succ {k : κ} {n : Nat} (h : Passes seq tag t k n)
    (hn : ∃ e, t (seq k n) = some e ∧ e.1 ≠ tag k) : Passes seq tag t k (n + 1) := by
  intro j hj
  rcases Nat.lt_succ_iff_lt_or_eq.mp hj with hlt | heq
  · exact h j hlt
  · rw [heq]
    exact hn

/-- A search cannot stop strictly before a slot it passes. -/
theorem StopsAt.not_lt {k : κ} {m n : Nat} (hm : StopsAt seq tag t k m)
    (hn : Passes seq tag t k n) : ¬ m < n := by
  intro hlt
  obtain ⟨e, he, hne⟩ := hn m hlt
  exact hne (hm.2 e he)

/-- The index at which a search stops is unique. -/
theorem StopsAt.unique {k : κ} {m n : Nat} (hm : StopsAt seq tag t k m)
    (hn : StopsAt seq tag t k n) : m = n := by
  have h1 := hm.not_lt hn.1
  have h2 := hn.not_lt hm.1
  omega

/-! ## Insertion into a vacant slot -/

section Insert

variable [DecidableEq ι] {p : ι} {e : τ × ν}

/-- Slots already occupied are left alone by a write to a vacant slot. -/
theorem update_of_occupied (hp : t p = none) {q : ι} {f : τ × ν} (hq : t q = some f) :
    Function.update t p (some e) q = some f := by
  have hne : q ≠ p := by
    intro h
    rw [h, hp] at hq
    cases hq
  rw [Function.update_of_ne hne, hq]

/-- A search passes the slots it passed, whatever was put into a vacant one. -/
theorem Passes.insert_other {k : κ} {n : Nat} (h : Passes seq tag t k n) (hp : t p = none) :
    Passes seq tag (Function.update t p (some e)) k n := by
  intro j hj
  obtain ⟨f, hf, hne⟩ := h j hj
  exact ⟨f, update_of_occupied hp hf, hne⟩

/-- A key that is found stays found, at the same probe and with its value. -/
theorem FoundAt.insert_other {k : κ} {n : Nat} {v : ν} (h : FoundAt seq tag t k n v)
    (hp : t p = none) : FoundAt seq tag (Function.update t p (some e)) k n v :=
  ⟨h.1.insert_other hp, update_of_occupied hp h.2⟩

/-- A key put where its search stopped is found there. -/
theorem FoundAt.insert {k : κ} {n : Nat} (v : ν) (h : VacantAt seq tag t k n) :
    FoundAt seq tag (Function.update t (seq k n) (some (tag k, v))) k n v :=
  ⟨h.1.insert_other h.2, Function.update_self ..⟩

end Insert

end Inn.Probe
