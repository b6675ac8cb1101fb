import Mathlib.Data.List.Basic
import Mathlib.Data.Nat.Notation

/-!
# Inn.DirectMapped — a direct-mapped cache of answers

Each key has one slot, which holds the last key added there and the answer for it. A
cache without slots holds nothing.

* `Agrees` — what the cache says is what the map it stands before says;
* `agrees_add`, `agrees_replicate` — how a cache comes to agree.
-/

namespace Inn.DirectMapped

variable {κ : Type*} [DecidableEq κ] {slot : κ → ℕ} {cache : List (κ × Bool)} {k k' : κ} {b : Bool}

/-- Put an answer into the slot of its key. -/
def add (slot : κ → ℕ) (cache : List (κ × Bool)) (k : κ) (b : Bool) : List (κ × Bool) :=
  cache.set (slot k % cache.length) (k, b)

/-- The answer the slot of a key has for it. -/
def lookup (slot : κ → ℕ) (cache : List (κ × Bool)) (k : κ) : Option Bool :=
  match cache[slot k % cache.length]? with
  | some (k', b) => if k' = k then some b else none
  | none => none

/-- The cache says what `answer` says. -/
def Agrees (slot : κ → ℕ) (cache : List (κ × Bool)) (answer : κ → Bool) : Prop :=
  ∀ k b, lookup slot cache k = some b → answer k = b

omit [DecidableEq κ] in
@[simp] theorem length_add : (add slot cache k b).length = cache.length := List.length_set

theorem lookup_add_self (h : cache ≠ []) : lookup slot (add slot cache k b) k = some b := by
  have hlt : slot k % cache.length < cache.length := Nat.mod_lt _ (List.length_pos_iff.mpr h)
  simp only [lookup, length_add]
  rw [add, List.getElem?_set_self hlt]
  exact if_pos rfl

/-- Another key keeps its answer or loses it. -/
theorem lookup_of_lookup_add (hne : k' ≠ k) {b' : Bool}
    (h : lookup slot (add slot cache k b) k' = some b') : lookup slot cache k' = some b' := by
  by_cases hslot : slot k' % cache.length = slot k % cache.length
  · exfalso
    simp only [lookup, length_add] at h
    rw [add, hslot, List.getElem?_set] at h
    simp only [if_pos] at h
    split at h
    · rename_i heq
      split at heq
      · cases heq
        rw [if_neg (Ne.symm hne)] at h
        cases h
      · cases heq
    · cases h
  · simp only [lookup, length_add] at h
    rwa [add, List.getElem?_set_ne (Ne.symm hslot)] at h

/-- What the slot held before the new answer does not matter. -/
theorem agrees_add {answer : κ → Bool}
    (h : ∀ k' ≠ k, ∀ b', lookup slot cache k' = some b' → answer k' = b') (hk : answer k = b) :
    Agrees slot (add slot cache k b) answer := by
  intro k' b' hl
  by_cases hkk : k' = k
  · subst hkk
    by_cases hc : cache = []
    · subst hc
      cases hl
    · rw [lookup_add_self hc] at hl
      exact hk.trans (Option.some.inj hl)
  · exact h k' hkk b' (lookup_of_lookup_add hkk hl)

theorem agrees_nil {answer : κ → Bool} : Agrees slot [] answer := fun _ _ hl => nomatch hl

/-- A cache all of whose slots say the same says no more than that. -/
theorem agrees_replicate {answer : κ → Bool} (h : answer k = b) (n : ℕ) :
    Agrees slot (List.replicate n (k, b)) answer := by
  intro k' b' hl
  simp only [lookup] at hl
  split at hl
  · rename_i heq
    have hmem := List.eq_of_mem_replicate (List.mem_of_getElem? heq)
    split at hl
    · rename_i hkk
      cases hmem
      cases hl
      exact hkk ▸ h
    · cases hl
  · cases hl

end Inn.DirectMapped
