import Mathlib.Computability.StateTransition

/-!
# Inn.Resume — machines that are resumed when more input is there

A machine is a function `f : σ → Option σ`; `none` means that it has to stop, for good or
until there is more input. `StateTransition.eval f a` is the state it stops in.

* `eval_extend` — if more input never changes a step that was possible without it,
  it makes no difference whether the input was there from the start;
* `mem_eval_map` — a change of representation that commutes with the steps commutes
  with whole runs;
* `runSteps_mem_eval` — running for as many steps as a measure allows is running to
  the end.
-/

namespace Inn

open StateTransition

universe u

variable {σ : Type u} {f : σ → Option σ}

/-- At most `fuel` steps. -/
def runSteps (f : σ → Option σ) : ℕ → σ → σ
  | 0, a => a
  | fuel + 1, a =>
    match f a with
    | none => a
    | some b => runSteps f fuel b

/-- What steps preserve, a run preserves. -/
theorem reaches_invariant (inv : σ → Prop) {a b : σ} (h : Reaches f a b)
    (hstep : ∀ a b, f a = some b → inv a → inv b) (ha : inv a) : inv b := by
  induction h with
  | refl => exact ha
  | tail _ hlast ih => exact hstep _ _ hlast ih

/-- A map that takes steps to steps takes runs to runs. -/
theorem reaches_map {map : σ → σ} (hmap : ∀ a b, f a = some b → f (map a) = some (map b))
    {a b : σ} (h : Reaches f a b) : Reaches f (map a) (map b) := by
  induction h with
  | refl => exact .refl
  | tail _ hlast ih => exact .tail ih (hmap _ _ hlast)

/-- A machine resumed with more input stops where it would have stopped with all the
input at once. -/
theorem eval_extend {extend : σ → σ}
    (hextend : ∀ a b, f a = some b → f (extend a) = some (extend b)) {a b : σ}
    (h : Reaches f a b) : eval f (extend a) = eval f (extend b) :=
  reaches_eval (reaches_map hextend h)

/-- A change of representation commutes with running to the end. -/
theorem mem_eval_map {map : σ → σ} (hmap : ∀ a, f (map a) = (f a).map map) {a b : σ}
    (h : b ∈ eval f a) : map b ∈ eval f (map a) := by
  obtain ⟨hreach, hstop⟩ := mem_eval.mp h
  refine mem_eval.mpr ⟨?_, ?_⟩
  · refine reaches_map (fun a b hab => ?_) hreach
    rw [hmap, hab]
    rfl
  · rw [hmap, hstop]
    rfl

theorem reaches_runSteps (fuel : ℕ) (a : σ) : Reaches f a (runSteps f fuel a) := by
  induction fuel generalizing a with
  | zero => exact .refl
  | succ fuel ih =>
    rw [runSteps]
    split
    · exact .refl
    · rename_i b hb
      exact .head hb (ih b)

/-- Enough steps run to the end. -/
theorem runSteps_mem_eval (measure : σ → ℕ)
    (hless : ∀ a b, f a = some b → measure b < measure a) {fuel : ℕ} {a : σ} (hfuel : measure a ≤ fuel) : runSteps f fuel a ∈ eval f a := by
  refine mem_eval.mpr ⟨reaches_runSteps fuel a, ?_⟩
  induction fuel generalizing a with
  | zero =>
    rw [runSteps]
    by_contra hne
    obtain ⟨b, hb⟩ := Option.ne_none_iff_exists'.mp hne
    have := hless a b hb
    omega
  | succ fuel ih =>
    rw [runSteps]
    split
    · assumption
    · rename_i b hb
      have := hless a b hb
      exact ih (by omega)

end Inn
