import Mathlib.Data.List.Basic

/-!
# Inn.Rules — runs of a labelled system

A system is a relation `next : σ → α → σ → Prop`: label `a` may take state `s`
to state `s'`. A run is a list of labels. The rules below are the only
inductions over runs the development uses:

* `Steps.invariant` — what one step preserves, a run preserves;
* `Steps.invariant_hist` — the same for an invariant that also speaks about the
  labels taken so far;
* `guarded` — the system whose steps must also meet a condition on the label
  and the state before the step.
-/

namespace Inn

universe u v

variable {σ : Type u} {α : Type v}

/-- `Steps next s as s'`: the labels `as`, taken in order from `s`, end in `s'`. -/
inductive Steps (next : σ → α → σ → Prop) (s : σ) : List α → σ → Prop where
  | nil : Steps next s [] s
  | snoc {s' s'' : σ} {as : List α} {a : α} :
      Steps next s as s' → next s' a s'' → Steps next s (as ++ [a]) s''

/-- The steps of `next` that also meet `cond` before they are taken. -/
def guarded (cond : σ → α → Prop) (next : σ → α → σ → Prop) : σ → α → σ → Prop :=
  fun s a s' => cond s a ∧ next s a s'

namespace Steps

variable {next : σ → α → σ → Prop}

/-- Invariant induction over a run. -/
theorem invariant {inv : σ → Prop} {s s' : σ} {as : List α}
    (hstep : ∀ s a s', next s a s' → inv s → inv s')
    (h : Steps next s as s') (hs : inv s) : inv s' := by
  induction h with
  | nil => exact hs
  | snoc _ hlast ih => exact hstep _ _ _ hlast ih

/-- Invariant induction with the history of labels: `inv` may speak about the
labels taken so far. -/
theorem invariant_hist {inv : List α → σ → Prop} {s s' : σ} {as : List α}
    (hstep : ∀ as s a s', next s a s' → inv as s → inv (as ++ [a]) s')
    (h : Steps next s as s') (hs : inv [] s) : inv as s' := by
  induction h with
  | nil => exact hs
  | snoc _ hlast ih => exact hstep _ _ _ _ hlast ih

/-- A run of a system is a run of any system that allows the same steps. -/
theorem mono {next' : σ → α → σ → Prop} {s s' : σ} {as : List α}
    (hsub : ∀ s a s', next s a s' → next' s a s')
    (h : Steps next s as s') : Steps next' s as s' := by
  induction h with
  | nil => exact .nil
  | snoc _ hlast ih => exact .snoc ih (hsub _ _ _ hlast)

/-- Two runs in a row. -/
theorem trans {s s' s'' : σ} {as bs : List α} (h : Steps next s as s')
    (h' : Steps next s' bs s'') : Steps next s (as ++ bs) s'' := by
  induction h' with
  | nil => exact (List.append_nil as).symm ▸ h
  | snoc _ hlast ih => exact List.append_assoc as _ _ ▸ ih.snoc hlast

/-- A one-step run. -/
theorem single {s s' : σ} {a : α} (h : next s a s') : Steps next s [a] s' :=
  snoc .nil h

/-- The run of a step function. -/
theorem of_foldlM {step : σ → α → Option σ} {s s' : σ} {as : List α}
    (h : as.foldlM step s = some s') : Steps (fun s a s' => step s a = some s') s as s' := by
  induction as generalizing s with
  | nil =>
    cases h
    exact .nil
  | cons a as ih =>
    rw [List.foldlM_cons] at h
    obtain ⟨s₁, hs₁, h⟩ := Option.bind_eq_some_iff.mp h
    exact (single hs₁).trans (ih h)

end Steps

end Inn
