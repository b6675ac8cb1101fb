import Mathlib.Data.List.Infix

/-!
# Inn.Glob — patterns with stars

A pattern is a list of items: a star, a set that the next letter has to be in, or an item that
nothing matches. A matcher with backtracking gives up early: it has three answers, and
`abort` says that the pattern does not match any rest of the text either, so that no star in
front of it has to try these.

* `Matches` — the language of a pattern;
* `run` — the matcher;
* `run_spec` — it finds every match, and an `abort` is right.
-/

namespace Inn.Glob

inductive Item (α : Type*) where
  | star
  | one (set : α → Bool)
  | bad

variable {α : Type*}

def Item.isStar : Item α → Bool
  | .star => true
  | _ => false

/-- The texts that a pattern matches. -/
inductive Matches : List (Item α) → List α → Prop where
  | nil : Matches [] []
  | one {set : α → Bool} {c : α} {p : List (Item α)} {t : List α} :
      set c = true → Matches p t → Matches (.one set :: p) (c :: t)
  | star {p : List (Item α)} {t : List α} (s : List α) :
      Matches p t → Matches (.star :: p) (s ++ t)

/-- The answers of a matcher. -/
inductive Answer where
  | yes
  | no
  | abort
deriving DecidableEq

/-- The first answer at a place of the text that is not `no`; the end of the text is no place. -/
def scan (m : List α → Answer) : List α → Answer
  | [] => .abort
  | c :: t =>
    match m (c :: t) with
    | .no => scan m t
    | answer => answer

/-- The matcher. -/
def run : List (Item α) → List α → Answer
  | [], [] => .yes
  | [], _ :: _ => .no
  | .one _ :: _, [] => .abort
  | .one set :: p, c :: t => if set c then run p t else .no
  | .bad :: _, _ => .abort
  | .star :: p, t => if p.all Item.isStar then .yes else scan (run p) t

section Scan

variable {m m' : List α → Answer} {t : List α}

theorem scan_ne_no : scan m t ≠ .no := by
  induction t with
  | nil => exact fun h => by cases h
  | cons c t ih =>
    rw [scan]
    split
    · exact ih
    · rename_i hne
      exact hne

/-- A matcher that never says `no` is asked once. -/
theorem scan_scan : scan (scan m) t = scan m t := by
  cases t with
  | nil => rfl
  | cons c t =>
    rw [scan]
    split
    · rename_i h
      exact absurd h scan_ne_no
    · rfl

end Scan

/-! ## Stars -/

theorem matches_stars {p : List (Item α)} (h : p.all Item.isStar = true) (t : List α) :
    Matches p t ↔ p ≠ [] ∨ t = [] := by
  induction p generalizing t with
  | nil =>
    constructor
    · intro hm
      cases hm
      exact .inr rfl
    · rintro (hne | rfl)
      · exact absurd rfl hne
      · exact .nil
  | cons item p ih =>
    rw [List.all_cons, Bool.and_eq_true] at h
    cases item with
    | star =>
      have hm : Matches (.star :: p) (t ++ []) := .star t ((ih h.2 []).mpr (.inr rfl))
      rw [List.append_nil] at hm
      exact ⟨fun _ => .inl (List.cons_ne_nil _ _), fun _ => hm⟩
    | one set => cases h.1
    | bad => cases h.1

/-- A star matches up to a place from which the rest matches. -/
theorem matches_star {p : List (Item α)} {t : List α} :
    Matches (.star :: p) t ↔ ∃ t', t' <:+ t ∧ Matches p t' := by
  constructor
  · intro h
    cases h with
    | star s h => exact ⟨_, List.suffix_append s _, h⟩
  · rintro ⟨t', ⟨s, rfl⟩, h⟩
    exact .star s h

/-- Without a letter nothing but stars match. -/
theorem matches_nil {p : List (Item α)} (h : Matches p []) : p.all Item.isStar = true := by
  generalize ht : ([] : List α) = t at h
  induction h with
  | nil => rfl
  | one _ _ _ => cases ht
  | star s _ ih =>
    rw [List.all_cons]
    exact ih (List.append_eq_nil_iff.mp ht.symm).2.symm

theorem not_matches_bad {p : List (Item α)} {t : List α} (h : .bad ∈ p) : ¬ Matches p t := by
  intro hm
  induction hm with
  | nil => cases h
  | one _ _ ih =>
    rcases List.mem_cons.mp h with heq | h
    · cases heq
    · exact ih h
  | star _ _ ih =>
    rcases List.mem_cons.mp h with heq | h
    · cases heq
    · exact ih h

/-- Two stars are as good as one. -/
theorem run_star_star (p : List (Item α)) (t : List α) :
    run (.star :: .star :: p) t = run (.star :: p) t := by
  rw [run, run, List.all_cons]
  by_cases h : p.all Item.isStar = true
  · rw [h]
    rfl
  · have hstar : (run (.star :: p) : List α → Answer) = scan (run p) := by
      funext t
      rw [run, if_neg h]
    rw [if_neg fun hand => h (Bool.and_eq_true_iff.mp hand).2, if_neg h, hstar, scan_scan]

/-! ## The matcher finds every match -/

/-- What `scan` says, when the answers at all places are right. -/
theorem scan_spec {p : List (Item α)} {t : List α} (hp : ¬ p.all Item.isStar = true)
    (h : ∀ t, (run p t = .yes ↔ Matches p t) ∧
      (run p t = .abort → ∀ t', t' <:+ t → ¬ Matches p t')) :
    (scan (run p) t = .yes ↔ ∃ t', t' <:+ t ∧ Matches p t') ∧
      (scan (run p) t = .abort → ∀ t', t' <:+ t → ¬ Matches p t') := by
  induction t with
  | nil =>
    have hnone : ∀ t', t' <:+ [] → ¬ Matches p t' := by
      intro t' ht' hm
      rw [List.suffix_nil.mp ht'] at hm
      exact hp (matches_nil hm)
    refine ⟨⟨fun hyes => (by cases hyes), fun ⟨t', ht', hm⟩ => absurd hm (hnone t' ht')⟩,
      fun _ => hnone⟩
  | cons c t ih =>
    obtain ⟨hyes, habort⟩ := h (c :: t)
    rw [scan]
    cases hrun : run p (c :: t) with
    | yes =>
      exact ⟨⟨fun _ => ⟨_, List.suffix_rfl, hyes.mp hrun⟩, fun _ => rfl⟩, fun h => by cases h⟩
    | abort =>
      have hnone := habort hrun
      exact ⟨⟨fun h => (by cases h), fun ⟨t', ht', hm⟩ => absurd hm (hnone t' ht')⟩, fun _ => hnone⟩
    | no =>
      have hnot : ¬ Matches p (c :: t) := fun hm => by
        rw [hyes.mpr hm] at hrun
        cases hrun
      constructor
      · refine ih.1.trans ⟨fun ⟨t', ht', hm⟩ => ⟨t', ht'.trans (List.suffix_cons c t), hm⟩, ?_⟩
        rintro ⟨t', ht', hm⟩
        rcases List.suffix_cons_iff.mp ht' with rfl | ht'
        · exact absurd hm hnot
        · exact ⟨t', ht', hm⟩
      · intro h t' ht' hm
        rcases List.suffix_cons_iff.mp ht' with rfl | ht'
        · exact hnot hm
        · exact ih.2 h t' ht' hm

/-- The matcher finds every match, and where it aborts, no rest of the text matches. -/
theorem run_spec (p : List (Item α)) (t : List α) :
    (run p t = .yes ↔ Matches p t) ∧
      (run p t = .abort → ∀ t', t' <:+ t → ¬ Matches p t') := by
  induction p generalizing t with
  | nil =>
    cases t with
    | nil => exact ⟨⟨fun _ => .nil, fun _ => rfl⟩, fun h => by cases h⟩
    | cons c t => exact ⟨⟨fun h => (by cases h), fun h => (by cases h)⟩, fun h => by cases h⟩
  | cons item p ih =>
    cases item with
    | star =>
      rw [run]
      by_cases hp : p.all Item.isStar = true
      · rw [if_pos hp]
        refine ⟨⟨fun _ => ?_, fun _ => rfl⟩, fun h => by cases h⟩
        refine (matches_stars ?_ t).mpr (.inl (List.cons_ne_nil _ _))
        rw [List.all_cons, hp]
        rfl
      · rw [if_neg hp, matches_star]
        obtain ⟨hyes, habort⟩ := @scan_spec _ p t hp ih
        refine ⟨hyes, fun h t' ht' hm => ?_⟩
        obtain ⟨t'', ht'', hm⟩ := matches_star.mp hm
        exact habort h t'' (ht''.trans ht') hm
    | one set =>
      cases t with
      | nil =>
        refine ⟨⟨fun h => (by cases h), fun h => (by cases h)⟩, fun _ t' ht' hm => ?_⟩
        rw [List.suffix_nil.mp ht'] at hm
        cases hm
      | cons c t =>
        rw [run]
        by_cases hc : set c = true
        · rw [if_pos hc]
          refine ⟨(ih t).1.trans ⟨.one hc, fun hm => ?_⟩, fun h t' ht' hm => ?_⟩
          · cases hm with
            | one _ hm => exact hm
          · cases hm with
            | @one _ c' _ t'' _ hm =>
              refine (ih t).2 h t'' ?_ hm
              rcases List.suffix_cons_iff.mp ht' with heq | ht'
              · exact (List.cons.inj heq).2 ▸ List.suffix_rfl
              · exact (List.suffix_cons c' t'').trans ht'
        · rw [if_neg hc]
          refine ⟨⟨fun h => (by cases h), fun hm => ?_⟩, fun h => by cases h⟩
          cases hm with
          | one hc' _ => exact absurd hc' hc
    | bad =>
      refine ⟨⟨fun h => (by cases h), fun h => (by cases h)⟩, fun _ t' _ hm => ?_⟩
      cases hm

end Inn.Glob
