import Mathlib.Data.List.Basic

/-!
# Inn.Override — rules of which the last one counts

Rules are gone through in order, and each one that is for a record sets it. Where a rule sets all
that the one before it had set, and what it is for stays the same, the record is left as the last
of its rules has it.
-/

namespace Inn

variable {α ρ : Type*} (isFor : ρ → α → Bool) (set : ρ → α → α)

/-- A rule sets a record that it is for. -/
def override (record : α) (rule : ρ) : α := if isFor rule record then set rule record else record

/-- A rule sets all that another one has set, and no rule changes what rules are for it. -/
structure Overrides : Prop where
  set_set : ∀ rule rule' record, set rule (set rule' record) = set rule record
  isFor_set : ∀ rule rule' record, isFor rule (set rule' record) = isFor rule record

variable {isFor set} {record : α} {rules before after : List ρ} {rule : ρ}

theorem Overrides.isFor_override (h : Overrides isFor set) (rule rule' : ρ) (record : α) :
    isFor rule (override isFor set record rule') = isFor rule record := by
  rw [override]
  split
  · exact h.isFor_set rule rule' record
  · rfl

theorem Overrides.set_override (h : Overrides isFor set) (rule rule' : ρ) (record : α) :
    set rule (override isFor set record rule') = set rule record := by
  rw [override]
  split
  · exact h.set_set rule rule' record
  · rfl

theorem foldl_override_of_no_rule (hno : ∀ rule ∈ rules, isFor rule record = false) :
    rules.foldl (override isFor set) record = record := by
  induction rules with
  | nil => rfl
  | cons rule rules ih =>
    obtain ⟨hrule, hrules⟩ := List.forall_mem_cons.mp hno
    rw [List.foldl_cons, override, hrule, if_neg Bool.false_ne_true]
    exact ih hrules

theorem Overrides.set_foldl (h : Overrides isFor set) (rules : List ρ) (rule : ρ) (record : α) :
    set rule (rules.foldl (override isFor set) record) = set rule record := by
  induction rules generalizing record with
  | nil => rfl
  | cons rule' rules ih => rw [List.foldl_cons, ih, h.set_override]

theorem Overrides.isFor_foldl (h : Overrides isFor set) (rules : List ρ) (rule : ρ) (record : α) :
    isFor rule (rules.foldl (override isFor set) record) = isFor rule record := by
  induction rules generalizing record with
  | nil => rfl
  | cons rule' rules ih => rw [List.foldl_cons, ih, h.isFor_override]

/-- The record is as the last of its rules has it. -/
theorem Overrides.foldl_last (h : Overrides isFor set) (hrule : isFor rule record = true)
    (hlast : ∀ rule' ∈ after, isFor rule' record = false) :
    (before ++ rule :: after).foldl (override isFor set) record = set rule record := by
  have hafter : ∀ rule' ∈ after, isFor rule' (override isFor set
      (before.foldl (override isFor set) record) rule) = false := by
    intro rule' hrule'
    rw [h.isFor_override, h.isFor_foldl]
    exact hlast rule' hrule'
  rw [List.foldl_append, List.foldl_cons, foldl_override_of_no_rule hafter, override,
    h.isFor_foldl, if_pos hrule, h.set_foldl]

end Inn
