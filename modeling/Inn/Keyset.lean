import Mathlib.Data.List.Nodup
import Mathlib.Order.Lattice

/-!
# Inn.Keyset — rows in the order of their keys

A table with one row for each key, its rows in the order of the keys:

* `Table.put`, `Table.change`, `Table.delete` — its statements, with what `Table.find` finds
  after each of them;
* `Table.page` — some of the rows behind a key, and `Table.unread_page`, which says that
  reading page after page, each behind the last key of the one before, passes no row over
  and reads none twice.
-/

namespace Inn.Keyset

universe u v

variable {ρ : Type u} {κ : Type v} [LinearOrder κ]

/-- Rows in the order of their keys, one for each key. -/
structure Table (key : ρ → κ) where
  rows : List ρ
  sorted : rows.Pairwise fun r r' => key r < key r'

/-- A key that comes after the last one that was read, if one was. -/
def After (last : Option κ) (k : κ) : Prop := ∀ l, last = some l → l < k

instance (last : Option κ) (k : κ) : Decidable (After last k) :=
  match last with
  | none => isTrue fun l h => absurd h.symm (Option.some_ne_none l)
  | some l => decidable_of_iff (l < k) ⟨fun h _ heq => Option.some.inj heq ▸ h, fun h => h l rfl⟩

/-- Put a row where it belongs, in place of the one with its key. -/
def putRows (key : ρ → κ) (row : ρ) : List ρ → List ρ
  | [] => [row]
  | r :: rows =>
    if key row < key r then row :: r :: rows
    else if key row = key r then row :: rows
    else r :: putRows key row rows

theorem After.trans {last : Option κ} {l k : κ} (h : After last l) (hlt : l < k) : After last k :=
  fun l' heq => lt_trans (h l' heq) hlt

section Rows

variable {key : ρ → κ} {row r : ρ} {rows : List ρ}

theorem mem_putRows (hsorted : rows.Pairwise fun r r' => key r < key r') :
    r ∈ putRows key row rows ↔ r = row ∨ r ∈ rows ∧ key r ≠ key row := by
  induction rows with
  | nil =>
    rw [putRows, List.mem_singleton]
    exact ⟨.inl, fun h => h.resolve_right fun h => absurd h.1 List.not_mem_nil⟩
  | cons r' rows ih =>
    obtain ⟨hhead, htail⟩ := List.pairwise_cons.mp hsorted
    rw [putRows]
    by_cases hlt : key row < key r'
    · have hne : ∀ x ∈ r' :: rows, key x ≠ key row := by
        intro x hx
        rcases List.mem_cons.mp hx with rfl | hx
        · exact hlt.ne'
        · exact (lt_trans hlt (hhead x hx)).ne'
      rw [if_pos hlt, List.mem_cons]
      exact or_congr_right ⟨fun hx => ⟨hx, hne r hx⟩, And.left⟩
    · rw [if_neg hlt]
      by_cases heq : key row = key r'
      · have hne : ∀ x ∈ rows, key x ≠ key row := fun x hx => heq ▸ (hhead x hx).ne'
        rw [if_pos heq, List.mem_cons, List.mem_cons]
        constructor
        · exact fun h => h.imp_right fun hx => ⟨.inr hx, hne r hx⟩
        · rintro (h | ⟨rfl | hx, hkey⟩)
          · exact .inl h
          · exact absurd heq.symm hkey
          · exact .inr hx
      · rw [if_neg heq, List.mem_cons, List.mem_cons, ih htail]
        constructor
        · rintro (rfl | rfl | ⟨hx, hkey⟩)
          · exact .inr ⟨.inl rfl, fun h => heq h.symm⟩
          · exact .inl rfl
          · exact .inr ⟨.inr hx, hkey⟩
        · rintro (rfl | ⟨rfl | hx, hkey⟩)
          · exact .inr (.inl rfl)
          · exact .inl rfl
          · exact .inr (.inr ⟨hx, hkey⟩)

theorem sorted_putRows (hsorted : rows.Pairwise fun r r' => key r < key r') :
    (putRows key row rows).Pairwise fun r r' => key r < key r' := by
  induction rows with
  | nil => exact List.pairwise_singleton _ _
  | cons r' rows ih =>
    obtain ⟨hhead, htail⟩ := List.pairwise_cons.mp hsorted
    rw [putRows]
    by_cases hlt : key row < key r'
    · rw [if_pos hlt]
      refine List.pairwise_cons.mpr ⟨fun x hx => ?_, hsorted⟩
      rcases List.mem_cons.mp hx with rfl | hx
      · exact hlt
      · exact lt_trans hlt (hhead x hx)
    · rw [if_neg hlt]
      by_cases heq : key row = key r'
      · rw [if_pos heq]
        exact List.pairwise_cons.mpr ⟨fun x hx => heq ▸ hhead x hx, htail⟩
      · rw [if_neg heq]
        refine List.pairwise_cons.mpr ⟨fun x hx => ?_, ih htail⟩
        rcases (mem_putRows htail).mp hx with rfl | ⟨hx, -⟩
        · exact lt_of_le_of_ne (not_lt.mp hlt) (Ne.symm heq)
        · exact hhead x hx

end Rows

namespace Table

variable {key : ρ → κ} {t : Table key} {r row : ρ} {k k' : κ} {p : ρ → Bool} {last : Option κ}
  {n : ℕ}

/-- The row of a key. -/
def find (t : Table key) (k : κ) : Option ρ := t.rows.find? fun r => key r = k

theorem find_eq_none : t.find k = none ↔ ∀ r ∈ t.rows, key r ≠ k := by
  rw [find, List.find?_eq_none]
  simp only [decide_eq_true_eq, ne_eq]

/-- There is one row for a key. -/
theorem eq_of_key {r' : ρ} (hr : r ∈ t.rows) (hr' : r' ∈ t.rows) (h : key r = key r') : r = r' := by
  have hnodup : (t.rows.map key).Nodup := List.pairwise_map.mpr (t.sorted.imp fun hlt => hlt.ne)
  exact List.inj_on_of_nodup_map hnodup hr hr' h

theorem find_eq_some : t.find k = some r ↔ r ∈ t.rows ∧ key r = k := by
  constructor
  · intro h
    rw [find] at h
    have hkey := List.find?_some h
    exact ⟨List.mem_of_find?_eq_some h, of_decide_eq_true hkey⟩
  · rintro ⟨hr, rfl⟩
    cases hfind : t.find (key r) with
    | none => exact absurd rfl (find_eq_none.mp hfind r hr)
    | some r' =>
      have hr' := List.mem_of_find?_eq_some hfind
      have hkey := List.find?_some hfind
      rw [eq_of_key hr' hr (of_decide_eq_true hkey)]

/-! ## The statements -/

/-- Insert a row, or replace the one with its key. -/
def put (t : Table key) (row : ρ) : Table key := ⟨putRows key row t.rows, sorted_putRows t.sorted⟩

theorem mem_put : r ∈ (t.put row).rows ↔ r = row ∨ r ∈ t.rows ∧ key r ≠ key row := mem_putRows t.sorted

theorem find_put_self : (t.put row).find (key row) = some row :=
  find_eq_some.mpr ⟨mem_put.mpr (.inl rfl), rfl⟩

theorem find_put_of_ne (h : k ≠ key row) : (t.put row).find k = t.find k := by
  cases hfind : t.find k with
  | none =>
    refine find_eq_none.mpr fun r hr => ?_
    rcases mem_put.mp hr with rfl | ⟨hr, -⟩
    · exact Ne.symm h
    · exact find_eq_none.mp hfind r hr
  | some r =>
    obtain ⟨hr, rfl⟩ := find_eq_some.mp hfind
    exact find_eq_some.mpr ⟨mem_put.mpr (.inr ⟨hr, h⟩), rfl⟩

/-- Change the row of a key, but not its key. -/
def change (t : Table key) (k : κ) (f : ρ → ρ) (hf : ∀ r, key (f r) = key r) : Table key where
  rows := t.rows.map fun r => if key r = k then f r else r
  sorted := by
    refine List.pairwise_map.mpr (t.sorted.imp fun {r r'} hlt => ?_)
    have hkey : ∀ r, key (if key r = k then f r else r) = key r := fun r => by
      split
      · exact hf r
      · rfl
    rw [hkey, hkey]
    exact hlt

section Change

variable {f : ρ → ρ} (hf : ∀ r, key (f r) = key r)

theorem find_change_self : (t.change k f hf).find k = (t.find k).map f := by
  cases hfind : t.find k with
  | none =>
    refine find_eq_none.mpr fun r hr => ?_
    obtain ⟨r', hr', rfl⟩ := List.mem_map.mp hr
    have hne := find_eq_none.mp hfind r' hr'
    rwa [if_neg hne]
  | some r =>
    obtain ⟨hr, hkey⟩ := find_eq_some.mp hfind
    refine find_eq_some.mpr ⟨List.mem_map.mpr ⟨r, hr, if_pos hkey⟩, ?_⟩
    rw [hf, hkey]

theorem find_change_of_ne (h : k' ≠ k) : (t.change k f hf).find k' = t.find k' := by
  cases hfind : t.find k' with
  | none =>
    refine find_eq_none.mpr fun r hr => ?_
    obtain ⟨r', hr', rfl⟩ := List.mem_map.mp hr
    have hne := find_eq_none.mp hfind r' hr'
    split
    · rwa [hf]
    · exact hne
  | some r =>
    obtain ⟨hr, rfl⟩ := find_eq_some.mp hfind
    exact find_eq_some.mpr ⟨List.mem_map.mpr ⟨r, hr, if_neg h⟩, rfl⟩

end Change

/-- Delete some rows. -/
def delete (t : Table key) (p : ρ → Bool) : Table key := ⟨t.rows.filter fun r => !p r, t.sorted.filter _⟩

theorem find_delete : (t.delete p).find k = (t.find k).filter fun r => !p r := by
  cases hfind : t.find k with
  | none =>
    exact find_eq_none.mpr fun r hr => find_eq_none.mp hfind r (List.mem_filter.mp hr).1
  | some r =>
    obtain ⟨hr, rfl⟩ := find_eq_some.mp hfind
    rw [Option.filter_some]
    split
    · rename_i hp
      exact find_eq_some.mpr ⟨List.mem_filter.mpr ⟨hr, hp⟩, rfl⟩
    · rename_i hp
      refine find_eq_none.mpr fun r' hr' hkey => hp ?_
      obtain ⟨hr', hp'⟩ := List.mem_filter.mp hr'
      rwa [eq_of_key hr' hr hkey] at hp'

/-! ## Reading in pages -/

/-- The rows that are left to read. -/
def unread (t : Table key) (p : ρ → Bool) (last : Option κ) : List ρ :=
  t.rows.filter fun r => p r && decide (After last (key r))

/-- The next page. -/
def page (t : Table key) (p : ρ → Bool) (last : Option κ) (n : ℕ) : List ρ :=
  (t.unread p last).take n

theorem mem_unread : r ∈ t.unread p last ↔ r ∈ t.rows ∧ p r = true ∧ After last (key r) := by
  rw [unread, List.mem_filter, Bool.and_eq_true, decide_eq_true_iff]

theorem mem_page (h : r ∈ t.page p last n) : r ∈ t.rows ∧ p r = true ∧ After last (key r) :=
  mem_unread.mp (List.mem_of_mem_take h)

/-- A page is in order. -/
theorem page_sorted : (t.page p last n).Pairwise fun r r' => key r < key r' :=
  (t.sorted.filter _).take

/-- The last key that was read, after a page. -/
def lastKey (key : ρ → κ) (last : Option κ) (rows : List ρ) : Option κ :=
  match rows.getLast? with
  | none => last
  | some r => some (key r)

omit [LinearOrder κ] in
theorem lastKey_cases (last : Option κ) (rows : List ρ) :
    rows = [] ∧ lastKey key last rows = last ∨
      ∃ init r, rows = init ++ [r] ∧ lastKey key last rows = some (key r) := by
  rcases List.eq_nil_or_concat rows with rfl | ⟨init, r, rfl⟩
  · exact .inl ⟨rfl, rfl⟩
  · refine .inr ⟨init, r, List.concat_eq_append, ?_⟩
    rw [lastKey, List.concat_eq_append, List.getLast?_append_of_ne_nil _ (List.cons_ne_nil r [])]
    rfl

/-- Behind a page are the rows that were not in it. -/
theorem unread_page : t.unread p (lastKey key last (t.page p last n)) = (t.unread p last).drop n := by
  have hsplit : t.unread p last = t.page p last n ++ (t.unread p last).drop n :=
    (List.take_append_drop n _).symm
  rcases @lastKey_cases _ _ key last (t.page p last n) with ⟨hnil, hlast⟩ | ⟨init, r, hpage, hlast⟩
  · rw [hlast]
    rw [hnil, List.nil_append] at hsplit
    exact hsplit
  · have hsorted : (t.unread p last).Pairwise fun r r' => key r < key r' := t.sorted.filter _
    rw [hsplit, hpage] at hsorted
    obtain ⟨hfront, -, hcross⟩ := List.pairwise_append.mp hsorted
    have hle : ∀ x ∈ init ++ [r], key x ≤ key r := by
      intro x hx
      rcases List.mem_append.mp hx with hx | hx
      · exact ((List.pairwise_append.mp hfront).2.2 x hx r (List.mem_singleton.mpr rfl)).le
      · rw [List.mem_singleton.mp hx]
    have hmore : t.unread p (some (key r)) =
        (t.unread p last).filter fun x => decide (After (some (key r)) (key x)) := by
      rw [unread, unread, List.filter_filter]
      refine List.filter_congr fun x _ => ?_
      by_cases hx : After (some (key r)) (key x)
      · have hr := (mem_page (hpage ▸ List.mem_append_right init (List.mem_singleton.mpr rfl))).2.2
        rw [decide_eq_true hx, decide_eq_true (hr.trans (hx _ rfl)), Bool.and_true, Bool.true_and]
      · rw [decide_eq_false hx, Bool.and_false, Bool.false_and]
    rw [hlast, hmore]
    conv_lhs => rw [hsplit, hpage]
    rw [List.filter_append, List.filter_eq_nil_iff.mpr, List.filter_eq_self.mpr, List.nil_append]
    · intro x hx
      refine decide_eq_true fun l heq => Option.some.inj heq ▸ hcross r ?_ x hx
      exact List.mem_append_right _ (List.mem_singleton.mpr rfl)
    · intro x hx hafter
      exact absurd (of_decide_eq_true hafter _ rfl) (not_lt.mpr (hle x hx))

end Table

end Inn.Keyset
