import Inn.Expire.Rules
import Mathlib.Data.List.Perm.Basic

/-!
# Inn.Expire.Crosspost — an article in several groups

The entries of an article are visited in some order, one call of
`OVgroupbasedexpire` each:

* `EXPsplit_entries` — each call finds the groups of the article;
* `consistent_iff` — the calls together do what the options and the rules mean
  exactly when no rule with X is met in the default mode, and when with -e the
  groups agree or one of them has such a rule.
-/

namespace Inn.Expire

/-- An entry of an Xref. -/
structure Entry where
  Group : List UInt8
  Number : List UInt8

/-- An entry as it is in the Xref. -/
def Entry.text (e : Entry) : List UInt8 := e.Group ++ COLON :: e.Number

/-- No space in an entry, and no colon in the name of its group. -/
def Entry.Wf (e : Entry) : Prop := SPACE ∉ e.Group ∧ COLON ∉ e.Group ∧ SPACE ∉ e.Number

instance (e : Entry) : Decidable e.Wf := inferInstanceAs (Decidable (_ ∧ _ ∧ _))

/-- The Xref lists the entries after the name of the host. -/
def Article.Lists (art : Article) (entries : List Entry) : Prop :=
  entries ≠ [] ∧ (∀ e ∈ entries, e.Wf) ∧ ∃ host, SPACE ∉ host ∧
    art.Xref = some (host ++ SPACE :: [SPACE].intercalate (entries.map Entry.text))

/-- The entries that were dropped, and whether the article was removed. -/
structure Outcome where
  dropped : List (List UInt8)
  removed : Bool

/-- What becomes of one entry. -/
def visit (conf : Config) (art : Article) (o : Outcome) (group : List UInt8) : Outcome :=
  let (drop, remove) := OVgroupbasedexpire conf art group
  { dropped := if drop then group :: o.dropped else o.dropped, removed := o.removed || remove }

/-- The entries of an article are visited. -/
def expireover (conf : Config) (art : Article) (visits : List (List UInt8)) : Outcome :=
  visits.foldl (visit conf art) { dropped := [], removed := false }

/-! ## Reading the Xref -/

theorem Entry.text_ne_nil (e : Entry) : e.text ≠ [] := by
  simp [text]

theorem Entry.Wf.space {e : Entry} (h : e.Wf) : SPACE ∉ e.text := by
  have hne : SPACE ≠ COLON := by decide
  simp [text, h.1, h.2.2, hne]

theorem Entry.Wf.name {e : Entry} (h : e.Wf) : entryName e.text = some e.Group := by
  have hall : ∀ c ∈ e.Group, decide (c ≠ COLON) = true := by
    intro c hc
    exact decide_eq_true fun heq => h.2.1 (heq ▸ hc)
  rw [entryName, if_pos (by simp [text]), text, List.takeWhile_append_of_pos hall]
  simp

theorem takeWhile_field {sep : UInt8} {field rest : List UInt8} (h : sep ∉ field) :
    (field ++ sep :: rest).takeWhile (· ≠ sep) = field ∧
      (field ++ sep :: rest).dropWhile (· ≠ sep) = sep :: rest := by
  have hall : ∀ c ∈ field, decide (c ≠ sep) = true := by
    intro c hc
    exact decide_eq_true fun heq => h (heq ▸ hc)
  rw [List.takeWhile_append_of_pos hall, List.dropWhile_append_of_pos hall]
  simp

theorem takeWhile_last {sep : UInt8} {field : List UInt8} (h : sep ∉ field) :
    field.takeWhile (· ≠ sep) = field ∧ field.dropWhile (· ≠ sep) = [] := by
  have hall : ∀ c ∈ field, decide (c ≠ sep) = true := by
    intro c hc
    exact decide_eq_true fun heq => h (heq ▸ hc)
  have htake := @List.takeWhile_append_of_pos _ _ field [] hall
  have hdrop := @List.dropWhile_append_of_pos _ _ field [] hall
  exact ⟨by simpa using htake, by simpa using hdrop⟩

/-- A joined text starts with its first field. -/
theorem intercalate_head {sep : UInt8} {field : List UInt8} {fields : List (List UInt8)}
    (h : field ≠ [] ∧ sep ∉ field) :
    [sep].intercalate (field :: fields) ≠ [] ∧
      ([sep].intercalate (field :: fields)).dropWhile (· = sep) =
        [sep].intercalate (field :: fields) := by
  obtain ⟨c, cs, rfl⟩ := List.exists_cons_of_ne_nil h.1
  have hc : c ≠ sep := fun heq => h.2 (heq ▸ List.mem_cons_self)
  cases fields with
  | nil => simp [List.intercalate, hc]
  | cons next rest => simp [List.intercalate, List.intersperse, hc]

theorem length_intercalate (sep : UInt8) (field : List UInt8) (fields : List (List UInt8)) :
    fields.length ≤ ([sep].intercalate (field :: fields)).length := by
  induction fields generalizing field with
  | nil => simp
  | cons next rest ih =>
    have htext : [sep].intercalate (field :: next :: rest) =
        field ++ sep :: [sep].intercalate (next :: rest) := by
      simp [List.intercalate, List.intersperse]
    have hrest := ih next
    rw [htext]
    simp only [List.length_append, List.length_cons]
    omega

/-- The fields of a text are found, as long as there is room for them. -/
theorem splitFields_intercalate {sep : UInt8} {count : ℕ} {field : List UInt8}
    {fields argv : List (List UInt8)} {fuel : ℕ}
    (h : ∀ f ∈ field :: fields, f ≠ [] ∧ sep ∉ f) (hfuel : fields.length < fuel) :
    splitFields sep count ([sep].intercalate (field :: fields)) argv fuel =
      if argv.length + fields.length < count then some (argv ++ field :: fields) else none := by
  induction fields generalizing field argv fuel with
  | nil =>
    obtain ⟨fuel, rfl⟩ : ∃ n, fuel = n + 1 := ⟨fuel - 1, by simp at hfuel; omega⟩
    obtain ⟨htake, hdrop⟩ := takeWhile_last (h field (by simp)).2
    have htext : [sep].intercalate [field] = field := by simp
    rw [htext, splitFields, htake, hdrop]
    simp only [List.dropWhile_nil, if_true, List.length_nil, Nat.add_zero]
    by_cases hcount : argv.length < count
    · rw [if_neg (by omega), if_pos hcount]
    · rw [if_pos (by omega), if_neg hcount]
  | cons next rest ih =>
    obtain ⟨fuel, rfl⟩ : ∃ n, fuel = n + 1 := ⟨fuel - 1, by simp at hfuel; omega⟩
    have htext : [sep].intercalate (field :: next :: rest) =
        field ++ sep :: [sep].intercalate (next :: rest) := by
      simp [List.intercalate, List.intersperse]
    obtain ⟨htake, hdrop⟩ := @takeWhile_field sep field ([sep].intercalate (next :: rest))
      (h field (by simp)).2
    obtain ⟨hne, hskip⟩ := @intercalate_head sep next rest (h next (by simp))
    have hsep : (sep :: [sep].intercalate (next :: rest)).dropWhile (· = sep) =
        [sep].intercalate (next :: rest) := by
      rw [List.dropWhile_cons_of_pos (by simp), hskip]
    rw [htext, splitFields, htake, hdrop, hsep]
    simp only [if_neg hne]
    rw [ih (fun f hf => h f (List.mem_cons_of_mem _ hf)) (by simp at hfuel; omega)]
    simp only [List.length_append, List.length_cons, List.length_nil, List.append_assoc,
      List.cons_append, List.nil_append]
    by_cases hcount : argv.length + (rest.length + 1) < count
    · rw [if_neg (by omega), if_pos (by omega), if_pos hcount]
    · rw [if_neg hcount]
      split
      · rfl
      · rw [if_neg (by omega)]

variable {conf : Config} {art : Article} {entries : List Entry}

/-- The groups of an article are found, unless there are more than in the active file. -/
theorem EXPsplit_entries (hne : entries ≠ []) (hwf : ∀ e ∈ entries, e.Wf) (count : ℕ) :
    EXPsplit ([SPACE].intercalate (entries.map Entry.text)) SPACE count =
      if entries.length ≤ count then some (entries.map Entry.text) else none := by
  obtain ⟨e, es, rfl⟩ := List.exists_cons_of_ne_nil hne
  have hfields : ∀ f ∈ e.text :: es.map Entry.text, f ≠ [] ∧ SPACE ∉ f := by
    rw [← List.map_cons]
    rintro f hf
    obtain ⟨e', he', rfl⟩ := List.mem_map.mp hf
    exact ⟨e'.text_ne_nil, (hwf e' he').space⟩
  obtain ⟨hne, hskip⟩ := @intercalate_head SPACE e.text (es.map Entry.text)
    (hfields _ List.mem_cons_self)
  rw [List.map_cons, EXPsplit, hskip]
  simp only [if_neg hne]
  rw [splitFields_intercalate hfields]
  · rw [List.length_nil, Nat.zero_add, List.length_map, List.nil_append, List.length_cons]
    rfl
  · exact Nat.lt_succ_of_le (length_intercalate SPACE e.text (es.map Entry.text))

theorem mapM_entryName (hwf : ∀ e ∈ entries, e.Wf) :
    (entries.map Entry.text).mapM entryName = some (entries.map Entry.Group) := by
  induction entries with
  | nil => rfl
  | cons e es ih =>
    rw [List.map_cons, List.mapM_cons, (hwf e List.mem_cons_self).name,
      ih fun e' he' => hwf e' (List.mem_cons_of_mem _ he')]
    rfl

/-- What a call does for an article with an Xref. -/
theorem OVgroupbasedexpire_listed (h : art.Lists entries) (group : List UInt8) :
    OVgroupbasedexpire conf art group =
      if art.exempt conf then (false, false)
      else match art.when conf with
        | none => (true, false)
        | some when =>
          if conf.Groups.length < entries.length then (true, false)
          else decision conf art.empty group (entries.map Entry.Group)
            (EXPkeepit conf · when art.expires) := by
  obtain ⟨hne, hwf, host, hhost, hXref⟩ := h
  have hlist : art.groupList group = some ([SPACE].intercalate (entries.map Entry.text)) := by
    obtain ⟨e, es, rfl⟩ := List.exists_cons_of_ne_nil hne
    have hhead := @intercalate_head SPACE e.text (es.map Entry.text)
      ⟨e.text_ne_nil, (hwf e List.mem_cons_self).space⟩
    rw [Article.groupList, hXref]
    simp only
    rw [if_pos (by simp), (takeWhile_field hhost).2, List.dropWhile_cons_of_pos (by simp),
      List.map_cons, hhead.2]
  rw [OVgroupbasedexpire, hlist]
  split
  · rfl
  · cases art.when conf with
    | none => rfl
    | some when =>
      simp only [EXPsplit_entries hne hwf]
      by_cases hcount : entries.length ≤ conf.Groups.length
      · rw [if_pos hcount, if_neg (by omega)]
        simp only [mapM_entryName hwf]
      · rw [if_neg hcount, if_pos (by omega)]

/-! ## The calls together -/

theorem foldl_visit (visits : List (List UInt8)) (o : Outcome) :
    (∀ g, g ∈ (visits.foldl (visit conf art) o).dropped ↔
      g ∈ o.dropped ∨ g ∈ visits ∧ (OVgroupbasedexpire conf art g).1 = true) ∧
    ((visits.foldl (visit conf art) o).removed = true ↔
      o.removed = true ∨ ∃ g ∈ visits, (OVgroupbasedexpire conf art g).2 = true) := by
  induction visits generalizing o with
  | nil => simp
  | cons g gs ih =>
    obtain ⟨hdropped, hremoved⟩ := ih (visit conf art o g)
    refine ⟨fun g' => ?_, ?_⟩
    · rw [List.foldl_cons, hdropped, visit]
      cases hdrop : (OVgroupbasedexpire conf art g).1
      · simp only [hdrop, Bool.false_eq_true, if_false, List.mem_cons]
        refine or_congr_right ⟨fun h => ⟨.inr h.1, h.2⟩, fun h => ⟨h.1.resolve_left ?_, h.2⟩⟩
        rintro rfl
        rw [hdrop] at h
        cases h.2
      · simp only [hdrop, if_true, List.mem_cons]
        constructor
        · rintro ((rfl | h) | h)
          · exact .inr ⟨.inl rfl, hdrop⟩
          · exact .inl h
          · exact .inr ⟨.inr h.1, h.2⟩
        · rintro (h | ⟨rfl | h, hdrop'⟩)
          · exact .inl (.inr h)
          · exact .inl (.inl rfl)
          · exact .inr ⟨h, hdrop'⟩
    · rw [List.foldl_cons, hremoved, visit]
      simp only [Bool.or_eq_true, List.exists_mem_cons_iff, or_assoc]

/-- What has become of the entries and of the article after any visits. -/
theorem mem_dropped (visits : List (List UInt8)) (group : List UInt8) :
    group ∈ (expireover conf art visits).dropped ↔
      group ∈ visits ∧ (OVgroupbasedexpire conf art group).1 = true := by
  rw [expireover, (foldl_visit visits _).1]
  simp

theorem removed_iff (visits : List (List UInt8)) :
    (expireover conf art visits).removed = true ↔
      ∃ group ∈ visits, (OVgroupbasedexpire conf art group).2 = true := by
  rw [expireover, (foldl_visit visits _).2]
  simp

/-- The verdict on the article in a group, where the rules are for it. -/
def Verdict (conf : Config) (art : Article) (group : List UInt8) (krp : KRP) : Prop :=
  art.exempt conf = false ∧
    ∃ when, art.when conf = some when ∧ EXPkeepit conf group when art.expires = krp

/-- What the options and the rules mean for an article, after all its entries. -/
structure Intended (conf : Config) (art : Article) (groups : List (List UInt8)) (o : Outcome) :
    Prop where
  /-- the article goes with its last entry -/
  default : conf.OVearliest = false → conf.OVkeep = false →
    (o.removed = true ↔ ∀ g ∈ groups, g ∈ o.dropped)
  /-- with -e all goes with the first -/
  earliest : conf.OVearliest = true →
    (∃ g ∈ groups, Verdict conf art g .Remove ∨ Verdict conf art g .Poison) →
    o.removed = true ∧ ∀ g ∈ groups, g ∈ o.dropped
  /-- a rule with X is for all groups -/
  poison : (∃ g ∈ groups, Verdict conf art g .Poison) → ∀ g ∈ groups, g ∈ o.dropped

/-- When that is what happens: the rules are not for the article; or its date cannot be
read and there is -e or -k; or it is in more groups than there are and there is -e and
no group expires it, or -k; or a verdict on each group is had, and these suit the options. -/
def Suited (conf : Config) (art : Article) (groups : List (List UInt8)) : Prop :=
  art.exempt conf = true ∨ match art.when conf with
    | none => conf.OVearliest = true ∨ conf.OVkeep = true
    | some when =>
      let krp g := EXPkeepit conf g when art.expires
      if conf.Groups.length < groups.length then
        if conf.OVearliest then ∀ g ∈ groups, krp g = .Keep else conf.OVkeep = true
      else if conf.OVearliest then
        art.empty = true ∨ (∃ g ∈ groups, krp g = .Poison) ∨ (∀ g ∈ groups, krp g = .Keep) ∨
          ∀ g ∈ groups, krp g = .Remove
      else if art.empty then conf.OVkeep = true ∨ ∀ g ∈ groups, krp g ≠ .Keep
      else ∀ g ∈ groups, krp g ≠ .Poison

section Decision

variable {groups : List (List UInt8)} {group : List UInt8} {empty : Bool}
  {krp : List UInt8 → KRP}

theorem delete_iff (hgroup : group ∈ groups) :
    (groups.any fun art => krp art = .Remove && group = art) = true ↔ krp group = .Remove := by
  rw [List.any_eq_true]
  constructor
  · rintro ⟨art, -, h⟩
    obtain ⟨hremove, rfl⟩ : krp art = .Remove ∧ group = art := by simpa using h
    exact hremove
  · exact fun h => ⟨group, hgroup, by simp [h]⟩

/-- With -e. -/
theorem decision_earliest (hmode : conf.OVearliest = true) (hgroup : group ∈ groups) :
    ((decision conf empty group groups krp).1 = true ↔
      krp group = .Remove ∨ (∃ g ∈ groups, krp g = .Poison) ∨ empty = true) ∧
    ((decision conf empty group groups krp).2 = true ↔
      (krp group = .Remove ∨ (∃ g ∈ groups, krp g = .Poison) ∨ empty = true) ∧
        groups.head? = some group) := by
  have hpoison : (groups.any fun art => krp art = .Poison) = true ↔
      ∃ g ∈ groups, krp g = .Poison := by simp
  rw [decision, if_pos hmode, ← delete_iff hgroup, ← hpoison, ← or_assoc]
  simp only [← Bool.or_eq_true]
  split <;> simp_all

/-- In the other modes. -/
theorem decision_other (hmode : conf.OVearliest = false) (hgroup : group ∈ groups) :
    ((decision conf empty group groups krp).1 = true ↔
      krp group = .Remove ∧ ¬ (conf.OVkeep = true ∧ ∃ g ∈ groups, krp g = .Keep) ∨
        empty = true) ∧
    ((decision conf empty group groups krp).2 = true ↔
      (krp group = .Remove ∧ ¬ (conf.OVkeep = true ∧ ∃ g ∈ groups, krp g = .Keep) ∨
        empty = true) ∧ ∀ g ∈ groups, krp g ≠ .Keep) := by
  have hkeep : (groups.any fun art => krp art = .Keep) = true ↔ ∃ g ∈ groups, krp g = .Keep := by
    simp
  have hpurge : (!groups.any fun art => krp art = .Keep) = true ↔
      ∀ g ∈ groups, krp g ≠ .Keep := by simp
  rw [← hpurge, ← hkeep, ← delete_iff hgroup, decision, if_neg (by simp [hmode])]
  generalize (groups.any fun art => krp art = .Keep) = keep
  generalize (groups.any fun art => krp art = .Remove && group = art) = delete
  cases keep <;> cases delete <;> cases empty <;> cases conf.OVkeep <;> simp

end Decision

section Cases

variable {groups : List (List UInt8)} {when : ℤ} {r : List UInt8 → Bool × Bool}

/-- What is meant, said about the calls. -/
theorem intended_iff {o : Outcome}
    (hdropped : ∀ g ∈ groups, g ∈ o.dropped ↔ (r g).1 = true)
    (hremoved : o.removed = true ↔ ∃ g ∈ groups, (r g).2 = true) :
    Intended conf art groups o ↔
      (conf.OVearliest = false → conf.OVkeep = false →
        ((∃ g ∈ groups, (r g).2 = true) ↔ ∀ g ∈ groups, (r g).1 = true)) ∧
      (conf.OVearliest = true →
        (∃ g ∈ groups, Verdict conf art g .Remove ∨ Verdict conf art g .Poison) →
        (∃ g ∈ groups, (r g).2 = true) ∧ ∀ g ∈ groups, (r g).1 = true) ∧
      ((∃ g ∈ groups, Verdict conf art g .Poison) → ∀ g ∈ groups, (r g).1 = true) := by
  have hall : (∀ g ∈ groups, g ∈ o.dropped) ↔ ∀ g ∈ groups, (r g).1 = true :=
    forall₂_congr hdropped
  rw [← hall, ← hremoved]
  exact ⟨fun h => ⟨h.default, h.earliest, h.poison⟩, fun h => ⟨h.1, h.2.1, h.2.2⟩⟩

theorem verdict_iff (hexempt : art.exempt conf = false) (hwhen : art.when conf = some when)
    (g : List UInt8) (krp : KRP) :
    Verdict conf art g krp ↔ EXPkeepit conf g when art.expires = krp := by
  simp [Verdict, hexempt, hwhen]

theorem KRP.keep_iff (krp : KRP) : krp = .Keep ↔ ¬ krp = .Remove ∧ ¬ krp = .Poison := by
  cases krp <;> simp

/-- The calls with -e. -/
theorem calls_earliest {krp : List UInt8 → KRP} {empty : Bool} (hmode : conf.OVearliest = true)
    (hne : groups ≠ []) :
    (((∃ g ∈ groups, krp g = .Remove ∨ krp g = .Poison) →
        (∃ g ∈ groups, (decision conf empty g groups krp).2 = true) ∧
          ∀ g ∈ groups, (decision conf empty g groups krp).1 = true) ∧
      ((∃ g ∈ groups, krp g = .Poison) →
        ∀ g ∈ groups, (decision conf empty g groups krp).1 = true)) ↔
    (empty = true ∨ (∃ g ∈ groups, krp g = .Poison) ∨ (∀ g ∈ groups, krp g = .Keep) ∨
      ∀ g ∈ groups, krp g = .Remove) := by
  obtain ⟨first, hfirst⟩ : ∃ first, groups.head? = some first :=
    ⟨groups.head hne, List.head?_eq_some_head hne⟩
  have hmem : first ∈ groups := List.mem_of_head? hfirst
  have hdrop g (hg : g ∈ groups) := @decision_earliest conf groups g empty krp hmode hg
  by_cases hall : (∃ g ∈ groups, krp g = .Poison) ∨ empty = true
  · -- every entry is dropped, and the first call removes the article
    have hdropped : ∀ g ∈ groups, (decision conf empty g groups krp).1 = true :=
      fun g hg => (hdrop g hg).1.mpr (.inr hall)
    have hremoved : ∃ g ∈ groups, (decision conf empty g groups krp).2 = true :=
      ⟨first, hmem, (hdrop first hmem).2.mpr ⟨.inr hall, hfirst⟩⟩
    exact iff_of_true ⟨fun _ => ⟨hremoved, hdropped⟩, fun _ => hdropped⟩
      (hall.elim (fun h => .inr (.inl h)) .inl)
  · rw [not_or] at hall
    have hremove g (hg : g ∈ groups) : (decision conf empty g groups krp).1 = true ↔
        krp g = .Remove := by
      rw [(hdrop g hg).1, or_iff_left]
      exact fun h => h.elim hall.1 hall.2
    constructor
    · rintro ⟨h, -⟩
      by_cases hany : ∃ g ∈ groups, krp g = .Remove
      · obtain ⟨g, hg, hr⟩ := hany
        exact .inr (.inr (.inr fun g' hg' => (hremove g' hg').mp ((h ⟨g, hg, .inl hr⟩).2 g' hg')))
      · refine .inr (.inr (.inl fun g hg => (krp g).keep_iff.mpr ⟨fun hr => ?_, fun hp => ?_⟩))
        · exact hany ⟨g, hg, hr⟩
        · exact hall.1 ⟨g, hg, hp⟩
    · rintro (h | h | h | h)
      · exact absurd h hall.2
      · exact absurd h hall.1
      · refine ⟨?_, fun hp => absurd hp hall.1⟩
        rintro ⟨g, hg, hr | hp⟩
        · simp [h g hg] at hr
        · simp [h g hg] at hp
      · refine ⟨fun _ => ⟨⟨first, hmem, (hdrop first hmem).2.mpr ⟨.inl (h first hmem), hfirst⟩⟩,
          fun g hg => (hremove g hg).mpr (h g hg)⟩, fun hp => absurd hp hall.1⟩

/-- The calls in the other modes. -/
theorem calls_other {krp : List UInt8 → KRP} {empty : Bool} (hmode : conf.OVearliest = false)
    (hne : groups ≠ []) :
    ((conf.OVkeep = false → ((∃ g ∈ groups, (decision conf empty g groups krp).2 = true) ↔
          ∀ g ∈ groups, (decision conf empty g groups krp).1 = true)) ∧
      ((∃ g ∈ groups, krp g = .Poison) →
        ∀ g ∈ groups, (decision conf empty g groups krp).1 = true)) ↔
    if empty then conf.OVkeep = true ∨ ∀ g ∈ groups, krp g ≠ .Keep
    else ∀ g ∈ groups, krp g ≠ .Poison := by
  obtain ⟨g₀, hg₀⟩ := List.exists_mem_of_ne_nil groups hne
  have hdrop g (hg : g ∈ groups) := @decision_other conf groups g empty krp hmode hg
  cases empty with
  | true =>
    have hdropped : ∀ g ∈ groups, (decision conf true g groups krp).1 = true :=
      fun g hg => (hdrop g hg).1.mpr (.inr rfl)
    have hremoved : (∃ g ∈ groups, (decision conf true g groups krp).2 = true) ↔
        ∀ g ∈ groups, krp g ≠ .Keep :=
      ⟨fun ⟨g, hg, h⟩ => ((hdrop g hg).2.mp h).2, fun h =>
        ⟨g₀, hg₀, (hdrop g₀ hg₀).2.mpr ⟨.inr rfl, h⟩⟩⟩
    rw [if_pos rfl, hremoved, iff_true_right hdropped]
    cases conf.OVkeep with
    | true => exact iff_of_true ⟨fun h => by simp at h, fun _ => hdropped⟩ (.inl rfl)
    | false =>
      exact ⟨fun h => .inr (h.1 rfl), fun h =>
        ⟨fun _ => h.resolve_left (by simp), fun _ => hdropped⟩⟩
  | false =>
    rw [if_neg (by simp)]
    constructor
    · -- a rule with X is not applied to its own group
      rintro ⟨-, h⟩ g hg hp
      have hremove := (hdrop g hg).1.mp (h ⟨g, hg, hp⟩ g hg)
      simp [hp] at hremove
    · intro hno
      refine ⟨fun hmode' => ?_, fun ⟨g, hg, hp⟩ => absurd hp (hno g hg)⟩
      have hremove g (hg : g ∈ groups) : (decision conf false g groups krp).1 = true ↔
          krp g = .Remove := by
        rw [(hdrop g hg).1]
        simp [hmode']
      have hkeep g (hg : g ∈ groups) : krp g = .Remove ↔ krp g ≠ .Keep := by
        rw [ne_eq, KRP.keep_iff, not_and_or, not_not, not_not, or_iff_left (hno g hg)]
      constructor
      · rintro ⟨g, hg, h⟩ g' hg'
        rw [hremove g' hg', hkeep g' hg']
        exact ((hdrop g hg).2.mp h).2 g' hg'
      · intro h
        refine ⟨g₀, hg₀, (hdrop g₀ hg₀).2.mpr ⟨(hdrop g₀ hg₀).1.mp (h g₀ hg₀), fun g hg => ?_⟩⟩
        exact (hkeep g hg).mp ((hremove g hg).mp (h g hg))

end Cases

/-- For every order of the visits. -/
theorem consistent_iff (conf : Config) (art : Article) (entries : List Entry)
    (h : art.Lists entries) (visits : List (List UInt8))
    (hvisits : visits.Perm (entries.map Entry.Group)) :
    Intended conf art (entries.map Entry.Group) (expireover conf art visits) ↔
      Suited conf art (entries.map Entry.Group) := by
  have hcalls := @OVgroupbasedexpire_listed conf art entries h
  have hne : entries.map Entry.Group ≠ [] := by simpa using h.1
  have hlength : (entries.map Entry.Group).length = entries.length := List.length_map _
  generalize entries.map Entry.Group = groups at *
  rw [intended_iff (r := OVgroupbasedexpire conf art)
    (fun g hg => by rw [mem_dropped, hvisits.mem_iff]; simp [hg])
    (by rw [removed_iff]; simp only [hvisits.mem_iff])]
  obtain ⟨g₀, hg₀⟩ := List.exists_mem_of_ne_nil groups hne
  rw [Suited]
  cases hexempt : art.exempt conf with
  | true =>
    have hr : ∀ g, OVgroupbasedexpire conf art g = (false, false) := by simp [hcalls, hexempt]
    simp only [hr, Verdict, hexempt, Bool.false_eq_true, Bool.true_eq_false, false_and, or_self,
      and_false, exists_false, false_implies, implies_true, true_or, iff_true, and_true]
    exact fun _ _ => iff_of_false id fun h => h g₀ hg₀
  | false =>
    cases hwhen : art.when conf with
    | none =>
      have hr : ∀ g, OVgroupbasedexpire conf art g = (true, false) := by
        simp [hcalls, hexempt, hwhen]
      simp only [hr, Verdict, hwhen]
      cases conf.OVearliest <;> simp
    | some when =>
      simp only [verdict_iff hexempt hwhen, hlength]
      generalize hkrp : (fun g => EXPkeepit conf g when art.expires) = krp
      have hkrp' : ∀ g, EXPkeepit conf g when art.expires = krp g := fun g => congrFun hkrp g
      simp only [hkrp'] at ⊢
      rw [Bool.false_eq_true, false_or]
      by_cases hcount : conf.Groups.length < entries.length
      · have hr : ∀ g, OVgroupbasedexpire conf art g = (true, false) := by
          simp [hcalls, hexempt, hwhen, hcount]
        simp only [hr, if_pos hcount]
        cases conf.OVearliest with
        | false => simp
        | true => simp [KRP.keep_iff]
      · have hr : ∀ g, OVgroupbasedexpire conf art g = decision conf art.empty g groups krp := by
          simp [hcalls, hexempt, hwhen, hcount, ← hkrp]
        simp only [hr, if_neg hcount]
        cases hmode : conf.OVearliest with
        | true =>
          simp only [Bool.true_eq_false, false_implies, true_implies, true_and, if_true]
          exact calls_earliest hmode hne
        | false =>
          simp only [Bool.false_eq_true, false_implies, true_implies, true_and, if_false]
          exact calls_other hmode hne

/-- Two groups, of which the first may have a rule with X; nothing is kept in either. -/
def twoGroups (poison : Bool) : Config :=
  { OVnow := 1000, OVrealnow := 1000, OVignoreselfexpire := false, OVusepost := false
    OVkeep := false, OVearliest := false
    Groups := [{ Name := "a".toUTF8.toList, Keep := 900, Default := 900, Purge := 800, Poison := poison },
      { Name := "b".toUTF8.toList, Keep := 900, Default := 900, Purge := 800, Poison := false }] }

/-- An article of the two groups. -/
def crosspost : Article :=
  { selfexpire := false, empty := false, arrived := 500, expires := 0, Date := none
    Xref := some "h a:1 b:1".toUTF8.toList }

def crosspostEntries : List Entry := [⟨[97], [49]⟩, ⟨[98], [49]⟩]

/-- What the rules and the run make of the article. -/
theorem crosspost_evaluated :
    crosspost.Xref =
        some ([104] ++ SPACE :: [SPACE].intercalate (crosspostEntries.map Entry.text)) ∧
      (∀ g ∈ crosspostEntries.map Entry.Group,
        EXPkeepit (twoGroups false) g crosspost.arrived crosspost.expires ≠ .Poison) ∧
      (expireover (twoGroups true) crosspost [[97], [98]]).removed = true ∧
      [97] ∉ (expireover (twoGroups true) crosspost [[97], [98]]).dropped := by
  decide +kernel

theorem crosspost_lists : crosspost.Lists crosspostEntries :=
  ⟨nofun, by decide, [104], by decide, crosspost_evaluated.1⟩

/-- Without X the article goes when both entries do. -/
theorem consistent_without_poison :
    Intended (twoGroups false) crosspost (crosspostEntries.map Entry.Group)
      (expireover (twoGroups false) crosspost [[98], [97]]) :=
  (consistent_iff (twoGroups false) crosspost crosspostEntries crosspost_lists [[98], [97]]
    (List.Perm.swap _ _ _)).mpr (.inr crosspost_evaluated.2.1)

/-- With X the article goes, and its entry in the group of the rule stays. -/
theorem poison_is_not_consistent :
    ¬ Intended (twoGroups true) crosspost (crosspostEntries.map Entry.Group)
      (expireover (twoGroups true) crosspost [[97], [98]]) := by
  obtain ⟨-, -, hremoved, hstays⟩ := crosspost_evaluated
  intro h
  exact hstays ((h.default rfl rfl).mp hremoved [97] List.mem_cons_self)

end Inn.Expire
