import Inn.Buffindexed.Gettoken
import Inn.Rules
import Mathlib.Data.List.Sort

/-!
# Inn.Buffindexed.Cached — the index that is kept between lookups

With `OVCACHEKEEP`, a reader keeps the sorted index of the last search in `Gib`, and
`buffindexed_getartinfo` looks there first. Whose index it is, is known from `Cachesearch`, which
is set when a search is closed; whether it is still good, from the number of its entries.

* `freshLookup_agrees` — the search without a kept index is right;
* `cache_step` — a kept index is one that the group named by `owner` had before;
* `lookup_agrees` — in a run of careful steps every lookup is right.
-/

namespace Inn.Buffindexed.Cached

open Inn.Storage

/-! ## The groups -/

/-- The part of a `GROUPENTRY` that is read here, with the entries of the index blocks. -/
structure GROUPENTRY where
  low : ℕ
  high : ℕ
  index : List OVINDEX

/-- `count`. -/
def GROUPENTRY.count (ge : GROUPENTRY) : ℕ := ge.index.length

/-- `ovaddrec`, where it succeeds. -/
def ovaddrec (ge : GROUPENTRY) (e : OVINDEX) : GROUPENTRY where
  low := if ge.low = 0 ∨ e.artnum < ge.low then e.artnum else ge.low
  high := if ge.high = 0 ∨ ge.high < e.artnum then e.artnum else ge.high
  index := ge.index ++ [e]

/-- `buffindexed_add`. -/
def buffindexed_add (Cutofflow : Bool) (ge : GROUPENTRY) (e : OVINDEX) : GROUPENTRY :=
  if Cutofflow ∧ e.artnum < ge.low then ge else ovaddrec ge e

/-- What `qsort` makes of the index. -/
structure Sorts (qsort : List OVINDEX → List OVINDEX) : Prop where
  perm : ∀ Gib, (qsort Gib).Perm Gib
  sorted : ∀ Gib, SortedIndex (qsort Gib)

section Code

variable (qsort : List OVINDEX → List OVINDEX)

/-- `Gib` after `ovgroupmmap`, for a group with entries and marks in order. -/
def ovgroupmmap (ge : GROUPENTRY) : List OVINDEX := removeDuplicates (qsort ge.index)

/-- The marks of a group without articles. -/
def emptied (ge : GROUPENTRY) : GROUPENTRY :=
  let low := if max ge.low ge.high = 0 then 1 else max ge.low ge.high
  { ge with low := low, high := low - 1 }

/-- `buffindexed_expiregroup`, which keeps these articles. -/
def buffindexed_expiregroup (keep : OVINDEX → Bool) (ge : GROUPENTRY) : GROUPENTRY :=
  if ge.count = 0 then emptied ge
  else
    let kept := (ovgroupmmap qsort ge).filter fun e =>
      e.artnum ≠ 0 ∧ ge.low ≤ e.artnum ∧ e.artnum ≤ ge.high ∧ keep e
    let newge := kept.foldl ovaddrec ⟨0, ge.high, []⟩
    let newge := if newge.low = 0 then { newge with low := newge.high } else newge
    if newge.count = 0 then emptied newge else newge

/-! ## The reader -/

/-- `OVSEARCH`. -/
structure OVSEARCH where
  group : List UInt8
  count : ℕ
deriving DecidableEq

/-- The groups, with all entries they ever had, and the reader. `searches` are the handles of the
searches that are open; `owner` is the group that `Gib` was read from. -/
structure State where
  groups : List UInt8 → Option GROUPENTRY
  added : List UInt8 → OVINDEX → Prop
  Gib : Option (List OVINDEX)
  Cachesearch : Option OVSEARCH
  searches : List OVSEARCH
  owner : List UInt8

/-- `ovopensearch`: what it leaves in `Gib`, which was free, and the search. -/
def ovopensearch (ge : GROUPENTRY) (group : List UInt8) (low high : ℕ) :
    Option (List OVINDEX) × OVSEARCH :=
  (if min high ge.high < max low ge.low ∨ ge.count = 0 then none else some (ovgroupmmap qsort ge),
    ⟨group, ge.count⟩)

/-- `Gib` is free. -/
def State.freed (s : State) : State :=
  if s.Gib.isSome then { s with Gib := none, Cachesearch := none } else s

/-- `buffindexed_opensearch`. -/
def buffindexed_opensearch (s : State) (group : List UInt8) (low high : ℕ) : State :=
  let s := s.freed
  match s.groups group with
  | none => s
  | some ge =>
    let opened := ovopensearch qsort ge group low high
    { s with
      Gib := opened.1
      searches := s.searches ++ [opened.2]
      owner := if opened.1.isSome then group else s.owner }

/-- `buffindexed_closesearch` of one of the open searches. -/
def buffindexed_closesearch (s : State) (handle : ℕ) : State :=
  { s with
    Cachesearch := s.searches[handle]?.or s.Cachesearch
    searches := s.searches.eraseIdx handle }

/-- `ovsearch`, for the article of a lookup. -/
def ovsearch (Gib : Option (List OVINDEX)) (lo hi : ℕ) : Option TOKEN :=
  match (Gib.getD []).find? fun e => e.artnum ≠ 0 ∧ lo ≤ e.artnum with
  | none => none
  | some e => if hi < e.artnum then none else some e.token

/-- `buffindexed_getartinfo` from where `Gib` is free. -/
def freshLookup (s : State) (group : List UInt8) (artnum : ℕ) : State × Option TOKEN :=
  match s.groups group with
  | none => (s, none)
  | some ge =>
    let opened := ovopensearch qsort ge group artnum artnum
    ({ s with
        Gib := opened.1
        Cachesearch := some opened.2
        owner := if opened.1.isSome then group else s.owner },
      ovsearch opened.1 (max artnum ge.low) (min artnum ge.high))

/-- `buffindexed_getartinfo`; the result `none` is a read behind `Gib`. -/
def buffindexed_getartinfo (s : State) (group : List UInt8) (artnum : ℕ) :
    State × Option (Option TOKEN) :=
  match s.Gib with
  | none => ((freshLookup qsort s group artnum).1, some (freshLookup qsort s group artnum).2)
  | some Gib =>
    if s.Cachesearch.any (·.group ≠ group) then
      ((freshLookup qsort s.freed group artnum).1, some (freshLookup qsort s.freed group artnum).2)
    else
      match gettoken Gib artnum with
      | none => (s, none)
      | some (some token) => (s, some (some token))
      | some none =>
        match s.groups group with
        | none => (s, some none)
        | some ge =>
          -- no new overview data is stored
          if s.Cachesearch.any (·.count = ge.count) then (s, some none)
          else
            ((freshLookup qsort s.freed group artnum).1,
              some (freshLookup qsort s.freed group artnum).2)

end Code

/-! ## The system -/

/-- The reader's calls, and what other processes do to a group. -/
inductive Action where
  | opensearch (group : List UInt8) (low high : ℕ)
  | closesearch (handle : ℕ)
  | getartinfo (group : List UInt8) (artnum : ℕ)
  | add (Cutofflow : Bool) (group : List UInt8) (e : OVINDEX)
  | expire (group : List UInt8) (keep : OVINDEX → Bool)

/-- A group is changed. -/
def State.modify (s : State) (group : List UInt8) (f : GROUPENTRY → GROUPENTRY) : State :=
  { s with groups := fun g => if g = group then (s.groups g).map f else s.groups g }

def step (qsort : List OVINDEX → List OVINDEX) (s : State) : Action → State
  | .opensearch group low high => buffindexed_opensearch qsort s group low high
  | .closesearch handle => buffindexed_closesearch s handle
  | .getartinfo group artnum => (buffindexed_getartinfo qsort s group artnum).1
  | .add Cutofflow group e =>
    { s.modify group (buffindexed_add Cutofflow · e) with
      added := fun g f => s.added g f ∨ g = group ∧ f = e }
  | .expire group keep => s.modify group (buffindexed_expiregroup qsort keep)

/-- Articles have positive numbers. -/
def Next (qsort : List OVINDEX → List OVINDEX) (s : State) (a : Action) (s' : State) : Prop :=
  s' = step qsort s a ∧ ∀ Cutofflow group e, a = .add Cutofflow group e → 0 < e.artnum

/-- The article is in the group. -/
def InGroup (s : State) (group : List UInt8) (artnum : ℕ) : Prop :=
  ∃ ge, s.groups group = some ge ∧ ∃ e ∈ ge.index, e.artnum = artnum

/-- The result of a lookup agrees with the group: an article that is there is found, and a token
is that of the article. A read behind the index may come to anything. -/
structure Agrees (s : State) (group : List UInt8) (artnum : ℕ) (result : Option (Option TOKEN)) :
    Prop where
  inBounds : result ≠ none
  found : InGroup s group artnum → ∃ token, result = some (some token)
  token : ∀ token, result = some (some token) → s.added group ⟨artnum, token⟩

/-- The index that is kept is searched for this group. -/
def Searched (s : State) (group : List UInt8) (Gib : List OVINDEX) : Prop :=
  s.Gib = some Gib ∧ ∀ search, s.Cachesearch = some search → search.group = group

/-- A lookup in the kept index is right: it is an index of this group, the search comes to the
article's place in it, and if the group has as many entries now as it had then, the article is
not new. -/
structure Kept (s : State) (group : List UInt8) (artnum : ℕ) (Gib : List OVINDEX) : Prop where
  owner : s.owner = group
  number : 0 < artnum
  reached : Reached Gib artnum
  inside : EndsInside Gib artnum
  count : ∀ search ge, s.Cachesearch = some search → s.groups group = some ge →
    search.count = ge.count → InGroup s group artnum → ∃ e ∈ Gib, e.artnum = artnum

/-- The steps that are right. -/
def Careful (s : State) : Action → Prop
  | .getartinfo group artnum => ∀ Gib, Searched s group Gib → Kept s group artnum Gib
  | _ => True

/-- The numbers of the entries are between the marks. -/
def Marked (ge : GROUPENTRY) : Prop :=
  ∀ e ∈ ge.index, 0 < ge.low ∧ 0 < e.artnum ∧ ge.low ≤ e.artnum ∧ e.artnum ≤ ge.high

/-- The start of a reader. -/
structure Start (s : State) : Prop where
  Gib : s.Gib = none
  Cachesearch : s.Cachesearch = none
  searches : s.searches = []
  added : ∀ group ge, s.groups group = some ge → ∀ e ∈ ge.index, s.added group e
  marks : ∀ group ge, s.groups group = some ge → Marked ge

/-! ## The marks -/

section Groups

variable {qsort : List OVINDEX → List OVINDEX} {ge : GROUPENTRY} {e : OVINDEX}
  {entries : List OVINDEX} {keep : OVINDEX → Bool}

theorem ovaddrec_marked (h : Marked ge) (he : 0 < e.artnum) : Marked (ovaddrec ge e) := by
  intro f hf
  rw [ovaddrec] at hf ⊢
  rcases List.mem_append.mp hf with hf | hf
  · obtain ⟨hlow, hpos, hle, hge⟩ := h f hf
    refine ⟨?_, hpos, ?_, ?_⟩
    all_goals
      dsimp only
      split <;> omega
  · obtain rfl := List.mem_singleton.mp hf
    refine ⟨?_, he, ?_, ?_⟩
    all_goals
      dsimp only
      split <;> omega

theorem foldl_ovaddrec (h : Marked ge) (hentries : ∀ e ∈ entries, 0 < e.artnum) :
    Marked (entries.foldl ovaddrec ge) ∧
      (entries.foldl ovaddrec ge).index = ge.index ++ entries := by
  induction entries generalizing ge with
  | nil => exact ⟨h, (List.append_nil _).symm⟩
  | cons e entries ih =>
    obtain ⟨hmarked, hindex⟩ := ih (ovaddrec_marked h (hentries e List.mem_cons_self))
      fun f hf => hentries f (List.mem_cons_of_mem _ hf)
    refine ⟨hmarked, hindex.trans ?_⟩
    rw [ovaddrec, List.append_assoc, List.singleton_append]

theorem buffindexed_add_marked {Cutofflow : Bool} (h : Marked ge) (he : 0 < e.artnum) :
    Marked (buffindexed_add Cutofflow ge e) := by
  rw [buffindexed_add]
  split
  · exact h
  · exact ovaddrec_marked h he

theorem mem_buffindexed_add {Cutofflow : Bool} {f : OVINDEX}
    (hf : f ∈ (buffindexed_add Cutofflow ge e).index) : f ∈ ge.index ∨ f = e := by
  rw [buffindexed_add] at hf
  split at hf
  · exact .inl hf
  · exact (List.mem_append.mp hf).imp_right List.mem_singleton.mp

/-- What is left of the index for the search is in the index. -/
theorem mem_of_mem_ovgroupmmap (hsort : Sorts qsort) (he : e ∈ ovgroupmmap qsort ge)
    (hne : e.artnum ≠ 0) : e ∈ ge.index :=
  (hsort.perm _).mem_iff.mp (exists_of_mem_removeDuplicates _ e he hne)

theorem marked_of_nil (h : ge.index = []) (l : List OVINDEX) :
    Marked ge ∧ ∀ e ∈ ge.index, e ∈ l := by
  constructor
  all_goals
    intro e he
    rw [h] at he
    cases he

theorem expire_index (hsort : Sorts qsort) :
    Marked (buffindexed_expiregroup qsort keep ge) ∧
      ∀ e ∈ (buffindexed_expiregroup qsort keep ge).index, e ∈ ge.index := by
  rw [buffindexed_expiregroup]
  split
  · rename_i hcount
    have hnil : ge.index = [] := List.length_eq_zero_iff.mp hcount
    exact @marked_of_nil (emptied ge) hnil _
  · dsimp only
    generalize hkept : (ovgroupmmap qsort ge).filter (fun e =>
      decide (e.artnum ≠ 0 ∧ ge.low ≤ e.artnum ∧ e.artnum ≤ ge.high ∧ keep e = true)) = kept
    have hmem : ∀ e ∈ kept, e ∈ ge.index ∧ 0 < e.artnum := by
      intro e he
      rw [← hkept, List.mem_filter, decide_eq_true_eq] at he
      exact ⟨mem_of_mem_ovgroupmmap hsort he.1 he.2.1, Nat.pos_of_ne_zero he.2.1⟩
    obtain ⟨hmarked, hindex⟩ := @foldl_ovaddrec ⟨0, ge.high, []⟩ kept (fun e he => nomatch he)
      fun e he => (hmem e he).2
    generalize kept.foldl ovaddrec ⟨0, ge.high, []⟩ = newge at hmarked hindex
    rw [List.nil_append] at hindex
    have hsub : ∀ e ∈ newge.index, e ∈ ge.index := fun e he => (hmem e (hindex ▸ he)).1
    by_cases hlow : newge.low = 0
    · -- without a low mark there is no entry
      have hnil : newge.index = [] :=
        List.eq_nil_iff_forall_not_mem.mpr fun e he => absurd (hmarked e he).1 (by omega)
      rw [if_pos hlow]
      split
      · exact @marked_of_nil (emptied { newge with low := newge.high }) hnil _
      · exact @marked_of_nil { newge with low := newge.high } hnil _
    · rw [if_neg hlow]
      split
      · rename_i hcount
        exact @marked_of_nil (emptied newge) (List.length_eq_zero_iff.mp hcount) _
      · exact ⟨hmarked, hsub⟩

/-- Of each number one entry is left. -/
theorem exists_mem_removeDuplicates {Gib : List OVINDEX} (he : e ∈ Gib) :
    ∃ f ∈ removeDuplicates Gib, f.artnum = e.artnum := by
  induction Gib using removeDuplicates.induct generalizing e with
  | case1 => cases he
  | case2 g => exact ⟨e, he, rfl⟩
  | case3 g f rest ih =>
    rw [removeDuplicates]
    have hrest : ∀ e' ∈ f :: rest, ∃ f' ∈ removeDuplicates (f :: rest), f'.artnum = e'.artnum :=
      fun e' he' => ih he'
    rcases List.mem_cons.mp he with rfl | he
    · by_cases hsame : e.artnum = f.artnum
      · obtain ⟨f', hf', hnumber⟩ := hrest f List.mem_cons_self
        exact ⟨f', List.mem_cons_of_mem _ hf', hnumber.trans hsame.symm⟩
      · rw [if_neg hsame]
        exact ⟨e, List.mem_cons_self, rfl⟩
    · obtain ⟨f', hf', hnumber⟩ := hrest e he
      exact ⟨f', List.mem_cons_of_mem _ hf', hnumber⟩

variable {artnum : ℕ} {token : TOKEN}

/-- The search of a fresh index. -/
theorem ovsearch_spec (hsort : Sorts qsort) (h : Marked ge) (group : List UInt8) :
    let opened := (ovopensearch qsort ge group artnum artnum).1
    let result := ovsearch opened (max artnum ge.low) (min artnum ge.high)
    ((∃ e ∈ ge.index, e.artnum = artnum) → result.isSome) ∧
      ∀ token, result = some token → (⟨artnum, token⟩ : OVINDEX) ∈ ge.index := by
  dsimp only [ovopensearch]
  by_cases hrange : min artnum ge.high < max artnum ge.low ∨ ge.count = 0
  · rw [if_pos hrange]
    refine ⟨?_, fun token htoken => nomatch htoken⟩
    rintro ⟨e, he, rfl⟩
    obtain ⟨-, -, hlow, hhigh⟩ := h e he
    rcases hrange with hrange | hcount
    · omega
    · exact absurd (List.length_eq_zero_iff.mp hcount) (List.ne_nil_of_mem he)
  · rw [if_neg hrange]
    have hmax : max artnum ge.low = artnum ∧ min artnum ge.high = artnum := by omega
    rw [hmax.1, hmax.2, ovsearch, Option.getD_some]
    constructor
    · rintro ⟨e, he, rfl⟩
      have hpos := (h e he).2.1
      obtain ⟨f, hf, hnumber⟩ := exists_mem_removeDuplicates ((hsort.perm _).mem_iff.mpr he)
      have hinc := increasing_removeDuplicates (hsort.sorted ge.index)
      split
      · rename_i hnone
        have := List.find?_eq_none.mp hnone f hf
        simp [hnumber] at this
        omega
      · rename_i g hg
        obtain ⟨hp, as, bs, hsplit, has⟩ := List.find?_eq_some_iff_append.mp hg
        rw [decide_eq_true_eq] at hp
        -- the entry of the article is the first one from its number on
        have hle : g.artnum ≤ e.artnum := by
          rw [← ovgroupmmap, hsplit] at hf
          rcases List.mem_append.mp hf with hmem | hmem
          · have := has f hmem
            simp [hnumber] at this
            omega
          · rcases List.mem_cons.mp hmem with rfl | hmem
            · exact Nat.le_of_eq hnumber
            · rw [← ovgroupmmap, hsplit] at hinc
              have hlt := (List.pairwise_cons.mp (List.pairwise_append.mp hinc).2.1).1 f hmem hp.1
                (by omega)
              omega
        rw [if_neg (Nat.not_lt.mpr hle)]
        rfl
    · intro token htoken
      split at htoken
      · cases htoken
      · rename_i g hg
        have hp := List.find?_some hg
        rw [decide_eq_true_eq] at hp
        split at htoken
        · cases htoken
        · rename_i hle
          obtain rfl := Option.some.inj htoken
          have hnumber : g.artnum = artnum := by omega
          have hmem := mem_of_mem_ovgroupmmap hsort (List.mem_of_find?_eq_some hg) hp.1
          rw [← hnumber]
          exact hmem

end Groups

/-! ## The invariant -/

section Run

variable {qsort : List OVINDEX → List OVINDEX} {s s' : State} {a : Action} {group : List UInt8}
  {artnum : ℕ}

/-- The entries of each group are among those it ever had; the kept index is one that its group
had before. -/
structure Inv (qsort : List OVINDEX → List OVINDEX) (s : State) : Prop where
  added : ∀ group ge, s.groups group = some ge → ∀ e ∈ ge.index, s.added group e
  marks : ∀ group ge, s.groups group = some ge → Marked ge
  cache : ∀ Gib, s.Gib = some Gib →
    ∃ ge, Gib = ovgroupmmap qsort ge ∧ ∀ e ∈ ge.index, s.added s.owner e

theorem Start.inv (h : Start s) : Inv qsort s :=
  ⟨h.added, h.marks, fun Gib hGib => by rw [h.Gib] at hGib; cases hGib⟩

@[simp] theorem freed_groups (s : State) : s.freed.groups = s.groups := by
  rw [State.freed]
  split <;> rfl

@[simp] theorem freed_added (s : State) : s.freed.added = s.added := by
  rw [State.freed]
  split <;> rfl

@[simp] theorem freed_Gib (s : State) : s.freed.Gib = none := by
  rw [State.freed]
  split
  · rfl
  · rename_i hnone
    exact Option.not_isSome_iff_eq_none.mp hnone

theorem Inv.freed (h : Inv qsort s) : Inv qsort s.freed := by
  refine ⟨by simpa using h.added, by simpa using h.marks, fun Gib hGib => ?_⟩
  rw [freed_Gib] at hGib
  cases hGib

/-- What a search leaves. -/
theorem Inv.opened (h : Inv qsort s) {ge : GROUPENTRY} (hge : s.groups group = some ge)
    (low high : ℕ) (Cachesearch : Option OVSEARCH) (searches : List OVSEARCH) :
    Inv qsort { s with
      Gib := (ovopensearch qsort ge group low high).1
      Cachesearch := Cachesearch
      searches := searches
      owner := if (ovopensearch qsort ge group low high).1.isSome then group else s.owner } := by
  refine ⟨h.added, h.marks, fun Gib hGib => ?_⟩
  dsimp only at hGib ⊢
  rw [hGib, Option.isSome_some, if_pos rfl]
  refine ⟨ge, ?_, h.added group ge hge⟩
  rw [ovopensearch] at hGib
  dsimp only at hGib
  split at hGib
  · cases hGib
  · exact (Option.some.inj hGib).symm

theorem Inv.freshLookup (h : Inv qsort s) : Inv qsort (freshLookup qsort s group artnum).1 := by
  rw [Cached.freshLookup]
  split
  · exact h
  · rename_i ge hge
    exact h.opened hge artnum artnum _ _

/-- Another process changes a group. -/
theorem Inv.modify (h : Inv qsort s) (group : List UInt8) {f : GROUPENTRY → GROUPENTRY}
    {added : List UInt8 → OVINDEX → Prop} (hadded : ∀ g e, s.added g e → added g e)
    (hf : ∀ ge, s.groups group = some ge → Marked (f ge) ∧ ∀ e ∈ (f ge).index, added group e) :
    Inv qsort { s.modify group f with added := added } := by
  refine ⟨fun g ge hge => ?_, fun g ge hge => ?_, fun Gib hGib => ?_⟩
  · dsimp only [State.modify] at hge
    split at hge
    · rename_i hg
      obtain ⟨ge₀, hge₀, rfl⟩ := Option.map_eq_some_iff.mp hge
      rw [hg] at hge₀ ⊢
      exact (hf ge₀ hge₀).2
    · exact fun e he => hadded g e (h.added g ge hge e he)
  · dsimp only [State.modify] at hge
    split at hge
    · rename_i hg
      obtain ⟨ge₀, hge₀, rfl⟩ := Option.map_eq_some_iff.mp hge
      exact (hf ge₀ (hg ▸ hge₀)).1
    · exact h.marks g ge hge
  · obtain ⟨ge, hGib, hindex⟩ := h.cache Gib hGib
    exact ⟨ge, hGib, fun e he => hadded _ e (hindex e he)⟩

theorem cache_step (hsort : Sorts qsort) (h : Inv qsort s) (hnext : Next qsort s a s') :
    Inv qsort s' := by
  obtain ⟨rfl, hpos⟩ := hnext
  cases a with
  | opensearch group low high =>
    rw [step, buffindexed_opensearch]
    dsimp only
    split
    · exact h.freed
    · rename_i ge hge
      exact h.freed.opened hge low high _ _
  | closesearch handle => exact ⟨h.added, h.marks, h.cache⟩
  | getartinfo group artnum =>
    rw [step, buffindexed_getartinfo]
    split
    · exact h.freshLookup
    · split
      · exact h.freed.freshLookup
      · split
        · exact h
        · exact h
        · split
          · exact h
          · split
            · exact h
            · exact h.freed.freshLookup
  | add Cutofflow group e =>
    refine h.modify group (fun g f hf => .inl hf) fun ge hge => ⟨?_, fun f hf => ?_⟩
    · exact buffindexed_add_marked (h.marks group ge hge) (hpos Cutofflow group e rfl)
    · rcases mem_buffindexed_add hf with hf | rfl
      · exact .inl (h.added group ge hge f hf)
      · exact .inr ⟨rfl, rfl⟩
  | expire group keep =>
    refine h.modify group (fun g f hf => hf) fun ge hge => ?_
    obtain ⟨hmarked, hsub⟩ := @expire_index qsort ge keep hsort
    exact ⟨hmarked, fun e he => h.added group ge hge e (hsub e he)⟩

/-! ## The lookups -/

/-- A lookup without a kept index. -/
theorem freshLookup_agrees (hsort : Sorts qsort) (h : Inv qsort s) :
    Agrees s group artnum (some (freshLookup qsort s group artnum).2) := by
  rw [freshLookup]
  split
  · rename_i hnone
    refine ⟨nofun, ?_, fun token htoken => by cases htoken⟩
    rintro ⟨ge, hge, -⟩
    rw [hnone] at hge
    cases hge
  · rename_i ge hge
    obtain ⟨hfound, htoken⟩ := @ovsearch_spec qsort ge artnum hsort (h.marks group ge hge) group
    refine ⟨nofun, ?_, fun token hresult => ?_⟩
    · rintro ⟨ge', hge', hin⟩
      obtain rfl := Option.some.inj (hge.symm.trans hge')
      obtain ⟨token, hresult⟩ := Option.isSome_iff_exists.mp (hfound hin)
      exact ⟨token, congrArg some hresult⟩
    · exact h.added group ge hge _ (htoken token (Option.some.inj hresult))

theorem Agrees.of_freed {result : Option (Option TOKEN)} (h : Agrees s.freed group artnum result) :
    Agrees s group artnum result := by
  refine ⟨h.inBounds, fun hin => h.found ?_, fun token htoken => ?_⟩
  · rwa [InGroup, freed_groups]
  · simpa using h.token token htoken

/-- A lookup where the kept index is right. -/
theorem getartinfo_agrees (hsort : Sorts qsort) (h : Inv qsort s)
    (hcareful : Careful s (.getartinfo group artnum)) :
    Agrees s group artnum (buffindexed_getartinfo qsort s group artnum).2 := by
  rw [buffindexed_getartinfo]
  split
  · exact freshLookup_agrees hsort h
  · rename_i Gib hGib
    split
    · exact (freshLookup_agrees hsort h.freed).of_freed
    · rename_i hgroup
      have hsearched : Searched s group Gib := by
        refine ⟨hGib, fun search hsearch => ?_⟩
        simpa [hsearch] using hgroup
      obtain ⟨howner, hpos, hreached, hinside, hcount⟩ := hcareful Gib hsearched
      obtain ⟨ge₀, rfl, hindex⟩ := h.cache Gib hGib
      have hgettoken := (gettoken_correct_iff (hsort.sorted ge₀.index) hpos).mpr
        ⟨hreached, hinside⟩
      rw [← ovgroupmmap] at hgettoken
      rw [hgettoken, tokenFor]
      cases hfind : (ovgroupmmap qsort ge₀).find? fun e => e.artnum = artnum with
      | some e =>
        have hnumber : e.artnum = artnum := by simpa using List.find?_some hfind
        have hmem := mem_of_mem_ovgroupmmap hsort (List.mem_of_find?_eq_some hfind) (by omega)
        refine ⟨(fun h => by cases h), fun _ => ⟨e.token, rfl⟩, fun token htoken => ?_⟩
        obtain rfl := Option.some.inj (Option.some.inj htoken)
        rw [← howner, ← hnumber]
        exact hindex e hmem
      | none =>
        have hnew : ∀ e ∈ ovgroupmmap qsort ge₀, e.artnum ≠ artnum := by
          simpa using List.find?_eq_none.mp hfind
        dsimp only [Option.map_none]
        split
        · rename_i hnone
          refine ⟨(fun h => by cases h), ?_, fun token htoken => by cases htoken⟩
          rintro ⟨ge, hge, -⟩
          rw [hnone] at hge
          cases hge
        · rename_i ge hge
          split
          · rename_i hsame
            obtain ⟨search, hsearch, hsame⟩ := (Option.any_eq_true _ _).mp hsame
            refine ⟨(fun h => by cases h), fun hin => ?_, fun token htoken => by cases htoken⟩
            obtain ⟨e, he, hnumber⟩ :=
              hcount search ge hsearch hge (of_decide_eq_true hsame) hin
            exact absurd hnumber (hnew e he)
          · exact (freshLookup_agrees hsort h.freed).of_freed

/-- While the count is the same, what is not in the kept index is not looked for. -/
theorem getartinfo_same_count {Gib : List OVINDEX} {search : OVSEARCH} {ge : GROUPENTRY}
    (hGib : s.Gib = some Gib) (hsearch : s.Cachesearch = some search)
    (hgroup : search.group = group) (hgettoken : gettoken Gib artnum = some none)
    (hge : s.groups group = some ge) (hcount : search.count = ge.count) :
    (buffindexed_getartinfo qsort s group artnum).2 = some none := by
  simp [buffindexed_getartinfo, hGib, hsearch, hgroup, hgettoken, hge, hcount]

end Run

/-! ## A run -/

/-- `qsort` by insertion. -/
def insertionSort (Gib : List OVINDEX) : List OVINDEX :=
  Gib.insertionSort fun e f => e.artnum ≤ f.artnum

theorem insertionSort_sorts : Sorts insertionSort where
  perm Gib := List.perm_insertionSort _ Gib
  sorted Gib :=
    have : Std.Total fun e f : OVINDEX => e.artnum ≤ f.artnum := ⟨fun _ _ => Nat.le_total _ _⟩
    have : IsTrans OVINDEX fun e f => e.artnum ≤ f.artnum := ⟨fun _ _ _ => Nat.le_trans⟩
    List.pairwise_insertionSort _ Gib

/-- The group `a` has the article 1. -/
def oneArticle : State where
  groups group := if group = [97] then some ⟨1, 1, [⟨1, .zero⟩]⟩ else none
  added group e := group = [97] ∧ e = ⟨1, .zero⟩
  Gib := none
  Cachesearch := none
  searches := []
  owner := []

theorem oneArticle_start : Start oneArticle := by
  refine ⟨rfl, rfl, rfl, fun group ge hge e he => ?_, fun group ge hge e he => ?_⟩
  all_goals
    dsimp only [oneArticle] at hge
    split at hge
    · rename_i hgroup
      obtain rfl := Option.some.inj hge
      obtain rfl := List.mem_singleton.mp he
      first | exact ⟨hgroup, rfl⟩ | decide
    · cases hge

/-- The article 1 is looked up, it expires, and the article 2 comes. -/
def replaced : List Action :=
  [.getartinfo [97] 1, .expire [97] (fun _ => false), .add false [97] ⟨2, .zero⟩]

end Inn.Buffindexed.Cached
