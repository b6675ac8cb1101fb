import Mathlib.Algebra.Ring.Nat
import Mathlib.Data.List.FinRange
import Mathlib.Logic.Function.Basic
import Inn.SearchTree

/-!
# Inn.Tradspool.Map — the numbers of the newsgroups in one process

The tokens of `tradspool.c` hold the number of a newsgroup. Every process has the names and
numbers in a hash table and in a binary tree, reads them from `tradspool.map`, gives the next
number to a name that is new, and writes the whole map.

* `addNG_old`, `addNG_new` — what `AddNG` adds;
* `Sound` — table and tree have the same entries;
* `readDBFile_spec`, `readGroups_spec` — what is in the table after a file was read.
-/

namespace Inn.Tradspool

open Function (update update_self update_of_ne)

/-! ## Names -/

/-- A name that a line of the map can hold. -/
abbrev Name := {bs : List UInt8 // ∀ b ∈ bs, b ≠ 0 ∧ b ≠ 10 ∧ b ≠ 32}

/-- What `DeDotify` does to a byte. -/
def deDot (b : UInt8) : UInt8 := if b = 46 then 47 else b

/-- `DeDotify`: the dots become slashes. -/
def DeDotify (ng : Name) : Name :=
  ⟨ng.1.map deDot, by
    intro b hb
    obtain ⟨b', hb', rfl⟩ := List.mem_map.mp hb
    unfold deDot
    split
    · decide
    · exact ng.2 b' hb'⟩

/-- A newsgroup: its name has no slash. -/
structure Newsgroup where
  name : Name
  noSlash : (47 : UInt8) ∉ name.1

theorem deDotify_idem (ng : Name) : DeDotify (DeDotify ng) = DeDotify ng := by
  apply Subtype.ext
  refine (List.map_map ..).trans (List.map_congr_left fun b _ => ?_)
  rw [Function.comp_apply]
  unfold deDot
  by_cases h : b = 46
  · rw [if_pos h]
    rfl
  · rw [if_neg h, if_neg h]

/-- The names of newsgroups stay apart. -/
theorem deDotify_inj {ng ng' : Newsgroup} (h : DeDotify ng.name = DeDotify ng'.name) :
    ng = ng' := by
  have hbyte : ∀ b b' : UInt8, b ≠ 47 → b' ≠ 47 → deDot b = deDot b' → b = b' := by
    intro b b' hb hb' heq
    unfold deDot at heq
    split at heq <;> split at heq
    · rename_i h₁ h₂
      exact h₁.trans h₂.symm
    · exact absurd heq.symm hb'
    · exact absurd heq hb
    · exact heq
  obtain ⟨⟨bs, hbs⟩, hno⟩ := ng
  obtain ⟨⟨bs', hbs'⟩, hno'⟩ := ng'
  have hmap : bs.map deDot = bs'.map deDot := congrArg Subtype.val h
  have hno₁ : (47 : UInt8) ∉ bs := hno
  have hno₂ : (47 : UInt8) ∉ bs' := hno'
  have heq : bs = bs' := by
    clear h hno hno' hbs hbs'
    induction bs generalizing bs' with
    | nil => exact (List.map_eq_nil_iff.mp hmap.symm).symm
    | cons b bs ih =>
      cases bs' with
      | nil => cases hmap
      | cons b' bs' =>
        rw [List.map_cons, List.map_cons] at hmap
        obtain ⟨hb, hbs⟩ := List.cons.inj hmap
        rw [hbyte b b' (fun h => hno₁ (h ▸ List.mem_cons_self))
          (fun h => hno₂ (h ▸ List.mem_cons_self)) hb]
        rw [ih bs' hbs (fun h => hno₁ (List.mem_cons_of_mem _ h))
          (fun h => hno₂ (List.mem_cons_of_mem _ h))]
  subst heq
  rfl

/-! ## The table of a process -/

-- no proof looks at the value
@[irreducible] def NGT_SIZE : ℕ := 2048

/-- `NGTENT`, and a line of the map. -/
structure NGTENT where
  ngname : Name
  ngnumber : ℕ
deriving DecidableEq

/-- The static variables of a process that has the spool open. -/
structure Spool where
  NGTable : Fin NGT_SIZE → List NGTENT
  NGTree : SearchTree ℕ NGTENT
  MaxNgNumber : ℕ
  NGTableUpdated : Bool
  lastcheck : ℕ

/-- The variables of a new process. -/
def Spool.new : Spool := ⟨fun _ => [], .leaf, 0, false, 0⟩

/-- The entries in the order in which `DumpDB` writes them. -/
def Spool.entries (t : Spool) : List NGTENT := (List.finRange NGT_SIZE).flatMap t.NGTable

theorem Spool.mem_entries {t : Spool} {e : NGTENT} : e ∈ t.entries ↔ ∃ h, e ∈ t.NGTable h := by
  rw [Spool.entries, List.mem_flatMap]
  constructor
  · rintro ⟨h, -, he⟩
    exact ⟨h, he⟩
  · rintro ⟨h, he⟩
    exact ⟨h, List.mem_finRange h, he⟩

section Code

-- `hash` is `HashNGName` of a name without dots, as the index of its chain
variable (hash : Name → Fin NGT_SIZE)

/-- The entry of a name, as `AddNG` and `FindNGByName` search it. -/
def Spool.lookup (t : Spool) (p : Name) : Option NGTENT :=
  (t.NGTable (hash p)).find? fun e => e.ngname = p

/-- `AddNG`; the numbers are of type `unsigned long`. -/
def AddNG (t : Spool) (ng : Name) (number : ℕ) : Spool :=
  let p := DeDotify ng
  match t.lookup hash p with
  | some _ => t
  | none =>
    let max := if number = 0 then (t.MaxNgNumber + 1) % 2 ^ 64 else t.MaxNgNumber
    let e : NGTENT := ⟨p, if number = 0 then max else number⟩
    { t with
      NGTable := update t.NGTable (hash p) (t.NGTable (hash p) ++ [e])
      -- an entry whose number is in the tree already is left out of it
      NGTree := t.NGTree.insert e.ngnumber e
      MaxNgNumber := max
      NGTableUpdated := true }

/-- `FindNGByName`. -/
def FindNGByName (t : Spool) (ngname : Name) : Option NGTENT := t.lookup hash (DeDotify ngname)

/-- `FindNGByNum`. -/
def FindNGByNum (t : Spool) (ngnumber : ℕ) : Option Name :=
  (t.NGTree.find ngnumber).map NGTENT.ngname

/-- What `ReadDBFile` does with a line. -/
def readLine (t : Spool) (line : NGTENT) : Spool :=
  let t := AddNG hash t line.ngname line.ngnumber
  { t with MaxNgNumber := max t.MaxNgNumber line.ngnumber }

/-- `ReadDBFile`; a map that is not there has no lines. -/
def ReadDBFile (t : Spool) (map : List NGTENT) : Spool := map.foldl (readLine hash) t

/-- The loop of `ReadActiveFile`. -/
def readGroups (t : Spool) (groups : List Name) : Spool :=
  groups.foldl (fun t ng => AddNG hash t ng 0) t

/-- `DumpDB` of a process that opened the spool for writing: the map and the variables. -/
def DumpDB (t : Spool) (map : List NGTENT) : List NGTENT × Spool :=
  if t.NGTableUpdated then (t.entries, { t with NGTableUpdated := false }) else (map, t)

def RELOAD_TIME_CHECK : ℕ := 600

/-- `CheckNeedReloadDB`, where `mtime` is what `stat` says of the map. -/
def CheckNeedReloadDB (t : Spool) (map : List NGTENT) (force : Bool) (now mtime : ℕ) : Spool :=
  if !force && decide (now < t.lastcheck + RELOAD_TIME_CHECK) then t
  else if t.lastcheck < mtime then ReadDBFile hash { t with lastcheck := now } map
  else { t with lastcheck := now }

/-- The numbers in a token; both are put into 32 bits. -/
structure TOKEN where
  ngnum : ℕ
  artnum : ℕ
deriving DecidableEq

/-- The last lines of `MakeToken`, where the entry of the newsgroup is found. -/
def toToken (e : NGTENT) (artnum : ℕ) : TOKEN := ⟨e.ngnumber % 2 ^ 32, artnum % 2 ^ 32⟩

/-- `TokenToPath`: the newsgroup and the number of the article. -/
def TokenToPath (t : Spool) (map : List NGTENT) (token : TOKEN) (now mtime : ℕ) :
    Option (Name × ℕ) × Spool :=
  let t := CheckNeedReloadDB hash t map false now mtime
  match FindNGByNum t token.ngnum with
  | some ng => (some (ng, token.artnum), t)
  | none =>
    let t := CheckNeedReloadDB hash t map true now mtime
    ((FindNGByNum t token.ngnum).map fun ng => (ng, token.artnum), t)

end Code

/-! ## What the functions do -/

/-- The table has one entry for a name and for a number, and the tree has the same entries. -/
structure Sound (hash : Name → Fin NGT_SIZE) (t : Spool) : Prop where
  hashed : ∀ h, ∀ e ∈ t.NGTable h, hash e.ngname = h
  unique : ∀ e ∈ t.entries, ∀ e' ∈ t.entries, e.ngname = e'.ngname ↔ e.ngnumber = e'.ngnumber
  tree : ∀ n e, t.NGTree.find n = some e ↔ e ∈ t.entries ∧ e.ngnumber = n

/-- `MaxNgNumber` is the largest number or more. -/
def Spool.Below (t : Spool) : Prop := ∀ e ∈ t.entries, 1 ≤ e.ngnumber ∧ e.ngnumber ≤ t.MaxNgNumber

section Specs

variable {hash : Name → Fin NGT_SIZE} {t : Spool} {ng : Name} {number : ℕ}

theorem not_mem_new (e : NGTENT) : e ∉ Spool.new.entries := by
  intro he
  obtain ⟨h, he⟩ := Spool.mem_entries.mp he
  cases he

theorem sound_new : Sound hash Spool.new where
  hashed := fun h e he => by cases he
  unique := fun e he => absurd he (not_mem_new e)
  tree := by
    intro n e
    constructor
    · intro h
      cases h
    · rintro ⟨he, -⟩
      exact absurd he (not_mem_new e)

/-- The search in the chain of a name finds its entry. -/
theorem Sound.lookup_iff (hs : Sound hash t) {p : Name} {e : NGTENT} :
    t.lookup hash p = some e ↔ e ∈ t.entries ∧ e.ngname = p := by
  rw [Spool.lookup]
  constructor
  · intro h
    have hp := List.find?_some h
    exact ⟨Spool.mem_entries.mpr ⟨_, List.mem_of_find?_eq_some h⟩, of_decide_eq_true hp⟩
  · rintro ⟨he, rfl⟩
    obtain ⟨h, hmem⟩ := Spool.mem_entries.mp he
    obtain rfl := hs.hashed h e hmem
    cases hfind : (t.NGTable (hash e.ngname)).find? fun e' => e'.ngname = e.ngname with
    | none =>
      exact absurd (decide_eq_true rfl) (List.find?_eq_none.mp hfind e hmem)
    | some e' =>
      have hfound := List.find?_some hfind
      have hname : e'.ngname = e.ngname := of_decide_eq_true hfound
      have he' := Spool.mem_entries.mpr ⟨_, List.mem_of_find?_eq_some hfind⟩
      have hnumber := (hs.unique e' he' e he).mp hname
      obtain ⟨n', k'⟩ := e'
      obtain ⟨n, k⟩ := e
      cases hname
      cases hnumber
      rfl

theorem Sound.lookup_none (hs : Sound hash t) {p : Name} :
    t.lookup hash p = none ↔ ∀ e ∈ t.entries, e.ngname ≠ p := by
  constructor
  · intro h e he hp
    rw [hs.lookup_iff.mpr ⟨he, hp⟩] at h
    cases h
  · intro h
    cases hfind : t.lookup hash p with
    | none => rfl
    | some e =>
      obtain ⟨he, hp⟩ := hs.lookup_iff.mp hfind
      exact absurd hp (h e he)

/-- A name that is in the table stays as it is. -/
theorem addNG_old (hs : Sound hash t) {e : NGTENT} (he : e ∈ t.entries)
    (hp : e.ngname = DeDotify ng) : AddNG hash t ng number = t := by
  rw [AddNG]
  dsimp only
  rw [hs.lookup_iff.mpr ⟨he, hp⟩]

/-- A name that is not in the table gets an entry, with a number that no entry has. -/
theorem addNG_new (hs : Sound hash t) (hnew : ∀ e ∈ t.entries, e.ngname ≠ DeDotify ng) {k : ℕ}
    (hk : k = if number = 0 then (t.MaxNgNumber + 1) % 2 ^ 64 else number)
    (hfree : ∀ e ∈ t.entries, e.ngnumber ≠ k) :
    Sound hash (AddNG hash t ng number) ∧
      (∀ e, e ∈ (AddNG hash t ng number).entries ↔ e ∈ t.entries ∨ e = ⟨DeDotify ng, k⟩) ∧
      (AddNG hash t ng number).MaxNgNumber = (if number = 0 then k else t.MaxNgNumber) := by
  have hadd : AddNG hash t ng number =
      ⟨update t.NGTable (hash (DeDotify ng)) (t.NGTable (hash (DeDotify ng)) ++ [⟨DeDotify ng, k⟩]),
        t.NGTree.insert k ⟨DeDotify ng, k⟩, if number = 0 then k else t.MaxNgNumber, true,
        t.lastcheck⟩ := by
    rw [AddNG]
    dsimp only
    rw [hs.lookup_none.mpr hnew]
    by_cases h0 : number = 0
    · rw [if_pos h0] at hk
      simp only [if_pos h0, hk]
    · rw [if_neg h0] at hk
      simp only [if_neg h0, hk]
  have hchain : ∀ h e, e ∈ (AddNG hash t ng number).NGTable h ↔
      e ∈ t.NGTable h ∨ h = hash (DeDotify ng) ∧ e = ⟨DeDotify ng, k⟩ := by
    intro h e
    rw [hadd]
    dsimp only
    by_cases hh : h = hash (DeDotify ng)
    · subst hh
      rw [update_self, List.mem_append, List.mem_singleton]
      exact or_congr_right ⟨fun he => ⟨rfl, he⟩, fun he => he.2⟩
    · rw [update_of_ne hh]
      exact ⟨.inl, fun he => he.elim id fun he => absurd he.1 hh⟩
  have hmem : ∀ e, e ∈ (AddNG hash t ng number).entries ↔
      e ∈ t.entries ∨ e = ⟨DeDotify ng, k⟩ := by
    intro e
    rw [Spool.mem_entries, Spool.mem_entries]
    constructor
    · rintro ⟨h, he⟩
      rcases (hchain h e).mp he with he | he
      · exact .inl ⟨h, he⟩
      · exact .inr he.2
    · rintro (⟨h, he⟩ | he)
      · exact ⟨h, (hchain h e).mpr (.inl he)⟩
      · exact ⟨_, (hchain _ e).mpr (.inr ⟨rfl, he⟩)⟩
  refine ⟨⟨?_, ?_, ?_⟩, hmem, ?_⟩
  · intro h e he
    rcases (hchain h e).mp he with he | ⟨hh, rfl⟩
    · exact hs.hashed h e he
    · exact hh.symm
  · intro e he e' he'
    rcases (hmem e).mp he with he | rfl <;> rcases (hmem e').mp he' with he' | rfl
    · exact hs.unique e he e' he'
    · exact ⟨fun h => absurd h (hnew e he), fun h => absurd h (hfree e he)⟩
    · exact ⟨fun h => absurd h.symm (hnew e' he'), fun h => absurd h.symm (hfree e' he')⟩
    · exact ⟨fun _ => rfl, fun _ => rfl⟩
  · intro n e
    have hnone : t.NGTree.find k = none := by
      cases hfind : t.NGTree.find k with
      | none => rfl
      | some e' =>
        obtain ⟨he', hnum⟩ := (hs.tree k e').mp hfind
        exact absurd hnum (hfree e' he')
    have htree : (AddNG hash t ng number).NGTree.find n =
        if k = n then some ⟨DeDotify ng, k⟩ else t.NGTree.find n := by
      rw [hadd]
      dsimp only
      rw [SearchTree.find_insert, hnone]
      rfl
    rw [htree, hmem]
    split
    · rename_i hkn
      subst hkn
      constructor
      · intro h
        obtain rfl := Option.some.inj h
        exact ⟨.inr rfl, rfl⟩
      · rintro ⟨he | rfl, hnum⟩
        · exact absurd hnum (hfree e he)
        · rfl
    · rename_i hkn
      rw [hs.tree]
      refine and_congr_left fun hnum => ⟨.inl, fun he => he.elim id fun he => ?_⟩
      subst he
      exact absurd hnum hkn
  · rw [hadd]

/-! ### Reading the map -/

/-- Lines of the map that agree with each other and with a table. -/
structure Agree (t : Spool) (lines : List NGTENT) : Prop where
  name : ∀ e ∈ lines, DeDotify e.ngname = e.ngname
  number : ∀ e ∈ lines, 1 ≤ e.ngnumber
  pairs : ∀ e ∈ lines, ∀ e' ∈ lines, e.ngname = e'.ngname ↔ e.ngnumber = e'.ngnumber
  table : ∀ e ∈ t.entries, ∀ e' ∈ lines, e.ngname = e'.ngname ↔ e.ngnumber = e'.ngnumber

theorem readLine_spec (hs : Sound hash t) (hb : t.Below) {line : NGTENT}
    (hname : DeDotify line.ngname = line.ngname) (hnumber : 1 ≤ line.ngnumber)
    (hagree : ∀ e ∈ t.entries, e.ngname = line.ngname ↔ e.ngnumber = line.ngnumber) :
    Sound hash (readLine hash t line) ∧ (readLine hash t line).Below ∧
      ∀ e, e ∈ (readLine hash t line).entries ↔ e ∈ t.entries ∨ e = line := by
  have h0 : line.ngnumber ≠ 0 := Nat.ne_of_gt hnumber
  have hadd : Sound hash (AddNG hash t line.ngname line.ngnumber) ∧
      (∀ e, e ∈ (AddNG hash t line.ngname line.ngnumber).entries ↔ e ∈ t.entries ∨ e = line) ∧
      (AddNG hash t line.ngname line.ngnumber).MaxNgNumber = t.MaxNgNumber := by
    by_cases hold : ∃ e ∈ t.entries, e.ngname = line.ngname
    · obtain ⟨e, he, heq⟩ := hold
      have hline : e = line := by
        have hnum := (hagree e he).mp heq
        obtain ⟨n, k⟩ := e
        obtain ⟨n', k'⟩ := line
        cases heq
        cases hnum
        rfl
      subst hline
      rw [addNG_old hs he hname.symm]
      exact ⟨hs, fun e' => ⟨.inl, fun h => h.elim id fun h => h ▸ he⟩, rfl⟩
    · have hnew : ∀ e ∈ t.entries, e.ngname ≠ line.ngname := fun e he heq => hold ⟨e, he, heq⟩
      have := @addNG_new hash t line.ngname line.ngnumber hs (fun e he => hname.symm ▸ hnew e he)
        line.ngnumber (if_neg h0).symm fun e he heq => hnew e he ((hagree e he).mpr heq)
      rw [hname, if_neg h0] at this
      exact this
  obtain ⟨hs', hmem, hmax⟩ := hadd
  refine ⟨⟨hs'.hashed, hs'.unique, hs'.tree⟩, ?_, hmem⟩
  intro e he
  have hle : (readLine hash t line).MaxNgNumber = max t.MaxNgNumber line.ngnumber := by
    rw [readLine]
    dsimp only
    rw [hmax]
  rw [hle]
  rcases (hmem e).mp he with he | rfl
  · exact ⟨(hb e he).1, (hb e he).2.trans (Nat.le_max_left _ _)⟩
  · exact ⟨hnumber, Nat.le_max_right _ _⟩

/-- Reading a map adds its lines. -/
theorem readDBFile_spec {map : List NGTENT} (hs : Sound hash t) (hb : t.Below)
    (ha : Agree t map) :
    Sound hash (ReadDBFile hash t map) ∧ (ReadDBFile hash t map).Below ∧
      ∀ e, e ∈ (ReadDBFile hash t map).entries ↔ e ∈ t.entries ∨ e ∈ map := by
  induction map generalizing t with
  | nil =>
    refine ⟨hs, hb, fun e => ?_⟩
    rw [List.mem_nil_iff, or_false]
    rfl
  | cons line map ih =>
    obtain ⟨hs', hb', hmem⟩ := readLine_spec hs hb (ha.name line List.mem_cons_self)
      (ha.number line List.mem_cons_self) fun e he => ha.table e he line List.mem_cons_self
    have ha' : Agree (readLine hash t line) map := {
      name := fun e he => ha.name e (List.mem_cons_of_mem _ he)
      number := fun e he => ha.number e (List.mem_cons_of_mem _ he)
      pairs := fun e he e' he' =>
        ha.pairs e (List.mem_cons_of_mem _ he) e' (List.mem_cons_of_mem _ he')
      table := by
        intro e he (e' : NGTENT) he'
        rcases (hmem e).mp he with he | rfl
        · exact ha.table e he e' (List.mem_cons_of_mem _ he')
        · exact ha.pairs e List.mem_cons_self e' (List.mem_cons_of_mem _ he') }
    obtain ⟨hs'', hb'', hmem'⟩ := ih hs' hb' ha'
    refine ⟨hs'', hb'', fun e => (hmem' e).trans ?_⟩
    rw [hmem, List.mem_cons, or_assoc]

/-! ### New names -/

/-- The names in the table. -/
def Spool.names (t : Spool) : List Name := t.entries.map NGTENT.ngname

/-- The names that are not in the table, each once and in order. -/
def newNames (t : Spool) (groups : List Name) : List Name :=
  ((groups.map DeDotify).filter fun p => p ∉ t.names).eraseDups

theorem newNames_old {groups : List Name} (hold : DeDotify ng ∈ t.names) :
    newNames t (ng :: groups) = newNames t groups := by
  rw [newNames, List.map_cons, List.filter_cons_of_neg (by simpa using hold)]
  rfl

theorem newNames_new {t' : Spool} {groups : List Name} (hnew : DeDotify ng ∉ t.names)
    (hmem : ∀ p, p ∈ t'.names ↔ p ∈ t.names ∨ p = DeDotify ng) :
    newNames t (ng :: groups) = DeDotify ng :: newNames t' groups := by
  rw [newNames, List.map_cons, List.filter_cons_of_pos (by simpa using hnew), List.eraseDups_cons,
    List.filter_filter, newNames]
  refine congrArg (DeDotify ng :: List.eraseDups ·) (List.filter_congr fun p _ => ?_)
  rw [Bool.eq_iff_iff, Bool.and_eq_true, decide_eq_true_iff, decide_eq_true_iff, hmem, not_or,
    Bool.not_eq_true', beq_eq_false_iff_ne]
  exact and_comm

/-- New names have no dots. -/
theorem newNames_name {groups : List Name} {p : Name} (h : p ∈ newNames t groups) :
    DeDotify p = p := by
  rw [newNames, List.mem_eraseDups] at h
  obtain ⟨ng, -, rfl⟩ := List.mem_map.mp (List.mem_filter.mp h).1
  exact deDotify_idem ng

/-- A table that gets a new entry is marked. -/
theorem addNG_updated (h : (AddNG hash t ng number).NGTableUpdated = false) :
    AddNG hash t ng number = t := by
  rw [AddNG] at h ⊢
  dsimp only at h ⊢
  cases hfind : t.lookup hash (DeDotify ng) with
  | some e => rfl
  | none =>
    rw [hfind] at h
    cases h

theorem readGroups_updated {groups : List Name}
    (h : (readGroups hash t groups).NGTableUpdated = false) : readGroups hash t groups = t := by
  induction groups generalizing t with
  | nil => rfl
  | cons ng groups ih =>
    have hrest : readGroups hash t (ng :: groups) = AddNG hash t ng 0 := ih h
    rw [hrest] at h ⊢
    exact addNG_updated h

/-- The new names get the numbers behind `MaxNgNumber`. -/
theorem readGroups_spec {groups : List Name} (hs : Sound hash t) (hb : t.Below)
    (hmax : ∀ k < (newNames t groups).length, t.MaxNgNumber + k + 1 < 2 ^ 64) :
    Sound hash (readGroups hash t groups) ∧ (readGroups hash t groups).Below ∧
      ∀ e, e ∈ (readGroups hash t groups).entries ↔ e ∈ t.entries ∨
        ∃ k, (newNames t groups)[k]? = some e.ngname ∧ e.ngnumber = t.MaxNgNumber + k + 1 := by
  induction groups generalizing t with
  | nil =>
    refine ⟨hs, hb, fun e => ⟨.inl, fun h => h.elim id fun h => ?_⟩⟩
    obtain ⟨k, hk, -⟩ := h
    cases hk
  | cons ng groups ih =>
    by_cases hold : DeDotify ng ∈ t.names
    · rw [newNames_old hold] at hmax ⊢
      obtain ⟨e, he, hp⟩ := List.mem_map.mp hold
      have hsame : readGroups hash t (ng :: groups) = readGroups hash t groups :=
        congrArg (readGroups hash · groups) (addNG_old hs he hp)
      rw [hsame]
      exact ih hs hb hmax
    · have hnew : ∀ e ∈ t.entries, e.ngname ≠ DeDotify ng := fun e he hp =>
        hold (List.mem_map.mpr ⟨e, he, hp⟩)
      have hlen : t.MaxNgNumber + 1 < 2 ^ 64 := by
        have hmem : DeDotify ng ∈ newNames t (ng :: groups) := by
          rw [newNames, List.mem_eraseDups, List.mem_filter]
          exact ⟨List.mem_cons_self, decide_eq_true hold⟩
        exact hmax 0 (List.length_pos_of_mem hmem)
      obtain ⟨hs', hmem, hmax'⟩ := @addNG_new hash t ng 0 hs hnew (t.MaxNgNumber + 1)
        (by rw [if_pos rfl, Nat.mod_eq_of_lt hlen]) fun e he hnum => by
          have := (hb e he).2
          omega
      rw [if_pos rfl] at hmax'
      have hb' : (AddNG hash t ng 0).Below := by
        intro e he
        rw [hmax']
        rcases (hmem e).mp he with he | rfl
        · exact ⟨(hb e he).1, Nat.le_succ_of_le (hb e he).2⟩
        · exact ⟨Nat.succ_pos _, le_rfl⟩
      have hnames : ∀ p, p ∈ (AddNG hash t ng 0).names ↔ p ∈ t.names ∨ p = DeDotify ng := by
        intro p
        rw [Spool.names, Spool.names, List.mem_map, List.mem_map]
        constructor
        · rintro ⟨e, he, rfl⟩
          rcases (hmem e).mp he with he | rfl
          · exact .inl ⟨e, he, rfl⟩
          · exact .inr rfl
        · rintro (⟨e, he, rfl⟩ | rfl)
          · exact ⟨e, (hmem e).mpr (.inl he), rfl⟩
          · exact ⟨_, (hmem _).mpr (.inr rfl), rfl⟩
      rw [newNames_new hold hnames, List.length_cons] at hmax
      rw [newNames_new hold hnames]
      obtain ⟨hs'', hb'', hmem'⟩ := ih hs' hb' fun k hk => by
        have := hmax (k + 1) (Nat.succ_lt_succ hk)
        rw [hmax']
        omega
      refine ⟨hs'', hb'', fun e => (hmem' e).trans ?_⟩
      rw [hmem, hmax', or_assoc]
      refine or_congr_right ⟨?_, ?_⟩
      · rintro (rfl | ⟨k, hk, hnum⟩)
        · exact ⟨0, rfl, rfl⟩
        · exact ⟨k + 1, hk, by omega⟩
      · rintro ⟨k, hk, hnum⟩
        cases k with
        | zero =>
          left
          obtain ⟨n, number⟩ := e
          obtain rfl := Option.some.inj hk
          cases hnum
          rfl
        | succ k => exact .inr ⟨k, hk, by omega⟩

/-! ### Tokens -/

/-- Whether `CheckNeedReloadDB` reads the map. -/
def Spool.reloads (t : Spool) (force : Bool) (now mtime : ℕ) : Bool :=
  !(!force && decide (now < t.lastcheck + RELOAD_TIME_CHECK)) && decide (t.lastcheck < mtime)

theorem check_reload {map : List NGTENT} {force : Bool} {now mtime : ℕ}
    (h : t.reloads force now mtime = true) :
    CheckNeedReloadDB hash t map force now mtime =
      ReadDBFile hash { t with lastcheck := now } map := by
  obtain ⟨h₁, h₂⟩ := Bool.and_eq_true_iff.mp h
  rw [CheckNeedReloadDB, if_neg (by
    rw [Bool.not_eq_true'] at h₁
    rw [h₁]
    exact Bool.false_ne_true),
    if_pos (of_decide_eq_true h₂)]

theorem check_keep {map : List NGTENT} {force : Bool} {now mtime : ℕ}
    (h : ¬ t.reloads force now mtime = true) :
    ∃ c, CheckNeedReloadDB hash t map force now mtime = { t with lastcheck := c } := by
  rw [CheckNeedReloadDB]
  split
  · exact ⟨t.lastcheck, rfl⟩
  · rename_i h₁
    split
    · rename_i h₂
      refine absurd ?_ h
      rw [Spool.reloads, Bool.eq_false_iff.mpr h₁, decide_eq_true h₂]
      rfl
    · exact ⟨now, rfl⟩

/-- `CheckNeedReloadDB` keeps the entries and may add those of the map. -/
theorem check_spec {map : List NGTENT} {force : Bool} {now mtime : ℕ} (hs : Sound hash t)
    (hb : t.Below) (ha : Agree t map) :
    Sound hash (CheckNeedReloadDB hash t map force now mtime) ∧
      ∀ e ∈ t.entries, e ∈ (CheckNeedReloadDB hash t map force now mtime).entries := by
  by_cases h : t.reloads force now mtime = true
  · rw [check_reload h]
    obtain ⟨hs', -, hmem⟩ := @readDBFile_spec hash { t with lastcheck := now } map
      ⟨hs.hashed, hs.unique, hs.tree⟩ hb ⟨ha.name, ha.number, ha.pairs, ha.table⟩
    exact ⟨hs', fun e he => (hmem e).mpr (.inl he)⟩
  · obtain ⟨c, hc⟩ := @check_keep hash t map force now mtime h
    rw [hc]
    exact ⟨⟨hs.hashed, hs.unique, hs.tree⟩, fun e he => he⟩

/-- A number in the table leads to its name. -/
theorem Sound.findNGByNum (hs : Sound hash t) {e : NGTENT} (he : e ∈ t.entries) :
    FindNGByNum t e.ngnumber = some e.ngname := by
  rw [FindNGByNum, (hs.tree _ e).mpr ⟨he, rfl⟩]
  rfl

/-- A token with a number in the table leads to the newsgroup of the number. -/
theorem tokenToPath_spec {map : List NGTENT} {token : TOKEN} {now mtime : ℕ} {p : Name}
    (hs : Sound hash t) (hb : t.Below) (ha : Agree t map) (he : ⟨p, token.ngnum⟩ ∈ t.entries) :
    (TokenToPath hash t map token now mtime).1 = some (p, token.artnum) := by
  obtain ⟨hs', hkeep⟩ := @check_spec hash t map false now mtime hs hb ha
  have hfind := hs'.findNGByNum (hkeep _ he)
  rw [TokenToPath]
  dsimp only at hfind ⊢
  rw [hfind]

end Specs

end Inn.Tradspool
