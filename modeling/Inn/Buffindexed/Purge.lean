import Inn.Base
import Inn.Rules

/-!
# Inn.Buffindexed.Purge — the purge of hidden groups

`expireover` expires every group of the active file it read at its start, and then every slot
of the group index that was not expired since. Meanwhile another process adds groups and
articles.

* `GROUPfind_eq_some_iff` — which slot a group is found in;
* `spared_step` — every group with articles was expired, or will be before the purge, or is
  not looked at any more;
* `purge_spares_live` — so a group loses only what its own expiry dropped.
-/

namespace Inn.Buffindexed

def OV_BLOCKSIZE : ℕ := 8192

/-- The overview data of an article, with its index record. -/
structure Article where
  artnum : ℕ
  data : List UInt8
  arrived : ℤ
  expires : ℤ
deriving DecidableEq

/-- `GROUPENTRY`, with the articles its index blocks list. -/
structure GROUPENTRY where
  hash : HASH
  high : ℕ
  low : ℕ
  flag : UInt8
  expired : ℤ
  deleted : ℤ
  arts : List Article
deriving DecidableEq

/-- `count`. -/
def GROUPENTRY.count (ge : GROUPENTRY) : ℕ := ge.arts.length

/-- A group that `buffindexed_groupdel` did not delete. -/
def GROUPENTRY.Live (ge : GROUPENTRY) : Prop := ge.deleted = 0

/-- A slot of the group index that was never used. -/
def emptySlot : GROUPENTRY := ⟨.clear, 0, 0, 0, 0, 0, []⟩

/-! ## The group index -/

/-- The slot has the hash, of a group that is not deleted unless those count too. -/
def Matches (es : List GROUPENTRY) (hash : HASH) (ignoredeleted : Bool) (i : ℕ) : Prop :=
  ∃ ge, es[i]? = some ge ∧ ge.hash = hash ∧ (ge.deleted = 0 ∨ ignoredeleted = true)

instance (es : List GROUPENTRY) (hash : HASH) (ignoredeleted : Bool) (i : ℕ) :
    Decidable (Matches es hash ignoredeleted i) :=
  decidable_of_iff (∃ ge ∈ es[i]?, ge.hash = hash ∧ (ge.deleted = 0 ∨ ignoredeleted = true))
    ⟨fun ⟨ge, h, h'⟩ => ⟨ge, h, h'⟩, fun ⟨ge, h, h'⟩ => ⟨ge, h, h'⟩⟩

/-- The last slot below `n` that matches. -/
def findBelow (es : List GROUPENTRY) (hash : HASH) (ignoredeleted : Bool) : ℕ → Option ℕ
  | 0 => none
  | n + 1 => if Matches es hash ignoredeleted n then some n else findBelow es hash ignoredeleted n

/-- `GROUPfind`: slots are never freed, and a group is entered at the head of its chain, so
the chain has the slots from the last to the first. -/
def GROUPfind (es : List GROUPENTRY) (hash : HASH) (ignoredeleted : Bool) : Option ℕ :=
  findBelow es hash ignoredeleted es.length

/-- `setinitialge`. -/
def setinitialge (ge : GROUPENTRY) (hash : HASH) (flag : UInt8) (lo hi : ℕ) : GROUPENTRY where
  hash := hash
  high := hi
  low := if lo ≠ 0 then lo else ge.low
  flag := flag
  expired := 0
  deleted := 0
  arts := []

/-- `buffindexed_groupadd`. -/
def buffindexedGroupadd (es : List GROUPENTRY) (hash : HASH) (lo hi : ℕ) (flag : UInt8) :
    List GROUPENTRY :=
  match GROUPfind es hash true with
  | some i => es.modify i fun ge =>
      if ge.deleted ≠ 0 then setinitialge ge hash flag lo hi else { ge with flag := flag }
  | none => es ++ [setinitialge emptySlot hash flag lo hi]

/-- `ovaddrec`, where it succeeds. -/
def ovaddrec (ge : GROUPENTRY) (art : Article) : GROUPENTRY :=
  { ge with
    low := if ge.low = 0 ∨ art.artnum < ge.low then art.artnum else ge.low
    high := if ge.high = 0 ∨ ge.high < art.artnum then art.artnum else ge.high
    arts := ge.arts ++ [art] }

/-- `buffindexed_add`, where there is room. -/
def buffindexedAdd (cutofflow : Bool) (es : List GROUPENTRY) (hash : HASH) (art : Article) :
    List GROUPENTRY :=
  if OV_BLOCKSIZE < art.data.length then es
  else
    match GROUPfind es hash false with
    | some i => es.modify i fun ge =>
        if cutofflow ∧ art.artnum < ge.low then ge else ovaddrec ge art
    | none => es

/-- How the expiry of a group goes: the search for it fails; the overview cannot be opened, or
there is no room for the articles to keep; or some of its articles are kept. -/
inductive Outcome where
  | notFound
  | fails
  | keeps (arts : List Article)
deriving DecidableEq

/-- The marks of a group without articles. -/
def emptyMarks (ge : GROUPENTRY) : GROUPENTRY :=
  let low := if max ge.low ge.high = 0 then 1 else max ge.low ge.high
  { ge with low := low, high := low - 1 }

/-- The entry after an expiry that keeps some articles. -/
def keepArticles (ge : GROUPENTRY) (arts : List Article) : GROUPENTRY :=
  let newge := arts.foldl ovaddrec (setinitialge { ge with low := 0 } ge.hash ge.flag 0 ge.high)
  let newge := if newge.low = 0 then { newge with low := newge.high } else newge
  if newge.count = 0 then emptyMarks newge else newge

/-- `buffindexed_expiregroup` for a group, on its entry. -/
def expireEntry (now : ℤ) (ge : GROUPENTRY) (arts : Option (List Article)) : GROUPENTRY :=
  if ge.count = 0 then { emptyMarks ge with expired := now }
  else
    match arts with
    | none => { ge with expired := now }
    | some arts => { keepArticles ge arts with expired := now }

/-- What `buffindexed_expiregroup` does without a group to a slot, unless its overview cannot be
mapped. -/
def purgeEntry (realnow now : ℤ) (ge : GROUPENTRY) : GROUPENTRY :=
  if realnow ≤ ge.expired ∨ ge.count = 0 then ge else { ge with expired := now, arts := [] }

/-! ## The run -/

/-- `OVrealnow`, and whether articles below the low mark are left out. -/
structure Params where
  realnow : ℤ
  cutofflow : Bool

/-- The group index with an expire run: the groups it has still to expire, and in the purge the
slot it is at and the number of slots it looks at. -/
structure State where
  entries : List GROUPENTRY
  clock : ℤ
  todo : List HASH
  purge : Option (ℕ × ℕ)
deriving DecidableEq

/-- The steps of the two processes, and the time that passes. -/
inductive Action where
  | time (t : ℤ)
  | groupadd (hash : HASH) (lo hi : ℕ) (flag : UInt8)
  | add (hash : HASH) (art : Article)
  | expiregroup (o : Outcome)
  | purge (count : ℕ)
  | purgeSlot (mapped : Bool)
deriving DecidableEq

/-- The expiry of the next group of the active file. -/
def expireNext (s : State) (hash : HASH) : Outcome → Option (List GROUPENTRY)
  | .notFound => some s.entries
  | .fails =>
    match GROUPfind s.entries hash false with
    | none => none
    | some i => some (s.entries.modify i fun ge => expireEntry s.clock ge none)
  | .keeps arts =>
    match GROUPfind s.entries hash false with
    | none => none
    | some i => some (s.entries.modify i fun ge => expireEntry s.clock ge
        (some (arts.filter (· ∈ ge.arts))))

def step (p : Params) (s : State) : Action → Option State
  | .time t => some { s with clock := t }
  | .groupadd hash lo hi flag =>
    some { s with entries := buffindexedGroupadd s.entries hash lo hi flag }
  | .add hash art => some { s with entries := buffindexedAdd p.cutofflow s.entries hash art }
  | .expiregroup o =>
    match s.todo, s.purge with
    | hash :: todo, none =>
      (expireNext s hash o).map fun entries => { s with entries := entries, todo := todo }
    | _, _ => none
  | .purge count =>
    if s.todo = [] ∧ s.purge = none ∧ s.entries.length ≤ count then
      some { s with purge := some (0, count) }
    else none
  | .purgeSlot mapped =>
    match s.purge with
    | none => none
    | some (i, count) =>
      if i < count then
        some { s with
          entries := if mapped then s.entries.modify i (purgeEntry p.realnow s.clock) else s.entries
          purge := some (i + 1, count) }
      else none

def Next (p : Params) (s : State) (a : Action) (s' : State) : Prop := step p s a = some s'

/-- In a step a group loses no article but those its own expiry drops. -/
def KeepsArticles (s : State) (a : Action) (s' : State) : Prop :=
  ∀ (i : ℕ) (ge : GROUPENTRY), s.entries[i]? = some ge → ge.Live →
    ∃ ge' : GROUPENTRY, s'.entries[i]? = some ge' ∧ ∀ art ∈ ge.arts, art ∈ ge'.arts ∨
      ∃ arts, a = .expiregroup (.keeps arts) ∧ s.todo.head? = some ge.hash ∧
        GROUPfind s.entries ge.hash false = some i ∧ art ∉ arts

/-- The purge will not take the articles of a group: it was expired since the run began, or the
purge does not come to its slot any more, or it is still to be expired and will be found. -/
def Spared (p : Params) (s : State) (i : ℕ) (ge : GROUPENTRY) : Prop :=
  p.realnow ≤ ge.expired ∨ (∃ j count, s.purge = some (j, count) ∧ (i < j ∨ count ≤ i)) ∨
    (ge.hash ∈ s.todo ∧ GROUPfind s.entries ge.hash true = some i)

/-- The steps that lose nothing: the clock does not go behind the start of the run; an article
is added to a group that the purge spares; and a group with articles that is to be expired is
found, unless it was expired. -/
def Safe (p : Params) (s : State) : Action → Prop
  | .time t => p.realnow ≤ t
  | .groupadd _ _ _ _ => True
  | .add hash _ => ∀ (i : ℕ) (ge : GROUPENTRY), GROUPfind s.entries hash false = some i →
      s.entries[i]? = some ge → Spared p s i ge
  | .expiregroup o => o = .notFound → ∀ (hash : HASH) (i : ℕ) (ge : GROUPENTRY),
      s.todo.head? = some hash → GROUPfind s.entries hash false = some i →
      s.entries[i]? = some ge → ge.arts ≠ [] → p.realnow ≤ ge.expired
  | .purge _ => True
  | .purgeSlot _ => True

/-- The state at the start of a run: every group with articles is in the active file, or
was expired since. -/
structure Start (p : Params) (s : State) : Prop where
  clock : p.realnow ≤ s.clock
  purge : s.purge = none
  spared : ∀ (i : ℕ) (ge : GROUPENTRY), s.entries[i]? = some ge → ge.Live → ge.arts ≠ [] →
    Spared p s i ge

section Equations

-- the equations, once for all proofs below
attribute [local simp] findBelow

end Equations

/-! ## Finding a group -/

section Find

variable {es es' : List GROUPENTRY} {hash : HASH} {b : Bool} {i j n : ℕ} {ge : GROUPENTRY}

theorem findBelow_eq_some_iff : findBelow es hash b n = some i ↔
    i < n ∧ Matches es hash b i ∧ ∀ j, i < j → j < n → ¬ Matches es hash b j := by
  induction n with
  | zero => exact iff_of_false nofun fun h => Nat.not_lt_zero i h.1
  | succ n ih =>
    rw [findBelow]
    split
    · rename_i hn
      constructor
      · intro h
        obtain rfl := Option.some.inj h
        exact ⟨Nat.lt_succ_self n, hn, fun j hj hjn => by omega⟩
      · rintro ⟨hlt, hi, hmax⟩
        by_contra hne
        have hin : i < n := by
          rcases Nat.lt_succ_iff_lt_or_eq.mp hlt with h | rfl
          · exact h
          · exact absurd rfl hne
        exact hmax n hin (Nat.lt_succ_self n) hn
    · rename_i hn
      rw [ih]
      constructor
      · rintro ⟨hlt, hi, hmax⟩
        refine ⟨Nat.lt_succ_of_lt hlt, hi, fun j hj hjn => ?_⟩
        rcases Nat.lt_succ_iff_lt_or_eq.mp hjn with h | rfl
        · exact hmax j hj h
        · exact hn
      · rintro ⟨hlt, hi, hmax⟩
        have hin : i < n := by
          rcases Nat.lt_succ_iff_lt_or_eq.mp hlt with h | rfl
          · exact h
          · exact absurd hi hn
        exact ⟨hin, hi, fun j hj hjn => hmax j hj (Nat.lt_succ_of_lt hjn)⟩

theorem Matches.lt_length (h : Matches es hash b i) : i < es.length := by
  obtain ⟨ge, hge, -⟩ := h
  exact (List.getElem?_eq_some_iff.mp hge).1

/-- A group is found in the last slot that has its hash. -/
theorem GROUPfind_eq_some_iff : GROUPfind es hash b = some i ↔
    Matches es hash b i ∧ ∀ j, i < j → ¬ Matches es hash b j := by
  rw [GROUPfind, findBelow_eq_some_iff]
  constructor
  · rintro ⟨-, hi, hmax⟩
    exact ⟨hi, fun j hj hm => hmax j hj hm.lt_length hm⟩
  · rintro ⟨hi, hmax⟩
    exact ⟨hi.lt_length, hi, fun j hj _ => hmax j hj⟩

/-- What is found if deleted groups count is found without them, if it is not deleted. -/
theorem GROUPfind_of_live (h : GROUPfind es hash true = some i) (hge : es[i]? = some ge)
    (hlive : ge.Live) : GROUPfind es hash false = some i := by
  obtain ⟨⟨ge', hge', hhash, -⟩, hmax⟩ := GROUPfind_eq_some_iff.mp h
  obtain rfl := Option.some.inj (hge'.symm.trans hge)
  refine GROUPfind_eq_some_iff.mpr ⟨⟨ge', hge', hhash, .inl hlive⟩, fun j hj hm => ?_⟩
  obtain ⟨gj, hgj, hh, -⟩ := hm
  exact hmax j hj ⟨gj, hgj, hh, .inr rfl⟩

/-- Where deleted groups count, the search depends on the hashes only. -/
theorem GROUPfind_congr (h : ∀ j : ℕ, (es[j]?).map GROUPENTRY.hash = (es'[j]?).map GROUPENTRY.hash) :
    GROUPfind es hash true = some i ↔ GROUPfind es' hash true = some i := by
  have hm : ∀ (es : List GROUPENTRY) (j : ℕ),
      Matches es hash true j ↔ (es[j]?).map GROUPENTRY.hash = some hash := by
    intro es j
    rw [Option.map_eq_some_iff]
    constructor
    · rintro ⟨ge, hge, hh, -⟩
      exact ⟨ge, hge, hh⟩
    · rintro ⟨ge, hge, hh⟩
      exact ⟨ge, hge, hh, .inr rfl⟩
  simp only [GROUPfind_eq_some_iff, hm, h]

/-- A change to a slot that leaves its hash does not matter. -/
theorem GROUPfind_modify {f : GROUPENTRY → GROUPENTRY} (hf : ∀ ge, es[j]? = some ge →
    (f ge).hash = ge.hash) :
    GROUPfind (es.modify j f) hash true = some i ↔ GROUPfind es hash true = some i := by
  refine GROUPfind_congr fun k => ?_
  by_cases hk : j = k
  · subst hk
    rw [List.getElem?_modify_eq]
    cases hge : es[j]? with
    | none => rfl
    | some ge => exact congrArg some (hf ge hge)
  · rw [List.getElem?_modify_ne f es hk]

/-- Nor does a new slot with another hash. -/
theorem GROUPfind_append (hne : ge.hash ≠ hash) (h : GROUPfind es hash true = some i) :
    GROUPfind (es ++ [ge]) hash true = some i := by
  obtain ⟨⟨gi, hgi, hh, hd⟩, hmax⟩ := GROUPfind_eq_some_iff.mp h
  have hi := (List.getElem?_eq_some_iff.mp hgi).1
  refine GROUPfind_eq_some_iff.mpr ⟨⟨gi, ?_, hh, hd⟩, fun j hj hm => ?_⟩
  · rwa [List.getElem?_append_left hi]
  · obtain ⟨gj, hgj, hhj, hdj⟩ := hm
    by_cases hlt : j < es.length
    · rw [List.getElem?_append_left hlt] at hgj
      exact hmax j hj ⟨gj, hgj, hhj, hdj⟩
    · have hjl := (List.getElem?_eq_some_iff.mp hgj).1
      rw [List.length_append, List.length_singleton] at hjl
      have hlast : j = es.length := by omega
      rw [hlast, List.getElem?_concat_length] at hgj
      exact hne ((congrArg GROUPENTRY.hash (Option.some.inj hgj)).trans hhj)

theorem findBelow_eq_none_iff : findBelow es hash b n = none ↔ ∀ j < n, ¬ Matches es hash b j := by
  induction n with
  | zero => exact iff_of_true rfl fun j hj => absurd hj (Nat.not_lt_zero j)
  | succ n ih =>
    rw [findBelow, Nat.forall_lt_succ_right]
    split
    · rename_i hn
      exact iff_of_false nofun fun h => h.2 hn
    · rename_i hn
      rw [ih]
      exact ⟨fun h => ⟨h, hn⟩, fun h => h.1⟩

theorem GROUPfind_eq_none_iff : GROUPfind es hash b = none ↔ ∀ j, ¬ Matches es hash b j := by
  rw [GROUPfind, findBelow_eq_none_iff]
  exact ⟨fun h j hm => h j hm.lt_length hm, fun h j _ => h j⟩

end Find

/-! ## A step -/

section Step

variable {p : Params} {s s' : State} {a : Action} {i : ℕ} {ge : GROUPENTRY}

theorem setinitialge_arts (ge : GROUPENTRY) (hash : HASH) (flag : UInt8) (lo hi : ℕ) :
    (setinitialge ge hash flag lo hi).arts = [] := rfl

theorem foldl_ovaddrec (ge : GROUPENTRY) (arts : List Article) :
    (arts.foldl ovaddrec ge).arts = ge.arts ++ arts ∧
      (arts.foldl ovaddrec ge).hash = ge.hash := by
  induction arts generalizing ge with
  | nil => exact ⟨(List.append_nil _).symm, rfl⟩
  | cons art arts ih =>
    obtain ⟨harts, hhash⟩ := ih (ovaddrec ge art)
    rw [List.foldl_cons, harts, hhash]
    refine ⟨?_, rfl⟩
    rw [ovaddrec, List.append_assoc]
    rfl

/-- An expiry keeps the articles it is to keep. -/
theorem keepArticles_arts (ge : GROUPENTRY) (arts : List Article) :
    (keepArticles ge arts).arts = arts ∧ (keepArticles ge arts).hash = ge.hash := by
  obtain ⟨harts, hhash⟩ :=
    foldl_ovaddrec (setinitialge { ge with low := 0 } ge.hash ge.flag 0 ge.high) arts
  simp only [keepArticles]
  split
  · split
    · exact ⟨harts, hhash⟩
    · exact ⟨harts, hhash⟩
  · split
    · exact ⟨harts, hhash⟩
    · exact ⟨harts, hhash⟩

/-- After its expiry a group has the time of it. -/
theorem expireEntry_expired (now : ℤ) (ge : GROUPENTRY) (arts : Option (List Article)) :
    (expireEntry now ge arts).expired = now := by
  simp only [expireEntry]
  split
  · rfl
  · cases arts <;> rfl

theorem expireEntry_hash (now : ℤ) (ge : GROUPENTRY) (arts : Option (List Article)) :
    (expireEntry now ge arts).hash = ge.hash := by
  simp only [expireEntry]
  split
  · rfl
  · cases arts with
    | none => rfl
    | some arts => exact (keepArticles_arts ge arts).2

/-- An expiry drops only articles that it does not keep. -/
theorem mem_expireEntry {now : ℤ} {arts : List Article} {art : Article} (hart : art ∈ ge.arts) :
    art ∈ (expireEntry now ge none).arts ∧
      (art ∈ (expireEntry now ge (some (arts.filter (· ∈ ge.arts)))).arts ∨ art ∉ arts) := by
  have hcount : ge.count ≠ 0 := by
    intro h
    rw [List.eq_nil_of_length_eq_zero h] at hart
    cases hart
  simp only [expireEntry, if_neg hcount]
  refine ⟨hart, ?_⟩
  by_cases hkeep : art ∈ arts
  · refine .inl ?_
    show art ∈ (keepArticles ge (arts.filter (· ∈ ge.arts))).arts
    rw [(keepArticles_arts ge _).1]
    exact List.mem_filter.mpr ⟨hkeep, decide_eq_true hart⟩
  · exact .inr hkeep

/-- What an expiry does to the index: nothing, or the entry that is found is expired. -/
theorem expireNext_cases {hash : HASH} {o : Outcome} {es : List GROUPENTRY}
    (h : expireNext s hash o = some es) :
    (o = .notFound ∧ es = s.entries) ∨
      ∃ i, GROUPfind s.entries hash false = some i ∧
        ((o = .fails ∧ es = s.entries.modify i fun ge => expireEntry s.clock ge none) ∨
          ∃ arts, o = .keeps arts ∧ es = s.entries.modify i fun ge =>
            expireEntry s.clock ge (some (arts.filter (· ∈ ge.arts)))) := by
  cases o with
  | notFound => exact .inl ⟨rfl, (Option.some.inj h).symm⟩
  | fails =>
    rw [expireNext] at h
    split at h
    · cases h
    · rename_i i hi
      exact .inr ⟨i, hi, .inl ⟨rfl, (Option.some.inj h).symm⟩⟩
  | keeps arts =>
    rw [expireNext] at h
    split at h
    · cases h
    · rename_i i hi
      exact .inr ⟨i, hi, .inr ⟨arts, rfl, (Option.some.inj h).symm⟩⟩

/-- What `buffindexed_groupadd` does: a slot that has the hash is used anew if its group was
deleted, or else gets a flag; or there is a new slot. -/
theorem groupadd_cases (es : List GROUPENTRY) (hash : HASH) (lo hi : ℕ) (flag : UInt8) :
    (∃ i, GROUPfind es hash true = some i ∧
      buffindexedGroupadd es hash lo hi flag = es.modify i fun ge =>
        if ge.deleted ≠ 0 then setinitialge ge hash flag lo hi else { ge with flag := flag }) ∨
      (GROUPfind es hash true = none ∧
        buffindexedGroupadd es hash lo hi flag = es ++ [setinitialge emptySlot hash flag lo hi]) := by
  rw [buffindexedGroupadd]
  cases hfind : GROUPfind es hash true with
  | none => exact .inr ⟨rfl, rfl⟩
  | some i => exact .inl ⟨i, rfl, rfl⟩

/-- What `buffindexed_add` does: nothing, or the entry that is found may get the article. -/
theorem add_cases (cutofflow : Bool) (es : List GROUPENTRY) (hash : HASH) (art : Article) :
    buffindexedAdd cutofflow es hash art = es ∨
      ∃ i, GROUPfind es hash false = some i ∧
        buffindexedAdd cutofflow es hash art = es.modify i fun ge =>
          if cutofflow ∧ art.artnum < ge.low then ge else ovaddrec ge art := by
  rw [buffindexedAdd]
  split
  · exact .inl rfl
  · cases hfind : GROUPfind es hash false with
    | none => exact .inl rfl
    | some i => exact .inr ⟨i, rfl, rfl⟩

theorem add_entry {cutofflow : Bool} (ge : GROUPENTRY) (art : Article) :
    let ge' := if cutofflow ∧ art.artnum < ge.low then ge else ovaddrec ge art
    ge'.hash = ge.hash ∧ ge'.expired = ge.expired ∧ ge'.deleted = ge.deleted ∧
      ∀ art' ∈ ge.arts, art' ∈ ge'.arts := by
  dsimp only
  split
  · exact ⟨rfl, rfl, rfl, fun _ h => h⟩
  · exact ⟨rfl, rfl, rfl, fun _ h => List.mem_append_left _ h⟩

theorem getElem?_of_modify {es : List GROUPENTRY} {f : GROUPENTRY → GROUPENTRY} {j : ℕ}
    (h : (es.modify j f)[i]? = some ge) :
    ∃ ge₀, es[i]? = some ge₀ ∧ ((i = j ∧ ge = f ge₀) ∨ (i ≠ j ∧ ge = ge₀)) := by
  by_cases hij : i = j
  · subst hij
    rw [List.getElem?_modify_eq] at h
    obtain ⟨ge₀, hge₀, rfl⟩ := Option.map_eq_some_iff.mp h
    exact ⟨ge₀, hge₀, .inl ⟨rfl, rfl⟩⟩
  · rw [List.getElem?_modify_ne f es (Ne.symm hij)] at h
    exact ⟨ge, h, .inr ⟨hij, rfl⟩⟩

/-- A change of the entries that a search does not notice. -/
theorem Spared.of_entries {es : List GROUPENTRY} (h : Spared p s i ge)
    (hfind : GROUPfind s.entries ge.hash true = some i → GROUPfind es ge.hash true = some i) :
    Spared p { s with entries := es } i ge := by
  rcases h with h | h | ⟨h, h'⟩
  · exact .inl h
  · exact .inr (.inl h)
  · exact .inr (.inr ⟨h, hfind h'⟩)

/-- What holds throughout a run. -/
structure Inv (p : Params) (s : State) : Prop where
  clock : p.realnow ≤ s.clock
  todo : s.purge ≠ none → s.todo = []
  spared : ∀ (i : ℕ) (ge : GROUPENTRY), s.entries[i]? = some ge → ge.Live → ge.arts ≠ [] →
    Spared p s i ge

theorem Start.inv (h : Start p s) : Inv p s := ⟨h.clock, fun hne => absurd h.purge hne, h.spared⟩

theorem inv_groupadd {hash : HASH} {lo hi : ℕ} {flag : UInt8} (h : Inv p s) :
    Inv p { s with entries := buffindexedGroupadd s.entries hash lo hi flag } := by
  refine ⟨h.clock, h.todo, fun i ge hge hlive harts => ?_⟩
  dsimp only at hge
  rcases groupadd_cases s.entries hash lo hi flag with ⟨j, hj, heq⟩ | ⟨hnone, heq⟩
  · rw [heq] at hge ⊢
    have hhash : ∀ ge₀, s.entries[j]? = some ge₀ → (if ge₀.deleted ≠ 0 then
        setinitialge ge₀ hash flag lo hi else { ge₀ with flag := flag }).hash = ge₀.hash := by
      intro ge₀ hge₀
      obtain ⟨ge₁, hge₁, hh, -⟩ := (GROUPfind_eq_some_iff.mp hj).1
      obtain rfl := Option.some.inj (hge₁.symm.trans hge₀)
      split
      · exact hh.symm
      · rfl
    obtain ⟨ge₀, hge₀, ⟨rfl, rfl⟩ | ⟨-, rfl⟩⟩ := getElem?_of_modify hge
    · by_cases hdel : ge₀.deleted ≠ 0
      · rw [if_pos hdel] at harts
        exact absurd (setinitialge_arts ge₀ hash flag lo hi) harts
      · rw [if_neg hdel] at hlive harts ⊢
        have hsp := h.spared i ge₀ hge₀ hlive harts
        exact Spared.of_entries hsp (GROUPfind_modify hhash).mpr
    · exact (h.spared i ge hge₀ hlive harts).of_entries (GROUPfind_modify hhash).mpr
  · -- a new slot
    rw [heq] at hge ⊢
    by_cases hi : i < s.entries.length
    · rw [List.getElem?_append_left hi] at hge
      refine (h.spared i ge hge hlive harts).of_entries (GROUPfind_append ?_)
      intro hhash
      exact GROUPfind_eq_none_iff.mp hnone i ⟨ge, hge, hhash.symm, .inr rfl⟩
    · have hlast := (List.getElem?_eq_some_iff.mp hge).1
      rw [List.length_append, List.length_singleton] at hlast
      obtain rfl : i = s.entries.length := by omega
      rw [List.getElem?_concat_length] at hge
      rw [← Option.some.inj hge] at harts
      exact absurd (setinitialge_arts _ _ _ _ _) harts

theorem inv_add {hash : HASH} {art : Article} (h : Inv p s) (hsafe : Safe p s (.add hash art)) :
    Inv p { s with entries := buffindexedAdd p.cutofflow s.entries hash art } := by
  refine ⟨h.clock, h.todo, fun i ge hge hlive harts => ?_⟩
  dsimp only at hge
  rcases add_cases p.cutofflow s.entries hash art with heq | ⟨j, hj, heq⟩
  · rw [heq] at hge ⊢
    exact h.spared i ge hge hlive harts
  · rw [heq] at hge ⊢
    have hfind := @GROUPfind_modify s.entries ge.hash i j _
      fun ge _ => (@add_entry p.cutofflow ge art).1
    obtain ⟨ge₀, hge₀, ⟨rfl, rfl⟩ | ⟨-, rfl⟩⟩ := getElem?_of_modify hge
    · -- the article is added to this group
      obtain ⟨hhash, hexpired, -⟩ := @add_entry p.cutofflow ge₀ art
      refine Spared.of_entries ?_ hfind.mpr
      have hsp := hsafe i ge₀ hj hge₀
      rw [Spared] at hsp ⊢
      rwa [hhash, hexpired]
    · exact (h.spared i ge hge₀ hlive harts).of_entries hfind.mpr

/-- The expiry of a group leaves every other group as it is, and this one expired. -/
theorem inv_expiregroup {hash : HASH} {todo : List HASH} {o : Outcome} {es : List GROUPENTRY}
    (h : Inv p s) (htodo : s.todo = hash :: todo) (hpurge : s.purge = none)
    (hsafe : Safe p s (.expiregroup o)) (hnext : expireNext s hash o = some es) :
    Inv p { s with entries := es, todo := todo } := by
  refine ⟨h.clock, fun hne => absurd hpurge hne, fun i ge hge hlive harts => ?_⟩
  dsimp only at hge
  rcases expireNext_cases hnext with ⟨rfl, rfl⟩ | ⟨j, hj, hes⟩
  · rcases h.spared i ge hge hlive harts with hexp | ⟨k, count, hk, -⟩ | ⟨hmem, hfind⟩
    · exact .inl hexp
    · rw [hpurge] at hk
      cases hk
    · rw [htodo] at hmem
      rcases List.mem_cons.mp hmem with hhash | hmem
      · refine .inl (hsafe rfl hash i ge (by rw [htodo]; rfl) ?_ hge harts)
        rw [← hhash]
        exact GROUPfind_of_live hfind hge hlive
      · exact .inr (.inr ⟨hmem, hfind⟩)
  · obtain ⟨arts, rfl⟩ : ∃ arts : GROUPENTRY → Option (List Article),
        es = s.entries.modify j fun ge => expireEntry s.clock ge (arts ge) := by
      rcases hes with ⟨-, rfl⟩ | ⟨arts, -, rfl⟩
      · exact ⟨fun _ => none, rfl⟩
      · exact ⟨fun ge => some (arts.filter (· ∈ ge.arts)), rfl⟩
    obtain ⟨ge₀, hge₀, ⟨rfl, rfl⟩ | ⟨hij, rfl⟩⟩ := getElem?_of_modify hge
    · refine .inl ?_
      rw [expireEntry_expired]
      exact h.clock
    rcases h.spared i ge hge₀ hlive harts with hexp | ⟨k, count, hk, -⟩ | ⟨hmem, hfind⟩
    · exact .inl hexp
    · rw [hpurge] at hk
      cases hk
    · refine .inr (.inr ⟨?_, (GROUPfind_modify fun ge _ => expireEntry_hash _ _ _).mpr hfind⟩)
      rw [htodo] at hmem
      refine (List.mem_cons.mp hmem).resolve_left fun hhash => hij ?_
      -- the group to expire is found in one slot
      have hfind' := GROUPfind_of_live hfind hge₀ hlive
      rw [hhash, hj] at hfind'
      exact (Option.some.inj hfind').symm

/-- In the purge, a group with articles was expired since, unless its slot was passed. -/
theorem Inv.expired_of_purge (h : Inv p s) {j count : ℕ} (hpurge : s.purge = some (j, count))
    (hge : s.entries[i]? = some ge) (hlive : ge.Live) (harts : ge.arts ≠ []) :
    p.realnow ≤ ge.expired ∨ i < j ∨ count ≤ i := by
  rcases h.spared i ge hge hlive harts with hexp | ⟨k, count', hk, hpassed⟩ | ⟨hmem, -⟩
  · exact .inl hexp
  · rw [hpurge] at hk
    cases hk
    exact .inr hpassed
  · rw [h.todo (by rw [hpurge]; exact nofun)] at hmem
    cases hmem

theorem inv_purgeSlot {j count : ℕ} {mapped : Bool} (h : Inv p s)
    (hpurge : s.purge = some (j, count)) : Inv p { s with
      entries := if mapped then s.entries.modify j (purgeEntry p.realnow s.clock) else s.entries
      purge := some (j + 1, count) } := by
  have htodo : s.todo = [] := h.todo (by rw [hpurge]; exact nofun)
  refine ⟨h.clock, fun _ => htodo, fun i ge hge hlive harts => ?_⟩
  dsimp only at hge
  have hspared : ∀ ge, s.entries[i]? = some ge → ge.Live → ge.arts ≠ [] →
      p.realnow ≤ ge.expired ∨ i < j + 1 ∨ count ≤ i := by
    intro ge hge hlive harts
    rcases h.expired_of_purge hpurge hge hlive harts with hexp | hpassed | hpassed
    · exact .inl hexp
    · exact .inr (.inl (Nat.lt_succ_of_lt hpassed))
    · exact .inr (.inr hpassed)
  have hsp : p.realnow ≤ ge.expired ∨ i < j + 1 ∨ count ≤ i := by
    split at hge
    · obtain ⟨ge₀, hge₀, ⟨rfl, -⟩ | ⟨-, rfl⟩⟩ := getElem?_of_modify hge
      · exact .inr (.inl (Nat.lt_succ_self i))
      · exact hspared ge hge₀ hlive harts
    · exact hspared ge hge hlive harts
  rcases hsp with hexp | hpassed
  · exact .inl hexp
  · exact .inr (.inl ⟨j + 1, count, rfl, hpassed⟩)

/-- Every safe step keeps every group with articles spared. -/
theorem spared_step (h : Inv p s) (hsafe : Safe p s a) (hnext : Next p s a s') : Inv p s' := by
  cases a with
  | time t =>
    cases hnext
    exact ⟨hsafe, h.todo, h.spared⟩
  | groupadd hash lo hi flag =>
    cases hnext
    exact inv_groupadd h
  | add hash art =>
    cases hnext
    exact inv_add h hsafe
  | expiregroup o =>
    rw [Next, step] at hnext
    split at hnext
    · rename_i hash todo htodo hpurge
      obtain ⟨es, hes, rfl⟩ := Option.map_eq_some_iff.mp hnext
      exact inv_expiregroup h htodo hpurge hsafe hes
    · cases hnext
  | purge count =>
    rw [Next, step] at hnext
    split at hnext
    · rename_i hc
      cases hnext
      refine ⟨h.clock, fun _ => hc.1, fun i ge hge hlive harts => ?_⟩
      rcases h.spared i ge hge hlive harts with hexp | ⟨k, count', hk, -⟩ | ⟨hmem, -⟩
      · exact .inl hexp
      · rw [hc.2.1] at hk
        cases hk
      · rw [hc.1] at hmem
        cases hmem
    · cases hnext
  | purgeSlot mapped =>
    rw [Next, step] at hnext
    split at hnext
    · cases hnext
    · rename_i j count hpurge
      split at hnext
      · cases hnext
        exact inv_purgeSlot h hpurge
      · cases hnext

/-- A step that changes one slot. -/
theorem keepsArticles_modify {f : GROUPENTRY → GROUPENTRY} {j : ℕ}
    (hs' : s'.entries = s.entries.modify j f)
    (hf : ∀ ge, s.entries[j]? = some ge → ge.Live → ∀ art ∈ ge.arts, art ∈ (f ge).arts ∨
      ∃ arts, a = .expiregroup (.keeps arts) ∧ s.todo.head? = some ge.hash ∧
        GROUPfind s.entries ge.hash false = some j ∧ art ∉ arts) : KeepsArticles s a s' := by
  intro i ge hge hlive
  rw [hs']
  by_cases hij : j = i
  · subst hij
    refine ⟨f ge, ?_, hf ge hge hlive⟩
    rw [List.getElem?_modify_eq, hge]
    rfl
  · exact ⟨ge, by rw [List.getElem?_modify_ne f _ hij, hge], fun art hart => .inl hart⟩

theorem keepsArticles_of_eq (hs' : s'.entries = s.entries) : KeepsArticles s a s' :=
  fun _ ge hge _ => ⟨ge, by rw [hs', hge], fun _ hart => .inl hart⟩

theorem keepsArticles_expiregroup {hash : HASH} {todo : List HASH} {o : Outcome}
    {es : List GROUPENTRY} (htodo : s.todo = hash :: todo) (hnext : expireNext s hash o = some es)
    (hs' : s'.entries = es) : KeepsArticles s (.expiregroup o) s' := by
  rcases expireNext_cases hnext with ⟨-, rfl⟩ | ⟨j, hj, ⟨-, rfl⟩ | ⟨arts, rfl, rfl⟩⟩
  · exact keepsArticles_of_eq hs'
  · exact keepsArticles_modify hs' fun ge _ _ art hart => .inl (@mem_expireEntry ge _ [] art hart).1
  · refine keepsArticles_modify hs' fun ge hge _ art hart => ?_
    refine (@mem_expireEntry ge _ arts art hart).2.imp_right fun hdrop => ?_
    obtain ⟨ge', hge', hhash, -⟩ := (GROUPfind_eq_some_iff.mp hj).1
    obtain rfl := Option.some.inj (hge'.symm.trans hge)
    rw [hhash, htodo]
    exact ⟨arts, rfl, rfl, hj, hdrop⟩

/-- A safe step loses no article but those an expiry drops. -/
theorem keepsArticles_step (h : Inv p s) (hnext : Next p s a s') : KeepsArticles s a s' := by
  cases a with
  | time t =>
    cases hnext
    exact keepsArticles_of_eq rfl
  | groupadd hash lo hi flag =>
    cases hnext
    rcases groupadd_cases s.entries hash lo hi flag with ⟨j, -, heq⟩ | ⟨-, heq⟩
    · refine keepsArticles_modify heq fun ge _ hlive art hart => .inl ?_
      rw [if_neg fun hne => hne hlive]
      exact hart
    · intro i ge hge _
      refine ⟨ge, ?_, fun art hart => .inl hart⟩
      dsimp only
      rw [heq, List.getElem?_append_left (List.getElem?_eq_some_iff.mp hge).1, hge]
  | add hash art =>
    cases hnext
    rcases add_cases p.cutofflow s.entries hash art with heq | ⟨j, -, heq⟩
    · exact keepsArticles_of_eq heq
    · exact keepsArticles_modify heq fun ge _ _ art' hart =>
        .inl ((@add_entry p.cutofflow ge art).2.2.2 art' hart)
  | expiregroup o =>
    rw [Next, step] at hnext
    split at hnext
    · rename_i hash todo htodo hpurge
      obtain ⟨es, hes, rfl⟩ := Option.map_eq_some_iff.mp hnext
      exact keepsArticles_expiregroup htodo hes rfl
    · cases hnext
  | purge count =>
    rw [Next, step] at hnext
    split at hnext
    · cases hnext
      exact keepsArticles_of_eq rfl
    · cases hnext
  | purgeSlot mapped =>
    rw [Next, step] at hnext
    split at hnext
    · cases hnext
    · rename_i j count hpurge
      split at hnext
      · rename_i hj
        cases hnext
        cases mapped with
        | false => exact keepsArticles_of_eq rfl
        | true =>
          refine keepsArticles_modify rfl fun ge hge hlive art hart => .inl ?_
          -- the slot is not passed yet, so its group was expired
          have harts : ge.arts ≠ [] := List.ne_nil_of_mem hart
          rcases h.expired_of_purge hpurge hge hlive harts with hexp | hlt | hle
          · rwa [purgeEntry, if_pos (.inl hexp)]
          · exact absurd hlt (Nat.lt_irrefl j)
          · exact absurd hj (Nat.not_lt.mpr hle)
      · cases hnext

end Step

/-- In a run of safe steps a group that is not deleted loses no article but those its own
expiry drops. -/
theorem purge_spares_live {p : Params} {s₀ s s' : State} {acts : List Action} {a : Action}
    (h₀ : Start p s₀) (hrun : Steps (guarded (Safe p) (Next p)) s₀ acts s)
    (hstep : guarded (Safe p) (Next p) s a s') : KeepsArticles s a s' := by
  have hinv : Inv p s :=
    hrun.invariant (fun _ _ _ hnext hinv => spared_step hinv hnext.1 hnext.2) h₀.inv
  exact keepsArticles_step hinv hstep.2

/-! ## A new group in the purge -/

def oldHash : HASH := .replicate 16 1

def newHash : HASH := .replicate 16 2

def article : Article := ⟨1, [65], 100, 0⟩

/-- A run that began at time 100, with one group, which is in the active file. -/
def oneGroup : State where
  entries := [⟨oldHash, 1, 1, 121, 50, 0, [article]⟩]
  clock := 100
  todo := [oldHash]
  purge := none

def params : Params := ⟨100, false⟩

theorem start_oneGroup : Start params oneGroup := by
  refine ⟨by decide, rfl, fun i ge hge _ _ => .inr (.inr ?_)⟩
  cases i with
  | zero =>
    obtain rfl := Option.some.inj hge
    decide
  | succ i => cases hge

/-- The same after an expiry that failed. -/
def oneGroupFailed : State where
  entries := [⟨oldHash, 1, 1, 121, 100, 0, [article]⟩]
  clock := 100
  todo := []
  purge := none

theorem purge_spares_live_oneGroup :
    KeepsArticles oneGroup (.expiregroup .fails) oneGroupFailed := by
  have hnext : step params oneGroup (.expiregroup .fails) = some oneGroupFailed := by decide
  have hsafe : Safe params oneGroup (.expiregroup .fails) := fun h => nomatch h
  exact purge_spares_live start_oneGroup .nil ⟨hsafe, hnext⟩

/-- A group that is created and filled while the run is on, up to the purge of its slot. -/
def newGroupRun : List Action :=
  [.groupadd newHash 1 0 121, .add newHash article, .expiregroup .fails, .purge 1024,
    .purgeSlot true]

def atNewGroup : State where
  entries := [⟨oldHash, 1, 1, 121, 100, 0, [article]⟩, ⟨newHash, 1, 1, 121, 0, 0, [article]⟩]
  clock := 100
  todo := []
  purge := some (1, 1024)

/-- It loses its articles. -/
theorem purge_takes_new_group :
    Start params oneGroup ∧ Steps (Next params) oneGroup newGroupRun atNewGroup ∧
      ∃ s', Next params atNewGroup (.purgeSlot true) s' ∧
        ¬ KeepsArticles atNewGroup (.purgeSlot true) s' := by
  refine ⟨start_oneGroup, Steps.of_foldlM (by decide), _, rfl, fun h => ?_⟩
  obtain ⟨ge', hge', hkeep⟩ := h 1 ⟨newHash, 1, 1, 121, 0, 0, [article]⟩ rfl rfl
  rcases hkeep article List.mem_cons_self with hmem | ⟨arts, ha, -⟩
  · obtain rfl := Option.some.inj hge'
    exact absurd hmem (by decide)
  · cases ha

end Inn.Buffindexed
