import Inn.Libinn.Uwildmat
import Inn.Override
import Mathlib.Data.List.GetD

/-!
# Inn.Innd.Subscription — the groups of a site, at load time and at delivery time

`SITEsetlist` goes through the patterns of a site for all groups when newsfeeds is read, and looks a
pattern without `?`, `*` and `[` up as a name. `SITEwantsgroup` and `SITEpoisongroup` go through them
for one name, and match every pattern.

* `loaded_eq`, `delivered_eq` — both as rules of which the last one counts;
* `subscription_iff` — when they come to the same.
-/

namespace Inn.Innd.Subscription

open Inn.Libinn.Uwildmat (uwildmat match_pattern match_literal match_empty literal splitLoop
  patternLoop match_expression)

/-! ## The code -/

/-- `subvalue`: the pattern has neither `!` nor `@`. -/
def subvalue (pat : List UInt8) : Bool := !(pat.head? == some 33) && !(pat.head? == some 64)

/-- `poisonvalue`: it has `@`. -/
def poisonvalue (pat : List UInt8) : Bool := pat.head? == some 64

/-- The pattern behind them. -/
def patternText (pat : List UInt8) : List UInt8 := if subvalue pat then pat else pat.tail

/-- The bits of the groups, in the order of the active file, and `PoisonEntry`. -/
structure SubBits where
  subbed : List Bool
  poison : List Bool
  poisonEntry : Bool
deriving DecidableEq, Repr

/-- `NGfind`. -/
def NGfind (groups : List (List UInt8)) (name : List UInt8) : Option ℕ :=
  if name ∈ groups then some (groups.idxOf name) else none

/-- None of `?`, `*` and `[`. -/
def isName (pat : List UInt8) : Bool := pat.all fun c => c != 63 && c != 42 && c != 91

/-- One turn of the loop of `SITEsetlist`. -/
def setPattern (groups : List (List UInt8)) (b : SubBits) (pat : List UInt8) : SubBits :=
  let q := patternText pat
  if q = [] then b
  else
    let poisonEntry := b.poisonEntry || poisonvalue pat
    if isName q then
      match NGfind groups q with
      | some i => ⟨b.subbed.set i (subvalue pat), b.poison.set i (poisonvalue pat), poisonEntry⟩
      | none => { b with poisonEntry := poisonEntry }
    else
      ⟨List.zipWith (fun name v => if uwildmat name q then subvalue pat else v) groups b.subbed,
        List.zipWith (fun name v => if uwildmat name q then poisonvalue pat else v) groups b.poison,
        poisonEntry⟩

/-- `SITEsetlist`. -/
def SITEsetlist (groups patlist : List (List UInt8)) (b : SubBits) : SubBits :=
  patlist.foldl (setPattern groups) b

/-- The bits that `SITEparseone` sets: those of ME, and then those of the site. -/
def loadBits (groups me patterns : List (List UInt8)) (poisonEntry : Bool) : SubBits :=
  let clear : SubBits := ⟨groups.map fun _ => false, groups.map fun _ => false, poisonEntry⟩
  SITEsetlist groups patterns { SITEsetlist groups me clear with poisonEntry := false }

/-- One turn of the loops of `SITEwantsgroup`. -/
def wantsPattern (name : List UInt8) (m : Bool) (pat : List UInt8) : Bool :=
  if m ≠ subvalue pat ∧ uwildmat name (patternText pat) then subvalue pat else m

/-- `SITEwantsgroup`. -/
def SITEwantsgroup (me patterns : List (List UInt8)) (name : List UInt8) : Bool :=
  patterns.foldl (wantsPattern name) (me.foldl (wantsPattern name) false)

/-- One turn of the loops of `SITEpoisongroup`. -/
def poisonPattern (name : List UInt8) (m : Bool) (pat : List UInt8) : Bool :=
  if uwildmat name (patternText pat) then poisonvalue pat else m

/-- `SITEpoisongroup`. -/
def SITEpoisongroup (me patterns : List (List UInt8)) (name : List UInt8) : Bool :=
  patterns.foldl (poisonPattern name) (me.foldl (poisonPattern name) false)

/-! ## The last pattern -/

/-- The bits that a pattern sets. -/
def bitsOf (pat : List UInt8) : Bool × Bool := (subvalue pat, poisonvalue pat)

/-- The pattern is for the group, when newsfeeds is read. -/
def loads (name pat : List UInt8) : Bool :=
  if patternText pat = [] then false
  else if isName (patternText pat) then name == patternText pat
  else uwildmat name (patternText pat)

/-- The pattern is for the group, when an article is delivered. -/
def delivers (name pat : List UInt8) : Bool := uwildmat name (patternText pat)

/-- The last of the patterns that are for the group has these bits; without one there are none. -/
def LastBits (isFor : List UInt8 → Bool) (patterns : List (List UInt8)) (bits : Bool × Bool) :
    Prop :=
  (∃ before pat after, patterns = before ++ pat :: after ∧ isFor pat = true ∧
      (∀ pat' ∈ after, isFor pat' = false) ∧ bitsOf pat = bits) ∨
    ((∀ pat ∈ patterns, isFor pat = false) ∧ bits = (false, false))

/-- Of the last pattern that is for the group in one way or the other: it is so in both ways, or the
last one before it that is for the group in the other way has the same bits. -/
def Decided (name : List UInt8) (patterns : List (List UInt8)) : Prop :=
  ∀ before pat after, patterns = before ++ pat :: after →
    (∀ pat' ∈ after, loads name pat' = false ∧ delivers name pat' = false) →
    (loads name pat = true → delivers name pat = false →
        LastBits (delivers name) before (bitsOf pat)) ∧
      (loads name pat = false → delivers name pat = true →
        LastBits (loads name) before (bitsOf pat))

/-- A name without a backslash or a comma, and not beginning with `!`; or a pattern. -/
def Ordinary (pat : List UInt8) : Prop :=
  isName (patternText pat) = true → patternText pat ≠ [] ∧ (patternText pat).head? ≠ some 33 ∧
    92 ∉ patternText pat ∧ 44 ∉ patternText pat

/-- The rules. -/
def bitsRun (isFor : List UInt8 → Bool) (patterns : List (List UInt8)) (bits : Bool × Bool) :
    Bool × Bool :=
  patterns.foldl (override (fun pat _ => isFor pat) fun pat _ => bitsOf pat) bits

section Runs

variable {isFor isFor' : List UInt8 → Bool} {patterns before after : List (List UInt8)}
  {pat name : List UInt8} {bits : Bool × Bool}

theorem overrides (isFor : List UInt8 → Bool) :
    Overrides (fun pat (_ : Bool × Bool) => isFor pat) fun pat _ => bitsOf pat :=
  ⟨fun _ _ _ => rfl, fun _ _ _ => rfl⟩

theorem bitsRun_none (h : ∀ pat ∈ patterns, isFor pat = false) :
    bitsRun isFor patterns bits = bits :=
  foldl_override_of_no_rule h

theorem bitsRun_last (hpat : isFor pat = true) (hafter : ∀ pat' ∈ after, isFor pat' = false) :
    bitsRun isFor (before ++ pat :: after) bits = bitsOf pat :=
  (overrides isFor).foldl_last hpat hafter

/-- The last pattern for the group, if there is one. -/
theorem exists_last (isFor : List UInt8 → Bool) (patterns : List (List UInt8)) :
    (∀ pat ∈ patterns, isFor pat = false) ∨ ∃ before pat after, patterns = before ++ pat :: after ∧
      isFor pat = true ∧ ∀ pat' ∈ after, isFor pat' = false := by
  induction patterns with
  | nil => exact .inl fun pat h => by cases h
  | cons pat patterns ih =>
    rcases ih with hnone | ⟨before, pat', after, rfl, hpat, hafter⟩
    · cases hpat : isFor pat with
      | true => exact .inr ⟨[], pat, patterns, rfl, hpat, hnone⟩
      | false => exact .inl (List.forall_mem_cons.mpr ⟨hpat, hnone⟩)
    · exact .inr ⟨pat :: before, pat', after, rfl, hpat, hafter⟩

theorem lastBits_iff :
    LastBits isFor patterns bits ↔ bitsRun isFor patterns (false, false) = bits := by
  constructor
  · rintro (⟨before, pat, after, rfl, hpat, hafter, rfl⟩ | ⟨hnone, rfl⟩)
    · exact bitsRun_last hpat hafter
    · exact bitsRun_none hnone
  · rintro rfl
    rcases exists_last isFor patterns with hnone | ⟨before, pat, after, rfl, hpat, hafter⟩
    · exact .inr ⟨hnone, bitsRun_none hnone⟩
    · exact .inl ⟨before, pat, after, rfl, hpat, hafter, (bitsRun_last hpat hafter).symm⟩

/-- A pattern that is for the group in neither way changes nothing. -/
theorem bitsRun_skip (hafter : ∀ pat' ∈ after, isFor pat' = false) (hpat : isFor pat = false) :
    bitsRun isFor (before ++ pat :: after) bits = bitsRun isFor before bits := by
  rw [bitsRun, List.foldl_append]
  exact foldl_override_of_no_rule (List.forall_mem_cons.mpr ⟨hpat, hafter⟩)

/-- The two ways give the same bits. -/
theorem decided_iff : bitsRun (loads name) patterns (false, false) =
      bitsRun (delivers name) patterns (false, false) ↔ Decided name patterns := by
  constructor
  · rintro h before pat after rfl hafter
    have hloads : ∀ pat' ∈ after, loads name pat' = false := fun p hp => (hafter p hp).1
    have hdelivers : ∀ pat' ∈ after, delivers name pat' = false := fun p hp => (hafter p hp).2
    constructor
    · intro hl hd
      rw [bitsRun_last hl hloads, bitsRun_skip hdelivers hd] at h
      exact lastBits_iff.mpr h.symm
    · intro hl hd
      rw [bitsRun_skip hloads hl, bitsRun_last hd hdelivers] at h
      exact lastBits_iff.mpr h
  · intro h
    rcases exists_last (fun pat => loads name pat || delivers name pat) patterns with
      hnone | ⟨before, pat, after, rfl, hpat, hafter⟩
    · rw [bitsRun_none fun pat hp => (Bool.or_eq_false_iff.mp (hnone pat hp)).1,
        bitsRun_none fun pat hp => (Bool.or_eq_false_iff.mp (hnone pat hp)).2]
    · have hno : ∀ pat' ∈ after, loads name pat' = false ∧ delivers name pat' = false :=
        fun p hp => Bool.or_eq_false_iff.mp (hafter p hp)
      have hloads : ∀ pat' ∈ after, loads name pat' = false := fun p hp => (hno p hp).1
      have hdelivers : ∀ pat' ∈ after, delivers name pat' = false := fun p hp => (hno p hp).2
      obtain ⟨hfirst, hsecond⟩ := h before pat after rfl hno
      cases hl : loads name pat with
      | true =>
        rw [bitsRun_last hl hloads]
        cases hd : delivers name pat with
        | true => rw [bitsRun_last hd hdelivers]
        | false => rw [bitsRun_skip hdelivers hd, lastBits_iff.mp (hfirst hl hd)]
      | false =>
        have hd : delivers name pat = true := by
          rw [hl, Bool.false_or] at hpat
          exact hpat
        rw [bitsRun_last hd hdelivers, bitsRun_skip hloads hl, lastBits_iff.mp (hsecond hl hd)]

end Runs

/-! ## Both ways as rules -/

section Code

variable {groups patterns me : List (List UInt8)} {b : SubBits} {i : ℕ} {name pat : List UInt8}

/-- The bits of a group. -/
def SubBits.At (b : SubBits) (i : ℕ) (bits : Bool × Bool) : Prop :=
  b.subbed[i]? = some bits.1 ∧ b.poison[i]? = some bits.2

theorem setPattern_at (hgroups : groups.Nodup) (hname : groups[i]? = some name)
    {bits : Bool × Bool} (h : b.At i bits) (pat : List UInt8) :
    (setPattern groups b pat).At i (if loads name pat then bitsOf pat else bits) := by
  rw [setPattern, loads]
  by_cases hnil : patternText pat = []
  · rw [if_pos hnil, if_pos hnil]
    exact h
  rw [if_neg hnil, if_neg hnil]
  by_cases hisName : isName (patternText pat) = true
  · rw [if_pos hisName, if_pos hisName, NGfind]
    obtain ⟨hi, hget⟩ := List.getElem?_eq_some_iff.mp hname
    have hidx : groups.idxOf name = i := by
      rw [← hget]
      exact hgroups.idxOf_getElem i hi
    by_cases heq : name = patternText pat
    · have hmem : patternText pat ∈ groups := heq ▸ List.mem_of_getElem? hname
      rw [if_pos hmem, ← heq, hidx, beq_self_eq_true, if_pos rfl]
      obtain ⟨hsub, hpoison⟩ := h
      have hsublt := (List.getElem?_eq_some_iff.mp hsub).1
      have hpoisonlt := (List.getElem?_eq_some_iff.mp hpoison).1
      exact ⟨List.getElem?_set_self hsublt, List.getElem?_set_self hpoisonlt⟩
    · rw [beq_eq_false_iff_ne.mpr heq, if_neg Bool.false_ne_true]
      by_cases hmem : patternText pat ∈ groups
      · rw [if_pos hmem]
        have hne : groups.idxOf (patternText pat) ≠ i := by
          intro hidx'
          have hget' := List.getElem?_idxOf hmem
          rw [hidx', hname] at hget'
          exact heq (Option.some.inj hget')
        exact ⟨(List.getElem?_set_ne hne).trans h.1, (List.getElem?_set_ne hne).trans h.2⟩
      · rw [if_neg hmem]
        exact h
  · rw [if_neg hisName, if_neg hisName]
    have hzip : ∀ (l : List Bool) (u v : Bool), l[i]? = some v →
        (List.zipWith (fun name v => if uwildmat name (patternText pat) then u else v) groups
          l)[i]? = some (if uwildmat name (patternText pat) then u else v) := by
      intro l u v hl
      rw [List.getElem?_zipWith, hname, hl]
    refine ⟨(hzip _ _ _ h.1).trans ?_, (hzip _ _ _ h.2).trans ?_⟩
    · split <;> rfl
    · split <;> rfl

theorem SITEsetlist_at (hgroups : groups.Nodup) (hname : groups[i]? = some name)
    {bits : Bool × Bool} (h : b.At i bits) :
    (SITEsetlist groups patterns b).At i (bitsRun (loads name) patterns bits) := by
  rw [SITEsetlist, bitsRun]
  induction patterns generalizing b bits with
  | nil => exact h
  | cons pat patterns ih =>
    rw [List.foldl_cons, List.foldl_cons]
    exact ih (setPattern_at hgroups hname h pat)

/-- The bits that are loaded are those of the last pattern that loads. -/
theorem loaded_eq (hgroups : groups.Nodup) (hname : groups[i]? = some name) (poisonEntry : Bool) :
    (loadBits groups me patterns poisonEntry).At i
      (bitsRun (loads name) (me ++ patterns) (false, false)) := by
  have hclear : SubBits.At ⟨groups.map fun _ => false, groups.map fun _ => false, poisonEntry⟩ i
      (false, false) := by
    constructor <;> rw [List.getElem?_map, hname] <;> rfl
  have hme := @SITEsetlist_at groups me _ i name hgroups hname _ hclear
  rw [bitsRun, List.foldl_append]
  have hsite : SubBits.At { SITEsetlist groups me ⟨groups.map fun _ => false,
      groups.map fun _ => false, poisonEntry⟩ with poisonEntry := false } i
        (bitsRun (loads name) me (false, false)) := hme
  exact SITEsetlist_at hgroups hname hsite

/-- What is delivered is decided by the last pattern that delivers. -/
theorem delivered_eq (me patterns : List (List UInt8)) (name : List UInt8) :
    (SITEwantsgroup me patterns name, SITEpoisongroup me patterns name) =
      bitsRun (delivers name) (me ++ patterns) (false, false) := by
  have hrun : ∀ (patterns : List (List UInt8)) (bits : Bool × Bool),
      (patterns.foldl (wantsPattern name) bits.1, patterns.foldl (poisonPattern name) bits.2) =
        bitsRun (delivers name) patterns bits := by
    intro patterns
    induction patterns with
    | nil => exact fun _ => rfl
    | cons pat patterns ih =>
      intro bits
      have hstep : (wantsPattern name bits.1 pat, poisonPattern name bits.2 pat) =
          override (fun pat _ => delivers name pat) (fun pat _ => bitsOf pat) bits pat := by
        rw [wantsPattern, poisonPattern, override, delivers, bitsOf]
        cases uwildmat name (patternText pat) with
        | false => simp
        | true =>
          -- a match that changes nothing is not looked for
          by_cases hm : bits.1 = subvalue pat <;> simp [hm]
      rw [List.foldl_cons, List.foldl_cons, bitsRun, List.foldl_cons, ← hstep]
      exact ih (wantsPattern name bits.1 pat, poisonPattern name bits.2 pat)
  have happend : bitsRun (delivers name) (me ++ patterns) (false, false) =
      bitsRun (delivers name) patterns (bitsRun (delivers name) me (false, false)) :=
    List.foldl_append
  rw [happend, ← hrun me, SITEwantsgroup, SITEpoisongroup]
  exact hrun patterns (_, _)

end Code

/-! ## Names -/

section Names

variable {text p name pat : List UInt8}

/-- A pattern of bytes that stand for themselves. -/
theorem match_literals (h : ∀ c ∈ p, literal c) : match_pattern 0 text p = .true ↔ text = p := by
  induction p generalizing text with
  | nil =>
    rw [match_pattern]
    split <;> simp_all
  | cons c p ih =>
    obtain ⟨hc, hp⟩ := List.forall_mem_cons.mp h
    cases text with
    | nil =>
      rw [match_empty hc.2.2.1]
      simp
    | cons t text =>
      rw [match_literal (List.cons_ne_nil _ _) hc, List.head?_cons, List.tail_cons]
      by_cases heq : t = c
      · rw [if_pos (congrArg some heq), ih hp, List.cons.injEq, and_iff_right heq]
      · rw [if_neg fun h => heq (Option.some.inj h)]
        simp [heq]

/-- There is one pattern in it. -/
theorem splitLoop_literals (h : ∀ c ∈ p, literal c) (hcomma : 44 ∉ p) :
    splitLoop false p = p.length := by
  induction p with
  | nil => rw [splitLoop]; rfl
  | cons c p ih =>
    obtain ⟨hc, hp⟩ := List.forall_mem_cons.mp h
    rw [List.mem_cons, not_or] at hcomma
    have hescape : (c == 92 && !false) = false := by
      rw [beq_eq_false_iff_ne.mpr hc.1, Bool.false_and]
    rw [splitLoop, if_neg hc.2.2.2, if_neg fun h => hcomma.1 h.1.symm, hescape, ih hp hcomma.2,
      List.length_cons, Nat.add_comm]

/-- Such a pattern is a name. -/
theorem uwildmat_literals (hne : p ≠ []) (h : ∀ c ∈ p, literal c) (hcomma : 44 ∉ p)
    (hbang : p.head? ≠ some 33) : uwildmat name p = (name == p) := by
  have hstar : p ≠ [42] := by
    rintro rfl
    exact (h 42 List.mem_cons_self).2.2.1 rfl
  have hreverse : (p.head? == some 33) = false := beq_eq_false_iff_ne.mpr hbang
  have hget : (p ++ [0]).getD p.length 0 = 0 := by
    rw [List.getD_append_right _ _ _ _ (Nat.le_refl _), Nat.sub_self]
    rfl
  have htake : (p ++ [0]).take p.length = p := List.take_left
  rw [uwildmat, if_neg hstar, match_expression, if_neg hne, patternLoop]
  simp only [Bool.false_and, hreverse, Bool.or_false, Libinn.Uwildmat.unsigned,
    Bool.false_eq_true, if_false, splitLoop_literals h hcomma, hget, htake, Nat.lt_irrefl]
  by_cases heq : name = p
  · rw [(match_literals h).mpr heq, beq_iff_eq.mpr heq]
    decide
  · have hmiss : (match_pattern 0 name p == .true) = false :=
      beq_eq_false_iff_ne.mpr fun htrue => heq ((match_literals h).mp htrue)
    rw [hmiss, beq_eq_false_iff_ne.mpr heq]
    decide

theorem loads_eq_delivers (h : Ordinary pat) : loads name pat = delivers name pat := by
  rw [loads, delivers]
  by_cases hisName : isName (patternText pat) = true
  · obtain ⟨hne, hbang, hescape, hcomma⟩ := h hisName
    rw [if_neg hne, if_pos hisName]
    refine (uwildmat_literals hne (fun c hc => ?_) hcomma hbang).symm
    have hplain := List.all_eq_true.mp hisName c hc
    rw [Bool.and_eq_true, Bool.and_eq_true, bne_iff_ne, bne_iff_ne, bne_iff_ne] at hplain
    exact ⟨fun heq => hescape (heq ▸ hc), hplain.1.1, hplain.1.2, hplain.2⟩
  · have hne : patternText pat ≠ [] := by
      intro hnil
      rw [hnil] at hisName
      exact hisName rfl
    rw [if_neg hne, if_neg hisName]

end Names

/-- The bits of a group that are loaded and the answers when an article is delivered are the same
exactly where the last pattern decides alike; and so they are where every name among the patterns is
an ordinary one. -/
theorem subscription_iff {groups : List (List UInt8)} {i : ℕ} {name : List UInt8}
    (hgroups : groups.Nodup) (hname : groups[i]? = some name) (me patterns : List (List UInt8))
    (poisonEntry : Bool) :
    ((loadBits groups me patterns poisonEntry).At i
        (SITEwantsgroup me patterns name, SITEpoisongroup me patterns name) ↔
      Decided name (me ++ patterns)) ∧
    ((∀ pat ∈ me ++ patterns, Ordinary pat) → Decided name (me ++ patterns)) := by
  constructor
  · rw [delivered_eq, ← decided_iff]
    obtain ⟨hsub, hpoison⟩ := @loaded_eq groups patterns me i name hgroups hname poisonEntry
    rw [SubBits.At, hsub, hpoison, Option.some.injEq, Option.some.injEq, ← Prod.ext_iff]
  · intro h before pat after heq _
    have hsame : loads name pat = delivers name pat :=
      loads_eq_delivers (h pat (heq ▸ List.mem_append_right _ List.mem_cons_self))
    refine ⟨fun hl hd => ?_, fun hl hd => ?_⟩
    · exact absurd (hl.symm.trans (hsame.trans hd)) (by decide)
    · exact absurd (hl.symm.trans (hsame.trans hd)) (by decide)

/-- The groups `a` and `b`, and the patterns `*`, `!b`. -/
theorem subscription_iff_of_two :
    ((loadBits [[97], [98]] [] [[42], [33, 98]] false).At 1
        (SITEwantsgroup [] [[42], [33, 98]] [98], SITEpoisongroup [] [[42], [33, 98]] [98]) ↔
      Decided [98] ([] ++ [[42], [33, 98]])) ∧
    ((∀ pat ∈ [] ++ [[42], [33, 98]], Ordinary pat) → Decided [98] ([] ++ [[42], [33, 98]])) :=
  subscription_iff (by decide) rfl [] [[42], [33, 98]] false

/-- The group `ab`, and the pattern `a\b`. -/
theorem backslash_is_not_looked_up : ¬ ∀ (groups me patterns : List (List UInt8)) (i : ℕ)
    (name : List UInt8), groups.Nodup → groups[i]? = some name →
      (loadBits groups me patterns false).At i
        (SITEwantsgroup me patterns name, SITEpoisongroup me patterns name) := by
  intro h
  have hat := (h [[97, 98]] [] [[97, 92, 98]] 0 [97, 98] (by decide) rfl).1
  have hwants : SITEwantsgroup [] [[97, 92, 98]] [97, 98] = true := by
    simp [SITEwantsgroup, wantsPattern, subvalue, patternText, uwildmat, match_expression,
      patternLoop, splitLoop, Libinn.Uwildmat.unsigned, match_pattern]
  rw [hwants] at hat
  exact absurd hat (by decide)

end Inn.Innd.Subscription
