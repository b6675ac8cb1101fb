import Inn.Innd.Layout
import Inn.Rules

/-!
# Inn.Innd.Marks — the high water marks over a run

A run of `ARTassignnumbers`, `ARTxrefslave`, `NGrenumber` and `NGlowmark` on the
in-core active file, in any order. `FormatLong` writes the low digits of a number
before it finds that the number does not fit, and `Last` is bumped by then; as long
as no call meets a number that does not fit its field, the marks never decrease,
follow `Last`, and nothing else is written.
-/

namespace Inn.Innd

/-- A call that numbers groups; `clear` is the loop of `ARTpost` that resets
`PostCount`. -/
inductive NumberCall where
  | clear (GroupPointers : List ℕ)
  | assign (host : List UInt8) (data : XrefData) (GroupPointers : List ℕ)
  | xrefslave (data : XrefData) (xref : List UInt8)
  | renumber (k : ℕ) (enableoverview ICDneedsetup : Bool) (stats : Option (Int32 × Int32 × Int32))
  | lowmark (k : ℕ) (lomark : Int64)

/-- `PostCount` of the groups of a list is reset. -/
def clearPostCount (GroupPointers : List ℕ) (core : InCore) : InCore :=
  GroupPointers.foldl (fun core i =>
    match core.groups[i]? with
    | some ngp => core.put i { ngp with PostCount := 0 }
    | none => core) core

/-- The answer of `OVgroupstats` as numbers. -/
def statsValue (stats : Option (Int32 × Int32 × Int32)) : Option (ℤ × ℤ × ℤ) :=
  stats.map fun (low, high, count) => (low.toInt, high.toInt, count.toInt)

/-- A function of the line of one group is run on it. -/
def onGroup (core : InCore) (k : ℕ)
    (f : List UInt8 → NEWSGROUP → Bool × List UInt8 × NEWSGROUP) : Bool × InCore :=
  match core.groups[k]? with
  | none => (false, core)
  | some ngp =>
    let (ok, active, ngp) := f core.active ngp
    (ok, { active, groups := core.groups.set k ngp })

/-- Whether `ARTassignnumbers` reads its list on past a group. -/
def readOn (groups : List NEWSGROUP) (i : ℕ) : Bool :=
  (groups[i]?).all fun ngp => ngp.PostCount > 0 || ngp.Last < NNTP_MAXARTNUM

/-- The groups of the list `ARTassignnumbers` comes to before a full one. -/
def reached (groups : List NEWSGROUP) (GroupPointers : List ℕ) : List ℕ :=
  GroupPointers.takeWhile (readOn groups)

namespace NumberCall

/-- What a call returns, and the active file and groups after it. -/
def run (core : InCore) : NumberCall → Bool × InCore
  | clear GroupPointers => (true, clearPostCount GroupPointers core)
  | assign host data GroupPointers =>
    let assigned := ARTassignnumbers host data core GroupPointers
    (assigned.ok, assigned.core)
  | xrefslave data xref =>
    let slaved := ARTxrefslave data core xref
    (slaved.ok, slaved.core)
  | renumber k enableoverview ICDneedsetup stats =>
    onGroup core k (NGrenumber enableoverview ICDneedsetup (statsValue stats))
  | lowmark k lomark => onGroup core k (NGlowmark · · lomark.toInt)

/-- The numbers of the entries of an Xref field. -/
def xrefNumbers (groups : List NEWSGROUP) (xref : List UInt8) : List (ℕ × ℕ) :=
  (xrefNames (xrefBody xref).length (xrefBody xref)).filterMap (xrefNumber groups)

/-- The groups a call is about. -/
def own (core : InCore) : NumberCall → ℕ → Prop
  | clear _, _ => False
  | assign _ _ GroupPointers, k => k ∈ GroupPointers
  | xrefslave _ xref, k => ∃ num, (k, num) ∈ xrefNumbers core.groups xref
  | renumber k' _ _ _, k => k = k'
  | lowmark k' _, k => k = k'

/-- The marks `setMarks` writes fit their fields. -/
def MarksFit (active : List UInt8) (ngp : NEWSGROUP) (himark lomark : ℤ) : Prop :=
  ∀ f2 f3 f4, markFields active ngp.Start = some (f2, f3, f4) →
    (atol (active.drop f2) < himark → toULong himark < 10 ^ (f3 - f2 - 1)) ∧
      (atol (active.drop f3) ≠ lomark → toULong lomark < 10 ^ (f4 - f3))

/-- The marks a call has for group `k` fit the fields of its line. -/
def Fits (core : InCore) (k : ℕ) (ngp : NEWSGROUP) : NumberCall → Prop
  | clear _ => True
  | assign _ _ GroupPointers =>
    k ∈ reached core.groups GroupPointers → ngp.PostCount = 0 → ngp.Last + 1 < 10 ^ ngp.Lastwidth
  | xrefslave _ xref =>
    ∀ num, (k, num) ∈ (xrefNumbers core.groups xref).takeWhile (·.2 ≤ NNTP_MAXARTNUM) →
      num ≤ ngp.Last ∨ num < 10 ^ ngp.Lastwidth
  | renumber k' enableoverview ICDneedsetup stats =>
    k = k' → enableoverview → !ICDneedsetup → ∀ low high count,
      statsValue stats = some (low, high, count) →
        MarksFit core.active ngp (overviewMarks low high count).2 (overviewMarks low high count).1
  | lowmark k' lomark =>
    k = k' → MarksFit core.active ngp (lomark.toInt - 1) lomark.toInt

end NumberCall

/-- What one call keeps. -/
structure MarksKept (core : InCore) (call : NumberCall) : Prop where
  /-- no high water mark decreases -/
  monotone : ∀ (k : ℕ) ngp, core.groups[k]? = some ngp →
    highMark core.active ngp ≤ highMark (call.run core).2.active ngp
  /-- after success the lines show the numbers of the groups -/
  current : (call.run core).1 → ∀ (k : ℕ) ngp, (call.run core).2.groups[k]? = some ngp →
    highMark (call.run core).2.active ngp = ngp.Last
  /-- a line whose new mark does not fit is left -/
  left : ∀ (k : ℕ) ngp, core.groups[k]? = some ngp → ¬ call.Fits core k ngp →
    ∀ pos, numberField core.active ngp pos →
      (call.run core).2.active[pos]? = core.active[pos]?
  /-- only the number fields of the groups of the call are written -/
  outside : ∀ pos : ℕ, (call.run core).2.active[pos]? ≠ core.active[pos]? →
    ∃ k ngp, call.own core k ∧ core.groups[k]? = some ngp ∧ numberField core.active ngp pos

/-- A call on the in-core active file. -/
def numberNext (core : InCore) (call : NumberCall) (core' : InCore) : Prop :=
  core' = (call.run core).2

/-- Every mark the call has fits. -/
def allFit (core : InCore) (call : NumberCall) : Prop :=
  ∀ (k : ℕ) ngp, core.groups[k]? = some ngp → call.Fits core k ngp

variable {core core' : InCore} {groups : List NEWSGROUP} {ngp ngp' : NEWSGROUP} {i k num : ℕ}
  {own : ℕ → Prop} {GroupPointers : List ℕ} {names : List (List UInt8)}

/-! ## ARTassignnumbers -/

/-- The new numbers fit, up to a full group. -/
def AssignFits (groups : List NEWSGROUP) (GroupPointers : List ℕ) : Prop :=
  ∀ i ∈ reached groups GroupPointers, ∀ ngp, groups[i]? = some ngp →
    ngp.PostCount = 0 → ngp.Last + 1 < 10 ^ ngp.Lastwidth

theorem getElem?_set_cases {i j : ℕ} {x : NEWSGROUP} (h : (groups.set i ngp')[j]? = some x) :
    j = i ∧ x = ngp' ∨ groups[j]? = some x := by
  rw [List.getElem?_set] at h
  split at h
  · rename_i heq
    split at h
    · exact .inl ⟨heq.symm, (Option.some.inj h).symm⟩
    · cases h
  · exact .inr h

theorem AssignFits.tail (h : AssignFits groups (i :: GroupPointers)) (hon : readOn groups i) :
    AssignFits groups GroupPointers := by
  refine fun j hj => h j ?_
  rw [reached, List.takeWhile_cons_of_pos hon]
  exact List.mem_cons_of_mem _ hj

/-- A group that has its number does not matter any more. -/
theorem AssignFits.set (h : AssignFits groups GroupPointers) (hngp : groups[i]? = some ngp)
    (hon : readOn groups i) (hpost : 0 < ngp'.PostCount) :
    AssignFits (groups.set i ngp') GroupPointers := by
  have hsame : ∀ j, readOn (groups.set i ngp') j = readOn groups j := fun j => by
    obtain ⟨hlt, -⟩ := List.getElem?_eq_some_iff.mp hngp
    by_cases hj : i = j
    · subst hj
      rw [hon, readOn, List.getElem?_set_self hlt]
      simp [hpost]
    · rw [readOn, List.getElem?_set_ne hj, readOn]
  intro j hj x hx hx0
  rcases getElem?_set_cases hx with ⟨-, rfl⟩ | hx
  · omega
  · refine h j ?_ x hx hx0
    have heq : reached (groups.set i ngp') GroupPointers =
        reached groups GroupPointers := by
      rw [reached, reached]
      exact congrFun (congrArg List.takeWhile (funext hsame)) _
    rwa [heq] at hj

theorem setLast_snd (core : InCore) (i : ℕ) (ngp : NEWSGROUP) :
    (core.setLast i ngp).2 = decide (ngp.Last < 10 ^ ngp.Lastwidth) :=
  FormatLong_snd ..

/-- One round writes the mark of its group, and what fits later still does. -/
theorem assignStep_edits {s s' : Numbering} (hfits : AssignFits s.core.groups (i :: GroupPointers))
    (ho : own i) (h : assignStep s i = some s') :
    MarkEdits own s.core s'.core ∧ AssignFits s'.core.groups GroupPointers := by
  rw [assignStep] at h
  split at h
  · rename_i hnone
    cases h
    exact ⟨.refl, hfits.tail (by simp [readOn, hnone])⟩
  rename_i ngp hngp
  split at h
  · rename_i hpost
    cases h
    exact ⟨.refl, hfits.tail (by simp [readOn, hngp, hpost])⟩
  rename_i hpost
  split at h
  · cases h
  rename_i hfull
  have hon : readOn s.core.groups i := by
    simp only [readOn, hngp, Option.all_some, Bool.or_eq_true, decide_eq_true_eq]
    omega
  have hlast : ngp.bump.Last < 10 ^ ngp.bump.Lastwidth := by
    refine hfits i ?_ ngp hngp (by omega)
    rw [reached, List.takeWhile_cons_of_pos hon]
    exact List.mem_cons_self
  have hbound : ngp.bump.Last < 2 ^ 63 := by
    show ngp.Last + 1 < 2 ^ 63
    unfold NNTP_MAXARTNUM at hfull
    omega
  obtain ⟨hlt, -⟩ := List.getElem?_eq_some_iff.mp hngp
  simp only [setLast_snd, hlast, decide_true, Bool.not_true, Bool.false_eq_true, if_false] at h
  cases h
  have hset : MarkEdits own s.core (s.core.setLast i ngp.bump).1 :=
    .setLast hngp _ ⟨rfl, rfl, rfl, rfl⟩ (Nat.le_succ _) hlast hbound ho
  have hnumber : MarkEdits own (s.core.setLast i ngp.bump).1
      ((s.core.setLast i ngp.bump).1.put i ngp.bump.numbered) :=
    .group (List.getElem?_set_self hlt) ⟨rfl, rfl, rfl, rfl⟩ rfl
  refine ⟨hset.trans hnumber, ?_⟩
  show AssignFits ((s.core.groups.set i _).set i _) GroupPointers
  rw [List.set_set]
  exact (hfits.tail hon).set hngp hon (Nat.succ_pos _)

/-- The loop writes the marks of the groups of its list. -/
theorem assignLoop_edits (s : Numbering) (hfits : AssignFits s.core.groups GroupPointers)
    (ho : ∀ i ∈ GroupPointers, own i) :
    MarkEdits own s.core (assignLoop GroupPointers s).2.core := by
  induction GroupPointers generalizing s with
  | nil => exact .refl
  | cons i GroupPointers ih =>
    rw [assignLoop]
    split
    · exact .refl
    · rename_i s' hs'
      obtain ⟨hstep, hfits'⟩ := assignStep_edits hfits (ho i List.mem_cons_self) hs'
      exact hstep.trans (ih s' hfits' fun j hj => ho j (List.mem_cons_of_mem i hj))

theorem ARTassignnumbers_core (host : List UInt8) (data : XrefData) (core : InCore)
    (GroupPointers : List ℕ) : (ARTassignnumbers host data core GroupPointers).core =
      (assignLoop GroupPointers (startNumbering host data core)).2.core := by
  rw [ARTassignnumbers]
  dsimp only
  split <;> rfl

theorem startNumbering_core (host : List UInt8) (data : XrefData) (core : InCore) :
    (startNumbering host data core).core = core := by
  rw [startNumbering]
  split <;> rfl

/-! ## ARTxrefslave -/

/-- The numbers of the entries fit, up to a full group. -/
def SlaveFits (groups : List NEWSGROUP) (names : List (List UInt8)) : Prop :=
  ∀ i num, (i, num) ∈ (names.filterMap (xrefNumber groups)).takeWhile (·.2 ≤ NNTP_MAXARTNUM) →
    ∀ ngp, groups[i]? = some ngp → num ≤ ngp.Last ∨ num < 10 ^ ngp.Lastwidth

theorem map_Name_set (hngp : groups[i]? = some ngp) (hname : ngp'.Name = ngp.Name) :
    (groups.set i ngp').map (·.Name) = groups.map (·.Name) := by
  refine List.ext_getElem? fun j => ?_
  rw [List.getElem?_map, List.getElem?_map, List.getElem?_set]
  split
  · rename_i heq
    subst heq
    obtain ⟨hlt, -⟩ := List.getElem?_eq_some_iff.mp hngp
    rw [if_pos hlt, hngp, Option.map_some, Option.map_some, hname]
  · rfl

/-- The names of the groups decide what the entries are. -/
theorem NGfind_set (hngp : groups[i]? = some ngp) (hname : ngp'.Name = ngp.Name)
    (name : List UInt8) : NGfind (groups.set i ngp') name = NGfind groups name := by
  have hmap : ∀ l : List NEWSGROUP, NGfind l name = (l.map (·.Name)).findIdx? (· == name) := fun l => by
    rw [NGfind, List.findIdx?_map]
    rfl
  rw [hmap, hmap, map_Name_set hngp hname]

theorem xrefNumber_set (hngp : groups[i]? = some ngp) (hname : ngp'.Name = ngp.Name) :
    xrefNumber (groups.set i ngp') = xrefNumber groups := by
  funext name
  rw [xrefNumber, xrefNumber, NGfind_set hngp hname]

/-- The group of an entry. -/
theorem xrefNumber_group {name : List UInt8} (h : xrefNumber groups name = some (i, num)) :
    ∃ ngp, groups[i]? = some ngp ∧ ngp.Name = name.takeWhile (· != 58) := by
  rw [xrefNumber] at h
  split at h
  · cases h
  · obtain ⟨j, hj, heq⟩ := Option.map_eq_some_iff.mp h
    cases heq
    rw [NGfind, List.findIdx?_eq_some_iff_getElem] at hj
    obtain ⟨hlt, hname, -⟩ := hj
    exact ⟨_, List.getElem?_eq_getElem hlt, eq_of_beq hname⟩

theorem SlaveFits.set (h : SlaveFits groups names) (hngp : groups[i]? = some ngp)
    (hname : ngp'.Name = ngp.Name) (hwidth : ngp'.Lastwidth = ngp.Lastwidth)
    (hlast : ngp.Last ≤ ngp'.Last) : SlaveFits (groups.set i ngp') names := by
  intro j num hmem x hx
  rw [xrefNumber_set hngp hname] at hmem
  rcases getElem?_set_cases hx with ⟨rfl, rfl⟩ | hx
  · rcases h j num hmem ngp hngp with hle | hlt
    · exact .inl (Nat.le_trans hle hlast)
    · exact .inr (hwidth ▸ hlt)
  · exact h j num hmem x hx

theorem SlaveFits.tail {name : List UInt8} (h : SlaveFits groups (name :: names))
    (hon : ∀ e ∈ xrefNumber groups name, e.2 ≤ NNTP_MAXARTNUM) : SlaveFits groups names := by
  refine fun i num hmem => h i num ?_
  rw [List.filterMap_cons]
  split
  · exact hmem
  · rename_i e he
    rw [List.takeWhile_cons_of_pos (by simpa using hon e he)]
    exact List.mem_cons_of_mem _ hmem

/-- The round of an entry whose number fits. -/
theorem xrefStep_eq {name : List UInt8} (hnum : xrefNumber core.groups name = some (i, num))
    (hngp : core.groups[i]? = some ngp) (hfull : num ≤ NNTP_MAXARTNUM)
    (hfits : num ≤ ngp.Last ∨ num < 10 ^ ngp.Lastwidth) :
    xrefStep core name = (true, (if ngp.Last < num then (core.setLast i (ngp.slave num)).1
      else core.put i (ngp.slave num)).put i (ngp.slave num).post, some i) := by
  simp only [xrefStep, hnum, hngp, if_neg (Nat.not_lt.mpr hfull)]
  by_cases hlt : ngp.Last < num
  · have hmax : (ngp.slave num).Last = num := Nat.max_eq_right (Nat.le_of_lt hlt)
    have hwidth : (ngp.slave num).Last < 10 ^ (ngp.slave num).Lastwidth := by
      rw [hmax]
      exact hfits.resolve_left (by omega)
    simp only [if_pos hlt, setLast_snd, hwidth, decide_true, Bool.not_true, Bool.false_eq_true,
      if_false]
  · simp only [if_neg hlt, Bool.not_true, Bool.false_eq_true, if_false]

/-- The group after the round of its entry. -/
theorem slave_edits (hngp : core.groups[i]? = some ngp) (hfull : num ≤ NNTP_MAXARTNUM)
    (hfits : num ≤ ngp.Last ∨ num < 10 ^ ngp.Lastwidth) (ho : own i) :
    MarkEdits own core ((if ngp.Last < num then (core.setLast i (ngp.slave num)).1
      else core.put i (ngp.slave num)).put i (ngp.slave num).post) := by
  obtain ⟨hlt, -⟩ := List.getElem?_eq_some_iff.mp hngp
  by_cases hlast : ngp.Last < num
  · have hmax : (ngp.slave num).Last = num := Nat.max_eq_right (Nat.le_of_lt hlast)
    rw [if_pos hlast]
    have hset : MarkEdits own core (core.setLast i (ngp.slave num)).1 := by
      refine .setLast hngp _ ⟨rfl, rfl, rfl, rfl⟩ (Nat.le_max_left ..) ?_ ?_ ho
      · rw [hmax]
        exact hfits.resolve_left (by omega)
      · rw [hmax]
        unfold NNTP_MAXARTNUM at hfull
        omega
    exact hset.trans (.group (List.getElem?_set_self hlt) ⟨rfl, rfl, rfl, rfl⟩ rfl)
  · have hmax : (ngp.slave num).Last = ngp.Last := Nat.max_eq_left (Nat.le_of_not_lt hlast)
    rw [if_neg hlast]
    have hset : MarkEdits own core (core.put i (ngp.slave num)) :=
      .group hngp ⟨rfl, rfl, rfl, rfl⟩ hmax
    exact hset.trans (.group (List.getElem?_set_self hlt) ⟨rfl, rfl, rfl, rfl⟩ rfl)

theorem slave_groups (core : InCore) (i num : ℕ) (ngp ngp' : NEWSGROUP) :
    ((if ngp.Last < num then (core.setLast i ngp').1 else core.put i ngp').put i ngp'.post).groups =
      core.groups.set i ngp'.post := by
  split
  · show (core.groups.set i ngp').set i ngp'.post = _
    rw [List.set_set]
  · show (core.groups.set i ngp').set i ngp'.post = _
    rw [List.set_set]

/-- The loop writes the marks of the groups its entries name. -/
theorem xrefLoop_edits (hfits : SlaveFits core.groups names)
    (ho : ∀ e ∈ names.filterMap (xrefNumber core.groups), own e.1) :
    MarkEdits own core (xrefLoop names core GroupPointers).2.1 := by
  induction names generalizing core GroupPointers with
  | nil => exact .refl
  | cons name names ih =>
    rw [xrefLoop]
    have ho' : ∀ e ∈ names.filterMap (xrefNumber core.groups), own e.1 := fun e he => by
      refine ho e ?_
      rw [List.filterMap_cons]
      split
      · exact he
      · exact List.mem_cons_of_mem _ he
    rcases hnum : xrefNumber core.groups name with _ | ⟨i, num⟩
    · -- not an entry of a known group
      have hstep : xrefStep core name = (true, core, none) := by simp only [xrefStep, hnum]
      simp only [hstep]
      exact ih (hfits.tail (by simp [hnum])) ho'
    obtain ⟨ngp, hngp, -⟩ := xrefNumber_group hnum
    by_cases hfull : NNTP_MAXARTNUM < num
    · -- a full group ends the loop
      simp only [xrefStep, hnum, hngp, if_pos hfull]
      exact .group hngp ⟨rfl, rfl, rfl, rfl⟩ rfl
    have hfull := Nat.le_of_not_lt hfull
    have hnumfits : num ≤ ngp.Last ∨ num < 10 ^ ngp.Lastwidth := by
      refine hfits i num ?_ ngp hngp
      rw [List.filterMap_cons_some hnum, List.takeWhile_cons_of_pos (by simpa using hfull)]
      exact List.mem_cons_self
    simp only [xrefStep_eq hnum hngp hfull hnumfits]
    refine (slave_edits hngp hfull hnumfits ?_).trans (ih ?_ ?_)
    · exact ho (i, num) (by rw [List.filterMap_cons_some hnum]; exact List.mem_cons_self)
    · rw [slave_groups]
      exact (hfits.tail (by simpa [hnum] using hfull)).set hngp rfl rfl (Nat.le_max_left ..)
    · rw [slave_groups, xrefNumber_set hngp (rfl : (ngp.slave num).post.Name = ngp.Name)]
      exact ho'

theorem ARTxrefslave_core (data : XrefData) (core : InCore) (xref : List UInt8) :
    (ARTxrefslave data core xref).core = core ∨ (ARTxrefslave data core xref).core =
      (xrefLoop (xrefNames (xrefBody xref).length (xrefBody xref)) core []).2.1 := by
  rw [ARTxrefslave]
  dsimp only
  split
  · exact .inl rfl
  split
  · exact .inl rfl
  split
  · exact .inl rfl
  · exact .inr rfl

/-! ## The other calls -/

theorem clearPostCount_edits (GroupPointers : List ℕ) (core : InCore) :
    MarkEdits own core (clearPostCount GroupPointers core) := by
  induction GroupPointers generalizing core with
  | nil => exact .refl
  | cons i GroupPointers ih =>
    rw [clearPostCount, List.foldl_cons]
    refine MarkEdits.trans ?_ (ih _)
    split
    · rename_i ngp hngp
      exact .group hngp ⟨rfl, rfl, rfl, rfl⟩ rfl
    · exact .refl

/-- The low mark, once the high one is right. -/
theorem setLow_edits (hngp : core.groups[k]? = some ngp) (ho : own k) {f2 f3 f4 : ℕ}
    (hfields : markFields core.active ngp.Start = some (f2, f3, f4)) (lomark : ℤ) :
    MarkEdits own core { core with active := (setLow core.active f3 f4 lomark).2 } := by
  rw [setLow]
  split
  · exact .lo hngp ho hfields _
  · exact .refl

/-- The marks of one line. -/
theorem setMarks_edits {himark lomark : ℤ} (hngp : core.groups[k]? = some ngp) (ho : own k)
    (hfit : NumberCall.MarksFit core.active ngp himark lomark) (hbound : himark < 2 ^ 63) :
    MarkEdits own core (onGroup core k (setMarks · · himark lomark)).2 := by
  intro lines h
  obtain ⟨line, hline, hg⟩ := MarkEdits.line_of h hngp
  have hfields := markFields_eq hline
  rw [← h.active, ← hg.Start, ← hg.Lastwidth] at hfields
  rw [hg.Start, ← hg.LastString, ← hg.Start] at hfields
  have hmark : atol (core.active.drop ngp.LastString) = ngp.Last := h.current hngp
  simp only [onGroup, hngp, setMarks, hfields, hmark]
  split
  · rename_i hlt
    have hhi := (hfit _ _ _ hfields).1 (hmark ▸ hlt)
    have hvalue : toULong himark < 2 ^ 63 ∧ ngp.Last ≤ toULong himark := by
      rw [toULong]
      omega
    have hwidth : ngp.LastString + ngp.Lastwidth + 1 - ngp.LastString - 1 = ngp.Lastwidth := by
      omega
    rw [hwidth] at hhi ⊢
    let core₁ : InCore :=
      ⟨(FormatLong core.active ngp.LastString (toULong himark) ngp.Lastwidth).1,
        core.groups.set k { ngp with Last := toULong himark }⟩
    have hfirst : MarkEdits own core core₁ :=
      .hi hngp { ngp with Last := toULong himark } ⟨rfl, rfl, rfl, rfl⟩ hvalue.2 hhi hvalue.1 ho
    obtain ⟨lines₁, h₁, hmoved₁⟩ := hfirst lines h
    have hngp₁ : core₁.groups[k]? = some { ngp with Last := toULong himark } :=
      List.getElem?_set_self (List.getElem?_eq_some_iff.mp hngp).1
    have hfields₁ := (MarkEdits.fields_stay h h₁ hmoved₁ hngp).trans hfields
    obtain ⟨lines₂, h₂, hmoved₂⟩ := setLow_edits hngp₁ ho hfields₁ lomark lines₁ h₁
    refine ⟨lines₂, ?_, hmoved₁.trans hmoved₂⟩
    rw [FormatLong_snd, decide_eq_true hhi]
    exact h₂
  · have hself : core.groups.set k ngp = core.groups := by
      obtain ⟨hlt, heq⟩ := List.getElem?_eq_some_iff.mp hngp
      rw [← heq, List.set_getElem_self]
    rw [hself]
    exact setLow_edits hngp ho hfields lomark lines h

/-- The marks of the group of a call, if there is one. -/
theorem onGroup_edits {himark lomark : ℤ} (ho : own k) (hbound : himark < 2 ^ 63)
    (hfit : ∀ ngp, core.groups[k]? = some ngp →
      NumberCall.MarksFit core.active ngp himark lomark) :
    MarkEdits own core (onGroup core k (setMarks · · himark lomark)).2 := by
  rcases hngp : core.groups[k]? with _ | ngp
  · simp only [onGroup, hngp]
    exact .refl
  · exact setMarks_edits hngp ho (hfit ngp hngp) hbound

theorem onGroup_same (core : InCore) (k : ℕ) (ok : Bool) :
    (onGroup core k fun active ngp => (ok, active, ngp)).2 = core := by
  rw [onGroup]
  split
  · rfl
  · rename_i ngp hngp
    obtain ⟨hlt, heq⟩ := List.getElem?_eq_some_iff.mp hngp
    show (⟨core.active, core.groups.set k ngp⟩ : InCore) = core
    rw [← heq, List.set_getElem_self]

/-- The marks from overview are in the range of their type. -/
theorem overviewMarks_lt {low high count : ℤ} (hlow : low < 2 ^ 31) (hhigh : high < 2 ^ 31) :
    (overviewMarks low high count).2 < 2 ^ 63 := by
  simp only [overviewMarks]
  split
  · exact Int.lt_trans hhigh (by decide)
  · split
    · decide
    · show max low high - 1 < 2 ^ 63
      omega

/-- Every call edits the lines of its own groups. -/
theorem call_edits {call : NumberCall} (hfit : allFit core call) :
    MarkEdits (call.own core) core (call.run core).2 := by
  cases call with
  | clear GroupPointers => exact clearPostCount_edits GroupPointers core
  | assign host data GroupPointers =>
    show MarkEdits _ core (ARTassignnumbers host data core GroupPointers).core
    have hfits : AssignFits (startNumbering host data core).core.groups GroupPointers := by
      rw [startNumbering_core]
      exact fun i hi ngp hngp => hfit i ngp hngp hi
    have h := assignLoop_edits (startNumbering host data core) hfits fun i hi => hi
    rw [startNumbering_core, ← ARTassignnumbers_core] at h
    exact h
  | xrefslave data xref =>
    show MarkEdits _ core (ARTxrefslave data core xref).core
    rcases ARTxrefslave_core data core xref with h | h
    · rw [h]
      exact .refl
    · rw [h]
      exact xrefLoop_edits (fun i num hmem ngp hngp => hfit i ngp hngp num hmem)
        fun e he => ⟨e.2, he⟩
  | renumber k enableoverview ICDneedsetup stats =>
    show MarkEdits _ core (onGroup core k (NGrenumber enableoverview ICDneedsetup (statsValue stats))).2
    cases enableoverview with
    | false => exact (onGroup_same core k true).symm ▸ .refl
    | true =>
      cases ICDneedsetup with
      | true => exact (onGroup_same core k false).symm ▸ .refl
      | false =>
        rcases stats with _ | ⟨low, high, count⟩
        · exact (onGroup_same core k false).symm ▸ .refl
        · exact onGroup_edits rfl (overviewMarks_lt low.toInt_lt high.toInt_lt) fun ngp hngp =>
            hfit k ngp hngp rfl rfl rfl _ _ _ rfl
  | lowmark k lomark =>
    have hlt : lomark.toInt - 1 < 2 ^ 63 := by
      have := lomark.toInt_lt
      omega
    exact onGroup_edits rfl hlt fun ngp hngp => hfit k ngp hngp rfl

/-- What one call keeps. -/
theorem call_kept {call : NumberCall} {lines : List ActiveLine} (h : Layout core lines)
    (hfit : allFit core call) : MarksKept core call := by
  obtain ⟨lines', h', hmoved⟩ := call_edits hfit lines h
  refine ⟨fun k ngp hngp => h.monotone h' hmoved hngp, fun _ k ngp hngp => h'.current hngp,
    fun k ngp hngp hnot => absurd (hfit k ngp hngp) hnot, fun pos hdiff => ?_⟩
  exact h.outside h' hmoved hdiff

/-- Over every run from a parsed active file whose calls meet no mark too wide for its
field, each call keeps the marks. -/
theorem marks_kept {lines : List ActiveLine} {groups : List NEWSGROUP} {calls : List NumberCall}
    {core : InCore} {call : NumberCall} (hparse : NGparsefile (activeText lines) = some groups)
    (hrun : Steps (guarded allFit numberNext) ⟨activeText lines, groups⟩ calls core)
    (hfit : allFit core call) : MarksKept core call := by
  have hinv : ∃ lines', Layout core lines' := by
    have hstep : ∀ core call core', guarded allFit numberNext core call core' →
        (∃ lines', Layout core lines') → ∃ lines', Layout core' lines' := by
      rintro core call _ ⟨hfit, rfl⟩ ⟨lines', h⟩
      obtain ⟨lines'', h'', -⟩ := call_edits hfit lines' h
      exact ⟨lines'', h''⟩
    exact @Steps.invariant _ _ _ (fun core => ∃ lines', Layout core lines') _ _ _ hstep hrun
      ⟨lines, NGparsefile_layout hparse⟩
  obtain ⟨lines', h⟩ := hinv
  exact call_kept h hfit

/-! ## Runs on a file of one group -/

/-- A line with a high water mark of two digits. -/
def line09 : ActiveLine :=
  { name := octets "a", hi := octets "09", lo := octets "01", rest := octets "y"
    name_ok := by decide +kernel, hi_ok := by decide +kernel, lo_ok := by decide +kernel, rest_ok := by decide +kernel }

/-- The same line with a high water mark of one digit. -/
def line9 : ActiveLine := { line09 with hi := octets "9", hi_ok := by decide +kernel }

/-- The file of a line. -/
def coreOf (line : ActiveLine) : InCore := ⟨activeText [line], [line.group 0]⟩

/-- An article for the group, with a fresh buffer. -/
def assignOne : NumberCall := .assign (octets "h") ⟨[], 0, 0, 0⟩ [0]

theorem assignOne_fits {core : InCore} (h : (core.groups[0]?).all fun ngp =>
    ngp.Last + 1 < 10 ^ ngp.Lastwidth) : allFit core assignOne := by
  intro k ngp hngp hk _
  rw [List.mem_singleton.mp (List.takeWhile_sublist _ |>.mem hk)] at hngp
  simpa [hngp] using h

theorem marks_kept_two : MarksKept (assignOne.run (coreOf line09)).2 (.lowmark 0 3) := by
  refine @marks_kept [line09] [line09.group 0] [assignOne] _ _ (by decide)
    (Steps.single ⟨assignOne_fits (by decide), rfl⟩) fun k ngp hngp hk f2 f3 f4 hf => ?_
  subst hk
  cases hngp
  have hfields : markFields (assignOne.run (coreOf line09)).2.active 0 = some (2, 5, 7) := by decide
  cases hfields.symm.trans hf
  exact ⟨by decide, by decide⟩

/-- A mark of one digit goes from 9 to 0. -/
theorem marks_not_kept : ¬ ∀ (lines : List ActiveLine) (groups : List NEWSGROUP)
    (calls : List NumberCall) (core : InCore) (call : NumberCall),
    NGparsefile (activeText lines) = some groups →
      Steps numberNext ⟨activeText lines, groups⟩ calls core → MarksKept core call := by
  intro h
  have hkept := h [line9] [line9.group 0] [] _ assignOne (by decide) .nil
  exact absurd (hkept.monotone 0 _ rfl) (by decide)

end Inn.Innd
