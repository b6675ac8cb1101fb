import Inn.Innd.Marks
import Mathlib.Data.List.Nodup
import Mathlib.Data.List.TakeWhile

/-!
# Inn.Innd.Numbering — the Xref field of an article

What `ARTassignnumbers` makes of a list of groups, and what `ARTxrefslave` reads
back from its field:

* the rounds of the loop, as a fold over the distinct groups;
* the field as text, its lines, and its size against that of the buffer;
* `xref_intended_iff` — the field is as intended exactly when the numbers fit, the
  names can be read back, and the host leaves enough space on the first line.
-/

namespace Inn.Innd

variable {core core' : InCore} {groups : List NEWSGROUP} {ngp ngp' : NEWSGROUP} {i k num : ℕ}
  {host : List UInt8} {data : XrefData} {GroupPointers : List ℕ} {gs : List NEWSGROUP}

/-! ## Statement -/

/-- The lines of a text, each with its LF. -/
def physicalLines : List UInt8 → List (List UInt8)
  | [] => []
  | c :: text =>
    if c = 10 then [c] :: physicalLines text
    else
      match physicalLines text with
      | [] => [[c]]
      | line :: lines => (c :: line) :: lines

/-- Groups of a list, each with its next number. -/
def nextNumbers (groups : List NEWSGROUP) (is : List ℕ) : List NEWSGROUP :=
  (is.filterMap (groups[·]?)).map (·.bump.numbered)

/-- The distinct groups of a list in its order, each with its next number. -/
def numberedGroups (core : InCore) (GroupPointers : List ℕ) : List NEWSGROUP :=
  nextNumbers core.groups GroupPointers.eraseDups

/-- The buffer as `ARTassignnumbers` leaves it: none, or one that starts with the host. -/
def XrefReady (host : List UInt8) (data : XrefData) : Prop :=
  data.XrefBufLength = 0 ∨
    MED_BUFFER * 2 + 1 ≤ data.XrefBufLength ∧ data.Xref.take host.length = host

/-- A server that knows the same groups, in whose active file the numbers fit. -/
def Knows (core : InCore) (GroupPointers : List ℕ) (slave : InCore) : Prop :=
  slave.groups.map (·.Name) = core.groups.map (·.Name) ∧
    ∀ i ∈ GroupPointers, ∀ ngp ngp', core.groups[i]? = some ngp → slave.groups[i]? = some ngp' →
      ngp.Last + 1 ≤ ngp'.Last ∨ ngp.Last + 1 < 10 ^ ngp'.Lastwidth

/-- What the numbering of an article is meant to be. -/
structure XrefIntended (host : List UInt8) (data : XrefData) (core : InCore)
    (GroupPointers : List ℕ) (after : Assigned) : Prop where
  /-- each group has one number more -/
  numbered : ∀ i ∈ GroupPointers, ∀ ngp, core.groups[i]? = some ngp →
    ∃ ngp', after.core.groups[i]? = some ngp' ∧ ngp'.Last = ngp.Last + 1
  /-- its entry is in the field once, in the order of the list -/
  entries : ∃ folds : List Bool, folds.length = (numberedGroups core GroupPointers).length ∧
    after.data.Xref = host ++ (List.zipWith (fun fold ngp =>
      (if fold then octets "\r\n" else []) ++ xrefEntry ngp) folds
        (numberedGroups core GroupPointers)).flatten ++ octets "\r\n"
  /-- nothing is written past the buffer -/
  inBounds : after.inBounds
  /-- no line of the field is too long -/
  lines : ∀ line ∈ physicalLines (octets "Xref: " ++ after.data.Xref),
    line.length ≤ MAXARTLINELENGTH
  /-- the field is read back as it was meant -/
  readBack : ∀ slave, Knows core GroupPointers slave → ∀ data' : XrefData,
    let slaved := ARTxrefslave data' slave (after.data.Xref.take (after.data.Xref.length - 2))
    slaved.GroupPointers = GroupPointers.eraseDups ∧
      ∀ i ∈ GroupPointers, ∀ ngp, core.groups[i]? = some ngp →
        ∃ ngp', slaved.core.groups[i]? = some ngp' ∧ ngp'.Filenum = ngp.Last + 1

/-- The length of entries in a row. -/
def entriesLength (gs : List NEWSGROUP) : ℕ := (gs.map fun ngp => (xrefEntry ngp).length).sum

/-- Entries the check of `ARTassignnumbers` keeps on one line, from `linelen` on. -/
def keptOnLine (linelen : ℕ) (gs : List NEWSGROUP) : Prop :=
  ∀ before ngp after, gs = before ++ ngp :: after →
    !exceeds (linelen + entriesLength before) ngp

/-- When it is: the numbers fit their fields, the names have no separator of the
field, an entry on a line of its own fits it, and the entries kept on the line of the
host fit it together with `Xref: ` and the host. -/
structure XrefFits (host : List UInt8) (gs : List NEWSGROUP) : Prop where
  width : ∀ ngp ∈ gs, ngp.Last < 10 ^ ngp.Lastwidth
  name : ∀ ngp ∈ gs, ∀ c ∈ ngp.Name, c ≠ 58 ∧ !xrefSpace c
  entry : ∀ ngp ∈ gs, (xrefEntry ngp).length + 2 ≤ MAXARTLINELENGTH
  hostLine : ∀ before after, gs = before ++ after → keptOnLine 0 before →
    6 + host.length + entriesLength before + 2 ≤ MAXARTLINELENGTH

/-! ## The rounds -/

/-- The groups of a list that have no number yet. -/
def todo (groups : List NEWSGROUP) (GroupPointers : List ℕ) : List ℕ :=
  (GroupPointers.filter fun i => (groups[i]?).all (·.PostCount = 0)).eraseDups

/-- Whether the number of a group fits its field. -/
def fitsField (ngp : NEWSGROUP) : Bool := ngp.Last < 10 ^ ngp.Lastwidth

/-- A group that got a number, whether or not it fits. -/
def NEWSGROUP.afterRound (ngp : NEWSGROUP) : NEWSGROUP :=
  if fitsField ngp.bump then ngp.bump.numbered else ngp.bump

/-- The same text with other groups. -/
def Numbering.withCore (s : Numbering) (core : InCore) : Numbering := { s with core }

@[simp] theorem withCore_core (s : Numbering) (core : InCore) : (s.withCore core).core = core := rfl

theorem prints_withCore (s : Numbering) (core : InCore) (gs : List NEWSGROUP) :
    gs.foldl Numbering.print (s.withCore core) = (gs.foldl Numbering.print s).withCore core := by
  induction gs generalizing s with
  | nil => rfl
  | cons ngp gs ih => exact ih (s.print ngp)

/-- A round of a group that has no number and is not full. -/
theorem assignStep_new {s : Numbering} (hngp : s.core.groups[i]? = some ngp)
    (hpost : ngp.PostCount = 0) (hfull : ngp.Last < NNTP_MAXARTNUM) :
    ∃ core', core'.groups = s.core.groups.set i ngp.afterRound ∧ assignStep s i =
      some ((([ngp.bump.numbered].filter fitsField).foldl Numbering.print s).withCore core') := by
  have hnot : ¬ ngp.PostCount > 0 := by omega
  simp only [assignStep, hngp, if_neg hnot, if_neg (Nat.not_le.mpr hfull), setLast_snd]
  by_cases hfits : ngp.bump.Last < 10 ^ ngp.bump.Lastwidth
  · have hkeep : [ngp.bump.numbered].filter fitsField = [ngp.bump.numbered] :=
      List.filter_cons_of_pos (decide_eq_true hfits)
    have hround : ngp.afterRound = ngp.bump.numbered := if_pos (decide_eq_true hfits)
    rw [hkeep, hround]
    simp only [hfits, decide_true, Bool.not_true, Bool.false_eq_true, if_false]
    refine ⟨(s.core.setLast i ngp.bump).1.put i ngp.bump.numbered, ?_, rfl⟩
    show (s.core.groups.set i _).set i _ = _
    rw [List.set_set]
  · have hdrop : [ngp.bump.numbered].filter fitsField = [] :=
      List.filter_cons_of_neg fun h => hfits (of_decide_eq_true h)
    have hround : ngp.afterRound = ngp.bump := if_neg fun h => hfits (of_decide_eq_true h)
    rw [hdrop, hround]
    simp only [hfits, decide_false, Bool.not_false, if_true]
    exact ⟨_, rfl, rfl⟩

theorem todo_cons_old (hngp : groups[i]? = some ngp) (hpost : ngp.PostCount ≠ 0) :
    todo groups (i :: GroupPointers) = todo groups GroupPointers := by
  rw [todo, List.filter_cons_of_neg (by simpa [hngp] using hpost), todo]

theorem todo_cons_new (hngp : groups[i]? = some ngp) (hpost : ngp.PostCount = 0)
    (hpost' : ngp'.PostCount ≠ 0) : todo groups (i :: GroupPointers) =
      i :: todo (groups.set i ngp') GroupPointers := by
  obtain ⟨hlt, -⟩ := List.getElem?_eq_some_iff.mp hngp
  rw [todo, List.filter_cons_of_pos (by simp [hngp, hpost]), List.eraseDups_cons, List.filter_filter,
    todo]
  congr 2
  refine List.filter_congr fun j _ => ?_
  by_cases hj : i = j
  · subst hj
    rw [List.getElem?_set_self hlt]
    simp [hpost']
  · rw [List.getElem?_set_ne hj]
    simp [Ne.symm hj]

theorem not_mem_todo_set (hngp : groups[i]? = some ngp) (hpost' : ngp'.PostCount ≠ 0) :
    i ∉ todo (groups.set i ngp') GroupPointers := by
  obtain ⟨hlt, -⟩ := List.getElem?_eq_some_iff.mp hngp
  rw [todo, List.mem_eraseDups, List.mem_filter, List.getElem?_set_self hlt]
  simp [hpost']

theorem afterRound_PostCount (ngp : NEWSGROUP) : ngp.afterRound.PostCount ≠ 0 := by
  rw [NEWSGROUP.afterRound]
  split
  · exact Nat.succ_ne_zero _
  · exact Nat.succ_ne_zero _

/-- The loop prints the entries of the new groups whose numbers fit. -/
theorem assignLoop_eq (s : Numbering) (hok : (assignLoop GroupPointers s).1)
    (hvalid : ∀ i ∈ GroupPointers, i < s.core.groups.length) :
    ∃ core', (assignLoop GroupPointers s).2 =
        (((nextNumbers s.core.groups (todo s.core.groups GroupPointers)).filter
          fitsField).foldl Numbering.print s).withCore core' ∧
      (∀ ngp ∈ nextNumbers s.core.groups (todo s.core.groups GroupPointers),
        ngp.Last ≤ NNTP_MAXARTNUM) ∧
      ∀ k ngp, s.core.groups[k]? = some ngp → core'.groups[k]? =
        some (if k ∈ todo s.core.groups GroupPointers then ngp.afterRound else ngp) := by
  induction GroupPointers generalizing s with
  | nil =>
    refine ⟨s.core, rfl, ?_, fun k ngp hk => by simpa [todo] using hk⟩
    simp [todo, nextNumbers]
  | cons i GroupPointers ih =>
    obtain ⟨ngp, hngp⟩ : ∃ ngp, s.core.groups[i]? = some ngp :=
      ⟨_, List.getElem?_eq_getElem (hvalid i List.mem_cons_self)⟩
    have hvalid' := fun j hj => hvalid j (List.mem_cons_of_mem i hj)
    by_cases hpost : ngp.PostCount > 0
    · have hstep : assignStep s i = some s := by simp only [assignStep, hngp, if_pos hpost]
      rw [assignLoop, hstep] at hok ⊢
      rw [todo_cons_old hngp (by omega)]
      exact ih s hok hvalid'
    · have hpost0 : ngp.PostCount = 0 := by omega
      have hfull : ngp.Last < NNTP_MAXARTNUM := by
        by_contra hfull
        have hstep : assignStep s i = none := by
          simp only [assignStep, hngp, if_neg hpost, if_pos (Nat.le_of_not_lt hfull)]
        rw [assignLoop, hstep] at hok
        cases hok
      obtain ⟨core₁, hgroups, hstep⟩ := assignStep_new hngp hpost0 hfull
      rw [assignLoop, hstep] at hok ⊢
      obtain ⟨core', heq, hmax, hafter⟩ := ih _ hok (by
        show ∀ j ∈ GroupPointers, j < core₁.groups.length
        rw [hgroups, List.length_set]
        exact hvalid')
      have hskip := @not_mem_todo_set s.core.groups ngp ngp.afterRound i GroupPointers hngp
        (afterRound_PostCount ngp)
      rw [todo_cons_new hngp hpost0 (afterRound_PostCount ngp)]
      rw [withCore_core, hgroups] at heq hmax hafter
      have hsame : nextNumbers (s.core.groups.set i ngp.afterRound)
          (todo (s.core.groups.set i ngp.afterRound) GroupPointers) =
          nextNumbers s.core.groups (todo (s.core.groups.set i ngp.afterRound) GroupPointers) := by
        rw [nextNumbers, nextNumbers]
        congr 1
        refine List.filterMap_congr fun j hj => ?_
        have hne : i ≠ j := fun h => hskip (h ▸ hj)
        rw [List.getElem?_set_ne hne]
      have hhead : nextNumbers s.core.groups
          (i :: todo (s.core.groups.set i ngp.afterRound) GroupPointers) =
          [ngp.bump.numbered] ++
            nextNumbers s.core.groups (todo (s.core.groups.set i ngp.afterRound) GroupPointers) := by
        rw [nextNumbers, List.filterMap_cons_some hngp, List.map_cons, nextNumbers]
        rfl
      rw [hsame] at heq hmax
      refine ⟨core', ?_, ?_, ?_⟩
      · show (assignLoop GroupPointers _).2 = _
        rw [heq, prints_withCore, hhead, List.filter_append, List.foldl_append]
        rfl
      · rw [hhead]
        exact List.forall_mem_cons.mpr ⟨hfull, hmax⟩
      · intro j x hj
        by_cases hij : i = j
        · subst hij
          cases hngp.symm.trans hj
          have hset : (s.core.groups.set i ngp.afterRound)[i]? = some ngp.afterRound :=
            List.getElem?_set_self (List.getElem?_eq_some_iff.mp hngp).1
          rw [hafter i _ hset, if_neg hskip, if_pos List.mem_cons_self]
        · have hset := hj
          rw [← List.getElem?_set_ne hij (a := ngp.afterRound)] at hset
          rw [hafter j x hset]
          simp [Ne.symm hij]

/-! ## The text of the field -/

/-- The entries of groups, from a line of length `linelen` on. -/
def xrefText : ℕ → List NEWSGROUP → List UInt8
  | _, [] => []
  | linelen, ngp :: gs =>
    if exceeds linelen ngp then
      octets "\r\n" ++ xrefEntry ngp ++ xrefText (xrefEntry ngp).length gs
    else xrefEntry ngp ++ xrefText (linelen + (xrefEntry ngp).length) gs

theorem prints_Xref (s : Numbering) (gs : List NEWSGROUP) :
    (gs.foldl Numbering.print s).Xref = s.Xref ++ xrefText s.linelen gs := by
  induction gs generalizing s with
  | nil => exact (List.append_nil _).symm
  | cons ngp gs ih =>
    rw [List.foldl_cons, ih, xrefText, Numbering.print]
    split
    · have hlen : (octets "\r\n" ++ xrefEntry ngp).length - 2 = (xrefEntry ngp).length := by
        rw [List.length_append]
        exact Nat.add_sub_cancel_left 2 _
      simp only [hlen, List.append_assoc]
    · simp only [List.append_assoc]

theorem length_xrefEntry (ngp : NEWSGROUP) :
    (xrefEntry ngp).length = ngp.Name.length + (printed ngp.Filenum).length + 2 := by
  simp only [xrefEntry, List.length_cons, List.length_append]
  omega

theorem digits_pos (v : ℕ) : 0 < (printed v).length :=
  List.length_pos_iff.mpr (printed_ne_nil v)

theorem digits_le {v : ℕ} (h : v ≤ NNTP_MAXARTNUM) : (printed v).length ≤ ARTNUMPRINTSIZE :=
  length_printed_le (Nat.lt_of_le_of_lt h (by decide)) (by decide)

/-- An entry that is not put on a new line fits this one. -/
theorem not_exceeds {linelen : ℕ} (h : ¬ exceeds linelen ngp) (hmax : ngp.Filenum ≤ NNTP_MAXARTNUM) :
    linelen + (xrefEntry ngp).length + 2 ≤ MAXARTLINELENGTH := by
  have hdigits := digits_le hmax
  rw [exceeds, decide_eq_true_eq] at h
  rw [length_xrefEntry]
  unfold MAXARTLINELENGTH ARTNUMPRINTSIZE at *
  omega

/-- With entries of the length of a line, the buffer grows in time. -/
theorem prints_inBounds (s : Numbering) (hgs : ∀ ngp ∈ gs,
      (xrefEntry ngp).length + 2 ≤ MAXARTLINELENGTH ∧ ngp.Filenum ≤ NNTP_MAXARTNUM)
    (hs : s.inBounds ∧ s.Xref.length + 2 ≤ s.XrefBufLength) :
    (gs.foldl Numbering.print s).inBounds ∧
      (gs.foldl Numbering.print s).Xref.length + 2 ≤ (gs.foldl Numbering.print s).XrefBufLength := by
  induction gs generalizing s with
  | nil => exact hs
  | cons ngp gs ih =>
    obtain ⟨hlen, hmax⟩ := hgs ngp List.mem_cons_self
    refine ih (s.print ngp) (fun g hg => hgs g (List.mem_cons_of_mem ngp hg)) ?_
    have hdigits := digits_le hmax
    have hpos := digits_pos ngp.Filenum
    rw [length_xrefEntry] at hlen
    have htext : (if exceeds s.linelen ngp then octets "\r\n" ++ xrefEntry ngp
        else xrefEntry ngp).length ≤ ngp.Name.length + (printed ngp.Filenum).length + 4 := by
      split
      · rw [List.length_append, length_xrefEntry]
        show 2 + _ ≤ _
        omega
      · rw [length_xrefEntry]
        omega
    have hgrow : s.Xref.length + ngp.Name.length + 16 ≤
        if s.Xref.length + 1 + ngp.Name.length + 1 + ARTNUMPRINTSIZE + 2 + 2 > s.XrefBufLength then
          s.XrefBufLength + MED_BUFFER
        else s.XrefBufLength := by
      have hbuf := hs.2
      unfold MAXARTLINELENGTH at hlen
      unfold ARTNUMPRINTSIZE MED_BUFFER
      split <;> omega
    rw [ARTNUMPRINTSIZE] at hdigits
    dsimp only [Numbering.print]
    generalize (if exceeds s.linelen ngp then octets "\r\n" ++ xrefEntry ngp
      else xrefEntry ngp) = text at htext ⊢
    generalize (if s.Xref.length + 1 + ngp.Name.length + 1 + ARTNUMPRINTSIZE + 2 + 2 >
      s.XrefBufLength then s.XrefBufLength + MED_BUFFER else s.XrefBufLength) = size at hgrow ⊢
    refine ⟨?_, ?_⟩
    · rw [hs.1, Bool.true_and]
      exact decide_eq_true (by omega)
    · rw [List.length_append]
      omega

/-! ## Lines -/

theorem octets_crlf : octets "\r\n" = [13, 10] := by decide

theorem physicalLines_append {l : List UInt8} (hl : 10 ∉ l) (text : List UInt8) :
    physicalLines (l ++ 10 :: text) = (l ++ [10]) :: physicalLines text := by
  induction l with
  | nil => rfl
  | cons c l ih =>
    have hc : c ≠ 10 := fun h => hl (h ▸ List.mem_cons_self)
    have hl' := ih fun h => hl (List.mem_cons_of_mem c h)
    rw [List.cons_append, physicalLines, if_neg hc, hl']
    rfl

/-- The lines of a field, whose first one starts with `pre`. -/
def fieldLines (pre : List UInt8) : ℕ → List NEWSGROUP → List (List UInt8)
  | _, [] => [pre ++ octets "\r\n"]
  | linelen, ngp :: gs =>
    if exceeds linelen ngp then
      (pre ++ octets "\r\n") :: fieldLines (xrefEntry ngp) (xrefEntry ngp).length gs
    else fieldLines (pre ++ xrefEntry ngp) (linelen + (xrefEntry ngp).length) gs

theorem printed_not_mem (v : ℕ) {c : UInt8} (hc : ¬ IsDigit c) : c ∉ printed v :=
  fun h => hc (isDigit_of_mem_printed h)

theorem lf_not_mem_xrefEntry (h : ∀ c ∈ ngp.Name, c ≠ 10) : 10 ∉ xrefEntry ngp := by
  rw [xrefEntry, List.mem_cons, List.mem_append, List.mem_cons]
  rintro (h' | h' | h' | h')
  · exact absurd h' (by decide)
  · exact h 10 h' rfl
  · exact absurd h' (by decide)
  · exact printed_not_mem _ (by decide) h'

theorem physicalLines_field {pre : List UInt8} {linelen : ℕ} (hpre : 10 ∉ pre)
    (hgs : ∀ ngp ∈ gs, ∀ c ∈ ngp.Name, c ≠ 10) :
    physicalLines (pre ++ xrefText linelen gs ++ octets "\r\n") = fieldLines pre linelen gs := by
  induction gs generalizing pre linelen with
  | nil =>
    have hcr : 10 ∉ pre ++ [13] := by simpa using hpre
    have h := physicalLines_append hcr []
    rw [xrefText, List.append_nil, fieldLines]
    simpa [physicalLines, octets_crlf] using h
  | cons ngp gs ih =>
    have hentry := lf_not_mem_xrefEntry (hgs ngp List.mem_cons_self)
    have hgs' := fun g hg => hgs g (List.mem_cons_of_mem ngp hg)
    rw [xrefText, fieldLines]
    split
    · have hcr : 10 ∉ pre ++ [13] := by simpa using hpre
      have h := physicalLines_append hcr
        (xrefEntry ngp ++ xrefText (xrefEntry ngp).length gs ++ octets "\r\n")
      rw [ih hentry hgs', List.append_assoc, List.append_assoc] at h
      rw [← List.append_assoc] at h
      simpa [octets_crlf] using h
    · have hmem : 10 ∉ pre ++ xrefEntry ngp := by simp [hpre, hentry]
      rw [← ih hmem hgs', ← List.append_assoc]

/-- The length of the entries kept on a line. -/
def keptLength : ℕ → List NEWSGROUP → ℕ
  | _, [] => 0
  | linelen, ngp :: gs =>
    if exceeds linelen ngp then 0
    else (xrefEntry ngp).length + keptLength (linelen + (xrefEntry ngp).length) gs

/-- A line whose length is known to the loop is never too long. -/
theorem keptLength_le {linelen : ℕ} (hmax : ∀ ngp ∈ gs, ngp.Filenum ≤ NNTP_MAXARTNUM)
    (h : linelen + 2 ≤ MAXARTLINELENGTH) : linelen + keptLength linelen gs + 2 ≤ MAXARTLINELENGTH := by
  induction gs generalizing linelen with
  | nil => exact h
  | cons ngp gs ih =>
    rw [keptLength]
    split
    · exact h
    · rename_i hexceeds
      have hfits := not_exceeds hexceeds (hmax ngp List.mem_cons_self)
      have hrest := ih (fun g hg => hmax g (List.mem_cons_of_mem ngp hg)) hfits
      rwa [← Nat.add_assoc]

/-- No line is too long exactly when no entry is, and the first line is not. -/
theorem fieldLines_le_iff {pre : List UInt8} {linelen : ℕ}
    (hmax : ∀ ngp ∈ gs, ngp.Filenum ≤ NNTP_MAXARTNUM) :
    (∀ line ∈ fieldLines pre linelen gs, line.length ≤ MAXARTLINELENGTH) ↔
      (∀ ngp ∈ gs, (xrefEntry ngp).length + 2 ≤ MAXARTLINELENGTH) ∧
        pre.length + keptLength linelen gs + 2 ≤ MAXARTLINELENGTH := by
  have hpre : ∀ pre : List UInt8, (pre ++ octets "\r\n").length = pre.length + 2 :=
    fun _ => List.length_append
  induction gs generalizing pre linelen with
  | nil =>
    rw [fieldLines, keptLength]
    simp only [List.forall_mem_singleton, hpre, List.not_mem_nil, false_imp_iff, implies_true,
      true_and, Nat.add_zero]
  | cons ngp gs ih =>
    have hmax' := fun g hg => hmax g (List.mem_cons_of_mem ngp hg)
    rw [fieldLines, keptLength, List.forall_mem_cons]
    split
    · rw [List.forall_mem_cons, hpre]
      refine (and_congr Iff.rfl (ih hmax')).trans ?_
      constructor
      · rintro ⟨hfirst, hgs, hline⟩
        exact ⟨⟨by omega, hgs⟩, hfirst⟩
      · rintro ⟨⟨hentry, hgs⟩, hfirst⟩
        exact ⟨hfirst, hgs, keptLength_le hmax' hentry⟩
    · rename_i hexceeds
      have hentry := not_exceeds hexceeds (hmax ngp List.mem_cons_self)
      refine (ih hmax').trans ?_
      rw [List.length_append, Nat.add_assoc pre.length]
      constructor
      · rintro ⟨hgs, hline⟩
        exact ⟨⟨by omega, hgs⟩, hline⟩
      · rintro ⟨⟨-, hgs⟩, hline⟩
        exact ⟨hgs, hline⟩

theorem keptOnLine_cons {linelen : ℕ} : keptOnLine linelen (ngp :: gs) ↔
    ¬ exceeds linelen ngp ∧ keptOnLine (linelen + (xrefEntry ngp).length) gs := by
  constructor
  · intro h
    refine ⟨by simpa [entriesLength] using h [] ngp gs rfl, fun before g after heq => ?_⟩
    have := h (ngp :: before) g after (by rw [heq, List.cons_append])
    rwa [entriesLength, List.map_cons, List.sum_cons, ← Nat.add_assoc] at this
  · rintro ⟨hhead, htail⟩ before g after heq
    rcases before with _ | ⟨x, before⟩
    · cases heq
      simpa [entriesLength] using hhead
    · cases heq
      have := htail before g after rfl
      rwa [entriesLength, List.map_cons, List.sum_cons, ← Nat.add_assoc]

/-- The entries kept on a line, as the longest start of the list that is kept. -/
theorem keptLength_le_iff {linelen base n : ℕ} : base + keptLength linelen gs ≤ n ↔
    ∀ before after, gs = before ++ after → keptOnLine linelen before →
      base + entriesLength before ≤ n := by
  induction gs generalizing linelen base with
  | nil =>
    refine ⟨fun h before after heq _ => ?_, fun h => ?_⟩
    · rw [(List.append_eq_nil_iff.mp heq.symm).1]
      exact h
    · exact h [] [] rfl fun before ngp after heq => by simp at heq
  | cons ngp gs ih =>
    rw [keptLength]
    split
    · rename_i hexceeds
      refine ⟨fun h before after heq hkept => ?_, fun h => ?_⟩
      · rcases before with _ | ⟨x, before⟩
        · exact h
        · cases heq
          exact absurd hexceeds (keptOnLine_cons.mp hkept).1
      · exact h [] (ngp :: gs) rfl fun before g after heq => by simp at heq
    · rename_i hexceeds
      rw [← Nat.add_assoc, ih]
      refine ⟨fun h before after heq hkept => ?_, fun h before after heq hkept => ?_⟩
      · rcases before with _ | ⟨x, before⟩
        · have := h [] gs rfl fun before g after heq => by simp at heq
          have hle : base + entriesLength [] ≤
              base + (xrefEntry ngp).length + entriesLength [] := by omega
          exact Nat.le_trans hle this
        · cases heq
          have := h before after rfl (keptOnLine_cons.mp hkept).2
          rwa [entriesLength, List.map_cons, List.sum_cons, ← Nat.add_assoc]
      · have := h (ngp :: before) after (by rw [heq, List.cons_append])
          (keptOnLine_cons.mpr ⟨hexceeds, hkept⟩)
        rwa [entriesLength, List.map_cons, List.sum_cons, ← Nat.add_assoc] at this

/-! ## Reading the field -/

/-- An entry without the space before it. -/
def entryName (ngp : NEWSGROUP) : List UInt8 := ngp.Name ++ 58 :: printed ngp.Filenum

/-- A name the field can carry. -/
def CleanName (name : List UInt8) : Prop := ∀ c ∈ name, c ≠ 58 ∧ !xrefSpace c

theorem not_xrefSpace_of_isDigit {c : UInt8} (h : IsDigit c) : xrefSpace c = false := by
  simp only [xrefSpace, Bool.or_eq_false_iff, beq_eq_false_iff_ne, ne_eq]
  refine ⟨⟨⟨?_, ?_⟩, ?_⟩, ?_⟩
  all_goals
    rintro rfl
    exact absurd h (by decide)

theorem entryName_not_space (h : CleanName ngp.Name) : ∀ c ∈ entryName ngp, !xrefSpace c := by
  intro c hc
  rw [entryName, List.mem_append, List.mem_cons] at hc
  rcases hc with hc | rfl | hc
  · exact (h c hc).2
  · decide
  · rw [not_xrefSpace_of_isDigit (isDigit_of_mem_printed hc)]
    rfl

/-- The entries are kept apart by characters the reader skips. -/
theorem xrefText_cons (linelen : ℕ) (ngp : NEWSGROUP) (gs : List NEWSGROUP) :
    ∃ (sep : List UInt8) (linelen' : ℕ), sep ≠ [] ∧ (∀ c ∈ sep, xrefSpace c) ∧
      xrefText linelen (ngp :: gs) = sep ++ (entryName ngp ++ xrefText linelen' gs) := by
  rw [xrefText]
  split
  · refine ⟨octets "\r\n" ++ [32], (xrefEntry ngp).length, by simp, by decide +kernel, ?_⟩
    rw [List.append_assoc, List.append_assoc]
    rfl
  · exact ⟨[32], linelen + (xrefEntry ngp).length, by simp, by decide +kernel, rfl⟩

theorem xrefText_head (linelen : ℕ) (gs : List NEWSGROUP) :
    ∀ c ∈ (xrefText linelen gs).head?, xrefSpace c := by
  intro c hc
  rcases gs with _ | ⟨ngp, gs⟩
  · cases hc
  · obtain ⟨sep, linelen', hne, hsep, heq⟩ := xrefText_cons linelen ngp gs
    obtain ⟨d, sep, rfl⟩ := List.exists_cons_of_ne_nil hne
    rw [heq] at hc
    cases hc
    exact hsep _ List.mem_cons_self

/-- What stands before a separator is read as one part. -/
theorem span_append {p : UInt8 → Bool} {l r : List UInt8} (hl : ∀ c ∈ l, p c)
    (hr : ∀ c ∈ r.head?, ¬ p c) : (l ++ r).takeWhile p = l ∧ (l ++ r).dropWhile p = r := by
  have hstop : r.takeWhile p = [] ∧ r.dropWhile p = r := by
    cases r with
    | nil => exact ⟨rfl, rfl⟩
    | cons c r =>
      have hc := hr c rfl
      exact ⟨List.takeWhile_cons_of_neg hc, List.dropWhile_cons_of_neg hc⟩
  rw [List.takeWhile_append_of_pos hl, List.dropWhile_append_of_pos hl, hstop.1, hstop.2,
    List.append_nil]
  exact ⟨rfl, rfl⟩

/-- The names of the field are the entries. -/
theorem xrefNames_text {fuel linelen : ℕ} (hclean : ∀ ngp ∈ gs, CleanName ngp.Name)
    (hfuel : ((xrefText linelen gs).dropWhile xrefSpace).length ≤ fuel) :
    xrefNames fuel ((xrefText linelen gs).dropWhile xrefSpace) = gs.map entryName := by
  induction gs generalizing fuel linelen with
  | nil => cases fuel <;> rfl
  | cons ngp gs ih =>
    obtain ⟨sep, linelen', hne, hsep, heq⟩ := xrefText_cons linelen ngp gs
    have hname := entryName_not_space (hclean ngp List.mem_cons_self)
    have hnext : ∀ c ∈ (xrefText linelen' gs).head?, ¬ (!xrefSpace c) = true := fun c hc => by
      simp [xrefText_head linelen' gs c hc]
    obtain ⟨c, name, hcons⟩ : ∃ c name, entryName ngp = c :: name :=
      List.exists_cons_of_ne_nil (by simp [entryName])
    have hskip : (xrefText linelen (ngp :: gs)).dropWhile xrefSpace =
        entryName ngp ++ xrefText linelen' gs := by
      rw [heq]
      refine (span_append hsep fun d hd => ?_).2
      rw [hcons] at hd
      cases hd
      simpa using hname c (by rw [hcons]; exact List.mem_cons_self)
    rw [hskip, hcons, List.cons_append, List.length_cons, List.length_append] at hfuel
    rw [hskip, hcons, List.cons_append]
    cases fuel with
    | zero => omega
    | succ fuel =>
      rw [xrefNames, ← List.cons_append, ← hcons, (span_append hname hnext).1,
        (span_append hname hnext).2, ih (fun g hg => hclean g (List.mem_cons_of_mem ngp hg))]
      · rfl
      · have hle := (List.dropWhile_sublist xrefSpace (l := xrefText linelen' gs)).length_le
        omega

/-- A server that knows the names finds the group and the number of an entry. -/
theorem xrefNumber_entryName (hnames : (groups.map (·.Name)).Nodup)
    (hngp : groups[i]? = some ngp') (hname : ngp'.Name = ngp.Name) (hclean : CleanName ngp.Name)
    (hmax : ngp.Filenum ≤ NNTP_MAXARTNUM) :
    xrefNumber groups (entryName ngp) = some (i, ngp.Filenum) := by
  have hspan : (entryName ngp).takeWhile (· != 58) = ngp.Name ∧
      (entryName ngp).dropWhile (· != 58) = 58 :: printed ngp.Filenum := by
    refine span_append (fun c hc => by simpa using (hclean c hc).1) fun c hc => ?_
    cases hc
    decide
  have hfind : NGfind groups ngp.Name = some i := by
    obtain ⟨hlt, heq⟩ := List.getElem?_eq_some_iff.mp hngp
    rw [NGfind, List.findIdx?_eq_some_iff_getElem]
    refine ⟨hlt, by rw [heq, hname]; exact beq_self_eq_true _, fun j hj hbeq => ?_⟩
    have hi' : i < (groups.map (·.Name)).length := by rwa [List.length_map]
    have hj' := Nat.lt_trans hj hi'
    have hsame : (groups.map (·.Name))[j] = (groups.map (·.Name))[i] := by
      rw [List.getElem_map, List.getElem_map, heq, hname]
      exact eq_of_beq hbeq
    exact absurd ((List.Nodup.getElem_inj_iff hnames).mp hsame) (Nat.ne_of_lt hj)
  have hnumber : toULong (atol (printed ngp.Filenum)) = ngp.Filenum := by
    have h := @atol_digits _ [] (printed_ne_nil ngp.Filenum)
      (fun c hc => isDigit_of_mem_printed hc) (by simp)
    rw [List.append_nil, decimalValue_printed] at h
    unfold NNTP_MAXARTNUM at hmax
    rw [h, toULong]
    omega
  rw [xrefNumber, if_neg (by simp [entryName]), hspan.1, hspan.2, hfind, List.tail_cons, hnumber]
  rfl

/-- The loop files the groups of its entries, each with the number of its entry. -/
theorem xrefLoop_eq {names : List (List UInt8)} {entries : List (ℕ × ℕ)} {slave : InCore}
    (hnames : names.map (xrefNumber slave.groups) = entries.map some)
    (hnodup : (entries.map (·.1)).Nodup)
    (hfits : ∀ e ∈ entries, e.2 ≤ NNTP_MAXARTNUM ∧ ∃ ngp, slave.groups[e.1]? = some ngp ∧
      (e.2 ≤ ngp.Last ∨ e.2 < 10 ^ ngp.Lastwidth)) :
    (xrefLoop names slave GroupPointers).2.2 = GroupPointers ++ entries.map (·.1) ∧
      (∀ j, j ∉ entries.map (·.1) →
        (xrefLoop names slave GroupPointers).2.1.groups[j]? = slave.groups[j]?) ∧
      ∀ e ∈ entries, ∃ ngp, (xrefLoop names slave GroupPointers).2.1.groups[e.1]? = some ngp ∧
        ngp.Filenum = e.2 := by
  induction names generalizing entries slave GroupPointers with
  | nil =>
    rw [List.map_eq_nil_iff.mp hnames.symm]
    exact ⟨(List.append_nil _).symm, fun _ _ => rfl, by simp⟩
  | cons name names ih =>
    obtain ⟨⟨i, num⟩, entries, rfl⟩ : ∃ e es, entries = e :: es :=
      List.exists_cons_of_ne_nil fun h => by simp [h] at hnames
    rw [List.map_cons, List.map_cons, List.cons_eq_cons] at hnames
    rw [List.map_cons, List.nodup_cons] at hnodup
    obtain ⟨hmax, ngp, hngp, hnum⟩ := hfits (i, num) List.mem_cons_self
    obtain ⟨hlt, -⟩ := List.getElem?_eq_some_iff.mp hngp
    simp only [xrefLoop, xrefStep_eq hnames.1 hngp hmax hnum]
    generalize hslave' : InCore.put _ i _ = slave'
    have hgroups : slave'.groups = slave.groups.set i (ngp.slave num).post := by
      rw [← hslave', slave_groups]
    have hother : ∀ j, j ≠ i → slave'.groups[j]? = slave.groups[j]? := fun j hj => by
      rw [hgroups, List.getElem?_set_ne (Ne.symm hj)]
    have hsame : xrefNumber slave'.groups = xrefNumber slave.groups := by
      rw [hgroups, xrefNumber_set hngp (rfl : (ngp.slave num).post.Name = ngp.Name)]
    obtain ⟨hfiled, hrest, hnumbers⟩ := @ih (GroupPointers ++ (some i).toList) entries slave'
      (by rw [hsame]; exact hnames.2) hnodup.2 (fun e he => by
        have hne : e.1 ≠ i := fun h => hnodup.1 (h ▸ List.mem_map_of_mem (f := (·.1)) he)
        rw [hother e.1 hne]
        exact hfits e (List.mem_cons_of_mem _ he))
    refine ⟨by rw [hfiled]; simp, fun j hj => ?_, ?_⟩
    · rw [List.map_cons, List.mem_cons, not_or] at hj
      rw [hrest j hj.2, hother j hj.1]
    · refine List.forall_mem_cons.mpr ⟨⟨(ngp.slave num).post, ?_, rfl⟩, hnumbers⟩
      rw [hrest i hnodup.1, hgroups, List.getElem?_set_self hlt]

/-! ## Names the field cannot carry -/

/-- The groups change, but not their names. -/
theorem xrefStep_names (core : InCore) (name : List UInt8) :
    (xrefStep core name).2.1.groups.map (·.Name) = core.groups.map (·.Name) := by
  rw [xrefStep]
  split
  · rfl
  split
  · rfl
  rename_i i num _ _ ngp hngp
  have hput : ∀ core' : InCore, core'.groups = core.groups.set i (ngp.slave num) →
      ∀ ngp' : NEWSGROUP, ngp'.Name = ngp.Name →
        (core'.put i ngp').groups.map (·.Name) = core.groups.map (·.Name) := by
    intro core' hcore' ngp' hname
    rw [InCore.put, hcore', List.set_set]
    exact map_Name_set hngp hname
  have hfirst : (if ngp.Last < num then core.setLast i (ngp.slave num)
      else (core.put i (ngp.slave num), true)).1.groups = core.groups.set i (ngp.slave num) := by
    split <;> rfl
  split
  · exact map_Name_set hngp rfl
  · dsimp only
    generalize (if ngp.Last < num then core.setLast i (ngp.slave num)
      else (core.put i (ngp.slave num), true)) = first at hfirst ⊢
    split
    · rw [hfirst]
      exact map_Name_set hngp rfl
    · exact hput _ hfirst _ rfl

/-- A group that is filed has a name without a separator. -/
theorem xrefStep_filed {name : List UInt8} (hname : ∀ c ∈ name, !xrefSpace c)
    (h : i ∈ (xrefStep core name).2.2) :
    ∃ ngp, core.groups[i]? = some ngp ∧ CleanName ngp.Name := by
  have hnumber : ∃ num, xrefNumber core.groups name = some (i, num) := by
    rw [xrefStep] at h
    split at h
    · cases h
    rename_i j num heq
    split at h
    · cases h
    rename_i ngp hngp
    split at h
    · cases h
    dsimp only at h
    generalize (if ngp.Last < num then core.setLast j (ngp.slave num)
      else (core.put j (ngp.slave num), true)) = first at h
    split at h
    · cases h
    · cases h
      exact ⟨_, by assumption⟩
  obtain ⟨num, hnumber⟩ := hnumber
  obtain ⟨ngp, hngp, heq⟩ := xrefNumber_group hnumber
  refine ⟨ngp, hngp, fun c hc => ?_⟩
  rw [heq] at hc
  exact ⟨by simpa using List.mem_takeWhile_imp hc, hname c (List.takeWhile_subset _ hc)⟩

/-- So have all groups that are filed. -/
theorem xrefLoop_filed {names : List (List UInt8)} (hnames : ∀ name ∈ names, ∀ c ∈ name, !xrefSpace c)
    (h : i ∈ (xrefLoop names core GroupPointers).2.2) :
    i ∈ GroupPointers ∨ ∃ name, (core.groups.map (·.Name))[i]? = some name ∧ CleanName name := by
  induction names generalizing core GroupPointers with
  | nil => exact .inl h
  | cons name names ih =>
    have hnames' := fun l hl => hnames l (List.mem_cons_of_mem name hl)
    rw [xrefLoop] at h
    split at h
    · exact .inl h
    · rename_i core' filed heq
      have hfiled := @xrefStep_filed core i name (hnames name List.mem_cons_self)
      have hsame := xrefStep_names core name
      rw [heq] at hfiled hsame
      rw [← hsame]
      rcases ih hnames' h with h | h
      · rcases List.mem_append.mp h with h | h
        · exact .inl h
        · obtain ⟨ngp, hngp, hclean⟩ := hfiled (Option.mem_toList.mp h)
          refine .inr ⟨ngp.Name, ?_, hclean⟩
          rw [hsame, List.getElem?_map, hngp]
          rfl
      · exact .inr h

theorem xrefNames_not_space {fuel : ℕ} {p name : List UInt8} (h : name ∈ xrefNames fuel p) :
    ∀ c ∈ name, !xrefSpace c := by
  induction fuel generalizing p with
  | zero => cases h
  | succ fuel ih =>
    cases p with
    | nil => cases h
    | cons d p =>
      rcases List.mem_cons.mp h with rfl | h
      · exact fun c hc => List.mem_takeWhile_imp (p := fun d => !xrefSpace d) hc
      · exact ih h

/-- What `ARTxrefslave` files has a name the field can carry. -/
theorem ARTxrefslave_filed {xref : List UInt8} (h : i ∈ (ARTxrefslave data core xref).GroupPointers) :
    ∃ name, (core.groups.map (·.Name))[i]? = some name ∧ CleanName name := by
  rw [ARTxrefslave] at h
  dsimp only at h
  split at h
  · cases h
  split at h
  · cases h
  split at h
  · cases h
  · exact (xrefLoop_filed (fun name hname => xrefNames_not_space hname) h).resolve_left (by simp)

/-! ## The field as a whole -/

/-- The entries of a server whose groups came from an active file. -/
structure Numbered (host : List UInt8) (core : InCore) (GroupPointers : List ℕ) : Prop where
  nodup : (core.groups.map (·.Name)).Nodup
  names : ∀ ngp ∈ core.groups, ∀ c ∈ ngp.Name, c ≠ 0 ∧ c ≠ 10
  host : ∀ c ∈ host, c ≠ 0 ∧ !xrefSpace c
  valid : ∀ i ∈ GroupPointers, i < core.groups.length
  fresh : ∀ i ∈ GroupPointers, ∀ ngp, core.groups[i]? = some ngp → ngp.PostCount = 0

theorem todo_fresh (h : ∀ i ∈ GroupPointers, ∀ ngp, groups[i]? = some ngp → ngp.PostCount = 0) :
    todo groups GroupPointers = GroupPointers.eraseDups := by
  rw [todo, List.filter_eq_self.mpr fun i hi => ?_]
  rcases hngp : groups[i]? with _ | ngp
  · rfl
  · simpa using h i hi ngp hngp

/-- The field that lists the groups. -/
def fieldOf (host : List UInt8) (gs : List NEWSGROUP) : List UInt8 := host ++ xrefText 0 gs

theorem ARTassignnumbers_ok (host : List UInt8) (data : XrefData) (core : InCore)
    (GroupPointers : List ℕ) : (ARTassignnumbers host data core GroupPointers).ok =
      (assignLoop GroupPointers (startNumbering host data core)).1 := by
  rw [ARTassignnumbers]
  dsimp only
  split <;> rfl

/-- The loop starts with the host in a buffer of its first size at least. -/
theorem startNumbering_Xref (hready : XrefReady host data) (core : InCore) :
    (startNumbering host data core).Xref = host ∧ (startNumbering host data core).linelen = 0 ∧
      MED_BUFFER * 2 + 1 ≤ (startNumbering host data core).XrefBufLength := by
  rw [startNumbering]
  split
  · exact ⟨rfl, rfl, Nat.le_refl _⟩
  · rename_i hbuf
    obtain ⟨hsize, hhost⟩ := hready.resolve_left hbuf
    exact ⟨hhost, rfl, hsize⟩

/-- The variables after the loop, but the groups. -/
def printedFrom (host : List UInt8) (data : XrefData) (core : InCore) (GroupPointers : List ℕ) :
    Numbering :=
  ((numberedGroups core GroupPointers).filter fitsField).foldl Numbering.print
    (startNumbering host data core)

/-- What `ARTassignnumbers` leaves when it succeeds. -/
theorem ARTassignnumbers_eq (h : Numbered host core GroupPointers)
    (hok : (ARTassignnumbers host data core GroupPointers).ok) :
    (ARTassignnumbers host data core GroupPointers).data.Xref =
        (printedFrom host data core GroupPointers).Xref ++ octets "\r\n" ∧
      (ARTassignnumbers host data core GroupPointers).inBounds =
        ((printedFrom host data core GroupPointers).inBounds &&
          decide ((printedFrom host data core GroupPointers).Xref.length + 2 ≤
            (printedFrom host data core GroupPointers).XrefBufLength)) ∧
      (∀ ngp ∈ numberedGroups core GroupPointers, ngp.Last ≤ NNTP_MAXARTNUM) ∧
      ∀ k ngp, core.groups[k]? = some ngp →
        (ARTassignnumbers host data core GroupPointers).core.groups[k]? =
          some (if k ∈ GroupPointers then ngp.afterRound else ngp) := by
  have hloop := ARTassignnumbers_ok host data core GroupPointers ▸ hok
  have hcore := startNumbering_core host data core
  obtain ⟨core', heq, hmax, hafter⟩ := assignLoop_eq (startNumbering host data core) hloop
    (by rw [hcore]; exact h.valid)
  rw [hcore, todo_fresh h.fresh] at heq hmax hafter
  have hresult : (ARTassignnumbers host data core GroupPointers).core =
      (assignLoop GroupPointers (startNumbering host data core)).2.core :=
    ARTassignnumbers_core ..
  refine ⟨?_, ?_, hmax, fun k ngp hk => ?_⟩
  · rw [ARTassignnumbers]
    simp only [hloop, heq, Bool.not_true, Bool.false_eq_true, if_false]
    rfl
  · rw [ARTassignnumbers]
    simp only [hloop, heq, Bool.not_true, Bool.false_eq_true, if_false]
    rfl
  · rw [hresult, heq, withCore_core, hafter k ngp hk]
    simp only [List.mem_eraseDups]

theorem printedFrom_Xref (hready : XrefReady host data) (core : InCore) (GroupPointers : List ℕ) :
    (printedFrom host data core GroupPointers).Xref =
      fieldOf host ((numberedGroups core GroupPointers).filter fitsField) := by
  obtain ⟨hhost, hline, -⟩ := startNumbering_Xref hready core
  rw [printedFrom, prints_Xref, hhost, hline, fieldOf]

/-- The groups of the numbers. -/
theorem mem_numberedGroups : ngp ∈ numberedGroups core GroupPointers ↔
    ∃ i ∈ GroupPointers, ∃ g, core.groups[i]? = some g ∧ ngp = g.bump.numbered := by
  rw [numberedGroups, nextNumbers, List.mem_map]
  constructor
  · rintro ⟨g, hg, rfl⟩
    obtain ⟨i, hi, hgi⟩ := List.mem_filterMap.mp hg
    exact ⟨i, List.mem_eraseDups.mp hi, g, hgi, rfl⟩
  · rintro ⟨i, hi, g, hg, rfl⟩
    exact ⟨g, List.mem_filterMap.mpr ⟨i, List.mem_eraseDups.mpr hi, hg⟩, rfl⟩

theorem numberedGroups_Filenum (h : ngp ∈ numberedGroups core GroupPointers) :
    ngp.Last = ngp.Filenum := by
  obtain ⟨i, -, g, -, rfl⟩ := mem_numberedGroups.mp h
  rfl

theorem fieldOf_ne_zero (hhost : ∀ c ∈ host, c ≠ 0) (hgs : ∀ ngp ∈ gs, ∀ c ∈ ngp.Name, c ≠ 0) :
    ∀ c ∈ fieldOf host gs, c ≠ 0 := by
  have htext : ∀ linelen, ∀ c ∈ xrefText linelen gs, c ≠ 0 := by
    induction gs with
    | nil => simp [xrefText]
    | cons ngp gs ih =>
      intro linelen c hc
      obtain ⟨sep, linelen', -, hsep, heq⟩ := xrefText_cons linelen ngp gs
      rw [heq, List.mem_append, List.mem_append, entryName, List.mem_append, List.mem_cons] at hc
      rcases hc with hc | (hc | rfl | hc) | hc
      · rintro rfl
        exact absurd (hsep 0 hc) (by decide)
      · exact hgs ngp List.mem_cons_self c hc
      · decide
      · rintro rfl
        exact absurd (isDigit_of_mem_printed hc) (by decide)
      · exact ih (fun g hg => hgs g (List.mem_cons_of_mem ngp hg)) linelen' c hc
  intro c hc
  rcases List.mem_append.mp hc with hc | hc
  · exact hhost c hc
  · exact htext 0 c hc

theorem cString_self {l : List UInt8} (h : ∀ c ∈ l, c ≠ 0) : cString l = l := by
  have := @cString_append l [] h
  rwa [List.append_nil, show cString [] = [] from rfl, List.append_nil] at this

/-- The number a group is to get. -/
def numberOf (core : InCore) (i : ℕ) : ℕ := ((core.groups[i]?).map (·.Last + 1)).getD 0

theorem nextNumbers_names {slave : InCore} {is : List ℕ} (h : Numbered host core GroupPointers)
    (hnames : slave.groups.map (·.Name) = core.groups.map (·.Name))
    (hvalid : ∀ i ∈ is, i < core.groups.length)
    (hgs : ∀ ngp ∈ nextNumbers core.groups is,
      CleanName ngp.Name ∧ ngp.Filenum ≤ NNTP_MAXARTNUM) :
    ((nextNumbers core.groups is).map entryName).map (xrefNumber slave.groups) =
      (is.map fun i => (i, numberOf core i)).map some := by
  induction is with
  | nil => rfl
  | cons i is ih =>
    obtain ⟨g, hg⟩ : ∃ g, core.groups[i]? = some g :=
      ⟨_, List.getElem?_eq_getElem (hvalid i List.mem_cons_self)⟩
    have hcons : nextNumbers core.groups (i :: is) =
        g.bump.numbered :: nextNumbers core.groups is := by
      rw [nextNumbers, List.filterMap_cons_some hg, List.map_cons, nextNumbers]
    rw [hcons] at hgs ⊢
    obtain ⟨hclean, hmax⟩ := hgs _ List.mem_cons_self
    have hknown : (slave.groups.map (·.Name))[i]? = some g.Name := by
      rw [hnames, List.getElem?_map, hg]
      rfl
    rw [List.getElem?_map, Option.map_eq_some_iff] at hknown
    obtain ⟨g', hg', hname⟩ := hknown
    have hnumber : xrefNumber slave.groups (entryName g.bump.numbered) = some (i, g.Last + 1) :=
      xrefNumber_entryName (hnames ▸ h.nodup) hg' hname hclean hmax
    rw [List.map_cons, List.map_cons, List.map_cons, List.map_cons, hnumber,
      ih (fun j hj => hvalid j (List.mem_cons_of_mem i hj))
        fun x hx => hgs x (List.mem_cons_of_mem _ hx), numberOf, hg]
    rfl

/-- A field with entries is read by the loop. -/
theorem ARTxrefslave_loop {xref : List UInt8} (hbody : xrefBody xref ≠ []) (data : XrefData)
    (core : InCore) : (ARTxrefslave data core xref).GroupPointers =
        (xrefLoop (xrefNames (xrefBody xref).length (xrefBody xref)) core []).2.2 ∧
      (ARTxrefslave data core xref).core =
        (xrefLoop (xrefNames (xrefBody xref).length (xrefBody xref)) core []).2.1 := by
  have hany : (cString xref).any xrefSpace = true := by
    by_contra hnone
    refine hbody ?_
    have hall : (cString xref).dropWhile (!xrefSpace ·) = [] := by
      refine List.dropWhile_eq_nil_iff.mpr fun c hc => ?_
      simpa using List.any_eq_false.mp (Bool.eq_false_iff.mpr hnone) c hc
    rw [xrefBody, hall]
    rfl
  have hne : xref ≠ [] := by
    rintro rfl
    exact hbody rfl
  rw [ARTxrefslave]
  dsimp only
  rw [if_neg hne, hany, if_neg (by decide), if_neg hbody]
  exact ⟨rfl, rfl⟩

/-- A field of entries with clean names is read back as its groups and numbers. -/
theorem ARTxrefslave_fieldOf {slave : InCore} {is : List ℕ} (h : Numbered host core GroupPointers)
    (hnames : slave.groups.map (·.Name) = core.groups.map (·.Name)) (hnodup : is.Nodup)
    (hvalid : ∀ i ∈ is, i < core.groups.length)
    (hgs : ∀ ngp ∈ nextNumbers core.groups is,
      CleanName ngp.Name ∧ ngp.Filenum ≤ NNTP_MAXARTNUM)
    (hfits : ∀ i ∈ is, ∀ ngp, slave.groups[i]? = some ngp →
      numberOf core i ≤ ngp.Last ∨ numberOf core i < 10 ^ ngp.Lastwidth) (data : XrefData) :
    let slaved := ARTxrefslave data slave (fieldOf host (nextNumbers core.groups is))
    slaved.GroupPointers = is ∧ ∀ i ∈ is, ∃ ngp, slaved.core.groups[i]? = some ngp ∧
      ngp.Filenum = numberOf core i := by
  intro slaved
  have hzero : ∀ c ∈ fieldOf host (nextNumbers core.groups is), c ≠ 0 := by
    refine fieldOf_ne_zero (fun c hc => (h.host c hc).1) fun ngp hngp c hc => ?_
    obtain ⟨g, hg, rfl⟩ := List.mem_map.mp hngp
    obtain ⟨i, -, hgi⟩ := List.mem_filterMap.mp hg
    exact (h.names g (List.mem_of_getElem? hgi) c hc).1
  have hspan := span_append (fun c hc => (h.host c hc).2)
    (fun c hc => by simp [xrefText_head 0 (nextNumbers core.groups is) c hc] :
      ∀ c ∈ (xrefText 0 (nextNumbers core.groups is)).head?, ¬ (!xrefSpace c) = true)
  rcases is with _ | ⟨i, is⟩
  · -- no entries: the field is the host
    have hstop : slaved.GroupPointers = [] := by
      have hany : (cString (fieldOf host (nextNumbers core.groups []))).any xrefSpace = false := by
        rw [cString_self hzero]
        refine List.any_eq_false.mpr fun c hc => ?_
        simpa using (h.host c (by simpa [fieldOf, nextNumbers, xrefText] using hc)).2
      show (ARTxrefslave data slave _).GroupPointers = []
      rw [ARTxrefslave]
      dsimp only
      split
      · rfl
      · rw [if_pos (by rw [hany]; rfl)]
    exact ⟨hstop, by simp⟩
  have hbody : xrefBody (fieldOf host (nextNumbers core.groups (i :: is))) =
      (xrefText 0 (nextNumbers core.groups (i :: is))).dropWhile xrefSpace := by
    rw [xrefBody, cString_self hzero, fieldOf, hspan.2]
  have hread : xrefNames _ ((xrefText 0 (nextNumbers core.groups (i :: is))).dropWhile xrefSpace) =
      (nextNumbers core.groups (i :: is)).map entryName :=
    xrefNames_text (fun ngp hngp => (hgs ngp hngp).1) (Nat.le_refl _)
  have hne : xrefBody (fieldOf host (nextNumbers core.groups (i :: is))) ≠ [] := by
    rw [hbody]
    intro hnil
    rw [hnil] at hread
    obtain ⟨g, hg⟩ : ∃ g, core.groups[i]? = some g :=
      ⟨_, List.getElem?_eq_getElem (hvalid i List.mem_cons_self)⟩
    rw [nextNumbers, List.filterMap_cons_some hg] at hread
    cases hread
  obtain ⟨hfiled, hcore⟩ := ARTxrefslave_loop hne data slave
  rw [hbody, hread] at hfiled hcore
  have hentries := nextNumbers_names h hnames hvalid hgs
  have hlength : slave.groups.length = core.groups.length := by
    rw [← List.length_map (·.Name), hnames, List.length_map]
  have hready : ∀ e ∈ (i :: is).map fun j => (j, numberOf core j), e.2 ≤ NNTP_MAXARTNUM ∧
      ∃ ngp, slave.groups[e.1]? = some ngp ∧ (e.2 ≤ ngp.Last ∨ e.2 < 10 ^ ngp.Lastwidth) := by
    intro e he
    obtain ⟨j, hj, rfl⟩ := List.mem_map.mp he
    obtain ⟨g, hg⟩ : ∃ g, core.groups[j]? = some g := ⟨_, List.getElem?_eq_getElem (hvalid j hj)⟩
    obtain ⟨g', hg'⟩ : ∃ g', slave.groups[j]? = some g' :=
      ⟨_, List.getElem?_eq_getElem (hlength ▸ hvalid j hj)⟩
    have hmem : g.bump.numbered ∈ nextNumbers core.groups (i :: is) :=
      List.mem_map_of_mem (List.mem_filterMap.mpr ⟨j, hj, hg⟩)
    refine ⟨?_, g', hg', hfits j hj g' hg'⟩
    have hmax := (hgs _ hmem).2
    show numberOf core j ≤ NNTP_MAXARTNUM
    rw [numberOf, hg]
    exact hmax
  obtain ⟨hloop, -, hnumbers⟩ := @xrefLoop_eq [] _ _ slave hentries
    (by simpa [Function.comp_def] using hnodup) hready
  refine ⟨hfiled.trans (hloop.trans (by simp [Function.comp_def])), fun j hj => ?_⟩
  rw [show slaved.core = _ from hcore]
  exact hnumbers (j, numberOf core j) (List.mem_map.mpr ⟨j, hj, rfl⟩)

theorem nodup_eraseDups (l : List ℕ) : l.eraseDups.Nodup := by
  match l with
  | [] => exact List.nodup_nil
  | a :: l =>
    rw [List.eraseDups_cons, List.nodup_cons, List.mem_eraseDups, List.mem_filter]
    have hlt : (l.filter fun b => !b == a).length < (a :: l).length :=
      Nat.lt_succ_of_le (List.length_filter_le ..)
    exact ⟨by simp, nodup_eraseDups _⟩
termination_by l.length
decreasing_by exact hlt

/-- The entries printed are those of the groups whose numbers fit. -/
theorem nextNumbers_filter (groups : List NEWSGROUP) (is : List ℕ) :
    (nextNumbers groups is).filter fitsField =
      nextNumbers groups (is.filter fun i => (groups[i]?).all fun g => fitsField g.bump) := by
  induction is with
  | nil => rfl
  | cons i is ih =>
    rcases hg : groups[i]? with _ | g
    · rw [nextNumbers, List.filterMap_cons_none hg, ← nextNumbers, ih,
        List.filter_cons_of_pos (by simp [hg]), nextNumbers, nextNumbers,
        List.filterMap_cons_none hg]
    · have hcons : ∀ is, nextNumbers groups (i :: is) =
          g.bump.numbered :: nextNumbers groups is := fun is => by
        rw [nextNumbers, List.filterMap_cons_some hg, List.map_cons, nextNumbers]
      by_cases hfits : fitsField g.bump
      · have hnumber : fitsField g.bump.numbered := hfits
        rw [hcons, List.filter_cons_of_pos hnumber, ih,
          List.filter_cons_of_pos (by simpa [hg] using hfits), hcons]
      · have hnumber : ¬ fitsField g.bump.numbered := hfits
        rw [hcons, List.filter_cons_of_neg hnumber, ih,
          List.filter_cons_of_neg (by simpa [hg] using hfits)]

/-- Each entry is in the text once. -/
theorem xrefText_folds (linelen : ℕ) (gs : List NEWSGROUP) :
    ∃ folds : List Bool, folds.length = gs.length ∧ xrefText linelen gs =
      (List.zipWith (fun fold ngp => (if fold then octets "\r\n" else []) ++ xrefEntry ngp)
        folds gs).flatten := by
  induction gs generalizing linelen with
  | nil => exact ⟨[], rfl, rfl⟩
  | cons ngp gs ih =>
    rw [xrefText]
    split
    · obtain ⟨folds, hlen, heq⟩ := ih (xrefEntry ngp).length
      refine ⟨true :: folds, congrArg Nat.succ hlen, ?_⟩
      rw [heq, List.zipWith_cons_cons, List.flatten_cons]
      rfl
    · obtain ⟨folds, hlen, heq⟩ := ih (linelen + (xrefEntry ngp).length)
      refine ⟨false :: folds, congrArg Nat.succ hlen, ?_⟩
      rw [heq, List.zipWith_cons_cons, List.flatten_cons]
      rfl

/-- A server with the same groups, all of them full. -/
def fullServer (core : InCore) : InCore :=
  { core with groups := core.groups.map fun g => { g with Last := NNTP_MAXARTNUM } }

theorem fullServer_knows (hmax : ∀ ngp ∈ numberedGroups core GroupPointers, ngp.Last ≤ NNTP_MAXARTNUM) :
    Knows core GroupPointers (fullServer core) := by
  refine ⟨by simp [fullServer, Function.comp_def], fun i hi ngp ngp' hngp hngp' => .inl ?_⟩
  rw [fullServer, List.getElem?_map, hngp] at hngp'
  cases hngp'
  exact hmax _ (mem_numberedGroups.mpr ⟨i, hi, ngp, hngp, rfl⟩)

/-- The names of groups from an active file, and the rest of what a caller of
`ARTassignnumbers` provides. -/
theorem Numbered.of_parse {text : List UInt8} {parsed : List NEWSGROUP}
    (hparse : NGparsefile text = some parsed)
    (hnames : core.groups.map (·.Name) = parsed.map (·.Name))
    (hhost : ∀ c ∈ host, c ≠ 0 ∧ !xrefSpace c)
    (hvalid : ∀ i ∈ GroupPointers, i < core.groups.length)
    (hfresh : ∀ i ∈ GroupPointers, ∀ ngp, core.groups[i]? = some ngp → ngp.PostCount = 0) :
    Numbered host core GroupPointers := by
  obtain ⟨hnodup, hclean⟩ := NGparsefile_names hparse
  refine ⟨hnames ▸ hnodup, fun ngp hngp c hc => ?_, hhost, hvalid, hfresh⟩
  have hmem : ngp.Name ∈ parsed.map (·.Name) := hnames ▸ List.mem_map_of_mem hngp
  obtain ⟨g, hg, heq⟩ := List.mem_map.mp hmem
  have := hclean g hg c (heq ▸ hc)
  exact ⟨this.1, this.2.1⟩

/-- The lines of the field of entries that all fit their fields. -/
theorem lines_iff (h : Numbered host core GroupPointers)
    (hmax : ∀ ngp ∈ numberedGroups core GroupPointers, ngp.Last ≤ NNTP_MAXARTNUM) :
    (∀ line ∈ physicalLines (octets "Xref: " ++
        (fieldOf host (numberedGroups core GroupPointers) ++ octets "\r\n")),
        line.length ≤ MAXARTLINELENGTH) ↔
      (∀ ngp ∈ numberedGroups core GroupPointers, (xrefEntry ngp).length + 2 ≤ MAXARTLINELENGTH) ∧
        ∀ before after, numberedGroups core GroupPointers = before ++ after → keptOnLine 0 before →
          6 + host.length + entriesLength before + 2 ≤ MAXARTLINELENGTH := by
  have hlf : ∀ ngp ∈ numberedGroups core GroupPointers, ∀ c ∈ ngp.Name, c ≠ 10 := by
    intro ngp hngp c hc
    obtain ⟨i, -, g, hg, rfl⟩ := mem_numberedGroups.mp hngp
    exact (h.names g (List.mem_of_getElem? hg) c hc).2
  have hfile : ∀ ngp ∈ numberedGroups core GroupPointers, ngp.Filenum ≤ NNTP_MAXARTNUM :=
    fun ngp hngp => numberedGroups_Filenum hngp ▸ hmax ngp hngp
  have hpre : 10 ∉ octets "Xref: " ++ host := by
    rw [List.mem_append, not_or]
    refine ⟨by decide, fun hmem => ?_⟩
    exact absurd (h.host 10 hmem).2 (by decide)
  have hlen : (octets "Xref: " ++ host).length = 6 + host.length := List.length_append
  have hlines := @physicalLines_field _ _ 0 hpre hlf
  rw [fieldOf, ← List.append_assoc, ← List.append_assoc, hlines]
  refine (fieldLines_le_iff hfile).trans (and_congr Iff.rfl ?_)
  rw [hlen]
  have hkept := @keptLength_le_iff (numberedGroups core GroupPointers) 0 (6 + host.length)
    (MAXARTLINELENGTH - 2)
  unfold MAXARTLINELENGTH at hkept ⊢
  constructor
  · intro hle before after heq hon
    have := hkept.mp (by omega) before after heq hon
    omega
  · intro hall
    have := hkept.mpr fun before after heq hon => by
      have := hall before after heq hon
      omega
    omega

/-- With entries that fit, the field is as intended. -/
theorem XrefFits.intended (h : Numbered host core GroupPointers) (hready : XrefReady host data)
    (hok : (ARTassignnumbers host data core GroupPointers).ok)
    (hfits : XrefFits host (numberedGroups core GroupPointers)) :
    XrefIntended host data core GroupPointers
      (ARTassignnumbers host data core GroupPointers) := by
  obtain ⟨hXref, hbounds, hmax, hafter⟩ := @ARTassignnumbers_eq core host data GroupPointers h hok
  have hall : (numberedGroups core GroupPointers).filter fitsField =
      numberedGroups core GroupPointers :=
    List.filter_eq_self.mpr fun ngp hngp => decide_eq_true (hfits.width ngp hngp)
  rw [printedFrom_Xref hready, hall] at hXref
  have hfile : ∀ ngp ∈ numberedGroups core GroupPointers, ngp.Filenum ≤ NNTP_MAXARTNUM :=
    fun ngp hngp => numberedGroups_Filenum hngp ▸ hmax ngp hngp
  refine ⟨fun i hi ngp hngp => ?_, ?_, ?_, ?_, ?_⟩
  · refine ⟨_, hafter i ngp hngp, ?_⟩
    rw [if_pos hi, NEWSGROUP.afterRound]
    split <;> rfl
  · obtain ⟨folds, hlen, heq⟩ := xrefText_folds 0 (numberedGroups core GroupPointers)
    refine ⟨folds, hlen, ?_⟩
    rw [hXref, fieldOf, heq]
  · obtain ⟨hhost, -, hsize⟩ := startNumbering_Xref hready core
    have hhostlen := hfits.hostLine [] _ rfl fun before g after heq => by simp at heq
    have hstart : (startNumbering host data core).inBounds := by
      rw [startNumbering]
      split
      · unfold MAXARTLINELENGTH at hhostlen
        exact decide_eq_true (by unfold MED_BUFFER; omega)
      · rfl
    have hprints := @prints_inBounds (numberedGroups core GroupPointers) (startNumbering host data core)
      (fun ngp hngp => ⟨hfits.entry ngp hngp, hfile ngp hngp⟩) ⟨hstart, by
        rw [hhost]
        unfold MAXARTLINELENGTH at hhostlen
        unfold MED_BUFFER at hsize
        omega⟩
    rw [hbounds, printedFrom, hall, hprints.1, Bool.true_and]
    exact decide_eq_true hprints.2
  · rw [hXref]
    exact (lines_iff h hmax).mpr ⟨hfits.entry, hfits.hostLine⟩
  · intro slave hknows data'
    have hcut : (ARTassignnumbers host data core GroupPointers).data.Xref.take
        ((ARTassignnumbers host data core GroupPointers).data.Xref.length - 2) =
        fieldOf host (numberedGroups core GroupPointers) := by
      rw [hXref, List.length_append]
      exact List.take_left' (Nat.add_sub_cancel ..).symm
    have hread := ARTxrefslave_fieldOf h hknows.1 (nodup_eraseDups GroupPointers)
      (fun i hi => h.valid i (List.mem_eraseDups.mp hi))
      (fun ngp hngp => ⟨hfits.name ngp hngp, hfile ngp hngp⟩) (fun i hi ngp' hngp' => ?_) data'
    · rw [hcut]
      refine ⟨hread.1, fun i hi ngp hngp => ?_⟩
      obtain ⟨ngp', hngp', heq⟩ := hread.2 i (List.mem_eraseDups.mpr hi)
      refine ⟨ngp', hngp', heq.trans ?_⟩
      rw [numberOf, hngp]
      rfl
    · obtain ⟨ngp, hngp⟩ : ∃ ngp, core.groups[i]? = some ngp :=
        ⟨_, List.getElem?_eq_getElem (h.valid i (List.mem_eraseDups.mp hi))⟩
      rw [numberOf, hngp]
      exact hknows.2 i (List.mem_eraseDups.mp hi) ngp ngp' hngp hngp'

/-- A field that is as intended has entries that fit. -/
theorem XrefIntended.fits (h : Numbered host core GroupPointers) (hready : XrefReady host data)
    (hok : (ARTassignnumbers host data core GroupPointers).ok)
    (hintended : XrefIntended host data core GroupPointers
      (ARTassignnumbers host data core GroupPointers)) :
    XrefFits host (numberedGroups core GroupPointers) := by
  obtain ⟨hXref, -, hmax, -⟩ := @ARTassignnumbers_eq core host data GroupPointers h hok
  rw [printedFrom_Xref hready] at hXref
  have hfile : ∀ ngp ∈ numberedGroups core GroupPointers, ngp.Filenum ≤ NNTP_MAXARTNUM :=
    fun ngp hngp => numberedGroups_Filenum hngp ▸ hmax ngp hngp
  have hknows := fullServer_knows hmax
  have hread := hintended.readBack (fullServer core) hknows data
  have hcut : (ARTassignnumbers host data core GroupPointers).data.Xref.take
      ((ARTassignnumbers host data core GroupPointers).data.Xref.length - 2) =
      fieldOf host ((numberedGroups core GroupPointers).filter fitsField) := by
    rw [hXref, List.length_append]
    exact List.take_left' (Nat.add_sub_cancel ..).symm
  rw [hcut] at hread
  -- a group that is read back has a name the field can carry
  have hname : ∀ ngp ∈ numberedGroups core GroupPointers, CleanName ngp.Name := by
    intro ngp hngp
    obtain ⟨i, hi, g, hg, rfl⟩ := mem_numberedGroups.mp hngp
    have hfiled := hread.1 ▸ List.mem_eraseDups.mpr hi
    obtain ⟨name, hname, hclean⟩ := ARTxrefslave_filed hfiled
    rw [hknows.1, List.getElem?_map, hg] at hname
    cases hname
    exact hclean
  -- and all groups are read back, so that all numbers fit
  have hall : (numberedGroups core GroupPointers).filter fitsField =
      numberedGroups core GroupPointers := by
    have hsub : ∀ ngp ∈ (numberedGroups core GroupPointers).filter fitsField,
        CleanName ngp.Name ∧ ngp.Filenum ≤ NNTP_MAXARTNUM := fun ngp hngp =>
      have hmem := List.mem_of_mem_filter hngp
      ⟨hname ngp hmem, hfile ngp hmem⟩
    rw [numberedGroups, nextNumbers_filter] at hsub hread ⊢
    have hfiled := (ARTxrefslave_fieldOf h hknows.1 ((nodup_eraseDups GroupPointers).filter _)
      (fun i hi => h.valid i (List.mem_eraseDups.mp (List.mem_of_mem_filter hi))) hsub
      (fun i hi ngp' hngp' => ?_) data).1
    · rw [← hfiled, hread.1]
    · have hi' := List.mem_eraseDups.mp (List.mem_of_mem_filter hi)
      obtain ⟨ngp, hngp⟩ : ∃ ngp, core.groups[i]? = some ngp :=
        ⟨_, List.getElem?_eq_getElem (h.valid i hi')⟩
      rw [numberOf, hngp]
      exact hknows.2 i hi' ngp ngp' hngp hngp'
  have hlines := hintended.lines
  rw [hXref, hall] at hlines
  obtain ⟨hentry, hhost⟩ := (lines_iff h hmax).mp hlines
  refine ⟨fun ngp hngp => ?_, hname, hentry, hhost⟩
  exact of_decide_eq_true (List.filter_eq_self.mp hall ngp hngp)

/-- The field is as intended exactly when its entries fit. -/
theorem xref_intended_iff {text : List UInt8} {parsed : List NEWSGROUP}
    (hparse : NGparsefile text = some parsed)
    (hnames : core.groups.map (·.Name) = parsed.map (·.Name))
    (hhost : ∀ c ∈ host, c ≠ 0 ∧ !xrefSpace c) (hready : XrefReady host data)
    (hvalid : ∀ i ∈ GroupPointers, i < core.groups.length)
    (hfresh : ∀ i ∈ GroupPointers, ∀ ngp, core.groups[i]? = some ngp → ngp.PostCount = 0)
    (hok : (ARTassignnumbers host data core GroupPointers).ok) :
    XrefIntended host data core GroupPointers (ARTassignnumbers host data core GroupPointers) ↔
      XrefFits host (numberedGroups core GroupPointers) := by
  have h := Numbered.of_parse hparse hnames hhost hvalid hfresh
  exact ⟨XrefIntended.fits h hready hok, XrefFits.intended h hready hok⟩

/-! ## Ten groups on one line -/

/-- A line whose group has a name of 95 octets. -/
def longLine (c : UInt8) (hc : c ≠ 0 ∧ c ≠ 10 ∧ c ≠ 32) : ActiveLine :=
  { name := List.replicate 94 97 ++ [c], hi := octets "0000000000", lo := octets "0000000001"
    rest := octets "y"
    name_ok := fun d hd => by
      rcases List.mem_append.mp hd with hd | hd
      · rw [List.eq_of_mem_replicate hd]
        decide
      · exact List.mem_singleton.mp hd ▸ hc
    hi_ok := by decide +kernel, lo_ok := by decide +kernel, rest_ok := line09.rest_ok }

/-- Ten such groups. -/
def longLines : List ActiveLine :=
  [longLine 97 (by decide), longLine 98 (by decide), longLine 99 (by decide),
    longLine 100 (by decide), longLine 101 (by decide), longLine 102 (by decide),
    longLine 103 (by decide), longLine 104 (by decide), longLine 105 (by decide),
    longLine 106 (by decide)]

/-- Their groups; a line has 120 octets. -/
def longGroups : List NEWSGROUP :=
  longLines.zipWith (fun line k => line.group (120 * k)) (List.range 10)

theorem longGroups_parsed : NGparsefile (activeText longLines) = some longGroups := by
  decide +kernel

/-- Groups from a file have not been posted to. -/
theorem parsed_fresh {lines : List ActiveLine} {parsed : List NEWSGROUP}
    (h : NGparsefile (activeText lines) = some parsed) (hngp : parsed[i]? = some ngp) :
    ngp.PostCount = 0 := by
  obtain ⟨line, -, rfl⟩ := (NGparsefile_eq h).2 i ngp hngp
  rfl

theorem xref_intended_one : XrefIntended (octets "h") ⟨[], 0, 0, 0⟩ (coreOf line09) [0, 0]
      (ARTassignnumbers (octets "h") ⟨[], 0, 0, 0⟩ (coreOf line09) [0, 0]) ↔
    XrefFits (octets "h") (numberedGroups (coreOf line09) [0, 0]) :=
  have hparse : NGparsefile (activeText [line09]) = some [line09.group 0] := by decide
  xref_intended_iff hparse rfl (by decide +kernel) (.inl rfl) (by decide +kernel)
    (fun _ _ _ hngp => parsed_fresh hparse hngp) (by decide)

/-- With a host of 16 octets, the first line has 1004. -/
theorem xref_not_intended : ¬ ∀ (host : List UInt8) (data : XrefData) (core : InCore)
    (GroupPointers : List ℕ) (text : List UInt8) (parsed : List NEWSGROUP),
    NGparsefile text = some parsed → core.groups.map (·.Name) = parsed.map (·.Name) →
      (∀ c ∈ host, c ≠ 0 ∧ !xrefSpace c) → XrefReady host data →
      (∀ i ∈ GroupPointers, i < core.groups.length) →
      (∀ i ∈ GroupPointers, ∀ ngp, core.groups[i]? = some ngp → ngp.PostCount = 0) →
      (ARTassignnumbers host data core GroupPointers).ok →
      XrefIntended host data core GroupPointers
        (ARTassignnumbers host data core GroupPointers) := by
  intro h
  have hhost : ∀ c ∈ octets "news.example.com", c ≠ 0 ∧ !xrefSpace c := by decide +kernel
  have hlen : (octets "news.example.com").length = 16 := by decide
  have hlong : ∀ parsed, NGparsefile (activeText longLines) = some parsed →
      (∀ i ∈ List.range 10, i < parsed.length) →
      (ARTassignnumbers (octets "news.example.com") ⟨[], 0, 0, 0⟩ ⟨activeText longLines, parsed⟩
        (List.range 10)).ok →
      22 + keptLength 0 (numberedGroups ⟨activeText longLines, parsed⟩ (List.range 10)) ≤
        MAXARTLINELENGTH - 2 := by
    intro parsed hparse hvalid hok
    have hfresh : ∀ i ∈ List.range 10, ∀ ngp, parsed[i]? = some ngp → ngp.PostCount = 0 :=
      fun _ _ _ hngp => parsed_fresh hparse hngp
    have hintended := h _ ⟨[], 0, 0, 0⟩ ⟨activeText longLines, parsed⟩ (List.range 10) _ parsed
      hparse rfl hhost (.inl rfl) hvalid hfresh hok
    have hnumbered := @Numbered.of_parse ⟨activeText longLines, parsed⟩ _ _ _ parsed
      hparse rfl hhost hvalid hfresh
    have hfits := (hintended.fits hnumbered (.inl rfl) hok).hostLine
    refine keptLength_le_iff.mpr fun before after heq hon => ?_
    have := hfits before after heq hon
    unfold MAXARTLINELENGTH at *
    omega
  exact absurd (hlong longGroups longGroups_parsed (by decide) (by decide))
    (by decide)

end Inn.Innd
