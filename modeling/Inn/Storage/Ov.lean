import Inn.Confparse.Lookup
import Inn.Innd.Xref
import Inn.Libinn.Uwildmat
import Inn.Storage.Overdata
import Inn.Tradindexed.ActiveFile

/-!
# Inn.Storage.Ov — overview data for the groups of an Xref field

The functions of `storage/ov.c` that read the groups of an article and its numbers in them:
`OVadd` in an overview line, and `OVcancel` in the article. The buffers of `OVadd` are static, and
what was allocated for one is not always its length.

* `xrefGroups_entries`, `cancels_entries` — both readers, on what `ARTassignnumbers` writes;
* `prepareXref_fits` — when the copy of the field fits, with its NUL;
* `delivers_iff` — when both do what the field says.
-/

namespace Inn.Storage

open Inn.Innd Inn.Nnrpd
open Inn.Libinn.Uwildmat (Verdict uwildmat_poison)
open Inn.Libinn.Wire (xstrndup)
open Inn.Tradindexed.ActiveFile (cvector_split_space splitLoop isSeparator)

namespace Ov

/-! ## OVadd -/

/-- `BIG_BUFFER`. -/
def BIG_BUFFER : ℕ := 8192

/-- `OVADDRESULT`. -/
inductive OVADDRESULT where
  | OVADDCOMPLETED
  | OVADDFAILED
  | OVADDGROUPNOMATCH
deriving DecidableEq

/-- A call of the method's `add`. -/
structure Call where
  group : List UInt8
  artnum : ℕ
  data : List UInt8
deriving DecidableEq

/-- `ov`, the settings, and what `SMprobe` says of the token. The method's `add` answers to the
last one of the calls that were made. -/
structure OV where
  isOpen : Bool
  add : List Call → Bool
  ovgrouppat : Option (List UInt8)
  groupbaseexpiry : Bool
  SELFEXPIRE : Bool

/-- The static buffers: the lengths that are kept, and what was allocated. For `overdata` these
are the same. -/
structure Buffers where
  xrefdatalen : ℕ
  xrefdatasize : ℕ
  patchecksize : ℕ
  overdatalen : ℕ
deriving DecidableEq

/-- `"Xref: "`. -/
def XREF : List UInt8 := [88, 114, 101, 102, 58, 32]

/-- An overview field begins with `Xref: ` here. -/
def XrefAt (data : List UInt8) (next : ℕ) : Prop :=
  (data.drop next).take 6 = XREF ∧ next ≠ 0 ∧ data[next - 1]? = some TAB

instance (data : List UInt8) (next : ℕ) : Decidable (XrefAt data next) :=
  inferInstanceAs (Decidable (_ ∧ _))

/-- The search for the last Xref field. -/
def lastXref (data : List UInt8) (xrefstart : Option ℕ) (next : ℕ) : Option ℕ :=
  if _h : 6 < data.length - next then
    match memchr 88 (data.drop next) with
    | none => xrefstart
    | some k =>
      lastXref data (if XrefAt data (next + k) then some (next + k) else xrefstart) (next + k + 1)
  else xrefstart
termination_by data.length - next

/-- Behind so many spaces. -/
def skipWords : ℕ → List UInt8 → Option (List UInt8)
  | 0, next => some next
  | _ + 1, [] => some []
  | i + 1, next => (memchr 32 next).bind fun k => skipWords i (next.drop (k + 1))

/-- The groups of a field body, each with what is behind its colon, and whether the loop comes to
its end. Both loops of `OVadd` read it so. -/
def xrefGroups (group : List UInt8) : List (List UInt8 × List UInt8) × Bool :=
  if group = [] ∨ group.head? = some 0 then ([], true)
  else
    let word := group.dropWhile isspace
    match _hk : memchr 58 word with
    | none => ([], false)
    | some k =>
      let next := word.drop (k + 1)
      match memchr 32 next with
      | none => ([(word.take k, next)], true)
      | some j =>
        let (groups, complete) := xrefGroups (next.drop j)
        ((word.take k, next) :: groups, complete)
termination_by group.length
decreasing_by
  have hword : (group.dropWhile isspace).length ≤ group.length :=
    (List.dropWhile_sublist _).length_le
  have hk : k < (group.dropWhile isspace).length := (memchr_eq_some _hk).1
  simp only [List.length_drop]
  omega

/-- The buffers of the field are allocated, and grow. -/
def Buffers.prepareXref (b : Buffers) (patterned : Bool) (xreflen : ℕ) : Buffers :=
  let b := if b.xrefdatalen = 0 then
      { b with
        xrefdatalen := BIG_BUFFER
        xrefdatasize := BIG_BUFFER
        patchecksize := if patterned then BIG_BUFFER else b.patchecksize }
    else b
  if xreflen > b.xrefdatalen then
    { b with
      xrefdatalen := xreflen
      xrefdatasize := xreflen + 1
      patchecksize := if patterned then xreflen + 1 else b.patchecksize }
  else b

/-- The buffer of the line is allocated, and grows; an `int` may overflow. -/
def Buffers.prepareOver (b : Buffers) (len : ℕ) : Buffers :=
  let b := if b.overdatalen = 0 then { b with overdatalen := BIG_BUFFER } else b
  if int32 (len + 16) > b.overdatalen then { b with overdatalen := len + 16 } else b

/-- The first loop: what is returned, if that is not left to the second one. -/
def OV.checkGroups (ov : OV) (ovgrouppat : List UInt8) (complete : Bool) :
    List (List UInt8 × List UInt8) → Option OVADDRESULT
  | [] => if complete then none else some .OVADDFAILED
  | (group, _) :: groups =>
    let groupmatch := uwildmat_poison (xstrndup group) ovgrouppat
    if groupmatch = .UWILDMAT_POISON then some .OVADDGROUPNOMATCH
    else if groupmatch = .UWILDMAT_FAIL ∧ ov.SELFEXPIRE = false ∧ ov.groupbaseexpiry = true then
      some .OVADDFAILED
    else ov.checkGroups ovgrouppat complete groups

/-- The second loop, with the calls that it makes. -/
def OV.addLoop (ov : OV) (data : List UInt8) (complete : Bool) :
    List (List UInt8 × List UInt8) → List Call → OVADDRESULT × List Call
  | [], calls => (if complete then .OVADDCOMPLETED else .OVADDFAILED, calls)
  | (group, next) :: groups, calls =>
    let artnum := atoi next
    if artnum = 0 then ov.addLoop data complete groups calls
    else if ov.ovgrouppat.any fun pat => uwildmat_poison (xstrndup group) pat ≠ .UWILDMAT_MATCH then
      ov.addLoop data complete groups calls
    else
      let calls := calls ++ [⟨xstrndup group, artnum, printed artnum ++ TAB :: (data ++ crlf)⟩]
      if ov.add calls then ov.addLoop data complete groups calls else (.OVADDFAILED, calls)

/-- What `OVadd` does; `inBounds` tells whether all writes are in what was allocated. -/
structure Added where
  buffers : Buffers
  calls : List Call
  inBounds : Bool
  result : OVADDRESULT

/-- `OVadd`. -/
def OVadd (ov : OV) (b : Buffers) (data : List UInt8) : Added :=
  if ov.isOpen = false then ⟨b, [], true, .OVADDFAILED⟩
  else
    match (lastXref data none 0).bind fun xrefstart => skipWords 2 (data.drop xrefstart) with
    | none => ⟨b, [], true, .OVADDFAILED⟩
    | some next =>
      let xreflen := (memchr TAB next).getD next.length
      let b := (b.prepareXref ov.ovgrouppat.isSome xreflen).prepareOver data.length
      let groups := xrefGroups (next.take xreflen)
      let checked := ov.ovgrouppat.bind fun pat => ov.checkGroups pat groups.2 groups.1
      let inBounds := ov.ovgrouppat = none ∨ xreflen + 1 ≤ b.patchecksize
      match checked with
      | some result => ⟨b, [], inBounds, result⟩
      | none =>
        let added := ov.addLoop data groups.2 groups.1 []
        ⟨b, added.2, inBounds ∧ xreflen + 1 ≤ b.xrefdatasize ∧
          ∀ call ∈ added.2, call.data.length ≤ b.overdatalen, added.1⟩

/-- The buffers after any calls of `OVadd`. -/
inductive Reached : Buffers → Prop where
  | start : Reached ⟨0, 0, 0, 0⟩
  | add {b : Buffers} (ov : OV) (data : List UInt8) : Reached b → Reached (OVadd ov b data).buffers

/-! ## OVcancel -/

/-- What is cancelled for a word of the field. -/
def cancelOf (group : List UInt8) : Option (List UInt8 × ℕ) :=
  match memchr 58 group with
  | none => none
  | some p =>
    if p = 0 ∨ group[p + 1]? = some 45 then none
    else
      let artnum := Confparse.strtoul (group.drop (p + 1))
      if artnum.1 = 0 ∨ artnum.2 = true then none else some (group.take p, artnum.1)

/-- `OVcancel` of the article that `SMretrieve` finds, with the calls of the method's `cancel`. -/
def OVcancel (ov : OV) (art : Option (List UInt8)) : Bool × List (List UInt8 × ℕ) :=
  if ov.isOpen = false then (false, [])
  else
    match art.bind fun data => wireFindheader data (octets "Xref") true with
    | none => (false, [])
    | some xref =>
      match wireEndheader xref with
      | none => (false, [])
      | some xrefend =>
        let xref_copy := xstrndup (xref.take (xref.length - xrefend.length + 1))
        (true, (cvector_split_space xref_copy).filterMap cancelOf)

/-! ## The last Xref field -/

section Find

variable {data next : List UInt8} {xrefstart : Option ℕ} {p : ℕ}

theorem XrefAt.lt (h : XrefAt data p) : p + 6 ≤ data.length ∧ data[p]? = some 88 := by
  have hlen := congrArg List.length h.1
  rw [List.length_take, List.length_drop, show XREF.length = 6 from rfl] at hlen
  have hhead : ((data.drop p).take 6)[0]? = some 88 := by
    rw [h.1]
    rfl
  rw [List.getElem?_take_of_lt (by decide), List.getElem?_drop] at hhead
  exact ⟨by omega, hhead⟩

/-- Behind the last field nothing changes. -/
theorem lastXref_behind (h : ∀ k, p ≤ k → ¬ XrefAt data k) :
    lastXref data xrefstart p = xrefstart := by
  induction hn : data.length - p using Nat.strongRecOn generalizing p with
  | _ n ih =>
  subst hn
  rw [lastXref]
  split
  · split
    · rfl
    · rename_i k hk
      rw [if_neg (h _ (Nat.le_add_right _ _))]
      exact ih _ (by omega) (fun k' hk' => h k' (by omega)) rfl
  · rfl

/-- Before it, the search comes to it. -/
theorem lastXref_eq {n : ℕ} (hp : XrefAt data p) (h : ∀ k, p < k → ¬ XrefAt data k) (hn : n < p) :
    lastXref data xrefstart n = some p := by
  obtain ⟨hlen, hX⟩ := hp.lt
  induction hm : data.length - n using Nat.strongRecOn generalizing n xrefstart with
  | _ m ih =>
  subst hm
  rw [lastXref, dif_pos (by omega)]
  have hmem : 88 ∈ data.drop n := by
    refine List.mem_of_getElem? (i := p - n) ?_
    rw [List.getElem?_drop, show n + (p - n) = p by omega, hX]
  split
  · rename_i hnone
    exact absurd hmem (memchr_eq_none hnone)
  · rename_i k hk
    obtain ⟨hlt, hat, hbefore⟩ := List.findIdx?_eq_some_iff_getElem.mp hk
    have hat : data[n + k]? = some 88 := by
      rw [← List.getElem?_drop, List.getElem?_eq_getElem hlt, eq_of_beq hat]
    have hkp : n + k ≤ p := by
      by_contra hlt
      have hnot := hbefore (p - n) (by omega)
      rw [List.getElem_drop] at hnot
      simp only [show n + (p - n) = p by omega] at hnot
      exact hnot (beq_iff_eq.mpr (List.getElem?_eq_some_iff.mp hX).2)
    rcases Nat.eq_or_lt_of_le hkp with heq | hlt
    · rw [heq, if_pos hp]
      exact lastXref_behind fun k' hk' => h k' (by omega)
    · refine ih _ (by omega) ?_ rfl
      -- a tab is before the field
      have hne : n + k + 1 ≠ p := by
        rintro rfl
        have htab := hp.2.2
        rw [Nat.add_sub_cancel, hat] at htab
        exact absurd htab (by decide)
      omega

end Find

/-! ## The field -/

/-- A word without white space. -/
structure IsWord (l : List UInt8) : Prop where
  nonempty : l ≠ []
  graphic : ∀ c ∈ l, 33 ≤ c

/-- A group with a number, as `ARTassignnumbers` lists them. -/
structure Listed (ngp : NEWSGROUP) : Prop where
  name : IsWord ngp.Name
  colon : 58 ∉ ngp.Name
  positive : 0 < ngp.Filenum
  limit : ngp.Filenum ≤ NNTP_MAXARTNUM

section Field

variable {c : UInt8} {l rest data host : List UInt8} {ngp : NEWSGROUP} {gs : List NEWSGROUP}

theorem graphic_facts (h : 33 ≤ c) : isspace c = false ∧ c ≠ 32 ∧ c ≠ 9 ∧ c ≠ 0 ∧ c ≠ 13 := by
  have h' := UInt8.le_iff_toNat_le.mp h
  have hne : ∀ b : UInt8, b.toNat < 33 → c ≠ b := by
    rintro b hb rfl
    exact absurd h' (Nat.not_le.mpr hb)
  have h13 : ¬ c ≤ 13 := fun hle =>
    absurd (h'.trans (UInt8.le_iff_toNat_le.mp hle)) (by decide)
  refine ⟨?_, hne 32 (by decide), hne 9 (by decide), hne 0 (by decide), hne 13 (by decide)⟩
  rw [isspace, beq_eq_false_iff_ne.mpr (hne 32 (by decide)), decide_eq_false h13, Bool.and_false]
  rfl

theorem graphic_printed {n : ℕ} (h : c ∈ printed n) : 33 ≤ c ∧ c ≠ 58 := by
  obtain ⟨hlow, hhigh⟩ := isDigit_of_mem_printed h
  refine ⟨UInt8.le_iff_toNat_le.mpr ((show (33 : UInt8).toNat ≤ 48 by decide).trans hlow), ?_⟩
  rintro rfl
  exact absurd hhigh (by decide)

/-- The words of an entry. -/
theorem Listed.word (h : Listed ngp) : IsWord (ngp.Name ++ 58 :: printed ngp.Filenum) := by
  refine ⟨by simp, fun c hc => ?_⟩
  rcases List.mem_append.mp hc with hc | hc
  · exact h.name.graphic c hc
  · rcases List.mem_cons.mp hc with rfl | hc
    · decide
    · exact (graphic_printed hc).1

theorem IsWord.not_mem (h : IsWord l) : 32 ∉ l ∧ 9 ∉ l ∧ 0 ∉ l := by
  refine ⟨fun hc => ?_, fun hc => ?_, fun hc => ?_⟩ <;>
  exact absurd (h.graphic _ hc) (by decide)

theorem IsWord.head (h : IsWord l) (rest : List UInt8) :
    ∃ c l', l ++ rest = c :: l' ∧ 33 ≤ c := by
  obtain ⟨c, l', rfl⟩ := List.exists_cons_of_ne_nil h.nonempty
  exact ⟨c, l' ++ rest, rfl, h.graphic c List.mem_cons_self⟩

theorem dropWhile_space (h : IsWord l) : (32 :: (l ++ rest)).dropWhile isspace = l ++ rest ∧
    (l ++ rest).dropWhile isspace = l ++ rest := by
  obtain ⟨c, l', hl, hc⟩ := h.head rest
  have hspace : isspace c = false := (graphic_facts hc).1
  rw [hl, List.dropWhile_cons_of_pos (by decide), List.dropWhile_cons_of_neg (by simp [hspace])]
  exact ⟨rfl, rfl⟩

/-- The loop at an entry. -/
theorem xrefGroups_entry (h : Listed ngp) (hrest : rest = [] ∨ rest.head? = some 32) :
    xrefGroups (xrefEntry ngp ++ rest) =
      ((ngp.Name, printed ngp.Filenum ++ rest) :: (xrefGroups rest).1, (xrefGroups rest).2) := by
  have htext : xrefEntry ngp ++ rest =
      32 :: (ngp.Name ++ 58 :: (printed ngp.Filenum ++ rest)) := by
    simp [xrefEntry]
  have hcolon : memchr 58 (ngp.Name ++ 58 :: (printed ngp.Filenum ++ rest)) =
      some ngp.Name.length := memchr_append h.colon _
  have hnext : (ngp.Name ++ 58 :: (printed ngp.Filenum ++ rest)).drop (ngp.Name.length + 1) =
      printed ngp.Filenum ++ rest := by
    rw [← List.singleton_append, ← List.append_assoc]
    exact List.drop_left' (by simp)
  have hname : (ngp.Name ++ 58 :: (printed ngp.Filenum ++ rest)).take ngp.Name.length =
      ngp.Name := List.take_left' rfl
  have hspace : 32 ∉ printed ngp.Filenum := fun hc =>
    absurd (graphic_printed hc).1 (by decide)
  rw [htext, xrefGroups, if_neg (by simp)]
  dsimp only
  split
  · rename_i hnone
    rw [(dropWhile_space h.name).1, hcolon] at hnone
    cases hnone
  · rename_i k hk
    rw [(dropWhile_space h.name).1, hcolon] at hk
    obtain rfl := Option.some.inj hk
    simp only [(dropWhile_space h.name).1, hnext, hname]
    rcases hrest with rfl | hrest
    · have hnone : memchr 32 (printed ngp.Filenum ++ []) = none := by
        rw [List.append_nil, memchr, List.findIdx?_eq_none_iff]
        intro c hc
        exact beq_eq_false_iff_ne.mpr fun heq => hspace (heq ▸ hc)
      simp only [hnone]
      rw [xrefGroups, if_pos (.inl rfl)]
    · obtain ⟨c, rest, rfl⟩ : ∃ c r, rest = c :: r := by
        cases rest with
        | nil => cases hrest
        | cons c r => exact ⟨c, r, rfl⟩
      obtain rfl := Option.some.inj hrest
      simp only [memchr_append hspace, List.drop_left]

/-- Without the space before the first group. -/
theorem xrefGroups_space (h : IsWord l) :
    xrefGroups (l ++ rest) = xrefGroups (32 :: (l ++ rest)) := by
  obtain ⟨c, l', hl, hc⟩ := h.head rest
  have hdrop : (32 :: (l ++ rest)).dropWhile isspace = (l ++ rest).dropWhile isspace :=
    (dropWhile_space h).1.trans (dropWhile_space h).2.symm
  have hnil : ¬ (l ++ rest = [] ∨ (l ++ rest).head? = some 0) := by
    rw [hl]
    simpa using (graphic_facts hc).2.2.2.1
  rw [xrefGroups, xrefGroups, if_neg hnil, if_neg (by simp), hdrop]

/-- What a group and its number are. -/
def pairOf (ngp : NEWSGROUP) : List UInt8 × ℕ := (ngp.Name, ngp.Filenum)

theorem head_entries (gs : List NEWSGROUP) :
    gs.flatMap xrefEntry = [] ∨ (gs.flatMap xrefEntry).head? = some 32 := by
  cases gs with
  | nil => exact .inl rfl
  | cons ngp gs => exact .inr rfl

/-- What the loops read. -/
theorem xrefGroups_entries (h : ∀ ngp ∈ gs, Listed ngp) :
    (xrefGroups (gs.flatMap xrefEntry)).2 = true ∧
      (xrefGroups (gs.flatMap xrefEntry)).1.map (fun e => (e.1, atoi e.2)) = gs.map pairOf := by
  induction gs with
  | nil => simp [xrefGroups]
  | cons ngp gs ih =>
    obtain ⟨hcomplete, hgroups⟩ := ih fun ngp' h' => h ngp' (List.mem_cons_of_mem _ h')
    have hngp := h ngp List.mem_cons_self
    have hlimit : ngp.Filenum < 2 ^ 31 := Nat.lt_succ_of_le hngp.limit
    have hnumber : atoi (printed ngp.Filenum ++ gs.flatMap xrefEntry) = ngp.Filenum := by
      refine atoi_printed hlimit fun c hc => ?_
      rcases head_entries gs with hnil | hhead
      · rw [hnil] at hc
        cases hc
      · obtain rfl := Option.some.inj (hc.symm.trans hhead)
        decide
    rw [List.flatMap_cons, xrefGroups_entry hngp (head_entries gs)]
    refine ⟨hcomplete, ?_⟩
    rw [List.map_cons, List.map_cons, hgroups, hnumber]
    rfl

theorem xrefGroups_tail (hgs : gs ≠ []) (h : ∀ ngp ∈ gs, Listed ngp) :
    xrefGroups (gs.flatMap xrefEntry).tail = xrefGroups (gs.flatMap xrefEntry) := by
  obtain ⟨ngp, gs, rfl⟩ := List.exists_cons_of_ne_nil hgs
  have hname := (h ngp List.mem_cons_self).name
  have htext : (ngp :: gs).flatMap xrefEntry =
      32 :: (ngp.Name ++ 58 :: (printed ngp.Filenum ++ gs.flatMap xrefEntry)) := by
    simp [xrefEntry]
  rw [htext]
  exact xrefGroups_space hname

/-! ## The calls -/

/-- The call for a group. -/
def callOf (data : List UInt8) (ngp : NEWSGROUP) : Call :=
  ⟨ngp.Name, ngp.Filenum, printed ngp.Filenum ++ TAB :: (data ++ crlf)⟩

theorem IsWord.xstrndup_eq (h : IsWord l) : xstrndup l = l :=
  List.takeWhile_eq_self_iff.mpr fun c hc =>
    decide_eq_true (graphic_facts (h.graphic c hc)).2.2.2.1

/-- The second loop calls for each group when all calls but the last one succeed. -/
theorem addLoop_calls {ov : OV} (hpat : ov.ovgrouppat = none) {complete : Bool}
    {groups : List (List UInt8 × List UInt8)} {calls : List Call} (h : ∀ ngp ∈ gs, Listed ngp)
    (hgroups : groups.map (fun e => (e.1, atoi e.2)) = gs.map pairOf) :
    (ov.addLoop data complete groups calls).2 = calls ++ gs.map (callOf data) ↔
      ∀ k, 0 < k → k < gs.length → ov.add (calls ++ (gs.map (callOf data)).take k) = true := by
  induction gs generalizing groups calls with
  | nil =>
    obtain rfl := List.map_eq_nil_iff.mp hgroups
    simp [OV.addLoop]
  | cons ngp gs ih =>
    obtain ⟨⟨group, next⟩, groups, rfl⟩ : ∃ e es, groups = e :: es := by
      cases groups with
      | nil => cases hgroups
      | cons e es => exact ⟨e, es, rfl⟩
    rw [List.map_cons, List.map_cons, List.cons.injEq] at hgroups
    obtain ⟨hgroup, hgroups⟩ := hgroups
    obtain ⟨rfl, hnumber⟩ := Prod.mk.inj hgroup
    have hngp := h ngp List.mem_cons_self
    have hcall : (⟨xstrndup ngp.Name, atoi next, printed (atoi next) ++ TAB :: (data ++ crlf)⟩ :
        Call) = callOf data ngp := by
      rw [callOf, hngp.name.xstrndup_eq, hnumber]
    have hne : ¬ atoi next = 0 := by
      rw [hnumber]
      exact Nat.ne_of_gt hngp.positive
    rw [OV.addLoop]
    dsimp only
    rw [if_neg hne, hpat, Option.any_none, if_neg Bool.false_ne_true, hcall, List.map_cons]
    by_cases hadd : ov.add (calls ++ [callOf data ngp]) = true
    · rw [if_pos hadd]
      have hih := @ih groups (calls ++ [callOf data ngp])
        (fun ngp' h' => h ngp' (List.mem_cons_of_mem _ h')) hgroups
      rw [List.append_assoc, List.singleton_append] at hih
      rw [hih]
      constructor
      · intro hall k hpos hk
        rcases k with _ | _ | k
        · cases hpos
        · exact hadd
        · have := hall (k + 1) (Nat.succ_pos _) (Nat.lt_of_succ_lt_succ hk)
          rwa [List.append_assoc] at this
      · intro hall k _ hk
        have := hall (k + 1) (Nat.succ_pos _) (Nat.succ_lt_succ hk)
        rwa [List.append_assoc]
    · rw [if_neg hadd]
      constructor
      · intro hcalls k hpos hk
        have hlen := congrArg List.length hcalls
        simp only [List.length_append, List.length_cons, List.length_map, List.length_nil]
          at hlen hk
        omega
      · intro hall
        rcases gs with _ | ⟨ngp', gs⟩
        · rfl
        · exact absurd (hall 1 Nat.one_pos (by simp)) hadd

end Field

/-! ## The buffers -/

section Buffers

variable {b : Buffers} {ov : OV} {data : List UInt8} {patterned : Bool} {xreflen len d : ℕ}

/-- The first allocation is for the length; the later ones are for a NUL as well. -/
def Buffers.Valid (b : Buffers) : Prop :=
  b.xrefdatalen = 0 ∨ b.xrefdatalen = BIG_BUFFER ∧ b.xrefdatasize = BIG_BUFFER ∨
    BIG_BUFFER < b.xrefdatalen ∧ b.xrefdatasize = b.xrefdatalen + 1

theorem prepareXref_valid (h : b.Valid) : (b.prepareXref patterned xreflen).Valid := by
  unfold Buffers.Valid at h ⊢
  rw [Buffers.prepareXref]
  by_cases hzero : b.xrefdatalen = 0
  · rw [if_pos hzero]
    dsimp only
    split
    · dsimp only
      omega
    · exact .inr (.inl ⟨rfl, rfl⟩)
  · rw [if_neg hzero]
    split
    · dsimp only
      omega
    · exact h

theorem prepareOver_xref (b : Buffers) (len : ℕ) :
    (b.prepareOver len).xrefdatalen = b.xrefdatalen ∧
      (b.prepareOver len).xrefdatasize = b.xrefdatasize := by
  rw [Buffers.prepareOver]
  by_cases hzero : b.overdatalen = 0
  · rw [if_pos hzero]
    dsimp only
    split <;> exact ⟨rfl, rfl⟩
  · rw [if_neg hzero]
    split <;> exact ⟨rfl, rfl⟩

/-- The copy of the field fits, with its NUL. -/
theorem prepareXref_fits (h : b.Valid) :
    xreflen + 1 ≤ (b.prepareXref patterned xreflen).xrefdatasize ↔
      xreflen ≠ BIG_BUFFER ∨ BIG_BUFFER < b.xrefdatalen := by
  rw [Buffers.Valid] at h
  rw [Buffers.prepareXref]
  by_cases hzero : b.xrefdatalen = 0
  · rw [if_pos hzero]
    dsimp only
    split
    · dsimp only
      omega
    · dsimp only
      omega
  · rw [if_neg hzero]
    split
    · dsimp only
      omega
    · omega

/-- The line fits, with a number of at most ten digits before it. -/
theorem prepareOver_fits (hlen : len < 2 ^ 31) (hpos : 0 < d) (hd : d ≤ 10) :
    len + d + 3 ≤ (b.prepareOver len).overdatalen ↔
      len + 16 < 2 ^ 31 ∨ len + d + 3 ≤ b.overdatalen := by
  have hint : int32 (len + 16) = (len + 16 : ℕ) ∧ len + 16 < 2 ^ 31 ∨
      int32 (len + 16) < 0 ∧ 2 ^ 31 ≤ len + 16 := by
    rw [int32, Nat.mod_eq_of_lt (by omega)]
    split <;> omega
  have hbig : BIG_BUFFER = 8192 := rfl
  rw [Buffers.prepareOver]
  by_cases hzero : b.overdatalen = 0
  · rw [if_pos hzero]
    dsimp only
    split
    · dsimp only
      omega
    · dsimp only
      omega
  · rw [if_neg hzero]
    split
    · dsimp only
      omega
    · omega

theorem OVadd_buffers (ov : OV) (b : Buffers) (data : List UInt8) : (OVadd ov b data).buffers = b ∨
    ∃ patterned xreflen len,
      (OVadd ov b data).buffers = (b.prepareXref patterned xreflen).prepareOver len := by
  rw [OVadd]
  split
  · exact .inl rfl
  · split
    · exact .inl rfl
    · dsimp only
      split
      · exact .inr ⟨_, _, _, rfl⟩
      · exact .inr ⟨_, _, _, rfl⟩

theorem Reached.valid (h : Reached b) : b.Valid := by
  induction h with
  | start => exact .inl rfl
  | @add b ov data _ ih =>
    rcases OVadd_buffers ov b data with hsame | ⟨patterned, xreflen, len, hprepared⟩
    · rwa [hsame]
    · obtain ⟨hlen, hsize⟩ := prepareOver_xref (b.prepareXref patterned xreflen) len
      have hvalid : (b.prepareXref patterned xreflen).Valid := prepareXref_valid ih
      rw [hprepared, Buffers.Valid, hlen, hsize]
      exact hvalid

end Buffers

/-! ## The line -/

section Line

variable {ov : OV} {b : Buffers} {data host rest : List UInt8} {gs : List NEWSGROUP}

/-- A line whose last Xref field lists these groups. -/
structure LastXref (data host : List UInt8) (gs : List NEWSGROUP) : Prop where
  line : ∃ before rest,
    data = before ++ TAB :: (XREF ++ (host ++ (gs.flatMap xrefEntry ++ rest))) ∧
      (rest = [] ∨ rest.head? = some TAB) ∧ ∀ k, before.length + 1 < k → ¬ XrefAt data k

/-- The length of the groups and their numbers in the field. -/
def xrefLength (gs : List NEWSGROUP) : ℕ := (gs.flatMap xrefEntry).length - 1

theorem XrefAt_append (before rest : List UInt8) :
    XrefAt (before ++ TAB :: (XREF ++ rest)) (before.length + 1) := by
  have hassoc : before ++ TAB :: (XREF ++ rest) = (before ++ [TAB]) ++ (XREF ++ rest) := by simp
  refine ⟨?_, Nat.succ_ne_zero _, ?_⟩
  · rw [hassoc, List.drop_left' (by simp)]
    rfl
  · rw [Nat.add_sub_cancel]
    simp

theorem tab_not_mem_entries (h : ∀ ngp ∈ gs, Listed ngp) : TAB ∉ gs.flatMap xrefEntry := by
  intro hc
  obtain ⟨ngp, hngp, hc⟩ := List.mem_flatMap.mp hc
  rw [xrefEntry] at hc
  rcases List.mem_cons.mp hc with hc | hc
  · exact absurd hc (by decide)
  · exact (h ngp hngp).word.not_mem.2.1 hc

theorem skipWords_succ {next : List UInt8} {i k : ℕ} (h : memchr 32 next = some k) :
    skipWords (i + 1) next = skipWords i (next.drop (k + 1)) := by
  cases next with
  | nil => cases h
  | cons c next =>
    rw [skipWords, h, Option.bind_some]
    exact List.cons_ne_nil _ _

/-- What is behind the host. -/
theorem skipWords_host (hhost : IsWord host) (hgs : gs ≠ []) :
    skipWords 2 (XREF ++ (host ++ (gs.flatMap xrefEntry ++ rest))) =
      some ((gs.flatMap xrefEntry).tail ++ rest) := by
  obtain ⟨ngp, gs, rfl⟩ := List.exists_cons_of_ne_nil hgs
  have hentries : (ngp :: gs).flatMap xrefEntry = 32 :: ((ngp :: gs).flatMap xrefEntry).tail := rfl
  have hfirst : memchr 32 (XREF ++ (host ++ ((ngp :: gs).flatMap xrefEntry ++ rest))) = some 5 :=
    @memchr_append _ _ 32 [88, 114, 101, 102, 58] (by decide) _
  have hsecond : memchr 32 (host ++ ((ngp :: gs).flatMap xrefEntry ++ rest)) =
      some host.length := by
    rw [hentries]
    exact memchr_append hhost.not_mem.1 _
  rw [skipWords_succ hfirst]
  change skipWords 1 (host ++ _) = _
  rw [skipWords_succ hsecond, skipWords, hentries, ← List.drop_drop, List.drop_left]
  rfl

theorem memchr_tab (h : ∀ ngp ∈ gs, Listed ngp) (hrest : rest = [] ∨ rest.head? = some TAB) :
    (memchr TAB ((gs.flatMap xrefEntry).tail ++ rest)).getD
      ((gs.flatMap xrefEntry).tail ++ rest).length = xrefLength gs := by
  have hlen : (gs.flatMap xrefEntry).tail.length = xrefLength gs := List.length_tail
  have htab : TAB ∉ (gs.flatMap xrefEntry).tail := fun hc =>
    tab_not_mem_entries h (List.mem_of_mem_tail hc)
  rcases rest with _ | ⟨c, rest⟩
  · have hnone : memchr TAB (gs.flatMap xrefEntry).tail = none := by
      rw [memchr, List.findIdx?_eq_none_iff]
      intro c hc
      exact beq_eq_false_iff_ne.mpr fun heq => htab (heq ▸ hc)
    rw [List.append_nil, hnone, Option.getD_none, hlen]
  · obtain rfl : c = TAB := Option.some.inj (hrest.resolve_left (List.cons_ne_nil _ _))
    rw [memchr_append htab, Option.getD_some, hlen]

/-- `OVadd` of such a line. -/
theorem OVadd_line (hopen : ov.isOpen = true) (hpat : ov.ovgrouppat = none)
    (hline : LastXref data host gs) (hhost : IsWord host) (hgs : gs ≠ [])
    (h : ∀ ngp ∈ gs, Listed ngp) :
    (OVadd ov b data).calls = (ov.addLoop data (xrefGroups (gs.flatMap xrefEntry)).2
        (xrefGroups (gs.flatMap xrefEntry)).1 []).2 ∧
      ((OVadd ov b data).inBounds = true ↔
        xrefLength gs + 1 ≤ (b.prepareXref false (xrefLength gs)).xrefdatasize ∧
          ∀ call ∈ (OVadd ov b data).calls, call.data.length ≤
            ((b.prepareXref false (xrefLength gs)).prepareOver data.length).overdatalen) := by
  obtain ⟨before, rest, hdata, hrest, hlast⟩ := hline.line
  have hat : XrefAt data (before.length + 1) := hdata ▸ XrefAt_append before _
  have hfound : lastXref data none 0 = some (before.length + 1) :=
    lastXref_eq hat hlast (Nat.succ_pos _)
  have hdrop : data.drop (before.length + 1) =
      XREF ++ (host ++ (gs.flatMap xrefEntry ++ rest)) := by
    rw [hdata, ← List.drop_drop, List.drop_left]
    rfl
  have htake : ((gs.flatMap xrefEntry).tail ++ rest).take (xrefLength gs) =
      (gs.flatMap xrefEntry).tail := List.take_left' List.length_tail
  rw [OVadd, hopen, if_neg (by decide), hfound, Option.bind_some, hdrop, skipWords_host hhost hgs]
  dsimp only
  rw [memchr_tab h hrest, htake, xrefGroups_tail hgs h, hpat, Option.bind_none]
  refine ⟨rfl, ?_⟩
  simp only [(prepareOver_xref _ _).2, Option.isSome_none, true_or, true_and, decide_eq_true_eq]

end Line

/-! ## The article -/

section Cancel

variable {ov : OV} {art host l word rest : List UInt8} {gs : List NEWSGROUP} {folds : List Bool}
  {ngp : NEWSGROUP}

/-- The entries of the header field, each on a new line or not. -/
def foldedEntries (folds : List Bool) (gs : List NEWSGROUP) : List UInt8 :=
  (List.zipWith (fun fold ngp => (if fold then crlf else []) ++ xrefEntry ngp) folds gs).flatten

/-- An article whose Xref field lists these groups, folded or not. -/
structure HasXref (art host : List UInt8) (gs : List NEWSGROUP) : Prop where
  field : ∃ (blocks : List (List UInt8)) (f : Nnrpd.Field (octets "Xref")) (folds : List Bool)
      (rest : List UInt8),
    art = blocks.flatMap (· ++ crlf) ++ (f.text ++ (crlf ++ rest)) ∧
      (∀ b ∈ blocks, Block (octets "Xref") b) ∧ folds.length = gs.length ∧
      f.body = host ++ foldedEntries folds gs ∧ rest.head?.any ISWHITE = false

theorem strtoDigits_crlf (nptr : List UInt8) :
    Confparse.strtoDigits (nptr ++ crlf) = Confparse.strtoDigits nptr := by
  have hdigits : ∀ q : List UInt8, (q ++ crlf).takeWhile (fun c => decide (IsDigit c)) =
      q.takeWhile fun c => decide (IsDigit c) := by
    intro q
    rw [List.takeWhile_append]
    split
    · rename_i hlen
      have hall : q.takeWhile (fun c => decide (IsDigit c)) = q :=
        (List.takeWhile_prefix _).eq_of_length hlen
      rw [hall]
      exact List.append_nil _
    · rfl
  rw [Confparse.strtoDigits, Confparse.strtoDigits, List.dropWhile_append]
  by_cases hnil : nptr.dropWhile Confparse.isspace = []
  · rw [hnil]
    rfl
  · obtain ⟨c, p, hp⟩ := List.exists_cons_of_ne_nil hnil
    have hcons := hdigits (c :: p)
    rw [List.cons_append] at hcons
    rw [hp, if_neg (by simp)]
    by_cases hsign : c = 43 ∨ c = 45
    · simp [hsign, hdigits]
    · simp only [List.cons_append, List.head?_cons, List.tail_cons, Option.some.injEq, hsign,
        if_false, hcons]

/-- The end of a line behind a word does not matter. -/
theorem cancelOf_crlf (word : List UInt8) : cancelOf (word ++ crlf) = cancelOf word := by
  have hstrtoul : ∀ nptr, Confparse.strtoul (nptr ++ crlf) = Confparse.strtoul nptr := by
    intro nptr
    rw [Confparse.strtoul, strtoDigits_crlf]
    rfl
  rw [cancelOf, cancelOf]
  rcases hk : memchr 58 word with _ | k
  · have hnone : memchr 58 (word ++ crlf) = none := by
      rw [memchr, List.findIdx?_eq_none_iff]
      intro c hc
      refine beq_eq_false_iff_ne.mpr fun heq => ?_
      rcases List.mem_append.mp hc with hc | hc
      · exact memchr_eq_none hk (heq ▸ hc)
      · exact absurd (heq ▸ hc) (by decide)
    rw [hnone]
  · obtain ⟨hlt, -⟩ := memchr_eq_some hk
    have hsome : memchr 58 (word ++ crlf) = some k := by
      rw [memchr, List.findIdx?_append, ← memchr, hk]
      rfl
    have hminus : (word ++ crlf)[k + 1]? = some 45 ↔ word[k + 1]? = some 45 := by
      rcases Nat.lt_or_ge (k + 1) word.length with hin | hout
      · rw [List.getElem?_append_left hin]
      · obtain heq : k + 1 = word.length := by omega
        rw [heq, List.getElem?_append_right (Nat.le_refl _), Nat.sub_self,
          List.getElem?_eq_none (Nat.le_refl _)]
        decide
    rw [hsome]
    dsimp only
    rw [List.drop_append_of_le_length (by omega), hstrtoul,
      List.take_append_of_le_length (by omega)]
    simp only [hminus]

theorem strtoDigits_printed (n : ℕ) : Confparse.strtoDigits (printed n) = (false, n) := by
  rw [Confparse.strtoDigits_digits fun c hc => isDigit_of_mem_printed hc, decimalValue_printed]

/-- What is cancelled for an entry. -/
theorem cancelOf_entry (h : Listed ngp) :
    cancelOf (ngp.Name ++ 58 :: printed ngp.Filenum) = some (pairOf ngp) := by
  have hcolon : memchr 58 (ngp.Name ++ 58 :: printed ngp.Filenum) = some ngp.Name.length :=
    memchr_append h.colon _
  have hdrop : (ngp.Name ++ 58 :: printed ngp.Filenum).drop (ngp.Name.length + 1) =
      printed ngp.Filenum := by
    rw [← List.drop_drop, List.drop_left]
    rfl
  have hminus : (ngp.Name ++ 58 :: printed ngp.Filenum)[ngp.Name.length + 1]? ≠ some 45 := by
    rw [← List.head?_drop, hdrop]
    intro hc
    exact absurd (isDigit_of_mem_printed (List.mem_of_head? hc)) (by decide)
  have hname : ngp.Name.length ≠ 0 := fun hzero =>
    h.name.nonempty (List.length_eq_zero_iff.mp hzero)
  have hlimit : ¬ Confparse.ULONG_MAX < ngp.Filenum :=
    Nat.not_lt.mpr (h.limit.trans (by decide))
  have hstrtoul : Confparse.strtoul (printed ngp.Filenum) = (ngp.Filenum, false) := by
    rw [Confparse.strtoul, strtoDigits_printed]
    simp [hlimit]
  rw [cancelOf, hcolon]
  dsimp only
  rw [if_neg (not_or.mpr ⟨hname, hminus⟩), hdrop, hstrtoul]
  simp [Nat.ne_of_gt h.positive, pairOf]

theorem not_isSeparator {c : UInt8} (h : 33 ≤ c ∨ c ∈ crlf) : isSeparator c = false := by
  rcases h with h | h
  · have := graphic_facts h
    simp [isSeparator, this.2.1, this.2.2.1]
  · rcases List.mem_cons.mp h with rfl | h
    · rfl
    · rcases List.mem_cons.mp h with rfl | h
      · rfl
      · cases h

/-- The words are split at the space of each entry. -/
theorem splitLoop_word {start : List UInt8} (h : ∀ c ∈ l, isSeparator c = false)
    (hne : start ++ l ≠ []) :
    splitLoop start (l ++ 32 :: rest) = (start ++ l) :: splitLoop [] rest ∧
      splitLoop start l = [start ++ l] := by
  induction l generalizing start with
  | nil =>
    rw [List.append_nil] at hne ⊢
    constructor
    · rw [List.nil_append, splitLoop, if_pos (by decide), if_neg hne]
    · rw [splitLoop, if_neg hne]
  | cons c l ih =>
    have hc : ¬ isSeparator c = true := by
      rw [h c List.mem_cons_self]
      exact Bool.false_ne_true
    have hih := @ih (start ++ [c]) (fun d hd => h d (List.mem_cons_of_mem _ hd)) (by simp)
    rw [List.append_assoc, List.singleton_append] at hih
    rw [List.cons_append, splitLoop, if_neg hc, splitLoop, if_neg hc]
    exact hih

theorem foldedEntries_cons (fold : Bool) (folds : List Bool) (ngp : NEWSGROUP)
    (gs : List NEWSGROUP) : foldedEntries (fold :: folds) (ngp :: gs) =
      (if fold then crlf else []) ++ 32 :: (ngp.Name ++ 58 :: printed ngp.Filenum) ++
        foldedEntries folds gs := rfl

theorem nul_not_mem (h : ∀ ngp ∈ gs, Listed ngp) : 0 ∉ foldedEntries folds gs := by
  induction gs generalizing folds with
  | nil => simp [foldedEntries]
  | cons ngp gs ih =>
    cases folds with
    | nil => simp [foldedEntries]
    | cons fold folds =>
      have hcrlf : (0 : UInt8) ∉ if fold then crlf else [] := by
        cases fold <;> decide
      have hword := (h ngp List.mem_cons_self).word.not_mem.2.2
      have hrest := @ih folds fun ngp' h' => h ngp' (List.mem_cons_of_mem _ h')
      rw [foldedEntries_cons]
      simp only [List.mem_append, List.mem_cons, not_or] at hcrlf hword hrest ⊢
      exact ⟨⟨hcrlf, by decide, hword⟩, hrest⟩

/-- The entries behind a word. -/
theorem cancels_entries (hfolds : folds.length = gs.length) (h : ∀ ngp ∈ gs, Listed ngp)
    (hword : IsWord word) :
    (splitLoop [] (word ++ foldedEntries folds gs ++ crlf)).filterMap cancelOf =
      (cancelOf word).toList ++ gs.map pairOf := by
  induction gs generalizing folds word with
  | nil =>
    obtain rfl := List.length_eq_zero_iff.mp hfolds
    have hsep : ∀ c ∈ word ++ crlf, isSeparator c = false := fun c hc =>
      not_isSeparator ((List.mem_append.mp hc).imp_left (hword.graphic c))
    rw [foldedEntries, List.zipWith_nil_right, List.flatten_nil, List.append_nil,
      (@splitLoop_word _ [] _ hsep (by simp [crlf])).2, List.nil_append]
    simp only [List.filterMap_cons, List.filterMap_nil, cancelOf_crlf]
    cases cancelOf word <;> rfl
  | cons ngp gs ih =>
    obtain ⟨fold, folds, rfl⟩ : ∃ f fs, folds = f :: fs := by
      cases folds with
      | nil => cases hfolds
      | cons f fs => exact ⟨f, fs, rfl⟩
    have hngp := h ngp List.mem_cons_self
    have hsep : ∀ c ∈ word ++ (if fold then crlf else []), isSeparator c = false := by
      intro c hc
      refine not_isSeparator ((List.mem_append.mp hc).imp (hword.graphic c) fun hc => ?_)
      split at hc
      · exact hc
      · cases hc
    have htext : word ++ foldedEntries (fold :: folds) (ngp :: gs) ++ crlf =
        (word ++ (if fold then crlf else [])) ++ 32 ::
          ((ngp.Name ++ 58 :: printed ngp.Filenum) ++ foldedEntries folds gs ++ crlf) := by
      simp [foldedEntries_cons]
    have hne : [] ++ (word ++ (if fold then crlf else [])) ≠ [] := by
      simp [hword.nonempty]
    have hcancel : cancelOf (word ++ (if fold then crlf else [])) = cancelOf word := by
      split
      · exact cancelOf_crlf word
      · rw [List.append_nil]
    have hih := ih (Nat.succ_injective hfolds)
      (fun ngp' h' => h ngp' (List.mem_cons_of_mem _ h')) hngp.word
    rw [htext, (splitLoop_word hsep hne).1, List.nil_append, List.filterMap_cons, hcancel, hih,
      cancelOf_entry hngp]
    cases cancelOf word <;> rfl

/-- `OVcancel` of such an article. -/
theorem OVcancel_field (hopen : ov.isOpen = true) (hart : HasXref art host gs) (hhost : IsWord host)
    (h : ∀ ngp ∈ gs, Listed ngp) :
    (OVcancel ov (some art)).2 = (cancelOf host).toList ++ gs.map pairOf := by
  obtain ⟨blocks, f, folds, rest, rfl, hblocks, hfolds, hbody, hrest⟩ := hart.field
  have hname : IsName (octets "Xref") := ⟨88, [114, 101, 102], by decide, by decide⟩
  have hfind := wireFindheader_behind hname f hblocks rest
  have hend := wireEndheader_field f.folded_body hrest
  rw [List.append_assoc] at hend
  have htake : (f.body ++ (crlf ++ rest)).take ((f.body ++ (crlf ++ rest)).length -
      (10 :: rest).length + 1) = f.body ++ crlf := by
    rw [← List.append_assoc]
    refine List.take_left' ?_
    simp only [List.length_append, List.length_cons, show crlf.length = 2 from rfl]
    omega
  have hnul : xstrndup (f.body ++ crlf) = f.body ++ crlf := by
    refine List.takeWhile_eq_self_iff.mpr fun c hc => decide_eq_true ?_
    rintro rfl
    rw [hbody] at hc
    simp only [List.mem_append, hhost.not_mem.2.2, nul_not_mem h, false_or] at hc
    exact absurd hc (by decide)
  rw [OVcancel, hopen, if_neg (by decide), Option.bind_some, hfind]
  dsimp only
  rw [hend]
  dsimp only
  rw [htake, hnul, cvector_split_space, hbody, cancels_entries hfolds h hhost]

end Cancel

/-! ## Both -/

section Both

variable {ov : OV} {b : Buffers} {data art host : List UInt8} {gs : List NEWSGROUP}

/-- The calls are those for the groups and the numbers of the field, and nothing is written
outside the buffers. -/
structure Delivers (ov : OV) (b : Buffers) (data art : List UInt8) (gs : List NEWSGROUP) :
    Prop where
  inBounds : (OVadd ov b data).inBounds = true
  added : (OVadd ov b data).calls = gs.map (callOf data)
  cancelled : (OVcancel ov (some art)).2 = gs.map pairOf

/-- When they are. -/
structure Deliverable (ov : OV) (b : Buffers) (data host : List UInt8) (gs : List NEWSGROUP) :
    Prop where
  /-- The field does not fill the first allocation. -/
  field : xrefLength gs ≠ BIG_BUFFER ∨ BIG_BUFFER < b.xrefdatalen
  /-- The length of the line is an `int` with what is added to it, or the buffer is large. -/
  line : data.length + 16 < 2 ^ 31 ∨
    ∀ ngp ∈ gs, data.length + (printed ngp.Filenum).length + 3 ≤ b.overdatalen
  /-- No call but the last one fails. -/
  adds : ∀ k, 0 < k → k < gs.length → ov.add ((gs.map (callOf data)).take k) = true
  /-- The host is not cancelled as a group. -/
  host : cancelOf host = none

theorem prepareXref_over (b : Buffers) (patterned : Bool) (xreflen : ℕ) :
    (b.prepareXref patterned xreflen).overdatalen = b.overdatalen := by
  rw [Buffers.prepareXref]
  by_cases hzero : b.xrefdatalen = 0
  · rw [if_pos hzero]
    dsimp only
    split <;> rfl
  · rw [if_neg hzero]
    split <;> rfl

theorem length_callOf (data : List UInt8) (ngp : NEWSGROUP) :
    (callOf data ngp).data.length = data.length + (printed ngp.Filenum).length + 3 := by
  simp only [callOf, List.length_append, List.length_cons, show crlf.length = 2 from rfl]
  omega

/-- The lines of all calls fit. -/
theorem calls_fit (h : ∀ ngp ∈ gs, Listed ngp) (hlen : data.length < 2 ^ 31) (xreflen : ℕ) :
    (∀ call ∈ gs.map (callOf data), call.data.length ≤
        ((b.prepareXref false xreflen).prepareOver data.length).overdatalen) ↔
      data.length + 16 < 2 ^ 31 ∨
        ∀ ngp ∈ gs, data.length + (printed ngp.Filenum).length + 3 ≤ b.overdatalen := by
  have hone : ∀ ngp ∈ gs, (callOf data ngp).data.length ≤
      ((b.prepareXref false xreflen).prepareOver data.length).overdatalen ↔
        data.length + 16 < 2 ^ 31 ∨
          data.length + (printed ngp.Filenum).length + 3 ≤ b.overdatalen := by
    intro ngp hngp
    have hdigits : (printed ngp.Filenum).length ≤ 10 :=
      length_printed_le (Nat.lt_of_le_of_lt (h ngp hngp).limit (by decide)) (by decide)
    have hpos : 0 < (printed ngp.Filenum).length := List.length_pos_of_ne_nil (printed_ne_nil _)
    rw [length_callOf, prepareOver_fits hlen hpos hdigits, prepareXref_over]
  rw [List.forall_mem_map]
  constructor
  · intro hall
    by_cases hint : data.length + 16 < 2 ^ 31
    · exact .inl hint
    · exact .inr fun ngp hngp => ((hone ngp hngp).mp (hall ngp hngp)).resolve_left hint
  · rintro hall ngp hngp
    exact (hone ngp hngp).mpr (hall.imp_right fun hall => hall ngp hngp)

theorem delivers_iff (hb : Reached b) (hopen : ov.isOpen = true) (hpat : ov.ovgrouppat = none)
    (hlen : data.length < 2 ^ 31) (hline : LastXref data host gs) (hart : HasXref art host gs)
    (hhost : IsWord host) (hgs : gs ≠ []) (h : ∀ ngp ∈ gs, Listed ngp) :
    Delivers ov b data art gs ↔ Deliverable ov b data host gs := by
  obtain ⟨hcalls, hbounds⟩ := @OVadd_line ov b _ _ _ hopen hpat hline hhost hgs h
  obtain ⟨-, hgroups⟩ := xrefGroups_entries h
  have hall := @addLoop_calls data gs ov hpat (xrefGroups (gs.flatMap xrefEntry)).2 _ [] h hgroups
  rw [← hcalls, List.nil_append] at hall
  simp only [List.nil_append] at hall
  have hcancel := OVcancel_field hopen hart hhost h
  constructor
  · rintro ⟨hin, hadded, hcancelled⟩
    obtain ⟨hfield, hfit⟩ := hbounds.mp hin
    rw [hadded] at hfit
    refine ⟨(prepareXref_fits hb.valid).mp hfield, (calls_fit h hlen _).mp hfit, hall.mp hadded, ?_⟩
    simpa [hcancel] using hcancelled
  · rintro ⟨hfield, hfit, hadds, hnone⟩
    have hadded := hall.mpr hadds
    refine ⟨hbounds.mpr ⟨(prepareXref_fits hb.valid).mpr hfield, ?_⟩, hadded, ?_⟩
    · rw [hadded]
      exact (calls_fit h hlen _).mpr hfit
    · rw [hcancel, hnone]
      rfl

end Both

/-! ## Lines and articles -/

section Plain

variable {before host : List UInt8} {gs : List NEWSGROUP}

/-- The overview line of an article ends with its Xref field. -/
def plainLine (before host : List UInt8) (gs : List NEWSGROUP) : List UInt8 :=
  before ++ TAB :: (XREF ++ (host ++ gs.flatMap xrefEntry))

/-- An article with the field alone. -/
def plainArticle (host : List UInt8) (gs : List NEWSGROUP) : List UInt8 :=
  XREF ++ (host ++ gs.flatMap xrefEntry) ++ crlf ++ crlf

theorem lastXref_plain (hhost : IsWord host) (h : ∀ ngp ∈ gs, Listed ngp) :
    LastXref (plainLine before host gs) host gs := by
  refine ⟨before, [], by rw [plainLine, List.append_nil], .inl rfl, fun k hk hat => ?_⟩
  have hdrop : (plainLine before host gs).drop (before.length + 1) =
      XREF ++ (host ++ gs.flatMap xrefEntry) := by
    rw [plainLine, ← List.drop_drop, List.drop_left]
    rfl
  have htab : TAB ∈ (plainLine before host gs).drop (before.length + 1) := by
    refine @List.mem_of_getElem? _ _ (k - 1 - (before.length + 1)) _ ?_
    rw [List.getElem?_drop, show before.length + 1 + (k - 1 - (before.length + 1)) = k - 1 by omega]
    exact hat.2.2
  rw [hdrop] at htab
  rcases List.mem_append.mp htab with hc | hc
  · exact absurd hc (by decide)
  · exact (List.mem_append.mp hc).elim hhost.not_mem.2.1 (tab_not_mem_entries h)

theorem foldedEntries_plain (gs : List NEWSGROUP) :
    foldedEntries (gs.map fun _ => false) gs = gs.flatMap xrefEntry := by
  induction gs with
  | nil => rfl
  | cons ngp gs ih =>
    rw [List.map_cons, foldedEntries_cons, ih]
    rfl

theorem hasXref_plain (hhost : IsWord host) (h : ∀ ngp ∈ gs, Listed ngp) :
    HasXref (plainArticle host gs) host gs := by
  obtain ⟨c, l, hl, hc⟩ := hhost.head (gs.flatMap xrefEntry)
  have hcr : 13 ∉ XREF ++ (host ++ gs.flatMap xrefEntry) := by
    intro hmem
    rcases List.mem_append.mp hmem with hmem | hmem
    · exact absurd hmem (by decide)
    rcases List.mem_append.mp hmem with hmem | hmem
    · exact absurd (hhost.graphic _ hmem) (by decide)
    obtain ⟨ngp, hngp, hmem⟩ := List.mem_flatMap.mp hmem
    rw [xrefEntry] at hmem
    rcases List.mem_cons.mp hmem with hmem | hmem
    · exact absurd hmem (by decide)
    · exact absurd ((h ngp hngp).word.graphic _ hmem) (by decide)
  let f : Nnrpd.Field (octets "Xref") :=
    { label := octets "Xref"
      white := 32
      lead := []
      body := host ++ gs.flatMap xrefEntry
      label_eq := rfl
      white_eq := rfl
      fws := .nil
      start := ⟨c, l, hl, by
        have := graphic_facts hc
        simp [ISWHITE, this.2.1, this.2.2.1], (graphic_facts hc).2.2.2.2⟩
      folded := by
        rintro a r hsplit
        refine absurd ?_ hcr
        change XREF ++ (host ++ gs.flatMap xrefEntry) = _ at hsplit
        rw [hsplit]
        simp [crlf] }
  refine ⟨[], f, gs.map fun _ => false, crlf, ?_, by simp, by simp, ?_, rfl⟩
  · change plainArticle host gs = XREF ++ (host ++ gs.flatMap xrefEntry) ++ (crlf ++ crlf)
    rw [plainArticle, List.append_assoc _ crlf crlf]
  · rw [foldedEntries_plain]

end Plain

/-- A group with a name and the number 1. -/
def firstOf (Name : List UInt8) : NEWSGROUP := ⟨0, Name, 1, 1, 1, 0, 0⟩

theorem firstOf_listed {Name : List UInt8} (hname : IsWord Name) (hcolon : 58 ∉ Name) :
    Listed (firstOf Name) := ⟨hname, hcolon, Nat.one_pos, show 1 ≤ NNTP_MAXARTNUM by decide⟩

/-- The method's `add` succeeds. -/
def goodMethod : OV := ⟨true, fun _ => true, none, false, false⟩

theorem isWord_singleton {c : UInt8} (h : 33 ≤ c) : IsWord [c] :=
  ⟨List.cons_ne_nil _ _, fun _ hd => List.mem_singleton.mp hd ▸ h⟩

theorem letter_listed : ∀ ngp ∈ [firstOf [97]], Listed ngp := by
  intro ngp hngp
  obtain rfl := List.mem_singleton.mp hngp
  exact firstOf_listed (isWord_singleton (by decide)) (by decide)

theorem letter_delivers : Delivers goodMethod ⟨0, 0, 0, 0⟩ (plainLine [115] [104] [firstOf [97]])
    (plainArticle [104] [firstOf [97]]) [firstOf [97]] :=
  have hhost : IsWord [104] := isWord_singleton (by decide)
  (delivers_iff .start rfl rfl (by decide) (lastXref_plain hhost letter_listed)
    (hasXref_plain hhost letter_listed) hhost (by decide) letter_listed).mpr
    ⟨.inl (by decide), .inl (by decide), fun k hpos hk => absurd hk (Nat.not_lt.mpr hpos),
      by decide⟩

/-- Sixteen groups whose entries have 8192 octets, the spaces between them included. -/
def wideGroups : List NEWSGROUP :=
  firstOf (List.replicate 510 96) ::
    (List.range 15).map fun i => firstOf (List.replicate 509 (UInt8.ofNat (97 + i)))

theorem wideGroups_listed : ∀ ngp ∈ wideGroups, Listed ngp := by
  have hname : ∀ n : ℕ, ∀ c : UInt8, 33 ≤ c → c ≠ 58 →
      Listed (firstOf (List.replicate (n + 1) c)) := fun n c hc hcolon =>
    firstOf_listed ⟨by simp, fun d hd => List.eq_of_mem_replicate hd ▸ hc⟩
      fun hmem => hcolon (List.eq_of_mem_replicate hmem).symm
  intro ngp hngp
  rcases List.mem_cons.mp hngp with rfl | hngp
  · exact hname 509 96 (by decide) (by decide)
  · obtain ⟨i, hi, rfl⟩ := List.mem_map.mp hngp
    have hletters : ∀ i < 15, 33 ≤ UInt8.ofNat (97 + i) ∧ UInt8.ofNat (97 + i) ≠ 58 := by decide
    obtain ⟨hlow, hcolon⟩ := hletters i (List.mem_range.mp hi)
    exact hname 508 _ hlow hcolon

theorem length_wideGroups : xrefLength wideGroups = BIG_BUFFER := by
  have hone : (printed 1).length = 1 := by decide
  have hentry : ∀ Name : List UInt8, (xrefEntry (firstOf Name)).length = Name.length + 3 := by
    intro Name
    simp [xrefEntry, firstOf, hone]
  have hrest : ((List.range 15).map fun i =>
      firstOf (List.replicate 509 (UInt8.ofNat (97 + i)))).map (fun ngp => (xrefEntry ngp).length) =
        List.replicate 15 512 := by
    simp only [List.map_map, Function.comp_def, hentry, List.length_replicate, List.map_const',
      List.length_range]
  rw [xrefLength, wideGroups, List.flatMap_cons, List.length_append, hentry, List.length_replicate,
    List.length_flatMap, hrest]
  decide

theorem terminator_outside : ¬ ∀ (ov : OV) (b : Buffers) (data art host : List UInt8)
    (gs : List NEWSGROUP), Reached b → ov.isOpen = true → ov.ovgrouppat = none →
      data.length < 2 ^ 31 → LastXref data host gs → HasXref art host gs → IsWord host →
        gs ≠ [] → (∀ ngp ∈ gs, Listed ngp) → Delivers ov b data art gs := by
  intro hall
  have hhost : IsWord [104] := isWord_singleton (by decide)
  have hlen : (plainLine [115] [104] wideGroups).length < 2 ^ 31 := by
    have := length_wideGroups
    rw [xrefLength, BIG_BUFFER] at this
    simp only [plainLine, List.length_append, List.length_cons, List.length_nil,
      show XREF.length = 6 from rfl]
    omega
  have hline := @lastXref_plain [115] _ _ hhost wideGroups_listed
  have hdelivers := hall goodMethod ⟨0, 0, 0, 0⟩ _ _ _ _ .start rfl rfl hlen hline
    (hasXref_plain hhost wideGroups_listed) hhost (List.cons_ne_nil _ _) wideGroups_listed
  have hfits := ((@OVadd_line goodMethod ⟨0, 0, 0, 0⟩ _ _ _ rfl rfl hline hhost
    (List.cons_ne_nil _ _) wideGroups_listed).2.mp hdelivers.inBounds).1
  rcases (prepareXref_fits Reached.start.valid).mp hfits with hne | hlt
  · exact hne length_wideGroups
  · exact absurd hlt (by decide)

end Ov

end Inn.Storage
