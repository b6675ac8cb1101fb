import Inn.Nnrpd.Submit
import Mathlib.Order.Bounds.Basic

/-!
# Inn.Nnrpd.Nextlast — where NEXT and LAST go

`CMDnextlast` tries the numbers one by one and, after 50 misses, those that a search in the overview
finds. Which of the two is used, after how many misses, is a parameter of the loop.

* `candidate_number`, `candidate_search` — what one turn can come to;
* `loop_answers` — where the loop ends, and that it does;
* `CMDnextlast_moves_iff` — for which groups it ends as it should.
-/

namespace Inn.Nnrpd.Nextlast

open Inn.Nnrpd.Submit (toInt toInt_of_lt)

/-! ## The code -/

/-- What a group holds, by number: `OVgetartinfo`, `SMretrieve`, and the Message-ID that
`GetHeader` finds. There is no article 0. -/
structure Spool (Token Art : Type) where
  OVgetartinfo : ℕ → Option Token
  SMretrieve : Token → Option Art
  messageID : Art → Option (List UInt8)
  zero : OVgetartinfo 0 = none

/-- What the command looks at. -/
structure Session where
  GRPcount : ℕ
  PERMcanread : Bool
  PERMcanauthenticate : Bool
  PERMgroupmadeinvalid : Bool
  ARTlow : ℕ
  ARThigh : ℕ
  ARTnumber : ℕ

/-- The replies. -/
inductive Reply where
  | noGroup
  | denied (code : ℕ)
  | invalid (number : ℕ)
  | noArticle (code : ℕ) (message : String)
  | article (number : ℕ) (msgid : List UInt8)
deriving DecidableEq, Repr

variable {Token Art : Type}

/-- `ARTopen`, when no article is open, as every command leaves it. -/
def Spool.ARTopen (sp : Spool Token Art) (n : ℕ) : Option Art :=
  (sp.OVgetartinfo n).bind sp.SMretrieve

/-- The numbers that `OVsearch` gives, one after the other. -/
def Spool.OVsearch (sp : Spool Token Art) (low high : ℤ) : List ℕ :=
  (List.range (high + 1).toNat).filter fun n => decide (low ≤ n) && (sp.OVgetartinfo n).isSome

/-- The number that is tried after `n`; `far` says whether so many misses make a search. The marks
of a search are `int`s. -/
def candidate (far : ℕ → Bool) (sp : Spool Token Art) (s : Session) (next : Bool)
    (n missing : ℕ) : ℕ :=
  let n := if next then (n + 1) % 2 ^ 64 else (n + (2 ^ 64 - 1)) % 2 ^ 64
  if far missing then
    if next then (sp.OVsearch (toInt n) (toInt s.ARThigh)).headD 0
    else (sp.OVsearch (toInt s.ARTlow) (toInt n)).getLastD 0
  else n

/-- The reply when there is no more article. -/
def noMore (next : Bool) : Reply := if next then .noArticle 421 "next" else .noArticle 422 "previous"

/-- The loop of `CMDnextlast`: the current number it leaves, which may come from the `int save`, and
the reply. -/
def loop (far : ℕ → Bool) (sp : Spool Token Art) (s : Session) (next : Bool) :
    ℕ → ℕ → ℕ → Option (ℕ × Reply)
  | 0, _, _ => none
  | fuel + 1, n, missing =>
    let k := candidate far sp s next n missing
    if k < s.ARTlow ∨ s.ARThigh < k then
      some ((toInt s.ARTnumber % 2 ^ 64).toNat, noMore next)
    else
      match sp.ARTopen k with
      | none => loop far sp s next fuel k (missing + 1)
      | some art =>
        match sp.messageID art with
        | none => loop far sp s next fuel k 0
        | some msgid => some (k, .article k msgid)

/-- The threshold. -/
def fifty (missing : ℕ) : Bool := decide (50 < missing)

/-- The command is NEXT. -/
def isNext (av : List UInt8) : Bool := av.headD 0 == 110 || av.headD 0 == 78

/-- `CMDnextlast`, with its first argument. -/
def CMDnextlast (sp : Spool Token Art) (s : Session) (av : List UInt8) (fuel : ℕ) :
    Option (ℕ × Reply) :=
  if s.GRPcount = 0 then some (s.ARTnumber, .noGroup)
  else if !s.PERMcanread || s.PERMgroupmadeinvalid then
    some (s.ARTnumber, .denied (if s.PERMcanauthenticate then 480 else 502))
  else if s.ARTnumber < s.ARTlow ∨ s.ARThigh < s.ARTnumber then
    some (s.ARTnumber, .invalid s.ARTnumber)
  else loop fifty sp s (isNext av) fuel s.ARTnumber 0

/-! ## The rule -/

/-- The Message-ID of an article that can be retrieved. -/
def Spool.served (sp : Spool Token Art) (k : ℕ) : Option (List UInt8) :=
  (sp.ARTopen k).bind sp.messageID

/-- A number between the marks. -/
def Session.InRange (s : Session) (n : ℕ) : Prop := s.ARTlow ≤ n ∧ n ≤ s.ARThigh

/-- The numbers above the current one, or those below. -/
def Session.ahead (s : Session) (next : Bool) : Set ℕ :=
  if next then Set.Ioc s.ARTnumber s.ARThigh else Set.Ico s.ARTlow s.ARTnumber

/-- The smallest of the numbers, or the largest. -/
def Nearest (next : Bool) (numbers : Set ℕ) (k : ℕ) : Prop :=
  if next then IsLeast numbers k else IsGreatest numbers k

/-- The nearest article becomes the current one; without one the number stays. -/
def Answers (sp : Spool Token Art) (s : Session) (next : Bool) (out : ℕ × Reply) : Prop :=
  (∃ k msgid, Nearest next {j | j ∈ s.ahead next ∧ (sp.served j).isSome} k ∧
      sp.served k = some msgid ∧ out = (k, .article k msgid)) ∨
    ((∀ j ∈ s.ahead next, sp.served j = none) ∧ out = (s.ARTnumber, noMore next))

/-- A group is open and its current number valid. The marks come from `int`s. -/
structure Valid (s : Session) : Prop where
  group : s.GRPcount ≠ 0
  canread : s.PERMcanread = true
  readable : s.PERMgroupmadeinvalid = false
  inRange : s.InRange s.ARTnumber
  int : s.ARThigh < 2 ^ 31

/-- How many numbers are left. -/
def Session.left (s : Session) (next : Bool) (n : ℕ) : ℕ :=
  if next then s.ARThigh - n else n - s.ARTlow

/-- A search that finds nothing ends the loop: the marks leave room for 0, and for a number above
them. -/
def Ends (s : Session) (next : Bool) : Prop :=
  1 ≤ s.ARTlow ∧ (next = true → s.ARThigh + 1 < 2 ^ 31)

/-- The current number, or the number of an article ahead that can be opened. -/
def Mark (sp : Spool Token Art) (s : Session) (next : Bool) (a : ℕ) : Prop :=
  a = s.ARTnumber ∨ a ∈ s.ahead next ∧ (sp.ARTopen a).isSome

/-- A search that finds nothing ends the loop, or there is none: an article is ahead, or the misses
after the last that can be opened are too few. -/
def Settled (far : ℕ → Bool) (sp : Spool Token Art) (s : Session) (next : Bool) : Prop :=
  Ends s next ∨ (∃ k ∈ s.ahead next, (sp.served k).isSome) ∨
    ∃ a, Mark sp s next a ∧ ∀ missing ≤ s.left next a, far missing = false

/-! ## One turn -/

section Search

variable {sp : Spool Token Art} {low high : ℤ} {n k : ℕ}

theorem mem_OVsearch : n ∈ sp.OVsearch low high ↔
    (low ≤ n ∧ n ≤ high) ∧ (sp.OVgetartinfo n).isSome := by
  rw [Spool.OVsearch, List.mem_filter, List.mem_range, Bool.and_eq_true, decide_eq_true_iff]
  have hle : n < (high + 1).toNat ↔ (n : ℤ) ≤ high := by omega
  rw [hle]
  tauto

theorem sorted_OVsearch : (sp.OVsearch low high).Pairwise (· < ·) :=
  List.Pairwise.filter _ List.pairwise_lt_range

theorem headD_least {l : List ℕ} (h : l.Pairwise (· < ·)) (hne : l ≠ []) :
    IsLeast {j | j ∈ l} (l.headD 0) := by
  cases l with
  | nil => exact absurd rfl hne
  | cons a l =>
    refine ⟨List.mem_cons_self, fun j hj => ?_⟩
    rcases List.mem_cons.mp hj with rfl | hj
    · exact le_refl _
    · exact (List.rel_of_pairwise_cons h hj).le

theorem getLastD_greatest {l : List ℕ} (h : l.Pairwise (· < ·)) (hne : l ≠ []) :
    IsGreatest {j | j ∈ l} (l.getLastD 0) := by
  rcases List.eq_nil_or_concat l with rfl | ⟨l, a, rfl⟩
  · exact absurd rfl hne
  · rw [List.concat_eq_append] at h ⊢
    rw [List.getLastD_concat]
    refine ⟨List.mem_append_right _ List.mem_cons_self, fun j hj => ?_⟩
    rcases List.mem_append.mp hj with hj | hj
    · exact ((List.pairwise_append.mp h).2.2 j hj a List.mem_cons_self).le
    · exact (List.mem_singleton.mp hj).le

end Search

section Turn

variable {far : ℕ → Bool} {sp : Spool Token Art} {s : Session} {next : Bool} {n k missing : ℕ}

theorem mem_ahead (hv : Valid s) :
    k ∈ s.ahead next ↔ s.InRange k ∧ s.left next k < s.left next s.ARTnumber := by
  have hrange := hv.inRange
  rw [Session.ahead, Session.left, Session.left, Session.InRange]
  rw [Session.InRange] at hrange
  cases next with
  | true =>
    rw [if_pos rfl, if_pos rfl, if_pos rfl, Set.mem_Ioc]
    omega
  | false =>
    rw [if_neg Bool.false_ne_true, if_neg Bool.false_ne_true, if_neg Bool.false_ne_true,
      Set.mem_Ico]
    omega

/-- Number by number: the next one, or one that is out of range. -/
theorem candidate_number (hint : s.ARThigh < 2 ^ 31) (hn : s.InRange n)
    (hfar : far missing = false) :
    (s.left next n = 0 ∧ ¬ s.InRange (candidate far sp s next n missing)) ∨
      (s.InRange (candidate far sp s next n missing) ∧
        s.left next (candidate far sp s next n missing) + 1 = s.left next n) := by
  rw [Session.InRange] at hn
  simp only [candidate, hfar, Session.left, Session.InRange]
  cases next with
  | true =>
    simp only [if_true, Bool.false_eq_true, if_false]
    omega
  | false =>
    simp only [Bool.false_eq_true, if_false]
    omega

/-- By a search: the next one of those in the overview, or 0. -/
theorem candidate_search (hint : s.ARThigh < 2 ^ 31) (hn : s.InRange n) (hfar : far missing = true)
    (hedge : s.left next n = 0 → next = true → s.ARThigh + 1 < 2 ^ 31) :
    (candidate far sp s next n missing = 0 ∧
        ∀ j, s.InRange j → s.left next j < s.left next n → sp.OVgetartinfo j = none) ∨
      (s.InRange (candidate far sp s next n missing) ∧
        s.left next (candidate far sp s next n missing) < s.left next n ∧
        ∀ j, s.InRange j → s.left next (candidate far sp s next n missing) < s.left next j →
          s.left next j < s.left next n → sp.OVgetartinfo j = none) := by
  rw [Session.InRange] at hn
  have hnone : ∀ j, ¬ (sp.OVgetartinfo j).isSome → sp.OVgetartinfo j = none := fun j hj =>
    Option.not_isSome_iff_eq_none.mp hj
  cases next with
  | true =>
    have hroom : n + 1 < 2 ^ 31 := by
      simp only [Session.left, if_true, forall_const] at hedge
      omega
    have hmem : ∀ j, j ∈ sp.OVsearch (toInt ((n + 1) % 2 ^ 64)) (toInt s.ARThigh) ↔
        (n < j ∧ j ≤ s.ARThigh) ∧ (sp.OVgetartinfo j).isSome := by
      intro j
      rw [mem_OVsearch, Nat.mod_eq_of_lt (by omega), toInt_of_lt hroom, toInt_of_lt hint]
      have hle : ((n + 1 : ℕ) : ℤ) ≤ j ∧ (j : ℤ) ≤ s.ARThigh ↔ n < j ∧ j ≤ s.ARThigh := by omega
      rw [hle]
    simp only [candidate, hfar, Session.left, Session.InRange, if_true]
    by_cases hnil : sp.OVsearch (toInt ((n + 1) % 2 ^ 64)) (toInt s.ARThigh) = []
    · refine .inl ⟨by rw [hnil]; rfl, fun j hj hlt => hnone j fun hsome => ?_⟩
      have hin := (hmem j).mpr ⟨by omega, hsome⟩
      rw [hnil] at hin
      cases hin
    · obtain ⟨hk, hleast⟩ := headD_least sorted_OVsearch hnil
      rw [Set.mem_ofPred_eq, hmem] at hk
      refine .inr ⟨by omega, by omega, fun j hj hlt hlt' => hnone j fun hsome => ?_⟩
      have hle := hleast ((hmem j).mpr ⟨by omega, hsome⟩)
      omega
  | false =>
    have hmem : ∀ j, j ∈ sp.OVsearch (toInt s.ARTlow) (toInt ((n + (2 ^ 64 - 1)) % 2 ^ 64)) ↔
        (s.ARTlow ≤ j ∧ j < n) ∧ (sp.OVgetartinfo j).isSome := by
      intro j
      have hint' : toInt ((n + (2 ^ 64 - 1)) % 2 ^ 64) = (n : ℤ) - 1 := by
        rw [toInt]
        split <;> omega
      rw [mem_OVsearch, hint', toInt_of_lt (by omega)]
      have hle : (s.ARTlow : ℤ) ≤ j ∧ (j : ℤ) ≤ (n : ℤ) - 1 ↔ s.ARTlow ≤ j ∧ j < n := by omega
      rw [hle]
    simp only [candidate, hfar, Session.left, Session.InRange, if_true, Bool.false_eq_true,
      if_false]
    have hsorted : (sp.OVsearch (toInt s.ARTlow) (toInt ((n + (2 ^ 64 - 1)) % 2 ^ 64))).Pairwise
        (· < ·) := sorted_OVsearch
    generalize sp.OVsearch (toInt s.ARTlow) (toInt ((n + (2 ^ 64 - 1)) % 2 ^ 64)) = l at *
    by_cases hnil : l = []
    · refine .inl ⟨by rw [hnil]; rfl, fun j hj hlt => hnone j fun hsome => ?_⟩
      have hin := (hmem j).mpr ⟨by omega, hsome⟩
      rw [hnil] at hin
      cases hin
    · obtain ⟨hk, hgreatest⟩ := getLastD_greatest hsorted hnil
      rw [Set.mem_ofPred_eq, hmem] at hk
      refine .inr ⟨by omega, by omega, fun j hj hlt hlt' => hnone j fun hsome => ?_⟩
      have hle := hgreatest ((hmem j).mpr ⟨by omega, hsome⟩)
      omega

end Turn

/-! ## Where it ends -/

section Runs

variable {far : ℕ → Bool} {sp : Spool Token Art} {s : Session} {next : Bool} {n k missing : ℕ}

theorem served_of_absent (h : sp.OVgetartinfo k = none) : sp.served k = none := by
  rw [Spool.served, Spool.ARTopen, h]
  rfl

theorem served_of_closed (h : sp.ARTopen k = none) : sp.served k = none := by
  rw [Spool.served, h]
  rfl

theorem ARTopen_of_absent (h : sp.OVgetartinfo k = none) : sp.ARTopen k = none := by
  rw [Spool.ARTopen, h]
  rfl

theorem restored (hv : Valid s) : (toInt s.ARTnumber % 2 ^ 64).toNat = s.ARTnumber := by
  have hlt := lt_of_le_of_lt hv.inRange.2 hv.int
  rw [toInt_of_lt hlt]
  omega

/-- The first one, in the direction of the command. -/
theorem nearest_of (hv : Valid s) (hk : s.InRange k)
    (hlt : s.left next k < s.left next s.ARTnumber) (hserved : (sp.served k).isSome)
    (hskip : ∀ j, s.InRange j → s.left next k < s.left next j →
      s.left next j < s.left next s.ARTnumber → sp.served j = none) :
    Nearest next {j | j ∈ s.ahead next ∧ (sp.served j).isSome} k := by
  have hmem : k ∈ {j | j ∈ s.ahead next ∧ (sp.served j).isSome} :=
    ⟨(mem_ahead hv).mpr ⟨hk, hlt⟩, hserved⟩
  have hle : ∀ j ∈ {j | j ∈ s.ahead next ∧ (sp.served j).isSome},
      s.left next j ≤ s.left next k := by
    rintro j ⟨hj, hsome⟩
    obtain ⟨hrange, hjlt⟩ := (mem_ahead hv).mp hj
    by_contra hnot
    rw [hskip j hrange (not_le.mp hnot) hjlt] at hsome
    cases hsome
  rw [Nearest]
  cases next with
  | true =>
    refine ⟨hmem, fun j hj => ?_⟩
    have hjk := hle j hj
    have hj := ((mem_ahead hv).mp hj.1).1.2
    rw [Session.left, Session.left, if_pos rfl, if_pos rfl] at hjk
    have hk := hk.2
    omega
  | false =>
    refine ⟨hmem, fun j hj => ?_⟩
    have hjk := hle j hj
    have hk := hk.1
    rw [Session.left, Session.left, if_neg Bool.false_ne_true, if_neg Bool.false_ne_true] at hjk
    omega

/-- Between turns: the articles passed are of no use, and the misses are no more than the numbers
since the current one or the last that could be opened. -/
structure Passed (sp : Spool Token Art) (s : Session) (next : Bool) (n missing : ℕ) : Prop where
  inRange : s.InRange n
  le : s.left next n ≤ s.left next s.ARTnumber
  served : ∀ j, s.InRange j → s.left next n ≤ s.left next j →
    s.left next j < s.left next s.ARTnumber → sp.served j = none
  since : ∃ a, s.left next a ≤ s.left next s.ARTnumber ∧
    missing + s.left next n ≤ s.left next a ∧
    ∀ j, s.InRange j → s.left next n ≤ s.left next j → s.left next j < s.left next a →
      sp.ARTopen j = none

theorem Passed.first (hv : Valid s) : Passed sp s next s.ARTnumber 0 :=
  ⟨hv.inRange, le_refl _, fun _ _ hle hlt => absurd hlt (not_lt.mpr hle),
    s.ARTnumber, le_refl _, by omega, fun _ _ hle hlt => absurd hlt (not_lt.mpr hle)⟩

theorem left_inj (hn : s.InRange n) (hk : s.InRange k) (h : s.left next n = s.left next k) :
    n = k := by
  rw [Session.InRange] at hn hk
  rw [Session.left, Session.left] at h
  split at h <;> omega

/-- A miss. -/
theorem Passed.miss (h : Passed sp s next n missing) (hk : s.InRange k)
    (hlt : s.left next k < s.left next n) (hclosed : sp.ARTopen k = none)
    (hskip : ∀ j, s.InRange j → s.left next k < s.left next j → s.left next j < s.left next n →
      sp.OVgetartinfo j = none) :
    Passed sp s next k (missing + 1) := by
  have hnew : ∀ j, s.InRange j → s.left next k ≤ s.left next j → s.left next j < s.left next n →
      sp.ARTopen j = none := by
    intro j hj hle hjn
    rcases hle.eq_or_lt with heq | hgt
    · rw [left_inj hj hk heq.symm]
      exact hclosed
    · exact ARTopen_of_absent (hskip j hj hgt hjn)
  obtain ⟨a, hac, hmissing, hopen⟩ := h.since
  refine ⟨hk, hlt.le.trans h.le, fun j hj hle hjc => ?_, a, hac, by omega, fun j hj hle hja => ?_⟩
  · rcases lt_or_ge (s.left next j) (s.left next n) with hjn | hjn
    · exact served_of_closed (hnew j hj hle hjn)
    · exact h.served j hj hjn hjc
  · rcases lt_or_ge (s.left next j) (s.left next n) with hjn | hjn
    · exact hnew j hj hle hjn
    · exact hopen j hj hjn hja

/-- An article without a Message-ID. -/
theorem Passed.opened (h : Passed sp s next n missing) (hk : s.InRange k)
    (hlt : s.left next k < s.left next n) (hserved : sp.served k = none)
    (hskip : ∀ j, s.InRange j → s.left next k < s.left next j → s.left next j < s.left next n →
      sp.OVgetartinfo j = none) :
    Passed sp s next k 0 := by
  refine ⟨hk, hlt.le.trans h.le, fun j hj hle hjc => ?_, k, hlt.le.trans h.le, by omega,
    fun j _ hle hlt => absurd hlt (not_lt.mpr hle)⟩
  rcases lt_or_ge (s.left next j) (s.left next n) with hjn | hjn
  · rcases hle.eq_or_lt with heq | hgt
    · rw [left_inj hj hk heq.symm]
      exact hserved
    · exact served_of_absent (hskip j hj hgt hjn)
  · exact h.served j hj hjn hjc

/-- Where a search finds nothing, it ends the loop. -/
theorem Passed.ends (h : Passed sp s next n missing) (hv : Valid s) (hset : Settled far sp s next)
    (hfar : far missing = true)
    (hnone : ∀ j, s.InRange j → s.left next j < s.left next n → sp.OVgetartinfo j = none) :
    Ends s next := by
  rcases hset with hends | ⟨k, hk, hserved⟩ | ⟨b, hb, hnear⟩
  · exact hends
  · -- an article ahead is in the overview, or has been passed
    obtain ⟨hrange, hlt⟩ := (mem_ahead hv).mp hk
    have hno : sp.served k = none := by
      rcases lt_or_ge (s.left next k) (s.left next n) with hkn | hkn
      · exact served_of_absent (hnone k hrange hkn)
      · exact h.served k hrange hkn hlt
    rw [hno] at hserved
    cases hserved
  · -- the last one that can be opened is passed, and the misses since are few
    exfalso
    have hbrange : s.InRange b := by
      rcases hb with rfl | ⟨hb, -⟩
      · exact hv.inRange
      · exact ((mem_ahead hv).mp hb).1
    have hpassed : s.left next n ≤ s.left next b := by
      rcases hb with rfl | ⟨-, hopen⟩
      · exact h.le
      · refine not_lt.mp fun hlt => ?_
        rw [ARTopen_of_absent (hnone b hbrange hlt)] at hopen
        cases hopen
    obtain ⟨a, hac, hmissing, hopen⟩ := h.since
    have hab : s.left next a ≤ s.left next b := by
      rcases hb with rfl | ⟨-, hbopen⟩
      · exact hac
      · refine not_lt.mp fun hlt => ?_
        rw [hopen b hbrange hpassed hlt] at hbopen
        cases hbopen
    have hfew := hnear missing (by omega)
    rw [hfew] at hfar
    cases hfar

/-! ### Turns -/

theorem loop_out (fuel : ℕ) (h : ¬ s.InRange (candidate far sp s next n missing)) :
    loop far sp s next (fuel + 1) n missing =
      some ((toInt s.ARTnumber % 2 ^ 64).toNat, noMore next) := by
  have hout : candidate far sp s next n missing < s.ARTlow ∨
      s.ARThigh < candidate far sp s next n missing := by
    rw [Session.InRange] at h
    omega
  rw [loop]
  exact if_pos hout

theorem loop_in (fuel : ℕ) (hk : candidate far sp s next n missing = k) (h : s.InRange k) :
    loop far sp s next (fuel + 1) n missing =
      match sp.ARTopen k with
      | none => loop far sp s next fuel k (missing + 1)
      | some art =>
        match sp.messageID art with
        | none => loop far sp s next fuel k 0
        | some msgid => some (k, .article k msgid) := by
  have hin : ¬ (k < s.ARTlow ∨ s.ARThigh < k) := by
    rw [Session.InRange] at h
    omega
  rw [loop, hk]
  exact if_neg hin

/-- The loop ends, with the nearest article or without one. -/
theorem loop_answers_from (hv : Valid s) (hset : Settled far sp s next)
    (h : Passed sp s next n missing) :
    ∃ fuel out, loop far sp s next fuel n missing = some out ∧ Answers sp s next out := by
  induction hd : s.left next n using Nat.strong_induction_on generalizing n missing with
  | h d ih =>
    subst hd
    -- an article that is tried ends the loop, or fewer numbers are left
    have hturn : ∀ k, candidate far sp s next n missing = k → s.InRange k →
        s.left next k < s.left next n → (∀ j, s.InRange j → s.left next k < s.left next j →
          s.left next j < s.left next n → sp.OVgetartinfo j = none) →
        ∃ fuel out, loop far sp s next fuel n missing = some out ∧ Answers sp s next out := by
      intro k hk hrange hlt hskip
      cases hopen : sp.ARTopen k with
      | none =>
        obtain ⟨fuel, out, hout, hanswers⟩ := ih _ hlt (h.miss hrange hlt hopen hskip) rfl
        refine ⟨fuel + 1, out, ?_, hanswers⟩
        rw [loop_in fuel hk hrange, hopen]
        exact hout
      | some art =>
        have hserved : sp.served k = sp.messageID art := by
          rw [Spool.served, hopen]
          rfl
        cases hid : sp.messageID art with
        | none =>
          obtain ⟨fuel, out, hout, hanswers⟩ :=
            ih _ hlt (h.opened hrange hlt (hserved.trans hid) hskip) rfl
          refine ⟨fuel + 1, out, ?_, hanswers⟩
          rw [loop_in fuel hk hrange, hopen]
          simp only [hid]
          exact hout
        | some msgid =>
          refine ⟨1, (k, .article k msgid), ?_, .inl ⟨k, msgid, ?_, hserved.trans hid, rfl⟩⟩
          · rw [loop_in 0 hk hrange, hopen]
            simp only [hid]
          · refine nearest_of hv hrange (hlt.trans_le h.le) (by rw [hserved, hid]; rfl) ?_
            intro j hj hkj hjc
            rcases lt_or_ge (s.left next j) (s.left next n) with hjn | hjn
            · exact served_of_absent (hskip j hj hkj hjn)
            · exact h.served j hj hjn hjc
    have hlast : ¬ s.InRange (candidate far sp s next n missing) →
        (∀ j, s.InRange j → s.left next j < s.left next n → sp.OVgetartinfo j = none) →
        ∃ fuel out, loop far sp s next fuel n missing = some out ∧ Answers sp s next out := by
      intro hout hnone
      refine ⟨1, (s.ARTnumber, noMore next), ?_, .inr ⟨fun j hj => ?_, rfl⟩⟩
      · rw [loop_out 0 hout, restored hv]
      · obtain ⟨hrange, hlt⟩ := (mem_ahead hv).mp hj
        rcases lt_or_ge (s.left next j) (s.left next n) with hjn | hjn
        · exact served_of_absent (hnone j hrange hjn)
        · exact h.served j hrange hjn hlt
    cases hfar : far missing with
    | false =>
      rcases candidate_number hv.int h.inRange hfar with ⟨hzero, hout⟩ | ⟨hin, hone⟩
      · exact hlast hout fun j _ hlt => absurd hlt (by omega)
      · exact hturn _ rfl hin (by omega) fun j _ hlt hlt' => absurd hlt (by omega)
    | true =>
      have hedge : s.left next n = 0 → next = true → s.ARThigh + 1 < 2 ^ 31 := fun hzero =>
        (h.ends hv hset hfar fun j _ hlt => absurd hlt (by omega)).2
      rcases candidate_search hv.int h.inRange hfar hedge with
        ⟨hzero, hnone⟩ | ⟨hin, hlt, hskip⟩
      · have hlow := (h.ends hv hset hfar hnone).1
        refine hlast (fun hin => ?_) hnone
        rw [hzero] at hin
        exact absurd hin.1 (by omega)
      · exact hturn _ rfl hin hlt hskip

theorem loop_answers (hv : Valid s) (hset : Settled far sp s next) :
    ∃ fuel out, loop far sp s next fuel s.ARTnumber 0 = some out ∧ Answers sp s next out :=
  loop_answers_from hv hset (Passed.first hv)

/-! ### Without an end -/

theorem candidate_le (hint : s.ARThigh < 2 ^ 31) (hn : n ≤ s.ARThigh) (hfar : far missing = true) :
    candidate far sp s next n missing ≤ s.ARThigh := by
  simp only [candidate, hfar, if_true]
  cases next with
  | true =>
    rw [if_pos rfl, if_pos rfl]
    have hle : ∀ j ∈ sp.OVsearch (toInt ((n + 1) % 2 ^ 64)) (toInt s.ARThigh), j ≤ s.ARThigh := by
      intro j hj
      have hj := (mem_OVsearch.mp hj).1.2
      rw [toInt_of_lt hint] at hj
      omega
    generalize sp.OVsearch (toInt ((n + 1) % 2 ^ 64)) (toInt s.ARThigh) = l at hle ⊢
    cases l with
    | nil => exact Nat.zero_le _
    | cons j l => exact hle j List.mem_cons_self
  | false =>
    rw [if_neg Bool.false_ne_true, if_neg Bool.false_ne_true]
    have hle : ∀ j ∈ sp.OVsearch (toInt s.ARTlow) (toInt ((n + (2 ^ 64 - 1)) % 2 ^ 64)),
        j ≤ s.ARThigh := by
      intro j hj
      have hj := (mem_OVsearch.mp hj).1.2
      have hint' : toInt ((n + (2 ^ 64 - 1)) % 2 ^ 64) ≤ s.ARThigh := by
        rw [toInt]
        split <;> omega
      exact Int.ofNat_le.mp (hj.trans hint')
    generalize sp.OVsearch (toInt s.ARTlow) (toInt ((n + (2 ^ 64 - 1)) % 2 ^ 64)) = l at hle ⊢
    rcases List.eq_nil_or_concat l with rfl | ⟨l, j, rfl⟩
    · exact Nat.zero_le _
    · rw [List.concat_eq_append] at hle ⊢
      rw [List.getLastD_concat]
      exact hle j (List.mem_append_right _ List.mem_cons_self)

/-- In a group that begins with 0, a search that finds nothing starts again. -/
theorem loop_keeps_on (hint : s.ARThigh < 2 ^ 31) (hlow : s.ARTlow = 0)
    (hmark : ∀ a, s.InRange a → a = s.ARTnumber ∨ (sp.ARTopen a).isSome → 50 < s.left next a)
    (fuel : ℕ) : ∀ n missing, s.InRange n → (missing ≤ 50 → ∃ a, s.InRange a ∧
        (a = s.ARTnumber ∨ (sp.ARTopen a).isSome) ∧ missing + s.left next n = s.left next a) →
      ∀ out, loop fifty sp s next fuel n missing = some out →
        ∃ k msgid, sp.served k = some msgid ∧ out = (k, .article k msgid) := by
  induction fuel with
  | zero =>
    intro n missing _ _ out hout
    cases hout
  | succ fuel ih =>
    intro n missing hn hsince out hout
    have hin : s.InRange (candidate fifty sp s next n missing) ∧ (missing ≤ 50 →
        s.left next (candidate fifty sp s next n missing) + 1 = s.left next n) := by
      rcases Nat.lt_or_ge 50 missing with hmany | hfew
      · have hfar : fifty missing = true := decide_eq_true hmany
        have hle := @candidate_le Token Art fifty sp s next n missing hint hn.2 hfar
        exact ⟨⟨by omega, hle⟩, fun hfew => absurd hfew (not_le.mpr hmany)⟩
      · obtain ⟨a, ha, hmarked, hsum⟩ := hsince hfew
        have hmore := hmark a ha hmarked
        have hfar : fifty missing = false := decide_eq_false (not_lt.mpr hfew)
        rcases candidate_number hint hn hfar with ⟨hzero, -⟩ | ⟨hin, hone⟩
        · rw [hzero] at hsum
          exact absurd hmore (by omega)
        · exact ⟨hin, fun _ => hone⟩
    rw [loop_in fuel rfl hin.1] at hout
    cases hopen : sp.ARTopen (candidate fifty sp s next n missing) with
    | none =>
      rw [hopen] at hout
      refine ih _ _ hin.1 (fun hfew => ?_) out hout
      obtain ⟨a, ha, hmarked, hsum⟩ := hsince (by omega)
      have hone := hin.2 (by omega)
      exact ⟨a, ha, hmarked, by omega⟩
    | some art =>
      rw [hopen] at hout
      cases hid : sp.messageID art with
      | none =>
        simp only [hid] at hout
        exact ih _ _ hin.1 (fun _ => ⟨_, hin.1, .inr (by rw [hopen]; rfl), by omega⟩) out hout
      | some msgid =>
        simp only [hid, Option.some.injEq] at hout
        refine ⟨_, msgid, ?_, hout.symm⟩
        rw [Spool.served, hopen]
        exact hid

end Runs

/-! ## The command -/

section Command

variable {sp : Spool Token Art} {s : Session} {next : Bool} {av : List UInt8}
  {out out' : ℕ × Reply}

theorem Nearest.mem {numbers : Set ℕ} {k : ℕ} (h : Nearest next numbers k) : k ∈ numbers := by
  rw [Nearest] at h
  split at h
  · exact h.1
  · exact h.1

/-- There is one answer. -/
theorem Answers.unique (h : Answers sp s next out) (h' : Answers sp s next out') : out = out' := by
  have hnot : ∀ {k : ℕ} {numbers : Set ℕ}, Nearest next {j | j ∈ numbers ∧ (sp.served j).isSome} k →
      (∀ j ∈ numbers, sp.served j = none) → False := by
    intro k numbers hk hnone
    obtain ⟨hin, hsome⟩ := hk.mem
    rw [hnone k hin] at hsome
    cases hsome
  rcases h with ⟨k, msgid, hk, hid, rfl⟩ | ⟨hnone, rfl⟩
  · rcases h' with ⟨k', msgid', hk', hid', rfl⟩ | ⟨hnone, -⟩
    · have hkk : k = k' := by
        rw [Nearest] at hk hk'
        split at hk
        · rename_i hnext
          rw [if_pos hnext] at hk'
          exact hk.unique hk'
        · rename_i hnext
          rw [if_neg hnext] at hk'
          exact hk.unique hk'
      subst hkk
      rw [Option.some.inj (hid.symm.trans hid')]
    · exact (hnot hk hnone).elim
  · rcases h' with ⟨k', msgid', hk', -, -⟩ | ⟨-, rfl⟩
    · exact (hnot hk' hnone).elim
    · rfl

/-- The command ends with the answer, the one that going number by number gives. -/
def Moves (sp : Spool Token Art) (s : Session) (av : List UInt8) : Prop :=
  ∃ out, (∃ fuel, CMDnextlast sp s av fuel = some out) ∧ Answers sp s (isNext av) out ∧
    ∃ fuel, loop (fun _ => false) sp s (isNext av) fuel s.ARTnumber 0 = some out

theorem CMDnextlast_eq (hv : Valid s) (fuel : ℕ) :
    CMDnextlast sp s av fuel = loop fifty sp s (isNext av) fuel s.ARTnumber 0 := by
  rw [CMDnextlast, if_neg hv.group, hv.canread, hv.readable]
  exact if_neg (not_or.mpr ⟨not_lt.mpr hv.inRange.1, not_lt.mpr hv.inRange.2⟩)

/-- From a group that begins with 0 there may be no way out. -/
theorem not_Moves (hv : Valid s) (hlow : s.ARTlow = 0)
    (hset : ¬ Settled fifty sp s (isNext av)) : ¬ Moves sp s av := by
  rintro ⟨out, ⟨fuel, hout⟩, hanswers, -⟩
  rw [CMDnextlast_eq hv] at hout
  have hmark : ∀ a, Mark sp s (isNext av) a → 50 < s.left (isNext av) a := by
    intro a ha
    refine not_le.mp fun hle => hset (.inr (.inr ⟨a, ha, fun missing hmissing => ?_⟩))
    exact decide_eq_false (by omega)
  have hall : ∀ a, s.InRange a → a = s.ARTnumber ∨ (sp.ARTopen a).isSome →
      50 < s.left (isNext av) a := by
    rintro a ha (rfl | hopen)
    · exact hmark _ (.inl rfl)
    · rcases lt_or_ge (s.left (isNext av) a) (s.left (isNext av) s.ARTnumber) with hlt | hge
      · exact hmark a (.inr ⟨(mem_ahead hv).mpr ⟨ha, hlt⟩, hopen⟩)
      · exact (hmark _ (.inl rfl)).trans_le hge
  obtain ⟨k, msgid, hid, rfl⟩ := loop_keeps_on hv.int hlow hall fuel s.ARTnumber 0 hv.inRange
    (fun _ => ⟨_, hv.inRange, .inl rfl, by omega⟩) out hout
  rcases hanswers with ⟨k', msgid', hk', -, heq⟩ | ⟨-, heq⟩
  · obtain ⟨hin, hsome⟩ := hk'.mem
    exact hset (.inr (.inl ⟨k', hin, hsome⟩))
  · have hreply := congrArg Prod.snd heq
    rw [noMore] at hreply
    split at hreply <;> cases hreply

theorem CMDnextlast_moves_iff (sp : Spool Token Art) (s : Session) (av : List UInt8)
    (hv : Valid s) :
    (Settled fifty sp s (isNext av) → Moves sp s av) ∧
      (Moves sp s av → Settled fifty sp s (isNext av) ∨
        (1 ≤ s.ARTlow ∧ isNext av = true ∧ s.ARThigh + 1 = 2 ^ 31)) := by
  constructor
  · intro hset
    obtain ⟨fuel, out, hout, hanswers⟩ := loop_answers hv hset
    have hplain : Settled (fun _ => false) sp s (isNext av) :=
      .inr (.inr ⟨s.ARTnumber, .inl rfl, fun _ _ => rfl⟩)
    obtain ⟨fuel', out', hout', hanswers'⟩ := loop_answers hv hplain
    rw [← hanswers.unique hanswers'] at hout'
    exact ⟨out, ⟨fuel, (CMDnextlast_eq hv fuel).trans hout⟩, hanswers, fuel', hout'⟩
  · intro hmoves
    refine or_iff_not_imp_left.mpr fun hset => ?_
    have hlow : s.ARTlow ≠ 0 := fun hlow => not_Moves hv hlow hset hmoves
    have hends : ¬ Ends s (isNext av) := fun hends => hset (.inl hends)
    rw [Ends] at hends
    have hint := hv.int
    refine ⟨by omega, ?_, ?_⟩
    · by_contra hlast
      exact hends ⟨by omega, fun hnext => absurd hnext hlast⟩
    · by_contra hroom
      exact hends ⟨by omega, fun _ => by omega⟩

end Command

/-- An overview without articles. -/
def noArticles : Spool Unit Unit where
  OVgetartinfo _ := none
  SMretrieve _ := none
  messageID _ := none
  zero := rfl

/-- A group without articles, between marks. -/
def emptyGroup (low high : ℕ) : Session where
  GRPcount := 1
  PERMcanread := true
  PERMcanauthenticate := false
  PERMgroupmadeinvalid := false
  ARTlow := low
  ARThigh := high
  ARTnumber := low

theorem emptyGroup_valid {low high : ℕ} (h : low ≤ high) (hint : high < 2 ^ 31) :
    Valid (emptyGroup low high) :=
  ⟨Nat.one_ne_zero, rfl, rfl, ⟨le_refl _, h⟩, hint⟩

/-- NEXT. -/
theorem CMDnextlast_moves_iff_of_ten :
    Moves noArticles (emptyGroup 1 10) [110, 101, 120, 116] :=
  (CMDnextlast_moves_iff noArticles (emptyGroup 1 10) [110, 101, 120, 116]
    (emptyGroup_valid (by decide) (by decide))).1 (.inl ⟨le_refl _, fun _ => by decide⟩)

/-- The 51 numbers after 0 are missed, and then the search finds nothing. -/
theorem next_in_an_empty_group : ¬ ∀ (sp : Spool Unit Unit) (s : Session) (av : List UInt8),
    Valid s → Moves sp s av := by
  intro h
  have hv := emptyGroup_valid (Nat.zero_le 51) (by decide)
  refine not_Moves hv rfl ?_ (h noArticles (emptyGroup 0 51) [110, 101, 120, 116] hv)
  rintro (hends | ⟨k, -, hserved⟩ | ⟨a, rfl | ⟨-, hopen⟩, hnear⟩)
  · exact absurd hends.1 (by decide)
  · cases hserved
  · exact absurd (hnear 51 (le_refl _)) (by decide)
  · cases hopen

end Inn.Nnrpd.Nextlast
