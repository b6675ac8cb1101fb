import Mathlib.Data.Nat.Count
import Inn.Innd.Complete
import Inn.Innd.Store

/-!
# Inn.Innd.Checks — the content checks of `ARTparse`

What the counters of a complete article should be is said by position; `Counts` says
what they are. The header loop never looks at the first octet of a header line other than
the first, and neither loop looks for a dot at the start of the article or of the body.

* `Parsed.counts` — the counters in the course of the parsing;
* `Parsed.checked` — the counters of a complete article;
* `content_exact_iff` — when they are what they should be.
-/

namespace Inn.Innd

open ChannelState StateTransition

/-! ## What should be counted -/

/-- A CR not followed by LF. -/
def BareCR (text : List UInt8) (j : ℕ) : Prop := text[j]? = some 13 ∧ text[j + 1]? ≠ some 10

/-- An LF not preceded by CR. -/
def BareLF (text : List UInt8) (j : ℕ) : Prop :=
  text[j]? = some 10 ∧ (j = 0 ∨ text[j - 1]? ≠ some 13)

/-- A line other than the first one begins. -/
def LineStart (text : List UInt8) (j : ℕ) : Prop := 2 ≤ j ∧ OctetsAt text (j - 2) CRLF

/-- A line begins with a dot. -/
def DotLine (text : List UInt8) (j : ℕ) : Prop := text[j]? = some 46 ∧ (j = 0 ∨ LineStart text j)

/-- A line of a body at `body` ends. -/
def LineEnd (text : List UInt8) (body j : ℕ) : Prop := body ≤ j ∧ OctetsAt text j CRLF

instance : DecidablePred (BareCR text) := fun _ => inferInstanceAs (Decidable (_ ∧ _))
instance : DecidablePred (BareLF text) := fun _ => inferInstanceAs (Decidable (_ ∧ _))
instance : DecidablePred (LineStart text) := fun _ => inferInstanceAs (Decidable (_ ∧ _))
instance : DecidablePred (DotLine text) := fun _ => inferInstanceAs (Decidable (_ ∧ _))
instance : DecidablePred (LineEnd text body) := fun _ => inferInstanceAs (Decidable (_ ∧ _))
instance : DecidablePred (Skipped text body) := fun _ => inferInstanceAs (Decidable (_ ∧ _ ∧ _))

/-- Where the body of an article begins, or the end of one without a body. -/
def bodyOffset (text : List UInt8) : ℕ := text.length - ((articleBody text).getD []).length

/-- The number of CR octets not followed by LF. -/
def bareCRs (text : List UInt8) : ℕ := Nat.count (BareCR text) text.length

/-- The number of LF octets not preceded by CR. -/
def bareLFs (text : List UInt8) : ℕ := Nat.count (BareLF text) text.length

/-- The number of body lines: the line ends in the body but for that of the terminator. -/
def bodyLines (text : List UInt8) : ℕ := Nat.count (LineEnd text (bodyOffset text)) text.length - 1

/-- The number of lines, other than the terminator, that begin with a dot. -/
def dotLines (text : List UInt8) : ℕ := Nat.count (DotLine text) (text.length - 3)

/-! ## What is counted -/

/-- A line that the loops see to begin with a dot. -/
def StuffedLine (text : List UInt8) (body j : ℕ) : Prop :=
  text[j]? = some 46 ∧ LineStart text j ∧ j ≠ body

instance : DecidablePred (StuffedLine text body) := fun _ => inferInstanceAs (Decidable (_ ∧ _ ∧ _))

/-- The counters of bare CRs and LFs, for a body at `body`. -/
structure Tally (text : List UInt8) (body : ℕ) (c : CHANNEL) : Prop where
  CRwithoutLF : c.Data.CRwithoutLF =
    Nat.count (fun j => BareCR text j ∧ ¬ Skipped text body j) c.Next
  LFwithoutCR : c.Data.LFwithoutCR =
    Nat.count (fun j => BareLF text j ∧ ¬ Skipped text body j) c.Next

/-- What the loops have counted. -/
inductive Counts (text : List UInt8) (c : CHANNEL) : Prop where
  | header : c.State = CSgetheader → Tally text text.length c →
      c.Data.DotStuffedLines = Nat.count (StuffedLine text 0) c.Next → c.Data.Lines = 0 →
      Counts text c
  | body : c.State = CSgetbody → Tally text c.Data.Body c →
      c.Data.DotStuffedLines = Nat.count (StuffedLine text c.Data.Body) (c.Next + 1) →
      c.Data.Lines = Nat.count (LineEnd text c.Data.Body) c.Next → Counts text c
  | gotBody : c.State = CSgotarticle → 2 ≤ c.Data.Body → c.Data.Body + 3 ≤ c.Next →
      Tally text c.Data.Body c →
      c.Data.DotStuffedLines = Nat.count (StuffedLine text c.Data.Body) (c.Next - 3) →
      c.Data.Lines + 1 = Nat.count (LineEnd text c.Data.Body) c.Next → Counts text c
  | noBody : c.State = CSgotarticle → c.Data.Body = 0 → Tally text text.length c →
      c.Data.DotStuffedLines = Nat.count (StuffedLine text 0) (c.Next - 3) → c.Data.Lines = 0 →
      Counts text c
  | noArticle : c.State = CSnoarticle → Counts text c

section Counting

variable {conf : Innconf} {text : List UInt8} {c c' : CHANNEL} {b b' n m : ℕ}
  {p q : ℕ → Prop} [DecidablePred p] [DecidablePred q]

/-- Positions without a hit. -/
theorem count_extend (hnm : n ≤ m) (h : ∀ j, n ≤ j → j < m → ¬ p j) :
    Nat.count p m = Nat.count p n := by
  obtain ⟨k, rfl⟩ := Nat.exists_eq_add_of_le hnm
  have hzero : Nat.count (fun j => p (n + j)) k = 0 :=
    Nat.count_iff_forall_not.mpr fun j hj => h (n + j) (Nat.le_add_right _ _) (by omega)
  rw [Nat.count_add, hzero, Nat.add_zero]

theorem count_congr (h : ∀ j < n, (p j ↔ q j)) : Nat.count p n = Nat.count q n :=
  le_antisymm (Nat.count_mono_left fun j hj => (h j hj).mp)
    (Nat.count_mono_left fun j hj => (h j hj).mpr)

/-- A count that leaves nothing out. -/
theorem count_eq_iff (hqp : ∀ j, q j → p j) :
    Nat.count q n = Nat.count p n ↔ ∀ j < n, p j → q j := by
  induction n with
  | zero => simp
  | succ n ih =>
    have hle : Nat.count q n ≤ Nat.count p n := Nat.count_mono_left fun j _ => hqp j
    rw [Nat.count_succ, Nat.count_succ]
    constructor
    · intro h j hj hp
      by_cases hn : p n ∧ ¬ q n
      · rw [if_pos hn.1, if_neg hn.2] at h
        omega
      · have hsame : (if q n then 1 else 0) = if p n then 1 else 0 := by
          by_cases hq : q n
          · rw [if_pos hq, if_pos (hqp n hq)]
          · rw [if_neg hq, if_neg fun hp => hn ⟨hp, hq⟩]
        rw [hsame, Nat.add_right_cancel_iff] at h
        rcases Nat.lt_succ_iff_lt_or_eq.mp hj with hlt | rfl
        · exact ih.mp h j hlt hp
        · by_contra hq
          exact hn ⟨hp, hq⟩
    · intro h
      have hsame : (if q n then 1 else 0) = if p n then 1 else 0 := by
        by_cases hp : p n
        · rw [if_pos hp, if_pos (h n (Nat.lt_succ_self n) hp)]
        · rw [if_neg hp, if_neg fun hq => hp (hqp n hq)]
      rw [hsame, ih.mpr fun j hj => h j (by omega)]

/-- The two octets of a line end are neither bare. -/
theorem not_bare_of_crlf {j : ℕ} (h : OctetsAt text n CRLF) (hge : n ≤ j) (hlt : j < n + 2) :
    ¬ BareCR text j ∧ ¬ BareLF text j := by
  obtain ⟨hcr, hlf⟩ := octetsAt_crlf.mp h
  rcases (by omega : j = n ∨ j = n + 1) with rfl | rfl
  · refine ⟨fun hbare => hbare.2 hlf, fun hbare => ?_⟩
    cases hcr.symm.trans hbare.1
  · refine ⟨fun hbare => ?_, fun hbare => ?_⟩
    · cases hlf.symm.trans hbare.1
    · rcases hbare.2 with hzero | hne
      · omega
      · exact hne hcr

/-- A dot is neither. -/
theorem not_bare_of_dot {j : ℕ} (h : text[j]? = some 46) : ¬ BareCR text j ∧ ¬ BareLF text j := by
  constructor
  · intro hbare
    cases h.symm.trans hbare.1
  · intro hbare
    cases h.symm.trans hbare.1

theorem not_bare_of_terminator {j : ℕ} (h : OctetsAt text n TERMINATOR) (hge : n ≤ j)
    (hlt : j < n + 5) : ¬ BareCR text j ∧ ¬ BareLF text j := by
  obtain ⟨hcr, hlf, hdotted⟩ := octetsAt_terminator.mp h
  obtain ⟨hdot, hcrlf⟩ := octetsAt_dotcrlf.mp hdotted
  rcases (by omega : j < n + 2 ∨ j = n + 2 ∨ n + 3 ≤ j) with hj | rfl | hj
  · exact not_bare_of_crlf (octetsAt_crlf.mpr ⟨hcr, hlf⟩) hge hj
  · exact not_bare_of_dot hdot
  · exact not_bare_of_crlf (octetsAt_crlf.mpr hcrlf) hj (by omega)

/-- Rounds that count neither. -/
theorem Tally.extend (h : Tally text b c) (hcr : c'.Data.CRwithoutLF = c.Data.CRwithoutLF)
    (hlf : c'.Data.LFwithoutCR = c.Data.LFwithoutCR) (hnext : c.Next ≤ c'.Next)
    (hsame : ∀ j < c.Next, (Skipped text b' j ↔ Skipped text b j))
    (hquiet : ∀ j, c.Next ≤ j → j < c'.Next →
      (¬ BareCR text j ∧ ¬ BareLF text j) ∨ Skipped text b' j) : Tally text b' c' where
  CRwithoutLF := by
    rw [hcr, h.CRwithoutLF, count_extend hnext]
    · exact count_congr fun j hj => and_congr_right fun _ => not_congr (hsame j hj).symm
    · rintro j hge hlt ⟨hbare, hskip⟩
      exact (hquiet j hge hlt).elim (fun hq => hq.1 hbare) hskip
  LFwithoutCR := by
    rw [hlf, h.LFwithoutCR, count_extend hnext]
    · exact count_congr fun j hj => and_congr_right fun _ => not_congr (hsame j hj).symm
    · rintro j hge hlt ⟨hbare, hskip⟩
      exact (hquiet j hge hlt).elim (fun hq => hq.2 hbare) hskip

theorem countOctet_counters {a : UInt8} {message : String} :
    (countOctet c a message).Data.CRwithoutLF = c.Data.CRwithoutLF ∧
      (countOctet c a message).Data.LFwithoutCR = c.Data.LFwithoutCR + (if a = 10 then 1 else 0) ∧
      (countOctet c a message).Data.DotStuffedLines = c.Data.DotStuffedLines ∧
      (countOctet c a message).Data.Lines = c.Data.Lines := by
  unfold countOctet
  split <;> · simp only []; split <;> exact ⟨rfl, rfl, rfl, rfl⟩

/-- A round at an octet that is no CR. -/
theorem Tally.octet (h : Tally text b c) (hholds : Holds text c) (hlt : c.Next < c.used)
    (hne : c.char c.Next ≠ 13) (hapart : 0 < c.Next → ¬ OctetsAt text (c.Next - 1) CRLF)
    (hskip : ¬ Skipped text b c.Next) {message : String} :
    Tally text b { countOctet c (c.char c.Next) message with Next := c.Next + 1 } := by
  obtain ⟨hcr, hlf, _, _⟩ := countOctet_counters (c := c) (a := c.char c.Next)
  rw [hholds.used] at hlt
  have hchar := hholds.getElem?_eq hlt
  constructor
  · show (countOctet c (c.char c.Next) message).Data.CRwithoutLF = Nat.count _ (c.Next + 1)
    rw [hcr, h.CRwithoutLF, Nat.count_succ, if_neg, Nat.add_zero]
    rintro ⟨hbare, _⟩
    exact hne (hholds.char_eq hbare.1)
  · show (countOctet c (c.char c.Next) message).Data.LFwithoutCR = Nat.count _ (c.Next + 1)
    have hiff : (BareLF text c.Next ∧ ¬ Skipped text b c.Next) ↔ c.char c.Next = 10 := by
      constructor
      · rintro ⟨hbare, _⟩
        exact hholds.char_eq hbare.1
      · intro hten
        rw [hten] at hchar
        refine ⟨⟨hchar, ?_⟩, hskip⟩
        rcases Nat.eq_zero_or_pos c.Next with hzero | hpos
        · exact .inl hzero
        · refine .inr fun hcr => hapart hpos (octetsAt_crlf.mpr ⟨hcr, ?_⟩)
          rw [Nat.sub_add_cancel hpos]
          exact hchar
    rw [hlf, h.LFwithoutCR, Nat.count_succ]
    by_cases hten : c.char c.Next = 10
    · rw [if_pos hten, if_pos (hiff.mpr hten)]
    · rw [if_neg hten, if_neg (mt hiff.mp hten)]

/-- A round at a bare CR. -/
theorem Tally.bareCR (h : Tally text b c) (hholds : Holds text c) {origin : ℕ}
    (hat : AtCR c origin) (hlf : c.char (c.Next + 1) ≠ 10) (hskip : ¬ Skipped text b c.Next) :
    Tally text b { c.countCR with Next := c.Next + 1 } := by
  have hroom := hat.room
  rw [hholds.used] at hroom
  have hcr := hholds.getElem?_eq (i := c.Next) (by omega)
  rw [hat.cr] at hcr
  constructor
  · show c.Data.CRwithoutLF + 1 = Nat.count _ (c.Next + 1)
    rw [h.CRwithoutLF, Nat.count_succ, if_pos]
    exact ⟨⟨hcr, fun hlf' => hlf (hholds.char_eq hlf')⟩, hskip⟩
  · show c.Data.LFwithoutCR = Nat.count _ (c.Next + 1)
    rw [h.LFwithoutCR, Nat.count_succ, if_neg, Nat.add_zero]
    rintro ⟨hbare, _⟩
    cases hcr.symm.trans hbare.1

theorem stuffedLine_congr {j : ℕ} (hj : j ≠ b) : StuffedLine text b j ↔ StuffedLine text 0 j := by
  refine and_congr_right fun _ => and_congr_right fun hline => ?_
  have := hline.1
  exact iff_of_true hj (by omega)

theorem Counts.headerRound {fields : List (List UInt8)} (hholds : Holds text c)
    (hs : c.State = CSgetheader) (hbody : c.Data.Body = 0)
    (hin : InHeader conf text fields c.Next c) (ht : Tally text text.length c)
    (hdot : c.Data.DotStuffedLines = Nat.count (StuffedLine text 0) c.Next)
    (hlines : c.Data.Lines = 0) (hround : HeaderRound conf c c') : Counts text c' := by
  have hused := hholds.used
  have hskip : ¬ Skipped text text.length c.Next := fun h => hin.inside h.1 h.2.2
  -- no line starts at `Next`, or right after it
  have hnone₀ : ¬ StuffedLine text 0 c.Next := fun h => hin.inside h.2.1.1 h.2.1.2
  have hnone₁ : ¬ StuffedLine text 0 (c.Next + 1) := by
    intro h
    have h2 := h.2.1.1
    exact hin.apart (by omega) h.2.1.2
  cases hround with
  | octet hlt hne =>
    obtain ⟨_, _, hdot', hlines'⟩ := countOctet_counters (c := c) (a := c.char c.Next)
    refine .header (countOctet_state.trans hs) (ht.octet hholds hlt hne hin.apart hskip) ?_
      (hlines'.trans hlines)
    show (countOctet c (c.char c.Next) "Nul character in header").Data.DotStuffedLines =
      Nat.count (StuffedLine text 0) (c.Next + 1)
    rw [hdot', hdot, Nat.count_succ_eq_count_iff.mpr hnone₀]
  | emptyArticle _ _ _ => exact .noArticle rfl
  | emptyHeaders _ _ _ => exact .noArticle rfl
  | noBody hat hterm _ =>
    rw [hholds.memcmp_iff] at hterm
    refine .noBody rfl hbody (ht.extend rfl rfl (Nat.le_add_right _ _) (fun _ _ => Iff.rfl) ?_) ?_
      hlines
    · exact fun j hge hlt => .inl (not_bare_of_terminator hterm hge hlt)
    · show c.Data.DotStuffedLines = Nat.count _ (c.Next + 5 - 3)
      rw [hdot, count_extend (n := c.Next) (m := c.Next + 5 - 3) (by omega)]
      intro j hge hlt
      rcases (by omega : j = c.Next ∨ j = c.Next + 1) with rfl | rfl
      · exact hnone₀
      · exact hnone₁
  | noHeaders hat _ hlf hstart =>
    have hroom := hat.room
    have hcrlf : OctetsAt text c.Next CRLF := octetsAt_crlf.mpr
      ⟨by rw [hholds.getElem?_eq (by omega), hat.cr], by rw [hholds.getElem?_eq (by omega), hlf]⟩
    rw [hholds.Start] at hstart
    refine .body rfl (ht.extend rfl rfl (Nat.le_add_right _ _) ?_ ?_) ?_ ?_
    · intro j hj
      omega
    · exact fun j hge hlt => .inl (not_bare_of_crlf hcrlf hge hlt)
    · show c.Data.DotStuffedLines = Nat.count (StuffedLine text (c.Next + 2)) (c.Next + 2 + 1)
      rw [hdot, hstart, Nat.count_zero, eq_comm, Nat.count_iff_forall_not]
      rintro j hj ⟨_, ⟨h2, _⟩, hne⟩
      omega
    · show c.Data.Lines = Nat.count (LineEnd text (c.Next + 2)) (c.Next + 2)
      rw [hlines, eq_comm, Nat.count_iff_forall_not]
      rintro j hj ⟨hge, _⟩
      omega
  | lastLine hat _ hlf hstart hcr' hlf' =>
    have hroom := hat.room
    have hcrlf : OctetsAt text c.Next CRLF := octetsAt_crlf.mpr
      ⟨by rw [hholds.getElem?_eq (by omega), hat.cr], by rw [hholds.getElem?_eq (by omega), hlf]⟩
    have hcrlf' : OctetsAt text (c.Next + 2) CRLF := octetsAt_crlf.mpr
      ⟨by rw [hholds.getElem?_eq (by omega), hcr'], by rw [hholds.getElem?_eq (by omega), hlf']⟩
    have hf : Framed c (checkedAt conf c (c.Next + 2)) := checkedAt_framed
    rw [headerLine_eq]
    refine .body rfl (ht.extend hf.CRwithoutLF hf.LFwithoutCR (Nat.le_add_right _ _) ?_ ?_) ?_ ?_
    · exact fun j hj => skipped_congr (by omega) (by show j < c.Next + 4; omega)
    · intro j hge hlt
      replace hlt : j < c.Next + 4 := hlt
      rcases Nat.lt_or_ge j (c.Next + 2) with hj | hj
      · exact .inl (not_bare_of_crlf hcrlf hge hj)
      · exact .inl (not_bare_of_crlf hcrlf' hj (by omega))
    · show (if c.char (c.Next + 2) = 46 then _ else _) =
        Nat.count (StuffedLine text (c.Next + 4)) (c.Next + 4 + 1)
      rw [if_neg (by rw [hcr']; decide), hdot,
        count_extend (p := StuffedLine text (c.Next + 4)) (n := c.Next) (by omega)]
      · exact count_congr fun j hj => (stuffedLine_congr (by omega)).symm
      · intro j hge hlt hstuffed
        rcases (by omega : j = c.Next ∨ j = c.Next + 1 ∨ j = c.Next + 2 ∨ j = c.Next + 3 ∨
          j = c.Next + 4) with rfl | rfl | rfl | rfl | rfl
        · exact hin.inside hstuffed.2.1.1 hstuffed.2.1.2
        · exact hnone₁ ⟨hstuffed.1, hstuffed.2.1, Nat.succ_ne_zero _⟩
        · cases (octetsAt_crlf.mp hcrlf').1.symm.trans hstuffed.1
        · cases (octetsAt_crlf.mp hcrlf').2.symm.trans hstuffed.1
        · exact hstuffed.2.2 rfl
    · show (checkedAt conf c (c.Next + 2)).Data.Lines = Nat.count (LineEnd text (c.Next + 4)) _
      rw [hf.Lines, hlines, eq_comm, Nat.count_iff_forall_not]
      rintro j hj ⟨hge, _⟩
      replace hj : j < c.Next + 4 := hj
      omega
  | line hat _ hlf hstart hne =>
    have hroom := hat.room
    have hcrlf : OctetsAt text c.Next CRLF := octetsAt_crlf.mpr
      ⟨by rw [hholds.getElem?_eq (by omega), hat.cr], by rw [hholds.getElem?_eq (by omega), hlf]⟩
    have hf : Framed c (checkedAt conf c (c.Next + 2)) := checkedAt_framed
    have hline : LineStart text (c.Next + 2) := ⟨by omega, hcrlf⟩
    rw [headerLine_eq]
    refine .header (hf.State.trans hs)
      (ht.extend hf.CRwithoutLF hf.LFwithoutCR (Nat.le_add_right _ _) (fun _ _ => Iff.rfl) ?_) ?_
      (hf.Lines.trans hlines)
    · intro j hge hlt
      replace hlt : j < c.Next + 3 := hlt
      rcases Nat.lt_or_ge j (c.Next + 2) with hj | hj
      · exact .inl (not_bare_of_crlf hcrlf hge hj)
      · -- the octet that is not looked at
        rw [show j = c.Next + 2 by omega]
        exact .inr ⟨by omega, by omega, hline.2⟩
    · show (if c.char (c.Next + 2) = 46 then c.Data.DotStuffedLines + 1
        else c.Data.DotStuffedLines) = Nat.count (StuffedLine text 0) (c.Next + 3)
      have hiff : StuffedLine text 0 (c.Next + 2) ↔ c.char (c.Next + 2) = 46 := by
        constructor
        · exact fun h => hholds.char_eq h.1
        · intro h46
          refine ⟨?_, hline, by omega⟩
          rw [hholds.getElem?_eq (by omega), h46]
      rw [Nat.count_succ, Nat.count_succ, Nat.count_succ, if_neg hnone₀, if_neg hnone₁, ← hdot]
      by_cases h46 : c.char (c.Next + 2) = 46
      · rw [if_pos h46, if_pos (hiff.mpr h46)]
      · rw [if_neg h46, if_neg (mt hiff.mp h46)]
        rfl
  | bareCR hat hlf =>
    have hroom := hat.room
    refine .header hs (ht.bareCR hholds hat hlf hskip) ?_ hlines
    show c.Data.DotStuffedLines = Nat.count (StuffedLine text 0) (c.Next + 1)
    rw [hdot, Nat.count_succ_eq_count_iff.mpr hnone₀]

/-- No line ends at an octet that is no CR. -/
theorem not_lineEnd {x : UInt8} {j : ℕ} (h : text[j]? = some x) (hne : x ≠ 13) :
    ¬ LineEnd text b j := by
  rintro ⟨_, hcrlf⟩
  have := (octetsAt_crlf.mp hcrlf).1
  rw [h] at this
  exact hne (Option.some.inj this)

/-- A line end in the body, with its two octets. -/
theorem count_lineEnd (h : OctetsAt text n CRLF) (hb : b ≤ n) :
    Nat.count (LineEnd text b) (n + 2) = Nat.count (LineEnd text b) n + 1 := by
  have hlf := not_lineEnd (b := b) (octetsAt_crlf.mp h).2 (by decide)
  rw [Nat.count_succ, Nat.count_succ, if_pos ⟨hb, h⟩, if_neg hlf]

theorem Counts.bodyRound {fields : List (List UInt8)} (hholds : Holds text c)
    (hs : c.State = CSgetbody) (hin : InBody conf text fields c) (ht : Tally text c.Data.Body c)
    (hdot : c.Data.DotStuffedLines = Nat.count (StuffedLine text c.Data.Body) (c.Next + 1))
    (hlines : c.Data.Lines = Nat.count (LineEnd text c.Data.Body) c.Next)
    (hround : BodyRound c c') : Counts text c' := by
  have hused := hholds.used
  have hpos := hin.pos
  have hle := hin.le
  have hgot : gotState c = CSgotarticle := gotState_not_receiving hs
  have hskip : ¬ Skipped text c.Data.Body c.Next := fun h => by
    have := h.2.1
    omega
  have hnone : ¬ StuffedLine text c.Data.Body (c.Next + 1) := fun h => hin.apart h.2.1.2
  -- the octets of a line end
  have hline : c.Next + 5 ≤ c.used → c.char c.Next = 13 → c.char (c.Next + 1) = 10 →
      OctetsAt text c.Next CRLF := by
    intro hroom hcr hlf
    rw [octetsAt_crlf, hholds.getElem?_eq (by omega), hholds.getElem?_eq (by omega), hcr, hlf]
    exact ⟨rfl, rfl⟩
  cases hround with
  | octet hlt hne =>
    have hchar := hholds.getElem?_eq (i := c.Next) (by omega)
    obtain ⟨_, _, hdot', hlines'⟩ := countOctet_counters (c := c) (a := c.char c.Next)
    have hbody : (countOctet c (c.char c.Next) "Nul character in body").Data.Body = c.Data.Body :=
      countOctet_body
    refine .body (countOctet_state.trans hs) ?_ ?_ ?_
    · rw [hbody]
      exact ht.octet hholds hlt hne (fun _ => hin.apart) hskip
    · rw [hbody]
      refine (hdot'.trans hdot).trans ?_
      show _ = Nat.count _ (c.Next + 1 + 1)
      rw [Nat.count_succ_eq_count_iff.mpr hnone]
    · rw [hbody]
      refine (hlines'.trans hlines).trans ?_
      show _ = Nat.count _ (c.Next + 1)
      rw [Nat.count_succ_eq_count_iff.mpr (not_lineEnd hchar hne)]
  | emptyBody hlt hcr hd =>
    obtain ⟨hnext, hcmp⟩ := hd
    rw [hholds.memcmp_iff, show c.Next - 1 = c.Data.Body by omega] at hcmp
    obtain ⟨_, hcrlf⟩ := octetsAt_dotcrlf.mp hcmp
    replace hcrlf : OctetsAt text c.Next CRLF := by
      rw [octetsAt_crlf, hnext]
      exact hcrlf
    refine .gotBody hgot hpos (by show c.Data.Body + 3 ≤ c.Next + 2; omega)
      (ht.extend rfl rfl (by simp) (fun _ _ => Iff.rfl) fun j hge hlt =>
        .inl (not_bare_of_crlf hcrlf hge hlt)) ?_ ?_
    · show c.Data.DotStuffedLines = Nat.count (StuffedLine text c.Data.Body) (c.Next + 2 - 3)
      rw [hdot, count_extend (n := c.Next + 2 - 3) (by omega)]
      intro j hge hlt hstuffed
      rcases (by omega : j = c.Data.Body ∨ j = c.Next) with rfl | rfl
      · exact hstuffed.2.2 rfl
      · cases (octetsAt_crlf.mp hcrlf).1.symm.trans hstuffed.1
    · show c.Data.Lines + 1 = Nat.count (LineEnd text c.Data.Body) (c.Next + 2)
      rw [count_lineEnd hcrlf hle, hlines]
  | terminator hat hterm =>
    rw [hholds.memcmp_iff] at hterm
    obtain ⟨hcr, hlf, hdotted⟩ := octetsAt_terminator.mp hterm
    obtain ⟨hdot₂, hcrlf⟩ := octetsAt_dotcrlf.mp hdotted
    refine .gotBody hgot hpos (by show c.Data.Body + 3 ≤ c.Next + 5; omega)
      (ht.extend rfl rfl (by simp) (fun _ _ => Iff.rfl) fun j hge hlt =>
        .inl (not_bare_of_terminator hterm hge hlt)) ?_ ?_
    · show c.Data.DotStuffedLines = Nat.count (StuffedLine text c.Data.Body) (c.Next + 1 + 1)
      rw [hdot, Nat.count_succ_eq_count_iff.mpr hnone]
    · show c.Data.Lines + 1 + 1 = Nat.count (LineEnd text c.Data.Body) (c.Next + 2 + 1 + 2)
      rw [count_lineEnd (octetsAt_crlf.mpr hcrlf) (by omega), Nat.count_succ,
        if_neg (not_lineEnd hdot₂ (by decide)), count_lineEnd (octetsAt_crlf.mpr ⟨hcr, hlf⟩) hle,
        hlines]
  | stuffedLine hat _ hlf h46 =>
    have hroom := hat.room
    have hcrlf := hline hroom hat.cr hlf
    refine .body hs (ht.extend rfl rfl (by simp)
      (fun _ _ => Iff.rfl) fun j hge hlt => .inl (not_bare_of_crlf hcrlf hge hlt)) ?_ ?_
    · show c.Data.DotStuffedLines + 1 = Nat.count (StuffedLine text c.Data.Body) (c.Next + 1 + 1 + 1)
      have hstuffed : StuffedLine text c.Data.Body (c.Next + 1 + 1) :=
        ⟨by rw [hholds.getElem?_eq (by omega), h46], ⟨by omega, hcrlf⟩, by omega⟩
      rw [Nat.count_succ, if_pos hstuffed, Nat.count_succ, if_neg hnone, ← hdot]
    · show c.Data.Lines + 1 = Nat.count (LineEnd text c.Data.Body) (c.Next + 2)
      rw [count_lineEnd hcrlf hle, hlines]
  | line hat _ hlf h46 =>
    have hroom := hat.room
    have hcrlf := hline hroom hat.cr hlf
    refine .body hs (ht.extend rfl rfl (by simp)
      (fun _ _ => Iff.rfl) fun j hge hlt => .inl (not_bare_of_crlf hcrlf hge hlt)) ?_ ?_
    · show c.Data.DotStuffedLines = Nat.count (StuffedLine text c.Data.Body) (c.Next + 1 + 1 + 1)
      have hplain : ¬ StuffedLine text c.Data.Body (c.Next + 1 + 1) :=
        fun h => h46 (hholds.char_eq h.1)
      rw [Nat.count_succ, if_neg hplain, Nat.count_succ, if_neg hnone, ← hdot]
      rfl
    · show c.Data.Lines + 1 = Nat.count (LineEnd text c.Data.Body) (c.Next + 2)
      rw [count_lineEnd hcrlf hle, hlines]
  | bareCR hat hlf =>
    have hroom := hat.room
    refine .body hs (ht.bareCR hholds hat hlf hskip) ?_ ?_
    · show c.Data.DotStuffedLines = Nat.count (StuffedLine text c.Data.Body) (c.Next + 1 + 1)
      rw [hdot, Nat.count_succ_eq_count_iff.mpr hnone]
    · show c.Data.Lines = Nat.count (LineEnd text c.Data.Body) (c.Next + 1)
      rw [Nat.count_succ, if_neg, hlines, Nat.add_zero]
      exact fun h => hlf (hholds.char_eq (octetsAt_crlf.mp h.2).2)

/-- Every round keeps the counts. -/
theorem counts_step (hpos : Position text c) (hprog : Progress conf text c)
    (hover : ¬ c.Overlong) (hstep : parseStep conf c = some c') (h : Counts text c) :
    Counts text c' := by
  rcases parseStep_round hstep with ⟨hs, hround⟩ | ⟨hs | hs, hround⟩
  · cases hprog with
    | header fields _ hin _ =>
      cases h with
      | header _ ht hdot hlines =>
        exact Counts.headerRound hpos.holds hs (hpos.header hs).1 hin ht hdot hlines hround
      | body hs' | gotBody hs' | noBody hs' | noArticle hs' => cases hs.symm.trans hs'
    | body fields hs' => rcases hs' with hs' | hs' <;> cases hs.symm.trans hs'
    | noBody fields n hs' => cases hs.symm.trans hs'
    | noArticle fields hs' => cases hs.symm.trans hs'
  · cases hprog with
    | header fields hs' => cases hs.symm.trans hs'
    | body fields _ hin _ =>
      cases h with
      | body _ ht hdot hlines =>
        exact Counts.bodyRound hpos.holds hs hin ht hdot hlines hround
      | header hs' | gotBody hs' | noBody hs' | noArticle hs' => cases hs.symm.trans hs'
    | noBody fields n hs' => cases hs.symm.trans hs'
    | noArticle fields hs' => cases hs.symm.trans hs'
  · exact absurd (.inl hs) hover

theorem counts_article {sendid : ℕ} : Counts text (article sendid text) :=
  .header rfl ⟨rfl, rfl⟩ rfl rfl

theorem Parsed.counts {sendid : ℕ} (h : Parsed conf sendid text c) : Counts text c := by
  have hinit : (Position text (article sendid text) ∧ ¬ (article sendid text).Overlong) ∧
      Progress conf text (article sendid text) ∧ Counts text (article sendid text) :=
    ⟨position_article, progress_article, counts_article⟩
  refine (reaches_invariant (fun c => (Position text c ∧ ¬ c.Overlong) ∧
    Progress conf text c ∧ Counts text c) h.reaches ?_ hinit).2.2
  rintro a b hab ⟨⟨hpos, hover⟩, hprog, hcounts⟩
  exact ⟨⟨position_step hab hover hpos, fun hb => hover ((parseStep_overlong hab).mp hb)⟩,
    progress_step hpos hover hab hprog, counts_step hpos hprog hover hab hcounts⟩

/-! ## Complete articles -/

/-- What the parser knows about a complete article. -/
structure Checked (text : List UInt8) (c : CHANNEL) : Prop where
  tally : Tally text (bodyOffset text) c
  DotStuffedLines : c.Data.DotStuffedLines =
    Nat.count (StuffedLine text (bodyOffset text)) (text.length - 3)
  Lines : c.Data.Lines = bodyLines text
  Error : c.Error ≠ [] ↔ headerFields text = [] ∨ Faulty (headerFields text) ∨
    articleBody text = none ∨ SeesNul text (bodyOffset text) text.length
  long : 5 ≤ text.length
  bodyStart : bodyOffset text < text.length →
    LineStart text (bodyOffset text) ∧ bodyOffset text + 3 ≤ text.length

/-- An article that ends in the header has no body. -/
theorem InHeader.noBody {fields : List (List UInt8)} (h : InHeader conf text fields n c)
    (hpos : 0 < n) (hterm : OctetsAt text n TERMINATOR) (hlen : n + 5 = text.length) :
    articleBody text = none := by
  obtain ⟨hcr, hlf, hdotted⟩ := octetsAt_terminator.mp hterm
  have hrest : text.drop (n + 2) = DOTCRLF := by
    rw [← hdotted, List.take_of_length_le]
    rw [List.length_drop, DOTCRLF, List.length_cons, List.length_cons, List.length_singleton]
    omega
  have hwhite : ISWHITE (text.getD (n + 2) 0) = false := by
    rw [List.getD_eq_getElem?_getD, (octetsAt_dotcrlf.mp hdotted).1]
    rfl
  rw [(h.ends hpos (octetsAt_crlf.mpr ⟨hcr, hlf⟩) hwhite).2, hrest]
  decide

theorem Parsed.checked {sendid : ℕ} (h : Parsed conf sendid text c) (hs : c.State = CSgotarticle)
    (hnext : c.Next = text.length) : Checked text c := by
  cases h.progress with
  | header fields hs' => cases hs.symm.trans hs'
  | noArticle fields hs' => cases hs.symm.trans hs'
  | body fields _ hin herr =>
    have hoffset : bodyOffset text = c.Data.Body := by
      have hle := hin.le
      rw [bodyOffset, hin.body, Option.getD_some, List.length_drop]
      omega
    cases h.counts with
    | header hs' | body hs' | noArticle hs' => cases hs.symm.trans hs'
    | noBody _ hzero =>
      have := hin.pos
      omega
    | gotBody _ hpos hlong ht hdot hlines =>
      rw [hnext] at hdot hlines herr hlong
      refine ⟨by rw [hoffset]; exact ht, by rw [hoffset]; exact hdot, ?_, ?_, by omega, ?_⟩
      · rw [bodyLines, hoffset, ← hlines, Nat.add_sub_cancel]
      · rw [hin.split, hin.body, hoffset, herr]
        simp
      · rw [hoffset]
        intro _
        have hdone : ¬ c.Receiving := by
          rintro (h | h | h) <;> cases hs.symm.trans h
        rcases (h.position.done hdone).2 with hzero | hcrlf
        · omega
        · exact ⟨hcrlf, hlong⟩
  | noBody fields n _ hzero hin hterm hpos hn herr =>
    have hbody : articleBody text = none :=
      hin.noBody (Nat.pos_of_ne_zero hpos) hterm (by omega)
    have hoffset : bodyOffset text = text.length := by
      rw [bodyOffset, hbody]
      rfl
    cases h.counts with
    | header hs' | body hs' | noArticle hs' => cases hs.symm.trans hs'
    | gotBody _ hpos' => omega
    | noBody _ _ ht hdot hlines =>
      rw [hnext] at hdot
      refine ⟨by rw [hoffset]; exact ht, ?_, ?_, ?_, by omega, ?_⟩
      · rw [hoffset, hdot]
        exact count_congr fun j hj => (stuffedLine_congr (by omega)).symm
      · rw [hlines, bodyLines, hoffset, Nat.count_iff_forall_not.mpr]
        rintro j hj ⟨hge, _⟩
        omega
      · exact iff_of_true herr (.inr (.inr (.inl hbody)))
      · rw [hoffset]
        exact fun hlt => absurd hlt (lt_irrefl _)

end Counting

/-! ## When the checks are exact -/

/-- The content checks are exact, and so is the size of what is stored. -/
structure ContentExact (conf : Innconf) (cp : CHANNEL) : Prop where
  nul : 0 ∈ cp.consumed → cp.Error ≠ []
  CRwithoutLF : cp.Data.CRwithoutLF = bareCRs cp.consumed
  LFwithoutCR : cp.Data.LFwithoutCR = bareLFs cp.consumed
  Lines : cp.Data.Lines = bodyLines cp.consumed
  DotStuffedLines : cp.Data.DotStuffedLines = dotLines cp.consumed
  BytesValue : ∀ env edits cleaned, (ARTclean env cp).2 = .ok cleaned →
    (ARTstore conf edits (ARTclean env cp).1).BytesValue =
      (ARTstore conf edits (ARTclean env cp).1).octets.length - 3 - dotLines cp.consumed

/-- There is nothing to be counted where the loops do not look. -/
structure PlainlyBegun (text : List UInt8) : Prop where
  first : text[0]? ≠ some 46
  body : text[bodyOffset text]? = some 46 → bodyOffset text = text.length - 3
  lines : ∀ j, Skipped text (bodyOffset text) j → ¬ BareCR text j ∧ ¬ BareLF text j
  nul : ∀ j, Skipped text (bodyOffset text) j → text[j]? = some 0 →
    headerFields text = [] ∨ Faulty (headerFields text) ∨ articleBody text = none ∨
      SeesNul text (bodyOffset text) text.length

section Exactness

variable {text : List UInt8} {c : CHANNEL}

/-- A NUL is noticed unless it is the only thing wrong and begins a header line. -/
theorem Checked.nul_iff (h : Checked text c) : (0 ∈ text → c.Error ≠ []) ↔
    ∀ j, Skipped text (bodyOffset text) j → text[j]? = some 0 →
      headerFields text = [] ∨ Faulty (headerFields text) ∨ articleBody text = none ∨
        SeesNul text (bodyOffset text) text.length := by
  constructor
  · intro hnul j _ hj
    exact h.Error.mp (hnul (List.mem_of_getElem? hj))
  · intro hnul hmem
    obtain ⟨j, hj⟩ := List.mem_iff_getElem?.mp hmem
    refine h.Error.mpr ?_
    by_cases hskip : Skipped text (bodyOffset text) j
    · exact hnul j hskip hj
    · exact .inr (.inr (.inr ⟨j, lt_of_getElem?_eq_some hj, hj, hskip⟩))

/-- A count that leaves out the first octets of header lines. -/
theorem count_skipped_iff {p : ℕ → Prop} [DecidablePred p] {b : ℕ}
    (hp : ∀ j, p j → j < text.length) :
    Nat.count (fun j => p j ∧ ¬ Skipped text b j) text.length = Nat.count p text.length ↔
      ∀ j, Skipped text b j → ¬ p j := by
  rw [count_eq_iff fun j hj => hj.1]
  constructor
  · intro h j hskip hj
    exact (h j (hp j hj) hj).2 hskip
  · intro h j _ hj
    exact ⟨hj, fun hskip => h j hskip hj⟩

/-- The dots are counted unless the article or the body begins with one. -/
theorem Checked.dots_iff (h : Checked text c) : c.Data.DotStuffedLines = dotLines text ↔
    text[0]? ≠ some 46 ∧
      (text[bodyOffset text]? = some 46 → bodyOffset text = text.length - 3) := by
  have hlong := h.long
  rw [h.DotStuffedLines, dotLines, count_eq_iff fun j hj => ⟨hj.1, .inr hj.2.1⟩]
  constructor
  · intro hall
    constructor
    · intro hdot
      have := (hall 0 (by omega) ⟨hdot, .inl rfl⟩).2.1.1
      omega
    · intro hdot
      obtain ⟨hline, hroom⟩ := h.bodyStart (lt_of_getElem?_eq_some hdot)
      by_contra hne
      exact (hall _ (by omega) ⟨hdot, .inr hline⟩).2.2 rfl
  · rintro ⟨hfirst, hbody⟩ j hj ⟨hdot, hstart⟩
    rcases hstart with rfl | hline
    · exact absurd hdot hfirst
    · refine ⟨hdot, hline, ?_⟩
      rintro rfl
      have := hbody hdot
      omega

end Exactness

/-- The content checks of a complete article are exact if and only if nothing has to be
counted where the loops do not look. -/
theorem content_exact_iff {conf : Innconf} {cp cp' : CHANNEL} {acts : List ChanAct}
    (hnext : cp.Next ≤ cp.used)
    (hrun : Steps (ArtNext conf) (ARTparse conf (startArticle cp)) acts cp')
    (hs : cp'.State = CSgotarticle) : ContentExact conf cp' ↔ PlainlyBegun cp'.consumed := by
  obtain ⟨d, pre, rest, delta, hd, hlen, heq⟩ := complete_of_steps hnext hrun hs
  have hsd : d.State = CSgotarticle := by
    rw [heq] at hs
    exact hs
  have hchecked := hd.checked hsd hlen
  obtain ⟨text, htext⟩ : ∃ text, text = cp'.consumed := ⟨_, rfl⟩
  have hdata : cp'.Data.CRwithoutLF = d.Data.CRwithoutLF ∧
      cp'.Data.LFwithoutCR = d.Data.LFwithoutCR ∧ cp'.Data.Lines = d.Data.Lines ∧
      cp'.Data.DotStuffedLines = d.Data.DotStuffedLines ∧ cp'.Error = d.Error := by
    rw [heq]
    exact ⟨rfl, rfl, rfl, rfl, rfl⟩
  obtain ⟨hcr, hlf, hlines, hdots, herr⟩ := hdata
  rw [← htext] at hchecked hlen ⊢
  have hcr_iff : cp'.Data.CRwithoutLF = bareCRs text ↔
      ∀ j, Skipped text (bodyOffset text) j → ¬ BareCR text j := by
    rw [hcr, hchecked.tally.CRwithoutLF, hlen]
    exact count_skipped_iff fun j hj => lt_of_getElem?_eq_some hj.1
  have hlf_iff : cp'.Data.LFwithoutCR = bareLFs text ↔
      ∀ j, Skipped text (bodyOffset text) j → ¬ BareLF text j := by
    rw [hlf, hchecked.tally.LFwithoutCR, hlen]
    exact count_skipped_iff fun j hj => lt_of_getElem?_eq_some hj.1
  constructor
  · rintro ⟨hnul, hCR, hLF, _, hDot, _⟩
    rw [← htext] at hnul hCR hLF hDot
    rw [herr] at hnul
    rw [hdots] at hDot
    obtain ⟨hfirst, hbody⟩ := hchecked.dots_iff.mp hDot
    exact ⟨hfirst, hbody, fun j hj => ⟨hcr_iff.mp hCR j hj, hlf_iff.mp hLF j hj⟩,
      hchecked.nul_iff.mp hnul⟩
  · rintro ⟨hfirst, hbody, hskipped, hnul⟩
    have hDot : cp'.Data.DotStuffedLines = dotLines text :=
      hdots.trans (hchecked.dots_iff.mpr ⟨hfirst, hbody⟩)
    refine ⟨?_, ?_, ?_, ?_, ?_, ?_⟩
    · rw [← htext, herr]
      exact hchecked.nul_iff.mpr hnul
    · rw [← htext]
      exact hcr_iff.mpr fun j hj => (hskipped j hj).1
    · rw [← htext]
      exact hlf_iff.mpr fun j hj => (hskipped j hj).2
    · rw [← htext]
      exact hlines.trans hchecked.Lines
    · rw [← htext]
      exact hDot
    · intro env edits cleaned _
      have hsame : SameFields cp' cp'.cutHeaders.revertHeaders :=
        cutHeaders_same.trans revertHeaders_same
      have hvalue := ARTstore_BytesValue conf edits (ARTclean env cp').1
      rw [ARTclean_fst, hsame.DotStuffedLines, hDot, htext] at hvalue
      rw [ARTclean_fst, hvalue, sub_sub]

/-- A channel with a command and a whole article in its buffer. -/
def wholeChannel (text : String) : CHANNEL :=
  ⟨CSgetcmd, ⟨100, octets "QUIT\r\n" ++ octets text⟩, 0, 0, 6, [], preparedData 0⟩

theorem content_exact_iff_plain :
    ContentExact ⟨0, false⟩ (ARTparse ⟨0, false⟩ (startArticle
        (wholeChannel "A: b\r\n.c: d\r\n\r\nx\r\n..\r\n.\r\n"))) ↔
      PlainlyBegun (ARTparse ⟨0, false⟩ (startArticle
        (wholeChannel "A: b\r\n.c: d\r\n\r\nx\r\n..\r\n.\r\n"))).consumed :=
  content_exact_iff (by decide) .nil (by decide)

/-- The dot of a line that is the first of the body is not counted. -/
theorem first_body_dot_is_not_counted : ∃ acts cp',
    Steps (ArtNext ⟨0, false⟩) (ARTparse ⟨0, false⟩ (startArticle
        (wholeChannel "A: b\r\n\r\n..x\r\n.\r\n"))) acts cp' ∧
      cp'.State = CSgotarticle ∧ ¬ ContentExact ⟨0, false⟩ cp' := by
  refine ⟨[], _, .nil, by decide, fun h => ?_⟩
  have hdots := h.DotStuffedLines
  revert hdots
  decide

end Inn.Innd
