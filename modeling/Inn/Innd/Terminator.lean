import Inn.Innd.Split
import Mathlib.Order.Bounds.Basic

/-!
# Inn.Innd.Terminator — an article ends at its first terminator

The header loop skips the first octet of every line, and a terminator right at the
start of the article or of the body is found by looking back. `Position` says which
terminators a loop can still have before it.
-/

namespace Inn.Innd

open ChannelState StateTransition

/-! ## Octets at a position -/

/-- The octets `p` are in the text at position `i`. -/
def OctetsAt (text : List UInt8) (i : ℕ) (p : List UInt8) : Prop := (text.drop i).take p.length = p

instance (text : List UInt8) (i : ℕ) (p : List UInt8) : Decidable (OctetsAt text i p) :=
  inferInstanceAs (Decidable (_ = _))

section Octets

variable {text p : List UInt8} {i : ℕ} {x : UInt8}

theorem octetsAt_nil : OctetsAt text i [] := List.take_zero

theorem octetsAt_cons : OctetsAt text i (x :: p) ↔ text[i]? = some x ∧ OctetsAt text (i + 1) p := by
  unfold OctetsAt
  rw [← List.tail_drop, ← List.head?_drop]
  cases text.drop i with
  | nil => simp
  | cons y rest => simp

theorem octetsAt_crlf : OctetsAt text i CRLF ↔ text[i]? = some 13 ∧ text[i + 1]? = some 10 := by
  simp only [CRLF, octetsAt_cons, octetsAt_nil, and_true]

theorem octetsAt_dotcrlf : OctetsAt text i DOTCRLF ↔
    text[i]? = some 46 ∧ text[i + 1]? = some 13 ∧ text[i + 2]? = some 10 := by
  simp only [DOTCRLF, octetsAt_cons, octetsAt_nil, and_true]

theorem octetsAt_terminator : OctetsAt text i TERMINATOR ↔
    text[i]? = some 13 ∧ text[i + 1]? = some 10 ∧ OctetsAt text (i + 2) DOTCRLF := by
  simp only [TERMINATOR, octetsAt_dotcrlf, octetsAt_cons, octetsAt_nil, and_true]

theorem lt_of_getElem?_eq_some (h : text[i]? = some x) : i < text.length := by
  rw [List.getElem?_eq_some_iff] at h
  exact h.1

end Octets

/-- A channel that holds a text from the start of its buffer. -/
structure Holds (text : List UInt8) (c : CHANNEL) : Prop where
  In : c.In = ⟨0, text⟩
  Start : c.Start = 0

section Holding

variable {text p : List UInt8} {c c' : CHANNEL} {i : ℕ} {x : UInt8}

theorem Holds.of_advances (h : Holds text c) (ha : Advances c c') : Holds text c' :=
  ⟨ha.In.trans h.In, ha.Start.trans h.Start⟩

theorem Holds.used (h : Holds text c) : c.used = text.length := by
  rw [CHANNEL.used, h.In]

theorem Holds.memcmp_iff (h : Holds text c) : c.memcmp i p = true ↔ OctetsAt text i p := by
  rw [CHANNEL.memcmp, CHANNEL.slice, h.In, beq_iff_eq]
  rfl

theorem Holds.getElem?_eq (h : Holds text c) (hlt : i < text.length) :
    text[i]? = some (c.char i) := by
  rw [CHANNEL.char, h.In, List.getD_eq_getElem?_getD, List.getElem?_eq_getElem hlt]
  rfl

theorem Holds.char_eq (h : Holds text c) (hx : text[i]? = some x) : c.char i = x := by
  rw [h.getElem?_eq (lt_of_getElem?_eq_some hx)] at hx
  exact Option.some.inj hx

end Holding

/-! ## The first terminator -/

/-- A terminator ends at the offset `k`: CR LF `.` CR LF, or only the last three octets of
it right at the start of the article or of the body. -/
def Ends (text : List UInt8) (body k : ℕ) : Prop :=
  (k = 3 ∧ OctetsAt text 0 DOTCRLF) ∨ (k = body + 3 ∧ OctetsAt text body DOTCRLF) ∨
    ∃ t, k = t + 5 ∧ OctetsAt text t TERMINATOR

/-- Which terminators there can be before `Next`. -/
structure Position (text : List UInt8) (c : CHANNEL) : Prop where
  holds : Holds text c
  header : c.State = CSgetheader → c.Data.Body = 0 ∧
    (∀ t < c.Next, ¬ OctetsAt text t TERMINATOR) ∧ (2 ≤ c.Next → ¬ OctetsAt text 0 DOTCRLF)
  body : c.State = CSgetbody → 2 ≤ c.Data.Body ∧ c.Data.Body ≤ c.Next ∧
    OctetsAt text (c.Data.Body - 2) CRLF ∧ ¬ OctetsAt text 0 DOTCRLF ∧
    ∀ t < c.Next, OctetsAt text t TERMINATOR → t + 2 = c.Data.Body ∧ c.Next ≤ c.Data.Body + 1
  done : ¬ c.Receiving → IsLeast { k | Ends text c.Data.Body k } c.Next ∧
    (c.Data.Body = 0 ∨ (2 ≤ c.Data.Body ∧ OctetsAt text (c.Data.Body - 2) CRLF))

section Positions

variable {conf : Innconf} {text : List UInt8} {c c' : CHANNEL}

/-- The header loop at a CR: the article does not begin with a terminator. -/
theorem Position.not_dot (h : Position text c) (hs : c.State = CSgetheader)
    (hat : AtCR c c.Start) : ¬ OctetsAt text 0 DOTCRLF := by
  obtain ⟨_, _, hdot⟩ := h.header hs
  intro hat0
  have hchars := octetsAt_dotcrlf.mp hat0
  have hroom := hat.room
  rw [h.holds.used] at hroom
  have hcr := h.holds.getElem?_eq (i := c.Next) (by omega)
  rw [hat.cr] at hcr
  by_cases h2 : 2 ≤ c.Next
  · exact hdot h2 hat0
  · rcases Nat.lt_or_ge c.Next 1 with hlt | hge
    · rw [show c.Next = 0 by omega, hchars.1] at hcr
      cases hcr
    · refine hat.notDot ⟨by rw [h.holds.Start]; omega, ?_⟩
      rw [h.holds.memcmp_iff, show c.Next - 1 = 0 by omega]
      exact hat0

theorem countOctet_body {cp : CHANNEL} {a : UInt8} {text : String} :
    (countOctet cp a text).Data.Body = cp.Data.Body := by
  unfold countOctet
  split <;> · simp only []; split <;> rfl

theorem position_header (hholds : Holds text c) (hs : c.State = CSgetheader)
    (hbody : c.Data.Body = 0) (hterm : ∀ t < c.Next, ¬ OctetsAt text t TERMINATOR)
    (hdot : 2 ≤ c.Next → ¬ OctetsAt text 0 DOTCRLF) : Position text c where
  holds := hholds
  header _ := ⟨hbody, hterm, hdot⟩
  body hb := by
    rw [hs] at hb
    cases hb
  done hn := absurd (.inl hs) hn

theorem position_body (hholds : Holds text c) (hs : c.State = CSgetbody)
    (hpos : 2 ≤ c.Data.Body) (hle : c.Data.Body ≤ c.Next)
    (hcrlf : OctetsAt text (c.Data.Body - 2) CRLF) (hdot : ¬ OctetsAt text 0 DOTCRLF)
    (hterm : ∀ t < c.Next, OctetsAt text t TERMINATOR →
      t + 2 = c.Data.Body ∧ c.Next ≤ c.Data.Body + 1) : Position text c where
  holds := hholds
  header hh := by
    rw [hs] at hh
    cases hh
  body _ := ⟨hpos, hle, hcrlf, hdot, hterm⟩
  done hn := absurd (.inr (.inl hs)) hn

theorem position_done (hholds : Holds text c) (hs : ¬ c.Receiving)
    (hbody : c.Data.Body = 0 ∨ (2 ≤ c.Data.Body ∧ OctetsAt text (c.Data.Body - 2) CRLF))
    (hends : Ends text c.Data.Body c.Next)
    (hfirst : ∀ k < c.Next, ¬ Ends text c.Data.Body k) : Position text c where
  holds := hholds
  header hh := absurd (.inl hh) hs
  body hb := absurd (.inr (.inl hb)) hs
  done _ := ⟨⟨hends, fun k hk => Nat.le_of_not_lt fun hlt => hfirst k hlt hk⟩, hbody⟩

theorem Position.headerRound (h : Position text c) (hs : c.State = CSgetheader)
    (hround : HeaderRound conf c c') : Position text c' := by
  have hholds := h.holds.of_advances hround.advances
  obtain ⟨hbody, hterm, hdot⟩ := h.header hs
  have hstart := h.holds.Start
  have hused := h.holds.used
  cases hround with
  | octet hlt hne =>
    have hchar := h.holds.getElem?_eq (i := c.Next) (by omega)
    refine position_header hholds (countOctet_state.trans hs) (countOctet_body.trans hbody) ?_ ?_
    · intro t ht hat
      rcases Nat.lt_succ_iff_lt_or_eq.mp ht with ht | rfl
      · exact hterm t ht hat
      · rw [(octetsAt_terminator.mp hat).1] at hchar
        exact hne (Option.some.inj hchar).symm
    · intro h2 hat
      rcases Nat.lt_or_ge 1 c.Next with h1 | h1
      · exact hdot h1 hat
      · -- the octet is the CR of the terminator
        replace h2 : 2 ≤ c.Next + 1 := h2
        rw [show c.Next = 0 + 1 by omega, (octetsAt_dotcrlf.mp hat).2.1] at hchar
        rw [show c.Next = 0 + 1 by omega] at hne
        exact hne (Option.some.inj hchar).symm
  | emptyArticle hlt hcr hd =>
    obtain ⟨hnext, hcmp⟩ := hd
    rw [h.holds.memcmp_iff, show c.Next - 1 = 0 by omega] at hcmp
    refine position_done hholds ?_ (.inl hbody) (.inl ⟨?_, hcmp⟩) ?_
    · rintro (h | h | h) <;> cases h
    · show c.Next + 2 = 3
      omega
    · intro k hk hends
      replace hk : k < c.Next + 2 := hk
      rcases hends with ⟨rfl, _⟩ | ⟨rfl, _⟩ | ⟨t, rfl, _⟩ <;> omega
  | emptyHeaders hat ht hs' =>
    rw [h.holds.memcmp_iff] at ht
    refine position_done hholds ?_ (.inl hbody) (.inr (.inr ⟨c.Next, rfl, ht⟩)) ?_
    · rintro (h | h | h) <;> cases h
    · intro k hk hends
      replace hk : k < c.Next + 5 := hk
      rcases hends with ⟨_, hat0⟩ | ⟨_, hat0⟩ | ⟨t, rfl, htt⟩
      · exact h.not_dot hs hat hat0
      · replace hat0 : OctetsAt text c.Data.Body DOTCRLF := hat0
        rw [hbody] at hat0
        exact h.not_dot hs hat hat0
      · omega
  | noBody hat ht hs' =>
    rw [h.holds.memcmp_iff] at ht
    refine position_done hholds ?_ (.inl hbody) (.inr (.inr ⟨c.Next, rfl, ht⟩)) ?_
    · rintro (h | h | h) <;> cases h
    · intro k hk hends
      replace hk : k < c.Next + 5 := hk
      rcases hends with ⟨_, hat0⟩ | ⟨_, hat0⟩ | ⟨t, rfl, htt⟩
      · exact h.not_dot hs hat hat0
      · replace hat0 : OctetsAt text c.Data.Body DOTCRLF := hat0
        rw [hbody] at hat0
        exact h.not_dot hs hat hat0
      · exact hterm t (by omega) htt
  | noHeaders hat ht hlf hs' =>
    have hroom := hat.room
    have hcr₀ := h.holds.getElem?_eq (i := c.Next) (by omega)
    have hlf₀ := h.holds.getElem?_eq (i := c.Next + 1) (by omega)
    rw [hat.cr] at hcr₀
    rw [hlf] at hlf₀
    refine position_body hholds rfl ?_ (le_refl _) ?_ (h.not_dot hs hat) ?_
    · show 2 ≤ c.Next + 2
      omega
    · show OctetsAt text (c.Next + 2 - 2) CRLF
      rw [Nat.add_sub_cancel, octetsAt_crlf]
      exact ⟨hcr₀, hlf₀⟩
    · intro t htlt htt
      replace htlt : t < c.Next + 2 := htlt
      show t + 2 = c.Next + 2 ∧ c.Next + 2 ≤ c.Next + 2 + 1
      have hchars := octetsAt_terminator.mp htt
      rcases Nat.lt_or_ge t (c.Next + 1) with hlt | hge
      · omega
      · rw [show t = c.Next + 1 by omega, hlf₀] at hchars
        cases hchars.1
  | lastLine hat ht hlf hs' hcr' hlf' =>
    have hroom := hat.room
    have hlf₀ := h.holds.getElem?_eq (i := c.Next + 1) (by omega)
    have hcr₁ := h.holds.getElem?_eq (i := c.Next + 2) (by omega)
    have hlf₁ := h.holds.getElem?_eq (i := c.Next + 3) (by omega)
    rw [hlf] at hlf₀
    rw [hcr'] at hcr₁
    rw [hlf'] at hlf₁
    have hnt : ¬ OctetsAt text c.Next TERMINATOR := by
      rw [← h.holds.memcmp_iff, ht]
      exact Bool.false_ne_true
    refine position_body hholds rfl ?_ (le_refl _) ?_ (h.not_dot hs hat) ?_
    · show 2 ≤ c.Next + 4
      omega
    · show OctetsAt text (c.Next + 4 - 2) CRLF
      rw [show c.Next + 4 - 2 = c.Next + 2 by omega, octetsAt_crlf]
      exact ⟨hcr₁, hlf₁⟩
    · intro t htlt htt
      replace htlt : t < c.Next + 4 := htlt
      show t + 2 = c.Next + 4 ∧ c.Next + 4 ≤ c.Next + 4 + 1
      have hchars := octetsAt_terminator.mp htt
      rcases Nat.lt_or_ge t c.Next with hlt | hge
      · exact absurd htt (hterm t hlt)
      · -- of the four new positions only the third can begin a terminator
        have hne₀ : t ≠ c.Next := fun he => hnt (he ▸ htt)
        have hne₁ : t ≠ c.Next + 1 := by
          intro he
          rw [he, hlf₀] at hchars
          cases hchars.1
        have hne₃ : t ≠ c.Next + 3 := by
          intro he
          rw [he, hlf₁] at hchars
          cases hchars.1
        omega
  | line hat ht hlf hs' hne =>
    have hroom := hat.room
    have hlf₀ := h.holds.getElem?_eq (i := c.Next + 1) (by omega)
    have hlf₂ := h.holds.getElem?_eq (i := c.Next + 2) (by omega)
    have hlf₃ := h.holds.getElem?_eq (i := c.Next + 3) (by omega)
    rw [hlf] at hlf₀
    have hnt : ¬ OctetsAt text c.Next TERMINATOR := by
      rw [← h.holds.memcmp_iff, ht]
      exact Bool.false_ne_true
    have hdot' := h.not_dot hs hat
    rw [headerLine_eq] at hholds ⊢
    have hf : Framed c (checkedAt conf c (c.Next + 2)) := checkedAt_framed
    refine position_header hholds (hf.State.trans hs) (hf.Body.trans hbody) ?_ (fun _ => hdot')
    intro t htlt htt
    replace htlt : t < c.Next + 3 := htlt
    have hchars := octetsAt_terminator.mp htt
    rcases Nat.lt_or_ge t c.Next with hlt | hge
    · exact hterm t hlt htt
    · have hne₀ : t ≠ c.Next := fun he => hnt (he ▸ htt)
      have hne₁ : t ≠ c.Next + 1 := by
        intro he
        rw [he, hlf₀] at hchars
        cases hchars.1
      rw [show t = c.Next + 2 by omega] at hchars
      exact hne ⟨h.holds.char_eq hchars.1, h.holds.char_eq hchars.2.1⟩
  | bareCR hat hlf =>
    have hroom := hat.room
    refine position_header hholds hs hbody ?_ (fun _ => h.not_dot hs hat)
    intro t htlt htt
    rcases Nat.lt_succ_iff_lt_or_eq.mp htlt with hlt | rfl
    · exact hterm t hlt htt
    · exact hlf (h.holds.char_eq (octetsAt_terminator.mp htt).2.1)

/-- A terminator at the start of the body is the end of CR LF `.` CR LF. -/
theorem octetsAt_body {body : ℕ} (hpos : 2 ≤ body) (hcrlf : OctetsAt text (body - 2) CRLF)
    (hdot : OctetsAt text body DOTCRLF) : OctetsAt text (body - 2) TERMINATOR := by
  obtain ⟨hcr, hlf⟩ := octetsAt_crlf.mp hcrlf
  rw [octetsAt_terminator]
  refine ⟨hcr, hlf, ?_⟩
  rw [show body - 2 + 2 = body by omega]
  exact hdot

/-- The body loop at a CR: no terminator has begun. -/
theorem Position.clear (h : Position text c) (hs : c.State = CSgetbody)
    (hat : AtCR c c.Data.Body) : ∀ t < c.Next, ¬ OctetsAt text t TERMINATOR := by
  obtain ⟨hpos, hle, hcrlf, hdot, hterm⟩ := h.body hs
  intro t ht htt
  obtain ⟨hbody, hnear⟩ := hterm t ht htt
  obtain ⟨_, _, hdotted⟩ := octetsAt_terminator.mp htt
  rw [hbody] at hdotted
  have hroom := hat.room
  rw [h.holds.used] at hroom
  have hcr := h.holds.getElem?_eq (i := c.Next) (by omega)
  rw [hat.cr] at hcr
  rcases Nat.lt_or_ge c.Data.Body c.Next with hlt | hge
  · refine hat.notDot ⟨by omega, ?_⟩
    rw [h.holds.memcmp_iff, show c.Next - 1 = c.Data.Body by omega]
    exact hdotted
  · rw [show c.Next = c.Data.Body by omega, (octetsAt_dotcrlf.mp hdotted).1] at hcr
    cases hcr

/-- So none has begun before the line after it, unless it begins at the CR. -/
theorem Position.clear_line (h : Position text c) (hs : c.State = CSgetbody)
    (hat : AtCR c c.Data.Body) (ht : c.memcmp c.Next TERMINATOR = false)
    (hlf : c.char (c.Next + 1) = 10) : ∀ t < c.Next + 2, ¬ OctetsAt text t TERMINATOR := by
  intro t htlt htt
  have hroom := hat.room
  rw [h.holds.used] at hroom
  have hlf₀ := h.holds.getElem?_eq (i := c.Next + 1) (by omega)
  rcases Nat.lt_or_ge t c.Next with hlt | hge
  · exact h.clear hs hat t hlt htt
  · rcases Nat.eq_or_lt_of_le hge with heq | hlt
    · rw [← heq, ← h.holds.memcmp_iff, ht] at htt
      cases htt
    · rw [show t = c.Next + 1 by omega, octetsAt_terminator, hlf₀, hlf] at htt
      cases htt.1

/-- Nothing ends before a position that no terminator begins before. -/
theorem not_ends_of_clear {body n k : ℕ} (hpos : 2 ≤ body)
    (hcrlf : OctetsAt text (body - 2) CRLF) (hdot : ¬ OctetsAt text 0 DOTCRLF)
    (hclear : ∀ t < n, ¬ OctetsAt text t TERMINATOR) (hk : k < n + 5) : ¬ Ends text body k := by
  rintro (⟨_, h0⟩ | ⟨rfl, hb⟩ | ⟨t, rfl, htt⟩)
  · exact hdot h0
  · exact hclear (body - 2) (by omega) (octetsAt_body hpos hcrlf hb)
  · exact hclear t (by omega) htt

theorem gotState_not_receiving (hs : c.State = CSgetbody) : gotState c = CSgotarticle := by
  rw [gotState, if_neg (by rw [hs]; exact fun h => by cases h)]

theorem Position.bodyRound (h : Position text c) (hs : c.State = CSgetbody)
    (hround : BodyRound c c') : Position text c' := by
  have hholds := h.holds.of_advances hround.advances
  obtain ⟨hpos, hle, hcrlf, hdot, hterm⟩ := h.body hs
  have hused := h.holds.used
  have hgot := gotState_not_receiving hs
  cases hround with
  | octet hlt hne =>
    have hchar := h.holds.getElem?_eq (i := c.Next) (by omega)
    have hbody : (countOctet c (c.char c.Next) "Nul character in body").Data.Body = c.Data.Body :=
      countOctet_body
    refine position_body hholds (countOctet_state.trans hs) (by rw [hbody]; exact hpos) ?_
      (by rw [hbody]; exact hcrlf) hdot ?_
    · rw [hbody]
      exact Nat.le_succ_of_le hle
    · intro t ht htt
      rw [hbody]
      show t + 2 = c.Data.Body ∧ c.Next + 1 ≤ c.Data.Body + 1
      rcases Nat.lt_succ_iff_lt_or_eq.mp ht with ht | rfl
      · obtain ⟨hb, hnear⟩ := hterm t ht htt
        refine ⟨hb, Nat.succ_le_succ ?_⟩
        by_contra hgt
        -- the octet is the CR of the terminator
        obtain ⟨_, _, hdotted⟩ := octetsAt_terminator.mp htt
        have hcr := (octetsAt_dotcrlf.mp hdotted).2.1
        rw [show t + 2 + 1 = c.Next by omega, hchar] at hcr
        exact hne (Option.some.inj hcr)
      · rw [(octetsAt_terminator.mp htt).1] at hchar
        exact absurd (Option.some.inj hchar).symm hne
  | emptyBody hlt hcr hd =>
    obtain ⟨hnext, hcmp⟩ := hd
    rw [h.holds.memcmp_iff, show c.Next - 1 = c.Data.Body by omega] at hcmp
    refine position_done hholds ?_ (.inr ⟨hpos, hcrlf⟩) (.inr (.inl ⟨?_, hcmp⟩)) ?_
    · show ¬ (gotState c = _ ∨ gotState c = _ ∨ gotState c = _)
      rw [hgot]
      rintro (h | h | h) <;> cases h
    · show c.Next + 2 = c.Data.Body + 3
      omega
    · intro k hk
      replace hk : k < c.Next + 2 := hk
      refine not_ends_of_clear (n := c.Data.Body - 2) hpos hcrlf hdot ?_ (by omega)
      intro t ht htt
      have := hterm t (by omega) htt
      omega
  | terminator hat ht =>
    rw [h.holds.memcmp_iff] at ht
    refine position_done hholds ?_ (.inr ⟨hpos, hcrlf⟩) (.inr (.inr ⟨c.Next, rfl, ht⟩)) ?_
    · show ¬ (gotState c = _ ∨ gotState c = _ ∨ gotState c = _)
      rw [hgot]
      rintro (h | h | h) <;> cases h
    · intro k hk
      exact not_ends_of_clear hpos hcrlf hdot (h.clear hs hat) hk
  | stuffedLine hat ht hlf _ =>
    refine position_body hholds hs hpos (Nat.le_add_right_of_le hle) hcrlf hdot ?_
    exact fun t htlt htt => absurd htt (h.clear_line hs hat ht hlf t htlt)
  | line hat ht hlf _ =>
    refine position_body hholds hs hpos (Nat.le_add_right_of_le hle) hcrlf hdot ?_
    exact fun t htlt htt => absurd htt (h.clear_line hs hat ht hlf t htlt)
  | bareCR hat hlf =>
    refine position_body hholds hs hpos (Nat.le_succ_of_le hle) hcrlf hdot ?_
    intro t htlt htt
    rcases Nat.lt_succ_iff_lt_or_eq.mp htlt with hlt | rfl
    · exact absurd htt (h.clear hs hat t hlt)
    · exact absurd (h.holds.char_eq (octetsAt_terminator.mp htt).2.1) hlf

/-- Every round keeps track of the terminators. -/
theorem position_step (hstep : parseStep conf c = some c') (hover : ¬ c.Overlong)
    (h : Position text c) : Position text c' := by
  rcases parseStep_round hstep with ⟨hs, hround⟩ | ⟨hs | hs, hround⟩
  · exact h.headerRound hs hround
  · exact h.bodyRound hs hround
  · exact absurd (.inl hs) hover

theorem position_article {sendid : ℕ} :
    Position text (article sendid text) ∧ ¬ (article sendid text).Overlong := by
  refine ⟨position_header ⟨rfl, rfl⟩ rfl rfl ?_ ?_, ?_⟩
  · intro t ht
    cases ht
  · intro h2
    cases h2
  · rintro (h | h) <;> cases h

theorem Parsed.position {sendid : ℕ} (h : Parsed conf sendid text c) : Position text c := by
  refine (reaches_invariant (fun c => Position text c ∧ ¬ c.Overlong) h.reaches ?_
    position_article).1
  rintro a b hab ⟨hpos, hover⟩
  exact ⟨position_step hab hover hpos, fun hb => hover ((parseStep_overlong hab).mp hb)⟩

/-- The octets `.` CR LF right at the origin do not let the loop wait. -/
theorem not_waits_of_dot (hholds : Holds text c) {origin : ℕ} (hdot : OctetsAt text origin DOTCRLF)
    (hge : origin ≤ c.Next) (hle : c.Next ≤ origin + 1) : ¬ c.Waits origin := by
  obtain ⟨hd, hcr, hlf⟩ := octetsAt_dotcrlf.mp hdot
  have hlen := lt_of_getElem?_eq_some hlf
  have hused := hholds.used
  rintro (hend | ⟨hchar, _, hnot⟩)
  · omega
  · rcases Nat.lt_or_ge origin c.Next with hlt | hge'
    · refine hnot ⟨by omega, by omega, ?_⟩
      rw [hholds.memcmp_iff, show c.Next - 1 = origin by omega]
      exact hdot
    · have := hholds.char_eq (show text[c.Next]? = some 46 by
        rw [show c.Next = origin by omega]
        exact hd)
      rw [hchar] at this
      cases this

/-- If the parser waits, no terminator has come yet. -/
theorem Parsed.not_ends {sendid : ℕ} (h : Parsed conf sendid text c) (hrec : c.Receiving) (k : ℕ) :
    ¬ Ends text c.Data.Body k := by
  have hp := h.position
  have hwaits := parseStep_eq_none_iff.mp (mem_eval.mp h).2 hrec
  have hused := hp.holds.used
  -- a terminator that has not begun yet is not there
  have hlate : ∀ t, OctetsAt text t TERMINATOR → t < c.Next := by
    intro t htt
    have hlen := lt_of_getElem?_eq_some
      (octetsAt_dotcrlf.mp (octetsAt_terminator.mp htt).2.2).2.2
    rcases hwaits with hend | ⟨_, hroom, _⟩ <;> omega
  rcases hrec with hs | hs | hs
  · obtain ⟨hbody, hterm, hdot⟩ := hp.header hs
    rw [CHANNEL.origin, if_pos hs, hp.holds.Start] at hwaits
    have hdot0 : ¬ OctetsAt text 0 DOTCRLF := by
      intro h0
      by_cases h2 : 2 ≤ c.Next
      · exact hdot h2 h0
      · exact not_waits_of_dot hp.holds h0 (Nat.zero_le _) (by omega) hwaits
    rw [hbody]
    rintro (⟨_, h0⟩ | ⟨_, h0⟩ | ⟨t, _, htt⟩)
    · exact hdot0 h0
    · exact hdot0 h0
    · exact hterm t (hlate t htt) htt
  · obtain ⟨hpos, hle, hcrlf, hdot, hterm⟩ := hp.body hs
    rw [CHANNEL.origin, if_neg (by rw [hs]; exact fun h => by cases h)] at hwaits
    have hnone : ∀ t, ¬ OctetsAt text t TERMINATOR := by
      intro t htt
      obtain ⟨hbody, hnear⟩ := hterm t (hlate t htt) htt
      have hdotted := (octetsAt_terminator.mp htt).2.2
      rw [hbody] at hdotted
      exact not_waits_of_dot hp.holds hdotted hle hnear hwaits
    rintro (⟨_, h0⟩ | ⟨_, hb⟩ | ⟨t, _, htt⟩)
    · exact hdot h0
    · exact hnone _ (octetsAt_body hpos hcrlf hb)
    · exact hnone t htt
  · exact absurd (.inl hs) h.not_overlong

/-- Octets that lie in the first `n`. -/
theorem octetsAt_take {n i : ℕ} {p : List UInt8} (h : OctetsAt text i p)
    (hlen : i + p.length ≤ n) : OctetsAt (text.take n) i p := by
  unfold OctetsAt at *
  rw [List.drop_take, List.take_take, min_eq_left (by omega)]
  exact h

/-- What follows an article has no part in it. -/
theorem Parsed.prefix {sendid : ℕ} (h : Parsed conf sendid text c) (hdone : ¬ c.Receiving) :
    ∃ d, Parsed conf sendid (text.take c.Next) d ∧ ¬ d.Receiving ∧
      c = d.readtext (text.drop c.Next) := by
  obtain ⟨⟨hends, _⟩, hbody⟩ := h.position.done hdone
  obtain ⟨d, hd⟩ := exists_parsed conf sendid (text.take c.Next)
  have hwhole : c ∈ eval (parseStep conf) (d.readtext (text.drop c.Next)) := by
    rw [hd.readtext, List.take_append_drop]
    exact h
  have hstop : ¬ d.Receiving := by
    intro hrec
    refine hd.not_ends hrec c.Next ?_
    rcases hends with ⟨hk, h0⟩ | ⟨hk, hb⟩ | ⟨t, hk, ht⟩
    · exact .inl ⟨hk, octetsAt_take h0 hk.ge⟩
    · rcases hbody with hzero | ⟨hpos, hcrlf⟩
      · rw [hzero] at hk hb
        exact .inl ⟨hk, octetsAt_take hb hk.ge⟩
      · refine .inr (.inr ⟨c.Data.Body - 2, by omega, octetsAt_take (octetsAt_body hpos hcrlf hb) ?_⟩)
        show c.Data.Body - 2 + 5 ≤ c.Next
        omega
    · exact .inr (.inr ⟨t, hk, octetsAt_take ht hk.ge⟩)
  refine ⟨d, hd, hstop, ?_⟩
  refine Part.mem_unique hwhole (mem_eval.mpr ⟨.refl, ?_⟩)
  rw [parseStep_eq_none_iff]
  exact fun hrec => absurd hrec hstop

end Positions

end Inn.Innd
