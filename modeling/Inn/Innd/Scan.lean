import Inn.Innd.Parse
import Mathlib.Data.List.GetD
import Mathlib.Tactic.Ring

/-!
# Inn.Innd.Scan — the parser sees the article, not the buffer

A round of the parsing loops depends only on octets it has, and on their position
relative to the start of the article. Both facts are one lemma, about a channel put
into a larger buffer (`CHANNEL.embed`): octets before, octets after, and another address.

* `parseStep_embed` — a round that is possible is the same round in the larger buffer;
* `parseStep_eq_none_iff` — when a round has to wait;
* `runSteps_parse` — as many rounds as there are octets are all of them.
-/

namespace Inn.Innd

open ChannelState StateTransition

/-- The channel with `pre` before and `post` after what is in its buffer, and with its
pointers moved by `delta`. -/
def CHANNEL.embed (cp : CHANNEL) (pre post : List UInt8) (delta : ℤ) : CHANNEL :=
  { cp with
    In := ⟨cp.In.data + delta - pre.length, pre ++ cp.In.text ++ post⟩
    Start := pre.length + cp.Start
    Next := pre.length + cp.Next
    Data :=
      { cp.Data.adjust (-delta) with
        CurHeader := pre.length + cp.Data.CurHeader
        Body := pre.length + cp.Data.Body } }

section Embed

variable {conf : Innconf} {cp cp' : CHANNEL} {pre post : List UInt8} {delta : ℤ}

theorem used_embed : (cp.embed pre post delta).used = pre.length + cp.used + post.length := by
  simp only [CHANNEL.used, CHANNEL.embed, List.length_append]

theorem char_embed {i : ℕ} (h : i < cp.used) :
    (cp.embed pre post delta).char (pre.length + i) = cp.char i := by
  show (pre ++ cp.In.text ++ post).getD (pre.length + i) 0 = cp.In.text.getD i 0
  rw [List.append_assoc, List.getD_append_right _ _ _ _ (Nat.le_add_right _ _),
    Nat.add_sub_cancel_left, List.getD_append _ _ _ _ h]

theorem slice_embed {i size : ℕ} (h : i + size ≤ cp.used ∨ size = 0) :
    (cp.embed pre post delta).slice (pre.length + i) size = cp.slice i size := by
  show ((pre ++ cp.In.text ++ post).drop (pre.length + i)).take size =
    (cp.In.text.drop i).take size
  rcases h with h | rfl
  · replace h : i + size ≤ cp.In.text.length := h
    rw [List.append_assoc, ← List.drop_drop, List.drop_left, List.drop_append_of_le_length
      (by omega), List.take_append_of_le_length (by rw [List.length_drop]; omega)]
  · rw [List.take_zero, List.take_zero]

theorem memcmp_embed {i : ℕ} {text : List UInt8} (h : i + text.length ≤ cp.used) :
    (cp.embed pre post delta).memcmp (pre.length + i) text = cp.memcmp i text := by
  rw [CHANNEL.memcmp, slice_embed (.inl h), CHANNEL.memcmp]

theorem countOctet_embed {c : UInt8} {text : String} :
    countOctet (cp.embed pre post delta) c text =
      (countOctet cp c text).embed pre post delta := by
  unfold countOctet
  split <;> · simp only []; split <;> rfl

/-- What is recorded of a header field moves with it. -/
theorem recordHeader_add {header : List UInt8} {start : ℤ} {i colon : ℕ} {hc : HDRCONTENT} :
    recordHeader conf header (start + delta) i colon
        { hc with Value := hc.Value.map (· - -delta) } =
      { recordHeader conf header start i colon hc with
        Value := (recordHeader conf header start i colon hc).Value.map (· - -delta) } := by
  unfold recordHeader
  by_cases hlen : hc.Length ≠ 0
  · simp only [if_pos hlen]
    split <;> rfl
  · simp only [if_neg hlen, Option.map_some]
    congr 2
    ring

theorem ARTcheckheader_embed {size : ℕ} (h : cp.Data.CurHeader + size ≤ cp.used ∨ size = 0) :
    ARTcheckheader conf (cp.embed pre post delta) size =
      (ARTcheckheader conf cp size).embed pre post delta := by
  have hslice : (cp.embed pre post delta).slice (cp.embed pre post delta).Data.CurHeader size =
      cp.slice cp.Data.CurHeader size := slice_embed h
  have hstart : (cp.embed pre post delta).In.data + (cp.embed pre post delta).Data.CurHeader =
      cp.In.data + cp.Data.CurHeader + delta := by
    show cp.In.data + delta - pre.length + ((pre.length + cp.Data.CurHeader : ℕ) : ℤ) = _
    push_cast
    ring
  unfold ARTcheckheader
  simp only [hslice, hstart]
  split
  · rfl
  · split
    · rfl
    · rename_i i colon _
      simp only [CHANNEL.embed, ARTDATA.adjust]
      congr 2
      · split
        · rw [Option.map_some, sub_neg_eq_add]
        · rfl
      · funext j
        by_cases hj : j = i
        · subst hj
          rw [Function.update_self, Function.update_self, recordHeader_add]
        · rw [Function.update_of_ne hj, Function.update_of_ne hj]

theorem newHeader_embed {i : ℕ} (h : i ≤ cp.used) :
    newHeader conf (cp.embed pre post delta) (pre.length + i) =
      (newHeader conf cp i).embed pre post delta := by
  have hsub : pre.length + i - (cp.embed pre post delta).Data.CurHeader = i - cp.Data.CurHeader := by
    show pre.length + i - (pre.length + cp.Data.CurHeader) = _
    omega
  unfold newHeader
  rw [hsub, ARTcheckheader_embed (by omega)]
  rfl

theorem headerLine_embed {i : ℕ} (h : i < cp.used) :
    headerLine conf (cp.embed pre post delta) (pre.length + i) =
      (headerLine conf cp i).embed pre post delta := by
  have hnew : newHeader conf (cp.embed pre post delta).countHeaderLine (pre.length + i) =
      (newHeader conf cp.countHeaderLine i).embed pre post delta :=
    @newHeader_embed conf cp.countHeaderLine pre post delta i (Nat.le_of_lt h)
  unfold headerLine
  simp only [char_embed h, hnew]
  split <;> split <;> rfl

/-- The test for the terminator at the start gives the same answer in the larger buffer,
unless it has to wait. -/
theorem dotAtStart_embed {i start : ℕ}
    (h : 5 ≤ cp.used - i ∨ (i = start + 1 ∧ 1 < cp.used - i ∧ cp.memcmp (i - 1) DOTCRLF = true)) :
    (pre.length + i = pre.length + start + 1 ∧
        1 < (cp.embed pre post delta).used - (pre.length + i) ∧
        (cp.embed pre post delta).memcmp (pre.length + i - 1) DOTCRLF = true) ↔
      (i = start + 1 ∧ 1 < cp.used - i ∧ cp.memcmp (i - 1) DOTCRLF = true) := by
  have hroom : 1 < cp.used - i := h.elim (by omega) (·.2.1)
  have hlen : DOTCRLF.length = 3 := rfl
  by_cases hi : i = start + 1
  · have hcmp : (cp.embed pre post delta).memcmp (pre.length + i - 1) DOTCRLF =
        cp.memcmp (i - 1) DOTCRLF := by
      rw [Nat.add_sub_assoc (by omega)]
      exact memcmp_embed (by omega)
    rw [hcmp, used_embed]
    constructor
    · rintro ⟨_, _, hm⟩
      exact ⟨hi, hroom, hm⟩
    · rintro ⟨_, _, hm⟩
      exact ⟨by omega, by omega, hm⟩
  · constructor
    · rintro ⟨hi', _⟩
      omega
    · rintro ⟨hi', _⟩
      exact absurd hi' hi

theorem headerStep_embed (h : headerStep conf cp = some cp') :
    headerStep conf (cp.embed pre post delta) = some (cp'.embed pre post delta) := by
  have hstart : (cp.embed pre post delta).Start = pre.length + cp.Start := rfl
  have hnext : (cp.embed pre post delta).Next = pre.length + cp.Next := rfl
  have hused : (cp.embed pre post delta).used = pre.length + cp.used + post.length := used_embed
  unfold headerStep at h ⊢
  simp only [hnext, hstart] at h ⊢
  by_cases hend : cp.used ≤ cp.Next
  · rw [if_pos hend] at h
    cases h
  rw [if_neg hend] at h
  rw [if_neg (by omega), char_embed (by omega)]
  by_cases hcr : cp.char cp.Next ≠ 13
  · rw [if_pos hcr] at h ⊢
    cases h
    rw [countOctet_embed]
    rfl
  rw [if_neg hcr] at h ⊢
  by_cases hdot : cp.Next = cp.Start + 1 ∧ 1 < cp.used - cp.Next ∧
      cp.memcmp (cp.Next - 1) DOTCRLF = true
  · rw [if_pos hdot] at h
    rw [if_pos ((dotAtStart_embed (.inr hdot)).mpr hdot)]
    cases h
    rfl
  rw [if_neg hdot] at h
  by_cases hroom : cp.used - cp.Next < 5
  · rw [if_pos hroom] at h
    cases h
  rw [if_neg hroom] at h
  rw [if_neg (mt (dotAtStart_embed (.inl (by omega))).mp hdot), if_neg (by omega),
    memcmp_embed (show cp.Next + 5 ≤ cp.used by omega)]
  simp only [Nat.add_assoc, Nat.add_left_cancel_iff] at h ⊢
  rw [char_embed (by omega), char_embed (by omega), char_embed (by omega)]
  by_cases hterm : cp.memcmp cp.Next TERMINATOR = true
  · rw [if_pos hterm] at h ⊢
    split at h
    · rename_i hs
      rw [if_pos hs]
      cases h
      rfl
    · rename_i hs
      rw [if_neg hs]
      cases h
      rfl
  rw [if_neg hterm] at h ⊢
  by_cases hlf : cp.char (cp.Next + 1) = 10
  · rw [if_pos hlf] at h ⊢
    rw [headerLine_embed (by omega)]
    split at h
    · rename_i hs
      rw [if_pos hs]
      cases h
      rfl
    · rename_i hs
      rw [if_neg hs]
      split at h
      · rename_i hempty
        rw [if_pos hempty]
        cases h
        rfl
      · rename_i hempty
        rw [if_neg hempty]
        cases h
        rfl
  · rw [if_neg hlf] at h ⊢
    cases h
    rfl

theorem bodyStep_embed (h : bodyStep cp = some cp') :
    bodyStep (cp.embed pre post delta) = some (cp'.embed pre post delta) := by
  have hbody : (cp.embed pre post delta).Data.Body = pre.length + cp.Data.Body := rfl
  have hnext : (cp.embed pre post delta).Next = pre.length + cp.Next := rfl
  have hused : (cp.embed pre post delta).used = pre.length + cp.used + post.length := used_embed
  unfold bodyStep at h ⊢
  simp only [hnext, hbody] at h ⊢
  by_cases hend : cp.used ≤ cp.Next
  · rw [if_pos hend] at h
    cases h
  rw [if_neg hend] at h
  rw [if_neg (by omega), char_embed (by omega)]
  by_cases hcr : cp.char cp.Next ≠ 13
  · rw [if_pos hcr] at h ⊢
    cases h
    rw [countOctet_embed]
    rfl
  rw [if_neg hcr] at h ⊢
  by_cases hdot : cp.Next = cp.Data.Body + 1 ∧ 1 < cp.used - cp.Next ∧
      cp.memcmp (cp.Next - 1) DOTCRLF = true
  · rw [if_pos hdot] at h
    rw [if_pos ((dotAtStart_embed (.inr hdot)).mpr hdot)]
    cases h
    rfl
  rw [if_neg hdot] at h
  by_cases hroom : cp.used - cp.Next < 5
  · rw [if_pos hroom] at h
    cases h
  rw [if_neg hroom] at h
  rw [if_neg (mt (dotAtStart_embed (.inl (by omega))).mp hdot), if_neg (by omega),
    memcmp_embed (show cp.Next + 5 ≤ cp.used by omega)]
  simp only [Nat.add_assoc] at h ⊢
  rw [char_embed (by omega), char_embed (by omega)]
  split at h
  · rename_i hterm
    rw [if_pos hterm]
    cases h
    rfl
  rename_i hterm
  rw [if_neg hterm]
  split at h
  · rename_i hlf
    rw [if_pos hlf]
    split at h
    · rename_i hstuffed
      rw [if_pos hstuffed]
      cases h
      rfl
    · rename_i hstuffed
      rw [if_neg hstuffed]
      cases h
      rfl
  · rename_i hlf
    rw [if_neg hlf]
    cases h
    rfl

/-- A round that is possible is the same round in a larger buffer. -/
theorem parseStep_embed (h : parseStep conf cp = some cp') :
    parseStep conf (cp.embed pre post delta) = some (cp'.embed pre post delta) := by
  have hstate : (cp.embed pre post delta).State = cp.State := rfl
  unfold parseStep at h ⊢
  rw [hstate]
  split at h
  · exact headerStep_embed h
  · exact bodyStep_embed h
  · exact bodyStep_embed h
  · cases h

end Embed

/-! ## What a round does -/

/-- A terminator right at `origin`, seen from the CR at `Next`. -/
def CHANNEL.DotAt (cp : CHANNEL) (origin : ℕ) : Prop :=
  cp.Next = origin + 1 ∧ cp.memcmp (cp.Next - 1) DOTCRLF = true

/-- The channel is at a CR that is followed by at least four octets, and not in a
terminator right at `origin`. -/
structure AtCR (cp : CHANNEL) (origin : ℕ) : Prop where
  cr : cp.char cp.Next = 13
  room : cp.Next + 5 ≤ cp.used
  notDot : ¬ cp.DotAt origin

/-- The rounds of the loop of `ARTparseheader`. -/
inductive HeaderRound (conf : Innconf) (cp : CHANNEL) : CHANNEL → Prop where
  | octet : cp.Next < cp.used → cp.char cp.Next ≠ 13 →
      HeaderRound conf cp
        { countOctet cp (cp.char cp.Next) "Nul character in header" with Next := cp.Next + 1 }
  | emptyArticle : cp.Next + 1 < cp.used → cp.char cp.Next = 13 → cp.DotAt cp.Start →
      HeaderRound conf cp
        { ARTerror cp (octets "Empty article") with State := CSnoarticle, Next := cp.Next + 2 }
  | emptyHeaders : AtCR cp cp.Start → cp.memcmp cp.Next TERMINATOR = true → cp.Next = cp.Start →
      HeaderRound conf cp
        { ARTerror cp (octets "Empty headers and body") with
          State := CSnoarticle, Next := cp.Next + 5 }
  | noBody : AtCR cp cp.Start → cp.memcmp cp.Next TERMINATOR = true → cp.Next ≠ cp.Start →
      HeaderRound conf cp
        { ARTerror cp (octets "No body") with State := CSgotarticle, Next := cp.Next + 5 }
  | noHeaders : AtCR cp cp.Start → cp.memcmp cp.Next TERMINATOR = false →
      cp.char (cp.Next + 1) = 10 → cp.Next = cp.Start →
      HeaderRound conf cp (startBody (ARTerror cp (octets "No headers")) (cp.Next + 2))
  | lastLine : AtCR cp cp.Start → cp.memcmp cp.Next TERMINATOR = false →
      cp.char (cp.Next + 1) = 10 → cp.Next ≠ cp.Start →
      cp.char (cp.Next + 2) = 13 → cp.char (cp.Next + 3) = 10 →
      HeaderRound conf cp (startBody (headerLine conf cp (cp.Next + 2)) (cp.Next + 4))
  | line : AtCR cp cp.Start → cp.memcmp cp.Next TERMINATOR = false →
      cp.char (cp.Next + 1) = 10 → cp.Next ≠ cp.Start →
      ¬ (cp.char (cp.Next + 2) = 13 ∧ cp.char (cp.Next + 3) = 10) →
      HeaderRound conf cp { headerLine conf cp (cp.Next + 2) with Next := cp.Next + 3 }
  | bareCR : AtCR cp cp.Start → cp.char (cp.Next + 1) ≠ 10 →
      HeaderRound conf cp { cp.countCR with Next := cp.Next + 1 }

/-- The rounds of the loop of `ARTparsebody`. -/
inductive BodyRound (cp : CHANNEL) : CHANNEL → Prop where
  | octet : cp.Next < cp.used → cp.char cp.Next ≠ 13 →
      BodyRound cp
        { countOctet cp (cp.char cp.Next) "Nul character in body" with Next := cp.Next + 1 }
  | emptyBody : cp.Next + 1 < cp.used → cp.char cp.Next = 13 → cp.DotAt cp.Data.Body →
      BodyRound cp { cp with State := gotState cp, Next := cp.Next + 2 }
  | terminator : AtCR cp cp.Data.Body → cp.memcmp cp.Next TERMINATOR = true →
      BodyRound cp { cp.countLine with State := gotState cp, Next := cp.Next + 5 }
  | stuffedLine : AtCR cp cp.Data.Body → cp.memcmp cp.Next TERMINATOR = false →
      cp.char (cp.Next + 1) = 10 → cp.char (cp.Next + 2) = 46 →
      BodyRound cp { cp.countLine.countDotStuffed with Next := cp.Next + 2 }
  | line : AtCR cp cp.Data.Body → cp.memcmp cp.Next TERMINATOR = false →
      cp.char (cp.Next + 1) = 10 → cp.char (cp.Next + 2) ≠ 46 →
      BodyRound cp { cp.countLine with Next := cp.Next + 2 }
  | bareCR : AtCR cp cp.Data.Body → cp.char (cp.Next + 1) ≠ 10 →
      BodyRound cp { cp.countCR with Next := cp.Next + 1 }

/-- Why a loop has to wait. -/
def CHANNEL.Waits (cp : CHANNEL) (origin : ℕ) : Prop :=
  cp.used ≤ cp.Next ∨ (cp.char cp.Next = 13 ∧ cp.used < cp.Next + 5 ∧
    ¬ (cp.Next + 1 < cp.used ∧ cp.DotAt origin))

section Rounds

variable {conf : Innconf} {cp cp' : CHANNEL}

theorem headerStep_round (h : headerStep conf cp = some cp') : HeaderRound conf cp cp' := by
  unfold headerStep at h
  simp only [] at h
  split at h
  · cases h
  split at h
  · rename_i hlt hcr
    cases h
    exact .octet (by omega) hcr
  rename_i hlt hcr
  rw [ne_eq, not_not] at hcr
  split at h
  · rename_i hdot
    cases h
    exact .emptyArticle (by omega) hcr ⟨hdot.1, hdot.2.2⟩
  rename_i hdot
  split at h
  · cases h
  have hat : AtCR cp cp.Start :=
    ⟨hcr, by omega, fun hd => hdot ⟨hd.1, by omega, hd.2⟩⟩
  split at h
  · rename_i hterm
    split at h
    · rename_i hstart
      cases h
      exact .emptyHeaders hat hterm hstart
    · rename_i hstart
      cases h
      exact .noBody hat hterm hstart
  rename_i hterm
  rw [Bool.not_eq_true] at hterm
  split at h
  · rename_i hlf
    split at h
    · rename_i hstart
      cases h
      exact .noHeaders hat hterm hlf hstart
    · rename_i hstart
      split at h
      · rename_i hempty
        cases h
        exact .lastLine hat hterm hlf hstart hempty.1 hempty.2
      · rename_i hempty
        cases h
        exact .line hat hterm hlf hstart hempty
  · rename_i hlf
    cases h
    exact .bareCR hat hlf

theorem bodyStep_round (h : bodyStep cp = some cp') : BodyRound cp cp' := by
  unfold bodyStep at h
  simp only [] at h
  split at h
  · cases h
  split at h
  · rename_i hlt hcr
    cases h
    exact .octet (by omega) hcr
  rename_i hlt hcr
  rw [ne_eq, not_not] at hcr
  split at h
  · rename_i hdot
    cases h
    exact .emptyBody (by omega) hcr ⟨hdot.1, hdot.2.2⟩
  rename_i hdot
  split at h
  · cases h
  have hat : AtCR cp cp.Data.Body :=
    ⟨hcr, by omega, fun hd => hdot ⟨hd.1, by omega, hd.2⟩⟩
  split at h
  · rename_i hterm
    cases h
    exact .terminator hat hterm
  rename_i hterm
  rw [Bool.not_eq_true] at hterm
  split at h
  · rename_i hlf
    split at h
    · rename_i hdotted
      cases h
      exact .stuffedLine hat hterm hlf hdotted
    · rename_i hdotted
      cases h
      exact .line hat hterm hlf hdotted
  · rename_i hlf
    cases h
    exact .bareCR hat hlf

theorem headerStep_eq_none_iff : headerStep conf cp = none ↔ cp.Waits cp.Start := by
  unfold headerStep CHANNEL.Waits CHANNEL.DotAt
  simp only []
  split_ifs <;> simp only [false_iff, true_iff] <;> grind

theorem bodyStep_eq_none_iff : bodyStep cp = none ↔ cp.Waits cp.Data.Body := by
  unfold bodyStep CHANNEL.Waits CHANNEL.DotAt
  simp only []
  split_ifs <;> simp only [false_iff, true_iff] <;> grind

/-! ## What a round leaves alone -/

/-- The channels differ at most in the error and in what is recorded of header fields. -/
structure Framed (cp d : CHANNEL) : Prop where
  State : d.State = cp.State
  In : d.In = cp.In
  SendidSize : d.SendidSize = cp.SendidSize
  Start : d.Start = cp.Start
  Next : d.Next = cp.Next
  Body : d.Data.Body = cp.Data.Body
  Lines : d.Data.Lines = cp.Data.Lines
  HeaderLines : d.Data.HeaderLines = cp.Data.HeaderLines
  CRwithoutLF : d.Data.CRwithoutLF = cp.Data.CRwithoutLF
  LFwithoutCR : d.Data.LFwithoutCR = cp.Data.LFwithoutCR
  DotStuffedLines : d.Data.DotStuffedLines = cp.Data.DotStuffedLines
  CurHeader : d.Data.CurHeader = cp.Data.CurHeader

theorem Framed.refl : Framed cp cp :=
  ⟨rfl, rfl, rfl, rfl, rfl, rfl, rfl, rfl, rfl, rfl, rfl, rfl⟩

theorem ARTcheckheader_framed {size : ℕ} : Framed cp (ARTcheckheader conf cp size) := by
  unfold ARTcheckheader
  simp only []
  split
  · exact ⟨rfl, rfl, rfl, rfl, rfl, rfl, rfl, rfl, rfl, rfl, rfl, rfl⟩
  · split
    · exact .refl
    · exact ⟨rfl, rfl, rfl, rfl, rfl, rfl, rfl, rfl, rfl, rfl, rfl, rfl⟩

theorem ARTcheckheader_countHeaderLine {size : ℕ} :
    ARTcheckheader conf cp.countHeaderLine size =
      (ARTcheckheader conf cp size).countHeaderLine := by
  have hslice : cp.countHeaderLine.slice cp.countHeaderLine.Data.CurHeader size =
      cp.slice cp.Data.CurHeader size := rfl
  unfold ARTcheckheader
  simp only [hslice]
  split
  · rfl
  · split <;> rfl

/-- The channel once the header field before position `i` was checked, if a new one
begins there. -/
def checkedAt (conf : Innconf) (cp : CHANNEL) (i : ℕ) : CHANNEL :=
  if ISWHITE (cp.char i) = false then ARTcheckheader conf cp (i - cp.Data.CurHeader) else cp

theorem checkedAt_framed {i : ℕ} : Framed cp (checkedAt conf cp i) := by
  unfold checkedAt
  split
  · exact ARTcheckheader_framed
  · exact .refl

theorem headerLine_eq (i : ℕ) :
    headerLine conf cp i =
      { checkedAt conf cp i with
        Data :=
          { (checkedAt conf cp i).Data with
            HeaderLines := cp.Data.HeaderLines + 1
            CurHeader := if ISWHITE (cp.char i) = false then i else cp.Data.CurHeader
            DotStuffedLines :=
              if cp.char i = 46 then cp.Data.DotStuffedLines + 1
              else cp.Data.DotStuffedLines } } := by
  have hsize : i - cp.countHeaderLine.Data.CurHeader = i - cp.Data.CurHeader := rfl
  unfold headerLine checkedAt newHeader
  simp only [hsize, ARTcheckheader_countHeaderLine]
  by_cases hwhite : ISWHITE (cp.char i) = false
  · have hf := @ARTcheckheader_framed conf cp (i - cp.Data.CurHeader)
    simp only [if_pos hwhite]
    split
    · rw [CHANNEL.countDotStuffed, CHANNEL.countHeaderLine]
      simp only [hf.HeaderLines, hf.DotStuffedLines]
    · rw [CHANNEL.countHeaderLine]
      simp only [hf.HeaderLines, ← hf.DotStuffedLines]
  · simp only [if_neg hwhite]
    split <;> rfl

/-- What all rounds have in common. -/
structure Advances (cp cp' : CHANNEL) : Prop where
  In : cp'.In = cp.In
  SendidSize : cp'.SendidSize = cp.SendidSize
  Start : cp'.Start = cp.Start
  lt : cp.Next < cp'.Next
  le : cp'.Next ≤ cp.used

theorem countOctet_frame {c : UInt8} {text : String} :
    (countOctet cp c text).In = cp.In ∧ (countOctet cp c text).SendidSize = cp.SendidSize ∧
      (countOctet cp c text).Start = cp.Start := by
  unfold countOctet
  split <;> · simp only []; split <;> exact ⟨rfl, rfl, rfl⟩

theorem HeaderRound.advances (h : HeaderRound conf cp cp') : Advances cp cp' := by
  cases h with
  | octet hlt _ =>
    obtain ⟨hin, hid, hstart⟩ := countOctet_frame (c := cp.char cp.Next)
    exact ⟨hin, hid, hstart, Nat.lt_succ_self _, hlt⟩
  | emptyArticle hlt _ _ => exact ⟨rfl, rfl, rfl, by simp, hlt⟩
  | emptyHeaders hat _ _ => exact ⟨rfl, rfl, rfl, by simp, hat.room⟩
  | noBody hat _ _ => exact ⟨rfl, rfl, rfl, by simp, hat.room⟩
  | noHeaders hat _ _ _ =>
    have := hat.room
    exact ⟨rfl, rfl, rfl, by simp [startBody], by simp only [startBody]; omega⟩
  | lastLine hat _ _ _ _ _ =>
    have := hat.room
    have hf : Framed cp (checkedAt conf cp (cp.Next + 2)) := checkedAt_framed
    rw [headerLine_eq]
    exact ⟨hf.In, hf.SendidSize, hf.Start, by simp [startBody], by simp only [startBody]; omega⟩
  | line hat _ _ _ _ =>
    have := hat.room
    have hf : Framed cp (checkedAt conf cp (cp.Next + 2)) := checkedAt_framed
    rw [headerLine_eq]
    exact ⟨hf.In, hf.SendidSize, hf.Start, by simp, by simp only []; omega⟩
  | bareCR hat _ =>
    have := hat.room
    exact ⟨rfl, rfl, rfl, by simp, by simp only []; omega⟩

theorem BodyRound.advances (h : BodyRound cp cp') : Advances cp cp' := by
  cases h with
  | octet hlt _ =>
    obtain ⟨hin, hid, hstart⟩ := countOctet_frame (c := cp.char cp.Next)
    exact ⟨hin, hid, hstart, Nat.lt_succ_self _, hlt⟩
  | emptyBody hlt _ _ => exact ⟨rfl, rfl, rfl, by simp, hlt⟩
  | terminator hat _ => exact ⟨rfl, rfl, rfl, by simp, hat.room⟩
  | stuffedLine hat _ _ _ =>
    have := hat.room
    exact ⟨rfl, rfl, rfl, by simp, by simp only []; omega⟩
  | line hat _ _ _ =>
    have := hat.room
    exact ⟨rfl, rfl, rfl, by simp, by simp only []; omega⟩
  | bareCR hat _ =>
    have := hat.room
    exact ⟨rfl, rfl, rfl, by simp, by simp only []; omega⟩

/-- A round is one of the header loop or one of the body loop. -/
theorem parseStep_round (h : parseStep conf cp = some cp') :
    (cp.State = CSgetheader ∧ HeaderRound conf cp cp') ∨
      ((cp.State = CSgetbody ∨ cp.State = CSeatarticle) ∧ BodyRound cp cp') := by
  unfold parseStep at h
  split at h
  · rename_i hs
    exact .inl ⟨hs, headerStep_round h⟩
  · rename_i hs
    exact .inr ⟨.inl hs, bodyStep_round h⟩
  · rename_i hs
    exact .inr ⟨.inr hs, bodyStep_round h⟩
  · cases h

theorem parseStep_advances (h : parseStep conf cp = some cp') : Advances cp cp' :=
  (parseStep_round h).elim (·.2.advances) (·.2.advances)

/-- Where the loop the channel is in looks for a terminator right away. -/
def CHANNEL.origin (cp : CHANNEL) : ℕ := if cp.State = CSgetheader then cp.Start else cp.Data.Body

/-- The loops stop when the article is complete or they have to wait. -/
theorem parseStep_eq_none_iff :
    parseStep conf cp = none ↔ (cp.Receiving → cp.Waits cp.origin) := by
  unfold parseStep CHANNEL.Receiving CHANNEL.origin
  split
  · rename_i hs
    rw [headerStep_eq_none_iff, if_pos hs]
    simp [hs]
  · rename_i hs
    rw [bodyStep_eq_none_iff, if_neg (by simp [hs])]
    simp [hs]
  · rename_i hs
    rw [bodyStep_eq_none_iff, if_neg (by simp [hs])]
    simp [hs]
  · rename_i h₁ h₂ h₃
    simp only [true_iff]
    rintro (h | h | h)
    · exact absurd h h₁
    · exact absurd h h₂
    · exact absurd h h₃

theorem DotAt_embed {pre : List UInt8} {delta : ℤ} {origin : ℕ} :
    (cp.embed pre [] delta).DotAt (pre.length + origin) ↔ cp.DotAt origin := by
  unfold CHANNEL.DotAt
  show pre.length + cp.Next = pre.length + origin + 1 ∧
    (cp.embed pre [] delta).memcmp (pre.length + cp.Next - 1) DOTCRLF = true ↔ _
  rw [Nat.add_assoc, Nat.add_left_cancel_iff]
  refine and_congr_right fun hnext => ?_
  rw [Nat.add_sub_assoc (by omega), CHANNEL.memcmp, CHANNEL.memcmp]
  have hslice : (cp.embed pre [] delta).slice (pre.length + (cp.Next - 1)) DOTCRLF.length =
      cp.slice (cp.Next - 1) DOTCRLF.length := by
    unfold CHANNEL.slice CHANNEL.embed
    simp only [List.append_nil, ← List.drop_drop, List.drop_left]
  rw [hslice]

theorem waits_embed {pre : List UInt8} {delta : ℤ} {origin : ℕ} :
    (cp.embed pre [] delta).Waits (pre.length + origin) ↔ cp.Waits origin := by
  have hused : (cp.embed pre [] delta).used = pre.length + cp.used := used_embed
  unfold CHANNEL.Waits
  rw [DotAt_embed, hused]
  show pre.length + cp.used ≤ pre.length + cp.Next ∨
    ((cp.embed pre [] delta).char (pre.length + cp.Next) = 13 ∧
      pre.length + cp.used < pre.length + cp.Next + 5 ∧
      ¬ (pre.length + cp.Next + 1 < pre.length + cp.used ∧ _)) ↔ _
  by_cases hend : cp.used ≤ cp.Next
  · simp [hend]
  · rw [char_embed (by omega)]
    simp only [Nat.add_assoc, Nat.add_le_add_iff_left, Nat.add_lt_add_iff_left]

/-- Octets before the article and another address change nothing. -/
theorem parseStep_place {pre : List UInt8} {delta : ℤ} :
    parseStep conf (cp.embed pre [] delta) =
      (parseStep conf cp).map (·.embed pre [] delta) := by
  rcases h : parseStep conf cp with _ | cp'
  · have horigin : (cp.embed pre [] delta).origin = pre.length + cp.origin := by
      show (if cp.State = CSgetheader then pre.length + cp.Start else pre.length + cp.Data.Body) = _
      rw [CHANNEL.origin]
      split <;> rfl
    rw [Option.map_none, parseStep_eq_none_iff, horigin, waits_embed]
    exact parseStep_eq_none_iff.mp h
  · exact parseStep_embed h

/-! ## Runs to the end -/

theorem runSteps_parse : runSteps (parseStep conf) (cp.used - cp.Next) cp ∈
    eval (parseStep conf) cp := by
  refine runSteps_mem_eval (fun cp => cp.used - cp.Next) ?_ (le_refl _)
  intro a b hab
  have ha := parseStep_advances hab
  have hused : b.used = a.used := by rw [CHANNEL.used, ha.In]; rfl
  have := ha.lt
  have := ha.le
  simp only [hused]
  omega

end Rounds

end Inn.Innd
