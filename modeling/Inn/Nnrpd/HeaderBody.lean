import Inn.Nnrpd.Groups

/-!
# Inn.Nnrpd.HeaderBody — what is a valid header field body

`IsValidHeaderBody` reads a text twice, as octets of characters and as lines.

* `IsText`, `is_valid_utf8_iff` — the characters;
* `BodyLines`, `bodyLoop_iff` — the lines;
* `IsValidHeaderBody_iff` — both.
-/

namespace Inn.Nnrpd

open Inn.Innd

/-! ## Characters -/

/-- The octets of one character: a printable ASCII character, TAB, CR or LF, or an octet that
announces 2 to 6 octets with as many behind it. -/
def IsCharacter : List UInt8 → Prop
  | [] => False
  | c :: s => (topBits c = 0 ∧ (isprint c = true ∨ c = 13 ∨ c = 10 ∨ c = 9) ∧ s = []) ∨
      (2 ≤ topBits c ∧ topBits c ≤ 6 ∧ s.length + 1 = topBits c ∧ ∀ b ∈ s, 0x80 ≤ b ∧ b < 0xC0)

/-- A text of such characters. -/
def IsText (p : List UInt8) : Prop := ∃ chars : List (List UInt8),
  (∀ l ∈ chars, IsCharacter l) ∧ p = chars.flatten

section Characters

variable {p rest tail : List UInt8} {left : ℕ}

/-- The octets behind the first one. -/
theorem utf8Loop_tail (htail : ∀ b ∈ tail, 0x80 ≤ b ∧ b < 0xC0) (rest : List UInt8) :
    utf8Loop tail.length (tail ++ rest) = utf8Loop 0 rest := by
  induction tail with
  | nil => rfl
  | cons b tail ih =>
    obtain ⟨hlow, hhigh⟩ := htail b List.mem_cons_self
    rw [List.cons_append, List.length_cons, utf8Loop, decide_eq_true hlow, decide_eq_true hhigh,
      ih fun d hd => htail d (List.mem_cons_of_mem b hd)]
    rfl

theorem tail_of_utf8Loop (h : utf8Loop left p = true) : ∃ tail rest, p = tail ++ rest ∧
    tail.length = left ∧ (∀ b ∈ tail, 0x80 ≤ b ∧ b < 0xC0) ∧ utf8Loop 0 rest = true := by
  induction p generalizing left with
  | nil =>
    cases left with
    | zero => exact ⟨[], [], rfl, rfl, fun b hb => absurd hb List.not_mem_nil, rfl⟩
    | succ left => cases h
  | cons c p ih =>
    cases left with
    | zero => exact ⟨[], c :: p, rfl, rfl, fun b hb => absurd hb List.not_mem_nil, h⟩
    | succ left =>
      rw [utf8Loop] at h
      obtain ⟨hc, hp⟩ := Bool.and_eq_true_iff.mp h
      obtain ⟨hlow, hhigh⟩ := Bool.and_eq_true_iff.mp hc
      obtain ⟨tail, rest, rfl, hlen, htail, hrest⟩ := ih hp
      refine ⟨c :: tail, rest, rfl, congrArg (· + 1) hlen, fun b hb => ?_, hrest⟩
      rcases List.mem_cons.mp hb with rfl | hb
      · exact ⟨of_decide_eq_true hlow, of_decide_eq_true hhigh⟩
      · exact htail b hb

/-- `is_valid_utf8` accepts the texts. -/
theorem is_valid_utf8_iff (p : List UInt8) : is_valid_utf8 p = true ↔ IsText p := by
  rw [is_valid_utf8]
  constructor
  · intro h
    induction hn : p.length using Nat.strongRecOn generalizing p with
    | ind n ih =>
      rcases p with _ | ⟨c, p⟩
      · exact ⟨[], fun l hl => absurd hl List.not_mem_nil, rfl⟩
      · rw [List.length_cons] at hn
        have hcons : ∀ {l q : List UInt8}, IsCharacter l → IsText q → IsText (l ++ q) := by
          rintro l q hl ⟨chars, hchars, rfl⟩
          refine ⟨l :: chars, fun l' hl' => ?_, rfl⟩
          rcases List.mem_cons.mp hl' with rfl | hl'
          · exact hl
          · exact hchars l' hl'
        rw [utf8Loop] at h
        split at h
        · rename_i htop
          obtain ⟨hc, hp⟩ := Bool.and_eq_true_iff.mp h
          have hchar : IsCharacter [c] := .inl ⟨htop, by simpa [or_assoc] using hc, rfl⟩
          exact hcons hchar (ih p.length (by omega) p hp rfl)
        · obtain ⟨hc, hp⟩ := Bool.and_eq_true_iff.mp h
          obtain ⟨hlow, hhigh⟩ := Bool.and_eq_true_iff.mp hc
          have hlow := of_decide_eq_true hlow
          have hhigh := of_decide_eq_true hhigh
          obtain ⟨tail, rest, rfl, hlen, htail, hrest⟩ := tail_of_utf8Loop hp
          rw [List.length_append] at hn
          have hchar : IsCharacter (c :: tail) := .inr ⟨hlow, hhigh, by omega, htail⟩
          exact hcons hchar (ih rest.length (by omega) rest hrest rfl)
  · rintro ⟨chars, hchars, rfl⟩
    induction chars with
    | nil => rfl
    | cons l chars ih =>
      have ih := ih fun l' hl' => hchars l' (List.mem_cons_of_mem l hl')
      have hl := hchars l List.mem_cons_self
      rcases l with _ | ⟨c, s⟩
      · exact hl.elim
      · rw [List.flatten_cons, List.cons_append, utf8Loop]
        rcases hl with ⟨htop, hc, rfl⟩ | ⟨hlow, hhigh, hlen, htail⟩
        · have hc : (isprint c || c == 13 || c == 10 || c == 9) = true := by
            simpa [or_assoc] using hc
          rw [if_pos htop, hc, List.nil_append, ih]
          rfl
        · have hlen : topBits c - 1 = s.length := by omega
          rw [if_neg (by omega), decide_eq_true hlow, decide_eq_true hhigh, hlen,
            utf8Loop_tail htail, ih]
          rfl

end Characters

/-! ## Lines -/

/-- A line with something on it. -/
def IsBodyLine (l : List UInt8) : Prop := 10 ∉ l ∧ 13 ∉ l ∧ ∃ c ∈ l, ISWHITE c = false

/-- Lines that are cut at each LF or CRLF; those behind the first begin with white space. -/
inductive BodyLines : List UInt8 → Prop where
  | last {l : List UInt8} : IsBodyLine l → BodyLines l
  | fold {l cut rest : List UInt8} : IsBodyLine l → cut = [10] ∨ cut = [13, 10] →
      rest.head?.any ISWHITE = true → BodyLines rest → BodyLines (l ++ cut ++ rest)

section Lines

variable {p l seen : List UInt8} {e : Bool}

/-- The loop over the rest of a line. -/
theorem bodyLoop_line (hlf : 10 ∉ l) (hcr : 13 ∉ l) (e : Bool) (p : List UInt8) :
    bodyLoop e (l ++ p) = bodyLoop (e && l.all ISWHITE) p := by
  induction l generalizing e with
  | nil => rw [List.nil_append, List.all_nil, Bool.and_true]
  | cons c l ih =>
    rw [List.mem_cons, not_or] at hlf hcr
    have hstep : bodyLoop e (c :: (l ++ p)) = bodyLoop (e && ISWHITE c) (l ++ p) := by
      rw [bodyLoop.eq_def]
      split
      · rename_i heq
        cases heq
      · rename_i heq
        exact absurd (List.cons.inj heq).1.symm hcr.1
      · rename_i heq
        exact absurd (List.cons.inj heq).1.symm hcr.1
      · rename_i heq
        exact absurd (List.cons.inj heq).1.symm hlf.1
      · rename_i heq
        cases heq
        rfl
    rw [List.cons_append, hstep, ih hlf.2 hcr.2, List.all_cons, Bool.and_assoc]

/-- The loop with the beginning of its line. -/
theorem lines_of_bodyLoop (hlf : 10 ∉ seen) (hcr : 13 ∉ seen)
    (h : bodyLoop (seen.all ISWHITE) p = true) : BodyLines (seen ++ p) := by
  have hline : seen.all ISWHITE = false → IsBodyLine seen := by
    intro hall
    obtain ⟨c, hc, hwhite⟩ := List.all_eq_false.mp hall
    exact ⟨hlf, hcr, c, hc, Bool.eq_false_iff.mpr hwhite⟩
  induction hn : p.length using Nat.strongRecOn generalizing p seen with
  | ind n ih =>
    rcases p with _ | ⟨c, p⟩
    · rw [bodyLoop, Bool.not_eq_true'] at h
      rw [List.append_nil]
      exact .last (hline h)
    · rw [List.length_cons] at hn
      have hnil : ∀ {q : List UInt8}, q.length < n → bodyLoop true q = true → BodyLines q := by
        intro q hq hloop
        exact ih q.length hq List.not_mem_nil List.not_mem_nil hloop (fun h => by cases h) rfl
      rcases bodyLoop_cons h with ⟨rfl, he, hwhite, hp⟩ | ⟨rfl, he, q, rfl, hwhite, hq⟩ |
        ⟨hne, hne', hp⟩
      · rw [← List.singleton_append, ← List.append_assoc]
        exact .fold (hline he) (.inl rfl) hwhite (hnil (by omega) hp)
      · have hsplit : seen ++ 13 :: 10 :: q = seen ++ [13, 10] ++ q := by
          rw [List.append_assoc]
          rfl
        rw [List.length_cons] at hn
        rw [hsplit]
        exact .fold (hline he) (.inr rfl) hwhite (hnil (by omega) hq)
      · -- the line goes on
        have hlf' : 10 ∉ seen ++ [c] := by simp [hlf, Ne.symm hne]
        have hcr' : 13 ∉ seen ++ [c] := by simp [hcr, Ne.symm hne']
        have hall : (seen ++ [c]).all ISWHITE = (seen.all ISWHITE && ISWHITE c) := by simp
        rw [List.append_cons]
        refine ih p.length (by omega) hlf' hcr' (hall ▸ hp) (fun hall => ?_) rfl
        obtain ⟨d, hd, hwhite⟩ := List.all_eq_false.mp hall
        exact ⟨hlf', hcr', d, hd, Bool.eq_false_iff.mpr hwhite⟩

theorem bodyLoop_of_lines (h : BodyLines p) : bodyLoop true p = true := by
  have hall : ∀ {l : List UInt8}, IsBodyLine l → l.all ISWHITE = false := by
    rintro l ⟨-, -, c, hc, hwhite⟩
    exact List.all_eq_false.mpr ⟨c, hc, Bool.eq_false_iff.mp hwhite⟩
  induction h with
  | @last l hl =>
    have := bodyLoop_line hl.1 hl.2.1 true []
    rw [List.append_nil, hall hl] at this
    rw [this]
    rfl
  | @fold l cut rest hl hcut hwhite _ ih =>
    rw [List.append_assoc, bodyLoop_line hl.1 hl.2.1, hall hl]
    rcases hcut with rfl | rfl
    · change (true && rest.head?.any ISWHITE && bodyLoop true rest) = true
      rw [hwhite, ih]
      rfl
    · change (true && rest.head?.any ISWHITE && bodyLoop true rest) = true
      rw [hwhite, ih]
      rfl

theorem bodyLoop_iff (p : List UInt8) : bodyLoop true p = true ↔ BodyLines p :=
  ⟨fun h => lines_of_bodyLoop List.not_mem_nil List.not_mem_nil h, bodyLoop_of_lines⟩

theorem BodyLines.ne_nil (h : BodyLines p) : p ≠ [] := by
  rintro rfl
  exact Bool.false_ne_true (bodyLoop_of_lines h)

end Lines

/-- A valid body is a text of lines. -/
theorem IsValidHeaderBody_iff (p : List UInt8) :
    IsValidHeaderBody p = true ↔ IsText p ∧ BodyLines p := by
  rw [IsValidHeaderBody, Bool.and_eq_true, Bool.and_eq_true, is_valid_utf8_iff, bodyLoop_iff]
  constructor
  · rintro ⟨⟨-, htext⟩, hlines⟩
    exact ⟨htext, hlines⟩
  · rintro ⟨htext, hlines⟩
    refine ⟨⟨?_, htext⟩, hlines⟩
    rw [Bool.not_eq_true', List.isEmpty_eq_false_iff]
    exact hlines.ne_nil

/-- Control characters other than TAB, CR and LF. -/
def HasControls (p : List UInt8) : Prop :=
  ∃ c ∈ p, c ≠ 9 ∧ c ≠ 10 ∧ c ≠ 13 ∧ (c < 32 ∨ c = 127)

/-- An overlong character is no UTF-8, but it is accepted. -/
theorem overlong_body_accepted : ¬ ∀ p : List UInt8, (IsValidHeaderBody p = true ↔
    ByteArray.IsValidUTF8 ⟨p.toArray⟩ ∧ ¬ HasControls p ∧ BodyLines p) := by
  intro h
  have hvalid := ((h [0xC0, 0x80]).mp (by decide)).1
  rw [← ByteArray.validateUTF8_eq_true_iff] at hvalid
  exact absurd hvalid (by decide)

end Inn.Nnrpd
