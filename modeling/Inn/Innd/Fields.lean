import Inn.Innd.Terminator

/-!
# Inn.Innd.Fields — the header fields of an article

A header field goes on to the first CR LF that no white character follows, and the
header ends with an empty line. `headerFields` says this without the parser;
`InHeader` and `InBody` say that the parser has checked exactly these fields, in
order, and recorded them as `recorded` does.
-/

namespace Inn.Innd

open ChannelState StateTransition

/-! ## Fields of a text -/

/-- An error text is never empty. -/
theorem ARTerror_ne_nil {cp : CHANNEL} {text : List UInt8} : (ARTerror cp text).Error ≠ [] := by
  show cp.rejectCode ++ octets " " ++ text ≠ []
  intro h
  have hnil := (List.append_eq_nil_iff.mp (List.append_eq_nil_iff.mp h).1).2
  cases hnil

/-- The first header field of a text, and the rest of the text. -/
def nextField : List UInt8 → List UInt8 × List UInt8
  | [] => ([], [])
  | x :: rest =>
    if x = 13 ∧ rest.head? = some 10 ∧ ISWHITE (rest.getD 1 0) = false then
      ([13, 10], rest.tail)
    else (x :: (nextField rest).1, (nextField rest).2)

/-- The header fields before the empty line, and the text after it. -/
def splitHeader : ℕ → List UInt8 → List (List UInt8) × Option (List UInt8)
  | 0, _ => ([], none)
  | fuel + 1, text =>
    if text = [] then ([], none)
    else if OctetsAt text 0 CRLF then ([], some (text.drop 2))
    else
      let rest := splitHeader fuel (nextField text).2
      ((nextField text).1 :: rest.1, rest.2)

/-- The header fields of an article. -/
def headerFields (text : List UInt8) : List (List UInt8) := (splitHeader text.length text).1

/-- The body of an article, if there is an empty line before it. -/
def articleBody (text : List UInt8) : Option (List UInt8) := (splitHeader text.length text).2

section Equations

-- the equations, once for all proofs below
attribute [local simp] nextField splitHeader skipWhite skipWhiteBack

end Equations

section Splitting

variable {text : List UInt8} {p : ℕ}

/-- A field ends with the first line end that no white character follows. -/
theorem nextField_of (hcrlf : OctetsAt text p CRLF) (hend : ISWHITE (text.getD (p + 2) 0) = false)
    (hfirst : ∀ q < p, OctetsAt text q CRLF → ISWHITE (text.getD (q + 2) 0) = true) :
    nextField text = (text.take (p + 2), text.drop (p + 2)) := by
  induction p generalizing text with
  | zero =>
    obtain ⟨hcr, hlf⟩ := octetsAt_crlf.mp hcrlf
    match text, hcr, hlf with
    | x :: y :: rest, hcr, hlf =>
      obtain rfl : x = 13 := Option.some.inj hcr
      obtain rfl : y = 10 := Option.some.inj hlf
      rw [nextField, if_pos ⟨rfl, rfl, hend⟩]
      rfl
  | succ p ih =>
    match text with
    | [] =>
      have := (octetsAt_crlf.mp hcrlf).1
      cases this
    | x :: rest =>
      have hcons : ∀ i, OctetsAt (x :: rest) (i + 1) CRLF ↔ OctetsAt rest i CRLF := fun i => Iff.rfl
      rw [hcons] at hcrlf
      have hnot : ¬ (x = 13 ∧ rest.head? = some 10 ∧ ISWHITE (rest.getD 1 0) = false) := by
        rintro ⟨hx, hlf, hwhite⟩
        have := hfirst 0 (Nat.succ_pos p) (octetsAt_crlf.mpr
          ⟨by rw [hx]; rfl, by rw [← hlf]; exact (List.head?_eq_getElem?).symm⟩)
        have hsame : (x :: rest).getD (0 + 2) 0 = rest.getD 1 0 := rfl
        rw [hsame, hwhite] at this
        cases this
      rw [nextField, if_neg hnot, ih hcrlf hend fun q hq hat => hfirst (q + 1) (by omega) hat]
      rfl

theorem nextField_append (text : List UInt8) :
    (nextField text).1 ++ (nextField text).2 = text := by
  induction text with
  | nil => rfl
  | cons x rest ih =>
    rw [nextField]
    split
    · rename_i h
      obtain ⟨rfl, hlf, _⟩ := h
      match rest, hlf with
      | y :: rest, hlf =>
        obtain rfl : y = 10 := Option.some.inj hlf
        rfl
    · rw [List.cons_append, ih]

theorem nextField_length (h : text ≠ []) : (nextField text).2.length < text.length := by
  match text, h with
  | x :: rest, _ =>
    have hlen := congrArg List.length (nextField_append (x :: rest))
    rw [List.length_append] at hlen
    have hpos : (nextField (x :: rest)).1.length ≠ 0 := by
      rw [nextField]
      split <;> simp
    omega

theorem splitHeader_fuel {fuel : ℕ} (h : text.length ≤ fuel) :
    splitHeader fuel text = (headerFields text, articleBody text) := by
  have key : ∀ (n m : ℕ) (text : List UInt8), text.length ≤ n → text.length ≤ m →
      splitHeader n text = splitHeader m text := by
    intro n
    induction n with
    | zero =>
      intro m text hn _
      rw [List.eq_nil_of_length_eq_zero (Nat.le_zero.mp hn)]
      cases m <;> rfl
    | succ n ih =>
      intro m text hn hm
      cases m with
      | zero =>
        rw [List.eq_nil_of_length_eq_zero (Nat.le_zero.mp hm)]
        rfl
      | succ m =>
        rw [splitHeader, splitHeader]
        by_cases hnil : text = []
        · rw [if_pos hnil, if_pos hnil]
        · have := nextField_length hnil
          rw [if_neg hnil, if_neg hnil, ih m _ (by omega) (by omega)]
  exact key _ _ _ h (le_refl _)

/-- Where the header ends. -/
theorem fields_of_crlf (h : OctetsAt text 0 CRLF) :
    headerFields text = [] ∧ articleBody text = some (text.drop 2) := by
  match text, h with
  | x :: rest, h =>
    unfold headerFields articleBody
    rw [List.length_cons, splitHeader, if_neg (by simp), if_pos h]
    exact ⟨rfl, rfl⟩

/-- The first field, and then those of the rest. -/
theorem fields_of_next (hcrlf : OctetsAt text p CRLF)
    (hend : ISWHITE (text.getD (p + 2) 0) = false)
    (hfirst : ∀ q < p, OctetsAt text q CRLF → ISWHITE (text.getD (q + 2) 0) = true)
    (hne : ¬ OctetsAt text 0 CRLF) :
    headerFields text = text.take (p + 2) :: headerFields (text.drop (p + 2)) ∧
      articleBody text = articleBody (text.drop (p + 2)) := by
  match text, hne with
  | [], _ => cases (octetsAt_crlf.mp hcrlf).1
  | x :: rest, hne =>
    have hnext := nextField_of hcrlf hend hfirst
    have hlen : (nextField (x :: rest)).2.length < (x :: rest).length :=
      nextField_length (by simp)
    have hsplit : splitHeader (x :: rest).length (x :: rest) =
        ((nextField (x :: rest)).1 :: headerFields (nextField (x :: rest)).2,
          articleBody (nextField (x :: rest)).2) := by
      rw [List.length_cons, splitHeader, if_neg (by simp), if_neg hne]
      rw [splitHeader_fuel (Nat.le_of_lt_succ hlen)]
    rw [hnext] at hsplit
    constructor
    · rw [headerFields, hsplit]
    · rw [articleBody, hsplit]

end Splitting

/-! ## What the parser records -/

/-- What the parser has recorded of the header fields up to `offset`. -/
structure Recorded where
  offset : ℕ
  BytesHeader : Option ℤ
  HdrContent : ℕ → HDRCONTENT

/-- One more header field, in a buffer that begins at address 0. -/
def Recorded.add (conf : Innconf) (r : Recorded) (field : List UInt8) : Recorded :=
  match (if headerError field = none then systemHeader field else none) with
  | none => { r with offset := r.offset + field.length }
  | some (i, colon) =>
    { offset := r.offset + field.length
      BytesHeader := if i = HDR_BYTES then some (r.offset : ℤ) else r.BytesHeader
      HdrContent := Function.update r.HdrContent i
        (recordHeader conf field r.offset i colon (r.HdrContent i)) }

/-- The record of the header fields of an article. -/
def recorded (conf : Innconf) (fields : List (List UInt8)) : Recorded :=
  fields.foldl (Recorded.add conf) ⟨0, none, fun _ => ⟨none, 0, 13⟩⟩

theorem recorded_concat (conf : Innconf) (fields : List (List UInt8)) (field : List UInt8) :
    recorded conf (fields ++ [field]) = (recorded conf fields).add conf field := by
  rw [recorded, List.foldl_append]
  rfl

theorem Recorded.add_offset (conf : Innconf) (r : Recorded) (field : List UInt8) :
    (r.add conf field).offset = r.offset + field.length := by
  unfold Recorded.add
  split <;> rfl

theorem recorded_offset (conf : Innconf) (fields : List (List UInt8)) :
    (recorded conf fields).offset = fields.flatten.length := by
  induction fields using List.reverseRecOn with
  | nil => rfl
  | append_singleton fields field ih =>
    rw [recorded_concat, Recorded.add_offset, ih, List.flatten_append, List.length_append]
    simp

/-! ### Field bodies lie in the header -/

theorem skipWhite_ge (header : List UInt8) (stop fuel p : ℕ) :
    p ≤ skipWhite header stop fuel p := by
  induction fuel generalizing p with
  | zero => exact le_refl _
  | succ fuel ih =>
    rw [skipWhite]
    split
    · exact (Nat.le_succ p).trans (ih (p + 1))
    · exact le_refl _

theorem skipWhiteBack_le (header : List UInt8) (start p : ℕ) :
    skipWhiteBack header start p ≤ p := by
  induction p with
  | zero => exact le_refl _
  | succ p ih =>
    rw [skipWhiteBack]
    split
    · exact ih.trans (Nat.le_succ p)
    · exact le_refl _

theorem fieldBody_le (conf : Innconf) (i : ℕ) (header : List UInt8) (colon : ℕ) :
    (fieldBody conf i header colon).2.toNat = 0 ∨
      (fieldBody conf i header colon).1 + (fieldBody conf i header colon).2.toNat ≤
        header.length := by
  unfold fieldBody
  split
  · simp only []
    have hge := skipWhite_ge header (header.length - 2) header.length (colon + 1)
    have hle := skipWhiteBack_le header
      (skipWhite header (header.length - 2) header.length (colon + 1)) (header.length - 3)
    omega
  · simp only []
    omega

/-- Every recorded field body that is not empty lies in the fields. -/
theorem recorded_le (conf : Innconf) (fields : List (List UInt8)) (i : ℕ) (v : ℤ)
    (h : ((recorded conf fields).HdrContent i).Value = some v) :
    ((recorded conf fields).HdrContent i).Length.toNat = 0 ∨
      (0 ≤ v ∧ v.toNat + ((recorded conf fields).HdrContent i).Length.toNat ≤
        fields.flatten.length) := by
  induction fields using List.reverseRecOn generalizing v with
  | nil => cases h
  | append_singleton fields field ih =>
    have hlen : (fields ++ [field]).flatten.length = fields.flatten.length + field.length := by
      simp
    rw [hlen]
    rw [recorded_concat, Recorded.add] at h ⊢
    split at h
    · have := ih v h
      simp only
      omega
    · rename_i j colon _
      simp only at h ⊢
      by_cases hj : i = j
      · subst hj
        rw [Function.update_self] at h ⊢
        unfold recordHeader at h ⊢
        by_cases hzero : ((recorded conf fields).HdrContent i).Length ≠ 0
        · simp only [if_pos hzero] at h ⊢
          split at h
          · rename_i hreq
            rw [if_pos hreq]
            exact .inl rfl
          · rename_i hreq
            rw [if_neg hreq]
            have := ih v h
            omega
        · simp only [if_neg hzero] at h ⊢
          have hv := Option.some.inj h
          have hle := fieldBody_le conf i field colon
          rw [recorded_offset] at hv
          omega
      · rw [Function.update_of_ne hj] at h ⊢
        have := ih v h
        omega

/-- The channel has the record of the header fields. -/
structure HasRecord (conf : Innconf) (fields : List (List UInt8)) (c : CHANNEL) : Prop where
  BytesHeader : c.Data.BytesHeader = (recorded conf fields).BytesHeader
  HdrContent : c.Data.HdrContent = (recorded conf fields).HdrContent

section Recording

variable {conf : Innconf} {text : List UInt8} {fields : List (List UInt8)} {c : CHANNEL} {size : ℕ}

/-- `ARTcheckheader` records one more field. -/
theorem HasRecord.check (h : HasRecord conf fields c) (hdata : c.In.data = 0)
    (hcur : c.Data.CurHeader = fields.flatten.length) :
    HasRecord conf (fields ++ [c.slice c.Data.CurHeader size]) (ARTcheckheader conf c size) := by
  obtain ⟨field, hfield⟩ : ∃ field, field = c.slice c.Data.CurHeader size := ⟨_, rfl⟩
  have hoffset : c.In.data + (c.Data.CurHeader : ℤ) = ((recorded conf fields).offset : ℤ) := by
    rw [hdata, hcur, recorded_offset, zero_add]
  unfold ARTcheckheader
  simp only [← hfield, hoffset]
  rcases herr : headerError field with _ | text
  · rcases hsys : systemHeader field with _ | ⟨i, colon⟩
    · constructor
      · rw [recorded_concat, Recorded.add, if_pos herr, hsys]
        exact h.BytesHeader
      · rw [recorded_concat, Recorded.add, if_pos herr, hsys]
        exact h.HdrContent
    · constructor
      · rw [recorded_concat, Recorded.add, if_pos herr, hsys]
        simp only [h.BytesHeader]
      · rw [recorded_concat, Recorded.add, if_pos herr, hsys]
        simp only [h.HdrContent]
  · have hne : ¬ headerError field = none := by
      rw [herr]
      exact fun h => by cases h
    constructor
    · rw [recorded_concat, Recorded.add, if_neg hne]
      exact h.BytesHeader
    · rw [recorded_concat, Recorded.add, if_neg hne]
      exact h.HdrContent

/-- When `ARTcheckheader` sets an error. -/
theorem ARTcheckheader_error :
    ((ARTcheckheader conf c size).Error ≠ [] ↔
      c.Error ≠ [] ∨ headerError (c.slice c.Data.CurHeader size) ≠ none) := by
  unfold ARTcheckheader
  simp only []
  rcases herr : headerError (c.slice c.Data.CurHeader size) with _ | text
  · simp only [ne_eq, not_true_eq_false, or_false]
    split <;> exact Iff.rfl
  · have : (ARTerror c text).Error ≠ [] := ARTerror_ne_nil
    simp [this]

end Recording

/-! ## The parser in the header -/

/-- The first octet of a header line other than the first line, for a body at `body`; the
header loop does not look at it. -/
def Skipped (text : List UInt8) (body j : ℕ) : Prop :=
  2 ≤ j ∧ j < body ∧ OctetsAt text (j - 2) CRLF

/-- A NUL before `n` that the loops look at. -/
def SeesNul (text : List UInt8) (body n : ℕ) : Prop :=
  ∃ j < n, text[j]? = some 0 ∧ ¬ Skipped text body j

/-- One of the fields has an error. -/
def Faulty (fields : List (List UInt8)) : Prop := ∃ field ∈ fields, headerError field ≠ none

/-- The header loop is at `n`, has checked `fields`, and is inside another field. -/
structure InHeader (conf : Innconf) (text : List UInt8) (fields : List (List UInt8)) (n : ℕ)
    (c : CHANNEL) : Prop where
  le : c.Data.CurHeader ≤ n
  taken : text.take c.Data.CurHeader = fields.flatten
  split : headerFields text = fields ++ headerFields (text.drop c.Data.CurHeader)
  body : articleBody text = articleBody (text.drop c.Data.CurHeader)
  folded : ∀ p, c.Data.CurHeader ≤ p → p < n → OctetsAt text p CRLF →
    ISWHITE (text.getD (p + 2) 0) = true
  started : 0 < n → ¬ OctetsAt text c.Data.CurHeader CRLF
  apart : 0 < n → ¬ OctetsAt text (n - 1) CRLF
  inside : 2 ≤ n → ¬ OctetsAt text (n - 2) CRLF
  record : HasRecord conf fields c

/-- The body begins after the header fields. -/
structure InBody (conf : Innconf) (text : List UInt8) (fields : List (List UInt8))
    (c : CHANNEL) : Prop where
  pos : 2 ≤ c.Data.Body
  le : c.Data.Body ≤ c.Next
  taken : text.take (c.Data.Body - 2) = fields.flatten
  split : headerFields text = fields
  body : articleBody text = some (text.drop c.Data.Body)
  apart : ¬ OctetsAt text (c.Next - 1) CRLF
  record : HasRecord conf fields c

section HeaderRounds

variable {conf : Innconf} {text : List UInt8} {fields : List (List UInt8)} {c c' : CHANNEL}
  {n : ℕ}

/-- Going on to the next octet, inside a line. -/
theorem InHeader.succ (h : InHeader conf text fields n c) (hne : ¬ OctetsAt text n CRLF)
    (hcur : c'.Data.CurHeader = c.Data.CurHeader) (hrecord : HasRecord conf fields c') :
    InHeader conf text fields (n + 1) c' where
  le := by
    rw [hcur]
    exact Nat.le_succ_of_le h.le
  taken := by
    rw [hcur]
    exact h.taken
  split := by
    rw [hcur]
    exact h.split
  body := by
    rw [hcur]
    exact h.body
  folded := by
    rw [hcur]
    intro p hp hlt hat
    rcases Nat.lt_succ_iff_lt_or_eq.mp hlt with hlt | rfl
    · exact h.folded p hp hlt hat
    · exact absurd hat hne
  started := by
    rw [hcur]
    intro _ hat
    rcases Nat.eq_zero_or_pos n with rfl | hpos
    · rw [Nat.le_zero.mp h.le] at hat
      exact hne hat
    · exact h.started hpos hat
  apart _ := by
    rw [Nat.add_sub_cancel]
    exact hne
  inside h2 := by
    rw [show n + 1 - 2 = n - 1 by omega]
    exact h.apart (by omega)
  record := hrecord

/-- The field that ends before a line that begins with no white character. -/
theorem InHeader.ends (h : InHeader conf text fields n c) (hpos : 0 < n)
    (hcrlf : OctetsAt text n CRLF) (hend : ISWHITE (text.getD (n + 2) 0) = false) :
    headerFields text = fields ++ [(text.drop c.Data.CurHeader).take (n + 2 - c.Data.CurHeader)] ++
        headerFields (text.drop (n + 2)) ∧
      articleBody text = articleBody (text.drop (n + 2)) := by
  have hle := h.le
  obtain ⟨k, hk⟩ : ∃ k, n = c.Data.CurHeader + k := ⟨n - c.Data.CurHeader, by omega⟩
  have hat : ∀ q, OctetsAt (text.drop c.Data.CurHeader) q CRLF ↔
      OctetsAt text (c.Data.CurHeader + q) CRLF := by
    intro q
    unfold OctetsAt
    rw [List.drop_drop]
  have hget : ∀ q, (text.drop c.Data.CurHeader).getD q 0 = text.getD (c.Data.CurHeader + q) 0 := by
    intro q
    rw [List.getD_eq_getElem?_getD, List.getElem?_drop, ← List.getD_eq_getElem?_getD]
  obtain ⟨hf, hb⟩ := fields_of_next (p := k)
    (by rw [hat, ← hk]; exact hcrlf)
    (by rw [hget, ← Nat.add_assoc, ← hk]; exact hend)
    (by
      intro q hq hq'
      rw [hget, ← Nat.add_assoc]
      exact h.folded _ (Nat.le_add_right _ _) (by omega) ((hat q).mp hq'))
    (by rw [hat]; exact h.started hpos)
  rw [h.split, h.body, hf, hb, List.drop_drop, show c.Data.CurHeader + (k + 2) = n + 2 by omega,
    show n + 2 - c.Data.CurHeader = k + 2 by omega, List.append_assoc]
  exact ⟨rfl, rfl⟩

/-! ## NULs -/

theorem skipped_congr {b b' j : ℕ} (h : j < b) (h' : j < b') :
    Skipped text b' j ↔ Skipped text b j := by
  unfold Skipped
  simp only [h, h', true_and]

/-- New octets that are no NULs to be seen. -/
theorem seesNul_extend {b b' n m : ℕ} (hnm : n ≤ m)
    (hsame : ∀ j < n, (Skipped text b' j ↔ Skipped text b j))
    (hnew : ∀ j, n ≤ j → j < m → text[j]? = some 0 → Skipped text b' j) :
    SeesNul text b' m ↔ SeesNul text b n := by
  constructor
  · rintro ⟨j, hj, hnul, hskip⟩
    rcases Nat.lt_or_ge j n with hlt | hge
    · exact ⟨j, hlt, hnul, mt (hsame j hlt).mpr hskip⟩
    · exact absurd (hnew j hge hj hnul) hskip
  · rintro ⟨j, hj, hnul, hskip⟩
    exact ⟨j, by omega, hnul, mt (hsame j hj).mp hskip⟩

/-- One new octet, which is looked at. -/
theorem seesNul_octet {b b' n : ℕ} (hsame : ∀ j < n, (Skipped text b' j ↔ Skipped text b j))
    (hskip : ¬ Skipped text b' n) :
    SeesNul text b' (n + 1) ↔ SeesNul text b n ∨ text[n]? = some 0 := by
  constructor
  · rintro ⟨j, hj, hnul, hj'⟩
    rcases Nat.lt_succ_iff_lt_or_eq.mp hj with hlt | rfl
    · exact .inl ⟨j, hlt, hnul, mt (hsame j hlt).mpr hj'⟩
    · exact .inr hnul
  · rintro (⟨j, hj, hnul, hj'⟩ | hnul)
    · exact ⟨j, by omega, hnul, mt (hsame j hj).mp hj'⟩
    · exact ⟨n, Nat.lt_succ_self n, hnul, hskip⟩

theorem countOctet_error {cp : CHANNEL} {a : UInt8} {message : String} :
    (countOctet cp a message).Error ≠ [] ↔ cp.Error ≠ [] ∨ a = 0 := by
  unfold countOctet
  by_cases ha : a = 0
  · simp only [if_pos ha]
    have hne : (ARTerror cp (octets message)).Error ≠ [] := ARTerror_ne_nil
    split
    · exact ⟨fun _ => .inr ha, fun _ => hne⟩
    · exact ⟨fun _ => .inr ha, fun _ => hne⟩
  · simp only [if_neg ha, or_iff_left ha]
    split <;> exact Iff.rfl

theorem countOctet_record {a : UInt8} {message : String} (h : HasRecord conf fields c) :
    HasRecord conf fields (countOctet c a message) := by
  unfold countOctet
  split <;> · simp only []; split <;> exact ⟨h.BytesHeader, h.HdrContent⟩

theorem countOctet_cur {a : UInt8} {message : String} :
    (countOctet c a message).Data.CurHeader = c.Data.CurHeader := by
  unfold countOctet
  split <;> · simp only []; split <;> rfl

/-! ## Progress through the article -/

/-- How far the parser is, what it has recorded, and what it thinks of the article. -/
inductive Progress (conf : Innconf) (text : List UInt8) (c : CHANNEL) : Prop where
  | header (fields : List (List UInt8)) : c.State = CSgetheader →
      InHeader conf text fields c.Next c →
      (c.Error ≠ [] ↔ Faulty fields ∨ SeesNul text c.Next c.Next) → Progress conf text c
  | body (fields : List (List UInt8)) : c.State = CSgetbody ∨ c.State = CSgotarticle →
      InBody conf text fields c →
      (c.Error ≠ [] ↔ fields = [] ∨ Faulty fields ∨ SeesNul text c.Data.Body c.Next) →
      Progress conf text c
  | noBody (fields : List (List UInt8)) (n : ℕ) : c.State = CSgotarticle → c.Data.Body = 0 →
      InHeader conf text fields n c → OctetsAt text n TERMINATOR → n ≠ 0 → c.Next = n + 5 →
      c.Error ≠ [] → Progress conf text c
  | noArticle (fields : List (List UInt8)) : c.State = CSnoarticle →
      text.take c.Data.CurHeader = fields.flatten → HasRecord conf fields c → c.Error ≠ [] →
      Progress conf text c

/-- What is checked before a new header field begins at `i`. -/
theorem InHeader.checked (h : InHeader conf text fields n c) (hholds : Holds text c) {i : ℕ}
    (hi : c.Data.CurHeader ≤ i) (hlen : i ≤ text.length) {field : List UInt8}
    (hfield : field = (text.drop c.Data.CurHeader).take (i - c.Data.CurHeader)) :
    HasRecord conf (fields ++ [field]) (ARTcheckheader conf c (i - c.Data.CurHeader)) ∧
      ((ARTcheckheader conf c (i - c.Data.CurHeader)).Error ≠ [] ↔
        c.Error ≠ [] ∨ headerError field ≠ none) ∧
      text.take i = (fields ++ [field]).flatten := by
  have hslice : c.slice c.Data.CurHeader (i - c.Data.CurHeader) = field := by
    rw [CHANNEL.slice, hholds.In, hfield]
  have hcur : c.Data.CurHeader = fields.flatten.length := by
    rw [← h.taken, List.length_take]
    omega
  refine ⟨?_, ?_, ?_⟩
  · have := @HasRecord.check conf _ c (i - c.Data.CurHeader) h.record (by rw [hholds.In]) hcur
    rw [hslice] at this
    exact this
  · have := @ARTcheckheader_error conf c (i - c.Data.CurHeader)
    rw [hslice] at this
    exact this
  · have htake : text.take i = text.take c.Data.CurHeader ++ field := by
      rw [hfield, ← List.take_add, show c.Data.CurHeader + (i - c.Data.CurHeader) = i by omega]
    rw [htake, h.taken, List.flatten_append]
    simp

theorem faulty_concat {field : List UInt8} :
    Faulty (fields ++ [field]) ↔ Faulty fields ∨ headerError field ≠ none := by
  unfold Faulty
  simp only [List.mem_append, List.mem_singleton, or_and_right, exists_or, exists_eq_left]

/-- At the beginning no field has been checked. -/
theorem InHeader.fields_nil (h : InHeader conf text fields 0 c) : fields = [] := by
  have hzero : c.Data.CurHeader = 0 := Nat.le_zero.mp h.le
  have := h.split
  rw [hzero, List.drop_zero] at this
  exact List.self_eq_append_left.mp this

theorem Progress.headerRound (hholds : Holds text c) (hs : c.State = CSgetheader)
    (hbody : c.Data.Body = 0) (h : InHeader conf text fields c.Next c)
    (herr : c.Error ≠ [] ↔ Faulty fields ∨ SeesNul text c.Next c.Next)
    (hround : HeaderRound conf c c') : Progress conf text c' := by
  have hused := hholds.used
  cases hround with
  | octet hlt hne =>
    have hchar := hholds.getElem?_eq (i := c.Next) (by omega)
    have hcrlf : ¬ OctetsAt text c.Next CRLF := fun hat =>
      hne (hholds.char_eq (octetsAt_crlf.mp hat).1)
    refine .header fields (countOctet_state.trans hs)
      (h.succ hcrlf countOctet_cur ⟨(countOctet_record h.record).BytesHeader,
        (countOctet_record h.record).HdrContent⟩) ?_
    rw [seesNul_octet (b := c.Next) (fun j hj => skipped_congr hj (Nat.lt_succ_of_lt hj))
      (fun hskip => h.inside hskip.1 hskip.2.2), hchar, Option.some.injEq, ← or_assoc, ← herr]
    exact countOctet_error
  | emptyArticle hlt hcr hd =>
    exact .noArticle fields rfl h.taken ⟨h.record.BytesHeader, h.record.HdrContent⟩ ARTerror_ne_nil
  | emptyHeaders hat ht hs' =>
    exact .noArticle fields rfl h.taken ⟨h.record.BytesHeader, h.record.HdrContent⟩ ARTerror_ne_nil
  | noBody hat ht hs' =>
    rw [hholds.memcmp_iff] at ht
    refine .noBody fields c.Next rfl hbody ?_ ht ?_ rfl ARTerror_ne_nil
    · exact ⟨h.le, h.taken, h.split, h.body, h.folded, h.started, h.apart, h.inside,
        h.record.BytesHeader, h.record.HdrContent⟩
    · rw [hholds.Start] at hs'
      exact hs'
  | noHeaders hat ht hlf hs' =>
    have hroom := hat.room
    rw [hholds.Start] at hs'
    have hcrlf : OctetsAt text 0 CRLF := octetsAt_crlf.mpr
      ⟨by rw [hholds.getElem?_eq (by omega), ← hs', hat.cr],
        by rw [hholds.getElem?_eq (by omega), ← hs', hlf]⟩
    rw [hs'] at h
    obtain rfl := h.fields_nil
    obtain ⟨hf, hb⟩ := fields_of_crlf hcrlf
    refine .body [] (.inl rfl) ⟨?_, le_refl _, ?_, hf, ?_, ?_, h.record.BytesHeader,
      h.record.HdrContent⟩ ?_
    · show 2 ≤ c.Next + 2
      omega
    · show text.take (c.Next + 2 - 2) = []
      rw [hs', Nat.zero_add, Nat.sub_self, List.take_zero]
    · show articleBody text = some (text.drop (c.Next + 2))
      rw [hs']
      exact hb
    · show ¬ OctetsAt text (c.Next + 2 - 1) CRLF
      rw [hs']
      intro hat'
      have := (octetsAt_crlf.mp hcrlf).2.symm.trans (octetsAt_crlf.mp hat').1
      cases this
    · exact ⟨fun _ => .inl rfl, fun _ => ARTerror_ne_nil⟩
  | lastLine hat ht hlf hs' hcr' hlf' =>
    have hroom := hat.room
    have hle := h.le
    rw [hholds.Start] at hs'
    have hcr₀ := hholds.getElem?_eq (i := c.Next) (by omega)
    have hlf₀ := hholds.getElem?_eq (i := c.Next + 1) (by omega)
    have hcr₂ := hholds.getElem?_eq (i := c.Next + 2) (by omega)
    have hlf₃ := hholds.getElem?_eq (i := c.Next + 3) (by omega)
    rw [hat.cr] at hcr₀
    rw [hlf] at hlf₀
    rw [hcr'] at hcr₂
    rw [hlf'] at hlf₃
    have hwhite : ISWHITE (c.char (c.Next + 2)) = false := by
      rw [hcr']
      rfl
    have hwhite' : ISWHITE (text.getD (c.Next + 2) 0) = false := by
      rw [List.getD_eq_getElem?_getD, hcr₂]
      rfl
    obtain ⟨field, hfield⟩ : ∃ field, field =
      (text.drop c.Data.CurHeader).take (c.Next + 2 - c.Data.CurHeader) := ⟨_, rfl⟩
    obtain ⟨hrecord, herror, htaken⟩ := h.checked hholds (i := c.Next + 2) (by omega) (by omega)
      hfield
    obtain ⟨hsplit, hbody'⟩ := h.ends (by omega) (octetsAt_crlf.mpr ⟨hcr₀, hlf₀⟩) hwhite'
    have hempty : OctetsAt (text.drop (c.Next + 2)) 0 CRLF := by
      rw [octetsAt_crlf, List.getElem?_drop, List.getElem?_drop]
      exact ⟨hcr₂, hlf₃⟩
    obtain ⟨hf, hb⟩ := fields_of_crlf hempty
    rw [← hfield, hf, List.append_nil] at hsplit
    rw [hb, List.drop_drop] at hbody'
    rw [headerLine_eq, checkedAt, if_pos hwhite]
    refine .body (fields ++ [field]) (.inl rfl) ⟨?_, le_refl _, ?_, hsplit, hbody', ?_,
      hrecord.BytesHeader, hrecord.HdrContent⟩ ?_
    · show 2 ≤ c.Next + 4
      omega
    · exact htaken
    · intro hat'
      have := hlf₃.symm.trans (octetsAt_crlf.mp hat').1
      cases this
    · have hnul : SeesNul text (c.Next + 4) (c.Next + 4) ↔ SeesNul text c.Next c.Next := by
        refine seesNul_extend (Nat.le_add_right _ _)
          (fun j hj => skipped_congr hj (by omega)) ?_
        intro j hge hlt hnul
        rcases (by omega : j = c.Next ∨ j = c.Next + 1 ∨ j = c.Next + 2 ∨ j = c.Next + 3) with
          rfl | rfl | rfl | rfl
        · cases hcr₀.symm.trans hnul
        · cases hlf₀.symm.trans hnul
        · cases hcr₂.symm.trans hnul
        · cases hlf₃.symm.trans hnul
      refine herror.trans ?_
      rw [herr, ← hnul]
      show (Faulty fields ∨ _) ∨ _ ↔ fields ++ [field] = [] ∨ _ ∨ _
      rw [faulty_concat]
      simp only [List.append_eq_nil_iff, List.cons_ne_nil, and_false, false_or]
      exact or_right_comm
  | line hat ht hlf hs' hne =>
    have hroom := hat.room
    have hle := h.le
    rw [hholds.Start] at hs'
    have hcr₀ := hholds.getElem?_eq (i := c.Next) (by omega)
    have hlf₀ := hholds.getElem?_eq (i := c.Next + 1) (by omega)
    have hc₂ := hholds.getElem?_eq (i := c.Next + 2) (by omega)
    rw [hat.cr] at hcr₀
    rw [hlf] at hlf₀
    have hcrlf₀ : OctetsAt text c.Next CRLF := octetsAt_crlf.mpr ⟨hcr₀, hlf₀⟩
    have hcrlf₁ : ¬ OctetsAt text (c.Next + 1) CRLF := by
      intro hat'
      cases hlf₀.symm.trans (octetsAt_crlf.mp hat').1
    have hcrlf₂ : ¬ OctetsAt text (c.Next + 2) CRLF := by
      intro hat'
      obtain ⟨hcr', hlf'⟩ := octetsAt_crlf.mp hat'
      exact hne ⟨hholds.char_eq hcr', hholds.char_eq hlf'⟩
    have hget : text.getD (c.Next + 2) 0 = c.char (c.Next + 2) := by
      rw [List.getD_eq_getElem?_getD, hc₂]
      rfl
    have hnul : SeesNul text (c.Next + 3) (c.Next + 3) ↔ SeesNul text c.Next c.Next := by
      refine seesNul_extend (Nat.le_add_right _ _) (fun j hj => skipped_congr hj (by omega)) ?_
      intro j hge hlt hnul
      rcases (by omega : j = c.Next ∨ j = c.Next + 1 ∨ j = c.Next + 2) with rfl | rfl | rfl
      · cases hcr₀.symm.trans hnul
      · cases hlf₀.symm.trans hnul
      · exact ⟨by omega, by omega, hcrlf₀⟩
    rw [headerLine_eq]
    rcases hwhite : ISWHITE (c.char (c.Next + 2)) with _ | _
    · -- a new field begins
      obtain ⟨field, hfield⟩ : ∃ field, field =
        (text.drop c.Data.CurHeader).take (c.Next + 2 - c.Data.CurHeader) := ⟨_, rfl⟩
      obtain ⟨hrecord, herror, htaken⟩ := h.checked hholds (i := c.Next + 2) (by omega) (by omega)
        hfield
      obtain ⟨hsplit, hbody'⟩ := h.ends (by omega) hcrlf₀ (by rw [hget]; exact hwhite)
      rw [← hfield] at hsplit
      rw [checkedAt, if_pos hwhite]
      simp only [if_true]
      refine .header (fields ++ [field]) (ARTcheckheader_framed.State.trans hs) ⟨?_, htaken,
        hsplit, hbody', ?_, fun _ => hcrlf₂, fun _ => ?_, fun _ => ?_, hrecord.BytesHeader,
        hrecord.HdrContent⟩ ?_
      · show c.Next + 2 ≤ c.Next + 3
        omega
      · intro p hp hlt hat'
        replace hp : c.Next + 2 ≤ p := hp
        replace hlt : p < c.Next + 3 := hlt
        rw [show p = c.Next + 2 by omega] at hat'
        exact absurd hat' hcrlf₂
      · exact hcrlf₂
      · exact hcrlf₁
      · refine herror.trans ?_
        rw [herr]
        show (Faulty fields ∨ _) ∨ _ ↔ _ ∨ SeesNul text (c.Next + 3) (c.Next + 3)
        rw [hnul, faulty_concat]
        exact or_right_comm
    · -- the line is folded
      rw [checkedAt, if_neg (by rw [hwhite]; exact fun h => by cases h)]
      simp only [reduceCtorEq, if_false]
      refine .header fields hs ⟨?_, h.taken, h.split, h.body, ?_, fun _ => h.started (by omega),
        fun _ => ?_, fun _ => ?_, h.record.BytesHeader, h.record.HdrContent⟩ ?_
      · show c.Data.CurHeader ≤ c.Next + 3
        omega
      · intro p hp hlt hat'
        replace hlt : p < c.Next + 3 := hlt
        rcases Nat.lt_or_ge p c.Next with hlt' | hge
        · exact h.folded p hp hlt' hat'
        · rcases (by omega : p = c.Next ∨ p = c.Next + 1 ∨ p = c.Next + 2) with rfl | rfl | rfl
          · rw [hget]
            exact hwhite
          · exact absurd hat' hcrlf₁
          · exact absurd hat' hcrlf₂
      · exact hcrlf₂
      · exact hcrlf₁
      · show _ ↔ _ ∨ SeesNul text (c.Next + 3) (c.Next + 3)
        rw [hnul]
        exact herr
  | bareCR hat hlf =>
    have hroom := hat.room
    have hcr₀ := hholds.getElem?_eq (i := c.Next) (by omega)
    rw [hat.cr] at hcr₀
    have hcrlf : ¬ OctetsAt text c.Next CRLF := fun hat' =>
      hlf (hholds.char_eq (octetsAt_crlf.mp hat').2)
    refine .header fields hs (h.succ hcrlf rfl ⟨h.record.BytesHeader, h.record.HdrContent⟩) ?_
    rw [seesNul_extend (b := c.Next) (Nat.le_succ c.Next)
      (fun j hj => skipped_congr hj (Nat.lt_succ_of_lt hj)) ?_]
    · exact herr
    · intro j hge hlt hnul
      rw [show j = c.Next by omega, hcr₀] at hnul
      cases hnul

/-- A body round that keeps the record and the error, and sees no NUL. -/
theorem InBody.next (h : InBody conf text fields c) (hdata : c'.Data.Body = c.Data.Body)
    (hlt : c.Next < c'.Next) (hrecord : HasRecord conf fields c')
    (hapart : ¬ OctetsAt text (c'.Next - 1) CRLF) : InBody conf text fields c' where
  pos := by
    rw [hdata]
    exact h.pos
  le := by
    rw [hdata]
    exact h.le.trans hlt.le
  taken := by
    rw [hdata]
    exact h.taken
  split := h.split
  body := by
    rw [hdata]
    exact h.body
  apart := hapart
  record := hrecord

/-- The octets of a body round are no NULs, so the error stays right. -/
theorem seesNul_body {b n m : ℕ} (hnm : n ≤ m) (hnew : ∀ j, n ≤ j → j < m → text[j]? ≠ some 0) :
    SeesNul text b m ↔ SeesNul text b n :=
  seesNul_extend hnm (fun _ _ => Iff.rfl) fun j hge hlt hnul => absurd hnul (hnew j hge hlt)

/-- There is no NUL in the octets of a terminator. -/
theorem not_nul_of_octetsAt {i j : ℕ} {p : List UInt8} (h : OctetsAt text i p) (hp : (0 : UInt8) ∉ p)
    (hge : i ≤ j) (hlt : j < i + p.length) : text[j]? ≠ some 0 := by
  intro hnul
  refine hp (List.mem_of_getElem? (i := j - i) ?_)
  rw [← h, List.getElem?_take_of_lt (by omega), List.getElem?_drop,
    show i + (j - i) = j by omega]
  exact hnul

/-- A line end in the body. -/
theorem lineEnd_facts (hholds : Holds text c) (hat : AtCR c c.Data.Body)
    (hlf : c.char (c.Next + 1) = 10) {b : ℕ} :
    ¬ OctetsAt text (c.Next + 2 - 1) CRLF ∧
      (SeesNul text b (c.Next + 2) ↔ SeesNul text b c.Next) := by
  have hused := hholds.used
  have hroom := hat.room
  have hcr₀ := hholds.getElem?_eq (i := c.Next) (by omega)
  have hlf₁ := hholds.getElem?_eq (i := c.Next + 1) (by omega)
  rw [hat.cr] at hcr₀
  rw [hlf] at hlf₁
  constructor
  · intro hat'
    cases hlf₁.symm.trans (octetsAt_crlf.mp hat').1
  · refine seesNul_body (Nat.le_add_right _ _) fun j hge hlt =>
      not_nul_of_octetsAt (p := CRLF) (octetsAt_crlf.mpr ⟨hcr₀, hlf₁⟩) (by decide) hge hlt

theorem Progress.bodyRound (hholds : Holds text c) (hs : c.State = CSgetbody)
    (h : InBody conf text fields c)
    (herr : c.Error ≠ [] ↔ fields = [] ∨ Faulty fields ∨ SeesNul text c.Data.Body c.Next)
    (hround : BodyRound c c') : Progress conf text c' := by
  have hused := hholds.used
  have hrecord : HasRecord conf fields c := h.record
  have hgot : gotState c = CSgotarticle := gotState_not_receiving hs
  cases hround with
  | octet hlt hne =>
    have hchar := hholds.getElem?_eq (i := c.Next) (by omega)
    have hcrlf : ¬ OctetsAt text c.Next CRLF := fun hat =>
      hne (hholds.char_eq (octetsAt_crlf.mp hat).1)
    have hbody : (countOctet c (c.char c.Next) "Nul character in body").Data.Body = c.Data.Body :=
      countOctet_body
    refine .body fields (.inl (countOctet_state.trans hs)) (h.next hbody (Nat.lt_succ_self _)
      ⟨(countOctet_record hrecord).BytesHeader, (countOctet_record hrecord).HdrContent⟩ hcrlf) ?_
    rw [hbody]
    have hnul := @seesNul_octet text c.Data.Body _ c.Next
      (fun _ _ => Iff.rfl) (fun hskip => by
        have := h.le
        have := hskip.2.1
        omega)
    rw [hchar, Option.some.injEq] at hnul
    show (countOctet c (c.char c.Next) "Nul character in body").Error ≠ [] ↔
      fields = [] ∨ Faulty fields ∨ SeesNul text c.Data.Body (c.Next + 1)
    rw [hnul, countOctet_error, herr]
    simp only [or_assoc]
  | emptyBody hlt hcr hd =>
    obtain ⟨hnext, hcmp⟩ := hd
    rw [hholds.memcmp_iff, show c.Next - 1 = c.Data.Body by omega] at hcmp
    obtain ⟨_, hcr₁, hlf₂⟩ := octetsAt_dotcrlf.mp hcmp
    refine .body fields (.inr hgot) (h.next rfl (by simp)
      ⟨hrecord.BytesHeader, hrecord.HdrContent⟩ ?_) ?_
    · show ¬ OctetsAt text (c.Next + 2 - 1) CRLF
      intro hat'
      rw [show c.Next + 2 - 1 = c.Data.Body + 2 by omega] at hat'
      cases hlf₂.symm.trans (octetsAt_crlf.mp hat').1
    · have hnul : SeesNul text c.Data.Body (c.Next + 2) ↔ SeesNul text c.Data.Body c.Next :=
        seesNul_body (Nat.le_add_right _ _) fun j hge hlt' =>
          not_nul_of_octetsAt hcmp (by decide) (by omega)
            (by show j < c.Data.Body + 3; omega)
      show c.Error ≠ [] ↔ _ ∨ _ ∨ SeesNul text c.Data.Body (c.Next + 2)
      rw [hnul]
      exact herr
  | terminator hat ht =>
    rw [hholds.memcmp_iff] at ht
    have hroom := hat.room
    refine .body fields (.inr hgot) (h.next rfl (by simp)
      ⟨hrecord.BytesHeader, hrecord.HdrContent⟩ ?_) ?_
    · show ¬ OctetsAt text (c.Next + 5 - 1) CRLF
      intro hat'
      have hlf₄ := (octetsAt_dotcrlf.mp (octetsAt_terminator.mp ht).2.2).2.2
      rw [show c.Next + 5 - 1 = c.Next + 2 + 2 by omega] at hat'
      cases hlf₄.symm.trans (octetsAt_crlf.mp hat').1
    · have hnul : SeesNul text c.Data.Body (c.Next + 5) ↔ SeesNul text c.Data.Body c.Next :=
        seesNul_body (Nat.le_add_right _ _) fun j hge hlt' =>
          not_nul_of_octetsAt ht (by decide) (by omega) hlt'
      show c.Error ≠ [] ↔ _ ∨ _ ∨ SeesNul text c.Data.Body (c.Next + 5)
      rw [hnul]
      exact herr
  | stuffedLine hat ht hlf _ =>
    obtain ⟨hapart, hnul⟩ := lineEnd_facts hholds hat hlf (b := c.Data.Body)
    refine .body fields (.inl hs) (h.next rfl (by simp)
      ⟨hrecord.BytesHeader, hrecord.HdrContent⟩ hapart) ?_
    show c.Error ≠ [] ↔ _ ∨ _ ∨ SeesNul text c.Data.Body (c.Next + 2)
    rw [hnul]
    exact herr
  | line hat ht hlf _ =>
    obtain ⟨hapart, hnul⟩ := lineEnd_facts hholds hat hlf (b := c.Data.Body)
    refine .body fields (.inl hs) (h.next rfl (by simp)
      ⟨hrecord.BytesHeader, hrecord.HdrContent⟩ hapart) ?_
    show c.Error ≠ [] ↔ _ ∨ _ ∨ SeesNul text c.Data.Body (c.Next + 2)
    rw [hnul]
    exact herr
  | bareCR hat hlf =>
    have hroom := hat.room
    have hcr₀ := hholds.getElem?_eq (i := c.Next) (by omega)
    rw [hat.cr] at hcr₀
    refine .body fields (.inl hs) (h.next rfl (by simp)
      ⟨hrecord.BytesHeader, hrecord.HdrContent⟩ ?_) ?_
    · exact fun hat' => hlf (hholds.char_eq (octetsAt_crlf.mp hat').2)
    · have hnul : SeesNul text c.Data.Body (c.Next + 1) ↔ SeesNul text c.Data.Body c.Next := by
        refine seesNul_body (Nat.le_succ _) fun j hge hlt' hnul => ?_
        rw [show j = c.Next by omega, hcr₀] at hnul
        cases hnul
      show c.Error ≠ [] ↔ _ ∨ _ ∨ SeesNul text c.Data.Body (c.Next + 1)
      rw [hnul]
      exact herr

/-- Every round keeps track of the header fields. -/
theorem progress_step (hpos : Position text c) (hover : ¬ c.Overlong)
    (hstep : parseStep conf c = some c') (h : Progress conf text c) : Progress conf text c' := by
  rcases parseStep_round hstep with ⟨hs, hround⟩ | ⟨hs | hs, hround⟩
  · cases h with
    | header fields _ hin herr =>
      exact Progress.headerRound hpos.holds hs (hpos.header hs).1 hin herr hround
    | body fields hs' _ _ => rcases hs' with hs' | hs' <;> cases hs.symm.trans hs'
    | noBody fields n hs' => cases hs.symm.trans hs'
    | noArticle fields hs' => cases hs.symm.trans hs'
  · cases h with
    | header fields hs' _ _ => cases hs.symm.trans hs'
    | body fields _ hin herr => exact Progress.bodyRound hpos.holds hs hin herr hround
    | noBody fields n hs' => cases hs.symm.trans hs'
    | noArticle fields hs' => cases hs.symm.trans hs'
  · exact absurd (.inl hs) hover

theorem progress_article {sendid : ℕ} : Progress conf text (article sendid text) := by
  refine .header [] rfl ⟨le_refl _, rfl, rfl, rfl, ?_, ?_, ?_, ?_, rfl, rfl⟩ ?_
  · intro p _ hlt
    cases hlt
  · intro hlt
    cases hlt
  · intro hlt
    cases hlt
  · intro hlt
    cases hlt
  · constructor
    · intro hne
      exact absurd rfl hne
    · rintro (⟨_, hmem, _⟩ | ⟨_, hlt, _⟩)
      · cases hmem
      · cases hlt

theorem Parsed.progress {sendid : ℕ} (h : Parsed conf sendid text c) : Progress conf text c := by
  have hinit : (Position text (article sendid text) ∧ ¬ (article sendid text).Overlong) ∧
      Progress conf text (article sendid text) := ⟨position_article, progress_article⟩
  refine (reaches_invariant
    (fun c => (Position text c ∧ ¬ c.Overlong) ∧ Progress conf text c) h.reaches ?_ hinit).2
  rintro a b hab ⟨⟨hpos, hover⟩, hprog⟩
  exact ⟨⟨position_step hab hover hpos, fun hb => hover ((parseStep_overlong hab).mp hb)⟩,
    progress_step hpos hover hab hprog⟩

end HeaderRounds

end Inn.Innd
