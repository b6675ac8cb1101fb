import Inn.Libinn.Uwildmat

/-!
# Inn.Libinn.Letters — characters in UTF-8

A letter is the bytes of one character: an ASCII byte, or a first byte that tells a length from
2 to 6 and as many bytes behind it. `is_valid_utf8` accepts the strings of letters.

* `letters_flatten` — a string of letters is read as these letters;
* `valid_letters` — a valid string is one of letters;
* `width_letter`, `utf8_length_letter`, `decode_letter` — the functions at a letter.
-/

namespace Inn.Libinn.Uwildmat

/-- The bytes of a character. -/
def IsLetter : List UInt8 → Prop
  | [] => False
  | c :: s => c ≠ 0 ∧ ((leading c = 0 ∧ s = []) ∨
      (2 ≤ leading c ∧ leading c ≤ 6 ∧ s.length + 1 = leading c ∧ ∀ b ∈ s, isTail b = true))

/-- A property of all bytes. -/
theorem byte_cases {P : UInt8 → Prop} (h : ∀ n : Fin 256, P (UInt8.ofNat n.val)) (c : UInt8) :
    P c := by
  have := h ⟨c.toNat, c.toNat_lt⟩
  rwa [UInt8.ofNat_toNat] at this

theorem ISUTF8_iff (c : UInt8) : ISUTF8 c = true ↔ 2 ≤ leading c := by
  revert c
  refine byte_cases ?_
  decide +kernel

theorem isTail_iff (c : UInt8) : isTail c = true ↔ leading c = 1 := by
  revert c
  refine byte_cases ?_
  decide +kernel

/-- The first byte of a letter tells its length. -/
theorem IsLetter.length {c : UInt8} {s : List UInt8} (h : IsLetter (c :: s)) :
    (leading c = 0 ∧ s = []) ∨ (2 ≤ leading c ∧ leading c ≤ 6 ∧ s.length + 1 = leading c) :=
  h.2.imp id fun h => ⟨h.1, h.2.1, h.2.2.1⟩

theorem IsLetter.tail {c : UInt8} {s : List UInt8} (h : IsLetter (c :: s)) {b : UInt8}
    (hb : b ∈ s) : isTail b = true := by
  rcases h.2 with ⟨-, rfl⟩ | ⟨-, -, -, htail⟩
  · cases hb
  · exact htail b hb

/-- An ASCII byte is a letter of its own. -/
theorem IsLetter.ascii {c : UInt8} {s : List UInt8} (h : IsLetter (c :: s)) (hc : leading c = 0) :
    s = [] := by
  rcases h.length with ⟨-, hs⟩ | ⟨hlt, -⟩
  · exact hs
  · omega

/-- The first byte of a letter is no byte that stands behind another one. -/
theorem IsLetter.first {c : UInt8} {s : List UInt8} (h : IsLetter (c :: s)) :
    isTail c = false := by
  rw [Bool.eq_false_iff, Ne, isTail_iff]
  rcases h.length with ⟨h0, -⟩ | ⟨hlt, -⟩
  · omega
  · omega

section Functions

variable {l : List UInt8} (h : IsLetter l) (s : List UInt8)
include h

theorem utf8_length_letter : utf8_length (l ++ s) = l.length := by
  cases l with
  | nil => exact h.elim
  | cons c l =>
    rw [List.cons_append, utf8_length]
    rcases h.2 with ⟨h0, rfl⟩ | ⟨h2, h6, hlen, htail⟩
    · rw [if_pos (by omega)]
      rfl
    · have htake : (l ++ s).take (leading c - 1) = l :=
        List.take_left' (by omega)
      have hle : leading c - 1 ≤ (l ++ s).length := by
        rw [List.length_append]
        omega
      rw [if_neg (by omega), htake, if_pos ⟨hle, List.all_eq_true.mpr htail⟩, List.length_cons,
        hlen]

theorem width_letter : width (l ++ s) = l.length := by
  rw [← utf8_length_letter h s]
  cases l with
  | nil => exact h.elim
  | cons c l =>
    rw [List.cons_append, width]
    by_cases hc : ISUTF8 c = true
    · rw [if_pos hc]
    · rw [if_neg hc]
      rw [ISUTF8_iff] at hc
      rcases h.length with ⟨h0, rfl⟩ | ⟨h2, -⟩
      · rw [utf8_length]
        rw [if_pos (by omega)]
      · exact absurd h2 hc

theorem decode_letter : utf8_decode (l ++ s) = utf8_decode l := by
  have hlen := utf8_length_letter h s
  have hlen' := utf8_length_letter h []
  cases l with
  | nil => exact h.elim
  | cons c l =>
    rw [List.append_nil] at hlen'
    rw [List.cons_append] at hlen ⊢
    rw [utf8_decode, utf8_decode]
    rw [hlen, hlen', List.length_cons, Nat.add_sub_cancel, List.take_left, List.take_length]

end Functions

/-! ## Strings of letters -/

/-- The letters of a string. -/
def letters : List UInt8 → List (List UInt8)
  | [] => []
  | c :: s => (c :: s).take (utf8_length (c :: s)) :: letters ((c :: s).drop (utf8_length (c :: s)))
termination_by s => s.length
decreasing_by
  have := utf8_length_pos (c :: s)
  simp only [List.length_drop, List.length_cons]
  omega

/-- A string of letters is read as these. -/
theorem letters_flatten {t : List (List UInt8)} (h : ∀ l ∈ t, IsLetter l) :
    letters t.flatten = t := by
  induction t with
  | nil => rw [List.flatten_nil, letters]
  | cons l t ih =>
    have hl := h l List.mem_cons_self
    have hlen := utf8_length_letter hl t.flatten
    cases l with
    | nil => exact hl.elim
    | cons c l =>
      rw [List.flatten_cons, List.cons_append] at *
      rw [letters, hlen, ← List.cons_append, List.take_left, List.drop_left,
        ih fun l hl => h l (List.mem_cons_of_mem _ hl)]

/-- A valid string is a string of letters. -/
theorem valid_letters {s : List UInt8} (h0 : (0 : UInt8) ∉ s) (h : is_valid_utf8 s = true) :
    ∃ t : List (List UInt8), (∀ l ∈ t, IsLetter l) ∧ s = t.flatten := by
  induction s using is_valid_utf8.induct with
  | case1 => exact ⟨[], fun l hl => (by cases hl), rfl⟩
  | case2 c s length hlength ih =>
    rw [is_valid_utf8] at h
    rw [if_pos hlength] at h
    obtain ⟨t, ht, rfl⟩ := ih (fun hmem => h0 (List.mem_cons_of_mem _ hmem)) h
    refine ⟨[c] :: t, fun l hl => ?_, rfl⟩
    rcases List.mem_cons.mp hl with rfl | hl
    · exact ⟨fun hc => h0 (hc ▸ List.mem_cons_self), .inl ⟨hlength, rfl⟩⟩
    · exact ht l hl
  | case3 c s length hlength hbad =>
    rw [is_valid_utf8] at h
    rw [if_neg hlength, if_pos hbad] at h
    cases h
  | case4 c s length hlength hgood htail ih =>
    rw [is_valid_utf8] at h
    rw [if_neg hlength, if_neg hgood, if_pos htail] at h
    rw [not_or, Nat.not_lt, Nat.not_lt] at hgood
    obtain ⟨t, ht, hs⟩ := ih (fun hmem => h0 (List.mem_cons_of_mem _ (List.mem_of_mem_drop hmem))) h
    refine ⟨(c :: s.take (length - 1)) :: t, fun l hl => ?_, ?_⟩
    · rcases List.mem_cons.mp hl with rfl | hl
      · refine ⟨fun hc => h0 (hc ▸ List.mem_cons_self), .inr ⟨hgood.1, hgood.2, ?_, ?_⟩⟩
        · rw [List.length_take_of_le htail.1]
          exact Nat.sub_add_cancel (Nat.le_of_succ_le hgood.1)
        · exact List.all_eq_true.mp htail.2
      · exact ht l hl
    · rw [List.flatten_cons, ← hs, List.cons_append, List.take_append_drop]
  | case5 c s length hlength hgood htail =>
    rw [is_valid_utf8] at h
    rw [if_neg hlength, if_neg hgood, if_neg htail] at h
    cases h

end Inn.Libinn.Uwildmat
