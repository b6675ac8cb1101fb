import Mathlib.Data.List.TakeWhile
import Inn.Hex

/-!
# Inn.Format — formats of hexadecimal numbers

A format is a list of directives. `snprintf` writes numbers under it, each with at least as many
digits as the directive says; `sscanf` reads them back, each of at most as many digits.

* `sscanf_snprintf` — what fits the digits is read back, whatever follows;
* `hexadecimal_append` — two numbers side by side are one number.
-/

namespace Inn

/-- A directive of a format: text that stands for itself, or `%0wx`. -/
inductive Directive where
  | text (s : List UInt8)
  | hex (width : ℕ)

/-- The digit of a number below 16, in lower case. -/
def lowerHexDigit (d : ℕ) : UInt8 :=
  if d % 16 < 10 then UInt8.ofNat (48 + d % 16) else UInt8.ofNat (87 + d % 16)

/-- The low `w` digits of a number. -/
def hexadecimal : ℕ → ℕ → List UInt8
  | 0, _ => []
  | w + 1, v => hexadecimal w (v / 16) ++ [lowerHexDigit v]

/-- The value of a string of digits. -/
def hexNumber (l : List UInt8) : ℕ := l.foldl (fun n c => 16 * n + hexValue c) 0

/-- `snprintf`, where the buffer is large enough. -/
def snprintf : List Directive → List ℕ → List UInt8
  | [], _ => []
  | .text s :: ds, vs => s ++ snprintf ds vs
  | .hex w :: ds, v :: vs => hexadecimal (max w (Nat.log 16 v + 1)) v ++ snprintf ds vs
  | .hex _ :: _, [] => []

/-- `sscanf`: the numbers up to the first directive that does not match. White space, a sign and
`0x` in front of a number are left out. -/
def sscanf : List Directive → List UInt8 → List ℕ
  | [], _ => []
  | .text s :: ds, l => if s <+: l then sscanf ds (l.drop s.length) else []
  | .hex w :: ds, l =>
    let digits := (l.take w).takeWhile (IsHexDigit ·)
    if digits = [] then [] else hexNumber digits :: sscanf ds (l.drop digits.length)

/-- There is a number for each directive, which has not more digits than that says. -/
def Fits : List Directive → List ℕ → Prop
  | [], vs => vs = []
  | .text _ :: ds, vs => Fits ds vs
  | .hex w :: ds, v :: vs => 0 < w ∧ v < 16 ^ w ∧ Fits ds vs
  | .hex _ :: _, [] => False

variable {w v : ℕ} {l : List UInt8}

theorem hexValue_lowerHexDigit (d : ℕ) : hexValue (lowerHexDigit d) = d % 16 := by
  have h : ∀ d < 16, hexValue (lowerHexDigit d) = d := by decide
  have hd : lowerHexDigit d = lowerHexDigit (d % 16) := by simp only [lowerHexDigit, Nat.mod_mod]
  rw [hd, h _ (Nat.mod_lt _ (by decide))]

theorem isHexDigit_lowerHexDigit (d : ℕ) : IsHexDigit (lowerHexDigit d) := by
  have h : ∀ d < 16, IsHexDigit (lowerHexDigit d) := by decide
  have hd : lowerHexDigit d = lowerHexDigit (d % 16) := by simp only [lowerHexDigit, Nat.mod_mod]
  exact hd ▸ h _ (Nat.mod_lt _ (by decide))

@[simp] theorem length_hexadecimal (w v : ℕ) : (hexadecimal w v).length = w := by
  induction w generalizing v with
  | zero => rfl
  | succ w ih => rw [hexadecimal, List.length_append, ih, List.length_singleton]

theorem isHexDigit_of_mem_hexadecimal {c : UInt8} (h : c ∈ hexadecimal w v) : IsHexDigit c := by
  induction w generalizing v with
  | zero => cases h
  | succ w ih =>
    rcases List.mem_append.mp h with h | h
    · exact ih h
    · exact List.mem_singleton.mp h ▸ isHexDigit_lowerHexDigit v

theorem hexNumber_concat (l : List UInt8) (c : UInt8) :
    hexNumber (l ++ [c]) = 16 * hexNumber l + hexValue c := by
  rw [hexNumber, List.foldl_append]
  rfl

/-- Reading back gives what fits. -/
theorem hexNumber_hexadecimal (h : v < 16 ^ w) : hexNumber (hexadecimal w v) = v := by
  induction w generalizing v with
  | zero =>
    rw [Nat.pow_zero] at h
    exact (Nat.lt_one_iff.mp h).symm
  | succ w ih =>
    have hdiv : v / 16 < 16 ^ w := by
      rw [Nat.pow_succ] at h
      omega
    rw [hexadecimal, hexNumber_concat, ih hdiv, hexValue_lowerHexDigit]
    omega

/-- Two numbers side by side. -/
theorem hexadecimal_append (a u : ℕ) {b : ℕ} (h : v < 16 ^ b) :
    hexadecimal a u ++ hexadecimal b v = hexadecimal (a + b) (16 ^ b * u + v) := by
  induction b generalizing v with
  | zero =>
    rw [Nat.pow_zero] at h
    rw [Nat.lt_one_iff.mp h, Nat.pow_zero, Nat.one_mul]
    exact List.append_nil _
  | succ b ih =>
    have hdiv : v / 16 < 16 ^ b := by
      rw [Nat.pow_succ] at h
      omega
    have hhigh : (16 ^ (b + 1) * u + v) / 16 = 16 ^ b * u + v / 16 := by
      rw [Nat.pow_succ, Nat.mul_assoc, Nat.mul_left_comm]
      omega
    have hlow : lowerHexDigit (16 ^ (b + 1) * u + v) = lowerHexDigit v := by
      have : (16 ^ (b + 1) * u + v) % 16 = v % 16 := by
        rw [Nat.pow_succ, Nat.mul_assoc, Nat.mul_left_comm]
        omega
      simp only [lowerHexDigit, this]
    rw [← Nat.add_assoc, hexadecimal, hexadecimal, ← List.append_assoc, ih hdiv, hhigh, hlow]

/-- A number that has not more digits is written with as many as the directive says. -/
theorem max_log (hw : 0 < w) (h : v < 16 ^ w) : max w (Nat.log 16 v + 1) = w := by
  apply Nat.max_eq_left
  rcases Nat.eq_zero_or_pos v with rfl | hv
  · rw [Nat.log_zero_right]
    exact hw
  · exact Nat.log_lt_of_lt_pow (Nat.ne_of_gt hv) h

theorem takeWhile_hexadecimal (w v : ℕ) (rest : List UInt8) :
    ((hexadecimal w v ++ rest).take w).takeWhile (IsHexDigit ·) = hexadecimal w v := by
  have htake := @List.take_left' _ _ rest _ (length_hexadecimal w v)
  rw [htake, List.takeWhile_eq_self_iff]
  intro c hc
  simpa using isHexDigit_of_mem_hexadecimal hc

/-- Reading back, whatever follows. -/
theorem sscanf_snprintf {ds : List Directive} {vs : List ℕ} (h : Fits ds vs) (rest : List UInt8) :
    sscanf ds (snprintf ds vs ++ rest) = vs := by
  induction ds, vs using snprintf.induct with
  | case1 vs => exact h.symm
  | case2 s ds vs ih =>
    rw [snprintf, sscanf, List.append_assoc, if_pos (List.prefix_append _ _), List.drop_left]
    exact ih h
  | case3 w ds v vs ih =>
    obtain ⟨hw, hv, h⟩ := h
    have hne : hexadecimal w v ≠ [] := by
      rw [← List.length_pos_iff, length_hexadecimal]
      exact hw
    have hdrop := @List.drop_left' _ _ (snprintf ds vs ++ rest) _ (length_hexadecimal w v)
    rw [snprintf, max_log hw hv, sscanf, List.append_assoc]
    simp only [takeWhile_hexadecimal, if_neg hne, length_hexadecimal, hdrop,
      hexNumber_hexadecimal hv, ih h]
  | case4 w ds => exact h.elim

end Inn
