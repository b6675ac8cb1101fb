import Mathlib.Algebra.Ring.Nat
import Mathlib.Data.Nat.Log
import Mathlib.Data.List.Induction

/-!
# Inn.Decimal — numbers as decimal digits

`decimal w v` is the number `v` in `w` digits, with leading zeros, cut to its low
digits where it does not fit; `decimalValue` reads digits back. `printed v` is the
number without leading zeros.
-/

namespace Inn

/-- A decimal digit. -/
def IsDigit (c : UInt8) : Prop := 48 ≤ c.toNat ∧ c.toNat ≤ 57

instance (c : UInt8) : Decidable (IsDigit c) := inferInstanceAs (Decidable (_ ∧ _))

/-- The digit of a number below 10. -/
def digit (d : ℕ) : UInt8 := UInt8.ofNat (48 + d % 10)

/-- The low `w` digits of a number. -/
def decimal : ℕ → ℕ → List UInt8
  | 0, _ => []
  | w + 1, v => decimal w (v / 10) ++ [digit v]

/-- The value of a string of digits. -/
def decimalValue (l : List UInt8) : ℕ := l.foldl (fun n c => 10 * n + (c.toNat - 48)) 0

/-- A number without leading zeros. -/
def printed (v : ℕ) : List UInt8 := decimal (Nat.log 10 v + 1) v

variable {w v : ℕ} {l l' : List UInt8}

theorem digit_toNat (v : ℕ) : (digit v).toNat = 48 + v % 10 := by
  have : v % 10 < 10 := Nat.mod_lt _ (by decide)
  rw [digit, UInt8.toNat_ofNat']
  omega

theorem isDigit_digit (v : ℕ) : IsDigit (digit v) := by
  have : v % 10 < 10 := Nat.mod_lt _ (by decide)
  rw [IsDigit, digit_toNat]
  omega

@[simp] theorem length_decimal (w v : ℕ) : (decimal w v).length = w := by
  induction w generalizing v with
  | zero => rfl
  | succ w ih => rw [decimal, List.length_append, ih, List.length_singleton]

theorem isDigit_of_mem_decimal {c : UInt8} (h : c ∈ decimal w v) : IsDigit c := by
  induction w generalizing v with
  | zero => cases h
  | succ w ih =>
    rcases List.mem_append.mp h with h | h
    · exact ih h
    · exact List.mem_singleton.mp h ▸ isDigit_digit v

theorem decimalValue_concat (l : List UInt8) (c : UInt8) :
    decimalValue (l ++ [c]) = 10 * decimalValue l + (c.toNat - 48) := by
  rw [decimalValue, List.foldl_append]
  rfl

/-- Reading back gives what fits. -/
theorem decimalValue_decimal (w v : ℕ) : decimalValue (decimal w v) = v % 10 ^ w := by
  induction w generalizing v with
  | zero => rw [Nat.pow_zero, Nat.mod_one]; rfl
  | succ w ih =>
    rw [decimal, decimalValue_concat, ih, digit_toNat, Nat.pow_succ, Nat.mul_comm (10 ^ w),
      Nat.mod_mul]
    omega

theorem decimalValue_decimal_of_lt (h : v < 10 ^ w) : decimalValue (decimal w v) = v := by
  rw [decimalValue_decimal, Nat.mod_eq_of_lt h]

theorem decimalValue_printed (v : ℕ) : decimalValue (printed v) = v :=
  decimalValue_decimal_of_lt (Nat.lt_pow_succ_log_self (by decide) v)

theorem length_printed (v : ℕ) : (printed v).length = Nat.log 10 v + 1 :=
  length_decimal ..

theorem printed_ne_nil (v : ℕ) : printed v ≠ [] := by
  rw [← List.length_pos_iff, length_printed]
  exact Nat.succ_pos _

theorem isDigit_of_mem_printed {c : UInt8} (h : c ∈ printed v) : IsDigit c :=
  isDigit_of_mem_decimal h

/-- The number of digits is bounded by the size of the number. -/
theorem length_printed_le (h : v < 10 ^ w) (hw : 0 < w) : (printed v).length ≤ w := by
  rw [length_printed]
  rcases Nat.eq_zero_or_pos v with rfl | hv
  · exact hw
  · exact Nat.log_lt_of_lt_pow (Nat.ne_of_gt hv) h

/-- A string of digits is less than the power of ten of its length. -/
theorem decimalValue_lt (h : ∀ c ∈ l, IsDigit c) : decimalValue l < 10 ^ l.length := by
  induction l using List.reverseRecOn with
  | nil => exact Nat.one_pos
  | append_singleton l c ih =>
    have hc := h c (by simp)
    have := ih fun d hd => h d (List.mem_append_left _ hd)
    rw [decimalValue_concat, List.length_append, List.length_singleton, Nat.pow_succ]
    unfold IsDigit at hc
    omega

end Inn
