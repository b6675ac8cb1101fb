import Mathlib.Algebra.Ring.Nat
import Mathlib.Data.UInt
import Mathlib.Tactic.Ring
import Mathlib.Tactic.Linarith

/-!
# Inn.Words — machine words as numbers

An unsigned word is a natural number, with the bytes that hold it in memory (least
significant first); `int64` and `uint64` are the two readings of the same 64 bits, and `int32` what an
`int` keeps of a number.
-/

namespace Inn

/-! ## Bytes of a word -/

/-- The word that bytes hold. -/
def ofBytes : List UInt8 → ℕ
  | [] => 0
  | b :: bs => b.toNat + 256 * ofBytes bs

/-- The bytes of a word of so many bytes. -/
def toBytes : ℕ → ℕ → List UInt8
  | 0, _ => []
  | width + 1, n => UInt8.ofNat n :: toBytes width (n / 256)

@[simp] theorem length_toBytes (width n : ℕ) : (toBytes width n).length = width := by
  induction width generalizing n with
  | zero => rfl
  | succ width ih => exact congrArg (· + 1) (ih (n / 256))

theorem ofBytes_toBytes {width n : ℕ} (h : n < 256 ^ width) : ofBytes (toBytes width n) = n := by
  induction width generalizing n with
  | zero =>
    rw [pow_zero] at h
    exact (Nat.lt_one_iff.mp h).symm
  | succ width ih =>
    have hdiv : n / 256 < 256 ^ width := by
      rw [pow_succ] at h
      omega
    change (UInt8.ofNat n).toNat + 256 * ofBytes (toBytes width (n / 256)) = n
    rw [ih hdiv, UInt8.toNat_ofNat']
    omega

theorem ofBytes_lt (bs : List UInt8) : ofBytes bs < 256 ^ bs.length := by
  induction bs with
  | nil => exact Nat.one_pos
  | cons b bs ih =>
    have hb := b.toNat_lt
    change b.toNat + 256 * ofBytes bs < 256 ^ (bs.length + 1)
    rw [pow_succ]
    omega

/-! ## Signed words -/

/-- Sixty-four bits read as a signed number. -/
def int64 (n : ℕ) : ℤ := if n < 2 ^ 63 then n else (n : ℤ) - 2 ^ 64

/-- A signed number as sixty-four bits. -/
def uint64 (i : ℤ) : ℕ := (i % 2 ^ 64).toNat

/-- A number passed as an `int`. -/
def int32 (n : ℕ) : ℤ := if n % 2 ^ 32 < 2 ^ 31 then (n % 2 ^ 32 : ℕ) else (n % 2 ^ 32 : ℕ) - 2 ^ 32

theorem int64_of_lt {n : ℕ} (h : n < 2 ^ 63) : int64 n = n := if_pos h

theorem uint64_of_nonneg {i : ℤ} (h : 0 ≤ i) (hi : i < 2 ^ 64) : uint64 i = i.toNat := by
  rw [uint64, Int.emod_eq_of_lt h hi]

theorem uint64_lt (i : ℤ) : uint64 i < 2 ^ 64 := by
  have hpos := Int.emod_nonneg i (show (2 : ℤ) ^ 64 ≠ 0 by decide)
  have hlt := Int.emod_lt_of_pos i (show (0 : ℤ) < 2 ^ 64 by decide)
  unfold uint64
  omega

theorem uint64_int64 {n : ℕ} (h : n < 2 ^ 64) : uint64 (int64 n) = n := by
  unfold uint64 int64
  split <;> omega

theorem int64_uint64 {i : ℤ} (hlo : -2 ^ 63 ≤ i) (hhi : i < 2 ^ 63) : int64 (uint64 i) = i := by
  unfold uint64 int64
  split <;> omega

end Inn
