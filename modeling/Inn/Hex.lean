import Inn.Decimal

/-!
# Inn.Hex — bytes as hexadecimal digits

A byte is written as two upper-case digits, the high half first. Reading accepts
lower-case digits too, and takes a digit that is missing for a zero.
-/

namespace Inn

/-- `isxdigit`. -/
def IsHexDigit (c : UInt8) : Prop :=
  IsDigit c ∨ (65 ≤ c.toNat ∧ c.toNat ≤ 70) ∨ (97 ≤ c.toNat ∧ c.toNat ≤ 102)

instance (c : UInt8) : Decidable (IsHexDigit c) := inferInstanceAs (Decidable (_ ∨ _))

/-- A hexadecimal digit in upper case. -/
def IsUpperHexDigit (c : UInt8) : Prop := IsDigit c ∨ (65 ≤ c.toNat ∧ c.toNat ≤ 70)

instance (c : UInt8) : Decidable (IsUpperHexDigit c) := inferInstanceAs (Decidable (_ ∨ _))

/-- The digit of a number below 16. -/
def hexDigit (d : ℕ) : UInt8 :=
  if d % 16 < 10 then UInt8.ofNat (48 + d % 16) else UInt8.ofNat (55 + d % 16)

/-- The value of a digit. -/
def hexValue (c : UInt8) : ℕ :=
  if c.toNat ≤ 57 then c.toNat - 48
  else if c.toNat ≤ 70 then c.toNat - 55
  else c.toNat - 87

/-- The digits of bytes. -/
def encodeHex (l : List UInt8) : List UInt8 :=
  l.flatMap fun b => [hexDigit (b.toNat / 16), hexDigit (b.toNat % 16)]

/-- The `n` bytes the digits of a text stand for. -/
def decodeHex (n : ℕ) (text : List UInt8) : Vector UInt8 n :=
  .ofFn fun i => UInt8.ofNat (16 * hexValue (text.getD (2 * i) 48) + hexValue (text.getD (2 * i + 1) 48))

variable {n : ℕ} {c : UInt8} {l : List UInt8}

theorem hexValue_hexDigit (d : ℕ) : hexValue (hexDigit d) = d % 16 := by
  have h : ∀ d < 16, hexValue (hexDigit d) = d := by decide
  have hd : hexDigit d = hexDigit (d % 16) := by simp only [hexDigit, Nat.mod_mod]
  rw [hd, h _ (Nat.mod_lt _ (by decide))]

theorem isUpperHexDigit_hexDigit (d : ℕ) : IsUpperHexDigit (hexDigit d) := by
  have h : ∀ d < 16, IsUpperHexDigit (hexDigit d) := by decide
  have hd : hexDigit d = hexDigit (d % 16) := by simp only [hexDigit, Nat.mod_mod]
  exact hd ▸ h _ (Nat.mod_lt _ (by decide))

theorem IsUpperHexDigit.isHexDigit (h : IsUpperHexDigit c) : IsHexDigit c :=
  h.imp_right .inl

@[simp] theorem encodeHex_cons (b : UInt8) (l : List UInt8) :
    encodeHex (b :: l) = hexDigit (b.toNat / 16) :: hexDigit (b.toNat % 16) :: encodeHex l := rfl

@[simp] theorem length_encodeHex (l : List UInt8) : (encodeHex l).length = 2 * l.length := by
  induction l with
  | nil => rfl
  | cons b l ih => rw [encodeHex_cons, List.length_cons, List.length_cons, ih, List.length_cons]; omega

theorem isUpperHexDigit_of_mem_encodeHex (h : c ∈ encodeHex l) : IsUpperHexDigit c := by
  obtain ⟨b, -, hc⟩ := List.mem_flatMap.mp h
  rcases List.mem_cons.mp hc with rfl | hc
  · exact isUpperHexDigit_hexDigit _
  · exact List.mem_singleton.mp hc ▸ isUpperHexDigit_hexDigit _

/-- The two digits of byte `i`. -/
theorem encodeHex_getElem (i : ℕ) (h : i < l.length) :
    (encodeHex l)[2 * i]? = some (hexDigit (l[i].toNat / 16)) ∧
      (encodeHex l)[2 * i + 1]? = some (hexDigit (l[i].toNat % 16)) := by
  induction l generalizing i with
  | nil => exact absurd h (Nat.not_lt_zero i)
  | cons b l ih =>
    cases i with
    | zero => exact ⟨rfl, rfl⟩
    | succ i => exact ih i (Nat.lt_of_succ_lt_succ h)

/-- Reading back what was written, whatever follows it. -/
theorem decodeHex_encodeHex (v : Vector UInt8 n) (rest : List UInt8) :
    decodeHex n (encodeHex v.toList ++ rest) = v := by
  ext i hi
  have hlen : v.toList.length = n := Vector.length_toList
  obtain ⟨hhigh, hlow⟩ := encodeHex_getElem (l := v.toList) i (hlen.symm ▸ hi)
  have hleft : ∀ j < 2 * n, (encodeHex v.toList ++ rest)[j]? = (encodeHex v.toList)[j]? :=
    fun j hj => List.getElem?_append_left (by rw [length_encodeHex, hlen]; exact hj)
  have hbyte := (v[i]).toNat_lt
  rw [decodeHex, Vector.getElem_ofFn, List.getD_eq_getElem?_getD, List.getD_eq_getElem?_getD,
    hleft _ (by omega), hleft _ (by omega), hhigh, hlow, Option.getD_some, Option.getD_some,
    hexValue_hexDigit, hexValue_hexDigit, Vector.getElem_toList, Nat.mod_mod,
    Nat.mod_eq_of_lt (a := v[i].toNat / 16) (by omega), Nat.div_add_mod, UInt8.ofNat_toNat]

end Inn
