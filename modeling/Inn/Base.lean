import Mathlib.Algebra.Ring.Int.Defs
import Mathlib.Algebra.Ring.Nat
import Mathlib.Data.UInt

/-!
# Inn.Base — types and files shared by the whole development

`HASH` is the 16 byte hash used for Message-IDs and newsgroup names. An article
number (`ARTNUM`, an `unsigned long`) is a natural number. A file of fixed-size
records is the list of its records: `pread` past the end is a short read, and
`pwrite` past the end leaves a hole of zero records.
-/

namespace Inn

/-- `HASH`: the 16 bytes of an MD5 hash. -/
abbrev HASH := Vector UInt8 16

/-- The all-zero hash `HashClear` writes. -/
def HASH.clear : HASH := Vector.replicate 16 0

/-- Named, so that decisions about membership are the same term everywhere. -/
instance lawfulBEq_bytes : LawfulBEq (List UInt8) := List.instLawfulBEq

/-! ## Files of records -/

section Files

variable {ρ : Type*} [Zero ρ]

/-- Read the record at `place`; `none` is a short read at the end of the file. -/
def pread (file : List ρ) (place : ℕ) : Option ρ := file[place]?

/-- Write the record at `place`, extending the file with a hole if needed. -/
def pwrite (file : List ρ) (place : ℕ) (r : ρ) : List ρ :=
  if place < file.length then file.set place r
  else file ++ List.replicate (place - file.length) 0 ++ [r]

/-- The record at `place`, holes and the space past the end reading as zeros. -/
def recordAt (file : List ρ) (place : ℕ) : ρ := (pread file place).getD 0

/-- `ftruncate` to a length not below the current one. -/
def extend (file : List ρ) (n : ℕ) : List ρ := file ++ List.replicate (n - file.length) 0

@[simp] theorem recordAt_nil (place : ℕ) : recordAt ([] : List ρ) place = 0 := by
  simp [recordAt, pread]

theorem recordAt_of_length_le {file : List ρ} {place : ℕ} (h : file.length ≤ place) :
    recordAt file place = 0 := by
  simp [recordAt, pread, List.getElem?_eq_none h]

theorem pread_eq_some {file : List ρ} {place : ℕ} (h : place < file.length) :
    pread file place = some (recordAt file place) := by
  simp [recordAt, pread, List.getElem?_eq_getElem h]

theorem recordAt_pwrite (file : List ρ) (place q : ℕ) (r : ρ) :
    recordAt (pwrite file place r) q = if q = place then r else recordAt file q := by
  unfold pwrite
  split
  · rename_i h
    by_cases hq : q = place
    · subst hq
      simp [recordAt, pread, h]
    · simp [recordAt, pread, Ne.symm hq, hq]
  · rename_i h
    simp only [recordAt, pread]
    rw [List.getElem?_append]
    by_cases hq : q = place
    · subst hq
      rw [if_neg (by simp; omega)]
      have hz : q - (file ++ List.replicate (q - file.length) (0 : ρ)).length = 0 := by
        simp; omega
      rw [hz, if_pos rfl]
      rfl
    · rw [if_neg hq]
      split
      · rename_i hlt
        rw [List.getElem?_append]
        split
        · rfl
        · rename_i hge
          simp only [List.length_append, List.length_replicate] at hlt
          rw [List.getElem?_eq_none (Nat.le_of_not_lt hge),
            List.getElem?_replicate, if_pos (by omega)]
          rfl
      · rename_i hge
        simp only [List.length_append, List.length_replicate] at hge
        rw [List.getElem?_eq_none (by simp; omega), List.getElem?_eq_none (by omega)]

theorem length_pwrite (file : List ρ) (place : ℕ) (r : ρ) :
    (pwrite file place r).length = max file.length (place + 1) := by
  unfold pwrite
  split
  · simp; omega
  · simp; omega

theorem recordAt_extend (file : List ρ) (n q : ℕ) :
    recordAt (extend file n) q = recordAt file q := by
  simp only [recordAt, pread, extend]
  rw [List.getElem?_append]
  split
  · rfl
  · rename_i h
    rw [List.getElem?_replicate, List.getElem?_eq_none (by omega)]
    split <;> rfl

theorem length_extend (file : List ρ) (n : ℕ) :
    (extend file n).length = max file.length n := by
  simp [extend]
  omega

end Files

end Inn
