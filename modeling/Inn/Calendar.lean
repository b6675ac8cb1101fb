import Mathlib.Algebra.BigOperators.Group.List.Basic
import Mathlib.Algebra.Order.Ring.Int

/-!
# Inn.Calendar — the Gregorian calendar, continued in both directions

Days are numbered from the first of January 1970 on.

* `Date`, `Date.number` — a date, and the number of its day;
* `number_inj`, `next_day` — a day has only one date; the next day is in the same year, or it is
  the first one of the next year.
-/

namespace Inn.Calendar

/-! ## Years -/

/-- Every fourth year, but of the full centuries only every fourth one. -/
def IsLeap (year : ℤ) : Prop := year % 4 = 0 ∧ (year % 100 ≠ 0 ∨ year % 400 = 0)

instance (year : ℤ) : Decidable (IsLeap year) := inferInstanceAs (Decidable (_ ∧ _))

/-- The leap years from the year 1 on before a year. -/
def leaps (year : ℤ) : ℤ := (year - 1) / 4 - (year - 1) / 100 + (year - 1) / 400

def yearLength (year : ℤ) : ℤ := if IsLeap year then 366 else 365

/-- The number of the first day of a year. -/
def yearStart (year : ℤ) : ℤ := 365 * (year - 1970) + (leaps year - leaps 1970)

theorem yearStart_succ (year : ℤ) : yearStart (year + 1) = yearStart year + yearLength year := by
  have hleaps : leaps (year + 1) = leaps year + if IsLeap year then 1 else 0 := by
    unfold leaps
    by_cases h : IsLeap year
    · rw [if_pos h]
      unfold IsLeap at h
      omega
    · rw [if_neg h]
      unfold IsLeap at h
      omega
  rw [yearStart, yearStart, yearLength, hleaps]
  split <;> omega

theorem yearLength_pos (year : ℤ) : 0 < yearLength year := by
  rw [yearLength]
  split <;> omega

theorem yearStart_mono {year year' : ℤ} (h : year ≤ year') : yearStart year ≤ yearStart year' := by
  obtain ⟨n, rfl⟩ := Int.le.dest h
  induction n with
  | zero => rw [Nat.cast_zero, add_zero]
  | succ n ih =>
    have hstep := yearStart_succ (year + n)
    have hpos := yearLength_pos (year + n)
    rw [Nat.cast_succ, ← add_assoc]
    have := ih (Int.le_add_of_nonneg_right (Int.natCast_nonneg n))
    omega

/-- A year is known by one of its days. -/
theorem year_unique {year year' n : ℤ} (h : yearStart year ≤ n ∧ n < yearStart (year + 1))
    (h' : yearStart year' ≤ n ∧ n < yearStart (year' + 1)) : year = year' := by
  rcases lt_trichotomy year year' with hlt | heq | hlt
  · have := yearStart_mono (show year + 1 ≤ year' from hlt)
    omega
  · exact heq
  · have := yearStart_mono (show year' + 1 ≤ year from hlt)
    omega

/-! ## Months -/

/-- The lengths of the months. -/
def monthLengths (leap : Bool) : List ℕ :=
  [31, if leap then 29 else 28, 31, 30, 31, 30, 31, 31, 30, 31, 30, 31]

/-- The days of a year before a month. -/
def monthStart (leap : Bool) (month : ℕ) : ℕ := ((monthLengths leap).take month).sum

theorem take_sum_succ (l : List ℕ) (i : ℕ) :
    (l.take (i + 1)).sum = (l.take i).sum + l.getD i 0 := by
  induction l generalizing i with
  | nil => simp
  | cons a l ih =>
    cases i with
    | zero => simp
    | succ i =>
      rw [List.take_succ_cons, List.take_succ_cons, List.sum_cons, List.sum_cons, ih,
        List.getD_cons_succ, Nat.add_assoc]

theorem take_sum_mono (l : List ℕ) {i j : ℕ} (h : i ≤ j) : (l.take i).sum ≤ (l.take j).sum := by
  induction h with
  | refl => exact Nat.le_refl _
  | step _ ih =>
    rw [take_sum_succ]
    omega

/-! ## Dates -/

/-- A date; the months are numbered from zero on, the days from one on. -/
structure Date where
  year : ℤ
  month : ℕ
  day : ℕ

/-- The days of the month of a date. -/
def Date.monthLength (d : Date) : ℕ := (monthLengths (IsLeap d.year)).getD d.month 0

/-- The date is in the calendar. -/
structure Date.Valid (d : Date) : Prop where
  month_lt : d.month < 12
  day_pos : 0 < d.day
  day_le : d.day ≤ d.monthLength

/-- The days of its year before a date. -/
def Date.dayOfYear (d : Date) : ℕ := monthStart (IsLeap d.year) d.month + (d.day - 1)

/-- The number of a day. -/
def Date.number (d : Date) : ℤ := yearStart d.year + d.dayOfYear

theorem sum_monthLengths (year : ℤ) :
    ((monthLengths (IsLeap year)).sum : ℤ) = yearLength year := by
  rw [yearLength]
  split
  · rename_i h
    rw [decide_eq_true h]
    rfl
  · rename_i h
    rw [decide_eq_false h]
    rfl

theorem Date.Valid.dayOfYear_lt {d : Date} (h : d.Valid) :
    (d.dayOfYear : ℤ) < yearLength d.year := by
  have hpos := h.day_pos
  have hle := h.day_le
  have hsucc := take_sum_succ (monthLengths (IsLeap d.year)) d.month
  have hall := take_sum_mono (monthLengths (IsLeap d.year)) (show d.month + 1 ≤ 12 from h.month_lt)
  rw [List.take_of_length_le (show (monthLengths (IsLeap d.year)).length ≤ 12 from Nat.le_refl 12)]
    at hall
  rw [← sum_monthLengths, Date.dayOfYear, monthStart]
  rw [Date.monthLength] at hle
  omega

theorem Date.Valid.in_year {d : Date} (h : d.Valid) :
    yearStart d.year ≤ d.number ∧ d.number < yearStart (d.year + 1) := by
  have := h.dayOfYear_lt
  have := yearStart_succ d.year
  rw [Date.number]
  omega

/-- A day has only one date. -/
theorem number_inj {d e : Date} (hd : d.Valid) (he : e.Valid) (h : d.number = e.number) :
    d = e := by
  have hyear : d.year = e.year := year_unique hd.in_year (h ▸ he.in_year)
  obtain ⟨year, month, day⟩ := d
  obtain ⟨year', month', day'⟩ := e
  obtain rfl : year = year' := hyear
  obtain ⟨-, hpos, hle⟩ := hd
  obtain ⟨-, hpos', hle'⟩ := he
  have hday : monthStart (IsLeap year) month + (day - 1) =
      monthStart (IsLeap year) month' + (day' - 1) := by
    have := h
    simp only [Date.number, Date.dayOfYear] at this
    omega
  have hsucc := take_sum_succ (monthLengths (IsLeap year)) month
  have hsucc' := take_sum_succ (monthLengths (IsLeap year)) month'
  simp only [Date.monthLength, monthStart] at hpos hle hpos' hle' hday
  rcases lt_trichotomy month month' with hlt | rfl | hlt
  · have := take_sum_mono (monthLengths (IsLeap year)) (show month + 1 ≤ month' from hlt)
    omega
  · have : day = day' := by omega
    rw [this]
  · have := take_sum_mono (monthLengths (IsLeap year)) (show month' + 1 ≤ month from hlt)
    omega

/-- The next day is in the same year, or it is the first one of the next year. -/
theorem next_day {d e : Date} (hd : d.Valid) (he : e.Valid) (h : e.number = d.number + 1) :
    (e.year = d.year ∧ e.dayOfYear = d.dayOfYear + 1) ∨
      (e.year = d.year + 1 ∧ e.dayOfYear = 0 ∧ (d.dayOfYear : ℤ) + 1 = yearLength d.year) := by
  have hsucc := yearStart_succ d.year
  have hlt := hd.dayOfYear_lt
  rw [Date.number, Date.number] at h
  by_cases hsame : (d.dayOfYear : ℤ) + 1 < yearLength d.year
  · left
    have hyear : e.year = d.year := year_unique he.in_year ⟨by
      rw [Date.number]
      omega, by
      rw [Date.number]
      omega⟩
    rw [hyear] at h
    exact ⟨hyear, by omega⟩
  · right
    have hpos := yearLength_pos (d.year + 1)
    have hsucc' := yearStart_succ (d.year + 1)
    have hyear : e.year = d.year + 1 := year_unique he.in_year ⟨by
      rw [Date.number]
      omega, by
      rw [Date.number]
      omega⟩
    rw [hyear] at h
    exact ⟨hyear, by omega, by omega⟩

end Inn.Calendar
