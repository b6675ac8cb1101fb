import Inn.Base
import Inn.Decimal
import Inn.Innd.Clean
import Mathlib.Tactic.NormNum

/-!
# Inn.Innd.Active — the in-core active file

The active file is kept as text, and each group keeps the offset of its line and
of its high water mark, so that marks are updated in place:

* `NGparsefile` — the groups of a text;
* `FormatLong` — a number written over the digits of a field;
* `NGrenumber`, `NGlowmark` — the marks set from overview, or to a given low mark.
-/

namespace Inn.Innd

/-- `NNTP_MAXARTNUM`. -/
def NNTP_MAXARTNUM : ℕ := 2147483647

/-- `atol`, which clamps what does not fit. -/
def atol (p : List UInt8) : ℤ := max (-2 ^ 63) (min (2 ^ 63 - 1) (atoi p))

/-- The conversion of a long to an unsigned long. -/
def toULong (z : ℤ) : ℕ := (z % 2 ^ 64).toNat

/-- `strchr(text + p, c) - text`. -/
def strchr (text : List UInt8) (p : ℕ) (c : UInt8) : Option ℕ :=
  ((cString (text.drop p)).findIdx? (· == c)).map (p + ·)

/-- `FormatLong`: the digits are written from the last one on. -/
def FormatLong (active : List UInt8) (p value : ℕ) : ℕ → List UInt8 × Bool
  | 0 => (active, value == 0)
  | width + 1 => FormatLong (active.set (p + width) (digit value)) p (value / 10) width

/-- `NEWSGROUP`, less what the numbering does not read; strings are offsets into the
active file. -/
structure NEWSGROUP where
  Start : ℕ
  Name : List UInt8
  Last : ℕ
  Filenum : ℕ
  Lastwidth : ℕ
  PostCount : ℕ
  LastString : ℕ
deriving DecidableEq

/-- `NGparseentry` of the line at `p`, which ends at `fin`. -/
def NGparseentry (active : List UInt8) (p fin : ℕ) : Option NEWSGROUP := do
  let q ← strchr active p 32
  let q' ← strchr active (q + 1) 32
  guard (q' ≤ fin)
  let q'' ← strchr active (q' + 1) 32
  guard (q'' ≤ fin)
  return { Start := p, Name := (active.drop p).take (q - p),
           Last := toULong (atol (active.drop (q + 1))), Filenum := 0, Lastwidth := q' - (q + 1),
           PostCount := 0, LastString := q + 1 }

/-- The loop of `NGparsefile` over the lines; a duplicate group is refused. -/
def parseLines (active : List UInt8) : ℕ → ℕ → List NEWSGROUP → Option (List NEWSGROUP)
  | 0, _, groups => some groups
  | n + 1, p, groups => do
    let q ← strchr active p 10
    let ngp ← NGparseentry active p q
    guard (ngp.Name ∉ groups.map (·.Name))
    parseLines active n (q + 1) (groups ++ [ngp])

/-- `NGparsefile`: `Groups`, unless innd exits. -/
def NGparsefile (active : List UInt8) : Option (List NEWSGROUP) :=
  if active.count 10 = 0 then none else parseLines active (active.count 10) 0 []

/-- `NGfind`: where the group is in `Groups`. -/
def NGfind (groups : List NEWSGROUP) (name : List UInt8) : Option ℕ :=
  groups.findIdx? (·.Name == name)

/-- The fields of a line: the offsets of both marks and of the space after them. -/
def markFields (active : List UInt8) (start : ℕ) : Option (ℕ × ℕ × ℕ) := do
  let f2 ← strchr active start 32
  let f3 ← strchr active (f2 + 1) 32
  let f4 ← strchr active (f3 + 1) 32
  return (f2 + 1, f3 + 1, f4)

/-- The low mark is written where it differs; false where it does not fit. -/
def setLow (active : List UInt8) (f3 f4 : ℕ) (lomark : ℤ) : Bool × List UInt8 :=
  if lomark ≠ atol (active.drop f3) then
    let (active, ok) := FormatLong active f3 (toULong lomark) (f4 - f3)
    (ok, active)
  else (true, active)

/-- The marks are written where the high one is higher and the low one differs. -/
def setMarks (active : List UInt8) (ngp : NEWSGROUP) (himark lomark : ℤ) :
    Bool × List UInt8 × NEWSGROUP :=
  match markFields active ngp.Start with
  | none => (false, active, ngp)
  | some (f2, f3, f4) =>
    if atol (active.drop f2) < himark then
      let (active, ok) := FormatLong active f2 (toULong himark) (f3 - f2 - 1)
      if !ok then (false, active, ngp)
      else
        let (ok, active) := setLow active f3 f4 lomark
        (ok, active, { ngp with Last := toULong himark })
    else
      let (ok, active) := setLow active f3 f4 lomark
      (ok, active, ngp)

/-- The low and the high mark `NGrenumber` takes from the answer of `OVgroupstats`. -/
def overviewMarks (low high count : ℤ) : ℤ × ℤ :=
  if count ≠ 0 then (low, high)
  else
    let lomark := if max low high = 0 then 1 else max low high
    (lomark, lomark - 1)

/-- `NGrenumber`, where `stats` is the answer of `OVgroupstats`: the low and the high
mark and the number of articles. -/
def NGrenumber (enableoverview ICDneedsetup : Bool) (stats : Option (ℤ × ℤ × ℤ))
    (active : List UInt8) (ngp : NEWSGROUP) : Bool × List UInt8 × NEWSGROUP :=
  if !enableoverview then (true, active, ngp)
  else if ICDneedsetup then (false, active, ngp)
  else
    match stats with
    | none => (false, active, ngp)
    | some (low, high, count) =>
      let (lomark, himark) := overviewMarks low high count
      setMarks active ngp himark lomark

/-- `NGlowmark`; the high mark of an empty group is one less than the low mark. -/
def NGlowmark (active : List UInt8) (ngp : NEWSGROUP) (lomark : ℤ) :
    Bool × List UInt8 × NEWSGROUP :=
  setMarks active ngp (lomark - 1) lomark

/-! ## FormatLong -/

/-- The digits of the number are written over the field, cut to the low ones where
it does not fit. -/
theorem FormatLong_eq {active : List UInt8} {p width : ℕ} (value : ℕ)
    (h : p + width ≤ active.length) : FormatLong active p value width =
      (active.take p ++ decimal width value ++ active.drop (p + width),
        decide (value < 10 ^ width)) := by
  induction width generalizing active value with
  | zero =>
    simp only [FormatLong, decimal, List.append_nil, Nat.add_zero, List.take_append_drop,
      Nat.pow_zero, Nat.lt_one_iff]
    rfl
  | succ width ih =>
    rw [FormatLong, ih (value / 10) (by rw [List.length_set]; omega),
      List.take_set_of_le (by omega)]
    have hdrop : (active.set (p + width) (digit value)).drop (p + width) =
        digit value :: active.drop (p + (width + 1)) := by
      rw [List.drop_eq_getElem_cons (by rw [List.length_set]; omega), List.getElem_set_self,
        List.drop_set_of_lt (by omega)]
      rfl
    have hfits : decide (value / 10 < 10 ^ width) = decide (value < 10 ^ (width + 1)) := by
      exact decide_eq_decide.mpr (by rw [Nat.pow_succ]; exact Nat.div_lt_iff_lt_mul (by decide))
    rw [hdrop, hfits, decimal]
    simp

/-! ## Lines -/

/-- A line of a well-formed active file: two number fields between a group name
and the rest. -/
structure ActiveLine where
  name : List UInt8
  hi : List UInt8
  lo : List UInt8
  rest : List UInt8
  name_ok : ∀ c ∈ name, c ≠ 0 ∧ c ≠ 10 ∧ c ≠ 32
  hi_ok : hi ≠ [] ∧ ∀ c ∈ hi, IsDigit c
  lo_ok : lo ≠ [] ∧ ∀ c ∈ lo, IsDigit c
  rest_ok : ∀ c ∈ rest, c ≠ 0 ∧ c ≠ 10

namespace ActiveLine

def octets (line : ActiveLine) : List UInt8 :=
  line.name ++ 32 :: (line.hi ++ 32 :: (line.lo ++ 32 :: (line.rest ++ [10])))

/-- The number in the high water mark field, as `atol` reads it. -/
def mark (line : ActiveLine) : ℕ := min (2 ^ 63 - 1) (decimalValue line.hi)

/-- The high water mark field with another number. -/
def setHi (line : ActiveLine) (v : ℕ) : ActiveLine :=
  { line with
    hi := decimal line.hi.length v
    hi_ok := by
      refine ⟨?_, fun c hc => isDigit_of_mem_decimal hc⟩
      rw [← List.length_pos_iff, length_decimal]
      exact List.length_pos_iff.mpr line.hi_ok.1 }

/-- The low water mark field with another number. -/
def setLo (line : ActiveLine) (v : ℕ) : ActiveLine :=
  { line with
    lo := decimal line.lo.length v
    lo_ok := by
      refine ⟨?_, fun c hc => isDigit_of_mem_decimal hc⟩
      rw [← List.length_pos_iff, length_decimal]
      exact List.length_pos_iff.mpr line.lo_ok.1 }

variable (line : ActiveLine)

theorem mark_setHi {v : ℕ} (hfits : v < 10 ^ line.hi.length) (hv : v < 2 ^ 63) :
    (line.setHi v).mark = v := by
  rw [mark, setHi, decimalValue_decimal_of_lt hfits]
  omega

end ActiveLine

/-- The text of an active file. -/
def activeText (lines : List ActiveLine) : List UInt8 := (lines.map ActiveLine.octets).flatten

/-! ## Reading a line -/

section Strings

theorem cString_append {l r : List UInt8} (h : ∀ c ∈ l, c ≠ 0) :
    cString (l ++ r) = l ++ cString r := by
  rw [cString, List.takeWhile_append_of_pos (by simpa using h)]
  rfl

/-- `strchr` finds the first character after a part without it. -/
theorem strchr_eq {text pre l post : List UInt8} {c : UInt8} (htext : text = pre ++ l ++ c :: post)
    (hl : ∀ d ∈ l, d ≠ 0 ∧ d ≠ c) (hc : c ≠ 0) :
    strchr text pre.length c = some (pre.length + l.length) := by
  have hdrop : text.drop pre.length = l ++ c :: post := by simp [htext]
  have hcut : cString (l ++ c :: post) = l ++ c :: cString post := by
    rw [cString_append fun d hd => (hl d hd).1, cString, List.takeWhile_cons_of_pos (by simpa using hc)]
    rfl
  have hfind : (l ++ c :: cString post).findIdx? (· == c) = some l.length := by
    rw [List.findIdx?_append, List.findIdx?_eq_none_iff.mpr (by simpa using fun d hd => (hl d hd).2)]
    simp [List.findIdx?_cons]
  rw [strchr, hdrop, hcut, hfind]
  rfl

theorem isdigit_iff (c : UInt8) : isdigit c = true ↔ IsDigit c := by
  rw [isdigit, Bool.and_eq_true, decide_eq_true_iff, decide_eq_true_iff, UInt8.le_iff_toNat_le,
    UInt8.le_iff_toNat_le]
  rfl

theorem foldl_digits (l : List UInt8) (n : ℕ) :
    l.foldl (fun (n : ℤ) c => 10 * n + (c.toNat - 48 : ℕ)) n =
      (l.foldl (fun n c => 10 * n + (c.toNat - 48)) n : ℕ) := by
  induction l generalizing n with
  | nil => rfl
  | cons c l ih => exact_mod_cast ih (10 * n + (c.toNat - 48))

theorem isspace_of_isDigit {c : UInt8} (h : IsDigit c) : isspace c = false := by
  refine Bool.eq_false_iff.mpr fun hs => ?_
  rw [isspace, Bool.or_eq_true, Bool.and_eq_true, decide_eq_true_iff, decide_eq_true_iff,
    UInt8.le_iff_toNat_le, UInt8.le_iff_toNat_le, beq_iff_eq] at hs
  rcases hs with rfl | ⟨_, hs⟩
  · exact absurd h (by decide)
  · exact absurd (h.1.trans hs) (by decide)

/-- Digits are read up to the first character that is none. -/
theorem leadingNumber_digits {l post : List UInt8} (hl : ∀ d ∈ l, IsDigit d)
    (hpost : ∀ c ∈ post.head?, ¬ IsDigit c) : leadingNumber (l ++ post) = decimalValue l := by
  have htail : post.takeWhile isdigit = [] := by
    cases post with
    | nil => rfl
    | cons c post => exact List.takeWhile_cons_of_neg (mt (isdigit_iff c).mp (hpost c rfl))
  rw [leadingNumber, List.takeWhile_append_of_pos fun d hd => (isdigit_iff d).mpr (hl d hd), htail,
    List.append_nil]
  exact foldl_digits l 0

/-- `atol` of a number field. -/
theorem atol_digits {l post : List UInt8} (hne : l ≠ []) (hl : ∀ d ∈ l, IsDigit d)
    (hpost : ∀ c ∈ post.head?, ¬ IsDigit c) :
    atol (l ++ post) = min (2 ^ 63 - 1) (decimalValue l : ℤ) := by
  obtain ⟨d, l, rfl⟩ := List.exists_cons_of_ne_nil hne
  have hd := hl d List.mem_cons_self
  have hspace := isspace_of_isDigit hd
  have hatoi : atoi (d :: l ++ post) = decimalValue (d :: l) := by
    rw [← leadingNumber_digits hl hpost, atoi, List.cons_append, List.dropWhile_cons_of_neg (by simp [hspace])]
    split
    · rename_i heq
      obtain ⟨rfl, -⟩ := List.cons_eq_cons.mp heq
      exact absurd hd (by decide)
    · rename_i heq
      obtain ⟨rfl, -⟩ := List.cons_eq_cons.mp heq
      exact absurd hd (by decide)
    · rfl
  rw [atol, hatoi]
  omega

end Strings

end Inn.Innd
