import Inn.Decimal
import Inn.Lines
import Inn.Libinn.Wire
import Inn.Nnrpd.Wire

/-!
# Inn.Storage.Overdata — building, checking and reading overview data

The functions of `storage/overdata.c`. A pointer into an article or into a string is what
follows it, as in `Inn.Nnrpd.Wire`; the members of a split overview line are offsets into it.

* `build_header`, `overview_build` — the overview data of an article;
* `overview_check` — whether overview data is well-formed;
* `overview_split`, `overview_get_standard_header`, `overview_get_extra_header` — its parts.
-/

namespace Inn.Storage

open Inn.Innd Inn.Nnrpd
open Inn.Libinn.Wire (xstrndup)

/-- `fields`: the standard overview fields. -/
def fields : List (List UInt8) :=
  ["Subject", "From", "Date", "Message-ID", "References", "Bytes", "Lines"].map octets

/-- TAB. -/
def TAB : UInt8 := 9

/-! ## Building -/

/-- A header field that is found begins further on. -/
theorem length_findheaderFrom {header p q : List UInt8} {strip : Bool} {fuel : ℕ}
    (h : findheaderFrom header strip fuel p = some q) : q.length < p.length := by
  induction fuel generalizing p with
  | zero => cases h
  | succ fuel ih =>
    have hnext : ∀ p', p'.length ≤ p.length →
        (wireNextline p').bind (findheaderFrom header strip fuel) = some q →
          q.length < p.length := by
      intro p' hle hbind
      obtain ⟨r, hr, hq⟩ := Option.bind_eq_some_iff.mp hbind
      have := length_wireNextline hr
      have := ih hq
      omega
    rw [findheaderFrom] at h
    split at h
    · cases h
    rename_i hlong
    split at h
    · cases h
    split at h
    · dsimp only at h
      split at h
      · cases h
      rename_i p' hp'
      have hle : p'.length < p.length := by
        split at hp'
        · have := length_skipFws hp'
          rw [List.length_drop] at this
          omega
        · cases hp'
          rw [List.length_drop]
          omega
      split at h
      · cases h
        exact hle
      · exact hnext p' (Nat.le_of_lt hle) h
    · exact hnext p (Nat.le_refl _) h

theorem length_wireFindheader {header p q : List UInt8} {strip : Bool}
    (h : wireFindheader p header strip = some q) : q.length < p.length :=
  length_findheaderFrom h

/-- The loop of `build_header` over the further Xref header fields: where the last one begins
and ends. -/
def lastXref (header data last next : List UInt8) : Option (List UInt8 × List UInt8) :=
  match _h : wireFindheader next header false with
  | none => some (data, last)
  | some data =>
    match wireEndheader data with
    | none => none
    | some last => lastXref header data last data
termination_by next.length
decreasing_by exact length_wireFindheader _h

/-- The copying loop of `build_header`. -/
def clean : List UInt8 → List UInt8
  | [] => []
  | 13 :: 10 :: p => clean p
  | c :: p => (if c = 0 ∨ c = 9 ∨ c = 10 ∨ c = 13 then 32 else c) :: clean p

/-- `build_header`: what is appended to the overview data. -/
def build_header (article header : List UInt8) : List UInt8 :=
  match wireFindheader article header false with
  | none => []
  | some data =>
    match wireEndheader data with
    | none => []
    | some last =>
      match if strcaseEq header (octets "xref") then lastXref header data last last.tail
        else some (data, last) with
      | none => []
      | some (data, last) => clean (data.take (data.length - last.length + 1))

/-- `overview_build`. -/
def overview_build (number : ℕ) (article : List UInt8) (extra : List (List UInt8)) : List UInt8 :=
  printed number ++
    fields.zipIdx.flatMap (fun (header, field) =>
      TAB :: if field = 5 then printed article.length else build_header article header) ++
    extra.flatMap (fun header => TAB :: (header ++ octets ": " ++ build_header article header)) ++
    crlf

/-! ## Checking -/

/-- `cvector_split`: the strings as the memory from each of them on, where the separators have
become NULs. -/
def cvector_split (separator : UInt8) (string : List UInt8) : List (List UInt8) :=
  memory string :: starts string
where
  memory (string : List UInt8) : List UInt8 :=
    string.map (fun c => if c = separator then 0 else c) ++ [0]
  starts : List UInt8 → List (List UInt8)
    | [] => []
    | c :: p => if c = separator then memory p :: starts p else starts p

/-- `valid_number`. -/
def valid_number (string : List UInt8) : Bool := (cString string).all fun c => decide (IsDigit c)

/-- `isgraph` in the C locale. -/
def isgraph (c : UInt8) : Bool := 33 ≤ c && c ≤ 126

/-- The last loop of `valid_overview_string`. -/
def noLineEnds : List UInt8 → Bool
  | [] => true
  | 0 :: _ => true
  | 13 :: 10 :: 0 :: _ => true
  | c :: p => c != 13 && c != 10 && noLineEnds p

/-- `valid_overview_string`. The loop begins behind the first octet, or behind the space. -/
def valid_overview_string (string : List UInt8) (full : Bool) : Bool :=
  if full then
    if string.head? = some 0 ∨ string.take 3 = [13, 10, 0] then true
    else if !(string.takeWhile fun c => c != 0 && c != 58).all isgraph then false
    else
      match string.dropWhile fun c => c != 0 && c != 58 with
      | 58 :: 32 :: p => noLineEnds p
      | _ => false
  else noLineEnds string.tail

def ULONG_MAX : ℕ := 2 ^ 64 - 1

/-- `strtoul` of a string that is a number. -/
def strtoul (string : List UInt8) : ℕ :=
  min (decimalValue (string.takeWhile fun c => decide (IsDigit c))) ULONG_MAX

/-- `overview_check`. -/
def overview_check (data : List UInt8) (article : ℕ) : Bool :=
  let overview := cvector_split TAB (xstrndup data)
  8 ≤ overview.length && valid_number (overview.getD 0 []) &&
    strtoul (overview.getD 0 []) == article && valid_number (overview.getD 6 []) &&
    ((overview.take 6).drop 1).all (valid_overview_string · false) &&
    (overview.drop 8).all (valid_overview_string · true)

/-! ## Reading -/

/-- `isspace` in the C locale. -/
def isspace (c : UInt8) : Bool := c == 32 || (9 ≤ c && c ≤ 13)

/-- `atoi`, converted to an article number: `strtol` stops at the limits, and what it gives is
cut to an `int`. -/
def atoi (string : List UInt8) : ℕ :=
  let string := string.dropWhile isspace
  let digits := fun p : List UInt8 => (decimalValue (p.takeWhile fun c => decide (IsDigit c)) : ℤ)
  let value := match string with
    | 45 :: p => max (-digits p) (-2 ^ 63)
    | 43 :: p => min (digits p) (2 ^ 63 - 1)
    | p => min (digits p) (2 ^ 63 - 1)
  (Int.bmod value (2 ^ 32) % 2 ^ 64).toNat

/-- The digits before something else. -/
theorem takeWhile_printed {rest : List UInt8} (number : ℕ)
    (hrest : ∀ c, rest.head? = some c → ¬ IsDigit c) :
    (printed number ++ rest).takeWhile (fun c => decide (IsDigit c)) = printed number := by
  rw [List.takeWhile_append_of_pos fun c hc => decide_eq_true (isDigit_of_mem_printed hc)]
  rcases rest with _ | ⟨c, rest⟩
  · exact List.append_nil _
  · rw [List.takeWhile_cons_of_neg (by simpa using hrest c rfl), List.append_nil]

/-- An article number is read back. -/
theorem atoi_printed {number : ℕ} {rest : List UInt8} (hnumber : number < 2 ^ 31)
    (hrest : ∀ c, rest.head? = some c → ¬ IsDigit c) : atoi (printed number ++ rest) = number := by
  have hdigits := takeWhile_printed number hrest
  obtain ⟨d, ds, hd⟩ := List.exists_cons_of_ne_nil (printed_ne_nil number)
  have hdigit : IsDigit d := isDigit_of_mem_printed (hd ▸ List.mem_cons_self)
  have hne : ∀ c : UInt8, ¬ IsDigit c → d ≠ c := by
    rintro c hc rfl
    exact hc hdigit
  have hspace : isspace d = false := by
    have h14 : ¬ d ≤ 13 := by
      intro hle
      have := UInt8.le_iff_toNat_le.mp hle
      have h13 : (13 : UInt8).toNat = 13 := rfl
      have := hdigit.1
      omega
    rw [isspace, beq_eq_false_iff_ne.mpr (hne 32 (by decide)), decide_eq_false h14, Bool.and_false]
    rfl
  have hdrop : (printed number ++ rest).dropWhile isspace = printed number ++ rest := by
    rw [hd, List.cons_append, List.dropWhile_cons_of_neg]
    rw [hspace]
    exact Bool.false_ne_true
  rw [atoi, hdrop]
  dsimp only
  split
  · rename_i heq
    rw [hd, List.cons_append] at heq
    exact absurd (List.cons.inj heq).1 (hne 45 (by decide))
  · rename_i heq
    rw [hd, List.cons_append] at heq
    exact absurd (List.cons.inj heq).1 (hne 43 (by decide))
  · rw [hdigits, decimalValue_printed, Int.bmod_def]
    split <;> omega

/-- The loop of `overview_split` from the offset `place` on, where `inside` says that the
article number has been read. A line has two octets at least, its CRLF. -/
def splitFrom (inside : Bool) (place : ℕ) (line : List UInt8) : List ℕ :=
  (if inside then [place] else []) ++
    match h : memchr TAB line with
    | none => [place + line.length - 1]
    | some k => splitFrom true (place + (k + 1)) (line.drop (k + 1))
termination_by line.length
decreasing_by
  rw [List.length_drop]
  have := (memchr_eq_some h).1
  omega

/-- `overview_split`: the article number and the vector. -/
def overview_split (line : List UInt8) : ℕ × List ℕ := (atoi line, splitFrom false 0 line)

/-- `overview_get_standard_header`. -/
def overview_get_standard_header (line : List UInt8) (vector : List ℕ) (element : ℕ) :
    Option (List UInt8) :=
  if vector.length ≤ element + 1 ∨ 6 < element then none
  else
    let p := vector.getD element 0
    let len := vector.getD (element + 1) 0 - p - 1
    some (xstrndup ((line.drop p).take len))

/-- The loop of `overview_get_extra_header`; the last offset is beyond the last component. -/
def extraFrom (line header : List UInt8) : List ℕ → Option (List UInt8)
  | place :: next :: rest =>
    let string := line.drop place
    if (string.take header.length).map tolower = header.map tolower ∧
        (string.drop header.length).take 2 = octets ": " then
      let p := place + header.length + 2
      some (xstrndup ((line.drop p).take (next - p - 1)))
    else extraFrom line header (next :: rest)
  | _ => none

/-- `overview_get_extra_header`. -/
def overview_get_extra_header (line : List UInt8) (vector : List ℕ) (header : List UInt8) :
    Option (List UInt8) :=
  extraFrom line header (vector.drop fields.length)

end Inn.Storage
