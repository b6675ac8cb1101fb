import Mathlib.Data.List.TakeWhile
import Inn.Nnrpd.Headers
import Inn.Storage.Overdata

/-!
# Inn.Storage.Columns — an overview line as columns

A line is the article number, columns with a TAB in front, and CRLF. Here the columns are
any texts without NUL, TAB, CR and LF.

* `splitFrom_columns`, `member_columns` — `overview_split` finds them;
* `extraFrom_columns` — and `overview_get_extra_header` those that a name is in front of;
* `overview_check_columns` — `overview_check` accepts them.
-/

namespace Inn.Storage

open Inn.Innd Inn.Nnrpd
open Inn.Libinn.Wire (xstrndup)

/-- A text that can be a column. -/
def IsColumn (c : List UInt8) : Prop := ∀ x ∈ c, x ≠ 0 ∧ x ≠ 9 ∧ x ≠ 10 ∧ x ≠ 13

/-- Columns with a TAB in front. -/
def tabbed (cols : List (List UInt8)) : List UInt8 := cols.flatMap (TAB :: ·)

/-- Where columns begin if the first one begins at `place`, and where one behind them would. -/
def offsets : ℕ → List (List UInt8) → List ℕ
  | place, [] => [place]
  | place, c :: cols => place :: offsets (place + c.length + 1) cols

section Columns

variable {c d : List UInt8} {cols : List (List UInt8)}

theorem IsColumn.append (hc : IsColumn c) (hd : IsColumn d) : IsColumn (c ++ d) := fun x hx =>
  (List.mem_append.mp hx).elim (hc x) (hd x)

theorem IsColumn.tab (hc : IsColumn c) : TAB ∉ c := fun h => (hc _ h).2.1 rfl

theorem tabbed_cons (c : List UInt8) (cols : List (List UInt8)) :
    tabbed (c :: cols) = TAB :: (c ++ tabbed cols) := rfl

theorem tabbed_append (cols cols' : List (List UInt8)) :
    tabbed (cols ++ cols') = tabbed cols ++ tabbed cols' :=
  List.flatMap_append

theorem isColumn_printed (n : ℕ) : IsColumn (printed n) := by
  intro x hx
  have hdigit := isDigit_of_mem_printed hx
  refine ⟨?_, ?_, ?_, ?_⟩ <;> rintro rfl <;> exact absurd hdigit (by decide)

theorem xstrndup_column (hc : IsColumn c) : xstrndup c = c :=
  List.takeWhile_eq_self_iff.mpr fun x hx => decide_eq_true (hc x hx).1

/-! ## Splitting -/

theorem memchr_crlf (hc : TAB ∉ c) : memchr TAB (c ++ crlf) = none := by
  refine List.findIdx?_eq_none_iff.mpr fun x hx => beq_eq_false_iff_ne.mpr ?_
  rintro rfl
  rcases List.mem_append.mp hx with h | h
  · exact hc h
  · exact absurd h (by decide)

/-- One turn of the loop of `overview_split` for each column. -/
theorem splitFrom_columns (inside : Bool) (place : ℕ) (hc : IsColumn c)
    (hcols : ∀ d ∈ cols, IsColumn d) :
    splitFrom inside place (c ++ tabbed cols ++ crlf) =
      (if inside then [place] else []) ++ offsets (place + c.length + 1) cols := by
  induction cols generalizing inside place c with
  | nil =>
    have hnone : memchr TAB (c ++ tabbed [] ++ crlf) = none := by
      rw [tabbed, List.flatMap_nil, List.append_nil]
      exact memchr_crlf hc.tab
    have hlen : place + (c ++ tabbed [] ++ crlf).length - 1 = place + c.length + 1 := by
      rw [tabbed, List.flatMap_nil, List.append_nil, List.length_append,
        show crlf.length = 2 from rfl]
      omega
    rw [splitFrom]
    congr 1
    split
    · rw [hlen]
      rfl
    · rename_i k hsome
      rw [hnone] at hsome
      cases hsome
  | cons d cols ih =>
    have hline : c ++ tabbed (d :: cols) ++ crlf = c ++ TAB :: (d ++ tabbed cols ++ crlf) := by
      rw [tabbed_cons]
      simp only [List.append_assoc, List.cons_append]
    have hsome : memchr TAB (c ++ tabbed (d :: cols) ++ crlf) = some c.length := by
      rw [hline]
      exact memchr_append hc.tab _
    have hdrop : (c ++ tabbed (d :: cols) ++ crlf).drop (c.length + 1) =
        d ++ tabbed cols ++ crlf := by
      rw [hline, List.drop_append, List.drop_eq_nil_of_le (Nat.le_succ _),
        Nat.add_sub_cancel_left]
      rfl
    rw [splitFrom]
    congr 1
    split
    · rename_i hnone
      rw [hnone] at hsome
      cases hsome
    · rename_i k hk
      rw [hk] at hsome
      cases hsome
      rw [hdrop, ih true _ (hcols d List.mem_cons_self)
        fun d' hd' => hcols d' (List.mem_cons_of_mem d hd'), if_pos rfl]
      rfl

theorem length_offsets (place : ℕ) (cols : List (List UInt8)) :
    (offsets place cols).length = cols.length + 1 := by
  induction cols generalizing place with
  | nil => rfl
  | cons c cols ih => rw [offsets, List.length_cons, ih, List.length_cons]

theorem offsets_head (place : ℕ) (cols : List (List UInt8)) :
    ∃ more, offsets place cols = place :: more := by
  cases cols with
  | nil => exact ⟨_, rfl⟩
  | cons c cols => exact ⟨_, rfl⟩

theorem offsets_drop (place : ℕ) (cols cols' : List (List UInt8)) :
    (offsets place (cols ++ cols')).drop cols.length =
      offsets (place + (tabbed cols).length) cols' := by
  induction cols generalizing place with
  | nil => rfl
  | cons c cols ih =>
    rw [List.cons_append, offsets, List.length_cons, List.drop_succ_cons, ih, tabbed_cons,
      List.length_cons, List.length_append]
    congr 1
    omega

theorem drop_column (pre : List UInt8) (c : List UInt8) (cols : List (List UInt8)) :
    (pre ++ tabbed (c :: cols) ++ crlf).drop (pre.length + 1) = c ++ tabbed cols ++ crlf := by
  rw [tabbed_cons, List.append_assoc, List.drop_append, List.drop_eq_nil_of_le (Nat.le_succ _),
    Nat.add_sub_cancel_left]
  rfl

/-- The members of a split line are its columns. -/
theorem member_columns (pre : List UInt8) {k : ℕ} (hk : k < cols.length) :
    let vector := offsets (pre.length + 1) cols
    ((pre ++ tabbed cols ++ crlf).drop (vector.getD k 0)).take
      (vector.getD (k + 1) 0 - vector.getD k 0 - 1) = cols.getD k [] := by
  induction cols generalizing pre k with
  | nil => cases hk
  | cons c cols ih =>
    obtain ⟨more, hmore⟩ := offsets_head (pre.length + 1 + c.length + 1) cols
    cases k with
    | zero =>
      have hlen : pre.length + 1 + c.length + 1 - (pre.length + 1) - 1 = c.length := by omega
      simp only [offsets, hmore, List.getD_cons_zero, List.getD_cons_succ]
      rw [hlen, drop_column, List.append_assoc, List.take_left]
    | succ k =>
      have hline : pre ++ tabbed (c :: cols) ++ crlf = pre ++ TAB :: c ++ tabbed cols ++ crlf := by
        rw [tabbed_cons]
        simp only [List.append_assoc, List.cons_append]
      have hplace : pre.length + 1 + c.length + 1 = (pre ++ TAB :: c).length + 1 := by
        rw [List.length_append, List.length_cons]
        omega
      rw [offsets, hline, hplace]
      simp only [List.getD_cons_succ]
      exact ih (pre ++ TAB :: c) (Nat.lt_of_succ_lt_succ hk)

end Columns

/-! ## Finding an extra column -/

section Extra

variable {header header' c : List UInt8} {names : List (List UInt8)}

theorem ne_colon (h : IsFieldName header) : (58 : UInt8) ∉ header.map tolower := by
  intro hmem
  obtain ⟨c, hc, h58⟩ := List.mem_map.mp hmem
  rw [tolower] at h58
  split at h58
  · rename_i hupper
    have hsum := congrArg UInt8.toNat h58
    rw [UInt8.le_iff_toNat_le, UInt8.le_iff_toNat_le] at hupper
    rw [UInt8.toNat_add] at hsum
    have h65 : (65 : UInt8).toNat = 65 := rfl
    have h90 : (90 : UInt8).toNat = 90 := rfl
    have h32 : (32 : UInt8).toNat = 32 := rfl
    have h58 : (58 : UInt8).toNat = 58 := rfl
    omega
  · exact (h.2 c hc).2.2 h58

/-- The two tests of `overview_get_extra_header` find the whole name only. -/
theorem names_test (hheader : IsFieldName header) (hheader' : IsFieldName header')
    (r : List UInt8) :
    (((header' ++ octets ": " ++ r).take header.length).map tolower = header.map tolower ∧
      ((header' ++ octets ": " ++ r).drop header.length).take 2 = octets ": ") ↔
      header'.map tolower = header.map tolower := by
  have hlen : ∀ {a b : List UInt8}, a.map tolower = b.map tolower → a.length = b.length := by
    intro a b h
    rw [← List.length_map tolower, h, List.length_map]
  constructor
  · rintro ⟨htake, hdrop⟩
    rcases Nat.lt_trichotomy header.length header'.length with hlt | heq | hgt
    · -- the name in the line goes on where the colon should be
      have hget : (header' ++ octets ": " ++ r)[header.length]? = some 58 := by
        have := congrArg List.head? hdrop
        rw [List.head?_take, if_neg (by decide), List.head?_drop] at this
        exact this
      rw [List.append_assoc, List.getElem?_append_left hlt] at hget
      exact absurd rfl (hheader'.2 58 (List.mem_of_getElem? hget)).2.2
    · rw [heq, List.append_assoc, List.take_left] at htake
      exact htake
    · -- the colon in the line stands inside the name
      refine absurd ?_ (ne_colon hheader)
      rw [← htake]
      refine List.mem_map.mpr ⟨58, List.mem_of_getElem? (i := header'.length) ?_, rfl⟩
      rw [List.getElem?_take_of_lt hgt, List.append_assoc,
        List.getElem?_append_right (Nat.le_refl _), Nat.sub_self]
      rfl
  · intro h
    rw [← hlen h, List.append_assoc, List.take_left, List.drop_left]
    exact ⟨h, rfl⟩

/-- Columns that begin with names. -/
def labelled (value : List UInt8 → List UInt8) (names : List (List UInt8)) : List (List UInt8) :=
  names.map fun h => h ++ octets ": " ++ value h

/-- A name in any case finds the column of the first name that is the same. -/
theorem extraFrom_columns {value : List UInt8 → List UInt8} (hheader : IsFieldName header)
    (hnames : ∀ h ∈ names, IsFieldName h) (hvalue : ∀ h, IsColumn (value h))
    (hcase : ∀ h, h.map tolower = header.map tolower → value h = value header)
    (hmem : header ∈ names) (pre : List UInt8) :
    extraFrom (pre ++ tabbed (labelled value names) ++ crlf) header
      (offsets (pre.length + 1) (labelled value names)) = some (value header) := by
  induction names generalizing pre with
  | nil => cases hmem
  | cons h names ih =>
    have hh := hnames h List.mem_cons_self
    have hcols : labelled value (h :: names) =
      (h ++ octets ": " ++ value h) :: labelled value names := rfl
    have hcolon : (octets ": ").length = 2 := rfl
    have hstring : h ++ octets ": " ++ value h ++ tabbed (labelled value names) ++ crlf =
        h ++ octets ": " ++ (value h ++ tabbed (labelled value names) ++ crlf) := by
      simp only [List.append_assoc]
    have htest := names_test hheader hh (value h ++ tabbed (labelled value names) ++ crlf)
    obtain ⟨more, hmore⟩ := offsets_head
      (pre.length + 1 + (h ++ octets ": " ++ value h).length + 1) (labelled value names)
    rw [hcols, offsets, hmore, extraFrom, drop_column, hstring]
    by_cases heq : h.map tolower = header.map tolower
    · have hlen : h.length = header.length := by
        rw [← List.length_map tolower, heq, List.length_map]
      have hp : pre.length + 1 + header.length + 2 =
          (pre ++ TAB :: (h ++ octets ": ")).length := by
        simp only [List.length_append, List.length_cons, hlen, hcolon]
        omega
      have hline : pre ++ tabbed ((h ++ octets ": " ++ value h) :: labelled value names) ++ crlf =
          pre ++ TAB :: (h ++ octets ": ") ++
            (value h ++ (tabbed (labelled value names) ++ crlf)) := by
        rw [tabbed_cons]
        simp only [List.append_assoc, List.cons_append]
      have hvlen : pre.length + 1 + (h ++ octets ": " ++ value h).length + 1 -
          (pre ++ TAB :: (h ++ octets ": ")).length - 1 = (value h).length := by
        simp only [List.length_append, List.length_cons]
        omega
      rw [if_pos (htest.mpr heq)]
      dsimp only
      rw [hp, hline, List.drop_left, hvlen, List.take_left, xstrndup_column (hvalue h),
        hcase h heq]
    · have hmem' : header ∈ names := by
        rcases List.mem_cons.mp hmem with rfl | hmem
        · exact absurd rfl heq
        · exact hmem
      have hline : pre ++ tabbed ((h ++ octets ": " ++ value h) :: labelled value names) ++ crlf =
          pre ++ TAB :: (h ++ octets ": " ++ value h) ++ tabbed (labelled value names) ++ crlf := by
        rw [tabbed_cons]
        simp only [List.append_assoc, List.cons_append]
      have hplace : pre.length + 1 + (h ++ octets ": " ++ value h).length + 1 =
          (pre ++ TAB :: (h ++ octets ": " ++ value h)).length + 1 := by
        simp only [List.length_append, List.length_cons]
        omega
      rw [if_neg fun h => heq (htest.mp h), ← hmore, hline, hplace]
      exact ih (fun h' hh' => hnames h' (List.mem_cons_of_mem h hh')) hmem' _

end Extra

/-! ## Checking -/

section Check

variable {s s' v r : List UInt8} {ss : List (List UInt8)}

/-- Strings as the memory from each of them on. -/
def strings : List (List UInt8) → List (List UInt8)
  | [] => []
  | s :: ss => (s :: ss).flatMap (· ++ [0]) :: strings ss

theorem memory_columns (hs : TAB ∉ s) (hss : ∀ t ∈ ss, TAB ∉ t) :
    cvector_split.memory TAB (s ++ tabbed ss) = (s :: ss).flatMap (· ++ [0]) := by
  have hmap : s.map (fun c => if c = TAB then 0 else c) = s := by
    conv_rhs => rw [← List.map_id s]
    exact List.map_congr_left fun c hc => if_neg fun h : c = TAB => hs (h ▸ hc)
  induction ss generalizing s with
  | nil =>
    rw [tabbed, List.flatMap_nil, List.append_nil, cvector_split.memory, hmap, List.flatMap_cons,
      List.flatMap_nil, List.append_nil]
  | cons t ss ih =>
    have ht := hss t List.mem_cons_self
    have hmap' : t.map (fun c => if c = TAB then 0 else c) = t := by
      conv_rhs => rw [← List.map_id t]
      exact List.map_congr_left fun c hc => if_neg fun h : c = TAB => ht (h ▸ hc)
    have := ih ht (fun t' ht' => hss t' (List.mem_cons_of_mem t ht')) hmap'
    rw [cvector_split.memory] at this ⊢
    rw [tabbed_cons, List.map_append, hmap, List.map_cons, if_pos rfl, List.append_assoc,
      List.cons_append, this]
    simp only [List.flatMap_cons, List.append_assoc, List.cons_append, List.nil_append]

theorem starts_append (hs : TAB ∉ s) (p : List UInt8) :
    cvector_split.starts TAB (s ++ p) = cvector_split.starts TAB p := by
  induction s with
  | nil => rfl
  | cons c s ih =>
    rw [List.mem_cons, not_or] at hs
    rw [List.cons_append, cvector_split.starts, if_neg (Ne.symm hs.1), ih hs.2]

/-- `cvector_split` finds the columns. -/
theorem cvector_split_columns (hs : TAB ∉ s) (hss : ∀ t ∈ ss, TAB ∉ t) :
    cvector_split TAB (s ++ tabbed ss) = strings (s :: ss) := by
  rw [cvector_split, memory_columns hs hss, starts_append hs, strings]
  congr 1
  induction ss with
  | nil => rfl
  | cons t ss ih =>
    have ht := hss t List.mem_cons_self
    have hss' : ∀ t' ∈ ss, TAB ∉ t' := fun t' ht' => hss t' (List.mem_cons_of_mem t ht')
    rw [tabbed_cons, cvector_split.starts, if_pos rfl, memory_columns ht hss', starts_append ht,
      ih hss', strings]

theorem noLineEnds_append (hv : IsColumn v) (r : List UInt8) :
    noLineEnds (v ++ r) = noLineEnds r := by
  induction v with
  | nil => rfl
  | cons c v ih =>
    obtain ⟨h0, -, h10, h13⟩ := hv c List.mem_cons_self
    rw [List.cons_append, noLineEnds.eq_def]
    split
    · rename_i heq
      cases heq
    · rename_i heq
      exact absurd (List.cons.inj heq).1 h0
    · rename_i heq
      exact absurd (List.cons.inj heq).1 h13
    · rename_i heq
      cases heq
      rw [bne_iff_ne.mpr h13, bne_iff_ne.mpr h10, ih fun x hx => hv x (List.mem_cons_of_mem c hx)]
      rfl

/-- A column is a valid string; the check of an empty one looks at the next. -/
theorem valid_column (hs : IsColumn s) (hs' : IsColumn s') :
    valid_overview_string (s ++ 0 :: (s' ++ 0 :: r)) false = true := by
  rw [valid_overview_string, if_neg Bool.false_ne_true]
  cases s with
  | nil => exact noLineEnds_append hs' (0 :: r)
  | cons c s => exact noLineEnds_append (fun x hx => hs x (List.mem_cons_of_mem c hx)) (0 :: _)

/-- A column with a name is a valid string, with or without the line end. -/
theorem valid_labelled {h : List UInt8} (hh : IsFieldName h) (hv : IsColumn v)
    (hr : noLineEnds r = true) :
    valid_overview_string (h ++ octets ": " ++ v ++ r) true = true := by
  have hstop : ∀ c ∈ h, (c != 0 && c != 58) = true := by
    intro c hc
    obtain ⟨h33, -, h58⟩ := hh.2 c hc
    have h0 : c ≠ 0 := by
      rintro rfl
      exact absurd h33 (by decide)
    rw [bne_iff_ne.mpr h0, bne_iff_ne.mpr h58]
    rfl
  have htake : (h ++ octets ": " ++ v ++ r).takeWhile (fun c => c != 0 && c != 58) = h := by
    rw [List.append_assoc, List.append_assoc, List.takeWhile_append_of_pos hstop]
    exact List.append_nil h
  have hdrop : (h ++ octets ": " ++ v ++ r).dropWhile (fun c => c != 0 && c != 58) =
      58 :: 32 :: (v ++ r) := by
    rw [List.append_assoc, List.append_assoc, List.dropWhile_append_of_pos hstop]
    rfl
  have hgraph : h.all isgraph = true := List.all_eq_true.mpr fun c hc => by
    obtain ⟨h33, h126, -⟩ := hh.2 c hc
    rw [isgraph, decide_eq_true h33, decide_eq_true h126]
    rfl
  rw [valid_overview_string, if_pos rfl, htake, hdrop, hgraph]
  exact ite_eq_left_iff.mpr fun _ => (noLineEnds_append hv r).trans hr

theorem flatMap_nul (s : List UInt8) (ss : List (List UInt8)) :
    (s :: ss).flatMap (· ++ [0]) = s ++ 0 :: ss.flatMap (· ++ [0]) := by
  rw [List.flatMap_cons, List.append_assoc]
  rfl

theorem length_strings (ss : List (List UInt8)) : (strings ss).length = ss.length := by
  induction ss with
  | nil => rfl
  | cons s ss ih => rw [strings, List.length_cons, ih, List.length_cons]

theorem valid_number_digits (hs : ∀ c ∈ s, IsDigit c) (r : List UInt8) :
    valid_number (s ++ 0 :: r) = true := by
  have hne : ∀ c ∈ s, (c != 0) = true := by
    intro c hc
    rw [bne_iff_ne]
    rintro rfl
    exact absurd (hs 0 hc) (by decide)
  have hstring : cString (s ++ 0 :: r) = s := by
    rw [cString, List.takeWhile_append_of_pos hne]
    exact List.append_nil s
  rw [valid_number, hstring]
  exact List.all_eq_true.mpr fun c hc => decide_eq_true (hs c hc)

theorem strtoul_digits (hs : ∀ c ∈ s, IsDigit c) (hlt : decimalValue s < 2 ^ 64)
    (r : List UInt8) : strtoul (s ++ 0 :: r) = decimalValue s := by
  have hstring : (s ++ 0 :: r).takeWhile (fun c => decide (IsDigit c)) = s := by
    rw [List.takeWhile_append_of_pos fun c hc => decide_eq_true (hs c hc)]
    exact List.append_nil s
  rw [strtoul, hstring, ULONG_MAX]
  omega

/-! ## Lines -/

/-- Columns of which the last one has the line end. -/
def ended : List (List UInt8) → List (List UInt8)
  | [] => []
  | [c] => [c ++ crlf]
  | c :: d :: cols => c :: ended (d :: cols)

theorem tabbed_ended (c : List UInt8) (cols : List (List UInt8)) :
    tabbed (ended (c :: cols)) = tabbed (c :: cols) ++ crlf := by
  induction cols generalizing c with
  | nil =>
    rw [ended, tabbed_cons, tabbed_cons, List.cons_append, List.append_assoc, List.append_assoc]
    rfl
  | cons d cols ih =>
    rw [ended, tabbed_cons, ih d, tabbed_cons c, List.cons_append, List.append_assoc]

theorem length_ended (cols : List (List UInt8)) : (ended cols).length = cols.length := by
  induction cols using ended.induct with
  | case1 => rfl
  | case2 => rfl
  | case3 c d cols ih =>
    rw [ended, List.length_cons, ih]
    rfl

theorem mem_ended {t : List UInt8} {cols : List (List UInt8)} (h : t ∈ ended cols) :
    ∃ c ∈ cols, t = c ∨ t = c ++ crlf := by
  induction cols using ended.induct with
  | case1 => cases h
  | case2 c => exact ⟨c, List.mem_cons_self, .inr (List.mem_singleton.mp h)⟩
  | case3 c d cols ih =>
    rcases List.mem_cons.mp h with rfl | h
    · exact ⟨t, List.mem_cons_self, .inl rfl⟩
    · obtain ⟨c', hc', ht⟩ := ih h
      exact ⟨c', List.mem_cons_of_mem c hc', ht⟩

theorem tab_ended {t : List UInt8} {cols : List (List UInt8)} (hcols : ∀ c ∈ cols, IsColumn c)
    (h : t ∈ ended cols) : TAB ∉ t := by
  obtain ⟨c, hc, rfl | rfl⟩ := mem_ended h
  · exact (hcols t hc).tab
  · intro hmem
    rcases List.mem_append.mp hmem with hmem | hmem
    · exact (hcols c hc).tab hmem
    · exact absurd hmem (by decide)

theorem isColumn_labelled {value : List UInt8 → List UInt8} {names : List (List UInt8)}
    (hnames : ∀ h ∈ names, IsFieldName h) (hvalue : ∀ h, IsColumn (value h)) :
    ∀ c ∈ labelled value names, IsColumn c := by
  intro c hc
  obtain ⟨h, hh, rfl⟩ := List.mem_map.mp hc
  refine IsColumn.append (IsColumn.append (fun x hx => ?_) (fun x hx => ?_)) (hvalue h)
  · have h33 := ((hnames h hh).2 x hx).1
    refine ⟨?_, ?_, ?_, ?_⟩ <;> rintro rfl <;> exact absurd h33 (by decide)
  · revert x
    decide +kernel

/-- The extra columns are valid strings. -/
theorem valid_extra {value : List UInt8 → List UInt8} {names : List (List UInt8)}
    (hnames : ∀ h ∈ names, IsFieldName h) (hvalue : ∀ h, IsColumn (value h)) :
    (strings (ended (labelled value names))).all (valid_overview_string · true) = true := by
  induction names with
  | nil => rfl
  | cons h names ih =>
    have hh := hnames h List.mem_cons_self
    have ih := ih fun h' hh' => hnames h' (List.mem_cons_of_mem h hh')
    cases names with
    | nil =>
      have hlast : strings (ended (labelled value [h])) =
          [h ++ octets ": " ++ value h ++ [13, 10, 0]] := by
        simp only [labelled, List.map_cons, List.map_nil, ended, strings, List.flatMap_cons,
          List.flatMap_nil, List.append_nil, List.append_assoc]
        rfl
      rw [hlast, List.all_cons, valid_labelled hh (hvalue h) rfl]
      rfl
    | cons h' names =>
      have hcons : strings (ended (labelled value (h :: h' :: names))) =
          ((h ++ octets ": " ++ value h) ++
            0 :: (ended (labelled value (h' :: names))).flatMap (· ++ [0])) ::
              strings (ended (labelled value (h' :: names))) := by
        rw [← flatMap_nul]
        rfl
      rw [hcons, List.all_cons, valid_labelled hh (hvalue h) rfl, ih]
      rfl

theorem mem_line {c : List UInt8} {cols : List (List UInt8)} {x : UInt8} (hc : IsColumn c)
    (hcols : ∀ d ∈ cols, IsColumn d) (hx : x ∈ c ++ tabbed cols) :
    x = 9 ∨ x ≠ 0 ∧ x ≠ 10 ∧ x ≠ 13 := by
  rcases List.mem_append.mp hx with hx | hx
  · exact .inr ⟨(hc x hx).1, (hc x hx).2.2⟩
  · obtain ⟨d, hd, hx⟩ := List.mem_flatMap.mp hx
    rcases List.mem_cons.mp hx with hx | hx
    · exact .inl hx
    · exact .inr ⟨(hcols d hd x hx).1, (hcols d hd x hx).2.2⟩

theorem xstrndup_line {c : List UInt8} {cols : List (List UInt8)} (hc : IsColumn c)
    (hcols : ∀ d ∈ cols, IsColumn d) :
    xstrndup (c ++ tabbed cols ++ crlf) = c ++ tabbed cols ++ crlf := by
  refine List.takeWhile_eq_self_iff.mpr fun x hx => decide_eq_true ?_
  rintro rfl
  rcases List.mem_append.mp hx with hx | hx
  · rcases mem_line hc hcols hx with h | h
    · exact absurd h (by decide)
    · exact h.1 rfl
  · exact absurd hx (by decide)

/-- `overview_check` accepts a line of columns with the numbers where they belong. -/
theorem overview_check_columns {number length : ℕ} {c₁ c₂ c₃ c₄ c₅ c₇ : List UInt8}
    {value : List UInt8 → List UInt8} {names : List (List UInt8)} (hnumber : number < 2 ^ 64)
    (h₁ : IsColumn c₁) (h₂ : IsColumn c₂) (h₃ : IsColumn c₃) (h₄ : IsColumn c₄) (h₅ : IsColumn c₅)
    (h₇ : IsColumn c₇) (hnames : ∀ h ∈ names, IsFieldName h) (hvalue : ∀ h, IsColumn (value h)) :
    overview_check (printed number ++ tabbed (c₁ :: c₂ :: c₃ :: c₄ :: c₅ :: printed length :: c₇ ::
      labelled value names) ++ crlf) number = true := by
  have hlabelled := isColumn_labelled hnames hvalue
  have hlast : ∀ c ∈ c₇ :: labelled value names, IsColumn c := by
    intro c hc
    rcases List.mem_cons.mp hc with rfl | hc
    · exact h₇
    · exact hlabelled c hc
  have h₆ := isColumn_printed length
  have h₀ := isColumn_printed number
  have hline : printed number ++ tabbed (c₁ :: c₂ :: c₃ :: c₄ :: c₅ :: printed length :: c₇ ::
      labelled value names) ++ crlf = printed number ++ tabbed (c₁ :: c₂ :: c₃ :: c₄ :: c₅ ::
        printed length :: ended (c₇ :: labelled value names)) := by
    have := tabbed_ended c₇ (labelled value names)
    simp only [tabbed_cons, this, List.append_assoc, List.cons_append]
  have hcols : ∀ c ∈ c₁ :: c₂ :: c₃ :: c₄ :: c₅ :: printed length :: c₇ :: labelled value names,
      IsColumn c := by
    simp only [List.mem_cons]
    rintro c (rfl | rfl | rfl | rfl | rfl | rfl | rfl | hc)
    · exact h₁
    · exact h₂
    · exact h₃
    · exact h₄
    · exact h₅
    · exact h₆
    · exact h₇
    · exact hlabelled c hc
  have hcopy := xstrndup_line h₀ hcols
  have htabs : ∀ t ∈ c₁ :: c₂ :: c₃ :: c₄ :: c₅ :: printed length ::
      ended (c₇ :: labelled value names), TAB ∉ t := by
    simp only [List.mem_cons]
    rintro t (rfl | rfl | rfl | rfl | rfl | rfl | ht)
    · exact h₁.tab
    · exact h₂.tab
    · exact h₃.tab
    · exact h₄.tab
    · exact h₅.tab
    · exact h₆.tab
    · exact tab_ended hlast ht
  obtain ⟨c, cols, hended⟩ : ∃ c cols, ended (c₇ :: labelled value names) = c :: cols := by
    refine List.exists_cons_of_length_pos ?_
    rw [length_ended]
    exact Nat.succ_pos _
  have htail : cols = ended (labelled value names) := by
    revert hended
    cases labelled value names with
    | nil => rintro ⟨⟩; rfl
    | cons d ds => rintro ⟨⟩; rfl
  have hvalid := valid_extra hnames hvalue
  have hnum : decimalValue (printed number) < 2 ^ 64 := by rwa [decimalValue_printed]
  rw [overview_check, hcopy, hline, cvector_split_columns h₀.tab htabs, hended]
  simp only [strings, flatMap_nul, List.getD_cons_zero, List.getD_cons_succ, List.take_succ_cons,
    List.take_zero, List.drop_succ_cons, List.drop_zero, List.all_cons, List.all_nil,
    List.length_cons]
  rw [valid_number_digits fun c hc => isDigit_of_mem_printed hc,
    valid_number_digits fun c hc => isDigit_of_mem_printed hc,
    strtoul_digits (fun c hc => isDigit_of_mem_printed hc) hnum, decimalValue_printed,
    valid_column h₁ h₂, valid_column h₂ h₃, valid_column h₃ h₄, valid_column h₄ h₅,
    valid_column h₅ h₆, htail, hvalid, beq_self_eq_true]
  simp

end Check

end Inn.Storage
