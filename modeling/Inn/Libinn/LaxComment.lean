import Inn.Libinn.LaxStrict

/-!
# Inn.Libinn.LaxComment — a comment behind a date

A date that ends in a numeric zone is read in the same way with a comment behind it: whatever a
step of the lax parser leaves over, it leaves over with the comment, or it has left nothing. Only
the width of the zone is worked out from what is behind the comment.

* `ext` — what is left over of the longer date;
* `parse_by_rule_ext`, `zoneStep_ext`, `laxStart_ext` — the steps of the parser;
* `zoneLoop_ext` — the zone loop, up to a zone of one or two digits;
* `lax_extends_strict` — the lax parser beside the strict one, and beside itself.
-/

namespace Inn.Libinn.LaxDate

open Inn.Libinn.Date
open Inn.Libinn.Cfws (CommentText length_skip_cfws)

/-! ## Texts behind a date -/

/-- A space and a comment, as far as the parser sees. -/
structure IsTail (t : List UInt8) : Prop where
  skipped : ∀ n, skip_cfws n t = []
  space : t.head? = some 32
  long : 3 ≤ t.length

/-- Nothing that is not empty ends in anything but a digit. -/
def DigitLast (p : List UInt8) : Prop := ∀ d ∈ p.getLast?, IsDigit d

/-- What is left over of the longer date. -/
def ext (t p : List UInt8) : List UInt8 := if p = [] then [] else p ++ t

section Tails

variable {t p q c : List UInt8} {n : ℕ}

theorem ext_nil (t : List UInt8) : ext t [] = [] := rfl

theorem ext_of_ne (hp : p ≠ []) : ext t p = p ++ t := if_neg hp

theorem isEmpty_ext (t p : List UInt8) : (ext t p).isEmpty = p.isEmpty := by
  rcases p with _ | ⟨c, p⟩
  · rfl
  · rfl

theorem head_ext (t p : List UInt8) : (ext t p).head? = p.head? := by
  rcases p with _ | ⟨c, p⟩
  · rfl
  · rfl

theorem DigitLast.suffix (hp : DigitLast p) (hq : q <:+ p) : DigitLast q := by
  obtain ⟨l, rfl⟩ := hq
  intro d hd
  refine hp d ?_
  rcases q with _ | ⟨e, q⟩
  · cases hd
  · rw [List.getLast?_append_of_ne_nil l (List.cons_ne_nil e q)]
    exact hd

theorem DigitLast.tail {d : UInt8} (hp : DigitLast (d :: p)) : DigitLast p :=
  hp.suffix (List.suffix_cons d p)

theorem DigitLast.ne_nil {d : UInt8} (hp : DigitLast (d :: p)) (hd : ¬ IsDigit d) : p ≠ [] := by
  rintro rfl
  exact hd (hp d rfl)

/-- `skip_cfws` inside a comment. -/
theorem skip_cfws_text (hc : CommentText c) (n : ℕ) (p : List UInt8) :
    skip_cfws (n + 1) (c ++ p) = skip_cfws (n + 1) p := by
  induction hc generalizing n p with
  | nil => rfl
  | @char d c h40 h41 h92 _ ih =>
    rw [List.cons_append, skip_cfws.eq_def]
    dsimp only
    split
    · exact ih n p
    · split
      · rw [if_neg fun h => absurd h.2 (Nat.succ_ne_zero n)]
        exact ih n p
      · rw [if_neg (Nat.succ_ne_zero n)]
        exact ih n p
  | @quoted d c _ ih =>
    rw [List.cons_append, List.cons_append, skip_cfws.eq_def]
    exact ih n p
  | @nested s c _ _ ihs ihc =>
    have happ : 40 :: s ++ 41 :: c ++ p = 40 :: (s ++ 41 :: (c ++ p)) := by
      simp only [List.append_assoc, List.cons_append]
    have hopen : skip_cfws (n + 1) (40 :: (s ++ 41 :: (c ++ p))) =
        skip_cfws (n + 1 + 1) (s ++ 41 :: (c ++ p)) := skip_cfws.eq_def _ _
    have hclose : skip_cfws (n + 1 + 1) (41 :: (c ++ p)) = skip_cfws (n + 1) (c ++ p) :=
      skip_cfws.eq_def _ _
    rw [happ, hopen, ihs (n + 1), hclose, ihc n]

/-- A space and a comment. -/
theorem isTail_comment (hc : CommentText c) : IsTail (32 :: 40 :: c ++ [41]) where
  skipped n := by
    have hopen : skip_cfws n (40 :: (c ++ [41])) = skip_cfws (n + 1) (c ++ [41]) :=
      skip_cfws.eq_def _ _
    have hclose : skip_cfws (n + 1) [41] = skip_cfws n [] := skip_cfws.eq_def _ _
    rw [List.cons_append, List.cons_append, skip_cfws_space, hopen, skip_cfws_text hc, hclose]
    exact skip_cfws.eq_def _ _
  space := rfl
  long := by
    rw [List.length_append, List.length_cons, List.length_cons, List.length_singleton]
    omega

theorem skip_cfws_nil (n : ℕ) : skip_cfws n [] = [] := skip_cfws.eq_def n []

/-- What `skip_cfws` leaves over of the longer date. -/
theorem skip_cfws_ext (ht : IsTail t) (hp : DigitLast p) :
    skip_cfws n (p ++ t) = ext t (skip_cfws n p) := by
  fun_induction skip_cfws n p with
  | case1 n => exact ht.skipped n
  | case2 n c p hc ih =>
    rw [List.cons_append, skip_cfws.eq_def]
    dsimp only
    rw [if_pos hc]
    exact ih hp.tail
  | case3 n p hcr hc =>
    obtain ⟨hlf, rfl⟩ := hcr
    have hne := hp.ne_nil (by decide)
    rw [List.cons_append, skip_cfws.eq_def]
    dsimp only
    rw [if_neg hc, if_pos rfl, if_pos ⟨by rw [List.head?_append_of_ne_nil _ hne]; exact hlf, rfl⟩]
    rfl
  | case4 n p hcr hc ih =>
    have hne := hp.ne_nil (by decide)
    rw [List.cons_append, skip_cfws.eq_def]
    dsimp only
    rw [if_neg hc, if_pos rfl, if_neg (by rw [List.head?_append_of_ne_nil _ hne]; exact hcr)]
    exact ih hp.tail
  | case5 n p _ _ ih => exact (skip_cfws.eq_def _ _).trans (ih hp.tail)
  | case6 p _ _ _ => exact skip_cfws.eq_def _ _
  | case7 n p hn _ _ _ ih =>
    obtain ⟨m, rfl⟩ := Nat.exists_eq_succ_of_ne_zero hn
    exact (skip_cfws.eq_def _ _).trans (ih hp.tail)
  | case8 n _ _ _ _ => exact absurd (hp 92 rfl) (by decide)
  | case9 c p _ _ _ _ => exact skip_cfws.eq_def _ _
  | case10 n c p hn _ _ _ _ ih =>
    obtain ⟨m, rfl⟩ := Nat.exists_eq_succ_of_ne_zero hn
    exact (skip_cfws.eq_def _ _).trans (ih hp.tail.tail)
  | case11 c p hc h13 h40 h41 h92 =>
    rw [List.cons_append, skip_cfws.eq_def]
    dsimp only
    rw [if_neg hc, if_neg h13, if_neg h40, if_neg h41, if_neg h92, if_pos rfl]
    rfl
  | case12 n c p hc h13 h40 h41 h92 hn ih =>
    rw [List.cons_append, skip_cfws.eq_def]
    dsimp only
    rw [if_neg hc, if_neg h13, if_neg h40, if_neg h41, if_neg h92, if_neg hn]
    exact ih hp.tail

/-- The same for what is left over of the longer date. -/
theorem skip_cfws_ext' (ht : IsTail t) (hp : DigitLast p) :
    skip_cfws n (ext t p) = ext t (skip_cfws n p) := by
  rcases p with _ | ⟨c, p⟩
  · rw [ext_nil, skip_cfws_nil, ext_nil]
  · exact skip_cfws_ext ht hp

end Tails

/-! ## Rules -/

section Rules

variable {t p q : List UInt8} {rule : Rule}

theorem numberLoop_append (ht : IsTail t) (max count : ℕ) (value : ℤ) (p : List UInt8) :
    numberLoop max count value (p ++ t) =
      ((numberLoop max count value p).1, (numberLoop max count value p).2.1,
        (numberLoop max count value p).2.2 ++ t) := by
  induction p generalizing count value with
  | nil =>
    obtain ⟨r, rfl⟩ : ∃ r, t = 32 :: r := by
      rcases t with _ | ⟨c, r⟩
      · cases ht.space
      · exact ⟨r, by rw [Option.some.inj ht.space]⟩
    have hstop : ¬ (count < max ∧ 48 ≤ (32 : UInt8) ∧ (32 : UInt8) ≤ 57) := fun h =>
      absurd h.2.1 (by decide)
    rw [List.nil_append, numberLoop.eq_def max count value (32 :: r)]
    exact if_neg hstop
  | cons c p ih =>
    rw [List.cons_append, numberLoop, numberLoop]
    split
    · exact ih _ _
    · rfl

theorem numberLoop_suffix (max count : ℕ) (value : ℤ) (p : List UInt8) :
    (numberLoop max count value p).2.2 <:+ p := by
  induction p generalizing count value with
  | nil => exact List.suffix_refl _
  | cons c p ih =>
    rw [numberLoop]
    split
    · exact (ih _ _).trans (List.suffix_cons c p)
    · exact List.suffix_refl _

theorem parse_number_append (ht : IsTail t) (p : List UInt8) (rule : Rule) :
    parse_number (p ++ t) rule = (parse_number p rule).map fun read => (read.1, read.2 ++ t) := by
  have hloop := numberLoop_append ht rule.max 0 0 p
  have hread : ∀ p, parse_number p rule =
      if (numberLoop rule.max 0 0 p).1 < rule.min ∨ (numberLoop rule.max 0 0 p).1 > rule.max
      then none else some ((numberLoop rule.max 0 0 p).2.1, (numberLoop rule.max 0 0 p).2.2) :=
    fun _ => rfl
  rw [hread, hread, hloop]
  dsimp only
  split
  · rfl
  · rfl

theorem parse_number_suffix {value : ℤ} (h : parse_number p rule = some (value, q)) : q <:+ p := by
  have hread : parse_number p rule =
      if (numberLoop rule.max 0 0 p).1 < rule.min ∨ (numberLoop rule.max 0 0 p).1 > rule.max
      then none else some ((numberLoop rule.max 0 0 p).2.1, (numberLoop rule.max 0 0 p).2.2) := rfl
  rw [hread] at h
  split at h
  · cases h
  · cases h
    exact numberLoop_suffix rule.max 0 0 p

/-- A word does not go on in the comment. -/
theorem takeWhile_isalpha_append (hp : DigitLast p) (hne : p ≠ []) (t : List UInt8) :
    (p ++ t).takeWhile isalpha = p.takeWhile isalpha ∧
      (p.takeWhile isalpha).length < p.length := by
  have hlt : (p.takeWhile isalpha).length < p.length := by
    refine lt_of_le_of_ne (length_takeWhile_isalpha p) fun heq => ?_
    have hall := (List.takeWhile_prefix isalpha).eq_of_length heq
    obtain ⟨d, hd⟩ : ∃ d, p.getLast? = some d := by
      rw [← Option.isSome_iff_exists, List.getLast?_isSome]
      exact hne
    have halpha := List.mem_takeWhile_imp (hall.symm ▸ List.mem_of_getLast? hd)
    rw [isalpha_digit (hp d hd)] at halpha
    cases halpha
  rw [List.takeWhile_append, if_neg (Nat.ne_of_lt hlt)]
  exact ⟨rfl, hlt⟩

theorem sameName_append (name t : List UInt8) {n : ℕ} (hn : n ≤ p.length) :
    sameName name (p ++ t) n = sameName name p n := by
  rw [sameName, sameName, List.take_append_of_le_length hn]

theorem advance_append {n : ℕ} (hn : n ≤ p.length) (t : List UInt8) :
    advance n (p ++ t) = .ok (p.drop n ++ t) := by
  rw [advance_inside (by rw [List.length_append]; omega), List.drop_append_of_le_length hn]

theorem monthNamed_append {size : ℕ} (hsize : size ≤ p.length) (t : List UInt8) :
    monthNamed (p ++ t) size = monthNamed p size := by
  have hcond : (size = 3 ∨ (size = 4 ∧ (p ++ t)[3]? = some 46)) ↔
      (size = 3 ∨ (size = 4 ∧ p[3]? = some 46)) := by
    refine or_congr_right (and_congr_right fun h4 => ?_)
    rw [List.getElem?_append_left (by omega)]
  rw [monthNamed, monthNamed]
  by_cases habbreviated : size = 3 ∨ (size = 4 ∧ p[3]? = some 46)
  · have h3 : 3 ≤ p.length := by omega
    rw [if_pos habbreviated, if_pos (hcond.mpr habbreviated)]
    congr 1
    funext name
    exact sameName_append name t h3
  · rw [if_neg habbreviated, if_neg fun h => habbreviated (hcond.mp h)]
    congr 1
    funext name
    rw [sameName_append name t hsize]

theorem parse_legacy_month_append (hp : DigitLast p) (hne : p ≠ []) (t : List UInt8) :
    parse_legacy_month (p ++ t) =
      (parse_legacy_month p).bind fun read => .ok (read.1, read.2 ++ t) := by
  obtain ⟨hword, hlt⟩ := takeWhile_isalpha_append hp hne t
  rw [parse_legacy_month, parse_legacy_month, hword, List.getElem?_append_left hlt]
  have hsize : (if p[(p.takeWhile isalpha).length]? = some 46
      then (p.takeWhile isalpha).length + 1 else (p.takeWhile isalpha).length) ≤ p.length := by
    split
    · exact hlt
    · exact Nat.le_of_lt hlt
  generalize (if p[(p.takeWhile isalpha).length]? = some 46
    then (p.takeWhile isalpha).length + 1 else (p.takeWhile isalpha).length) = size at hsize ⊢
  by_cases h0 : size = 0
  · rw [if_pos h0, if_pos h0]
    rfl
  · rw [if_neg h0, if_neg h0, monthNamed_append hsize]
    cases monthNamed p size with
    | none => rfl
    | some i =>
      dsimp only
      rw [advance_append hsize, advance_inside hsize]
      rfl

theorem parse_legacy_month_suffix {value : ℤ} (h : parse_legacy_month p = .ok (value, q)) :
    q <:+ p := by
  rw [parse_legacy_month] at h
  generalize (if p[(p.takeWhile isalpha).length]? = some 46
    then (p.takeWhile isalpha).length + 1 else (p.takeWhile isalpha).length) = size at h
  by_cases h0 : size = 0
  · rw [if_pos h0] at h
    cases h
  · rw [if_neg h0] at h
    cases hmonth : monthNamed p size with
    | none =>
      rw [hmonth] at h
      cases h
    | some i =>
      rw [hmonth] at h
      by_cases hsize : size ≤ p.length
      · rw [advance_inside hsize] at h
        cases h
        exact List.drop_suffix size p
      · rw [advance, if_neg hsize] at h
        cases h

/-- A step of which the pointer goes along. -/
def Parse.withTail {α : Type} (t : List UInt8) (x : Parse (α × List UInt8)) :
    Parse (α × List UInt8) :=
  x.bind fun read => .ok (read.1, ext t read.2)

/-- The rules of the lax parser look up no tables. -/
def NoTables (rules : List LaxRule) : Prop :=
  ∀ rule, LaxRule.plain rule ∈ rules → rule.type ≠ .TYPE_LOOKUP

theorem parse_by_rule_suffix {rules : List LaxRule} (hrules : NoTables rules) {i : ℕ}
    {values values' : List ℤ} (h : parse_by_rule i values rules p = .ok (values', q)) :
    q <:+ p := by
  induction rules generalizing i values p with
  | nil =>
    cases h
    exact List.suffix_refl _
  | cons rule rules ih =>
    have hrest : NoTables rules := fun rule hrule => hrules rule (List.mem_cons_of_mem _ hrule)
    rw [parse_by_rule.eq_def] at h
    cases rule with
    | TYPE_OBS_MONTH =>
      dsimp only at h
      rcases hmonth : parse_legacy_month p with _ | _ | ⟨value, r⟩
      · rw [hmonth] at h
        cases h
      · rw [hmonth] at h
        cases h
      · rw [hmonth] at h
        exact (ih hrest h).trans ((skip_cfws_suffix 0 r).trans (parse_legacy_month_suffix hmonth))
    | plain rule =>
      have htype := hrules rule List.mem_cons_self
      dsimp only at h
      split at h
      · split at h
        · exact (ih hrest h).trans ((skip_cfws_suffix 0 _).trans (List.tail_suffix p))
        · cases h
      · rename_i hlookup
        exact absurd hlookup htype
      · rcases hnumber : parse_number p rule with _ | ⟨value, r⟩
        · rw [hnumber] at h
          cases h
        · rw [hnumber] at h
          exact (ih hrest h).trans ((skip_cfws_suffix 0 r).trans (parse_number_suffix hnumber))

/-- The rules on the longer date. -/
theorem parse_by_rule_ext (ht : IsTail t) {rules : List LaxRule} (hrules : NoTables rules)
    (hp : DigitLast p) (i : ℕ) (values : List ℤ) :
    parse_by_rule i values rules (ext t p) = (parse_by_rule i values rules p).withTail t := by
  induction rules generalizing i values p with
  | nil => rfl
  | cons rule rules ih =>
    have hrest : NoTables rules := fun rule hrule => hrules rule (List.mem_cons_of_mem _ hrule)
    -- behind what a rule has read, the rules go on in the same way
    have hnext : ∀ {q : List UInt8} (i : ℕ) (values : List ℤ), q <:+ p →
        parse_by_rule i values rules (skip_cfws 0 (q ++ t)) =
          (parse_by_rule i values rules (skip_cfws 0 q)).withTail t := by
      intro q i values hq
      rw [skip_cfws_ext ht (hp.suffix hq)]
      exact ih hrest ((hp.suffix hq).suffix (skip_cfws_suffix 0 q)) i values
    rcases p with _ | ⟨c, p⟩
    · rcases hparse : parse_by_rule i values (rule :: rules) [] with _ | _ | ⟨vs, q⟩
      · exact hparse
      · exact hparse
      · have hq := List.suffix_nil.mp (parse_by_rule_suffix hrules hparse)
        subst hq
        exact hparse
    have hext : ext t (c :: p) = c :: p ++ t := rfl
    rw [hext, parse_by_rule.eq_def, parse_by_rule.eq_def i values (rule :: rules) (c :: p)]
    cases rule with
    | TYPE_OBS_MONTH =>
      dsimp only
      rw [parse_legacy_month_append hp (List.cons_ne_nil c p)]
      rcases hmonth : parse_legacy_month (c :: p) with _ | _ | ⟨value, r⟩
      · rfl
      · rfl
      · exact hnext _ _ (parse_legacy_month_suffix hmonth)
    | plain rule =>
      have htype := hrules rule List.mem_cons_self
      dsimp only
      split
      · rw [List.cons_append, List.head?_cons, List.head?_cons, List.tail_cons, List.tail_cons]
        split
        · exact hnext _ _ (List.suffix_cons c p)
        · rfl
      · rename_i hlookup
        exact absurd hlookup htype
      · rw [parse_number_append ht]
        rcases hnumber : parse_number (c :: p) rule with _ | ⟨value, r⟩
        · rfl
        · exact hnext _ _ (parse_number_suffix hnumber)

end Rules

/-! ## The start of a date -/

section Start

variable {t p q date : List UInt8}

theorem skipDay_suffix (p : List UInt8) : skipDay p <:+ p := by
  rw [skipDay]
  have hdrop := List.dropWhile_suffix (fun c => !decide (IsDigit c) && c != 44) (l := p)
  split
  · rename_i r heq
    rw [heq] at hdrop
    exact (skip_cfws_suffix 0 r).trans ((List.suffix_cons 44 r).trans hdrop)
  · exact hdrop

theorem skipDay_ext (ht : IsTail t) (hp : DigitLast p) :
    skipDay (ext t p) = ext t (skipDay p) := by
  rcases p with _ | ⟨c, p⟩
  · rfl
  have hne := List.cons_ne_nil c p
  -- the last digit is not passed over
  obtain ⟨d, r, hdrop⟩ : ∃ d r,
      (c :: p).dropWhile (fun c => !decide (IsDigit c) && c != 44) = d :: r := by
    rcases hdrop : (c :: p).dropWhile (fun c => !decide (IsDigit c) && c != 44) with _ | ⟨d, r⟩
    · obtain ⟨d, hd⟩ : ∃ d, (c :: p).getLast? = some d := by
        rw [← Option.isSome_iff_exists, List.getLast?_isSome]
        exact hne
      have hpass := List.dropWhile_eq_nil_iff.mp hdrop d (List.mem_of_getLast? hd)
      rw [decide_eq_true (hp d hd)] at hpass
      cases hpass
    · exact ⟨d, r, rfl⟩
  have hdrop' : (c :: p ++ t).dropWhile (fun c => !decide (IsDigit c) && c != 44) =
      d :: r ++ t := by
    rw [List.dropWhile_append, hdrop]
    rfl
  have hsuffix : d :: r <:+ c :: p := hdrop ▸ List.dropWhile_suffix _
  rw [ext_of_ne hne, skipDay, skipDay, hdrop, hdrop']
  by_cases hcomma : d = 44
  · subst hcomma
    exact skip_cfws_ext ht (hp.suffix hsuffix).tail
  · split
    · rename_i heq
      exact absurd (List.cons.inj heq).1 hcomma
    · split
      · rename_i heq
        exact absurd (List.cons.inj heq).1 hcomma
      · rfl

theorem laxBaseRule_noTables : NoTables laxBaseRule := by
  intro rule hrule htype
  simp only [laxBaseRule, List.mem_cons, LaxRule.plain.injEq, reduceCtorEq, false_or,
    List.not_mem_nil, or_false] at hrule
  rcases hrule with rfl | rfl | rfl | rfl | rfl
  · cases htype
  · cases htype
  · cases htype
  · cases htype
  · cases htype

theorem noTables_map {rules : List Rule} (h : ∀ rule ∈ rules, ∃ a b c, rule = number a b ∨
    rule = delim c) : NoTables (rules.map .plain) := by
  intro rule hrule htype
  obtain ⟨rule', hmem, heq⟩ := List.mem_map.mp hrule
  injection heq with heq
  subst heq
  obtain ⟨a, b, c, rfl | rfl⟩ := h rule' hmem
  · cases htype
  · cases htype

theorem laxSecondsRule_noTables : NoTables (laxSecondsRule.map .plain) :=
  noTables_map (by simp [laxSecondsRule, number, delim])

theorem laxZoneRule_noTables : NoTables (laxZoneRule.map .plain) :=
  noTables_map (by simp [laxZoneRule, number, delim])

/-- The start of the longer date. -/
theorem laxStart_ext (ht : IsTail t) (hdate : DigitLast date) :
    laxStart (date ++ t) = (laxStart date).bind fun start =>
      .ok (start.1, start.2.1, ext t start.2.2) := by
  have hp := hdate.suffix ((skipDay_suffix _).trans (skip_cfws_suffix 0 date))
  rw [laxStart, laxStart, skip_cfws_ext ht hdate,
    skipDay_ext ht (hdate.suffix (skip_cfws_suffix 0 date)),
    parse_by_rule_ext ht laxBaseRule_noTables hp]
  rcases hbase : parse_by_rule 0 (List.replicate 6 0) laxBaseRule (skipDay (skip_cfws 0 date)) with
    _ | _ | ⟨base, q⟩
  · rfl
  · rfl
  have hq := hp.suffix (parse_by_rule_suffix laxBaseRule_noTables hbase)
  change Parse.bind (parseSeconds laxSecondsRule base (ext t q)) _ =
    Parse.bind (Parse.bind (parseSeconds laxSecondsRule base q) _) _
  rw [parseSeconds, parseSeconds, head_ext, parse_by_rule_ext ht laxSecondsRule_noTables hq]
  split
  · rcases parse_by_rule 0 base (laxSecondsRule.map .plain) q with _ | _ | ⟨values, r⟩
    · rfl
    · rfl
    · rfl
  · rfl

theorem laxStart_suffix {tm_sec : ℤ} {base : List ℤ} (h : laxStart date = .ok (tm_sec, base, q)) :
    q <:+ date := by
  rw [laxStart] at h
  rcases hbase : parse_by_rule 0 (List.replicate 6 0) laxBaseRule (skipDay (skip_cfws 0 date)) with
    _ | _ | ⟨vs, r⟩
  · rw [hbase] at h
    cases h
  · rw [hbase] at h
    cases h
  rw [hbase] at h
  have hr := (parse_by_rule_suffix laxBaseRule_noTables hbase).trans
    ((skipDay_suffix _).trans (skip_cfws_suffix 0 date))
  change Parse.bind (parseSeconds laxSecondsRule vs r) _ = _ at h
  rw [parseSeconds] at h
  split at h
  · rcases hseconds : parse_by_rule 0 vs (laxSecondsRule.map .plain) r with _ | _ | ⟨values, r'⟩
    · rw [hseconds] at h
      cases h
    · rw [hseconds] at h
      cases h
    · rw [hseconds] at h
      cases h
      exact (parse_by_rule_suffix laxSecondsRule_noTables hseconds).trans hr
  · cases h
    exact hr

end Start

/-! ## Zones -/

/-- The date ends in a numeric zone. -/
def EndsInZone (date : List UInt8) : Prop :=
  ∃ a sign ds, date = a ++ sign :: ds ∧ (sign = 45 ∨ sign = 43) ∧ ds ≠ [] ∧ ∀ c ∈ ds, IsDigit c

/-- A numeric zone of one or two digits that are not zeros. -/
def Narrow (p : List UInt8) : Prop :=
  isNumericZone p = true ∧ p.length ≤ 3 ∧ ∃ c ∈ p.tail, c ≠ 48

section Zones

variable {t p q r date : List UInt8} {offset : ℤ} {n : ℕ}

theorem EndsInZone.digitLast (h : EndsInZone date) : DigitLast date := by
  obtain ⟨a, sign, ds, rfl, -, hne, hdigits⟩ := h
  intro d hd
  rw [List.getLast?_append_of_ne_nil _ (List.cons_ne_nil sign ds),
    List.getLast?_cons_of_ne_nil hne] at hd
  exact hdigits d (List.mem_of_getLast? hd)

/-- A word in the date is followed by a sign and a digit. -/
theorem EndsInZone.word (h : EndsInZone date) (hp : p <:+ date) (hword : zoneWord p ≠ []) :
    (zoneWord p).length + 2 ≤ p.length := by
  obtain ⟨a, sign, ds, rfl, hsign, hne, hdigits⟩ := h
  have hnotalpha : isalpha sign = false := by
    rcases hsign with rfl | rfl
    · decide
    · decide
  obtain ⟨c, hhead, hphead⟩ := (zoneWord_nil_or p).resolve_left hword
  have hc : isalpha c = true :=
    List.mem_takeWhile_imp (show c ∈ p.takeWhile isalpha from List.mem_of_head? hhead)
  by_cases hlen : p.length ≤ (sign :: ds).length
  · -- the sign or a digit would be a letter
    have hsuffix := List.suffix_of_suffix_length_le hp (List.suffix_append a (sign :: ds)) hlen
    rcases List.suffix_cons_iff.mp hsuffix with rfl | hsuffix
    · cases hphead
      rw [hc] at hnotalpha
      cases hnotalpha
    · have hdigit := isalpha_digit (hdigits c (hsuffix.subset (List.mem_of_head? hphead)))
      rw [hc] at hdigit
      cases hdigit
  · obtain ⟨b, rfl⟩ := List.suffix_of_suffix_length_le (List.suffix_append a (sign :: ds)) hp
      (Nat.le_of_lt (Nat.lt_of_not_le hlen))
    have hle : (zoneWord (b ++ sign :: ds)).length ≤ b.length := by
      rw [zoneWord, List.takeWhile_append]
      split
      · rw [List.takeWhile_cons_of_neg (Bool.eq_false_iff.mp hnotalpha), List.append_nil]
      · exact (List.takeWhile_prefix isalpha).length_le
    have := List.length_pos_iff.mpr hne
    rw [List.length_append, List.length_cons]
    omega

/-- How far a word moves the pointer. -/
theorem timezone_width (h : parse_legacy_timezone p true = some (offset, n)) :
    zoneWord p ≠ [] ∧ 1 ≤ n ∧ n ≤ max 3 (zoneWord p).length := by
  have hne : zoneWord p ≠ [] := by
    intro hnil
    have hmax : (p.takeWhile isalpha).length = 0 := List.length_eq_zero_iff.mpr hnil
    rw [parse_legacy_timezone, if_pos hmax] at h
    cases h
  have hwidth : ∀ zone ∈ ZONE_OFFSET, 1 ≤ zone.1.length ∧ zone.1.length ≤ 3 := by decide
  refine ⟨hne, ?_⟩
  rcases hfind : ZONE_OFFSET.find? (sameName ·.1 p (zoneWord p).length) with _ | zone
  · rw [timezone_other hne _ hfind] at h
    split at h
    · cases h
      omega
    · obtain ⟨zone, hzone, heq⟩ := Option.map_eq_some_iff.mp h
      cases heq
      have hlen := nocaseEq_length
        (@List.find?_some _ (fun zone : List UInt8 × ℤ => nocaseEq zone.1 (zoneWord p)) _ _ hzone)
      have := List.length_pos_iff.mpr hne
      omega
  · rw [timezone_found hne _ hfind] at h
    cases h
    have := hwidth zone (List.mem_of_find?_eq_some hfind)
    omega

/-- The zone loop goes on behind the zone. -/
theorem zoneStep_suffix (h : zoneStep p = .ok (offset, some q)) :
    q <:+ p ∧ q.length < p.length := by
  rw [zoneStep] at h
  by_cases hnum : isNumericZone p = true
  · obtain ⟨sign, u, rfl, -⟩ := isNumericZone_cons hnum
    rw [if_pos hnum, List.tail_cons] at h
    rcases hrule : parse_by_rule 0 [0] (laxZoneRule.map .plain) u with _ | _ | ⟨values, r⟩
    · rw [hrule] at h
      cases h
    · rw [hrule] at h
      cases h
    · rw [hrule] at h
      cases h
      have hq := (skip_cfws_suffix 0 r).trans (parse_by_rule_suffix laxZoneRule_noTables hrule)
      have := hq.length_le
      exact ⟨hq.trans (List.suffix_cons sign u), Nat.lt_succ_of_le this⟩
  · rw [if_neg hnum] at h
    rcases hparse : parse_legacy_timezone p true with _ | ⟨offset', n⟩
    · rw [hparse] at h
      cases h
    · rw [hparse] at h
      obtain ⟨hword, hn, -⟩ := timezone_width hparse
      change (advance n p).bind _ = _ at h
      by_cases hinside : n ≤ p.length
      · rw [advance_inside hinside] at h
        cases h
        refine ⟨(skip_cfws_suffix 0 _).trans (List.drop_suffix n p), ?_⟩
        have := length_skip_cfws 0 (p.drop n)
        rw [List.length_drop] at this
        omega
      · rw [advance, if_neg hinside] at h
        cases h

/-- A word in the longer date. -/
theorem timezone_append (hp : DigitLast p) (hne : p ≠ []) (t : List UInt8) :
    parse_legacy_timezone (p ++ t) true = parse_legacy_timezone p true := by
  obtain ⟨hword, hlt⟩ := takeWhile_isalpha_append hp hne t
  have hsame : ∀ name, sameName name (p ++ t) (p.takeWhile isalpha).length =
      sameName name p (p.takeWhile isalpha).length := fun name =>
    sameName_append name t (Nat.le_of_lt hlt)
  simp only [parse_legacy_timezone, hword, hsame, List.head?_append_of_ne_nil p hne]

/-- The body of the zone loop on the longer date, but for a zone that is the whole of it. -/
theorem zoneStep_ext (ht : IsTail t) (hp : DigitLast p) (hne : p ≠ [])
    (hnumber : isNumericZone p = true → 3 < p.length)
    (hword : zoneWord p ≠ [] → (zoneWord p).length + 2 ≤ p.length) :
    zoneStep (p ++ t) =
      (zoneStep p).bind fun zone => .ok (zone.1, zone.2.map (ext t)) := by
  have hhead : isNumericZone (p ++ t) = isNumericZone p := by
    rw [isNumericZone, isNumericZone, List.head?_append_of_ne_nil p hne]
  have hsign : zoneSign (p ++ t) = zoneSign p := by
    rw [zoneSign, zoneSign, List.head?_append_of_ne_nil p hne]
  rw [zoneStep, zoneStep, hhead, hsign]
  by_cases hnum : isNumericZone p = true
  · obtain ⟨sign, u, rfl, hs⟩ := isNumericZone_cons hnum
    have hu : u ≠ [] := hp.ne_nil fun hd => by
      rcases hs with rfl | rfl
      · exact absurd hd (by decide)
      · exact absurd hd (by decide)
    have hlong := hnumber hnum
    rw [List.length_cons] at hlong
    rw [if_pos hnum, if_pos hnum, List.cons_append, List.tail_cons, List.tail_cons,
      ← ext_of_ne hu, parse_by_rule_ext ht laxZoneRule_noTables hp.tail]
    rcases hrule : parse_by_rule 0 [0] (laxZoneRule.map .plain) u with _ | _ | ⟨values, r⟩
    · rfl
    · rfl
    · have hr := parse_by_rule_suffix laxZoneRule_noTables hrule
      have hwidth : (ext t u).length - (ext t r).length < 3 ↔ u.length - r.length < 3 := by
        rw [ext_of_ne hu, List.length_append]
        rcases r with _ | ⟨c, r⟩
        · have := ht.long
          rw [ext_nil, List.length_nil]
          omega
        · rw [ext_of_ne (List.cons_ne_nil c r), List.length_append]
          omega
      change Parse.ok (_, some (skip_cfws 0 (ext t r))) = Parse.ok (_, some (ext t (skip_cfws 0 r)))
      rw [skip_cfws_ext' ht (hp.tail.suffix hr)]
      congr 3
      exact if_congr hwidth rfl rfl
  · rw [if_neg hnum, if_neg hnum, timezone_append hp hne]
    rcases hparse : parse_legacy_timezone p true with _ | ⟨offset, n⟩
    · rfl
    · obtain ⟨hw, -, hn⟩ := timezone_width hparse
      have hlen := hword hw
      have hpos := List.length_pos_iff.mpr hw
      have hinside : n ≤ p.length := by omega
      change (advance n (p ++ t)).bind _ = Parse.bind ((advance n p).bind _) _
      rw [advance_append hinside, advance_inside hinside]
      change Parse.ok (offset, some (skip_cfws 0 (p.drop n ++ t))) = Parse.ok _
      rw [skip_cfws_ext ht (hp.suffix (List.drop_suffix n p))]
      rfl

theorem decimalValue_zero {ds : List UInt8} (hds : ∀ c ∈ ds, IsDigit c) :
    decimalValue ds = 0 ↔ ∀ c ∈ ds, c = 48 := by
  have hdigit : ∀ c, IsDigit c → (c.toNat - 48 = 0 ↔ c = 48) := by
    intro c hc
    unfold IsDigit at hc
    have h48 : (48 : UInt8).toNat = 48 := rfl
    rw [← UInt8.toNat_inj, h48]
    omega
  induction ds using List.reverseRecOn with
  | nil => exact iff_of_true rfl fun c hc => absurd hc List.not_mem_nil
  | append_singleton ds c ih =>
    have hc := hdigit c (hds c (List.mem_append_right ds List.mem_cons_self))
    have hinit : decimalValue ds = 0 ↔ ∀ c ∈ ds, c = 48 :=
      ih fun d hd => hds d (List.mem_append_left [c] hd)
    have hvalue : decimalValue (ds ++ [c]) = 10 * decimalValue ds + (c.toNat - 48) := by
      rw [decimalValue, List.foldl_append]
      rfl
    rw [hvalue, List.forall_mem_append, List.forall_mem_singleton, ← hinit, ← hc]
    omega

/-- A zone of one or two digits: hours without a comment, minutes in front of one. -/
theorem zoneStep_narrow (ht : IsTail t) (hp : DigitLast p) (hnum : isNumericZone p = true)
    (hlen : p.length ≤ 3) {next : Option (List UInt8)} (h : zoneStep p = .ok (offset, next)) :
    next = some [] ∧ ∃ z, zoneStep (p ++ t) = .ok (z, some []) ∧ (z = offset ↔ ¬ Narrow p) := by
  obtain ⟨sign, u, rfl, hs⟩ := isNumericZone_cons hnum
  rw [List.length_cons] at hlen
  have hfirst : 1 ≤ (digitsAt 5 u).length := by
    by_contra hnone
    have hnone : (digitsAt 5 u).length < 1 := by omega
    have hrule : parse_by_rule 0 [0] (laxZoneRule.map .plain) u = .null := by
      change (Parse.ofOption (parse_number u (number 1 5))).bind _ = _
      rw [parse_number_eq, if_pos hnone]
      rfl
    rw [zoneStep, if_pos hnum, List.tail_cons, hrule] at h
    cases h
  -- one or two digits, and nothing else
  have hall : ∀ c ∈ u, IsDigit c := by
    obtain ⟨d, v, rfl, hd⟩ := digitsAt_cons hfirst
    rcases v with _ | ⟨e, _ | ⟨f, v⟩⟩
    · exact List.forall_mem_singleton.mpr hd
    · exact List.forall_mem_cons.mpr ⟨hd, List.forall_mem_singleton.mpr (hp e rfl)⟩
    · rw [List.length_cons, List.length_cons, List.length_cons] at hlen
      omega
  have hstop : NoDigit t := by
    intro c hc
    rw [ht.space] at hc
    cases hc
    decide
  have hdigits : digitsAt 5 u = u := by
    have := @digitsAt_eq 5 u [] hall (by omega) (.inr fun c hc => by cases hc)
    rwa [List.append_nil] at this
  have hdigits' : digitsAt 5 (u ++ t) = u := digitsAt_eq hall (by omega) (.inr hstop)
  rw [hdigits] at hfirst
  have hstep := zoneStep_number hs (t := u) (by rw [hdigits]; exact hfirst)
  have hstep' := zoneStep_number hs (t := u ++ t) (by rw [hdigits']; exact hfirst)
  have hshort : u.length - ([] : List UInt8).length < 3 := by
    rw [List.length_nil]
    omega
  have hwide : ¬ (u ++ t).length - ([] : List UInt8).length < 3 := by
    have := ht.long
    rw [List.length_append, List.length_nil]
    omega
  rw [hdigits, List.drop_length, skip_cfws_nil, skip_cfws_nil, if_pos hshort] at hstep
  rw [hdigits', List.drop_left, ht.skipped, skip_cfws_nil, if_neg hwide] at hstep'
  rw [hstep] at h
  obtain ⟨rfl, rfl⟩ := Prod.mk.inj (Parse.ok.inj h)
  refine ⟨rfl, _, hstep', ?_⟩
  have hlt : decimalValue u < 100 := by
    have := decimalValue_lt hall
    have hpow : 10 ^ u.length ≤ 10 ^ 2 := Nat.pow_le_pow_right (by decide) (by omega)
    omega
  have hsign : zoneSign (sign :: (u ++ t)) = zoneSign (sign :: u) := rfl
  have hnarrow : ¬ Narrow (sign :: u) ↔ decimalValue u = 0 := by
    rw [decimalValue_zero hall, Narrow, List.tail_cons, List.length_cons]
    constructor
    · intro h c hc
      by_contra hne
      exact h ⟨hnum, by omega, c, hc, hne⟩
    · rintro h ⟨-, -, c, hc, hne⟩
      exact hne (h c hc)
  rw [hsign, hnarrow, mul_left_inj' (zoneSign_ne_zero (sign :: u))]
  omega

theorem not_zoneStop_nil : ¬ ZoneStop [] r := by
  intro h
  cases h with
  | here hne => exact hne rfl
  | next hstep _ =>
    rw [zoneStep] at hstep
    cases hstep

/-- The zone loop on the longer date finds the same offset, unless it meets a narrow zone. -/
theorem zoneLoop_ext (ht : IsTail t) (hdate : EndsInZone date) {k : ℕ} {z z' : ℤ}
    (hp : p <:+ date) (hn : p.length < n) (hk : p.length < k)
    (h : zoneLoop n z p = .ok z') :
    ∃ z'', zoneLoop k z (ext t p) = .ok z'' ∧ (z'' = z' ↔ ∀ r, ZoneStop p r → ¬ Narrow r) := by
  induction n generalizing k p z with
  | zero => exact absurd hn (Nat.not_lt_zero _)
  | succ n ih =>
    obtain ⟨k, rfl⟩ := Nat.exists_eq_succ_of_ne_zero (Nat.ne_of_gt (Nat.zero_lt_of_lt hk))
    by_cases hne : p = []
    · subst hne
      rw [zoneLoop_nil] at h
      cases h
      exact ⟨z', rfl, iff_of_true rfl fun r hr => absurd hr not_zoneStop_nil⟩
    have hext := @ext_of_ne t p hne
    have hne' : p ++ t ≠ [] := fun h => hne (List.append_eq_nil_iff.mp h).1
    have hlast := hdate.digitLast.suffix hp
    rcases hstep : zoneStep p with _ | _ | ⟨offset, next⟩
    · rw [zoneLoop, if_neg hne, hstep] at h
      cases h
    · rw [zoneLoop, if_neg hne, hstep] at h
      cases h
    have hstops : (∀ r, ZoneStop p r → ¬ Narrow r) ↔
        ¬ Narrow p ∧ ∀ q, next = some q → ∀ r, ZoneStop q r → ¬ Narrow r := by
      constructor
      · intro h
        refine ⟨h p (.here hne), fun q hq r hr => ?_⟩
        have hnext : zoneStep p = .ok (offset, some q) := by rw [hstep, hq]
        exact h r (.next hnext hr)
      · rintro ⟨hhere, hnext⟩ r hr
        cases hr with
        | here => exact hhere
        | next hstep' hr =>
          rw [hstep] at hstep'
          exact hnext _ (Prod.mk.inj (Parse.ok.inj hstep')).2 r hr
    by_cases hnarrow : isNumericZone p = true ∧ p.length ≤ 3
    · obtain ⟨rfl, z'', hstep', hiff⟩ :=
        zoneStep_narrow ht hlast hnarrow.1 hnarrow.2 hstep
      obtain ⟨m, rfl⟩ := Nat.exists_eq_succ_of_ne_zero (show n ≠ 0 by
        have := List.length_pos_iff.mpr hne
        omega)
      obtain ⟨l, rfl⟩ := Nat.exists_eq_succ_of_ne_zero (show k ≠ 0 by
        have := List.length_pos_iff.mpr hne
        omega)
      rw [zoneLoop_next hne hstep, zoneLoop_nil] at h
      cases h
      refine ⟨z'', ?_, ?_⟩
      · rw [hext, zoneLoop_next hne' hstep', zoneLoop_nil]
      · rw [hiff, hstops]
        refine (and_iff_left ?_).symm
        rintro q hq r hr
        cases hq
        exact absurd hr not_zoneStop_nil
    · have hstep' := zoneStep_ext ht hlast hne
        (fun hnum => Nat.lt_of_not_le fun hle => hnarrow ⟨hnum, hle⟩)
        (fun hword => hdate.word hp hword)
      have hhere : ¬ Narrow p := fun h => hnarrow ⟨h.1, h.2.1⟩
      rw [hstep] at hstep'
      rw [hext]
      cases next with
      | none =>
        have hstep' : zoneStep (p ++ t) = .ok (offset, none) := hstep'
        rw [zoneLoop_end hne hstep] at h
        cases h
        refine ⟨_, zoneLoop_end hne' hstep', iff_of_true rfl (hstops.mpr ⟨hhere, ?_⟩)⟩
        rintro q ⟨⟩
      | some q =>
        have hstep' : zoneStep (p ++ t) = .ok (offset, some (ext t q)) := hstep'
        obtain ⟨hq, hlt⟩ := zoneStep_suffix hstep
        rw [zoneLoop_next hne hstep] at h
        obtain ⟨z'', hloop, hiff⟩ := ih (k := k) (hq.trans hp) (by omega) (by omega) h
        refine ⟨z'', by rw [zoneLoop_next hne' hstep', hloop], ?_⟩
        rw [hiff, hstops]
        constructor
        · intro h
          refine ⟨hhere, fun q' hq' => ?_⟩
          cases hq'
          exact h
        · exact fun h => h.2 q rfl

end Zones

/-! ## Dates -/

section Extended

variable {date c : List UInt8} {t : ℤ}

/-- The lax parser on a date that ends in a numeric zone, with a comment behind it. -/
theorem lax_comment (sys : System) (hdate : EndsInZone date) (hc : CommentText c)
    (h : parsedate_rfc5322_lax sys date = some t) (ht : t ≠ -1) :
    parsedate_rfc5322_lax sys (date ++ (32 :: 40 :: c ++ [41])) = some t ↔
      ∀ r, LaxZone date r → ¬ Narrow r := by
  have htail := isTail_comment hc
  generalize 32 :: 40 :: c ++ [41] = tail at htail ⊢
  rw [parsedate_rfc5322_lax] at h
  obtain ⟨⟨tm_sec, base, p⟩, hstart, h⟩ := Parse.bind_time h ht
  obtain ⟨z, hloop, h⟩ := Parse.bind_time h ht
  have htime := Option.some.inj h
  have hp := laxStart_suffix hstart
  obtain ⟨z', hloop', hiff⟩ := zoneLoop_ext htail hdate (k := (ext tail p).length + 1) hp
    (Nat.lt_succ_self _) (by
      rw [ext]
      split
      · rename_i hnil
        rw [hnil]
        exact Nat.lt_succ_self _
      · rw [List.length_append]
        omega) hloop
  have hstart' : laxStart (date ++ tail) = .ok (tm_sec, base, ext tail p) := by
    rw [laxStart_ext htail hdate.digitLast, hstart]
    rfl
  have hlax : parsedate_rfc5322_lax sys (date ++ tail) =
      some (laxEnd sys tm_sec base (!p.isEmpty) z') := by
    rw [parsedate_rfc5322_lax, hstart']
    change Parse.time ((zoneLoop ((ext tail p).length + 1) 0 (ext tail p)).bind _) = _
    rw [hloop']
    change some (laxEnd sys tm_sec base (!(ext tail p).isEmpty) z') = _
    rw [isEmpty_ext]
  have hstops : (∀ r, LaxZone date r → ¬ Narrow r) ↔ ∀ r, ZoneStop p r → ¬ Narrow r := by
    constructor
    · exact fun h r hr => h r ⟨tm_sec, base, p, hstart, hr⟩
    · rintro h r ⟨sec, base', q, hstart', hr⟩
      rw [hstart] at hstart'
      cases hstart'
      exact h r hr
  have hlaxEnd : laxEnd sys tm_sec base (!p.isEmpty) z = t := htime
  rw [hlax, Option.some_inj, hstops, ← hiff, ← hlaxEnd]
  exact toTime_inj (by rw [← hlaxEnd] at ht; exact ht)

/-- The lax parser returns what the strict one does just when the digits of a numeric zone stand
together, and it passes over a comment just when the zone is not too narrow. -/
theorem lax_extends_strict (sys : System) :
    (∀ date t, parsedate_rfc5322 date = some t → t ≠ -1 → PlainDay date →
      (parsedate_rfc5322_lax sys date = some t ↔ ∀ p, StrictZone date p → ZoneTogether p)) ∧
    ∀ date c t, EndsInZone date → CommentText c → parsedate_rfc5322_lax sys date = some t →
      t ≠ -1 → (parsedate_rfc5322_lax sys (date ++ (32 :: 40 :: c ++ [41])) = some t ↔
        ∀ r, LaxZone date r → ¬ Narrow r) :=
  ⟨fun _ _ h ht hday => lax_of_strict sys h ht hday,
    fun _ _ _ hdate hc h ht => lax_comment sys hdate hc h ht⟩

/-- A date with four digits in its zone. -/
theorem lax_extends_strict_wide :
    parsedate_rfc5322_lax losAngeles (ascii "1 Jan 2020 10:00 +0500".toList) =
        some 1577854800 ∧
      parsedate_rfc5322_lax losAngeles
        (ascii "1 Jan 2020 10:00 +0500".toList ++ (32 :: 40 :: [120] ++ [41])) =
        some 1577854800 := by
  have hstrict : parsedate_rfc5322 (ascii "1 Jan 2020 10:00 +0500".toList) = some 1577854800 := by
    decide +kernel
  have hstart : laxStart (ascii "1 Jan 2020 10:00 +0500".toList) =
      .ok (0, [1, 0, 2020, 10, 0, 0], ascii "+0500".toList) := by decide +kernel
  have hstep : zoneStep (ascii "+0500".toList) = .ok (18000, some []) := by decide
  have hlax := ((lax_extends_strict losAngeles).1 (ascii "1 Jan 2020 10:00 +0500".toList) _ hstrict
    (by decide) (by unfold PlainDay; decide +kernel)).mpr (by
      rintro p ⟨base, q, tm_sec, values, hbase, hseconds⟩
      have hbase' : strictBase (skip_cfws 0 (ascii "1 Jan 2020 10:00 +0500".toList)) =
          .ok ([0, 0, 1, 0, 2020, 10, 0, 0], ascii "+0500".toList) := by decide +kernel
      rw [hbase'] at hbase
      cases hbase
      cases hseconds
      exact fun _ => .inl (by decide))
  refine ⟨hlax, ((lax_extends_strict losAngeles).2 _ [120] _ ?_ ?_ hlax (by decide)).mpr ?_⟩
  · exact ⟨ascii "1 Jan 2020 10:00 ".toList, 43, ascii "0500".toList, by decide, .inr rfl,
      by decide, by decide +kernel⟩
  · exact .char (by decide) (by decide) (by decide) .nil
  · rintro r ⟨tm_sec, base, q, hstart', hr⟩ hnarrow
    rw [hstart] at hstart'
    cases hstart'
    cases hr with
    | here => exact absurd hnarrow.2.1 (by decide)
    | next hstep' hr =>
      rw [hstep] at hstep'
      cases hstep'
      exact not_zoneStop_nil hr

/-- White space inside a zone, and a comment behind a zone of one digit. -/
theorem narrow_zone_changes :
    (¬ ∀ date t, parsedate_rfc5322 date = some t → t ≠ -1 →
      parsedate_rfc5322_lax losAngeles date = some t) ∧
    ¬ ∀ date c t, EndsInZone date → CommentText c →
      parsedate_rfc5322_lax losAngeles date = some t → t ≠ -1 →
        parsedate_rfc5322_lax losAngeles (date ++ (32 :: 40 :: c ++ [41])) = some t := by
  constructor
  · intro h
    have hlax := h (ascii "1 Jan 2020 10:00 +05 00".toList) 1577854800 (by decide +kernel)
      (by decide)
    revert hlax
    decide +kernel
  · intro h
    have hzone : EndsInZone (ascii "1 Jan 2020 10:00 +5".toList) :=
      ⟨ascii "1 Jan 2020 10:00 ".toList, 43, [53], by decide, .inr rfl, by decide,
        by decide +kernel⟩
    have hlax := h (ascii "1 Jan 2020 10:00 +5".toList) [120] 1577854800 hzone
      (.char (by decide) (by decide) (by decide) .nil) (by decide +kernel) (by decide)
    revert hlax
    decide +kernel

end Extended

end Inn.Libinn.LaxDate
