import Inn.Libinn.Cfws
import Inn.Libinn.DateRoundTrip
import Inn.Libinn.ZoneWords

/-!
# Inn.Libinn.LaxStrict — dates that both parsers read

The lax parser takes the rules of the strict one further. Where it looks at a date in another way
is the day of the week, which it passes over up to a digit or a comma, and the numeric zone,
which it reads as one number.

* `rule_number_ok`, `rule_delim_ok`, `rule_lookup_ok` — what a rule that succeeds has read;
* `lax_base`, `lax_seconds`, `lax_zone_number` — the parts of a date that the strict parser accepts;
* `lax_of_strict` — when the lax parser returns the same time.
-/

namespace Inn.Libinn.LaxDate

open Inn.Libinn.Date
open Inn.Libinn.Cfws (length_skip_cfws)

/-! ## Rules that succeed -/

/-- The digits that a number of so many digits at most has. -/
def digitsAt (max : ℕ) (p : List UInt8) : List UInt8 :=
  (p.take max).takeWhile fun c => decide (IsDigit c)

section Rules

variable {i a b max : ℕ} {values : List ℤ} {rules : List LaxRule} {p : List UInt8}
  {r : List ℤ × List UInt8}

theorem digitsAt_digit {c : UInt8} (h : c ∈ digitsAt max p) : IsDigit c := by
  rw [digitsAt] at h
  have hdigit := List.mem_takeWhile_imp h
  exact of_decide_eq_true hdigit

theorem digitsAt_isPrefixOf (max : ℕ) (p : List UInt8) : digitsAt max p <+: p :=
  (List.takeWhile_prefix _).trans (List.take_prefix max p)

theorem digitsAt_append (max : ℕ) (p : List UInt8) :
    digitsAt max p ++ p.drop (digitsAt max p).length = p := by
  conv_rhs => rw [← List.take_append_drop (digitsAt max p).length p]
  rw [← List.prefix_iff_eq_take.mp (digitsAt_isPrefixOf max p)]

theorem digitsAt_length (max : ℕ) (p : List UInt8) : (digitsAt max p).length ≤ max :=
  (List.takeWhile_prefix _).length_le.trans (List.length_take_le max p)

/-- A number that is not full ends in front of something else. -/
theorem digitsAt_stop (h : (digitsAt max p).length < max) :
    NoDigit (p.drop (digitsAt max p).length) := by
  induction p generalizing max with
  | nil =>
    intro c hc
    rw [List.drop_nil] at hc
    cases hc
  | cons c p ih =>
    cases max with
    | zero => exact absurd h (Nat.not_lt_zero _)
    | succ max =>
      by_cases hc : IsDigit c
      · have hcons : digitsAt (max + 1) (c :: p) = c :: digitsAt max p :=
          List.takeWhile_cons_of_pos (decide_eq_true hc)
        rw [hcons, List.length_cons] at h ⊢
        exact ih (Nat.lt_of_succ_lt_succ h)
      · have hnil : digitsAt (max + 1) (c :: p) = [] :=
          List.takeWhile_cons_of_neg fun h => hc (of_decide_eq_true h)
        rw [hnil]
        intro d hd
        cases hd
        exact hc

theorem parse_number_eq (a b : ℕ) (p : List UInt8) :
    parse_number p (number a b) =
      if (digitsAt b p).length < a then none
      else some ((decimalValue (digitsAt b p) : ℤ), p.drop (digitsAt b p).length) := by
  have hle := digitsAt_length b p
  have hloop := @numberLoop_digits b 0 0 (digitsAt b p) (p.drop (digitsAt b p).length)
    (fun c hc => digitsAt_digit hc) (by omega) (by
      by_cases hfull : (digitsAt b p).length < b
      · exact .inr (digitsAt_stop hfull)
      · exact .inl (by omega))
  rw [digitsAt_append] at hloop
  change (if (numberLoop b 0 0 p).1 < a ∨ (numberLoop b 0 0 p).1 > b then none
    else some ((numberLoop b 0 0 p).2.1, (numberLoop b 0 0 p).2.2)) = _
  have hzero : ((0 : ℕ) : ℤ) = 0 := rfl
  rw [hzero, Nat.zero_add] at hloop
  rw [hloop]
  dsimp only
  by_cases hmin : (digitsAt b p).length < a
  · rw [if_pos hmin, if_pos (.inl hmin)]
  · rw [if_neg hmin, if_neg fun h => h.elim hmin fun h => by omega]
    rfl

theorem rule_number_ok :
    parse_by_rule i values (.plain (number a b) :: rules) p = .ok r ↔
      a ≤ (digitsAt b p).length ∧
        parse_by_rule (i + 1) (values.set i (decimalValue (digitsAt b p))) rules
          (skip_cfws 0 (p.drop (digitsAt b p).length)) = .ok r := by
  rw [parse_by_rule]
  change (Parse.ofOption (parse_number p (number a b))).bind _ = _ ↔ _
  rw [parse_number_eq]
  by_cases hmin : (digitsAt b p).length < a
  · rw [if_pos hmin]
    exact iff_of_false (fun h => by cases h) fun h => by omega
  · rw [if_neg hmin]
    exact (and_iff_right (Nat.le_of_not_lt hmin)).symm

theorem rule_delim_ok {c : UInt8} :
    parse_by_rule i values (.plain (delim c) :: rules) p = .ok r ↔
      ∃ q, p = c :: q ∧ parse_by_rule (i + 1) values rules (skip_cfws 0 q) = .ok r := by
  rw [parse_by_rule]
  change (if p.head? = some c then _ else Parse.null) = _ ↔ _
  rcases p with _ | ⟨d, q⟩
  · refine iff_of_false (fun h => by cases h) ?_
    rintro ⟨q, hq, -⟩
    cases hq
  · by_cases hd : d = c
    · subst hd
      rw [List.head?_cons, if_pos rfl]
      constructor
      · exact fun h => ⟨q, rfl, h⟩
      · rintro ⟨q', hq, h⟩
        cases hq
        exact h
    · rw [List.head?_cons, if_neg fun h => hd (Option.some.inj h)]
      refine iff_of_false (fun h => by cases h) ?_
      rintro ⟨q', hq, -⟩
      cases hq
      exact hd rfl

theorem rule_lookup_ok {table : List (List UInt8)} (htable : ∀ name ∈ table, name.length = 3) :
    parse_by_rule i values (.plain (lookup table) :: rules) p = .ok r ↔
      ∃ k, table.findIdx? (sameName · p 3) = some k ∧
        parse_by_rule (i + 1) (values.set i k) rules (skip_cfws 0 (p.drop 3)) = .ok r := by
  rw [parse_by_rule]
  change (parse_lookup p (lookup table)).bind _ = _ ↔ _
  have hfits : Rule.Fits (lookup table) := htable
  rw [parse_lookup_inside hfits, Date.parse_lookup]
  change (Parse.ofOption ((table.findIdx? (sameName · p 3)).map _)).bind _ = _ ↔ _
  rcases table.findIdx? (sameName · p 3) with _ | k
  · refine iff_of_false (fun h => by cases h) ?_
    rintro ⟨k, hk, -⟩
    cases hk
  · constructor
    · exact fun h => ⟨k, rfl, h⟩
    · rintro ⟨k', hk, h⟩
      cases hk
      exact h

end Rules

/-! ## Parts of a date -/

section Parts

variable {p q : List UInt8} {w : ℤ}

/-- What `skip_cfws` moves over begins with white space or a comment. -/
theorem skip_cfws_head {c d : UInt8} {p q : List UInt8} (h : skip_cfws 0 (c :: p) = d :: q) :
    (c = d ∧ p = q) ∨ c ∈ ([32, 9, 10, 13, 40] : List UInt8) := by
  by_cases hstop : Stops c
  · rw [skip_cfws_stops hstop, if_pos rfl] at h
    exact .inl ⟨(List.cons.inj h).1, (List.cons.inj h).2⟩
  · rw [Stops, not_not] at hstop
    simp only [List.mem_cons, List.not_mem_nil, or_false] at hstop
    rcases hstop with rfl | rfl | rfl | rfl | rfl | rfl | rfl
    · exact .inr (by decide)
    · exact .inr (by decide)
    · exact .inr (by decide)
    · exact .inr (by decide)
    · exact .inr (by decide)
    · -- a closing parenthesis or a backslash outside a comment
      rw [skip_cfws.eq_def] at h
      exact .inl ⟨(List.cons.inj h).1, (List.cons.inj h).2⟩
    · rw [skip_cfws.eq_def] at h
      rcases p with _ | ⟨e, p⟩
      · exact .inl ⟨(List.cons.inj h).1, (List.cons.inj h).2⟩
      · exact .inl ⟨(List.cons.inj h).1, (List.cons.inj h).2⟩

theorem isalpha_digit {c : UInt8} (h : IsDigit c) : isalpha c = false := by
  unfold IsDigit at h
  rw [isalpha, Bool.or_eq_false_iff, decide_eq_false_iff_not, decide_eq_false_iff_not]
  simp only [UInt8.le_iff_toNat_le]
  have h65 : (65 : UInt8).toNat = 65 := rfl
  have h97 : (97 : UInt8).toNat = 97 := rfl
  omega

theorem isalpha_tolower (c : UInt8) : isalpha (tolower c) = isalpha c := by
  rw [tolower]
  split
  · rename_i hupper
    have hlower : 97 ≤ c + 32 ∧ c + 32 ≤ 122 := by
      simp only [UInt8.le_iff_toNat_le, UInt8.toNat_add] at hupper ⊢
      have h65 : (65 : UInt8).toNat = 65 := rfl
      have h90 : (90 : UInt8).toNat = 90 := rfl
      have h97 : (97 : UInt8).toNat = 97 := rfl
      have h122 : (122 : UInt8).toNat = 122 := rfl
      have h32 : (32 : UInt8).toNat = 32 := rfl
      omega
    rw [isalpha, isalpha, decide_eq_true hlower, decide_eq_true hupper, Bool.or_true, Bool.true_or]
  · rfl

/-- Where a name of letters is found, there are letters. -/
theorem sameName_letters {name : List UInt8} {n : ℕ} (hname : name.length = n)
    (hletters : ∀ c ∈ name, isalpha c = true) (h : sameName name p n = true) :
    ∃ l, p = l ++ p.drop n ∧ l.length = n ∧ ∀ c ∈ l, isalpha c = true := by
  have hlen := sameName_inside hname h
  refine ⟨p.take n, (List.take_append_drop n p).symm, ?_, fun c hc => ?_⟩
  · rw [List.length_take]
    omega
  · rw [sameName, beq_iff_eq] at h
    have hmem : tolower c ∈ (name.take n).map tolower := h ▸ List.mem_map_of_mem hc
    obtain ⟨d, hd, heq⟩ := List.mem_map.mp hmem
    rw [← isalpha_tolower c, ← heq, isalpha_tolower]
    exact hletters d (List.mem_of_mem_take hd)

theorem found_name {table : List (List UInt8)} {k : ℕ}
    (h : table.findIdx? (sameName · p 3) = some k) :
    ∃ name ∈ table, sameName name p 3 = true := by
  obtain ⟨hk, hsame, -⟩ := List.findIdx?_eq_some_iff_getElem.mp h
  exact ⟨_, List.getElem_mem hk, hsame⟩

theorem table_letters : ∀ table ∈ [WEEKDAY, MONTH], ∀ name ∈ table,
    name.length = 3 ∧ ∀ c ∈ name, isalpha c = true := by decide +kernel

/-- A month in front of a number is read by the rule for months too. -/
theorem parse_legacy_month_abbreviated {k : ℕ} {d : UInt8}
    (h : MONTH.findIdx? (sameName · p 3) = some k)
    (hnext : skip_cfws 0 (p.drop 3) = d :: q) (hd : IsDigit d) :
    parse_legacy_month p = .ok ((k : ℤ), p.drop 3) := by
  obtain ⟨name, hname, hsame⟩ := found_name h
  obtain ⟨hthree, hletters⟩ := table_letters MONTH (by decide) name hname
  obtain ⟨l, hp, hlen, hl⟩ := sameName_letters hthree hletters hsame
  have hinside := sameName_inside hthree hsame
  -- what follows is no letter and no period
  obtain ⟨c, r, hr⟩ : ∃ c r, p.drop 3 = c :: r := by
    rcases hdrop : p.drop 3 with _ | ⟨c, r⟩
    · rw [hdrop] at hnext
      cases hnext
    · exact ⟨c, r, rfl⟩
  have hc : isalpha c = false ∧ c ≠ 46 := by
    rw [hr] at hnext
    rcases skip_cfws_head hnext with ⟨rfl, -⟩ | hc
    · refine ⟨isalpha_digit hd, ?_⟩
      rintro rfl
      exact absurd hd (by decide)
    · have hall : ∀ c ∈ ([32, 9, 10, 13, 40] : List UInt8), isalpha c = false ∧ c ≠ 46 := by
        decide +kernel
      exact hall c hc
  have hword : (p.takeWhile isalpha).length = 3 := by
    rw [hp, hr, List.takeWhile_append_of_pos hl, List.takeWhile_cons_of_neg
      (Bool.eq_false_iff.mp hc.1), List.append_nil, hlen]
  have hdot : ¬ p[3]? = some 46 := by
    have hget : p[3]? = some c := by
      rw [← List.head?_drop, hr, List.head?_cons]
    rw [hget]
    exact fun h => hc.2 (Option.some.inj h)
  have hmonth : monthNamed p 3 = some k := (if_pos (.inl rfl)).trans h
  rw [parse_legacy_month]
  simp only [hword, if_neg hdot, if_neg (show ¬ (3 : ℕ) = 0 by decide), hmonth]
  rw [advance_inside hinside]
  rfl

/-- A shorter minimum reads the same number. -/
theorem digitsAt_cons {max : ℕ} (h : 1 ≤ (digitsAt max p).length) :
    ∃ d q, p = d :: q ∧ IsDigit d := by
  rcases hds : digitsAt max p with _ | ⟨d, ds⟩
  · rw [hds] at h
    exact absurd h (Nat.not_succ_le_zero 0)
  · have hp := digitsAt_append max p
    rw [hds] at hp
    exact ⟨d, _, hp.symm, digitsAt_digit (hds ▸ List.mem_cons_self)⟩

theorem name_lengths {table : List (List UInt8)} (htable : table ∈ [WEEKDAY, MONTH]) :
    ∀ name ∈ table, name.length = 3 := fun name hname => (table_letters table htable name hname).1

/-- The rules behind the day of the week. -/
theorem lax_base {base : List ℤ}
    (h : parse_by_rule 2 [w, 0, 0, 0, 0, 0, 0, 0] ((base_rule.drop 2).map .plain) p =
      .ok (base, q)) :
    (∃ d r, p = d :: r ∧ IsDigit d) ∧
      ∃ day mon year hour min : ℤ, base = [w, 0, day, mon, year, hour, 0, min] ∧
        parse_by_rule 0 (List.replicate 6 0) laxBaseRule p =
          .ok ([day, mon, year, hour, 0, min], q) := by
  change parse_by_rule 2 _ [.plain (number 1 2), .plain (lookup MONTH), .plain (number 2 4),
    .plain (number 2 2), .plain (delim 58), .plain (number 2 2)] p = _ at h
  obtain ⟨hday, h⟩ := rule_number_ok.mp h
  obtain ⟨k, hk, h⟩ := (rule_lookup_ok (name_lengths (by decide))).mp h
  obtain ⟨hyear, h⟩ := rule_number_ok.mp h
  obtain ⟨hhour, h⟩ := rule_number_ok.mp h
  obtain ⟨r, hcolon, h⟩ := rule_delim_ok.mp h
  obtain ⟨hmin, h⟩ := rule_number_ok.mp h
  obtain ⟨d, q', hnext, hd⟩ := digitsAt_cons (Nat.le_of_succ_le hyear)
  cases h
  refine ⟨digitsAt_cons hday, _, _, _, _, _, rfl, ?_⟩
  rw [laxBaseRule, rule_number_ok]
  refine ⟨hday, ?_⟩
  rw [parse_by_rule, parse_legacy_month_abbreviated hk hnext hd]
  change parse_by_rule 2 _ [.plain (number 2 4), .plain (number 1 2), .plain (delim 58),
    .plain (number 1 2)] _ = _
  refine rule_number_ok.mpr ⟨hyear, ?_⟩
  refine rule_number_ok.mpr ⟨Nat.le_of_succ_le hhour, ?_⟩
  refine rule_delim_ok.mpr ⟨r, hcolon, ?_⟩
  exact rule_number_ok.mpr ⟨Nat.le_of_succ_le hmin, rfl⟩

/-- Seconds. -/
theorem lax_seconds {values values' base : List ℤ} {tm_sec : ℤ} (hbase : 2 ≤ base.length)
    (hbase' : 2 ≤ values'.length)
    (h : parseSeconds Date.seconds_rule base p = .ok (tm_sec, values, q)) :
    (∃ values'', parseSeconds laxSecondsRule values' p = .ok (tm_sec, values'', q)) ∧
      2 ≤ values.length := by
  rw [parseSeconds] at h ⊢
  by_cases hcolon : p.head? = some 58
  · rw [if_pos hcolon] at h ⊢
    rcases hrules : parse_by_rule 0 base (Date.seconds_rule.map .plain) p with _ | _ | ⟨vs, r⟩
    · rw [hrules] at h
      cases h
    · rw [hrules] at h
      cases h
    · rw [hrules] at h
      cases h
      change parse_by_rule 0 base [.plain (delim 58), .plain (number 2 2)] p = _ at hrules
      obtain ⟨r, hr, hrules⟩ := rule_delim_ok.mp hrules
      obtain ⟨hsec, hrules⟩ := rule_number_ok.mp hrules
      cases hrules
      have hlax : parse_by_rule 0 values' (laxSecondsRule.map .plain) p =
          .ok (values'.set 1 (decimalValue (digitsAt 2 (skip_cfws 0 r))),
            skip_cfws 0 ((skip_cfws 0 r).drop (digitsAt 2 (skip_cfws 0 r)).length)) :=
        rule_delim_ok.mpr ⟨r, hr, rule_number_ok.mpr ⟨Nat.le_of_succ_le hsec, rfl⟩⟩
      obtain ⟨a, b, vs, rfl⟩ := two_values hbase
      obtain ⟨a', b', vs', rfl⟩ := two_values hbase'
      exact ⟨⟨_, by rw [hlax]; rfl⟩, hbase⟩
  · rw [if_neg hcolon] at h ⊢
    cases h
    exact ⟨⟨_, rfl⟩, hbase⟩

theorem skip_cfws_suffix (nesting : ℕ) (p : List UInt8) : skip_cfws nesting p <:+ p := by
  fun_induction skip_cfws nesting p with
  | case1 => exact List.suffix_refl _
  | case2 _ _ _ _ ih => exact ih.trans (List.suffix_cons _ _)
  | case3 => exact List.suffix_refl _
  | case4 _ _ _ _ ih => exact ih.trans (List.suffix_cons _ _)
  | case5 _ _ _ _ ih => exact ih.trans (List.suffix_cons _ _)
  | case6 => exact List.suffix_refl _
  | case7 _ _ _ _ _ _ ih => exact ih.trans (List.suffix_cons _ _)
  | case8 => exact List.suffix_refl _
  | case9 => exact List.suffix_refl _
  | case10 _ _ _ _ _ _ _ _ ih =>
    exact ih.trans ((List.suffix_cons _ _).trans (List.suffix_cons _ _))
  | case11 => exact List.suffix_refl _
  | case12 _ _ _ _ _ _ _ _ _ ih => exact ih.trans (List.suffix_cons _ _)

theorem skip_cfws_digit {d : UInt8} (hd : IsDigit d) (p : List UInt8) :
    skip_cfws 0 (d :: p) = d :: p := by
  rw [skip_cfws_stops (stops_of_digit hd), if_pos rfl]

/-- What is only comments and white space does not begin with a digit. -/
theorem noDigit_of_skipped (h : skip_cfws 0 (skip_cfws 0 p) = []) : NoDigit p := by
  intro c hc hdigit
  rcases p with _ | ⟨d, p⟩
  · cases hc
  · cases hc
    rw [skip_cfws_digit hdigit, skip_cfws_digit hdigit] at h
    cases h

/-- Digits in front of something else are the number. -/
theorem digitsAt_eq {max : ℕ} {l rest : List UInt8} (hl : ∀ c ∈ l, IsDigit c)
    (hmax : l.length ≤ max) (hrest : l.length = max ∨ NoDigit rest) :
    digitsAt max (l ++ rest) = l := by
  have hall : ∀ c ∈ l, decide (IsDigit c) = true := fun c hc => decide_eq_true (hl c hc)
  rw [digitsAt, List.take_append, List.take_of_length_le hmax, List.takeWhile_append_of_pos hall]
  rcases hrest with hfull | hno
  · rw [hfull, Nat.sub_self, List.take_zero]
    exact List.append_nil l
  · rcases rest with _ | ⟨c, rest⟩
    · rw [List.take_nil]
      exact List.append_nil l
    · rcases max - l.length with _ | k
      · exact List.append_nil l
      · have hc : ¬ decide (IsDigit c) = true := fun h => hno c rfl (of_decide_eq_true h)
        rw [List.take_succ_cons, List.takeWhile_cons, if_neg hc, List.append_nil]

/-- Full numbers are the first digits. -/
theorem digitsAt_full {max : ℕ} (h : max ≤ (digitsAt max p).length) :
    digitsAt max p = p.take max ∧ (digitsAt max p).length = max := by
  have hlen : (digitsAt max p).length = max := Nat.le_antisymm (digitsAt_length max p) h
  have htake := List.prefix_iff_eq_take.mp (digitsAt_isPrefixOf max p)
  rw [hlen] at htake
  exact ⟨htake, hlen⟩

theorem decimalValue_append_two {l m : List UInt8} (hm : m.length = 2) :
    decimalValue (l ++ m) = decimalValue l * 100 + decimalValue m := by
  obtain ⟨a, b, rfl⟩ := List.length_eq_two.mp hm
  rw [decimalValue, List.foldl_append]
  simp only [List.foldl_cons, List.foldl_nil, decimalValue]
  omega

theorem decimalValue_two {l : List UInt8} (hl : ∀ c ∈ l, IsDigit c) (hlen : l.length = 2) :
    decimalValue l < 100 ∧ (decimalValue l = 0 ↔ l = [48, 48]) := by
  obtain ⟨a, b, rfl⟩ := List.length_eq_two.mp hlen
  have ha := hl a List.mem_cons_self
  have hb := hl b (List.mem_cons_of_mem a List.mem_cons_self)
  have h48 : (48 : UInt8).toNat = 48 := rfl
  unfold IsDigit at ha hb
  have hval : decimalValue [a, b] = 10 * (a.toNat - 48) + (b.toNat - 48) := by
    simp [decimalValue]
  have hzero : [a, b] = [48, 48] ↔ a.toNat = 48 ∧ b.toNat = 48 := by
    simp only [List.cons.injEq, and_true, ← UInt8.toNat_inj, h48]
  rw [hval, hzero]
  omega

end Parts

/-! ## The zone -/

/-- The digits of a numeric zone stand together, or are zeros. -/
def ZoneTogether (p : List UInt8) : Prop :=
  isNumericZone p = true → (p[3]?.any fun c => decide (IsDigit c)) = true ∨
    p.tail.take 2 = [48, 48] ∧ (skip_cfws 0 (p.drop 3)).take 2 = [48, 48]

section Zone

variable {p q : List UInt8} {values : List ℤ} {zone_offset : ℤ}

theorem zoneLoop_next {n : ℕ} {z offset : ℤ} (hp : p ≠ [])
    (h : zoneStep p = .ok (offset, some q)) : zoneLoop (n + 1) z p = zoneLoop n offset q := by
  rw [zoneLoop, if_neg hp, h]
  rfl

theorem zoneLoop_end {n : ℕ} {z offset : ℤ} (hp : p ≠ [])
    (h : zoneStep p = .ok (offset, none)) : zoneLoop (n + 1) z p = .ok offset := by
  rw [zoneLoop, if_neg hp, h]
  rfl

theorem zoneLoop_nil (n : ℕ) (z : ℤ) : zoneLoop (n + 1) z [] = .ok z := rfl

/-- A word that the strict parser knows is the same for the lax one. -/
theorem timezone_obsolete {zone : ℤ × ℕ} (h : parse_legacy_timezone p false = some zone) :
    parse_legacy_timezone p true = some zone := by
  have hne : zoneWord p ≠ [] := by
    intro hnil
    have hmax : (p.takeWhile isalpha).length = 0 := List.length_eq_zero_iff.mpr hnil
    rw [parse_legacy_timezone, if_pos hmax] at h
    cases h
  rcases hfind : ZONE_OFFSET.find? (sameName ·.1 p (zoneWord p).length) with _ | z
  · rw [timezone_other hne _ hfind] at h ⊢
    split at h
    · rename_i hletter
      rw [if_pos hletter]
      exact h
    · cases h
  · rw [timezone_found hne _ hfind] at h ⊢
    exact h

/-- The end of a legacy zone that the strict parser accepts. -/
theorem lax_zone_word (hnum : isNumericZone p = false)
    (h : strictZoneAt values p = .ok (zone_offset, q)) (hq : skip_cfws 0 q = []) :
    p ≠ [] ∧ zoneLoop (p.length + 1) 0 p = .ok zone_offset := by
  rw [strictZoneAt, if_neg (Bool.eq_false_iff.mp hnum)] at h
  rcases hparse : parse_legacy_timezone p false with _ | ⟨offset, n⟩
  · rw [hparse] at h
    cases h
  · rw [hparse] at h
    change (advance n p).bind _ = _ at h
    by_cases hn : n ≤ p.length
    · rw [advance_inside hn] at h
      cases h
      have hne : p ≠ [] := by
        rintro rfl
        cases hparse
      have hstep : zoneStep p = .ok (zone_offset, some []) := by
        rw [zoneStep, if_neg (Bool.eq_false_iff.mp hnum), timezone_obsolete hparse]
        change (advance n p).bind _ = _
        rw [advance_inside hn]
        change Parse.ok (zone_offset, some (skip_cfws 0 (p.drop n))) = _
        rw [hq]
      obtain ⟨k, hk⟩ := Nat.exists_eq_succ_of_ne_zero
        (Nat.ne_of_gt (List.length_pos_iff.mpr hne))
      refine ⟨hne, ?_⟩
      rw [zoneLoop_next hne hstep, hk, zoneLoop_nil]
    · rw [advance, if_neg hn] at h
      cases h

/-- A numeric zone, read as one number. -/
theorem zoneStep_number {sign : UInt8} {t : List UInt8} (hsign : sign = 45 ∨ sign = 43)
    (hdigits : 1 ≤ (digitsAt 5 t).length) :
    zoneStep (sign :: t) =
      .ok ((if t.length - (skip_cfws 0 (t.drop (digitsAt 5 t).length)).length < 3 then
          (decimalValue (digitsAt 5 t) : ℤ) * 60 * 60
        else ((decimalValue (digitsAt 5 t) : ℤ) / 100 * 60 +
          (decimalValue (digitsAt 5 t) : ℤ) % 100) * 60) * zoneSign (sign :: t),
        some (skip_cfws 0 (skip_cfws 0 (t.drop (digitsAt 5 t).length)))) := by
  have hnum : isNumericZone (sign :: t) = true := by
    rcases hsign with rfl | rfl
    · rfl
    · rfl
  have hrule : parse_by_rule 0 [0] (laxZoneRule.map .plain) t =
      .ok ([(decimalValue (digitsAt 5 t) : ℤ)], skip_cfws 0 (t.drop (digitsAt 5 t).length)) :=
    rule_number_ok.mpr ⟨hdigits, rfl⟩
  rw [zoneStep, if_pos hnum, List.tail_cons, hrule]
  rfl

theorem isNumericZone_cons (h : isNumericZone p = true) :
    ∃ sign t, p = sign :: t ∧ (sign = 45 ∨ sign = 43) := by
  rcases p with _ | ⟨sign, t⟩
  · cases h
  · rw [isNumericZone, Bool.or_eq_true, beq_iff_eq, beq_iff_eq, List.head?_cons] at h
    exact ⟨sign, t, rfl, h.imp Option.some.inj Option.some.inj⟩

theorem zoneSign_ne_zero (p : List UInt8) : zoneSign p ≠ 0 := by
  rw [zoneSign]
  split
  · decide
  · decide

/-- The end of a numeric zone that the strict parser accepts. -/
theorem lax_zone_number (hvalues : 2 ≤ values.length) (hnum : isNumericZone p = true)
    (h : strictZoneAt values p = .ok (zone_offset, q)) (hq : skip_cfws 0 q = []) :
    p ≠ [] ∧ ∃ z, zoneLoop (p.length + 1) 0 p = .ok z ∧ (z = zone_offset ↔ ZoneTogether p) := by
  obtain ⟨sign, t, rfl, hsign⟩ := isNumericZone_cons hnum
  refine ⟨List.cons_ne_nil sign t, ?_⟩
  rw [strictZoneAt, if_pos hnum, List.tail_cons] at h
  rcases hrules : parse_by_rule 0 values (Date.zone_rule.map .plain) t with _ | _ | ⟨vs, r⟩
  · rw [hrules] at h
    cases h
  · rw [hrules] at h
    cases h
  rw [hrules] at h
  change Parse.ok _ = _ at h
  change parse_by_rule 0 values [.plain (number 2 2), .plain (number 2 2)] t = _ at hrules
  obtain ⟨hhour, hrules⟩ := rule_number_ok.mp hrules
  obtain ⟨hmin, hrules⟩ := rule_number_ok.mp hrules
  obtain ⟨a, b, vs', rfl⟩ := two_values hvalues
  cases hrules
  obtain ⟨hhour_take, hhour_len⟩ := digitsAt_full hhour
  have hhour_digit : ∀ c ∈ digitsAt 2 t, IsDigit c := fun c hc => digitsAt_digit hc
  have ht := digitsAt_append 2 t
  rw [hhour_len] at hmin h ht
  -- `m` is the place where the minutes are read
  generalize hm : skip_cfws 0 (t.drop 2) = m at hmin h
  obtain ⟨hmin_take, hmin_len⟩ := digitsAt_full hmin
  have hmin_digit : ∀ c ∈ digitsAt 2 m, IsDigit c := fun c hc => digitsAt_digit hc
  have hmt := digitsAt_append 2 m
  rw [hmin_len] at h hmt
  obtain ⟨hhour_lt, hhour_zero⟩ := decimalValue_two hhour_digit hhour_len
  obtain ⟨hmin_lt, hmin_zero⟩ := decimalValue_two hmin_digit hmin_len
  obtain ⟨hoffset, hqr⟩ := Prod.mk.inj (Parse.ok.inj h)
  have hoffset : zone_offset = ((decimalValue (digitsAt 2 t) : ℤ) * 60 +
      (decimalValue (digitsAt 2 m) : ℤ)) * 60 * zoneSign (sign :: t) := hoffset.symm
  rw [← hqr] at hq
  have hgap := length_skip_cfws 0 (t.drop 2)
  have hlen : t.length = 2 + (t.drop 2).length := by
    conv_lhs => rw [← ht]
    rw [List.length_append, hhour_len]
  obtain ⟨d, m', hdm, hd⟩ := digitsAt_cons (Nat.le_of_succ_le hmin)
  by_cases htogether : ∃ e r, t.drop 2 = e :: r ∧ IsDigit e
  · -- one number of four digits
    obtain ⟨e, r, her, he⟩ := htogether
    have hmeq : m = t.drop 2 := by rw [← hm, her, skip_cfws_digit he]
    have hfour : digitsAt 5 t = digitsAt 2 t ++ digitsAt 2 m := by
      have hall : ∀ c ∈ digitsAt 2 t ++ digitsAt 2 m, IsDigit c := fun c hc =>
        (List.mem_append.mp hc).elim (hhour_digit c) (hmin_digit c)
      have hsplit : t = digitsAt 2 t ++ digitsAt 2 m ++ m.drop 2 := by
        rw [List.append_assoc, hmt, hmeq, ht]
      conv_lhs => rw [hsplit]
      refine digitsAt_eq hall ?_ (.inr (noDigit_of_skipped hq))
      rw [List.length_append, hhour_len, hmin_len]
      decide
    have hfour_len : (digitsAt 5 t).length = 4 := by
      rw [hfour, List.length_append, hhour_len, hmin_len]
    have hdrop : t.drop 4 = m.drop 2 := by rw [hmeq, List.drop_drop]
    have hwidth : ¬ t.length - (skip_cfws 0 (m.drop 2)).length < 3 := by
      have := length_skip_cfws 0 (m.drop 2)
      rw [List.length_drop, hmeq] at this
      have hm2 := congrArg List.length hmt
      rw [List.length_append, hmin_len, hmeq, List.length_drop] at hm2
      rw [hmeq]
      omega
    have hstep := zoneStep_number hsign (t := t) (by rw [hfour_len]; decide)
    rw [hfour_len, hdrop, if_neg hwidth, hq, hfour, decimalValue_append_two hmin_len] at hstep
    refine ⟨zone_offset, ?_, iff_of_true rfl fun _ => .inl ?_⟩
    · rw [zoneLoop_next (List.cons_ne_nil sign t) hstep, List.length_cons, zoneLoop_nil, hoffset]
      congr 2
      push_cast
      omega
    · rw [List.getElem?_cons_succ, ← List.head?_drop, her, List.head?_cons, Option.any_some]
      exact decide_eq_true he
  · -- the hours alone, and then something that is no zone
    have hno : NoDigit (t.drop 2) := by
      intro c hc hdigit
      rcases hcons : t.drop 2 with _ | ⟨e, r⟩
      · rw [hcons] at hc
        cases hc
      · rw [hcons] at hc
        cases hc
        exact htogether ⟨c, r, hcons, hdigit⟩
    have htwo : digitsAt 5 t = digitsAt 2 t := by
      conv_lhs => rw [← ht]
      exact digitsAt_eq hhour_digit (by rw [hhour_len]; decide) (.inr hno)
    have hlt : m.length < (t.drop 2).length := by
      rw [hm] at hgap
      refine lt_of_le_of_ne hgap fun heq => ?_
      have hsuffix := skip_cfws_suffix 0 (t.drop 2)
      rw [hm] at hsuffix
      have hmeq := hsuffix.eq_of_length heq
      exact htogether ⟨d, m', hmeq ▸ hdm, hd⟩
    have hwidth : ¬ t.length - m.length < 3 := by omega
    have hstep := zoneStep_number hsign (t := t) (by rw [htwo, hhour_len]; decide)
    rw [htwo, hhour_len, hm, if_neg hwidth, hdm, skip_cfws_digit hd] at hstep
    have hnotsign : isNumericZone (d :: m') = false := by
      rw [isNumericZone, List.head?_cons, Bool.or_eq_false_iff, beq_eq_false_iff_ne,
        beq_eq_false_iff_ne]
      constructor
      · rintro ⟨⟩
        exact absurd hd (by decide)
      · rintro ⟨⟩
        exact absurd hd (by decide)
    have hnext : zoneStep (d :: m') = .ok (0, none) := by
      rw [zoneStep, hnotsign, if_neg Bool.false_ne_true, parse_legacy_timezone,
        List.takeWhile_cons_of_neg (Bool.eq_false_iff.mp (isalpha_digit hd))]
      rfl
    have hsecond : ¬ ((sign :: t)[3]?.any fun c => decide (IsDigit c)) = true := by
      rw [List.getElem?_cons_succ, ← List.head?_drop]
      intro hany
      rcases hcons : t.drop 2 with _ | ⟨e, r⟩
      · rw [hcons] at hany
        cases hany
      · rw [hcons] at hany
        exact htogether ⟨e, r, hcons, of_decide_eq_true hany⟩
    refine ⟨0, ?_, ?_⟩
    · obtain ⟨k, hk⟩ := Nat.exists_eq_succ_of_ne_zero (show t.length ≠ 0 by omega)
      rw [zoneLoop_next (List.cons_ne_nil sign t) hstep, List.length_cons, hk,
        zoneLoop_end (List.cons_ne_nil d m') hnext]
    · have htogether_iff : ZoneTogether (sign :: t) ↔
          decimalValue (digitsAt 2 t) = 0 ∧ decimalValue (digitsAt 2 m) = 0 := by
        rw [hhour_zero, hmin_zero, hhour_take, hmin_take, ← hm]
        exact ⟨fun h => (h hnum).resolve_left hsecond, fun h _ => .inr h⟩
      have hsign_ne := zoneSign_ne_zero (sign :: t)
      rw [htogether_iff, hoffset, eq_comm, mul_eq_zero, or_iff_left hsign_ne]
      omega

end Zone

/-! ## Dates -/

/-- The comma behind the day of the week is the first comma, and in front of the first digit. -/
def PlainDay (date : List UInt8) : Prop :=
  (skip_cfws 0 date).head?.any isalpha = true →
    ((skip_cfws 0 date).drop 3).dropWhile (fun c => !decide (IsDigit c) && c != 44) =
      skip_cfws 0 ((skip_cfws 0 date).drop 3)

section Dates

variable {date p q : List UInt8} {base : List ℤ} {t : ℤ}

/-- The day of the week, or none. -/
theorem lax_day (hday : PlainDay date)
    (h : strictBase (skip_cfws 0 date) = .ok (base, q)) :
    ∃ w p, parse_by_rule 2 [w, 0, 0, 0, 0, 0, 0, 0] ((base_rule.drop 2).map .plain) p =
      .ok (base, q) ∧ skipDay (skip_cfws 0 date) = p := by
  rw [PlainDay] at hday
  generalize skip_cfws 0 date = p at h hday
  rw [strictBase] at h
  by_cases halpha : p.head?.any isalpha = true
  · rw [if_pos halpha] at h
    have hday := hday halpha
    change parse_by_rule 0 _ (.plain (lookup WEEKDAY) :: .plain (delim 44) ::
      (base_rule.drop 2).map .plain) p = _ at h
    obtain ⟨k, hk, h⟩ := (rule_lookup_ok (name_lengths (by decide))).mp h
    obtain ⟨r, hr, h⟩ := rule_delim_ok.mp h
    refine ⟨k, _, h, ?_⟩
    -- the three letters are passed over
    obtain ⟨name, hname, hsame⟩ := found_name hk
    obtain ⟨hthree, hletters⟩ := table_letters WEEKDAY (by decide) name hname
    obtain ⟨l, hp, -, hl⟩ := sameName_letters hthree hletters hsame
    have hpass : ∀ c ∈ l, (!decide (IsDigit c) && c != 44) = true := by
      intro c hc
      have hnot : ¬ IsDigit c := fun hd => by
        have := isalpha_digit hd
        rw [hl c hc] at this
        cases this
      have hcomma : c ≠ 44 := by
        rintro rfl
        exact absurd (hl 44 hc) (by decide)
      rw [decide_eq_false hnot, bne_iff_ne.mpr hcomma]
      rfl
    have hdrop : p.dropWhile (fun c => !decide (IsDigit c) && c != 44) = 44 :: r := by
      conv_lhs => rw [hp]
      rw [List.dropWhile_append_of_pos hpass, hday, hr]
    rw [skipDay, hdrop]
    rfl
  · rw [if_neg halpha] at h
    have h : parse_by_rule 2 [0, 0, 0, 0, 0, 0, 0, 0] ((base_rule.drop 2).map .plain) p =
        .ok (base, q) := h
    obtain ⟨⟨d, r, hp, hd⟩, -⟩ := lax_base h
    refine ⟨0, p, h, ?_⟩
    have hstay : p.dropWhile (fun c => !decide (IsDigit c) && c != 44) = d :: r := by
      rw [hp, List.dropWhile_cons, decide_eq_true hd]
      rfl
    rw [skipDay, hstay]
    split
    · rename_i heq
      cases heq
      exact absurd hd (by decide)
    · exact hp.symm

theorem Parse.bind_time {α : Type} {x : Parse α} {f : α → Parse ℤ} (h : (x.bind f).time = some t)
    (ht : t ≠ -1) : ∃ a, x = .ok a ∧ (f a).time = some t := by
  cases x with
  | past => cases h
  | null => exact absurd (Option.some.inj h).symm ht
  | ok a => exact ⟨a, rfl, h⟩

/-- Times of one date differ as the offsets do. -/
theorem toTime_inj {tm : Tm} {result z z' : ℤ} (h : toTime tm result z ≠ -1) :
    toTime tm result z' = toTime tm result z ↔ z' = z := by
  rw [toTime] at h ⊢
  rw [toTime]
  split at h
  · exact absurd rfl h
  · rename_i hvalid
    rw [if_neg hvalid]
    split at h
    · exact absurd rfl h
    · rename_i hresult
      rw [if_neg hresult, if_neg hvalid, if_neg hresult]
      omega

/-- A date that the strict parser accepts: the lax one returns the same time just when the digits
of a numeric zone stand together, or are zeros. -/
theorem lax_of_strict (sys : System) (h : parsedate_rfc5322 date = some t) (ht : t ≠ -1)
    (hday : PlainDay date) :
    parsedate_rfc5322_lax sys date = some t ↔ ∀ p, StrictZone date p → ZoneTogether p := by
  rw [parsedate_rfc5322] at h
  obtain ⟨⟨base, q⟩, hbase, h⟩ := Parse.bind_time h ht
  obtain ⟨⟨tm_sec, values, p⟩, hseconds, h⟩ := Parse.bind_time h ht
  obtain ⟨⟨zone_offset, r⟩, hzone, h⟩ := Parse.bind_time h ht
  -- the same numbers
  obtain ⟨w, start, hrules, hstart⟩ := lax_day hday hbase
  obtain ⟨-, day, mon, year, hour, min, rfl, hlax⟩ := lax_base hrules
  have hlength : ∀ (a b : ℤ) (vs : List ℤ), 2 ≤ (a :: b :: vs).length := fun _ _ vs => by
    rw [List.length_cons, List.length_cons]
    omega
  obtain ⟨⟨values', hlax_seconds⟩, hvalues⟩ := lax_seconds (hlength w 0 _)
    (hlength day mon [year, hour, 0, min]) hseconds
  have hlaxStart : laxStart date = .ok (tm_sec, [day, mon, year, hour, 0, min], p) := by
    rw [laxStart, hstart, hlax]
    change Parse.bind (parseSeconds laxSecondsRule _ q) _ = _
    rw [hlax_seconds]
    rfl
  have hstop : StrictZone date p := ⟨_, q, tm_sec, values, hbase, hseconds⟩
  have hunique : (∀ p, StrictZone date p → ZoneTogether p) ↔ ZoneTogether p := by
    refine ⟨fun h => h p hstop, ?_⟩
    rintro hp p' ⟨base', q', sec', vs', hbase', hseconds'⟩
    rw [hbase] at hbase'
    cases hbase'
    rw [hseconds] at hseconds'
    cases hseconds'
    exact hp
  rw [hunique]
  -- the end of the strict parser
  change (strictEnd _ _ zone_offset r).time = _ at h
  rw [strictEnd] at h
  by_cases hr : skip_cfws 0 r = []
  swap
  · rw [if_pos hr] at h
    exact absurd (Option.some.inj h).symm ht
  rw [if_neg (not_not_intro hr)] at h
  have htime := Option.some.inj h
  obtain ⟨hne, z, hloop, hz⟩ : p ≠ [] ∧ ∃ z, zoneLoop (p.length + 1) 0 p = .ok z ∧
      (z = zone_offset ↔ ZoneTogether p) := by
    cases hnum : isNumericZone p with
    | true => exact lax_zone_number hvalues hnum hzone hr
    | false =>
      obtain ⟨hne, hloop⟩ := lax_zone_word hnum hzone hr
      exact ⟨hne, _, hloop, iff_of_true rfl fun h => absurd h (Bool.eq_false_iff.mp hnum)⟩
  have hlaxTime : parsedate_rfc5322_lax sys date =
      some (toTime (dateTm tm_sec min hour day mon year 0)
        (mktime_utc (dateTm tm_sec min hour day mon year 0)) z) := by
    rw [parsedate_rfc5322_lax, hlaxStart]
    change Parse.time ((zoneLoop (p.length + 1) 0 p).bind _) = _
    rw [hloop]
    change some (laxEnd sys tm_sec _ (!p.isEmpty) z) = _
    rw [List.isEmpty_eq_false_iff.mpr hne]
    rfl
  change toTime (dateTm tm_sec min hour day mon year 0)
    (mktime_utc (dateTm tm_sec min hour day mon year 0)) zone_offset = t at htime
  rw [hlaxTime, ← hz, ← htime, Option.some_inj, toTime_inj (htime ▸ ht)]

end Dates

end Inn.Libinn.LaxDate
