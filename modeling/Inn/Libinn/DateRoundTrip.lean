import Inn.Calendar
import Inn.Libinn.Date

/-!
# Inn.Libinn.DateRoundTrip — the time that a date was written for

* `IsCivil` — what `gmtime` and `localtime` say about a time;
* `mktime_utc_eq` — the loops of `mktime_utc` count the days of the calendar;
* `local_tz_offset_eq` — the offset of the time zone, also where it is worked out;
* `parsedate_dateText` — the parser reads the fields that `makedate` wrote;
* `date_round_trip` — so it gives the time back, if the year that is written is one from 1970 to
  9999;
* `new_year_in_america` — the first hours of 1970 are in 1969 to the west.
-/

namespace Inn.Libinn.Date

open Inn.Calendar (Date IsLeap yearStart yearLength monthStart monthLengths)

/-! ## Civil times -/

/-- The fields are the civil time of `s` seconds after the beginning of 1970. -/
structure IsCivil (tm : Tm) (s : ℤ) (d : Date) : Prop where
  valid : d.Valid
  year : tm.tm_year + 1900 = d.year
  mon : tm.tm_mon = d.month
  mday : tm.tm_mday = d.day
  wday : tm.tm_wday = (d.number + 4) % 7
  yday : tm.tm_yday = d.dayOfYear
  hour : 0 ≤ tm.tm_hour ∧ tm.tm_hour < 24
  min : 0 ≤ tm.tm_min ∧ tm.tm_min < 60
  sec : 0 ≤ tm.tm_sec ∧ tm.tm_sec < 60
  seconds : s = 86400 * d.number + 3600 * tm.tm_hour + 60 * tm.tm_min + tm.tm_sec

/-! ## Counting days -/

theorem ISLEAP_eq (year : ℤ) : ISLEAP year = decide (IsLeap year) := by
  rw [ISLEAP, Bool.eq_iff_iff, decide_eq_true_iff]
  unfold IsLeap
  simp

/-- The loop over the years. -/
theorem years_loop (n : ℕ) : (List.range n).foldl
    (fun (result : ℤ) (i : ℕ) => result + (365 + if ISLEAP (1970 + i) then 1 else 0)) 0 =
      yearStart (1970 + n) := by
  induction n with
  | zero => rfl
  | succ n ih =>
    rw [List.range_succ, List.foldl_append, ih, Nat.cast_succ, ← add_assoc,
      Inn.Calendar.yearStart_succ, yearLength, List.foldl_cons, List.foldl_nil, ISLEAP_eq]
    by_cases h : IsLeap (1970 + n) <;> simp [h]

/-- The loop over the months. -/
theorem months_loop (years : ℤ) (m : ℕ) :
    (MONTHDAYS.take m).foldl (· + ·) years = years + monthStart false m := by
  have hsum : ∀ (l : List ℕ) (a : ℤ), (l.map fun n : ℕ => (n : ℤ)).foldl (· + ·) a = a + l.sum := by
    intro l
    induction l with
    | nil => exact fun a => (add_zero a).symm
    | cons n l ih =>
      intro a
      rw [List.map_cons, List.foldl_cons, ih, List.sum_cons, Nat.cast_add, add_assoc]
  have hdays : MONTHDAYS = (monthLengths false).map fun n : ℕ => (n : ℤ) := rfl
  rw [hdays, ← List.map_take, hsum]
  rfl

theorem monthStart_leap {m : ℕ} (h : m < 12) :
    monthStart true m = monthStart false m + if 1 < m then 1 else 0 := by
  revert h
  revert m
  decide

/-- The loops of `mktime_utc` count the days of the calendar. -/
theorem mktime_utc_eq {tm : Tm} {d : Date} (hd : d.Valid) (hyear : tm.tm_year + 1900 = d.year)
    (hmon : tm.tm_mon = d.month) (hmday : tm.tm_mday = d.day) (h1970 : 1970 ≤ d.year) :
    mktime_utc tm = 86400 * d.number + 3600 * tm.tm_hour + 60 * tm.tm_min + tm.tm_sec := by
  have hmonth := hd.month_lt
  have hpos := hd.day_pos
  have hyears : (1970 : ℤ) + ((d.year - 1970).toNat : ℕ) = d.year := by omega
  rw [mktime_utc, if_neg (by omega), hyear, years_loop, hyears, hmon, Int.toNat_natCast]
  dsimp only
  rw [months_loop, hmday, Calendar.Date.number, Calendar.Date.dayOfYear, ISLEAP_eq]
  by_cases hleap : IsLeap d.year
  · have hstart := monthStart_leap hmonth
    rw [decide_eq_true hleap, hstart]
    by_cases hfeb : 1 < d.month
    · rw [if_pos ⟨by omega, rfl⟩, if_pos hfeb]
      omega
    · rw [if_neg (by omega), if_neg hfeb]
      omega
  · rw [decide_eq_false hleap, if_neg (by simp)]
    omega

theorem monthLength_le {d : Date} (hd : d.Valid) :
    (d.monthLength : ℤ) ≤ MONTHDAYS.getD d.month 0 ∨
      d.month = 1 ∧ d.monthLength ≤ 29 ∧ IsLeap d.year := by
  have hall : ∀ leap : Bool, ∀ m < 12, ((monthLengths leap).getD m 0 : ℤ) ≤ MONTHDAYS.getD m 0 ∨
      m = 1 ∧ (monthLengths leap).getD m 0 ≤ 29 ∧ leap = true := by decide
  rcases hall (IsLeap d.year) d.month hd.month_lt with h | ⟨hm, hle, hleap⟩
  · exact .inl h
  · exact .inr ⟨hm, hle, of_decide_eq_true hleap⟩

/-- A civil time from 1970 on is valid. -/
theorem valid_tm_of_civil {tm : Tm} {d : Date} (hd : d.Valid)
    (hyear : tm.tm_year + 1900 = d.year) (hmon : tm.tm_mon = d.month) (hmday : tm.tm_mday = d.day)
    (h1970 : 1970 ≤ d.year) (htime : tm.tm_hour < 24 ∧ tm.tm_min < 60 ∧ tm.tm_sec < 60) :
    valid_tm tm = true := by
  have hmonth := hd.month_lt
  have hpos := hd.day_pos
  have hle := hd.day_le
  rw [valid_tm, if_neg (by omega), if_neg (by omega), hmon, Int.toNat_natCast, hyear, ISLEAP_eq,
    if_neg ?_, if_neg (by omega)]
  rintro ⟨hlong, hnot⟩
  rcases monthLength_le hd with h | ⟨hm, h29, hleap⟩
  · omega
  · rcases hnot with h | h | h
    · omega
    · omega
    · rw [decide_eq_true hleap] at h
      cases h

/-! ## The offset of the time zone -/

section Offset

variable {sys : System} {t offset : ℤ} {d g : Date}

/-- Where the offset is worked out, the days of the year tell the difference of the dates. -/
theorem local_tz_offset_eq (hlocal : IsCivil (sys.localtime t) (t + offset) d)
    (hgmt : IsCivil (sys.gmtime t) t g) (hgmtoff : (sys.localtime t).tm_gmtoff = offset)
    (hminutes : 60 ∣ offset) (hday : -86400 ≤ offset ∧ offset ≤ 86400) :
    local_tz_offset sys t false = offset := by
  obtain ⟨hneg, hpos⟩ := hday
  rw [local_tz_offset, Bool.and_false, if_neg Bool.false_ne_true]
  split
  · exact hgmtoff
  · obtain ⟨k, rfl⟩ := hminutes
    have hs := hlocal.seconds
    have hs' := hgmt.seconds
    obtain ⟨hhour, hmin, hsec⟩ := And.intro hlocal.hour (And.intro hlocal.min hlocal.sec)
    obtain ⟨hhour', hmin', hsec'⟩ := And.intro hgmt.hour (And.intro hgmt.min hgmt.sec)
    have hyday := hlocal.yday
    have hyday' := hgmt.yday
    have hlong : 365 ≤ yearLength d.year ∧ 365 ≤ yearLength g.year := by
      unfold yearLength
      constructor <;> split <;> omega
    have hnumber : d.number = g.number ∨ d.number = g.number + 1 ∨ g.number = d.number + 1 := by
      omega
    dsimp only
    rw [hyday, hyday']
    rcases hnumber with heq | hnext | hnext
    · obtain rfl := Inn.Calendar.number_inj hlocal.valid hgmt.valid heq
      rw [sub_self, if_neg (by decide), if_neg (by decide)]
      omega
    · rcases Inn.Calendar.next_day hgmt.valid hlocal.valid hnext with ⟨-, hdays⟩ | ⟨-, hzero, hend⟩
      · rw [if_neg (by omega), if_neg (by omega)]
        omega
      · rw [if_pos (by omega)]
        omega
    · rcases Inn.Calendar.next_day hlocal.valid hgmt.valid hnext with ⟨-, hdays⟩ | ⟨-, hzero, hend⟩
      · rw [if_neg (by omega), if_neg (by omega)]
        omega
      · rw [if_neg (by omega), if_pos (by omega)]
        omega

end Offset

/-! ## Numbers -/

/-- A number is printed with its digits. -/
theorem printed_eq {w v : ℕ} (hle : 10 ^ w ≤ v ∨ w = 0) (hlt : v < 10 ^ (w + 1)) :
    printed v = decimal (w + 1) v := by
  rw [printed]
  rcases hle with hle | rfl
  · rw [Nat.log_eq_of_pow_le_of_lt_pow hle hlt]
  · rw [Nat.log_of_lt (by omega)]

theorem formatInt_natCast (v : ℕ) : formatInt v = printed v := by
  rw [formatInt, if_neg (by omega), Int.toNat_natCast]

/-- The day of a month has one digit or two. -/
theorem formatInt_day {v : ℕ} (h : v < 100) :
    formatInt v = decimal (if v < 10 then 1 else 2) v := by
  rw [formatInt_natCast]
  split
  · exact printed_eq (.inr rfl) (by omega)
  · exact printed_eq (.inl (by omega)) (by omega)

theorem formatInt02_eq {v : ℕ} (h : v < 100) : formatInt02 v = decimal 2 v := by
  rw [formatInt02, formatInt_natCast]
  by_cases hten : v < 10
  · rw [if_pos (by omega), printed_eq (.inr rfl) (by omega)]
    have hzero : v / 10 = 0 := by omega
    rw [decimal, decimal, decimal, decimal, decimal, hzero]
    rfl
  · rw [if_neg (by omega), @printed_eq 1 v (.inl (by omega)) (by omega)]

/-- What is left does not begin with a digit. -/
def NoDigit (p : List UInt8) : Prop := ∀ c ∈ p.head?, ¬IsDigit c

/-- The loop over the digits in front of something else. -/
theorem numberLoop_digits {max count n : ℕ} {l rest : List UInt8} (hl : ∀ c ∈ l, IsDigit c)
    (hmax : count + l.length ≤ max) (hrest : count + l.length = max ∨ NoDigit rest) :
    numberLoop max count n (l ++ rest) = (count + l.length,
      ((l.foldl (fun n c => 10 * n + (c.toNat - 48)) n : ℕ) : ℤ), rest) := by
  induction l generalizing count n with
  | nil =>
    cases rest with
    | nil => rfl
    | cons c rest =>
      rw [List.nil_append, numberLoop, if_neg]
      · rfl
      · rintro ⟨hlt, hdigit⟩
        rcases hrest with hfull | hno
        · exact absurd hlt (by rw [← hfull]; exact Nat.lt_irrefl _)
        · exact hno c rfl hdigit
  | cons c l ih =>
    obtain ⟨hc, hl⟩ := List.forall_mem_cons.mp hl
    rw [List.length_cons] at hmax hrest
    have hvalue : (n : ℤ) * 10 + ((c.toNat : ℤ) - 48) = ((10 * n + (c.toNat - 48) : ℕ) : ℤ) := by
      have := hc.1
      omega
    rw [List.cons_append, numberLoop, if_pos ⟨by omega, hc⟩, hvalue,
      ih hl (by omega) (hrest.imp (fun h => by omega) id), List.foldl_cons, List.length_cons,
      Nat.add_right_comm, Nat.add_assoc]

/-- A number that was written is read. -/
theorem parse_number_decimal {w v min max : ℕ} {rest : List UInt8} (hv : v < 10 ^ w)
    (hmin : min ≤ w) (hmax : w ≤ max) (hrest : w = max ∨ NoDigit rest) :
    parse_number (decimal w v ++ rest) (number min max) = some ((v : ℤ), rest) := by
  have hloop := @numberLoop_digits max 0 0 (decimal w v) rest
    (fun c hc => isDigit_of_mem_decimal hc)
    (by rw [length_decimal]; omega)
    (by rw [length_decimal]; exact hrest.imp (fun h => by omega) id)
  change numberLoop max 0 0 _ = (_, ((decimalValue (decimal w v) : ℕ) : ℤ), _) at hloop
  rw [length_decimal, decimalValue_decimal_of_lt hv] at hloop
  change (if (numberLoop max 0 0 _).1 < min ∨ (numberLoop max 0 0 _).1 > max then none
    else some ((numberLoop max 0 0 _).2.1, (numberLoop max 0 0 _).2.2)) = _
  rw [hloop]
  have hcount : ¬(0 + w < min ∨ 0 + w > max) := by omega
  exact if_neg hcount

/-! ## White space and comments -/

/-- A byte that `skip_cfws` stops at. -/
def Stops (c : UInt8) : Prop := c ∉ ([32, 9, 10, 13, 40, 41, 92] : List UInt8)

instance (c : UInt8) : Decidable (Stops c) := inferInstanceAs (Decidable (_ ∉ _))

theorem not_alnum_of_mem : ∀ c ∈ ([32, 9, 10, 13, 40, 41, 92] : List UInt8),
    ¬IsDigit c ∧ isalpha c = false := by
  decide +kernel

theorem stops_of_digit {c : UInt8} (h : IsDigit c) : Stops c :=
  fun hmem => (not_alnum_of_mem c hmem).1 h

theorem stops_of_isalpha {c : UInt8} (h : isalpha c = true) : Stops c := by
  intro hmem
  rw [(not_alnum_of_mem c hmem).2] at h
  cases h

/-- In a comment such a byte is a part of it. -/
theorem skip_cfws_stops {c : UInt8} (h : Stops c) (nesting : ℕ) (p : List UInt8) :
    skip_cfws nesting (c :: p) = if nesting = 0 then c :: p else skip_cfws nesting p := by
  have hne : ∀ b ∈ ([32, 9, 10, 13, 40, 41, 92] : List UInt8), c ≠ b := fun b hb hc => h (hc ▸ hb)
  rw [skip_cfws.eq_def]
  dsimp only
  rw [if_neg, if_neg (hne 13 (by decide)), if_neg (hne 40 (by decide)),
    if_neg (hne 41 (by decide)), if_neg (hne 92 (by decide))]
  rintro (hc | hc | hc)
  · exact hne 32 (by decide) hc
  · exact hne 9 (by decide) hc
  · exact hne 10 (by decide) hc

/-- The name of a time zone has letters, digits and signs. -/
def ZoneName (name : List UInt8) : Prop :=
  ∀ c ∈ name, isalpha c = true ∨ IsDigit c ∨ c = 43 ∨ c = 45

instance (name : List UInt8) : Decidable (ZoneName name) :=
  inferInstanceAs (Decidable (∀ c ∈ name, _))

theorem skip_cfws_space (nesting : ℕ) (p : List UInt8) :
    skip_cfws nesting (32 :: p) = skip_cfws nesting p := by
  rw [skip_cfws.eq_def]
  exact if_pos (.inl rfl)

theorem skip_cfws_comment {name : List UInt8} (h : ZoneName name) :
    skip_cfws 0 ([32, 40] ++ name ++ [41]) = [] := by
  have hstops : ∀ c, isalpha c = true ∨ IsDigit c ∨ c = 43 ∨ c = 45 → Stops c := by
    rintro c (hc | hc | rfl | rfl)
    · exact stops_of_isalpha hc
    · exact stops_of_digit hc
    · decide
    · decide
  have hopen : ∀ p, skip_cfws 0 (40 :: p) = skip_cfws 1 p := fun p => by
    rw [skip_cfws.eq_def]
    rfl
  change skip_cfws 0 (32 :: 40 :: (name ++ [41])) = []
  rw [skip_cfws_space, hopen]
  induction name with
  | nil =>
    rw [List.nil_append, skip_cfws.eq_def]
    exact skip_cfws.eq_def 0 []
  | cons c name ih =>
    obtain ⟨hc, hname⟩ := List.forall_mem_cons.mp h
    rw [List.cons_append, skip_cfws_stops (hstops c hc), if_neg Nat.one_ne_zero]
    exact ih hname

/-! ## One rule -/

section Rules

variable {i w v min max : ℕ} {values : List ℤ} {rules : List Rule} {rest : List UInt8}

/-- A number is read, and what follows it is skipped. -/
theorem rule_number (hv : v < 10 ^ w) (hmin : min ≤ w) (hmax : w ≤ max)
    (hrest : w = max ∨ NoDigit rest) :
    parse_by_rule i values (number min max :: rules) (decimal w v ++ rest) =
      parse_by_rule (i + 1) (values.set i v) rules (skip_cfws 0 rest) := by
  rw [parse_by_rule]
  change (parse_number _ (number min max)).bind _ = _
  rw [parse_number_decimal hv hmin hmax hrest]
  rfl

theorem rule_delim (c : UInt8) :
    parse_by_rule i values (delim c :: rules) (c :: rest) =
      parse_by_rule (i + 1) values rules (skip_cfws 0 rest) := by
  rw [parse_by_rule]
  exact if_pos rfl

/-- A name of a table is looked up. -/
theorem rule_lookup {table : List (List UInt8)} {name : List UInt8} (hlength : name.length = 3)
    (hfind : table.findIdx? (sameName · name 3) = some v) :
    parse_by_rule i values (lookup table :: rules) (name ++ rest) =
      parse_by_rule (i + 1) (values.set i v) rules (skip_cfws 0 rest) := by
  have hsame : (sameName · (name ++ rest) 3) = (sameName · name 3) := by
    funext entry
    rw [sameName, sameName, ← hlength, List.take_left, List.take_length]
  rw [parse_by_rule]
  change (parse_lookup _ (lookup table)).bind _ = _
  rw [parse_lookup]
  change (((table.findIdx? (sameName · (name ++ rest) 3)).map _).bind _) = _
  rw [hsame, hfind]
  change parse_by_rule (i + 1) (values.set i v) rules (skip_cfws 0 ((name ++ rest).drop 3)) = _
  rw [← hlength, List.drop_left]

end Rules

/-- What begins with a number is not skipped. -/
theorem skip_cfws_decimal (w v : ℕ) (rest : List UInt8) :
    skip_cfws 0 (decimal (w + 1) v ++ rest) = decimal (w + 1) v ++ rest := by
  rcases hd : decimal (w + 1) v with _ | ⟨c, l⟩
  · have := length_decimal (w + 1) v
    rw [hd] at this
    cases this
  · have hc : IsDigit c := isDigit_of_mem_decimal (hd ▸ List.mem_cons_self)
    rw [List.cons_append, skip_cfws_stops (stops_of_digit hc), if_pos rfl]

/-- What begins with a letter is not skipped. -/
theorem skip_cfws_name {p : List UInt8} (h : p.head?.any isalpha = true) :
    skip_cfws 0 p = p := by
  rcases p with _ | ⟨c, p⟩
  · rfl
  · rw [skip_cfws_stops (stops_of_isalpha h), if_pos rfl]

/-- The names of a table are three letters, and each is found at its place. -/
theorem table_names : ∀ table ∈ [WEEKDAY, MONTH], ∀ i < table.length,
    (table.getD i []).length = 3 ∧ (table.getD i []).head?.any isalpha = true ∧
      table.findIdx? (sameName · (table.getD i []) 3) = some i := by
  decide

/-! ## The whole text -/

section Text

variable {wday mon day year hour min sec zh zm : ℕ} {rest : List UInt8}

theorem skip_cfws_colon (rest : List UInt8) : skip_cfws 0 (58 :: rest) = 58 :: rest := by
  rw [skip_cfws_stops (by decide), if_pos rfl]

/-- The date and the time without the seconds. -/
theorem parseBase_text (hwday : wday < 7) (hmon : mon < 12) (hday : day < 100)
    (hyear : year < 10000) (hhour : hour < 100) (hmin : min < 100) :
    parseBase (WEEKDAY.getD wday [] ++ 44 :: 32 :: (decimal (if day < 10 then 1 else 2) day ++
        32 :: (MONTH.getD mon [] ++ 32 :: (decimal 4 year ++ 32 :: (decimal 2 hour ++
          58 :: (decimal 2 min ++ 58 :: rest)))))) =
      some ([(wday : ℤ), 0, (day : ℤ), (mon : ℤ), (year : ℤ), (hour : ℤ), 0, (min : ℤ)],
        58 :: rest) := by
  obtain ⟨hlength, halpha, hfind⟩ := table_names WEEKDAY (by decide) wday hwday
  obtain ⟨hlength', halpha', hfind'⟩ := table_names MONTH (by decide) mon hmon
  have hhead : ∀ {name p : List UInt8}, name.head?.any isalpha = true →
      (name ++ p).head?.any isalpha = true := by
    intro name p h
    rcases name with _ | ⟨c, name⟩
    · cases h
    · exact h
  have hdigits : ∃ w, (if day < 10 then 1 else 2) = w + 1 ∧ day < 10 ^ (w + 1) ∧ w + 1 ≤ 2 := by
    split
    · exact ⟨0, rfl, by omega, by omega⟩
    · exact ⟨1, rfl, by omega, by omega⟩
  obtain ⟨w, hw, hday, hw2⟩ := hdigits
  rw [hw, parseBase, if_pos (hhead halpha), base_rule, rule_lookup hlength hfind,
    skip_cfws_stops (by decide), if_pos rfl, rule_delim, skip_cfws_space, skip_cfws_decimal,
    rule_number hday (by omega) hw2 (.inr fun c hc => by cases hc; decide), skip_cfws_space,
    skip_cfws_name (hhead halpha'), rule_lookup hlength' hfind', skip_cfws_space,
    skip_cfws_decimal, rule_number hyear (by decide) (by decide) (.inl rfl), skip_cfws_space,
    skip_cfws_decimal, rule_number hhour (by decide) (by decide) (.inl rfl), skip_cfws_colon,
    rule_delim, skip_cfws_decimal, rule_number hmin (by decide) (by decide) (.inl rfl),
    skip_cfws_colon]
  rfl

theorem two_values {values : List ℤ} (h : 2 ≤ values.length) :
    ∃ a b values', values = a :: b :: values' := by
  rcases values with _ | ⟨a, _ | ⟨b, values⟩⟩
  · cases h
  · exact absurd h (Nat.not_succ_le_self 1)
  · exact ⟨a, b, values, rfl⟩

theorem parseSeconds_text (values : List ℤ) (hlength : 2 ≤ values.length) (hsec : sec < 100)
    {sign : UInt8} (hsign : Stops sign) :
    ∃ values', parseSeconds values (58 :: (decimal 2 sec ++ 32 :: sign :: rest)) =
      some ((sec : ℤ), values', sign :: rest) ∧ 2 ≤ values'.length := by
  obtain ⟨a, b, values, rfl⟩ := two_values hlength
  refine ⟨a :: (sec : ℤ) :: values, ?_, hlength⟩
  rw [parseSeconds, if_pos List.head?_cons, seconds_rule, rule_delim, skip_cfws_decimal,
    rule_number hsec (by decide) (by decide) (.inl rfl), skip_cfws_space, skip_cfws_stops hsign,
    if_pos rfl]
  rfl

theorem parseZone_text (values : List ℤ) (hlength : 2 ≤ values.length) (hzh : zh < 100)
    (hzm : zm < 100) {sign : UInt8} (hsign : sign = 43 ∨ sign = 45) :
    parseZone values (sign :: (decimal 2 zh ++ (decimal 2 zm ++ rest))) =
      some (((zh : ℤ) * 60 + zm) * 60 * (if sign = 43 then 1 else -1), skip_cfws 0 rest) := by
  obtain ⟨a, b, values, rfl⟩ := two_values hlength
  rw [parseZone, if_pos (by rw [List.head?_cons]; rcases hsign with rfl | rfl <;> decide),
    List.tail_cons, zone_rule, rule_number hzh (by decide) (by decide) (.inl rfl),
    skip_cfws_decimal, rule_number hzm (by decide) (by decide) (.inl rfl)]
  simp only [List.head?_cons, Option.some.injEq]
  rfl

end Text

/-! ## The round trip -/

section RoundTrip

variable {tm : Tm} {s : ℤ} {d : Date} {sys : System} {t : ℤ}

/-- A day of a month has at most two digits. -/
theorem day_lt (hd : d.Valid) : d.day < 100 := by
  have hle := hd.day_le
  have hall : ∀ leap : Bool, ∀ m < 12, (monthLengths leap).getD m 0 ≤ 31 := by decide
  have := hall (IsLeap d.year) d.month hd.month_lt
  rw [Calendar.Date.monthLength] at hle
  omega

/-- The fields of a civil time are natural numbers. -/
theorem IsCivil.naturals (h : IsCivil tm s d) (hyear : 1970 ≤ d.year) :
    ∃ wday year hour min sec : ℕ, (tm.tm_wday = wday ∧ wday < 7) ∧
      (d.year = year ∧ 1900 + tm.tm_year = year) ∧ (tm.tm_hour = hour ∧ hour < 24) ∧
      (tm.tm_min = min ∧ min < 60) ∧ tm.tm_sec = sec ∧ sec < 60 := by
  obtain ⟨hhour, hmin, hsec⟩ := And.intro h.hour (And.intro h.min h.sec)
  have hwday := h.wday
  have htm_year := h.year
  exact ⟨tm.tm_wday.toNat, d.year.toNat, tm.tm_hour.toNat, tm.tm_min.toNat, tm.tm_sec.toNat,
    ⟨by omega, by omega⟩, ⟨by omega, by omega⟩, ⟨by omega, by omega⟩, ⟨by omega, by omega⟩,
    by omega, by omega⟩

/-- The parser reads the fields that `makedate` wrote. -/
theorem parsedate_dateText (h : IsCivil tm s d) (hyear : 1970 ≤ d.year ∧ d.year ≤ 9999)
    {zh zm : ℕ} (hzh : zh < 100) (hzm : zm < 100) (tz_sign : ℤ) {comment : List UInt8}
    (hcomment : skip_cfws 0 comment = []) :
    (dateText tm tz_sign zh zm).length ≤ 31 ∧
      parsedate_rfc5322 (dateText tm tz_sign zh zm ++ comment) =
        s - ((zh : ℤ) * 60 + zm) * 60 * (if tz_sign > 0 then 1 else -1) := by
  have hmonth := h.valid.month_lt
  have hday := day_lt h.valid
  obtain ⟨wday, year, hour, min, sec, ⟨hwday, hwday7⟩, ⟨hyearNat, htm_year⟩, ⟨hhour, hhour24⟩,
    ⟨hmin, hmin60⟩, hsec, hsec60⟩ := h.naturals hyear.1
  have hfour : formatInt year = decimal 4 year := by
    rw [formatInt_natCast]
    exact @printed_eq 3 year (.inl (by omega)) (by omega)
  have htext : dateText tm tz_sign zh zm ++ comment =
      WEEKDAY.getD wday [] ++ 44 :: 32 :: (decimal (if d.day < 10 then 1 else 2) d.day ++
        32 :: (MONTH.getD d.month [] ++ 32 :: (decimal 4 year ++ 32 :: (decimal 2 hour ++
          58 :: (decimal 2 min ++ 58 :: (decimal 2 sec ++ 32 :: (if tz_sign > 0 then 43 else 45) ::
            (decimal 2 zh ++ (decimal 2 zm ++ comment)))))))) := by
    rw [dateText, hwday, h.mday, h.mon, htm_year, hhour, hmin, hsec, Int.toNat_natCast,
      Int.toNat_natCast, formatInt_day hday, hfour, formatInt02_eq (by omega),
      formatInt02_eq (by omega), formatInt02_eq (by omega), formatInt02_eq hzh, formatInt02_eq hzm]
    simp only [List.append_assoc, List.cons_append, List.nil_append]
  constructor
  · have hlength := congrArg List.length htext
    obtain ⟨hW, -, -⟩ := table_names WEEKDAY (by decide) wday hwday7
    obtain ⟨hM, -, -⟩ := table_names MONTH (by decide) d.month hmonth
    simp only [List.length_append, List.length_cons, length_decimal, hW, hM] at hlength
    split at hlength <;> omega
  · have hsign : Stops (if tz_sign > 0 then 43 else 45) ∧
        ((if tz_sign > 0 then (43 : UInt8) else 45) = 43 ∨
          (if tz_sign > 0 then (43 : UInt8) else 45) = 45) ∧
        ((if (if tz_sign > 0 then (43 : UInt8) else 45) = 43 then (1 : ℤ) else -1) =
          if tz_sign > 0 then 1 else -1) := by
      split <;> decide
    obtain ⟨hstops, hplus, hone⟩ := hsign
    obtain ⟨W, hW⟩ : ∃ W, WEEKDAY.getD wday [] = W := ⟨_, rfl⟩
    obtain ⟨-, halpha, -⟩ := table_names WEEKDAY (by decide) wday hwday7
    have hskip : ∀ p, skip_cfws 0 (WEEKDAY.getD wday [] ++ p) = WEEKDAY.getD wday [] ++ p := by
      intro p
      refine skip_cfws_name ?_
      rw [hW] at halpha ⊢
      rcases W with _ | ⟨c, W⟩
      · cases halpha
      · exact halpha
    have hlong : 2 ≤ [(wday : ℤ), 0, (d.day : ℤ), (d.month : ℤ), (year : ℤ), (hour : ℤ), 0,
        (min : ℤ)].length := Nat.le_add_left 2 6
    obtain ⟨values, hseconds, hvalues⟩ := @parseSeconds_text sec
      (decimal 2 zh ++ (decimal 2 zm ++ comment)) _ hlong (by omega) _ hstops
    rw [htext, parsedate_rfc5322, hskip,
      parseBase_text hwday7 hmonth hday (by omega) (by omega) (by omega)]
    dsimp only [Option.bind_some]
    rw [hseconds]
    dsimp only [Option.bind_some]
    rw [parseZone_text values hvalues hzh hzm hplus, hcomment, hone]
    change (if skip_cfws 0 [] ≠ [] then -1
      else if !valid_tm ⟨sec, min, hour, d.day, d.month, fixYear year, 0, 0, 0, 0, []⟩ then -1
      else if mktime_utc ⟨sec, min, hour, d.day, d.month, fixYear year, 0, 0, 0, 0, []⟩ = -1 then -1
      else mktime_utc ⟨sec, min, hour, d.day, d.month, fixYear year, 0, 0, 0, 0, []⟩ - _) = _
    have hfix : fixYear year + 1900 = d.year := by
      rw [fixYear, if_neg (by omega), if_pos (by omega)]
      omega
    have hvalid := @valid_tm_of_civil ⟨sec, min, hour, d.day, d.month, fixYear year, 0, 0, 0, 0, []⟩
      d h.valid hfix rfl rfl hyear.1
      ⟨Int.ofNat_lt.mpr hhour24, Int.ofNat_lt.mpr hmin60, Int.ofNat_lt.mpr hsec60⟩
    have hmktime := @mktime_utc_eq ⟨sec, min, hour, d.day, d.month, fixYear year, 0, 0, 0, 0, []⟩
      d h.valid hfix rfl rfl hyear.1
    have hs := h.seconds
    rw [hhour, hmin, hsec] at hs
    have hnumber : 0 ≤ d.number := by
      have := Calendar.yearStart_mono hyear.1
      rw [Calendar.Date.number]
      change 0 ≤ yearStart d.year at this
      omega
    have hnil : skip_cfws 0 [] = [] := skip_cfws.eq_def 0 []
    rw [if_neg (not_not.mpr hnil), hvalid, if_neg (by decide), hmktime, ← hs]
    exact if_neg (by omega)

/-- What `makedate` writes: the date, and perhaps a comment. -/
theorem makedate_eq (ht : 0 ≤ t) {localTime : Bool} {buflen : ℕ} (hbuflen : 32 ≤ buflen)
    {tz_sign zh zm : ℤ} (htm : (if localTime then sys.localtime t else sys.gmtime t) = tm)
    (hsign : (if localTime then if local_tz_offset sys t false < 0 then -1 else 1 else -1) =
      tz_sign)
    (hzh : (if localTime then local_tz_offset sys t false * tz_sign / 3600 else 0) = zh)
    (hzm : (if localTime then local_tz_offset sys t false * tz_sign % 3600 / 60 else 0) = zm)
    (h24 : zh ≤ 24) (hlength : (dateText tm tz_sign zh zm).length ≤ 31)
    (hzone : ∀ name, zoneName sys localTime tm = some name → ZoneName name) :
    ∃ comment, makedate sys t localTime buflen = some (dateText tm tz_sign zh zm ++ comment) ∧
      skip_cfws 0 comment = [] := by
  have hnil : skip_cfws 0 [] = [] := skip_cfws.eq_def 0 []
  have hnow : ¬t = -1 := by omega
  rw [makedate, if_neg (by omega), if_neg hnow, decide_eq_false hnow]
  dsimp only
  rw [htm, hsign, hzh, hzm, if_neg (by omega), List.take_of_length_le (by omega)]
  rcases hname : zoneName sys localTime tm with _ | name
  · exact ⟨[], by rw [List.append_nil], hnil⟩
  · dsimp only
    split
    · refine ⟨[32, 40] ++ name ++ [41], ?_, skip_cfws_comment (hzone name hname)⟩
      rw [← List.append_assoc, ← List.append_assoc]
    · exact ⟨[], by rw [List.append_nil], hnil⟩

/-- The date and the time of `NEWNEWS`. -/
def nntpDate (tm : Tm) : List UInt8 :=
  decimal 4 (tm.tm_year + 1900).toNat ++ decimal 2 (tm.tm_mon + 1).toNat ++
    decimal 2 tm.tm_mday.toNat

def nntpHour (tm : Tm) : List UInt8 :=
  decimal 2 tm.tm_hour.toNat ++ decimal 2 tm.tm_min.toNat ++ decimal 2 tm.tm_sec.toNat

theorem twoDigits_eq {p : List UInt8} {i a b : ℕ} (ha : p.getD i 0 = digit a)
    (hb : p.getD (i + 1) 0 = digit b) : twoDigits p i = ((a % 10 * 10 + b % 10 : ℕ) : ℤ) := by
  rw [twoDigits, ha, hb, digit_toNat, digit_toNat]
  omega

theorem all_digits {l : List UInt8} (h : ∀ c ∈ l, IsDigit c) : l.all (IsDigit ·) = true :=
  List.all_eq_true.mpr fun c hc => decide_eq_true (h c hc)

theorem parsedate_nntp_eq (h : IsCivil tm s d) (hyear : 1970 ≤ d.year ∧ d.year ≤ 9999) :
    parsedate_nntp sys (nntpDate tm) (nntpHour tm) false = s := by
  have hmonth := h.valid.month_lt
  have hday := day_lt h.valid
  obtain ⟨wday, year, hour, min, sec, -, ⟨hyearNat, -⟩, ⟨hhour, hhour24⟩, ⟨hmin, hmin60⟩, hsec,
    hsec60⟩ := h.naturals hyear.1
  have hdate : nntpDate tm = decimal 4 year ++ decimal 2 (d.month + 1) ++ decimal 2 d.day := by
    rw [nntpDate, h.year, h.mon, h.mday, hyearNat]
    rfl
  have hhms : nntpHour tm = decimal 2 hour ++ decimal 2 min ++ decimal 2 sec := by
    rw [nntpHour, hhour, hmin, hsec]
    rfl
  have hdigits : ∀ c ∈ nntpDate tm, IsDigit c := by
    intro c hc
    rw [hdate, List.mem_append, List.mem_append] at hc
    rcases hc with (hc | hc) | hc <;> exact isDigit_of_mem_decimal hc
  have hdigits' : ∀ c ∈ nntpHour tm, IsDigit c := by
    intro c hc
    rw [hhms, List.mem_append, List.mem_append] at hc
    rcases hc with (hc | hc) | hc <;> exact isDigit_of_mem_decimal hc
  have hlength : (nntpDate tm).length = 8 := by
    rw [hdate, List.length_append, List.length_append, length_decimal, length_decimal,
      length_decimal]
  have hlength' : (nntpHour tm).length = 6 := by
    rw [hhms, List.length_append, List.length_append, length_decimal, length_decimal,
      length_decimal]
  have hcentury : ((nntpDate tm).getD 0 0).toNat = 48 + year / 10 / 10 / 10 % 10 ∧
      ((nntpDate tm).getD 1 0).toNat = 48 + year / 10 / 10 % 10 := by
    rw [hdate]
    exact ⟨digit_toNat _, digit_toNat _⟩
  have hYY : twoDigits ((nntpDate tm).drop 2) 0 = _ :=
    @twoDigits_eq _ 0 (year / 10) year (by rw [hdate]; rfl) (by rw [hdate]; rfl)
  have hMM : twoDigits ((nntpDate tm).drop 2) 2 = _ :=
    @twoDigits_eq _ 2 ((d.month + 1) / 10) (d.month + 1) (by rw [hdate]; rfl) (by rw [hdate]; rfl)
  have hDD : twoDigits ((nntpDate tm).drop 2) 4 = _ :=
    @twoDigits_eq _ 4 (d.day / 10) d.day (by rw [hdate]; rfl) (by rw [hdate]; rfl)
  have hhh : twoDigits (nntpHour tm) 0 = _ :=
    @twoDigits_eq _ 0 (hour / 10) hour (by rw [hhms]; rfl) (by rw [hhms]; rfl)
  have hmm : twoDigits (nntpHour tm) 2 = _ :=
    @twoDigits_eq _ 2 (min / 10) min (by rw [hhms]; rfl) (by rw [hhms]; rfl)
  have hss : twoDigits (nntpHour tm) 4 = _ :=
    @twoDigits_eq _ 4 (sec / 10) sec (by rw [hhms]; rfl) (by rw [hhms]; rfl)
  have htwo : ∀ v, v < 100 → v / 10 % 10 * 10 + v % 10 = v := fun v hv => by omega
  rw [htwo _ (by omega)] at hMM hDD hhh hmm hss
  rw [parsedate_nntp, hlength, hlength', if_neg (by omega), all_digits hdigits,
    all_digits hdigits', if_neg (by decide)]
  dsimp only
  have hmon : ((d.month + 1 : ℕ) : ℤ) - 1 = d.month := by omega
  have hyear_eq : ((year / 10 % 10 * 10 + year % 10 : ℕ) : ℤ) +
      (((48 + year / 10 / 10 / 10 % 10 : ℕ) - 48) * 1000 +
        ((48 + year / 10 / 10 % 10 : ℕ) - 48) * 100) - 1900 = (year : ℤ) - 1900 := by omega
  rw [if_pos rfl, hYY, hMM, hDD, hhh, hmm, hss, hcentury.1, hcentury.2, hmon, hyear_eq]
  have hfields : (year : ℤ) - 1900 + 1900 = d.year := by omega
  have hvalid := @valid_tm_of_civil ⟨sec, min, hour, d.day, d.month, year - 1900, 0, 0, -1, 0, []⟩
    d h.valid hfields rfl rfl hyear.1
      ⟨Int.ofNat_lt.mpr hhour24, Int.ofNat_lt.mpr hmin60, Int.ofNat_lt.mpr hsec60⟩
  have hmktime := @mktime_utc_eq ⟨sec, min, hour, d.day, d.month, year - 1900, 0, 0, -1, 0, []⟩
    d h.valid hfields rfl rfl hyear.1
  have hs := h.seconds
  rw [hhour, hmin, hsec] at hs
  rw [hvalid, if_neg (by decide), if_neg Bool.false_ne_true, hmktime, hs]

/-- What is asked of the C library: the civil times, and names of time zones. -/
structure Faithful (sys : System) (t offset : ℤ) : Prop where
  gmtime : ∃ g, IsCivil (sys.gmtime t) t g
  localtime : ∃ d, IsCivil (sys.localtime t) (t + offset) d
  gmtoff : (sys.localtime t).tm_gmtoff = offset
  tm_zone : ZoneName (sys.localtime t).tm_zone
  tzname : ZoneName sys.tzname.1 ∧ ZoneName sys.tzname.2

/-- The time of the date that is written for `t` is `t`, with and without the comment. -/
def GivesBack (sys : System) (t : ℤ) (localTime : Bool) : Prop :=
  ∀ buflen, 32 ≤ buflen →
    ∃ buff, makedate sys t localTime buflen = some buff ∧ parsedate_rfc5322 buff = t

/-- From the beginning of 1970 on the years are not before 1970. -/
theorem year_of_nonneg (h : IsCivil tm t d) (ht : 0 ≤ t) : 1970 ≤ d.year := by
  by_contra hlt
  have hbefore := Calendar.yearStart_mono (show d.year + 1 ≤ 1970 by omega)
  have hin := h.valid.in_year.2
  change yearStart (d.year + 1) ≤ 0 at hbefore
  have hs := h.seconds
  obtain ⟨hhour, hmin, hsec⟩ := And.intro h.hour (And.intro h.min h.sec)
  omega

theorem gives_back_utc {g : Date} (ht : 0 ≤ t) (h : IsCivil (sys.gmtime t) t g)
    (hyear : g.year ≤ 9999) : GivesBack sys t false := by
  intro buflen hbuflen
  have hrange := And.intro (year_of_nonneg h ht) hyear
  obtain ⟨hlength, -⟩ := @parsedate_dateText _ t g h hrange 0 0 (by decide) (by decide) (-1) []
    (skip_cfws.eq_def 0 [])
  obtain ⟨comment, hmakedate, hcomment⟩ := @makedate_eq (sys.gmtime t) sys t ht false buflen hbuflen
    (-1) 0 0 rfl rfl rfl rfl (by decide) hlength fun name hname => by
      obtain rfl := Option.some.inj hname
      decide +kernel
  obtain ⟨-, hparse⟩ := @parsedate_dateText _ t g h hrange 0 0 (by decide) (by decide) (-1) comment
    hcomment
  refine ⟨_, hmakedate, hparse.trans ?_⟩
  rw [if_neg (by decide)]
  omega

theorem gives_back_local {offset : ℤ} (ht : 0 ≤ t) (hsys : Faithful sys t offset)
    (hminutes : 60 ∣ offset) (hday : -86400 ≤ offset ∧ offset ≤ 86400)
    (h : IsCivil (sys.localtime t) (t + offset) d) (hyear : 1970 ≤ d.year ∧ d.year ≤ 9999) :
    GivesBack sys t true := by
  intro buflen hbuflen
  obtain ⟨g, hg⟩ := hsys.gmtime
  have hoffset := local_tz_offset_eq h hg hsys.gmtoff hminutes hday
  obtain ⟨sign, hsign, hone⟩ : ∃ sign : ℤ, (if offset < 0 then -1 else 1) = sign ∧
      (sign = 1 ∧ 0 ≤ offset ∨ sign = -1 ∧ offset < 0) := by
    by_cases hneg : offset < 0
    · exact ⟨-1, if_pos hneg, .inr ⟨rfl, hneg⟩⟩
    · exact ⟨1, if_neg hneg, .inl ⟨rfl, by omega⟩⟩
  obtain ⟨k, rfl⟩ := hminutes
  obtain ⟨zh, hzh⟩ : ∃ n : ℕ, 60 * k * sign / 3600 = n := Int.eq_ofNat_of_zero_le (by
    rcases hone with ⟨rfl, hk⟩ | ⟨rfl, hk⟩ <;> omega)
  obtain ⟨zm, hzm⟩ : ∃ n : ℕ, 60 * k * sign % 3600 / 60 = n := Int.eq_ofNat_of_zero_le (by omega)
  have h24 : zh ≤ 24 := by rcases hone with ⟨rfl, hk⟩ | ⟨rfl, hk⟩ <;> omega
  have h60 : zm < 60 := by omega
  obtain ⟨hlength, -⟩ := @parsedate_dateText _ _ d h hyear zh zm (by omega) (by omega) sign []
    (skip_cfws.eq_def 0 [])
  obtain ⟨comment, hmakedate, hcomment⟩ := @makedate_eq (sys.localtime t) sys t ht true buflen
    hbuflen sign zh zm rfl (by rw [hoffset]; exact hsign) (by rw [hoffset]; exact hzh)
    (by rw [hoffset]; exact hzm) (by omega) hlength fun name hname => by
      rw [zoneName, if_neg (by decide)] at hname
      split at hname
      · obtain rfl := Option.some.inj hname
        exact hsys.tm_zone
      · split at hname
        · obtain rfl := Option.some.inj hname
          split
          · exact hsys.tzname.2
          · exact hsys.tzname.1
        · cases hname
  obtain ⟨-, hparse⟩ := @parsedate_dateText _ _ d h hyear zh zm (by omega) (by omega) sign comment
    hcomment
  refine ⟨_, hmakedate, ?_⟩
  rw [hparse]
  rcases hone with ⟨rfl, hk⟩ | ⟨rfl, hk⟩
  · rw [if_pos (by decide)]
    omega
  · rw [if_neg (by decide)]
    omega

end RoundTrip

/-- Dates give their times back, if the year that is written is not before 1970 and has four
digits. -/
theorem date_round_trip (sys : System) (t offset : ℤ) (ht : 0 ≤ t) (hsys : Faithful sys t offset)
    (hminutes : 60 ∣ offset) (hday : -86400 ≤ offset ∧ offset ≤ 86400)
    (hyear : (sys.gmtime t).tm_year + 1900 ≤ 9999) :
    GivesBack sys t false ∧
      (1970 ≤ (sys.localtime t).tm_year + 1900 ∧ (sys.localtime t).tm_year + 1900 ≤ 9999 →
        GivesBack sys t true) ∧
      parsedate_nntp sys (nntpDate (sys.gmtime t)) (nntpHour (sys.gmtime t)) false = t := by
  obtain ⟨g, hg⟩ := hsys.gmtime
  obtain ⟨d, hd⟩ := hsys.localtime
  rw [hg.year] at hyear
  rw [hd.year]
  exact ⟨gives_back_utc ht hg hyear, gives_back_local ht hsys hminutes hday hd,
    parsedate_nntp_eq hg ⟨year_of_nonneg hg ht, hyear⟩⟩

/-- A C library that knows one time. -/
def oneTime (gmt localTm : Tm) : System where
  HAVE_STRUCT_TM_TM_GMTOFF := true
  HAVE_STRUCT_TM_TM_ZONE := true
  HAVE_DECL_ALTZONE := false
  HAVE_TZNAME := true
  time := 0
  gmtime := fun _ => gmt
  localtime := fun _ => localTm
  mktime := fun _ => -1
  timezone := 0
  altzone := 0
  tzname := ([], [])

/-- The third of March 1973 in Los Angeles. -/
def losAngeles : System :=
  oneTime ⟨40, 46, 9, 3, 2, 73, 6, 61, 0, 0, ascii ['U', 'T', 'C']⟩
    ⟨40, 46, 1, 3, 2, 73, 6, 61, 0, -28800, ascii ['P', 'S', 'T']⟩

theorem losAngeles_faithful : Faithful losAngeles 100000000 (-28800) where
  gmtime := ⟨⟨1973, 2, 3⟩, ⟨by decide, by decide, by decide⟩, rfl, rfl, rfl, by decide, by decide,
    by decide, by decide, by decide, by decide⟩
  localtime := ⟨⟨1973, 2, 3⟩, ⟨by decide, by decide, by decide⟩, rfl, rfl, rfl, by decide,
    by decide, by decide, by decide, by decide, by decide⟩
  gmtoff := rfl
  tm_zone := by decide +kernel
  tzname := ⟨by decide +kernel, by decide +kernel⟩

theorem date_round_trip_losAngeles :
    GivesBack losAngeles 100000000 false ∧ GivesBack losAngeles 100000000 true ∧
      parsedate_nntp losAngeles (nntpDate (losAngeles.gmtime 100000000))
        (nntpHour (losAngeles.gmtime 100000000)) false = 100000000 := by
  obtain ⟨hutc, hlocal, hnntp⟩ := date_round_trip losAngeles 100000000 (-28800) (by decide)
    losAngeles_faithful (by decide) (by decide) (by decide)
  exact ⟨hutc, hlocal (by decide), hnntp⟩

/-- The beginning of 1970 in New York. -/
def newYork : System :=
  oneTime ⟨0, 0, 0, 1, 0, 70, 4, 0, 0, 0, ascii ['U', 'T', 'C']⟩
    ⟨0, 0, 19, 31, 11, 69, 3, 364, 0, -18000, ascii ['E', 'S', 'T']⟩

theorem newYork_faithful : Faithful newYork 0 (-18000) where
  gmtime := ⟨⟨1970, 0, 1⟩, ⟨by decide, by decide, by decide⟩, rfl, rfl, rfl, by decide, by decide,
    by decide, by decide, by decide, by decide⟩
  localtime := ⟨⟨1969, 11, 31⟩, ⟨by decide, by decide, by decide⟩, rfl, rfl, rfl, by decide,
    by decide, by decide, by decide, by decide, by decide⟩
  gmtoff := rfl
  tm_zone := by decide +kernel
  tzname := ⟨by decide +kernel, by decide +kernel⟩

/-- The first hours of 1970 are written with the year 1969 there, which is not valid. -/
theorem new_year_in_america : ¬∀ (sys : System) (t offset : ℤ), 0 ≤ t → Faithful sys t offset →
    60 ∣ offset → -86400 ≤ offset ∧ offset ≤ 86400 → (sys.gmtime t).tm_year + 1900 ≤ 9999 →
    GivesBack sys t false ∧ GivesBack sys t true ∧
      parsedate_nntp sys (nntpDate (sys.gmtime t)) (nntpHour (sys.gmtime t)) false = t := by
  intro h
  obtain ⟨-, hlocal, -⟩ := h newYork 0 (-18000) (by decide) newYork_faithful (by decide)
    (by decide) (by decide)
  obtain ⟨buff, hmakedate, hparse⟩ := hlocal 32 (Nat.le_refl _)
  have hdate : (makedate newYork 0 true 32).map parsedate_rfc5322 = some (-1) := by
    decide
  rw [hmakedate, Option.map_some, hparse] at hdate
  cases hdate

end Inn.Libinn.Date
