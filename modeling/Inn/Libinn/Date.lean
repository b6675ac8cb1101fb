import Mathlib.Algebra.Ring.Int.Defs
import Inn.Decimal

/-!
# Inn.Libinn.Date — writing and parsing dates

The functions of `date.c`, and `skip_cfws`. A string is the list of the bytes before its NUL, a
pointer into it the list of those that are left. What the C library knows about time is given by
`System`. The rules that only the lax parser has are left out.
-/

namespace Inn.Libinn.Date

/-! ## Tables -/

/-- The bytes of a name. -/
def ascii (name : List Char) : List UInt8 := name.map fun c => UInt8.ofNat c.toNat

def WEEKDAY : List (List UInt8) :=
  [['S', 'u', 'n'], ['M', 'o', 'n'], ['T', 'u', 'e'], ['W', 'e', 'd'], ['T', 'h', 'u'],
    ['F', 'r', 'i'], ['S', 'a', 't']].map ascii

def MONTH : List (List UInt8) :=
  [['J', 'a', 'n'], ['F', 'e', 'b'], ['M', 'a', 'r'], ['A', 'p', 'r'], ['M', 'a', 'y'],
    ['J', 'u', 'n'], ['J', 'u', 'l'], ['A', 'u', 'g'], ['S', 'e', 'p'], ['O', 'c', 't'],
    ['N', 'o', 'v'], ['D', 'e', 'c']].map ascii

/-- Number of days in a month. -/
def MONTHDAYS : List ℤ := [31, 28, 31, 30, 31, 30, 31, 31, 30, 31, 30, 31]

/-- The time zones that are not numeric. -/
def ZONE_OFFSET : List (List UInt8 × ℤ) :=
  [(ascii ['U', 'T'], 0), (ascii ['G', 'M', 'T'], 0),
    (ascii ['E', 'D', 'T'], -4 * 60 * 60), (ascii ['E', 'S', 'T'], -5 * 60 * 60),
    (ascii ['C', 'D', 'T'], -5 * 60 * 60), (ascii ['C', 'S', 'T'], -6 * 60 * 60),
    (ascii ['M', 'D', 'T'], -6 * 60 * 60), (ascii ['M', 'S', 'T'], -7 * 60 * 60),
    (ascii ['P', 'D', 'T'], -7 * 60 * 60), (ascii ['P', 'S', 'T'], -8 * 60 * 60)]

/-- `ISLEAP`. -/
def ISLEAP (year : ℤ) : Bool := year % 4 == 0 && (year % 100 != 0 || year % 400 == 0)

/-! ## The C library -/

/-- `struct tm`. -/
structure Tm where
  tm_sec : ℤ
  tm_min : ℤ
  tm_hour : ℤ
  tm_mday : ℤ
  tm_mon : ℤ
  tm_year : ℤ
  tm_wday : ℤ
  tm_yday : ℤ
  tm_isdst : ℤ
  tm_gmtoff : ℤ
  tm_zone : List UInt8

/-- What the build found out about the C library, and what this knows about time. -/
structure System where
  HAVE_STRUCT_TM_TM_GMTOFF : Bool
  HAVE_STRUCT_TM_TM_ZONE : Bool
  HAVE_DECL_ALTZONE : Bool
  HAVE_TZNAME : Bool
  time : ℤ
  gmtime : ℤ → Tm
  localtime : ℤ → Tm
  mktime : Tm → ℤ
  timezone : ℤ
  altzone : ℤ
  tzname : List UInt8 × List UInt8

/-- `isalpha`. -/
def isalpha (c : UInt8) : Bool := decide (65 ≤ c ∧ c ≤ 90) || decide (97 ≤ c ∧ c ≤ 122)

/-- `tolower`. -/
def tolower (c : UInt8) : UInt8 := if 65 ≤ c ∧ c ≤ 90 then c + 32 else c

/-- `strncasecmp` finds no difference. -/
def sameName (a b : List UInt8) (n : ℕ) : Bool :=
  (a.take n).map tolower == (b.take n).map tolower

/-- `%d`. -/
def formatInt (n : ℤ) : List UInt8 := if n < 0 then 45 :: printed n.natAbs else printed n.toNat

/-- `%02d`. -/
def formatInt02 (n : ℤ) : List UInt8 := if 0 ≤ n ∧ n < 10 then 48 :: formatInt n else formatInt n

/-! ## Writing a date -/

/-- `local_tz_offset`. -/
def local_tz_offset (sys : System) (date : ℤ) (current : Bool) : ℤ :=
  let tm := sys.localtime date
  if !sys.HAVE_STRUCT_TM_TM_GMTOFF && sys.HAVE_DECL_ALTZONE && current then
    if tm.tm_isdst > 0 then -sys.altzone else -sys.timezone
  else if sys.HAVE_STRUCT_TM_TM_GMTOFF then tm.tm_gmtoff
  else
    let gmt := sys.gmtime date
    let days := tm.tm_yday - gmt.tm_yday
    -- the years differ where the days are far apart
    let hours := if days < -1 then 24 else if days > 1 then -24 else days * 24
    ((hours + (tm.tm_hour - gmt.tm_hour)) * 60 + (tm.tm_min - gmt.tm_min)) * 60

/-- The date without the comment: the `snprintf` of `makedate`. -/
def dateText (tm : Tm) (tz_sign tz_hour_offset tz_min_offset : ℤ) : List UInt8 :=
  WEEKDAY.getD tm.tm_wday.toNat [] ++ [44, 32] ++ formatInt tm.tm_mday ++ [32] ++
    MONTH.getD tm.tm_mon.toNat [] ++ [32] ++ formatInt (1900 + tm.tm_year) ++ [32] ++
    formatInt02 tm.tm_hour ++ [58] ++ formatInt02 tm.tm_min ++ [58] ++ formatInt02 tm.tm_sec ++
    [32] ++ [if tz_sign > 0 then 43 else 45] ++ formatInt02 tz_hour_offset ++
    formatInt02 tz_min_offset

/-- The abbreviation of the time zone. -/
def zoneName (sys : System) (localTime : Bool) (tm : Tm) : Option (List UInt8) :=
  if !localTime then some (ascii ['U', 'T', 'C'])
  else if sys.HAVE_STRUCT_TM_TM_ZONE then some tm.tm_zone
  else if sys.HAVE_TZNAME then some (if tm.tm_isdst > 0 then sys.tzname.2 else sys.tzname.1)
  else none

/-- `makedate`: what is in the buffer, if it is long enough. -/
def makedate (sys : System) (date : ℤ) (localTime : Bool) (buflen : ℕ) : Option (List UInt8) :=
  if buflen < 32 then none
  else
    let realdate := if date = -1 then sys.time else date
    let tm := if localTime then sys.localtime realdate else sys.gmtime realdate
    let offset := local_tz_offset sys realdate (date = -1)
    let tz_sign := if localTime then if offset < 0 then -1 else 1 else -1
    let tz_hour_offset := if localTime then offset * tz_sign / 3600 else 0
    let tz_min_offset := if localTime then offset * tz_sign % 3600 / 60 else 0
    if tz_hour_offset > 24 then none
    else
      let buff := (dateText tm tz_sign tz_hour_offset tz_min_offset).take (buflen - 1)
      match zoneName sys localTime tm with
      | none => some buff
      | some tz_name =>
        if buff.length + 4 + tz_name.length ≤ buflen then
          some (buff ++ [32, 40] ++ tz_name ++ [41])
        else some buff

/-! ## The time of a date -/

/-- `mktime_utc`. -/
def mktime_utc (tm : Tm) : ℤ :=
  if tm.tm_mon < 0 ∨ tm.tm_mon > 11 ∨ tm.tm_year < 70 then -1
  else
    let years := (List.range (tm.tm_year + 1900 - 1970).toNat).foldl
      (fun (result : ℤ) (i : ℕ) => result + (365 + if ISLEAP (1970 + i) then 1 else 0)) 0
    let months := (MONTHDAYS.take tm.tm_mon.toNat).foldl (· + ·) years
    let days := if tm.tm_mon > 1 ∧ ISLEAP (tm.tm_year + 1900) then months + 1 else months
    60 * (60 * (24 * (days + tm.tm_mday - 1) + tm.tm_hour) + tm.tm_min) + tm.tm_sec

/-- `valid_tm`. -/
def valid_tm (tm : Tm) : Bool :=
  if tm.tm_sec > 60 ∨ tm.tm_min > 59 ∨ tm.tm_hour > 23 then false
  else if tm.tm_mday < 1 ∨ tm.tm_mon < 0 ∨ tm.tm_mon > 11 then false
  else if tm.tm_mday > MONTHDAYS.getD tm.tm_mon.toNat 0 ∧
      (tm.tm_mon ≠ 1 ∨ tm.tm_mday > 29 ∨ ISLEAP (tm.tm_year + 1900) = false) then false
  else if tm.tm_year < 70 then false
  else true

/-- The number of two digits of a string. -/
def twoDigits (p : List UInt8) (i : ℕ) : ℤ :=
  ((p.getD i 0).toNat - 48) * 10 + (p.getD (i + 1) 0).toNat - 48

/-- `parsedate_nntp`. -/
def parsedate_nntp (sys : System) (date hour : List UInt8) (localTime : Bool) : ℤ :=
  if date.length ≠ 6 ∧ date.length ≠ 8 ∨ hour.length ≠ 6 then -1
  else if ¬date.all (IsDigit ·) ∨ ¬hour.all (IsDigit ·) then -1
  else
    let p := date.drop (date.length - 6)
    let year := twoDigits p 0
    let tm_year :=
      if date.length = 8 then
        year + (((date.getD 0 0).toNat - 48) * 1000 + ((date.getD 1 0).toNat - 48) * 100) - 1900
      else
        let current := if localTime then sys.localtime sys.time else sys.gmtime sys.time
        let century := current.tm_year.tdiv 100
        year + (if year > current.tm_year.tmod 100 then century - 1 else century) * 100
    let tm : Tm :=
      { tm_sec := twoDigits hour 4
        tm_min := twoDigits hour 2
        tm_hour := twoDigits hour 0
        tm_mday := twoDigits p 4
        tm_mon := twoDigits p 2 - 1
        tm_year
        tm_wday := 0
        tm_yday := 0
        tm_isdst := -1
        tm_gmtoff := 0
        tm_zone := [] }
    if !valid_tm tm then -1
    else if localTime then sys.mktime tm
    else mktime_utc tm

/-! ## Parsing a date -/

/-- `skip_cfws`, in so many comments. -/
def skip_cfws (nesting : ℕ) : List UInt8 → List UInt8
  | [] => []
  | c :: p =>
    if c = 32 ∨ c = 9 ∨ c = 10 then skip_cfws nesting p
    else if c = 13 then
      if p.head? ≠ some 10 ∧ nesting = 0 then c :: p else skip_cfws nesting p
    else if c = 40 then skip_cfws (nesting + 1) p
    else if c = 41 then if nesting = 0 then c :: p else skip_cfws (nesting - 1) p
    else if c = 92 then
      match p with
      | [] => c :: p
      | _ :: q => if nesting = 0 then c :: p else skip_cfws nesting q
    else if nesting = 0 then c :: p
    else skip_cfws nesting p

inductive RuleType where
  | TYPE_NUMBER
  | TYPE_LOOKUP
  | TYPE_DELIM

/-- `struct rule`. -/
structure Rule where
  type : RuleType
  delimiter : UInt8
  table : List (List UInt8)
  min : ℕ
  max : ℕ

/-- The loop of `parse_number`: how many digits it read, and their value. -/
def numberLoop (max count : ℕ) (value : ℤ) : List UInt8 → ℕ × ℤ × List UInt8
  | [] => (count, value, [])
  | c :: p =>
    if count < max ∧ 48 ≤ c ∧ c ≤ 57 then
      numberLoop max (count + 1) (value * 10 + (c.toNat - 48)) p
    else (count, value, c :: p)

/-- `parse_number`. -/
def parse_number (p : List UInt8) (rule : Rule) : Option (ℤ × List UInt8) :=
  let (count, value, p) := numberLoop rule.max 0 0 p
  if count < rule.min ∨ count > rule.max then none else some (value, p)

/-- `parse_lookup`. -/
def parse_lookup (p : List UInt8) (rule : Rule) : Option (ℤ × List UInt8) :=
  (rule.table.findIdx? (sameName · p rule.max)).map fun (i : ℕ) =>
    ((i : ℤ), p.drop rule.max)

/-- `parse_by_rule`, where the values of the rules are stored from the place `i` on. -/
def parse_by_rule (i : ℕ) (values : List ℤ) :
    List Rule → List UInt8 → Option (List ℤ × List UInt8)
  | [], p => some (values, p)
  | rule :: rules, p =>
    match rule.type with
    | .TYPE_DELIM =>
      if p.head? = some rule.delimiter then
        parse_by_rule (i + 1) values rules (skip_cfws 0 p.tail)
      else none
    | .TYPE_LOOKUP =>
      (parse_lookup p rule).bind fun (value, p) =>
        parse_by_rule (i + 1) (values.set i value) rules (skip_cfws 0 p)
    | .TYPE_NUMBER =>
      (parse_number p rule).bind fun (value, p) =>
        parse_by_rule (i + 1) (values.set i value) rules (skip_cfws 0 p)

/-- `parse_legacy_timezone` without the obsolete time zones. -/
def parse_legacy_timezone (p : List UInt8) : Option (ℤ × List UInt8) :=
  let max := (p.takeWhile isalpha).length
  if max = 0 then none
  else
    match ZONE_OFFSET.find? (sameName ·.1 p max) with
    | some zone => some (zone.2, p.drop zone.1.length)
    | none => if max = 1 ∧ p.head? ≠ some 74 ∧ p.head? ≠ some 106 then some (0, p.tail) else none

/-- A rule for a number. -/
def number (min max : ℕ) : Rule := ⟨.TYPE_NUMBER, 0, [], min, max⟩

/-- A rule for a name. -/
def lookup (table : List (List UInt8)) : Rule := ⟨.TYPE_LOOKUP, 0, table, 3, 3⟩

/-- A rule for a delimiter. -/
def delim (delimiter : UInt8) : Rule := ⟨.TYPE_DELIM, delimiter, [], 1, 1⟩

def base_rule : List Rule :=
  [lookup WEEKDAY, delim 44, number 1 2, lookup MONTH, number 2 4, number 2 2, delim 58, number 2 2]

def seconds_rule : List Rule := [delim 58, number 2 2]

def zone_rule : List Rule := [number 2 2, number 2 2]

/-- The base part of the date, which may begin with the day of the week. -/
def parseBase (p : List UInt8) : Option (List ℤ × List UInt8) :=
  if p.head?.any isalpha then parse_by_rule 0 (List.replicate 8 0) base_rule p
  else parse_by_rule 2 (List.replicate 8 0) (base_rule.drop 2) p

/-- The seconds, if they are present. -/
def parseSeconds (values : List ℤ) (p : List UInt8) : Option (ℤ × List ℤ × List UInt8) :=
  if p.head? = some 58 then
    (parse_by_rule 0 values seconds_rule p).map fun (values, p) => (values.getD 1 0, values, p)
  else some (0, values, p)

/-- The time zone. -/
def parseZone (values : List ℤ) (p : List UInt8) : Option (ℤ × List UInt8) :=
  if p.head? = some 45 ∨ p.head? = some 43 then
    (parse_by_rule 0 values zone_rule p.tail).map fun (values, q) =>
      ((values.getD 0 0 * 60 + values.getD 1 0) * 60 * (if p.head? = some 43 then 1 else -1), q)
  else parse_legacy_timezone p

/-- The year that is meant, as it is stored. -/
def fixYear (year : ℤ) : ℤ :=
  if year < 50 then year + 100 else if year ≥ 1000 then year - 1900 else year

/-- `parsedate_rfc5322`. -/
def parsedate_rfc5322 (date : List UInt8) : ℤ :=
  ((parseBase (skip_cfws 0 date)).bind fun (base, p) =>
    (parseSeconds base p).bind fun (tm_sec, values, p) =>
      (parseZone values p).map fun (zone_offset, p) =>
        let tm : Tm :=
          { tm_sec
            tm_min := base.getD 7 0
            tm_hour := base.getD 5 0
            tm_mday := base.getD 2 0
            tm_mon := base.getD 3 0
            tm_year := fixYear (base.getD 4 0)
            tm_wday := 0
            tm_yday := 0
            tm_isdst := 0
            tm_gmtoff := 0
            tm_zone := [] }
        if skip_cfws 0 p ≠ [] then -1
        else if !valid_tm tm then -1
        else if mktime_utc tm = -1 then -1
        else mktime_utc tm - zone_offset).getD (-1)

end Inn.Libinn.Date
