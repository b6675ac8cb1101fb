import Inn.Libinn.Date

/-!
# Inn.Libinn.LaxDate — the lax date parser, and pointers that leave the string

`parsedate_rfc5322_lax`, and `parsedate_rfc5322` once more. As in `Inn.Libinn.Date` a pointer
is the list of the bytes that are left before the NUL, but a step over more bytes than are left
is told apart: behind such a step the parsers read on.

* `Parse` — a pointer behind the NUL, NULL, or a result;
* `parse_legacy_month`, `parse_legacy_timezone`, `parse_by_rule` — with the lax parser's rules;
* `parsedate_rfc5322`, `parsedate_rfc5322_lax` — the parsers;
* `ZoneStop`, `StrictZone`, `LaxZone` — where they look for a time zone.
-/

namespace Inn.Libinn.LaxDate

open Inn.Libinn.Date

/-! ## Tables -/

/-- Complete month names. -/
def OBS_MONTH : List (List UInt8) :=
  [['J', 'a', 'n', 'u', 'a', 'r', 'y'], ['F', 'e', 'b', 'r', 'u', 'a', 'r', 'y'],
    ['M', 'a', 'r', 'c', 'h'], ['A', 'p', 'r', 'i', 'l'], ['M', 'a', 'y'], ['J', 'u', 'n', 'e'],
    ['J', 'u', 'l', 'y'], ['A', 'u', 'g', 'u', 's', 't'],
    ['S', 'e', 'p', 't', 'e', 'm', 'b', 'e', 'r'], ['O', 'c', 't', 'o', 'b', 'e', 'r'],
    ['N', 'o', 'v', 'e', 'm', 'b', 'e', 'r'], ['D', 'e', 'c', 'e', 'm', 'b', 'e', 'r']].map ascii

/-- Additional time zones. -/
def OBS_ZONE_OFFSET : List (List UInt8 × ℤ) :=
  [(ascii ['U', 'T', 'C'], 0), (ascii ['C', 'U', 'T'], 0), (ascii ['W', 'E', 'T'], 0),
    (ascii ['B', 'S', 'T'], 1 * 60 * 60), (ascii ['N', 'D', 'T'], (-2 * 60 + 30) * 60),
    (ascii ['N', 'S', 'T'], (-3 * 60 + 30) * 60), (ascii ['A', 'D', 'T'], -3 * 60 * 60),
    (ascii ['A', 'S', 'T'], -4 * 60 * 60), (ascii ['Y', 'D', 'T'], -8 * 60 * 60),
    (ascii ['Y', 'S', 'T'], -9 * 60 * 60), (ascii ['A', 'K', 'D', 'T'], -8 * 60 * 60),
    (ascii ['A', 'K', 'S', 'T'], -9 * 60 * 60), (ascii ['H', 'A', 'D', 'T'], -9 * 60 * 60),
    (ascii ['H', 'A', 'S', 'T'], -10 * 60 * 60), (ascii ['H', 'S', 'T'], -10 * 60 * 60),
    (ascii ['C', 'E', 'S'], 2 * 60 * 60), (ascii ['C', 'E', 'S', 'T'], 2 * 60 * 60),
    (ascii ['M', 'E', 'Z'], 1 * 60 * 60), (ascii ['M', 'E', 'Z', 'T'], 2 * 60 * 60),
    (ascii ['C', 'E', 'T'], 1 * 60 * 60), (ascii ['M', 'E', 'T'], 1 * 60 * 60),
    (ascii ['E', 'E', 'T'], 2 * 60 * 60), (ascii ['M', 'S', 'K'], 3 * 60 * 60),
    (ascii ['M', 'S', 'D'], 4 * 60 * 60), (ascii ['W', 'A', 'S', 'T'], 8 * 60 * 60),
    (ascii ['W', 'A', 'D', 'T'], 9 * 60 * 60), (ascii ['H', 'K', 'T'], 8 * 60 * 60),
    (ascii ['C', 'C', 'T'], 8 * 60 * 60), (ascii ['J', 'S', 'T'], 9 * 60 * 60),
    (ascii ['K', 'S', 'T'], 9 * 60 * 60), (ascii ['K', 'D', 'T'], 9 * 60 * 60),
    (ascii ['C', 'A', 'S', 'T'], (9 * 60 + 30) * 60),
    (ascii ['C', 'A', 'D', 'T'], (10 * 60 + 30) * 60),
    (ascii ['E', 'A', 'S', 'T'], 10 * 60 * 60), (ascii ['E', 'A', 'D', 'T'], 11 * 60 * 60),
    (ascii ['N', 'Z', 'S', 'T'], 12 * 60 * 60), (ascii ['N', 'Z', 'S', 'T'], 13 * 60 * 60)]

/-! ## Pointers -/

/-- What a step of a parser comes to. -/
inductive Parse (α : Type) where
  /-- A pointer behind the NUL. -/
  | past
  /-- A failure. -/
  | null
  | ok (a : α)
deriving DecidableEq

variable {α β : Type}

def Parse.bind : Parse α → (α → Parse β) → Parse β
  | .past, _ => .past
  | .null, _ => .null
  | .ok a, f => f a

def Parse.ofOption : Option α → Parse α
  | none => .null
  | some a => .ok a

/-- `p += n`. -/
def advance (n : ℕ) (p : List UInt8) : Parse (List UInt8) :=
  if n ≤ p.length then .ok (p.drop n) else .past

/-! ## Rules -/

/-- `struct rule`, with the type that only the lax parser has. -/
inductive LaxRule where
  | plain (rule : Rule)
  | TYPE_OBS_MONTH

/-- `parse_lookup`. -/
def parse_lookup (p : List UInt8) (rule : Rule) : Parse (ℤ × List UInt8) :=
  match rule.table.findIdx? (sameName · p rule.max) with
  | none => .null
  | some i => (advance rule.max p).bind fun p => .ok ((i : ℤ), p)

/-- The month that a name of so many bytes is: an abbreviation, which may have a period, or a
complete name. -/
def monthNamed (p : List UInt8) (size : ℕ) : Option ℕ :=
  if size = 3 ∨ (size = 4 ∧ p[3]? = some 46) then MONTH.findIdx? (sameName · p 3)
  else OBS_MONTH.findIdx? fun name => name.length == size && sameName name p size

/-- `parse_legacy_month`. -/
def parse_legacy_month (p : List UInt8) : Parse (ℤ × List UInt8) :=
  let word := (p.takeWhile isalpha).length
  let size := if p[word]? = some 46 then word + 1 else word
  if size = 0 then .null
  else
    match monthNamed p size with
    | none => .null
    | some i => (advance size p).bind fun p => .ok ((i : ℤ), p)

/-- `parse_by_rule`, where the values of the rules are stored from the place `i` on. -/
def parse_by_rule (i : ℕ) (values : List ℤ) :
    List LaxRule → List UInt8 → Parse (List ℤ × List UInt8)
  | [], p => .ok (values, p)
  | .TYPE_OBS_MONTH :: rules, p =>
    (parse_legacy_month p).bind fun (value, p) =>
      parse_by_rule (i + 1) (values.set i value) rules (skip_cfws 0 p)
  | .plain rule :: rules, p =>
    match rule.type with
    | .TYPE_DELIM =>
      if p.head? = some rule.delimiter then
        parse_by_rule (i + 1) values rules (skip_cfws 0 p.tail)
      else .null
    | .TYPE_LOOKUP =>
      (parse_lookup p rule).bind fun (value, p) =>
        parse_by_rule (i + 1) (values.set i value) rules (skip_cfws 0 p)
    | .TYPE_NUMBER =>
      (Parse.ofOption (parse_number p rule)).bind fun (value, p) =>
        parse_by_rule (i + 1) (values.set i value) rules (skip_cfws 0 p)

/-- `parse_legacy_timezone`: the offset, and how far the pointer moves. -/
def parse_legacy_timezone (p : List UInt8) (obsolete : Bool) : Option (ℤ × ℕ) :=
  let max := (p.takeWhile isalpha).length
  if max = 0 then none
  else
    match ZONE_OFFSET.find? (sameName ·.1 p max) with
    | some zone => some (zone.2, zone.1.length)
    | none =>
      if max = 1 ∧ p.head? ≠ some 74 ∧ p.head? ≠ some 106 then some (0, 1)
      else if obsolete then
        (OBS_ZONE_OFFSET.find? fun zone => zone.1.length ≤ max && sameName zone.1 p max).map
          fun zone => (zone.2, zone.1.length)
      else none

/-! ## The strict parser -/

/-- The base part of the date, which may begin with the day of the week. -/
def strictBase (p : List UInt8) : Parse (List ℤ × List UInt8) :=
  if p.head?.any isalpha then parse_by_rule 0 (List.replicate 8 0) (base_rule.map .plain) p
  else parse_by_rule 2 (List.replicate 8 0) ((base_rule.drop 2).map .plain) p

/-- The seconds, if they are present. -/
def parseSeconds (rules : List Rule) (values : List ℤ) (p : List UInt8) :
    Parse (ℤ × List ℤ × List UInt8) :=
  if p.head? = some 58 then
    (parse_by_rule 0 values (rules.map .plain) p).bind fun (values, p) =>
      .ok (values.getD 1 0, values, p)
  else .ok (0, values, p)

/-- Whether a zone is numeric. -/
def isNumericZone (p : List UInt8) : Bool := p.head? == some 45 || p.head? == some 43

/-- The sign of a numeric zone. -/
def zoneSign (p : List UInt8) : ℤ := if p.head? = some 43 then 1 else -1

/-- The time zone. -/
def strictZoneAt (values : List ℤ) (p : List UInt8) : Parse (ℤ × List UInt8) :=
  if isNumericZone p then
    (parse_by_rule 0 values (Date.zone_rule.map .plain) p.tail).bind fun (values, q) =>
      .ok ((values.getD 0 0 * 60 + values.getD 1 0) * 60 * zoneSign p, q)
  else
    (Parse.ofOption (parse_legacy_timezone p false)).bind fun (offset, n) =>
      (advance n p).bind fun q => .ok (offset, q)

/-- The date as it is filled in, with nothing known about daylight saving time. -/
def dateTm (tm_sec tm_min tm_hour tm_mday tm_mon tm_year tm_isdst : ℤ) : Tm where
  tm_sec
  tm_min
  tm_hour
  tm_mday
  tm_mon
  tm_year := fixYear tm_year
  tm_wday := 0
  tm_yday := 0
  tm_isdst
  tm_gmtoff := 0
  tm_zone := []

/-- The end of both parsers. -/
def toTime (tm : Tm) (result zone_offset : ℤ) : ℤ :=
  if !valid_tm tm then -1 else if result = -1 then -1 else result - zone_offset

/-- The value that is returned, if no pointer is behind the NUL. -/
def Parse.time : Parse ℤ → Option ℤ
  | .past => none
  | .null => some (-1)
  | .ok t => some t

/-- The end of the strict parser: nothing may be left but comments and white space. -/
def strictEnd (tm_sec : ℤ) (base : List ℤ) (zone_offset : ℤ) (p : List UInt8) : Parse ℤ :=
  let tm := dateTm tm_sec (base.getD 7 0) (base.getD 5 0) (base.getD 2 0) (base.getD 3 0)
    (base.getD 4 0) 0
  if skip_cfws 0 p ≠ [] then .null else .ok (toTime tm (mktime_utc tm) zone_offset)

/-- `parsedate_rfc5322`. -/
def parsedate_rfc5322 (date : List UInt8) : Option ℤ :=
  ((strictBase (skip_cfws 0 date)).bind fun (base, p) =>
    (parseSeconds Date.seconds_rule base p).bind fun (tm_sec, values, p) =>
      (strictZoneAt values p).bind fun (zone_offset, p) =>
        strictEnd tm_sec base zone_offset p).time

/-! ## The lax parser -/

def laxBaseRule : List LaxRule :=
  [.plain (number 1 2), .TYPE_OBS_MONTH, .plain (number 2 4), .plain (number 1 2),
    .plain (delim 58), .plain (number 1 2)]

def laxSecondsRule : List Rule := [delim 58, number 1 2]

def laxZoneRule : List Rule := [number 1 5]

/-- Passing over anything that looks vaguely like a day of the week. -/
def skipDay (p : List UInt8) : List UInt8 :=
  match p.dropWhile fun c => !decide (IsDigit c) && c != 44 with
  | 44 :: p => skip_cfws 0 p
  | p => p

/-- The body of the zone loop: the offset, and the pointer behind the zone and what may be
passed over, or `none` for NULL. -/
def zoneStep (p : List UInt8) : Parse (ℤ × Option (List UInt8)) :=
  if isNumericZone p then
    (parse_by_rule 0 [0] (laxZoneRule.map .plain) p.tail).bind fun (values, q) =>
      let value := values.getD 0 0
      let offset :=
        if p.tail.length - q.length < 3 then value * 60 * 60
        else (value / 100 * 60 + value % 100) * 60
      .ok (offset * zoneSign p, some (skip_cfws 0 q))
  else
    match parse_legacy_timezone p true with
    | none => .ok (0, none)
    | some (offset, n) => (advance n p).bind fun q => .ok (offset, some (skip_cfws 0 q))

/-- The zone loop: the final time zone found. -/
def zoneLoop : ℕ → ℤ → List UInt8 → Parse ℤ
  | 0, _, _ => .null
  | fuel + 1, zone_offset, p =>
    if p = [] then .ok zone_offset
    else
      (zoneStep p).bind fun (zone_offset, q) =>
        match q with
        | none => .ok zone_offset
        | some q => zoneLoop fuel zone_offset q

/-- The date and time at the beginning of a date, and what follows them. -/
def laxStart (date : List UInt8) : Parse (ℤ × List ℤ × List UInt8) :=
  (parse_by_rule 0 (List.replicate 6 0) laxBaseRule (skipDay (skip_cfws 0 date))).bind
    fun (base, p) =>
      (parseSeconds laxSecondsRule base p).bind fun (tm_sec, _, p) => .ok (tm_sec, base, p)

/-- The end of the lax parser: without a zone it is a local time. -/
def laxEnd (sys : System) (tm_sec : ℤ) (base : List ℤ) (have_zone : Bool) (zone_offset : ℤ) : ℤ :=
  let tm := dateTm tm_sec (base.getD 5 0) (base.getD 3 0) (base.getD 0 0) (base.getD 1 0)
    (base.getD 2 0) (if have_zone then 0 else -1)
  toTime tm (if have_zone then mktime_utc tm else sys.mktime tm) zone_offset

/-- `parsedate_rfc5322_lax`. -/
def parsedate_rfc5322_lax (sys : System) (date : List UInt8) : Option ℤ :=
  ((laxStart date).bind fun (tm_sec, base, p) =>
    (zoneLoop (p.length + 1) 0 p).bind fun zone_offset =>
      .ok (laxEnd sys tm_sec base (!p.isEmpty) zone_offset)).time

/-! ## Zone positions -/

/-- The zone loop, begun at a place, looks for a zone at another one. -/
inductive ZoneStop : List UInt8 → List UInt8 → Prop where
  | here {p : List UInt8} : p ≠ [] → ZoneStop p p
  | next {p q r : List UInt8} {offset : ℤ} : zoneStep p = .ok (offset, some q) → ZoneStop q r →
      ZoneStop p r

/-- The strict parser looks for a zone here. -/
def StrictZone (date p : List UInt8) : Prop :=
  ∃ base q tm_sec values, strictBase (skip_cfws 0 date) = .ok (base, q) ∧
    parseSeconds Date.seconds_rule base q = .ok (tm_sec, values, p)

/-- The lax parser looks for a zone here. -/
def LaxZone (date p : List UInt8) : Prop :=
  ∃ tm_sec base q, laxStart date = .ok (tm_sec, base, q) ∧ ZoneStop q p

end Inn.Libinn.LaxDate
