import Mathlib.Data.List.Find
import Mathlib.Data.List.TakeWhile
import Inn.Libinn.LaxDate

/-!
# Inn.Libinn.ZoneWords — time zones as words

A time zone that is not numeric is a word. `parse_legacy_timezone` compares as many letters of
a name of `ZONE_OFFSET` as the word has, so a word that a name begins with is taken for it,
and the pointer moves over the whole name.

* `zoneOf`, `WordExact` — what a word means, and the parser reading just that word;
* `wordExact_iff` — when it does;
* `zone_words_exact_iff` — for the positions in a date, and the date parsers.
-/

namespace Inn.Libinn.LaxDate

open Inn.Libinn.Date

/-! ## Words -/

/-- The alphabetic word at a position. -/
def zoneWord (p : List UInt8) : List UInt8 := p.takeWhile isalpha

/-- The names are the same but for case. -/
def nocaseEq (a b : List UInt8) : Bool := a.map tolower == b.map tolower

/-- The time zones that the parser knows by name. -/
def zoneTable (obsolete : Bool) : List (List UInt8 × ℤ) :=
  ZONE_OFFSET ++ if obsolete then OBS_ZONE_OFFSET else []

/-- The offset that a word stands for: none for a letter other than J, else what the table has. -/
def zoneOf (word : List UInt8) (obsolete : Bool) : Option ℤ :=
  if word.length = 1 ∧ word ≠ [74] ∧ word ≠ [106] then some 0
  else ((zoneTable obsolete).find? (nocaseEq ·.1 word)).map (·.2)

/-- The parser reads exactly the word at a position. -/
def WordExact (p : List UInt8) (obsolete : Bool) : Prop :=
  parse_legacy_timezone p obsolete =
    (zoneOf (zoneWord p) obsolete).map fun offset => (offset, (zoneWord p).length)

/-- A name of `ZONE_OFFSET` begins with the word, and goes on. -/
def CutName (p : List UInt8) : Prop :=
  zoneWord p ≠ [] ∧ ∃ zone ∈ ZONE_OFFSET, (zoneWord p).length < zone.1.length ∧
    sameName zone.1 (zoneWord p) (zoneWord p).length = true

instance (p : List UInt8) : Decidable (CutName p) := inferInstanceAs (Decidable (_ ∧ _))

section Words

variable {p : List UInt8} {obsolete : Bool} {zone : List UInt8 × ℤ}

theorem take_zoneWord (p : List UInt8) : p.take (zoneWord p).length = zoneWord p := by
  rw [zoneWord, ← List.prefix_iff_eq_take.mp (List.takeWhile_prefix isalpha)]

theorem sameName_zoneWord (name p : List UInt8) :
    sameName name p (zoneWord p).length = sameName name (zoneWord p) (zoneWord p).length := by
  rw [sameName, sameName, take_zoneWord, List.take_length]

/-- A comparison of that many letters tells names of that length. -/
theorem sameName_of_length {name w : List UInt8} (h : name.length ≤ w.length) :
    sameName name w w.length = nocaseEq name w := by
  rw [sameName, nocaseEq, List.take_of_length_le h, List.take_length]

theorem nocaseEq_length {a b : List UInt8} (h : nocaseEq a b = true) : a.length = b.length := by
  have := congrArg List.length (beq_iff_eq.mp h)
  rwa [List.length_map, List.length_map] at this

/-- No name of the table begins with another one. -/
theorem names_prefix_free : ∀ zone ∈ ZONE_OFFSET, ∀ zone' ∈ ZONE_OFFSET,
    zone.1.length < zone'.1.length → sameName zone'.1 zone.1 zone.1.length = false := by
  decide

theorem two_le_length : ∀ zone ∈ zoneTable true, 2 ≤ zone.1.length := by decide

/-- Within the whole table a word is looked up by the names that are the same. -/
theorem find_obsolete (p : List UInt8) :
    OBS_ZONE_OFFSET.find? (fun zone => zone.1.length ≤ (zoneWord p).length &&
      sameName zone.1 p (zoneWord p).length) =
      OBS_ZONE_OFFSET.find? (nocaseEq ·.1 (zoneWord p)) := by
  refine List.find?_congr fun zone _ => ?_
  by_cases hle : zone.1.length ≤ (zoneWord p).length
  · rw [sameName_zoneWord, sameName_of_length hle, decide_eq_true hle, Bool.true_and]
  · rw [decide_eq_false hle, Bool.false_and]
    exact (Bool.eq_false_iff.mpr fun h => hle (Nat.le_of_eq (nocaseEq_length h))).symm

theorem find_uncut (h : ¬ CutName p) (hne : zoneWord p ≠ []) :
    ZONE_OFFSET.find? (sameName ·.1 p (zoneWord p).length) =
      ZONE_OFFSET.find? (nocaseEq ·.1 (zoneWord p)) := by
  refine List.find?_congr fun zone hzone => ?_
  rw [sameName_zoneWord]
  by_cases hle : zone.1.length ≤ (zoneWord p).length
  · exact sameName_of_length hle
  · have hsame : ¬ sameName zone.1 (zoneWord p) (zoneWord p).length = true := fun hsame =>
      h ⟨hne, zone, hzone, by omega, hsame⟩
    rw [Bool.eq_false_iff.mpr hsame]
    exact (Bool.eq_false_iff.mpr fun h => hle (Nat.le_of_eq (nocaseEq_length h))).symm

theorem zoneWord_nil_or (p : List UInt8) :
    zoneWord p = [] ∨ ∃ c, (zoneWord p).head? = some c ∧ p.head? = some c := by
  rcases p with _ | ⟨c, p⟩
  · exact .inl rfl
  · rw [zoneWord, List.takeWhile_cons]
    split
    · exact .inr ⟨c, rfl, rfl⟩
    · exact .inl rfl

/-- The letter test of the parser is about the word. -/
theorem letter_iff (hne : zoneWord p ≠ []) :
    ((zoneWord p).length = 1 ∧ p.head? ≠ some 74 ∧ p.head? ≠ some 106) ↔
      (zoneWord p).length = 1 ∧ zoneWord p ≠ [74] ∧ zoneWord p ≠ [106] := by
  obtain ⟨c, hword, hhead⟩ := (zoneWord_nil_or p).resolve_left hne
  refine and_congr_right fun hlen => ?_
  obtain ⟨d, hd⟩ := List.length_eq_one_iff.mp hlen
  rw [hd] at hword ⊢
  rw [hhead, ← hword]
  simp

/-- A longer name of the table is found for a word that it begins with. -/
theorem find_cut (h : CutName p) :
    ∃ zone ∈ ZONE_OFFSET, ZONE_OFFSET.find? (sameName ·.1 p (zoneWord p).length) = some zone ∧
      zone.1.length ≠ (zoneWord p).length := by
  obtain ⟨-, zone, hzone, hlt, hsame⟩ := h
  have hsome : (ZONE_OFFSET.find? (sameName ·.1 p (zoneWord p).length)).isSome := by
    rw [List.find?_isSome]
    exact ⟨zone, hzone, (sameName_zoneWord zone.1 p).trans hsame⟩
  obtain ⟨found, hfound⟩ := Option.isSome_iff_exists.mp hsome
  have hmem := List.mem_of_find?_eq_some hfound
  refine ⟨found, hmem, hfound, fun hlen => ?_⟩
  -- else the found name would be the word itself
  have heq : nocaseEq found.1 (zoneWord p) = true := by
    rw [← sameName_of_length (Nat.le_of_eq hlen), ← sameName_zoneWord]
    exact @List.find?_some _ (fun zone : List UInt8 × ℤ => sameName zone.1 p (zoneWord p).length)
      _ _ hfound
  have hstarts : sameName zone.1 found.1 found.1.length = true := by
    rw [sameName, beq_iff_eq] at hsame ⊢
    rw [List.take_length] at hsame ⊢
    rw [hlen, hsame, beq_iff_eq.mp heq]
  exact Bool.eq_false_iff.mp (names_prefix_free found hmem zone hzone (hlen ▸ hlt)) hstarts

theorem timezone_found (hne : zoneWord p ≠ []) (obsolete : Bool)
    (h : ZONE_OFFSET.find? (sameName ·.1 p (zoneWord p).length) = some zone) :
    parse_legacy_timezone p obsolete = some (zone.2, zone.1.length) := by
  have hlen : ¬ (p.takeWhile isalpha).length = 0 := fun h => hne (List.length_eq_zero_iff.mp h)
  have h : ZONE_OFFSET.find? (sameName ·.1 p (p.takeWhile isalpha).length) = some zone := h
  rw [parse_legacy_timezone, if_neg hlen, h]

theorem timezone_other (hne : zoneWord p ≠ []) (obsolete : Bool)
    (h : ZONE_OFFSET.find? (sameName ·.1 p (zoneWord p).length) = none) :
    parse_legacy_timezone p obsolete =
      if (zoneWord p).length = 1 ∧ zoneWord p ≠ [74] ∧ zoneWord p ≠ [106] then some (0, 1)
      else if obsolete then
        (OBS_ZONE_OFFSET.find? (nocaseEq ·.1 (zoneWord p))).map
          fun zone => (zone.2, zone.1.length)
      else none := by
  have hlen : ¬ (p.takeWhile isalpha).length = 0 := fun h => hne (List.length_eq_zero_iff.mp h)
  have h : ZONE_OFFSET.find? (sameName ·.1 p (p.takeWhile isalpha).length) = none := h
  rw [parse_legacy_timezone, if_neg hlen, h, ← find_obsolete]
  exact ite_cond_congr (propext (letter_iff hne))

/-- The parser reads exactly the word, unless a longer name begins with it. -/
theorem wordExact_iff (p : List UInt8) (obsolete : Bool) :
    WordExact p obsolete ↔ ¬ CutName p := by
  by_cases hne : zoneWord p = []
  · -- no word
    have hlen : (p.takeWhile isalpha).length = 0 := List.length_eq_zero_iff.mpr hne
    refine iff_of_true ?_ fun h => h.1 hne
    rw [WordExact, parse_legacy_timezone, hne, if_pos hlen]
    cases obsolete with
    | false => decide
    | true => decide
  by_cases hcut : CutName p
  · obtain ⟨zone, -, hfind, hother⟩ := find_cut hcut
    refine iff_of_false (fun h => ?_) (not_not_intro hcut)
    rw [WordExact, timezone_found hne obsolete hfind] at h
    obtain ⟨offset, -, heq⟩ := Option.map_eq_some_iff.mp h.symm
    exact hother (congrArg Prod.snd heq).symm
  refine iff_of_true ?_ hcut
  have huncut := find_uncut hcut hne
  have hlength : ∀ {table : List (List UInt8 × ℤ)} {zone},
      table.find? (nocaseEq ·.1 (zoneWord p)) = some zone → zone.1.length = (zoneWord p).length :=
    fun h => nocaseEq_length
      (@List.find?_some _ (fun zone : List UInt8 × ℤ => nocaseEq zone.1 (zoneWord p)) _ _ h)
  rw [WordExact, zoneOf, zoneTable, List.find?_append]
  rcases hfind : ZONE_OFFSET.find? (nocaseEq ·.1 (zoneWord p)) with _ | zone
  · rw [timezone_other hne obsolete (huncut.trans hfind), hfind, Option.none_or]
    split
    · rename_i hletter
      rw [hletter.1]
      rfl
    · cases obsolete with
      | false => rfl
      | true =>
        rw [if_pos rfl, if_pos rfl, Option.map_map]
        rcases hobs : OBS_ZONE_OFFSET.find? (nocaseEq ·.1 (zoneWord p)) with _ | zone
        · rw [hobs]
          rfl
        · rw [hobs, Option.map_some, Option.map_some, hlength hobs]
          rfl
  · have hmem : zone ∈ zoneTable true := List.mem_append_left _ (List.mem_of_find?_eq_some hfind)
    have htwo := two_le_length zone hmem
    rw [hlength hfind] at htwo
    rw [timezone_found hne obsolete (huncut.trans hfind), if_neg fun h => by omega,
      hfind, Option.some_or, Option.map_some, Option.map_some, hlength hfind]

end Words

/-! ## Steps inside the string -/

section Inside

variable {p : List UInt8} {obsolete : Bool} {rule : Rule} {values : List ℤ}

theorem advance_inside {n : ℕ} (h : n ≤ p.length) : advance n p = .ok (p.drop n) := if_pos h

theorem Parse.bind_ne_past {α β : Type} {x : Parse α} {f : α → Parse β} (hx : x ≠ .past)
    (hf : ∀ a, x = .ok a → f a ≠ .past) : x.bind f ≠ .past := by
  cases x with
  | past => exact absurd rfl hx
  | null => exact fun h => by cases h
  | ok a => exact hf a rfl

theorem Parse.ofOption_ne_past {α : Type} (x : Option α) : Parse.ofOption x ≠ .past := by
  cases x with
  | none => exact fun h => by cases h
  | some a => exact fun h => by cases h

/-- A name that is found is there in full. -/
theorem sameName_inside {name : List UInt8} {n : ℕ} (hname : name.length = n)
    (h : sameName name p n = true) : n ≤ p.length := by
  have := congrArg List.length (beq_iff_eq.mp h)
  rw [List.length_map, List.length_map, List.length_take, List.length_take] at this
  omega

/-- The names of a table have the length that is compared. -/
def Rule.Fits (rule : Rule) : Prop := ∀ name ∈ rule.table, name.length = rule.max

theorem parse_lookup_inside (hfits : Rule.Fits rule) (p : List UInt8) :
    parse_lookup p rule = .ofOption (Date.parse_lookup p rule) := by
  rw [parse_lookup, Date.parse_lookup]
  rcases hfind : rule.table.findIdx? (sameName · p rule.max) with _ | i
  · rfl
  · obtain ⟨hi, hsame, -⟩ := List.findIdx?_eq_some_iff_getElem.mp hfind
    have hlen := sameName_inside (hfits _ (List.getElem_mem hi)) hsame
    rw [advance_inside hlen]
    rfl

theorem length_takeWhile_isalpha (p : List UInt8) : (p.takeWhile isalpha).length ≤ p.length :=
  (List.takeWhile_prefix isalpha).length_le

theorem parse_legacy_month_inside (p : List UInt8) : parse_legacy_month p ≠ .past := by
  have hword := length_takeWhile_isalpha p
  have hsize : (if p[(p.takeWhile isalpha).length]? = some 46
      then (p.takeWhile isalpha).length + 1 else (p.takeWhile isalpha).length) ≤ p.length := by
    split
    · rename_i hdot
      exact (List.getElem?_eq_some_iff.mp hdot).1
    · exact hword
  rw [parse_legacy_month]
  generalize (if p[(p.takeWhile isalpha).length]? = some 46
    then (p.takeWhile isalpha).length + 1 else (p.takeWhile isalpha).length) = size at hsize ⊢
  by_cases h0 : size = 0
  · rw [if_pos h0]
    exact fun h => by cases h
  · rw [if_neg h0]
    cases monthNamed p size with
    | none => exact fun h => by cases h
    | some i =>
      dsimp only
      rw [advance_inside hsize]
      exact fun h => by cases h

/-- Rules of which the names fit. -/
def RulesFit (rules : List LaxRule) : Prop := ∀ rule, LaxRule.plain rule ∈ rules → Rule.Fits rule

theorem parse_by_rule_inside {rules : List LaxRule} (hfit : RulesFit rules) (i : ℕ)
    (values : List ℤ) (p : List UInt8) : parse_by_rule i values rules p ≠ .past := by
  induction rules generalizing i values p with
  | nil => exact fun h => by cases h
  | cons rule rules ih =>
    have ih := ih fun rule hrule => hfit rule (List.mem_cons_of_mem _ hrule)
    cases rule with
    | TYPE_OBS_MONTH =>
      rw [parse_by_rule]
      exact Parse.bind_ne_past (parse_legacy_month_inside p) fun a _ => ih _ _ _
    | plain rule =>
      rw [parse_by_rule]
      split
      · split
        · exact ih _ _ _
        · exact fun h => by cases h
      · rw [parse_lookup_inside (hfit rule List.mem_cons_self)]
        exact Parse.bind_ne_past (Parse.ofOption_ne_past _) fun a _ => ih _ _ _
      · exact Parse.bind_ne_past (Parse.ofOption_ne_past _) fun a _ => ih _ _ _

theorem rulesFit_map {rules : List Rule} (h : ∀ rule ∈ rules, Rule.Fits rule) :
    RulesFit (rules.map .plain) := by
  intro rule hrule
  obtain ⟨rule', hmem, heq⟩ := List.mem_map.mp hrule
  injection heq with heq
  exact heq ▸ h rule' hmem

theorem base_rule_fits : ∀ rule ∈ base_rule, Rule.Fits rule := by
  unfold Rule.Fits
  decide

theorem laxBaseRule_fits : RulesFit laxBaseRule := by
  intro rule hrule
  have hnumber : ∀ min max, Rule.Fits (number min max) := fun _ _ _ h => nomatch h
  simp only [laxBaseRule, List.mem_cons, LaxRule.plain.injEq, reduceCtorEq, false_or,
    List.not_mem_nil, or_false] at hrule
  rcases hrule with rfl | rfl | rfl | rfl | rfl
  · exact hnumber 1 2
  · exact hnumber 2 4
  · exact hnumber 1 2
  · exact fun _ h => nomatch h
  · exact hnumber 1 2

/-- Rules without tables. -/
theorem plain_fits {rules : List Rule} (h : ∀ rule ∈ rules, rule.table = []) :
    RulesFit (rules.map .plain) :=
  rulesFit_map fun rule hrule name hname => by
    rw [h rule hrule] at hname
    cases hname

theorem Parse.ofOption_bind {α β : Type} (x : Option α) (f : α → Option β) :
    Parse.ofOption (x.bind f) = (Parse.ofOption x).bind fun a => .ofOption (f a) := by
  cases x with
  | none => rfl
  | some a => rfl

/-- Without the rule for months, the rules are those of the strict parser. -/
theorem parse_by_rule_plain {rules : List Rule} (hfits : ∀ rule ∈ rules, Rule.Fits rule) (i : ℕ)
    (values : List ℤ) (p : List UInt8) :
    parse_by_rule i values (rules.map .plain) p =
      .ofOption (Date.parse_by_rule i values rules p) := by
  induction rules generalizing i values p with
  | nil => rfl
  | cons rule rules ih =>
    have ih := ih fun rule hrule => hfits rule (List.mem_cons_of_mem _ hrule)
    have hrule := hfits rule List.mem_cons_self
    rcases rule with ⟨type, delimiter, table, min, max⟩
    rw [List.map_cons, parse_by_rule, Date.parse_by_rule]
    cases type with
    | TYPE_NUMBER =>
      dsimp only
      rw [Parse.ofOption_bind]
      congr 1
      funext ⟨value, q⟩
      exact ih _ _ _
    | TYPE_LOOKUP =>
      dsimp only
      rw [parse_lookup_inside hrule, Parse.ofOption_bind]
      congr 1
      funext ⟨value, q⟩
      exact ih _ _ _
    | TYPE_DELIM =>
      dsimp only
      split
      · exact ih _ _ _
      · rfl

theorem strictBase_eq (p : List UInt8) : strictBase p = .ofOption (parseBase p) := by
  rw [strictBase, parseBase]
  split
  · exact parse_by_rule_plain base_rule_fits _ _ _
  · exact parse_by_rule_plain (fun rule hrule =>
      base_rule_fits rule (List.mem_of_mem_drop hrule)) _ _ _

theorem strictBase_inside (p : List UInt8) : strictBase p ≠ .past := by
  rw [strictBase_eq]
  exact Parse.ofOption_ne_past _

theorem parseSeconds_inside {rules : List Rule} (h : ∀ rule ∈ rules, rule.table = [])
    (values : List ℤ) (p : List UInt8) : parseSeconds rules values p ≠ .past := by
  rw [parseSeconds]
  split
  · exact Parse.bind_ne_past (parse_by_rule_inside (plain_fits h) _ _ _)
      fun a _ h => by cases h
  · exact fun h => by cases h

theorem laxStart_inside (date : List UInt8) : laxStart date ≠ .past := by
  rw [laxStart]
  refine Parse.bind_ne_past (parse_by_rule_inside laxBaseRule_fits _ _ _) fun a _ => ?_
  exact Parse.bind_ne_past (parseSeconds_inside (by decide) _ _) fun b _ h => by cases h

/-- A word that is read exactly ends in the string. -/
theorem wordExact_inside (h : WordExact p obsolete) {offset : ℤ} {n : ℕ}
    (hparse : parse_legacy_timezone p obsolete = some (offset, n)) : n ≤ p.length := by
  rw [WordExact, hparse] at h
  obtain ⟨_, -, heq⟩ := Option.map_eq_some_iff.mp h.symm
  rw [← (Prod.mk.inj heq).2]
  exact length_takeWhile_isalpha p

theorem zoneStep_inside (h : isNumericZone p = false → WordExact p true) :
    zoneStep p ≠ .past := by
  rw [zoneStep]
  split
  · exact Parse.bind_ne_past (parse_by_rule_inside (plain_fits (by decide)) _ _ _)
      fun a _ h => by cases h
  · rename_i hnum
    have hword := h (Bool.eq_false_iff.mpr hnum)
    split
    · exact fun h => by cases h
    · rename_i offset n hparse
      rw [advance_inside (wordExact_inside hword hparse)]
      exact fun h => by cases h

/-- The zone loop stays inside the string if each word that it meets is read exactly. -/
theorem zoneLoop_inside {fuel : ℕ} {zone_offset : ℤ}
    (h : ∀ q, ZoneStop p q → isNumericZone q = false → WordExact q true) :
    zoneLoop fuel zone_offset p ≠ .past := by
  induction fuel generalizing zone_offset p with
  | zero => exact fun h => by cases h
  | succ fuel ih =>
    rw [zoneLoop]
    split
    · exact fun h => by cases h
    · rename_i hne
      refine Parse.bind_ne_past (zoneStep_inside (h p (.here hne))) fun a ha => ?_
      obtain ⟨offset, q⟩ := a
      dsimp only
      split
      · exact fun h => by cases h
      · exact ih fun r hr => h r (.next ha hr)

end Inside

/-! ## Dates -/

/-- A parser looks for a word at a position of a date. -/
inductive LooksAt (date : List UInt8) : List UInt8 → Bool → Prop where
  | strict {p : List UInt8} : StrictZone date p → isNumericZone p = false → LooksAt date p false
  | lax {p : List UInt8} : LaxZone date p → isNumericZone p = false → LooksAt date p true

section Dates

variable {date : List UInt8}

theorem Parse.time_ne_none {x : Parse ℤ} (h : x ≠ .past) : x.time ≠ none := by
  cases x with
  | past => exact absurd rfl h
  | null => exact fun h => by cases h
  | ok t => exact fun h => by cases h

theorem strictEnd_inside (tm_sec : ℤ) (base : List ℤ) (zone_offset : ℤ) (p : List UInt8) :
    strictEnd tm_sec base zone_offset p ≠ .past := by
  rw [strictEnd]
  split
  · exact fun h => by cases h
  · exact fun h => by cases h

theorem strict_inside (h : ∀ p, LooksAt date p false → WordExact p false) :
    parsedate_rfc5322 date ≠ none := by
  rw [parsedate_rfc5322]
  refine Parse.time_ne_none (Parse.bind_ne_past (strictBase_inside _) fun base hbase => ?_)
  refine Parse.bind_ne_past (parseSeconds_inside (by decide) _ _) fun seconds hseconds => ?_
  obtain ⟨base, q⟩ := base
  obtain ⟨tm_sec, values, p⟩ := seconds
  refine Parse.bind_ne_past ?_ fun zone _ => ?_
  · rw [strictZoneAt]
    split
    · exact Parse.bind_ne_past (parse_by_rule_inside (plain_fits (by decide)) _ _ _)
        fun a _ h => by cases h
    · rename_i hnum
      have hword := h p (.strict ⟨base, q, tm_sec, values, hbase, hseconds⟩
        (Bool.eq_false_iff.mpr hnum))
      rcases hparse : parse_legacy_timezone p false with _ | ⟨offset, n⟩
      · exact fun h => by cases h
      · change (advance n p).bind _ ≠ _
        rw [advance_inside (wordExact_inside hword hparse)]
        exact fun h => by cases h
  · obtain ⟨zone_offset, r⟩ := zone
    exact strictEnd_inside tm_sec base zone_offset r

theorem lax_inside (sys : System) (h : ∀ p, LooksAt date p true → WordExact p true) :
    parsedate_rfc5322_lax sys date ≠ none := by
  rw [parsedate_rfc5322_lax]
  refine Parse.time_ne_none (Parse.bind_ne_past (laxStart_inside date) fun start hstart => ?_)
  obtain ⟨tm_sec, base, q⟩ := start
  refine Parse.bind_ne_past (zoneLoop_inside fun p hp hnum => ?_) fun a _ h => by cases h
  exact h p (.lax ⟨tm_sec, base, q, hstart, hp⟩ hnum)

/-- Both parsers stay inside the date and read exactly the words where they look for a zone,
just when no longer name of `ZONE_OFFSET` begins with one of these words. -/
theorem zone_words_exact_iff (sys : System) (date : List UInt8) :
    (parsedate_rfc5322 date ≠ none ∧ parsedate_rfc5322_lax sys date ≠ none ∧
      ∀ p obsolete, LooksAt date p obsolete → WordExact p obsolete) ↔
    ∀ p obsolete, LooksAt date p obsolete → ¬ CutName p := by
  constructor
  · rintro ⟨-, -, h⟩ p obsolete hp
    exact (wordExact_iff p obsolete).mp (h p obsolete hp)
  · intro h
    have hexact : ∀ p obsolete, LooksAt date p obsolete → WordExact p obsolete :=
      fun p obsolete hp => (wordExact_iff p obsolete).mpr (h p obsolete hp)
    exact ⟨strict_inside fun p => hexact p false, lax_inside sys fun p => hexact p true, hexact⟩

/-- A C library that knows nothing about time. -/
def noClock : System :=
  ⟨false, false, false, false, 0, fun _ => ⟨0, 0, 0, 1, 0, 70, 4, 0, 0, 0, []⟩,
    fun _ => ⟨0, 0, 0, 1, 0, 70, 4, 0, 0, 0, []⟩, fun _ => -1, 0, 0, ([], [])⟩

/-- The word "E" at the end of a date is taken for "EDT", behind the NUL. -/
theorem letter_passes_the_end :
    ¬ ∀ (sys : System) (date : List UInt8), parsedate_rfc5322 date ≠ none ∧
      parsedate_rfc5322_lax sys date ≠ none ∧
        ∀ p obsolete, LooksAt date p obsolete → WordExact p obsolete := by
  intro h
  refine (h noClock (ascii "1 Jan 2020 10:00 E".toList)).1 ?_
  decide +kernel

end Dates

end Inn.Libinn.LaxDate
