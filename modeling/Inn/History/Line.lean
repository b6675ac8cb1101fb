import Mathlib.Data.List.GetD
import Inn.Base
import Inn.Hex

/-!
# Inn.History.Line — the lines of the history file

A line is the hash of the message-ID, the arrived, expires and posted times, and the
storage token. `hisv6_formatline` writes it, `hisv6_splitline` reads it. A C string is
the list of its bytes before the NUL.

Main results:

* `hisv6Splitline_lineText` — what is read from a line that was written;
* `hisv6Splitline_padded` — the same when spaces follow it.
-/

namespace Inn.History

/-- `TOKEN`: a class, a type and 16 bytes of the storage method. -/
abbrev TOKEN := Vector UInt8 18

/-- `time_t`. -/
abbrev Time := Int64

def HISV6_FIELDSEP : UInt8 := 9

def HISV6_NOEXP : UInt8 := 45

def HISV6_SUBFIELDSEP : UInt8 := 126

def HISV6_MAXLINE : ℕ := 137

def HISV6_MINLINE : ℕ := 37

def NEWLINE : UInt8 := 10

def SPACE : UInt8 := 32

def AT : UInt8 := 64

def ULONG_MAX : ℕ := 2 ^ 64 - 1

/-- The string that starts at a pointer. -/
def cstring (p : List UInt8) : List UInt8 := p.takeWhile (· ≠ 0)

/-! ## Hashes and tokens as text -/

def HashToText (hash : HASH) : List UInt8 := encodeHex hash.toList

def TextToHash (text : List UInt8) : HASH := decodeHex 16 (text.takeWhile IsHexDigit)

def TokenToText (token : TOKEN) : List UInt8 := AT :: encodeHex token.toList ++ [AT]

/-- `IsToken`: 36 upper-case digits between two `@`, and nothing else. -/
def IsToken (text : List UInt8) : Prop :=
  text.length = 38 ∧ text.head? = some AT ∧ (text.drop 1).idxOf? AT = some 36 ∧
    ∀ c ∈ (text.drop 1).takeWhile (· ≠ AT), IsUpperHexDigit c

instance (text : List UInt8) : Decidable (IsToken text) := inferInstanceAs (Decidable (_ ∧ _))

def TextToToken (text : List UInt8) : TOKEN :=
  if IsToken text then decodeHex 18 (text.drop 1) else .replicate 18 0

/-! ## Reading a line -/

/-- What `hisv6_splitline` returns: an optional time is absent when its bit is not set in
the result. -/
structure Fields where
  hash : HASH
  arrived : Time
  expires : Option Time
  posted : Option Time
  token : Option TOKEN
deriving DecidableEq

/-- `isspace`. -/
def IsSpace (c : UInt8) : Prop := c = SPACE ∨ (9 ≤ c.toNat ∧ c.toNat ≤ 13)

instance (c : UInt8) : Decidable (IsSpace c) := inferInstanceAs (Decidable (_ ∨ _))

/-- `strtoul` in base 10: the value, and the text from `end` on. -/
def strtoul (nptr : List UInt8) : ℕ × List UInt8 :=
  let p := nptr.dropWhile IsSpace
  let q := if p.head? = some 43 ∨ p.head? = some 45 then p.drop 1 else p
  let value := decimalValue (q.takeWhile IsDigit)
  if q.takeWhile IsDigit = [] then (0, nptr)
  else if ULONG_MAX < value then (ULONG_MAX, q.dropWhile IsDigit)
  else if p.head? = some 45 then ((2 ^ 64 - value) % 2 ^ 64, q.dropWhile IsDigit)
  else (value, q.dropWhile IsDigit)

/-- `(time_t) l`. -/
def toTime (l : ℕ) : Time := (UInt64.ofNat l).toInt64

/-- The end of `hisv6_splitline`, at the token. -/
def splitToken (hash : HASH) (arrived : Time) (expires posted : Option Time) (p : List UInt8) :
    Except String Fields :=
  if p.head? ≠ some HISV6_FIELDSEP ∧ p ≠ [] then
    .error "field separator missing from history line"
  else
    let p := if p.head? = some HISV6_FIELDSEP then p.drop 1 else p
    .ok { hash, arrived, expires, posted, token := if IsToken p then some (TextToToken p) else none }

/-- `hisv6_splitline` from the posted field on. -/
def splitPosted (hash : HASH) (arrived : Time) (expires : Option Time) (p : List UInt8) :
    Except String Fields :=
  if p.head? ≠ some HISV6_SUBFIELDSEP then splitToken hash arrived expires none p
  else
    let l := strtoul (p.drop 1)
    if l.1 = ULONG_MAX then .error "posted timestamp out of range"
    else splitToken hash arrived expires (some (toTime l.1)) l.2

/-- `hisv6_splitline` from the arrived field on. -/
def splitArrived (hash : HASH) (p : List UInt8) : Except String Fields :=
  let l := strtoul p
  if l.1 = ULONG_MAX then .error "arrived timestamp out of range"
  else if l.2.head? ≠ some HISV6_SUBFIELDSEP then splitToken hash (toTime l.1) none none l.2
  else
    let p := l.2.drop 1
    if p.head? = some HISV6_NOEXP then splitPosted hash (toTime l.1) none (p.drop 1)
    else
      let e := strtoul p
      if e.1 = ULONG_MAX then .error "expires timestamp out of range"
      else splitPosted hash (toTime l.1) (some (toTime e.1)) e.2

/-- The test of the 32 digits of the hash. -/
def HasHash (p : List UInt8) : Prop := ∀ i < 32, IsHexDigit (p.getD i 0)

instance (p : List UInt8) : Decidable (HasHash p) :=
  inferInstanceAs (Decidable (∀ i < 32, _))

/-- `hisv6_splitline`. -/
def hisv6Splitline (line : List UInt8) : Except String Fields :=
  let p := line.drop 1
  if line.head? ≠ some 91 then .error "`[' missing from history line"
  else if ¬ HasHash p then .error "invalid hash in history line"
  else if p.getD 32 0 ≠ 93 then .error "`]' missing from history line"
  else if p.getD 33 0 ≠ HISV6_FIELDSEP then .error "field separator missing from history line"
  else splitArrived (TextToHash p) (p.drop 34)

/-! ## Writing a line -/

/-- `%lu` of a time. -/
def timeText (t : Time) : List UInt8 := printed t.toUInt64.toNat

/-- The line, without its newline. -/
def lineText (hash : HASH) (arrived posted expires : Time) (token : Option TOKEN) : List UInt8 :=
  91 :: HashToText hash ++ 93 :: HISV6_FIELDSEP :: timeText arrived ++ HISV6_SUBFIELDSEP ::
    match token with
    | none =>
      -- Only a line to remember an article.
      if posted ≤ 0 then [HISV6_NOEXP]
      else HISV6_NOEXP :: HISV6_SUBFIELDSEP :: timeText posted
    | some token =>
      if expires ≤ 0 then
        HISV6_NOEXP :: HISV6_SUBFIELDSEP :: timeText posted ++ HISV6_FIELDSEP :: TokenToText token
      else
        timeText expires ++ HISV6_SUBFIELDSEP :: timeText posted ++
          HISV6_FIELDSEP :: TokenToText token

/-- `hisv6_formatline`: `none` stands for the 0 it returns when the line does not fit. -/
def hisv6Formatline (hash : HASH) (arrived posted expires : Time) (token : Option TOKEN) :
    Option (List UInt8) :=
  let line := lineText hash arrived posted expires token ++ [NEWLINE]
  if HISV6_MAXLINE ≤ line.length then none else some line

/-- What a line that was written stands for. -/
def written (hash : HASH) (arrived posted expires : Time) (token : Option TOKEN) : Fields where
  hash := hash
  arrived := arrived
  expires := if token.isSome ∧ 0 < expires then some expires else none
  posted := if token.isSome ∨ 0 < posted then some posted else none
  token := token

/-! ## Digits and numbers -/

section Numbers

variable {v : ℕ} {t : Time} {rest : List UInt8}

theorem strtoul_printed (hv : v < 2 ^ 64) (hrest : ∀ c, rest.head? = some c → ¬ IsDigit c) :
    strtoul (printed v ++ rest) = (v, rest) := by
  obtain ⟨d, ds, hp⟩ := List.exists_cons_of_ne_nil (printed_ne_nil v)
  have hdigits : ∀ c ∈ printed v, (decide (IsDigit c)) = true :=
    fun c hc => decide_eq_true (isDigit_of_mem_printed hc)
  have hd : IsDigit d := isDigit_of_mem_printed (v := v) (hp ▸ List.mem_cons_self)
  have hspace : (printed v ++ rest).dropWhile IsSpace = printed v ++ rest := by
    have : ¬ IsSpace d := by
      rintro (rfl | h)
      · exact absurd hd (by decide)
      · unfold IsDigit at hd; omega
    rw [hp, List.cons_append, List.dropWhile_cons_of_neg (by simpa using this)]
  have hhead : (printed v ++ rest).head? = some d := by rw [hp]; rfl
  have hsign : ¬ (some d = some (43 : UInt8) ∨ some d = some 45) := by
    rintro (h | h)
    all_goals
      cases h
      exact absurd hd (by decide)
  have htake : (printed v ++ rest).takeWhile IsDigit = printed v := by
    rw [List.takeWhile_append_of_pos hdigits]
    cases rest with
    | nil => rw [List.takeWhile_nil, List.append_nil]
    | cons c rest =>
      rw [List.takeWhile_cons_of_neg (by simpa using hrest c rfl), List.append_nil]
  have hdrop : (printed v ++ rest).dropWhile IsDigit = rest := by
    rw [List.dropWhile_append_of_pos hdigits]
    cases rest with
    | nil => rfl
    | cons c rest => rw [List.dropWhile_cons_of_neg (by simpa using hrest c rfl)]
  have hmax : ¬ ULONG_MAX < v := by unfold ULONG_MAX; omega
  simp only [strtoul, hspace, hhead, if_neg hsign, htake, hdrop, if_neg (printed_ne_nil v),
    decimalValue_printed, if_neg hmax]
  rw [if_neg fun h => hsign (.inr h)]

theorem strtoul_timeText (t : Time) (hrest : ∀ c, rest.head? = some c → ¬ IsDigit c) :
    strtoul (timeText t ++ rest) = (t.toUInt64.toNat, rest) :=
  strtoul_printed t.toUInt64.toNat_lt hrest

theorem strtoul_timeText_cons (t : Time) (rest : List UInt8) :
    strtoul (timeText t ++ HISV6_SUBFIELDSEP :: rest) =
      (t.toUInt64.toNat, HISV6_SUBFIELDSEP :: rest) := by
  refine strtoul_timeText t fun c hc => ?_
  rw [← Option.some.inj hc]
  decide

theorem toTime_toNat (t : Time) : toTime t.toUInt64.toNat = t := by
  rw [toTime, UInt64.ofNat_toNat, Int64.toInt64_toUInt64]

theorem toNat_lt_of_nonneg (h : 0 ≤ t) : t.toUInt64.toNat < 2 ^ 63 := by
  rw [Int64.toNat_toUInt64_of_le h]
  exact t.toNatClampNeg_lt

theorem toNat_ne_max (h : 0 ≤ t) : t.toUInt64.toNat ≠ ULONG_MAX := by
  have := toNat_lt_of_nonneg h
  unfold ULONG_MAX
  omega

theorem length_timeText_le (h : 0 ≤ t) : (timeText t).length ≤ 19 :=
  length_printed_le (Nat.lt_of_lt_of_le (toNat_lt_of_nonneg h) (by decide)) (by decide)

theorem timeText_ne_nil (t : Time) : timeText t ≠ [] := printed_ne_nil _

end Numbers

/-! ## Tokens -/

section Tokens

variable (token : TOKEN)

@[simp] theorem length_HashToText (hash : HASH) : (HashToText hash).length = 32 := by
  rw [HashToText, length_encodeHex, Vector.length_toList]

@[simp] theorem length_TokenToText : (TokenToText token).length = 38 := by
  rw [TokenToText, List.length_append, List.length_cons, length_encodeHex, Vector.length_toList]
  rfl

theorem ne_at_of_mem_encodeHex {l : List UInt8} {c : UInt8} (h : c ∈ encodeHex l) : c ≠ AT := by
  rintro rfl
  exact absurd (isUpperHexDigit_of_mem_encodeHex h) (by decide)

theorem isToken_TokenToText : IsToken (TokenToText token) := by
  have hne : ∀ c ∈ encodeHex token.toList, (decide (c ≠ AT)) = true :=
    fun c hc => decide_eq_true (ne_at_of_mem_encodeHex hc)
  have hdrop : (TokenToText token).drop 1 = encodeHex token.toList ++ [AT] := rfl
  refine ⟨length_TokenToText token, rfl, ?_, ?_⟩
  · rw [hdrop, List.idxOf?, List.findIdx?_append, List.findIdx?_eq_none_iff.mpr]
    · rw [length_encodeHex, Vector.length_toList]
      rfl
    · intro c hc
      exact beq_false_of_ne (ne_at_of_mem_encodeHex hc)
  · rw [hdrop, List.takeWhile_append_of_pos hne]
    intro c hc
    rw [List.takeWhile_cons_of_neg (by decide), List.append_nil] at hc
    exact isUpperHexDigit_of_mem_encodeHex hc

theorem TextToToken_TokenToText : TextToToken (TokenToText token) = token := by
  rw [TextToToken, if_pos (isToken_TokenToText token)]
  exact decodeHex_encodeHex token [AT]

end Tokens

/-- A token with spaces after it is no token. -/
theorem not_isToken_padded {token : TOKEN} {pad : List UInt8} (h : pad ≠ []) :
    ¬ IsToken (TokenToText token ++ pad) := by
  rintro ⟨hlen, -⟩
  rw [List.length_append, length_TokenToText] at hlen
  exact h (List.length_eq_zero_iff.mp (by omega))

/-! ## Reading what was written -/

section RoundTrip

variable {hash : HASH} {arrived posted expires : Time} {token : Option TOKEN}

/-- The hash at the front of a line. -/
theorem hisv6Splitline_hash (hash : HASH) (rest : List UInt8) :
    hisv6Splitline (91 :: HashToText hash ++ 93 :: HISV6_FIELDSEP :: rest) =
      splitArrived hash rest := by
  have hget : ∀ i < 32, (HashToText hash ++ 93 :: HISV6_FIELDSEP :: rest).getD i 0 =
      (HashToText hash).getD i 0 := by
    intro i hi
    rw [List.getD_append _ _ _ _ (by rw [length_HashToText]; exact hi)]
  have hright : ∀ i, (HashToText hash ++ 93 :: HISV6_FIELDSEP :: rest).getD (32 + i) 0 =
      (93 :: HISV6_FIELDSEP :: rest).getD i 0 := by
    intro i
    rw [List.getD_append_right _ _ _ _ (by rw [length_HashToText]; omega), length_HashToText,
      Nat.add_sub_cancel_left]
  have hhash : HasHash (HashToText hash ++ 93 :: HISV6_FIELDSEP :: rest) := by
    intro i hi
    have hlt : i < (HashToText hash).length := by rw [length_HashToText]; exact hi
    rw [hget i hi, List.getD_eq_getElem _ _ hlt]
    exact (isUpperHexDigit_of_mem_encodeHex (List.getElem_mem hlt)).isHexDigit
  have htext : TextToHash (HashToText hash ++ 93 :: HISV6_FIELDSEP :: rest) = hash := by
    have hall : ∀ c ∈ HashToText hash, (decide (IsHexDigit c)) = true :=
      fun c hc => decide_eq_true (isUpperHexDigit_of_mem_encodeHex hc).isHexDigit
    rw [TextToHash, List.takeWhile_append_of_pos hall, List.takeWhile_cons_of_neg (by decide)]
    exact decodeHex_encodeHex hash []
  have hdrop : (HashToText hash ++ 93 :: HISV6_FIELDSEP :: rest).drop 34 = rest := by
    rw [List.drop_append, List.drop_eq_nil_of_le (by rw [length_HashToText]; decide),
      length_HashToText]
    rfl
  simp only [hisv6Splitline, List.cons_append, List.head?_cons, List.drop_succ_cons, List.drop_zero,
    hhash, htext, hdrop, hright 0, hright 1]
  rfl

theorem splitArrived_timeText {rest : List UInt8} (h : 0 ≤ arrived) :
    splitArrived hash (timeText arrived ++ HISV6_SUBFIELDSEP :: HISV6_NOEXP :: rest) =
      splitPosted hash arrived none rest := by
  simp only [splitArrived, strtoul_timeText_cons,
    if_neg (toNat_ne_max h), toTime_toNat, List.head?_cons, List.drop_succ_cons, List.drop_zero]
  rfl

theorem splitArrived_expires {rest : List UInt8} (h : 0 ≤ arrived) (he : 0 ≤ expires) :
    splitArrived hash (timeText arrived ++ HISV6_SUBFIELDSEP ::
        (timeText expires ++ HISV6_SUBFIELDSEP :: rest)) =
      splitPosted hash arrived (some expires) (HISV6_SUBFIELDSEP :: rest) := by
  obtain ⟨d, ds, hp⟩ := List.exists_cons_of_ne_nil (timeText_ne_nil expires)
  have hmem : d ∈ timeText expires := hp ▸ List.mem_cons_self
  have hd : IsDigit d := isDigit_of_mem_printed hmem
  have hhead : (timeText expires ++ HISV6_SUBFIELDSEP :: rest).head? ≠ some HISV6_NOEXP := by
    rw [hp]
    intro hc
    exact absurd (Option.some.inj hc ▸ hd) (by decide)
  simp only [splitArrived, strtoul_timeText_cons,
    if_neg (toNat_ne_max h), toTime_toNat, List.head?_cons, List.drop_succ_cons, List.drop_zero,
    ne_eq, not_true_eq_false, if_false, if_neg hhead,
    if_neg (toNat_ne_max he)]

theorem splitPosted_timeText {expires : Option Time} {rest : List UInt8} (h : 0 ≤ posted)
    (hrest : ∀ c, rest.head? = some c → ¬ IsDigit c) :
    splitPosted hash arrived expires (HISV6_SUBFIELDSEP :: (timeText posted ++ rest)) =
      splitToken hash arrived expires (some posted) rest := by
  simp only [splitPosted, List.head?_cons, List.drop_succ_cons, List.drop_zero, ne_eq,
    not_true_eq_false, if_false, strtoul_timeText posted hrest, if_neg (toNat_ne_max h), toTime_toNat]

theorem splitToken_TokenToText {expires posted : Option Time} (token : TOKEN) (pad : List UInt8) :
    splitToken hash arrived expires posted (HISV6_FIELDSEP :: (TokenToText token ++ pad)) =
      .ok { hash, arrived, expires, posted, token := if pad = [] then some token else none } := by
  by_cases h : pad = []
  · subst h
    simp only [splitToken, List.head?_cons, ne_eq, not_true_eq_false, false_and, if_false, if_true,
      List.drop_succ_cons, List.drop_zero, List.append_nil, isToken_TokenToText token,
      TextToToken_TokenToText token]
  · simp only [splitToken, List.head?_cons, ne_eq, not_true_eq_false, false_and, if_false, if_true,
      List.drop_succ_cons, List.drop_zero, not_isToken_padded h, h]

/-- Reading a line back, with spaces after it: they hide a token, and without a token the
line is taken for a bad one. -/
theorem hisv6Splitline_padded (hash : HASH) (token : Option TOKEN) (ha : 0 ≤ arrived) (hp : 0 ≤ posted)
    (he : 0 ≤ expires) (k : ℕ) :
    hisv6Splitline (lineText hash arrived posted expires token ++ List.replicate k SPACE) =
      if k = 0 then .ok (written hash arrived posted expires token)
      else if token.isSome then
        .ok { written hash arrived posted expires token with token := none }
      else .error "field separator missing from history line" := by
  have hpad : ∀ c, (List.replicate k SPACE).head? = some c → ¬ IsDigit c := by
    intro c hc
    rw [List.eq_of_mem_replicate (List.mem_of_mem_head? hc)]
    decide
  have hspace : ∀ (f p : Option Time), splitToken hash arrived f p (List.replicate k SPACE) =
      if k = 0 then .ok { hash, arrived, expires := f, posted := p, token := none }
      else .error "field separator missing from history line" := by
    intro f p
    cases k with
    | zero => rfl
    | succ k => rfl
  have hsub : ∀ rest c, (HISV6_FIELDSEP :: rest).head? = some c → ¬ IsDigit c := by
    intro rest c hc
    rw [← Option.some.inj hc]
    decide
  rcases token with - | token
  · have hfst : written hash arrived posted expires none =
        { hash, arrived, expires := none, posted := if 0 < posted then some posted else none,
          token := none } := by
      simp [written]
    simp only [lineText, hfst, Option.isSome_none]
    split
    · rename_i hposted
      rw [if_neg (Int64.not_lt.mpr hposted)]
      simp only [List.append_assoc, List.cons_append, List.nil_append]
      refine (hisv6Splitline_hash hash _).trans ((splitArrived_timeText ha).trans ?_)
      rw [splitPosted, if_pos, hspace]
      · rfl
      · intro h
        exact absurd (List.eq_of_mem_replicate (List.mem_of_mem_head? h)) (by decide)
    · rename_i hposted
      rw [if_pos (Int64.not_le.mp hposted)]
      simp only [List.append_assoc, List.cons_append]
      refine (hisv6Splitline_hash hash _).trans ((splitArrived_timeText ha).trans ?_)
      rw [splitPosted_timeText hp hpad, hspace]
      rfl
  · have hfst : written hash arrived posted expires (some token) =
        { hash, arrived, expires := if 0 < expires then some expires else none,
          posted := some posted, token := some token } := by
      simp [written]
    have htoken : ∀ f : Option Time, splitPosted hash arrived f (HISV6_SUBFIELDSEP ::
        (timeText posted ++ HISV6_FIELDSEP :: (TokenToText token ++ List.replicate k SPACE))) =
        if k = 0 then .ok { hash, arrived, expires := f, posted := some posted, token := some token }
        else .ok { hash, arrived, expires := f, posted := some posted, token := none } := by
      intro f
      rw [splitPosted_timeText hp (hsub _)]
      refine (splitToken_TokenToText token _).trans ?_
      by_cases hk : k = 0
      · simp [hk]
      · simp [hk]
    simp only [lineText, hfst, Option.isSome_some, if_true]
    split
    · rename_i hexpires
      rw [if_neg (Int64.not_lt.mpr hexpires)]
      simp only [List.append_assoc, List.cons_append]
      exact (hisv6Splitline_hash hash _).trans ((splitArrived_timeText ha).trans (htoken none))
    · rename_i hexpires
      rw [if_pos (Int64.not_le.mp hexpires)]
      simp only [List.append_assoc, List.cons_append]
      exact (hisv6Splitline_hash hash _).trans
        ((splitArrived_expires ha he).trans (htoken (some expires)))

/-- Reading back a line that was written. -/
theorem hisv6Splitline_lineText (ha : 0 ≤ arrived) (hp : 0 ≤ posted) (he : 0 ≤ expires) :
    hisv6Splitline (lineText hash arrived posted expires token) =
      .ok (written hash arrived posted expires token) := by
  have h := hisv6Splitline_padded hash token ha hp he 0
  rwa [List.replicate_zero, List.append_nil, if_pos rfl] at h

end RoundTrip

end Inn.History
