import Mathlib.Data.List.Basic
import Inn.Base

/-!
# Inn.Libinn.Uwildmat — wildmat expressions

The functions of `uwildmat.c` walk over strings that end with a NUL. Here a string is the list
of the bytes before it, and a pointer into it the list of those that are left. A pattern is
given by its first and its last byte; where the code looks at the byte behind the last one, this
is the argument `stop`: the NUL, or the comma in front of the next pattern.
-/

namespace Inn.Libinn.Uwildmat

/-- The bytes of a string, without its NUL. -/
abbrev CString := {s : List UInt8 // (0 : UInt8) ∉ s}

/-! ## Characters -/

/-- `ISUTF8`. -/
def ISUTF8 (c : UInt8) : Bool := c &&& 0xc0 == 0xc0

/-- A byte behind the first one of a character. -/
def isTail (c : UInt8) : Bool := c &&& 0xc0 == 0x80

/-- The loop over the masks that counts the first bits of a byte. -/
def countBits (c : UInt8) : List UInt8 → ℕ
  | [] => 0
  | mask :: masks => if c &&& mask = mask then countBits c masks + 1 else 0

/-- The length that the first byte of a character tells. -/
def leading (c : UInt8) : ℕ := countBits c [0x80, 0x40, 0x20, 0x10, 0x08, 0x04, 0x02, 0x01]

/-- `utf8_length`; a character that is cut off by the end of the string has not all its bytes
behind the first one. -/
def utf8_length (s : List UInt8) : ℕ :=
  match s with
  | [] => 1
  | c :: s =>
    let length := leading c
    if length < 2 ∨ 6 < length then 1
    else if length - 1 ≤ s.length ∧ (s.take (length - 1)).all isTail then length else 1

/-- The loop of `utf8_decode` over the bytes behind the first one. -/
def decodeTail (value : ℕ) (s : List UInt8) : ℕ :=
  s.foldl (fun value c => value <<< 6 ||| (c &&& 0x3f).toNat) value

/-- `utf8_decode`: the value of a character. -/
def utf8_decode (s : List UInt8) : ℕ :=
  match s with
  | [] => 0
  | c :: s =>
    let length := utf8_length (c :: s)
    if length < 2 then c.toNat
    else decodeTail (c.toNat &&& (1 <<< (7 - length) - 1)) (s.take (length - 1))

/-- How far the pointer goes on by one character. -/
def width (s : List UInt8) : ℕ :=
  match s with
  | [] => 1
  | c :: s => if ISUTF8 c then utf8_length (c :: s) else 1

theorem utf8_length_pos (s : List UInt8) : 0 < utf8_length s := by
  unfold utf8_length
  split
  · exact Nat.one_pos
  · dsimp only
    split
    · exact Nat.one_pos
    · split
      · omega
      · exact Nat.one_pos

theorem width_pos (s : List UInt8) : 0 < width s := by
  unfold width
  split
  · exact Nat.one_pos
  · split
    · exact utf8_length_pos _
    · exact Nat.one_pos

/-- `is_valid_utf8` without the test for characters that can be printed. -/
def is_valid_utf8 : List UInt8 → Bool
  | [] => true
  | c :: s =>
    let length := leading c
    if length = 0 then is_valid_utf8 s
    else if length < 2 ∨ 6 < length then false
    else if length - 1 ≤ s.length ∧ (s.take (length - 1)).all isTail then
      is_valid_utf8 (s.drop (length - 1))
    else false
termination_by s => s.length
decreasing_by
  · exact Nat.lt_succ_self _
  · rw [List.length_drop]
    exact Nat.lt_succ_of_le (Nat.sub_le _ _)

/-! ## Classes -/

/-- The loop of `match_class`, over what is left of the class. `first` is there when a range may
begin with it. -/
def classLoop (text : ℕ) (first : Option ℕ) (s : List UInt8) : Bool :=
  match first, s with
  | _, [] => false
  | some first, 45 :: c :: s =>
    (decide (first ≤ text) && decide (text ≤ utf8_decode (c :: s))) ||
      classLoop text none ((c :: s).drop (utf8_length (c :: s)))
  | _, c :: s =>
    text == utf8_decode (c :: s) ||
      classLoop text (some (utf8_decode (c :: s))) ((c :: s).drop (utf8_length (c :: s)))
termination_by s.length
decreasing_by
  all_goals
    have := utf8_length_pos (c :: s)
    simp only [List.length_drop, List.length_cons]
    omega

/-- `match_class`. -/
def match_class (text : ℕ) (s : List UInt8) : Bool :=
  if s.head? = some 94 then !classLoop text none s.tail else classLoop text none s

/-! ## Patterns -/

/-- What `match_pattern` returns: `true`, `false` or `ABORT`. -/
inductive Matched where
  | true
  | false
  | ABORT
deriving DecidableEq

/-- The loop behind a star, where `literal` is the byte behind it unless this is special; `m` is
the recursive call, which is made behind the literal byte. -/
def starLoop (literal : Option UInt8) (m : List UInt8 → Matched) (text : List UInt8) : Matched :=
  match text with
  | [] => .ABORT
  | t :: text =>
    match literal with
    | none =>
      match m (t :: text) with
      | .false => starLoop literal m ((t :: text).drop (width (t :: text)))
      | matched => matched
    | some c =>
      if t = c then
        match m text with
        | .false => starLoop literal m text
        | matched => matched
      else starLoop literal m ((t :: text).drop (width (t :: text)))
termination_by text.length
decreasing_by
  all_goals
    have := width_pos (t :: text)
    simp only [List.length_drop, List.length_cons]
    omega

/-- The end of a class behind its `[`: its bytes, and what is left of the pattern behind
the `]`. -/
def classEnd (p : List UInt8) : Option (List UInt8 × List UInt8) :=
  let k := (if p.head? = some 94 then 1 else 0) + 1
  let q := p.drop k
  if 93 ∈ q then some (p.take k ++ q.takeWhile (· ≠ 93), (q.dropWhile (· ≠ 93)).tail) else none

theorem classEnd_length {p cls rest : List UInt8} (h : classEnd p = some (cls, rest)) :
    rest.length ≤ p.length := by
  unfold classEnd at h
  dsimp only at h
  generalize (if p.head? = some 94 then 1 else 0) + 1 = k at h
  by_cases hq : 93 ∈ p.drop k
  · rw [if_pos hq] at h
    obtain ⟨-, rfl⟩ := Prod.mk.inj (Option.some.inj h)
    have := (List.dropWhile_sublist (l := p.drop k) (· ≠ 93)).length_le
    rw [List.length_drop] at this
    rw [List.length_tail]
    omega
  · rw [if_neg hq] at h
    cases h

/-- `match_pattern`. -/
def match_pattern (stop : UInt8) (text : List UInt8) (p : List UInt8) : Matched :=
  match p with
  | [] => if text = [] then .true else .false
  | c :: p =>
    if text = [] ∧ c ≠ 42 then .ABORT
    else if c = 92 then
      let c := p.headD stop
      if c = 0 then .ABORT
      else if text.head? = some c then match_pattern stop text.tail p.tail
      else .false
    else if c = 63 then match_pattern stop (text.drop (width text)) p
    else if c = 42 then
      match _hp : p.dropWhile (· = 42) with
      | [] => .true
      | c :: q =>
        if c = 91 ∨ c = 63 ∨ c = 92 then
          starLoop none (fun text => match_pattern stop text (c :: q)) text
        else starLoop (some c) (fun text => match_pattern stop text q) text
    else if c = 91 then
      match _hp : classEnd p with
      | none => .ABORT
      | some (cls, rest) =>
        if match_class (utf8_decode text) cls then
          match_pattern stop (text.drop (utf8_length text)) rest
        else .false
    else if text.head? = some c then match_pattern stop text.tail p
    else .false
termination_by p.length
decreasing_by
  · rw [List.length_tail, List.length_cons]
    omega
  · exact Nat.lt_succ_self _
  · have := (List.dropWhile_sublist (l := p) (· = 42)).length_le
    rw [_hp] at this
    exact Nat.lt_succ_of_le this
  · have := (List.dropWhile_sublist (l := p) (· = 42)).length_le
    rw [_hp, List.length_cons] at this
    rw [List.length_cons]
    omega
  · exact Nat.lt_succ_of_le (classEnd_length _hp)
  · exact Nat.lt_succ_self _

/-! ### One case at a time -/

section Cases

variable {stop c : UInt8} {text p : List UInt8}

/-- What each byte of the pattern does, one case at a time. -/
theorem match_pattern_cons (stop c : UInt8) (text p : List UInt8) :
    (text = [] → c ≠ 42 → match_pattern stop text (c :: p) = .ABORT) ∧
    (text ≠ [] → c = 92 → match_pattern stop text (c :: p) =
      if p.headD stop = 0 then .ABORT
      else if text.head? = some (p.headD stop) then match_pattern stop text.tail p.tail
      else .false) ∧
    (text ≠ [] → c = 63 →
      match_pattern stop text (c :: p) = match_pattern stop (text.drop (width text)) p) ∧
    (c = 42 → p.dropWhile (· = 42) = [] → match_pattern stop text (c :: p) = .true) ∧
    (c = 42 → ∀ c' q, p.dropWhile (· = 42) = c' :: q → match_pattern stop text (c :: p) =
      if c' = 91 ∨ c' = 63 ∨ c' = 92 then
        starLoop none (fun text => match_pattern stop text (c' :: q)) text
      else starLoop (some c') (fun text => match_pattern stop text q) text) ∧
    (text ≠ [] → c = 91 → classEnd p = none → match_pattern stop text (c :: p) = .ABORT) ∧
    (text ≠ [] → c = 91 → ∀ cls rest, classEnd p = some (cls, rest) →
      match_pattern stop text (c :: p) =
        if match_class (utf8_decode text) cls then
          match_pattern stop (text.drop (utf8_length text)) rest
        else .false) ∧
    (text ≠ [] → c ≠ 92 → c ≠ 63 → c ≠ 42 → c ≠ 91 → match_pattern stop text (c :: p) =
      if text.head? = some c then match_pattern stop text.tail p else .false) := by
  rw [match_pattern]
  refine ⟨fun h hc => if_pos ⟨h, hc⟩, fun h hc => ?_, fun h hc => ?_, fun hc hp => ?_,
    fun hc c' q hp => ?_, fun h hc hp => ?_, fun h hc cls rest hp => ?_,
    fun h h92 h63 h42 h91 => ?_⟩
  · rw [if_neg fun hand => h hand.1, if_pos hc]
  · subst hc
    rw [if_neg fun hand => h hand.1, if_neg (by decide), if_pos rfl]
  · subst hc
    rw [if_neg fun hand => hand.2 rfl, if_neg (by decide), if_neg (by decide), if_pos rfl]
    split
    · rfl
    · rename_i heq
      rw [hp] at heq
      cases heq
  · subst hc
    rw [if_neg fun hand => hand.2 rfl, if_neg (by decide), if_neg (by decide), if_pos rfl]
    split
    · rename_i heq
      rw [hp] at heq
      cases heq
    · rename_i heq
      rw [hp] at heq
      cases heq
      rfl
  · subst hc
    rw [if_neg fun hand => h hand.1, if_neg (by decide), if_neg (by decide), if_neg (by decide),
      if_pos rfl]
    split
    · rfl
    · rename_i heq
      rw [hp] at heq
      cases heq
  · subst hc
    rw [if_neg fun hand => h hand.1, if_neg (by decide), if_neg (by decide), if_neg (by decide),
      if_pos rfl]
    split
    · rename_i heq
      rw [hp] at heq
      cases heq
    · rename_i heq
      rw [hp] at heq
      cases heq
      rfl
  · rw [if_neg fun hand => h hand.1, if_neg h92, if_neg h63, if_neg h42, if_neg h91]

/-- At the end of the text only a star goes on. -/
theorem match_empty (hc : c ≠ 42) : match_pattern stop [] (c :: p) = .ABORT :=
  (match_pattern_cons stop c [] p).1 rfl hc

theorem match_escape (h : text ≠ []) : match_pattern stop text (92 :: p) =
    if p.headD stop = 0 then .ABORT
    else if text.head? = some (p.headD stop) then match_pattern stop text.tail p.tail
    else .false :=
  (match_pattern_cons stop 92 text p).2.1 h rfl

theorem match_any (h : text ≠ []) :
    match_pattern stop text (63 :: p) = match_pattern stop (text.drop (width text)) p :=
  (match_pattern_cons stop 63 text p).2.2.1 h rfl

theorem match_star_end (h : p.dropWhile (· = 42) = []) :
    match_pattern stop text (42 :: p) = .true :=
  (match_pattern_cons stop 42 text p).2.2.2.1 rfl h

theorem match_star {q : List UInt8} (h : p.dropWhile (· = 42) = c :: q) :
    match_pattern stop text (42 :: p) =
      if c = 91 ∨ c = 63 ∨ c = 92 then
        starLoop none (fun text => match_pattern stop text (c :: q)) text
      else starLoop (some c) (fun text => match_pattern stop text q) text :=
  (match_pattern_cons stop 42 text p).2.2.2.2.1 rfl c q h

theorem match_open (h : text ≠ []) (hp : classEnd p = none) :
    match_pattern stop text (91 :: p) = .ABORT :=
  (match_pattern_cons stop 91 text p).2.2.2.2.2.1 h rfl hp

theorem match_cls (h : text ≠ []) {cls rest : List UInt8} (hp : classEnd p = some (cls, rest)) :
    match_pattern stop text (91 :: p) =
      if match_class (utf8_decode text) cls then
        match_pattern stop (text.drop (utf8_length text)) rest
      else .false :=
  (match_pattern_cons stop 91 text p).2.2.2.2.2.2.1 h rfl cls rest hp

/-- One turn of the loop behind a star, where no literal byte is searched for. -/
theorem starLoop_any (m : List UInt8 → Matched) (t : UInt8) :
    starLoop none m (t :: text) =
      if m (t :: text) = .false then starLoop none m ((t :: text).drop (width (t :: text)))
      else m (t :: text) := by
  rw [starLoop]
  cases m (t :: text) <;> rfl

/-- One turn of the search for a literal byte. -/
theorem starLoop_byte (m : List UInt8 → Matched) (t : UInt8) :
    starLoop (some c) m (t :: text) =
      if t = c then if m text = .false then starLoop (some c) m text else m text
      else starLoop (some c) m ((t :: text).drop (width (t :: text))) := by
  rw [starLoop]
  cases m text <;> rfl

/-- A byte that stands for itself. -/
def literal (c : UInt8) : Prop := c ≠ 92 ∧ c ≠ 63 ∧ c ≠ 42 ∧ c ≠ 91

theorem match_literal (h : text ≠ []) (hc : literal c) : match_pattern stop text (c :: p) =
    if text.head? = some c then match_pattern stop text.tail p else .false :=
  (match_pattern_cons stop c text p).2.2.2.2.2.2.2 h hc.1 hc.2.1 hc.2.2.1 hc.2.2.2

end Cases

/-- `uwildmat_simple`. -/
def uwildmat_simple (text pat : List UInt8) : Bool :=
  if pat = [42] then true else match_pattern 0 text pat = .true

/-! ## Expressions -/

/-- `enum uwildmat`. -/
inductive Verdict where
  | UWILDMAT_FAIL
  | UWILDMAT_MATCH
  | UWILDMAT_POISON
deriving DecidableEq

/-- How far the search for a comma goes over a class behind its `[`: the number of the bytes in
front of the `]`, or of all bytes, and what is left behind it. -/
def skipClass (s : List UInt8) : ℕ × List UInt8 :=
  let k := if s.head? = some 93 then 1 else 0
  (k + ((s.drop k).takeWhile (· ≠ 93)).length, ((s.drop k).dropWhile (· ≠ 93)).tail)

theorem skipClass_length (s : List UInt8) : (skipClass s).2.length ≤ s.length := by
  unfold skipClass
  dsimp only
  generalize (if s.head? = some 93 then 1 else 0) = k
  have := (List.dropWhile_sublist (l := s.drop k) (· ≠ 93)).length_le
  rw [List.length_drop] at this
  rw [List.length_tail]
  omega

/-- The loop that searches the comma behind a pattern: the distance of `split`. Behind a class
without an end it is one more than the number of the bytes. -/
def splitLoop (escaped : Bool) (s : List UInt8) : ℕ :=
  match s with
  | [] => 0
  | c :: s =>
    if c = 91 then (skipClass s).1 + 2 + splitLoop false (skipClass s).2
    else if c = 44 ∧ escaped = false then 0
    else 1 + splitLoop (c == 92 && !escaped) s
termination_by s.length
decreasing_by
  · exact Nat.lt_succ_of_le (skipClass_length s)
  · exact Nat.lt_succ_self _

/-- A pattern without its `!` or `@`. -/
def unsigned (reverse : Bool) (p : List UInt8) : List UInt8 := if reverse then p.tail else p

theorem unsigned_length (reverse : Bool) (p : List UInt8) :
    (unsigned reverse p).length ≤ p.length := by
  unfold unsigned
  split
  · rw [List.length_tail]
    exact Nat.sub_le _ _
  · exact Nat.le_refl _

/-- The main loop of `match_expression`, from `p` on: `match` and `poisoned`. -/
def patternLoop (text : List UInt8) (allowpoison : Bool) (p : List UInt8)
    (matched poisoned : Bool) : Bool × Bool :=
  let poison := allowpoison && p.head? == some 64
  let reverse := p.head? == some 33 || poison
  let q := unsigned reverse p
  let split := splitLoop false q
  -- a pattern whose last byte is the NUL is not looked at behind it
  let found := !(matched == !reverse && poison == poisoned) &&
    match_pattern ((q ++ [0]).getD split 0) text ((q ++ [0]).take split) == .true
  let now := if found then (!reverse, poison) else (matched, poisoned)
  if split < q.length then patternLoop text allowpoison (q.drop (split + 1)) now.1 now.2
  else now
termination_by p.length
decreasing_by
  rename_i h
  have hq : q.length ≤ p.length := unsigned_length reverse p
  change (q.drop (split + 1)).length < p.length
  rw [List.length_drop]
  omega

/-- `match_expression`. -/
def match_expression (text start : List UInt8) (allowpoison : Bool) : Verdict :=
  if start = [] then if text = [] then .UWILDMAT_MATCH else .UWILDMAT_FAIL
  else
    let now := patternLoop text allowpoison start false false
    if now.2 then .UWILDMAT_POISON
    else if now.1 then .UWILDMAT_MATCH
    else .UWILDMAT_FAIL

/-- `uwildmat`. -/
def uwildmat (text pat : List UInt8) : Bool :=
  if pat = [42] then true else match_expression text pat false = .UWILDMAT_MATCH

/-- `uwildmat_poison`. -/
def uwildmat_poison (text pat : List UInt8) : Verdict :=
  if pat = [42] then .UWILDMAT_MATCH else match_expression text pat true

end Inn.Libinn.Uwildmat
