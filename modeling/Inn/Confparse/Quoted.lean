import Mathlib.Algebra.GroupWithZero.Nat
import Mathlib.Data.Nat.Notation
import Mathlib.Data.List.GetD
import Mathlib.Data.List.TakeWhile

/-!
# Inn.Confparse.Quoted — quoted strings of a configuration file

`token_quoted_string` finds the end of a quoted string in the buffer, which it fills
again when it comes to the nul in it; `token_unquote_string` decodes the string later.

* `file_read_more_spec` — what the buffer is filled with;
* `quotedLoop_pieces` — every string the first accepts has its escapes whole;
* `quotedLoop_body` — where the first finds the end, however the text came in;
* `quoted_string_iff` — when a string written in quotes is read back.
-/

namespace Inn.Confparse

def TAB : UInt8 := 9

def LF : UInt8 := 10

def CR : UInt8 := 13

def QUOTE : UInt8 := 34

def BACKSLASH : UInt8 := 92

/-- `enum token_type`. -/
inductive token_type where
  | TOKEN_CRLF
  | TOKEN_STRING
  | TOKEN_QSTRING
  | TOKEN_PARAM
  | TOKEN_LBRACE
  | TOKEN_RBRACE
  | TOKEN_LANGLE
  | TOKEN_RANGLE
  | TOKEN_LBRACKET
  | TOKEN_RBRACKET
  | TOKEN_SEMICOLON
  | TOKEN_EOF
  | TOKEN_ERROR
deriving DecidableEq

/-- The token in a `struct config_file`. -/
structure Token where
  type : token_type
  string : List UInt8
deriving DecidableEq

/-- `struct config_file`, with what is still unread of its file. -/
structure config_file where
  unread : List UInt8
  buffer : List UInt8
  bufsize : ℕ
  line : ℕ
  error : Bool
  current : ℕ
  token : Token

/-! ## The code -/

/-- The string that starts at a place. -/
def stringAt (mem : List UInt8) (p : ℕ) : List UInt8 := (mem.drop p).takeWhile (· ≠ 0)

/-- Bytes are put at a place. -/
def put (mem : List UInt8) (p : ℕ) (bytes : List UInt8) : List UInt8 :=
  mem.take p ++ bytes ++ mem.drop (p + bytes.length)

/-- `read` of a regular file: the bytes, and the file after it. -/
def config_file.read (file : config_file) (amount : ℕ) : List UInt8 × config_file :=
  (file.unread.take amount, { file with unread := file.unread.drop amount })

/-- `file_read`. -/
def file_read (file : config_file) : Bool × config_file :=
  let (data, file) := file.read (file.bufsize - 1)
  if data = [] then (false, { file with token.type := .TOKEN_EOF })
  else
    let file := { file with buffer := put file.buffer 0 (data ++ [0]), current := 0 }
    (decide ((stringAt file.buffer 0).length = data.length), file)

section Reading

variable (BUFSIZ : ℕ)

/-- The first half of `file_read_more`: the buffer after the move or the growth, and the
values of `start` and `amount`. -/
def makeRoom (file : config_file) (offset : ℕ) : config_file × ℕ × ℕ :=
  if 0 < offset then
    let left := file.bufsize - offset - 1
    ({ file with
        buffer := put file.buffer 0 ((file.buffer.drop offset).take left)
        current := file.current - offset }, left, offset)
  else
    ({ file with
        buffer := file.buffer ++ List.replicate BUFSIZ 0
        current := 0
        bufsize := file.bufsize + BUFSIZ }, file.bufsize - 1, BUFSIZ)

/-- `file_read_more`. -/
def file_read_more (file : config_file) (offset : ℕ) : Bool × config_file :=
  let (file, start, amount) := makeRoom BUFSIZ file offset
  let (data, file) := file.read amount
  if data = [] then (false, file)
  else
    let file := { file with buffer := put file.buffer start (data ++ [0]) }
    (decide ((stringAt file.buffer start).length = data.length), file)

/-- `file->current[i]`. -/
def config_file.peek (file : config_file) (i : ℕ) : UInt8 := file.buffer.getD (file.current + i) 0

/-- The end of `token_quoted_string` after an error. -/
def config_file.fail (file : config_file) : config_file :=
  { file with token.type := .TOKEN_ERROR, error := true }

/-- The loop of `token_quoted_string`. -/
def quotedLoop : ℕ → config_file → ℕ → Option config_file
  | 0, _, _ => none
  | fuel + 1, file, i =>
    let c := file.peek i
    if c = QUOTE then
      some { file with
        token := ⟨.TOKEN_QSTRING, stringAt ((file.buffer.drop file.current).take (i + 1)) 0⟩
        current := file.current + (i + 1) }
    else if c = CR ∨ c = LF then some file.fail
    else if c = BACKSLASH then
      let (status, file) :=
        if file.peek (i + 1) = 0 then file_read_more BUFSIZ file file.current else (true, file)
      if status then
        let d := file.peek (i + 1)
        if d = LF then quotedLoop fuel { file with line := file.line + 1 } (i + 2)
        else if d = CR then
          quotedLoop fuel { file with line := file.line + 1 }
            (if file.peek (i + 2) = LF then i + 3 else i + 2)
        else quotedLoop fuel file (i + 2)
      else some file.fail
    else if c = 0 then
      let (status, file) := file_read_more BUFSIZ file file.current
      if status then
        -- `i` goes back by one, and the loop adds it again
        quotedLoop fuel file
          (if file.peek (i - 1) = CR ∧ file.peek i = LF then i + 1 else i)
      else some file.fail
    else quotedLoop fuel file (i + 1)

section Equations

-- the equations, once for all proofs below
attribute [local simp] quotedLoop

end Equations

/-- `token_quoted_string`. A pass of its loop uses up a byte of the buffer, or fills it. -/
def token_quoted_string (file : config_file) : Option config_file :=
  quotedLoop BUFSIZ (2 * file.unread.length + file.buffer.length + 1) file 1

end Reading

/-- What `token_unquote_string` comes to. -/
inductive Unquoted where
  | string (s : List UInt8)
  /-- "unterminated string" -/
  | unterminated
  /-- "unterminated string (no closing quote)" -/
  | noCloseQuote
  /-- "unrecognized escape" -/
  | unrecognized (c : UInt8)
deriving DecidableEq

/-- The `switch` of `token_unquote_string`: what is written for an escape. -/
def escapeValue (c : UInt8) : Option (List UInt8) :=
  if c = 97 then some [7]
  else if c = 98 then some [8]
  else if c = 102 then some [12]
  else if c = 110 then some [10]
  else if c = 114 then some [13]
  else if c = 116 then some [9]
  else if c = 118 then some [11]
  else if c = LF then some []
  else if c = BACKSLASH ∨ c = 39 ∨ c = QUOTE ∨ c = 63 then some [c]
  else none

/-- The loop of `token_unquote_string`, from `src` on: what it comes to, and all that has
been written to `string` then. -/
def unquoteLoop : List UInt8 → List UInt8 → Unquoted × List UInt8
  | [], dest => (.noCloseQuote, dest ++ [0])
  | c :: src, dest =>
    if c = QUOTE then (.string dest, dest ++ [0])
    else if c = BACKSLASH then
      match src with
      | [] => (.unterminated, dest)
      | d :: src =>
        match escapeValue d with
        | some out => unquoteLoop src (dest ++ out)
        | none => (.unrecognized d, dest)
    else unquoteLoop src (dest ++ [c])

section Equations

-- the equations, once for all proofs below
attribute [local simp] unquoteLoop

end Equations

/-- `token_unquote_string`. -/
def token_unquote_string (raw : List UInt8) : Unquoted × List UInt8 := unquoteLoop raw.tail []

/-! ## The buffer -/

/-- `text` is in the buffer from `current` on, up to a nul; and the buffer is full, unless all
of the file has been read. -/
structure Loaded (file : config_file) (text : List UInt8) : Prop where
  split : ∃ junk, file.buffer.drop file.current = text ++ 0 :: junk
  nul : 0 ∉ text
  size : file.buffer.length = file.bufsize
  full : file.unread = [] ∨ file.current + text.length + 1 = file.bufsize

section Buffer

variable {file : config_file} {text pre post : List UInt8} {c : UInt8}

theorem Loaded.peek (h : Loaded file (pre ++ post)) :
    file.peek pre.length = post.headD 0 := by
  obtain ⟨junk, hsplit⟩ := h.split
  have hget : file.buffer.getD (file.current + pre.length) 0 =
      (file.buffer.drop file.current).getD pre.length 0 := by
    simp only [List.getD_eq_getElem?_getD, List.getElem?_drop]
  rw [config_file.peek, hget, hsplit, List.append_assoc, List.getD_append_right _ _ _ _ (by simp)]
  cases post <;> simp

theorem Loaded.peek_succ (h : Loaded file (pre ++ c :: post)) :
    file.peek (pre.length + 1) = post.headD 0 := by
  have h' : Loaded file ((pre ++ [c]) ++ post) := by simpa using h
  simpa using h'.peek

theorem Loaded.ne_zero (h : Loaded file (pre ++ c :: post)) : c ≠ 0 :=
  fun heq => h.nul (by simp [heq])

theorem Loaded.length_le (h : Loaded file text) : text.length < file.buffer.length := by
  obtain ⟨junk, hsplit⟩ := h.split
  have hlen := congrArg List.length hsplit
  simp only [List.length_drop, List.length_append, List.length_cons] at hlen
  omega

/-- The string that is cut out of the buffer. -/
theorem Loaded.strndup (h : Loaded file (pre ++ post)) :
    stringAt ((file.buffer.drop file.current).take pre.length) 0 = pre := by
  obtain ⟨junk, hsplit⟩ := h.split
  rw [hsplit, List.append_assoc, List.take_left, stringAt, List.drop_zero]
  refine List.takeWhile_eq_self_iff.mpr fun c hc => decide_eq_true fun heq => h.nul ?_
  exact List.mem_append_left _ (heq ▸ hc)

theorem Loaded.line (h : Loaded file text) (n : ℕ) : Loaded { file with line := n } text :=
  ⟨h.split, h.nul, h.size, h.full⟩

end Buffer

theorem length_put {mem bytes : List UInt8} {p : ℕ} (h : p + bytes.length ≤ mem.length) :
    (put mem p bytes).length = mem.length := by
  simp only [put, List.length_append, List.length_take, List.length_drop]
  omega

theorem drop_put {mem bytes : List UInt8} {p : ℕ} (h : p + bytes.length ≤ mem.length) :
    (put mem p bytes).drop p = bytes ++ mem.drop (p + bytes.length) := by
  rw [put, List.append_assoc, List.drop_append_of_le_length (by simp; omega),
    List.drop_take_self, List.nil_append]

/-- The count that `strlen` has to agree with says that there is no nul in the bytes. -/
theorem length_stringAt_iff {mem data rest : List UInt8} {p : ℕ}
    (h : mem.drop p = data ++ 0 :: rest) :
    (stringAt mem p).length = data.length ↔ 0 ∉ data := by
  rw [stringAt, h]
  constructor
  · intro hlen hmem
    have hpre := List.takeWhile_prefix (l := data ++ 0 :: rest) fun c => decide (c ≠ 0)
    rw [List.prefix_iff_eq_take, hlen, List.take_left'] at hpre
    · rw [← hpre] at hmem
      simpa using List.mem_takeWhile_imp hmem
    · rfl
  · intro hnul
    have hall : ∀ c ∈ data, decide (c ≠ 0) = true :=
      fun c hc => decide_eq_true fun heq => hnul (heq ▸ hc)
    rw [List.takeWhile_append_of_pos hall]
    simp

section Filling

variable {BUFSIZ : ℕ} {file : config_file} {text : List UInt8}

/-- A full buffer keeps its text, in front of the room for what is read. -/
theorem makeRoom_spec (hB : 0 < BUFSIZ) (h : Loaded file text) (hne : file.unread ≠ []) :
    ∃ room amount, makeRoom BUFSIZ file file.current = (room, text.length, amount) ∧
      0 < amount ∧ room.buffer.take text.length = text ∧ room.buffer.length = room.bufsize ∧
      text.length + amount + 1 = room.bufsize ∧
      room.current = 0 ∧ room.unread = file.unread ∧ room.line = file.line := by
  obtain ⟨junk, hsplit⟩ := h.split
  have hlen := congrArg List.length hsplit
  have hsize := h.size
  have hfull := h.full.resolve_left hne
  simp only [List.length_drop, List.length_append, List.length_cons] at hlen
  have hjunk : junk = [] := List.eq_nil_of_length_eq_zero (by omega)
  subst hjunk
  rw [makeRoom]
  by_cases hcur : 0 < file.current
  · have hleft : file.bufsize - file.current - 1 = text.length := by omega
    rw [if_pos hcur, hleft]
    refine ⟨_, _, rfl, hcur, ?_, ?_, ?_, by simp, rfl, rfl⟩
    · simp only [hsplit, put, List.take_zero, List.nil_append, List.take_left]
    · simp only [hsplit, List.take_left]
      rw [length_put (by omega), hsize]
    · simp only
      omega
  · have hzero : file.current = 0 := by omega
    have hstart : file.bufsize - 1 = text.length := by omega
    rw [hzero, List.drop_zero] at hsplit
    rw [if_neg hcur, hstart]
    refine ⟨_, _, rfl, hB, ?_, ?_, ?_, rfl, rfl, rfl⟩
    · rw [hsplit, List.append_assoc, List.take_left]
    · simp [hsize]
    · simp only
      omega

/-- The buffer is filled again, as long as there is something left in the file and the bytes
are text. -/
theorem file_read_more_spec (hB : 0 < BUFSIZ) (h : Loaded file text) :
    (∃ file', file_read_more BUFSIZ file file.current = (false, file') ∧
      (file.unread = [] ∨ 0 ∈ file.unread)) ∨
    ∃ file' more, file_read_more BUFSIZ file file.current = (true, file') ∧
      Loaded file' (text ++ more) ∧ more ≠ [] ∧ more ++ file'.unread = file.unread ∧
      file'.line = file.line := by
  by_cases hne : file.unread = []
  · left
    have hunread : (makeRoom BUFSIZ file file.current).1.unread = [] := by
      rw [makeRoom]
      split <;> exact hne
    refine ⟨(file_read_more BUFSIZ file file.current).2, ?_, .inl hne⟩
    simp only [file_read_more, config_file.read, hunread, List.take_nil, if_true]
  obtain ⟨room, amount, hroom, hpos, htake, hlen, hsize, hcur, hunread, hline⟩ :=
    makeRoom_spec hB h hne
  have hdata : file.unread.take amount ≠ [] := by
    rw [Ne, List.take_eq_nil_iff]
    rintro (h0 | hnil)
    · omega
    · exact hne hnil
  have hfits : text.length + (file.unread.take amount ++ [0]).length ≤ room.buffer.length := by
    simp only [List.length_append, List.length_take, List.length_singleton]
    omega
  have hdrop := drop_put hfits
  rw [List.append_assoc, List.singleton_append] at hdrop
  simp only [file_read_more, hroom, config_file.read, hunread, if_neg hdata]
  by_cases hnul : 0 ∈ file.unread.take amount
  · rw [decide_eq_false fun heq => (length_stringAt_iff hdrop).mp heq hnul]
    exact .inl ⟨_, rfl, .inr (List.mem_of_mem_take hnul)⟩
  · right
    refine ⟨{ room with
        unread := file.unread.drop amount
        buffer := put room.buffer text.length (file.unread.take amount ++ [0]) },
      file.unread.take amount, ?_, ?_, hdata, List.take_append_drop _ _, hline⟩
    · rw [decide_eq_true ((length_stringAt_iff hdrop).mpr hnul)]
    · refine ⟨?_, ?_, (length_put hfits).trans hlen, ?_⟩
      · simp only [hcur, List.drop_zero]
        exact ⟨_, by rw [put, htake, List.append_assoc, List.append_assoc, List.append_assoc]; rfl⟩
      · rw [List.mem_append]
        exact fun hmem => hmem.elim h.nul hnul
      · by_cases hrest : file.unread.drop amount = []
        · exact .inl hrest
        · have hlonger : amount < file.unread.length := by
            by_contra hle
            exact hrest (List.drop_eq_nil_of_le (Nat.le_of_not_lt hle))
          right
          simp only [hcur, List.length_append, List.length_take]
          omega

end Filling

/-! ## Where the string ends -/

/-- Text between quotes in which no escape is cut off: plain characters, and a backslash with
the character after it. -/
inductive Pieces : List UInt8 → Prop where
  | nil : Pieces []
  | plain {p : List UInt8} {c : UInt8} (h : c ≠ QUOTE ∧ c ≠ BACKSLASH) (hp : Pieces p) :
      Pieces (c :: p)
  | escape {p : List UInt8} (c : UInt8) (hp : Pieces p) : Pieces (BACKSLASH :: c :: p)

theorem Pieces.append {p q : List UInt8} (hp : Pieces p) (hq : Pieces q) : Pieces (p ++ q) := by
  induction hp with
  | nil => exact hq
  | plain h _ ih => exact .plain h ih
  | escape c _ ih => exact .escape c ih

section Ending

variable {BUFSIZ fuel : ℕ} {file file' : config_file} {raw pre post : List UInt8} {c d : UInt8}

/-! A pass of the loop, by the character it is at. -/

theorem quotedLoop_quote (h : Loaded file (pre ++ QUOTE :: post)) :
    quotedLoop BUFSIZ (fuel + 1) file pre.length = some { file with
      token := ⟨.TOKEN_QSTRING, pre ++ [QUOTE]⟩
      current := file.current + (pre.length + 1) } := by
  have hcut : Loaded file ((pre ++ [QUOTE]) ++ post) := by simpa using h
  have hraw := hcut.strndup
  rw [List.length_append, List.length_singleton] at hraw
  rw [quotedLoop, h.peek, List.headD_cons, if_pos rfl, hraw]

theorem quotedLoop_line_end (h : Loaded file (pre ++ c :: post)) (hc : c = CR ∨ c = LF) :
    quotedLoop BUFSIZ (fuel + 1) file pre.length = some file.fail := by
  have hquote : c ≠ QUOTE := by rcases hc with rfl | rfl <;> decide
  rw [quotedLoop, h.peek, List.headD_cons, if_neg hquote, if_pos hc]

theorem quotedLoop_plain (h : Loaded file (pre ++ c :: post)) (hquote : c ≠ QUOTE)
    (hend : ¬(c = CR ∨ c = LF)) (hslash : c ≠ BACKSLASH) :
    quotedLoop BUFSIZ (fuel + 1) file pre.length =
      quotedLoop BUFSIZ fuel file (pre.length + 1) := by
  rw [quotedLoop, h.peek, List.headD_cons, if_neg hquote, if_neg hend, if_neg hslash,
    if_neg h.ne_zero]

theorem quotedLoop_escape (h : Loaded file (pre ++ BACKSLASH :: d :: post)) :
    quotedLoop BUFSIZ (fuel + 1) file pre.length =
      if d = LF then
        quotedLoop BUFSIZ fuel { file with line := file.line + 1 } (pre.length + 2)
      else if d = CR then
        quotedLoop BUFSIZ fuel { file with line := file.line + 1 }
          (if post.headD 0 = LF then pre.length + 3 else pre.length + 2)
      else quotedLoop BUFSIZ fuel file (pre.length + 2) := by
  have h' : Loaded file ((pre ++ [BACKSLASH]) ++ d :: post) := by simpa using h
  have hnext : file.peek (pre.length + 2) = post.headD 0 := by simpa using h'.peek_succ
  rw [quotedLoop, h.peek, List.headD_cons, if_neg (by decide), if_neg (by decide), if_pos rfl,
    h.peek_succ, List.headD_cons, if_neg h'.ne_zero]
  simp only [if_true, h.peek_succ, List.headD_cons, hnext]

/-- A backslash at the end of the buffer. -/
theorem quotedLoop_refill_escape (hB : 0 < BUFSIZ) (h : Loaded file (pre ++ [BACKSLASH])) :
    ((∃ file' : config_file, quotedLoop BUFSIZ (fuel + 1) file pre.length = some file'.fail) ∧
      (file.unread = [] ∨ 0 ∈ file.unread)) ∨
    ∃ file' d more, quotedLoop BUFSIZ (fuel + 1) file pre.length =
        quotedLoop BUFSIZ (fuel + 1) file' pre.length ∧
      Loaded file' (pre ++ BACKSLASH :: d :: more) ∧ d :: more ++ file'.unread = file.unread ∧
      file'.line = file.line := by
  have hnext : file.peek (pre.length + 1) = 0 := h.peek_succ
  have hloop : quotedLoop BUFSIZ (fuel + 1) file pre.length =
      let (status, file) := file_read_more BUFSIZ file file.current
      if status then
        let d := file.peek (pre.length + 1)
        if d = LF then quotedLoop BUFSIZ fuel { file with line := file.line + 1 } (pre.length + 2)
        else if d = CR then
          quotedLoop BUFSIZ fuel { file with line := file.line + 1 }
            (if file.peek (pre.length + 2) = LF then pre.length + 3 else pre.length + 2)
        else quotedLoop BUFSIZ fuel file (pre.length + 2)
      else some file.fail := by
    rw [quotedLoop, h.peek, List.headD_cons, if_neg (by decide), if_neg (by decide), if_pos rfl,
      hnext, if_pos rfl]
  rcases file_read_more_spec hB h with ⟨file', hread, hrest⟩ |
    ⟨file', more, hread, hmore, hne, hsplit, hline⟩
  · rw [hloop, hread]
    exact .inl ⟨⟨file', rfl⟩, hrest⟩
  · obtain ⟨d, more, rfl⟩ := List.exists_cons_of_ne_nil hne
    rw [List.append_assoc, List.singleton_append] at hmore
    have hmore' : Loaded file' ((pre ++ [BACKSLASH]) ++ d :: more) := by simpa using hmore
    have hnext' : file'.peek (pre.length + 2) = more.headD 0 := by simpa using hmore'.peek_succ
    refine .inr ⟨file', d, more, ?_, hmore, hsplit, hline⟩
    rw [quotedLoop_escape hmore, hloop, hread]
    simp only [if_true, hmore.peek_succ, List.headD_cons, hnext']

/-- The end of the buffer. -/
theorem quotedLoop_refill (hB : 0 < BUFSIZ) (h : Loaded file (pre ++ [c])) :
    ((∃ file' : config_file, quotedLoop BUFSIZ (fuel + 1) file (pre.length + 1) = some file'.fail) ∧
      (file.unread = [] ∨ 0 ∈ file.unread)) ∨
    ∃ file' d more, quotedLoop BUFSIZ (fuel + 1) file (pre.length + 1) =
        quotedLoop BUFSIZ fuel file'
          (if c = CR ∧ d = LF then pre.length + 2 else pre.length + 1) ∧
      Loaded file' (pre ++ c :: d :: more) ∧ d :: more ++ file'.unread = file.unread ∧
      file'.line = file.line := by
  have hnul : file.peek (pre.length + 1) = 0 := h.peek_succ
  have hloop : quotedLoop BUFSIZ (fuel + 1) file (pre.length + 1) =
      let (status, file) := file_read_more BUFSIZ file file.current
      if status then
        quotedLoop BUFSIZ fuel file
          (if file.peek pre.length = CR ∧ file.peek (pre.length + 1) = LF then pre.length + 2
            else pre.length + 1)
      else some file.fail := by
    rw [quotedLoop, hnul, if_neg (by decide), if_neg (by decide), if_neg (by decide), if_pos rfl]
    rfl
  rcases file_read_more_spec hB h with ⟨file', hread, hrest⟩ |
    ⟨file', more, hread, hmore, hne, hsplit, hline⟩
  · rw [hloop, hread]
    exact .inl ⟨⟨file', rfl⟩, hrest⟩
  · obtain ⟨d, more, rfl⟩ := List.exists_cons_of_ne_nil hne
    rw [List.append_assoc, List.singleton_append] at hmore
    refine .inr ⟨file', d, more, ?_, hmore, hsplit, hline⟩
    rw [hloop, hread]
    simp only [if_true, hmore.peek, hmore.peek_succ, List.headD_cons]

theorem fail_ne (h : (config_file.fail file).token = ⟨.TOKEN_QSTRING, raw⟩) : False := by
  have htype : token_type.TOKEN_ERROR = .TOKEN_QSTRING := congrArg Token.type h
  cases htype

/-- What the loop accepts is a quoted text, whatever the file holds. -/
theorem quotedLoop_pieces (hB : 0 < BUFSIZ) {p : List UInt8}
    (h : Loaded file (QUOTE :: p ++ post)) (hp : Pieces p)
    (hloop : quotedLoop BUFSIZ fuel file (QUOTE :: p).length = some file')
    (htype : file'.token = ⟨.TOKEN_QSTRING, raw⟩) :
    ∃ q, raw = QUOTE :: q ++ [QUOTE] ∧ Pieces q := by
  induction fuel generalizing file p post with
  | zero => cases hloop
  | succ fuel ih =>
    -- an escape that is all in the buffer
    have hescape : ∀ {file : config_file} {d : UInt8} {post : List UInt8},
        Loaded file (QUOTE :: p ++ BACKSLASH :: d :: post) →
        quotedLoop BUFSIZ (fuel + 1) file (QUOTE :: p).length = some file' →
        ∃ q, raw = QUOTE :: q ++ [QUOTE] ∧ Pieces q := by
      intro file d post h hloop
      have hstep : Loaded file (QUOTE :: (p ++ [BACKSLASH, d]) ++ post) := by simpa using h
      have hpd := hp.append (.escape d .nil)
      rw [quotedLoop_escape h] at hloop
      split_ifs at hloop with hLF hCR hCRLF
      · exact ih (hstep.line _) hpd (by simpa using hloop)
      · cases post with
        | nil => exact absurd hCRLF (by decide)
        | cons e post =>
          rw [List.headD_cons] at hCRLF
          have hstep' : Loaded file (QUOTE :: (p ++ [BACKSLASH, d] ++ [e]) ++ post) := by
            simpa using h
          have he : e ≠ QUOTE ∧ e ≠ BACKSLASH := by rw [hCRLF]; decide
          exact ih (hstep'.line _) (hpd.append (.plain he .nil))
            (by simpa [Nat.add_assoc] using hloop)
      · exact ih (hstep.line _) hpd (by simpa using hloop)
      · exact ih hstep hpd (by simpa using hloop)
    cases post with
    | nil =>
      obtain ⟨pre, c, hpre⟩ : ∃ pre c, QUOTE :: p = pre ++ [c] := by
        rcases List.eq_nil_or_concat (QUOTE :: p) with hnil | ⟨pre, c, hpre⟩
        · cases hnil
        · exact ⟨pre, c, by rw [hpre, List.concat_eq_append]⟩
      rw [List.append_nil, hpre] at h
      rw [hpre, List.length_append, List.length_singleton] at hloop
      rcases quotedLoop_refill hB h with ⟨⟨file₁, hfail⟩, -⟩ | ⟨file₁, d, more, hnext, hmore, -, -⟩
      · obtain rfl := Option.some.inj (hfail.symm.trans hloop)
        exact (fail_ne htype).elim
      · have hstep : Loaded file₁ (QUOTE :: p ++ d :: more) := by simpa [hpre] using hmore
        rw [hnext] at hloop
        split_ifs at hloop with hend
        · have hstep' : Loaded file₁ (QUOTE :: (p ++ [d]) ++ more) := by simpa using hstep
          have hlen : (QUOTE :: (p ++ [d])).length = pre.length + 2 := by
            rw [← List.cons_append, hpre]
            simp
          have hd : d ≠ QUOTE ∧ d ≠ BACKSLASH := by rw [hend.2]; decide
          exact ih hstep' (hp.append (.plain hd .nil)) (by rwa [hlen])
        · have hlen : (QUOTE :: p).length = pre.length + 1 := by
            rw [hpre]
            simp
          exact ih hstep hp (by rwa [hlen])
    | cons c post =>
      by_cases hquote : c = QUOTE
      · subst hquote
        rw [quotedLoop_quote h] at hloop
        obtain rfl := Option.some.inj hloop
        have hraw : QUOTE :: p ++ [QUOTE] = raw := congrArg Token.string htype
        exact ⟨p, hraw.symm, hp⟩
      by_cases hend : c = CR ∨ c = LF
      · rw [quotedLoop_line_end h hend] at hloop
        obtain rfl := Option.some.inj hloop
        exact (fail_ne htype).elim
      by_cases hslash : c = BACKSLASH
      · subst hslash
        cases post with
        | nil =>
          rcases quotedLoop_refill_escape hB h with ⟨⟨file₁, hfail⟩, -⟩ |
            ⟨file₁, d, more, hnext, hmore, -, -⟩
          · obtain rfl := Option.some.inj (hfail.symm.trans hloop)
            exact (fail_ne htype).elim
          · exact hescape hmore (hnext.symm.trans hloop)
        | cons d post => exact hescape h hloop
      · have hstep : Loaded file (QUOTE :: (p ++ [c]) ++ post) := by simpa using h
        rw [quotedLoop_plain h hquote hend hslash] at hloop
        exact ih hstep (hp.append (.plain ⟨hquote, hslash⟩ .nil)) (by simpa using hloop)

/-- Text between quotes, and how many line terminators are in it. -/
inductive Body : List UInt8 → ℕ → Prop where
  | nil : Body [] 0
  | plain {s : List UInt8} {n : ℕ} {c : UInt8} (hs : Body s n)
      (h : c ≠ QUOTE ∧ ¬(c = CR ∨ c = LF) ∧ c ≠ BACKSLASH) : Body (c :: s) n
  | escape {s : List UInt8} {n : ℕ} {c : UInt8} (hs : Body s n) (h : c ≠ LF ∧ c ≠ CR) :
      Body (BACKSLASH :: c :: s) n
  | lf {s : List UInt8} {n : ℕ} (hs : Body s n) : Body (BACKSLASH :: LF :: s) (n + 1)
  | cr {s : List UInt8} {n : ℕ} (hs : Body s n) : Body (BACKSLASH :: CR :: s) (n + 1)
  | crlf {s : List UInt8} {n : ℕ} (hs : Body s n) : Body (BACKSLASH :: CR :: LF :: s) (n + 1)

variable {body rest tail : List UInt8} {n : ℕ}

theorem Body.head_ne (h : Body body n) (hsplit : body ++ QUOTE :: tail = c :: rest) : c ≠ LF := by
  cases h with
  | nil =>
    obtain ⟨rfl, -⟩ := List.cons.inj hsplit
    decide
  | plain hs h =>
    obtain ⟨rfl, -⟩ := List.cons.inj hsplit
    exact fun heq => h.2.1 (.inr heq)
  | escape | lf | cr | crlf =>
    obtain ⟨rfl, -⟩ := List.cons.inj hsplit
    decide

/-- The loop goes on with the next character in the buffer. -/
theorem quotedLoop_ready (hB : 0 < BUFSIZ) (h : Loaded file (pre ++ post)) (hpre : pre ≠ [])
    (hsplit : post ++ file.unread = c :: rest) (hc : c ≠ LF) (hnul : 0 ∉ file.unread)
    (hfuel : 2 * file.unread.length + post.length < fuel) :
    ∃ file' post' fuel', quotedLoop BUFSIZ fuel file pre.length =
        quotedLoop BUFSIZ (fuel' + 1) file' pre.length ∧
      Loaded file' (pre ++ c :: post') ∧ post' ++ file'.unread = rest ∧ 0 ∉ file'.unread ∧
      file'.line = file.line ∧ 2 * file'.unread.length + post'.length < fuel' := by
  obtain ⟨fuel, rfl⟩ : ∃ k, fuel = k + 1 := ⟨fuel - 1, by omega⟩
  cases post with
  | cons d post =>
    obtain ⟨rfl, hrest⟩ := List.cons.inj hsplit
    exact ⟨file, post, fuel, rfl, h, hrest, hnul, rfl, by simp at hfuel; omega⟩
  | nil =>
    obtain ⟨pre, b, rfl⟩ : ∃ pre' b, pre = pre' ++ [b] := by
      rcases List.eq_nil_or_concat pre with hnil | ⟨pre', b, hpre'⟩
      · exact absurd hnil hpre
      · exact ⟨pre', b, by rw [hpre', List.concat_eq_append]⟩
    rw [List.append_nil] at h
    rw [List.nil_append] at hsplit
    rw [List.length_append, List.length_singleton]
    rcases quotedLoop_refill hB h with ⟨-, hend | hend⟩ |
      ⟨file', d, more, hnext, hmore, hunread, hline⟩
    · rw [hend] at hsplit
      cases hsplit
    · exact absurd hend hnul
    · rw [hsplit] at hunread
      obtain ⟨rfl, hrest⟩ := List.cons.inj hunread
      have hlen := congrArg List.length hunread
      have hlen' := congrArg List.length hsplit
      simp only [List.length_append, List.length_cons] at hlen hlen' hfuel
      refine ⟨file', more, fuel - 1, ?_, by simpa using hmore, hrest, ?_, hline, ?_⟩
      · rw [hnext, if_neg fun hboth => hc hboth.2, Nat.sub_add_cancel (by omega)]
      · intro hmem
        refine hnul (hsplit ▸ ?_)
        rw [← hrest]
        exact List.mem_cons_of_mem _ (List.mem_append_right _ hmem)
      · omega

/-- The same with an escape. -/
theorem quotedLoop_ready_escape (hB : 0 < BUFSIZ) (h : Loaded file (pre ++ post)) (hpre : pre ≠ [])
    (hsplit : post ++ file.unread = BACKSLASH :: d :: rest) (hnul : 0 ∉ file.unread)
    (hfuel : 2 * file.unread.length + post.length < fuel) :
    ∃ file' post' fuel', quotedLoop BUFSIZ fuel file pre.length =
        quotedLoop BUFSIZ (fuel' + 1) file' pre.length ∧
      Loaded file' (pre ++ BACKSLASH :: d :: post') ∧ post' ++ file'.unread = rest ∧
      0 ∉ file'.unread ∧ file'.line = file.line ∧
      2 * file'.unread.length + post'.length < fuel' := by
  obtain ⟨file₁, post₁, fuel₁, hloop, h₁, hrest, hnul₁, hline₁, hfuel₁⟩ :=
    quotedLoop_ready hB h hpre hsplit (by decide) hnul hfuel
  cases post₁ with
  | cons e post =>
    obtain ⟨rfl, hrest'⟩ := List.cons.inj hrest
    exact ⟨file₁, post, fuel₁, hloop, h₁, hrest', hnul₁, hline₁, by simp at hfuel₁; omega⟩
  | nil =>
    rw [List.nil_append] at hrest
    rcases @quotedLoop_refill_escape BUFSIZ fuel₁ _ _ hB h₁ with ⟨-, hend | hend⟩ |
      ⟨file', e, more, hnext, hmore, hunread, hline⟩
    · rw [hend] at hrest
      cases hrest
    · exact absurd hend hnul₁
    · rw [hrest] at hunread
      obtain ⟨rfl, hrest'⟩ := List.cons.inj hunread
      have hlen := congrArg List.length hunread
      have hlen' := congrArg List.length hrest
      simp only [List.length_append, List.length_cons, List.length_nil] at hlen hlen' hfuel₁
      refine ⟨file', more, fuel₁, hloop.trans hnext, hmore, hrest', ?_, hline.trans hline₁, ?_⟩
      · intro hmem
        refine hnul₁ (hrest ▸ ?_)
        rw [← hrest']
        exact List.mem_cons_of_mem _ (List.mem_append_right _ hmem)
      · omega

/-- The loop finds the end of the text, however it came into the buffer. -/
theorem quotedLoop_body (hB : 0 < BUFSIZ) (hb : Body body n) (h : Loaded file (pre ++ post))
    (hpre : pre ≠ []) (hsplit : post ++ file.unread = body ++ QUOTE :: tail)
    (hnul : 0 ∉ file.unread) (hfuel : 2 * file.unread.length + post.length < fuel) :
    ∃ file' post', quotedLoop BUFSIZ fuel file pre.length = some file' ∧
      file'.token = ⟨.TOKEN_QSTRING, pre ++ body ++ [QUOTE]⟩ ∧ file'.line = file.line + n ∧
      Loaded file' post' ∧ post' ++ file'.unread = tail := by
  induction hb generalizing file pre post fuel with
  | nil =>
    obtain ⟨file₁, post₁, fuel₁, hloop, h₁, hrest, -, hline, -⟩ :=
      quotedLoop_ready hB h hpre hsplit (by decide) hnul hfuel
    rw [hloop, quotedLoop_quote h₁]
    refine ⟨_, post₁, rfl, by rw [List.append_nil], hline, ?_, hrest⟩
    obtain ⟨junk, hjunk⟩ := h₁.split
    refine ⟨⟨junk, ?_⟩, fun hmem => h₁.nul (by simp [hmem]), h₁.size, ?_⟩
    · have hdrop := congrArg (List.drop (pre.length + 1)) hjunk
      rw [List.drop_drop] at hdrop
      rw [hdrop, show pre.length + 1 = (pre ++ [QUOTE]).length by simp,
        show pre ++ QUOTE :: post₁ ++ 0 :: junk = (pre ++ [QUOTE]) ++ (post₁ ++ 0 :: junk) by simp,
        List.drop_left]
    · refine h₁.full.imp_right fun hfull => ?_
      simp only [List.length_append, List.length_cons] at hfull
      simp only
      omega
  | @plain s n c hs hc ih =>
    obtain ⟨file₁, post₁, fuel₁, hloop, h₁, hrest, hnul₁, hline, hfuel₁⟩ :=
      quotedLoop_ready hB h hpre hsplit (fun heq => hc.2.1 (.inr heq)) hnul hfuel
    have h₁' : Loaded file₁ ((pre ++ [c]) ++ post₁) := by simpa using h₁
    obtain ⟨file', post', hfound, htoken, hlines, hleft⟩ := ih h₁' (by simp) hrest hnul₁ hfuel₁
    refine ⟨file', post', ?_, by simpa using htoken, by rw [hlines, hline], hleft⟩
    rw [hloop, quotedLoop_plain h₁ hc.1 hc.2.1 hc.2.2]
    simpa using hfound
  | @escape s n c hs hc ih =>
    obtain ⟨file₁, post₁, fuel₁, hloop, h₁, hrest, hnul₁, hline, hfuel₁⟩ :=
      quotedLoop_ready_escape hB h hpre hsplit hnul hfuel
    have h₁' : Loaded file₁ ((pre ++ [BACKSLASH, c]) ++ post₁) := by simpa using h₁
    obtain ⟨file', post', hfound, htoken, hlines, hleft⟩ := ih h₁' (by simp) hrest hnul₁ hfuel₁
    refine ⟨file', post', ?_, by simpa using htoken, by rw [hlines, hline], hleft⟩
    rw [hloop, quotedLoop_escape h₁, if_neg hc.1, if_neg hc.2]
    simpa using hfound
  | @lf s n hs ih =>
    obtain ⟨file₁, post₁, fuel₁, hloop, h₁, hrest, hnul₁, hline, hfuel₁⟩ :=
      quotedLoop_ready_escape hB h hpre hsplit hnul hfuel
    have h₁' : Loaded file₁ ((pre ++ [BACKSLASH, LF]) ++ post₁) := by simpa using h₁
    obtain ⟨file', post', hfound, htoken, hlines, hleft⟩ :=
      ih (h₁'.line (file₁.line + 1)) (by simp) hrest hnul₁ hfuel₁
    refine ⟨file', post', ?_, by simpa using htoken, by simp only [hlines, hline]; omega, hleft⟩
    rw [hloop, quotedLoop_escape h₁, if_pos rfl]
    simpa using hfound
  | @cr s n hs ih =>
    obtain ⟨file₁, post₁, fuel₁, hloop, h₁, hrest, hnul₁, hline, hfuel₁⟩ :=
      quotedLoop_ready_escape hB h hpre hsplit hnul hfuel
    have h₁' : Loaded file₁ ((pre ++ [BACKSLASH, CR]) ++ post₁) := by simpa using h₁
    obtain ⟨file', post', hfound, htoken, hlines, hleft⟩ :=
      ih (h₁'.line (file₁.line + 1)) (by simp) hrest hnul₁ hfuel₁
    refine ⟨file', post', ?_, by simpa using htoken, by simp only [hlines, hline]; omega, hleft⟩
    have hhead : post₁.headD 0 ≠ LF := by
      cases post₁ with
      | nil => decide
      | cons e post₁ => exact hs.head_ne hrest.symm
    rw [hloop, quotedLoop_escape h₁, if_neg (by decide), if_pos rfl, if_neg hhead]
    simpa using hfound
  | @crlf s n hs ih =>
    obtain ⟨file₁, post₁, fuel₁, hloop, h₁, hrest, hnul₁, hline, hfuel₁⟩ :=
      quotedLoop_ready_escape hB h hpre hsplit hnul hfuel
    cases post₁ with
    | cons e post₁ =>
      obtain ⟨rfl, hrest'⟩ := List.cons.inj hrest
      have h₁' : Loaded file₁ ((pre ++ [BACKSLASH, CR, LF]) ++ post₁) := by simpa using h₁
      rw [List.length_cons] at hfuel₁
      have hfuel₂ : 2 * file₁.unread.length + post₁.length < fuel₁ := by omega
      obtain ⟨file', post', hfound, htoken, hlines, hleft⟩ :=
        ih (h₁'.line (file₁.line + 1)) (by simp) hrest' hnul₁ hfuel₂
      refine ⟨file', post', ?_, by simpa using htoken, by simp only [hlines, hline]; omega, hleft⟩
      rw [hloop, quotedLoop_escape h₁, if_neg (by decide), if_pos rfl, List.headD_cons,
        if_pos rfl]
      simpa using hfound
    | nil =>
      -- the line feed is still to be read
      obtain ⟨fuel₁, rfl⟩ : ∃ k, fuel₁ = k + 1 := ⟨fuel₁ - 1, by omega⟩
      have h₁' : Loaded { file₁ with line := file₁.line + 1 } ((pre ++ [BACKSLASH]) ++ [CR]) := by
        simpa using h₁.line _
      replace hrest : file₁.unread = LF :: (s ++ QUOTE :: tail) := hrest
      have hrefill := @quotedLoop_refill BUFSIZ fuel₁ _ _ _ hB h₁'
      rcases hrefill with ⟨-, hend | hend⟩ | ⟨file₂, e, more, hnext, hmore, hunread, hline₂⟩
      · simp only at hend
        rw [hend] at hrest
        cases hrest
      · exact absurd hend hnul₁
      · simp only at hunread hline₂
        rw [hrest] at hunread
        obtain ⟨rfl, hunread'⟩ := List.cons.inj hunread
        have hlen := congrArg List.length hunread
        have hlen' := congrArg List.length hrest
        simp only [List.length_append, List.length_cons, List.length_nil] at hlen hlen' hfuel₁
        have hnul₂ : 0 ∉ file₂.unread := by
          intro hmem
          refine hnul₁ (hrest ▸ ?_)
          rw [← hunread']
          exact List.mem_cons_of_mem _ (List.mem_append_right _ hmem)
        have h₂ : Loaded file₂ ((pre ++ [BACKSLASH, CR, LF]) ++ more) := by simpa using hmore
        obtain ⟨file', post', hfound, htoken, hlines, hleft⟩ :=
          @ih fuel₁ _ _ _ h₂ (by simp) hunread' hnul₂ (by omega)
        refine ⟨file', post', ?_, by simpa using htoken, by rw [hlines, hline₂, hline]; omega,
          hleft⟩
        rw [hloop, quotedLoop_escape h₁, if_neg (by decide), if_pos rfl, if_neg (by decide)]
        rw [if_pos ⟨rfl, rfl⟩] at hnext
        simp only [List.length_append, List.length_cons, List.length_nil] at hnext hfound
        exact hnext.trans hfound

end Ending

/-! ## A string written in quotes -/

inductive Terminator where
  | LF
  | CR
  | CRLF
deriving DecidableEq

def Terminator.text : Terminator → List UInt8
  | .LF => [Confparse.LF]
  | .CR => [Confparse.CR]
  | .CRLF => [Confparse.CR, Confparse.LF]

/-- The simple escapes of C: the letter, and the character it stands for. -/
def simpleEscapes : List (UInt8 × UInt8) :=
  [(97, 7), (98, 8), (102, 12), (110, 10), (114, 13), (116, 9), (118, 11),
    (92, 92), (39, 39), (34, 34), (63, 63)]

/-- What a string in quotes is written with. -/
inductive Item where
  /-- a character by itself -/
  | plain (c : UInt8)
  /-- a simple escape -/
  | simple (escape : UInt8 × UInt8)
  /-- any other escape of C: by its octal, hexadecimal or universal number -/
  | numeric (letter : UInt8) (digits value : List UInt8)
  /-- the line goes on in the next one -/
  | continued (terminator : Terminator)
deriving DecidableEq

namespace Item

def text : Item → List UInt8
  | plain c => [c]
  | simple escape => [BACKSLASH, escape.1]
  | numeric letter digits _ => BACKSLASH :: letter :: digits
  | continued terminator => BACKSLASH :: terminator.text

/-- What it stands for in C. -/
def value : Item → List UInt8
  | plain c => [c]
  | simple escape => [escape.2]
  | numeric _ _ value => value
  | continued _ => []

/-- An octal digit, `x`, `u` or `U`. -/
def numericLetters : List UInt8 := [48, 49, 50, 51, 52, 53, 54, 55, 120, 117, 85]

/-- A hexadecimal digit. -/
def IsDigit (c : UInt8) : Prop := (48 ≤ c ∧ c ≤ 57) ∨ (65 ≤ c ∧ c ≤ 70) ∨ (97 ≤ c ∧ c ≤ 102)

instance (c : UInt8) : Decidable (IsDigit c) := inferInstanceAs (Decidable (_ ∨ _))

/-- It is written as C has it. -/
def Wf : Item → Prop
  | plain c => c ∉ [0, QUOTE, BACKSLASH, CR, LF]
  | simple escape => escape ∈ simpleEscapes
  | numeric letter digits _ => letter ∈ numericLetters ∧ ∀ c ∈ digits, IsDigit c
  | continued _ => True

instance : (item : Item) → Decidable item.Wf
  | plain c => inferInstanceAs (Decidable (c ∉ _))
  | simple escape => inferInstanceAs (Decidable (escape ∈ _))
  | numeric _ _ _ => inferInstanceAs (Decidable (_ ∧ _))
  | continued _ => inferInstanceAs (Decidable True)

/-- It is among what `token_unquote_string` decodes. -/
def Decoded : Item → Prop
  | plain _ => True
  | simple _ => True
  | numeric _ _ _ => False
  | continued terminator => terminator = .LF

def terminators : Item → ℕ
  | continued _ => 1
  | _ => 0

end Item

/-- A string as it is written, between the quotes. -/
def written (w : List Item) : List UInt8 := (w.map Item.text).flatten

/-- The string that is meant. -/
def meant (w : List Item) : List UInt8 := (w.map Item.value).flatten

/-- How many line terminators are in it. -/
def terminators (w : List Item) : ℕ := (w.map Item.terminators).sum

theorem Body.digits {digits s : List UInt8} {n : ℕ} (hs : Body s n)
    (h : ∀ c ∈ digits, Item.IsDigit c) : Body (digits ++ s) n := by
  induction digits with
  | nil => exact hs
  | cons c digits ih =>
    have hc := h c List.mem_cons_self
    refine .plain (ih fun c hc => h c (List.mem_cons_of_mem _ hc)) ?_
    refine ⟨?_, ?_, ?_⟩
    · rintro rfl
      exact absurd hc (by decide)
    · rintro (rfl | rfl) <;> exact absurd hc (by decide)
    · rintro rfl
      exact absurd hc (by decide)

/-- A letter of an escape is not a line terminator. -/
theorem letter_ne {letters : List UInt8} (h : LF ∉ letters ∧ CR ∉ letters) {c : UInt8}
    (hc : c ∈ letters) : c ≠ LF ∧ c ≠ CR :=
  ⟨fun heq => h.1 (heq ▸ hc), fun heq => h.2 (heq ▸ hc)⟩

theorem body_written {w : List Item} (h : ∀ item ∈ w, item.Wf) :
    Body (written w) (terminators w) := by
  induction w with
  | nil => exact .nil
  | cons item w ih =>
    have hitem := h item List.mem_cons_self
    have hrest := ih fun item hmem => h item (List.mem_cons_of_mem _ hmem)
    rw [written, List.map_cons, List.flatten_cons, ← written, terminators, List.map_cons,
      List.sum_cons, ← terminators]
    cases item with
    | plain c =>
      simp only [Item.Wf, List.mem_cons, not_or] at hitem
      simp only [Item.terminators, Nat.zero_add]
      exact .plain hrest ⟨hitem.2.1, fun hc => hc.elim hitem.2.2.2.1 hitem.2.2.2.2.1, hitem.2.2.1⟩
    | simple escape =>
      simp only [Item.terminators, Nat.zero_add]
      have hmem : escape.1 ∈ simpleEscapes.map Prod.fst := List.mem_map_of_mem hitem
      exact .escape hrest (letter_ne (by decide) hmem)
    | numeric letter digits value =>
      simp only [Item.terminators, Nat.zero_add]
      exact .escape (hrest.digits hitem.2) (letter_ne (by decide) hitem.1)
    | continued terminator =>
      rw [Item.terminators, Nat.add_comm]
      cases terminator with
      | LF => exact .lf hrest
      | CR => exact .cr hrest
      | CRLF => exact .crlf hrest

/-! ## The string is decoded -/

theorem length_escapeValue {c : UInt8} {out : List UInt8} (h : escapeValue c = some out) :
    out.length ≤ 1 := by
  rw [escapeValue] at h
  split_ifs at h <;> obtain rfl := Option.some.inj h <;> simp

theorem unquoteLoop_plain {c : UInt8} (h : c ≠ QUOTE ∧ c ≠ BACKSLASH) (s dest : List UInt8) :
    unquoteLoop (c :: s) dest = unquoteLoop s (dest ++ [c]) := by
  cases s <;> simp only [unquoteLoop, if_neg h.1, if_neg h.2]

theorem unquoteLoop_escape (d : UInt8) (s dest : List UInt8) :
    unquoteLoop (BACKSLASH :: d :: s) dest =
      match escapeValue d with
      | some out => unquoteLoop s (dest ++ out)
      | none => (.unrecognized d, dest) := by
  simp only [unquoteLoop, if_neg (show BACKSLASH ≠ QUOTE by decide), if_true]

/-- No branch for a string that is cut off is reached, and what is written has its room. -/
theorem unquoteLoop_pieces {p : List UInt8} (hp : Pieces p) (dest : List UInt8) :
    (unquoteLoop (p ++ [QUOTE]) dest).1 ≠ .unterminated ∧
      (unquoteLoop (p ++ [QUOTE]) dest).1 ≠ .noCloseQuote ∧
      (unquoteLoop (p ++ [QUOTE]) dest).2.length ≤ dest.length + p.length + 1 := by
  induction hp generalizing dest with
  | nil => simp [unquoteLoop]
  | @plain p c h _ ih =>
    obtain ⟨hcut, hclose, hlen⟩ := ih (dest ++ [c])
    rw [List.cons_append, unquoteLoop_plain h]
    refine ⟨hcut, hclose, ?_⟩
    simp only [List.length_append, List.length_cons, List.length_nil] at hlen ⊢
    omega
  | @escape p c _ ih =>
    rw [List.cons_append, List.cons_append, unquoteLoop_escape]
    cases hvalue : escapeValue c with
    | none =>
      refine ⟨nofun, nofun, ?_⟩
      simp only
      omega
    | some out =>
      obtain ⟨hcut, hclose, hlen⟩ := ih (dest ++ out)
      have hout := length_escapeValue hvalue
      refine ⟨hcut, hclose, ?_⟩
      simp only [List.length_append, List.length_cons] at hlen ⊢
      omega

theorem escapeValue_simple {escape : UInt8 × UInt8} (h : escape ∈ simpleEscapes) :
    escapeValue escape.1 = some [escape.2] := by
  have hall : simpleEscapes.all (fun e => escapeValue e.1 == some [e.2]) = true := by decide
  exact beq_iff_eq.mp (List.all_eq_true.mp hall escape h)

theorem escapeValue_numeric {letter : UInt8} (h : letter ∈ Item.numericLetters) :
    escapeValue letter = none := by
  have hall : Item.numericLetters.all (fun c => escapeValue c == none) = true := by decide
  exact beq_iff_eq.mp (List.all_eq_true.mp hall letter h)

section Decoding

variable {item : Item} {s dest : List UInt8}

theorem unquoteLoop_item (hwf : item.Wf) (h : item.Decoded) :
    unquoteLoop (item.text ++ s) dest = unquoteLoop s (dest ++ item.value) := by
  cases item with
  | plain c =>
    simp only [Item.Wf, List.mem_cons, not_or] at hwf
    exact unquoteLoop_plain ⟨hwf.2.1, hwf.2.2.1⟩ s dest
  | simple escape =>
    rw [Item.text, List.cons_append, List.singleton_append, unquoteLoop_escape,
      escapeValue_simple hwf]
    rfl
  | numeric => exact h.elim
  | continued terminator =>
    obtain rfl : terminator = .LF := h
    exact unquoteLoop_escape LF s dest

theorem unquoteLoop_not_decoded (hwf : item.Wf) (h : ¬item.Decoded) :
    ∃ c, (unquoteLoop (item.text ++ s) dest).1 = .unrecognized c := by
  cases item with
  | plain c => exact absurd trivial h
  | simple escape => exact absurd trivial h
  | numeric letter digits value =>
    refine ⟨letter, ?_⟩
    rw [Item.text, List.cons_append, List.cons_append, unquoteLoop_escape,
      escapeValue_numeric hwf.1]
  | continued terminator =>
    cases terminator with
    | LF => exact absurd rfl h
    | CR => exact ⟨CR, congrArg Prod.fst (unquoteLoop_escape CR s dest)⟩
    | CRLF => exact ⟨CR, congrArg Prod.fst (unquoteLoop_escape CR (LF :: s) dest)⟩

theorem unquoteLoop_written {w : List Item} (hwf : ∀ item ∈ w, item.Wf)
    (h : ∀ item ∈ w, item.Decoded) (dest : List UInt8) :
    (unquoteLoop (written w ++ [QUOTE]) dest).1 = .string (dest ++ meant w) := by
  induction w generalizing dest with
  | nil => simp [written, meant, unquoteLoop]
  | cons item w ih =>
    rw [written, List.map_cons, List.flatten_cons, List.append_assoc, ← written,
      unquoteLoop_item (hwf item List.mem_cons_self) (h item List.mem_cons_self),
      ih (fun item hmem => hwf item (List.mem_cons_of_mem _ hmem))
        fun item hmem => h item (List.mem_cons_of_mem _ hmem),
      List.append_assoc]
    rfl

theorem unquoteLoop_written_not {w : List Item} (hwf : ∀ item ∈ w, item.Wf)
    (h : ¬∀ item ∈ w, item.Decoded) (dest : List UInt8) :
    ∃ c, (unquoteLoop (written w ++ [QUOTE]) dest).1 = .unrecognized c := by
  induction w generalizing dest with
  | nil => exact absurd (fun _ hmem => nomatch hmem) h
  | cons item w ih =>
    have hitem := hwf item List.mem_cons_self
    rw [written, List.map_cons, List.flatten_cons, List.append_assoc, ← written]
    by_cases hdecoded : item.Decoded
    · rw [unquoteLoop_item hitem hdecoded]
      refine ih (fun item hmem => hwf item (List.mem_cons_of_mem _ hmem)) (fun hall => h ?_) _
      exact List.forall_mem_cons.mpr ⟨hdecoded, hall⟩
    · exact unquoteLoop_not_decoded hitem hdecoded

end Decoding

/-! ## The round trip -/

/-- The file is at a string in quotes, with text after it. -/
structure Written (file : config_file) (w : List Item) (tail : List UInt8) : Prop where
  loaded : ∃ text, Loaded file (QUOTE :: text) ∧
    text ++ file.unread = written w ++ QUOTE :: tail
  text : 0 ∉ file.unread
  wf : ∀ item ∈ w, item.Wf

/-- The string is found, its lines are counted, and it is decoded. -/
def RoundTrip (BUFSIZ : ℕ) (file : config_file) (w : List Item) : Prop :=
  ∃ file' raw, token_quoted_string BUFSIZ file = some file' ∧
    file'.token = ⟨.TOKEN_QSTRING, raw⟩ ∧ file'.line = file.line + terminators w ∧
    (token_unquote_string raw).1 = .string (meant w)

/-- What has been accepted is decoded without a branch for a string that is cut off, in the
memory there is for it. -/
def Safe (raw : List UInt8) : Prop :=
  (token_unquote_string raw).1 ≠ .unterminated ∧ (token_unquote_string raw).1 ≠ .noCloseQuote ∧
    (token_unquote_string raw).2.length ≤ (raw.length - 2) + 1

theorem safe_of_token {BUFSIZ : ℕ} (hB : 0 < BUFSIZ) {file file' : config_file}
    {text raw : List UInt8} (h : Loaded file (QUOTE :: text))
    (hfound : token_quoted_string BUFSIZ file = some file')
    (htoken : file'.token = ⟨.TOKEN_QSTRING, raw⟩) : Safe raw := by
  have hloaded : Loaded file (QUOTE :: [] ++ text) := h
  obtain ⟨q, rfl, hq⟩ := quotedLoop_pieces hB hloaded .nil hfound htoken
  obtain ⟨hcut, hclose, hlen⟩ := unquoteLoop_pieces hq []
  refine ⟨hcut, hclose, ?_⟩
  rw [token_unquote_string, List.cons_append, List.tail_cons]
  simp only [List.length_cons, List.length_append, List.length_nil] at hlen ⊢
  omega

theorem token_of_written {BUFSIZ : ℕ} (hB : 0 < BUFSIZ) {file : config_file} {w : List Item}
    {tail : List UInt8} (h : Written file w tail) :
    ∃ file', token_quoted_string BUFSIZ file = some file' ∧
      file'.token = ⟨.TOKEN_QSTRING, QUOTE :: written w ++ [QUOTE]⟩ ∧
      file'.line = file.line + terminators w := by
  obtain ⟨text, hloaded, hsplit⟩ := h.loaded
  have hroom := hloaded.length_le
  rw [List.length_cons] at hroom
  have hstart : Loaded file ([QUOTE] ++ text) := hloaded
  obtain ⟨file', -, hfound, htoken, hline, -, -⟩ :=
    quotedLoop_body hB (body_written h.wf) hstart (by simp) hsplit h.text
      (show _ < 2 * file.unread.length + file.buffer.length + 1 by omega)
  exact ⟨file', hfound, htoken, hline⟩

/-- A string in quotes is read back if and only if no escape by a number is in it and all its
continued lines end with a line feed; whatever is accepted is decoded in its memory. -/
theorem quoted_string_iff {BUFSIZ : ℕ} (hB : 0 < BUFSIZ) :
    (∀ file file' text raw, Loaded file (QUOTE :: text) →
      token_quoted_string BUFSIZ file = some file' →
      file'.token = ⟨.TOKEN_QSTRING, raw⟩ → Safe raw) ∧
    ∀ file w tail, Written file w tail →
      (RoundTrip BUFSIZ file w ↔ ∀ item ∈ w, item.Decoded) := by
  refine ⟨fun _ _ _ _ => safe_of_token hB, fun file w tail h => ?_⟩
  obtain ⟨file', hfound, htoken, hline⟩ := token_of_written hB h
  constructor
  · rintro ⟨file₁, raw, hfound₁, htoken₁, -, hvalue⟩
    by_contra hnot
    obtain rfl := Option.some.inj (hfound.symm.trans hfound₁)
    obtain rfl : QUOTE :: written w ++ [QUOTE] = raw :=
      congrArg Token.string (htoken.symm.trans htoken₁)
    obtain ⟨c, hc⟩ := unquoteLoop_written_not h.wf hnot []
    have := hc.symm.trans hvalue
    cases this
  · intro hall
    exact ⟨file', _, hfound, htoken, hline, unquoteLoop_written h.wf hall []⟩

/-- `"a\` in a buffer of four bytes, with `b"` to come in the next line. -/
def continuedFile : config_file where
  unread := [LF, 98, QUOTE, LF]
  buffer := [QUOTE, 97, BACKSLASH, 0]
  bufsize := 4
  line := 1
  error := false
  current := 0
  token := ⟨.TOKEN_CRLF, []⟩

theorem continuedFile_round_trip :
    RoundTrip 4 continuedFile [.plain 97, .continued .LF, .plain 98] := by
  have hwritten : Written continuedFile [.plain 97, .continued .LF, .plain 98] [LF] :=
    ⟨⟨[97, BACKSLASH], ⟨⟨[], rfl⟩, by decide, rfl, .inr rfl⟩, rfl⟩, by decide, by decide⟩
  refine (((quoted_string_iff (by decide)).2 _ _ _ hwritten).mpr ?_)
  simp [Item.Decoded]

/-- `"a\` and a carriage return. -/
def returnFile : config_file where
  unread := []
  buffer := [QUOTE, 97, BACKSLASH, CR, QUOTE, LF, 0, 0]
  bufsize := 8
  line := 1
  error := false
  current := 0
  token := ⟨.TOKEN_CRLF, []⟩

/-- A line that goes on after a carriage return is not read back. -/
theorem returnFile_not_round_trip :
    Written returnFile [.plain 97, .continued .CR] [LF] ∧
      ¬RoundTrip 8 returnFile [.plain 97, .continued .CR] := by
  refine ⟨⟨⟨[97, BACKSLASH, CR, QUOTE, LF], ⟨⟨[0], rfl⟩, by decide, rfl, .inl rfl⟩, rfl⟩,
    by decide, by decide⟩, ?_⟩
  rintro ⟨file', raw, hfound, htoken, -, hvalue⟩
  have heval : (token_quoted_string 8 returnFile).map config_file.token =
      some ⟨.TOKEN_QSTRING, [QUOTE, 97, BACKSLASH, CR, QUOTE]⟩ := by decide
  rw [hfound, Option.map_some, htoken] at heval
  obtain rfl := congrArg Token.string (Option.some.inj heval)
  exact absurd hvalue (by decide)

end Inn.Confparse
