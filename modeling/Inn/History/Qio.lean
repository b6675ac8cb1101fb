import Inn.History.Line

/-!
# Inn.History.Qio — reading a file line by line

`QIOread` looks for a newline in its buffer, and reads on while there is none. A line that
does not fit into the buffer is passed over up to its newline, and `NULL` is returned for it.

* `QIOread_line` — what is returned for the next line;
* `QIOread_eof` — and at the end of the file.
-/

namespace Inn.History

def QIO_BUFFERSIZE : ℕ := 32 * 1024

/-- `enum QIOflag`. -/
inductive QIOflag where
  | ok
  | error
  | long
deriving DecidableEq

/-- `QIOSTATE`: the buffer is what is there from `_start` to `_end`, and the file what was not
read yet. -/
structure QIOSTATE where
  buffer : List UInt8
  file : List UInt8
  reads : ℕ
  flag : QIOflag

/-- What was not returned yet. -/
def QIOSTATE.unread (q : QIOSTATE) : List UInt8 := q.buffer ++ q.file

/-- `QIOopen`. -/
def QIOopen (file : List UInt8) : QIOSTATE := ⟨[], file, 0, .ok⟩

section Read

variable (fails : ℕ → Bool)

/-- The buffer when it has no newline: a full one is dropped. -/
def makeRoom (q : QIOSTATE) : QIOSTATE :=
  if QIO_BUFFERSIZE ≤ q.buffer.length then { q with buffer := [], flag := .long } else q

/-- The loop of `QIOread`, where the `n`th `read` of the file fails if `fails n`. -/
def readLoop : ℕ → QIOSTATE → Option (List UInt8) × QIOSTATE
  | 0, q => (none, q)
  | fuel + 1, q =>
    if NEWLINE ∈ q.buffer then
      let line := q.buffer.takeWhile (· ≠ NEWLINE)
      (if q.flag = .long then none else some line,
        { q with buffer := q.buffer.drop (line.length + 1) })
    else
      let q := makeRoom q
      let nread := min (QIO_BUFFERSIZE - q.buffer.length) q.file.length
      if fails q.reads then (none, { q with reads := q.reads + 1, flag := .error })
      else if nread = 0 then (none, { q with reads := q.reads + 1 })
      else
        readLoop fuel ⟨q.buffer ++ q.file.take nread, q.file.drop nread, q.reads + 1, q.flag⟩

/-- `QIOread`. -/
def QIOread (q : QIOSTATE) : Option (List UInt8) × QIOSTATE :=
  readLoop fails (q.file.length + 1) { q with flag := .ok }

end Read

/-- The line fits into the buffer with its newline. -/
def Short (line : List UInt8) : Prop := line.length < QIO_BUFFERSIZE

instance (line : List UInt8) : Decidable (Short line) := inferInstanceAs (Decidable (_ < _))

/-- What is returned when the newline of a line is reached. -/
def lineResult (flag : QIOflag) (line : List UInt8) : Option (List UInt8) × QIOflag :=
  if flag = .long ∨ ¬ Short line then (none, .long) else (some line, .ok)

section Results

variable {fails : ℕ → Bool} {q : QIOSTATE} {l rest : List UInt8}

/-- A newline in the first part of a text ends its first line. -/
theorem line_in_buffer {buffer file : List UInt8} (h : buffer ++ file = l ++ NEWLINE :: rest)
    (hl : NEWLINE ∉ l) (hmem : NEWLINE ∈ buffer) :
    buffer.takeWhile (· ≠ NEWLINE) = l ∧ l.length < buffer.length ∧
      buffer.drop (l.length + 1) ++ file = rest := by
  rcases List.append_eq_append_iff.mp h with ⟨t, ht, -⟩ | ⟨t, hbuf, ht⟩
  · exact absurd (ht ▸ List.mem_append_left t hmem) hl
  · cases t with
    | nil => exact absurd (by rw [hbuf, List.append_nil] at hmem; exact hmem) hl
    | cons c t =>
      obtain ⟨rfl, rfl⟩ := List.cons.inj ht
      have hall : ∀ c ∈ l, (decide (c ≠ NEWLINE)) = true :=
        fun c hc => decide_eq_true fun heq => hl (heq ▸ hc)
      refine ⟨?_, ?_, ?_⟩
      · rw [hbuf, List.takeWhile_append_of_pos hall, List.takeWhile_cons_of_neg (by simp),
          List.append_nil]
      · rw [hbuf, List.length_append, List.length_cons]
        omega
      · rw [hbuf, List.drop_append, List.drop_eq_nil_of_le (Nat.le_succ _),
          Nat.add_sub_cancel_left]
        rfl

/-- A buffer without a newline is a part of the first line. -/
theorem buffer_in_line {buffer file : List UInt8} (h : buffer ++ file = l ++ NEWLINE :: rest)
    (hmem : NEWLINE ∉ buffer) : ∃ l', l = buffer ++ l' ∧ file = l' ++ NEWLINE :: rest := by
  rcases List.append_eq_append_iff.mp h with ⟨t, ht, hfile⟩ | ⟨t, hbuf, ht⟩
  · exact ⟨t, ht, hfile⟩
  · cases t with
    | nil => exact ⟨[], by rw [hbuf, List.append_nil, List.append_nil], ht.symm⟩
    | cons c t =>
      obtain ⟨rfl, -⟩ := List.cons.inj ht
      exact absurd (hbuf ▸ List.mem_append_right l List.mem_cons_self) hmem

theorem length_makeRoom (q : QIOSTATE) : (makeRoom q).buffer.length < QIO_BUFFERSIZE := by
  rw [makeRoom]
  split
  · exact Nat.zero_lt_of_lt (Nat.lt_add_one (32 * 1024 - 1))
  · omega

@[simp] theorem makeRoom_file (q : QIOSTATE) : (makeRoom q).file = q.file := by
  rw [makeRoom]
  split <;> rfl

theorem makeRoom_flag_ne (h : q.flag ≠ .error) : (makeRoom q).flag ≠ .error := by
  rw [makeRoom]
  split
  · exact fun hlong => by cases hlong
  · exact h

/-- Making room loses the front of a line that is too long, and nothing else. -/
theorem lineResult_makeRoom {l' : List UInt8} (hl : l = q.buffer ++ l') :
    lineResult (makeRoom q).flag ((makeRoom q).buffer ++ l') = lineResult q.flag l := by
  rw [makeRoom]
  split
  · rename_i hfull
    have hlong : ¬ Short l := by
      rw [Short, hl, List.length_append]
      omega
    rw [lineResult, lineResult, if_pos (.inl rfl), if_pos (.inr hlong)]
  · rw [hl]

/-- One turn of the loop without a newline in the buffer. -/
theorem readLoop_more {fuel : ℕ} (hmem : NEWLINE ∉ q.buffer) (hfile : q.file ≠ []) :
    (readLoop fails (fuel + 1) q).1 = none ∧ (readLoop fails (fuel + 1) q).2.flag = .error ∧
        (∃ n, fails n = true) ∨
      ∃ n, 0 < n ∧ (makeRoom q).buffer.length + n ≤ QIO_BUFFERSIZE ∧ n ≤ q.file.length ∧
        readLoop fails (fuel + 1) q = readLoop fails fuel
          ⟨(makeRoom q).buffer ++ q.file.take n, q.file.drop n, (makeRoom q).reads + 1,
            (makeRoom q).flag⟩ := by
  have hroom := length_makeRoom q
  have hpos := List.length_pos_iff.mpr hfile
  rw [readLoop, if_neg hmem]
  by_cases hfail : fails (makeRoom q).reads = true
  · dsimp only
    rw [if_pos hfail]
    exact .inl ⟨rfl, rfl, _, hfail⟩
  · refine .inr ⟨min (QIO_BUFFERSIZE - (makeRoom q).buffer.length) q.file.length, by omega,
      by omega, Nat.min_le_right _ _, ?_⟩
    dsimp only
    rw [makeRoom_file, if_neg hfail, if_neg (by omega)]

/-- The loop up to the newline of the next line. -/
theorem readLoop_line {fuel : ℕ} (hfuel : q.file.length < fuel) (hflag : q.flag ≠ .error)
    (hlen : q.buffer.length ≤ QIO_BUFFERSIZE) (hq : q.unread = l ++ NEWLINE :: rest)
    (hl : NEWLINE ∉ l) :
    ((readLoop fails fuel q).1 = none ∧ (readLoop fails fuel q).2.flag = .error ∧
        ∃ n, fails n = true) ∨
      (((readLoop fails fuel q).1, (readLoop fails fuel q).2.flag) = lineResult q.flag l ∧
        (readLoop fails fuel q).2.unread = rest ∧
        (readLoop fails fuel q).2.buffer.length ≤ QIO_BUFFERSIZE) := by
  induction fuel generalizing q l with
  | zero => exact absurd hfuel (Nat.not_lt_zero _)
  | succ fuel ih =>
    by_cases hmem : NEWLINE ∈ q.buffer
    · obtain ⟨hline, hlt, hrest⟩ := line_in_buffer hq hl hmem
      have hshort : Short l := Nat.lt_of_lt_of_le hlt hlen
      rw [readLoop, if_pos hmem]
      dsimp only
      rw [hline]
      refine .inr ⟨?_, hrest, ?_⟩
      · rw [lineResult]
        cases hf : q.flag with
        | ok => rw [if_neg (by decide), if_neg (not_or.mpr ⟨by decide, not_not.mpr hshort⟩)]
        | error => exact absurd hf hflag
        | long => rw [if_pos rfl, if_pos (.inl rfl)]
      · rw [List.length_drop]
        omega
    · -- the buffer is a part of the line, and there is more of it
      obtain ⟨l', hl', hfile⟩ := buffer_in_line hq hmem
      have hne : q.file ≠ [] := by
        rw [hfile]
        exact List.append_ne_nil_of_right_ne_nil _ (List.cons_ne_nil _ _)
      have hmore := @readLoop_more fails q fuel hmem hne
      rcases hmore with hfail | ⟨n, hn, hroom, hnf, heq⟩
      · exact .inl hfail
      rw [heq, ← lineResult_makeRoom hl']
      have hlen' : ((makeRoom q).buffer ++ q.file.take n).length ≤ QIO_BUFFERSIZE := by
        rw [List.length_append, List.length_take]
        omega
      refine ih (l := (makeRoom q).buffer ++ l') ?_ (makeRoom_flag_ne hflag) hlen' ?_ ?_
      · dsimp only
        rw [List.length_drop]
        omega
      · rw [QIOSTATE.unread, List.append_assoc, List.take_append_drop, hfile, List.append_assoc]
      · intro h
        rcases List.mem_append.mp h with h | h
        · rw [makeRoom] at h
          split at h
          · cases h
          · exact hmem h
        · exact hl (hl' ▸ List.mem_append_right _ h)

/-- The next line, or an error that a failed read accounts for. -/
theorem QIOread_line (hlen : q.buffer.length ≤ QIO_BUFFERSIZE)
    (hq : q.unread = l ++ NEWLINE :: rest) (hl : NEWLINE ∉ l) :
    ((QIOread fails q).1 = none ∧ (QIOread fails q).2.flag = .error ∧ ∃ n, fails n = true) ∨
      (((QIOread fails q).1, (QIOread fails q).2.flag) = lineResult .ok l ∧
        (QIOread fails q).2.unread = rest ∧
        (QIOread fails q).2.buffer.length ≤ QIO_BUFFERSIZE) := by
  have hflag : ({ q with flag := .ok } : QIOSTATE).flag ≠ .error := fun h => by cases h
  exact readLoop_line (q := { q with flag := .ok }) (Nat.lt_succ_self _) hflag hlen hq hl

/-- At the end of the file `NULL` is returned, without an error unless the read failed. -/
theorem QIOread_eof (hq : q.unread = []) :
    (QIOread fails q).1 = none ∧ (QIOread fails q).2.unread = [] ∧
      (QIOread fails q).2.buffer.length ≤ QIO_BUFFERSIZE ∧
      ((QIOread fails q).2.flag = .ok ∨
        (QIOread fails q).2.flag = .error ∧ ∃ n, fails n = true) := by
  obtain ⟨hbuffer, hfile⟩ := List.append_eq_nil_iff.mp hq
  have hroom : makeRoom { q with flag := .ok } = { q with flag := .ok } := by
    rw [makeRoom, if_neg]
    rw [hbuffer]
    exact Nat.not_le.mpr (length_makeRoom q |> Nat.zero_lt_of_lt)
  rw [QIOread, readLoop, if_neg (by rw [hbuffer]; exact List.not_mem_nil)]
  dsimp only
  rw [hroom, hfile]
  split
  · rename_i hfail
    refine ⟨rfl, ?_, ?_, .inr ⟨rfl, _, hfail⟩⟩
    · simp [QIOSTATE.unread, hbuffer]
    · simp [hbuffer]
  · rw [if_pos (by simp)]
    refine ⟨rfl, ?_, ?_, .inl rfl⟩
    · simp [QIOSTATE.unread, hbuffer]
    · simp [hbuffer]

end Results

end Inn.History
