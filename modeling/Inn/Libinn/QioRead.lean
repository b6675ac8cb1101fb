import Inn.History.Qio

/-!
# Inn.Libinn.QioRead — lines from any reads

`read` returns as many bytes as it likes, as long as there are some. What `QIOread` returns does
not depend on it.

* `readLoop_line`, `readLoop_rest` — the loop up to the next newline, and up to the end of the file;
* `results_eq` — the results of all calls, from the text of the file alone.
-/

namespace Inn.Libinn.QioRead

open Inn.History (NEWLINE QIO_BUFFERSIZE QIOflag QIOSTATE QIOopen Short lineResult makeRoom
  length_makeRoom lineResult_makeRoom line_in_buffer buffer_in_line)

section Read

variable (chunk : ℕ → ℕ)

/-- What the next `read` returns. The `n`th one has `chunk n + 1` bytes, where the buffer has room
for them and the file has them. -/
def nreadOf (q : QIOSTATE) : ℕ :=
  min (chunk q.reads + 1) (min (QIO_BUFFERSIZE - q.buffer.length) q.file.length)

/-- The state after a `read`. -/
def readMore (q : QIOSTATE) : QIOSTATE :=
  ⟨q.buffer ++ q.file.take (nreadOf chunk q), q.file.drop (nreadOf chunk q), q.reads + 1, q.flag⟩

/-- The loop of `QIOread`. -/
def readLoop (q : QIOSTATE) : Option (List UInt8) × QIOSTATE :=
  if NEWLINE ∈ q.buffer then
    let line := q.buffer.takeWhile (· ≠ NEWLINE)
    (if q.flag = .long then none else some line,
      { q with buffer := q.buffer.drop (line.length + 1) })
  else if nreadOf chunk (makeRoom q) = 0 then
    (none, { makeRoom q with reads := (makeRoom q).reads + 1 })
  else readLoop (readMore chunk (makeRoom q))
termination_by q.file.length
decreasing_by
  rename_i hread
  have hfile : (makeRoom q).file = q.file := Inn.History.makeRoom_file q
  rw [readMore, List.length_drop, hfile]
  rw [nreadOf, hfile] at hread ⊢
  omega

/-- `QIOread`. -/
def QIOread (q : QIOSTATE) : Option (List UInt8) × QIOSTATE :=
  readLoop chunk { q with flag := .ok }

/-- What the `k`th call returns, with the flag after it. -/
def result : ℕ → QIOSTATE → Option (List UInt8) × QIOflag
  | 0, q => ((QIOread chunk q).1, (QIOread chunk q).2.flag)
  | k + 1, q => result k (QIOread chunk q).2

end Read

/-- What the calls return for a text: its terminated lines, and then nothing. A rest that fills the
buffer is too long as well. -/
def expected (text : List UInt8) : List (Option (List UInt8) × QIOflag) :=
  (text.splitOn NEWLINE).dropLast.map (lineResult .ok) ++
    if Short ((text.splitOn NEWLINE).getLastD []) then [] else [(none, .long)]

section Lines

variable {text l rest : List UInt8}

theorem expected_line (hl : NEWLINE ∉ l) :
    expected (l ++ NEWLINE :: rest) = lineResult .ok l :: expected rest := by
  have hsplit := List.splitOn_append_cons_self (a := NEWLINE) l rest
  rw [List.splitOn_eq_singleton hl, List.singleton_append] at hsplit
  rw [expected, expected, hsplit, List.dropLast_cons_of_ne_nil (List.splitOn_ne_nil _ _),
    List.map_cons, List.cons_append]
  obtain ⟨l', ls, hls⟩ := List.exists_cons_of_ne_nil (List.splitOn_ne_nil NEWLINE rest)
  rw [hls, List.getLastD_cons, List.getLastD_cons, List.getLastD_cons]

theorem expected_rest (h : NEWLINE ∉ text) :
    expected text = if Short text then [] else [(none, .long)] := by
  rw [expected, List.splitOn_eq_singleton h]
  rfl

end Lines

section Loop

variable {chunk : ℕ → ℕ} {q : QIOSTATE} {l rest : List UInt8}

/-- The buffer, and the flag that a loop can see. -/
structure Ready (q : QIOSTATE) : Prop where
  length : q.buffer.length ≤ QIO_BUFFERSIZE
  flag : q.flag ≠ .error

@[simp] theorem makeRoom_file (q : QIOSTATE) : (makeRoom q).file = q.file :=
  Inn.History.makeRoom_file q

theorem nreadOf_le (q : QIOSTATE) : nreadOf chunk q ≤ QIO_BUFFERSIZE - q.buffer.length ∧
    nreadOf chunk q ≤ q.file.length := by
  rw [nreadOf]
  omega

/-- There is room for something. -/
theorem nreadOf_eq_zero : nreadOf chunk (makeRoom q) = 0 ↔ q.file = [] := by
  have hroom := length_makeRoom q
  rw [nreadOf, makeRoom_file, ← List.length_eq_zero_iff]
  omega

@[simp] theorem readMore_flag (q : QIOSTATE) : (readMore chunk q).flag = q.flag := rfl

theorem readMore_unread (q : QIOSTATE) : (readMore chunk q).unread = q.unread := by
  rw [readMore, QIOSTATE.unread, List.append_assoc, List.take_append_drop]
  rfl

theorem Ready.readMore (h : Ready q) : Ready (readMore chunk (makeRoom q)) where
  length := by
    have hroom := length_makeRoom q
    have hle := (@nreadOf_le chunk (makeRoom q)).1
    rw [QioRead.readMore, List.length_append, List.length_take]
    omega
  flag := Inn.History.makeRoom_flag_ne h.flag

/-- What the dropped part of a line was. -/
theorem makeRoom_unread {l' : List UInt8} (hl : l = q.buffer ++ l')
    (hunread : q.unread = l ++ rest) :
    (makeRoom q).unread = (makeRoom q).buffer ++ l' ++ rest := by
  rw [QIOSTATE.unread, hl, List.append_assoc] at hunread
  rw [QIOSTATE.unread, makeRoom_file, List.append_cancel_left hunread, List.append_assoc]

theorem not_mem_makeRoom {l' : List UInt8} (hmem : NEWLINE ∉ q.buffer) (hl' : NEWLINE ∉ l') :
    NEWLINE ∉ (makeRoom q).buffer ++ l' := by
  rw [makeRoom]
  split
  · exact hl'
  · exact fun h => (List.mem_append.mp h).elim hmem hl'

/-- The loop up to the newline of the next line. -/
theorem readLoop_line {q : QIOSTATE} {l : List UInt8} (hq : Ready q)
    (hunread : q.unread = l ++ NEWLINE :: rest) (hl : NEWLINE ∉ l) :
    ((readLoop chunk q).1, (readLoop chunk q).2.flag) = lineResult q.flag l ∧
      (readLoop chunk q).2.unread = rest ∧ Ready (readLoop chunk q).2 := by
  rw [readLoop]
  by_cases hmem : NEWLINE ∈ q.buffer
  · obtain ⟨hline, hlt, hrest⟩ := line_in_buffer hunread hl hmem
    have hshort : Short l := Nat.lt_of_lt_of_le hlt hq.length
    rw [if_pos hmem]
    dsimp only
    rw [hline]
    refine ⟨?_, hrest, ?_, hq.flag⟩
    · rw [lineResult]
      cases hf : q.flag with
      | ok => rw [if_neg (by decide), if_neg (not_or.mpr ⟨by decide, not_not.mpr hshort⟩)]
      | error => exact absurd hf hq.flag
      | long => rw [if_pos rfl, if_pos (.inl rfl)]
    · rw [List.length_drop]
      exact (Nat.sub_le _ _).trans hq.length
  · -- the buffer is a part of the line, and there is more of it
    obtain ⟨l', hl', hfile⟩ := buffer_in_line hunread hmem
    have hne : ¬ nreadOf chunk (makeRoom q) = 0 := fun hzero => by
      rw [nreadOf_eq_zero.mp hzero] at hfile
      exact List.append_ne_nil_of_right_ne_nil _ (List.cons_ne_nil _ _) hfile.symm
    have hmore : (readMore chunk (makeRoom q)).unread =
        (makeRoom q).buffer ++ l' ++ NEWLINE :: rest :=
      (readMore_unread _).trans (makeRoom_unread hl' hunread)
    rw [if_neg hmem, if_neg hne, ← lineResult_makeRoom hl']
    exact readLoop_line hq.readMore hmore
      (not_mem_makeRoom hmem fun h => hl (hl' ▸ List.mem_append_right _ h))
termination_by q.file.length
decreasing_by
  have hle := (@nreadOf_le chunk (makeRoom q)).2
  rw [makeRoom_file] at hle
  rw [readMore, List.length_drop, makeRoom_file]
  omega

/-- The loop up to the end of the file. -/
theorem readLoop_rest {q : QIOSTATE} (hq : Ready q) (hunread : NEWLINE ∉ q.unread) :
    ((readLoop chunk q).1, (readLoop chunk q).2.flag) =
        (none, (lineResult q.flag q.unread).2) ∧
      NEWLINE ∉ (readLoop chunk q).2.unread ∧ Short (readLoop chunk q).2.unread ∧
        Ready (readLoop chunk q).2 := by
  have hmem : NEWLINE ∉ q.buffer := fun h => hunread (List.mem_append_left _ h)
  have hfile : NEWLINE ∉ q.file := fun h => hunread (List.mem_append_right _ h)
  rw [readLoop, if_neg hmem, QIOSTATE.unread, ← lineResult_makeRoom rfl]
  by_cases hend : nreadOf chunk (makeRoom q) = 0
  · have hnil := nreadOf_eq_zero.mp hend
    have hroom := length_makeRoom q
    have hflag := Inn.History.makeRoom_flag_ne hq.flag
    have hno := not_mem_makeRoom hmem hfile
    rw [if_pos hend]
    rw [hnil, List.append_nil] at hno ⊢
    refine ⟨?_, ?_, ?_, Nat.le_of_lt hroom, hflag⟩
    · rw [lineResult]
      cases hf : (makeRoom q).flag with
      | ok =>
        have hshort : Short (makeRoom q).buffer := hroom
        rw [if_neg (not_or.mpr ⟨by decide, not_not.mpr hshort⟩)]
      | error => exact absurd hf hflag
      | long => rw [if_pos (.inl rfl)]
    · rw [QIOSTATE.unread, makeRoom_file, hnil, List.append_nil]
      exact hno
    · rw [QIOSTATE.unread, makeRoom_file, hnil, List.append_nil]
      exact hroom
  · have hmore := @readMore_unread chunk (makeRoom q)
    have hno : NEWLINE ∉ (readMore chunk (makeRoom q)).unread := by
      rw [hmore, QIOSTATE.unread, makeRoom_file]
      exact not_mem_makeRoom hmem hfile
    obtain ⟨hresult, hrest⟩ := readLoop_rest hq.readMore hno
    rw [if_neg hend]
    refine ⟨hresult.trans ?_, hrest⟩
    rw [hmore, QIOSTATE.unread, makeRoom_file, readMore_flag]
termination_by q.file.length
decreasing_by
  have hle := (@nreadOf_le chunk (makeRoom q)).2
  rw [makeRoom_file] at hle
  rw [readMore, List.length_drop, makeRoom_file]
  omega

theorem Ready.start (hlength : q.buffer.length ≤ QIO_BUFFERSIZE) :
    Ready { q with flag := .ok } :=
  ⟨hlength, nofun⟩

theorem lineResult_flag (text : List UInt8) :
    (lineResult .ok text).2 = if Short text then .ok else .long := by
  rw [lineResult]
  by_cases hshort : Short text
  · rw [if_pos hshort, if_neg (not_or.mpr ⟨by decide, not_not.mpr hshort⟩)]
  · rw [if_neg hshort, if_pos (.inr hshort)]

theorem result_eq (k : ℕ) (hlength : q.buffer.length ≤ QIO_BUFFERSIZE) :
    result chunk k q = (expected q.unread).getD k (none, .ok) := by
  have hready := Ready.start hlength
  induction k generalizing q with
  | zero =>
    rw [result, QIOread]
    by_cases hmem : NEWLINE ∈ q.unread
    · obtain ⟨l, rest, hunread, hl⟩ := List.eq_append_cons_of_mem hmem
      rw [hunread, expected_line hl, List.getD_cons_zero]
      exact (readLoop_line hready hunread hl).1
    · rw [expected_rest hmem]
      refine (readLoop_rest hready hmem).1.trans ?_
      rw [show QIOSTATE.unread { q with flag := .ok } = q.unread from rfl, lineResult_flag]
      split <;> rfl
  | succ k ih =>
    rw [result, QIOread]
    by_cases hmem : NEWLINE ∈ q.unread
    · obtain ⟨l, rest, hunread, hl⟩ := List.eq_append_cons_of_mem hmem
      obtain ⟨-, hrest, hnext⟩ := @readLoop_line chunk rest _ _ hready hunread hl
      rw [ih hnext.length (Ready.start hnext.length), hrest, hunread, expected_line hl,
        List.getD_cons_succ]
    · -- there is no line any more, and the rest is not too long a second time
      obtain ⟨-, hno, hshort, hnext⟩ := @readLoop_rest chunk _ hready hmem
      rw [ih hnext.length (Ready.start hnext.length), expected_rest hno, if_pos hshort,
        expected_rest hmem]
      split <;> rfl

end Loop

/-- The results are those of the text, however `read` splits it. -/
theorem results_eq (chunk : ℕ → ℕ) (text : List UInt8) (k : ℕ) :
    result chunk k (QIOopen text) = (expected text).getD k (none, .ok) :=
  result_eq k (Nat.zero_le _)

end Inn.Libinn.QioRead
