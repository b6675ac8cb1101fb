import Inn.Lines
import Inn.Rules
import Mathlib.Algebra.Ring.Nat
import Mathlib.Data.UInt

/-!
# Inn.Nnrpd.Line — reading the commands of a reader

`line.c` keeps what was read from the client in one buffer. `line_read` looks for a line
feed in it, reads more if there is none, and doubles the buffer when it is full, up to
`localmaxartsize`. A line that fills a buffer of that size is overwritten from the start
until its end is found, and then discarded.

* `lineRead` — the function, given what each call of `line_doread` delivers. An access
  outside the buffer is an outcome of its own;
* `SplitAtLF` — what a sequence of calls should return: the stream cut at its line feeds;
* `split_at_lf` — it does, unless a line that is longer than the limit meets a buffer
  that is larger than the limit, which happens after `localmaxartsize` was lowered;
* `shrunken_buffer` — then the buffer is made smaller, and the bytes that come next are
  stored where it used to end.
-/

namespace Inn.Nnrpd

/-- `NNTP_MAXLEN_COMMAND`. -/
def maxlenCommand : ℕ := 512

/-- `struct line`: the bytes of the allocated block, and the place and number of those not
yet processed. -/
structure Line where
  block : List UInt8
  «where» : ℕ
  remaining : ℕ
deriving DecidableEq, Repr

/-- `line_init`; what the block holds first does not matter. -/
def lineInit : Line := ⟨List.replicate maxlenCommand 0, 0, 0⟩

/-- `line_reset`. -/
def lineReset (line : Line) : Line := { line with «where» := 0, remaining := 0 }

/-- The bytes that were read and not yet processed. -/
def Line.held (line : Line) : List UInt8 := (line.block.drop line.where).take line.remaining

/-- Store bytes in a block, inside it. -/
def store (block : List UInt8) (place : ℕ) (bytes : List UInt8) : List UInt8 :=
  block.take place ++ bytes ++ block.drop (place + bytes.length)

/-- `xrealloc`. -/
def xrealloc (block : List UInt8) (newsize : ℕ) : List UInt8 :=
  block.take newsize ++ List.replicate (newsize - block.length) 0

/-- What `line_doread` returns: some bytes, none at the end of the stream, or a timeout or
an error. -/
inductive Delivery where
  | bytes (bytes : List UInt8)
  | eof
  | fails
deriving DecidableEq, Repr

/-- What `line_read` returns; for a line, its text and what was added to `stripped`. -/
inductive READTYPE where
  | RTok (text : List UInt8) (stripped : ℕ)
  | RTlong
  | RTtimeout
  | RTeof
deriving DecidableEq, Repr

/-- The end of a call. -/
inductive Outcome where
  | returns (r : READTYPE) (line : Line)
  /-- There was an access outside the block. -/
  | outside
deriving DecidableEq, Repr

/-- The buffer is full: its new size. -/
def newsize (localmaxartsize allocated : ℕ) : ℕ :=
  let newsize := allocated * 2
  if maxlenCommand < localmaxartsize ∧ localmaxartsize < newsize then localmaxartsize else newsize

/-- The buffer after it was found full with `where` at its end, the new `where`, and
whether the line is to be discarded. -/
def grow (localmaxartsize : ℕ) (block : List UInt8) («where» : ℕ) (long : Bool) :
    List UInt8 × ℕ × Bool :=
  if «where» ≠ block.length then (block, «where», long)
  else
    let newsize := newsize localmaxartsize block.length
    if newsize = block.length then (block, 0, true)
    else (xrealloc block newsize, block.length, long)

/-- The end of `line_read`, with a line feed at `lf` and bytes up to `where`. -/
def finish (long : Bool) (block : List UInt8) (lf «where» : ℕ) : READTYPE × Line :=
  let line : Line := ⟨block, lf + 1, «where» - (lf + 1)⟩
  if long then (.RTlong, line)
  else
    let crlf : Bool := 0 < lf ∧ block[lf - 1]? = some 13
    let lf := if crlf then lf - 1 else lf
    (.RTok (block.take lf) (if crlf then 2 else 1), { line with block := block.set lf 0 })

/-- The loop of `line_read`, which leaves the cursors of `line` alone when it returns
without a line. `none`: the call has not returned, or it did before the last delivery. -/
def readLoop (localmaxartsize : ℕ) (line : Line) :
    List Delivery → List UInt8 → ℕ → Bool → Option Outcome
  | [], _, _, _ => none
  | delivery :: deliveries, block, «where», long =>
    let grown := grow localmaxartsize block «where» long
    let block := grown.1
    let «where» := grown.2.1
    let long := grown.2.2
    let room := (block.length + 2 ^ 64 - «where») % 2 ^ 64
    match delivery with
    | .fails => if deliveries ≠ [] then none else some (.returns .RTtimeout { line with block := block })
    | .eof =>
      if deliveries ≠ [] then none
      else if block.length ≤ «where» then some .outside
      else some (.returns .RTeof { line with block := block.set «where» 0 })
    | .bytes bytes =>
      if bytes = [] ∨ room < bytes.length then none
      else if block.length < «where» + bytes.length then some .outside
      else
        let block := store block «where» bytes
        match memchr 10 bytes with
        | none => readLoop localmaxartsize line deliveries block («where» + bytes.length) long
        | some k =>
          if deliveries ≠ [] then none
          else
            let done := finish long block («where» + k) («where» + bytes.length)
            some (.returns done.1 done.2)

/-- `line_read`. -/
def lineRead (localmaxartsize : ℕ) (deliveries : List Delivery) (line : Line) : Option Outcome :=
  if line.block.length < line.where + line.remaining then some .outside
  else
    -- shuffle what is left to the start
    let block := store line.block 0 line.held
    match memchr 10 (block.take line.remaining) with
    | none => readLoop localmaxartsize line deliveries block line.remaining false
    | some lf =>
      if deliveries ≠ [] then none
      else
        let done := finish false block lf line.remaining
        some (.returns done.1 done.2)

/-! ## A client -/

/-- A connection, with the bytes that arrived, the limit at each call that returned a line
or `RTlong`, and what these calls returned. -/
structure Session where
  line : Line
  input : List UInt8
  limits : List ℕ
  results : List READTYPE
  /-- A call has returned `RTtimeout` or `RTeof`, and `nnrpd` ends. -/
  ended : Bool
  outside : Bool
deriving DecidableEq, Repr

/-- A new connection. -/
def start : Session := ⟨lineInit, [], [], [], false, false⟩

/-- What `nnrpd` does with the buffer. -/
inductive Call where
  | read (localmaxartsize : ℕ) (deliveries : List Delivery)
  | reset
deriving DecidableEq, Repr

/-- The bytes of some deliveries. -/
def delivered (deliveries : List Delivery) : List UInt8 :=
  deliveries.flatMap fun d => match d with | .bytes bytes => bytes | _ => []

/-- One call. A reset drops what was read ahead. -/
def step (s : Session) : Call → Option Session
  | .reset =>
    if s.ended then none
    else some { s with
      line := lineReset s.line, input := s.input.take (s.input.length - s.line.remaining) }
  | .read localmaxartsize deliveries =>
    if s.ended then none
    else
      let input := s.input ++ delivered deliveries
      match lineRead localmaxartsize deliveries s.line with
      | none => none
      | some .outside => some { s with input := input, ended := true, outside := true }
      | some (.returns .RTtimeout line) => some { s with line := line, input := input, ended := true }
      | some (.returns .RTeof line) => some { s with line := line, input := input, ended := true }
      | some (.returns r line) =>
        some { s with
          line := line, input := input
          limits := s.limits ++ [localmaxartsize], results := s.results ++ [r] }

/-- The calls of one connection. -/
def Next (s : Session) (call : Call) (s' : Session) : Prop := step s call = some s'

/-! ## What the calls should return -/

/-- The text of a line, its LF or CRLF removed, and how many bytes that were. -/
def stripLine (l : List UInt8) : READTYPE :=
  if l.dropLast.getLast? = some 13 then .RTok l.dropLast.dropLast 2 else .RTok l.dropLast 1

/-- What a call should return for a line. A limit up to `NNTP_MAXLEN_COMMAND` is none. -/
def verdict (localmaxartsize : ℕ) (l : List UInt8) : READTYPE :=
  if localmaxartsize ≤ maxlenCommand ∨ l.length ≤ localmaxartsize then stripLine l else .RTlong

/-- The calls have returned the lines of the stream. -/
structure SplitAtLF (s : Session) : Prop where
  /-- One result for a line: the line, or `RTlong` for one that is over the limit. -/
  results : s.results = List.zipWith verdict s.limits (completeLines 10 s.input)
  /-- Each call has taken one line. -/
  taken : s.results.length = s.limits.length
  /-- Nothing outside the block was accessed, and what is kept is in the block. -/
  inside : s.outside = false ∧ s.line.where + s.line.remaining ≤ s.line.block.length

/-- The beginning of the next line, as far as it is there, up to its line feed. -/
def nextLine (s : Session) (deliveries : List Delivery) : List UInt8 :=
  (s.line.held ++ delivered deliveries).takeWhile (· != 10)

/-- The buffer is not larger than the limit, or the line is within the limit (or does not
end, and does not fill the buffer). -/
def WithinLimit (s : Session) : Call → Prop
  | .reset => True
  | .read localmaxartsize deliveries =>
    localmaxartsize ≤ maxlenCommand ∨ s.line.block.length ≤ localmaxartsize ∨
      (nextLine s deliveries).length < localmaxartsize ∨
      10 ∉ s.line.held ++ delivered deliveries ∧
        (nextLine s deliveries).length < s.line.block.length

instance (s : Session) (call : Call) : Decidable (WithinLimit s call) := by
  cases call with
  | reset => exact inferInstanceAs (Decidable True)
  | read localmaxartsize deliveries => exact inferInstanceAs (Decidable (_ ∨ _ ∨ _ ∨ _ ∧ _))

/-! ## The end of a call -/

section Finish

variable {past block : List UInt8} {cap lf «where» : ℕ} {long : Bool}

/-- The text of a line at the start of the block. -/
theorem finish_short (hlf : lf < block.length) (hline : IsLine 10 (block.take (lf + 1))) :
    (finish false block lf «where»).1 = stripLine (block.take (lf + 1)) := by
  have hbody : (block.take (lf + 1)).dropLast = block.take lf := by
    rw [List.dropLast_eq_take, List.length_take, List.take_take]
    congr 1
    omega
  have hlast : (block.take lf).getLast? = some 13 ↔ 0 < lf ∧ block[lf - 1]? = some 13 := by
    rcases Nat.eq_zero_or_pos lf with rfl | hpos
    · simp
    · rw [List.getLast?_eq_getElem?, List.length_take, Nat.min_eq_left (Nat.le_of_lt hlf),
        List.getElem?_take_of_lt (by omega)]
      exact ⟨fun h => ⟨hpos, h⟩, fun h => h.2⟩
  rw [stripLine, hbody, finish, if_neg Bool.false_ne_true]
  dsimp only
  by_cases hcr : 0 < lf ∧ block[lf - 1]? = some 13
  · rw [if_pos (decide_eq_true hcr), if_pos (hlast.mpr hcr), List.dropLast_eq_take,
      List.length_take, List.take_take, if_pos (decide_eq_true hcr)]
    congr 2
    omega
  · rw [if_neg (by rwa [decide_eq_true_eq]), if_neg (fun h => hcr (hlast.mp h)),
      if_neg (by rwa [decide_eq_true_eq])]

/-- What is left for the next call. -/
theorem finish_held (hlf : lf < «where») (hwhere : «where» ≤ block.length) :
    (finish long block lf «where»).2.held = (block.take «where»).drop (lf + 1) ∧
      (finish long block lf «where»).2.where + (finish long block lf «where»).2.remaining ≤
        (finish long block lf «where»).2.block.length ∧
      (finish long block lf «where»).2.block.length = block.length := by
  cases long with
  | true =>
    refine ⟨?_, ?_, rfl⟩
    · show (block.drop (lf + 1)).take («where» - (lf + 1)) = _
      rw [List.take_drop, show lf + 1 + («where» - (lf + 1)) = «where» by omega]
    · show lf + 1 + («where» - (lf + 1)) ≤ block.length
      omega
  | false =>
    obtain ⟨lf', hle, hset⟩ : ∃ lf' ≤ lf, (finish false block lf «where»).2 =
        ⟨block.set lf' 0, lf + 1, «where» - (lf + 1)⟩ := by
      rw [finish, if_neg Bool.false_ne_true]
      dsimp only
      split
      · exact ⟨lf - 1, Nat.sub_le lf 1, rfl⟩
      · exact ⟨lf, Nat.le_refl lf, rfl⟩
    rw [hset]
    refine ⟨?_, ?_, List.length_set⟩
    · show ((block.set lf' 0).drop (lf + 1)).take _ = _
      rw [List.drop_set_of_lt (by omega), List.take_drop,
        show lf + 1 + («where» - (lf + 1)) = «where» by omega]
    · show lf + 1 + («where» - (lf + 1)) ≤ (block.set lf' 0).length
      rw [List.length_set]
      omega

end Finish

/-! ## The loop -/

/-- A call ends as it should, where `text` is what was kept and what came. -/
def Outcome.Right (cap : ℕ) (text : List UInt8) : Outcome → Prop
  | .outside => False
  | .returns r line =>
    line.where + line.remaining ≤ line.block.length ∧ maxlenCommand ≤ line.block.length ∧
      (r = .RTtimeout ∨ r = .RTeof ∨
        ∃ l rest, text = l ++ rest ∧ IsLine 10 l ∧ r = verdict cap l ∧ line.held = rest)

/-- The buffer allows the line to be judged by the limit. -/
def Fits (cap allocated : ℕ) (text : List UInt8) : Prop :=
  cap ≤ maxlenCommand ∨ allocated ≤ cap ∨ (text.takeWhile (· != 10)).length < cap ∨
    10 ∉ text ∧ (text.takeWhile (· != 10)).length < allocated

/-- No line feed so far: `past` was overwritten, the rest is in the block. -/
structure Scanning (cap : ℕ) (past block : List UInt8) («where» : ℕ) (long : Bool) : Prop where
  le : «where» ≤ block.length
  noLF : 10 ∉ past ++ block.take «where»
  size : maxlenCommand ≤ block.length
  overwritten : long = true → maxlenCommand < cap ∧ block.length = cap ∧ cap ≤ past.length
  whole : long = false → past = []

section Loop

variable {cap : ℕ} {past block text : List UInt8} {«where» : ℕ} {long : Bool} {line : Line}
  {deliveries : List Delivery} {out : Outcome}

theorem takeWhile_of_not_mem {l rest : List UInt8} (h : 10 ∉ l) :
    (l ++ rest).takeWhile (· != 10) = l ++ rest.takeWhile (· != 10) :=
  List.takeWhile_append_of_pos fun _ hc => bne_iff_ne.mpr fun heq => h (heq ▸ hc)

/-- A full buffer that is larger than the limit holds a line over the limit. -/
theorem Fits.of_full {rest : List UInt8} (h : Fits cap block.length (block ++ rest))
    (hno : 10 ∉ block) : cap ≤ maxlenCommand ∨ block.length ≤ cap := by
  rw [Fits, takeWhile_of_not_mem hno, List.length_append] at h
  rcases h with h | h | h | ⟨-, h⟩
  · exact .inl h
  · exact .inr h
  · exact .inr (by omega)
  · omega

/-- After the check for a full buffer there is room. -/
theorem Scanning.grow {rest : List UInt8} (h : Scanning cap past block «where» long)
    (hfits : Fits cap block.length (past ++ block.take «where» ++ rest)) :
    ∃ past' block' where' long', grow cap block «where» long = (block', where', long') ∧
      Scanning cap past' block' where' long' ∧ where' < block'.length ∧
      block.length ≤ block'.length ∧
      past' ++ block'.take where' = past ++ block.take «where» ∧
      Fits cap block'.length (past ++ block.take «where» ++ rest) := by
  rw [Nnrpd.grow]
  by_cases hfull : «where» = block.length
  · subst hfull
    have hsize := h.size
    have hpos : 0 < maxlenCommand := by decide
    rw [List.take_length] at hfits
    have hcap : cap ≤ maxlenCommand ∨ block.length ≤ cap := by
      cases long with
      | true => exact .inr (h.overwritten rfl).2.1.le
      | false =>
        have hpast := h.whole rfl
        subst hpast
        have hno := h.noLF
        rw [List.nil_append, List.take_length] at hno
        exact hfits.of_full hno
    rw [if_neg (not_not.mpr rfl)]
    dsimp only
    by_cases hsame : newsize cap block.length = block.length
    · -- the limit was reached: start over
      have hlimit : maxlenCommand < cap ∧ block.length = cap := by
        rw [newsize] at hsame
        split at hsame
        · rename_i hc
          exact ⟨hc.1, hsame.symm⟩
        · omega
      rw [if_pos hsame]
      refine ⟨past ++ block, block, 0, true, rfl, ?_, by omega, Nat.le_refl _, ?_,
        .inr (.inl hlimit.2.le)⟩
      · refine ⟨Nat.zero_le _, ?_, hsize, fun _ => ⟨hlimit.1, hlimit.2, ?_⟩, fun hl => by cases hl⟩
        · have := h.noLF
          rwa [List.take_length, ← List.append_nil (past ++ block), ← List.take_zero] at this
        · rw [List.length_append]
          omega
      · rw [List.take_zero, List.append_nil, List.take_length]
    · have hgrows : block.length < newsize cap block.length ∧
          (cap ≤ maxlenCommand ∨ newsize cap block.length ≤ cap) := by
        rw [newsize] at hsame ⊢
        split
        · rename_i hc
          rw [if_pos hc] at hsame
          omega
        · rename_i hc
          rw [not_and_or] at hc
          omega
      have hlen : (xrealloc block (newsize cap block.length)).length =
          newsize cap block.length := by
        rw [xrealloc, List.length_append, List.length_take, List.length_replicate]
        omega
      have htake : (xrealloc block (newsize cap block.length)).take block.length = block := by
        rw [xrealloc, List.take_of_length_le hgrows.1.le, List.take_left]
      rw [if_neg hsame]
      refine ⟨past, _, block.length, long, rfl, ?_, by omega, by omega, ?_, ?_⟩
      · refine ⟨by omega, ?_, by omega, fun hl => ?_, h.whole⟩
        · have := h.noLF
          rwa [htake, ← @List.take_length _ block]
        · obtain ⟨h1, h2, -⟩ := h.overwritten hl
          omega
      · rw [htake, List.take_length]
      · rw [hlen]
        exact hgrows.2.imp_right .inl
  · rw [if_pos hfull]
    exact ⟨past, block, «where», long, rfl, h, lt_of_le_of_ne h.le hfull, Nat.le_refl _, rfl, hfits⟩

theorem length_store {bytes : List UInt8} (h : «where» + bytes.length ≤ block.length) :
    (store block «where» bytes).length = block.length := by
  rw [store, List.length_append, List.length_append, List.length_take, List.length_drop]
  omega

theorem take_store {bytes : List UInt8} (h : «where» + bytes.length ≤ block.length) :
    (store block «where» bytes).take («where» + bytes.length) = block.take «where» ++ bytes := by
  have hlen : (block.take «where» ++ bytes).length = «where» + bytes.length := by
    rw [List.length_append, List.length_take]
    omega
  rw [store, ← hlen, List.take_left]

/-- A line that fits is within the limit. -/
theorem Fits.of_line {l rest : List UInt8} {allocated : ℕ} (h : Fits cap allocated (l ++ rest))
    (hline : IsLine 10 l) (hle : l.length ≤ allocated) : cap ≤ maxlenCommand ∨ l.length ≤ cap := by
  obtain ⟨body, rfl, hbody⟩ := hline
  rcases h with h | h | h | ⟨h, -⟩
  · exact .inl h
  · exact .inr (hle.trans h)
  · rw [List.append_assoc, takeWhile_of_not_mem hbody, List.length_append] at h
    have : ([10] ++ rest : List UInt8).takeWhile (· != 10) = [] := rfl
    rw [this, List.length_nil] at h
    exact .inr (by rw [List.length_append, List.length_singleton]; omega)
  · exact absurd (List.mem_append_left _ (List.mem_append_right _ (List.mem_singleton.mpr rfl))) h

/-- A line feed has come. -/
theorem Scanning.finish (h : Scanning cap past block «where» long) {bytes : List UInt8} {k : ℕ}
    (hin : «where» + bytes.length ≤ block.length) (hk : memchr 10 bytes = some k)
    (hfits : Fits cap block.length (past ++ block.take «where» ++ bytes)) :
    Outcome.Right cap (past ++ block.take «where» ++ bytes)
      (.returns
        (finish long (store block «where» bytes) («where» + k) («where» + bytes.length)).1
        (finish long (store block «where» bytes) («where» + k) («where» + bytes.length)).2) := by
  obtain ⟨hklt, hkline⟩ := memchr_eq_some hk
  have hstore := length_store hin
  have htake := take_store hin
  have hline : IsLine 10 (past ++ block.take «where» ++ bytes.take (k + 1)) :=
    hkline.append_left h.noLF
  have hblock : (store block «where» bytes).take («where» + k + 1) =
      block.take «where» ++ bytes.take (k + 1) := by
    have hle : «where» + k + 1 ≤ «where» + bytes.length := by omega
    rw [← Nat.min_eq_left hle, ← List.take_take, htake, List.take_append,
      List.length_take, Nat.min_eq_left h.le]
    congr 1
    · rw [List.take_take]
      congr 1
      omega
    · congr 1
      omega
  have hsplit : past ++ block.take «where» ++ bytes =
      (past ++ block.take «where» ++ bytes.take (k + 1)) ++ bytes.drop (k + 1) := by
    rw [List.append_assoc _ (bytes.take _), List.take_append_drop]
  have hlen : (past ++ block.take «where» ++ bytes.take (k + 1)).length =
      past.length + («where» + k + 1) := by
    have := h.le
    rw [List.length_append, List.length_append, List.length_take, List.length_take]
    omega
  obtain ⟨hheld, hkept, hsize⟩ := @finish_held (store block «where» bytes) («where» + k)
    («where» + bytes.length) long (by omega) (by omega)
  refine ⟨hkept, ?_, .inr (.inr ⟨_, _, hsplit, hline, ?_, ?_⟩)⟩
  · rw [hsize, hstore]
    exact h.size
  · cases long with
    | true =>
      obtain ⟨hcap, -, hpast⟩ := h.overwritten rfl
      rw [verdict, if_neg (by omega)]
      rfl
    | false =>
      have hpast := h.whole rfl
      subst hpast
      rw [List.nil_append] at hline hlen hsplit hfits ⊢
      rw [hsplit] at hfits
      rw [verdict, if_pos (hfits.of_line hline (by rw [hlen, List.length_nil]; omega)), ← hblock]
      rw [← hblock] at hline
      exact finish_short (by omega) hline
  · rw [hheld, htake, Nat.add_assoc, List.drop_append, List.length_take, Nat.min_eq_left h.le,
      List.drop_eq_nil_iff.mpr (by rw [List.length_take]; omega), List.nil_append]
    congr 1
    omega

/-- The loop, by induction on what is delivered. -/
theorem readLoop_right (hloop : readLoop cap line deliveries block «where» long = some out)
    (h : Scanning cap past block «where» long)
    (hfits : Fits cap block.length (past ++ block.take «where» ++ delivered deliveries))
    (hline : line.where + line.remaining ≤ block.length) :
    out.Right cap (past ++ block.take «where» ++ delivered deliveries) := by
  induction deliveries generalizing past block «where» long with
  | nil => cases hloop
  | cons delivery deliveries ih =>
    obtain ⟨past', block', where', long', hgrow, hscan, hroom, hlarger, htext, hfits'⟩ :=
      h.grow hfits
    have hkept : line.where + line.remaining ≤ block'.length := hline.trans hlarger
    unfold readLoop at hloop
    rw [hgrow] at hloop
    dsimp only at hloop
    cases delivery with
    | fails =>
      dsimp only at hloop
      split at hloop
      · cases hloop
      · cases hloop
        exact ⟨hkept, hscan.size, .inl rfl⟩
    | eof =>
      dsimp only at hloop
      split at hloop
      · cases hloop
      · rw [if_neg (by omega)] at hloop
        cases hloop
        refine ⟨?_, ?_, .inr (.inl rfl)⟩
        · show line.where + line.remaining ≤ (block'.set where' 0).length
          rw [List.length_set]
          exact hkept
        · show maxlenCommand ≤ (block'.set where' 0).length
          rw [List.length_set]
          exact hscan.size
    | bytes bytes =>
      dsimp only at hloop
      split at hloop
      · cases hloop
      · rename_i hdelivery
        rw [not_or, Nat.not_lt] at hdelivery
        have hin : where' + bytes.length ≤ block'.length := by
          have hmod : (block'.length + 2 ^ 64 - where') % 2 ^ 64 ≤ block'.length - where' := by
            rw [show block'.length + 2 ^ 64 - where' = block'.length - where' + 2 ^ 64 by omega,
              Nat.add_mod_right]
            exact Nat.mod_le _ _
          omega
        have hall : past ++ block.take «where» ++ delivered (.bytes bytes :: deliveries) =
            past' ++ block'.take where' ++ bytes ++ delivered deliveries := by
          rw [← htext, List.append_assoc _ bytes]
          rfl
        rw [hall] at hfits' ⊢
        rw [if_neg (by omega)] at hloop
        split at hloop
        · -- no line feed yet
          rename_i hnone
          have hnext : past' ++ (store block' where' bytes).take (where' + bytes.length) =
              past' ++ block'.take where' ++ bytes := by
            rw [take_store hin, List.append_assoc]
          have hstore := length_store hin
          rw [← hnext] at hfits' ⊢
          refine ih hloop ⟨by omega, ?_, hstore ▸ hscan.size, ?_, hscan.whole⟩ ?_ (hstore ▸ hkept)
          · rw [hnext]
            intro hmem
            rcases List.mem_append.mp hmem with hmem | hmem
            · exact hscan.noLF hmem
            · exact memchr_eq_none hnone hmem
          · rw [hstore]
            exact hscan.overwritten
          · rw [hstore]
            exact hfits'
        · rename_i k hk
          split at hloop
          · cases hloop
          · rename_i hend
            rw [not_not] at hend
            subst hend
            cases hloop
            rw [show delivered [] = [] from rfl, List.append_nil] at hfits' ⊢
            exact hscan.finish hin hk hfits'

theorem length_held (h : line.where + line.remaining ≤ line.block.length) :
    line.held.length = line.remaining := by
  rw [Line.held, List.length_take, List.length_drop]
  omega

/-- One call of `line_read`. -/
theorem lineRead_right (hread : lineRead cap deliveries line = some out)
    (hkept : line.where + line.remaining ≤ line.block.length)
    (hsize : maxlenCommand ≤ line.block.length)
    (hfits : Fits cap line.block.length (line.held ++ delivered deliveries)) :
    out.Right cap (line.held ++ delivered deliveries) := by
  have hlen := length_held hkept
  have hin : 0 + line.held.length ≤ line.block.length := by omega
  have hstore := length_store hin
  have htake : (store line.block 0 line.held).take line.remaining = line.held := by
    have := take_store hin
    rwa [List.take_zero, List.nil_append, Nat.zero_add, hlen] at this
  rw [lineRead, if_neg (by omega)] at hread
  dsimp only at hread
  rw [htake] at hread
  split at hread
  · -- there is no line in what was kept
    rename_i hnone
    have h := @readLoop_right cap [] _ _ _ line _ _ hread
    rw [List.nil_append, htake] at h
    refine h ⟨by omega, ?_, hstore ▸ hsize, (fun hl => by cases hl), fun _ => rfl⟩ (hstore ▸ hfits)
      (hstore ▸ hkept)
    rw [List.nil_append, htake]
    exact memchr_eq_none hnone
  · rename_i lf hlf
    split at hread
    · cases hread
    · rename_i hend
      rw [not_not] at hend
      subst hend
      cases hread
      rw [show delivered [] = [] from rfl, List.append_nil] at hfits ⊢
      have hscan : Scanning cap [] line.block 0 false :=
        ⟨Nat.zero_le _, by rw [List.take_zero]; exact List.not_mem_nil, hsize,
          (fun hl => by cases hl), fun _ => rfl⟩
      have h := hscan.finish hin hlf (by rw [List.take_zero]; exact hfits)
      rwa [List.take_zero, List.append_nil, List.nil_append, Nat.zero_add, Nat.zero_add, hlen] at h

end Loop

/-! ## The calls of a connection -/

/-- What holds between two calls, where `lines` were taken and `rest` was not. -/
structure Taken (s : Session) (lines : List (List UInt8)) (rest : List UInt8) : Prop where
  line : ∀ l ∈ lines, IsLine 10 l
  input : s.input = lines.flatten ++ rest
  limits : s.limits.length = lines.length
  results : s.results = List.zipWith verdict s.limits lines
  held : s.ended = false → s.line.held = rest
  kept : s.line.where + s.line.remaining ≤ s.line.block.length
  size : maxlenCommand ≤ s.line.block.length
  inside : s.outside = false

theorem taken_start : Taken start [] [] where
  line _ hl := nomatch hl
  input := rfl
  limits := rfl
  results := rfl
  held _ := rfl
  kept := Nat.zero_le _
  size := Nat.le_of_eq List.length_replicate.symm
  inside := rfl

section Calls

variable {s s' : Session} {lines : List (List UInt8)} {rest : List UInt8}

/-- A line more. -/
theorem Taken.snoc (h : Taken s lines s.line.held) {cap : ℕ} {l rest' more : List UInt8} {line : Line}
    (hsplit : s.line.held ++ more = l ++ rest') (hl : IsLine 10 l) (hheld : line.held = rest')
    (hkept : line.where + line.remaining ≤ line.block.length)
    (hsize : maxlenCommand ≤ line.block.length) :
    Taken { s with
        line := line, input := s.input ++ more
        limits := s.limits ++ [cap], results := s.results ++ [verdict cap l] }
      (lines ++ [l]) rest' where
  line l' hl' := by
    rcases List.mem_append.mp hl' with hl' | hl'
    · exact h.line l' hl'
    · exact List.mem_singleton.mp hl' ▸ hl
  input := by
    show s.input ++ more = _
    rw [h.input, List.append_assoc, hsplit, List.flatten_append, List.flatten_singleton,
      List.append_assoc]
  limits := by
    show (s.limits ++ [cap]).length = _
    rw [List.length_append, List.length_append, h.limits]
    rfl
  results := by
    show s.results ++ [verdict cap l] = List.zipWith verdict (s.limits ++ [cap]) (lines ++ [l])
    rw [List.zipWith_append h.limits, h.results]
    rfl
  held _ := hheld
  kept := hkept
  size := hsize
  inside := h.inside

/-- The connection ends. -/
theorem Taken.finished (h : Taken s lines s.line.held) {more : List UInt8} {line : Line}
    (hkept : line.where + line.remaining ≤ line.block.length)
    (hsize : maxlenCommand ≤ line.block.length) :
    Taken { s with line := line, input := s.input ++ more, ended := true } lines
      (s.line.held ++ more) where
  line := h.line
  input := by
    show s.input ++ more = _
    rw [h.input, List.append_assoc]
  limits := h.limits
  results := h.results
  held hover := nomatch hover
  kept := hkept
  size := hsize
  inside := h.inside

/-- One call. -/
theorem next_taken {call : Call} (hnext : guarded WithinLimit Next s call s')
    (h : Taken s lines rest) : ∃ lines' rest', Taken s' lines' rest' := by
  obtain ⟨hlimit, hstep⟩ := hnext
  cases call with
  | reset =>
    rw [Next, step] at hstep
    split at hstep
    · cases hstep
    · rename_i hover
      cases hstep
      have hheld := h.held (Bool.not_eq_true _ ▸ hover)
      have hlen := length_held h.kept
      refine ⟨lines, [], h.line, ?_, h.limits, h.results, fun _ => rfl, ?_, h.size, h.inside⟩
      · show s.input.take (s.input.length - s.line.remaining) = _
        rw [h.input, ← hheld, List.length_append, hlen, Nat.add_sub_cancel, List.take_left,
          List.append_nil]
      · exact Nat.zero_le _
  | read cap deliveries =>
    rw [Next, step] at hstep
    split at hstep
    · cases hstep
    · rename_i hover
      have hheld := h.held (Bool.not_eq_true _ ▸ hover)
      subst hheld
      have hright := fun out hread =>
        @lineRead_right cap s.line deliveries out hread h.kept h.size hlimit
      dsimp only at hstep
      split at hstep
      · cases hstep
      · rename_i hread
        exact (hright _ hread).elim
      · rename_i line hread
        cases hstep
        obtain ⟨hkept, hsize, -⟩ := hright _ hread
        exact ⟨_, _, h.finished hkept hsize⟩
      · rename_i line hread
        cases hstep
        obtain ⟨hkept, hsize, -⟩ := hright _ hread
        exact ⟨_, _, h.finished hkept hsize⟩
      · rename_i r line htimeout heof hread
        cases hstep
        obtain ⟨hkept, hsize, hr | hr | ⟨l, rest, hsplit, hl, hr, hheld⟩⟩ := hright _ hread
        · exact absurd hr htimeout
        · exact absurd hr heof
        · subst hr
          exact ⟨_, _, h.snoc hsplit hl hheld hkept hsize⟩

theorem Taken.split (h : Taken s lines rest) : SplitAtLF s where
  results := by
    have hzip : List.zipWith verdict (s.limits ++ []) (lines ++ completeLines 10 rest) =
        List.zipWith verdict s.limits lines ++ [] := List.zipWith_append h.limits
    rw [List.append_nil, List.append_nil] at hzip
    rw [h.results, h.input, completeLines_flatten h.line, hzip]
  taken := by
    rw [h.results, List.length_zipWith, h.limits, Nat.min_self]
  inside := ⟨h.inside, h.kept⟩

end Calls

/-- The calls return the lines of the stream, however it arrives, if no line that is over
the limit meets a buffer that is larger than the limit. -/
theorem split_at_lf {s : Session} {calls : List Call}
    (h : Steps (guarded WithinLimit Next) start calls s) : SplitAtLF s := by
  have hinv : ∃ lines rest, Taken s lines rest := by
    refine @Steps.invariant _ _ _ (fun s => ∃ lines rest, Taken s lines rest) _ _ _
      (fun s call s' hnext hinv => ?_) h ⟨[], [], taken_start⟩
    obtain ⟨lines, rest, hinv⟩ := hinv
    exact next_taken hnext hinv
  obtain ⟨lines, rest, hinv⟩ := hinv
  exact hinv.split

/-- A command in two pieces with the next one behind it, which then comes without a read. -/
def pipelined : List Call :=
  [.read 1000000 [.bytes [72, 69, 76], .bytes [80, 13, 10, 81, 10, 88]], .read 1000000 []]

theorem split_pipelined : ∃ s, Steps (guarded WithinLimit Next) start pipelined s ∧ SplitAtLF s ∧
    s.results = [.RTok [72, 69, 76, 80] 2, .RTok [81] 1] := by
  have hguard : ∀ {s : Session} {call : Call} {s' : Session},
      (if WithinLimit s call then step s call else none) = some s' →
        guarded WithinLimit Next s call s' := fun {s call s'} hstep => by
    by_cases hlimit : WithinLimit s call
    · rw [if_pos hlimit] at hstep
      exact ⟨hlimit, hstep⟩
    · rw [if_neg hlimit] at hstep
      cases hstep
  have hsteps := (@Steps.of_foldlM _ _ (fun s call => if WithinLimit s call then step s call else none)
    start _ pipelined (Option.some_get (by decide +kernel)).symm).mono fun _ _ _ => hguard
  exact ⟨_, hsteps, split_at_lf hsteps, by decide +kernel⟩

/-! ## A limit that was lowered -/

/-- A line of 1100 bytes is read with a limit of a million; it makes the buffer 2048 bytes
large. Then the limit is 600, and a line comes that has 2048 bytes and goes on. -/
def lowered : List Call :=
  [.read 1000000 [.bytes (List.replicate 512 65), .bytes (List.replicate 512 65),
      .bytes (List.replicate 76 65 ++ [10])],
    .read 600 [.bytes (List.replicate 2048 66), .bytes [66]]]

/-- The next byte is stored behind the end of the buffer. -/
theorem shrunken_buffer : ¬ ∀ calls s, Steps Next start calls s → SplitAtLF s := by
  intro hall
  have hsteps : Steps Next start lowered _ :=
    Steps.of_foldlM (Option.some_get (by decide +kernel)).symm
  have hinside := (hall lowered _ hsteps).inside.1
  revert hinside
  decide +kernel

end Inn.Nnrpd
