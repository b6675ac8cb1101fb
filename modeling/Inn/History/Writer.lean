import Inn.Rules
import Inn.Stream
import Inn.History.Replace

/-!
# Inn.History.Writer — the offset kept beside the stream

`hisv6_writeline` appends a line to a buffered stream and enters `h->offset` into the
index; the offset is counted by hand. A write may be accepted in part, and a flush or a
seek may fail.

* `Inv` — every indexed offset has its line, and `h->offset` is where the stream stands;
* `inv_writeline`, `inv_replace` — what keeps it;
* `writer_in_step` — it holds in every state of a run whose calls are `Sound`.
-/

namespace Inn.History

/-- An entry of the index, with the values its line was last written for. -/
structure Entry where
  hash : HASH
  offset : ℕ
  arrived : Time
  posted : Time
  expires : Time
  token : Option TOKEN
deriving DecidableEq

/-- The line of an entry. -/
def Entry.line (e : Entry) : List UInt8 := lineText e.hash e.arrived e.posted e.expires e.token

/-- Where the line of an entry ends, with its newline. -/
def Entry.stop (e : Entry) : ℕ := e.offset + (e.line ++ [NEWLINE]).length

/-- `struct hisv6` of a history open for writing, which has the index. -/
structure Writer where
  incore : Bool
  synccount : ℕ
  dirty : ℕ
  stream : Stream UInt8
  offset : ℕ
  index : List Entry

/-- How the steps of a write go: what `fwrite` accepts and moves to the file, the flush
after it, the seek back, `dbzstore`, and the two parts of a synchronisation. -/
structure Faults where
  accepted : ℕ
  moved : ℕ
  flush : Flush
  seek : Seek
  dbzstore : Bool
  sync : Flush
  dbzsync : Bool

section Calls

variable (w : Writer)

/-- `dbzfetch`. -/
def dbzfetch (index : List Entry) (hash : HASH) : Option ℕ :=
  (index.find? (·.hash = hash)).map (·.offset)

/-- `hisv6_sync`. -/
def hisv6Sync (f : Faults) : Bool × Writer :=
  let s := w.stream.fflush f.sync
  if w.dirty = 0 then (s.1, { w with stream := s.2 })
  else if f.dbzsync then (false, { w with stream := s.2 })
  else (s.1, { w with stream := s.2, dirty := 0 })

/-- `hisv6_writedbz`. -/
def hisv6Writedbz (e : Entry) (f : Faults) : Bool × Writer :=
  if f.dbzstore then (false, w)
  else
    -- a duplicate is not an error, and keeps the offset it has
    let w := if (dbzfetch w.index e.hash).isSome then w else { w with index := w.index ++ [e] }
    if w.synccount = 0 then (true, w)
    else if w.synccount ≤ w.dirty + 1 then hisv6Sync { w with dirty := w.dirty + 1 } f
    else (true, { w with dirty := w.dirty + 1 })

/-- The end of `hisv6_writeline` where the line did not get out: the stream goes back to
the offset, or else the offset goes on by what was accepted. -/
def rewind (s : Stream UInt8) (i : ℕ) (seek : Seek) : Bool × Writer :=
  let k := s.fseeko w.offset seek
  (false, { w with stream := k.2, offset := if k.1 then w.offset else w.offset + i })

/-- The end of `hisv6_writeline` where it did. -/
def store (s : Stream UInt8) (e : Entry) (length : ℕ) (f : Faults) : Bool × Writer :=
  let r := hisv6Writedbz { w with stream := s } e f
  (r.1, { r.2 with offset := w.offset + length })

/-- `hisv6_writeline`. -/
def hisv6Writeline (hash : HASH) (arrived posted expires : Time) (token : Option TOKEN)
    (f : Faults) : Bool × Writer :=
  match hisv6Formatline hash arrived posted expires token with
  | none => (false, w)
  | some line =>
    let s := w.stream.fwrite line f.accepted f.moved
    let e : Entry := ⟨hash, w.offset, arrived, posted, expires, token⟩
    if f.accepted < line.length then rewind w s f.accepted f.seek
    else if w.incore then store w s e line.length f
    else
      let s := s.fflush f.flush
      if s.1 then store w s.2 e line.length f
      else rewind w s.2 line.length f.seek

/-- The flush of `hisv6_fetchline`, which reads the file and not the stream. -/
def flushIncore (o : Flush) : Bool × Writer :=
  if w.incore then
    let s := w.stream.fflush o
    (s.1, { w with stream := s.2 })
  else (true, w)

/-- What `hisv6_fetchline` reads from. -/
def Writer.handle : Handle := ⟨true, true, w.stream.file, dbzfetch w.index⟩

/-- `hisv6_lookup`. -/
def lookup (hash : HASH) (o : Flush) : Bool × Writer :=
  let p := flushIncore w o
  if p.1 then
    match hisv6Lookup p.2.handle hash with
    | .ok (r, _) => (r, p.2)
    | .error _ => (false, p.2)
  else (false, p.2)

/-- The values of the entry of a hash, replaced. -/
def Entry.replaced (hash : HASH) (arrived posted expires : Time) (token : Option TOKEN)
    (e : Entry) : Entry :=
  if e.hash = hash then ⟨e.hash, e.offset, arrived, posted, expires, token⟩ else e

/-- `hisv6_replace`; `pwrite` writes `n` bytes. -/
def replace (hash : HASH) (arrived posted expires : Time) (token : Option TOKEN) (o : Flush)
    (n : ℕ) : Bool × Writer :=
  let p := flushIncore w o
  if p.1 then
    let r := hisv6Replace p.2.handle hash arrived posted expires token n
    let s := { p.2.stream with file := r.2.text }
    match r.1 with
    | .ok _ => (true, { p.2 with
        stream := s, index := w.index.map (.replaced hash arrived posted expires token) })
    | .error _ => (false, { p.2 with stream := s })
  else (false, p.2)

end Calls

/-- A call on the handle, with what happens in it. -/
inductive Call where
  | write (hash : HASH) (arrived posted expires : Time) (token : Option TOKEN) (f : Faults)
  | remember (hash : HASH) (arrived posted : Time) (f : Faults)
  | replace (hash : HASH) (arrived posted expires : Time) (token : Option TOKEN) (o : Flush) (n : ℕ)
  | lookup (hash : HASH) (o : Flush)

/-- The result of a call and the writer after it. -/
def call (w : Writer) : Call → Bool × Writer
  | .write hash arrived posted expires token f =>
    hisv6Writeline w hash arrived posted expires token f
  | .remember hash arrived posted f => hisv6Writeline w hash arrived posted 0 none f
  | .replace hash arrived posted expires token o n =>
    replace w hash arrived posted expires token o n
  | .lookup hash o => lookup w hash o

/-! ## Text and index in step -/

/-- A file has the line of an entry where the index says, and it reads as the values it was
written for. -/
structure Entry.In (e : Entry) (file : List UInt8) : Prop where
  starts : Holds file e.offset (e.line ++ [NEWLINE])
  parses : 0 ≤ e.arrived → 0 ≤ e.posted → 0 ≤ e.expires →
    hisv6Splitline (lineAt file e.offset) =
      .ok (written e.hash e.arrived e.posted e.expires e.token)

/-- The text and the index are in step: every entry has its line in the file with the
pending bytes and, where each write is flushed, on disk; and the next line goes where
`h->offset` says. -/
structure InStep (w : Writer) : Prop where
  view : ∀ e ∈ w.index, e.In w.stream.view
  disk : w.incore = false → ∀ e ∈ w.index, e.In w.stream.file
  next : w.offset = w.stream.tell

/-- The line of a write gets out, so that the index comes next. -/
def GetsOut (w : Writer) (line : List UInt8) (f : Faults) : Prop :=
  line.length ≤ f.accepted ∧ (w.incore = true ∨ f.flush = .ok)

/-- The seek back succeeds, or it drops nothing. -/
def Rewinds (s : Stream UInt8) : Seek → Prop
  | .ok => True
  | .fail o => ¬ o.Drops s.pending

/-- A write loses no bytes, except where it goes back to the offset after it did. -/
def SoundWrite (w : Writer) (line : List UInt8) (f : Faults) : Prop :=
  let s := w.stream.fwrite line f.accepted f.moved
  if f.accepted < line.length then Rewinds s f.seek
  else if w.incore then
    w.synccount ≠ 0 → w.synccount ≤ w.dirty + 1 → f.dbzstore = false → ¬ f.sync.Drops s.pending
  else f.flush ≠ .ok →
    (f.flush.Drops s.pending → f.seek = .ok) ∧ Rewinds (s.fflush f.flush).2 f.seek

/-- A replacement is as long as the line it replaces, and is written whole or not at all. -/
def SoundReplace (h : Handle) (hash : HASH) (arrived posted expires : Time)
    (token : Option TOKEN) (n : ℕ) : Prop :=
  ∀ old offset, hisv6Fetchline h hash = .ok (old, offset) →
    (hisv6Formatline hash arrived posted expires token).isSome →
      lineLength arrived posted expires token ≤ old.length →
        n = 0 ∨ n = old.length ∧ lineLength arrived posted expires token = old.length

/-- The calls that keep text and index in step. -/
def Sound (w : Writer) : Call → Prop
  | .write hash arrived posted expires token f =>
    ∀ line, hisv6Formatline hash arrived posted expires token = some line → SoundWrite w line f
  | .remember hash arrived posted f =>
    ∀ line, hisv6Formatline hash arrived posted 0 none = some line → SoundWrite w line f
  | .replace hash arrived posted expires token o n =>
    (w.incore = true → ¬ o.Drops w.stream.pending) ∧
      SoundReplace (flushIncore w o).2.handle hash arrived posted expires token n
  | .lookup _ o => w.incore = true → ¬ o.Drops w.stream.pending

/-! ## The lines of the index in the stream -/

/-- The lines of the index are in the stream, and on disk where each write is flushed. -/
structure Lines (incore : Bool) (index : List Entry) (s : Stream UInt8) : Prop where
  view : ∀ e ∈ index, Holds s.view e.offset (e.line ++ [NEWLINE])
  bound : ∀ e ∈ index, e.stop ≤ s.tell
  disk : incore = false → ∀ e ∈ index, Holds s.file e.offset (e.line ++ [NEWLINE])
  flushed : incore = false → ∀ e ∈ index, e.stop ≤ s.pos

section Lines

variable {incore : Bool} {index : List Entry} {s : Stream UInt8} {w w' : Writer} {r : Bool}

theorem Lines.fwrite (h : Lines incore index s) (bytes : List UInt8) (accepted moved : ℕ) :
    Lines incore index (s.fwrite bytes accepted moved) := by
  obtain ⟨l, hfile⟩ := Stream.file_fflush_eq
    (⟨s.file, s.pos, s.pending ++ bytes.take accepted⟩ : Stream UInt8) (.fail moved true)
  have hpos := Stream.pos_le_fflush
    (⟨s.file, s.pos, s.pending ++ bytes.take accepted⟩ : Stream UInt8) (.fail moved true)
  refine ⟨fun e he => ?_, fun e he => ?_, fun hi e he => ?_, fun hi e he => ?_⟩
  · rw [Stream.view_fwrite]
    exact (h.view e he).writeAt (.inl (h.bound e he))
  · rw [Stream.tell_fwrite]
    exact Nat.le_trans (h.bound e he) (Nat.le_add_right ..)
  · rw [Stream.fwrite, hfile]
    exact (h.disk hi e he).writeAt (.inl (h.flushed hi e he))
  · exact Nat.le_trans (h.flushed hi e he) hpos

theorem Lines.fflush (h : Lines incore index s) {o : Flush}
    (hd : incore = true → ¬ o.Drops s.pending) : Lines incore index (s.fflush o).2 := by
  obtain ⟨l, hview⟩ := Stream.view_fflush_eq s o
  obtain ⟨l', hfile⟩ := Stream.file_fflush_eq s o
  have hpos := Stream.pos_le_fflush s o
  refine ⟨fun e he => ?_, fun e he => ?_, fun hi e he => ?_, fun hi e he => ?_⟩
  · by_cases hdrop : o.Drops s.pending
    · have hi : incore = false := Bool.eq_false_iff.mpr fun hi => hd hi hdrop
      rw [hview]
      exact (h.disk hi e he).writeAt (.inl (h.flushed hi e he))
    · rw [(Stream.view_fflush hdrop).1]
      exact h.view e he
  · by_cases hdrop : o.Drops s.pending
    · have hi : incore = false := Bool.eq_false_iff.mpr fun hi => hd hi hdrop
      exact Nat.le_trans (Nat.le_trans (h.flushed hi e he) hpos) (Nat.le_add_right ..)
    · rw [(Stream.view_fflush hdrop).2]
      exact h.bound e he
  · rw [hfile]
    exact (h.disk hi e he).writeAt (.inl (h.flushed hi e he))
  · exact Nat.le_trans (h.flushed hi e he) hpos

/-- After a seek that succeeds everything is in the file. -/
theorem Lines.fseeko (h : Lines incore index s) {target : ℕ}
    (hb : ∀ e ∈ index, e.stop ≤ target) : Lines incore index (s.fseeko target .ok).2 :=
  ⟨h.view, fun e he => Nat.le_trans (hb e he) (Nat.le_add_right ..), fun _ => h.view, fun _ => hb⟩

/-- One more line in the stream. -/
theorem Lines.snoc (h : Lines incore index s) {e : Entry}
    (hline : Holds s.view e.offset (e.line ++ [NEWLINE])) (hstop : e.stop ≤ s.tell)
    (hout : incore = false → s.pending = []) : Lines incore (index ++ [e]) s := by
  have hmem : ∀ {P : Entry → Prop}, (∀ d ∈ index, P d) → P e → ∀ d ∈ index ++ [e], P d := by
    intro P hindex he d hd
    rcases List.mem_append.mp hd with hd | hd
    · exact hindex d hd
    · exact List.mem_singleton.mp hd ▸ he
  have hview : incore = false → s.file = s.view := fun hi => by rw [Stream.view, hout hi, writeAt_nil]
  have htell : incore = false → s.pos = s.tell := fun hi => by
    rw [Stream.tell, hout hi, List.length_nil, Nat.add_zero]
  exact ⟨hmem h.view hline, hmem h.bound hstop, fun hi => hmem (h.disk hi) (hview hi ▸ hline),
    fun hi => hmem (h.flushed hi) ((htell hi).symm ▸ hstop)⟩

end Lines

/-! ## The invariant -/

/-- The lines of the index are in the stream, one after the other, and the offset is its
position. -/
structure Inv (w : Writer) : Prop where
  lines : Lines w.incore w.index w.stream
  next : w.offset = w.stream.tell
  apart : w.index.Pairwise fun e e' => e.hash ≠ e'.hash ∧ e.stop ≤ e'.offset
  fits : ∀ e ∈ w.index, (e.line ++ [NEWLINE]).length < HISV6_MAXLINE

theorem Holds.entryIn {e : Entry} {file : List UInt8}
    (h : Holds file e.offset (e.line ++ [NEWLINE])) : e.In file := by
  refine ⟨h, fun ha hp he => ?_⟩
  obtain ⟨rest, hrest⟩ := h.drop
  have hline : lineAt file e.offset = e.line := by
    rw [lineAt, hrest, List.append_assoc]
    exact takeWhile_newline (fun c hc => (isLineText_lineText c hc).2) rest
  rw [hline]
  exact hisv6Splitline_lineText ha hp he

theorem Inv.inStep {w : Writer} (h : Inv w) : InStep w :=
  ⟨fun e he => Holds.entryIn (h.lines.view e he), fun hi e he => Holds.entryIn (h.lines.disk hi e he),
    h.next⟩

section Write

variable {w : Writer} {f : Faults}

/-- Going back to the offset, or on from where the stream stands. -/
theorem inv_rewind (h : Inv w) {s : Stream UInt8} {i : ℕ} {seek : Seek}
    (hlines : Lines w.incore w.index s) (hs : Rewinds s seek)
    (hnext : seek ≠ .ok → s.tell = w.offset + i) : Inv (rewind w s i seek).2 := by
  have hbound : ∀ e ∈ w.index, e.stop ≤ w.offset := by
    rw [h.next]
    exact h.lines.bound
  cases seek with
  | ok => exact ⟨hlines.fseeko hbound, rfl, h.apart, h.fits⟩
  | fail o =>
    have hs : ¬ o.Drops s.pending := hs
    refine ⟨hlines.fflush fun _ => hs, ?_, h.apart, h.fits⟩
    exact (hnext nofun).symm.trans (Stream.view_fflush hs).2.symm

/-- What storing an entry does to the index and to the stream. -/
theorem hisv6Writedbz_cases (w : Writer) (e : Entry) (f : Faults) :
    ∃ dirty stream index, (hisv6Writedbz w e f).2 =
        ⟨w.incore, w.synccount, dirty, stream, w.offset, index⟩ ∧
      (index = w.index ∨ index = w.index ++ [e] ∧ dbzfetch w.index e.hash = none) ∧
      (stream = w.stream ∨ stream = (w.stream.fflush f.sync).2 ∧
        w.synccount ≠ 0 ∧ w.synccount ≤ w.dirty + 1 ∧ f.dbzstore = false) := by
  rw [hisv6Writedbz]
  split
  · exact ⟨_, _, _, rfl, .inl rfl, .inl rfl⟩
  rename_i hdbz
  obtain ⟨index, hw, hindex⟩ : ∃ index,
      (if (dbzfetch w.index e.hash).isSome then w else { w with index := w.index ++ [e] }) =
        ⟨w.incore, w.synccount, w.dirty, w.stream, w.offset, index⟩ ∧
      (index = w.index ∨ index = w.index ++ [e] ∧ dbzfetch w.index e.hash = none) := by
    split
    · exact ⟨_, rfl, .inl rfl⟩
    · rename_i h
      exact ⟨_, rfl, .inr ⟨rfl, Option.not_isSome_iff_eq_none.mp h⟩⟩
  rw [hw]
  dsimp only
  split
  · exact ⟨_, _, _, rfl, hindex, .inl rfl⟩
  rename_i hzero
  split
  · rename_i hdue
    rw [hisv6Sync, if_neg (Nat.succ_ne_zero _)]
    split
    · exact ⟨_, _, _, rfl, hindex, .inr ⟨rfl, hzero, hdue, Bool.eq_false_iff.mpr hdbz⟩⟩
    · exact ⟨_, _, _, rfl, hindex, .inr ⟨rfl, hzero, hdue, Bool.eq_false_iff.mpr hdbz⟩⟩
  · exact ⟨_, _, _, rfl, hindex, .inl rfl⟩

theorem hash_ne_of_dbzfetch {index : List Entry} {hash : HASH} (h : dbzfetch index hash = none)
    {e : Entry} (he : e ∈ index) : e.hash ≠ hash := by
  rw [dbzfetch, Option.map_eq_none_iff, List.find?_eq_none] at h
  simpa using h e he

/-- Storing the entry of a line that got out. -/
theorem inv_store (h : Inv w) {s : Stream UInt8} {e : Entry}
    (hlines : Lines w.incore w.index s) (hoff : e.offset = w.offset)
    (hline : Holds s.view e.offset (e.line ++ [NEWLINE])) (hnext : s.tell = e.stop)
    (hout : w.incore = false → s.pending = [])
    (hsync : w.synccount ≠ 0 → w.synccount ≤ w.dirty + 1 → f.dbzstore = false →
      w.incore = true → ¬ f.sync.Drops s.pending)
    (hfits : (e.line ++ [NEWLINE]).length < HISV6_MAXLINE) :
    Inv (store w s e (e.line ++ [NEWLINE]).length f).2 := by
  obtain ⟨dirty, stream, index, hdbz, hindex, hstream⟩ := hisv6Writedbz_cases { w with stream := s } e f
  have hdrops : w.synccount ≠ 0 → w.synccount ≤ w.dirty + 1 → f.dbzstore = false →
      ¬ f.sync.Drops s.pending := by
    intro hzero hdue hdbz
    cases hi : w.incore with
    | true => exact hsync hzero hdue hdbz hi
    | false =>
      rw [hout hi]
      exact Stream.not_drops_nil f.sync
  have hnew : Lines w.incore index s ∧
      (index.Pairwise fun e e' => e.hash ≠ e'.hash ∧ e.stop ≤ e'.offset) ∧
      ∀ e ∈ index, (e.line ++ [NEWLINE]).length < HISV6_MAXLINE := by
    rcases hindex with rfl | ⟨rfl, hnone⟩
    · exact ⟨hlines, h.apart, h.fits⟩
    · refine ⟨hlines.snoc hline hnext.ge hout, ?_, ?_⟩
      · refine List.pairwise_append.mpr ⟨h.apart, List.pairwise_singleton .., fun e' he' d hd => ?_⟩
        rw [List.mem_singleton.mp hd, hoff, h.next]
        exact ⟨hash_ne_of_dbzfetch hnone he', h.lines.bound e' he'⟩
      · intro e' he'
        rcases List.mem_append.mp he' with he' | he'
        · exact h.fits e' he'
        · exact List.mem_singleton.mp he' ▸ hfits
  have hstop : w.offset + (e.line ++ [NEWLINE]).length = s.tell := by rw [hnext, Entry.stop, hoff]
  obtain ⟨hview, hapart, hall⟩ := hnew
  rw [store, hdbz]
  rcases hstream with rfl | ⟨rfl, hzero, hdue, hdbz⟩
  · exact ⟨hview, hstop, hapart, hall⟩
  · have hd := hdrops hzero hdue hdbz
    exact ⟨hview.fflush fun _ => hd, hstop.trans (Stream.view_fflush hd).2.symm, hapart, hall⟩

/-- A sound write keeps the invariant. -/
theorem inv_writeline (h : Inv w) {hash : HASH} {arrived posted expires : Time}
    {token : Option TOKEN}
    (hf : ∀ line, hisv6Formatline hash arrived posted expires token = some line →
      SoundWrite w line f) :
    Inv (hisv6Writeline w hash arrived posted expires token f).2 := by
  rw [hisv6Writeline]
  split
  · exact h
  rename_i line hline
  obtain ⟨heq, hfits⟩ := eq_of_hisv6Formatline hline
  have hsound := hf line hline
  rw [SoundWrite] at hsound
  dsimp only at hsound ⊢
  have hlines := h.lines.fwrite line f.accepted f.moved
  have hview : (w.stream.fwrite line f.accepted f.moved).view =
      writeAt w.stream.view w.stream.tell (line.take f.accepted) := Stream.view_fwrite
  have htell : (w.stream.fwrite line f.accepted f.moved).tell =
      w.stream.tell + (line.take f.accepted).length := Stream.tell_fwrite
  generalize w.stream.fwrite line f.accepted f.moved = s at hsound hlines hview htell ⊢
  by_cases hshort : f.accepted < line.length
  · -- a part of the line only
    rw [if_pos hshort] at hsound ⊢
    refine inv_rewind h hlines hsound fun _ => ?_
    rw [htell, List.length_take, Nat.min_eq_left (Nat.le_of_lt hshort), h.next]
  rw [if_neg hshort] at hsound ⊢
  have htake : line.take f.accepted = line := List.take_of_length_le (Nat.le_of_not_lt hshort)
  rw [htake] at hview htell
  subst heq
  have hholds : Holds s.view w.offset (lineText hash arrived posted expires token ++ [NEWLINE]) := by
    rw [hview, h.next]
    exact holds_writeAt_self w.stream.view w.stream.tell _
  rw [← h.next] at htell
  by_cases hi : w.incore = true
  · -- nothing is flushed
    rw [if_pos hi] at hsound ⊢
    exact inv_store h hlines rfl hholds htell (fun h' => by rw [hi] at h'; cases h')
      (fun hzero hdue hdbz _ => hsound hzero hdue hdbz) hfits
  · have hi : w.incore = false := Bool.eq_false_iff.mpr hi
    rw [hi, if_neg (by decide)] at hsound ⊢
    have hflushed : Lines w.incore w.index (s.fflush f.flush).2 :=
      hlines.fflush fun h' => by rw [hi] at h'; cases h'
    by_cases hok : f.flush = .ok
    · rw [hok] at hflushed ⊢
      have hkeep := Stream.view_fflush (s := s) (o := .ok) (by rintro ⟨n, h', -⟩; cases h')
      refine inv_store h hflushed rfl ?_ (hkeep.2.trans htell) (fun _ => rfl)
        (fun _ _ _ h' => by rw [hi] at h'; cases h') hfits
      rw [hkeep.1]
      exact hholds
    · have hfail : (s.fflush f.flush).1 = false := by
        cases hflush : f.flush with
        | ok => exact absurd hflush hok
        | fail n kept => rfl
      obtain ⟨hdrop, hrewind⟩ := hsound hok
      rw [hfail]
      refine inv_rewind h hflushed hrewind fun hseek => ?_
      rw [(Stream.view_fflush fun hd => hseek (hdrop hd)).2, htell]

end Write

section Replace

variable {w : Writer} {o : Flush} {n : ℕ} {hash : HASH} {arrived posted expires : Time}
  {token : Option TOKEN}

/-- The flush before a read. -/
theorem inv_flushIncore (h : Inv w) (ho : w.incore = true → ¬ o.Drops w.stream.pending) :
    Inv (flushIncore w o).2 := by
  rw [flushIncore]
  split
  · rename_i hi
    exact ⟨h.lines.fflush ho, h.next.trans (Stream.view_fflush (ho hi)).2.symm, h.apart, h.fits⟩
  · exact h

/-- Where it succeeds, nothing of the index is left in the buffer. -/
theorem flushIncore_true (hp : (flushIncore w o).1 = true) :
    (flushIncore w o).2.incore = true → (flushIncore w o).2.stream.pending = [] := by
  rw [flushIncore] at hp ⊢
  split
  · rename_i hi
    rw [if_pos hi] at hp
    cases o with
    | ok => exact fun _ => rfl
    | fail n kept => cases hp
  · rename_i hi
    exact fun h => absurd h hi

/-- A sound replacement leaves the file alone, or puts a line over one of its length. -/
theorem hisv6Replace_cases {h : Handle} (hs : SoundReplace h hash arrived posted expires token n) :
    (∃ e, hisv6Replace h hash arrived posted expires token n = (.error e, h)) ∨
      ∃ old offset, hisv6Fetchline h hash = .ok (old, offset) ∧
        (lineText hash arrived posted expires token).length = old.length ∧
        (lineText hash arrived posted expires token ++ [NEWLINE]).length < HISV6_MAXLINE ∧
        hisv6Replace h hash arrived posted expires token n = (.ok (), ⟨h.rdwr, h.dbzowner,
          h.text.take offset ++ lineText hash arrived posted expires token ++
            h.text.drop (offset + old.length), h.dbzfetch⟩) := by
  have hrun : hisv6Replace h hash arrived posted expires token n =
      hisv6Replace h hash arrived posted expires token n := rfl
  conv at hrun => rhs; rw [hisv6Replace]
  split at hrun
  · exact .inl ⟨_, hrun⟩
  split at hrun
  · exact .inl ⟨_, hrun⟩
  rename_i old offset hfetch
  split at hrun
  · exact .inl ⟨_, hrun⟩
  rename_i line hline
  obtain ⟨heq, hfits⟩ := eq_of_hisv6Formatline hline
  subst heq
  have hlen := length_lineText hash arrived posted expires token
  rw [List.getLast?_concat, if_pos rfl, List.length_append, List.length_singleton,
    Nat.add_sub_cancel, hlen] at hrun
  dsimp only at hrun
  by_cases hfit : old.length < lineLength arrived posted expires token
  · rw [if_pos hfit] at hrun
    exact .inl ⟨_, hrun⟩
  rw [if_neg hfit] at hrun
  have hfit := Nat.le_of_not_lt hfit
  have hpos : 0 < lineLength arrived posted expires token := by
    unfold lineLength
    omega
  rcases hs old offset hfetch (hline ▸ rfl) hfit with rfl | ⟨rfl, hsame⟩
  · -- nothing was written
    rw [if_neg (by omega), List.take_zero, List.append_nil, Nat.zero_min, Nat.add_zero,
      List.take_append_drop] at hrun
    exact .inl ⟨_, hrun⟩
  · rw [if_pos rfl] at hrun
    refine .inr ⟨old, offset, hfetch, hlen.trans hsame, hfits, ?_⟩
    have := (replace_text hfetch hrun).2
    rw [hrun, this, padded, hsame, Nat.sub_self, List.replicate_zero, List.append_nil]

/-- The entry that `dbzfetch` finds. -/
theorem exists_of_dbzfetch {index : List Entry} {offset : ℕ}
    (hfetch : dbzfetch index hash = some offset) :
    ∃ e ∈ index, e.hash = hash ∧ e.offset = offset := by
  rw [dbzfetch, Option.map_eq_some_iff] at hfetch
  obtain ⟨e, he, hoff⟩ := hfetch
  exact ⟨e, List.mem_of_find?_eq_some he, by simpa using List.find?_some he, hoff⟩

/-- Two entries of the index have different hashes, and lines apart from each other. -/
theorem Inv.apart_of_ne (h : Inv w) {d e : Entry} (hd : d ∈ w.index) (he : e ∈ w.index)
    (hne : d ≠ e) : d.hash ≠ e.hash ∧ (d.stop ≤ e.offset ∨ e.stop ≤ d.offset) := by
  have hall : ∀ {l : List Entry}, (l.Pairwise fun e e' => e.hash ≠ e'.hash ∧ e.stop ≤ e'.offset) →
      d ∈ l → e ∈ l → d.hash ≠ e.hash ∧ (d.stop ≤ e.offset ∨ e.stop ≤ d.offset) := by
    intro l hl hd he
    induction l with
    | nil => cases hd
    | cons c l ih =>
      obtain ⟨hc, hl⟩ := List.pairwise_cons.mp hl
      rcases List.mem_cons.mp hd with rfl | hd'
      · have he' := (List.mem_cons.mp he).resolve_left (Ne.symm hne)
        exact ⟨(hc e he').1, .inl (hc e he').2⟩
      · rcases List.mem_cons.mp he with rfl | he'
        · exact ⟨(hc d hd').1.symm, .inr (hc d hd').2⟩
        · exact ih hl hd' he'
  exact hall h.apart hd he

/-- A line put over one of its length. -/
theorem inv_overwrite (h : Inv w) (hout : w.incore = true → w.stream.pending = []) {e : Entry}
    (he : e ∈ w.index) (hash_eq : e.hash = hash)
    (hlen : (lineText hash arrived posted expires token).length = e.line.length)
    (hfits : (lineText hash arrived posted expires token ++ [NEWLINE]).length < HISV6_MAXLINE) :
    Inv ⟨w.incore, w.synccount, w.dirty,
      ⟨writeAt w.stream.file e.offset (lineText hash arrived posted expires token), w.stream.pos,
        w.stream.pending⟩,
      w.offset, w.index.map (.replaced hash arrived posted expires token)⟩ := by
  have hdisk : ∀ d ∈ w.index, Holds w.stream.file d.offset (d.line ++ [NEWLINE]) := by
    cases hi : w.incore with
    | false => exact h.lines.disk hi
    | true =>
      intro d hd
      have := h.lines.view d hd
      rwa [Stream.view, hout hi, writeAt_nil] at this
  -- the entries keep their hashes and places, and the one replaced gets the new line
  have hkeep : ∀ d ∈ w.index, (d.replaced hash arrived posted expires token).hash = d.hash ∧
      (d.replaced hash arrived posted expires token).offset = d.offset ∧
      (d.replaced hash arrived posted expires token).stop = d.stop ∧
      ((d.replaced hash arrived posted expires token).line ++ [NEWLINE]).length < HISV6_MAXLINE ∧
      Holds (writeAt w.stream.file e.offset (lineText hash arrived posted expires token)) d.offset
        ((d.replaced hash arrived posted expires token).line ++ [NEWLINE]) := by
    intro d hd
    by_cases hde : d = e
    · subst hde
      have hline : (⟨d.hash, d.offset, arrived, posted, expires, token⟩ : Entry).line =
          lineText hash arrived posted expires token := by rw [Entry.line, hash_eq]
      rw [Entry.replaced, if_pos hash_eq]
      refine ⟨rfl, rfl, ?_, ?_, ?_⟩
      · rw [Entry.stop, Entry.stop, hline, List.length_append, List.length_append, hlen]
      · rw [hline]
        exact hfits
      · rw [hline]
        refine holds_append.mpr ⟨holds_writeAt_self _ _ _, ?_⟩
        have hend := (holds_append.mp (hdisk d hd)).2
        rw [hlen]
        exact hend.writeAt (.inr (by rw [hlen]))
    · obtain ⟨hhash, hsep⟩ := h.apart_of_ne hd he hde
      rw [Entry.replaced, if_neg (hash_eq ▸ hhash)]
      refine ⟨rfl, rfl, rfl, h.fits d hd, (hdisk d hd).writeAt ?_⟩
      rcases hsep with hsep | hsep
      · exact .inl hsep
      · refine .inr (Nat.le_trans ?_ hsep)
        rw [Entry.stop, List.length_append, hlen]
        omega
  have hall : ∀ {P : Entry → Prop},
      (∀ d ∈ w.index, P (d.replaced hash arrived posted expires token)) →
      ∀ d ∈ w.index.map (.replaced hash arrived posted expires token), P d :=
    fun hp => List.forall_mem_map.mpr hp
  refine ⟨⟨hall fun d hd => ?_, hall fun d hd => ?_, fun _ => hall fun d hd => ?_,
    fun hi => hall fun d hd => ?_⟩, h.next, ?_, hall fun d hd => (hkeep d hd).2.2.2.1⟩
  · obtain ⟨-, hoff, hstop, -, hholds⟩ := hkeep d hd
    rw [hoff, Stream.view]
    cases hi : w.incore with
    | true =>
      rw [hout hi, writeAt_nil]
      exact hholds
    | false =>
      refine hholds.writeAt (.inl ?_)
      rw [← hoff]
      exact hstop.trans_le (h.lines.flushed hi d hd)
  · rw [(hkeep d hd).2.2.1]
    exact h.lines.bound d hd
  · rw [(hkeep d hd).2.1]
    exact (hkeep d hd).2.2.2.2
  · rw [(hkeep d hd).2.2.1]
    exact h.lines.flushed hi d hd
  · refine List.pairwise_map.mpr (h.apart.imp_of_mem fun {c d} hc hd hcd => ?_)
    rw [(hkeep c hc).1, (hkeep d hd).1, (hkeep c hc).2.2.1, (hkeep d hd).2.1]
    exact hcd

theorem inv_replace (h : Inv w) (ho : w.incore = true → ¬ o.Drops w.stream.pending)
    (hs : SoundReplace (flushIncore w o).2.handle hash arrived posted expires token n) :
    Inv (replace w hash arrived posted expires token o n).2 := by
  have hp := inv_flushIncore h ho
  have hindex : (flushIncore w o).2.index = w.index := by
    rw [flushIncore]
    split <;> rfl
  rw [replace]
  by_cases hflush : (flushIncore w o).1 = true
  · have hout := flushIncore_true hflush
    dsimp only
    rw [if_pos hflush, ← hindex]
    generalize (flushIncore w o).2 = p at hs hp hout
    rcases hisv6Replace_cases hs with ⟨err, hr⟩ | ⟨old, offset, hfetch, hlen, hfits, hr⟩
    · rw [hr]
      exact hp
    · obtain ⟨-, hfound, -, -, hold, post, hpost⟩ := hisv6Fetchline_iff.mp hfetch
      obtain ⟨e, he, hash_eq, rfl⟩ := exists_of_dbzfetch hfound
      have hline : Holds p.stream.file e.offset (e.line ++ [NEWLINE]) := by
        cases hi : p.incore with
        | false => exact hp.lines.disk hi e he
        | true =>
          have := hp.lines.view e he
          rwa [Stream.view, hout hi, writeAt_nil] at this
      obtain ⟨rest, hrest⟩ := hline.drop
      have hsame : old = e.line := by
        have h1 : _ = old := takeWhile_newline (fun c hc => (hold c hc).2) post
        have h2 : _ = e.line := takeWhile_newline (fun c hc => (isLineText_lineText c hc).2) rest
        have hpost : p.stream.file.drop e.offset = old ++ NEWLINE :: post := hpost
        rw [List.append_assoc, List.singleton_append] at hrest
        rw [← h1, ← hpost, hrest]
        exact h2
      subst hsame
      have hinside : e.offset + (lineText hash arrived posted expires token).length ≤
          p.stream.file.length := by
        have := hline.lt_length (i := e.line.length) (by simp)
        omega
      rw [hr]
      dsimp only
      have hfile : p.handle.text.take e.offset ++ lineText hash arrived posted expires token ++
          p.handle.text.drop (e.offset + e.line.length) =
          writeAt p.stream.file e.offset (lineText hash arrived posted expires token) := by
        rw [writeAt_eq hinside, hlen]
        rfl
      rw [hfile]
      exact inv_overwrite hp hout he hash_eq hlen hfits
  · dsimp only
    rw [if_neg hflush]
    exact hp

/-! ## Runs -/

/-- A sound call keeps the invariant. -/
theorem inv_call {c : Call} (h : Inv w) (hc : Sound w c) : Inv (call w c).2 := by
  cases c with
  | write hash arrived posted expires token f => exact inv_writeline h hc
  | remember hash arrived posted f => exact inv_writeline h hc
  | replace hash arrived posted expires token o n => exact inv_replace h hc.1 hc.2
  | lookup hash o =>
    have hp := inv_flushIncore h hc
    rw [call, lookup]
    split
    · split
      · exact hp
      · exact hp
    · exact hp

end Replace

/-- The step of a call. -/
def Next (w : Writer) (c : Call) (w' : Writer) : Prop := (call w c).2 = w'

/-- A history just opened: the stream is at the end of the text, and the lines of the index
follow each other in it. -/
structure Opened (w : Writer) : Prop where
  pending : w.stream.pending = []
  pos : w.stream.pos = w.stream.file.length
  offset : w.offset = w.stream.pos
  lines : ∀ e ∈ w.index, Holds w.stream.file e.offset (e.line ++ [NEWLINE])
  apart : w.index.Pairwise fun e e' => e.hash ≠ e'.hash ∧ e.stop ≤ e'.offset
  fits : ∀ e ∈ w.index, (e.line ++ [NEWLINE]).length < HISV6_MAXLINE

theorem Opened.inv {w : Writer} (h : Opened w) : Inv w := by
  have hview : w.stream.view = w.stream.file := by rw [Stream.view, h.pending, writeAt_nil]
  have htell : w.stream.tell = w.stream.pos := by rw [Stream.tell, h.pending]; rfl
  have hbound : ∀ e ∈ w.index, e.stop ≤ w.stream.pos := by
    intro e he
    have hlast := (h.lines e he).lt_length (i := e.line.length) (by simp)
    rw [Entry.stop, h.pos, List.length_append, List.length_singleton]
    omega
  exact ⟨⟨hview ▸ h.lines, htell ▸ hbound, fun _ => h.lines, fun _ => hbound⟩,
    h.offset.trans htell.symm, h.apart, h.fits⟩

/-- A write that fails before the index enters nothing. -/
theorem index_of_failed_write {w : Writer} {hash : HASH} {arrived posted expires : Time}
    {token : Option TOKEN} {f : Faults}
    (hf : ∀ line, hisv6Formatline hash arrived posted expires token = some line →
      ¬ GetsOut w line f) :
    (hisv6Writeline w hash arrived posted expires token f).1 = false ∧
      (hisv6Writeline w hash arrived posted expires token f).2.index = w.index := by
  rw [hisv6Writeline]
  split
  · exact ⟨rfl, rfl⟩
  rename_i line hline
  have hout := hf line hline
  dsimp only
  by_cases hshort : f.accepted < line.length
  · rw [if_pos hshort]
    exact ⟨rfl, rfl⟩
  have hout : ¬ (w.incore = true ∨ f.flush = .ok) := fun h => hout ⟨Nat.le_of_not_lt hshort, h⟩
  rw [if_neg hshort, if_neg fun h => hout (.inl h)]
  cases hflush : f.flush with
  | ok => exact absurd (.inr hflush) hout
  | fail n kept => exact ⟨rfl, rfl⟩

/-- A new history, on disk. -/
def newWriter : Writer := ⟨false, 0, 0, ⟨[], 0, []⟩, 0, []⟩

/-- All of a line is accepted and flushed. -/
def fine : Faults := ⟨HISV6_MAXLINE, 0, .ok, .ok, false, .ok, false⟩

/-- The flush fails after ten bytes and drops the others, and the seek fails too. -/
def lost : Faults := ⟨HISV6_MAXLINE, 0, .fail 10 false, .fail .ok, false, .ok, false⟩

theorem opened_newWriter : Opened newWriter where
  pending := rfl
  pos := rfl
  offset := rfl
  lines _ he := nomatch he
  apart := .nil
  fits _ he := nomatch he

end Inn.History
