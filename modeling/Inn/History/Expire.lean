import Inn.Firsts
import Inn.History.Qio
import Inn.History.Cache
import Inn.History.Swap

/-!
# Inn.History.Expire — the entries the expired history takes over

`hisv6_expire` reads the old text line by line and writes the entries to keep to a new one.
At the end of the text the server is paused, and what it appended meanwhile is read too. One
status is shared by the callback, the errors that are ignored and the end of the text.

* `hisv6Formatline_eq` — every entry has a line;
* `whileLines_cases`, `hisv6Traverse_cases` — the lines that are read;
* `losesNothing_iff` — the texts whose entries are all taken over.
-/

namespace Inn.History.Expire

/-- The values `hisv6_writeline` is called with. -/
structure Article where
  hash : HASH
  arrived : Time
  posted : Time
  expires : Time
  token : Option TOKEN
deriving DecidableEq

/-- The line of an article. -/
def Article.line (e : Article) : List UInt8 :=
  lineText e.hash e.arrived e.posted e.expires e.token ++ [NEWLINE]

/-- What `hisv6_expire` is called with, and the index `dbzagain` or `dbzfresh` makes. The
callback is given the arrived, posted and expires times and a token it may change. -/
structure Params (δ : Type) where
  ix : His.Index δ
  fresh : δ
  reason : Bool
  threshold : Time
  expire : Time → Time → Time → TOKEN → Bool × TOKEN

/-- What can go wrong: the history is open for writing; the new one, its index or the old text
cannot be opened; the server cannot be paused; a history cannot be closed; the `n`th `read`
fails, or the write of the `n`th line; a file cannot be unlinked or renamed. -/
structure Faults where
  rdwr : Bool
  reopen : Bool
  dbz : Bool
  qioopen : Bool
  pause : Bool
  closeNew : Bool
  closeOld : Bool
  read : ℕ → Bool
  write : ℕ → Bool
  call : FileCall → Bool

/-- Nothing goes wrong. -/
def noFaults : Faults where
  rdwr := false
  reopen := false
  dbz := false
  qioopen := false
  pause := false
  closeNew := false
  closeOld := false
  read := fun _ => false
  write := fun _ => false
  call := fun _ => false

/-- `hisv6_traverse` on its way: the status, the old text, the index and the new text. -/
structure Walk (δ : Type) where
  r : Bool
  qio : QIOSTATE
  index : δ
  new : List (List UInt8)

section Calls

variable {δ : Type} (p : Params δ) (f : Faults)

/-- The decision about an entry, in `hisv6_expirecb`. -/
def discriminate (fl : Fields) : Article :=
  let posted := fl.posted.getD 0
  let expires := fl.expires.getD 0
  match fl.token with
  | some token =>
    let keep := p.expire fl.arrived posted expires token
    if keep.1 then ⟨fl.hash, fl.arrived, posted, expires, some keep.2⟩
    else ⟨fl.hash, fl.arrived, posted, 0, none⟩
  | none => ⟨fl.hash, fl.arrived, posted, expires, none⟩

/-- The threshold rule of `hisv6_expirecb`. -/
def Passes (e : Article) : Prop :=
  e.token ≠ none ∨ p.threshold ≤ e.posted ∨ (e.posted ≤ 0 ∧ p.threshold ≤ e.arrived)

instance (e : Article) : Decidable (Passes p e) := inferInstanceAs (Decidable (_ ∨ _ ∨ _))

/-- `hisv6_writeline` to the new history. -/
def hisv6Writeline (e : Article) (w : Walk δ) : Walk δ :=
  match hisv6Formatline e.hash e.arrived e.posted e.expires e.token with
  | none => { w with r := false }
  | some line =>
    if f.write w.new.length then { w with r := false }
    else
      { w with
        r := true
        index := if p.ix.dbzexists w.index e.hash then w.index else p.ix.insert w.index e.hash
        new := w.new ++ [line] }

/-- `hisv6_expirecb`. -/
def hisv6Expirecb (fl : Fields) (w : Walk δ) : Walk δ :=
  -- continue after duplicates
  if p.ix.dbzexists w.index fl.hash then { w with r := true }
  else if Passes p (discriminate p fl) then hisv6Writeline p f (discriminate p fl) w
  else { w with r := true }

/-- The loop of `hisv6_traverse`: whether it ended at a `NULL`. -/
def whileLines : ℕ → Walk δ → Bool × Walk δ
  | 0, w => (false, w)
  | fuel + 1, w =>
    let q := QIOread f.read w.qio
    let w := { w with qio := q.2 }
    match q.1 with
    | none => (true, w)
    | some line =>
      let w := match hisv6Splitline (cstring line) with
        | .ok fl => hisv6Expirecb p f fl w
        -- errors are ignored
        | .error _ => w
      if w.r then whileLines fuel w else (false, w)

/-- The loop with as much fuel as it takes. -/
def readLines (w : Walk δ) : Bool × Walk δ := whileLines p f (w.qio.unread.length + 1) w

/-- After the loop: a line that is too long is ignored, an error is not. -/
def checkFlag (w : Walk δ) : Walk δ := if w.qio.flag = .error then { w with r := false } else w

/-- The text grows while the server is not paused. -/
def Walk.append (w : Walk δ) (appended : List UInt8) : Walk δ :=
  { w with qio := { w.qio with file := w.qio.file ++ appended } }

/-- `hisv6_traverse`, where the text grows by `appended` until the server is paused. -/
def hisv6Traverse (text appended : List UInt8) : Walk δ :=
  let a := readLines p f ⟨false, QIOopen text, p.fresh, []⟩
  let w := checkFlag a.2
  if a.1 = false then a.2
  else if w.qio.flag ≠ .ok ∧ w.r = false then w
  else if p.reason then
    if f.pause then { w with r := false }
    else
      let b := readLines p f (w.append appended)
      if b.1 then checkFlag b.2 else b.2
  else w

/-- `hisv6_expire` up to the label `fail`: whether there is a new history, and the traversal. -/
def toFail (text appended : List UInt8) : Bool × Walk δ :=
  if f.rdwr || f.reopen then (false, ⟨false, QIOopen text, p.fresh, []⟩)
  else if f.dbz || f.qioopen then (true, ⟨false, QIOopen text, p.fresh, []⟩)
  else (true, hisv6Traverse p f text appended)

theorem hnew_of_r (text appended : List UInt8) (h : (toFail p f text appended).2.r = true) :
    (toFail p f text appended).1 = true := by
  rw [toFail] at h ⊢
  split
  · rename_i hc
    rw [if_pos hc] at h
    cases h
  · split <;> rfl

/-- Where the traversal leaves the files. -/
def traversed (text appended : List UInt8) : Traversed where
  r := (toFail p f text appended).2.r
  hnew := (toFail p f text appended).1
  closedNew := !f.closeNew
  closedOld := !f.closeOld
  created := fun _ =>
    if (toFail p f text appended).1 then
      some (if (toFail p f text appended).2.r && !f.closeNew then .expired else .unfinished)
    else none
  hnew_of_r := hnew_of_r p f text appended
  complete := fun hr hclosed _ => by
    rw [hnew_of_r p f text appended hr, hr, hclosed]
    rfl

/-- `hisv6_expire`: what it returns, the lines of the new text, and the files before and after
each call that unlinks or renames one. -/
def hisv6Expire (text appended : List UInt8) : Bool × List (List UInt8) × List Files :=
  let e := hisv6ExpireEnd f.call (traversed p f text appended)
  (e.1, (toFail p f text appended).2.new, e.2)

end Calls

/-! ## What is to be taken over -/

/-- Lines of a text, without their newlines. -/
structure Lines where
  lines : List (List UInt8)
  no_newline : ∀ l ∈ lines, NEWLINE ∉ l

/-- The text of some lines. -/
def text (ls : List (List UInt8)) : List UInt8 := ls.flatMap (· ++ [NEWLINE])

/-- The entry of a line, if the line is well formed. -/
def entryOf (l : List UInt8) : Option Fields :=
  if Short l then (hisv6Splitline (cstring l)).toOption else none

section Spec

variable {δ : Type} (p : Params δ)

/-- The entries of some lines that pass, as they are to be written. -/
def passing (ls : List (List UInt8)) : List Article :=
  ((ls.filterMap entryOf).map (discriminate p)).filter (Passes p)

/-- The lines of the expired history: one for the first entry with each hash. -/
def survivors (ls : List (List UInt8)) : List (List UInt8) :=
  (firsts (·.hash) [] (passing p ls)).map (·.line)

/-- The lines there are to read. -/
def whole (ls₁ ls₂ : Lines) : List (List UInt8) :=
  if p.reason then ls₁.lines ++ ls₂.lines else ls₁.lines

/-- The expiry of `ls₁`, with `ls₂` appended before the server is paused, loses no entry and
adds none. -/
structure LosesNothing (ls₁ ls₂ : Lines) : Prop where
  kept : ∀ f, (hisv6Expire p f (text ls₁.lines) (text ls₂.lines)).1 = true →
    (hisv6Expire p f (text ls₁.lines) (text ls₂.lines)).2.1 = survivors p (whole p ls₁ ls₂)
  unlinked : ∀ f, ∀ fs ∈ (hisv6Expire p f (text ls₁.lines) (text ls₂.lines)).2.2,
    ¬ fs.Complete .live .old →
    (hisv6Expire p f (text ls₁.lines) (text ls₂.lines)).2.1 = survivors p (whole p ls₁ ls₂)
  succeeds : (hisv6Expire p noFaults (text ls₁.lines) (text ls₂.lines)).1 = true

/-- The lines before the first that is too long. -/
def upTo (ls : List (List UInt8)) : List (List UInt8) := ls.takeWhile Short

/-- The lines after it. -/
def beyond (ls : List (List UInt8)) : List (List UInt8) := (ls.dropWhile Short).drop 1

/-- The lines that are read: a line that is too long ends the reading, but once if there is
a pause to come. -/
def reached (ls₁ ls₂ : Lines) : List (List UInt8) :=
  if p.reason then upTo ls₁.lines ++ upTo (beyond ls₁.lines ++ ls₂.lines) else upTo ls₁.lines

/-- The lines that are not. -/
def unreached (ls₁ ls₂ : Lines) : List (List UInt8) :=
  if p.reason then beyond (beyond ls₁.lines ++ ls₂.lines) else beyond ls₁.lines

/-- There is a first line, and it is well formed. -/
def GoodHead (ls : List (List UInt8)) : Prop := ∃ l fl, ls.head? = some l ∧ entryOf l = some fl

/-- When all goes well: there is a first line and it is well formed, the index tells the
hashes of the lines read apart, and the lines that are not read bring no new entry. -/
structure AllReached (ls₁ ls₂ : Lines) : Prop where
  head : GoodHead (whole p ls₁ ls₂)
  tells : Tells p.ix.dbzexists p.ix.insert p.fresh [] ((passing p (reached p ls₁ ls₂)).map (·.hash))
  rest : ∀ e ∈ passing p (unreached p ls₁ ls₂),
    e.hash ∈ (passing p (reached p ls₁ ls₂)).map (·.hash)

end Spec

/-! ## Lines -/

section Lines

variable {hash : HASH} {arrived posted expires : Time} {token : Option TOKEN}

theorem length_timeText (t : Time) : (timeText t).length ≤ 20 :=
  length_printed_le (Nat.lt_of_lt_of_le t.toUInt64.toNat_lt (by decide)) (by decide)

theorem length_lineText : (lineText hash arrived posted expires token).length ≤ 135 := by
  have ha := length_timeText arrived
  have hp := length_timeText posted
  cases token with
  | none =>
    simp only [lineText]
    split
    · simp only [List.length_cons, List.length_append, length_HashToText, List.length_nil]
      omega
    · simp only [List.length_cons, List.length_append, length_HashToText]
      omega
  | some token =>
    simp only [lineText]
    split
    · simp only [List.length_cons, List.length_append, length_HashToText, length_TokenToText]
      omega
    · rename_i he
      have hexp := length_timeText_le (Int64.le_of_lt (Int64.not_le.mp he))
      simp only [List.length_cons, List.length_append, length_HashToText, length_TokenToText]
      omega

/-- Every entry has a line. -/
theorem hisv6Formatline_eq : hisv6Formatline hash arrived posted expires token =
    some (lineText hash arrived posted expires token ++ [NEWLINE]) := by
  have hlen := @length_lineText hash arrived posted expires token
  have hfits : ¬ HISV6_MAXLINE ≤
      (lineText hash arrived posted expires token ++ [NEWLINE]).length := by
    rw [List.length_append, List.length_singleton, HISV6_MAXLINE]
    omega
  simp only [hisv6Formatline, if_neg hfits]

/-- The hash a line is for. -/
theorem hash_of_line (e : Article) : TextToHash (e.line.drop 1) = e.hash := by
  have hall : ∀ c ∈ HashToText e.hash, (decide (IsHexDigit c)) = true :=
    fun c hc => decide_eq_true (isUpperHexDigit_of_mem_encodeHex hc).isHexDigit
  simp only [Article.line, lineText, List.cons_append, List.drop_succ_cons, List.drop_zero,
    List.append_assoc]
  rw [TextToHash, List.takeWhile_append_of_pos hall, List.takeWhile_cons_of_neg (by decide)]
  exact decodeHex_encodeHex e.hash []

/-- Lines that are the same are for the same hashes. -/
theorem hashes_of_lines {es es' : List Article} (h : es.map (·.line) = es'.map (·.line)) :
    es.map (·.hash) = es'.map (·.hash) := by
  have hmap : ∀ es : List Article,
      es.map (·.hash) = (es.map (·.line)).map fun l => TextToHash (l.drop 1) := by
    intro es
    rw [List.map_map]
    exact List.map_congr_left fun e _ => (hash_of_line e).symm
  rw [hmap, hmap, h]

end Lines

/-! ## The loop -/

section Loop

variable {δ : Type} {p : Params δ} {f : Faults} {w w' : Walk δ} {ls : List (List UInt8)}
  {l : List UInt8}

/-- A fault that a `read` or a write has. -/
def Faults.Happens (f : Faults) : Prop := (∃ n, f.read n = true) ∨ ∃ n, f.write n = true

/-- The first line is short and malformed. -/
def BadHead (ls : List (List UInt8)) : Prop :=
  ∃ l, ls.head? = some l ∧ Short l ∧ entryOf l = none

/-- What the articles written do to the new history. -/
structure Takes (p : Params δ) (w : Walk δ) (es : List Article) (w' : Walk δ) : Prop where
  new : w'.new = w.new ++
    (selected p.ix.dbzexists p.ix.insert (·.hash) w.index es).map (·.line)
  index : w'.index = indexAfter p.ix.dbzexists p.ix.insert (·.hash) w.index es

theorem Takes.nil (hnew : w'.new = w.new) (hindex : w'.index = w.index) : Takes p w [] w' :=
  ⟨hnew.trans (List.append_nil w.new).symm, hindex⟩

theorem Takes.trans {w'' : Walk δ} {es es' : List Article} (h : Takes p w es w')
    (h' : Takes p w' es' w'') : Takes p w (es ++ es') w'' where
  new := by rw [h'.new, h.new, h.index, selected_append, List.map_append, List.append_assoc]
  index := by rw [h'.index, h.index, indexAfter_append]

/-- The callback writes an entry that passes and that the index does not find, unless a write
fails. -/
theorem hisv6Expirecb_cases (p : Params δ) (f : Faults) (fl : Fields) (w : Walk δ) :
    (hisv6Expirecb p f fl w).qio = w.qio ∧
      ((hisv6Expirecb p f fl w).r = false ∧ f.Happens ∨
        (hisv6Expirecb p f fl w).r = true ∧
          Takes p w ([discriminate p fl].filter (Passes p)) (hisv6Expirecb p f fl w)) := by
  have hhash : (discriminate p fl).hash = fl.hash := by
    rw [discriminate]
    cases fl.token with
    | none => rfl
    | some token =>
      dsimp only
      split <;> rfl
  rw [hisv6Expirecb]
  by_cases hpass : Passes p (discriminate p fl)
  · have hone : [discriminate p fl].filter (Passes p) = [discriminate p fl] := by simp [hpass]
    rw [hone]
    by_cases hdup : p.ix.dbzexists w.index fl.hash = true
    · rw [if_pos hdup]
      refine ⟨rfl, .inr ⟨rfl, ?_, ?_⟩⟩
      · rw [selected, hhash, if_pos hdup]
        exact (List.append_nil w.new).symm
      · rw [indexAfter, hhash, if_pos hdup]
        rfl
    rw [if_neg hdup, if_pos hpass, hisv6Writeline, hisv6Formatline_eq, hhash]
    dsimp only
    by_cases hfail : f.write w.new.length = true
    · rw [if_pos hfail]
      exact ⟨rfl, .inl ⟨rfl, .inr ⟨_, hfail⟩⟩⟩
    · rw [if_neg hfail, if_neg hdup]
      refine ⟨rfl, .inr ⟨rfl, ?_, ?_⟩⟩
      · rw [selected, hhash, if_neg hdup, selected, List.map_singleton, Article.line, hhash]
      · rw [indexAfter, hhash, if_neg hdup]
        rfl
  · have hnone : [discriminate p fl].filter (Passes p) = [] := by simp [hpass]
    rw [hnone, if_neg hpass, ite_self]
    exact ⟨rfl, .inr ⟨rfl, Takes.nil rfl rfl⟩⟩

/-- How the loop goes where all lines before one that is too long are read. -/
structure Reads (p : Params δ) (w : Walk δ) (ls : List (List UInt8)) (w' : Walk δ) : Prop where
  head : w.r = true ∨ ¬ BadHead ls
  r : w'.r = (w.r || !(upTo ls).isEmpty)
  takes : Takes p w (passing p (upTo ls)) w'
  unread : w'.qio.unread = text (beyond ls)
  buffer : w'.qio.buffer.length ≤ QIO_BUFFERSIZE
  flag : w'.qio.flag = if upTo ls = ls then .ok else .long

/-- The end of the loop: it failed, or it came to a read error, or to the end of the text or
to a line that is too long. -/
def LoopEnd (p : Params δ) (f : Faults) (w : Walk δ) (ls : List (List UInt8))
    (a : Bool × Walk δ) : Prop :=
  (a.1 = false ∧ a.2.r = false ∧ (f.Happens ∨ (w.r = false ∧ BadHead ls))) ∨
    (a.1 = true ∧ a.2.qio.flag = .error ∧ f.Happens) ∨ (a.1 = true ∧ Reads p w ls a.2)

theorem text_cons (l : List UInt8) (ls : List (List UInt8)) :
    text (l :: ls) = l ++ NEWLINE :: text ls := by
  rw [text, List.flatMap_cons, List.append_assoc]
  rfl

theorem text_append (ls ls' : List (List UInt8)) : text (ls ++ ls') = text ls ++ text ls' :=
  List.flatMap_append

theorem upTo_cons_of_pos (h : Short l) : upTo (l :: ls) = l :: upTo ls :=
  List.takeWhile_cons_of_pos (decide_eq_true h)

theorem beyond_cons_of_pos (h : Short l) : beyond (l :: ls) = beyond ls := by
  rw [beyond, List.dropWhile_cons_of_pos (by simpa using h), beyond]

theorem upTo_cons_of_neg (h : ¬ Short l) : upTo (l :: ls) = [] :=
  List.takeWhile_cons_of_neg (by simpa using h)

theorem beyond_cons_of_neg (h : ¬ Short l) : beyond (l :: ls) = ls := by
  rw [beyond, List.dropWhile_cons_of_neg (by simpa using h)]
  rfl

theorem passing_append (ls ls' : List (List UInt8)) :
    passing p (ls ++ ls') = passing p ls ++ passing p ls' := by
  rw [passing, List.filterMap_append, List.map_append, List.filter_append]
  rfl

theorem passing_long (h : ¬ Short l) : passing p [l] = [] := by
  rw [passing, List.filterMap_cons_none (by rw [entryOf, if_neg h])]
  rfl

/-- What a short line does: it is malformed, or its entry is passed to the callback. -/
theorem entryOf_of_short (h : Short l) :
    (∃ e, hisv6Splitline (cstring l) = .error e ∧ entryOf l = none ∧ passing p [l] = []) ∨
      ∃ fl, hisv6Splitline (cstring l) = .ok fl ∧ entryOf l = some fl ∧
        passing p [l] = [discriminate p fl].filter (Passes p) := by
  cases hs : hisv6Splitline (cstring l) with
  | error e =>
    have he : entryOf l = none := by
      rw [entryOf, if_pos h, hs]
      rfl
    exact .inl ⟨e, rfl, he, by rw [passing, List.filterMap_cons_none he]; rfl⟩
  | ok fl =>
    have he : entryOf l = some fl := by
      rw [entryOf, if_pos h, hs]
      rfl
    exact .inr ⟨fl, rfl, he, by rw [passing, List.filterMap_cons_some he]; rfl⟩

/-- A short line before the others. -/
theorem Reads.cons {w₁ w₂ : Walk δ} (hl : Short l) (hhead : w.r = true ∨ ¬ BadHead (l :: ls))
    (hr : w₁.r = true) (htakes : Takes p w (passing p [l]) w₁) (h : Reads p w₁ ls w₂) :
    Reads p w (l :: ls) w₂ where
  head := hhead
  r := by
    rw [h.r, hr, upTo_cons_of_pos hl, List.isEmpty_cons, Bool.not_false, Bool.or_true, Bool.true_or]
  takes := by
    rw [upTo_cons_of_pos hl, ← List.singleton_append, passing_append]
    exact htakes.trans h.takes
  unread := by rw [h.unread, beyond_cons_of_pos hl]
  buffer := h.buffer
  flag := by
    rw [h.flag, upTo_cons_of_pos hl]
    simp only [List.cons.injEq, true_and]

/-- The turn of the loop for a line that was read. -/
theorem whileLines_step {fuel : ℕ} (hl : Short l) (hline : (QIOread f.read w.qio).1 = some l) :
    (whileLines p f (fuel + 1) w = (false, (whileLines p f (fuel + 1) w).2) ∧
        (whileLines p f (fuel + 1) w).2.r = false ∧
        (f.Happens ∨ (w.r = false ∧ BadHead (l :: ls)))) ∨
      ∃ w₁, whileLines p f (fuel + 1) w = whileLines p f fuel w₁ ∧
        w₁.qio = (QIOread f.read w.qio).2 ∧ w₁.r = true ∧ Takes p w (passing p [l]) w₁ ∧
        (w.r = true ∨ ¬ BadHead (l :: ls)) := by
  rw [whileLines, hline]
  dsimp only
  rcases @entryOf_of_short δ p l hl with ⟨e, hsplit, hentry, hpass⟩ | ⟨fl, hsplit, hentry, hpass⟩
  · rw [hsplit]
    dsimp only
    by_cases hr : w.r = true
    · rw [if_pos hr]
      refine .inr ⟨_, rfl, rfl, hr, ?_, .inl hr⟩
      rw [hpass]
      exact Takes.nil rfl rfl
    · rw [if_neg hr]
      exact .inl ⟨rfl, Bool.eq_false_iff.mpr hr,
        .inr ⟨Bool.eq_false_iff.mpr hr, l, rfl, hl, hentry⟩⟩
  · rw [hsplit]
    dsimp only
    have hgood : ¬ BadHead (l :: ls) := by
      rintro ⟨l', hl', -, hnone⟩
      rw [← Option.some.inj hl', hentry] at hnone
      cases hnone
    obtain ⟨hqio, hres⟩ := hisv6Expirecb_cases p f fl { w with qio := (QIOread f.read w.qio).2 }
    rcases hres with ⟨hr, hf⟩ | ⟨hr, htakes⟩
    · rw [hr, if_neg (by decide)]
      exact .inl ⟨rfl, hr, .inl hf⟩
    · rw [hr, if_pos rfl]
      refine .inr ⟨_, rfl, hqio, hr, ?_, .inr hgood⟩
      rw [hpass]
      exact ⟨htakes.new, htakes.index⟩

theorem whileLines_cases {fuel : ℕ} (hfuel : w.qio.unread.length < fuel)
    (hbuf : w.qio.buffer.length ≤ QIO_BUFFERSIZE) (hunread : w.qio.unread = text ls)
    (hls : ∀ l ∈ ls, NEWLINE ∉ l) : LoopEnd p f w ls (whileLines p f fuel w) := by
  induction ls generalizing w fuel with
  | nil =>
    obtain ⟨fuel, rfl⟩ := Nat.exists_eq_succ_of_ne_zero (Nat.ne_of_gt (Nat.zero_lt_of_lt hfuel))
    obtain ⟨hnull, hrest, hbuf', hflag⟩ := @QIOread_eof f.read w.qio hunread
    rw [whileLines, hnull]
    rcases hflag with hflag | ⟨hflag, n, hn⟩
    · refine .inr (.inr ⟨rfl, ?_⟩)
      refine ⟨.inr ?_, (Bool.or_false w.r).symm, Takes.nil rfl rfl, hrest, hbuf', hflag⟩
      rintro ⟨l, hl, -⟩
      cases hl
    · exact .inr (.inl ⟨rfl, hflag, .inl ⟨n, hn⟩⟩)
  | cons l ls ih =>
    obtain ⟨fuel, rfl⟩ := Nat.exists_eq_succ_of_ne_zero (Nat.ne_of_gt (Nat.zero_lt_of_lt hfuel))
    obtain ⟨hnl, hls⟩ := List.forall_mem_cons.mp hls
    rw [text_cons] at hunread
    rcases @QIOread_line f.read w.qio l (text ls) hbuf hunread hnl with
      ⟨hnull, hflag, n, hn⟩ | ⟨hres, hrest, hbuf'⟩
    · rw [whileLines, hnull]
      exact .inr (.inl ⟨rfl, hflag, .inl ⟨n, hn⟩⟩)
    by_cases hl : Short l
    · rw [lineResult, if_neg (not_or.mpr ⟨by decide, not_not.mpr hl⟩)] at hres
      obtain ⟨hline, hflag⟩ := Prod.mk.inj hres
      rcases @whileLines_step δ p f w ls l fuel hl hline with
        ⟨heq, hr, hwhy⟩ | ⟨w₁, heq, hqio, hr, htakes, hhead⟩
      · rw [LoopEnd, heq]
        exact .inl ⟨rfl, hr, hwhy⟩
      have hlen : w₁.qio.unread.length < fuel := by
        rw [hqio, hrest]
        rw [hunread, List.length_append, List.length_cons] at hfuel
        omega
      rw [heq]
      rcases ih hlen (hqio ▸ hbuf') (hqio ▸ hrest) hls with ⟨h1, h2, hwhy⟩ | h | ⟨h1, hreads⟩
      · refine .inl ⟨h1, h2, .inl (hwhy.resolve_right fun h => ?_)⟩
        rw [hr] at h
        cases h.1
      · exact .inr (.inl h)
      · exact .inr (.inr ⟨h1, hreads.cons hl hhead hr htakes⟩)
    · -- the line is too long
      rw [lineResult, if_pos (.inr hl)] at hres
      obtain ⟨hline, hflag⟩ := Prod.mk.inj hres
      rw [whileLines, hline]
      refine .inr (.inr ⟨rfl, ?_⟩)
      have hup : upTo (l :: ls) = [] := upTo_cons_of_neg hl
      refine ⟨.inr ?_, ?_, ?_, ?_, hbuf', ?_⟩
      · rintro ⟨l', hl', hshort, -⟩
        exact hl (Option.some.inj hl' ▸ hshort)
      · rw [hup]
        exact (Bool.or_false w.r).symm
      · rw [hup]
        exact Takes.nil rfl rfl
      · rw [beyond_cons_of_neg hl]
        exact hrest
      · rw [hup, if_neg (List.cons_ne_nil l ls).symm]
        exact hflag

end Loop

/-! ## The traversal -/

section Traverse

variable {δ : Type} {p : Params δ} {f : Faults} {w : Walk δ} {ls ls' : List (List UInt8)}

theorem goodHead_iff : GoodHead ls ↔ ¬ BadHead ls ∧ upTo ls ≠ [] := by
  cases ls with
  | nil =>
    refine iff_of_false ?_ fun h => h.2 rfl
    rintro ⟨l, fl, hl, -⟩
    cases hl
  | cons l ls =>
    by_cases hshort : Short l
    · rw [upTo_cons_of_pos hshort]
      constructor
      · rintro ⟨l', fl, hl, hfl⟩
        refine ⟨?_, List.cons_ne_nil _ _⟩
        rintro ⟨l'', hl', -, hnone⟩
        rw [← Option.some.inj hl', Option.some.inj hl, hfl] at hnone
        cases hnone
      · rintro ⟨hbad, -⟩
        cases he : entryOf l with
        | none => exact absurd ⟨l, rfl, hshort, he⟩ hbad
        | some fl => exact ⟨l, fl, rfl, he⟩
    · refine iff_of_false ?_ fun h => h.2 (upTo_cons_of_neg hshort)
      rintro ⟨l', fl, hl, hfl⟩
      rw [← Option.some.inj hl, entryOf, if_neg hshort] at hfl
      cases hfl

theorem goodHead_append (h : ls ≠ []) : GoodHead (ls ++ ls') ↔ GoodHead ls := by
  cases ls with
  | nil => exact absurd rfl h
  | cons l ls => exact Iff.rfl

theorem badHead_append (h : BadHead ls) : BadHead (ls ++ ls') := by
  cases ls with
  | nil =>
    obtain ⟨l, hl, -⟩ := h
    cases hl
  | cons l ls => exact h

theorem checkFlag_of_error (h : w.qio.flag = .error) : (checkFlag w).r = false := by
  rw [checkFlag, if_pos h]

theorem Reads.checkFlag_eq {w' : Walk δ} (h : Reads p w ls w') : checkFlag w' = w' := by
  rw [checkFlag, if_neg]
  rw [h.flag]
  split
  · decide
  · decide

/-- Where all lines up to one that is too long were read, without an entry among them, and
the traversal goes on, there was no line. -/
theorem Reads.eq_nil {w' : Walk δ} (h : Reads p w ls w') (hr : w'.r = false)
    (hgo : ¬ (w'.qio.flag ≠ .ok ∧ w'.r = false)) : ls = [] := by
  have hup : upTo ls = [] := by
    have hr' := h.r
    rw [hr] at hr'
    have hor := Bool.or_eq_false_iff.mp hr'.symm
    exact List.isEmpty_iff.mp (by simpa using hor.2)
  by_contra hne
  refine hgo ⟨?_, hr⟩
  rw [h.flag, hup, if_neg (Ne.symm hne)]
  decide

/-- From a false status, the status is whether the first line is well formed. -/
theorem Reads.r_iff {w' : Walk δ} (h : Reads p w ls w') (hr : w.r = false) :
    w'.r = true ↔ GoodHead ls := by
  rw [h.r, hr, Bool.false_or, goodHead_iff, Bool.not_eq_true', List.isEmpty_eq_false_iff]
  refine ⟨fun hne => ⟨h.head.resolve_left fun ht => ?_, hne⟩, fun h => h.2⟩
  rw [hr] at ht
  cases ht

/-- The second loop, over the rest of the text and what was appended: the status at its end is
whether the first line of all was well formed. -/
theorem Reads.r_iff_append {w₁ w₂ : Walk δ} {rest : List (List UInt8)} (h : Reads p w ls w₁)
    (hr : w.r = false) (hgo : ¬ (w₁.qio.flag ≠ .ok ∧ w₁.r = false))
    (h₂ : Reads p w₁ (beyond ls ++ rest) w₂) : w₂.r = true ↔ GoodHead (ls ++ rest) := by
  cases hr₁ : w₁.r with
  | true =>
    have hgood := (h.r_iff hr).mp hr₁
    have hne : ls ≠ [] := by
      rintro rfl
      obtain ⟨l, fl, hl, -⟩ := hgood
      cases hl
    rw [h₂.r, hr₁, Bool.true_or]
    exact iff_of_true rfl ((goodHead_append hne).mpr hgood)
  | false =>
    obtain rfl := h.eq_nil hr₁ hgo
    exact h₂.r_iff hr₁

/-- A traversal that fails met a fault or a first line that is bad or missing; one that does not
took over the entries of the lines it reached. -/
theorem hisv6Traverse_cases (p : Params δ) (f : Faults) (ls₁ ls₂ : Lines) :
    ((hisv6Traverse p f (text ls₁.lines) (text ls₂.lines)).r = false ∧
        (f.pause = true ∨ f.Happens ∨ ¬ GoodHead (whole p ls₁ ls₂))) ∨
      ((hisv6Traverse p f (text ls₁.lines) (text ls₂.lines)).r = true ∧
        GoodHead (whole p ls₁ ls₂) ∧
        (hisv6Traverse p f (text ls₁.lines) (text ls₂.lines)).new =
          (selected p.ix.dbzexists p.ix.insert (·.hash) p.fresh
            (passing p (reached p ls₁ ls₂))).map (·.line)) := by
  have hbad : BadHead ls₁.lines → ¬ GoodHead (whole p ls₁ ls₂) := by
    intro h hgood
    rw [whole] at hgood
    split at hgood
    · exact (goodHead_iff.mp hgood).1 (badHead_append h)
    · exact (goodHead_iff.mp hgood).1 h
  have hfirst : LoopEnd p f ⟨false, QIOopen (text ls₁.lines), p.fresh, []⟩ ls₁.lines
      (readLines p f ⟨false, QIOopen (text ls₁.lines), p.fresh, []⟩) :=
    whileLines_cases (Nat.lt_succ_self _) (Nat.zero_le _) rfl ls₁.no_newline
  rw [hisv6Traverse]
  dsimp only
  generalize readLines p f ⟨false, QIOopen (text ls₁.lines), p.fresh, []⟩ = a at hfirst
  obtain ⟨ok, w₁⟩ := a
  rcases hfirst with ⟨rfl, hr, hwhy⟩ | ⟨rfl, hflag, hf⟩ | ⟨rfl, hreads⟩
  · rw [if_pos rfl]
    exact .inl ⟨hr, hwhy.elim (fun h => .inr (.inl h)) fun h => .inr (.inr (hbad h.2))⟩
  · rw [if_neg nofun, if_pos]
    · exact .inl ⟨checkFlag_of_error hflag, .inr (.inl hf)⟩
    · refine ⟨?_, checkFlag_of_error hflag⟩
      rw [checkFlag, if_pos hflag]
      exact fun h => by rw [hflag] at h; cases h
  rw [if_neg nofun, hreads.checkFlag_eq]
  have hgood₁ : w₁.r = true ↔ GoodHead ls₁.lines := hreads.r_iff rfl
  by_cases hstop : w₁.qio.flag ≠ .ok ∧ w₁.r = false
  · -- the first line is too long
    rw [if_pos hstop]
    refine .inl ⟨hstop.2, .inr (.inr fun h => ?_)⟩
    have hne : ls₁.lines ≠ [] := by
      intro hnil
      refine hstop.1 ?_
      rw [hreads.flag, hnil]
      rfl
    have hgood : GoodHead ls₁.lines := by
      rw [whole] at h
      split at h
      · exact (goodHead_append hne).mp h
      · exact h
    rw [hgood₁.mpr hgood] at hstop
    cases hstop.2
  rw [if_neg hstop]
  by_cases hreason : p.reason = true
  · rw [if_pos hreason, whole, if_pos hreason, reached, if_pos hreason]
    by_cases hpause : f.pause = true
    · rw [if_pos hpause]
      exact .inl ⟨rfl, .inl hpause⟩
    rw [if_neg hpause]
    -- the rest of the text, and what was appended
    have hsecond : LoopEnd p f (w₁.append (text ls₂.lines)) (beyond ls₁.lines ++ ls₂.lines)
        (readLines p f (w₁.append (text ls₂.lines))) := by
      refine whileLines_cases (Nat.lt_succ_self _) hreads.buffer ?_ ?_
      · rw [text_append, ← hreads.unread, QIOSTATE.unread, QIOSTATE.unread, List.append_assoc]
        rfl
      · intro l hl
        rcases List.mem_append.mp hl with hl | hl
        · exact ls₁.no_newline l
            ((List.dropWhile_suffix _).subset (List.mem_of_mem_drop hl))
        · exact ls₂.no_newline l hl
    generalize readLines p f (w₁.append (text ls₂.lines)) = b at hsecond
    obtain ⟨ok, w₂⟩ := b
    have hempty : w₁.r = false → ls₁.lines = [] := fun hr => hreads.eq_nil hr hstop
    rcases hsecond with ⟨rfl, hr, hwhy⟩ | ⟨rfl, hflag, hf⟩ | ⟨rfl, hreads₂⟩
    · refine .inl ⟨hr, .inr (hwhy.imp_right ?_)⟩
      rintro ⟨hr₁, hb⟩ hgood
      rw [hempty hr₁] at hgood hb
      exact (goodHead_iff.mp hgood).1 hb
    · exact .inl ⟨checkFlag_of_error hflag, .inr (.inl hf)⟩
    · dsimp only
      rw [if_pos rfl, hreads₂.checkFlag_eq]
      have hsame : Reads p w₁ (beyond ls₁.lines ++ ls₂.lines) w₂ :=
        ⟨hreads₂.head, hreads₂.r, ⟨hreads₂.takes.new, hreads₂.takes.index⟩, hreads₂.unread,
          hreads₂.buffer, hreads₂.flag⟩
      have hgood := hreads.r_iff_append rfl hstop hsame
      cases hr : w₂.r with
      | true =>
        refine .inr ⟨rfl, hgood.mp hr, ?_⟩
        rw [passing_append, (hreads.takes.trans hsame.takes).new]
        rfl
      | false =>
        refine .inl ⟨rfl, .inr (.inr fun h => ?_)⟩
        rw [hgood.mpr h] at hr
        cases hr
  · rw [if_neg hreason, whole, if_neg hreason, reached, if_neg hreason]
    cases hr : w₁.r with
    | true =>
      refine .inr ⟨rfl, hgood₁.mp hr, ?_⟩
      rw [hreads.takes.new]
      rfl
    | false =>
      refine .inl ⟨rfl, .inr (.inr fun h => ?_)⟩
      rw [hgood₁.mpr h] at hr
      cases hr

/-- In the order of the text, the entries that are not reached come after those that are. -/
theorem passing_whole (p : Params δ) (ls₁ ls₂ : Lines) : passing p (whole p ls₁ ls₂) =
    passing p (reached p ls₁ ls₂) ++ passing p (unreached p ls₁ ls₂) := by
  have hsplit : ∀ ls, passing p ls = passing p (upTo ls) ++ passing p (beyond ls) := by
    intro ls
    induction ls with
    | nil => rfl
    | cons l ls ih =>
      rw [← List.singleton_append, passing_append]
      by_cases hl : Short l
      · rw [List.singleton_append, upTo_cons_of_pos hl, beyond_cons_of_pos hl,
          ← @List.singleton_append _ l (upTo ls), passing_append, List.append_assoc, ← ih]
      · rw [List.singleton_append, upTo_cons_of_neg hl, beyond_cons_of_neg hl, passing_long hl]
        rfl
  rw [whole, reached, unreached]
  split
  · rw [passing_append, passing_append, hsplit ls₁.lines, List.append_assoc, List.append_assoc,
      ← hsplit (beyond ls₁.lines ++ ls₂.lines), passing_append]
  · exact hsplit ls₁.lines

theorem toFail_of_r {told appended : List UInt8} (h : (toFail p f told appended).2.r = true) :
    (toFail p f told appended).2 = hisv6Traverse p f told appended := by
  rw [toFail] at h ⊢
  split
  · rename_i hc
    rw [if_pos hc] at h
    cases h
  · rename_i hc
    rw [if_neg hc] at h
    split
    · rename_i hc'
      rw [if_pos hc'] at h
      cases h
    · rfl

end Traverse

/-! ## The old files -/

section Files

variable {fails : FileCall → Bool} {e : Traversed}

theorem status_of_result (h : (hisv6ExpireEnd fails e).1 = true) : e.status = true := by
  rw [hisv6ExpireEnd] at h
  split at h
  · assumption
  · split at h <;> cases h

/-- Where the status is false, the old files stay as they are. -/
theorem old_of_status_false (h : e.status = false) {fs : Files}
    (hfs : fs ∈ (hisv6ExpireEnd fails e).2) : fs.Complete .live .old := by
  rw [hisv6ExpireEnd, h, if_neg (by decide)] at hfs
  split at hfs
  · obtain ⟨k, hk, hget⟩ := List.mem_iff_getElem.mp hfs
    have hlen : (hisv6Unlink fails e.files .new).2.length = 4 := length_attempts _ _
    rw [List.length_cons, hlen] at hk
    have hun := @unlinked_get fails .new e.files k (Nat.lt_succ_iff.mp hk)
    rw [List.getElem?_eq_getElem (by rw [List.length_cons, hlen]; exact hk)] at hun
    rw [← hget, Option.some.inj hun]
    intro p
    rw [unlinked, if_neg fun h => by cases h.1]
    rfl
  · rw [List.mem_singleton.mp hfs]
    exact fun p => rfl

theorem result_of_status (hcalls : ∀ c, fails c = false) (h : e.status = true) :
    (hisv6ExpireEnd fails e).1 = true := by
  simp only [Traversed.status, Bool.and_eq_true, Bool.or_eq_true, Bool.not_eq_true'] at h
  obtain ⟨⟨hr, hclosed⟩, hold⟩ := h
  have hnew := e.hnew_of_r hr
  have hclosed := hclosed.resolve_left fun hn => by rw [hnew] at hn; cases hn
  have hstatus : e.status = true := by
    rw [Traversed.status, hr, hclosed, hold, Bool.or_true]
    rfl
  have hunlink : (hisv6Unlink fails e.files .live).1 = true :=
    (unlink_result (n := .live) (fun p => Option.some_ne_none _)).mpr
      fun p => hcalls _
  rw [hisv6ExpireEnd, if_pos hstatus]
  dsimp only
  rw [if_pos hunlink]
  refine (rename_result fun p => ?_).mpr fun p => hcalls _
  have hlen : (hisv6Unlink fails e.files .live).2.length = 4 := length_attempts _ _
  have hlast := @unlinked_get fails .live e.files 4 (Nat.le_refl 4)
  rw [List.getLastD_eq_getLast?, List.getLast?_eq_getElem?, hlen]
  rw [List.getElem?_cons_succ] at hlast
  rw [hlast, Option.getD_some, unlinked, if_neg fun h => by cases h.1]
  rw [show e.files .new p = e.created p from rfl, e.complete hr hclosed p]
  exact Option.some_ne_none _

end Files

/-! ## The texts whose entries are all taken over -/

section Main

variable {δ : Type} (p : Params δ) (f : Faults) (ls₁ ls₂ : Lines)

/-- Where the traversal succeeds, the new text has the entries of the lines reached. -/
theorem new_of_status (h : (traversed p f (text ls₁.lines) (text ls₂.lines)).status = true) :
    GoodHead (whole p ls₁ ls₂) ∧ (toFail p f (text ls₁.lines) (text ls₂.lines)).2.new =
      (selected p.ix.dbzexists p.ix.insert (·.hash) p.fresh
        (passing p (reached p ls₁ ls₂))).map (·.line) := by
  have hr : (toFail p f (text ls₁.lines) (text ls₂.lines)).2.r = true := by
    rw [Traversed.status, Bool.and_eq_true, Bool.and_eq_true] at h
    exact h.1.1
  have heq := toFail_of_r hr
  rw [heq] at hr ⊢
  rcases hisv6Traverse_cases p f ls₁ ls₂ with ⟨hfalse, -⟩ | ⟨-, hgood, hnew⟩
  · rw [hfalse] at hr
    cases hr
  · exact ⟨hgood, hnew⟩

/-- The entries an expiry takes over that loses none. -/
theorem LosesNothing.selected_eq {p : Params δ} {ls₁ ls₂ : Lines} (h : LosesNothing p ls₁ ls₂) :
    GoodHead (whole p ls₁ ls₂) ∧
      (selected p.ix.dbzexists p.ix.insert (·.hash) p.fresh
        (passing p (reached p ls₁ ls₂))).map (·.line) = survivors p (whole p ls₁ ls₂) := by
  obtain ⟨hgood, hnew⟩ := new_of_status p noFaults ls₁ ls₂ (status_of_result h.succeeds)
  exact ⟨hgood, hnew.symm.trans (h.kept noFaults h.succeeds)⟩

/-- The expiry of a history loses no entry and adds none just where all lines that matter are
reached. -/
theorem losesNothing_iff : LosesNothing p ls₁ ls₂ ↔ AllReached p ls₁ ls₂ := by
  constructor
  · intro h
    obtain ⟨hgood, hlines⟩ := h.selected_eq
    have hkeys := hashes_of_lines hlines
    rw [passing_whole, selected_keys_append_iff p.ix.exists_mono] at hkeys
    exact ⟨hgood, hkeys.1, hkeys.2⟩
  · intro h
    have hkept : ∀ f, (traversed p f (text ls₁.lines) (text ls₂.lines)).status = true →
        (toFail p f (text ls₁.lines) (text ls₂.lines)).2.new = survivors p (whole p ls₁ ls₂) := by
      intro f hstatus
      rw [(new_of_status p f ls₁ ls₂ hstatus).2, h.tells.selected_eq_append h.rest, survivors,
        passing_whole]
    refine ⟨fun f hres => hkept f (status_of_result hres), fun f fs hfs hgone => ?_, ?_⟩
    · refine hkept f ?_
      by_contra hstatus
      exact hgone (old_of_status_false (Bool.eq_false_iff.mpr hstatus) hfs)
    · refine result_of_status (fun c => rfl) ?_
      have hr : (hisv6Traverse p noFaults (text ls₁.lines) (text ls₂.lines)).r = true := by
        rcases hisv6Traverse_cases p noFaults ls₁ ls₂ with ⟨-, hwhy⟩ | ⟨hr, -⟩
        · rcases hwhy with h' | (⟨n, h'⟩ | ⟨n, h'⟩) | h'
          · cases h'
          · cases h'
          · cases h'
          · exact absurd h.head h'
        · exact hr
      show ((hisv6Traverse p noFaults (text ls₁.lines) (text ls₂.lines)).r && _ && _) = true
      rw [hr]
      rfl

end Main

/-! ## A history cut short -/

/-- Everything is kept, and the server is not paused. -/
def keepAll : Params (List HASH) where
  ix := His.listIndex
  fresh := []
  reason := false
  threshold := 0
  expire := fun _ _ _ token => (true, token)

def noLines : Lines := ⟨[], fun _ hl => by cases hl⟩

/-- The line of an article that came and was posted at time 1. -/
def remembered (b : UInt8) : List UInt8 := lineText (.replicate 16 b) 1 1 0 none

/-- Two entries with a line between them that fills the buffer. -/
def cutShort : Lines where
  lines := [remembered 1, List.replicate QIO_BUFFERSIZE SPACE, remembered 2]
  no_newline := by
    intro l hl
    rw [List.mem_cons, List.mem_cons, List.mem_singleton] at hl
    rcases hl with rfl | rfl | rfl
    · decide
    · exact fun h => absurd (List.eq_of_mem_replicate h) (by decide)
    · decide

/-- A history without lines cannot be expired, and one with a line that is too long loses the
entries after it. -/
theorem expiry_cut_short :
    ¬ LosesNothing keepAll noLines noLines ∧ ¬ LosesNothing keepAll cutShort noLines := by
  refine ⟨fun h => absurd h.succeeds (by decide), fun h => ?_⟩
  have hlong : ¬ Short (List.replicate QIO_BUFFERSIZE SPACE) := by
    rw [Short, List.length_replicate]
    exact Nat.lt_irrefl _
  have hup : upTo cutShort.lines = [remembered 1] := by
    rw [cutShort, upTo_cons_of_pos (by decide), upTo_cons_of_neg hlong]
  have hpassing : passing keepAll cutShort.lines =
      passing keepAll [remembered 1] ++ passing keepAll [remembered 2] := by
    have hcut : cutShort.lines =
        [remembered 1] ++ ([List.replicate QIO_BUFFERSIZE SPACE] ++ [remembered 2]) := rfl
    rw [hcut, passing_append, passing_append, passing_long hlong, List.nil_append]
  have hkept := h.selected_eq.2
  have hreason : ¬ keepAll.reason = true := by decide
  rw [survivors, whole, if_neg hreason, reached, if_neg hreason, hup, hpassing] at hkept
  exact absurd (congrArg List.length hkept) (by decide)

end Inn.History.Expire
