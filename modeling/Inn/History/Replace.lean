import Mathlib.Data.List.TakeWhile
import Inn.History.Line

/-!
# Inn.History.Replace — an entry replaced in place

`hisv6_replace` writes the new line over the old one, and fills up with spaces what is
left of the old line.

Main results:

* `hisv6Formatline_eq` — every line for times that are not negative fits;
* `replace_reads` — what is at the offset of the entry after a replacement;
* `replaced_iff` — the readers get the new values exactly when no space was filled in.
-/

namespace Inn.History

/-- The handle: whether it is open for writing, whether it has the index, the text on
disk, and the index. -/
structure Handle where
  rdwr : Bool
  dbzowner : Bool
  text : List UInt8
  dbzfetch : HASH → Option ℕ

/-- `hisv6_fetchline`: the line and its offset. A hash that is not found is no error. -/
def hisv6Fetchline (h : Handle) (hash : HASH) : Except (Option String) (List UInt8 × ℕ) :=
  if ¬ h.dbzowner then .error (some "dbz not open for this history file ")
  else
    match h.dbzfetch hash with
    | none => .error none
    | some offset =>
      let buf := (h.text.drop offset).take HISV6_MAXLINE
      if buf.length < HISV6_MINLINE then .error (some "line too short in history ")
      else if NEWLINE ∉ cstring buf then .error (some "can't locate end of line in history ")
      else .ok ((cstring buf).takeWhile (· ≠ NEWLINE), offset)

/-- `hisv6_lookup`: the values it hands back, and whether there is an article. -/
def hisv6Lookup (h : Handle) (hash : HASH) : Except (Option String) (Bool × Fields) :=
  match hisv6Fetchline h hash with
  | .error e => .error e
  | .ok (buf, _) =>
    match hisv6Splitline buf with
    | .error e => .error (some e)
    | .ok fields => .ok (fields.token.isSome, fields)

/-- `hisv6_replace`. Of the bytes handed to `pwrite`, the first `n` are written. -/
def hisv6Replace (h : Handle) (hash : HASH) (arrived posted expires : Time) (token : Option TOKEN)
    (n : ℕ) : Except (Option String) Unit × Handle :=
  if ¬ h.rdwr then (.error (some "history not open for writing "), h)
  else
    match hisv6Fetchline h hash with
    | .error e => (.error e, h)
    | .ok (old, offset) =>
      match hisv6Formatline hash arrived posted expires token with
      | none => (.error (some "error formatting history line "), h)
      | some line =>
        let newlen := if line.getLast? = some NEWLINE then line.length - 1 else line.length
        if old.length < newlen then (.error (some "new history line too long "), h)
        else
          let new := line.take newlen ++ List.replicate (old.length - newlen) SPACE
          let h' := { h with
            text := h.text.take offset ++ new.take n ++ h.text.drop (offset + min n new.length) }
          if n = old.length then (.ok (), h')
          else (.error (some "can't write history "), h')

/-- The line a reader of the whole file finds at an offset. -/
def lineAt (text : List UInt8) (offset : ℕ) : List UInt8 :=
  (text.drop offset).takeWhile (· ≠ NEWLINE)

/-! ## The length of a line -/

/-- The number of digits of a time. -/
def digits (t : Time) : ℕ := Nat.log 10 t.toUInt64.toNat + 1

/-- The length of a line, its newline not counted. -/
def lineLength (arrived posted expires : Time) (token : Option TOKEN) : ℕ :=
  36 + digits arrived + match token with
    | none => if posted ≤ 0 then 1 else 2 + digits posted
    | some _ => (if expires ≤ 0 then 1 else digits expires) + 1 + digits posted + 39

section Length

variable {hash : HASH} {arrived posted expires : Time} {token : Option TOKEN}

theorem length_timeText (t : Time) : (timeText t).length = digits t := length_printed _

theorem length_lineText (hash : HASH) (arrived posted expires : Time) (token : Option TOKEN) :
    (lineText hash arrived posted expires token).length =
      lineLength arrived posted expires token := by
  have hhash := length_HashToText hash
  rcases token with - | token
  · simp only [lineText, lineLength]
    split
    all_goals
      simp [length_timeText]
      omega
  · simp only [lineText, lineLength]
    split
    all_goals
      simp [length_timeText]
      omega

theorem lineLength_bounds (token : Option TOKEN) (ha : 0 ≤ arrived) (hp : 0 ≤ posted) (he : 0 ≤ expires) :
    36 < lineLength arrived posted expires token ∧
      lineLength arrived posted expires token < 136 := by
  have h1 := length_timeText_le ha
  have h2 := length_timeText_le hp
  have h3 := length_timeText_le he
  rw [length_timeText] at h1 h2 h3
  have hpos : 0 < digits arrived := Nat.succ_pos _
  rcases token with - | token
  · simp only [lineLength]
    split
    all_goals omega
  · simp only [lineLength]
    split
    all_goals omega

/-- Every line fits. -/
theorem hisv6Formatline_eq (ha : 0 ≤ arrived) (hp : 0 ≤ posted) (he : 0 ≤ expires) :
    hisv6Formatline hash arrived posted expires token =
      some (lineText hash arrived posted expires token ++ [NEWLINE]) := by
  have h := (lineLength_bounds token ha hp he).2
  rw [hisv6Formatline, if_neg]
  rw [List.length_append, length_lineText, HISV6_MAXLINE, List.length_singleton]
  omega

end Length

/-! ## The line at an offset -/

section Fetch

variable {h : Handle} {hash : HASH} {old buf post : List UInt8} {offset : ℕ}

/-- The text of a line: no newline and no NUL. -/
def IsLineText (l : List UInt8) : Prop := ∀ c ∈ l, c ≠ 0 ∧ c ≠ NEWLINE

theorem cstring_append (hl : ∀ c ∈ old, c ≠ 0) (l : List UInt8) :
    cstring (old ++ l) = old ++ cstring l :=
  List.takeWhile_append_of_pos fun c hc => decide_eq_true (hl c hc)

theorem takeWhile_newline (hl : ∀ c ∈ old, c ≠ NEWLINE) (l : List UInt8) :
    (old ++ NEWLINE :: l).takeWhile (· ≠ NEWLINE) = old := by
  rw [List.takeWhile_append_of_pos fun c hc => decide_eq_true (hl c hc),
    List.takeWhile_cons_of_neg (by decide), List.append_nil]

theorem exists_eq_takeWhile_newline (hl : NEWLINE ∈ old) :
    ∃ r, old = old.takeWhile (· ≠ NEWLINE) ++ NEWLINE :: r := by
  induction old with
  | nil => cases hl
  | cons c l ih =>
    by_cases hc : c = NEWLINE
    · exact ⟨l, by rw [hc, List.takeWhile_cons_of_neg (by decide), List.nil_append]⟩
    · obtain ⟨r, hr⟩ := ih ((List.mem_cons.mp hl).resolve_left (Ne.symm hc))
      refine ⟨r, ?_⟩
      rw [List.takeWhile_cons_of_pos (by simpa using hc), List.cons_append, ← hr]

/-- The line `hisv6_fetchline` hands back is the one the text has there. -/
theorem hisv6Fetchline_iff : hisv6Fetchline h hash = .ok (old, offset) ↔
    h.dbzowner = true ∧ h.dbzfetch hash = some offset ∧
      HISV6_MINLINE ≤ (h.text.drop offset).length ∧ old.length < HISV6_MAXLINE ∧
      IsLineText old ∧ ∃ post, h.text.drop offset = old ++ NEWLINE :: post := by
  constructor
  · intro hf
    rw [hisv6Fetchline] at hf
    split at hf
    · cases hf
    rename_i howner
    split at hf
    · cases hf
    rename_i o hindex
    dsimp only at hf
    split at hf
    · cases hf
    rename_i hmin
    split at hf
    · cases hf
    rename_i hnewline
    cases hf
    obtain ⟨r, hr⟩ := exists_eq_takeWhile_newline (not_not.mp hnewline)
    generalize hbuf : (h.text.drop offset).take HISV6_MAXLINE = buf at hmin hr
    have hcut : h.text.drop offset = buf ++ (h.text.drop offset).drop HISV6_MAXLINE := by
      rw [← hbuf, List.take_append_drop]
    have hstring : buf = cstring buf ++ buf.dropWhile (· ≠ 0) := List.takeWhile_append_dropWhile.symm
    generalize hold : (cstring buf).takeWhile (· ≠ NEWLINE) = old at hr
    have hlen : (cstring buf).length ≤ HISV6_MAXLINE := by
      refine Nat.le_trans (List.Sublist.length_le (List.takeWhile_sublist _)) ?_
      rw [← hbuf, List.length_take]
      exact Nat.min_le_left ..
    refine ⟨not_not.mp howner, hindex, ?_, ?_, ?_, r ++ buf.dropWhile (· ≠ 0) ++
      (h.text.drop offset).drop HISV6_MAXLINE, ?_⟩
    · rw [hcut, List.length_append]
      omega
    · rw [hr, List.length_append, List.length_cons] at hlen
      omega
    · intro c hc
      rw [← hold] at hc
      have h0 := List.mem_takeWhile_imp ((List.takeWhile_sublist _).subset hc)
      have h1 := List.mem_takeWhile_imp hc
      exact ⟨of_decide_eq_true h0, of_decide_eq_true h1⟩
    · calc h.text.drop offset
          = buf ++ (h.text.drop offset).drop HISV6_MAXLINE := hcut
        _ = cstring buf ++ buf.dropWhile (· ≠ 0) ++ (h.text.drop offset).drop HISV6_MAXLINE :=
            congrArg (· ++ (h.text.drop offset).drop HISV6_MAXLINE) hstring
        _ = old ++ NEWLINE :: (r ++ buf.dropWhile (· ≠ 0) ++
              (h.text.drop offset).drop HISV6_MAXLINE) := by
            rw [hr]
            simp only [List.append_assoc, List.cons_append]
  · rintro ⟨howner, hindex, hmin, hlen, hold, post, hpost⟩
    have htake : (h.text.drop offset).take HISV6_MAXLINE =
        old ++ NEWLINE :: post.take (HISV6_MAXLINE - old.length - 1) := by
      obtain ⟨k, hk⟩ : ∃ k, HISV6_MAXLINE = old.length + (k + 1) :=
        ⟨HISV6_MAXLINE - old.length - 1, by omega⟩
      rw [hpost, hk, List.take_length_add_append, List.take_succ_cons]
      congr 3
      omega
    have hstring : cstring (old ++ NEWLINE :: post.take (HISV6_MAXLINE - old.length - 1)) =
        old ++ NEWLINE :: cstring (post.take (HISV6_MAXLINE - old.length - 1)) := by
      rw [cstring_append fun c hc => (hold c hc).1, cstring, List.takeWhile_cons_of_pos (by decide)]
      rfl
    have hmin' : ¬ ((h.text.drop offset).take HISV6_MAXLINE).length < HISV6_MINLINE := by
      rw [List.length_take]
      have : HISV6_MINLINE ≤ HISV6_MAXLINE := by decide
      omega
    rw [hisv6Fetchline, if_neg (not_not.mpr howner), hindex]
    dsimp only
    rw [if_neg hmin', htake, hstring, if_neg (not_not.mpr (by simp)),
      takeWhile_newline fun c hc => (hold c hc).2]

end Fetch

/-! ## After a replacement -/

section Replace

variable {h h' : Handle} {hash : HASH} {arrived posted expires : Time} {token : Option TOKEN}
  {old : List UInt8} {offset n : ℕ}

theorem IsLineText.append {l l' : List UInt8} (hl : IsLineText l) (hl' : IsLineText l') :
    IsLineText (l ++ l') := by
  intro c hc
  rcases List.mem_append.mp hc with hc | hc
  · exact hl c hc
  · exact hl' c hc

theorem IsLineText.cons {c : UInt8} {l : List UInt8} (hc : c ≠ 0 ∧ c ≠ NEWLINE)
    (hl : IsLineText l) : IsLineText (c :: l) := by
  intro d hd
  rcases List.mem_cons.mp hd with rfl | hd
  · exact hc
  · exact hl d hd

theorem isLineText_nil : IsLineText [] := fun _ hc => nomatch hc

theorem isLineText_encodeHex (l : List UInt8) : IsLineText (encodeHex l) := by
  intro c hc
  have := isUpperHexDigit_of_mem_encodeHex hc
  constructor
  all_goals
    rintro rfl
    exact absurd this (by decide)

theorem isLineText_timeText (t : Time) : IsLineText (timeText t) := by
  intro c hc
  have := isDigit_of_mem_printed hc
  constructor
  all_goals
    rintro rfl
    exact absurd this (by decide)

theorem isLineText_TokenToText (token : TOKEN) : IsLineText (TokenToText token) :=
  ((isLineText_encodeHex _).cons (by decide)).append (isLineText_nil.cons (by decide))

theorem isLineText_spaces (k : ℕ) : IsLineText (List.replicate k SPACE) := by
  intro c hc
  rw [List.eq_of_mem_replicate hc]
  decide

theorem isLineText_lineText : IsLineText (lineText hash arrived posted expires token) := by
  have htoken := fun token => (isLineText_TokenToText token).cons
    (c := HISV6_FIELDSEP) (by decide)
  have hsub : HISV6_SUBFIELDSEP ≠ 0 ∧ HISV6_SUBFIELDSEP ≠ NEWLINE := by decide
  have hposted := (isLineText_timeText posted).cons hsub
  refine (((isLineText_encodeHex _).cons (by decide)).append
    (((isLineText_timeText arrived).cons (by decide)).cons (by decide))).append ?_
  refine IsLineText.cons hsub ?_
  rcases token with - | token
  · dsimp only
    split
    · exact isLineText_nil.cons (by decide)
    · exact hposted.cons (by decide)
  · dsimp only
    split
    · exact (hposted.append (htoken token)).cons (by decide)
    · exact ((isLineText_timeText expires).append hposted).append (htoken token)

/-- The line `hisv6_replace` leaves: spaces fill up the length of the old one. -/
def padded (hash : HASH) (arrived posted expires : Time) (token : Option TOKEN) (length : ℕ) :
    List UInt8 :=
  lineText hash arrived posted expires token ++
    List.replicate (length - lineLength arrived posted expires token) SPACE

theorem isLineText_padded {length : ℕ} :
    IsLineText (padded hash arrived posted expires token length) :=
  isLineText_lineText.append (isLineText_spaces _)

theorem length_padded (hash : HASH) {length : ℕ}
    (hfit : lineLength arrived posted expires token ≤ length) :
    (padded hash arrived posted expires token length).length = length := by
  rw [padded, List.length_append, length_lineText, List.length_replicate]
  omega

theorem eq_of_hisv6Formatline {line : List UInt8}
    (hl : hisv6Formatline hash arrived posted expires token = some line) :
    line = lineText hash arrived posted expires token ++ [NEWLINE] ∧
      line.length < HISV6_MAXLINE := by
  rw [hisv6Formatline] at hl
  split at hl
  · cases hl
  · rename_i hlt
    cases hl
    exact ⟨rfl, Nat.lt_of_not_le hlt⟩

/-- The text after a replacement. -/
theorem replace_text (hold : hisv6Fetchline h hash = .ok (old, offset))
    (hr : hisv6Replace h hash arrived posted expires token n = (.ok (), h')) :
    lineLength arrived posted expires token ≤ old.length ∧
      h' = ⟨h.rdwr, h.dbzowner, h.text.take offset ++
        padded hash arrived posted expires token old.length ++
          h.text.drop (offset + old.length), h.dbzfetch⟩ := by
  rw [hisv6Replace] at hr
  split at hr
  · cases hr
  rw [hold] at hr
  dsimp only at hr
  split at hr
  · cases hr
  rename_i line hline
  obtain ⟨rfl, -⟩ := eq_of_hisv6Formatline hline
  rw [List.getLast?_concat, if_pos rfl, List.length_append, List.length_singleton,
    Nat.add_sub_cancel, length_lineText] at hr
  split at hr
  · cases hr
  rename_i hfit
  have hfit := Nat.le_of_not_lt hfit
  have htake : (lineText hash arrived posted expires token ++ [NEWLINE]).take
      (lineLength arrived posted expires token) =
      lineText hash arrived posted expires token := by
    rw [← length_lineText hash, List.take_left]
  have hlen := length_padded hash hfit
  have hnew : (lineText hash arrived posted expires token ++ [NEWLINE]).take
      (lineLength arrived posted expires token) ++
      List.replicate (old.length - lineLength arrived posted expires token) SPACE =
      padded hash arrived posted expires token old.length := by
    rw [htake, padded]
  rw [hnew, hlen] at hr
  split at hr
  · rename_i hn
    cases hr
    rw [hn, Nat.min_self, List.take_of_length_le (Nat.le_of_eq hlen)]
    exact ⟨hfit, rfl⟩
  · cases hr

/-- What a reader finds at the offset of the entry after a replacement. -/
theorem replace_reads (hold : hisv6Fetchline h hash = .ok (old, offset))
    (hr : hisv6Replace h hash arrived posted expires token n = (.ok (), h')) :
    hisv6Fetchline h' hash = .ok (padded hash arrived posted expires token old.length, offset) ∧
      lineAt h'.text offset = padded hash arrived posted expires token old.length ∧
      h'.text.take offset = h.text.take offset ∧
      h'.text.drop (offset + old.length) = h.text.drop (offset + old.length) := by
  obtain ⟨howner, hindex, hmin, hlen, -, post, hpost⟩ := hisv6Fetchline_iff.mp hold
  obtain ⟨hfit, rfl⟩ := replace_text hold hr
  have hpad := length_padded hash hfit
  have hoff : offset ≤ h.text.length := by
    have : HISV6_MINLINE ≤ h.text.length - offset := by rwa [← List.length_drop]
    unfold HISV6_MINLINE at this
    omega
  have htake : (h.text.take offset).length = offset := by rw [List.length_take]; omega
  have hrest : h.text.drop (offset + old.length) = NEWLINE :: post := by
    rw [← List.drop_drop, hpost, List.drop_left]
  have hdrop : (h.text.take offset ++ padded hash arrived posted expires token old.length ++
      h.text.drop (offset + old.length)).drop offset =
      padded hash arrived posted expires token old.length ++ NEWLINE :: post := by
    rw [List.append_assoc, hrest]
    exact List.drop_left' htake
  refine ⟨hisv6Fetchline_iff.mpr ⟨howner, hindex, ?_, ?_, isLineText_padded, post, hdrop⟩,
    ?_, ?_, ?_⟩
  · rw [hdrop, List.length_append, hpad, ← List.length_append, ← hpost]
    exact hmin
  · rw [hpad]
    exact hlen
  · rw [lineAt, hdrop]
    exact takeWhile_newline (fun c hc => (isLineText_padded c hc).2) post
  · rw [List.append_assoc]
    exact List.take_left' htake
  · rw [← List.drop_drop, hdrop, ← hrest]
    exact List.drop_left' hpad

/-- The values read from a line are the ones it was written for. -/
structure Reads (f : Fields) (hash : HASH) (arrived posted expires : Time) (token : Option TOKEN) :
    Prop where
  hash_eq : f.hash = hash
  arrived_eq : f.arrived = arrived
  posted_eq : f.posted.getD 0 = posted
  expires_eq : f.expires.getD 0 = if token.isSome then expires else 0
  token_eq : f.token = token
  have_posted : f.posted.isSome ↔ token.isSome ∨ 0 < posted
  have_expires : f.expires.isSome ↔ token.isSome ∧ 0 < expires

theorem reads_written (hp : 0 ≤ posted) (he : 0 ≤ expires) :
    Reads (written hash arrived posted expires token) hash arrived posted expires token where
  hash_eq := rfl
  arrived_eq := rfl
  posted_eq := by
    by_cases h : token.isSome ∨ 0 < posted
    · rw [written, if_pos h, Option.getD_some]
    · rw [written, if_neg h, Option.getD_none]
      exact Int64.le_antisymm hp (Int64.not_lt.mp fun h0 => h (.inr h0))
  expires_eq := by
    by_cases ht : token.isSome
    · by_cases h : 0 < expires
      · rw [written, if_pos ⟨ht, h⟩, Option.getD_some, if_pos ht]
      · rw [written, if_neg fun h' => h h'.2, Option.getD_none, if_pos ht]
        exact Int64.le_antisymm he (Int64.not_lt.mp h)
    · rw [written, if_neg fun h' => ht h'.1, if_neg ht, Option.getD_none]
  token_eq := rfl
  have_posted := by
    rw [written]
    split <;> simp_all
  have_expires := by
    rw [written]
    split <;> simp_all

/-- A line that is written fits, and reads back as it was written. -/
structure RoundTrip (hash : HASH) (arrived posted expires : Time) (token : Option TOKEN)
    (line : List UInt8) : Prop where
  format : hisv6Formatline hash arrived posted expires token = some (line ++ [NEWLINE])
  minline : HISV6_MINLINE ≤ (line ++ [NEWLINE]).length
  maxline : (line ++ [NEWLINE]).length ≤ HISV6_MAXLINE
  split : ∃ f, hisv6Splitline line = .ok f ∧ Reads f hash arrived posted expires token

/-- The readers of `h'` get the new values for the entry, and the lines of `h` for the
others. -/
structure Replaced (h h' : Handle) (hash : HASH) (arrived posted expires : Time)
    (token : Option TOKEN) (old : List UInt8) (offset : ℕ) : Prop where
  lookup : ∃ f, hisv6Lookup h' hash = .ok (token.isSome, f) ∧
    Reads f hash arrived posted expires token
  traverse : ∃ f, hisv6Splitline (cstring (lineAt h'.text offset)) = .ok f ∧
    Reads f hash arrived posted expires token
  before : h'.text.take offset = h.text.take offset
  after : h'.text.drop (offset + old.length) = h.text.drop (offset + old.length)

theorem roundTrip_lineText (ha : 0 ≤ arrived) (hp : 0 ≤ posted) (he : 0 ≤ expires) :
    RoundTrip hash arrived posted expires token (lineText hash arrived posted expires token) := by
  obtain ⟨hmin, hmax⟩ := lineLength_bounds token ha hp he
  have hlen : (lineText hash arrived posted expires token ++ [NEWLINE]).length =
      lineLength arrived posted expires token + 1 := by
    rw [List.length_append, length_lineText, List.length_singleton]
  refine ⟨hisv6Formatline_eq ha hp he, ?_, ?_, _, hisv6Splitline_lineText ha hp he,
    reads_written hp he⟩
  · rw [hlen, HISV6_MINLINE]
    omega
  · rw [hlen, HISV6_MAXLINE]
    omega

/-- A line with spaces in its tail does not read as it was written. -/
theorem not_reads_padded {length : ℕ} (ha : 0 ≤ arrived) (hp : 0 ≤ posted) (he : 0 ≤ expires)
    (hlt : lineLength arrived posted expires token < length) :
    ¬ ∃ f, hisv6Splitline (padded hash arrived posted expires token length) = .ok f ∧
      Reads f hash arrived posted expires token := by
  rintro ⟨f, hf, hreads⟩
  rw [padded, hisv6Splitline_padded hash token ha hp he, if_neg (by omega)] at hf
  split at hf
  · -- the token is lost
    rename_i htoken
    cases hf
    rw [← hreads.token_eq] at htoken
    cases htoken
  · cases hf

/-- The readers get the new values exactly if the new line is as long as the old one. -/
theorem replaced_iff (ha : 0 ≤ arrived) (hp : 0 ≤ posted) (he : 0 ≤ expires)
    (hold : hisv6Fetchline h hash = .ok (old, offset))
    (hr : hisv6Replace h hash arrived posted expires token n = (.ok (), h')) :
    ((∃ line, RoundTrip hash arrived posted expires token line) ∧
        Replaced h h' hash arrived posted expires token old offset) ↔
      lineLength arrived posted expires token = old.length := by
  have hfit := (replace_text hold hr).1
  obtain ⟨hfetch, hline, hbefore, hafter⟩ := replace_reads hold hr
  have hstring : cstring (lineAt h'.text offset) =
      padded hash arrived posted expires token old.length := by
    rw [hline, ← List.append_nil (padded ..), cstring_append fun c hc => (isLineText_padded c hc).1]
    rfl
  constructor
  · rintro ⟨-, -, htraverse, -, -⟩
    rw [hstring] at htraverse
    by_contra hne
    exact not_reads_padded ha hp he (by omega) htraverse
  · intro heq
    have hpad : padded hash arrived posted expires token old.length =
        lineText hash arrived posted expires token := by
      rw [padded, heq, Nat.sub_self, List.replicate_zero, List.append_nil]
    have hsplit : hisv6Splitline (padded hash arrived posted expires token old.length) =
        .ok (written hash arrived posted expires token) := by
      rw [hpad]
      exact hisv6Splitline_lineText ha hp he
    refine ⟨⟨_, roundTrip_lineText ha hp he⟩, ⟨_, ?_, reads_written hp he⟩, ⟨_, ?_,
      reads_written hp he⟩, hbefore, hafter⟩
    · rw [hisv6Lookup, hfetch]
      dsimp only
      rw [hsplit]
      rfl
    · rw [hstring, hsplit]

end Replace

/-- A history with one entry, for the zero token. -/
def oneEntry (arrived : Time) : Handle :=
  ⟨true, true, lineText HASH.clear arrived 0 0 (some (.replicate 18 0)) ++ [NEWLINE], fun _ => some 0⟩

theorem replaced_same_length :
    ((∃ line, RoundTrip HASH.clear 9 0 0 (some (.replicate 18 0)) line) ∧
        Replaced (oneEntry 8)
          (hisv6Replace (oneEntry 8) HASH.clear 9 0 0 (some (.replicate 18 0)) 79).2
          HASH.clear 9 0 0 (some (.replicate 18 0)) ((oneEntry 8).text.take 79) 0) ↔
      lineLength 9 0 0 (some (.replicate 18 0)) = ((oneEntry 8).text.take 79).length :=
  replaced_iff (h := oneEntry 8) (n := 79) (by decide) (by decide) (by decide) (by decide)
    (Prod.ext (by decide) rfl)

/-- An arrival time of one digit, written over one of two digits: the call succeeds, and
the article is lost. -/
theorem padding_loses_token :
    (hisv6Replace (oneEntry 10) HASH.clear 9 0 0 (some (.replicate 18 0)) 80).1 = .ok () ∧
      ¬ Replaced (oneEntry 10)
        (hisv6Replace (oneEntry 10) HASH.clear 9 0 0 (some (.replicate 18 0)) 80).2
        HASH.clear 9 0 0 (some (.replicate 18 0)) ((oneEntry 10).text.take 80) 0 := by
  refine ⟨by decide, ?_⟩
  rintro ⟨⟨f, hf, -⟩, -, -, -⟩
  have hlost : (hisv6Lookup (hisv6Replace (oneEntry 10) HASH.clear 9 0 0
      (some (.replicate 18 0)) 80).2 HASH.clear).map (·.1) = .ok false := by
    decide +kernel
  rw [hf] at hlost
  cases hlost

end Inn.History
