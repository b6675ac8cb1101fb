import Inn.Innd.Active
import Mathlib.Data.List.TakeWhile
import Mathlib.Data.Option.Basic

/-!
# Inn.Innd.Editing — lines of the active file are added, changed and removed

`ICDwritevactive` writes the parts of a new active file next to the old one and renames it. The
parts are cut at the starts of lines and at the flags that `NGparsefile` has found.

* `parsed_lines` — a text that `NGparsefile` accepts, as lines;
* `active_edits` — what `ICDnewgroup`, `ICDchangegroup` and `ICDrmgroup` do to the lines.
-/

namespace Inn.Innd.Editing

/-! ## The code -/

/-- The file operations of `ICDwritevactive`. -/
inductive Op where
  | unlinkBackup
  | openBackup
  | writeBackup
  | closeBackup
  | openNew
  | writeNew
  | closeNew
  | rename
deriving DecidableEq, Repr

/-- The active file, its text in core, `Groups`, and the failures that were logged. -/
structure State where
  disk : List UInt8
  text : List UInt8
  Groups : List NEWSGROUP
  log : List Op
deriving DecidableEq

/-- How an edit goes: the settings, the operations that fail, what a `close` that fails leaves of the
new file, and whether overview goes along with it. -/
structure Course where
  running : Bool
  mergetogroups : Bool
  fails : Op → Bool
  left : List UInt8 → List UInt8
  overview : Bool

/-- What is logged about the backup. -/
def backupLog (w : Course) : List Op :=
  (if w.fails .unlinkBackup then [.unlinkBackup] else []) ++
    if w.fails .openBackup then [.openBackup]
    else if w.fails .writeBackup then [.writeBackup]
    else if w.fails .closeBackup then [.closeBackup]
    else []

/-- The groups that INN requires. -/
def required (mergetogroups : Bool) : List (List UInt8) :=
  [octets "control", octets "junk", octets "control.cancel"] ++
    if mergetogroups then [octets "to"] else []

/-- What `ICDsetup` asks of `Groups`. -/
def ICDsetup (w : Course) (groups : List NEWSGROUP) : Option (List NEWSGROUP) :=
  if (required w.mergetogroups).all fun name => (NGfind groups name).isSome then some groups else none

/-- `ICDwritevactive`. `none` is `NGparsefile` or `ICDsetup`, which exit. -/
def ICDwritevactive (w : Course) (s : State) (vp : List (List UInt8)) : Option (Bool × State) :=
  let log := s.log ++ backupLog w
  if w.fails .openNew then some (false, { s with log := log ++ [.openNew] })
  else if w.fails .writeNew then some (false, { s with log := log ++ [.writeNew] })
  else if w.fails .rename then some (false, { s with log := log ++ [.rename] })
  else
    -- the result of `close` is not looked at
    let new := if w.fails .closeNew then w.left vp.flatten else vp.flatten
    let groups := if w.running then (NGparsefile new).bind (ICDsetup w) else NGparsefile new
    groups.map fun groups => (true, ⟨new, new, groups, log⟩)

/-- The end of an edit, with `OVgroupadd` or `OVgroupdel`. -/
def finish (w : Course) (r : Bool × State) : Bool × State := (r.1 && w.overview, r.2)

/-- `ngp->Rest`, as `NGparseentry` finds it. -/
def restOf (text : List UInt8) (ngp : NEWSGROUP) : Option ℕ :=
  (markFields text ngp.Start).map fun f => f.2.2 + 1

def ICDchangegroup (w : Course) (s : State) (i : ℕ) (Rest : List UInt8) :
    Option (Bool × State) := do
  let ngp ← s.Groups[i]?
  let p ← restOf s.text ngp
  let tail := match s.Groups[i + 1]? with
    | some next => s.text.drop (next.Start - 1)
    | none => [10]
  (ICDwritevactive w s [s.text.take p, Rest, tail]).map (finish w)

def ICDnewgroup (w : Course) (s : State) (Name Rest : List UInt8) : Option (Bool × State) :=
  (ICDwritevactive w s
    [s.text, Name ++ (octets " 0000000000 0000000001 " ++ (Rest ++ [10]))]).map (finish w)

/-- `ICDrmgroup`. `none` is a look at the group behind the last one, too. -/
def ICDrmgroup (w : Course) (s : State) (i : ℕ) : Option (Bool × State) := do
  let ngp ← s.Groups[i]?
  if ngp.Name ∈ required w.mergetogroups then some (false, s)
  else if i = 0 then
    let next ← s.Groups[1]?
    (ICDwritevactive w s [s.text.drop next.Start]).map (finish w)
  else if i + 1 = s.Groups.length then
    (ICDwritevactive w s [s.text.take ngp.Start]).map (finish w)
  else
    let next ← s.Groups[i + 1]?
    (ICDwritevactive w s [s.text.take ngp.Start, s.text.drop next.Start]).map (finish w)

/-! ## Lines -/

/-- A line that `NGparseentry` accepts. -/
structure Line where
  name : List UInt8
  hi : List UInt8
  lo : List UInt8
  rest : List UInt8
  name_ok : ∀ c ∈ name, c ≠ 0 ∧ c ≠ 10 ∧ c ≠ 32
  hi_ok : ∀ c ∈ hi, c ≠ 0 ∧ c ≠ 10 ∧ c ≠ 32
  lo_ok : ∀ c ∈ lo, c ≠ 0 ∧ c ≠ 10 ∧ c ≠ 32
  rest_ok : ∀ c ∈ rest, c ≠ 0 ∧ c ≠ 10

namespace Line

/-- What is in front of the flag field. -/
def head (l : Line) : List UInt8 := l.name ++ 32 :: (l.hi ++ 32 :: (l.lo ++ [32]))

def octets (l : Line) : List UInt8 := l.head ++ (l.rest ++ [10])

theorem body_ok (l : Line) {d : UInt8} (hd : d ∈ l.head ++ l.rest) : d ≠ 0 ∧ d ≠ 10 := by
  simp only [head, List.mem_append, List.mem_cons, List.not_mem_nil, or_false] at hd
  rcases hd with (hd | rfl | hd | rfl | hd | rfl) | hd
  · exact ⟨(l.name_ok d hd).1, (l.name_ok d hd).2.1⟩
  · decide
  · exact ⟨(l.hi_ok d hd).1, (l.hi_ok d hd).2.1⟩
  · decide
  · exact ⟨(l.lo_ok d hd).1, (l.lo_ok d hd).2.1⟩
  · decide
  · exact l.rest_ok d hd

theorem count_octets (l : Line) : l.octets.count 10 = 1 := by
  rw [octets, ← List.append_assoc, List.count_append,
    List.count_eq_zero.mpr fun h => (l.body_ok h).2 rfl]
  rfl

theorem length_octets (l : Line) :
    l.octets.length = l.head.length + l.rest.length + 1 := by
  rw [octets, List.length_append, List.length_append, List.length_singleton, Nat.add_assoc]

theorem length_head (l : Line) :
    l.head.length = l.name.length + 1 + l.hi.length + 1 + l.lo.length + 1 := by
  simp only [head, List.length_append, List.length_cons, List.length_nil]
  omega

/-- The line with another flag field. -/
def setRest (l : Line) (rest : List UInt8) (h : ∀ c ∈ rest, c ≠ 0 ∧ c ≠ 10) : Line :=
  { l with rest := rest, rest_ok := h }

end Line

def textOf (ls : List Line) : List UInt8 := (ls.map Line.octets).flatten

/-- What an edit needs of an entry: where its line and its high mark are, and its name. -/
def place (ngp : NEWSGROUP) : ℕ × List UInt8 × ℕ × ℕ :=
  (ngp.Start, ngp.Name, ngp.LastString, ngp.Lastwidth)

/-- The places of lines that begin at `p`. -/
def places (p : ℕ) : List Line → List (ℕ × List UInt8 × ℕ × ℕ)
  | [] => []
  | l :: ls => (p, l.name, p + l.name.length + 1, l.hi.length) :: places (p + l.octets.length) ls

section Lines

variable {text pre post : List UInt8} {p q n : ℕ} {c : UInt8} {l : Line} {ls : List Line}
  {groups groups' : List NEWSGROUP}

theorem textOf_append (ls ls' : List Line) : textOf (ls ++ ls') = textOf ls ++ textOf ls' := by
  simp [textOf]

theorem textOf_cons (l : Line) (ls : List Line) : textOf (l :: ls) = l.octets ++ textOf ls := rfl

theorem places_append (p : ℕ) (ls ls' : List Line) :
    places p (ls ++ ls') = places p ls ++ places (p + (textOf ls).length) ls' := by
  induction ls generalizing p with
  | nil => rfl
  | cons l ls ih =>
    rw [List.cons_append, places, places, ih, textOf_cons, List.length_append, List.cons_append,
      Nat.add_assoc p l.octets.length]

theorem names_of_places (p : ℕ) (ls : List Line) :
    (places p ls).map (fun e => e.2.1) = ls.map Line.name := by
  induction ls generalizing p with
  | nil => rfl
  | cons l ls ih => rw [places, List.map_cons, List.map_cons, ih]

theorem names_of_place (h : groups.map place = places p ls) :
    groups.map (·.Name) = ls.map Line.name := by
  have hnames := congrArg (List.map fun e : ℕ × List UInt8 × ℕ × ℕ => e.2.1) h
  rw [names_of_places, List.map_map] at hnames
  exact hnames

/-- What `strchr` finds. -/
theorem strchr_some (h : strchr text p c = some q) : ∃ body,
    text.drop p = body ++ c :: text.drop (q + 1) ∧ (∀ d ∈ body, d ≠ 0 ∧ d ≠ c) ∧
    q = p + body.length := by
  obtain ⟨k, hfind, rfl⟩ := Option.map_eq_some_iff.mp h
  obtain ⟨hk, hget, hbefore⟩ := List.findIdx?_eq_some_iff_getElem.mp hfind
  have hc : (cString (text.drop p))[k] = c := by simpa using hget
  have hpre : cString (text.drop p) <+: text.drop p := List.takeWhile_prefix _
  have hlen := hpre.length_le
  have hat : (text.drop p)[k] = c := by rw [← hc, hpre.getElem hk]
  refine ⟨(cString (text.drop p)).take k, ?_, fun d hd => ?_, ?_⟩
  · rw [Nat.add_assoc, ← List.drop_drop, ← hat, ← List.drop_eq_getElem_cons (by omega),
      List.prefix_iff_eq_take.mp hpre, List.take_take, min_eq_left hk.le, List.take_append_drop]
  · obtain ⟨j, hj, rfl⟩ := List.mem_take_iff_getElem.mp hd
    have hj' := hbefore j (by omega)
    refine ⟨?_, by simpa using hj'⟩
    have hmem : (cString (text.drop p))[j] ∈ cString (text.drop p) := List.getElem_mem _
    simpa using List.mem_takeWhile_imp hmem
  · rw [List.length_take]
    omega

/-- Where the ends of the fields of a line are found. -/
theorem fields_found (htext : text = pre ++ l.octets ++ post) :
    strchr text pre.length 32 = some (pre.length + l.name.length) ∧
    strchr text (pre.length + l.name.length + 1) 32 =
      some (pre.length + l.name.length + 1 + l.hi.length) ∧
    strchr text (pre.length + l.name.length + 1 + l.hi.length + 1) 32 =
      some (pre.length + l.head.length - 1) ∧
    strchr text pre.length 10 = some (pre.length + l.octets.length - 1) := by
  have hname := @strchr_eq text pre l.name
    (l.hi ++ 32 :: (l.lo ++ [32]) ++ (l.rest ++ [10]) ++ post) 32
    (by simp [htext, Line.octets, Line.head])
    (fun d hd => ⟨(l.name_ok d hd).1, (l.name_ok d hd).2.2⟩) (by decide)
  have hhi := @strchr_eq text (pre ++ l.name ++ [32]) l.hi
    (l.lo ++ [32] ++ (l.rest ++ [10]) ++ post) 32
    (by simp [htext, Line.octets, Line.head])
    (fun d hd => ⟨(l.hi_ok d hd).1, (l.hi_ok d hd).2.2⟩) (by decide)
  have hlo := @strchr_eq text (pre ++ l.name ++ [32] ++ l.hi ++ [32]) l.lo
    (l.rest ++ [10] ++ post) 32
    (by simp [htext, Line.octets, Line.head])
    (fun d hd => ⟨(l.lo_ok d hd).1, (l.lo_ok d hd).2.2⟩) (by decide)
  have hend := @strchr_eq text pre (l.head ++ l.rest) post 10
    (by simp [htext, Line.octets]) (fun d hd => l.body_ok hd) (by decide)
  simp only [List.length_append, List.length_singleton] at hname hhi hlo hend
  refine ⟨hname, hhi, hlo.trans ?_, hend.trans ?_⟩
  · rw [l.length_head, Option.some.injEq]
    omega
  · rw [l.length_octets]
    rfl

/-- A line is read as such. -/
theorem entry_read (htext : text = pre ++ l.octets ++ post) : ∃ ngp,
    NGparseentry text pre.length (pre.length + l.octets.length - 1) = some ngp ∧
    place ngp = (pre.length, l.name, pre.length + l.name.length + 1, l.hi.length) := by
  obtain ⟨hname, hhi, hlo, -⟩ := fields_found htext
  have hhead := l.length_head
  have hoctets := l.length_octets
  have htake : (text.drop pre.length).take l.name.length = l.name := by
    simp [htext, Line.octets, Line.head]
  have hfin : pre.length + l.name.length + 1 + l.hi.length ≤ pre.length + l.octets.length - 1 := by omega
  have hfin' : pre.length + l.head.length - 1 ≤ pre.length + l.octets.length - 1 := by omega
  simp only [NGparseentry, hname, hhi, hlo, Option.bind_eq_bind, Option.bind_some, guard, if_pos hfin,
    if_pos hfin', pure]
  refine ⟨_, rfl, ?_⟩
  rw [place]
  simp only [Nat.add_sub_cancel_left, htake]

/-- What `markFields` finds is behind the three fields. -/
theorem rest_found {ngp : NEWSGROUP} (htext : text = pre ++ l.octets ++ post)
    (hstart : ngp.Start = pre.length) : restOf text ngp = some (pre.length + l.head.length) := by
  obtain ⟨hname, hhi, hlo, -⟩ := fields_found htext
  have hhead := l.length_head
  simp only [restOf, markFields, hstart, hname, hhi, hlo, Option.bind_eq_bind, Option.bind_some, pure,
    Option.map_some]
  congr 1
  omega

/-- What is read as an entry is a line. -/
theorem line_of_entry {ngp : NEWSGROUP} (hend : strchr text p 10 = some q)
    (hentry : NGparseentry text p q = some ngp) : ∃ l : Line,
    text.drop p = l.octets ++ text.drop (q + 1) ∧ q + 1 = p + l.octets.length ∧
    place ngp = (p, l.name, p + l.name.length + 1, l.hi.length) := by
  simp only [NGparseentry, Option.bind_eq_bind, Option.bind_eq_some_iff] at hentry
  obtain ⟨q₁, h₁, q₂, h₂, _, -, q₃, h₃, _, hq₃, hngp⟩ := hentry
  have hq₃ : q₃ ≤ q := (Option.guard_eq_some' _).mp hq₃
  obtain ⟨body, htext, hbody, hq⟩ := strchr_some hend
  obtain ⟨name, htext₁, hname, hq₁⟩ := strchr_some h₁
  obtain ⟨hi, htext₂, hhi, hq₂⟩ := strchr_some h₂
  obtain ⟨lo, htext₃, hlo, hq₃'⟩ := strchr_some h₃
  -- the three fields are in front of the end of the line
  have hhead : text.drop p = name ++ 32 :: (hi ++ 32 :: (lo ++ [32])) ++ text.drop (q₃ + 1) := by
    rw [htext₁, htext₂, htext₃]
    simp
  have hend' : text.drop p = body ++ [10] ++ text.drop (q + 1) := by rw [htext, List.append_cons]
  have hle : (name ++ 32 :: (hi ++ 32 :: (lo ++ [32]))).length ≤ (body ++ [10]).length := by
    simp only [List.length_append, List.length_cons, List.length_nil]
    omega
  obtain ⟨rest', hrest'⟩ := List.prefix_of_prefix_length_le ⟨_, hhead.symm⟩ ⟨_, hend'.symm⟩ hle
  rcases List.eq_nil_or_concat rest' with rfl | ⟨rest, c, rfl⟩
  · -- the last octet would be a blank and a line feed
    have hblank : name ++ 32 :: (hi ++ 32 :: (lo ++ [32])) ++ [] =
        name ++ 32 :: (hi ++ 32 :: lo) ++ [32] := by simp
    exact absurd (List.append_inj' (hblank.symm.trans hrest') rfl).2 (by decide)
  · rw [List.concat_eq_append, ← List.append_assoc] at hrest'
    obtain ⟨hsplit, hc⟩ := List.append_inj' hrest' rfl
    have hline : body ++ [10] = name ++ 32 :: (hi ++ 32 :: (lo ++ [32])) ++ (rest ++ [c]) := by
      rw [← hrest', List.append_assoc]
    cases hc
    have hin : ∀ d ∈ name ++ 32 :: (hi ++ 32 :: (lo ++ [32])) ++ rest, d ≠ 0 ∧ d ≠ 10 :=
      fun d hd => hbody d (hsplit ▸ hd)
    refine ⟨⟨name, hi, lo, rest, fun d hd => ⟨(hname d hd).1, (hin d ?_).2, (hname d hd).2⟩,
      fun d hd => ⟨(hhi d hd).1, (hin d ?_).2, (hhi d hd).2⟩,
      fun d hd => ⟨(hlo d hd).1, (hin d ?_).2, (hlo d hd).2⟩, fun d hd => hin d ?_⟩, ?_, ?_, ?_⟩
    · simp [hd]
    · simp [hd]
    · simp [hd]
    · simp [hd]
    · rw [hend', hline]
      rfl
    · have hlen := congrArg List.length hline
      rw [List.length_append] at hlen
      rw [hq, Nat.add_assoc]
      exact congrArg (p + ·) hlen
    · have htake : (text.drop p).take (q₁ - p) = name := by
        rw [htext₁, hq₁, Nat.add_sub_cancel_left, List.take_left]
      cases hngp
      rw [place, htake, hq₂, Nat.add_sub_cancel_left, hq₁]

/-! ### All lines -/

theorem parseLines_lines {groups out : List NEWSGROUP}
    (h : parseLines text n p groups = some out) (hnodup : (groups.map (·.Name)).Nodup) :
    ∃ ls : List Line, ls.length = n ∧ text.drop p = textOf ls ++ text.drop (p + (textOf ls).length) ∧
      out.map place = groups.map place ++ places p ls ∧ (out.map (·.Name)).Nodup := by
  induction n generalizing p groups with
  | zero =>
    cases h
    exact ⟨[], rfl, rfl, by rw [places, List.append_nil], hnodup⟩
  | succ n ih =>
    simp only [parseLines, Option.bind_eq_bind, Option.bind_eq_some_iff] at h
    obtain ⟨q, hq, ngp, hngp, _, hnew, h⟩ := h
    have hnew : ngp.Name ∉ groups.map (·.Name) := (Option.guard_eq_some' _).mp hnew
    obtain ⟨l, hl, hq', hplace⟩ := line_of_entry hq hngp
    obtain ⟨ls, hlen, htext, hout, hnames⟩ := ih h (by
      rw [List.map_append]
      exact List.nodup_append.mpr ⟨hnodup, List.nodup_singleton _, by
        rintro a ha b hb rfl
        rw [List.map_singleton, List.mem_singleton] at hb
        exact hnew (hb ▸ ha)⟩)
    refine ⟨l :: ls, by rw [List.length_cons, hlen], ?_, ?_, hnames⟩
    · rw [hl, htext, textOf_cons, List.length_append, hq', List.append_assoc, Nat.add_assoc]
    · rw [hout, List.map_append, List.map_singleton, hplace, places, hq', List.append_assoc]
      rfl

theorem lines_parseLines {groups : List NEWSGROUP} (htext : text = pre ++ textOf ls ++ post)
    (hnodup : (groups.map (·.Name) ++ ls.map Line.name).Nodup) :
    ∃ out, parseLines text ls.length pre.length groups = some out ∧
      out.map place = groups.map place ++ places pre.length ls := by
  induction ls generalizing pre groups with
  | nil => exact ⟨groups, rfl, by rw [places, List.append_nil]⟩
  | cons l ls ih =>
    rw [textOf_cons, ← List.append_assoc, List.append_assoc] at htext
    obtain ⟨ngp, hentry, hplace⟩ := entry_read htext
    obtain ⟨-, -, -, hend⟩ := fields_found htext
    have hname : ngp.Name = l.name := congrArg (fun e : ℕ × List UInt8 × ℕ × ℕ => e.2.1) hplace
    have hnew : ngp.Name ∉ groups.map (·.Name) := fun hold =>
      (List.nodup_append.mp hnodup).2.2 _ (hname ▸ hold) _ List.mem_cons_self rfl
    have hnext : pre.length + l.octets.length - 1 + 1 = (pre ++ l.octets).length := by
      rw [List.length_append, l.length_octets]
      omega
    obtain ⟨out, hparse, hout⟩ := @ih (pre ++ l.octets) (groups ++ [ngp])
      (by rw [htext, List.append_assoc (pre ++ l.octets)]) (by
        rw [List.map_append, List.map_singleton, hname, List.append_assoc]
        exact hnodup)
    refine ⟨out, ?_, ?_⟩
    · simp only [List.length_cons, parseLines, hend, hentry, Option.bind_eq_bind, Option.bind_some, guard,
        if_pos hnew, pure]
      rw [hnext, hparse]
    · rw [hout, List.map_append, List.map_singleton, hplace, places, List.append_assoc,
        List.length_append]
      rfl

theorem count_textOf (ls : List Line) : (textOf ls).count 10 = ls.length := by
  induction ls with
  | nil => rfl
  | cons l ls ih => rw [textOf_cons, List.count_append, l.count_octets, ih, List.length_cons, Nat.add_comm]

/-- Lines of different groups are read as such. -/
theorem lines_parsed (hne : ls ≠ []) (hnodup : (ls.map Line.name).Nodup) :
    ∃ out, NGparsefile (textOf ls) = some out ∧ out.map place = places 0 ls := by
  obtain ⟨out, hparse, hout⟩ := @lines_parseLines (textOf ls) [] [] ls [] (by simp) (by simpa using hnodup)
  refine ⟨out, ?_, by simpa using hout⟩
  have hpos := List.length_pos_iff.mpr hne
  rw [NGparsefile, count_textOf, if_neg (by omega)]
  exact hparse

/-- A text that `NGparsefile` accepts consists of lines of different groups, when it ends with one. -/
theorem parsed_lines (h : NGparsefile text = some groups) (hend : text.getLast? = some 10) :
    ∃ ls, text = textOf ls ∧ groups.map place = places 0 ls ∧ (ls.map Line.name).Nodup := by
  rw [NGparsefile] at h
  split_ifs at h
  obtain ⟨ls, hlen, htext, hgroups, hnodup⟩ := parseLines_lines h List.nodup_nil
  rw [List.drop_zero, Nat.zero_add] at htext
  have hcount := congrArg (List.count 10) htext
  rw [List.count_append, count_textOf, hlen] at hcount
  -- nothing is behind the last line feed
  have htail : text.drop (textOf ls).length = [] := by
    rcases List.eq_nil_or_concat (text.drop (textOf ls).length) with hnil | ⟨tail, c, hc⟩
    · exact hnil
    · rw [List.concat_eq_append] at hc
      rw [hc, ← List.append_assoc] at htext
      rw [htext, List.getLast?_concat, Option.some.injEq] at hend
      have hmem : (10 : UInt8) ∈ text.drop (textOf ls).length := by
        rw [hc, hend]
        exact List.mem_append_right _ List.mem_cons_self
      have := List.count_pos_iff.mpr hmem
      omega
  rw [htail, List.append_nil] at htext
  refine ⟨ls, htext, hgroups, ?_⟩
  rw [← names_of_place hgroups]
  exact hnodup

end Lines

/-! ## Edits -/

/-- What an edit that leads to these lines returns and leaves behind. -/
def Edits (w : Course) (s : State) (ls : List Line) (r : Option (Bool × State)) : Prop :=
  if w.fails .openNew ∨ w.fails .writeNew ∨ w.fails .rename then
    ∃ s', r = some (false, s') ∧ s'.disk = s.disk ∧ s'.text = s.text ∧ s'.Groups = s.Groups
  else
    ∃ s', r = some (w.overview, s') ∧ s'.disk = textOf ls ∧ s'.text = textOf ls ∧
      NGparsefile (textOf ls) = some s'.Groups ∧ s'.Groups.map place = places 0 ls

section Edits

variable {w : Course} {s : State} {ls before after : List Line} {l : Line}

theorem found_of_name {groups : List NEWSGROUP} {name : List UInt8}
    (h : name ∈ groups.map (·.Name)) : (NGfind groups name).isSome := by
  obtain ⟨ngp, hngp, rfl⟩ := List.mem_map.mp h
  rw [NGfind, List.findIdx?_isSome]
  exact List.any_eq_true.mpr ⟨ngp, hngp, by simp⟩

/-- `ICDwritevactive` with the parts of a new file. -/
theorem write_edits {vp : List (List UInt8)} (hvp : vp.flatten = textOf ls) (hne : ls ≠ [])
    (hnodup : (ls.map Line.name).Nodup)
    (hsetup : ∀ name ∈ required w.mergetogroups, name ∈ ls.map Line.name)
    (hclose : w.fails .closeNew = false) :
    Edits w s ls ((ICDwritevactive w s vp).map (finish w)) := by
  obtain ⟨out, hparse, hout⟩ := lines_parsed hne hnodup
  have hcheck : ICDsetup w out = some out := by
    rw [ICDsetup, if_pos]
    refine List.all_eq_true.mpr fun name hname => found_of_name ?_
    rw [names_of_place hout]
    exact hsetup name hname
  rw [Edits, ICDwritevactive]
  cases hopen : w.fails .openNew
  · cases hwrite : w.fails .writeNew
    · cases hrename : w.fails .rename
      · have hgroups : (if w.running then (NGparsefile (textOf ls)).bind (ICDsetup w)
            else NGparsefile (textOf ls)) = some out := by
          rw [hparse, Option.bind_some, hcheck, ite_self]
        simp only [Bool.false_eq_true, or_self, if_false, hclose, hvp, hgroups, Option.map_some, finish,
          Bool.true_and]
        exact ⟨_, rfl, rfl, rfl, hparse, hout⟩
      · exact ⟨_, rfl, rfl, rfl, rfl⟩
    · exact ⟨_, rfl, rfl, rfl, rfl⟩
  · exact ⟨_, rfl, rfl, rfl, rfl⟩

/-- The entry of a line, and that of the next one. -/
theorem entry_of_line (hplaces : s.Groups.map place = places 0 (before ++ l :: after)) :
    ∃ ngp, s.Groups[before.length]? = some ngp ∧ ngp.Start = (textOf before).length ∧
      ngp.Name = l.name ∧
      (s.Groups[before.length + 1]?).map (·.Start) =
        after.head?.map fun _ => (textOf before).length + l.octets.length := by
  rw [places_append, places, Nat.zero_add] at hplaces
  have hlen : (places 0 before).length = before.length := by
    have := congrArg List.length (names_of_places 0 before)
    rwa [List.length_map, List.length_map] at this
  have hentry := congrArg (·[before.length]?) hplaces
  have hnext := congrArg (·[before.length + 1]?) hplaces
  simp only [List.getElem?_map] at hentry hnext
  rw [List.getElem?_append_right (by omega), hlen, Nat.sub_self, List.getElem?_cons_zero,
    Option.map_eq_some_iff] at hentry
  rw [List.getElem?_append_right (by omega), hlen, Nat.add_sub_cancel_left, List.getElem?_cons_succ]
    at hnext
  obtain ⟨ngp, hngp, hplace⟩ := hentry
  refine ⟨ngp, hngp, congrArg (·.1) hplace, congrArg (·.2.1) hplace, ?_⟩
  have hstart := congrArg (Option.map (·.1)) hnext
  rw [Option.map_map] at hstart
  refine hstart.trans ?_
  cases after with
  | nil => rfl
  | cons => rfl

theorem text_split (htext : s.text = textOf (before ++ l :: after)) :
    s.text = textOf before ++ l.octets ++ textOf after := by
  rw [htext, textOf_append, textOf_cons, List.append_assoc]

theorem change_edits {rest : List UInt8} (hrest : ∀ c ∈ rest, c ≠ 0 ∧ c ≠ 10)
    (htext : s.text = textOf (before ++ l :: after))
    (hplaces : s.Groups.map place = places 0 (before ++ l :: after))
    (hnodup : ((before ++ l :: after).map Line.name).Nodup)
    (hsetup : ∀ name ∈ required w.mergetogroups, name ∈ (before ++ l :: after).map Line.name)
    (hclose : w.fails .closeNew = false) :
    Edits w s (before ++ l.setRest rest hrest :: after) (ICDchangegroup w s before.length rest) := by
  obtain ⟨ngp, hngp, hstart, -, hnext⟩ := entry_of_line hplaces
  have hsplit := text_split htext
  have hnames : (before ++ l.setRest rest hrest :: after).map Line.name =
      (before ++ l :: after).map Line.name := by
    rw [List.map_append, List.map_append]
    rfl
  have hhead : s.text.take ((textOf before).length + l.head.length) = textOf before ++ l.head := by
    rw [hsplit, Line.octets, List.append_assoc, List.append_assoc, ← List.append_assoc (textOf before),
      List.take_left' List.length_append]
  -- the line feed is that of the line, or of no line
  have htail : (match s.Groups[before.length + 1]? with
      | some next => s.text.drop (next.Start - 1)
      | none => [10]) = 10 :: textOf after := by
    cases after with
    | nil =>
      rw [Option.map_eq_none_iff.mp hnext]
      rfl
    | cons l' after =>
      obtain ⟨next, hget, hstart'⟩ := Option.map_eq_some_iff.mp hnext
      have hbefore : s.text = textOf before ++ (l.head ++ l.rest) ++ 10 :: textOf (l' :: after) := by
        rw [hsplit, Line.octets]
        simp
      rw [hget]
      dsimp only
      rw [hbefore, List.drop_left']
      have hend : next.Start = (textOf before).length + l.octets.length := hstart'
      rw [hend, l.length_octets, List.length_append, List.length_append]
      rfl
  simp only [ICDchangegroup, hngp, rest_found hsplit hstart, Option.bind_eq_bind, Option.bind_some, htail]
  apply write_edits
  · have hnew : (l.setRest rest hrest).octets = l.head ++ (rest ++ [10]) := rfl
    rw [textOf_append, textOf_cons, hnew]
    simp [hhead]
  · exact List.append_ne_nil_of_right_ne_nil _ (List.cons_ne_nil _ _)
  · rw [hnames]
    exact hnodup
  · rw [hnames]
    exact hsetup
  · exact hclose

theorem new_edits {new : Line} (hnew : new.name ∉ ls.map Line.name)
    (hhi : new.hi = octets "0000000000") (hlo : new.lo = octets "0000000001")
    (htext : s.text = textOf ls) (hnodup : (ls.map Line.name).Nodup)
    (hsetup : ∀ name ∈ required w.mergetogroups, name ∈ ls.map Line.name)
    (hclose : w.fails .closeNew = false) :
    Edits w s (ls ++ [new]) (ICDnewgroup w s new.name new.rest) := by
  apply write_edits
  · have hmarks : octets " 0000000000 0000000001 " = 32 :: (new.hi ++ 32 :: (new.lo ++ [32])) := by
      rw [hhi, hlo]
      decide +kernel
    rw [htext, hmarks, textOf_append, textOf_cons]
    simp [textOf, Line.octets, Line.head]
  · exact List.append_ne_nil_of_right_ne_nil _ (List.cons_ne_nil _ _)
  · rw [List.map_append]
    refine List.nodup_append.mpr ⟨hnodup, List.nodup_singleton _, ?_⟩
    rintro name hname _ hnew' rfl
    rw [List.map_singleton, List.mem_singleton] at hnew'
    exact hnew (hnew' ▸ hname)
  · intro name hname
    rw [List.map_append]
    exact List.mem_append_left _ (hsetup name hname)
  · exact hclose

theorem rm_edits (hname : l.name ∉ required w.mergetogroups)
    (htext : s.text = textOf (before ++ l :: after))
    (hplaces : s.Groups.map place = places 0 (before ++ l :: after))
    (hnodup : ((before ++ l :: after).map Line.name).Nodup)
    (hsetup : ∀ name ∈ required w.mergetogroups, name ∈ (before ++ l :: after).map Line.name)
    (hclose : w.fails .closeNew = false) :
    Edits w s (before ++ after) (ICDrmgroup w s before.length) := by
  obtain ⟨ngp, hngp, hstart, hngpname, hnext⟩ := entry_of_line hplaces
  have hsplit := text_split htext
  have hkept : ∀ name ∈ required w.mergetogroups, name ∈ (before ++ after).map Line.name := by
    intro name hreq
    have hmem := hsetup name hreq
    simp only [List.map_append, List.map_cons, List.mem_append, List.mem_cons] at hmem ⊢
    rcases hmem with hmem | rfl | hmem
    · exact .inl hmem
    · exact absurd hreq hname
    · exact .inr hmem
  have hne : before ++ after ≠ [] := by
    rintro hnil
    have := hkept (octets "control") List.mem_cons_self
    rw [hnil] at this
    cases this
  have hnodup' : ((before ++ after).map Line.name).Nodup :=
    hnodup.sublist (List.Sublist.map _ (List.Sublist.append_left (List.sublist_cons_self _ _) _))
  have hlength : s.Groups.length = before.length + (after.length + 1) := by
    have hlen := congrArg List.length (names_of_place hplaces)
    rwa [List.length_map, List.length_map, List.length_append, List.length_cons] at hlen
  have htake : s.text.take ngp.Start = textOf before := by
    rw [hstart, hsplit, List.append_assoc, List.take_left]
  have hwrite := fun vp hvp => @write_edits w s (before ++ after) vp hvp hne hnodup' hkept hclose
  simp only [ICDrmgroup, hngp, Option.bind_eq_bind, Option.bind_some, hngpname, if_neg hname, hlength, htake]
  -- the first line, the last one, or one between
  rcases before with - | ⟨l', before⟩
  · cases after with
    | nil => exact absurd rfl hne
    | cons l'' after =>
      obtain ⟨next, hget, hend⟩ := Option.map_eq_some_iff.mp hnext
      have hdrop : s.text.drop next.Start = textOf (l'' :: after) := by
        rw [hend, hsplit]
        exact List.drop_left' List.length_append
      rw [List.length_nil, Nat.zero_add] at hget
      simp only [List.length_nil, if_true, hget, Option.bind_some, hdrop]
      exact hwrite _ (by simp)
  · rw [if_neg (by simp)]
    cases after with
    | nil =>
      rw [if_pos (by simp)]
      exact hwrite _ (by simp)
    | cons l'' after =>
      obtain ⟨next, hget, hend⟩ := Option.map_eq_some_iff.mp hnext
      have hdrop : s.text.drop next.Start = textOf (l'' :: after) := by
        rw [hend, hsplit]
        exact List.drop_left' List.length_append
      rw [if_neg (by simp), hget]
      simp only [Option.bind_some, hdrop]
      exact hwrite _ (by rw [textOf_append]; simp)

end Edits

/-- A server with one group of its own. -/
def sample : State :=
  let text := octets "control 0000000000 0000000001 n\n" ++
    (octets "junk 0000000000 0000000001 n\n" ++
      (octets "control.cancel 0000000000 0000000001 n\n" ++ octets "a.b 0000000007 0000000003 y\n"))
  ⟨text, text, (NGparsefile text).getD [], []⟩

theorem sample_read : NGparsefile sample.text = some sample.Groups := by
  decide +kernel

end Inn.Innd.Editing
