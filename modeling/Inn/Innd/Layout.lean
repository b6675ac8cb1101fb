import Inn.Innd.Xref
import Mathlib.Data.List.TakeWhile

/-!
# Inn.Innd.Layout — groups and the lines they point into

`Layout core lines`: the active file is the text of `lines`, and each group points
at the high water mark of its line and has its number in `Last`. `NGparsefile`
establishes it, and a number written over a field keeps it with that field changed.
-/

namespace Inn.Innd

variable {lines lines' : List ActiveLine} {line line' : ActiveLine} {core core' : InCore}
  {ngp ngp' : NEWSGROUP} {k v : ℕ}

/-! ## The fields of a line -/

namespace ActiveLine

variable {text pre post : List UInt8} (htext : text = pre ++ (line.octets ++ post))

include htext

theorem strchr_name : strchr text pre.length 32 = some (pre.length + line.name.length) :=
  @strchr_eq text pre line.name (line.hi ++ 32 :: (line.lo ++ 32 :: (line.rest ++ 10 :: post))) 32
    (by simp [htext, octets])
    (fun d hd => ⟨(line.name_ok d hd).1, (line.name_ok d hd).2.2⟩) (by decide)

/-- What follows the name. -/
theorem text_hi : text = (pre ++ line.name ++ [32]) ++
    (line.hi ++ 32 :: (line.lo ++ 32 :: (line.rest ++ 10 :: post))) := by
  simp [htext, octets]

/-- What follows the high water mark. -/
theorem text_lo : text = (pre ++ line.name ++ [32] ++ line.hi ++ [32]) ++
    (line.lo ++ 32 :: (line.rest ++ 10 :: post)) := by
  simp [htext, octets]

omit htext in
theorem length_hi :
    (pre ++ line.name ++ [32]).length = pre.length + line.name.length + 1 := by
  simp [Nat.add_assoc]

omit htext in
theorem length_lo : (pre ++ line.name ++ [32] ++ line.hi ++ [32]).length =
    pre.length + line.name.length + 1 + line.hi.length + 1 := by
  simp only [List.length_append, List.length_singleton]

theorem strchr_hi : strchr text (pre.length + line.name.length + 1) 32 =
    some (pre.length + line.name.length + 1 + line.hi.length) := by
  rw [← length_hi]
  refine @strchr_eq text _ line.hi (line.lo ++ 32 :: (line.rest ++ 10 :: post)) 32
    (by simp [htext, octets]) (fun d hd => ?_) (by decide)
  have := line.hi_ok.2 d hd
  exact ⟨fun h => absurd (h ▸ this) (by decide), fun h => absurd (h ▸ this) (by decide)⟩

theorem strchr_lo : strchr text (pre.length + line.name.length + 1 + line.hi.length + 1) 32 =
    some (pre.length + line.name.length + 1 + line.hi.length + 1 + line.lo.length) := by
  rw [← length_lo]
  refine @strchr_eq text _ line.lo (line.rest ++ 10 :: post) 32
    (by simp [htext, octets]) (fun d hd => ?_) (by decide)
  have := line.lo_ok.2 d hd
  exact ⟨fun h => absurd (h ▸ this) (by decide), fun h => absurd (h ▸ this) (by decide)⟩

theorem strchr_end : strchr text pre.length 10 = some (pre.length + (line.octets.length - 1)) := by
  have hdigit : ∀ d, IsDigit d → d ≠ 0 ∧ d ≠ 10 := fun d hd =>
    ⟨fun h => absurd (h ▸ hd) (by decide), fun h => absurd (h ▸ hd) (by decide)⟩
  have h : strchr text pre.length 10 = some (pre.length +
      (line.name ++ 32 :: (line.hi ++ 32 :: (line.lo ++ 32 :: line.rest))).length) := by
    refine @strchr_eq text pre _ post 10 (by simp [htext, octets]) (fun d hd => ?_) (by decide)
    simp only [List.mem_append, List.mem_cons] at hd
    rcases hd with hd | rfl | hd | rfl | hd | rfl | hd
    · exact ⟨(line.name_ok d hd).1, (line.name_ok d hd).2.1⟩
    · decide
    · exact hdigit d (line.hi_ok.2 d hd)
    · decide
    · exact hdigit d (line.lo_ok.2 d hd)
    · decide
    · exact line.rest_ok d hd
  rw [h]
  simp only [octets, List.length_append, List.length_cons, List.length_nil]
  rfl

theorem drop_hi : text.drop (pre.length + line.name.length + 1) =
    line.hi ++ 32 :: (line.lo ++ 32 :: (line.rest ++ 10 :: post)) := by
  rw [text_hi htext, ← length_hi, List.drop_left]

theorem drop_lo : text.drop (pre.length + line.name.length + 1 + line.hi.length + 1) =
    line.lo ++ 32 :: (line.rest ++ 10 :: post) := by
  rw [text_lo htext, ← length_lo, List.drop_left]

theorem atol_hi : atol (text.drop (pre.length + line.name.length + 1)) = line.mark := by
  have hspace : ∀ l : List UInt8, ∀ c ∈ (32 :: l).head?, ¬ IsDigit c := fun _ c hc => by
    cases hc
    decide
  rw [drop_hi htext, atol_digits line.hi_ok.1 line.hi_ok.2 (hspace _), mark]
  omega

/-- The number written over the high water mark. -/
theorem FormatLong_hi (v : ℕ) :
    FormatLong text (pre.length + line.name.length + 1) v line.hi.length =
      (pre ++ ((line.setHi v).octets ++ post), decide (v < 10 ^ line.hi.length)) := by
  rw [FormatLong_eq v (by rw [htext]; simp [octets]; omega), ← List.drop_drop, drop_hi htext,
    List.drop_left, text_hi htext, ← length_hi, List.take_left]
  simp [octets, setHi]

/-- The number written over the low water mark. -/
theorem FormatLong_lo (v : ℕ) :
    FormatLong text (pre.length + line.name.length + 1 + line.hi.length + 1) v line.lo.length =
      (pre ++ ((line.setLo v).octets ++ post), decide (v < 10 ^ line.lo.length)) := by
  rw [FormatLong_eq v (by rw [htext]; simp [octets]; omega), ← List.drop_drop, drop_lo htext,
    List.drop_left, text_lo htext, ← length_lo, List.take_left]
  simp [octets, setLo]

end ActiveLine

/-! ## The layout -/

/-- Where a line starts. -/
def lineStart (lines : List ActiveLine) (k : ℕ) : ℕ := (activeText (lines.take k)).length

/-- A group of the line at `start`. -/
structure GroupOf (start : ℕ) (line : ActiveLine) (ngp : NEWSGROUP) : Prop where
  Start : ngp.Start = start
  Name : ngp.Name = line.name
  LastString : ngp.LastString = start + line.name.length + 1
  Lastwidth : ngp.Lastwidth = line.hi.length
  Last : ngp.Last = line.mark

/-- The groups are those of the lines. -/
structure Layout (core : InCore) (lines : List ActiveLine) : Prop where
  active : core.active = activeText lines
  length : core.groups.length = lines.length
  group : ∀ k line ngp, lines[k]? = some line → core.groups[k]? = some ngp →
    GroupOf (lineStart lines k) line ngp

theorem activeText_append (lines lines' : List ActiveLine) :
    activeText (lines ++ lines') = activeText lines ++ activeText lines' := by
  simp [activeText]

theorem activeText_cons (line : ActiveLine) (lines : List ActiveLine) :
    activeText (line :: lines) = line.octets ++ activeText lines := by
  simp [activeText]

theorem activeText_split (h : lines[k]? = some line) : activeText lines =
    activeText (lines.take k) ++ (line.octets ++ activeText (lines.drop (k + 1))) := by
  obtain ⟨hk, rfl⟩ := List.getElem?_eq_some_iff.mp h
  rw [← activeText_cons, ← List.drop_eq_getElem_cons hk, ← activeText_append, List.take_append_drop]

theorem activeText_set (h : lines[k]? = some line) (line' : ActiveLine) :
    activeText (lines.set k line') =
      activeText (lines.take k) ++ (line'.octets ++ activeText (lines.drop (k + 1))) := by
  obtain ⟨hk, -⟩ := List.getElem?_eq_some_iff.mp h
  rw [List.set_eq_take_append_cons_drop, if_pos hk, activeText_append, activeText_cons]

/-- The marks of a line. -/
theorem markFields_eq (h : lines[k]? = some line) :
    markFields (activeText lines) (lineStart lines k) =
      some (lineStart lines k + line.name.length + 1,
        lineStart lines k + line.name.length + 1 + line.hi.length + 1,
        lineStart lines k + line.name.length + 1 + line.hi.length + 1 + line.lo.length) := by
  have htext := activeText_split h
  simp only [markFields, lineStart, ActiveLine.strchr_name htext, ActiveLine.strchr_hi htext,
    ActiveLine.strchr_lo htext, Option.bind_eq_bind, Option.bind_some, pure]

/-! ## NGparsefile -/

theorem ActiveLine.mark_lt (line : ActiveLine) : line.mark < 2 ^ 63 := by
  rw [ActiveLine.mark]
  omega

theorem toULong_natCast (h : v < 2 ^ 64) : toULong v = v := by
  rw [toULong]
  omega

/-- The group `NGparseentry` makes of a line. -/
def ActiveLine.group (line : ActiveLine) (start : ℕ) : NEWSGROUP :=
  { Start := start, Name := line.name, Last := line.mark, Filenum := 0
    Lastwidth := line.hi.length, PostCount := 0, LastString := start + line.name.length + 1 }

theorem NGparseentry_eq {text pre post : List UInt8} (htext : text = pre ++ (line.octets ++ post)) :
    NGparseentry text pre.length (pre.length + (line.octets.length - 1)) =
      some (line.group pre.length) := by
  have hname : (text.drop pre.length).take (pre.length + line.name.length - pre.length) =
      line.name := by
    rw [htext, List.drop_left, Nat.add_sub_cancel_left, ActiveLine.octets, List.append_assoc,
      List.take_left]
  have hlen : line.octets.length - 1 =
      line.name.length + (1 + line.hi.length + 1 + line.lo.length + 1 + line.rest.length) := by
    simp [ActiveLine.octets]
    omega
  have hmark := toULong_natCast (Nat.lt_trans line.mark_lt (by decide))
  simp only [NGparseentry, ActiveLine.strchr_name htext, ActiveLine.strchr_hi htext,
    ActiveLine.strchr_lo htext, ActiveLine.atol_hi htext, hname, hlen, hmark,
    Option.bind_eq_bind, Option.bind_some]
  rw [guard, if_pos (by omega), guard, if_pos (by omega), Nat.add_sub_cancel_left]
  rfl

theorem count_octets (line : ActiveLine) : line.octets.count 10 = 1 := by
  have hno : ∀ {l : List UInt8}, (∀ c ∈ l, c ≠ 10) → l.count 10 = 0 := fun h =>
    List.count_eq_zero.mpr fun hmem => h 10 hmem rfl
  have hdigit : ∀ c, IsDigit c → c ≠ 10 := fun c hc h => absurd (h ▸ hc) (by decide)
  simp only [ActiveLine.octets, List.count_append, List.count_cons, List.count_nil,
    hno fun c hc => (line.name_ok c hc).2.1, hno fun c hc => hdigit c (line.hi_ok.2 c hc),
    hno fun c hc => hdigit c (line.lo_ok.2 c hc), hno fun c hc => (line.rest_ok c hc).2]
  decide

theorem count_activeText (lines : List ActiveLine) :
    (activeText lines).count 10 = lines.length := by
  induction lines with
  | nil => rfl
  | cons line lines ih =>
    rw [activeText_cons, List.count_append, ih, count_octets, List.length_cons, Nat.add_comm]

theorem length_octets_pos (line : ActiveLine) : 0 < line.octets.length := by
  simp [ActiveLine.octets]

/-- `strchr` passes over characters other than the one it finds and NUL. -/
theorem strchr_passed {text : List UInt8} {p q : ℕ} {c : UInt8} (h : strchr text p c = some q) :
    p ≤ q ∧ ∀ d ∈ (text.drop p).take (q - p), d ≠ c ∧ d ≠ 0 := by
  obtain ⟨n, hn, rfl⟩ := Option.map_eq_some_iff.mp h
  rw [List.findIdx?_eq_some_iff_getElem] at hn
  obtain ⟨hlt, -, hbefore⟩ := hn
  refine ⟨Nat.le_add_right .., fun d hd => ?_⟩
  have htake : (text.drop p).take (p + n - p) = (cString (text.drop p)).take n := by
    rw [Nat.add_sub_cancel_left]
    obtain ⟨rest, hrest⟩ : cString (text.drop p) <+: text.drop p := List.takeWhile_prefix _
    calc (text.drop p).take n = (cString (text.drop p) ++ rest).take n := by rw [hrest]
      _ = (cString (text.drop p)).take n := List.take_append_of_le_length (Nat.le_of_lt hlt)
  rw [htake] at hd
  obtain ⟨j, hj, rfl⟩ := List.mem_take_iff_getElem.mp hd
  have hjn : j < n := by omega
  refine ⟨by simpa using hbefore j hjn, ?_⟩
  have hmem := List.getElem_mem (l := cString (text.drop p)) (by omega : j < _)
  simpa using List.mem_takeWhile_imp (p := (· != 0)) hmem

theorem NGparseentry_name {active : List UInt8} {p fin : ℕ} (hfin : strchr active p 10 = some fin)
    (h : NGparseentry active p fin = some ngp) : ∀ c ∈ ngp.Name, c ≠ 0 ∧ c ≠ 10 ∧ c ≠ 32 := by
  simp only [NGparseentry, Option.bind_eq_bind, Option.bind_eq_some_iff, guard] at h
  obtain ⟨q, hq, q', hq', _, hle, q'', -, _, -, h⟩ := h
  cases h
  have hname := strchr_passed hq
  have hline := strchr_passed hfin
  have hafter := (strchr_passed hq').1
  have hle : q' ≤ fin := by
    split at hle
    · assumption
    · cases hle
  intro c hc
  have hmem : c ∈ (active.drop p).take (fin - p) :=
    List.take_subset_take_left _ (by omega) hc
  exact ⟨(hname.2 c hc).2, (hline.2 c hmem).1, (hname.2 c hc).1⟩

/-- Names are distinct, and without the characters that end a name or a line. -/
theorem parseLines_names {active : List UInt8} {n p : ℕ} {groups groups' : List NEWSGROUP}
    (h : parseLines active n p groups = some groups') (hnodup : (groups.map (·.Name)).Nodup)
    (hclean : ∀ ngp ∈ groups, ∀ c ∈ ngp.Name, c ≠ 0 ∧ c ≠ 10 ∧ c ≠ 32) :
    (groups'.map (·.Name)).Nodup ∧ ∀ ngp ∈ groups', ∀ c ∈ ngp.Name, c ≠ 0 ∧ c ≠ 10 ∧ c ≠ 32 := by
  induction n generalizing p groups with
  | zero =>
    cases h
    exact ⟨hnodup, hclean⟩
  | succ n ih =>
    simp only [parseLines, Option.bind_eq_bind, Option.bind_eq_some_iff, guard] at h
    obtain ⟨fin, hfin, ngp, hngp, _, hdup, h⟩ := h
    have hname := NGparseentry_name hfin hngp
    refine ih h ?_ ?_
    · rw [List.map_append, List.nodup_append]
      refine ⟨hnodup, List.nodup_singleton _, fun a ha b hb => ?_⟩
      rw [List.mem_singleton.mp hb]
      rintro rfl
      split at hdup
      · rename_i hfresh
        exact hfresh ha
      · cases hdup
    · intro g hg
      rcases List.mem_append.mp hg with hg | hg
      · exact hclean g hg
      · exact List.mem_singleton.mp hg ▸ hname

/-- The names of the groups `NGparsefile` makes. -/
theorem NGparsefile_names {active : List UInt8} {groups : List NEWSGROUP}
    (h : NGparsefile active = some groups) : (groups.map (·.Name)).Nodup ∧
      ∀ ngp ∈ groups, ∀ c ∈ ngp.Name, c ≠ 0 ∧ c ≠ 10 ∧ c ≠ 32 := by
  rw [NGparsefile] at h
  split at h
  · cases h
  · exact parseLines_names h List.nodup_nil (by simp)

/-- The lines not yet parsed give the groups to come. -/
theorem parseLines_eq {before : List ActiveLine} {groups groups' : List NEWSGROUP}
    (h : parseLines (activeText (before ++ lines)) lines.length (activeText before).length groups =
      some groups') (hlen : groups.length = before.length) :
    groups'.length = (before ++ lines).length ∧ ∀ k ngp, groups'[k]? = some ngp →
      groups[k]? = some ngp ∨ ∃ line : ActiveLine, (before ++ lines)[k]? = some line ∧
        ngp = line.group (lineStart (before ++ lines) k) := by
  induction lines generalizing before groups with
  | nil =>
    cases h
    exact ⟨by simpa using hlen, fun k ngp hk => .inl hk⟩
  | cons line lines ih =>
    have htext : activeText (before ++ line :: lines) =
        activeText before ++ (line.octets ++ activeText lines) := by
      rw [activeText_append, activeText_cons]
    rw [List.length_cons, parseLines, ActiveLine.strchr_end htext, Option.bind_eq_bind,
      Option.bind_some, NGparseentry_eq htext, Option.bind_eq_bind, Option.bind_some] at h
    by_cases hdup : (line.group (activeText before).length).Name ∉ groups.map (·.Name)
    swap
    · rw [guard, if_neg hdup] at h
      cases h
    rw [guard, if_pos hdup] at h
    have hsplit : before ++ line :: lines = (before ++ [line]) ++ lines := by simp
    have hnext : (activeText before).length + (line.octets.length - 1) + 1 =
        (activeText (before ++ [line])).length := by
      have := length_octets_pos line
      rw [activeText_append, List.length_append, activeText_cons]
      simp only [activeText, List.map_nil, List.flatten_nil, List.append_nil]
      omega
    rw [hsplit] at h ⊢
    obtain ⟨hlen', hgroups⟩ := ih (hnext ▸ h) (by simp [hlen])
    refine ⟨hlen', fun k ngp hk => ?_⟩
    rcases hgroups k ngp hk with hold | hnew
    · rcases Nat.lt_or_ge k groups.length with hlt | hge
      · rw [List.getElem?_append_left hlt] at hold
        exact .inl hold
      · rw [List.getElem?_append_right hge] at hold
        obtain ⟨hlt, heq⟩ := List.getElem?_eq_some_iff.mp hold
        obtain rfl : k = before.length := by simp at hlt; omega
        refine .inr ⟨line, by simp, ?_⟩
        rw [← heq, lineStart]
        simp
    · exact .inr hnew

/-- The groups of a text of lines. -/
theorem NGparsefile_eq {groups : List NEWSGROUP} (h : NGparsefile (activeText lines) = some groups) :
    groups.length = lines.length ∧ ∀ k ngp, groups[k]? = some ngp →
      ∃ line : ActiveLine, lines[k]? = some line ∧ ngp = line.group (lineStart lines k) := by
  rw [NGparsefile, count_activeText] at h
  split at h
  · cases h
  · obtain ⟨hlen, hgroups⟩ := @parseLines_eq lines [] [] groups h rfl
    exact ⟨hlen, fun k ngp hk => (hgroups k ngp hk).resolve_left (by simp)⟩

/-- `NGparsefile` lays the groups out. -/
theorem NGparsefile_layout {groups : List NEWSGROUP}
    (h : NGparsefile (activeText lines) = some groups) : Layout ⟨activeText lines, groups⟩ lines := by
  obtain ⟨hlen, hgroups⟩ := NGparsefile_eq h
  refine ⟨rfl, hlen, fun k line ngp hline hngp => ?_⟩
  obtain ⟨_, hline', rfl⟩ := hgroups k ngp hngp
  cases hline.symm.trans hline'
  exact ⟨rfl, rfl, rfl, rfl, rfl⟩

/-! ## Fields written -/

/-- What a line may become: the number fields of an own line, the high water mark
never lower. -/
structure Raised (own : Prop) (line line' : ActiveLine) : Prop where
  name : line'.name = line.name
  rest : line'.rest = line.rest
  hi : line'.hi.length = line.hi.length
  lo : line'.lo.length = line.lo.length
  mark : line.mark ≤ line'.mark
  other : ¬ own → line' = line

/-- What the lines may become, when those of `own` are written. -/
structure Moved (own : ℕ → Prop) (lines lines' : List ActiveLine) : Prop where
  length : lines'.length = lines.length
  line : ∀ k line line', lines[k]? = some line → lines'[k]? = some line' →
    Raised (own k) line line'

namespace Raised

variable {own : Prop} {line'' : ActiveLine}

theorem refl : Raised own line line := ⟨rfl, rfl, rfl, rfl, Nat.le_refl _, fun _ => rfl⟩

theorem trans (h : Raised own line line') (h' : Raised own line' line'') :
    Raised own line line'' :=
  ⟨h'.name.trans h.name, h'.rest.trans h.rest, h'.hi.trans h.hi, h'.lo.trans h.lo,
    h.mark.trans h'.mark, fun ho => (h'.other ho).trans (h.other ho)⟩

theorem length_octets (h : Raised own line line') : line'.octets.length = line.octets.length := by
  simp only [ActiveLine.octets, List.length_append, List.length_cons, h.name, h.rest, h.hi, h.lo]

theorem setHi (hfits : v < 10 ^ line.hi.length) (hv : v < 2 ^ 63) (hle : line.mark ≤ v)
    (ho : own) : Raised own line (line.setHi v) :=
  ⟨rfl, rfl, length_decimal .., rfl, by rwa [line.mark_setHi hfits hv], fun h => absurd ho h⟩

theorem setLo (v : ℕ) (ho : own) : Raised own line (line.setLo v) :=
  ⟨rfl, rfl, rfl, length_decimal .., Nat.le_refl _, fun h => absurd ho h⟩

end Raised

namespace Moved

variable {own : ℕ → Prop} {lines'' : List ActiveLine}

theorem refl : Moved own lines lines :=
  ⟨rfl, fun _ _ _ h h' => Option.some.inj (h.symm.trans h') ▸ .refl⟩

theorem trans (h : Moved own lines lines') (h' : Moved own lines' lines'') :
    Moved own lines lines'' := by
  refine ⟨h'.length.trans h.length, fun k line line'' hk hk' => ?_⟩
  obtain ⟨hlt, -⟩ := List.getElem?_eq_some_iff.mp hk
  have hmid := List.getElem?_eq_getElem (h.length.symm ▸ hlt)
  exact (h.line k _ _ hk hmid).trans (h'.line k _ _ hmid hk')

theorem set (hk : lines[k]? = some line) (h : Raised (own k) line line') :
    Moved own lines (lines.set k line') := by
  refine ⟨List.length_set, fun j l l' hj hj' => ?_⟩
  rw [List.getElem?_set] at hj'
  split at hj'
  · rename_i heq
    subst heq
    cases hk.symm.trans hj
    split at hj'
    · cases hj'
      exact h
    · cases hj'
  · cases hj.symm.trans hj'
    exact .refl

/-- The lines stay where they are. -/
theorem lineStart (h : Moved own lines lines') (k : ℕ) : lineStart lines' k = lineStart lines k := by
  induction lines generalizing lines' own k with
  | nil => rw [List.eq_nil_of_length_eq_zero h.length]
  | cons line lines ih =>
    obtain ⟨line', lines', rfl⟩ := List.exists_cons_of_length_eq_add_one h.length
    cases k with
    | zero => rfl
    | succ k =>
      have hhead := (h.line 0 line line' rfl rfl).length_octets
      have hmoved : Moved (fun k => own (k + 1)) lines lines' :=
        ⟨Nat.succ.inj h.length, fun j l l' hj hj' => h.line (j + 1) l l' hj hj'⟩
      have htail := ih hmoved k
      simp only [Innd.lineStart, List.take_succ_cons, activeText_cons, List.length_append] at htail ⊢
      rw [hhead, htail]

end Moved

/-- The layout after one line is written and its group follows. -/
theorem Layout.set {own : ℕ → Prop} (h : Layout core lines) (hk : lines[k]? = some line)
    (hraised : Raised (own k) line line') (hngp : GroupOf (lineStart lines k) line' ngp') :
    Layout ⟨activeText (lines.set k line'), core.groups.set k ngp'⟩ (lines.set k line') := by
  have hmoved := Moved.set hk hraised
  refine ⟨rfl, by rw [List.length_set, List.length_set, h.length], fun j l ngp hl hg => ?_⟩
  rw [hmoved.lineStart j]
  rw [List.getElem?_set] at hl hg
  split at hl
  · rename_i heq
    subst heq
    rw [if_pos rfl] at hg
    split at hl
    · cases hl
      split at hg
      · cases hg
        exact hngp
      · cases hg
    · cases hl
  · rename_i hne
    rw [if_neg hne] at hg
    exact h.group j l ngp hl hg

/-- A change of the active file and its groups that writes marks of `own` only. -/
def MarkEdits (own : ℕ → Prop) (core core' : InCore) : Prop :=
  ∀ lines, Layout core lines → ∃ lines', Layout core' lines' ∧ Moved own lines lines'

/-- The groups that point to the same fields. -/
structure SamePlace (ngp ngp' : NEWSGROUP) : Prop where
  Start : ngp'.Start = ngp.Start
  Name : ngp'.Name = ngp.Name
  LastString : ngp'.LastString = ngp.LastString
  Lastwidth : ngp'.Lastwidth = ngp.Lastwidth

/-- Whether a number fits does not depend on the text. -/
theorem FormatLong_snd (active : List UInt8) (p value width : ℕ) :
    (FormatLong active p value width).2 = decide (value < 10 ^ width) := by
  induction width generalizing active value with
  | zero =>
    simp only [FormatLong, Nat.pow_zero, Nat.lt_one_iff]
    rfl
  | succ width ih =>
    rw [FormatLong, ih]
    exact decide_eq_decide.mpr (by rw [Nat.pow_succ]; exact Nat.div_lt_iff_lt_mul (by decide))

namespace MarkEdits

variable {own : ℕ → Prop} {core'' : InCore}

theorem refl : MarkEdits own core core := fun lines h => ⟨lines, h, .refl⟩

theorem trans (h : MarkEdits own core core') (h' : MarkEdits own core' core'') : MarkEdits own core core'' := by
  intro lines hlines
  obtain ⟨lines', hlines', hmoved⟩ := h lines hlines
  obtain ⟨lines'', hlines'', hmoved'⟩ := h' lines' hlines'
  exact ⟨lines'', hlines'', hmoved.trans hmoved'⟩

/-- The line of a group. -/
theorem line_of (h : Layout core lines) (hngp : core.groups[k]? = some ngp) :
    ∃ line, lines[k]? = some line ∧ GroupOf (lineStart lines k) line ngp := by
  obtain ⟨hk, -⟩ := List.getElem?_eq_some_iff.mp hngp
  have hline := List.getElem?_eq_getElem (h.length ▸ hk)
  exact ⟨_, hline, h.group k _ _ hline hngp⟩

/-- The fields of a line stay where they are. -/
theorem fields_stay (h : Layout core lines) (h' : Layout core' lines') (hmoved : Moved own lines lines')
    (hngp : core.groups[k]? = some ngp) :
    markFields core'.active ngp.Start = markFields core.active ngp.Start := by
  obtain ⟨line, hline, hg⟩ := line_of h hngp
  obtain ⟨hlt, -⟩ := List.getElem?_eq_some_iff.mp hngp
  obtain ⟨line', hline'⟩ : ∃ line', lines'[k]? = some line' :=
    ⟨_, List.getElem?_eq_getElem (hmoved.length.symm ▸ h.length ▸ hlt)⟩
  have hraised := hmoved.line k _ _ hline hline'
  have hfields := markFields_eq hline'
  rw [hmoved.lineStart, hraised.name, hraised.hi, hraised.lo, ← markFields_eq hline] at hfields
  rw [h.active, h'.active, hg.Start, hfields]

/-- Other data of a group. -/
theorem group (hngp : core.groups[k]? = some ngp) (hsame : SamePlace ngp ngp')
    (hlast : ngp'.Last = ngp.Last) :
    MarkEdits own core (core.put k ngp') := by
  intro lines h
  obtain ⟨line, hk, hg⟩ := line_of h hngp
  have hset : lines.set k line = lines := by
    obtain ⟨hlt, heq⟩ := List.getElem?_eq_some_iff.mp hk
    rw [← heq, List.set_getElem_self]
  have hgroup : GroupOf (lineStart lines k) line ngp' :=
    ⟨hsame.Start.trans hg.Start, hsame.Name.trans hg.Name, hsame.LastString.trans hg.LastString,
      hsame.Lastwidth.trans hg.Lastwidth, hlast.trans hg.Last⟩
  have hlayout := h.set hk (Raised.refl : Raised (own k) line line) hgroup
  rw [hset, ← h.active] at hlayout
  exact ⟨lines, hlayout, .refl⟩

/-- A higher number that fits its field. -/
theorem hi (hngp : core.groups[k]? = some ngp) (ngp' : NEWSGROUP) (hsame : SamePlace ngp ngp')
    (hlast : ngp.Last ≤ ngp'.Last) (hfits : ngp'.Last < 10 ^ ngp.Lastwidth)
    (hv : ngp'.Last < 2 ^ 63) (ho : own k) :
    MarkEdits own core ⟨(FormatLong core.active ngp.LastString ngp'.Last ngp.Lastwidth).1,
      core.groups.set k ngp'⟩ := by
  intro lines h
  obtain ⟨line, hk, hg⟩ := line_of h hngp
  rw [hg.Lastwidth] at hfits
  have hraised : Raised (own k) line (line.setHi ngp'.Last) := .setHi hfits hv (hg.Last ▸ hlast) ho
  have hgroup : GroupOf (lineStart lines k) (line.setHi ngp'.Last) ngp' :=
    ⟨hsame.Start.trans hg.Start, hsame.Name.trans hg.Name, hsame.LastString.trans hg.LastString,
      (hsame.Lastwidth.trans hg.Lastwidth).trans (length_decimal ..).symm,
      (line.mark_setHi hfits hv).symm⟩
  have htext := line.FormatLong_hi (activeText_split hk) ngp'.Last
  rw [← activeText_set hk] at htext
  refine ⟨_, ?_, .set hk hraised⟩
  rw [h.active, hg.LastString, hg.Lastwidth, lineStart, htext]
  exact h.set hk hraised hgroup

/-- A group that got a higher number, whose digits fit. -/
theorem setLast (hngp : core.groups[k]? = some ngp) (ngp' : NEWSGROUP) (hsame : SamePlace ngp ngp')
    (hlast : ngp.Last ≤ ngp'.Last) (hfits : ngp'.Last < 10 ^ ngp.Lastwidth)
    (hv : ngp'.Last < 2 ^ 63) (ho : own k) : MarkEdits own core (core.setLast k ngp').1 := by
  have h := MarkEdits.hi hngp ngp' hsame hlast hfits hv ho
  rwa [← hsame.LastString, ← hsame.Lastwidth] at h

/-- Any number in the low water mark field. -/
theorem lo (hngp : core.groups[k]? = some ngp) (ho : own k) {f2 f3 f4 : ℕ}
    (hfields : markFields core.active ngp.Start = some (f2, f3, f4)) (v : ℕ) :
    MarkEdits own core { core with active := (FormatLong core.active f3 v (f4 - f3)).1 } := by
  intro lines h
  obtain ⟨line, hk, hg⟩ := line_of h hngp
  have hraised : Raised (own k) line (line.setLo v) := .setLo v ho
  have hgroup : GroupOf (lineStart lines k) (line.setLo v) ngp :=
    ⟨hg.Start, hg.Name, hg.LastString, hg.Lastwidth, hg.Last⟩
  rw [h.active, hg.Start, markFields_eq hk] at hfields
  cases hfields
  have htext := line.FormatLong_lo (activeText_split hk) v
  rw [← activeText_set hk] at htext
  have hset : core.groups.set k ngp = core.groups := by
    obtain ⟨hlt, heq⟩ := List.getElem?_eq_some_iff.mp hngp
    rw [← heq, List.set_getElem_self]
  have hlayout := h.set hk hraised hgroup
  rw [hset] at hlayout
  refine ⟨_, ?_, .set hk hraised⟩
  rw [h.active, Nat.add_sub_cancel_left, lineStart, htext]
  exact hlayout

end MarkEdits

/-! ## Octets of the lines -/

/-- The high water mark the line of a group shows. -/
def highMark (active : List UInt8) (ngp : NEWSGROUP) : ℤ := atol (active.drop ngp.LastString)

/-- Whether an octet is in one of the two number fields of the line of a group. -/
def numberField (active : List UInt8) (ngp : NEWSGROUP) (pos : ℕ) : Bool :=
  match markFields active ngp.Start with
  | some (f2, f3, f4) => decide (f2 ≤ pos ∧ pos < f3 - 1 ∨ f3 ≤ pos ∧ pos < f4)
  | none => false

theorem Layout.highMark_eq (h : Layout core lines) (hngp : core.groups[k]? = some ngp)
    (hline : lines[k]? = some line) : highMark core.active ngp = line.mark := by
  have hg := h.group k line ngp hline hngp
  rw [highMark, h.active, hg.LastString]
  exact line.atol_hi (activeText_split hline)

/-- Every group has the number its line shows. -/
theorem Layout.current (h : Layout core lines) (hngp : core.groups[k]? = some ngp) :
    highMark core.active ngp = ngp.Last := by
  obtain ⟨line, hline, hg⟩ := MarkEdits.line_of h hngp
  rw [h.highMark_eq hngp hline, hg.Last]

theorem getElem?_replace {l r r' t : List UInt8} {pos : ℕ} (hlen : r'.length = r.length)
    (h : pos < l.length ∨ l.length + r.length ≤ pos) :
    (l ++ (r' ++ t))[pos]? = (l ++ (r ++ t))[pos]? := by
  rcases h with h | h
  · rw [List.getElem?_append_left h, List.getElem?_append_left h]
  · rw [List.getElem?_append_right (by omega), List.getElem?_append_right (by omega),
      List.getElem?_append_right (by omega), List.getElem?_append_right (by omega), hlen]

/-- A line changes in its number fields only. -/
theorem Raised.octets {own : Prop} (h : Raised own line line') {pos : ℕ}
    (hdiff : line'.octets[pos]? ≠ line.octets[pos]?) :
    own ∧ (line.name.length + 1 ≤ pos ∧ pos < line.name.length + 1 + line.hi.length ∨
      line.name.length + 1 + line.hi.length + 1 ≤ pos ∧
        pos < line.name.length + 1 + line.hi.length + 1 + line.lo.length) := by
  refine ⟨by_contra fun ho => hdiff (by rw [h.other ho]), ?_⟩
  by_contra hout
  refine hdiff ?_
  have hhi := @getElem?_replace (line.name ++ [32]) line.hi line'.hi
    (32 :: (line'.lo ++ 32 :: (line.rest ++ [10]))) pos h.hi (by
      rw [List.length_append, List.length_singleton]
      omega)
  have hlo := @getElem?_replace (line.name ++ 32 :: line.hi ++ [32]) line.lo line'.lo
    (32 :: (line.rest ++ [10])) pos h.lo (by
      rw [List.length_append, List.length_append, List.length_cons, List.length_singleton]
      omega)
  simp only [List.append_assoc, List.cons_append, List.nil_append] at hhi hlo
  rw [ActiveLine.octets, h.name, h.rest, hhi, hlo, ActiveLine.octets]

/-- Where two texts differ, a line of `own` differs. -/
theorem exists_line_differs {own : ℕ → Prop} (h : Moved own lines lines') {pos : ℕ}
    (hdiff : (activeText lines')[pos]? ≠ (activeText lines)[pos]?) :
    ∃ k line line', lines[k]? = some line ∧ lines'[k]? = some line' ∧ lineStart lines k ≤ pos ∧
      line'.octets[pos - lineStart lines k]? ≠ line.octets[pos - lineStart lines k]? := by
  induction lines generalizing lines' own pos with
  | nil =>
    rw [List.eq_nil_of_length_eq_zero h.length] at hdiff
    exact absurd rfl hdiff
  | cons line lines ih =>
    obtain ⟨line', lines', rfl⟩ := List.exists_cons_of_length_eq_add_one h.length
    have hhead := (h.line 0 line line' rfl rfl).length_octets
    rw [activeText_cons, activeText_cons] at hdiff
    rcases Nat.lt_or_ge pos line.octets.length with hlt | hge
    · rw [List.getElem?_append_left hlt, List.getElem?_append_left (hhead ▸ hlt)] at hdiff
      exact ⟨0, line, line', rfl, rfl, Nat.zero_le _, hdiff⟩
    · have hmoved : Moved (fun k => own (k + 1)) lines lines' :=
        ⟨Nat.succ.inj h.length, fun j l l' hj hj' => h.line (j + 1) l l' hj hj'⟩
      rw [List.getElem?_append_right hge, List.getElem?_append_right (hhead ▸ hge), hhead] at hdiff
      obtain ⟨k, l, l', hk, hk', hle, hne⟩ := ih hmoved hdiff
      have hstart : lineStart (line :: lines) (k + 1) =
          line.octets.length + lineStart lines k := by
        rw [lineStart, lineStart, List.take_succ_cons, activeText_cons, List.length_append]
      refine ⟨k + 1, l, l', hk, hk', by omega, ?_⟩
      rwa [hstart, ← Nat.sub_sub]

/-- Octets that change are in the number fields of an own line. -/
theorem Layout.outside {own : ℕ → Prop} (h : Layout core lines) (h' : Layout core' lines')
    (hmoved : Moved own lines lines') {pos : ℕ}
    (hdiff : core'.active[pos]? ≠ core.active[pos]?) :
    ∃ k ngp, own k ∧ core.groups[k]? = some ngp ∧ numberField core.active ngp pos := by
  rw [h.active, h'.active] at hdiff
  obtain ⟨k, line, line', hk, hk', hle, hne⟩ := exists_line_differs hmoved hdiff
  obtain ⟨ho, hpos⟩ := (hmoved.line k line line' hk hk').octets hne
  obtain ⟨hlt, -⟩ := List.getElem?_eq_some_iff.mp hk
  have hngp := List.getElem?_eq_getElem (h.length.symm ▸ hlt)
  have hg := h.group k _ _ hk hngp
  refine ⟨k, _, ho, hngp, ?_⟩
  rw [numberField, h.active, hg.Start, markFields_eq hk]
  refine decide_eq_true ?_
  omega

/-- A mark is never lower after an edit. -/
theorem Layout.monotone {own : ℕ → Prop} (h : Layout core lines) (h' : Layout core' lines')
    (hmoved : Moved own lines lines') (hngp : core.groups[k]? = some ngp) :
    highMark core.active ngp ≤ highMark core'.active ngp := by
  obtain ⟨line, hline, hg⟩ := MarkEdits.line_of h hngp
  obtain ⟨hlt, -⟩ := List.getElem?_eq_some_iff.mp hngp
  obtain ⟨line', hline'⟩ : ∃ line', lines'[k]? = some line' :=
    ⟨_, List.getElem?_eq_getElem (hmoved.length.symm ▸ h.length ▸ hlt)⟩
  have hraised := hmoved.line k _ _ hline hline'
  have hmark : highMark core'.active ngp = line'.mark := by
    have := line'.atol_hi (activeText_split hline')
    rw [hraised.name, ← lineStart, hmoved.lineStart, ← hg.LastString, ← h'.active] at this
    exact this
  rw [h.highMark_eq hngp hline, hmark]
  exact_mod_cast hraised.mark

end Inn.Innd
