import Mathlib.Data.List.TakeWhile
import Inn.Nnrpd.Wire

/-!
# Inn.Nnrpd.Headers — the header section of an article line by line

`Inn.Nnrpd.Wire` looks at an article as octets. Here its header section is a list of lines,
and a header field is a line that begins with its name together with the lines behind it
that begin with white space.

* `WireArticle` — an article in wire format;
* `occurrences` — the header fields of a name, in order, and `visible`, those among them that
  `wire_findheader` stops at;
* `wireFindheader_wire`, `wireEndheader_wire` — what the functions return, as lines.
-/

namespace Inn.Nnrpd

open Inn.Innd

/-! ## Articles -/

/-- A line of a header section, without its CRLF. -/
def IsHeaderLine (l : List UInt8) : Prop := l ≠ [] ∧ ¬ crlf <:+: l

instance (l : List UInt8) : Decidable (IsHeaderLine l) := inferInstanceAs (Decidable (_ ∧ _))

/-- Lines, and what follows them. -/
def wire (lines : List (List UInt8)) (rest : List UInt8) : List UInt8 :=
  lines.flatMap (· ++ crlf) ++ rest

/-- An article in wire format: the lines of its header section, then nothing or an empty line
and whatever follows it. -/
structure WireArticle where
  lines : List (List UInt8)
  rest : List UInt8
  lines_ok : ∀ l ∈ lines, IsHeaderLine l
  ends : rest = [] ∨ crlf <+: rest

/-- The octets of an article. -/
def WireArticle.text (a : WireArticle) : List UInt8 := wire a.lines a.rest

/-- The name of a header field: printable octets without a colon. -/
def IsFieldName (header : List UInt8) : Prop :=
  header ≠ [] ∧ ∀ c ∈ header, 33 ≤ c ∧ c ≤ 126 ∧ c ≠ 58

instance (header : List UInt8) : Decidable (IsFieldName header) :=
  inferInstanceAs (Decidable (_ ∧ _))

/-! ## Header fields -/

/-- A line that continues a header field. -/
def isFold (l : List UInt8) : Bool := l.head?.any ISWHITE

/-- A header field behind its name, the colon and one white space: what is left of its line,
and the lines that continue it. -/
structure Occurrence where
  first : List UInt8
  folds : List (List UInt8)
deriving DecidableEq

/-- The unfolded body. -/
def Occurrence.body (o : Occurrence) : List UInt8 := o.first ++ o.folds.flatten

/-- The header fields of a name. -/
def occurrences (header : List UInt8) : List (List UInt8) → List Occurrence
  | [] => []
  | l :: ls =>
    if isheader l header then
      ⟨l.drop (header.length + 2), ls.takeWhile isFold⟩ :: occurrences header ls
    else occurrences header ls

/-- The first header field whose line goes on behind its name, and the lines behind that. -/
def findLine (header : List UInt8) : List (List UInt8) → Option (List UInt8 × List (List UInt8))
  | [] => none
  | l :: ls =>
    if isheader l header ∧ header.length + 2 < l.length then
      some (l.drop (header.length + 2), ls)
    else findLine header ls

/-- The header fields that `findLine` finds one after the other. -/
def visible (header : List UInt8) (lines : List (List UInt8)) : List Occurrence :=
  (occurrences header lines).filter fun o => !o.first.isEmpty

section Names

variable {header header' l m : List UInt8} {c : UInt8}

theorem le_tolower (hc : 33 ≤ c) : 33 ≤ tolower c := by
  rw [tolower]
  split
  · rename_i h
    rw [UInt8.le_iff_toNat_le] at h hc ⊢
    rw [UInt8.le_iff_toNat_le] at h
    rw [UInt8.toNat_add]
    have h65 : (65 : UInt8).toNat = 65 := rfl
    have h90 : (90 : UInt8).toNat = 90 := rfl
    have h32 : (32 : UInt8).toNat = 32 := rfl
    have h33 : (33 : UInt8).toNat = 33 := rfl
    omega
  · exact hc

theorem IsFieldName.ne_cr (h : IsFieldName header) : (13 : UInt8) ∉ header.map tolower := by
  intro hmem
  obtain ⟨c, hc, h13⟩ := List.mem_map.mp hmem
  have := le_tolower (h.2 c hc).1
  rw [h13] at this
  exact absurd this (by decide)

theorem isheader_length (h : isheader l header = true) : header.length + 2 ≤ l.length := by
  rw [isheader, Bool.and_eq_true, Bool.and_eq_true] at h
  by_contra hlt
  have hnone : (l)[header.length + 1]? = none := List.getElem?_eq_none_iff.mpr (by omega)
  rw [hnone] at h
  cases h.1.2

/-- Whether a line begins with a name does not depend on what follows the line. -/
theorem isheader_append (hname : IsFieldName header) (l m : List UInt8) :
    isheader (l ++ crlf ++ m) header = isheader l header := by
  have hget : ∀ i, l.length ≤ i →
      (l ++ crlf ++ m)[i]? = (13 :: 10 :: m)[i - l.length]? := fun i hi => by
    rw [List.append_assoc, List.getElem?_append_right hi]
    rfl
  by_cases hlong : header.length + 2 ≤ l.length
  · rw [isheader, isheader, List.append_assoc, List.getElem?_append_left (by omega),
      List.getElem?_append_left (by omega), List.take_append_of_le_length (by omega)]
  · have hshort : isheader l header = false :=
      Bool.eq_false_iff.mpr fun h => hlong (isheader_length h)
    rw [hshort, isheader, Bool.and_eq_false_iff, Bool.and_eq_false_iff]
    rcases Nat.lt_trichotomy l.length header.length with hlt | heq | hgt
    · -- the line ends inside the name
      right
      rw [beq_eq_false_iff_ne]
      intro htake
      refine hname.ne_cr ?_
      rw [← htake]
      refine List.mem_map.mpr ⟨13, List.mem_iff_getElem?.mpr ⟨l.length, ?_⟩, rfl⟩
      rw [List.getElem?_take_of_lt hlt, hget _ (Nat.le_refl _), Nat.sub_self]
      rfl
    · left
      left
      rw [← heq, hget _ (Nat.le_refl _), Nat.sub_self]
      rfl
    · left
      right
      rw [show header.length + 1 = l.length by omega, hget _ (Nat.le_refl _), Nat.sub_self]
      rfl

/-- Names differ in case only. -/
theorem isheader_congr (h : header.map tolower = header'.map tolower) (l : List UInt8) :
    isheader l header = isheader l header' := by
  have hlen : header.length = header'.length := by
    rw [← List.length_map tolower, h, List.length_map]
  rw [isheader, isheader, hlen, h]

theorem isheader_fold (hname : IsFieldName header) (hfold : isFold l = true) :
    isheader l header = false := by
  obtain ⟨h, hs, rfl⟩ := List.exists_cons_of_ne_nil hname.1
  rcases l with _ | ⟨c, l⟩
  · cases hfold
  · exact isheader_white hfold (le_tolower (hname.2 h List.mem_cons_self).1)

theorem IsHeaderLine.take_two (h : IsHeaderLine l) (m : List UInt8) :
    (l ++ crlf ++ m).take 2 ≠ crlf := by
  rcases l with _ | ⟨c, _ | ⟨d, l⟩⟩
  · exact absurd rfl h.1
  · intro heq
    have : [c, 13] = crlf := heq
    cases this
  · intro heq
    have heq : [c, d] = crlf := heq
    refine h.2 ⟨[], l, ?_⟩
    rw [← heq]
    rfl

theorem IsHeaderLine.drop (h : IsHeaderLine l) {n : ℕ} (hn : n < l.length) :
    IsHeaderLine (l.drop n) :=
  ⟨fun h0 => by
    have := congrArg List.length h0
    rw [List.length_drop, List.length_nil] at this
    omega, fun hin => h.2 (hin.trans (List.drop_suffix n l).isInfix)⟩

end Names

/-! ## What `findLine` finds -/

section FindLine

variable {header l b : List UInt8} {ls ls' : List (List UInt8)}

theorem visible_cons (header l : List UInt8) (ls : List (List UInt8)) :
    visible header (l :: ls) =
      if isheader l header ∧ header.length + 2 < l.length then
        ⟨l.drop (header.length + 2), ls.takeWhile isFold⟩ :: visible header ls
      else visible header ls := by
  rw [visible, occurrences]
  cases hhead : isheader l header with
  | false =>
    rw [if_neg Bool.false_ne_true, if_neg fun h => Bool.false_ne_true h.1]
    rfl
  | true =>
    have hfirst : (!(l.drop (header.length + 2)).isEmpty) = true ↔
        header.length + 2 < l.length := by
      rw [Bool.not_eq_true', List.isEmpty_eq_false_iff, ← List.length_pos_iff, List.length_drop]
      omega
    rw [if_pos rfl, List.filter_cons]
    by_cases hlen : header.length + 2 < l.length
    · rw [if_pos (hfirst.mpr hlen), if_pos ⟨rfl, hlen⟩]
      rfl
    · rw [if_neg fun h => hlen (hfirst.mp h), if_neg fun h => hlen h.2]
      rfl

theorem findLine_none (h : findLine header ls = none) : visible header ls = [] := by
  induction ls with
  | nil => rfl
  | cons l ls ih =>
    rw [findLine] at h
    split at h
    · cases h
    · rename_i hnot
      rw [visible_cons, if_neg hnot, ih h]

theorem findLine_some (hls : ∀ l ∈ ls, IsHeaderLine l) (h : findLine header ls = some (b, ls')) :
    visible header ls = ⟨b, ls'.takeWhile isFold⟩ :: visible header ls' ∧ IsHeaderLine b ∧
      ∀ l ∈ ls', IsHeaderLine l := by
  induction ls with
  | nil => cases h
  | cons l ls ih =>
    have htail : ∀ l' ∈ ls, IsHeaderLine l' := fun l' hl' => hls l' (List.mem_cons_of_mem l hl')
    rw [findLine] at h
    split at h
    · rename_i hfound
      cases h
      rw [visible_cons, if_pos hfound]
      exact ⟨rfl, (hls l List.mem_cons_self).drop hfound.2, htail⟩
    · rename_i hnot
      rw [visible_cons, if_neg hnot]
      exact ih htail h

/-- The lines that continue a field begin no other one. -/
theorem visible_dropWhile (hname : IsFieldName header) (ls : List (List UInt8)) :
    visible header (ls.dropWhile isFold) = visible header ls := by
  induction ls with
  | nil => rfl
  | cons l ls ih =>
    cases hfold : isFold l with
    | true =>
      rw [List.dropWhile_cons_of_pos hfold, ih, visible_cons, if_neg]
      rw [isheader_fold hname hfold]
      exact fun h => Bool.false_ne_true h.1
    | false => rw [List.dropWhile_cons_of_neg (by rw [hfold]; exact Bool.false_ne_true)]

end FindLine

/-! ## What the functions return -/

section Find

variable {header l m p rest : List UInt8} {ls : List (List UInt8)} {strip : Bool}

theorem wireFindheader_short (h : p.length ≤ header.length + 3) :
    wireFindheader p header strip = none := by
  rw [wireFindheader]
  cases p.length with
  | zero => rfl
  | succ n => rw [findheaderFrom, if_pos h]

theorem wireFindheader_blank (h : p.take 2 = crlf) : wireFindheader p header strip = none := by
  by_cases hlen : p.length ≤ header.length + 3
  · exact wireFindheader_short hlen
  · obtain ⟨n, hn⟩ : ∃ n, p.length = n + 1 := ⟨p.length - 1, by omega⟩
    rw [wireFindheader, hn, findheaderFrom, if_neg hlen, if_pos h]

/-- The search goes on in the next line. -/
theorem nextline_bind (hl : ¬ crlf <:+: l) (m : List UInt8) :
    (wireNextline (l ++ crlf ++ m)).bind (wireFindheader · header strip) =
      wireFindheader m header strip := by
  by_cases hm : m = []
  · subst hm
    rw [List.append_nil, wireNextline_last hl]
    rfl
  · rw [wireNextline_append hl hm]
    rfl

/-- The loop of `wire_findheader` does not depend on the fuel. -/
theorem findheaderFrom_bind {n : ℕ} {q : List UInt8} (hq : q.length ≤ n + 1) :
    (wireNextline q).bind (findheaderFrom header strip n) =
      (wireNextline q).bind (wireFindheader · header strip) := by
  rcases hnext : wireNextline q with _ | r
  · rfl
  · have := length_wireNextline hnext
    exact findheaderFrom_fuel (by omega) (Nat.le_refl _)

theorem wireFindheader_other (hlen : ¬ p.length ≤ header.length + 3) (hblank : p.take 2 ≠ crlf)
    (hother : isheader p header = false) :
    wireFindheader p header strip = (wireNextline p).bind (wireFindheader · header strip) := by
  obtain ⟨n, hn⟩ : ∃ n, p.length = n + 1 := ⟨p.length - 1, by omega⟩
  rw [wireFindheader, hn, findheaderFrom, if_neg hlen, if_neg hblank, hother,
    if_neg Bool.false_ne_true]
  exact findheaderFrom_bind (Nat.le_of_eq hn)

theorem wireFindheader_found (hlen : ¬ p.length ≤ header.length + 3) (hblank : p.take 2 ≠ crlf)
    (hfound : isheader p header = true) (hbody : (p.drop (header.length + 2)).take 2 ≠ crlf) :
    wireFindheader p header false = some (p.drop (header.length + 2)) := by
  obtain ⟨n, hn⟩ : ∃ n, p.length = n + 1 := ⟨p.length - 1, by omega⟩
  rw [wireFindheader, hn, findheaderFrom, if_neg hlen, if_neg hblank, if_pos hfound]
  dsimp only
  rw [if_neg Bool.false_ne_true]
  exact if_pos (.inr hbody)

theorem wireFindheader_empty (hlen : ¬ p.length ≤ header.length + 3) (hblank : p.take 2 ≠ crlf)
    (hfound : isheader p header = true) (hbody : (p.drop (header.length + 2)).take 2 = crlf) :
    wireFindheader p header false =
      (wireNextline (p.drop (header.length + 2))).bind (wireFindheader · header false) := by
  obtain ⟨n, hn⟩ : ∃ n, p.length = n + 1 := ⟨p.length - 1, by omega⟩
  have hshort : ¬ (p.drop (header.length + 2)).length ≤ 1 := by
    have := congrArg List.length hbody
    rw [List.length_take, show crlf.length = 2 from rfl] at this
    omega
  rw [wireFindheader, hn, findheaderFrom, if_neg hlen, if_neg hblank, if_pos hfound]
  dsimp only
  rw [if_neg Bool.false_ne_true]
  dsimp only
  rw [if_neg fun h => h.elim hshort fun hne => hne hbody]
  exact findheaderFrom_bind (by rw [List.length_drop]; omega)

theorem wire_cons (l : List UInt8) (ls : List (List UInt8)) (rest : List UInt8) :
    wire (l :: ls) rest = l ++ crlf ++ wire ls rest := by
  rw [wire, wire, List.flatMap_cons, List.append_assoc]

/-- `wire_findheader` on lines. -/
theorem wireFindheader_wire (hname : IsFieldName header) (hls : ∀ l ∈ ls, IsHeaderLine l)
    (hrest : rest = [] ∨ crlf <+: rest) :
    wireFindheader (wire ls rest) header false =
      (findLine header ls).map fun found => found.1 ++ crlf ++ wire found.2 rest := by
  induction ls with
  | nil =>
    rcases hrest with rfl | ⟨m, rfl⟩
    · exact wireFindheader_short (Nat.zero_le _)
    · exact wireFindheader_blank rfl
  | cons l ls ih =>
    have hl := hls l List.mem_cons_self
    have ih := ih fun l' hl' => hls l' (List.mem_cons_of_mem l hl')
    have hblank := hl.take_two (wire ls rest)
    have hcrlf : crlf.length = 2 := rfl
    rw [wire_cons, findLine]
    by_cases hfound : isheader l header ∧ header.length + 2 < l.length
    · -- the field is in this line
      obtain ⟨hhead, hlen⟩ := hfound
      have hdrop : (l ++ crlf ++ wire ls rest).drop (header.length + 2) =
          l.drop (header.length + 2) ++ crlf ++ wire ls rest := by
        rw [List.append_assoc, List.drop_append_of_le_length (Nat.le_of_lt hlen), List.append_assoc]
      have hlong : ¬ (l ++ crlf ++ wire ls rest).length ≤ header.length + 3 := by
        rw [List.length_append, List.length_append]
        omega
      rw [if_pos ⟨hhead, hlen⟩, Option.map_some, wireFindheader_found hlong hblank
        ((isheader_append hname l _).trans hhead), hdrop]
      rw [hdrop]
      exact (hl.drop hlen).take_two _
    · rw [if_neg hfound, ← ih]
      by_cases hlong : (l ++ crlf ++ wire ls rest).length ≤ header.length + 3
      · rw [wireFindheader_short hlong, wireFindheader_short]
        rw [List.length_append] at hlong
        omega
      · cases hhead : isheader l header with
        | false =>
          rw [wireFindheader_other hlong hblank ((isheader_append hname l _).trans hhead),
            nextline_bind hl.2]
        | true =>
          -- an empty field is passed over
          have hlen : l.length = header.length + 2 := by
            have := isheader_length hhead
            have : ¬ header.length + 2 < l.length := fun h => hfound ⟨hhead, h⟩
            omega
          have hdrop : (l ++ crlf ++ wire ls rest).drop (header.length + 2) =
              [] ++ crlf ++ wire ls rest := by
            rw [List.append_assoc, ← hlen, List.drop_left]
            rfl
          rw [wireFindheader_empty hlong hblank ((isheader_append hname l _).trans hhead)
            (by rw [hdrop]; rfl), hdrop, nextline_bind (by decide)]

end Find

/-! ## The end of a field -/

section End

variable {b r rest : List UInt8} {ls : List (List UInt8)}

/-- One more line of a folded text. -/
theorem Folded.cons (hb : ¬ crlf <:+: b) (hfold : isFold r = true) (hr : Folded r) :
    Folded (b ++ crlf ++ r) := by
  intro a s heq
  have heq : b ++ (crlf ++ r) = a ++ (crlf ++ s) := by
    rw [← List.append_assoc, ← List.append_assoc, heq]
  rcases List.append_eq_append_iff.mp heq with ⟨d, rfl, hd⟩ | ⟨d, rfl, hd⟩
  · rcases d with _ | ⟨c, _ | ⟨c', d⟩⟩
    · -- the CRLF behind the first line
      have hd : crlf ++ r = crlf ++ s := hd
      rw [← List.append_cancel_left hd]
      rcases r with _ | ⟨w, r⟩
      · cases hfold
      · exact ⟨w, r, rfl, hfold⟩
    · cases hd
    · have hd : 13 :: 10 :: r = c :: c' :: (d ++ (crlf ++ s)) := hd
      injection hd with _ hd
      injection hd with _ hd
      exact hr d s (by rw [hd, List.append_assoc])
  · rcases d with _ | ⟨c, _ | ⟨c', d⟩⟩
    · have hd : crlf ++ s = crlf ++ r := hd
      rw [List.append_cancel_left hd]
      rcases r with _ | ⟨w, r⟩
      · cases hfold
      · exact ⟨w, r, rfl, hfold⟩
    · cases hd
    · have hd : 13 :: 10 :: s = c :: c' :: (d ++ (crlf ++ r)) := hd
      injection hd with hc hd
      injection hd with hc' hd
      subst hc hc'
      exact absurd ⟨a, d, by rw [List.append_assoc]; rfl⟩ hb

theorem Folded.single (hb : ¬ crlf <:+: b) : Folded b := fun a r heq =>
  absurd ⟨a, r, heq.symm⟩ hb

/-- The body of a field as it stands in the article, without its last CRLF. -/
def rawBody (b : List UInt8) (folds : List (List UInt8)) : List UInt8 :=
  b ++ folds.flatMap (crlf ++ ·)

theorem rawBody_cons (b l : List UInt8) (folds : List (List UInt8)) :
    rawBody b (l :: folds) = b ++ crlf ++ rawBody l folds := by
  rw [rawBody, rawBody, List.flatMap_cons, List.append_assoc, List.append_assoc]

theorem isFold_rawBody {l : List UInt8} (h : isFold l = true) (folds : List (List UInt8)) :
    isFold (rawBody l folds) = true := by
  rcases l with _ | ⟨w, l⟩
  · cases h
  · exact h

theorem folded_rawBody {folds : List (List UInt8)} (hb : ¬ crlf <:+: b)
    (hfolds : ∀ l ∈ folds, isFold l = true ∧ ¬ crlf <:+: l) : Folded (rawBody b folds) := by
  induction folds generalizing b with
  | nil =>
    rw [rawBody, List.flatMap_nil, List.append_nil]
    exact .single hb
  | cons l folds ih =>
    have hl := hfolds l List.mem_cons_self
    rw [rawBody_cons]
    exact .cons hb (isFold_rawBody hl.1 folds)
      (ih hl.2 fun l' hl' => hfolds l' (List.mem_cons_of_mem l hl'))

/-- Where a body ends. -/
theorem wire_rawBody (b : List UInt8) (ls : List (List UInt8)) (rest : List UInt8) :
    b ++ crlf ++ wire ls rest =
      rawBody b (ls.takeWhile isFold) ++ crlf ++ wire (ls.dropWhile isFold) rest := by
  induction ls generalizing b with
  | nil => rw [List.takeWhile_nil, List.dropWhile_nil, rawBody, List.flatMap_nil, List.append_nil]
  | cons l ls ih =>
    cases hfold : isFold l with
    | true =>
      rw [List.takeWhile_cons_of_pos hfold, List.dropWhile_cons_of_pos hfold, rawBody_cons,
        wire_cons, ih l]
      simp only [List.append_assoc]
    | false =>
      rw [List.takeWhile_cons_of_neg (by rw [hfold]; exact Bool.false_ne_true),
        List.dropWhile_cons_of_neg (by rw [hfold]; exact Bool.false_ne_true), rawBody,
        List.flatMap_nil, List.append_nil]

/-- `wire_endheader` on lines. -/
theorem wireEndheader_wire (hb : ¬ crlf <:+: b) (hls : ∀ l ∈ ls, IsHeaderLine l)
    (hrest : rest = [] ∨ crlf <+: rest) :
    wireEndheader (b ++ crlf ++ wire ls rest) =
      some (10 :: wire (ls.dropWhile isFold) rest) := by
  rw [wire_rawBody]
  refine wireEndheader_field (folded_rawBody hb fun l hl => ?_) ?_
  · exact ⟨List.mem_takeWhile_imp hl, (hls l ((List.takeWhile_sublist isFold).subset hl)).2⟩
  · have hhead := List.head?_dropWhile_not isFold ls
    rcases hdrop : ls.dropWhile isFold with _ | ⟨l, ls'⟩
    · rcases hrest with rfl | ⟨m, rfl⟩
      · rfl
      · rfl
    · rw [hdrop] at hhead
      have hmem : l ∈ ls := (List.dropWhile_sublist isFold).subset (hdrop ▸ List.mem_cons_self)
      have hfold : isFold l = false := by simpa using hhead
      obtain ⟨c, l', rfl⟩ := List.exists_cons_of_ne_nil (hls l hmem).1
      rw [wire_cons]
      exact hfold

end End

end Inn.Nnrpd
