import Inn.Nnrpd.Headers

/-!
# Inn.Nnrpd.Finding — which header field `wire_findheader` finds

A field is to be found if something stands in its body, on whichever of its lines. With
`stripspaces`, `wire_findheader` does so; without, it looks at the first line only.

* `firstFilled`, `PointsInto` — the field, and the pointers into it;
* `findsIn_strip`, `findsIn_plain` — what the function finds among lines;
* `findsFirst_iff` — when the other mode finds the same field.
-/

namespace Inn.Nnrpd

open Inn.Innd

/-! ## The field -/

/-- Nothing but blanks. -/
def Occurrence.isBlank (o : Occurrence) : Bool := o.body.all ISWHITE

/-- The first header field with a body, from its line on. -/
def firstFilled (header : List UInt8) : List (List UInt8) →
    Option (List UInt8 × List (List UInt8))
  | [] => none
  | l :: ls =>
    if isheader l header ∧
        Occurrence.isBlank ⟨l.drop (header.length + 2), ls.takeWhile isFold⟩ = false then
      some (l, ls)
    else firstFilled header ls

/-- A pointer into the field that begins with a line. -/
def PointsInto (l : List UInt8) (ls : List (List UInt8)) (rest r : List UInt8) : Prop :=
  ∃ before s, rawBody l (ls.takeWhile isFold) = before ++ s ∧ s ≠ [] ∧
    r = s ++ crlf ++ wire (ls.dropWhile isFold) rest

/-- `wire_findheader` finds that field among lines, or nothing if there is none. -/
def FindsIn (header : List UInt8) (ls : List (List UInt8)) (rest : List UInt8)
    (stripspaces : Bool) : Prop :=
  (firstFilled header ls = none → wireFindheader (wire ls rest) header stripspaces = none) ∧
    ∀ l ls', firstFilled header ls = some (l, ls') →
      ∃ r, wireFindheader (wire ls rest) header stripspaces = some r ∧ PointsInto l ls' rest r

/-- `wire_findheader` finds the first field with a body, or nothing if there is none. -/
def FindsFirst (header : List UInt8) (a : WireArticle) (stripspaces : Bool) : Prop :=
  FindsIn header a.lines a.rest stripspaces

/-- Up to the first field with a body, the fields whose first line is empty behind the name
are those without a body. -/
def FirstLinesTell (header : List UInt8) (ls : List (List UInt8)) : Prop :=
  (∀ o ∈ (occurrences header ls).takeWhile Occurrence.isBlank, o.first = []) ∧
    ∀ o ∈ ((occurrences header ls).dropWhile Occurrence.isBlank).head?, o.first ≠ []

instance (header : List UInt8) (ls : List (List UInt8)) : Decidable (FirstLinesTell header ls) :=
  inferInstanceAs (Decidable (_ ∧ _))

/-! ## The first field with a body -/

section First

variable {header l r rest : List UInt8} {ls ls' : List (List UInt8)}

theorem length_wire_cons (l : List UInt8) (ls : List (List UInt8)) (rest : List UInt8) :
    (wire (l :: ls) rest).length = l.length + 2 + (wire ls rest).length := by
  rw [wire_cons, List.length_append, List.length_append]
  rfl

/-- A pointer into a field is behind the fields before it, and before the fields behind it. -/
theorem PointsInto.length (h : PointsInto l ls rest r) :
    (wire (ls.dropWhile isFold) rest).length + 2 < r.length ∧
      r.length ≤ (wire (l :: ls) rest).length := by
  obtain ⟨before, s, hraw, hs, rfl⟩ := h
  have hs := List.length_pos_iff.mpr hs
  rw [wire_cons, wire_rawBody l, hraw]
  simp only [List.length_append, show crlf.length = 2 from rfl]
  omega

theorem firstFilled_some (h : firstFilled header ls = some (l, ls')) :
    isheader l header = true ∧ (wire (l :: ls') rest).length ≤ (wire ls rest).length := by
  induction ls with
  | nil => cases h
  | cons k ls ih =>
    rw [firstFilled] at h
    split at h
    · rename_i hfilled
      cases h
      exact ⟨hfilled.1, Nat.le_refl _⟩
    · obtain ⟨hhead, hle⟩ := ih h
      rw [length_wire_cons k]
      exact ⟨hhead, by omega⟩

theorem firstFilled_dropWhile (hname : IsFieldName header) (ls : List (List UInt8)) :
    firstFilled header (ls.dropWhile isFold) = firstFilled header ls := by
  induction ls with
  | nil => rfl
  | cons l ls ih =>
    cases hfold : isFold l with
    | true =>
      rw [List.dropWhile_cons_of_pos hfold, ih, firstFilled, if_neg]
      rw [isheader_fold hname hfold]
      exact fun h => Bool.false_ne_true h.1
    | false => rw [List.dropWhile_cons_of_neg (Bool.eq_false_iff.mp hfold)]

/-- The name, the colon and the white space are in front of the body. -/
theorem rawBody_drop (n : ℕ) (l : List UInt8) (folds : List (List UInt8)) :
    rawBody l folds = l.take n ++ rawBody (l.drop n) folds := by
  rw [rawBody, rawBody, ← List.append_assoc, List.take_append_drop]

/-- Behind a field without a body the search goes on. -/
theorem FindsIn.skip {strip : Bool} (hfirst : firstFilled header ls' = firstFilled header ls)
    (hfind : wireFindheader (wire ls' rest) header strip =
      wireFindheader (wire ls rest) header strip)
    (h : FindsIn header ls rest strip) : FindsIn header ls' rest strip := by
  rw [FindsIn, hfirst, hfind]
  exact h

end First

/-! ## With `stripspaces` -/

section Strip

variable {header b l rest : List UInt8} {ls : List (List UInt8)}

theorem skipFws_white {c : UInt8} (hc : ISWHITE c = true) (p : List UInt8) :
    skipFws (c :: p) = skipFws p := by
  rw [skipFws.eq_def]
  split
  · rename_i heq
    cases heq
  · rename_i heq
    cases heq
    exact absurd hc (by decide)
  · rename_i heq
    cases heq
    rw [if_pos hc]

theorem skipFws_other {c : UInt8} {p : List UInt8} (hc : ISWHITE c = false)
    (hcrlf : (c :: p).take 2 ≠ crlf) : skipFws (c :: p) = some (c :: p) := by
  rw [skipFws.eq_def]
  split
  · rename_i heq
    cases heq
  · rename_i heq
    cases heq
    exact absurd rfl hcrlf
  · rename_i heq
    cases heq
    rw [if_neg (Bool.eq_false_iff.mp hc)]

/-- The end of a line that is followed by a continuation line, or not. -/
theorem skipFws_crlf (p : List UInt8) :
    skipFws (crlf ++ p) = if p.head?.any ISWHITE then skipFws p else some (crlf ++ p) := by
  rcases p with _ | ⟨c, p⟩
  · rfl
  · change (if ISWHITE c then skipFws p else some (13 :: 10 :: c :: p)) = _
    rw [List.head?_cons, Option.any_some]
    cases hc : ISWHITE c with
    | true => rw [if_pos rfl, if_pos rfl, skipFws_white hc]
    | false =>
      rw [if_neg Bool.false_ne_true, if_neg Bool.false_ne_true]
      rfl

/-- The rest of a line: blanks are passed over. -/
theorem skipFws_line (hb : ¬ crlf <:+: b) (m : List UInt8) :
    (b.all ISWHITE = true ∧ skipFws (b ++ crlf ++ m) = skipFws (crlf ++ m)) ∨
    ∃ before s, b = before ++ s ∧ s ≠ [] ∧
      b.all ISWHITE = false ∧ skipFws (b ++ crlf ++ m) = some (s ++ crlf ++ m) := by
  induction b with
  | nil => exact .inl ⟨rfl, rfl⟩
  | cons c b ih =>
    cases hc : ISWHITE c with
    | true =>
      rw [List.cons_append, List.cons_append, skipFws_white hc, List.all_cons, hc, Bool.true_and]
      rcases ih fun h => hb (h.trans (List.suffix_cons c b).isInfix) with h | ⟨before, s, rfl, h⟩
      · exact .inl h
      · exact .inr ⟨c :: before, s, rfl, h⟩
    | false =>
      refine .inr ⟨[], c :: b, rfl, List.cons_ne_nil c b, ?_, skipFws_other hc ?_⟩
      · rw [List.all_cons, hc]
        rfl
      · exact IsHeaderLine.take_two ⟨List.cons_ne_nil c b, hb⟩ m

theorem head_wire (hls : ∀ l ∈ ls, IsHeaderLine l) (hrest : rest = [] ∨ crlf <+: rest) :
    (wire ls rest).head?.any ISWHITE = ls.head?.any isFold := by
  rcases ls with _ | ⟨l, ls⟩
  · rcases hrest with rfl | ⟨m, rfl⟩
    · rfl
    · rfl
  · obtain ⟨c, l', rfl⟩ := List.exists_cons_of_ne_nil (hls l List.mem_cons_self).1
    rfl

/-- A first line that is not blank. -/
theorem skipFws_filled {before s : List UInt8} (hb : ¬ crlf <:+: before ++ s) (hs : s ≠ [])
    (hall : (before ++ s).all ISWHITE = false)
    (hskip : skipFws (before ++ s ++ crlf ++ wire ls rest) = some (s ++ crlf ++ wire ls rest)) :
    Occurrence.isBlank ⟨before ++ s, ls.takeWhile isFold⟩ = false ∧
      ∃ before' s', rawBody (before ++ s) (ls.takeWhile isFold) = before' ++ s' ∧ s' ≠ [] ∧
        (s' ++ crlf ++ wire (ls.dropWhile isFold) rest).take 2 ≠ crlf ∧
        skipFws (before ++ s ++ crlf ++ wire ls rest) =
          some (s' ++ crlf ++ wire (ls.dropWhile isFold) rest) := by
  have hline : IsHeaderLine s := ⟨hs, fun h => hb (h.trans (List.suffix_append before s).isInfix)⟩
  refine ⟨?_, before, rawBody s (ls.takeWhile isFold), ?_, ?_, ?_, ?_⟩
  · rw [Occurrence.isBlank, Occurrence.body, List.all_append, hall, Bool.false_and]
  · rw [rawBody, rawBody, List.append_assoc]
  · exact fun h => hs (List.append_eq_nil_iff.mp h).1
  · rw [← wire_rawBody]
    exact hline.take_two _
  · rw [hskip, wire_rawBody]

/-- A field body: to its first octet that is no blank, or to its end. -/
theorem skipFws_field (hb : ¬ crlf <:+: b) (hls : ∀ l ∈ ls, IsHeaderLine l)
    (hrest : rest = [] ∨ crlf <+: rest) :
    (Occurrence.isBlank ⟨b, ls.takeWhile isFold⟩ = true ∧
      skipFws (b ++ crlf ++ wire ls rest) = some (crlf ++ wire (ls.dropWhile isFold) rest)) ∨
    (Occurrence.isBlank ⟨b, ls.takeWhile isFold⟩ = false ∧
      ∃ before s, rawBody b (ls.takeWhile isFold) = before ++ s ∧ s ≠ [] ∧
        (s ++ crlf ++ wire (ls.dropWhile isFold) rest).take 2 ≠ crlf ∧
        skipFws (b ++ crlf ++ wire ls rest) =
          some (s ++ crlf ++ wire (ls.dropWhile isFold) rest)) := by
  have hbody : ∀ (b : List UInt8) (folds : List (List UInt8)),
      Occurrence.isBlank ⟨b, folds⟩ = (b.all ISWHITE && folds.flatten.all ISWHITE) := by
    intro b folds
    rw [Occurrence.isBlank, Occurrence.body, List.all_append]
  induction ls generalizing b with
  | nil =>
    rcases skipFws_line hb (wire [] rest) with ⟨hall, hskip⟩ | ⟨before, s, rfl, hs, hall, hskip⟩
    · have hhead := head_wire hls hrest
      refine .inl ⟨by rw [hbody, hall]; rfl, ?_⟩
      rw [hskip, skipFws_crlf, hhead, List.head?_nil]
      rfl
    · exact .inr (skipFws_filled hb hs hall hskip)
  | cons l ls ih =>
    rcases skipFws_line hb (wire (l :: ls) rest) with
      ⟨hall, hskip⟩ | ⟨before, s, rfl, hs, hall, hskip⟩
    · have hhead := head_wire hls hrest
      rw [List.head?_cons, Option.any_some] at hhead
      rw [hskip, skipFws_crlf, hhead]
      cases hfold : isFold l with
      | false =>
        have hneg : ¬ isFold l = true := Bool.eq_false_iff.mp hfold
        refine .inl ⟨?_, ?_⟩
        · rw [hbody, hall, List.takeWhile_cons_of_neg hneg]
          rfl
        · rw [if_neg Bool.false_ne_true, List.dropWhile_cons_of_neg hneg]
      | true =>
        -- the body goes on in the next line
        have ih := ih (b := l) (hls l List.mem_cons_self).2 fun l' hl' =>
          hls l' (List.mem_cons_of_mem l hl')
        have hcons : ∀ folds,
            Occurrence.isBlank ⟨b, l :: folds⟩ = Occurrence.isBlank ⟨l, folds⟩ := by
          intro folds
          rw [hbody, hbody, hall, List.flatten_cons, List.all_append, Bool.true_and]
        rw [if_pos rfl, List.takeWhile_cons_of_pos hfold, List.dropWhile_cons_of_pos hfold,
          hcons, wire_cons, rawBody_cons]
        rcases ih with h | ⟨hblank, before, s, hraw, h⟩
        · exact .inl h
        · exact .inr ⟨hblank, b ++ crlf ++ before, s, by rw [hraw, ← List.append_assoc], h⟩
    · exact .inr (skipFws_filled hb hs hall hskip)

/-! ### The search -/

theorem wireFindheader_strip {p q : List UInt8} (hlen : ¬ p.length ≤ header.length + 3)
    (hblank : p.take 2 ≠ crlf) (hfound : isheader p header = true)
    (hskip : skipFws (p.drop (header.length + 2)) = some q) (hbody : q.take 2 ≠ crlf) :
    wireFindheader p header true = some q := by
  obtain ⟨n, hn⟩ : ∃ n, p.length = n + 1 := ⟨p.length - 1, by omega⟩
  rw [wireFindheader, hn, findheaderFrom, if_neg hlen, if_neg hblank, if_pos hfound]
  dsimp only
  rw [if_pos rfl, hskip]
  exact if_pos (.inr hbody)

theorem wireFindheader_strip_empty {p q : List UInt8} (hlen : ¬ p.length ≤ header.length + 3)
    (hblank : p.take 2 ≠ crlf) (hfound : isheader p header = true)
    (hskip : skipFws (p.drop (header.length + 2)) = some (crlf ++ q)) :
    wireFindheader p header true = wireFindheader q header true := by
  obtain ⟨n, hn⟩ : ∃ n, p.length = n + 1 := ⟨p.length - 1, by omega⟩
  have hle := length_skipFws hskip
  have hshort : ¬ (crlf ++ q).length ≤ 1 := by
    rw [List.length_append, show crlf.length = 2 from rfl]
    omega
  rw [List.length_drop] at hle
  rw [wireFindheader, hn, findheaderFrom, if_neg hlen, if_neg hblank, if_pos hfound]
  dsimp only
  rw [if_pos rfl, hskip]
  dsimp only
  rw [if_neg fun h => h.elim hshort fun hne => hne rfl, findheaderFrom_bind (by omega)]
  exact nextline_bind (l := []) (by decide) q

/-- `wire_findheader` with `stripspaces`, on lines. -/
theorem findsIn_strip (hname : IsFieldName header) (hls : ∀ l ∈ ls, IsHeaderLine l)
    (hrest : rest = [] ∨ crlf <+: rest) : FindsIn header ls rest true := by
  induction hn : ls.length using Nat.strongRecOn generalizing ls with
  | ind n ih =>
    rcases ls with _ | ⟨l, ls⟩
    · refine ⟨fun _ => ?_, fun l ls' h => by cases h⟩
      rcases hrest with rfl | ⟨m, rfl⟩
      · exact wireFindheader_short (Nat.zero_le _)
      · exact wireFindheader_blank rfl
    · have hl := hls l List.mem_cons_self
      have htail : ∀ l' ∈ ls, IsHeaderLine l' := fun l' hl' => hls l' (List.mem_cons_of_mem l hl')
      by_cases hlong : (wire (l :: ls) rest).length ≤ header.length + 3
      · -- no room for a field
        refine ⟨fun _ => wireFindheader_short hlong, fun k ls' h => ?_⟩
        obtain ⟨hhead, hle⟩ := @firstFilled_some _ _ rest _ _ h
        have := isheader_length hhead
        rw [length_wire_cons] at hle
        omega
      have hblank := hl.take_two (wire ls rest)
      have happend := isheader_append hname l (wire ls rest)
      rw [← wire_cons] at hblank happend
      cases hhead : isheader l header with
      | false =>
        refine (ih ls.length (by rw [← hn]; exact Nat.lt_succ_self _) htail rfl).skip ?_ ?_
        · rw [firstFilled, if_neg fun h => Bool.eq_false_iff.mp hhead h.1]
        · rw [wireFindheader_other hlong hblank (happend.trans hhead), wire_cons,
            nextline_bind hl.2]
      | true =>
        have hle := isheader_length hhead
        have hdrop : (wire (l :: ls) rest).drop (header.length + 2) =
            l.drop (header.length + 2) ++ crlf ++ wire ls rest := by
          rw [wire_cons, List.append_assoc, List.drop_append_of_le_length hle, List.append_assoc]
        have hb : ¬ crlf <:+: l.drop (header.length + 2) := fun h =>
          hl.2 (h.trans (List.drop_suffix _ l).isInfix)
        rcases skipFws_field hb htail hrest with ⟨hempty, hskip⟩ | ⟨hfilled, before, s, hraw, hs,
          hbody, hskip⟩
        · have hlt : (ls.dropWhile isFold).length < n := by
            have := (List.dropWhile_sublist isFold (l := ls)).length_le
            rw [← hn, List.length_cons]
            omega
          refine (ih _ hlt (fun l' hl' =>
            htail l' ((List.dropWhile_sublist isFold).subset hl')) rfl).skip ?_ ?_
          · rw [firstFilled_dropWhile hname, firstFilled, hempty,
              if_neg fun h => Bool.false_ne_true h.2.symm]
          · rw [← hdrop] at hskip
            exact wireFindheader_strip_empty hlong hblank (happend.trans hhead) hskip
        · rw [← hdrop] at hskip
          have hfirst : firstFilled header (l :: ls) = some (l, ls) := by
            rw [firstFilled, if_pos ⟨hhead, hfilled⟩]
          refine ⟨fun h => absurd (hfirst.symm.trans h) (Option.some_ne_none _), fun k ls' h => ?_⟩
          rw [hfirst] at h
          cases h
          refine ⟨_, wireFindheader_strip hlong hblank (happend.trans hhead) hskip hbody,
            l.take (header.length + 2) ++ before, s, ?_, hs, rfl⟩
          rw [rawBody_drop (header.length + 2), hraw, List.append_assoc]

end Strip

/-! ## Without `stripspaces` -/

section Plain

variable {header b l rest : List UInt8} {ls ls' : List (List UInt8)}

theorem findLine_dropWhile (hname : IsFieldName header) (ls : List (List UInt8)) :
    findLine header (ls.dropWhile isFold) = findLine header ls := by
  induction ls with
  | nil => rfl
  | cons l ls ih =>
    cases hfold : isFold l with
    | true =>
      rw [List.dropWhile_cons_of_pos hfold, ih, findLine, if_neg]
      rw [isheader_fold hname hfold]
      exact fun h => Bool.false_ne_true h.1
    | false => rw [List.dropWhile_cons_of_neg (Bool.eq_false_iff.mp hfold)]

theorem length_findLine (h : findLine header ls = some (b, ls')) :
    (b ++ crlf ++ wire ls' rest).length ≤ (wire ls rest).length := by
  induction ls with
  | nil => cases h
  | cons l ls ih =>
    rw [findLine] at h
    rw [length_wire_cons]
    split at h
    · cases h
      simp only [List.length_append, List.length_drop, show crlf.length = 2 from rfl]
      omega
    · have := ih h
      omega

theorem firstLinesTell_cons_of_neg (hhead : isheader l header = false) :
    FirstLinesTell header (l :: ls) ↔ FirstLinesTell header ls := by
  rw [FirstLinesTell, occurrences, hhead, if_neg Bool.false_ne_true, FirstLinesTell]

theorem firstLinesTell_cons_blank (hhead : isheader l header = true)
    (hblank : Occurrence.isBlank ⟨l.drop (header.length + 2), ls.takeWhile isFold⟩ = true) :
    FirstLinesTell header (l :: ls) ↔
      l.drop (header.length + 2) = [] ∧ FirstLinesTell header ls := by
  rw [FirstLinesTell, occurrences, if_pos hhead, List.takeWhile_cons_of_pos hblank,
    List.dropWhile_cons_of_pos hblank, List.forall_mem_cons, and_assoc, FirstLinesTell]

theorem firstLinesTell_cons_filled (hhead : isheader l header = true)
    (hfilled : Occurrence.isBlank ⟨l.drop (header.length + 2), ls.takeWhile isFold⟩ = false) :
    FirstLinesTell header (l :: ls) ↔ l.drop (header.length + 2) ≠ [] := by
  have hneg := Bool.eq_false_iff.mp hfilled
  rw [FirstLinesTell, occurrences, if_pos hhead, List.takeWhile_cons_of_neg hneg,
    List.dropWhile_cons_of_neg hneg]
  constructor
  · intro h
    exact h.2 _ rfl
  · intro h
    refine ⟨fun o ho => absurd ho List.not_mem_nil, fun o ho => ?_⟩
    cases ho
    exact h

/-- `wire_findheader` without `stripspaces`, on lines. -/
theorem findsIn_plain (hname : IsFieldName header) (hls : ∀ l ∈ ls, IsHeaderLine l)
    (hrest : rest = [] ∨ crlf <+: rest) :
    FindsIn header ls rest false ↔ FirstLinesTell header ls := by
  induction ls with
  | nil =>
    refine iff_of_true ⟨fun _ => ?_, fun l ls' h => by cases h⟩ ⟨fun o ho => ?_, fun o ho => ?_⟩
    · rw [wireFindheader_wire hname hls hrest]
      rfl
    · cases ho
    · cases ho
  | cons l ls ih =>
    have htail : ∀ l' ∈ ls, IsHeaderLine l' := fun l' hl' => hls l' (List.mem_cons_of_mem l hl')
    have ih := ih htail
    rw [FindsIn, wireFindheader_wire hname htail hrest] at ih
    rw [FindsIn, wireFindheader_wire hname hls hrest, findLine]
    cases hhead : isheader l header with
    | false =>
      have hnot : ∀ {p : Prop}, ¬ (false = true ∧ p) := fun h => Bool.false_ne_true h.1
      rw [firstLinesTell_cons_of_neg hhead, firstFilled, hhead, if_neg hnot, if_neg hnot]
      exact ih
    | true =>
      have hfirst : l.drop (header.length + 2) ≠ [] ↔ header.length + 2 < l.length := by
        rw [← List.length_pos_iff, List.length_drop]
        omega
      cases hblank : Occurrence.isBlank ⟨l.drop (header.length + 2), ls.takeWhile isFold⟩ with
      | true =>
        rw [firstLinesTell_cons_blank hhead hblank, firstFilled, hblank,
          if_neg fun h : isheader l header = true ∧ true = false => Bool.false_ne_true h.2.symm]
        by_cases hlen : header.length + 2 < l.length
        · -- a blank line counts as a body
          rw [if_pos ⟨rfl, hlen⟩]
          refine iff_of_false (fun h => ?_) fun h => hfirst.mpr hlen h.1
          rcases hfilled : firstFilled header ls with _ | ⟨k, ls'⟩
          · cases h.1 hfilled
          · obtain ⟨r, hr, hpoint⟩ := h.2 k ls' hfilled
            cases hr
            have hle := (@firstFilled_some _ _ rest _ _ hfilled).2
            have hpos := List.length_pos_iff.mpr (hfirst.mpr hlen)
            have := hpoint.length.2
            simp only [List.length_append] at this
            omega
        · rw [if_neg fun h => hlen h.2]
          rw [ih]
          exact (and_iff_right (not_not.mp fun h => hlen (hfirst.mp h))).symm
      | false =>
        rw [firstLinesTell_cons_filled hhead hblank, firstFilled, if_pos ⟨hhead, hblank⟩, hfirst]
        by_cases hlen : header.length + 2 < l.length
        · rw [if_pos ⟨rfl, hlen⟩]
          refine iff_of_true ⟨fun h => absurd h (Option.some_ne_none _), fun k ls' h => ?_⟩ hlen
          cases h
          refine ⟨_, rfl, l.take (header.length + 2),
            rawBody (l.drop (header.length + 2)) (ls.takeWhile isFold), rawBody_drop _ _ _, ?_, ?_⟩
          · exact fun h => hfirst.mpr hlen (List.append_eq_nil_iff.mp h).1
          · rw [← wire_rawBody]
        · -- the field is passed over, and what is found is behind it
          rw [if_neg fun h => hlen h.2]
          refine iff_of_false (fun h => ?_) hlen
          obtain ⟨r, hr, hpoint⟩ := h.2 l ls rfl
          rw [← findLine_dropWhile hname] at hr
          rcases hfind : findLine header (ls.dropWhile isFold) with _ | ⟨b, ls'⟩
          · rw [hfind] at hr
            cases hr
          · rw [hfind] at hr
            cases hr
            have hlt := hpoint.length.1
            have hle := @length_findLine _ _ rest _ _ hfind
            dsimp only at hlt
            omega

end Plain

/-! ## Both ways -/

/-- `wire_findheader` finds the first field with a body either way, just when first lines tell. -/
theorem findsFirst_iff {header : List UInt8} (hname : IsFieldName header) (a : WireArticle) :
    (FindsFirst header a true ∧ FindsFirst header a false) ↔ FirstLinesTell header a.lines := by
  rw [FindsFirst, FindsFirst, findsIn_plain hname a.lines_ok a.ends]
  exact and_iff_right (findsIn_strip hname a.lines_ok a.ends)

/-- An article with a folded header field `A`. -/
def foldedArticle (first : List UInt8) (h : IsHeaderLine (65 :: 58 :: 32 :: first)) :
    WireArticle where
  lines := [65 :: 58 :: 32 :: first, [32, 121]]
  rest := crlf
  lines_ok := List.forall_mem_cons.mpr ⟨h, by decide⟩
  ends := .inr ⟨[], rfl⟩

theorem findsFirst_filled :
    FindsFirst [65] (foldedArticle [120] (by decide)) true ∧
      FindsFirst [65] (foldedArticle [120] (by decide)) false :=
  (findsFirst_iff (by decide +kernel) _).mpr (by decide)

/-- A field whose text begins on its second line is found one way only. -/
theorem folded_field_missed :
    ¬ ∀ (header : List UInt8) (a : WireArticle), IsFieldName header →
      FindsFirst header a true ∧ FindsFirst header a false := by
  intro h
  let a := foldedArticle [] (by decide)
  have hfinds : FindsIn [65] a.lines a.rest false := (h [65] a (by decide +kernel)).2
  have htell := (findsIn_plain (by decide +kernel) a.lines_ok a.ends).mp hfinds
  exact absurd htell (by decide)

end Inn.Nnrpd
