import Mathlib.Algebra.Ring.Nat
import Mathlib.Data.List.Basic

/-!
# Inn.Libinn.Wire — articles to wire format and back

`wire_from_native` puts a CR in front of every LF, doubles a dot at the beginning of a line and
ends with a dot, CR and LF. `wire_to_native` undoes it. Both count the bytes in a first pass and
copy in a second one.

* `countExtra_eq`, `countNative_eq` — the two passes agree;
* `copy_stuffed` — every LF of the copy has its CR;
* `copy_terminator` — a line that is a lone dot is only at the end;
* `wire_round_trip` — all of it, with the way back.
-/

namespace Inn.Libinn.Wire

def SIZE_MAX : ℕ := 2 ^ 64 - 1

def DOT : UInt8 := 46
def CR : UInt8 := 13
def LF : UInt8 := 10

/-- The end of an article in wire format. -/
def terminator : List UInt8 := [DOT, CR, LF]

/-! ## The functions -/

/-- The counting pass of `wire_from_native`. -/
def countExtra : Bool → ℕ → List UInt8 → ℕ
  | _, extra, [] => extra
  | at_start, extra, p :: ps =>
    let extra := if at_start && p == DOT then extra + 1 else extra
    countExtra (p == LF) (if p == LF then extra + 1 else extra) ps

/-- The copying pass, with what follows it. -/
def copy : Bool → List UInt8 → List UInt8
  | _, [] => terminator
  | at_start, p :: ps =>
    if p == LF then CR :: LF :: copy true ps
    else if at_start && p == DOT then DOT :: p :: copy false ps
    else p :: copy false ps

/-- `wire_from_native`: the new article and what it sets `*newlen` to. -/
def wire_from_native (article : List UInt8) : Option (List UInt8 × ℕ) :=
  if SIZE_MAX - 4 < article.length then none
  else
    let extra := countExtra true 0 article
    if SIZE_MAX - 4 - article.length < extra then none
    else some (copy true article, article.length + extra + 3)

/-- The counting pass of `wire_to_native`, from `p` on. -/
def countNative : Bool → List UInt8 → ℕ
  | _, [] => 0
  | _, [_] => 1
  | at_start, p :: p' :: ps =>
    if p :: p' :: ps = terminator then 0
    else if at_start && p == DOT && p' == DOT then countNative false ps + 1
    else if p == CR && p' == LF then countNative true ps + 1
    else countNative false (p' :: ps) + 1

/-- The copying pass. -/
def copyNative : Bool → List UInt8 → List UInt8
  | _, [] => []
  | _, [p] => [p]
  | at_start, p :: p' :: ps =>
    if p :: p' :: ps = terminator then []
    else if at_start && p == DOT && p' == DOT then DOT :: copyNative false ps
    else if p == CR && p' == LF then LF :: copyNative true ps
    else p :: copyNative false (p' :: ps)

/-- `xstrndup` of a string that fits: it ends before a NUL. -/
def xstrndup (s : List UInt8) : List UInt8 := s.takeWhile (· ≠ 0)

/-- `wire_to_native`. -/
def wire_to_native (article : List UInt8) : List UInt8 × ℕ :=
  if article.length < 3 then (xstrndup article, article.length)
  else (copyNative true article, countNative true article)

/-! ## The passes agree -/

theorem copy_nil (at_start : Bool) : copy at_start [] = terminator := rfl

theorem copy_cons (at_start : Bool) (p : UInt8) (ps : List UInt8) :
    copy at_start (p :: ps) =
      if p == LF then CR :: LF :: copy true ps
      else if at_start && p == DOT then DOT :: p :: copy false ps
      else p :: copy false ps := rfl

theorem countNative_cons (at_start : Bool) (p p' : UInt8) (ps : List UInt8) :
    countNative at_start (p :: p' :: ps) =
      if p :: p' :: ps = terminator then 0
      else if at_start && p == DOT && p' == DOT then countNative false ps + 1
      else if p == CR && p' == LF then countNative true ps + 1
      else countNative false (p' :: ps) + 1 := rfl

theorem copyNative_cons (at_start : Bool) (p p' : UInt8) (ps : List UInt8) :
    copyNative at_start (p :: p' :: ps) =
      if p :: p' :: ps = terminator then []
      else if at_start && p == DOT && p' == DOT then DOT :: copyNative false ps
      else if p == CR && p' == LF then LF :: copyNative true ps
      else p :: copyNative false (p' :: ps) := rfl

theorem countExtra_eq (at_start : Bool) (extra : ℕ) (article : List UInt8) :
    article.length + countExtra at_start extra article + 3 =
      (copy at_start article).length + extra := by
  induction article generalizing at_start extra with
  | nil =>
    rw [copy_nil, List.length_nil, Nat.zero_add, Nat.add_comm]
    rfl
  | cons p ps ih =>
    rw [countExtra, copy_cons]
    by_cases hlf : p = LF
    · subst hlf
      have hdot : (at_start && LF == DOT) = false := by cases at_start <;> rfl
      have := ih true (extra + 1)
      rw [beq_self_eq_true, if_pos rfl, if_pos rfl, hdot, if_neg Bool.false_ne_true]
      simp only [List.length_cons]
      omega
    · rw [beq_eq_false_iff_ne.mpr hlf, if_neg Bool.false_ne_true, if_neg Bool.false_ne_true]
      have h₀ := ih false extra
      have h₁ := ih false (extra + 1)
      split <;> simp only [List.length_cons] <;> omega

theorem countNative_eq (at_start : Bool) (article : List UInt8) :
    countNative at_start article = (copyNative at_start article).length := by
  induction at_start, article using copyNative.induct with
  | case1 => rfl
  | case2 => rfl
  | case3 at_start p p' ps h =>
    rw [countNative_cons, copyNative_cons, if_pos h, if_pos h]
    rfl
  | case4 at_start p p' ps h h₁ ih =>
    rw [countNative_cons, copyNative_cons, if_neg h, if_neg h, if_pos h₁, if_pos h₁, ih]
    rfl
  | case5 at_start p p' ps h h₁ h₂ ih =>
    rw [countNative_cons, copyNative_cons, if_neg h, if_neg h, if_neg h₁, if_neg h₁, if_pos h₂, if_pos h₂, ih]
    rfl
  | case6 at_start p p' ps h h₁ h₂ ih =>
    rw [countNative_cons, copyNative_cons, if_neg h, if_neg h, if_neg h₁, if_neg h₁, if_neg h₂, if_neg h₂, ih]
    rfl

/-! ## One byte at a time -/

/-- A byte that is copied as it is. -/
def Plain (at_start : Bool) (p : UInt8) : Prop := p ≠ LF ∧ (at_start && p == DOT) = false

theorem copy_lf (at_start : Bool) (ps : List UInt8) :
    copy at_start (LF :: ps) = CR :: LF :: copy true ps := by
  rw [copy_cons, if_pos (beq_self_eq_true LF)]

theorem copy_dot (ps : List UInt8) : copy true (DOT :: ps) = DOT :: DOT :: copy false ps := by
  rw [copy_cons, if_neg (by decide), if_pos (by decide)]

theorem copy_plain {at_start : Bool} {p : UInt8} (h : Plain at_start p) (ps : List UInt8) :
    copy at_start (p :: ps) = p :: copy false ps := by
  rw [copy_cons, beq_eq_false_iff_ne.mpr h.1, if_neg Bool.false_ne_true, h.2,
    if_neg Bool.false_ne_true]

/-- The three kinds of bytes. -/
theorem kinds (at_start : Bool) (p : UInt8) :
    p = LF ∨ (p = DOT ∧ at_start = true) ∨ Plain at_start p := by
  by_cases hlf : p = LF
  · exact .inl hlf
  · right
    by_cases hdot : p = DOT
    · cases at_start with
      | false => exact .inr ⟨hlf, rfl⟩
      | true => exact .inl ⟨hdot, rfl⟩
    · refine .inr ⟨hlf, ?_⟩
      rw [beq_eq_false_iff_ne.mpr hdot, Bool.and_false]

theorem three_le_length_copy (at_start : Bool) (article : List UInt8) :
    3 ≤ (copy at_start article).length := by
  have := countExtra_eq at_start 0 article
  omega

/-- The copy never begins with an LF. -/
theorem copy_ne_lf (at_start : Bool) (article : List UInt8) :
    ∃ p p' ps, copy at_start article = p :: p' :: ps ∧ p ≠ LF := by
  cases article with
  | nil => exact ⟨DOT, CR, [LF], rfl, by decide⟩
  | cons p ps =>
    rcases kinds at_start p with rfl | ⟨rfl, rfl⟩ | hplain
    · exact ⟨_, _, _, copy_lf at_start ps, by decide⟩
    · exact ⟨_, _, _, copy_dot ps, by decide⟩
    · rw [copy_plain hplain]
      obtain ⟨p', rest, hcopy⟩ := List.exists_cons_of_length_pos
        (Nat.lt_of_lt_of_le (by decide) (three_le_length_copy false ps))
      exact ⟨p, p', rest, by rw [hcopy], hplain.1⟩

/-! ## What the copy is -/

/-- A place in a text behind its first byte. -/
theorem cons_eq_append {p x : UInt8} {w u v : List UInt8} (h : p :: w = u ++ x :: v) (hne : p ≠ x) :
    ∃ u', u = p :: u' ∧ w = u' ++ x :: v := by
  rcases List.cons_eq_append_iff.mp h with ⟨-, heq⟩ | ⟨u', hu, hw⟩
  · exact absurd (List.cons.inj heq).1.symm hne
  · exact ⟨u', hu, hw⟩

/-- Every LF of the copy follows a CR. -/
theorem copy_stuffed {at_start : Bool} {article u v : List UInt8}
    (h : copy at_start article = u ++ LF :: v) : ∃ u', u = u' ++ [CR] := by
  have hbehind : ∀ {p : UInt8} {u : List UInt8}, (∃ u', u = u' ++ [CR]) →
      ∃ u', p :: u = u' ++ [CR] := by
    rintro p u ⟨u', rfl⟩
    exact ⟨p :: u', rfl⟩
  have hcrlf : ∀ {w : List UInt8} {u : List UInt8}, CR :: LF :: w = u ++ LF :: v →
      u = [CR] ∨ ∃ u', u = CR :: LF :: u' ∧ w = u' ++ LF :: v := by
    intro w u heq
    obtain ⟨u₁, rfl, heq₁⟩ := cons_eq_append heq (by decide)
    rcases List.cons_eq_append_iff.mp heq₁ with ⟨rfl, -⟩ | ⟨u', rfl, hw⟩
    · exact .inl rfl
    · exact .inr ⟨u', rfl, hw⟩
  induction article generalizing at_start u with
  | nil =>
    obtain ⟨u₁, rfl, h₁⟩ := cons_eq_append h (by decide)
    rcases hcrlf h₁ with rfl | ⟨u', -, hw⟩
    · exact ⟨[DOT], rfl⟩
    · exact absurd hw.symm (List.append_ne_nil_of_right_ne_nil _ (List.cons_ne_nil _ _))
  | cons p ps ih =>
    rcases kinds at_start p with rfl | ⟨rfl, rfl⟩ | hplain
    · rw [copy_lf] at h
      rcases hcrlf h with rfl | ⟨u', rfl, hw⟩
      · exact ⟨[], rfl⟩
      · exact hbehind (hbehind (ih hw))
    · rw [copy_dot] at h
      obtain ⟨u₁, rfl, h₁⟩ := cons_eq_append h (by decide)
      obtain ⟨u₂, rfl, h₂⟩ := cons_eq_append h₁ (by decide)
      exact hbehind (hbehind (ih h₂))
    · rw [copy_plain hplain] at h
      obtain ⟨u₁, rfl, h₁⟩ := cons_eq_append h hplain.1
      exact hbehind (ih h₁)

/-- And this CR is one that was inserted: there is one more CR for each LF, and no LF more, if
the terminator is left aside. -/
theorem count_copy (at_start : Bool) (article : List UInt8) :
    (copy at_start article).count LF = article.count LF + 1 ∧
      (copy at_start article).count CR = article.count CR + (copy at_start article).count LF := by
  have hcr : CR ≠ LF := by decide
  have hdot : DOT ≠ LF := by decide
  have hdot' : DOT ≠ CR := by decide
  induction article generalizing at_start with
  | nil =>
    rw [copy_nil]
    exact ⟨by decide, by decide⟩
  | cons p ps ih =>
    rcases kinds at_start p with rfl | ⟨rfl, rfl⟩ | hplain
    · obtain ⟨h₁, h₂⟩ := ih true
      rw [copy_lf]
      simp only [List.count_cons_self, List.count_cons_of_ne hcr, List.count_cons_of_ne hcr.symm]
      omega
    · obtain ⟨h₁, h₂⟩ := ih false
      rw [copy_dot]
      simp only [List.count_cons_of_ne hdot, List.count_cons_of_ne hdot']
      exact ⟨h₁, h₂⟩
    · obtain ⟨h₁, h₂⟩ := ih false
      rw [copy_plain hplain, List.count_cons_of_ne hplain.1, List.count_cons_of_ne hplain.1,
        List.count_cons, List.count_cons]
      omega

/-- The beginning of a line. -/
def LineStart (at_start : Bool) (u : List UInt8) : Prop :=
  (u = [] ∧ at_start = true) ∨ u.getLast? = some LF

theorem LineStart.tail {at_start : Bool} {p : UInt8} {u : List UInt8}
    (h : LineStart at_start (p :: u)) (at_start' : Bool) (hp : p = LF → at_start' = true) : LineStart at_start' u := by
  rcases h with ⟨hnil, -⟩ | hlast
  · cases hnil
  · cases u with
    | nil =>
      rw [List.getLast?_singleton] at hlast
      exact .inl ⟨rfl, hp (Option.some.inj hlast)⟩
    | cons p' u =>
      rw [List.getLast?_cons_cons] at hlast
      exact .inr hlast

/-- A line that is a lone dot is only at the end of the copy, behind a complete line. -/
theorem copy_terminator {at_start : Bool} {article u v : List UInt8}
    (h : copy at_start article = u ++ DOT :: CR :: LF :: v) (hu : LineStart at_start u) :
    v = [] ∧ ((article = [] ∧ u = []) ∨ article.getLast? = some LF) := by
  have hlast : ∀ {p : UInt8} {ps : List UInt8}, ps.getLast? = some LF →
      (p :: ps).getLast? = some LF := by
    intro p ps hps
    rw [List.getLast?_cons, hps, Option.getD_some]
  induction article generalizing at_start u with
  | nil =>
    have hlen := congrArg List.length h
    rw [List.length_append] at hlen
    simp only [copy_nil, terminator, List.length_cons, List.length_nil] at hlen
    exact ⟨List.length_eq_zero_iff.mp (by omega), .inl ⟨rfl, List.length_eq_zero_iff.mp (by omega)⟩⟩
  | cons p ps ih =>
    rcases kinds at_start p with rfl | ⟨rfl, rfl⟩ | hplain
    · rw [copy_lf] at h
      obtain ⟨u₁, rfl, h₁⟩ := cons_eq_append h (by decide)
      obtain ⟨u₂, rfl, h₂⟩ := cons_eq_append h₁ (by decide)
      have hu₂ := (hu.tail true fun _ => rfl).tail true fun _ => rfl
      obtain ⟨hv, ⟨rfl, -⟩ | hps⟩ := ih h₂ hu₂
      · exact ⟨hv, .inr rfl⟩
      · exact ⟨hv, .inr (hlast hps)⟩
    · rw [copy_dot] at h
      cases u with
      | nil => cases h
      | cons q u =>
        obtain ⟨rfl, h₁⟩ := List.cons.inj h
        have hu₁ := hu.tail false fun heq => absurd heq (by decide)
        cases u with
        | nil => rcases hu₁ with ⟨-, hf⟩ | hf <;> cases hf
        | cons q u =>
          obtain ⟨rfl, h₂⟩ := List.cons.inj h₁
          have hu₂ := hu₁.tail false fun heq => absurd heq (by decide)
          obtain ⟨hv, ⟨-, rfl⟩ | hps⟩ := ih h₂ hu₂
          · rcases hu₂ with ⟨-, hf⟩ | hf <;> cases hf
          · exact ⟨hv, .inr (hlast hps)⟩
    · rw [copy_plain hplain] at h
      cases u with
      | nil =>
        -- a dot that is not doubled does not begin a line
        obtain ⟨rfl, -⟩ := List.cons.inj h
        rcases hu with ⟨-, rfl⟩ | hf
        · exact absurd hplain.2 (by decide)
        · cases hf
      | cons q u =>
        obtain ⟨rfl, h₁⟩ := List.cons.inj h
        have hu₁ := hu.tail false fun heq => absurd heq hplain.1
        obtain ⟨hv, ⟨-, rfl⟩ | hps⟩ := ih h₁ hu₁
        · rcases hu₁ with ⟨-, hf⟩ | hf <;> cases hf
        · exact ⟨hv, .inr (hlast hps)⟩

theorem LineStart.cons {at_start' : Bool} {p : UInt8} {u : List UInt8}
    (h : LineStart at_start' u) (at_start : Bool) (hp : at_start' = true → p = LF) : LineStart at_start (p :: u) := by
  rcases h with ⟨rfl, hs⟩ | hlast
  · exact .inr (congrArg some (hp hs))
  · right
    rw [List.getLast?_cons, hlast, Option.getD_some]

/-- The terminator is a line of its own behind a text that ends with a complete line. -/
theorem copy_ends (at_start : Bool) (article : List UInt8) :
    ∃ u, copy at_start article = u ++ terminator ∧
      (LineStart at_start article → LineStart at_start u) := by
  induction article generalizing at_start with
  | nil => exact ⟨[], rfl, id⟩
  | cons p ps ih =>
    rcases kinds at_start p with rfl | ⟨rfl, rfl⟩ | hplain
    · obtain ⟨u, hu, hline⟩ := ih true
      refine ⟨CR :: LF :: u, by rw [copy_lf, hu]; rfl, fun h => ?_⟩
      have hstart := hline (h.tail _ fun _ => rfl)
      exact (hstart.cons false fun _ => rfl).cons _ fun hf => by cases hf
    · obtain ⟨u, hu, hline⟩ := ih false
      refine ⟨DOT :: DOT :: u, by rw [copy_dot, hu]; rfl, fun h => ?_⟩
      have hstart := hline (h.tail _ fun heq => absurd heq (by decide))
      exact (hstart.cons false fun hf => by cases hf).cons _ fun hf => by cases hf
    · obtain ⟨u, hu, hline⟩ := ih false
      refine ⟨p :: u, by rw [copy_plain hplain, hu]; rfl, fun h => ?_⟩
      have hstart := hline (h.tail _ fun heq => absurd heq hplain.1)
      exact hstart.cons _ fun hf => by cases hf

/-! ## The way back -/

theorem copyNative_copy (at_start : Bool) (article : List UInt8) :
    copyNative at_start (copy at_start article) = article := by
  induction article generalizing at_start with
  | nil =>
    rw [copy_nil, terminator, copyNative_cons]
    exact if_pos rfl
  | cons p ps ih =>
    rcases kinds at_start p with rfl | ⟨rfl, rfl⟩ | hplain
    · rw [copy_lf, copyNative_cons, if_neg (fun h => by cases (List.cons.inj h).1),
        if_neg (by cases at_start <;> decide), if_pos (by decide), ih]
    · rw [copy_dot, copyNative_cons, if_neg (fun h => by cases (List.cons.inj (List.cons.inj h).2).1),
        if_pos (by decide), ih]
    · obtain ⟨p', p'', rest, hcopy, hne⟩ := copy_ne_lf false ps
      have hlen := three_le_length_copy false ps
      have hend : p :: p' :: p'' :: rest ≠ terminator := by
        intro h
        have := congrArg List.length h
        rw [hcopy] at hlen
        simp only [terminator, List.length_cons, List.length_nil] at this hlen
        omega
      rw [copy_plain hplain, hcopy, copyNative_cons, if_neg hend, hplain.2, Bool.false_and,
        if_neg Bool.false_ne_true, beq_eq_false_iff_ne.mpr hne, Bool.and_false,
        if_neg Bool.false_ne_true, ← hcopy, ih]

/-- An article and its wire format: the bytes are those that were counted, every LF has the CR
that was inserted for it, a line that is a lone dot is only at the end, and there just if the
article is empty or ends with LF, and the way back and forth gives what there was. -/
structure Converted (article wire : List UInt8) (newlen : ℕ) : Prop where
  counted : wire.length = newlen
  stuffed : ∀ u v, wire = u ++ LF :: v → ∃ u', u = u' ++ [CR]
  inserted : wire.count CR = article.count CR + wire.count LF
  terminated : ∀ u v, wire = u ++ terminator ++ v → u = [] ∨ u.getLast? = some LF →
    v = [] ∧ (article = [] ∨ article.getLast? = some LF)
  ended : article = [] ∨ article.getLast? = some LF →
    ∃ u, wire = u ++ terminator ∧ (u = [] ∨ u.getLast? = some LF)
  native : wire_to_native wire = (article, article.length)
  again : wire_from_native (wire_to_native wire).1 = some (wire, newlen)

/-- The round trip through wire format. -/
theorem wire_round_trip (article : List UInt8)
    (h : article.length + countExtra true 0 article ≤ SIZE_MAX - 4) :
    ∃ wire newlen, wire_from_native article = some (wire, newlen) ∧
      Converted article wire newlen := by
  have hfrom : wire_from_native article =
      some (copy true article, article.length + countExtra true 0 article + 3) := by
    rw [wire_from_native, if_neg (by omega)]
    exact if_neg (by omega)
  have hlen := countExtra_eq true 0 article
  have hnative : wire_to_native (copy true article) = (article, article.length) := by
    have hthree := three_le_length_copy true article
    rw [wire_to_native, if_neg (by omega), countNative_eq, copyNative_copy]
  refine ⟨_, _, hfrom, ?_⟩
  exact {
    counted := by omega
    stuffed := fun u v heq => copy_stuffed heq
    inserted := (count_copy true article).2
    terminated := by
      intro u v heq hu
      rw [List.append_assoc] at heq
      obtain ⟨hv, ⟨hnil, -⟩ | hlast⟩ := copy_terminator heq (hu.imp_left fun hnil => ⟨hnil, rfl⟩)
      · exact ⟨hv, .inl hnil⟩
      · exact ⟨hv, .inr hlast⟩
    ended := by
      intro ha
      obtain ⟨u, hu, hline⟩ := copy_ends true article
      exact ⟨u, hu, (hline (ha.imp_left fun hnil => ⟨hnil, rfl⟩)).imp_left And.left⟩
    native := hnative
    again := by rw [hnative, hfrom] }

/-- Two lines, the first with a dot in front, the second not ended. -/
theorem wire_round_trip_dots :
    ∃ wire newlen, wire_from_native [46, 97, 10, 46] = some (wire, newlen) ∧
      Converted [46, 97, 10, 46] wire newlen :=
  wire_round_trip [46, 97, 10, 46] (by decide)

end Inn.Libinn.Wire
