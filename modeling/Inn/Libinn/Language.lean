import Inn.Glob
import Inn.Libinn.Letters

/-!
# Inn.Libinn.Language — the language of a wildmat pattern

For texts and patterns in UTF-8, `uwildmat_simple` matches letters, though it walks over bytes.

* `items` — what a pattern says about the letters of a text;
* `match_class_spec` — a class has the letters of its members and ranges;
* `match_pattern_eq_run` — the code gives the answers of the matcher for letters
  (`Inn.Glob.run`): the search for the next literal byte behind a star skips no match;
* `uwildmat_simple_iff` — so it finds every match and nothing else;
* `overlong_letter_differs` — a letter of a pattern is compared byte by byte, so that another
  encoding of its code point does not match it.
-/

namespace Inn.Libinn.Uwildmat

open Inn.Glob (Item Answer Matches run scan)

/-! ## The meaning of a pattern -/

/-- The ranges of a class; a single letter is a range, too, and a letter in front of a range
is a single one as well. -/
def members : List (List UInt8) → List (ℕ × ℕ)
  | x :: dash :: y :: body =>
    if dash = [45] then
      (utf8_decode x, utf8_decode x) :: (utf8_decode x, utf8_decode y) :: members body
    else (utf8_decode x, utf8_decode x) :: members (dash :: y :: body)
  | x :: body => (utf8_decode x, utf8_decode x) :: members body
  | [] => []

/-- Whether a code point is in one of the ranges. -/
def inRanges (ranges : List (ℕ × ℕ)) (n : ℕ) : Bool :=
  ranges.any fun r => decide (r.1 ≤ n) && decide (n ≤ r.2)

/-- The letters of a class and the rest of the pattern; the first letter does not end it. -/
def classBody : List (List UInt8) → Option (List (List UInt8) × List (List UInt8))
  | [] => none
  | x :: more =>
    if [93] ∈ more then some (x :: more.takeWhile (· ≠ [93]), (more.dropWhile (· ≠ [93])).tail)
    else none

/-- A class behind its `[`, with whether it begins with a caret. -/
def classOf (p : List (List UInt8)) : Option (Bool × List (List UInt8) × List (List UInt8)) :=
  if p.head? = some [94] then (classBody p.tail).map fun r => (true, r)
  else (classBody p).map fun r => (false, r)

theorem classBody_length {p cls rest : List (List UInt8)} (h : classBody p = some (cls, rest)) :
    rest.length ≤ p.length := by
  cases p with
  | nil => cases h
  | cons x more =>
    rw [classBody] at h
    split at h
    · cases h
      have := (List.dropWhile_sublist (l := more) (· ≠ [93])).length_le
      rw [List.length_tail, List.length_cons]
      omega
    · cases h

theorem classOf_length {p cls rest : List (List UInt8)} {neg : Bool}
    (h : classOf p = some (neg, cls, rest)) : rest.length ≤ p.length := by
  unfold classOf at h
  split at h
  · obtain ⟨r, hr, heq⟩ := Option.map_eq_some_iff.mp h
    cases heq
    refine (classBody_length hr).trans ?_
    rw [List.length_tail]
    exact Nat.sub_le _ _
  · obtain ⟨r, hr, heq⟩ := Option.map_eq_some_iff.mp h
    cases heq
    exact classBody_length hr

/-- The items of a pattern, where `same` says which letters of a text a letter of the pattern
stands for. -/
def items (same : List UInt8 → List UInt8 → Bool) : List (List UInt8) → List (Item (List UInt8))
  | [] => []
  | c :: p =>
    if c = [92] then
      match p with
      | [] => [.bad]
      | x :: p => .one (same x) :: items same p
    else if c = [63] then .one (fun _ => true) :: items same p
    else if c = [42] then .star :: items same p
    else if c = [91] then
      match _hp : classOf p with
      | none => [.bad]
      | some (neg, cls, rest) =>
        .one (fun t => inRanges (members cls) (utf8_decode t) != neg) :: items same rest
    else .one (same c) :: items same p
termination_by p => p.length
decreasing_by
  · simp only [List.length_cons]
    omega
  · exact Nat.lt_succ_self _
  · exact Nat.lt_succ_self _
  · exact Nat.lt_succ_of_le (classOf_length _hp)
  · exact Nat.lt_succ_self _

/-- The items for letters that stand for themselves. -/
abbrev own : List (List UInt8) → List (Item (List UInt8)) := items fun x t => t == x

section Items

variable {same : List UInt8 → List UInt8 → Bool} {p : List (List UInt8)}

theorem items_nil : items same [] = [] := by
  rw [items]

theorem items_end : items same [[92]] = [.bad] := by
  rw [items.eq_def]
  dsimp only
  rw [if_pos rfl]

theorem items_escape {x : List UInt8} :
    items same ([92] :: x :: p) = .one (same x) :: items same p := by
  rw [items.eq_def]
  dsimp only
  rw [if_pos rfl]

theorem items_any : items same ([63] :: p) = .one (fun _ => true) :: items same p := by
  rw [items.eq_def]
  dsimp only
  rw [if_neg (by decide), if_pos rfl]

theorem items_star : items same ([42] :: p) = .star :: items same p := by
  rw [items.eq_def]
  dsimp only
  rw [if_neg (by decide), if_neg (by decide), if_pos rfl]

theorem items_open (h : classOf p = none) : items same ([91] :: p) = [.bad] := by
  rw [items.eq_def]
  dsimp only
  rw [if_neg (by decide), if_neg (by decide), if_neg (by decide), if_pos rfl]
  split
  · rfl
  · rename_i heq
    rw [h] at heq
    cases heq

theorem items_class {neg : Bool} {cls rest : List (List UInt8)}
    (h : classOf p = some (neg, cls, rest)) : items same ([91] :: p) =
      .one (fun t => inRanges (members cls) (utf8_decode t) != neg) :: items same rest := by
  rw [items.eq_def]
  dsimp only
  rw [if_neg (by decide), if_neg (by decide), if_neg (by decide), if_pos rfl]
  split
  · rename_i heq
    rw [h] at heq
    cases heq
  · rename_i heq
    rw [h] at heq
    cases heq
    rfl

theorem items_letter {c : List UInt8} (h₁ : c ≠ [92]) (h₂ : c ≠ [63]) (h₃ : c ≠ [42])
    (h₄ : c ≠ [91]) : items same (c :: p) = .one (same c) :: items same p := by
  rw [items.eq_def]
  dsimp only
  rw [if_neg h₁, if_neg h₂, if_neg h₃, if_neg h₄]

end Items

/-! ## Classes -/

section Classes

variable {n : ℕ}

/-- The ranges of what is left of a class behind a letter. -/
def after (x : ℕ) : List (List UInt8) → List (ℕ × ℕ)
  | dash :: y :: body =>
    if dash = [45] then (x, utf8_decode y) :: members body else members (dash :: y :: body)
  | body => members body

theorem members_cons (x : List UInt8) (body : List (List UInt8)) :
    members (x :: body) = (utf8_decode x, utf8_decode x) :: after (utf8_decode x) body := by
  cases body with
  | nil => rfl
  | cons dash body =>
    cases body with
    | nil => rfl
    | cons y body =>
      rw [members, after]
      split <;> rfl

theorem inRanges_cons (r : ℕ × ℕ) (ranges : List (ℕ × ℕ)) :
    inRanges (r :: ranges) n = (decide (r.1 ≤ n) && decide (n ≤ r.2) || inRanges ranges n) := rfl

theorem single (x : ℕ) : (decide (x ≤ n) && decide (n ≤ x)) = (n == x) := by
  rw [Bool.eq_iff_iff, Bool.and_eq_true, decide_eq_true_iff, decide_eq_true_iff, beq_iff_eq]
  omega

/-- A letter in front of other bytes is decoded, and then skipped. -/
theorem letter_cons {l : List UInt8} (h : IsLetter l) (s : List UInt8) :
    ∃ c s', l ++ s = c :: s' ∧ (leading c ≠ 0 ∨ l = [c]) ∧ utf8_decode (c :: s') = utf8_decode l ∧
      (c :: s').drop (utf8_length (c :: s')) = s := by
  have hlen := utf8_length_letter h s
  have hdec := decode_letter h s
  cases l with
  | nil => exact h.elim
  | cons c l =>
    rw [List.cons_append] at hlen hdec
    refine ⟨c, l ++ s, rfl, ?_, hdec, ?_⟩
    · rcases h.length with ⟨-, rfl⟩ | ⟨h2, -⟩
      · exact .inr rfl
      · exact .inl (by omega)
    · rw [hlen, ← List.cons_append, List.drop_left]

/-- A letter that is not the dash of a range. -/
theorem classLoop_letter {l : List UInt8} (h : IsLetter l) {s : List UInt8} {first : Option ℕ}
    (hnot : first = none ∨ l ≠ [45] ∨ s = []) :
    classLoop n first (l ++ s) =
      (n == utf8_decode l || classLoop n (some (utf8_decode l)) s) := by
  obtain ⟨c, s', hl, hascii, hdec, hdrop⟩ := letter_cons h s
  rw [hl, classLoop.eq_3, hdec, hdrop]
  rintro x b s'' hfirst rfl rfl
  rcases hascii with hlead | rfl
  · exact hlead (by decide)
  · rcases hnot with hnot | hnot | rfl
    · rw [hfirst] at hnot
      cases hnot
    · exact hnot rfl
    · cases hl

/-- A range. -/
theorem classLoop_range {y : List UInt8} (h : IsLetter y) (s : List UInt8) (x : ℕ) :
    classLoop n (some x) (45 :: (y ++ s)) =
      (decide (x ≤ n) && decide (n ≤ utf8_decode y) || classLoop n none s) := by
  obtain ⟨c, s', hl, -, hdec, hdrop⟩ := letter_cons h s
  rw [hl, classLoop.eq_2, hdec, hdrop]

/-- The loop of `match_class`. -/
theorem classLoop_spec {body : List (List UInt8)} (h : ∀ l ∈ body, IsLetter l) :
    classLoop n none body.flatten = inRanges (members body) n ∧
      ∀ x, classLoop n (some x) body.flatten = inRanges (after x body) n := by
  induction hlen : body.length using Nat.strong_induction_on generalizing body with
  | _ len ih =>
    subst hlen
    cases body with
    | nil =>
      rw [List.flatten_nil]
      refine ⟨?_, fun x => ?_⟩
      · rw [classLoop]
        rfl
      · rw [classLoop]
        rfl
    | cons l body =>
      have hl := h l List.mem_cons_self
      have hbody : ∀ l ∈ body, IsLetter l := fun l hl => h l (List.mem_cons_of_mem _ hl)
      have hletter : ∀ first, (first = none ∨ l ≠ [45] ∨ body.flatten = []) →
          classLoop n first (l ++ body.flatten) = inRanges (members (l :: body)) n := by
        intro first hnot
        rw [classLoop_letter hl hnot, (ih _ (Nat.lt_succ_self _) hbody rfl).2, members_cons,
          inRanges_cons, single]
      rw [List.flatten_cons]
      refine ⟨hletter none (.inl rfl), fun x => ?_⟩
      cases body with
      | nil => exact hletter (some x) (.inr (.inr rfl))
      | cons y rest =>
        rw [after]
        by_cases hdash : l = [45]
        · subst hdash
          have hrest : ∀ l ∈ rest, IsLetter l := fun l hl => hbody l (List.mem_cons_of_mem _ hl)
          have hlt : rest.length < ([45] :: y :: rest).length := by
            rw [List.length_cons, List.length_cons]
            omega
          rw [if_pos rfl, inRanges_cons, ← (ih _ hlt hrest rfl).1]
          exact classLoop_range (hbody y List.mem_cons_self) _ x
        · rw [if_neg hdash]
          exact hletter (some x) (.inr (.inl hdash))

theorem byte_of_letter {l : List UInt8} (h : IsLetter l) {c : UInt8} (hc : leading c = 0)
    (s : List UInt8) : (l ++ s).head? = some c ↔ l = [c] := by
  cases l with
  | nil => exact h.elim
  | cons b l =>
    rw [List.cons_append, List.head?_cons]
    constructor
    · rintro ⟨⟩
      rw [h.ascii hc]
    · rintro ⟨⟩
      rfl

/-- `match_class`: the caret and the members. -/
theorem match_class_spec {cls : List (List UInt8)} (h : ∀ l ∈ cls, IsLetter l) (neg : Bool)
    (hcaret : neg = false → cls.head? ≠ some [94]) :
    match_class n ((if neg then [94] else []) ++ cls.flatten) =
      (inRanges (members cls) n != neg) := by
  rw [match_class]
  cases neg with
  | true =>
    rw [if_pos (by rfl), ← (classLoop_spec h).1, Bool.bne_true]
    rfl
  | false =>
    have hhead : (([] : List UInt8) ++ cls.flatten).head? ≠ some 94 := by
      cases cls with
      | nil => exact fun heq => by cases heq
      | cons l cls =>
        rw [List.nil_append, List.flatten_cons, Ne,
          byte_of_letter (h l List.mem_cons_self) (by decide)]
        exact fun heq => hcaret rfl (by rw [heq]; rfl)
    rw [if_neg Bool.false_ne_true, if_neg hhead, List.nil_append, (classLoop_spec h).1,
      Bool.bne_false]

/-! ### The end of a class -/

theorem tail_ne {b c : UInt8} (hb : isTail b = true) (hc : leading c = 0) : b ≠ c := by
  rintro rfl
  rw [isTail_iff] at hb
  omega

theorem not_bracket {l : List UInt8} (h : IsLetter l) (hne : l ≠ [93]) :
    ∀ b ∈ l, decide (b ≠ 93) = true := by
  intro b hb
  rw [decide_eq_true_iff]
  cases l with
  | nil => cases hb
  | cons c l =>
    rcases List.mem_cons.mp hb with rfl | hb
    · rintro rfl
      exact hne (by rw [h.ascii (by decide)])
    · exact tail_ne (h.tail hb) (by decide)

/-- The brackets of a string of letters are its letters `]`. -/
theorem flatten_split {s : List (List UInt8)} (h : ∀ l ∈ s, IsLetter l) :
    (93 ∈ s.flatten ↔ [93] ∈ s) ∧
      s.flatten.takeWhile (· ≠ 93) = (s.takeWhile (· ≠ [93])).flatten ∧
      (s.flatten.dropWhile (· ≠ 93)).tail = (s.dropWhile (· ≠ [93])).tail.flatten := by
  induction s with
  | nil => exact ⟨⟨fun h => (by cases h), fun h => (by cases h)⟩, rfl, rfl⟩
  | cons l s ih =>
    obtain ⟨hmem, htake, hdrop⟩ := ih fun l hl => h l (List.mem_cons_of_mem _ hl)
    by_cases hl : l = [93]
    · subst hl
      exact ⟨⟨fun _ => List.mem_cons_self, fun _ => List.mem_cons_self⟩, rfl, rfl⟩
    · have hb := not_bracket (h l List.mem_cons_self) hl
      have hnot : 93 ∉ l := fun hin => of_decide_eq_true (hb 93 hin) rfl
      have hne : decide (l ≠ [93]) = true := decide_eq_true hl
      rw [List.flatten_cons, List.mem_append, List.mem_cons, hmem, List.takeWhile_append_of_pos hb,
        List.dropWhile_append_of_pos hb, List.takeWhile_cons, List.dropWhile_cons, if_pos hne,
        if_pos hne, htake, hdrop]
      exact ⟨⟨fun hin => hin.elim (fun hin => absurd hin hnot) .inr,
        fun hin => hin.elim (fun heq => absurd heq.symm hl) .inr⟩, rfl, rfl⟩

/-- The body of a class in bytes: its first byte does not end it. -/
theorem classBody_spec {p : List (List UInt8)} (h : ∀ l ∈ p, IsLetter l) :
    (if 93 ∈ p.flatten.drop 1 then
        some (p.flatten.take 1 ++ (p.flatten.drop 1).takeWhile (· ≠ 93),
          ((p.flatten.drop 1).dropWhile (· ≠ 93)).tail)
      else none) = (classBody p).map fun r => (r.1.flatten, r.2.flatten) := by
  cases p with
  | nil => rfl
  | cons x more =>
    obtain ⟨hmem, htake, hdrop⟩ := flatten_split fun l hl => h l (List.mem_cons_of_mem _ hl)
    have hx := h x List.mem_cons_self
    cases x with
    | nil => exact hx.elim
    | cons c x =>
      have hb : ∀ b ∈ x, decide (b ≠ 93) = true := fun b hb =>
        decide_eq_true (tail_ne (hx.tail hb) (by decide))
      have hnot : 93 ∉ x := fun hin => of_decide_eq_true (hb 93 hin) rfl
      have hin : 93 ∈ x ++ more.flatten ↔ [93] ∈ more := by
        rw [List.mem_append, or_iff_right hnot, hmem]
      rw [List.flatten_cons, List.cons_append, List.drop_one, List.tail_cons,
        List.takeWhile_append_of_pos hb, List.dropWhile_append_of_pos hb, htake, hdrop, classBody]
      by_cases hmore : [93] ∈ more
      · rw [if_pos hmore, if_pos (hin.mpr hmore)]
        rfl
      · rw [if_neg hmore, if_neg (hin.not.mpr hmore)]
        rfl

theorem classBody_mem {p cls rest : List (List UInt8)} (h : classBody p = some (cls, rest)) :
    (∀ l ∈ cls, l ∈ p) ∧ (∀ l ∈ rest, l ∈ p) ∧ cls.head? = p.head? := by
  cases p with
  | nil => cases h
  | cons x more =>
    rw [classBody] at h
    split at h
    · cases h
      refine ⟨fun l hl => ?_, fun l hl => ?_, rfl⟩
      · exact (List.mem_cons.mp hl).elim (fun heq => heq ▸ List.mem_cons_self)
          fun hl => List.mem_cons_of_mem _ ((List.takeWhile_sublist _).subset hl)
      · exact List.mem_cons_of_mem _ ((List.dropWhile_sublist _).subset (List.mem_of_mem_tail hl))
    · cases h

/-- A class has letters of the pattern, and no caret in front unless it is a negated one. -/
theorem classOf_mem {p cls rest : List (List UInt8)} {neg : Bool}
    (h : classOf p = some (neg, cls, rest)) :
    (∀ l ∈ cls, l ∈ p) ∧ (∀ l ∈ rest, l ∈ p) ∧ (neg = false → cls.head? ≠ some [94]) := by
  unfold classOf at h
  split at h
  · obtain ⟨r, hr, heq⟩ := Option.map_eq_some_iff.mp h
    cases heq
    obtain ⟨hcls, hrest, -⟩ := classBody_mem hr
    exact ⟨fun l hl => List.mem_of_mem_tail (hcls l hl),
      fun l hl => List.mem_of_mem_tail (hrest l hl), fun h => by cases h⟩
  · rename_i hcaret
    obtain ⟨r, hr, heq⟩ := Option.map_eq_some_iff.mp h
    cases heq
    obtain ⟨hcls, hrest, hhead⟩ := classBody_mem hr
    exact ⟨hcls, hrest, fun _ => hhead ▸ hcaret⟩

/-- The end of a class in bytes. -/
theorem classEnd_spec {p : List (List UInt8)} (h : ∀ l ∈ p, IsLetter l) :
    classEnd p.flatten = (classOf p).map fun r =>
      ((if r.1 then [94] else []) ++ r.2.1.flatten, r.2.2.flatten) := by
  have hhead : p.flatten.head? = some 94 ↔ p.head? = some [94] := by
    cases p with
    | nil => exact ⟨fun h => (by cases h), fun h => (by cases h)⟩
    | cons l p =>
      rw [List.flatten_cons, byte_of_letter (h l List.mem_cons_self) (by decide), List.head?_cons,
        Option.some.injEq]
  rw [classEnd, classOf]
  by_cases hcaret : p.head? = some [94]
  · cases p with
    | nil => cases hcaret
    | cons l p =>
      obtain rfl := Option.some.inj hcaret
      have hbody := classBody_spec fun l hl => h l (List.mem_cons_of_mem _ hl)
      rw [if_pos (hhead.mpr hcaret), if_pos hcaret, List.tail_cons, Option.map_map]
      refine Eq.trans ?_ (congrArg (Option.map fun r => (94 :: r.1, r.2)) hbody) |>.trans ?_
      · rw [apply_ite (Option.map _)]
        rfl
      · rw [Option.map_map]
        rfl
  · rw [if_neg (hhead.not.mpr hcaret), if_neg hcaret, Option.map_map]
    exact classBody_spec h

end Classes

/-! ## Letters and bytes -/

/-- The answer of the matcher for letters, as the code returns it. -/
def toMatched : Answer → Matched
  | .yes => .true
  | .no => .false
  | .abort => .ABORT

section Refinement

variable {t p : List (List UInt8)} {s q : List UInt8}

theorem literal_of_leading {c : UInt8} (h : leading c ≠ 0) : literal c := by
  refine ⟨?_, ?_, ?_, ?_⟩ <;>
  · rintro rfl
    exact h (by decide)

/-- The bytes behind the first one stand for themselves. -/
theorem match_tails {u v : List UInt8} (hlen : u.length = v.length)
    (hv : ∀ b ∈ v, isTail b = true) :
    match_pattern 0 (u ++ s) (v ++ q) = if u = v then match_pattern 0 s q else .false := by
  induction v generalizing u with
  | nil =>
    rw [List.length_eq_zero_iff.mp hlen, if_pos rfl]
    rfl
  | cons c v ih =>
    obtain ⟨b, u, rfl⟩ := List.exists_cons_of_length_eq_add_one hlen
    have hc : literal c := by
      have := (isTail_iff c).mp (hv c List.mem_cons_self)
      exact literal_of_leading (by omega)
    rw [List.cons_append, List.cons_append, match_literal (List.cons_ne_nil _ _) hc,
      List.head?_cons, List.tail_cons,
      ih (Nat.succ.inj hlen) fun b hb => hv b (List.mem_cons_of_mem _ hb)]
    by_cases hb : b = c
    · rw [if_pos (congrArg some hb), hb]
      by_cases hu : u = v
      · rw [if_pos hu, if_pos (by rw [hu])]
      · rw [if_neg hu, if_neg fun h => hu (List.cons.inj h).2]
    · rw [if_neg fun h => hb (Option.some.inj h), if_neg fun h => hb (List.cons.inj h).1]

/-- A letter of the pattern that stands for itself: first bytes that are the same tell the same
length. -/
theorem match_letter {c : UInt8} {x d : List UInt8} (hx : IsLetter (c :: x)) (hd : IsLetter d) :
    (if (d ++ s).head? = some c then match_pattern 0 (d ++ s).tail (x ++ q) else .false) =
      if d = c :: x then match_pattern 0 s q else .false := by
  cases d with
  | nil => exact hd.elim
  | cons b d =>
    rw [List.cons_append, List.head?_cons, List.tail_cons]
    by_cases hb : b = c
    · subst hb
      have hlen : d.length = x.length := by
        rcases hd.length with ⟨h0, rfl⟩ | ⟨h2, -, h⟩ <;>
          rcases hx.length with ⟨h0', rfl⟩ | ⟨h2', -, h'⟩
        · rfl
        · omega
        · omega
        · omega
      rw [if_pos rfl, match_tails hlen fun b hb => hx.tail hb]
      by_cases hdx : d = x
      · rw [if_pos hdx, if_pos (by rw [hdx])]
      · rw [if_neg hdx, if_neg fun h => hdx (List.cons.inj h).2]
    · rw [if_neg fun h => hb (Option.some.inj h), if_neg fun h => hb (List.cons.inj h).1]

theorem toMatched_scan {m : List (List UInt8) → Answer} {l : List UInt8} :
    toMatched (scan m (l :: t)) =
      if toMatched (m (l :: t)) = .false then toMatched (scan m t) else toMatched (m (l :: t)) := by
  rw [scan]
  cases m (l :: t) <;> rfl

/-- The first byte of a string of letters, and the string behind the first letter. -/
theorem flatten_cons_letter {l : List UInt8} (h : IsLetter l) :
    ∃ c l', l = c :: l' ∧ (l :: t).flatten = c :: (l' ++ t.flatten) ∧
      (c :: (l' ++ t.flatten)).drop (width (c :: (l' ++ t.flatten))) = t.flatten := by
  have hwidth := width_letter h t.flatten
  cases l with
  | nil => exact h.elim
  | cons c l =>
    refine ⟨c, l, rfl, rfl, ?_⟩
    rw [← List.cons_append, hwidth, List.drop_left]

/-- The loop behind a star, where it calls itself at every letter. -/
theorem starLoop_letters {m : List UInt8 → Matched} {r : List (List UInt8) → Answer}
    (ht : ∀ l ∈ t, IsLetter l)
    (h : ∀ t', (∀ l ∈ t', IsLetter l) → m t'.flatten = toMatched (r t')) :
    starLoop none m t.flatten = toMatched (scan r t) := by
  induction t with
  | nil =>
    rw [List.flatten_nil, starLoop]
    rfl
  | cons l t ih =>
    obtain ⟨c, l', -, hflat, hdrop⟩ := @flatten_cons_letter t l (ht l List.mem_cons_self)
    have hm := h (l :: t) ht
    rw [hflat] at hm
    rw [toMatched_scan, hflat, starLoop_any, hm, hdrop,
      ih fun l hl => ht l (List.mem_cons_of_mem _ hl)]

/-- The search for a byte that begins a letter goes over the bytes behind other ones. -/
theorem starLoop_tails {m : List UInt8 → Matched} {c : UInt8} (hc : isTail c = false)
    {u : List UInt8} (hu : ∀ b ∈ u, isTail b = true) :
    starLoop (some c) m (u ++ s) = starLoop (some c) m s := by
  induction u with
  | nil => rfl
  | cons b u ih =>
    have hb := hu b List.mem_cons_self
    have hbc : b ≠ c := by
      rintro rfl
      rw [hb] at hc
      cases hc
    have hwidth : width (b :: (u ++ s)) = 1 := by
      have hlead := (isTail_iff b).mp hb
      rw [width, if_neg]
      rw [ISUTF8_iff]
      omega
    rw [List.cons_append, starLoop_byte, if_neg hbc, hwidth, List.drop_one, List.tail_cons]
    exact ih fun b hb => hu b (List.mem_cons_of_mem _ hb)

/-- The search for the first byte of a literal letter: the places that it leaves out are no
matches, and from the middle of a letter it comes to the next one. -/
theorem starLoop_literal {c : UInt8} {x : List UInt8} (hx : IsLetter (c :: x))
    {pat : List (Item (List UInt8))} (ht : ∀ l ∈ t, IsLetter l)
    (h : ∀ t', (∀ l ∈ t', IsLetter l) → match_pattern 0 t'.flatten q = toMatched (run pat t')) :
    starLoop (some c) (fun text => match_pattern 0 text (x ++ q)) t.flatten =
      toMatched (scan (run (.one (· == c :: x) :: pat)) t) := by
  induction t with
  | nil =>
    rw [List.flatten_nil, starLoop]
    rfl
  | cons l t ih =>
    have hl := ht l List.mem_cons_self
    have ht' : ∀ l ∈ t, IsLetter l := fun l hl => ht l (List.mem_cons_of_mem _ hl)
    obtain ⟨b, l', rfl, hflat, hdrop⟩ := @flatten_cons_letter t l hl
    have hletter := @match_letter t.flatten q c x (b :: l') hx hl
    rw [List.cons_append, List.head?_cons, List.tail_cons] at hletter
    rw [toMatched_scan, hflat, starLoop_byte, hdrop, starLoop_tails hx.first fun b hb => hl.tail hb,
      ih ht', run]
    by_cases hb : b = c
    · rw [if_pos (congrArg some hb)] at hletter
      rw [if_pos hb, hletter, h t ht']
      by_cases heq : b :: l' = c :: x
      · rw [if_pos heq, if_pos (beq_iff_eq.mpr heq)]
      · rw [if_neg heq, if_neg fun h => heq (beq_iff_eq.mp h)]
        rfl
    · have heq : b :: l' ≠ c :: x := fun h => hb (List.cons.inj h).1
      rw [if_neg hb, if_neg fun h => heq (beq_iff_eq.mp h)]
      rfl

/-- Without a letter left in the text, only a star goes on. -/
theorem run_own_nil {c : List UInt8} (hc : c ≠ [42]) : run (own (c :: p)) [] = .abort := by
  rw [own]
  by_cases h₁ : c = [92]
  · subst h₁
    cases p with
    | nil =>
      rw [items_end]
      rfl
    | cons x p =>
      rw [items_escape]
      rfl
  · by_cases h₂ : c = [63]
    · rw [h₂, items_any]
      rfl
    · by_cases h₃ : c = [91]
      · subst h₃
        cases h : classOf p with
        | none =>
          rw [items_open h]
          rfl
        | some r =>
          rw [items_class h]
          rfl
      · rw [items_letter h₁ h₂ hc h₃]
        rfl

theorem own_not_stars {c : List UInt8} (hc : c ≠ [42]) :
    ¬ (own (c :: p)).all Item.isStar = true := by
  intro h
  have hyes : run (own (c :: p)) [] = .yes :=
    (Glob.run_spec _ _).1.mpr ((Glob.matches_stars h []).mpr (.inr rfl))
  rw [run_own_nil hc] at hyes
  cases hyes

/-- The stars at the front of a pattern. -/
theorem run_own_stars : run (.star :: own p) t = run (.star :: own (p.dropWhile (· = [42]))) t := by
  induction p with
  | nil => rfl
  | cons c p ih =>
    by_cases hc : c = [42]
    · rw [List.dropWhile_cons, if_pos (decide_eq_true hc), hc, own, items_star, Glob.run_star_star]
      exact ih
    · rw [List.dropWhile_cons, if_neg fun h => hc (of_decide_eq_true h)]

theorem flatten_dropWhile (hp : ∀ l ∈ p, IsLetter l) :
    p.flatten.dropWhile (· = 42) = (p.dropWhile (· = [42])).flatten := by
  induction p with
  | nil => rfl
  | cons l p ih =>
    by_cases hl : l = [42]
    · subst hl
      exact ih fun l hl => hp l (List.mem_cons_of_mem _ hl)
    · have hhead := (byte_of_letter (hp l List.mem_cons_self) (by decide : leading 42 = 0)
        p.flatten).not.mpr hl
      rw [List.dropWhile_cons, if_neg fun h => hl (of_decide_eq_true h), List.flatten_cons]
      cases l with
      | nil => exact (hp [] List.mem_cons_self).elim
      | cons b l =>
        rw [List.cons_append] at hhead ⊢
        rw [List.dropWhile_cons, if_neg fun h => hhead (congrArg some (of_decide_eq_true h))]

/-- The code gives the answers of the matcher for letters. -/
theorem match_pattern_eq_run (hp : ∀ l ∈ p, IsLetter l) (ht : ∀ l ∈ t, IsLetter l) :
    match_pattern 0 t.flatten p.flatten = toMatched (run (own p) t) := by
  induction hlen : p.length using Nat.strong_induction_on generalizing p t with
  | _ len ih =>
    subst hlen
    cases p with
    | nil =>
      rw [own, items_nil, List.flatten_nil, match_pattern]
      cases t with
      | nil => rfl
      | cons l t =>
        obtain ⟨c, l', -, hflat, -⟩ := @flatten_cons_letter t l (ht l List.mem_cons_self)
        rw [hflat, if_neg (List.cons_ne_nil _ _)]
        rfl
    | cons c p =>
      have hc := hp c List.mem_cons_self
      have hp' : ∀ l ∈ p, IsLetter l := fun l hl => hp l (List.mem_cons_of_mem _ hl)
      have hrec : ∀ {t}, (∀ l ∈ t, IsLetter l) →
          match_pattern 0 t.flatten p.flatten = toMatched (run (own p) t) :=
        fun ht => ih _ (Nat.lt_succ_self _) hp' ht rfl
      by_cases hstar : c = [42]
      · subst hstar
        rw [own, items_star, ← own, run_own_stars]
        have hflat : ([42] :: p).flatten = 42 :: p.flatten := rfl
        have hdrop := flatten_dropWhile hp'
        rw [hflat]
        have hq : ∀ l ∈ p.dropWhile (· = [42]), IsLetter l := fun l hl =>
          hp' l (List.dropWhile_sublist (· = [42]) |>.subset hl)
        have hlen : (p.dropWhile (· = [42])).length < ([42] :: p).length :=
          Nat.lt_succ_of_le (List.dropWhile_sublist (l := p) (· = [42])).length_le
        have hhead : ∀ x q, p.dropWhile (· = [42]) = x :: q → x ≠ [42] := by
          rintro x q hxq rfl
          have hnot := List.head?_dropWhile_not (· = [42]) p
          rw [hxq] at hnot
          cases hnot
        cases hrest : p.dropWhile (· = [42]) with
        | nil =>
          rw [hrest] at hdrop
          rw [match_star_end hdrop, own, items_nil]
          rfl
        | cons x q =>
          rw [hrest] at hdrop hq hlen
          have hx := hq x List.mem_cons_self
          have hq' : ∀ l ∈ q, IsLetter l := fun l hl => hq l (List.mem_cons_of_mem _ hl)
          have hx42 := hhead x q hrest
          obtain ⟨b, x', rfl, hflatx, -⟩ := @flatten_cons_letter q x hx
          rw [hflatx] at hdrop
          rw [match_star hdrop, run, if_neg (own_not_stars hx42)]
          by_cases hmeta : b = 91 ∨ b = 63 ∨ b = 92
          · rw [if_pos hmeta, ← hflatx]
            exact starLoop_letters ht fun t' ht' => ih _ hlen hq ht' rfl
          · rw [not_or, not_or] at hmeta
            rw [if_neg (by rw [not_or, not_or]; exact hmeta), own,
              items_letter (fun h => hmeta.2.2 (List.cons.inj h).1)
                (fun h => hmeta.2.1 (List.cons.inj h).1) hx42
                fun h => hmeta.1 (List.cons.inj h).1]
            refine starLoop_literal hx ht fun t' ht' => ih q.length ?_ hq' ht' rfl
            exact Nat.lt_of_succ_lt hlen
      · obtain ⟨b, c', rfl, hflat, -⟩ := @flatten_cons_letter p c hc
        have hself : ∀ {a : UInt8}, leading a = 0 → b :: c' ≠ [a] → b ≠ a := by
          rintro a ha hne rfl
          exact hne (by rw [hc.ascii ha])
        have hb42 : b ≠ 42 := hself (by decide) hstar
        cases t with
        | nil => rw [hflat, List.flatten_nil, match_empty hb42, run_own_nil hstar, toMatched]
        | cons l t =>
          have hl := ht l List.mem_cons_self
          have ht' : ∀ l ∈ t, IsLetter l := fun l hl => ht l (List.mem_cons_of_mem _ hl)
          obtain ⟨a, l', -, hflatt, hwidth⟩ := @flatten_cons_letter t l hl
          have hne : (l :: t).flatten ≠ [] := by
            rw [hflatt]
            exact List.cons_ne_nil _ _
          rw [← hflatt] at hwidth
          by_cases h₁ : b :: c' = [92]
          · cases h₁
            rw [hflat, List.nil_append, match_escape hne]
            cases p with
            | nil =>
              rw [own, items_end]
              rfl
            | cons x p =>
              have hx := hp' x List.mem_cons_self
              have hp'' : ∀ l ∈ p, IsLetter l := fun l hl => hp' l (List.mem_cons_of_mem _ hl)
              obtain ⟨a, x', rfl, hflatx, -⟩ := @flatten_cons_letter p x hx
              have hlt : p.length < ([92] :: (a :: x') :: p).length :=
                Nat.lt_succ_of_lt (Nat.lt_succ_self _)
              rw [own, items_escape, hflatx, List.headD_cons, if_neg hx.1, List.tail_cons,
                List.flatten_cons, match_letter hx hl, ih p.length hlt hp'' ht' rfl, run]
              by_cases heq : l = a :: x'
              · rw [if_pos heq, if_pos (beq_iff_eq.mpr heq)]
              · rw [if_neg heq, if_neg fun h => heq (beq_iff_eq.mp h)]
                rfl
          · by_cases h₂ : b :: c' = [63]
            · cases h₂
              rw [hflat, List.nil_append, match_any hne, hwidth, hrec ht', own, items_any]
              rfl
            · by_cases h₃ : b :: c' = [91]
              · cases h₃
                have hend := classEnd_spec hp'
                rw [hflat, List.nil_append]
                cases hclass : classOf p with
                | none =>
                  rw [hclass] at hend
                  rw [match_open hne hend, own, items_open hclass]
                  rfl
                | some r =>
                  obtain ⟨neg, cls, rest⟩ := r
                  obtain ⟨hcls, hrest, hcaret⟩ := classOf_mem hclass
                  rw [hclass] at hend
                  have hdec := decode_letter hl t.flatten
                  have hlen := utf8_length_letter hl t.flatten
                  have hlt : rest.length < ([91] :: p).length :=
                    Nat.lt_succ_of_le (classOf_length hclass)
                  rw [match_cls hne hend, List.flatten_cons, hdec, hlen, List.drop_left,
                    match_class_spec (fun l hl => hp' l (hcls l hl)) neg hcaret,
                    ih rest.length hlt (fun l hl => hp' l (hrest l hl)) ht' rfl, own,
                    items_class hclass, run]
                  split <;> rfl
              · have hb : literal b := ⟨hself (by decide) h₁, hself (by decide) h₂, hb42,
                  hself (by decide) h₃⟩
                rw [hflat, match_literal hne hb, List.flatten_cons, match_letter hc hl, hrec ht',
                  own, items_letter h₁ h₂ hstar h₃, run]
                by_cases heq : l = b :: c'
                · rw [if_pos heq, if_pos (beq_iff_eq.mpr heq)]
                · rw [if_neg heq, if_neg fun h => heq (beq_iff_eq.mp h)]
                  rfl

end Refinement

/-- For a text and a pattern in UTF-8, `uwildmat_simple` is true exactly when the letters of the
text are in the language of the pattern; nothing is in the language of a malformed one. -/
theorem uwildmat_simple_iff (text pat : CString) (ht : is_valid_utf8 text.1 = true)
    (hp : is_valid_utf8 pat.1 = true) :
    (uwildmat_simple text.1 pat.1 = true ↔ Matches (own (letters pat.1)) (letters text.1)) ∧
      (.bad ∈ own (letters pat.1) → uwildmat_simple text.1 pat.1 = false) := by
  obtain ⟨t, ht, htext⟩ := valid_letters text.2 ht
  obtain ⟨p, hp, hpat⟩ := valid_letters pat.2 hp
  rw [htext, hpat, letters_flatten ht, letters_flatten hp]
  have hiff : uwildmat_simple t.flatten p.flatten = true ↔ Matches (own p) t := by
    rw [← (Glob.run_spec (own p) t).1, uwildmat_simple, match_pattern_eq_run hp ht]
    by_cases hstar : p.flatten = [42]
    · have hletter : p = [[42]] := by
        have hstars := letters_flatten hp
        rw [hstar] at hstars
        rw [← hstars]
        exact letters_flatten (t := [[42]]) fun l hl => by
          rw [List.mem_singleton.mp hl]
          exact ⟨by decide, .inl ⟨by decide, rfl⟩⟩
      rw [if_pos hstar, hletter, own, items_star, items_nil]
      exact ⟨fun _ => rfl, fun _ => rfl⟩
    · rw [if_neg hstar, decide_eq_true_iff]
      cases run (own p) t with
      | yes => exact ⟨fun _ => rfl, fun _ => rfl⟩
      | no => exact ⟨fun h => (by cases h), fun h => (by cases h)⟩
      | abort => exact ⟨fun h => (by cases h), fun h => (by cases h)⟩
  refine ⟨hiff, fun hbad => ?_⟩
  rw [Bool.eq_false_iff, Ne, hiff]
  exact Glob.not_matches_bad hbad

/-- A text with a letter of two bytes, and a pattern with a star, an escape and a class. -/
theorem uwildmat_simple_iff_news :
    (uwildmat_simple [83, 0xC3, 0xAE, 110, 101] [42, 92, 0xC3, 0xAE, 91, 110, 93, 63] = true ↔
      Matches (own (letters [42, 92, 0xC3, 0xAE, 91, 110, 93, 63]))
        (letters [83, 0xC3, 0xAE, 110, 101])) ∧
      (.bad ∈ own (letters [42, 92, 0xC3, 0xAE, 91, 110, 93, 63]) →
        uwildmat_simple [83, 0xC3, 0xAE, 110, 101] [42, 92, 0xC3, 0xAE, 91, 110, 93, 63] = false) :=
  uwildmat_simple_iff ⟨[83, 0xC3, 0xAE, 110, 101], by decide⟩
    ⟨[42, 92, 0xC3, 0xAE, 91, 110, 93, 63], by decide⟩ (by decide +kernel) (by decide +kernel)

/-- The letter `A` of a pattern does not match the code point of `A` in two bytes. -/
theorem overlong_letter_differs : ¬ ∀ text pat : CString, is_valid_utf8 text.1 = true →
    is_valid_utf8 pat.1 = true → (uwildmat_simple text.1 pat.1 = true ↔
      Matches (items (fun x t => utf8_decode t == utf8_decode x) (letters pat.1))
        (letters text.1)) := by
  intro h
  have hletter : ∀ l ∈ [[0xC1, 0x81]], IsLetter l := by
    intro l hl
    rw [List.mem_singleton.mp hl]
    exact ⟨by decide, .inr ⟨by decide, by decide, by decide, by decide +kernel⟩⟩
  have hA : ∀ l ∈ [[65]], IsLetter l := by
    intro l hl
    rw [List.mem_singleton.mp hl]
    exact ⟨by decide, .inl ⟨by decide, rfl⟩⟩
  have hiff := h ⟨[0xC1, 0x81], by decide⟩ ⟨[65], by decide⟩ (by decide +kernel) (by decide +kernel)
  have ht : letters [0xC1, 0x81] = [[0xC1, 0x81]] := letters_flatten hletter
  have hp : letters [65] = [[65]] := letters_flatten hA
  rw [ht, hp, items_letter (by decide) (by decide) (by decide) (by decide), items_nil] at hiff
  have hfalse : uwildmat_simple [0xC1, 0x81] [65] = false := by decide +kernel
  have htrue := hiff.mpr (.one (by decide) .nil)
  rw [hfalse] at htrue
  cases htrue

end Inn.Libinn.Uwildmat
