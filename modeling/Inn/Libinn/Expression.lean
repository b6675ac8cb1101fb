import Mathlib.Data.List.TakeWhile
import Inn.Libinn.Uwildmat

/-!
# Inn.Libinn.Expression — the patterns of a wildmat expression

An expression is cut into patterns at its commas. `match_pattern` knows which bytes of a pattern
are escaped and where a class ends; the loop that searches the commas has rules of its own. Both
are machines that read one byte after the other.

* `read`, `splitter` — the two machines;
* `reference` — the last pattern that matches decides, where `read` cuts the expression;
* `agreeing_machines_give_reference` — so does the code, as long as the machines agree on the
  commas;
* `escaped_bracket_differs` — an escaped bracket begins a class for one of them only.
-/

namespace Inn.Libinn.Uwildmat

/-! ## The two machines -/

/-- Where a machine is in a pattern. -/
inductive Place where
  | normal
  | escaped
  /-- Behind a `[`. -/
  | opened
  /-- Behind a `[^`. -/
  | caret
  | inside
deriving DecidableEq

/-- In a class. -/
def Place.isOpen : Place → Bool
  | .normal | .escaped => false
  | _ => true

/-- How `match_pattern` reads a pattern. -/
def read : Place → UInt8 → Place
  | .normal, b => if b = 92 then .escaped else if b = 91 then .opened else .normal
  | .escaped, _ => .normal
  | .opened, b => if b = 94 then .caret else .inside
  | .caret, _ => .inside
  | .inside, b => if b = 93 then .normal else .inside

/-- How the search for the commas reads it: every bracket begins a class, and only a bracket
directly behind it does not end the class. -/
def splitter : Place → UInt8 → Place
  | .normal, b => if b = 92 then .escaped else if b = 91 then .opened else .normal
  | .escaped, b => if b = 91 then .opened else .normal
  | .opened, _ => .inside
  | .caret, _ => .inside
  | .inside, b => if b = 93 then .normal else .inside

section Cuts

variable (next : Place → UInt8 → Place)

/-- The patterns of an expression, cut at the commas that a machine reads at its normal place;
`pattern` has the bytes of the one that is being read. -/
def cut (place : Place) (pattern : List UInt8) : List UInt8 → List (List UInt8)
  | [] => [pattern]
  | b :: s =>
    if b = 44 ∧ place = .normal then pattern :: cut .normal [] s
    else cut (next place b) (pattern ++ [b]) s

/-- The first pattern, and what is behind its comma. -/
def span (place : Place) : List UInt8 → List UInt8 × Option (List UInt8)
  | [] => ([], none)
  | b :: s =>
    if b = 44 ∧ place = .normal then ([], some s)
    else (b :: (span (next place b) s).1, (span (next place b) s).2)

end Cuts

/-- The machines agree on the commas, and a class that the search for the commas finds without
an end is one for `match_pattern`, too. -/
def Agrees : Place → Place → List UInt8 → Prop
  | place, place', [] => place'.isOpen = true → place.isOpen = true
  | place, place', b :: s =>
    (b = 44 → (place = .normal ↔ place' = .normal)) ∧ Agrees (read place b) (splitter place' b) s

/-! ## The reference -/

/-- What a pattern says about the texts that it matches. -/
def sign (allowpoison : Bool) (pattern : List UInt8) : Verdict :=
  if allowpoison = true ∧ pattern.head? = some 64 then .UWILDMAT_POISON
  else if pattern.head? = some 33 then .UWILDMAT_FAIL
  else .UWILDMAT_MATCH

/-- Whether a pattern of an expression matches. -/
def hits (allowpoison : Bool) (text pattern : List UInt8) : Bool :=
  uwildmat_simple text (unsigned (sign allowpoison pattern != .UWILDMAT_MATCH) pattern)

/-- The last pattern that matches decides. -/
def reference (allowpoison : Bool) (text expr : List UInt8) : Verdict :=
  (((cut read .normal [] expr).filter (hits allowpoison text)).getLast?).elim .UWILDMAT_FAIL
    (sign allowpoison)

/-! ## Cuts -/

section Spans

variable {next : Place → UInt8 → Place} {place : Place} {s rest : List UInt8}

theorem cut_cons (place : Place) (pattern : List UInt8) (b : UInt8) (s : List UInt8) :
    cut next place pattern (b :: s) =
      if b = 44 ∧ place = .normal then pattern :: cut next .normal [] s
      else cut next (next place b) (pattern ++ [b]) s := rfl

theorem span_cons (place : Place) (b : UInt8) (s : List UInt8) :
    span next place (b :: s) =
      if b = 44 ∧ place = .normal then ([], some s)
      else (b :: (span next (next place b) s).1, (span next (next place b) s).2) := rfl

theorem span_none (h : (span next place s).2 = none) : (span next place s).1 = s := by
  induction s generalizing place with
  | nil => rfl
  | cons b s ih =>
    rw [span_cons] at h ⊢
    split at h
    · cases h
    · rename_i hcomma
      rw [if_neg hcomma]
      exact congrArg _ (ih h)

/-- In front of the comma the machine is at its normal place. -/
theorem span_some (h : (span next place s).2 = some rest) :
    s = (span next place s).1 ++ 44 :: rest ∧ (span next place s).1.foldl next place = .normal := by
  induction s generalizing place with
  | nil => cases h
  | cons b s ih =>
    rw [span_cons] at h ⊢
    split at h
    · rename_i hcomma
      obtain ⟨rfl, rfl⟩ := hcomma
      cases h
      rw [if_pos ⟨rfl, rfl⟩]
      exact ⟨rfl, rfl⟩
    · rename_i hcomma
      rw [if_neg hcomma]
      obtain ⟨hs, hplace⟩ := ih h
      exact ⟨congrArg _ hs, hplace⟩

theorem cut_last {pattern : List UInt8} (h : (span next place s).2 = none) :
    cut next place pattern s = [pattern ++ (span next place s).1] := by
  induction s generalizing place pattern with
  | nil => exact congrArg (· :: []) (List.append_nil pattern).symm
  | cons b s ih =>
    rw [span_cons] at h ⊢
    rw [cut_cons]
    split at h
    · cases h
    · rename_i hcomma
      rw [if_neg hcomma, if_neg hcomma, ih h, List.append_assoc]
      rfl

theorem cut_first {pattern : List UInt8} (h : (span next place s).2 = some rest) :
    cut next place pattern s =
      (pattern ++ (span next place s).1) :: cut next .normal [] rest := by
  induction s generalizing place pattern with
  | nil => cases h
  | cons b s ih =>
    rw [span_cons] at h ⊢
    rw [cut_cons]
    split at h
    · rename_i hcomma
      cases h
      rw [if_pos hcomma, if_pos hcomma, List.append_nil]
    · rename_i hcomma
      rw [if_neg hcomma, if_neg hcomma, ih h, List.append_assoc]
      rfl

/-- Machines that agree cut off the same first pattern. -/
theorem Agrees.span_eq {place' : Place} (h : Agrees place place' s) :
    span splitter place' s = span read place s ∧
      ((span read place s).2 = none →
        (s.foldl splitter place').isOpen = true → (s.foldl read place).isOpen = true) ∧
      ∀ rest, (span read place s).2 = some rest → Agrees .normal .normal rest := by
  induction s generalizing place place' with
  | nil => exact ⟨rfl, fun _ => h, fun _ hrest => by cases hrest⟩
  | cons b s ih =>
    obtain ⟨hcomma, hs⟩ := h
    obtain ⟨heq, hopen, hrest⟩ := ih hs
    have hiff : b = 44 ∧ place' = .normal ↔ b = 44 ∧ place = .normal :=
      and_congr_right fun hb => (hcomma hb).symm
    rw [span_cons, span_cons]
    by_cases hb : b = 44 ∧ place = .normal
    · rw [if_pos hb, if_pos (hiff.mpr hb)]
      obtain ⟨rfl, rfl⟩ := hb
      refine ⟨rfl, fun h => (by cases h), fun rest hrest => ?_⟩
      obtain rfl := Option.some.inj hrest
      obtain ⟨-, rfl⟩ := hiff.mpr ⟨rfl, rfl⟩
      exact hs
    · rw [if_neg hb, if_neg (hiff.not.mpr hb), heq]
      exact ⟨rfl, hopen, hrest⟩

/-- In a class there are no commas. -/
theorem span_inside (hin : ∀ b, next .inside b = if b = 93 then .normal else .inside) :
    (93 ∈ s → span next .inside s =
        (s.takeWhile (· ≠ 93) ++ 93 :: (span next .normal (s.dropWhile (· ≠ 93)).tail).1,
          (span next .normal (s.dropWhile (· ≠ 93)).tail).2)) ∧
      (93 ∉ s → span next .inside s = (s, none) ∧ s.foldl next .inside = .inside) := by
  induction s with
  | nil => exact ⟨fun h => (by cases h), fun _ => ⟨rfl, rfl⟩⟩
  | cons b s ih =>
    have hstep : span next .inside (b :: s) =
        (b :: (span next (next .inside b) s).1, (span next (next .inside b) s).2) := by
      rw [span_cons, if_neg fun h => by cases h.2]
    rw [hstep, hin]
    by_cases hb : b = 93
    · subst hb
      rw [if_pos rfl]
      refine ⟨fun _ => rfl, fun h => absurd List.mem_cons_self h⟩
    · have htake : decide (b ≠ 93) = true := decide_eq_true hb
      rw [if_neg hb, List.takeWhile_cons, List.dropWhile_cons, if_pos htake, if_pos htake,
        List.mem_cons, or_iff_right fun h => hb h.symm]
      constructor
      · intro h
        rw [ih.1 h]
        rfl
      · intro h
        rw [(ih.2 h).1, List.foldl_cons, hin, if_neg hb]
        exact ⟨rfl, (ih.2 h).2⟩

/-- The bytes in front of a bracket that ends a class. -/
theorem bracket_split (h : 93 ∈ s) : ∃ cls rest, s = cls ++ 93 :: rest ∧
    s.takeWhile (· ≠ 93) = cls ∧ s.dropWhile (· ≠ 93) = 93 :: rest ∧
    ∀ place, (∀ b, next place b = if b = 93 then .normal else place) →
      cls.foldl next place = place := by
  induction s with
  | nil => cases h
  | cons b s ih =>
    rw [List.takeWhile_cons, List.dropWhile_cons]
    by_cases hb : b = 93
    · subst hb
      exact ⟨[], s, rfl, rfl, rfl, fun _ _ => rfl⟩
    · have htake : decide (b ≠ 93) = true := decide_eq_true hb
      obtain ⟨cls, rest, rfl, hcls, hrest, hplace⟩ :=
        ih ((List.mem_cons.mp h).resolve_left fun h => hb h.symm)
      rw [if_pos htake, if_pos htake, hcls, hrest]
      refine ⟨b :: cls, rest, rfl, rfl, rfl, fun place hin => ?_⟩
      rw [List.foldl_cons, hin, if_neg hb]
      exact hplace place hin

/-- What the search skips behind a bracket is read as a class by its machine. -/
theorem skipClass_span (s : List UInt8) :
    (∃ cls rest, s = cls ++ rest ∧ skipClass s = (cls.length - 1, rest) ∧ 0 < cls.length ∧
      span splitter .opened s =
        (cls ++ (span splitter .normal rest).1, (span splitter .normal rest).2) ∧
      cls.foldl splitter .opened = .normal) ∨
    (span splitter .opened s = (s, none) ∧ skipClass s = (s.length, []) ∧
      (s.foldl splitter .opened).isOpen = true) := by
  cases s with
  | nil => exact .inr ⟨rfl, rfl, rfl⟩
  | cons b s =>
    have hskip : skipClass (b :: s) =
        (1 + (s.takeWhile (· ≠ 93)).length, (s.dropWhile (· ≠ 93)).tail) := by
      rw [skipClass, List.head?_cons]
      by_cases hb : b = 93
      · rw [if_pos (congrArg some hb)]
        rfl
      · have htake : decide (b ≠ 93) = true := decide_eq_true hb
        rw [if_neg fun h => hb (Option.some.inj h), List.drop_zero, List.takeWhile_cons,
          List.dropWhile_cons, if_pos htake, if_pos htake, List.length_cons, Nat.zero_add,
          Nat.add_comm]
    have hstep : span splitter .opened (b :: s) =
        (b :: (span splitter .inside s).1, (span splitter .inside s).2) := by
      rw [span_cons, if_neg fun h => by cases h.2]
      rfl
    obtain ⟨hmem, hnot⟩ := @span_inside splitter s fun b => rfl
    rw [hskip, hstep]
    by_cases hin : 93 ∈ s
    · left
      rw [hmem hin]
      obtain ⟨cls, rest, rfl, hcls, hrest, hplace⟩ := @bracket_split splitter s hin
      rw [hcls, hrest]
      refine ⟨b :: cls ++ [93], rest, ?_, ?_, ?_, ?_, ?_⟩
      · rw [List.append_assoc]
        rfl
      · rw [List.length_append, List.length_cons, Nat.add_comm]
        rfl
      · rw [List.length_append]
        exact Nat.succ_pos _
      · rw [List.append_assoc]
        rfl
      · rw [List.foldl_append, List.foldl_cons]
        change [93].foldl splitter (cls.foldl splitter .inside) = .normal
        rw [hplace .inside fun b => rfl]
        rfl
    · right
      have hall : ∀ a ∈ s, decide (a ≠ 93) = true := fun a ha =>
        decide_eq_true fun h => hin (h ▸ ha)
      rw [(hnot hin).1, List.takeWhile_eq_self_iff.mpr hall,
        List.dropWhile_eq_nil_iff.mpr hall, List.length_cons, Nat.add_comm, List.foldl_cons]
      refine ⟨rfl, rfl, ?_⟩
      change (s.foldl splitter .inside).isOpen = true
      rw [(hnot hin).2]
      rfl

/-- Where the search starts in front of a byte. -/
def start (escaped : Bool) : Place := if escaped then .escaped else .normal

/-- The loop finds the comma that its machine finds; at a class without an end it stops one byte
behind the NUL. -/
theorem splitLoop_span (escaped : Bool) (s : List UInt8) :
    splitLoop escaped s = (span splitter (start escaped) s).1.length +
      if (span splitter (start escaped) s).2 = none ∧
        (s.foldl splitter (start escaped)).isOpen = true then 1 else 0 := by
  induction hn : s.length using Nat.strongRecOn generalizing escaped s with
  | _ n ih =>
    cases s with
    | nil =>
      rw [splitLoop]
      cases escaped <;> rfl
    | cons c s =>
      rw [splitLoop]
      by_cases hopen : c = 91
      · subst hopen
        have hstart : splitter (start escaped) 91 = .opened := by cases escaped <;> rfl
        rw [if_pos rfl, span_cons, if_neg fun h => absurd h.1 (by decide), List.foldl_cons, hstart]
        rcases skipClass_span s with
          ⟨cls, rest, rfl, hskip, hpos, hspan, hplace⟩ | ⟨hspan, hskip, hend⟩
        · have hlt : rest.length < n := by
            rw [← hn, List.length_cons, List.length_append]
            omega
          rw [hskip, hspan, List.foldl_append, hplace]
          dsimp only
          rw [ih _ hlt false rest rfl, List.length_cons, List.length_append]
          change _ + ((span splitter .normal rest).1.length + _) = _
          change _ + (_ + (if (span splitter .normal rest).2 = none ∧
            (rest.foldl splitter .normal).isOpen = true then 1 else 0)) = _
          omega
        · rw [hskip, hspan, if_pos ⟨rfl, hend⟩]
          dsimp only
          rw [splitLoop, List.length_cons]
      · rw [if_neg hopen]
        by_cases hcomma : c = 44 ∧ escaped = false
        · obtain ⟨rfl, rfl⟩ := hcomma
          rw [if_pos ⟨rfl, rfl⟩, span, if_pos ⟨rfl, rfl⟩]
          rfl
        · have hplace : ¬(c = 44 ∧ start escaped = .normal) := by
            rintro ⟨hc, hs⟩
            refine hcomma ⟨hc, ?_⟩
            cases escaped
            · rfl
            · cases hs
          have hnext : splitter (start escaped) c = start (c == 92 && !escaped) := by
            cases escaped
            · change (if c = 92 then Place.escaped else if c = 91 then .opened else .normal) = _
              rw [if_neg hopen]
              by_cases hc : c = 92
              · subst hc
                rfl
              · rw [if_neg hc, beq_eq_false_iff_ne.mpr hc]
                rfl
            · change (if c = 91 then Place.opened else .normal) = _
              rw [if_neg hopen, Bool.not_true, Bool.and_false]
              rfl
          rw [if_neg hcomma, span, if_neg hplace, List.foldl_cons, hnext,
            ih _ (by rw [← hn]; exact Nat.lt_succ_self _) _ s rfl, List.length_cons]
          dsimp only
          omega

end Spans

/-! ## What match_pattern reads -/

theorem foldl_inside (s : List UInt8) : (93 ∈ s →
      s.foldl read .inside = ((s.dropWhile (· ≠ 93)).tail).foldl read .normal) ∧
    (93 ∉ s → s.foldl read .inside = .inside) := by
  constructor
  · intro hin
    obtain ⟨cls, rest, rfl, -, hrest, hplace⟩ := @bracket_split read s hin
    rw [hrest, List.foldl_append, hplace .inside fun b => rfl]
    rfl
  · intro hin
    exact ((@span_inside read s fun b => rfl).2 hin).2

/-- A class ends for `match_pattern` where its machine leaves it. -/
theorem classEnd_read (p : List UInt8) :
    (∀ cls rest, classEnd p = some (cls, rest) →
      p.foldl read .opened = rest.foldl read .normal) ∧
    (classEnd p = none → (p.foldl read .opened).isOpen = true) := by
  have main : ∀ (k : ℕ) (q : List UInt8), p.drop k = q →
      ((if p.head? = some 94 then 1 else 0) + 1 = k) →
      (q = [] → (p.foldl read .opened).isOpen = true) →
      (q ≠ [] → p.foldl read .opened = q.foldl read .inside) →
      (∀ cls rest, classEnd p = some (cls, rest) →
        p.foldl read .opened = rest.foldl read .normal) ∧
      (classEnd p = none → (p.foldl read .opened).isOpen = true) := by
    intro k q hq hk hnil hcons
    rw [classEnd, hk, hq]
    by_cases hin : 93 ∈ q
    · rw [if_pos hin, hcons (List.ne_nil_of_mem hin), (foldl_inside q).1 hin]
      refine ⟨fun cls rest h => ?_, fun h => (by cases h)⟩
      rw [← (Prod.mk.inj (Option.some.inj h)).2]
    · rw [if_neg hin]
      refine ⟨fun _ _ h => (by cases h), fun _ => ?_⟩
      by_cases hempty : q = []
      · exact hnil hempty
      · rw [hcons hempty, (foldl_inside q).2 hin]
        rfl
  cases p with
  | nil => exact main 1 [] rfl rfl (fun _ => rfl) fun h => absurd rfl h
  | cons b p =>
    by_cases hb : b = 94
    · subst hb
      cases p with
      | nil => exact main 2 [] rfl rfl (fun _ => rfl) fun h => absurd rfl h
      | cons c p =>
        refine main 2 p rfl rfl (fun h => ?_) fun _ => rfl
        rw [h]
        rfl
    · have hfold : (b :: p).foldl read .opened = p.foldl read .inside := by
        rw [List.foldl_cons, read, if_neg hb]
      refine main 1 p rfl ?_ (fun h => ?_) fun _ => hfold
      · rw [List.head?_cons, if_neg fun h => hb (Option.some.inj h)]
      · rw [hfold, h]
        rfl

/-- The loop behind a star finds only what its pattern finds. -/
theorem starLoop_ne_true {byte : Option UInt8} {m : List UInt8 → Matched}
    (h : ∀ t, m t ≠ .true) (text : List UInt8) : starLoop byte m text ≠ .true := by
  induction hn : text.length using Nat.strongRecOn generalizing text with
  | _ n ih =>
    cases text with
    | nil =>
      rw [starLoop]
      exact Matched.noConfusion
    | cons t text =>
      have hdrop : ((t :: text).drop (width (t :: text))).length < n := by
        have := width_pos (t :: text)
        rw [List.length_drop, List.length_cons, ← hn, List.length_cons]
        omega
      cases byte with
      | none =>
        rw [starLoop_any]
        split
        · exact ih _ hdrop _ rfl
        · exact h _
      | some c =>
        rw [starLoop_byte]
        split
        · split
          · exact ih _ (by rw [← hn]; exact Nat.lt_succ_self _) _ rfl
          · exact h _
        · exact ih _ hdrop _ rfl

theorem foldl_stars (p : List UInt8) :
    p.foldl read .normal = (p.dropWhile (· = 42)).foldl read .normal := by
  induction p with
  | nil => rfl
  | cons c p ih =>
    rw [List.dropWhile_cons]
    split
    · rename_i hc
      obtain rfl := of_decide_eq_true hc
      exact ih
    · rfl

/-- How the answer for a pattern depends on the byte behind it, by the place where its machine is
at the end: only an escape looks at that byte, and a class without an end never matches. -/
def Same (place : Place) (answer answer₀ : Matched) : Prop :=
  (place ≠ .escaped → answer = answer₀) ∧ (place.isOpen = true → answer ≠ .true)

theorem Same.missed {place : Place} {answer : Matched} (h : answer ≠ .true) :
    Same place answer answer :=
  ⟨fun _ => rfl, fun _ => h⟩

theorem Same.starLoop {place : Place} {m m₀ : List UInt8 → Matched}
    (h : ∀ t, Same place (m t) (m₀ t)) (byte : Option UInt8) (text : List UInt8) :
    Same place (starLoop byte m text) (starLoop byte m₀ text) :=
  ⟨fun hplace => congrArg (Uwildmat.starLoop byte · text) (funext fun t => (h t).1 hplace),
    fun hplace => starLoop_ne_true (fun t => (h t).2 hplace) text⟩

theorem match_pattern_end (p : List UInt8) (stop : UInt8) (text : List UInt8) :
    Same (p.foldl read .normal) (match_pattern stop text p) (match_pattern 0 text p) := by
  induction hn : p.length using Nat.strongRecOn generalizing p text with
  | _ n ih =>
    cases p with
    | nil =>
      rw [match_pattern, match_pattern]
      exact ⟨fun _ => rfl, fun h => by cases h⟩
    | cons c p =>
      have hrest : ∀ q : List UInt8, q.length ≤ p.length → ∀ text,
          Same (q.foldl read .normal) (match_pattern stop text q) (match_pattern 0 text q) :=
        fun q hq text => ih q.length (by rw [← hn]; exact Nat.lt_succ_of_le hq) q text rfl
      rw [List.foldl_cons]
      by_cases hstar : c = 42
      · subst hstar
        change Same (p.foldl read .normal) _ _
        rcases hq : p.dropWhile (· = 42) with _ | ⟨d, q⟩
        · rw [match_star_end hq, match_star_end hq, foldl_stars, hq]
          exact ⟨fun _ => rfl, fun h => by cases h⟩
        · have hlength : (d :: q).length ≤ p.length := by
            rw [← hq]
            exact (List.dropWhile_sublist _).length_le
          rw [match_star hq, match_star hq, foldl_stars, hq]
          by_cases hd : d = 91 ∨ d = 63 ∨ d = 92
          · rw [if_pos hd, if_pos hd]
            exact Same.starLoop (hrest (d :: q) hlength) none text
          · have hread : read .normal d = .normal := by
              rw [read, if_neg fun h => hd (.inr (.inr h)), if_neg fun h => hd (.inl h)]
            rw [if_neg hd, if_neg hd, List.foldl_cons, hread]
            exact Same.starLoop (hrest q (Nat.le_of_succ_le hlength)) (some d) text
      rcases eq_or_ne text [] with rfl | ht
      · rw [match_empty hstar, match_empty hstar]
        exact Same.missed Matched.noConfusion
      by_cases hescape : c = 92
      · subst hescape
        cases p with
        | nil => exact ⟨fun h => absurd rfl h, fun h => by cases h⟩
        | cons d p =>
          rw [match_escape ht, match_escape ht, List.headD_cons, List.headD_cons]
          by_cases hzero : d = 0
          · rw [if_pos hzero, if_pos hzero]
            exact Same.missed Matched.noConfusion
          · rw [if_neg hzero, if_neg hzero]
            by_cases hbyte : text.head? = some d
            · rw [if_pos hbyte, if_pos hbyte]
              exact hrest p (Nat.le_succ _) _
            · rw [if_neg hbyte, if_neg hbyte]
              exact Same.missed Matched.noConfusion
      by_cases hclass : c = 91
      · subst hclass
        change Same (p.foldl read .opened) _ _
        obtain ⟨hsome, -⟩ := classEnd_read p
        rcases hend : classEnd p with _ | ⟨cls, rest⟩
        · rw [match_open ht hend, match_open ht hend]
          exact Same.missed Matched.noConfusion
        · rw [match_cls ht hend, match_cls ht hend, hsome cls rest hend]
          split
          · exact hrest rest (classEnd_length hend) _
          · exact Same.missed Matched.noConfusion
      have hread : read .normal c = .normal := by rw [read, if_neg hescape, if_neg hclass]
      rw [hread]
      by_cases hany : c = 63
      · subst hany
        rw [match_any ht, match_any ht]
        exact hrest p (Nat.le_refl _) _
      · have hliteral : literal c := ⟨hescape, hany, hstar, hclass⟩
        rw [match_literal ht hliteral, match_literal ht hliteral]
        split
        · exact hrest p (Nat.le_refl _) _
        · exact Same.missed Matched.noConfusion

/-! ## One pattern -/

theorem uwildmat_simple_eq (text pat : List UInt8) :
    uwildmat_simple text pat = (match_pattern 0 text pat == .true) := by
  rw [uwildmat_simple]
  split
  · rename_i h
    rw [h, match_star_end rfl]
    rfl
  · cases match_pattern 0 text pat <;> rfl

/-- What the code gives to `match_pattern` matches as the pattern of the reference does. -/
theorem agreeing_split {q : List UInt8} (h : Agrees .normal .normal q) (text : List UInt8) :
    (match_pattern ((q ++ [0]).getD (splitLoop false q) 0) text
        ((q ++ [0]).take (splitLoop false q)) == .true) =
      uwildmat_simple text (span read .normal q).1 ∧
    (splitLoop false q < q.length ↔ (span read .normal q).2 ≠ none) ∧
    ∀ rest, (span read .normal q).2 = some rest →
      q.drop (splitLoop false q + 1) = rest ∧ Agrees .normal .normal rest := by
  obtain ⟨hspan, hopen, hagree⟩ := h.span_eq
  rw [splitLoop_span, start, if_neg Bool.false_ne_true, hspan, uwildmat_simple_eq]
  rcases hrest : (span read .normal q).2 with _ | rest
  · have hall := span_none hrest
    rw [hall]
    refine ⟨?_, ?_, fun _ h => by cases h⟩
    · by_cases hend : (q.foldl splitter .normal).isOpen = true
      · -- the bytes of the pattern and the NUL
        have hread := hopen hrest hend
        have hread' : ((q ++ [0]).foldl read .normal).isOpen = true := by
          rw [List.foldl_append, List.foldl_cons, List.foldl_nil]
          revert hread
          generalize q.foldl read .normal = place
          cases place <;> decide
        rw [if_pos ⟨rfl, hend⟩, List.take_of_length_le (by rw [List.length_append]; rfl)]
        rw [beq_eq_false_iff_ne.mpr ((match_pattern_end _ _ text).2 hread'),
          beq_eq_false_iff_ne.mpr ((match_pattern_end _ _ text).2 hread)]
      · rw [if_neg fun h => hend h.2]
        simp only [Nat.add_zero]
        rw [List.take_left, List.getD_eq_getElem?_getD, List.getElem?_concat_length]
        rfl
    · exact ⟨fun h => absurd h (by omega), fun h => absurd rfl h⟩
  · obtain ⟨hq, hplace⟩ := span_some hrest
    rw [if_neg fun h => Option.some_ne_none _ h.1]
    simp only [Nat.add_zero]
    generalize (span read .normal q).1 = pat at hq hplace
    subst hq
    refine ⟨?_, ?_, ?_⟩
    · rw [List.append_assoc, List.take_left, (match_pattern_end pat _ text).1]
      rw [hplace]
      exact Place.noConfusion
    · rw [List.length_append, List.length_cons]
      exact ⟨fun _ => Option.some_ne_none _, fun _ => by omega⟩
    · intro rest' h
      obtain rfl := Option.some.inj h
      rw [← List.drop_drop, List.drop_left]
      exact ⟨rfl, hagree _ hrest⟩

section Signs

variable {allowpoison : Bool} {p : List UInt8}

/-- Only a `!` or a `@` in front of a pattern says something else than a match. -/
theorem sign_cases (allowpoison : Bool) (p : List UInt8) :
    sign allowpoison p = .UWILDMAT_MATCH ∨ ∃ b p', p = b :: p' ∧ (b = 33 ∨ b = 64) := by
  rw [sign]
  split
  · rename_i h
    obtain ⟨p', rfl⟩ := List.head?_eq_some_iff.mp h.2
    exact .inr ⟨64, p', rfl, .inr rfl⟩
  · split
    · rename_i h
      obtain ⟨p', rfl⟩ := List.head?_eq_some_iff.mp h
      exact .inr ⟨33, p', rfl, .inl rfl⟩
    · exact .inl rfl

/-- The sign is at the front of the pattern, and what is behind it is cut in the same way. -/
theorem sign_span (allowpoison : Bool) (p : List UInt8) :
    sign allowpoison (span read .normal p).1 = sign allowpoison p ∧
    unsigned (sign allowpoison p != .UWILDMAT_MATCH) (span read .normal p).1 =
      (span read .normal (unsigned (sign allowpoison p != .UWILDMAT_MATCH) p)).1 ∧
    (span read .normal p).2 =
      (span read .normal (unsigned (sign allowpoison p != .UWILDMAT_MATCH) p)).2 := by
  constructor
  · cases p with
    | nil => rfl
    | cons b p =>
      rw [span]
      split
      · rename_i h
        obtain ⟨rfl, -⟩ := h
        cases allowpoison <;> rfl
      · rfl
  · rcases sign_cases allowpoison p with hmatch | ⟨b, p', rfl, hb⟩
    · rw [hmatch]
      exact ⟨rfl, rfl⟩
    · have hcomma : ¬(b = 44 ∧ Place.normal = .normal) := by
        rintro ⟨rfl, -⟩
        rcases hb with h | h <;> cases h
      have hread : read .normal b = .normal := by rcases hb with rfl | rfl <;> rfl
      rw [span, if_neg hcomma, hread]
      generalize hsigned : (sign allowpoison (b :: p') != .UWILDMAT_MATCH) = reverse
      cases reverse
      · rw [unsigned, unsigned, if_neg Bool.false_ne_true, if_neg Bool.false_ne_true, span,
          if_neg hcomma, hread]
        exact ⟨rfl, rfl⟩
      · exact ⟨rfl, rfl⟩

theorem Agrees.unsigned (h : Agrees .normal .normal p) (allowpoison : Bool) :
    Agrees .normal .normal (unsigned (sign allowpoison p != .UWILDMAT_MATCH) p) := by
  rcases sign_cases allowpoison p with hmatch | ⟨b, p', rfl, hb⟩
  · rw [hmatch]
    exact h
  · rw [Uwildmat.unsigned]
    split
    · rcases hb with rfl | rfl <;> exact h.2
    · exact h

end Signs

/-! ## All patterns -/

/-- The two variables of the loop over the patterns that stand for a result. -/
def encode (v : Verdict) : Bool × Bool := (v == .UWILDMAT_MATCH, v == .UWILDMAT_POISON)

/-- One turn of the loop. A pattern that says what is the result already is not looked at. -/
theorem patternLoop_step (text : List UInt8) (allowpoison : Bool) (p : List UInt8) (v : Verdict)
    {q : List UInt8} (hq : unsigned (sign allowpoison p != .UWILDMAT_MATCH) p = q) {now : Verdict}
    (hnow : (if match_pattern ((q ++ [0]).getD (splitLoop false q) 0) text
      ((q ++ [0]).take (splitLoop false q)) == .true then sign allowpoison p else v) = now) :
    patternLoop text allowpoison p (encode v).1 (encode v).2 =
      if splitLoop false q < q.length then
        patternLoop text allowpoison (q.drop (splitLoop false q + 1)) (encode now).1 (encode now).2
      else encode now := by
  have hpoison : (allowpoison && p.head? == some 64) =
      (sign allowpoison p == .UWILDMAT_POISON) := by
    rw [sign]
    cases allowpoison
    · rw [if_neg fun h => by cases h.1]
      split <;> rfl
    · by_cases h : p.head? = some 64
      · rw [if_pos ⟨rfl, h⟩, h]
        rfl
      · rw [if_neg fun hand => h hand.2, beq_eq_false_iff_ne.mpr h]
        split <;> rfl
  have hreverse : (p.head? == some 33 || (allowpoison && p.head? == some 64)) =
      (sign allowpoison p != .UWILDMAT_MATCH) := by
    rw [hpoison, sign]
    split
    · exact Bool.or_true _
    · split
      · rename_i h
        rw [h]
        rfl
      · rename_i h
        rw [beq_eq_false_iff_ne.mpr h]
        rfl
  rw [patternLoop, hreverse, hpoison, hq]
  have hpair : (if (!((encode v).1 == !(sign allowpoison p != .UWILDMAT_MATCH) &&
        (sign allowpoison p == .UWILDMAT_POISON) == (encode v).2) &&
        match_pattern ((q ++ [0]).getD (splitLoop false q) 0) text
          ((q ++ [0]).take (splitLoop false q)) == .true) = true then
        (!(sign allowpoison p != .UWILDMAT_MATCH), sign allowpoison p == .UWILDMAT_POISON)
      else ((encode v).1, (encode v).2)) = encode now := by
    rw [← hnow]
    generalize match_pattern _ text _ = answer
    generalize sign allowpoison p = w
    cases v <;> cases w <;> cases answer <;> rfl
  rw [hpair]

/-- The result after one more pattern. -/
def decided (allowpoison : Bool) (text : List UInt8) (v : Verdict) (pattern : List UInt8) :
    Verdict :=
  if hits allowpoison text pattern then sign allowpoison pattern else v

theorem patternLoop_spec {p : List UInt8} (h : Agrees .normal .normal p) (text : List UInt8)
    (allowpoison : Bool) (v : Verdict) :
    patternLoop text allowpoison p (encode v).1 (encode v).2 =
      encode ((cut read .normal [] p).foldl (decided allowpoison text) v) := by
  induction hn : p.length using Nat.strongRecOn generalizing p v with
  | _ n ih =>
    obtain ⟨hsign, hpat, hbehind⟩ := sign_span allowpoison p
    obtain ⟨hmatch, hmore, hrest⟩ := agreeing_split (h.unsigned allowpoison) text
    have hhits := congrArg (uwildmat_simple text) hpat
    rw [← hsign] at hhits
    change hits allowpoison text (span read .normal p).1 = _ at hhits
    rw [hsign] at hhits
    obtain ⟨q, hq⟩ : ∃ q, unsigned (sign allowpoison p != .UWILDMAT_MATCH) p = q := ⟨_, rfl⟩
    rw [hq] at hbehind hmatch hmore hrest hhits
    rw [← hbehind] at hmore hrest
    have hnow : (if hits allowpoison text (span read .normal p).1 then sign allowpoison p else v) =
        decided allowpoison text v (span read .normal p).1 := by rw [decided, hsign]
    rw [hhits, ← hmatch] at hnow
    rw [patternLoop_step text allowpoison p v hq hnow]
    rcases hspan : (span read .normal p).2 with _ | rest
    · rw [if_neg fun hlt => hmore.mp hlt hspan, cut_last hspan]
      rfl
    · obtain ⟨hdrop, hagree⟩ := hrest rest hspan
      have hlt : rest.length < n := by
        have hlength := congrArg List.length (span_some hspan).1
        rw [List.length_append, List.length_cons] at hlength
        omega
      rw [if_pos (hmore.mpr (hspan ▸ Option.some_ne_none _)), hdrop, ih _ hlt hagree _ rfl,
        cut_first hspan]
      rfl

/-- The last pattern that matches decides. -/
theorem foldl_decided (allowpoison : Bool) (text : List UInt8) (patterns : List (List UInt8))
    (v : Verdict) : patterns.foldl (decided allowpoison text) v =
      ((patterns.filter (hits allowpoison text)).getLast?).elim v (sign allowpoison) := by
  induction patterns generalizing v with
  | nil => rfl
  | cons pattern patterns ih =>
    rw [List.foldl_cons, ih, decided, List.filter_cons]
    split
    · rw [List.getLast?_cons]
      cases (patterns.filter (hits allowpoison text)).getLast? <;> rfl
    · rfl

theorem match_expression_eq {expr : List UInt8} (h : Agrees .normal .normal expr)
    (text : List UInt8) (allowpoison : Bool) :
    match_expression text expr allowpoison = reference allowpoison text expr := by
  rw [match_expression]
  split
  · rename_i hempty
    subst hempty
    have hhits : hits allowpoison text [] = decide (text = []) := by
      have hsign : sign allowpoison [] = .UWILDMAT_MATCH := by cases allowpoison <;> rfl
      rw [hits, hsign, uwildmat_simple_eq]
      change (match_pattern 0 text [] == .true) = _
      rw [match_pattern]
      split <;> simp [*]
    rw [reference, cut, List.filter_cons, hhits]
    by_cases ht : text = []
    · rw [if_pos ht, decide_eq_true ht]
      cases allowpoison <;> rfl
    · rw [if_neg ht, decide_eq_false ht]
      rfl
  · have hspec := patternLoop_spec h text allowpoison .UWILDMAT_FAIL
    rw [foldl_decided] at hspec
    change patternLoop text allowpoison expr false false =
      encode (reference allowpoison text expr) at hspec
    rw [hspec]
    cases reference allowpoison text expr <;> rfl

/-- The search for the commas and `match_pattern` have to agree on every comma. -/
theorem agreeing_machines_give_reference (text expr : CString)
    (h : Agrees .normal .normal expr.1) :
    (uwildmat text.1 expr.1 = true ↔ reference false text.1 expr.1 = .UWILDMAT_MATCH) ∧
      uwildmat_poison text.1 expr.1 = reference true text.1 expr.1 := by
  rw [uwildmat, uwildmat_poison, match_expression_eq h, match_expression_eq h]
  split
  · rename_i hstar
    have hmatch : ∀ allowpoison, reference allowpoison text.1 [42] = .UWILDMAT_MATCH := by
      intro allowpoison
      have hsign : sign allowpoison [42] = .UWILDMAT_MATCH := by cases allowpoison <;> rfl
      have hhits : hits allowpoison text.1 [42] = true := by
        rw [hits, hsign]
        rfl
      change (([[42]].filter (hits allowpoison text.1)).getLast?).elim _ _ = _
      rw [List.filter_cons, if_pos hhits]
      exact hsign
    rw [hstar, hmatch, hmatch]
    exact ⟨iff_of_true rfl rfl, rfl⟩
  · rw [decide_eq_true_iff]
    exact ⟨Iff.rfl, rfl⟩

theorem agreeing_machines_give_reference_negated :
    (uwildmat [99] [42, 44, 33, 91, 97, 44, 98, 93] = true ↔
        reference false [99] [42, 44, 33, 91, 97, 44, 98, 93] = .UWILDMAT_MATCH) ∧
      uwildmat_poison [99] [42, 44, 33, 91, 97, 44, 98, 93] =
        reference true [99] [42, 44, 33, 91, 97, 44, 98, 93] :=
  agreeing_machines_give_reference ⟨[99], by decide⟩ ⟨[42, 44, 33, 91, 97, 44, 98, 93], by decide⟩
    (by simp [Agrees, read, splitter])

/-- The class that the search begins at an escaped bracket has no end, and the NUL becomes the
last byte of the pattern. -/
theorem escaped_bracket_differs :
    ¬∀ text expr : CString,
      (uwildmat text.1 expr.1 = true ↔ reference false text.1 expr.1 = .UWILDMAT_MATCH) ∧
        uwildmat_poison text.1 expr.1 = reference true text.1 expr.1 := by
  intro h
  have hcode : uwildmat_poison [91] [92, 91] = .UWILDMAT_FAIL := by decide +kernel
  have hreference : reference true [91] [92, 91] = .UWILDMAT_MATCH := by decide +kernel
  have heq := (h ⟨[91], by decide⟩ ⟨[92, 91], by decide⟩).2
  rw [hcode, hreference] at heq
  cases heq

end Inn.Libinn.Uwildmat
