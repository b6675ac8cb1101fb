import Mathlib.Data.List.Infix
import Inn.Tokens
import Inn.Libinn.Date

/-!
# Inn.Libinn.Cfws — words between comments and folding white space

`spaced_words_without_cfws` of `headers.c`.

* `marks` — which octets of a text are comments and folding white space, and which are not;
* `skip_cfws_marks` — `skip_cfws` passes over the first ones;
* `spaced_words_eq` — what the function returns and how much it writes;
* `spaced_words_iff` — when that is the words with one space between them.
-/

namespace Inn.Libinn.Cfws

open Inn.Libinn.Date (skip_cfws)

/-! ## The function -/

theorem length_skip_cfws (nesting : ℕ) (p : List UInt8) :
    (skip_cfws nesting p).length ≤ p.length := by
  fun_induction skip_cfws nesting p with
  | case1 => exact Nat.le_refl _
  | case2 _ _ _ _ ih => exact ih.trans (Nat.le_succ _)
  | case3 => exact Nat.le_refl _
  | case4 _ _ _ _ ih => exact ih.trans (Nat.le_succ _)
  | case5 _ _ _ _ ih => exact ih.trans (Nat.le_succ _)
  | case6 => exact Nat.le_refl _
  | case7 _ _ _ _ _ _ ih => exact ih.trans (Nat.le_succ _)
  | case8 => exact Nat.le_refl _
  | case9 => exact Nat.le_refl _
  | case10 _ _ _ _ _ _ _ _ ih => exact ih.trans ((Nat.le_succ _).trans (Nat.le_succ _))
  | case11 => exact Nat.le_refl _
  | case12 _ _ _ _ _ _ _ _ _ ih => exact ih.trans (Nat.le_succ _)

/-- The octets on sight of which a space is kept. -/
def keepsSpace (p : List UInt8) : Bool :=
  p.head?.any fun c => c == 32 || c == 9 || c == 13 || c == 10 || c == 40

/-- The loop of `spaced_words_without_cfws`: what it appends, and `trailingspace`. -/
def spacedFrom (trailingspace : Bool) (p : List UInt8) : List UInt8 × Bool :=
  match _h : skip_cfws 0 p with
  | [] => ([], trailingspace)
  | c :: q =>
    let rest := spacedFrom (keepsSpace q) q
    (c :: ((if keepsSpace q then [32] else []) ++ rest.1), rest.2)
termination_by p.length
decreasing_by
  have := length_skip_cfws 0 p
  rw [_h, List.length_cons] at this
  omega

/-- `spaced_words_without_cfws`: the string, and how many octets are written for it. -/
def spaced_words_without_cfws (p : List UInt8) : List UInt8 × ℕ :=
  let (buff, trailingspace) := spacedFrom false p
  let text := if trailingspace then buff.dropLast else buff
  (text, max buff.length (text.length + 1))

/-! ## Comments and folding white space -/

/-- Each octet of a text, or nothing where it is part of a comment or of folding white space,
in so many comments. A comment that is not closed goes to the end; only a last backslash,
which quotes nothing, is no part of it. -/
def marks : ℕ → List UInt8 → List (Option UInt8)
  | _, [] => []
  | 0, c :: p =>
    if c = 32 ∨ c = 9 ∨ c = 10 ∨ (c = 13 ∧ p.head? = some 10) then none :: marks 0 p
    else if c = 40 then none :: marks 1 p
    else some c :: marks 0 p
  | _ + 1, [92] => [some 92]
  | n + 1, 92 :: _ :: p => none :: none :: marks (n + 1) p
  | n + 1, c :: p =>
    if c = 40 then none :: marks (n + 2) p
    else if c = 41 then none :: marks n p
    else none :: marks (n + 1) p

/-- The words of a text: its longest runs of octets that are no such part. -/
def words (p : List UInt8) : List (List UInt8) :=
  (tokens Option.isNone (marks 0 p)).map (List.filterMap id)

/-- What is inside a comment. -/
inductive CommentText : List UInt8 → Prop where
  | nil : CommentText []
  | char {c : UInt8} {t : List UInt8} : c ≠ 40 → c ≠ 41 → c ≠ 92 → CommentText t →
      CommentText (c :: t)
  | quoted {c : UInt8} {t : List UInt8} : CommentText t → CommentText (92 :: c :: t)
  | nested {s t : List UInt8} : CommentText s → CommentText t →
      CommentText (40 :: s ++ 41 :: t)

section Marks

variable {c : UInt8} {p t : List UInt8}

theorem marks_white (h : c = 32 ∨ c = 9 ∨ c = 10 ∨ (c = 13 ∧ p.head? = some 10)) :
    marks 0 (c :: p) = none :: marks 0 p := by
  rw [marks, if_pos h]

theorem marks_word (h : ¬ (c = 32 ∨ c = 9 ∨ c = 10 ∨ (c = 13 ∧ p.head? = some 10)))
    (h40 : c ≠ 40) : marks 0 (c :: p) = some c :: marks 0 p := by
  rw [marks, if_neg h, if_neg h40]

theorem marks_open (n : ℕ) (p : List UInt8) : marks n (40 :: p) = none :: marks (n + 1) p := by
  cases n with
  | zero => rfl
  | succ n => rfl

theorem marks_close (n : ℕ) (p : List UInt8) : marks (n + 1) (41 :: p) = none :: marks n p := rfl

theorem marks_quoted (n : ℕ) (c : UInt8) (p : List UInt8) :
    marks (n + 1) (92 :: c :: p) = none :: none :: marks (n + 1) p := rfl

theorem marks_char (n : ℕ) (h40 : c ≠ 40) (h41 : c ≠ 41) (h92 : c ≠ 92) (p : List UInt8) :
    marks (n + 1) (c :: p) = none :: marks (n + 1) p := by
  rw [marks.eq_def]
  split
  · rename_i heq
    cases heq
  · rename_i hzero _
    cases hzero
  · rename_i heq
    exact absurd (List.cons.inj heq).1 h92
  · rename_i heq
    exact absurd (List.cons.inj heq).1 h92
  · rename_i hsucc heq
    cases hsucc
    cases heq
    rw [if_neg h40, if_neg h41]

/-- `skip_cfws` passes over a comment and white space. -/
theorem skip_cfws_marks (n : ℕ) (p : List UInt8) :
    ∃ k, marks n p = List.replicate k none ++ marks 0 (skip_cfws n p) ∧
      ∀ c q, skip_cfws n p = c :: q → marks 0 (c :: q) = some c :: marks 0 q := by
  have hstep : ∀ {m m' : ℕ} {c : UInt8} {q : List UInt8},
      marks m (c :: q) = none :: marks m' q →
      (∃ k, marks m' q = List.replicate k none ++ marks 0 (skip_cfws m' q) ∧
        ∀ c r, skip_cfws m' q = c :: r → marks 0 (c :: r) = some c :: marks 0 r) →
      ∃ k, marks m (c :: q) = List.replicate k none ++ marks 0 (skip_cfws m' q) ∧
        ∀ c r, skip_cfws m' q = c :: r → marks 0 (c :: r) = some c :: marks 0 r := by
    rintro m m' c q hmarks ⟨k, hk, hword⟩
    exact ⟨k + 1, by rw [hmarks, hk]; rfl, hword⟩
  have hstay : ∀ {c : UInt8} {q : List UInt8}, marks 0 (c :: q) = some c :: marks 0 q →
      ∃ k, marks 0 (c :: q) = List.replicate k none ++ marks 0 (c :: q) ∧
        ∀ d r, c :: q = d :: r → marks 0 (d :: r) = some d :: marks 0 r := by
    intro c q hmarks
    refine ⟨0, rfl, fun d r heq => ?_⟩
    obtain ⟨rfl, rfl⟩ := List.cons.inj heq
    exact hmarks
  fun_induction skip_cfws n p with
  | case1 n =>
    refine ⟨0, ?_, fun c q h => by cases h⟩
    cases n with
    | zero => rfl
    | succ n => rfl
  | case2 n c p hc ih =>
    refine hstep ?_ ih
    cases n with
    | zero => exact marks_white (by tauto)
    | succ n =>
      rcases hc with rfl | rfl | rfl
      · exact marks_char n (by decide) (by decide) (by decide) p
      · exact marks_char n (by decide) (by decide) (by decide) p
      · exact marks_char n (by decide) (by decide) (by decide) p
  | case3 n p hcr hc =>
    obtain ⟨hlf, rfl⟩ := hcr
    exact hstay (marks_word (by tauto) (by decide))
  | case4 n p hcr hc ih =>
    refine hstep ?_ ih
    cases n with
    | zero => exact marks_white (.inr (.inr (.inr ⟨rfl, by tauto⟩)))
    | succ n => exact marks_char n (by decide) (by decide) (by decide) p
  | case5 n p _ _ ih => exact hstep (marks_open n p) ih
  | case6 p _ _ _ => exact hstay rfl
  | case7 n p hn _ _ _ ih =>
    obtain ⟨m, rfl⟩ := Nat.exists_eq_succ_of_ne_zero hn
    exact hstep (marks_close m p) ih
  | case8 n _ _ _ _ =>
    -- the last backslash
    refine ⟨0, ?_, fun c q h => ?_⟩
    · cases n with
      | zero => rfl
      | succ n => rfl
    · cases h
      rfl
  | case9 c p _ _ _ _ => exact hstay rfl
  | case10 n c p hn _ _ _ _ ih =>
    obtain ⟨m, rfl⟩ := Nat.exists_eq_succ_of_ne_zero hn
    obtain ⟨k, hk, hword⟩ := ih
    refine ⟨k + 2, ?_, hword⟩
    rw [Nat.succ_eq_add_one, marks_quoted, hk]
    rfl
  | case11 c p hc h13 h40 h41 h92 => exact hstay (marks_word (by tauto) h40)
  | case12 n c p hc h13 h40 h41 h92 hn ih =>
    obtain ⟨m, rfl⟩ := Nat.exists_eq_succ_of_ne_zero hn
    exact hstep (marks_char m h40 h41 h92 p) ih

end Marks

/-! ## What the function returns -/

/-- The loop on marks. -/
def spacedMarks (trailingspace : Bool) : List (Option UInt8) → List UInt8 × Bool
  | [] => ([], trailingspace)
  | none :: ms => spacedMarks trailingspace ms
  | some c :: ms =>
    let keeps := ms.head? == some none || ms.head? == some (some 13)
    let rest := spacedMarks keeps ms
    (c :: ((if keeps then [32] else []) ++ rest.1), rest.2)

/-- A word with a space in front of each CR inside. -/
def spread : List UInt8 → List UInt8
  | [] => []
  | [c] => [c]
  | c :: d :: w => if d = 13 then c :: 32 :: spread (d :: w) else c :: spread (d :: w)

section Loop

variable {p w : List UInt8} {ms : List (Option UInt8)}

theorem keepsSpace_marks (q : List UInt8) :
    keepsSpace q = ((marks 0 q).head? == some none || (marks 0 q).head? == some (some 13)) := by
  rcases q with _ | ⟨c, q⟩
  · rfl
  · by_cases hwhite : c = 32 ∨ c = 9 ∨ c = 10 ∨ (c = 13 ∧ q.head? = some 10)
    · rw [marks_white hwhite]
      rcases hwhite with rfl | rfl | rfl | ⟨rfl, -⟩
      · rfl
      · rfl
      · rfl
      · rfl
    · by_cases h40 : c = 40
      · subst h40
        rfl
      · rw [marks_word hwhite h40]
        simp only [not_or] at hwhite
        obtain ⟨h32, h9, h10, -⟩ := hwhite
        rw [keepsSpace, List.head?_cons, Option.any_some, beq_eq_false_iff_ne.mpr h32,
          beq_eq_false_iff_ne.mpr h9, beq_eq_false_iff_ne.mpr h10, beq_eq_false_iff_ne.mpr h40]
        by_cases h13 : c = 13
        · subst h13
          rfl
        · rw [beq_eq_false_iff_ne.mpr h13, List.head?_cons]
          simp [h13]

theorem spacedMarks_none (trailingspace : Bool) (k : ℕ) (ms : List (Option UInt8)) :
    spacedMarks trailingspace (List.replicate k none ++ ms) = spacedMarks trailingspace ms := by
  induction k with
  | zero => rfl
  | succ k ih => exact ih

theorem spacedFrom_marks (trailingspace : Bool) (p : List UInt8) :
    spacedFrom trailingspace p = spacedMarks trailingspace (marks 0 p) := by
  induction hn : p.length using Nat.strongRecOn generalizing trailingspace p with
  | ind n ih =>
    obtain ⟨k, hk, hword⟩ := skip_cfws_marks 0 p
    have hle := length_skip_cfws 0 p
    rw [hk, spacedMarks_none, spacedFrom]
    split
    · rename_i hnil
      rw [hnil]
      rfl
    · rename_i c q hcons
      rw [hcons, List.length_cons] at hle
      rw [hcons, hword c q hcons, spacedMarks, ← keepsSpace_marks,
        ih q.length (by omega) (keepsSpace q) q rfl]

/-- A word, and what follows it. -/
theorem spacedMarks_word (hne : w ≠ []) (hms : ∀ m ∈ ms.head?, m = none) (trailingspace : Bool) :
    spacedMarks trailingspace (w.map some ++ ms) =
      (spread w ++ ((if ms = [] then [] else [32]) ++ (spacedMarks (!ms.isEmpty) ms).1),
        (spacedMarks (!ms.isEmpty) ms).2) := by
  induction w generalizing trailingspace with
  | nil => exact absurd rfl hne
  | cons c w ih =>
    rw [List.map_cons, List.cons_append, spacedMarks]
    cases w with
    | nil =>
      have hkeeps : (ms.head? == some none || ms.head? == some (some 13)) = !ms.isEmpty := by
        rcases ms with _ | ⟨m, ms⟩
        · rfl
        · rw [hms m rfl]
          rfl
      rw [List.map_nil, List.nil_append, hkeeps, spread]
      rcases ms with _ | ⟨m, ms⟩
      · rfl
      · rfl
    | cons d w =>
      have hkeeps : (((d :: w).map some ++ ms).head? == some none ||
          ((d :: w).map some ++ ms).head? == some (some 13)) = decide (d = 13) := by
        by_cases h13 : d = 13
        · subst h13
          rfl
        · simp [h13]
      rw [hkeeps, ih (List.cons_ne_nil d w), spread]
      by_cases h13 : d = 13
      · rw [if_pos h13, decide_eq_true h13]
        rfl
      · rw [if_neg h13, decide_eq_false h13]
        rfl

theorem exists_word {w : List (Option UInt8)} (hw : ∀ c ∈ w, Option.isNone c = false) :
    ∃ v : List UInt8, w = v.map some := by
  induction w with
  | nil => exact ⟨[], rfl⟩
  | cons c w ih =>
    obtain ⟨v, rfl⟩ := ih fun d hd => hw d (List.mem_cons_of_mem c hd)
    rcases c with _ | c
    · exact absurd (hw none List.mem_cons_self) (by decide)
    · exact ⟨c :: v, rfl⟩

/-- The words with a space between them, each as `f` has it. -/
def joined (f : List UInt8 → List UInt8) (ws : List (List UInt8)) : List UInt8 :=
  [32].intercalate (ws.map f)

theorem joined_cons (f : List UInt8 → List UInt8) (w v : List UInt8) (ws : List (List UInt8)) :
    joined f (w :: v :: ws) = f w ++ 32 :: joined f (v :: ws) := by
  rw [joined, List.map_cons, List.map_cons, List.intercalate_cons_cons, joined, List.map_cons]
  simp

/-- What the loop appends: the words, and one space more if white space follows the last. -/
theorem spacedMarks_tokens (ms : List (Option UInt8)) :
    let ws := (tokens Option.isNone ms).map (List.filterMap id)
    (ws = [] → ∀ t, spacedMarks t ms = ([], t)) ∧
    (ws ≠ [] → ∃ t', ∀ t, spacedMarks t ms =
      (joined spread ws ++ (if t' then [32] else []), t')) := by
  induction ms using tokens_induction Option.isNone with
  | nil => exact ⟨fun _ t => rfl, fun h => absurd rfl h⟩
  | skip m ms hm ih =>
    obtain rfl : m = none := Option.isNone_iff_eq_none.mp hm
    rw [tokens_sep hm]
    exact ih
  | word w ms hne hw hms ih =>
    rw [tokens_word hne hw hms]
    obtain ⟨v, rfl⟩ := exists_word hw
    have hv : v ≠ [] := fun h => hne (congrArg (List.map some) h)
    have hnone : ∀ m ∈ ms.head?, m = none := fun m hm => Option.isNone_iff_eq_none.mp (hms m hm)
    have hword : (v.map some).filterMap id = v := by simp
    have hstep := spacedMarks_word hv hnone
    rw [List.map_cons, hword]
    refine ⟨fun h => absurd h (List.cons_ne_nil _ _), fun _ => ?_⟩
    cases ms with
    | nil => exact ⟨false, fun t => (hstep t).trans (by simp [joined, spacedMarks])⟩
    | cons m ms =>
      rcases hws : (tokens Option.isNone (m :: ms)).map (List.filterMap id) with _ | ⟨u, us⟩
      · refine ⟨true, fun t => (hstep t).trans ?_⟩
        rw [ih.1 hws]
        simp [joined]
      · obtain ⟨t', ht'⟩ := ih.2 (hws ▸ List.cons_ne_nil u us)
        refine ⟨t', fun t => (hstep t).trans ?_⟩
        rw [ht', hws, joined_cons]
        simp

/-- What `spaced_words_without_cfws` returns and how much it writes. -/
theorem spaced_words_eq (p : List UInt8) :
    spaced_words_without_cfws p =
      (joined spread (words p), (joined spread (words p)).length + 1) := by
  obtain ⟨hnil, hcons⟩ := spacedMarks_tokens (marks 0 p)
  rw [spaced_words_without_cfws, spacedFrom_marks]
  by_cases hws : words p = []
  · rw [hnil hws, hws]
    rfl
  · obtain ⟨t', ht'⟩ := hcons hws
    have hlen : ∀ text : List UInt8, max text.length (text.length + 1) = text.length + 1 :=
      fun text => Nat.max_eq_right (Nat.le_succ _)
    rw [ht']
    cases t' with
    | false =>
      dsimp only
      rw [if_neg Bool.false_ne_true, if_neg Bool.false_ne_true, List.append_nil, hlen]
      rfl
    | true =>
      dsimp only
      rw [if_pos rfl, if_pos rfl, List.dropLast_concat, List.length_append, List.length_singleton,
        Nat.max_self]
      rfl

/-! ## When that is right -/

theorem length_spread (w : List UInt8) : w.length ≤ (spread w).length := by
  induction w using spread.induct with
  | case1 => exact Nat.le_refl _
  | case2 => exact Nat.le_refl _
  | case3 c w ih =>
    rw [spread, if_pos rfl]
    simp only [List.length_cons] at ih ⊢
    omega
  | case4 c d w h13 ih =>
    rw [spread, if_neg h13]
    exact Nat.succ_le_succ ih

/-- A word without a CR behind its first octet stays as it is, and no other one. -/
theorem spread_eq_self (w : List UInt8) : (spread w).length = w.length ↔ 13 ∉ w.tail := by
  induction w using spread.induct with
  | case1 => exact iff_of_true rfl List.not_mem_nil
  | case2 => exact iff_of_true rfl List.not_mem_nil
  | case3 c w ih =>
    have := length_spread (13 :: w)
    refine iff_of_false ?_ (not_not_intro List.mem_cons_self)
    rw [spread, if_pos rfl]
    simp only [List.length_cons] at this ⊢
    omega
  | case4 c d w h13 ih =>
    rw [spread, if_neg h13, List.length_cons, List.length_cons, Nat.add_right_cancel_iff, ih,
      List.tail_cons, List.tail_cons, List.mem_cons, not_or]
    exact ⟨fun h => ⟨Ne.symm h13, h⟩, fun h => h.2⟩

theorem spread_of_not_mem (h : 13 ∉ w.tail) : spread w = w := by
  induction w using spread.induct with
  | case1 => rfl
  | case2 => rfl
  | case3 => exact absurd List.mem_cons_self h
  | case4 c d w h13 ih =>
    rw [spread, if_neg h13, ih fun hd => h (List.mem_cons_of_mem d hd)]

theorem length_joined (ws : List (List UInt8)) :
    (joined id ws).length ≤ (joined spread ws).length := by
  induction ws with
  | nil => exact Nat.le_refl _
  | cons w ws ih =>
    have := length_spread w
    cases ws with
    | nil => simpa [joined] using this
    | cons v ws =>
      rw [joined_cons, joined_cons, List.length_append, List.length_append, List.length_cons,
        List.length_cons, id]
      omega

theorem joined_spread_iff (ws : List (List UInt8)) :
    joined spread ws = joined id ws ↔ ∀ w ∈ ws, 13 ∉ w.tail := by
  constructor
  · intro h
    induction ws with
    | nil => exact fun w hw => absurd hw List.not_mem_nil
    | cons w ws ih =>
      intro u hu
      cases ws with
      | nil =>
        have hspread : spread w = w := by simpa [joined] using h
        rw [List.mem_singleton.mp hu]
        exact (spread_eq_self w).mp (congrArg List.length hspread)
      | cons v ws =>
        rw [joined_cons, joined_cons, id] at h
        have hlen := congrArg List.length h
        have hle := length_spread w
        have hle' := length_joined (v :: ws)
        rw [List.length_append, List.length_append, List.length_cons, List.length_cons] at hlen
        have hw : 13 ∉ w.tail := (spread_eq_self w).mp (by omega)
        rw [spread_of_not_mem hw] at h
        rcases List.mem_cons.mp hu with rfl | hu
        · exact hw
        · exact ih (List.cons.inj (List.append_cancel_left h)).2 u hu
  · intro h
    rw [joined, joined]
    exact congrArg _ (List.map_congr_left fun w hw => spread_of_not_mem (h w hw))

theorem length_marks (n : ℕ) (p : List UInt8) : (marks n p).length = p.length := by
  fun_induction marks n p with
  | case1 => rfl
  | case2 _ _ _ ih => exact congrArg Nat.succ ih
  | case3 _ _ ih => exact congrArg Nat.succ ih
  | case4 _ _ _ _ ih => exact congrArg Nat.succ ih
  | case5 => rfl
  | case6 _ _ _ ih => exact congrArg (Nat.succ ∘ Nat.succ) ih
  | case7 _ _ _ _ ih => exact congrArg Nat.succ ih
  | case8 _ _ _ _ _ ih => exact congrArg Nat.succ ih
  | case9 _ _ _ _ _ _ _ ih => exact congrArg Nat.succ ih

/-- The words are not longer than the text; each space between them stands for an octet. -/
theorem length_words (ms : List (Option UInt8)) :
    let text := joined id ((tokens Option.isNone ms).map (List.filterMap id))
    text.length ≤ ms.length ∧ (ms.head? = some none → text.length + 1 ≤ ms.length) := by
  induction ms using tokens_induction Option.isNone with
  | nil => exact ⟨Nat.le_refl _, fun h => by cases h⟩
  | skip m ms hm ih =>
    rw [tokens_sep hm]
    exact ⟨ih.1.trans (Nat.le_succ _), fun _ => Nat.succ_le_succ ih.1⟩
  | word w ms hne hw hms ih =>
    obtain ⟨v, rfl⟩ := exists_word hw
    have hword : (v.map some).filterMap id = v := by simp
    have hhead : (v.map some ++ ms).head? ≠ some none := by
      rcases v with _ | ⟨c, v⟩
      · exact absurd rfl hne
      · exact fun h => by cases h
    rw [tokens_word hne hw hms, List.map_cons, hword]
    refine ⟨?_, fun h => absurd h hhead⟩
    rw [List.length_append, List.length_map]
    rcases hws : (tokens Option.isNone ms).map (List.filterMap id) with _ | ⟨u, us⟩
    · simp [joined]
    · rw [hws] at ih
      rw [joined_cons, id, List.length_append, List.length_cons]
      cases ms with
      | nil => cases hws
      | cons m ms =>
        have := ih.2 (by rw [List.head?_cons, Option.isNone_iff_eq_none.mp (hms m rfl)])
        omega

/-- The words come back with one space between them, and are written where there is room,
exactly when no word has a CR behind its first octet. -/
theorem spaced_words_iff (p : List UInt8) :
    ((spaced_words_without_cfws p).1 = [32].intercalate (words p) ∧
      (spaced_words_without_cfws p).2 ≤ p.length + 1) ↔ ∀ w ∈ words p, 13 ∉ w.tail := by
  have hid : joined id (words p) = [32].intercalate (words p) := by rw [joined, List.map_id]
  have hle := (length_words (marks 0 p)).1
  rw [length_marks] at hle
  rw [spaced_words_eq, ← joined_spread_iff, ← hid]
  constructor
  · exact fun h => h.1
  · intro h
    refine ⟨h, ?_⟩
    rw [h]
    exact Nat.succ_le_succ hle

/-- A CR inside a word: one octet too many is written. -/
theorem lone_cr_overflows :
    (spaced_words_without_cfws [97, 13, 98]).2 = 5 ∧ ¬ 5 ≤ [97, 13, 98].length + 1 ∧
      (spaced_words_without_cfws [97, 13, 98]).1 ≠ [32].intercalate (words [97, 13, 98]) := by
  rw [spaced_words_eq]
  decide

end Loop

end Inn.Libinn.Cfws
