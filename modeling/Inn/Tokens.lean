import Mathlib.Data.List.Basic
import Mathlib.Data.List.TakeWhile

/-!
# Inn.Tokens — the words of a text

The words of a text are its longest non-empty runs without separators, in order.

* `tokens` — the words, with `tokens_sep` and `tokens_word` to walk over a text, and
  `tokens_induction`, the induction that goes with them;
* `mem_of_mem_tokens`, `exists_mem_tokens` — what is not a separator is in a word;
* `exists_prefix_tokens` — a word begins wherever one can.
-/

namespace Inn

variable {α : Type*}

/-- The words. -/
def tokens (sep : α → Bool) (p : List α) : List (List α) :=
  (p.splitOnP sep).filter fun w => !w.isEmpty

section Tokens

variable {sep sep' : α → Bool} {p w pre : List α} {c : α}

@[simp] theorem tokens_nil : tokens sep ([] : List α) = [] := rfl

/-- A separator begins no word. -/
theorem tokens_sep (h : sep c = true) (p : List α) : tokens sep (c :: p) = tokens sep p := by
  unfold tokens
  rw [List.splitOnP_cons_eq_if_modifyHead, if_pos h]
  rfl

/-- Words before a separator and behind it. -/
theorem tokens_append_sep (h : sep c = true) (pre p : List α) :
    tokens sep (pre ++ c :: p) = tokens sep pre ++ tokens sep p := by
  unfold tokens
  rw [List.splitOnP_append_cons _ _ h, List.filter_append]

/-- A word that a separator or the end of the text follows. -/
theorem tokens_word (hne : w ≠ []) (hw : ∀ c ∈ w, sep c = false) (hp : ∀ d ∈ p.head?, sep d = true) :
    tokens sep (w ++ p) = w :: tokens sep p := by
  have hsingle : tokens sep w = [w] := by
    unfold tokens
    rw [List.splitOnP_eq_singleton hw]
    cases w with
    | nil => exact absurd rfl hne
    | cons c w => rfl
  cases p with
  | nil =>
    rw [List.append_nil]
    exact hsingle
  | cons d p =>
    have hd : sep d = true := hp d rfl
    rw [tokens_append_sep hd, hsingle, tokens_sep hd]
    rfl

/-- The word at the beginning of a text and what follows it. -/
theorem word_spec (sep : α → Bool) (h : sep c = false) (p : List α) : ∃ w rest,
    (c :: p).takeWhile (fun c => !sep c) = w ∧ (c :: p).dropWhile (fun c => !sep c) = rest ∧
      c :: p = w ++ rest ∧ w ≠ [] ∧ (∀ c ∈ w, sep c = false) ∧ (∀ d ∈ rest.head?, sep d = true) ∧
      rest.length ≤ p.length := by
  have hsplit := List.takeWhile_append_dropWhile (p := fun c => !sep c) (l := c :: p)
  have htake : (c :: p).takeWhile (fun c => !sep c) = c :: p.takeWhile (fun c => !sep c) :=
    List.takeWhile_cons_of_pos (by rw [h]; rfl)
  refine ⟨_, _, rfl, rfl, hsplit.symm, htake ▸ List.cons_ne_nil _ _, ?_, ?_, ?_⟩
  · intro d hd
    have := List.mem_takeWhile_imp hd
    simpa using this
  · intro d hd
    have := List.head?_dropWhile_not (fun c => !sep c) (c :: p)
    rw [Option.mem_def.mp hd] at this
    simpa using this
  · have hlen := congrArg List.length hsplit
    rw [List.length_append, htake, List.length_cons, List.length_cons] at hlen
    omega

/-- Induction over a text word by word. -/
theorem tokens_induction (sep : α → Bool) {motive : List α → Prop} (nil : motive [])
    (skip : ∀ c p, sep c = true → motive p → motive (c :: p))
    (word : ∀ w p, w ≠ [] → (∀ c ∈ w, sep c = false) → (∀ d ∈ p.head?, sep d = true) → motive p →
      motive (w ++ p)) (p : List α) : motive p := by
  induction hlen : p.length using Nat.strongRecOn generalizing p with
  | ind n ih =>
    cases p with
    | nil => exact nil
    | cons c p =>
      rw [List.length_cons] at hlen
      cases hc : sep c with
      | true => exact skip c p hc (ih p.length (by omega) p rfl)
      | false =>
        obtain ⟨w, rest, -, -, hsplit, hne, hw, hrest, hshort⟩ := word_spec sep hc p
        rw [hsplit]
        exact word w rest hne hw hrest (ih rest.length (by omega) rest rfl)

/-- Separators in front. -/
theorem tokens_dropWhile (p : List α) : tokens sep (p.dropWhile sep) = tokens sep p := by
  induction p with
  | nil => rfl
  | cons c p ih =>
    cases hc : sep c with
    | true =>
      rw [List.dropWhile_cons_of_pos hc, tokens_sep hc]
      exact ih
    | false => rw [List.dropWhile_cons_of_neg (Bool.not_eq_true _ ▸ hc)]

theorem tokens_skip (h : ∀ c ∈ pre, sep c = true) : tokens sep (pre ++ p) = tokens sep p := by
  rw [← tokens_dropWhile (pre ++ p), List.dropWhile_append_of_pos h, tokens_dropWhile]

/-- One separator in front. -/
theorem tokens_tail (hp : ∀ d ∈ p.head?, sep d = true) : tokens sep p.tail = tokens sep p := by
  cases p with
  | nil => rfl
  | cons d p => exact (tokens_sep (hp d rfl) p).symm

theorem ne_nil_of_mem_tokens (h : w ∈ tokens sep p) : w ≠ [] := by
  have := (List.mem_filter.mp h).2
  rintro rfl
  cases this

/-- The elements of a word. -/
theorem mem_of_mem_tokens (h : w ∈ tokens sep p) (hc : c ∈ w) : sep c = false ∧ c ∈ p := by
  induction p using tokens_induction sep with
  | nil => exact absurd h List.not_mem_nil
  | skip d p hd ih =>
    rw [tokens_sep hd] at h
    exact ⟨(ih h).1, List.mem_cons_of_mem _ (ih h).2⟩
  | word v p hne hv hp ih =>
    rw [tokens_word hne hv hp] at h
    rcases List.mem_cons.mp h with rfl | h
    · exact ⟨hv c hc, List.mem_append_left _ hc⟩
    · exact ⟨(ih h).1, List.mem_append_right _ (ih h).2⟩

/-- Where a word stands. -/
theorem split_of_mem_tokens (h : w ∈ tokens sep p) :
    ∃ pre post, p = pre ++ w ++ post ∧ ∀ d ∈ pre.getLast?, sep d = true := by
  induction p using tokens_induction sep with
  | nil => exact absurd h List.not_mem_nil
  | skip d p hd ih =>
    rw [tokens_sep hd] at h
    obtain ⟨pre, post, rfl, hpre⟩ := ih h
    refine ⟨d :: pre, post, rfl, fun e he => ?_⟩
    cases pre with
    | nil =>
      cases he
      exact hd
    | cons e' pre => exact hpre e (List.getLast?_cons_cons ▸ he)
  | word v p hne hv hp ih =>
    rw [tokens_word hne hv hp] at h
    rcases List.mem_cons.mp h with rfl | h
    · exact ⟨[], p, rfl, fun d hd => by cases hd⟩
    · obtain ⟨pre, post, rfl, hpre⟩ := ih h
      refine ⟨v ++ pre, post, by simp only [List.append_assoc], fun e he => ?_⟩
      cases pre with
      | nil =>
        -- the word would begin where the one before it ends
        obtain ⟨c, w, rfl⟩ := List.exists_cons_of_ne_nil (ne_nil_of_mem_tokens h)
        have hsep := hp c rfl
        exact absurd hsep ((mem_of_mem_tokens h List.mem_cons_self).1 ▸ Bool.false_ne_true)
      | cons e' pre =>
        rw [List.getLast?_append_of_ne_nil _ (List.cons_ne_nil _ _)] at he
        exact hpre e he

/-- What is not a separator is in a word. -/
theorem exists_mem_tokens (hmem : c ∈ p) (hc : sep c = false) : ∃ w ∈ tokens sep p, c ∈ w := by
  induction p using tokens_induction sep with
  | nil => exact absurd hmem List.not_mem_nil
  | skip d p hd ih =>
    rw [tokens_sep hd]
    refine ih ((List.mem_cons.mp hmem).resolve_left ?_)
    rintro rfl
    exact absurd hd (hc ▸ Bool.false_ne_true)
  | word v p hne hv hp ih =>
    rw [tokens_word hne hv hp]
    rcases List.mem_append.mp hmem with hmem | hmem
    · exact ⟨v, List.mem_cons_self, hmem⟩
    · obtain ⟨w, hw, hcw⟩ := ih hmem
      exact ⟨w, List.mem_cons_of_mem _ hw, hcw⟩

/-- Separators that no element of the text tells apart. -/
theorem tokens_congr (h : ∀ c ∈ p, sep c = sep' c) : tokens sep p = tokens sep' p := by
  induction p using tokens_induction sep with
  | nil => rfl
  | skip d p hd ih =>
    rw [tokens_sep hd, tokens_sep (h d List.mem_cons_self ▸ hd)]
    exact ih fun c hc => h c (List.mem_cons_of_mem _ hc)
  | word v p hne hv hp ih =>
    have hv' : ∀ c ∈ v, sep' c = false := fun c hc => h c (List.mem_append_left _ hc) ▸ hv c hc
    have hp' : ∀ d ∈ p.head?, sep' d = true := fun d hd =>
      h d (List.mem_append_right _ (List.mem_of_head? hd)) ▸ hp d hd
    rw [tokens_word hne hv hp, tokens_word hne hv' hp',
      ih fun c hc => h c (List.mem_append_right _ hc)]

/-- A word begins where one can. -/
theorem exists_prefix_tokens (hpre : ∀ d ∈ pre.getLast?, sep d = true) (hne : w ≠ [])
    (hw : ∀ c ∈ w, sep c = false) (p : List α) : ∃ g ∈ tokens sep (pre ++ w ++ p), w <+: g := by
  have hhead : ∃ g ∈ tokens sep (w ++ p), w <+: g := by
    obtain ⟨c, v, rfl⟩ := List.exists_cons_of_ne_nil hne
    obtain ⟨g, rest, hg, -, hsplit, hgne, hgsep, hrest, -⟩ :=
      word_spec sep (hw c List.mem_cons_self) (v ++ p)
    refine ⟨g, ?_, ?_⟩
    · rw [List.cons_append, hsplit, tokens_word hgne hgsep hrest]
      exact List.mem_cons_self
    · rw [← hg, ← List.cons_append, List.takeWhile_append_of_pos fun c hc => by rw [hw c hc]; rfl]
      exact List.prefix_append _ _
  rcases List.eq_nil_or_concat pre with rfl | ⟨pre, d, rfl⟩
  · exact hhead
  · rw [List.concat_eq_append] at hpre ⊢
    have hd := hpre d List.getLast?_concat
    obtain ⟨g, hg, hprefix⟩ := hhead
    refine ⟨g, ?_, hprefix⟩
    rw [List.append_assoc, List.append_assoc, List.singleton_append, tokens_append_sep hd]
    exact List.mem_append_right _ hg

end Tokens

end Inn
