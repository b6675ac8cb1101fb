import Mathlib.Data.Nat.Notation
import Mathlib.Data.List.Basic

/-!
# Inn.Quoting — texts in quotes

A language says how a text in quotes is read: where it closes, which character starts an
escape, what the escapes are for, and which characters have a meaning of their own. A
writer puts the escape character in front of those it has marked.

* `read_quoted` — what is written is read back, if the writer has marked all it has to, and
  reading stops at the closing quote.
-/

namespace Inn

/-- How a text in quotes is read. -/
structure Quoting (α : Type*) where
  close : α
  escape : α
  /-- What a character after `escape` makes, where it says that by itself. -/
  decode : α → Option (List α)
  /-- The characters that are not read as themselves. -/
  special : α → Bool

namespace Quoting

variable {α : Type*} [DecidableEq α] (q : Quoting α) {marked : α → Bool} {value rest : List α}

/-- The text up to the closing quote, and what follows it. -/
def read : List α → Option (List α × List α)
  | [] => none
  | [c] => if c = q.close then some ([], []) else none
  | c :: d :: s =>
    if c = q.close then some ([], d :: s)
    else if c = q.escape then
      (q.decode d).bind fun out => (read s).map fun (value, rest) => (out ++ value, rest)
    else if q.special c then none
    else (read (d :: s)).map fun (value, rest) => (c :: value, rest)

omit [DecidableEq α] in
/-- A text with the escape character in front of those that are marked. -/
def quoted (marked : α → Bool) (value : List α) : List α :=
  value.flatMap fun c => if marked c then [q.escape, c] else [c]

/-- The marked characters are read as themselves after the escape character, and no other
character has a meaning. -/
structure Suits (marked : α → Bool) : Prop where
  escape_ne : q.escape ≠ q.close
  escaped : ∀ c, marked c = true → q.decode c = some [c]
  plain : ∀ c, marked c = false → c ≠ q.close ∧ c ≠ q.escape ∧ q.special c = false

variable {q}

theorem read_close : q.read (q.close :: rest) = some ([], rest) := by
  cases rest <;> simp only [read, if_true]

/-- What is written is read back. -/
theorem read_quoted (h : q.Suits marked) :
    q.read (q.quoted marked value ++ q.close :: rest) = some (value, rest) := by
  induction value with
  | nil => exact read_close
  | cons c value ih =>
    rw [quoted, List.flatMap_cons, List.append_assoc, ← quoted]
    cases hc : marked c with
    | true =>
      simp only [if_true, List.cons_append, List.nil_append, read, if_neg h.escape_ne,
        h.escaped c hc, Option.bind_some, ih, Option.map_some]
    | false =>
      obtain ⟨hclose, hescape, hspecial⟩ := h.plain c hc
      obtain ⟨d, s, hs⟩ : ∃ d s, q.quoted marked value ++ q.close :: rest = d :: s :=
        List.exists_cons_of_ne_nil (by simp)
      rw [hs] at ih ⊢
      simp only [Bool.false_eq_true, if_false, List.cons_append, List.nil_append, read,
        if_neg hclose, if_neg hescape, hspecial, ih, Option.map_some]

end Quoting

end Inn
