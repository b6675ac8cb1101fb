import Mathlib.Data.List.Basic
import Mathlib.Logic.Function.Basic

/-!
# Inn.Timecaf.Content — what a CAF file is for

A CAF file is a map from article numbers to octets. A new article gets the
number after the highest one given out, so numbers are not reused; a cleaned
file has the articles of the file it replaces.
-/

namespace Inn.Timecaf

open Function (update update_self update_of_ne)

/-- The articles of a CAF file: those up to `High`, where they have not been
removed. -/
structure Content where
  High : ℕ
  art : ℕ → Option (List UInt8)
  above : ∀ n, High < n → art n = none

namespace Content

/-- A file made by `CAFCreateCAFFile` for its first article. -/
def new : Content := ⟨1, fun _ => none, fun _ _ => rfl⟩

/-- The octets become the next article. An article of no octets is entered with
size 0, which is how a missing one looks. -/
def store (c : Content) (text : List UInt8) : Content where
  High := c.High + 1
  art := update c.art (c.High + 1) (if text = [] then none else some text)
  above := by
    intro n hn
    rw [update_of_ne (by omega)]
    exact c.above n (by omega)

def remove (c : Content) (arts : List ℕ) : Content where
  High := c.High
  art n := if n ∈ arts then none else c.art n
  above := by
    intro n hn
    split
    · rfl
    · exact c.above n hn

/-- No article is left. -/
def Empty (c : Content) : Prop := ∀ n, c.art n = none

variable {c : Content} {text : List UInt8} {arts : List ℕ} {n : ℕ}

theorem store_self (h : text ≠ []) : (c.store text).art (c.High + 1) = some text := by
  simp [store, h]

theorem store_of_ne (h : n ≠ c.High + 1) : (c.store text).art n = c.art n :=
  update_of_ne h ..

theorem remove_of_not_mem (h : n ∉ arts) : (c.remove arts).art n = c.art n :=
  if_neg h

end Content

end Inn.Timecaf
