import Mathlib.Data.List.Basic

/-!
# Inn.Frames — length-prefixed frames

A stream of frames, each of which says in its first elements how long it is.

* `Framing` — how the size is read, and which sizes are acceptable;
* `Framing.frames` — the frames a stream begins with, `Framing.rest` what is left;
* `Framing.frames_flatten` — a stream is cut into frames in one way only, so how it was
  cut into pieces on its way does not matter.
-/

namespace Inn

/-- A way to read the size of a frame off its first `header` elements. -/
structure Framing (α : Type*) where
  header : ℕ
  header_pos : 0 < header
  size : List α → ℕ
  size_append : ∀ l m, header ≤ l.length → size (l ++ m) = size l
  /-- The sizes from `bound` on are refused, as are those that do not hold a header. -/
  bound : ℕ

namespace Framing

variable {α : Type*} (F : Framing α)

/-- Sizes a frame may have. -/
def Accepts (n : ℕ) : Prop := F.header ≤ n ∧ n < F.bound

instance (n : ℕ) : Decidable (F.Accepts n) := inferInstanceAs (Decidable (_ ∧ _))

/-- One frame, complete. -/
structure Frame (f : List α) : Prop where
  accepts : F.Accepts (F.size f)
  length : f.length = F.size f

/-- The stream begins with a complete frame. -/
def Complete (l : List α) : Prop :=
  F.header ≤ l.length ∧ F.Accepts (F.size l) ∧ F.size l ≤ l.length

instance (l : List α) : Decidable (F.Complete l) := inferInstanceAs (Decidable (_ ∧ _ ∧ _))

/-- The size of the next frame is known, and is not acceptable. -/
def Refused (l : List α) : Prop := F.header ≤ l.length ∧ ¬ F.Accepts (F.size l)

instance (l : List α) : Decidable (F.Refused l) := inferInstanceAs (Decidable (_ ∧ _))

/-- At most `fuel` frames of a stream. -/
def framesUpTo : ℕ → List α → List (List α)
  | 0, _ => []
  | fuel + 1, l =>
    if F.Complete l then l.take (F.size l) :: framesUpTo fuel (l.drop (F.size l)) else []

/-- The frames a stream begins with. -/
def frames (l : List α) : List (List α) := F.framesUpTo l.length l

/-- What follows the last complete frame. -/
def rest (l : List α) : List α := l.drop (F.frames l).flatten.length

variable {F} {l f : List α} {fs : List (List α)}

theorem Frame.pos (hf : F.Frame f) : 0 < f.length := by
  have := F.header_pos
  have := hf.accepts.1
  have := hf.length
  omega

theorem Frame.size_append (hf : F.Frame f) (l : List α) : F.size (f ++ l) = f.length := by
  rw [F.size_append f l (hf.length ▸ hf.accepts.1), hf.length]

theorem Frame.complete (hf : F.Frame f) (l : List α) : F.Complete (f ++ l) := by
  have hsize := hf.length.symm
  refine ⟨?_, ?_, ?_⟩
  · have := hf.accepts.1
    rw [List.length_append]
    omega
  · rw [hf.size_append l, ← hsize]
    exact hf.accepts
  · rw [hf.size_append l, List.length_append]
    omega

theorem framesUpTo_succ (fuel : ℕ) (l : List α) : F.framesUpTo (fuel + 1) l =
    if F.Complete l then l.take (F.size l) :: F.framesUpTo fuel (l.drop (F.size l)) else [] := rfl

theorem framesUpTo_of_not_complete (h : ¬ F.Complete l) (fuel : ℕ) : F.framesUpTo fuel l = [] := by
  cases fuel with
  | zero => rfl
  | succ fuel => rw [framesUpTo_succ, if_neg h]

/-- Complete frames, and then something that does not begin with one. -/
theorem framesUpTo_flatten (hfs : ∀ f ∈ fs, F.Frame f) (hl : ¬ F.Complete l) {fuel : ℕ}
    (hfuel : fs.length ≤ fuel) : F.framesUpTo fuel (fs.flatten ++ l) = fs := by
  induction fs generalizing fuel with
  | nil => exact framesUpTo_of_not_complete hl fuel
  | cons f fs ih =>
    obtain ⟨fuel, rfl⟩ : ∃ n, fuel = n + 1 := ⟨fuel - 1, by rw [List.length_cons] at hfuel; omega⟩
    have hf := hfs f List.mem_cons_self
    rw [List.flatten_cons, List.append_assoc, framesUpTo_succ, if_pos (hf.complete _),
      hf.size_append, List.take_left, List.drop_left]
    rw [ih (fun f' hf' => hfs f' (List.mem_cons_of_mem f hf')) (Nat.le_of_succ_le_succ hfuel)]

theorem length_le_of_frames (hfs : ∀ f ∈ fs, F.Frame f) : fs.length ≤ fs.flatten.length := by
  induction fs with
  | nil => exact Nat.le_refl 0
  | cons f fs ih =>
    have := (hfs f List.mem_cons_self).pos
    have := ih fun f' hf' => hfs f' (List.mem_cons_of_mem f hf')
    rw [List.length_cons, List.flatten_cons, List.length_append]
    omega

/-- A stream is cut into frames in one way only. -/
theorem frames_flatten (hfs : ∀ f ∈ fs, F.Frame f) (hl : ¬ F.Complete l) :
    F.frames (fs.flatten ++ l) = fs := by
  refine framesUpTo_flatten hfs hl ?_
  have := length_le_of_frames hfs
  rw [List.length_append]
  omega

theorem rest_flatten (hfs : ∀ f ∈ fs, F.Frame f) (hl : ¬ F.Complete l) :
    F.rest (fs.flatten ++ l) = l := by
  rw [rest, frames_flatten hfs hl, List.drop_left]

end Framing

end Inn
