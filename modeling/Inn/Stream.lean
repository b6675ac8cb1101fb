import Mathlib.Data.List.Basic
import Inn.Base

/-!
# Inn.Stream — a buffered stream over a file

The bytes written to a stream wait in its buffer until it is flushed. A write may take a
part of its bytes only, a flush may fail after any of the pending bytes, and what is then
left in the buffer is kept or dropped.

* `Stream.view` — the file as it will be when everything pending is written;
* `Holds` — bytes that stand at a place of a file, and the lemmas that keep them there.
-/

namespace Inn

variable {α : Type*} [Zero α]

/-- Write at a place of a file. What is skipped past the end reads as zeros. -/
def writeAt (file : List α) (pos : ℕ) : List α → List α
  | [] => file
  | b :: bytes => writeAt (pwrite file pos b) (pos + 1) bytes

omit [Zero α] in
/-- The bytes stand at a place of the file. -/
def Holds (file : List α) (q : ℕ) (bytes : List α) : Prop :=
  ∀ i, (h : i < bytes.length) → file[q + i]? = some bytes[i]

section WriteAt

variable {file bytes l l' : List α} {pos q : ℕ} {b : α}

theorem getElem?_pwrite_self : (pwrite file pos b)[pos]? = some b := by
  have h : pos < (pwrite file pos b).length := by rw [length_pwrite]; omega
  have hrec := recordAt_pwrite file pos pos b
  rw [if_pos rfl, recordAt, pread, List.getElem?_eq_getElem h, Option.getD_some] at hrec
  rw [List.getElem?_eq_getElem h, hrec]

theorem getElem?_pwrite_of_ne (hne : q ≠ pos) (hq : q < file.length) :
    (pwrite file pos b)[q]? = file[q]? := by
  have h : q < (pwrite file pos b).length := by rw [length_pwrite]; omega
  have hrec := recordAt_pwrite file pos q b
  rw [if_neg hne, recordAt, pread, recordAt, pread, List.getElem?_eq_getElem h,
    List.getElem?_eq_getElem hq, Option.getD_some, Option.getD_some] at hrec
  rw [List.getElem?_eq_getElem h, List.getElem?_eq_getElem hq, hrec]

@[simp] theorem writeAt_nil : writeAt file pos [] = file := rfl

theorem writeAt_cons : writeAt file pos (b :: bytes) = writeAt (pwrite file pos b) (pos + 1) bytes :=
  rfl

/-- Writing in two parts. -/
theorem writeAt_append (file l l' : List α) (pos : ℕ) :
    writeAt file pos (l ++ l') = writeAt (writeAt file pos l) (pos + l.length) l' := by
  induction l generalizing file pos with
  | nil => rfl
  | cons b l ih =>
    rw [List.cons_append, writeAt_cons, ih, writeAt_cons, List.length_cons]
    congr 1
    omega

theorem getElem?_writeAt_of_lt (hq : q < pos) (hlen : q < file.length) :
    (writeAt file pos bytes)[q]? = file[q]? := by
  induction bytes generalizing file pos with
  | nil => rfl
  | cons b bytes ih =>
    rw [writeAt_cons, ih (by omega) (by rw [length_pwrite]; omega),
      getElem?_pwrite_of_ne (by omega) hlen]

theorem getElem?_writeAt_of_le (hq : pos + bytes.length ≤ q) (hlen : q < file.length) :
    (writeAt file pos bytes)[q]? = file[q]? := by
  induction bytes generalizing file pos with
  | nil => rfl
  | cons b bytes ih =>
    rw [List.length_cons] at hq
    rw [writeAt_cons, ih (by omega) (by rw [length_pwrite]; omega),
      getElem?_pwrite_of_ne (by omega) hlen]

/-- What a file reads as after a write, holes and the space past its end included. -/
theorem recordAt_writeAt (file : List α) (pos : ℕ) (bytes : List α) (q : ℕ) :
    recordAt (writeAt file pos bytes) q =
      if pos ≤ q ∧ q < pos + bytes.length then recordAt bytes (q - pos) else recordAt file q := by
  induction bytes generalizing file pos with
  | nil => rw [writeAt_nil, List.length_nil, Nat.add_zero, if_neg (by omega)]
  | cons b bytes ih =>
    rw [writeAt_cons, ih, recordAt_pwrite, List.length_cons]
    by_cases hq : q = pos
    · rw [if_neg (by omega), if_pos hq, if_pos (by omega), hq, Nat.sub_self]
      rfl
    · rw [if_neg hq]
      by_cases hin : pos + 1 ≤ q ∧ q < pos + 1 + bytes.length
      · have hsub : q - pos = q - (pos + 1) + 1 := by omega
        rw [if_pos hin, if_pos (by omega), hsub]
        rfl
      · rw [if_neg hin, if_neg (by omega)]

theorem length_writeAt (file : List α) (pos : ℕ) {bytes : List α} (h : bytes ≠ []) :
    (writeAt file pos bytes).length = max file.length (pos + bytes.length) := by
  induction bytes generalizing file pos with
  | nil => exact absurd rfl h
  | cons b bytes ih =>
    rw [writeAt_cons, List.length_cons]
    by_cases hnil : bytes = []
    · rw [hnil, writeAt_nil, length_pwrite, List.length_nil]
    · rw [ih _ _ hnil, length_pwrite]
      omega

theorem holds_writeAt_self (file : List α) (pos : ℕ) (bytes : List α) :
    Holds (writeAt file pos bytes) pos bytes := by
  induction bytes generalizing file pos with
  | nil => exact fun i h => absurd h (Nat.not_lt_zero i)
  | cons b bytes ih =>
    intro i h
    cases i with
    | zero =>
      have hlt : pos < (pwrite file pos b).length := by rw [length_pwrite]; omega
      rw [Nat.add_zero, writeAt_cons, getElem?_writeAt_of_lt (Nat.lt_succ_self pos) hlt]
      exact getElem?_pwrite_self
    | succ i =>
      have := ih (pwrite file pos b) (pos + 1) i (Nat.lt_of_succ_lt_succ h)
      rwa [Nat.add_right_comm] at this

omit [Zero α] in
theorem Holds.lt_length (h : Holds file q bytes) {i : ℕ} (hi : i < bytes.length) :
    q + i < file.length :=
  (List.getElem?_eq_some_iff.mp (h i hi)).1

/-- Bytes before and after the place of a write stay. -/
theorem Holds.writeAt (h : Holds file q l) (hq : q + l.length ≤ pos ∨ pos + bytes.length ≤ q) :
    Holds (writeAt file pos bytes) q l := by
  intro i hi
  have hlen := h.lt_length hi
  rcases hq with hq | hq
  · rw [getElem?_writeAt_of_lt (by omega) hlen]
    exact h i hi
  · rw [getElem?_writeAt_of_le (by omega) hlen]
    exact h i hi

/-- A write inside the file. -/
theorem writeAt_eq (h : pos + bytes.length ≤ file.length) :
    writeAt file pos bytes = file.take pos ++ bytes ++ file.drop (pos + bytes.length) := by
  induction bytes generalizing file pos with
  | nil => rw [writeAt_nil, List.append_nil, List.length_nil, Nat.add_zero, List.take_append_drop]
  | cons b bytes ih =>
    rw [List.length_cons] at h
    have hpos : pos < file.length := by omega
    have hset : pwrite file pos b = file.take pos ++ b :: file.drop (pos + 1) := by
      rw [pwrite, if_pos hpos, List.set_eq_take_append_cons_drop, if_pos hpos]
    have hlen : (file.take pos).length = pos := by rw [List.length_take]; omega
    have htake : (pwrite file pos b).take (pos + 1) = file.take pos ++ [b] := by
      rw [hset, List.take_append, hlen, List.take_of_length_le (by omega), Nat.add_sub_cancel_left,
        List.take_succ_cons, List.take_zero]
    have hdrop : (pwrite file pos b).drop (pos + 1 + bytes.length) =
        file.drop (pos + (bytes.length + 1)) := by
      have hsub : pos + 1 + bytes.length - pos = bytes.length + 1 := by omega
      rw [hset, List.drop_append, hlen, List.drop_eq_nil_of_le (by omega), hsub,
        List.drop_succ_cons, List.nil_append, List.drop_drop, Nat.add_assoc, Nat.add_comm 1]
    rw [writeAt_cons, ih (by rw [length_pwrite]; omega), htake, hdrop, List.length_cons]
    simp only [List.append_assoc, List.singleton_append]

omit [Zero α] in
theorem holds_append : Holds file q (l ++ l') ↔ Holds file q l ∧ Holds file (q + l.length) l' := by
  constructor
  · intro h
    refine ⟨fun i hi => ?_, fun i hi => ?_⟩
    · rw [h i (by rw [List.length_append]; omega), List.getElem_append_left hi]
    · rw [Nat.add_assoc, h (l.length + i) (by rw [List.length_append]; omega),
        List.getElem_append_right (Nat.le_add_right ..)]
      simp only [Nat.add_sub_cancel_left]
  · rintro ⟨hl, hl'⟩ i hi
    rw [List.length_append] at hi
    by_cases hlt : i < l.length
    · rw [hl i hlt, List.getElem_append_left hlt]
    · have := hl' (i - l.length) (by omega)
      rw [Nat.add_assoc, Nat.add_sub_cancel' (Nat.le_of_not_lt hlt)] at this
      rw [this, List.getElem_append_right (Nat.le_of_not_lt hlt)]

omit [Zero α] in
theorem Holds.drop (h : Holds file q l) : ∃ rest, file.drop q = l ++ rest := by
  refine ⟨file.drop (q + l.length), ?_⟩
  have hle : q + l.length ≤ file.length ∨ l = [] := by
    cases l with
    | nil => exact .inr rfl
    | cons b l =>
      have := h.lt_length (i := l.length) (by simp)
      rw [List.length_cons]
      exact .inl (by omega)
  rcases hle with hle | rfl
  · apply List.ext_getElem?
    intro i
    rw [List.getElem?_drop, List.getElem?_append]
    split
    · rename_i hi
      rw [h i hi, List.getElem?_eq_getElem hi]
    · rw [List.getElem?_drop]
      congr 1
      omega
  · rfl

end WriteAt

/-- A stream: the file, the place where the pending bytes go, and the pending bytes. -/
structure Stream (α : Type*) where
  file : List α
  pos : ℕ
  pending : List α

/-- How a flush goes: it may fail after some of the bytes, and drop the others. -/
inductive Flush where
  | ok
  | fail (n : ℕ) (kept : Bool)
deriving DecidableEq

/-- How a seek goes: it may fail, having flushed or not. -/
inductive Seek where
  | ok
  | fail (o : Flush)
deriving DecidableEq

namespace Stream

variable (s : Stream α)

/-- `fflush`. -/
def fflush : Flush → Bool × Stream α
  | .ok => (true, ⟨writeAt s.file s.pos s.pending, s.pos + s.pending.length, []⟩)
  | .fail n kept => (false, ⟨writeAt s.file s.pos (s.pending.take n),
      s.pos + (s.pending.take n).length, if kept then s.pending.drop n else []⟩)

/-- `fwrite`: the stream takes the first `accepted` bytes, and writes `moved` of the
pending ones to the file. -/
def fwrite (bytes : List α) (accepted moved : ℕ) : Stream α :=
  (fflush { s with pending := s.pending ++ bytes.take accepted } (.fail moved true)).2

/-- `fseeko` to a place from the start. -/
def fseeko (target : ℕ) : Seek → Bool × Stream α
  | .ok => (true, ⟨writeAt s.file s.pos s.pending, target, []⟩)
  | .fail o => (false, (s.fflush o).2)

/-- The file with the pending bytes. -/
def view : List α := writeAt s.file s.pos s.pending

/-- The position of the stream: where the next byte goes. -/
def tell : ℕ := s.pos + s.pending.length

end Stream

/-- The flush drops some of the bytes. -/
def Flush.Drops (o : Flush) (pending : List α) : Prop :=
  ∃ n, o = .fail n false ∧ n < pending.length

namespace Stream

variable {s : Stream α} {o : Flush} {bytes : List α} {accepted moved target : ℕ}

/-- A flush that drops nothing changes neither the file to come nor the position. -/
theorem view_fflush (h : ¬ o.Drops s.pending) :
    (s.fflush o).2.view = s.view ∧ (s.fflush o).2.tell = s.tell := by
  cases o with
  | ok => exact ⟨rfl, rfl⟩
  | fail n kept =>
    cases kept with
    | true =>
      have hsplit : s.pending.take n ++ s.pending.drop n = s.pending := List.take_append_drop ..
      constructor
      · show writeAt (writeAt s.file s.pos (s.pending.take n)) (s.pos + (s.pending.take n).length)
          (s.pending.drop n) = _
        rw [← writeAt_append, hsplit]
        rfl
      · show s.pos + (s.pending.take n).length + (s.pending.drop n).length = s.pos + s.pending.length
        rw [Nat.add_assoc, ← List.length_append, hsplit]
    | false =>
      have hn : s.pending.length ≤ n := Nat.le_of_not_lt fun hlt => h ⟨n, rfl, hlt⟩
      constructor
      · show writeAt s.file s.pos (s.pending.take n) = _
        rw [List.take_of_length_le hn]
        rfl
      · show s.pos + (s.pending.take n).length + 0 = _
        rw [List.take_of_length_le hn]
        rfl

/-- A flush writes at the place of the pending bytes only. -/
theorem view_fflush_eq (s : Stream α) (o : Flush) :
    ∃ l, (s.fflush o).2.view = writeAt s.file s.pos l := by
  by_cases h : o.Drops s.pending
  · obtain ⟨n, rfl, -⟩ := h
    exact ⟨s.pending.take n, rfl⟩
  · exact ⟨s.pending, (view_fflush h).1⟩

theorem pos_le_fflush (s : Stream α) (o : Flush) : s.pos ≤ (s.fflush o).2.pos := by
  cases o <;> exact Nat.le_add_right ..

theorem file_fflush_eq (s : Stream α) (o : Flush) :
    ∃ l, (s.fflush o).2.file = writeAt s.file s.pos l := by
  cases o with
  | ok => exact ⟨_, rfl⟩
  | fail n kept => exact ⟨_, rfl⟩

omit [Zero α] in
theorem not_drops_kept (n : ℕ) (l : List α) : ¬ (Flush.fail n true).Drops l := by
  rintro ⟨m, h, -⟩
  cases h

omit [Zero α] in
theorem not_drops_nil (o : Flush) : ¬ o.Drops ([] : List α) := by
  rintro ⟨m, -, h⟩
  exact Nat.not_lt_zero m h

theorem view_fwrite : (s.fwrite bytes accepted moved).view =
    writeAt s.view s.tell (bytes.take accepted) := by
  rw [fwrite, (view_fflush (not_drops_kept moved _)).1, view, writeAt_append]
  rfl

theorem tell_fwrite : (s.fwrite bytes accepted moved).tell =
    s.tell + (bytes.take accepted).length := by
  rw [fwrite, (view_fflush (not_drops_kept moved _)).2, tell, List.length_append, ← Nat.add_assoc]
  rfl

end Stream

end Inn
