import Mathlib.Algebra.Order.Ring.Int
import Mathlib.Data.List.Basic
import Inn.Libinn.Wire

/-!
# Inn.Innfeed.Buffer — an article to wire format, in place

`nntpPrepareBuffer` counts the bytes that the wire format needs more than the text, from the end
to the beginning, and then moves the text up by as much, again from the end.

* `countLoop_eq` — the first pass counts what `expand` adds;
* `fillLoop_spec` — the second pass leaves `expand`, and `src` never passes `dst`;
* `nntpPrepareBuffer_eq` — a buffer that has room for it;
* `prepares_iff` — the text is in wire format, when it does not begin with a dot.
-/

namespace Inn.Innfeed

open Libinn.Wire (DOT CR LF terminator copy copy_nil copy_cons)

/-! ## The code -/

/-- `struct buffer_s`. The allocation has a byte more than `memSize`. -/
structure Buffer where
  mem : List UInt8
  memSize : ℕ
  dataSize : ℕ
  deletable : Bool

/-- A number as an `int`. -/
def int (n : ℤ) : ℤ := n.bmod (2 ^ 32)

/-- A number as a `size_t`. -/
def size_t (n : ℤ) : ℕ := (n % 2 ^ 64).toNat

/-- `*p`, in the allocation. -/
def peek (mem : List UInt8) (p : ℤ) : Option UInt8 := if p < 0 then none else mem[p.toNat]?

/-- `*p = c`, in the allocation. -/
def poke (mem : List UInt8) (p : ℤ) (c : UInt8) : Option (List UInt8) :=
  if 0 ≤ p ∧ p < mem.length then some (mem.set p.toNat c) else none

/-- `expandBuffer`. What `xrealloc` adds to the allocation is `fresh`. -/
def expandBuffer (fresh : ℕ → UInt8) (buff : Buffer) (amt : ℕ) : Option Buffer :=
  if buff.deletable then
    let memSize := (buff.memSize + amt) % 2 ^ 64
    some { buff with
      mem := (List.range (memSize + 1)).map fun i => buff.mem.getD i (fresh i)
      memSize := memSize }
  else none

/-- What the first pass of `nntpPrepareBuffer` counts at a byte, where `p` is the byte behind
it. -/
def countByte (c p : UInt8) (extra : ℤ) : ℤ :=
  if c = LF then if p = DOT then int (int (extra + 1) + 1) else int (extra + 1) else extra

/-- The first pass, from `src` on. -/
def countLoop (mem : List UInt8) : ℕ → UInt8 → ℤ → Option ℤ
  | 0, p, extra => (peek mem 0).map fun c => countByte c p extra
  | src + 1, p, extra =>
    (peek mem (src + 1 : ℕ)).bind fun c => countLoop mem src c (countByte c p extra)

/-- The first pass. An empty buffer has it read the byte in front of the memory. -/
def countExtra (mem : List UInt8) (dsize : ℤ) : Option ℤ :=
  if dsize - 1 < 0 then none else countLoop mem (dsize - 1).toNat 0 3

/-- The second pass: where it is, and the bytes that it is still to add. -/
structure Fill where
  mem : List UInt8
  src : ℤ
  dst : ℤ
  p : UInt8
  extra : ℤ

/-- The body of the loop of the second pass. It goes on, or is done. -/
def fillStep (f : Fill) : Option (Fill ⊕ Fill) := do
  let c ← peek f.mem f.src
  if c = LF then
    let (mem, dst, extra) ← if f.p = DOT then
        (poke f.mem f.dst DOT).map fun mem => (mem, f.dst - 1, int (f.extra - 1))
      else some (f.mem, f.dst, f.extra)
    let mem ← poke mem dst LF
    let dst := dst - 1
    let mem ← poke mem dst CR
    let extra := int (extra - 1)
    if extra ≤ 0 then some (.inr { f with mem := mem, dst := dst, extra := extra })
    else some (.inl { mem := mem, src := f.src - 1, dst := dst - 1, p := 0, extra := extra })
  else
    let mem ← poke f.mem f.dst c
    some (.inl { mem := mem, src := f.src - 1, dst := f.dst - 1, p := c, extra := f.extra })

/-- The loop of the second pass; `src` is in front of the memory in the end. -/
def fillLoop : ℕ → Fill → Option Fill
  | 0, _ => none
  | n + 1, f =>
    match fillStep f with
    | none => none
    | some (.inr f) => some f
    | some (.inl f) => fillLoop n f

/-- The second pass, and the assertion behind it. -/
def secondPass (f : Fill) : Option (List UInt8) :=
  if f.extra = 0 then some f.mem
  else (fillLoop (f.src + 1).toNat f).bind fun f =>
    if 0 ≤ f.dst ∧ 0 ≤ f.src then some f.mem else none

/-- The text with its terminator, as `nntpPrepareBuffer` has it before the second pass. -/
structure Layout where
  buffer : Buffer
  newDsize : ℤ
  needfinal : Bool
  fill : Fill

section Prepare

variable (fresh : ℕ → UInt8)

/-- `nntpPrepareBuffer` up to the second pass. -/
def layout (buffer : Buffer) : Option (Option Layout) := do
  let dsize := int buffer.dataSize
  let msize := int ((buffer.memSize : ℤ) - 1)
  let extra ← countExtra buffer.mem dsize
  let last ← peek buffer.mem (dsize - 1)
  let needfinal := decide (0 < dsize ∧ last ≠ LF)
  let extra := if needfinal then int (extra + 2) else extra
  let newDsize := int (dsize + extra)
  let room := int (msize - dsize)
  match if room < extra then expandBuffer fresh buffer (size_t (int (extra - room)))
    else some buffer with
  | none => some none
  | some buffer =>
    let mem ← poke buffer.mem newDsize 0
    let mem ← poke mem (newDsize - 1) LF
    let mem ← poke mem (newDsize - 2) CR
    let mem ← poke mem (newDsize - 3) DOT
    let newDsize := newDsize - 3
    let extra := extra - 3
    if needfinal then
      let mem ← poke mem (newDsize - 1) LF
      let mem ← poke mem (newDsize - 2) CR
      let newDsize := newDsize - 2
      let extra := extra - 2
      some (some ⟨buffer, newDsize, needfinal, ⟨mem, dsize - 1, newDsize - 1, 0, extra⟩⟩)
    else some (some ⟨buffer, newDsize, needfinal, ⟨mem, dsize - 1, newDsize - 1, 0, extra⟩⟩)

/-- `nntpPrepareBuffer`: what it returns, and the buffer. `none` is a byte outside of the
allocation, or an assertion that fails. -/
def nntpPrepareBuffer (buffer : Buffer) : Option (Bool × Buffer) := do
  match ← layout fresh buffer with
  | none => some (false, buffer)
  | some l =>
    let mem ← secondPass l.fill
    let newDsize := l.newDsize + 3
    let newDsize := if l.needfinal then newDsize + 2 else newDsize
    let dataSize := size_t newDsize
    if dataSize ≤ l.buffer.memSize then
      some (true, { l.buffer with mem := mem, dataSize := dataSize })
    else none

end Prepare

/-! ## What is to be in the buffer -/

section Expand

variable {pre text : List UInt8} {c : UInt8} {dot : Bool}

/-- Whether a text begins with a dot, or is empty and `dot` follows it. -/
def nextDot : List UInt8 → Bool → Bool
  | [], dot => dot
  | c :: _, _ => c == DOT

/-- A text with its line ends as CRLF, and a dot in front of each dot that follows one; `dot` is
whether a dot follows the text. -/
def expand : List UInt8 → Bool → List UInt8
  | [], _ => []
  | c :: cs, dot =>
    (if c = LF then CR :: LF :: (if nextDot cs dot then [DOT] else []) else [c]) ++ expand cs dot

section Equations

-- the equations, once for all proofs below
attribute [local simp] expand copy nextDot

end Equations

theorem expand_singleton (c : UInt8) (dot : Bool) : expand [c] dot =
    if c = LF then CR :: LF :: (if dot then [DOT] else []) else [c] := by
  rw [expand, expand, List.append_nil, nextDot]

/-- What a byte becomes, behind the text. -/
theorem expand_concat (pre : List UInt8) (c : UInt8) (dot : Bool) :
    expand (pre ++ [c]) dot = expand pre (c == DOT) ++ expand [c] dot := by
  induction pre with
  | nil => rfl
  | cons b pre ih =>
    have hnext : nextDot (pre ++ [c]) dot = nextDot pre (c == DOT) := by
      cases pre <;> rfl
    rw [List.cons_append, expand, expand, ih, hnext, List.append_assoc]

theorem length_le_expand (pre : List UInt8) (dot : Bool) :
    pre.length ≤ (expand pre dot).length := by
  induction pre with
  | nil => simp
  | cons c pre ih =>
    rw [expand, List.length_append]
    split <;> simp only [List.length_cons, List.length_nil] <;> omega

/-- Where nothing is added, nothing is different. -/
theorem expand_eq_self (h : (expand pre dot).length = pre.length) : expand pre dot = pre := by
  induction pre with
  | nil => rfl
  | cons c pre ih =>
    have hle := length_le_expand pre dot
    rw [expand, List.length_append] at h
    rw [expand]
    split at h
    · simp only [List.length_cons] at h
      omega
    · rename_i hlf
      have hlen : (expand pre dot).length = pre.length := by
        simp only [List.length_cons, List.length_nil] at h
        omega
      rw [if_neg hlf, ih hlen]
      rfl

/-- The wire format of a text whose lines end. -/
theorem copy_eq_expand (start : Bool) (text : List UInt8) : copy start text =
    (if start && nextDot text false then [DOT] else []) ++ (expand text false ++ terminator) := by
  induction text generalizing start with
  | nil => simp [copy_nil, nextDot, expand]
  | cons c text ih =>
    rw [copy_cons, expand, nextDot]
    by_cases hlf : c = LF
    · subst hlf
      have hdot : (start && LF == DOT) = false := by cases start <;> rfl
      rw [if_pos (by rfl), if_pos rfl, ih true, hdot]
      simp
    · rw [if_neg (by simpa using hlf), if_neg hlf, ih false]
      cases hdot : start && c == DOT <;> simp

/-- The text with its last line ended. -/
def closed (text : List UInt8) : List UInt8 :=
  if text.getLast? = some LF then text else text ++ [LF]

theorem expand_closed (text : List UInt8) : expand (closed text) false =
    expand text false ++ (if text.getLast? = some LF then [] else [CR, LF]) := by
  rw [closed]
  split
  · rw [List.append_nil]
  · rw [expand_concat]
    rfl

/-- The wire format of a text. -/
def wireForm (text : List UInt8) : List UInt8 := copy true (closed text)

end Expand

/-! ## The first pass -/

section Count

variable {mem pre rest : List UInt8} {c p : UInt8} {e : ℤ}

theorem peek_append (pre rest : List UInt8) (c : UInt8) :
    peek (pre ++ c :: rest) pre.length = some c := by
  simp [peek]

theorem countByte_eq (c p : UInt8) (e : ℤ) :
    countByte c p (int e) = int (e + ((expand [c] (p == DOT)).length - 1)) := by
  rw [countByte, expand_singleton]
  by_cases hlf : c = LF
  · rw [if_pos hlf, if_pos hlf]
    by_cases hdot : p = DOT
    · rw [if_pos hdot]
      simp only [hdot, beq_self_eq_true, if_true, List.length_cons, List.length_nil, int,
        Int.bmod_add_bmod]
      congr 1
      omega
    · rw [if_neg hdot]
      simp [hdot, int, Int.bmod_add_bmod]
  · rw [if_neg hlf, if_neg hlf]
    simp

/-- The first pass counts what is added. -/
theorem countLoop_eq (hpre : pre.length = n + 1) (rest : List UInt8) (p : UInt8) (e : ℤ) :
    countLoop (pre ++ rest) n p (int e) =
      some (int (e + ((expand pre (p == DOT)).length - pre.length))) := by
  induction n generalizing pre rest p e with
  | zero =>
    obtain ⟨c, rfl⟩ := List.length_eq_one_iff.mp hpre
    have hpeek : peek ([c] ++ rest) 0 = some c := peek_append [] rest c
    rw [countLoop, hpeek, Option.map_some, countByte_eq]
    rfl
  | succ n ih =>
    obtain rfl | ⟨pre, c, rfl⟩ := List.eq_nil_or_concat' pre
    · simp at hpre
    have hlen : pre.length = n + 1 := by simpa using hpre
    have hpeek := peek_append pre rest c
    rw [hlen] at hpeek
    rw [List.append_assoc, List.singleton_append, countLoop, hpeek, Option.bind_some, countByte_eq,
      ih hlen, expand_concat]
    congr 2
    simp only [List.length_append, List.length_singleton]
    push_cast
    omega

end Count

/-! ## The second pass -/

section Fill

variable {pre gap rest : List UInt8} {b c : UInt8} {f g : Fill} {n : ℕ}

/-- The states that the second pass comes through, to the last one. -/
inductive Visits : Fill → Fill → Prop where
  | here {f : Fill} : Visits f f
  | next {f f' g : Fill} (h : fillStep f = some (.inl f')) (h' : Visits f' g) : Visits f g
  | last {f g : Fill} (h : fillStep f = some (.inr g)) : Visits f g

theorem int_eq {n : ℤ} (hmin : -2 ^ 31 ≤ n) (hmax : n < 2 ^ 31) : int n = n :=
  Int.bmod_eq_of_le (by simpa using hmin) (by simpa using hmax)

/-- A byte is written between what is in front of it and what is behind it. -/
theorem poke_append (pre rest : List UInt8) (b c : UInt8) {p : ℤ} (hp : p = pre.length) :
    poke (pre ++ b :: rest) p c = some (pre ++ c :: rest) := by
  subst hp
  have hlt : (pre.length : ℤ) < (pre ++ b :: rest).length := by simp
  rw [poke, if_pos ⟨by omega, hlt⟩]
  simp

theorem poke_within (pre mid rest : List UInt8) (b c : UInt8) {p : ℤ}
    (hp : p = (pre.length : ℤ) + mid.length) :
    poke (pre ++ (mid ++ b :: rest)) p c = some (pre ++ (mid ++ c :: rest)) := by
  rw [← List.append_assoc, ← List.append_assoc]
  refine poke_append _ rest b c ?_
  rw [List.length_append]
  omega

/-- The text in front of the cursor is still to be moved, by the gap behind it. -/
structure Moving (f : Fill) (pre gap rest : List UInt8) : Prop where
  mem : f.mem = pre ++ (gap ++ rest)
  src : f.src = (pre.length : ℤ) - 1
  dst : f.dst = (pre.length : ℤ) + gap.length - 1
  extra : f.extra = gap.length
  length : pre.length + gap.length = (expand pre (f.p == DOT)).length
  lt : gap.length < 2 ^ 31

theorem Moving.peek (h : Moving f (pre ++ [c]) gap rest) : peek f.mem f.src = some c := by
  have hsrc : f.src = pre.length := by
    have hsrc := h.src
    rw [List.length_append, List.length_singleton] at hsrc
    omega
  rw [h.mem, hsrc, List.append_assoc]
  exact peek_append pre _ c

/-- A byte that is no line end is moved. -/
theorem fillStep_byte (h : Moving f (pre ++ [c]) gap rest) (hgap : gap ≠ []) (hlf : c ≠ LF) :
    ∃ f' gap', fillStep f = some (.inl f') ∧ f'.p = c ∧
      Moving f' pre gap' (expand [c] (f.p == DOT) ++ rest) ∧ gap'.length = gap.length := by
  obtain ⟨gap, b, rfl⟩ := (List.eq_nil_or_concat' gap).resolve_left hgap
  have hpeek := h.peek
  obtain ⟨hmem, hsrc, hdst, hextra, hlength, hlt⟩ := h
  simp only [List.length_append, List.length_singleton] at *
  have hpoke : poke f.mem f.dst c = some (pre ++ c :: gap ++ c :: rest) := by
    have hmem' : f.mem = pre ++ c :: gap ++ b :: rest := by
      rw [hmem]
      simp
    rw [hmem']
    refine poke_append _ rest b c ?_
    simp only [List.length_append, List.length_cons]
    omega
  rw [expand_concat, expand_singleton, if_neg hlf, List.length_append,
    List.length_singleton] at hlength
  rw [expand_singleton, if_neg hlf]
  refine ⟨⟨pre ++ c :: gap ++ c :: rest, f.src - 1, f.dst - 1, c, f.extra⟩, c :: gap, ?_, rfl,
    ⟨?_, ?_, ?_, ?_, ?_, ?_⟩, rfl⟩
  · simp only [fillStep, hpeek, Option.bind_eq_bind, Option.bind_some, if_neg hlf, hpoke]
  · simp
  · simp only [hsrc]
    omega
  · simp only [hdst, List.length_cons]
    omega
  · simp only [hextra, List.length_cons]
  · simp only [List.length_cons]
    omega
  · simpa using hlt

/-- A line end is written: its bytes take the end of the gap, where `cells` of it are left. -/
theorem fillStep_end (h : Moving f (pre ++ [LF]) gap rest) : ∃ cells : List UInt8,
    pre.length + cells.length = (expand pre false).length ∧ cells.length < gap.length ∧
    fillStep f = some (if cells = [] then
      .inr { f with
        mem := pre ++ (expand [LF] (f.p == DOT) ++ rest), dst := pre.length, extra := 0 }
      else .inl
        { mem := pre ++ (cells ++ (expand [LF] (f.p == DOT) ++ rest))
          src := (pre.length : ℤ) - 1
          dst := (pre.length : ℤ) + cells.length - 1
          p := 0
          extra := cells.length }) := by
  have hpeek := h.peek
  obtain ⟨hmem, hsrc, hdst, hextra, hlength, hlt⟩ := h
  have hle := length_le_expand pre false
  have hfalse : (LF == DOT) = false := by decide
  rw [expand_concat, hfalse, expand_singleton, if_pos rfl] at hlength
  rw [expand_singleton, if_pos rfl]
  simp only [List.length_append, List.length_cons, List.length_nil] at hsrc hdst hlength
  obtain ⟨cells, tail, hsplit, hcells⟩ : ∃ cells tail, LF :: gap = cells ++ tail ∧
      pre.length + cells.length = (expand pre false).length := by
    refine ⟨_, _, (List.take_append_drop ((expand pre false).length - pre.length) _).symm, ?_⟩
    rw [List.length_take, List.length_cons]
    omega
  have htail : gap.length + 1 = cells.length + tail.length := by
    rw [← List.length_append, ← hsplit, List.length_cons]
  have hmem' : f.mem = pre ++ cells ++ (tail ++ rest) := by
    rw [hmem, List.append_assoc pre, List.append_assoc pre, ← List.append_assoc cells, ← hsplit]
    rfl
  have hplace : ((pre ++ cells).length : ℤ) = (pre.length : ℤ) + cells.length := by
    rw [List.length_append, Nat.cast_add]
  refine ⟨cells, hcells, by split at hlength <;> simp at hlength <;> omega, ?_⟩
  have hnil : cells = [] ↔ (cells.length : ℤ) ≤ 0 := by
    rw [← List.length_eq_zero_iff]
    omega
  by_cases hdot : f.p = DOT
  · simp only [hdot, beq_self_eq_true, if_true, List.length_cons, List.length_nil] at hlength ⊢
    obtain ⟨x, y, z, rfl⟩ := List.length_eq_three.mp (show tail.length = 3 by omega)
    have h₁ : poke f.mem f.dst DOT = some (pre ++ cells ++ x :: y :: DOT :: rest) := by
      rw [hmem']
      exact poke_within (pre ++ cells) [x, y] rest z DOT (by simp at *; omega)
    have h₂ : poke (pre ++ cells ++ x :: y :: DOT :: rest) (f.dst - 1) LF =
        some (pre ++ cells ++ x :: LF :: DOT :: rest) :=
      poke_within (pre ++ cells) [x] (DOT :: rest) y LF (by simp at *; omega)
    have h₃ : poke (pre ++ cells ++ x :: LF :: DOT :: rest) (f.dst - 1 - 1) CR =
        some (pre ++ cells ++ CR :: LF :: DOT :: rest) :=
      poke_within (pre ++ cells) [] (LF :: DOT :: rest) x CR (by simp at *; omega)
    have hextra' : int (int (f.extra - 1) - 1) = cells.length := by
      rw [@int_eq (f.extra - 1) (by omega) (by omega), int_eq (by omega) (by omega)]
      omega
    simp only [fillStep, hpeek, Option.bind_eq_bind, Option.bind_some, if_true, hdot, h₁, h₂, h₃,
      Option.map_some, hextra']
    split
    · rename_i hle'
      rw [if_pos (hnil.mpr hle')]
      obtain rfl := hnil.mpr hle'
      simp at *
      omega
    · rename_i hle'
      rw [if_neg (fun h => hle' (hnil.mp h))]
      simp at *
      omega
  · have hfalse' : (f.p == DOT) = false := by simpa using hdot
    simp only [hfalse', Bool.false_eq_true, if_false, List.length_nil] at hlength ⊢
    obtain ⟨x, y, rfl⟩ := List.length_eq_two.mp (show tail.length = 2 by omega)
    have h₁ : poke f.mem f.dst LF = some (pre ++ cells ++ x :: LF :: rest) := by
      rw [hmem']
      exact poke_within (pre ++ cells) [x] rest y LF (by simp at *; omega)
    have h₂ : poke (pre ++ cells ++ x :: LF :: rest) (f.dst - 1) CR =
        some (pre ++ cells ++ CR :: LF :: rest) :=
      poke_within (pre ++ cells) [] (LF :: rest) x CR (by simp at *; omega)
    have hextra' : int (f.extra - 1) = cells.length := by
      rw [int_eq (by omega) (by omega)]
      omega
    simp only [fillStep, hpeek, Option.bind_eq_bind, Option.bind_some, if_true, hdot, if_false, h₁,
      h₂, hextra']
    split
    · rename_i hle'
      rw [if_pos (hnil.mpr hle')]
      obtain rfl := hnil.mpr hle'
      simp at *
      omega
    · rename_i hle'
      rw [if_neg (fun h => hle' (hnil.mp h))]
      simp at *
      omega

theorem Moving.src_le (h : Moving f pre gap rest) : f.src ≤ f.dst := by
  rw [h.src, h.dst]
  omega

/-- The second pass leaves the text expanded, and the cursors do not meet before the end. -/
theorem fillLoop_spec (h : Moving f pre gap rest) (hgap : gap ≠ []) :
    ∃ g, fillLoop pre.length f = some g ∧ g.mem = expand pre (f.p == DOT) ++ rest ∧
      0 ≤ g.src ∧ 0 ≤ g.dst ∧ ∀ g', Visits f g' → g'.src ≤ g'.dst := by
  induction hn : pre.length generalizing f pre gap rest with
  | zero =>
    obtain rfl := List.length_eq_zero_iff.mp hn
    have hlength := h.length
    rw [expand, List.length_nil, Nat.zero_add] at hlength
    exact absurd (List.length_eq_zero_iff.mp hlength) hgap
  | succ n ih =>
    obtain rfl | ⟨pre, c, rfl⟩ := List.eq_nil_or_concat' pre
    · cases hn
    have hlen : pre.length = n := by simpa using hn
    have hsrc := h.src
    rw [List.length_append, List.length_singleton] at hsrc
    by_cases hlf : c = LF
    · subst hlf
      obtain ⟨cells, hcells, hlt, hstep⟩ := fillStep_end h
      rw [fillLoop, hstep, expand_concat, List.append_assoc]
      by_cases hnil : cells = []
      · rw [if_pos hnil] at hstep ⊢
        subst hnil
        have hsame : expand pre (LF == DOT) = pre := expand_eq_self hcells.symm
        refine ⟨_, rfl, ?_, by simp only; omega, by simp only; omega, fun g' hg' => ?_⟩
        · rw [hsame]
        · cases hg' with
          | here => exact h.src_le
          | next hnext => exact nomatch hstep.symm.trans hnext
          | last hlast =>
            obtain rfl := Sum.inr.inj (Option.some.inj (hstep.symm.trans hlast))
            simp only
            omega
      · rw [if_neg hnil] at hstep ⊢
        have hmoving : Moving
            { mem := pre ++ (cells ++ (expand [LF] (f.p == DOT) ++ rest))
              src := (pre.length : ℤ) - 1
              dst := (pre.length : ℤ) + cells.length - 1
              p := 0
              extra := cells.length } pre cells (expand [LF] (f.p == DOT) ++ rest) :=
          ⟨rfl, rfl, rfl, rfl, hcells, hlt.trans h.lt⟩
        obtain ⟨g, hloop, hmem, hsrc', hdst', hvisits⟩ := ih hmoving hnil hlen
        refine ⟨g, hloop, hmem, hsrc', hdst', fun g' hg' => ?_⟩
        cases hg' with
        | here => exact h.src_le
        | next hnext hrest =>
          obtain rfl := Sum.inl.inj (Option.some.inj (hstep.symm.trans hnext))
          exact hvisits g' hrest
        | last hlast => exact nomatch hstep.symm.trans hlast
    · obtain ⟨f', gap', hstep, hp, hmoving, hlength⟩ := fillStep_byte h hgap hlf
      have hgap' : gap' ≠ [] := by
        rw [← List.length_pos_iff, hlength]
        exact List.length_pos_iff.mpr hgap
      obtain ⟨g, hloop, hmem, hsrc', hdst', hvisits⟩ := ih hmoving hgap' hlen
      rw [fillLoop, hstep, expand_concat, List.append_assoc]
      refine ⟨g, hloop, hp ▸ hmem, hsrc', hdst', fun g' hg' => ?_⟩
      cases hg' with
      | here => exact h.src_le
      | next hnext hrest =>
        obtain rfl := Sum.inl.inj (Option.some.inj (hstep.symm.trans hnext))
        exact hvisits g' hrest
      | last hlast => exact nomatch hstep.symm.trans hlast

end Fill

/-! ## The buffer -/

section Layout

variable {fresh : ℕ → UInt8} {buffer : Buffer} {text : List UInt8} {m d extra n : ℕ}

/-- A buffer from `newBuffer` that holds a text. -/
structure Allocated (buffer : Buffer) (text : List UInt8) : Prop where
  length : buffer.mem.length = buffer.memSize + 1
  data : buffer.mem.take buffer.dataSize = text
  size : buffer.dataSize ≤ buffer.memSize
  lt : buffer.memSize < 2 ^ 63
  deletable : buffer.deletable = true

theorem Allocated.dataSize (h : Allocated buffer text) : buffer.dataSize = text.length := by
  have hlength := h.length
  have hsize := h.size
  rw [← h.data, List.length_take]
  omega

theorem exists_int (n : ℤ) :
    ∃ q : ℤ, int n = n - 2 ^ 32 * q ∧ -2 ^ 31 ≤ int n ∧ int n < 2 ^ 31 := by
  refine ⟨n.bdiv (2 ^ 32), ?_, ?_, ?_⟩
  · rw [int, Int.bmod_eq_self_sub_mul_bdiv]
    rfl
  · exact @Int.le_bmod n (2 ^ 32) (by decide)
  · exact @Int.bmod_lt n (2 ^ 32) (by decide)

/-- There is room for `extra` bytes, then if not before. -/
theorem room_spec (_hd : d ≤ m) (hm : m < 2 ^ 63) (hlt : d + extra < 2 ^ 31) :
    (int (int ((m : ℤ) - 1) - d) < extra → d + extra + 1 ≤
      (m + size_t (int (extra - int (int ((m : ℤ) - 1) - d)))) % 2 ^ 64) ∧
    (¬ int (int ((m : ℤ) - 1) - d) < extra → d + extra + 1 ≤ m) := by
  have hroom : int (int ((m : ℤ) - 1) - d) = int ((m : ℤ) - 1 - d) := Int.bmod_sub_bmod
  rw [hroom]
  obtain ⟨q, hq, hmin, hmax⟩ := exists_int ((m : ℤ) - 1 - d)
  generalize int ((m : ℤ) - 1 - d) = room at *
  obtain ⟨q', hq', hmin', hmax'⟩ := exists_int ((extra : ℤ) - room)
  generalize int ((extra : ℤ) - room) = amt at *
  constructor
  · intro hless
    rw [size_t]
    omega
  · intro hless
    omega

/-- What was in the allocation stays there. -/
theorem take_resized (mem : List UInt8) (hn : n ≤ mem.length) (hm : n ≤ m) :
    ((List.range m).map fun i => mem.getD i (fresh i)).take n = mem.take n := by
  refine List.ext_getElem? fun i => ?_
  rw [List.getElem?_take, List.getElem?_take]
  split
  · rename_i hi
    have him : i < m := by omega
    have hlen : i < mem.length := by omega
    simp [him, hlen]
  · rfl

/-- What `nntpPrepareBuffer` adds to a text, without the first dot. -/
def added (text : List UInt8) : ℕ := (expand (closed text) false).length + 3 - text.length

/-- A buffer that the text is in, with room for what is added. -/
structure Roomy (buffer : Buffer) (text : List UInt8) : Prop where
  length : buffer.mem.length = buffer.memSize + 1
  data : buffer.mem.take text.length = text
  room : text.length + added text + 1 ≤ buffer.memSize

theorem expand_roomy (h : Allocated buffer text) (hlt : text.length + added text < 2 ^ 31) :
    ∃ buffer', (if int (int ((buffer.memSize : ℤ) - 1) - text.length) < added text then
      expandBuffer fresh buffer
        (size_t (int (added text - int (int ((buffer.memSize : ℤ) - 1) - text.length))))
      else some buffer) = some buffer' ∧ Roomy buffer' text := by
  have hsize : text.length ≤ buffer.memSize := h.dataSize ▸ h.size
  obtain ⟨hexpand, henough⟩ := room_spec hsize h.lt hlt
  have hdata := h.data
  rw [h.dataSize] at hdata
  split
  · rename_i hroom
    have hroom := hexpand hroom
    rw [expandBuffer, if_pos h.deletable]
    refine ⟨_, rfl, by simp, ?_, hroom⟩
    rw [take_resized _ (by rw [h.length]; omega) (by omega), hdata]
  · rename_i hroom
    exact ⟨buffer, rfl, h.length, hdata, henough hroom⟩

/-- Whether the last line of a text is ended. -/
def needsEnd (text : List UInt8) : Bool := decide (text.getLast? ≠ some LF)

/-- What the end of a text becomes. -/
def ending (text : List UInt8) : List UInt8 :=
  (if needsEnd text then [CR, LF] else []) ++ terminator

theorem expand_closed_terminator (text : List UInt8) :
    expand (closed text) false ++ terminator = expand text false ++ ending text := by
  rw [expand_closed, List.append_assoc, ending, needsEnd]
  by_cases hlast : text.getLast? = some LF <;> simp [hlast]

theorem length_ending (text : List UInt8) :
    (ending text).length = if needsEnd text then 5 else 3 := by
  rw [ending]
  cases needsEnd text <;> rfl

theorem added_eq (text : List UInt8) :
    text.length + added text = (expand text false).length + (ending text).length := by
  have hle := length_le_expand text false
  have hlength := congrArg List.length (expand_closed_terminator text)
  rw [List.length_append, List.length_append, show terminator.length = 3 from rfl] at hlength
  rw [added]
  omega

theorem Allocated.mem_eq (h : Allocated buffer text) :
    buffer.mem = text ++ buffer.mem.drop buffer.dataSize := by
  conv_lhs => rw [← List.take_append_drop buffer.dataSize buffer.mem, h.data]

theorem int_length (h : text.length < 2 ^ 31) : int (text.length : ℤ) = text.length :=
  int_eq (by omega) (by omega)

/-- The last byte of a text. -/
theorem peek_last (hne : text ≠ []) (rest : List UInt8) :
    peek (text ++ rest) ((text.length : ℤ) - 1) = text.getLast? := by
  obtain ⟨text, c, rfl⟩ := (List.eq_nil_or_concat' text).resolve_left hne
  have hplace : (((text ++ [c]).length : ℤ) - 1) = text.length := by simp
  rw [hplace, List.append_assoc, List.getLast?_concat]
  exact peek_append text rest c

/-- The bytes that are to be added, as the first pass has counted them. -/
theorem count_added (hne : text ≠ []) (hlt : text.length + added text < 2 ^ 31)
    (rest : List UInt8) : ∃ extra,
    countExtra (text ++ rest) text.length = some extra ∧
      (if needsEnd text then int (extra + 2) else extra) = added text := by
  have hlength : text.length = ((text.length : ℤ) - 1).toNat + 1 := by
    have hpos := List.length_pos_iff.mpr hne
    omega
  have hcount := countLoop_eq hlength rest 0 3
  have hle := length_le_expand text false
  have hadded := added_eq text
  have hzero : ((0 : UInt8) == DOT) = false := by decide
  rw [hzero, show int 3 = 3 from rfl] at hcount
  refine ⟨_, (if_neg (by omega)).trans hcount, ?_⟩
  rw [length_ending] at hadded
  split
  · rename_i hend
    rw [if_pos hend] at hadded
    rw [@int_eq (3 + _) (by omega) (by omega), int_eq (by omega) (by omega)]
    omega
  · rename_i hend
    rw [if_neg hend] at hadded
    rw [int_eq (by omega) (by omega)]
    omega

/-- The gap that the text is to be moved over, and what is behind it. -/
theorem Roomy.split (h : Roomy buffer text) : ∃ gap tail, buffer.mem = text ++ gap ++ tail ∧
    text.length + gap.length = (expand text false).length ∧
      (ending text).length + 1 ≤ tail.length := by
  have hadded := added_eq text
  have hle := length_le_expand text false
  have hroom := h.room
  have hlength := h.length
  refine ⟨(buffer.mem.drop text.length).take ((expand text false).length - text.length),
    buffer.mem.drop (expand text false).length, ?_, ?_, ?_⟩
  · conv_lhs => rw [← List.take_append_drop text.length buffer.mem, h.data,
      ← List.take_append_drop ((expand text false).length - text.length)
        (buffer.mem.drop text.length), List.drop_drop]
    rw [Nat.add_sub_cancel' hle, List.append_assoc]
  · rw [List.length_take, List.length_drop]
    omega
  · rw [List.length_drop]
    omega

/-- The terminator is written, from its end. -/
theorem poke_terminator (pre tail : List UInt8) (h : 4 ≤ tail.length) {p : ℤ}
    (hp : p = (pre.length : ℤ) + 3) : ∃ mem₁ mem₂ mem₃ more,
    poke (pre ++ tail) p 0 = some mem₁ ∧ poke mem₁ (p - 1) LF = some mem₂ ∧
      poke mem₂ (p - 2) CR = some mem₃ ∧
      poke mem₃ (p - 3) DOT = some (pre ++ (terminator ++ more)) ∧
      more.length + 3 = tail.length := by
  obtain _ | ⟨x₀, _ | ⟨x₁, _ | ⟨x₂, _ | ⟨x₃, more⟩⟩⟩⟩ := tail
  iterate 4 simp at h
  refine ⟨_, _, _, 0 :: more, poke_within pre [x₀, x₁, x₂] more x₃ 0 (by simp; omega),
    poke_within pre [x₀, x₁] (0 :: more) x₂ LF (by simp; omega),
    poke_within pre [x₀] (LF :: 0 :: more) x₁ CR (by simp; omega),
    poke_within pre [] (CR :: LF :: 0 :: more) x₀ DOT (by simp; omega), by simp⟩

/-- `nntpPrepareBuffer` up to the second pass: the end is in its place, and the text is to be
moved up to it. -/
theorem layout_eq (h : Allocated buffer text) (hne : text ≠ [])
    (hlt : text.length + added text < 2 ^ 31) : ∃ l gap rest,
    layout fresh buffer = some (some l) ∧ l.needfinal = needsEnd text ∧
      l.newDsize = (expand text false).length ∧ text.length + added text ≤ l.buffer.memSize ∧
      l.fill.p = 0 ∧ Moving l.fill text gap (ending text ++ rest) ∧
      l.fill.mem.length = l.buffer.memSize + 1 := by
  obtain ⟨buffer', hbuffer, hroomy⟩ := @expand_roomy fresh _ _ h hlt
  obtain ⟨extra, hcount, hextra⟩ := count_added hne hlt (buffer.mem.drop buffer.dataSize)
  have hlast := peek_last hne (buffer.mem.drop buffer.dataSize)
  rw [← h.mem_eq] at hcount hlast
  obtain ⟨last, hlast_eq⟩ : ∃ last, text.getLast? = some last :=
    ⟨_, List.getLast?_eq_some_getLast hne⟩
  have hpos := List.length_pos_iff.mpr hne
  have hneedfinal : decide (0 < (text.length : ℤ) ∧ last ≠ LF) = needsEnd text := by
    rw [needsEnd, hlast_eq]
    simp [hpos]
  have hnewDsize : int ((text.length : ℤ) + added text) = (text.length + added text : ℕ) := by
    rw [← Nat.cast_add, int_eq (by omega) (by omega)]
  rw [layout]
  simp only [h.dataSize, int_length (show text.length < 2 ^ 31 by omega), hlast, hlast_eq,
    hcount, Option.bind_eq_bind, Option.bind_some, hneedfinal, hextra, hbuffer, hnewDsize]
  obtain ⟨gap, tail, hmem, hgap, htail⟩ := hroomy.split
  have hadded := added_eq text
  rw [length_ending] at hadded
  split
  · rename_i hend
    rw [if_pos hend] at hadded
    rw [length_ending, if_pos hend] at htail
    obtain ⟨x₀, tail, rfl⟩ := List.exists_cons_of_length_pos (show 0 < tail.length by omega)
    obtain ⟨x₁, tail, rfl⟩ :=
      List.exists_cons_of_length_pos (show 0 < tail.length by simp at htail; omega)
    obtain ⟨mem₁, mem₂, mem₃, more, h₁, h₂, h₃, h₄, hmore⟩ :=
      @poke_terminator (text ++ gap ++ [x₀, x₁]) tail (by simp at htail; omega)
        (text.length + added text : ℕ) (by simp; omega)
    have hmem' : buffer'.mem = text ++ gap ++ [x₀, x₁] ++ tail := by simp [hmem]
    have h₅ : poke (text ++ gap ++ [x₀, x₁] ++ (terminator ++ more))
        (((text.length + added text : ℕ) : ℤ) - 3 - 1) LF =
          some (text ++ gap ++ x₀ :: LF :: (terminator ++ more)) := by
      rw [List.append_assoc (text ++ gap)]
      exact poke_within (text ++ gap) [x₀] (terminator ++ more) x₁ LF (by simp; omega)
    have h₆ : poke (text ++ gap ++ x₀ :: LF :: (terminator ++ more))
        (((text.length + added text : ℕ) : ℤ) - 3 - 2) CR =
          some (text ++ gap ++ CR :: LF :: (terminator ++ more)) :=
      poke_within (text ++ gap) [] (LF :: (terminator ++ more)) x₀ CR (by simp; omega)
    simp only [hmem', h₁, h₂, h₃, h₄, h₅, h₆, Option.bind_some]
    refine ⟨_, gap, more, rfl, rfl, ?_, by simp only; exact hroomy.room.trans' (by omega), rfl,
      ⟨?_, rfl, ?_, ?_, ?_, ?_⟩, ?_⟩
    · simp only
      omega
    · simp [ending, hend]
    · simp only
      omega
    · simp only
      omega
    · simp only
      rw [hgap]
      rfl
    · omega
    · rw [← hroomy.length, hmem]
      simp [terminator]
      omega
  · rename_i hend
    rw [if_neg hend] at hadded
    rw [length_ending, if_neg hend] at htail
    obtain ⟨mem₁, mem₂, mem₃, more, h₁, h₂, h₃, h₄, hmore⟩ :=
      @poke_terminator (text ++ gap) tail (by omega)
        (text.length + added text : ℕ) (by simp; omega)
    simp only [hmem, h₁, h₂, h₃, h₄, Option.bind_some]
    refine ⟨_, gap, more, rfl, rfl, ?_, by simp only; exact hroomy.room.trans' (by omega), rfl,
      ⟨?_, rfl, ?_, ?_, ?_, ?_⟩, ?_⟩
    · simp only
      omega
    · simp [ending, hend]
    · simp only
      omega
    · simp only
      omega
    · simp only
      rw [hgap]
      rfl
    · omega
    · rw [← hroomy.length, hmem]
      simp [terminator]
      omega

/-- What the code makes of a text: the wire format, but for a dot in front of the first line. -/
theorem copy_closed (text : List UInt8) :
    copy false (closed text) = expand text false ++ ending text := by
  rw [copy_eq_expand, expand_closed_terminator]
  rfl

theorem length_copy_closed (text : List UInt8) :
    (copy false (closed text)).length = text.length + added text := by
  rw [copy_closed, added_eq, List.length_append]

/-- A buffer as it is handed on. -/
structure Filled (buffer : Buffer) (data : List UInt8) : Prop where
  length : buffer.mem.length = buffer.memSize + 1
  size : buffer.dataSize ≤ buffer.memSize
  data : buffer.mem.take buffer.dataSize = data

/-- In the second pass, `src` does not pass `dst`. -/
def CursorsApart (fresh : ℕ → UInt8) (buffer : Buffer) : Prop :=
  ∀ l, layout fresh buffer = some (some l) → l.fill.extra ≠ 0 →
    ∀ g, Visits l.fill g → g.src ≤ g.dst

theorem take_ending (rest : List UInt8) : (expand text false ++ (ending text ++ rest)).take
    (text.length + added text) = copy false (closed text) := by
  rw [copy_closed, ← List.append_assoc, ← length_copy_closed, copy_closed, List.take_left]

/-- A text whose wire format is not too long. -/
theorem nntpPrepareBuffer_eq (h : Allocated buffer text) (hne : text ≠ [])
    (hlt : text.length + added text < 2 ^ 31) :
    (∃ buffer', nntpPrepareBuffer fresh buffer = some (true, buffer') ∧
      Filled buffer' (copy false (closed text))) ∧ CursorsApart fresh buffer := by
  obtain ⟨l, gap, rest, hlayout, hneedfinal, hnewDsize, hroom, hp, hmoving, hlength⟩ :=
    @layout_eq fresh buffer text h hne hlt
  have hadded := added_eq text
  have hsize : size_t (if l.needfinal then l.newDsize + 3 + 2 else l.newDsize + 3) =
      text.length + added text := by
    rw [hneedfinal, hnewDsize, size_t]
    rw [length_ending] at hadded
    split at hadded <;> rename_i hend <;>
      simp only [hend, if_true, if_false, Bool.false_eq_true] <;> omega
  have hdot : (l.fill.p == DOT) = false := by
    rw [hp]
    rfl
  have hexpand := hmoving.length
  rw [hdot] at hexpand
  have hdone : ∀ mem : List UInt8, mem = expand text false ++ (ending text ++ rest) →
      Filled { l.buffer with mem := mem, dataSize := text.length + added text }
        (copy false (closed text)) := by
    rintro _ rfl
    refine ⟨?_, hroom, take_ending rest⟩
    rw [← hlength, hmoving.mem]
    simp only [List.length_append]
    omega
  rw [nntpPrepareBuffer]
  simp only [hlayout, Option.bind_eq_bind, Option.bind_some, hsize, if_pos hroom]
  by_cases hextra : l.fill.extra = 0
  · have hgap : gap = [] := by
      rw [← List.length_eq_zero_iff]
      have hgap := hmoving.extra
      omega
    subst hgap
    have hsame : expand text false = text := expand_eq_self hexpand.symm
    rw [secondPass, if_pos hextra]
    refine ⟨⟨_, rfl, hdone _ ?_⟩, fun l' hl' hne' => ?_⟩
    · rw [hmoving.mem, hsame]
      rfl
    · obtain rfl := Option.some.inj (Option.some.inj (hlayout.symm.trans hl'))
      exact absurd hextra hne'
  · have hgap : gap ≠ [] := by
      rintro rfl
      exact hextra hmoving.extra
    obtain ⟨g, hloop, hmem, hsrc, hdst, hvisits⟩ := fillLoop_spec hmoving hgap
    have hfuel : (l.fill.src + 1).toNat = text.length := by
      rw [hmoving.src]
      omega
    rw [hdot] at hmem
    rw [secondPass, if_neg hextra, hfuel, hloop, Option.bind_some, if_pos ⟨hdst, hsrc⟩]
    refine ⟨⟨_, rfl, hdone _ hmem⟩, fun l' hl' _ => ?_⟩
    obtain rfl := Option.some.inj (Option.some.inj (hlayout.symm.trans hl'))
    exact hvisits

/-- The end of the wire format has its place within an `int`. -/
theorem layout_lt {l : Layout} (h : layout fresh buffer = some (some l)) :
    (if l.needfinal then l.newDsize + 3 + 2 else l.newDsize + 3) < 2 ^ 31 ∧
      0 ≤ (if l.needfinal then l.newDsize + 3 + 2 else l.newDsize + 3) := by
  have hpoke : ∀ {mem mem' : List UInt8} {p : ℤ} {c : UInt8}, poke mem p c = some mem' → 0 ≤ p := by
    intro mem mem' p c hp
    rw [poke] at hp
    split at hp
    · rename_i hin
      exact hin.1
    · cases hp
  rw [layout] at h
  simp only [Option.bind_eq_bind, Option.bind_eq_some_iff] at h
  obtain ⟨extra, -, last, -, h⟩ := h
  split at h
  · cases h
  · simp only [Option.bind_eq_some_iff] at h
    obtain ⟨mem₁, hfirst, mem₂, -, mem₃, -, mem₄, -, h⟩ := h
    have hmin := hpoke hfirst
    obtain ⟨-, -, -, hmax⟩ := exists_int (int buffer.dataSize +
      if decide (0 < int buffer.dataSize ∧ last ≠ LF) = true then int (extra + 2) else extra)
    generalize int (int (buffer.dataSize : ℤ) + _) = newDsize at *
    split at h
    · rename_i hend
      simp only [Option.bind_eq_some_iff] at h
      obtain ⟨mem₅, -, mem₆, -, h⟩ := h
      obtain rfl := Option.some.inj (Option.some.inj h)
      simp only [hend, if_true]
      omega
    · rename_i hend
      obtain rfl := Option.some.inj (Option.some.inj h)
      simp only [hend]
      simp only [Bool.false_eq_true, if_false]
      omega

/-- What the code accepts is within an `int`. -/
theorem prepared_lt {buffer' : Buffer} (h : nntpPrepareBuffer fresh buffer = some (true, buffer')) :
    buffer'.dataSize < 2 ^ 31 := by
  rw [nntpPrepareBuffer] at h
  simp only [Option.bind_eq_bind, Option.bind_eq_some_iff] at h
  obtain ⟨_ | l, hlayout, h⟩ := h
  · cases h
  · obtain ⟨hmax, hmin⟩ := layout_lt hlayout
    simp only [Option.bind_eq_some_iff] at h
    obtain ⟨mem, -, h⟩ := h
    generalize (if l.needfinal then l.newDsize + 3 + 2 else l.newDsize + 3) = newDsize at *
    split at h
    · obtain ⟨-, rfl⟩ := Prod.mk.inj (Option.some.inj h)
      simp only [size_t]
      omega
    · cases h

/-- The buffer is prepared: it holds the wire format of the text, and nothing was moved onto what
was still to be moved. -/
structure Prepares (fresh : ℕ → UInt8) (buffer : Buffer) (text : List UInt8) : Prop where
  result : ∃ buffer', nntpPrepareBuffer fresh buffer = some (true, buffer') ∧
    Filled buffer' (wireForm text)
  cursors : CursorsApart fresh buffer

theorem wireForm_eq (hne : text ≠ []) : wireForm text =
    (if text.head? = some DOT then [DOT] else []) ++ copy false (closed text) := by
  have hnext : nextDot (closed text) false = decide (text.head? = some DOT) := by
    obtain ⟨c, text, rfl⟩ := List.exists_cons_of_ne_nil hne
    rw [closed]
    split <;> simp [nextDot] <;> rfl
  rw [wireForm, copy_eq_expand, copy_eq_expand false, hnext]
  by_cases hdot : text.head? = some DOT <;> simp [hdot]

/-- The text of a buffer is in wire format when it does not begin with a dot, and what it comes
to is within an `int`. -/
theorem prepares_iff (h : Allocated buffer text) (hne : text ≠ []) :
    Prepares fresh buffer text ↔
      text.head? ≠ some DOT ∧ (wireForm text).length < 2 ^ 31 := by
  have hwire := wireForm_eq hne
  constructor
  · rintro ⟨⟨buffer', hresult, hfilled⟩, -⟩
    have hlt := prepared_lt hresult
    have hdata : (wireForm text).length = buffer'.dataSize := by
      rw [← hfilled.data, List.length_take, hfilled.length, Nat.min_eq_left]
      exact hfilled.size.trans (Nat.le_succ _)
    refine ⟨fun hdot => ?_, by omega⟩
    -- the code leaves out the first dot
    rw [if_pos hdot] at hwire
    have hlength := congrArg List.length hwire
    rw [List.length_append, length_copy_closed, List.length_singleton] at hlength
    obtain ⟨⟨buffer'', hresult', hfilled'⟩, -⟩ :=
      @nntpPrepareBuffer_eq fresh buffer text h hne (by omega)
    obtain ⟨-, rfl⟩ := Prod.mk.inj (Option.some.inj (hresult.symm.trans hresult'))
    have hsame := congrArg List.length (hfilled.data.symm.trans hfilled'.data)
    rw [length_copy_closed] at hsame
    omega
  · rintro ⟨hdot, hlt⟩
    rw [if_neg hdot, List.nil_append] at hwire
    have hadded : text.length + added text < 2 ^ 31 := by
      rw [← length_copy_closed, ← hwire]
      exact hlt
    obtain ⟨hresult, hcursors⟩ := @nntpPrepareBuffer_eq fresh buffer text h hne hadded
    rw [← hwire] at hresult
    exact ⟨hresult, hcursors⟩

/-- The buffer of `fillContents`, of an octet more than the text. -/
def contents (text : List UInt8) : Buffer where
  mem := text ++ [0, 0]
  memSize := text.length + 1
  dataSize := text.length
  deletable := true

theorem contents_allocated (hlt : text.length < 2 ^ 62) : Allocated (contents text) text where
  length := by simp [contents]
  data := by simp [contents]
  size := by simp [contents]
  lt := by
    simp only [contents]
    omega
  deletable := rfl

theorem prepares_dots :
    Prepares (fun _ => 0) (contents [97, 10, 46, 10, 98]) [97, 10, 46, 10, 98] :=
  (prepares_iff (contents_allocated (by decide)) (by decide)).mpr ⟨by decide, by decide⟩

theorem first_dot_not_doubled : ¬ ∀ (fresh : ℕ → UInt8) (buffer : Buffer) (text : List UInt8),
    Allocated buffer text → text ≠ [] → CR ∉ text → Prepares fresh buffer text := by
  intro h
  have hallocated : Allocated (contents [46, 97, 10]) [46, 97, 10] :=
    contents_allocated (by decide)
  obtain ⟨⟨buffer', hresult, hfilled⟩, -⟩ :=
    h (fun _ => 0) (contents [46, 97, 10]) [46, 97, 10] hallocated (by decide) (by decide)
  obtain ⟨⟨buffer'', hresult', hfilled'⟩, -⟩ :=
    @nntpPrepareBuffer_eq (fun _ => 0) _ _ hallocated (by decide) (by decide)
  obtain ⟨-, rfl⟩ := Prod.mk.inj (Option.some.inj (hresult.symm.trans hresult'))
  exact absurd (hfilled.data.symm.trans hfilled'.data) (by decide)

end Layout

end Inn.Innfeed
