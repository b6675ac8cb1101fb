import Inn.Cnfs.UsedBlock
import Mathlib.Logic.Function.Basic

/-!
# Inn.Cnfs.Cancel — which articles can be cancelled

`cnfs_retrieve` and `cnfs_cancel` each check on their own whether the article of a token may still be
there: its block has a bit, and its cycle is the current one or, behind the free pointer, the one
before.

* `CNFSArtMayBeHere`, `cnfs_retrieve` for `RETR_STAT`, `cnfs_cancel`;
* `Reachable` — the buffers of a server as it works;
* `cnfs_cancel_found` — what is cancelled, and what can still be found.

The server that cancels has the buffers open for writing, so that nothing is read again.
-/

namespace Inn.Cnfs

/-- `TOKEN_CNFS`. -/
def TOKEN_CNFS : UInt8 := 3

/-- A token, as `CNFSBreakToken` takes it apart. -/
structure TOKEN where
  type : UInt8
  class' : UInt8
  cycbuffname : List UInt8
  block : UInt32
  cycnum : UInt32
deriving DecidableEq, Repr

/-- The buffers by name: `CNFSgetcycbuffbyname`. -/
abbrev Cycbufftab (longsize : ℕ) := List UInt8 → Option (CYCBUFF longsize)

variable {longsize : ℕ}

/-- `CNFSArtMayBeHere`; `none` as in `CNFSUsedBlock`. -/
def CNFSArtMayBeHere (c : CYCBUFF longsize) (offset : ℕ) (cycnum : UInt32) : Option ℕ :=
  if ¬ (cycnum = c.cyclenum ∨ (cycnum = c.cyclenum - 1 ∧ c.free ≤ offset) ∨
      (cycnum + 1 = 0 ∧ c.cyclenum = 2 ∧ c.free < offset)) then some 0
  else (CNFSUsedBlock c offset false false).map Prod.fst

/-- `cnfs_retrieve` with `RETR_STAT`: whether the article is found. -/
def cnfs_retrieve (tab : Cycbufftab longsize) (token : TOKEN) : Option Bool :=
  if token.type ≠ TOKEN_CNFS then some false
  else
    match tab token.cycbuffname with
    | none => some false
    | some c =>
      (CNFSArtMayBeHere c (token.block.toNat * c.blksz) token.cycnum).map fun b => decide (b ≠ 0)

/-- `cnfs_cancel`. -/
def cnfs_cancel (tab : Cycbufftab longsize) (token : TOKEN) :
    Option (Bool × Cycbufftab longsize) :=
  if token.type ≠ TOKEN_CNFS then some (false, tab)
  else
    match tab token.cycbuffname with
    | none => some (false, tab)
    | some c =>
      let offset := token.block.toNat * c.blksz
      if ¬ (token.cycnum = c.cyclenum ∨ (token.cycnum = c.cyclenum - 1 ∧ c.free < offset) ∨
          (token.cycnum + 1 = 0 ∧ c.cyclenum = 2 ∧ c.free < offset)) then some (false, tab)
      else
        (CNFSUsedBlock c offset false false).bind fun r =>
          if r.1 = 0 then some (false, tab)
          else (CNFSUsedBlock c offset true false).map fun r =>
            (true, Function.update tab token.cycbuffname (some r.2))

/-- Buffers as a server has them: set up by `CNFSinit_disks`, the bits changed by `CNFSUsedBlock`,
and the free pointer and the cycle by the articles that are stored. -/
inductive Reachable : Cycbufftab longsize → Prop where
  | init (tab : Cycbufftab longsize) (h : ∀ name c, tab name = some c →
      ∃ c₀ rpx file, CNFSinit_disks c₀ rpx file = some c) : Reachable tab
  | used {tab : Cycbufftab longsize} (h : Reachable tab) (name : List UInt8) {c : CYCBUFF longsize}
      (hc : tab name = some c) (offset : ℕ) (value : Bool) {r : ℕ × CYCBUFF longsize}
      (hr : CNFSUsedBlock c offset true value = some r) :
      Reachable (Function.update tab name (some r.2))
  | stored {tab : Cycbufftab longsize} (h : Reachable tab) (name : List UInt8)
      {c : CYCBUFF longsize} (hc : tab name = some c) (free : ℕ) (cyclenum : UInt32) :
      Reachable (Function.update tab name (some { c with free := free, cyclenum := cyclenum }))

/-- The article is found. -/
def Found (tab : Cycbufftab longsize) (token : TOKEN) : Prop := cnfs_retrieve tab token = some true

/-- The tokens are for one block of one buffer. -/
def SameBlock (t t' : TOKEN) : Prop := t'.cycbuffname = t.cycbuffname ∧ t'.block = t.block

/-- An article of the cycle before that begins where the next one will be stored. -/
def AtFree (tab : Cycbufftab longsize) (token : TOKEN) : Prop :=
  ∃ c, tab token.cycbuffname = some c ∧ token.cycnum = c.cyclenum - 1 ∧
    token.block.toNat * c.blksz = c.free

section Reachable

variable {tab tab' : Cycbufftab longsize} {t t' : TOKEN} {name : List UInt8} {c : CYCBUFF longsize}

theorem Reachable.mapped (hwidth : longsize = 4 ∨ longsize = 8) (h : Reachable tab) :
    ∀ name c, tab name = some c → Mapped c := by
  induction h with
  | init tab h =>
    intro name c hc
    obtain ⟨c₀, rpx, file, hinit⟩ := h name c hc
    exact mapped_init hwidth hinit
  | @used tab _ name c hc offset value r hr ih =>
    intro name' c' hc'
    rw [Function.update_apply] at hc'
    split at hc'
    · obtain rfl := Option.some.inj hc'
      have hmapped := ih name c hc
      rw [hmapped.write] at hr
      obtain rfl := Option.some.inj hr
      split
      · exact hmapped.withBit offset value
      · exact hmapped
    · exact ih name' c' hc'
  | @stored tab _ name c hc free cyclenum ih =>
    intro name' c' hc'
    rw [Function.update_apply] at hc'
    split at hc'
    · obtain rfl := Option.some.inj hc'
      have hmapped := ih name c hc
      exact ⟨hmapped.width, hmapped.blksz, hmapped.minartoffset, hmapped.bitfield⟩
    · exact ih name' c' hc'

/-- The cycle of the token may be in the buffer at this place, for `cnfs_retrieve`. -/
abbrev Window (c : CYCBUFF longsize) (offset : ℕ) (cycnum : UInt32) : Prop :=
  cycnum = c.cyclenum ∨ (cycnum = c.cyclenum - 1 ∧ c.free ≤ offset) ∨
    (cycnum + 1 = 0 ∧ c.cyclenum = 2 ∧ c.free < offset)

/-- The same for `cnfs_cancel`. -/
abbrev CancelWindow (c : CYCBUFF longsize) (offset : ℕ) (cycnum : UInt32) : Prop :=
  cycnum = c.cyclenum ∨ (cycnum = c.cyclenum - 1 ∧ c.free < offset) ∨
    (cycnum + 1 = 0 ∧ c.cyclenum = 2 ∧ c.free < offset)

/-- The offset of a token. -/
def offsetOf (c : CYCBUFF longsize) (t : TOKEN) : ℕ := t.block.toNat * c.blksz

theorem CancelWindow.window {offset : ℕ} {cycnum : UInt32} (h : CancelWindow c offset cycnum) :
    Window c offset cycnum :=
  h.imp_right (Or.imp_left fun h => ⟨h.1, Nat.le_of_lt h.2⟩)

/-- The two windows differ at the free pointer. -/
theorem Window.cancelWindow {offset : ℕ} {cycnum : UInt32} (h : Window c offset cycnum)
    (hfree : ¬ (cycnum = c.cyclenum - 1 ∧ offset = c.free)) : CancelWindow c offset cycnum := by
  refine h.imp_right (Or.imp_left fun h => ⟨h.1, Nat.lt_of_le_of_ne h.2 fun heq => ?_⟩)
  exact hfree ⟨h.1, heq.symm⟩

theorem found_iff (hmapped : ∀ name c, tab name = some c → Mapped c) :
    Found tab t ↔ t.type = TOKEN_CNFS ∧ ∃ c, tab t.cycbuffname = some c ∧
      Window c (offsetOf c t) t.cycnum ∧ usedBit c (offsetOf c t) = true := by
  rw [Found, cnfs_retrieve]
  by_cases htype : t.type = TOKEN_CNFS
  · rw [if_neg (not_not.mpr htype)]
    cases hc : tab t.cycbuffname with
    | none => simp
    | some c =>
      simp only [htype, true_and, Option.some.injEq, exists_eq_left']
      rw [CNFSArtMayBeHere, ← offsetOf, (hmapped _ c hc).read]
      by_cases hwindow : Window c (offsetOf c t) t.cycnum
      · rw [if_neg (not_not.mpr hwindow)]
        cases usedBit c (offsetOf c t) <;> simp [hwindow]
      · rw [if_pos hwindow]
        simp [hwindow]
  · rw [if_pos htype]
    simp [htype]

/-- What `cnfs_cancel` does. -/
theorem cnfs_cancel_eq (hmapped : ∀ name c, tab name = some c → Mapped c) :
    (∃ c, t.type = TOKEN_CNFS ∧ tab t.cycbuffname = some c ∧
        CancelWindow c (offsetOf c t) t.cycnum ∧ usedBit c (offsetOf c t) = true ∧
        cnfs_cancel tab t = some (true,
          Function.update tab t.cycbuffname (some (withBit c (offsetOf c t) false)))) ∨
      (¬ (t.type = TOKEN_CNFS ∧ ∃ c, tab t.cycbuffname = some c ∧
          CancelWindow c (offsetOf c t) t.cycnum ∧ usedBit c (offsetOf c t) = true) ∧
        cnfs_cancel tab t = some (false, tab)) := by
  rw [cnfs_cancel]
  by_cases htype : t.type = TOKEN_CNFS
  · rw [if_neg (not_not.mpr htype)]
    cases hc : tab t.cycbuffname with
    | none => exact .inr ⟨by simp, rfl⟩
    | some c =>
      simp only [Option.some.injEq, exists_eq_left']
      rw [← offsetOf, (hmapped _ c hc).read]
      by_cases hwindow : CancelWindow c (offsetOf c t) t.cycnum
      · rw [if_neg (not_not.mpr hwindow)]
        cases hbit : usedBit c (offsetOf c t) with
        | false => exact .inr ⟨by simp, rfl⟩
        | true =>
          have hreadable : Readable c (offsetOf c t) := by
            rw [usedBit, Bool.and_eq_true, decide_eq_true_iff] at hbit
            exact hbit.1
          have hwritable : Writable c (offsetOf c t) false :=
            ⟨hreadable, fun h => absurd h Bool.false_ne_true⟩
          refine .inl ⟨c, htype, rfl, hwindow, hbit, ?_⟩
          rw [Option.bind_some, (hmapped _ c hc).write, if_pos hwritable]
          rfl
      · rw [if_pos hwindow]
        exact .inr ⟨fun h => hwindow h.2.1, rfl⟩
  · rw [if_pos htype]
    exact .inr ⟨fun h => htype h.1, rfl⟩

/-- A cancel that succeeds frees the block, and that of no other article. -/
theorem found_update (hmapped : ∀ name c, tab name = some c → Mapped c)
    (hc : tab t.cycbuffname = some c) (hreadable : Readable c (offsetOf c t)) :
    Found (Function.update tab t.cycbuffname (some (withBit c (offsetOf c t) false))) t' ↔
      Found tab t' ∧ ¬ SameBlock t t' := by
  have hmapped' : ∀ name c', Function.update tab t.cycbuffname
      (some (withBit c (offsetOf c t) false)) name = some c' → Mapped c' := by
    intro name c' hc'
    rw [Function.update_apply] at hc'
    split at hc'
    · obtain rfl := Option.some.inj hc'
      exact (hmapped _ c hc).withBit _ _
    · exact hmapped name c' hc'
  rw [found_iff hmapped, found_iff hmapped', Function.update_apply, SameBlock]
  by_cases hname : t'.cycbuffname = t.cycbuffname
  · have hoffset : offsetOf c t' = offsetOf c t ↔ t'.block = t.block := by
      rw [offsetOf, offsetOf, Nat.mul_left_inj (Nat.ne_of_gt (hmapped _ c hc).blksz_pos), UInt32.toNat_inj]
    rw [if_pos hname, hname]
    simp only [hc, Option.some.injEq, exists_eq_left', true_and]
    have hbit : usedBit (withBit c (offsetOf c t) false) (offsetOf c t') =
        if offsetOf c t' = offsetOf c t then false else usedBit c (offsetOf c t') :=
      (hmapped _ c hc).usedBit_withBit hreadable
    have hsame : offsetOf (withBit c (offsetOf c t) false) t' = offsetOf c t' := rfl
    have hwindow : Window (withBit c (offsetOf c t) false) (offsetOf c t') t'.cycnum ↔
        Window c (offsetOf c t') t'.cycnum := Iff.rfl
    rw [hsame, hwindow, hbit]
    by_cases hblock : t'.block = t.block
    · rw [if_pos (hoffset.mpr hblock)]
      simp [hblock]
    · rw [if_neg (mt hoffset.mp hblock)]
      simp [hblock]
  · rw [if_neg hname]
    simp [hname]

/-- What is cancelled was there, what is there can be cancelled except at the free pointer, and a
cancel takes away the articles of that block and no others. -/
theorem cnfs_cancel_found (hwidth : longsize = 4 ∨ longsize = 8) (h : Reachable tab) (t : TOKEN) :
    ∃ ok tab', cnfs_cancel tab t = some (ok, tab') ∧ (ok = true → Found tab t) ∧
      (Found tab t → ¬ AtFree tab t → ok = true) ∧ (ok = false → tab' = tab) ∧
      (ok = true → ∀ t', Found tab' t' ↔ Found tab t' ∧ ¬ SameBlock t t') := by
  have hmapped := h.mapped hwidth
  rcases cnfs_cancel_eq (t := t) hmapped with
    ⟨c, htype, hc, hwindow, hbit, heq⟩ | ⟨hnot, heq⟩
  · have hreadable : Readable c (offsetOf c t) := by
      rw [usedBit, Bool.and_eq_true, decide_eq_true_iff] at hbit
      exact hbit.1
    refine ⟨_, _, heq, fun _ => ?_, fun _ _ => rfl, fun h => absurd h (by decide), fun _ t' => ?_⟩
    · exact (found_iff hmapped).mpr ⟨htype, c, hc, hwindow.window, hbit⟩
    · exact found_update hmapped hc hreadable
  · refine ⟨_, _, heq, fun h => absurd h (by decide), fun hfound hfree => ?_, fun _ => rfl,
      fun h => absurd h (by decide)⟩
    obtain ⟨htype, c, hc, hwindow, hbit⟩ := (found_iff hmapped).mp hfound
    refine absurd ⟨htype, c, hc, hwindow.cancelWindow fun hat => ?_, hbit⟩ hnot
    exact hfree ⟨c, hc, hat.1, hat.2⟩

end Reachable

/-! ## A full buffer -/

/-- The description of a buffer in its fifth cycle. -/
def fifthCycle : CYCBUFFEXTERN := ⟨4, [79, 78, 69], 1048576, 20480, 5, 512⟩

/-- The buffer with every bit set. -/
def fullBuffer : CYCBUFF 8 :=
  mapHeader (fun _ => BitVec.allOnes 64)
    { newBuffer 1048576 with magicver := 4, free := 20480, cyclenum := 5, blksz := 512 }

/-- The server has this buffer only. -/
def oneBuffer : Cycbufftab 8 := fun name => if name = [79, 78, 69] then some fullBuffer else none

theorem oneBuffer_reachable : Reachable oneBuffer := by
  refine .init _ fun name c hc => ?_
  rw [oneBuffer] at hc
  split at hc
  · obtain rfl := Option.some.inj hc
    exact ⟨newBuffer 1048576, fifthCycle, fun _ => BitVec.allOnes 64, rfl⟩
  · cases hc

/-- The token of a block of the buffer. -/
def tokenOf (block cycnum : UInt32) : TOKEN := ⟨TOKEN_CNFS, 0, [79, 78, 69], block, cycnum⟩

theorem fullBuffer_used {offset : ℕ} (h : Readable fullBuffer offset) :
    usedBit fullBuffer offset = true := by
  have hmapped := oneBuffer_reachable.mapped (.inr rfl) [79, 78, 69] fullBuffer rfl
  have hword := hmapped.wordOf_lt h.1
  rw [usedBit, decide_eq_true h, Bool.true_and, List.getD_eq_getElem _ _ hword]
  simp only [fullBuffer, mapHeader, List.getElem_map]
  rw [bit, BitVec.getLsbD_allOnes, decide_eq_true_iff]
  omega

theorem tokenOf_found {block cycnum : UInt32} (hwindow : Window fullBuffer
      (offsetOf fullBuffer (tokenOf block cycnum)) cycnum)
    (h : Readable fullBuffer (offsetOf fullBuffer (tokenOf block cycnum))) :
    Found oneBuffer (tokenOf block cycnum) :=
  (found_iff (oneBuffer_reachable.mapped (.inr rfl))).mpr
    ⟨rfl, fullBuffer, rfl, hwindow, fullBuffer_used h⟩

theorem cnfs_cancel_found_new : ∃ ok tab', cnfs_cancel oneBuffer (tokenOf 41 4) = some (ok, tab') ∧
    (ok = true → Found oneBuffer (tokenOf 41 4)) ∧
    (Found oneBuffer (tokenOf 41 4) → ¬ AtFree oneBuffer (tokenOf 41 4) → ok = true) ∧
    (ok = false → tab' = oneBuffer) ∧
    (ok = true → ∀ t', Found tab' t' ↔ Found oneBuffer t' ∧ ¬ SameBlock (tokenOf 41 4) t') :=
  cnfs_cancel_found (.inr rfl) oneBuffer_reachable (tokenOf 41 4)

/-- The article of cycle 4 at the free pointer is found and cannot be cancelled, and when the one
behind it is cancelled, the token with that block and cycle 5 is no longer found. -/
theorem cancel_is_not_retrieve :
    (¬ ∀ (tab : Cycbufftab 8) (t : TOKEN), Reachable tab →
        (Found tab t ↔ ∃ tab', cnfs_cancel tab t = some (true, tab'))) ∧
      ¬ ∀ (tab tab' : Cycbufftab 8) (t t' : TOKEN), Reachable tab →
        cnfs_cancel tab t = some (true, tab') → t' ≠ t → (Found tab' t' ↔ Found tab t') := by
  have hmapped := oneBuffer_reachable.mapped (.inr rfl)
  constructor
  · intro h
    have hfound : Found oneBuffer (tokenOf 40 4) := tokenOf_found (by decide) (by decide)
    obtain ⟨tab', hcancel⟩ := (h oneBuffer _ oneBuffer_reachable).mp hfound
    rcases cnfs_cancel_eq (t := tokenOf 40 4) hmapped with ⟨c, -, hc, hwindow, -⟩ | ⟨-, heq⟩
    · obtain rfl := Option.some.inj hc
      exact absurd hwindow (by decide)
    · rw [heq] at hcancel
      cases hcancel
  · intro h
    have hreadable : Readable fullBuffer (offsetOf fullBuffer (tokenOf 41 4)) := by decide
    have hfound : Found oneBuffer (tokenOf 41 5) := tokenOf_found (by decide) (by decide)
    have hupdate :=
      @found_update 8 oneBuffer (tokenOf 41 4) (tokenOf 41 5) fullBuffer hmapped rfl hreadable
    rcases cnfs_cancel_eq (t := tokenOf 41 4) hmapped with ⟨c, -, hc, -, -, heq⟩ | ⟨hnot, -⟩
    · obtain rfl := Option.some.inj hc
      have hsame := (h _ _ _ (tokenOf 41 5) oneBuffer_reachable heq (by decide)).mpr hfound
      exact (hupdate.mp hsame).2 ⟨rfl, rfl⟩
    · exact hnot ⟨rfl, fullBuffer, rfl, by decide, fullBuffer_used hreadable⟩

end Inn.Cnfs
