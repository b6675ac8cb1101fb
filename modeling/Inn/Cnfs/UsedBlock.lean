import Mathlib.Algebra.Ring.Nat
import Mathlib.Data.List.GetD
import Mathlib.Logic.Function.Iterate

/-!
# Inn.Cnfs.UsedBlock — the bitfield of a cyclic buffer

A cyclic buffer begins with a description of itself, and then has a bit for each of its
blocks. `CNFSinit_disks` maps as much of the file as that takes, and `CNFSUsedBlock` reads and
writes the bits.

* `CYCBUFF`, `CNFSinit_disks`, `CNFSUsedBlock`;
* `Mapped` — what `CNFSinit_disks` says of the mapping;
* `used_blocks` — the words of the bits lie in the mapping, behind the description, and each
  block has a bit of its own.

The words are those of `unsigned long`, which has `longsize` bytes.
-/

namespace Inn.Cnfs

def CNFS_HDR_PAGESIZE : ℕ := 16384

def CNFS_DFL_BLOCKSIZE : ℕ := 4096

def CNFS_MAX_BLOCKSIZE : ℕ := 16384

def CNFS_BEFOREBITF : ℕ := 512

/-- `CYCBUFF`; `bitfield` is the words that are mapped. -/
structure CYCBUFF (longsize : ℕ) where
  name : List UInt8
  len : ℕ
  free : ℕ
  cyclenum : UInt32
  magicver : ℕ
  bitfield : List (BitVec (longsize * 8))
  minartoffset : ℕ
  blksz : ℕ

/-- What is read of the `CYCBUFFEXTERN`: the numbers are those `CNFShex2offt` finds, and
`magicver` is 0 where there is no magic cookie. -/
structure CYCBUFFEXTERN where
  magicver : ℕ
  name : List UInt8
  lena : ℕ
  freea : ℕ
  cyclenuma : UInt32
  blksza : ℕ

variable {longsize : ℕ}

/-- The check of the block size. -/
def validBlksz (blksz : ℕ) : Bool :=
  !(blksz < 512 || CNFS_MAX_BLOCKSIZE < blksz || 2 * (blksz / 2) != blksz)

/-- Where the first block for an article is: behind the bitfield, on a page. -/
def minartoffsetOf (len blksz : ℕ) : ℕ :=
  let minartoffset := len / (blksz * 8) + CNFS_BEFOREBITF
  let tonextblock := CNFS_HDR_PAGESIZE - (minartoffset &&& (CNFS_HDR_PAGESIZE - 1))
  minartoffset + tonextblock

/-- The end of `CNFSinit_disks`: the whole header is mapped. -/
def mapHeader (file : ℕ → BitVec (longsize * 8)) (c : CYCBUFF longsize) : CYCBUFF longsize :=
  let minartoffset := minartoffsetOf c.len c.blksz
  { c with minartoffset := minartoffset
           bitfield := (List.range (minartoffset / longsize)).map file
           free := if c.free = 0 then minartoffset else c.free }

/-- `CNFSinit_disks` for one buffer, whose file has these words. -/
def CNFSinit_disks (c : CYCBUFF longsize) (rpx : CYCBUFFEXTERN)
    (file : ℕ → BitVec (longsize * 8)) : Option (CYCBUFF longsize) :=
  if 3 ≤ rpx.magicver then
    if rpx.name ≠ c.name then none
    else if rpx.lena ≠ c.len then none
    else
      let blksz := if 3 < rpx.magicver then rpx.blksza else 512
      if validBlksz blksz then
        some (mapHeader file { c with magicver := rpx.magicver, free := rpx.freea,
                                      cyclenum := rpx.cyclenuma, blksz := blksz })
      else none
  else
    some (mapHeader file { c with magicver := 4, free := 0, cyclenum := 1,
                                  blksz := CNFS_DFL_BLOCKSIZE })

/-- `onarray`: the bits from the left, each twice the one behind it. -/
def onarray (longsize i : ℕ) : BitVec (longsize * 8) :=
  (fun on : BitVec (longsize * 8) => on <<< 1)^[longsize * 8 - 1 - i] 1#(longsize * 8)

/-- `offarray`. -/
def offarray (longsize i : ℕ) : BitVec (longsize * 8) :=
  onarray longsize i ^^^ BitVec.allOnes (longsize * 8)

/-- The index of the word with the bit of a block. -/
def wordOf (c : CYCBUFF longsize) (offset : ℕ) : ℕ :=
  CNFS_BEFOREBITF / longsize + offset / c.blksz / (longsize * 8)

/-- The bit in its word, from the left. -/
def bitoffset (c : CYCBUFF longsize) (offset : ℕ) : ℕ :=
  offset / c.blksz % (longsize * 8)

/-- `CNFSUsedBlock`: `none` is an access to a word that is not mapped. -/
def CNFSUsedBlock (c : CYCBUFF longsize) (offset : ℕ) (set_operation setbitvalue : Bool) :
    Option (ℕ × CYCBUFF longsize) :=
  if offset < c.minartoffset ∧ setbitvalue = true ∨ c.len < offset then some (0, c)
  else if offset % c.blksz ≠ 0 then some (0, c)
  else
    c.bitfield[wordOf c offset]?.map fun bitlong =>
      if set_operation then
        let bitlong := if setbitvalue then bitlong ||| onarray longsize (bitoffset c offset)
          else bitlong &&& offarray longsize (bitoffset c offset)
        (2, { c with bitfield := c.bitfield.set (wordOf c offset) bitlong })
      else (if bitlong &&& onarray longsize (bitoffset c offset) ≠ 0 then 1 else 0, c)

/-! ## Bits of a word -/

section Bits

variable {i j : ℕ} {x : BitVec (longsize * 8)}

/-- The bit in this place from the left. -/
def bit (x : BitVec (longsize * 8)) (i : ℕ) : Bool := x.getLsbD (longsize * 8 - 1 - i)

theorem onarray_eq (longsize i : ℕ) :
    onarray longsize i = BitVec.twoPow (longsize * 8) (longsize * 8 - 1 - i) := by
  have hiterate : ∀ n, (fun on : BitVec (longsize * 8) => on <<< 1)^[n] 1#(longsize * 8) =
      1#(longsize * 8) <<< n := by
    intro n
    induction n with
    | zero => exact (BitVec.shiftLeft_zero _).symm
    | succ n ih =>
      rw [Function.iterate_succ_apply', ih, BitVec.shiftLeft_add]
  rw [onarray, hiterate, BitVec.twoPow]

theorem bit_onarray (hi : i < longsize * 8) (hj : j < longsize * 8) :
    bit (onarray longsize i) j = decide (i = j) := by
  rw [bit, onarray_eq, BitVec.getLsbD_twoPow, decide_eq_true (by omega), Bool.true_and]
  exact decide_eq_decide.mpr (by omega)

theorem bit_or (hi : i < longsize * 8) (hj : j < longsize * 8) :
    bit (x ||| onarray longsize i) j = (bit x j || decide (i = j)) := by
  rw [← bit_onarray hi hj, bit, bit, bit, BitVec.getLsbD_or]

theorem bit_and_not (hi : i < longsize * 8) (hj : j < longsize * 8) :
    bit (x &&& offarray longsize i) j = (bit x j && !decide (i = j)) := by
  have hlt : longsize * 8 - 1 - j < longsize * 8 := by omega
  rw [← bit_onarray hi hj, bit, bit, bit, offarray, BitVec.getLsbD_and, BitVec.getLsbD_xor,
    BitVec.getLsbD_allOnes, decide_eq_true hlt, Bool.xor_true]

theorem and_onarray_ne_zero (hi : i < longsize * 8) :
    x &&& onarray longsize i ≠ 0 ↔ bit x i = true := by
  rw [onarray_eq, BitVec.and_twoPow, ← bit]
  cases bit x i with
  | false => simp
  | true =>
    rw [if_pos rfl]
    refine iff_of_true (fun h => ?_) rfl
    have hbit := congrArg (·.getLsbD (longsize * 8 - 1 - i)) h
    rw [BitVec.getLsbD_twoPow] at hbit
    simp only [BitVec.ofNat_eq_ofNat, BitVec.getLsbD_zero, decide_true, Bool.and_true,
      decide_eq_false_iff_not] at hbit
    omega

end Bits

/-! ## The mapping -/

section Mapping

variable {c : CYCBUFF longsize} {offset o : ℕ}

/-- What holds of a buffer that `CNFSinit_disks` mapped. -/
structure Mapped (c : CYCBUFF longsize) : Prop where
  width : longsize = 4 ∨ longsize = 8
  blksz : validBlksz c.blksz = true
  minartoffset : c.minartoffset = minartoffsetOf c.len c.blksz
  bitfield : c.bitfield.length = c.minartoffset / longsize

theorem minartoffsetOf_eq (len blksz : ℕ) : minartoffsetOf len blksz =
    CNFS_HDR_PAGESIZE * ((len / blksz / 8 + CNFS_BEFOREBITF) / CNFS_HDR_PAGESIZE + 1) := by
  have hand : (len / (blksz * 8) + CNFS_BEFOREBITF) &&& (CNFS_HDR_PAGESIZE - 1) =
      (len / (blksz * 8) + CNFS_BEFOREBITF) % CNFS_HDR_PAGESIZE :=
    Nat.and_two_pow_sub_one_eq_mod _ 14
  rw [minartoffsetOf, hand, Nat.div_div_eq_div_mul, CNFS_HDR_PAGESIZE]
  omega

theorem mapped_mapHeader (hwidth : longsize = 4 ∨ longsize = 8)
    (hblksz : validBlksz c.blksz = true) (file : ℕ → BitVec (longsize * 8)) :
    Mapped (mapHeader file c) where
  width := hwidth
  blksz := hblksz
  minartoffset := rfl
  bitfield := by
    rw [mapHeader, List.length_map, List.length_range]

/-- Every buffer that is taken into use is mapped so. -/
theorem mapped_init (hwidth : longsize = 4 ∨ longsize = 8) {c₀ : CYCBUFF longsize}
    {rpx : CYCBUFFEXTERN} {file : ℕ → BitVec (longsize * 8)}
    (h : CNFSinit_disks c₀ rpx file = some c) : Mapped c := by
  rw [CNFSinit_disks] at h
  split at h
  · split at h
    · cases h
    · split at h
      · cases h
      · dsimp only at h
        by_cases hvalid : validBlksz (if 3 < rpx.magicver then rpx.blksza else 512) = true
        · rw [if_pos hvalid] at h
          cases h
          exact mapped_mapHeader hwidth hvalid file
        · rw [if_neg hvalid] at h
          cases h
  · cases h
    have hdefault : validBlksz CNFS_DFL_BLOCKSIZE = true := by decide
    exact mapped_mapHeader hwidth hdefault file

theorem Mapped.blksz_pos (hc : Mapped c) : 0 < c.blksz := by
  have hvalid := hc.blksz
  rw [validBlksz, Bool.not_eq_true', Bool.or_eq_false_iff, Bool.or_eq_false_iff,
    decide_eq_false_iff_not] at hvalid
  omega

theorem Mapped.bits_pos (hc : Mapped c) : 0 < longsize * 8 := by
  have hwidth := hc.width
  omega

/-- The word of a block lies behind the description, and all of it in the mapping. -/
theorem Mapped.word_inside (hc : Mapped c) (hlen : offset ≤ c.len) :
    CNFS_BEFOREBITF ≤ longsize * wordOf c offset ∧
      longsize * (wordOf c offset + 1) ≤ c.minartoffset := by
  have hblock := Nat.div_le_div_right (c := c.blksz) hlen
  rw [hc.minartoffset, minartoffsetOf_eq, wordOf, CNFS_BEFOREBITF, CNFS_HDR_PAGESIZE]
  generalize offset / c.blksz = blocknum at hblock ⊢
  generalize c.len / c.blksz = blocks at hblock ⊢
  rcases hc.width with rfl | rfl <;> omega

theorem Mapped.wordOf_lt (hc : Mapped c) (hlen : offset ≤ c.len) :
    wordOf c offset < c.bitfield.length := by
  have hinside := (hc.word_inside hlen).2
  rw [hc.bitfield]
  have hpos : 0 < longsize := by
    have hwidth := hc.width
    omega
  exact (Nat.le_div_iff_mul_le hpos).mpr (Nat.mul_comm _ _ ▸ hinside)

/-- Different blocks have different bits. -/
theorem Mapped.separate (hc : Mapped c) (hoffset : offset % c.blksz = 0) (ho : o % c.blksz = 0)
    (hword : wordOf c offset = wordOf c o) (hbit : bitoffset c offset = bitoffset c o) :
    offset = o := by
  have hblock : offset / c.blksz = o / c.blksz := by
    rw [← Nat.div_add_mod (offset / c.blksz) (longsize * 8), ← bitoffset,
      ← Nat.div_add_mod (o / c.blksz) (longsize * 8), ← bitoffset, hbit]
    rw [wordOf, wordOf] at hword
    rw [Nat.add_left_cancel hword]
  have hpos := hc.blksz_pos
  rw [← Nat.div_mul_cancel (Nat.dvd_of_mod_eq_zero hoffset), hblock,
    Nat.div_mul_cancel (Nat.dvd_of_mod_eq_zero ho)]

end Mapping

/-! ## Reading and writing the bits -/

section Used

variable {c : CYCBUFF longsize} {offset o : ℕ} {value : Bool}

/-- The block of this offset has a bit that may be read. -/
def Readable (c : CYCBUFF longsize) (offset : ℕ) : Prop :=
  offset ≤ c.len ∧ offset % c.blksz = 0

instance (c : CYCBUFF longsize) (offset : ℕ) : Decidable (Readable c offset) :=
  inferInstanceAs (Decidable (_ ∧ _))

/-- The bit of a block. -/
def usedBit (c : CYCBUFF longsize) (offset : ℕ) : Bool :=
  decide (Readable c offset) && bit (c.bitfield.getD (wordOf c offset) 0) (bitoffset c offset)

/-- The buffer with the bit of a block changed. -/
def withBit (c : CYCBUFF longsize) (offset : ℕ) (value : Bool) : CYCBUFF longsize :=
  let bitlong := c.bitfield.getD (wordOf c offset) 0
  { c with bitfield := c.bitfield.set (wordOf c offset)
             (if value then bitlong ||| onarray longsize (bitoffset c offset)
              else bitlong &&& offarray longsize (bitoffset c offset)) }

/-- A write that is not refused. -/
def Writable (c : CYCBUFF longsize) (offset : ℕ) (value : Bool) : Prop :=
  Readable c offset ∧ (value = true → c.minartoffset ≤ offset)

instance (c : CYCBUFF longsize) (offset : ℕ) (value : Bool) :
    Decidable (Writable c offset value) :=
  inferInstanceAs (Decidable (_ ∧ _))

theorem Mapped.getElem?_word (hc : Mapped c) (hlen : offset ≤ c.len) :
    c.bitfield[wordOf c offset]? = some (c.bitfield.getD (wordOf c offset) 0) := by
  rw [List.getD_eq_getElem _ _ (hc.wordOf_lt hlen), List.getElem?_eq_getElem]

/-- Reading gives the bit, and 0 where there is none. -/
theorem Mapped.read (hc : Mapped c) (offset : ℕ) :
    CNFSUsedBlock c offset false false = some ((usedBit c offset).toNat, c) := by
  rw [CNFSUsedBlock, usedBit]
  by_cases hlen : c.len < offset
  · rw [if_pos (.inr hlen), decide_eq_false fun h => absurd h.1 (by omega)]
    rfl
  · rw [if_neg (by simp [hlen])]
    by_cases hblock : offset % c.blksz = 0
    · have hbit : bitoffset c offset < longsize * 8 := Nat.mod_lt _ hc.bits_pos
      have hreadable : Readable c offset := ⟨by omega, hblock⟩
      rw [if_neg (not_not.mpr hblock), hc.getElem?_word (by omega), decide_eq_true hreadable]
      simp only [Option.map_some, Bool.false_eq_true, if_false, and_onarray_ne_zero hbit,
        Bool.true_and]
      cases bit (c.bitfield.getD (wordOf c offset) 0) (bitoffset c offset) <;> rfl
    · rw [if_pos hblock, decide_eq_false fun h => hblock h.2]
      rfl

/-- Writing changes the bit, or is refused. -/
theorem Mapped.write (hc : Mapped c) (offset : ℕ) (value : Bool) :
    CNFSUsedBlock c offset true value =
      some (if Writable c offset value then (2, withBit c offset value) else (0, c)) := by
  rw [CNFSUsedBlock]
  by_cases hrange : offset < c.minartoffset ∧ value = true ∨ c.len < offset
  · rw [if_pos hrange, if_neg]
    rintro ⟨⟨hlen, -⟩, hmin⟩
    rcases hrange with ⟨hlow, hvalue⟩ | hhigh
    · exact absurd (hmin hvalue) (by omega)
    · omega
  · rw [if_neg hrange]
    rw [not_or, not_and] at hrange
    by_cases hblock : offset % c.blksz = 0
    · have hwritable : Writable c offset value := by
        exact ⟨⟨by omega, hblock⟩, fun hvalue => Nat.not_lt.mp fun hlt => hrange.1 hlt hvalue⟩
      rw [if_neg (not_not.mpr hblock), hc.getElem?_word (by omega), if_pos hwritable]
      rfl
    · rw [if_pos hblock, if_neg fun h => hblock h.1.2]

@[simp] theorem withBit_wordOf : wordOf (withBit c offset value) o = wordOf c o := rfl

@[simp] theorem withBit_bitoffset : bitoffset (withBit c offset value) o = bitoffset c o := rfl

@[simp] theorem withBit_readable : Readable (withBit c offset value) o ↔ Readable c o := Iff.rfl

theorem Mapped.withBit (hc : Mapped c) (offset : ℕ) (value : Bool) :
    Mapped (withBit c offset value) where
  width := hc.width
  blksz := hc.blksz
  minartoffset := hc.minartoffset
  bitfield := List.length_set.trans hc.bitfield

/-- A change of one bit is read for its block only. -/
theorem Mapped.usedBit_withBit (hc : Mapped c) (h : Readable c offset) :
    usedBit (Cnfs.withBit c offset value) o = if o = offset then value else usedBit c o := by
  have hbit : ∀ o, bitoffset c o < longsize * 8 := fun o => Nat.mod_lt _ hc.bits_pos
  rw [usedBit, usedBit, withBit_wordOf, withBit_bitoffset]
  simp only [withBit_readable]
  by_cases ho : Readable c o
  · rw [decide_eq_true ho, Bool.true_and, Bool.true_and, Cnfs.withBit]
    by_cases hword : wordOf c offset = wordOf c o
    · rw [List.getD_eq_getElem?_getD, hword, List.getElem?_set_self (hc.wordOf_lt ho.1),
        Option.getD_some]
      have hsame : o = offset ↔ bitoffset c offset = bitoffset c o := by
        refine ⟨fun heq => heq ▸ rfl, fun heq => ?_⟩
        exact (hc.separate h.2 ho.2 hword heq).symm
      cases value with
      | true =>
        rw [if_pos rfl, bit_or (hbit offset) (hbit o)]
        by_cases heq : o = offset
        · rw [if_pos heq, decide_eq_true (hsame.mp heq), Bool.or_true]
        · rw [if_neg heq, decide_eq_false (mt hsame.mpr heq), Bool.or_false]
      | false =>
        rw [if_neg Bool.false_ne_true, bit_and_not (hbit offset) (hbit o)]
        by_cases heq : o = offset
        · rw [if_pos heq, decide_eq_true (hsame.mp heq), Bool.not_true, Bool.and_false]
        · rw [if_neg heq, decide_eq_false (mt hsame.mpr heq), Bool.not_false, Bool.and_true]
    · have hne : o ≠ offset := fun heq => hword (heq ▸ rfl)
      rw [if_neg hne, List.getD_eq_getElem?_getD, List.getElem?_set_ne hword,
        List.getD_eq_getElem?_getD]
  · have hne : o ≠ offset := fun heq => ho (heq ▸ h)
    rw [decide_eq_false ho, if_neg hne]
    rfl

/-- What is asked of the bitfield: the words that are used for the blocks of the buffer, the bits
in them, and what is read after a change of one of them. -/
structure SoundBits (c : CYCBUFF longsize) : Prop where
  inside : ∀ offset ≤ c.len, CNFS_BEFOREBITF ≤ longsize * wordOf c offset ∧
    longsize * (wordOf c offset + 1) ≤ c.minartoffset
  mapped : ∀ offset ≤ c.len, wordOf c offset < c.bitfield.length
  separate : ∀ offset ≤ c.len, ∀ o ≤ c.len, offset % c.blksz = 0 → o % c.blksz = 0 →
    (wordOf c offset, bitoffset c offset) = (wordOf c o, bitoffset c o) → offset = o
  reads : ∀ offset ≤ c.len, ∃ b ≤ 1, CNFSUsedBlock c offset false false = some (b, c)
  writes : ∀ offset ≤ c.len, ∀ value, ∃ r c', CNFSUsedBlock c offset true value = some (r, c') ∧
    (offset % c.blksz = 0 ∧ (value = true → c.minartoffset ≤ offset) → r = 2) ∧
    ∀ o ≤ c.len, (CNFSUsedBlock c' o false false).map Prod.fst =
      if o = offset ∧ r = 2 then some value.toNat
      else (CNFSUsedBlock c o false false).map Prod.fst

theorem Mapped.sound (hc : Mapped c) : SoundBits c where
  inside := fun _ hlen => hc.word_inside hlen
  mapped := fun _ hlen => hc.wordOf_lt hlen
  separate := by
    intro offset _ o _ hoffset ho hplace
    obtain ⟨hword, hbit⟩ := Prod.mk.inj hplace
    exact hc.separate hoffset ho hword hbit
  reads := fun offset _ => ⟨_, Bool.toNat_le _, hc.read offset⟩
  writes := by
    intro offset hlen value
    by_cases hwritable : Writable c offset value
    · refine ⟨2, Cnfs.withBit c offset value, ?_, fun _ => rfl, fun o _ => ?_⟩
      · rw [hc.write, if_pos hwritable]
      · rw [(hc.withBit offset value).read, hc.read, Option.map_some, Option.map_some,
          hc.usedBit_withBit hwritable.1]
        by_cases ho : o = offset
        · rw [if_pos ho, if_pos ⟨ho, rfl⟩]
        · rw [if_neg ho, if_neg fun h => ho h.1]
    · refine ⟨0, c, ?_, fun h => absurd ⟨⟨hlen, h.1⟩, h.2⟩ hwritable, fun o _ => ?_⟩
      · rw [hc.write, if_neg hwritable]
      · rw [if_neg fun h => absurd h.2 (by decide)]

end Used

/-- For every length and every block size that `CNFSinit_disks` accepts. -/
theorem used_blocks (hwidth : longsize = 4 ∨ longsize = 8) {c₀ c : CYCBUFF longsize}
    {rpx : CYCBUFFEXTERN} {file : ℕ → BitVec (longsize * 8)}
    (h : CNFSinit_disks c₀ rpx file = some c) : SoundBits c :=
  (mapped_init hwidth h).sound

/-- A buffer that was not in use before. -/
def newBuffer (len : ℕ) : CYCBUFF 8 where
  name := [79, 78, 69]
  len := len
  free := 0
  cyclenum := 0
  magicver := 0
  bitfield := []
  minartoffset := 0
  blksz := 0

/-- There is no description in it. -/
def noCookie : CYCBUFFEXTERN := ⟨0, [], 0, 0, 0, 0⟩

theorem used_blocks_new : ∃ c, CNFSinit_disks (newBuffer 1048576) noCookie (fun _ => 0) = some c ∧
    SoundBits c :=
  ⟨_, rfl, @used_blocks 8 (.inr rfl) (newBuffer 1048576) _ noCookie (fun _ => 0) rfl⟩

end Inn.Cnfs
