import Inn.Buffindexed.Purge
import Inn.Storage.Token

/-!
# Inn.Buffindexed.Addrec — the blocks of a group, and writes that fail

`ovaddrec` writes overview data behind that in the current data block, and its index record
behind those in the last block of the index chain; a full block gets a successor first. Each write
may fail.

* `Holds` — the records that a group has, and where its blocks are;
* `Holds.mapped` — `ovgroupmmap` reads these records;
* `storeData_holds`, `ovsetcurindexblock_holds`, `storeEntry_holds` — what each part does to them;
* `atomic_iff` — when a failing write does no harm.
-/

namespace Inn.Buffindexed.Addrec

open Inn.Storage

/-! ## Blocks -/

/-- `OV`; `ovnull` is `none`. -/
structure OV where
  blocknum : ℕ
  index : ℕ
deriving DecidableEq

/-- `OVINDEXHEAD`. -/
structure OVINDEXHEAD where
  next : Option OV
  low : ℕ
  high : ℕ

/-- `OVINDEX`; `ov` is its `index` and `blocknum`. -/
structure OVINDEX where
  artnum : ℕ
  ov : OV
  token : TOKEN
  offset : ℕ
  len : ℕ
  arrived : ℤ
  expires : ℤ

/-- `sizeof(OVINDEXHEAD)`. -/
def sizeofHEAD : ℕ := 24

/-- `sizeof(OVINDEX)`. -/
def sizeofINDEX : ℕ := 64

def OVINDEXMAX : ℕ := (OV_BLOCKSIZE - sizeofHEAD) / sizeofINDEX

/-- What a block has, by what was written to it last. -/
inductive Block where
  | data (bytes : ℕ → UInt8)
  | index (head : OVINDEXHEAD) (ovindex : ℕ → OVINDEX)

namespace Block

/-- A block of the other kind reads as anything. -/
def bytes : Block → ℕ → UInt8
  | data bytes => bytes
  | index _ _ => fun _ => 0

def ovindexhead : Block → OVINDEXHEAD
  | data _ => ⟨none, 0, 0⟩
  | index head _ => head

def ovindex : Block → ℕ → OVINDEX
  | data _ => fun _ => ⟨0, ⟨0, 0⟩, .zero, 0, 0, 0, 0⟩
  | index _ ovindex => ovindex

def writeData (offset : ℕ) (text : List UInt8) (b : Block) : Block :=
  data fun i => if offset ≤ i then (text[i - offset]?).getD (b.bytes i) else b.bytes i

def writeHead (head : OVINDEXHEAD) (b : Block) : Block := index head b.ovindex

def writeEntry (place : ℕ) (ie : OVINDEX) (b : Block) : Block :=
  index b.ovindexhead (Function.update b.ovindex place ie)

end Block

/-! ## The group -/

/-- The part of a `GROUPENTRY` that is read and written here. -/
structure GROUPENTRY where
  high : ℕ
  low : ℕ
  count : ℕ
  baseindex : Option OV
  curindex : Option OV
  curindexoffset : ℕ
  curhigh : ℕ
  curlow : ℕ
  curdata : Option OV
  curoffset : ℕ

/-- The place of a write. -/
structure Write where
  ov : OV
  offset : ℕ
  size : ℕ

/-- The group with all blocks, those that the bitfields say are in use, and those that were got
for the group. -/
structure State where
  ge : GROUPENTRY
  blocks : OV → Block
  used : OV → Prop
  owned : List OV

/-- The arguments of `buffindexed_add`, what `ovblocknew` returns in it, and which of its writes
fail. -/
structure Add where
  artnum : ℕ
  token : TOKEN
  data : List UInt8
  arrived : ℤ
  expires : ℤ
  dataBlock : Option OV
  indexBlock : Option OV
  dataFails : Bool
  newHeadFails : Bool
  linkFails : Bool
  entryFails : Bool
  headFails : Bool

/-- A part of `ovaddrec`: the state after it, what was written, and its result. -/
structure Result where
  state : State
  writes : List Write
  ok : Bool

/-- `ovblocknew` returned this block. -/
def State.take (s : State) (ov : OV) : State :=
  { s with used := fun b => s.used b ∨ b = ov, owned := ov :: s.owned }

/-- A write to a block. -/
def State.pwrite (s : State) (ov : OV) (f : Block → Block) : State :=
  { s with blocks := fun b => if b = ov then f (s.blocks b) else s.blocks b }

@[simp] theorem take_ge (s : State) (ov : OV) : (s.take ov).ge = s.ge := rfl

@[simp] theorem pwrite_ge (s : State) (ov : OV) (f : Block → Block) : (s.pwrite ov f).ge = s.ge :=
  rfl

/-- `ovsetcurindexblock`. -/
def ovsetcurindexblock (s : State) (a : Add) : Result :=
  match a.indexBlock with
  | none => ⟨s, [], false⟩
  | some ov =>
    let s := s.take ov
    -- it is left with the result of a success
    if a.newHeadFails then ⟨s, [], true⟩
    else
      let s := s.pwrite ov (Block.writeHead ⟨none, 0, 0⟩)
      let ge := { s.ge with curindex := some ov, curindexoffset := 0, curlow := 0, curhigh := 0 }
      if s.ge.baseindex = none then
        ⟨{ s with ge := { ge with baseindex := some ov } }, [⟨ov, 0, sizeofHEAD⟩], true⟩
      else
        match s.ge.curindex with
        | none => ⟨s, [⟨ov, 0, sizeofHEAD⟩], false⟩
        | some cur =>
          if a.linkFails then ⟨s, [⟨ov, 0, sizeofHEAD⟩], false⟩
          else
            ⟨{ s.pwrite cur (Block.writeHead ⟨some ov, s.ge.curlow, s.ge.curhigh⟩) with ge := ge },
              [⟨ov, 0, sizeofHEAD⟩, ⟨cur, 0, sizeofHEAD⟩], true⟩

/-- The first part of `ovaddrec`: the overview data is written. -/
def storeData (s : State) (a : Add) : Result :=
  let allocates := s.ge.curdata = none ∨ OV_BLOCKSIZE - s.ge.curoffset < a.data.length
  match if allocates then a.dataBlock else s.ge.curdata with
  | none => ⟨s, [], false⟩
  | some ov =>
    let s := if allocates then
        { s.take ov with ge := { s.ge with curdata := some ov, curoffset := 0 } }
      else s
    if a.dataFails then ⟨s, [], false⟩
    else
      ⟨s.pwrite ov (Block.writeData s.ge.curoffset a.data),
        [⟨ov, s.ge.curoffset, a.data.length⟩], true⟩

/-- The index record for data in this block. -/
def entryFor (a : Add) (ov : OV) (offset : ℕ) : OVINDEX :=
  ⟨a.artnum, ov, a.token, offset, a.data.length, a.arrived, a.expires⟩

/-- The head of the last index block is written again. -/
def NeedsUpdate (ge : GROUPENTRY) (artnum : ℕ) : Prop :=
  (ge.curlow = 0 ∨ artnum < ge.curlow) ∨ ge.curhigh = 0 ∨ ge.curhigh < artnum

instance (ge : GROUPENTRY) (artnum : ℕ) : Decidable (NeedsUpdate ge artnum) :=
  inferInstanceAs (Decidable (_ ∨ _))

/-- The marks of the last index block. -/
def GROUPENTRY.mark (ge : GROUPENTRY) (artnum : ℕ) : GROUPENTRY :=
  { ge with
    curlow := if ge.curlow = 0 ∨ artnum < ge.curlow then artnum else ge.curlow
    curhigh := if ge.curhigh = 0 ∨ ge.curhigh < artnum then artnum else ge.curhigh }

/-- The record counts. -/
def GROUPENTRY.counted (ge : GROUPENTRY) (artnum len : ℕ) : GROUPENTRY :=
  { ge with
    low := if ge.low = 0 ∨ artnum < ge.low then artnum else ge.low
    high := if ge.high = 0 ∨ ge.high < artnum then artnum else ge.high
    curindexoffset := ge.curindexoffset + 1
    curoffset := ge.curoffset + len
    count := ge.count + 1 }

/-- The last part: the index record is written. -/
def storeEntry (s : State) (a : Add) (ie : OVINDEX) : Result :=
  match s.ge.curindex with
  | none => ⟨s, [], false⟩
  | some cur =>
    if a.entryFails then ⟨s, [], true⟩
    else
      let ge := s.ge.mark a.artnum
      let written : Write := ⟨cur, sizeofHEAD + sizeofINDEX * s.ge.curindexoffset, sizeofINDEX⟩
      let entered := s.pwrite cur (Block.writeEntry s.ge.curindexoffset ie)
      if NeedsUpdate s.ge a.artnum then
        if a.headFails then ⟨{ entered with ge := ge }, [written], true⟩
        else
          ⟨{ entered.pwrite cur (Block.writeHead ⟨none, ge.curlow, ge.curhigh⟩) with
              ge := ge.counted a.artnum a.data.length },
            [written, ⟨cur, 0, sizeofHEAD⟩], true⟩
      else ⟨{ entered with ge := ge.counted a.artnum a.data.length }, [written], true⟩

/-- The index needs a block. -/
def NeedsBlock (ge : GROUPENTRY) : Prop := ge.baseindex = none ∨ ge.curindexoffset = OVINDEXMAX

instance (ge : GROUPENTRY) : Decidable (NeedsBlock ge) := inferInstanceAs (Decidable (_ ∨ _))

/-- `ovaddrec`. -/
def ovaddrec (s : State) (a : Add) : Result :=
  if OV_BLOCKSIZE < a.data.length then ⟨s, [], false⟩
  else
    let stored := storeData s a
    match stored.ok, stored.state.ge.curdata with
    | true, some ov =>
      let ie := entryFor a ov stored.state.ge.curoffset
      let set := if NeedsBlock stored.state.ge then ovsetcurindexblock stored.state a
        else ⟨stored.state, [], true⟩
      if set.ok then
        let added := storeEntry set.state a ie
        ⟨added.state, stored.writes ++ set.writes ++ added.writes, added.ok⟩
      else ⟨set.state, stored.writes ++ set.writes, false⟩
    | _, _ => ⟨stored.state, stored.writes, false⟩

/-- `buffindexed_add`; it is `none` where `ovaddrec` is not called. -/
def buffindexed_add (Cutofflow : Bool) (s : State) (a : Add) : Option Result :=
  if OV_BLOCKSIZE < a.data.length then none
  else if Cutofflow = true ∧ a.artnum < s.ge.low then none
  else some (ovaddrec s a)

/-! ## Reading -/

/-- The records of a block. -/
def records (b : Block) (limit : ℕ) : List OVINDEX := (List.range limit).map b.ovindex

/-- How many records `ovgroupmmap` takes from a block. -/
def limitOf (s : State) (ov : OV) : ℕ :=
  if s.ge.curindex = some ov then s.ge.curindexoffset else OVINDEXMAX

/-- The walk of `ovgroupmmap` along the chain; it fails at a loop, and where there are too many
records. -/
inductive Reads (s : State) : List OV → Option OV → List OVINDEX → Prop where
  | done {Giblist : List OV} : Reads s Giblist none []
  | block {Giblist : List OV} {ov : OV} {rest : List OVINDEX} : ov ∉ Giblist →
      limitOf s ov ≤ OVINDEXMAX → Reads s (ov :: Giblist) (s.blocks ov).ovindexhead.next rest →
        Reads s Giblist (some ov) (records (s.blocks ov) (limitOf s ov) ++ rest)

/-- `ovgroupmmap` succeeds, with these records. -/
def Mapped (s : State) (es : List OVINDEX) : Prop :=
  if s.ge.count = 0 then es = [] else Reads s [] s.ge.baseindex es

/-- The overview data of a record. -/
def dataOf (s : State) (e : OVINDEX) : List UInt8 :=
  (List.range e.len).map fun i => (s.blocks e.ov).bytes (e.offset + i)

theorem Reads.unique {s : State} {Giblist : List OV} {ov : Option OV} {es es' : List OVINDEX}
    (h : Reads s Giblist ov es) (h' : Reads s Giblist ov es') : es = es' := by
  induction h generalizing es' with
  | done =>
    cases h'
    rfl
  | block _ _ _ ih =>
    cases h' with
    | block _ _ hrest => rw [ih hrest]

theorem Mapped.unique {s : State} {es es' : List OVINDEX} (h : Mapped s es) (h' : Mapped s es') :
    es = es' := by
  rw [Mapped] at h h'
  split at h
  · rw [if_pos ‹_›] at h'
    exact h.trans h'.symm
  · rw [if_neg ‹_›] at h'
    exact h.unique h'

/-! ## The chain -/

/-- Each block has the next one in its head. -/
def Linked (blocks : OV → Block) : List OV → Prop
  | [] => True
  | ov :: chain => (blocks ov).ovindexhead.next = chain.head? ∧ Linked blocks chain

/-- The records of a chain whose last block has so many. -/
def listed (blocks : OV → Block) (offset : ℕ) : List OV → List OVINDEX
  | [] => []
  | ov :: chain =>
    records (blocks ov) (if chain = [] then offset else OVINDEXMAX) ++ listed blocks offset chain

section Chain

variable {blocks blocks' : OV → Block} {chain init : List OV} {ov cur : OV} {offset : ℕ}

theorem listed_concat (blocks : OV → Block) (offset : ℕ) (init : List OV) (cur : OV) :
    listed blocks offset (init ++ [cur]) =
      init.flatMap (fun ov => records (blocks ov) OVINDEXMAX) ++ records (blocks cur) offset := by
  induction init with
  | nil => simp [listed]
  | cons ov init ih =>
    rw [List.cons_append, listed, if_neg (by simp), ih, List.flatMap_cons, List.append_assoc]

theorem records_succ (b : Block) (limit : ℕ) :
    records b (limit + 1) = records b limit ++ [b.ovindex limit] := by
  rw [records, List.range_succ, List.map_append]
  rfl

theorem records_congr {b b' : Block} {limit : ℕ} (h : ∀ k < limit, b.ovindex k = b'.ovindex k) :
    records b limit = records b' limit :=
  List.map_congr_left fun k hk => h k (List.mem_range.mp hk)

theorem flatMap_records_congr (h : ∀ ov ∈ init, (blocks ov).ovindex = (blocks' ov).ovindex) :
    init.flatMap (fun ov => records (blocks ov) OVINDEXMAX) =
      init.flatMap fun ov => records (blocks' ov) OVINDEXMAX :=
  List.flatMap_congr fun ov hov => records_congr fun k _ => congrFun (h ov hov) k

theorem Linked.congr (h : Linked blocks chain)
    (hsame : ∀ ov ∈ chain, (blocks' ov).ovindexhead.next = (blocks ov).ovindexhead.next) :
    Linked blocks' chain := by
  induction chain with
  | nil => exact h
  | cons ov chain ih =>
    exact ⟨(hsame ov List.mem_cons_self).trans h.1,
      ih h.2 fun ov' hov' => hsame ov' (List.mem_cons_of_mem _ hov')⟩

/-- A block behind the last one. -/
theorem Linked.concat (h : Linked blocks (init ++ [cur]))
    (hsame : ∀ ov ∈ init, (blocks' ov).ovindexhead.next = (blocks ov).ovindexhead.next)
    (hcur : (blocks' cur).ovindexhead.next = some ov)
    (hov : (blocks' ov).ovindexhead.next = none) : Linked blocks' (init ++ [cur] ++ [ov]) := by
  induction init with
  | nil => exact ⟨hcur, hov, trivial⟩
  | cons first init ih =>
    refine ⟨(hsame first List.mem_cons_self).trans (h.1.trans ?_),
      ih h.2 fun ov' hov' => hsame ov' (List.mem_cons_of_mem _ hov')⟩
    cases init <;> rfl

/-- The walk along a chain. -/
theorem reads_linked {s : State} {Giblist : List OV} (hlinked : Linked s.blocks chain)
    (hnodup : chain.Nodup) (hfree : ∀ ov ∈ chain, ov ∉ Giblist)
    (hlast : ∀ ov ∈ chain, s.ge.curindex = some ov ↔ chain.getLast? = some ov)
    (hoffset : s.ge.curindexoffset ≤ OVINDEXMAX) :
    Reads s Giblist chain.head? (listed s.blocks s.ge.curindexoffset chain) := by
  induction chain generalizing Giblist with
  | nil => exact .done
  | cons ov chain ih =>
    obtain ⟨hnot, hnodup⟩ := List.nodup_cons.mp hnodup
    have hlimit : limitOf s ov = if chain = [] then s.ge.curindexoffset else OVINDEXMAX := by
      rw [limitOf]
      simp only [hlast ov List.mem_cons_self]
      rcases chain with _ | ⟨ov', chain⟩
      · simp
      · have hne : (ov :: ov' :: chain).getLast? ≠ some ov := by
          rw [List.getLast?_cons_cons]
          exact fun h => hnot (List.mem_of_getLast? h)
        rw [if_neg hne, if_neg (List.cons_ne_nil _ _)]
    rw [listed, ← hlimit]
    refine .block (hfree ov List.mem_cons_self) ?_ ?_
    · rw [hlimit]
      split
      · exact hoffset
      · exact Nat.le_refl _
    · rw [hlinked.1]
      refine ih hlinked.2 hnodup (fun ov' hov' => ?_) fun ov' hov' => ?_
      · rw [List.mem_cons, not_or]
        exact ⟨fun h => hnot (h ▸ hov'), hfree ov' (List.mem_cons_of_mem _ hov')⟩
      · rw [hlast ov' (List.mem_cons_of_mem _ hov')]
        obtain ⟨c, l, rfl⟩ := List.exists_cons_of_ne_nil (List.ne_nil_of_mem hov')
        rw [List.getLast?_cons_cons]

theorem listed_congr (h : ∀ ov ∈ chain, blocks' ov = blocks ov) :
    listed blocks' offset chain = listed blocks offset chain := by
  induction chain with
  | nil => rfl
  | cons ov chain ih =>
    rw [listed, listed, h ov List.mem_cons_self,
      ih fun ov' hov' => h ov' (List.mem_cons_of_mem _ hov')]

end Chain

/-! ## What a group has -/

/-- The chain of index blocks, the records in them, and the data blocks apart from the chain. -/
structure Holds (s : State) (chain : List OV) (es : List OVINDEX) : Prop where
  base : s.ge.baseindex = chain.head?
  cur : s.ge.curindex = chain.getLast?
  nodup : chain.Nodup
  linked : Linked s.blocks chain
  offset : s.ge.curindexoffset ≤ OVINDEXMAX
  records : es = listed s.blocks s.ge.curindexoffset chain
  count : s.ge.count = es.length
  room : s.ge.curoffset ≤ OV_BLOCKSIZE
  curdata : ∀ b, s.ge.curdata = some b → b ∈ s.owned ∧ b ∉ chain
  entries : ∀ e ∈ es, e.ov ∈ s.owned ∧ e.ov ∉ chain ∧ e.offset + e.len ≤ OV_BLOCKSIZE ∧
    (s.ge.curdata = some e.ov → e.offset + e.len ≤ s.ge.curoffset)
  owned : ∀ b ∈ chain, b ∈ s.owned
  used : ∀ b ∈ s.owned, s.used b

/-- All writes are in blocks of the group. -/
def InBlocks (s : State) (writes : List Write) : Prop :=
  ∀ w ∈ writes, w.ov ∈ s.owned ∧ w.offset + w.size ≤ OV_BLOCKSIZE

/-- The overview data of these records is as it was. -/
def SameData (s s' : State) (es : List OVINDEX) : Prop := ∀ e ∈ es, dataOf s' e = dataOf s e

section Holds

variable {s s' : State} {chain : List OV} {es : List OVINDEX} {ov : OV} {a : Add}
  {f : Block → Block}

/-- `ovgroupmmap` reads the records. -/
theorem Holds.mapped (h : Holds s chain es) : Mapped s es := by
  rw [Mapped]
  split
  · rename_i hcount
    exact List.length_eq_zero_iff.mp (h.count.symm.trans hcount)
  · rw [h.base, h.records]
    exact reads_linked h.linked h.nodup (fun ov _ => List.not_mem_nil)
      (fun ov _ => by rw [h.cur]) h.offset

theorem Holds.not_mem_of_free (h : Holds s chain es) (hfree : ¬ s.used ov) :
    ov ∉ s.owned ∧ ov ∉ chain ∧ ∀ e ∈ es, e.ov ≠ ov := by
  have howned : ov ∉ s.owned := fun hov => hfree (h.used ov hov)
  exact ⟨howned, fun hov => howned (h.owned ov hov), fun e he heq =>
    howned (heq ▸ (h.entries e he).1)⟩

theorem Holds.take (h : Holds s chain es) (ov : OV) : Holds (s.take ov) chain es where
  base := h.base
  cur := h.cur
  nodup := h.nodup
  linked := h.linked
  offset := h.offset
  records := h.records
  count := h.count
  room := h.room
  curdata b hb := ⟨List.mem_cons_of_mem _ (h.curdata b hb).1, (h.curdata b hb).2⟩
  entries e he := ⟨List.mem_cons_of_mem _ (h.entries e he).1, (h.entries e he).2⟩
  owned b hb := List.mem_cons_of_mem _ (h.owned b hb)
  used b hb := (List.mem_cons.mp hb).elim .inr fun hb => .inl (h.used b hb)

/-- A new data block. -/
theorem Holds.startData (h : Holds s chain es) (hfree : ¬ s.used ov) :
    Holds { s.take ov with ge := { s.ge with curdata := some ov, curoffset := 0 } } chain es := by
  obtain ⟨-, hchain, hentries⟩ := h.not_mem_of_free hfree
  have htake := h.take ov
  exact
    { base := h.base
      cur := h.cur
      nodup := h.nodup
      linked := h.linked
      offset := h.offset
      records := h.records
      count := h.count
      room := Nat.zero_le _
      curdata := fun b hb => by
        obtain rfl := Option.some.inj hb
        exact ⟨List.mem_cons_self, hchain⟩
      entries := fun e he => ⟨(htake.entries e he).1, (htake.entries e he).2.1,
        (htake.entries e he).2.2.1, fun hb => absurd (Option.some.inj hb).symm (hentries e he)⟩
      owned := htake.owned
      used := htake.used }

theorem pwrite_ne {b : OV} (h : b ≠ ov) : (s.pwrite ov f).blocks b = s.blocks b := if_neg h

theorem pwrite_same : (s.pwrite ov f).blocks ov = f (s.blocks ov) := if_pos rfl

/-- A write to a block that is not in the chain. -/
theorem Holds.pwrite_apart (h : Holds s chain es) (hov : ov ∉ chain) :
    Holds (s.pwrite ov f) chain es := by
  have hsame : ∀ b ∈ chain, (s.pwrite ov f).blocks b = s.blocks b := fun b hb =>
    pwrite_ne fun heq => hov (heq ▸ hb)
  exact
    { base := h.base
      cur := h.cur
      nodup := h.nodup
      linked := h.linked.congr fun b hb => by rw [hsame b hb]
      offset := h.offset
      records := h.records.trans (listed_congr hsame).symm
      count := h.count
      room := h.room
      curdata := h.curdata
      entries := h.entries
      owned := h.owned
      used := h.used }

theorem dataOf_writeData {offset : ℕ} (s : State) (a : Add) (ov : OV) :
    dataOf (s.pwrite ov (Block.writeData offset a.data)) (entryFor a ov offset) = a.data := by
  rw [dataOf, entryFor]
  dsimp only
  rw [pwrite_same]
  refine List.ext_getElem (by simp) fun i hi hi' => ?_
  rw [List.getElem_map, List.getElem_range]
  simp only [Block.writeData, Block.bytes, Nat.le_add_right, if_true, Nat.add_sub_cancel_left,
    List.getElem?_eq_getElem hi', Option.getD_some]

/-- Data that is written behind that of the records. -/
theorem sameData_writeData (h : Holds s chain es) (hov : s.ge.curdata = some ov) :
    SameData s (s.pwrite ov (Block.writeData s.ge.curoffset a.data)) es := by
  intro e he
  by_cases heq : e.ov = ov
  · have hbehind := (h.entries e he).2.2.2 (heq ▸ hov)
    rw [dataOf, dataOf, heq, pwrite_same]
    refine List.map_congr_left fun i hi => ?_
    have hi := List.mem_range.mp hi
    simp only [Block.writeData, Block.bytes]
    rw [if_neg (by omega)]
  · rw [dataOf, dataOf, pwrite_ne heq]

/-- What the first part leaves as it is. -/
structure DataStored (s s' : State) (a : Add) : Prop where
  baseindex : s'.ge.baseindex = s.ge.baseindex
  curindex : s'.ge.curindex = s.ge.curindex
  curindexoffset : s'.ge.curindexoffset = s.ge.curindexoffset
  curlow : s'.ge.curlow = s.ge.curlow
  curhigh : s'.ge.curhigh = s.ge.curhigh
  used : ∀ b, s'.used b → s.used b ∨ a.dataBlock = some b

theorem storeData_holds (h : Holds s chain es) (hlen : a.data.length ≤ OV_BLOCKSIZE)
    (hfree : ∀ b, a.dataBlock = some b → ¬ s.used b) :
    Holds (storeData s a).state chain es ∧ SameData s (storeData s a).state es ∧
      InBlocks (storeData s a).state (storeData s a).writes ∧
        DataStored s (storeData s a).state a ∧
          ((storeData s a).ok = true → ∃ ov, (storeData s a).state.ge.curdata = some ov ∧
            (storeData s a).state.ge.curoffset + a.data.length ≤ OV_BLOCKSIZE ∧
              dataOf (storeData s a).state
                (entryFor a ov (storeData s a).state.ge.curoffset) = a.data) := by
  have hstay : DataStored s s a := ⟨rfl, rfl, rfl, rfl, rfl, fun _ hb => .inl hb⟩
  have hno : ∀ s : State, InBlocks s [] := fun _ w hw => nomatch hw
  rw [storeData]
  dsimp only
  split
  · exact ⟨h, fun _ _ => rfl, hno _, hstay, nofun⟩
  · rename_i ov hov
    by_cases hallocates : s.ge.curdata = none ∨ OV_BLOCKSIZE - s.ge.curoffset < a.data.length
    · rw [if_pos hallocates] at hov
      have hstart := h.startData (hfree ov hov)
      have hstored : ∀ blocks, DataStored s { s.take ov with
          blocks := blocks
          ge := { s.ge with curdata := some ov, curoffset := 0 } } a := fun _ =>
        ⟨rfl, rfl, rfl, rfl, rfl, fun b hb =>
          Or.imp_right (fun heq : b = ov => hov.trans (congrArg some heq.symm)) hb⟩
      rw [if_pos hallocates]
      split
      · exact ⟨hstart, fun _ _ => rfl, hno _, hstored _, nofun⟩
      · refine ⟨hstart.pwrite_apart (hstart.curdata ov rfl).2, sameData_writeData hstart rfl, ?_,
          hstored _,
          fun _ => ⟨ov, rfl, by rwa [State.pwrite, Nat.zero_add], dataOf_writeData _ a ov⟩⟩
        intro w hw
        obtain rfl := List.mem_singleton.mp hw
        exact ⟨List.mem_cons_self, by rwa [Nat.zero_add]⟩
    · rw [if_neg hallocates] at hov
      have hroom : s.ge.curoffset + a.data.length ≤ OV_BLOCKSIZE := by
        have := h.room
        rw [not_or] at hallocates
        omega
      rw [if_neg hallocates]
      split
      · exact ⟨h, fun _ _ => rfl, hno _, hstay, nofun⟩
      · refine ⟨h.pwrite_apart (h.curdata ov hov).2, sameData_writeData h hov, ?_,
          ⟨rfl, rfl, rfl, rfl, rfl, fun _ hb => .inl hb⟩,
          fun _ => ⟨ov, hov, hroom, dataOf_writeData _ a ov⟩⟩
        intro w hw
        obtain rfl := List.mem_singleton.mp hw
        exact ⟨(h.curdata ov hov).1, hroom⟩

/-- A record fits a block as long as there are fewer than `OVINDEXMAX`. -/
theorem entry_fits {k : ℕ} :
    sizeofHEAD + sizeofINDEX * k + sizeofINDEX ≤ OV_BLOCKSIZE ↔ k < OVINDEXMAX := by
  have hmax : OVINDEXMAX = 127 := by decide
  rw [hmax, sizeofHEAD, sizeofINDEX, OV_BLOCKSIZE]
  omega

theorem head_fits : 0 + sizeofHEAD ≤ OV_BLOCKSIZE := by decide

theorem Linked.last {blocks : OV → Block} {init : List OV} {cur : OV}
    (h : Linked blocks (init ++ [cur])) : (blocks cur).ovindexhead.next = none := by
  induction init with
  | nil => exact h.1
  | cons ov init ih => exact ih h.2

theorem Holds.split (h : Holds s chain es) {cur : OV} (hcur : s.ge.curindex = some cur) :
    ∃ init, chain = init ++ [cur] ∧ cur ∉ init := by
  obtain ⟨init, rfl⟩ := List.getLast?_eq_some_iff.mp (h.cur.symm.trans hcur)
  have hnodup := h.nodup
  rw [List.nodup_append] at hnodup
  exact ⟨init, rfl, fun hmem => hnodup.2.2 cur hmem cur (List.mem_singleton.mpr rfl) rfl⟩

/-- A write to the last index block that leaves its records. -/
theorem Holds.pwrite_last (h : Holds s chain es) {cur : OV} (hcur : s.ge.curindex = some cur)
    (hnext : (f (s.blocks cur)).ovindexhead.next = none)
    (hindex : ∀ k < s.ge.curindexoffset,
      (f (s.blocks cur)).ovindex k = (s.blocks cur).ovindex k) :
    Holds (s.pwrite cur f) chain es := by
  obtain ⟨init, rfl, hnot⟩ := h.split hcur
  have hsame : ∀ b ∈ init, (s.pwrite cur f).blocks b = s.blocks b := fun b hb =>
    pwrite_ne fun heq => hnot (heq ▸ hb)
  exact
    { base := h.base
      cur := h.cur
      nodup := h.nodup
      linked := h.linked.congr fun b hb => by
        rcases List.mem_append.mp hb with hb | hb
        · rw [hsame b hb]
        · obtain rfl := List.mem_singleton.mp hb
          rw [pwrite_same, hnext, h.linked.last]
      offset := h.offset
      records := by
        have hrecords := h.records
        rw [listed_concat] at hrecords ⊢
        rw [hrecords, flatMap_records_congr fun b hb => congrArg Block.ovindex (hsame b hb)]
        refine congrArg _ (records_congr fun k hk => ?_)
        rw [pwrite_same]
        exact (hindex k hk).symm
      count := h.count
      room := h.room
      curdata := h.curdata
      entries := h.entries
      owned := h.owned
      used := h.used }

/-- The marks of the last block are not read here. -/
theorem Holds.mark (h : Holds s chain es) (artnum : ℕ) :
    Holds { s with ge := s.ge.mark artnum } chain es :=
  ⟨h.base, h.cur, h.nodup, h.linked, h.offset, h.records, h.count, h.room, h.curdata, h.entries,
    h.owned, h.used⟩

/-- The data of a record is not in the chain. -/
structure Apart (s : State) (chain : List OV) (a : Add) (ie : OVINDEX) : Prop where
  owned : ie.ov ∈ s.owned
  chain : ie.ov ∉ chain
  within : ie.offset + ie.len ≤ OV_BLOCKSIZE
  behind : ie.offset + ie.len ≤ s.ge.curoffset + a.data.length
  room : s.ge.curoffset + a.data.length ≤ OV_BLOCKSIZE

/-- A record more. -/
theorem Holds.concat (h : Holds s chain es) {cur : OV} {ie : OVINDEX}
    (hcur : s.ge.curindex = some cur) (hoffset : s.ge.curindexoffset < OVINDEXMAX)
    (hie : (s.blocks cur).ovindex s.ge.curindexoffset = ie) (hapart : Apart s chain a ie) :
    Holds { s with ge := s.ge.counted a.artnum a.data.length } chain (es ++ [ie]) := by
  obtain ⟨init, rfl, -⟩ := h.split hcur
  exact
    { base := h.base
      cur := h.cur
      nodup := h.nodup
      linked := h.linked
      offset := hoffset
      records := by
        have hrecords := h.records
        rw [listed_concat] at hrecords ⊢
        rw [GROUPENTRY.counted, records_succ, hie, ← List.append_assoc, ← hrecords]
      count := by
        rw [List.length_append, ← h.count]
        rfl
      room := hapart.room
      curdata := h.curdata
      entries := fun e he => by
        rcases List.mem_append.mp he with he | he
        · obtain ⟨howned, hchain, hwithin, hbehind⟩ := h.entries e he
          exact ⟨howned, hchain, hwithin, fun hb => (hbehind hb).trans (Nat.le_add_right _ _)⟩
        · obtain rfl := List.mem_singleton.mp he
          exact ⟨hapart.owned, hapart.chain, hapart.within, fun _ => hapart.behind⟩
      owned := h.owned
      used := h.used }

theorem storeEntry_holds (h : Holds s chain es) {cur : OV} {ie : OVINDEX}
    (hcur : s.ge.curindex = some cur) (hoffset : s.ge.curindexoffset < OVINDEXMAX)
    (hapart : Apart s chain a ie) :
    (storeEntry s a ie).ok = true ∧ InBlocks (storeEntry s a ie).state (storeEntry s a ie).writes ∧
      (∀ e : OVINDEX, e.ov ∉ chain → dataOf (storeEntry s a ie).state e = dataOf s e) ∧
        Holds (storeEntry s a ie).state chain
          (if a.entryFails = true ∨ NeedsUpdate s.ge a.artnum ∧ a.headFails = true then es
            else es ++ [ie]) := by
  obtain ⟨init, hchain, -⟩ := h.split hcur
  have hmem : cur ∈ chain := by simp [hchain]
  have howned := h.owned cur hmem
  have hdata : ∀ (s : State) (f : Block → Block) (e : OVINDEX), e.ov ∉ chain →
      dataOf (s.pwrite cur f) e = dataOf s e := by
    intro s f e he
    have hne : e.ov ≠ cur := fun heq => he (heq.symm ▸ hmem)
    rw [dataOf, dataOf, pwrite_ne hne]
  have hlast : (s.blocks cur).ovindexhead.next = none := by
    have hlinked := h.linked
    rw [hchain] at hlinked
    exact hlinked.last
  have hentered := @Holds.pwrite_last s chain es (Block.writeEntry s.ge.curindexoffset ie) h cur
    hcur hlast fun k hk => Function.update_of_ne (Nat.ne_of_lt hk) _ _
  have hslot : ((s.pwrite cur (Block.writeEntry s.ge.curindexoffset ie)).blocks cur).ovindex
      s.ge.curindexoffset = ie := by
    rw [pwrite_same]
    exact Function.update_self _ _ _
  have hfits := entry_fits.mpr hoffset
  rw [storeEntry, hcur]
  dsimp only
  by_cases hentry : a.entryFails = true
  · rw [if_pos hentry, if_pos (.inl hentry)]
    exact ⟨rfl, fun w hw => (nomatch hw), fun _ _ => rfl, h⟩
  · rw [if_neg hentry]
    have hone : ∀ s' : State, s'.owned = s.owned → InBlocks s'
        [⟨cur, sizeofHEAD + sizeofINDEX * s.ge.curindexoffset, sizeofINDEX⟩] := by
      intro s' hs' w hw
      obtain rfl := List.mem_singleton.mp hw
      exact ⟨hs' ▸ howned, hfits⟩
    by_cases hneeds : NeedsUpdate s.ge a.artnum
    · rw [if_pos hneeds]
      by_cases hhead : a.headFails = true
      · rw [if_pos hhead, if_pos (.inr ⟨hneeds, hhead⟩)]
        exact ⟨rfl, hone _ rfl, fun e he => hdata s _ e he, hentered.mark _⟩
      · rw [if_neg hhead, if_neg (by simp [hentry, hhead])]
        have hupdated := @Holds.pwrite_last _ chain es
          (Block.writeHead ⟨none, (s.ge.mark a.artnum).curlow, (s.ge.mark a.artnum).curhigh⟩)
          (hentered.mark a.artnum) cur hcur rfl fun _ _ => rfl
        refine ⟨rfl, fun w hw => ?_, fun e he => (hdata _ _ e he).trans (hdata s _ e he), ?_⟩
        · rcases List.mem_cons.mp hw with rfl | hw
          · exact ⟨howned, hfits⟩
          · obtain rfl := List.mem_singleton.mp hw
            exact ⟨howned, head_fits⟩
        · refine @Holds.concat _ chain es a hupdated cur ie hcur hoffset ?_
            ⟨hapart.owned, hapart.chain, hapart.within, hapart.behind, hapart.room⟩
          rw [pwrite_same]
          exact hslot
    · rw [if_neg hneeds, if_neg (by simp [hentry, hneeds])]
      exact ⟨rfl, hone _ rfl, fun e he => hdata s _ e he,
        @Holds.concat _ chain es a (hentered.mark a.artnum) cur ie hcur hoffset hslot
          ⟨hapart.owned, hapart.chain, hapart.within, hapart.behind, hapart.room⟩⟩

/-- A new block at the end of the chain, its head and that of the block before it written. -/
theorem Holds.append (h : Holds s chain es) (hneeds : NeedsBlock s.ge) (hov : ov ∈ s.owned)
    (hchain : ov ∉ chain) (hdata : s.ge.curdata ≠ some ov) (hentries : ∀ e ∈ es, e.ov ≠ ov)
    {blocks : OV → Block} (hnew : (blocks ov).ovindexhead.next = none)
    (hsame : ∀ b ∈ chain, (blocks b).ovindex = (s.blocks b).ovindex ∧
      (blocks b).ovindexhead.next =
        if s.ge.curindex = some b then some ov else (s.blocks b).ovindexhead.next) :
    Holds { s with
      blocks := blocks
      ge := { s.ge with
        baseindex := if s.ge.baseindex = none then some ov else s.ge.baseindex
        curindex := some ov, curindexoffset := 0, curlow := 0, curhigh := 0 } }
      (chain ++ [ov]) es := by
  have hbase : (if s.ge.baseindex = none then some ov else s.ge.baseindex) =
      (chain ++ [ov]).head? := by
    rw [h.base]
    cases chain <;> rfl
  have hlinked : Linked blocks (chain ++ [ov]) := by
    rcases hcur : chain.getLast? with _ | cur
    · obtain rfl := List.getLast?_eq_none_iff.mp hcur
      exact ⟨hnew, trivial⟩
    · obtain ⟨init, rfl, hnot⟩ := h.split (h.cur.trans hcur)
      refine h.linked.concat (fun b hb => ?_) ?_ hnew
      · have hne : s.ge.curindex ≠ some b := by
          rw [h.cur, hcur]
          exact fun heq => hnot (Option.some.inj heq ▸ hb)
        rw [(hsame b (List.mem_append_left _ hb)).2, if_neg hne]
      · rw [(hsame cur (by simp)).2, if_pos (h.cur.trans hcur)]
  have hrecords : es = listed blocks 0 (chain ++ [ov]) := by
    have hes := h.records
    rw [listed_concat, Addrec.records, List.range_zero, List.map_nil, List.append_nil]
    rcases hcur : chain.getLast? with _ | cur
    · obtain rfl := List.getLast?_eq_none_iff.mp hcur
      exact hes
    · obtain ⟨init, rfl, -⟩ := h.split (h.cur.trans hcur)
      -- the block that was the last one is full
      have hfull : s.ge.curindexoffset = OVINDEXMAX := by
        refine hneeds.resolve_left ?_
        rw [h.base]
        cases init <;> exact nofun
      rw [hfull, listed_concat] at hes
      rw [hes, flatMap_records_congr fun b hb => (hsame b hb).1, List.flatMap_append,
        List.flatMap_singleton]
  exact
    { base := hbase
      cur := List.getLast?_concat.symm
      nodup := List.nodup_append.mpr ⟨h.nodup, List.nodup_singleton ov, fun b hb b' hb' heq =>
        hchain (List.mem_singleton.mp hb' ▸ heq ▸ hb)⟩
      linked := hlinked
      offset := Nat.zero_le _
      records := hrecords
      count := h.count
      room := h.room
      curdata := fun b hb => ⟨(h.curdata b hb).1, fun hmem => by
        rcases List.mem_append.mp hmem with hmem | hmem
        · exact (h.curdata b hb).2 hmem
        · exact hdata (List.mem_singleton.mp hmem ▸ hb)⟩
      entries := fun e he => by
        obtain ⟨howned, hnot, hrest⟩ := h.entries e he
        refine ⟨howned, fun hmem => ?_, hrest⟩
        rcases List.mem_append.mp hmem with hmem | hmem
        · exact hnot hmem
        · exact hentries e he (List.mem_singleton.mp hmem)
      owned := fun b hb => by
        rcases List.mem_append.mp hb with hb | hb
        · exact h.owned b hb
        · exact List.mem_singleton.mp hb ▸ hov
      used := h.used }

/-- The index gets its block. -/
def GetsIndex (s : State) (a : Add) : Prop :=
  a.indexBlock ≠ none ∧ a.newHeadFails = false ∧ (s.ge.baseindex = none ∨ a.linkFails = false)

/-- What the second part leaves as it is. -/
structure IndexSet (s s' : State) (chain : List OV) : Prop where
  curdata : s'.ge.curdata = s.ge.curdata
  curoffset : s'.ge.curoffset = s.ge.curoffset
  owned : ∀ b ∈ s.owned, b ∈ s'.owned
  data : ∀ e : OVINDEX, e.ov ∈ s.owned → e.ov ∉ chain → dataOf s' e = dataOf s e

/-- How the second part ends: with a block more in the chain; as a success without one; or as a
failure. -/
inductive SetCases (s : State) (a : Add) (chain : List OV) (es : List OVINDEX) (r : Result) :
    Prop where
  | gets (hgets : GetsIndex s a) (hok : r.ok = true) (chain' : List OV) (cur : OV)
      (hholds : Holds r.state chain' es) (hapart : ∀ b ∈ s.owned, b ∉ chain → b ∉ chain')
      (hcur : r.state.ge.curindex = some cur) (hoffset : r.state.ge.curindexoffset = 0)
      (hcurlow : r.state.ge.curlow = 0)
  | pretends (hindex : a.indexBlock ≠ none) (hfails : a.newHeadFails = true) (hok : r.ok = true)
      (hwrites : r.writes = []) (hge : r.state.ge = s.ge) (hholds : Holds r.state chain es)
  | fails (hgets : ¬ GetsIndex s a) (hfails : a.indexBlock = none ∨ a.newHeadFails = false)
      (hok : r.ok = false) (hholds : Holds r.state chain es)

theorem ovsetcurindexblock_holds (h : Holds s chain es) (hneeds : NeedsBlock s.ge)
    (hfree : ∀ b, a.indexBlock = some b → ¬ s.used b) :
    InBlocks (ovsetcurindexblock s a).state (ovsetcurindexblock s a).writes ∧
      IndexSet s (ovsetcurindexblock s a).state chain ∧
        SetCases s a chain es (ovsetcurindexblock s a) := by
  rw [ovsetcurindexblock]
  rcases hindex : a.indexBlock with _ | ov
  · exact ⟨fun w hw => (nomatch hw), ⟨rfl, rfl, fun _ hb => hb, fun _ _ _ => rfl⟩,
      .fails (fun hgets => hgets.1 hindex) (.inl hindex) rfl h⟩
  dsimp only
  obtain ⟨howned, hchain, hentries⟩ := h.not_mem_of_free (hfree ov hindex)
  have hdata : s.ge.curdata ≠ some ov := fun heq => howned (h.curdata ov heq).1
  have htake := h.take ov
  have hone : ∀ s' : State, ov ∈ s'.owned → InBlocks s' [⟨ov, 0, sizeofHEAD⟩] := by
    intro s' hs' w hw
    obtain rfl := List.mem_singleton.mp hw
    exact ⟨hs', head_fits⟩
  have hnew : ∀ (e : OVINDEX) (f : Block → Block), e.ov ∈ s.owned →
      dataOf ((s.take ov).pwrite ov f) e = dataOf s e := by
    intro e f he
    have hne : e.ov ≠ ov := fun heq => howned (heq ▸ he)
    rw [dataOf, dataOf, pwrite_ne hne]
    rfl
  by_cases hhead : a.newHeadFails = true
  · rw [if_pos hhead]
    exact ⟨fun w hw => (nomatch hw),
      ⟨rfl, rfl, fun _ hb => List.mem_cons_of_mem _ hb, fun _ _ _ => rfl⟩,
      .pretends (by simp [hindex]) hhead rfl rfl rfl htake⟩
  · rw [if_neg hhead]
    have hhead := Bool.not_eq_true _ ▸ hhead
    have hblock : ∀ head : OVINDEXHEAD, ∀ b, b ≠ ov →
        ((s.take ov).pwrite ov (Block.writeHead head)).blocks b = s.blocks b := fun head b hb =>
      pwrite_ne hb
    have hapart : ∀ b ∈ s.owned, b ∉ chain → b ∉ chain ++ [ov] := by
      intro b hb hnot hmem
      rcases List.mem_append.mp hmem with hmem | hmem
      · exact hnot hmem
      · exact howned (List.mem_singleton.mp hmem ▸ hb)
    by_cases hbase : s.ge.baseindex = none
    · simp only [pwrite_ge, take_ge, hbase, if_true]
      have hnil : chain = [] := List.head?_eq_none_iff.mp (h.base.symm.trans hbase)
      have happend := @Holds.append (s.take ov) chain es ov htake hneeds List.mem_cons_self hchain
        hdata hentries ((s.take ov).pwrite ov (Block.writeHead ⟨none, 0, 0⟩)).blocks
        (by rw [pwrite_same]; rfl) fun b hb => by rw [hnil] at hb; cases hb
      simp only [take_ge, hbase, if_true] at happend
      exact ⟨hone _ List.mem_cons_self,
        ⟨rfl, rfl, fun _ hb => List.mem_cons_of_mem _ hb, fun e he _ => hnew e _ he⟩,
        .gets ⟨by simp [hindex], hhead, .inl hbase⟩ rfl _ ov happend hapart rfl rfl rfl⟩
    · simp only [pwrite_ge, take_ge, hbase, if_false]
      have hnil : chain ≠ [] := by
        rintro rfl
        exact hbase h.base
      obtain ⟨cur, hcur⟩ : ∃ cur, s.ge.curindex = some cur :=
        ⟨_, h.cur.trans (List.getLast?_eq_some_getLast hnil)⟩
      have hmem : cur ∈ chain := List.mem_of_getLast? (h.cur.symm.trans hcur)
      have hne : cur ≠ ov := fun heq => hchain (heq ▸ hmem)
      have hwritten := @Holds.pwrite_apart _ chain es ov (Block.writeHead ⟨none, 0, 0⟩) htake hchain
      rw [hcur]
      dsimp only
      by_cases hlink : a.linkFails = true
      · rw [if_pos hlink]
        exact ⟨hone _ List.mem_cons_self,
          ⟨rfl, rfl, fun _ hb => List.mem_cons_of_mem _ hb, fun e he _ => hnew e _ he⟩,
          .fails (fun hgets => Bool.false_ne_true ((hgets.2.2.resolve_left hbase).symm.trans hlink))
            (.inr hhead) rfl hwritten⟩
      · rw [if_neg hlink]
        have hlink := Bool.not_eq_true _ ▸ hlink
        have happend := @Holds.append (s.take ov) chain es ov htake hneeds List.mem_cons_self hchain
          hdata hentries (((s.take ov).pwrite ov (Block.writeHead ⟨none, 0, 0⟩)).pwrite cur
            (Block.writeHead ⟨some ov, s.ge.curlow, s.ge.curhigh⟩)).blocks
          (by rw [pwrite_ne (Ne.symm hne), pwrite_same]; rfl) fun b hb => by
            rw [take_ge, hcur]
            by_cases heq : b = cur
            · subst heq
              rw [pwrite_same, hblock _ b hne, if_pos rfl]
              exact ⟨rfl, rfl⟩
            · have hov : b ≠ ov := fun heq => hchain (heq ▸ hb)
              rw [pwrite_ne heq, hblock _ b hov, if_neg fun h => heq (Option.some.inj h).symm]
              exact ⟨rfl, rfl⟩
        simp only [take_ge, hbase, if_false] at happend
        refine ⟨fun w hw => ?_, ⟨rfl, rfl, fun _ hb => List.mem_cons_of_mem _ hb,
          fun e he hnot => ?_⟩,
          .gets ⟨by simp [hindex], hhead, .inr hlink⟩ rfl _ ov happend hapart rfl rfl rfl⟩
        · rcases List.mem_cons.mp hw with rfl | hw
          · exact ⟨List.mem_cons_self, head_fits⟩
          · obtain rfl := List.mem_singleton.mp hw
            exact ⟨List.mem_cons_of_mem _ (h.owned _ hmem), head_fits⟩
        · have hcurne : e.ov ≠ cur := fun heq => hnot (heq ▸ hmem)
          rw [← hnew e (Block.writeHead ⟨none, 0, 0⟩) he, dataOf, dataOf]
          exact List.map_congr_left fun i _ => by rw [pwrite_ne hcurne]

end Holds

/-! ## Adding -/

/-- The state, the writes and the result; `ovaddrec` does not succeed where it is not called. -/
def after (Cutofflow : Bool) (s : State) (a : Add) : Result :=
  (buffindexed_add Cutofflow s a).getD ⟨s, [], false⟩

/-- `ovblocknew` returns blocks that are not in use. -/
structure Free (s : State) (a : Add) : Prop where
  data : ∀ b, a.dataBlock = some b → ¬ s.used b
  index : ∀ b, a.indexBlock = some b → ¬ s.used b ∧ a.dataBlock ≠ some b

/-- The record of an article. -/
structure IsFor (a : Add) (e : OVINDEX) : Prop where
  artnum : e.artnum = a.artnum
  token : e.token = a.token
  arrived : e.arrived = a.arrived
  expires : e.expires = a.expires

/-- Nothing is written outside the blocks of the group; the records stay readable, with their
overview data; and if the new one is not readable, this is reported. -/
structure Atomic (Cutofflow : Bool) (s : State) (a : Add) : Prop where
  inBlocks : InBlocks (after Cutofflow s a).state (after Cutofflow s a).writes
  earlier : ∀ es, Mapped s es → ∃ es', es <+: es' ∧ Mapped (after Cutofflow s a).state es' ∧
    SameData s (after Cutofflow s a).state es
  reported : (after Cutofflow s a).ok = true → ∀ es, Mapped s es →
    ∃ e, Mapped (after Cutofflow s a).state (es ++ [e]) ∧ IsFor a e ∧
      dataOf (after Cutofflow s a).state e = a.data

/-- The overview data is written. -/
structure StoresData (Cutofflow : Bool) (s : State) (a : Add) : Prop where
  length : a.data.length ≤ OV_BLOCKSIZE
  cutoff : ¬ (Cutofflow = true ∧ a.artnum < s.ge.low)
  block : s.ge.curdata = none ∨ OV_BLOCKSIZE - s.ge.curoffset < a.data.length →
    a.dataBlock ≠ none
  written : a.dataFails = false

/-- The write that fails is one after which `ovaddrec` goes on, or is left with the result of a
success. -/
inductive Spoils (Cutofflow : Bool) (s : State) (a : Add) : Prop where
  /-- The head of a new index block, where the one before it is full. -/
  | newHead (hstores : StoresData Cutofflow s a) (hneeds : NeedsBlock s.ge)
      (hindex : a.indexBlock ≠ none) (hbase : s.ge.baseindex ≠ none)
      (hfails : a.newHeadFails = true)
  /-- The index record. -/
  | entry (hstores : StoresData Cutofflow s a) (hgets : NeedsBlock s.ge → GetsIndex s a)
      (hfails : a.entryFails = true)
  /-- The head of the last index block, for new marks. -/
  | head (hstores : StoresData Cutofflow s a) (hgets : NeedsBlock s.ge → GetsIndex s a)
      (hneeds : NeedsBlock s.ge ∨ NeedsUpdate s.ge a.artnum) (hfails : a.headFails = true)

section Add

variable {Cutofflow : Bool} {s s' : State} {a : Add} {chain : List OV} {es : List OVINDEX}

theorem storeData_ok : (storeData s a).ok = true ↔ a.dataFails = false ∧
    (s.ge.curdata = none ∨ OV_BLOCKSIZE - s.ge.curoffset < a.data.length → a.dataBlock ≠ none) := by
  rw [storeData]
  dsimp only
  by_cases hallocates : s.ge.curdata = none ∨ OV_BLOCKSIZE - s.ge.curoffset < a.data.length
  · simp only [if_pos hallocates, forall_prop_of_true hallocates]
    cases a.dataBlock <;> cases a.dataFails <;> simp
  · simp only [if_neg hallocates, forall_prop_of_false hallocates]
    obtain ⟨ov, hov⟩ := Option.ne_none_iff_exists'.mp (not_or.mp hallocates).1
    rw [hov]
    cases a.dataFails <;> simp

/-- Where nothing is added. -/
theorem after_failed (h : ¬ StoresData Cutofflow s a) :
    after Cutofflow s a = ⟨s, [], false⟩ ∨ (storeData s a).ok = false ∧
      a.data.length ≤ OV_BLOCKSIZE ∧
        after Cutofflow s a = ⟨(storeData s a).state, (storeData s a).writes, false⟩ := by
  rw [after, buffindexed_add]
  by_cases hlen : OV_BLOCKSIZE < a.data.length
  · rw [if_pos hlen]
    exact .inl rfl
  · rw [if_neg hlen]
    by_cases hcutoff : Cutofflow = true ∧ a.artnum < s.ge.low
    · rw [if_pos hcutoff]
      exact .inl rfl
    · have hok : (storeData s a).ok = false := Bool.eq_false_iff.mpr fun hok => by
        obtain ⟨hwritten, hblock⟩ := storeData_ok.mp hok
        exact h ⟨Nat.not_lt.mp hlen, hcutoff, hblock, hwritten⟩
      refine .inr ⟨hok, Nat.not_lt.mp hlen, ?_⟩
      rw [if_neg hcutoff, Option.getD_some, ovaddrec, if_neg hlen]
      dsimp only
      rw [hok]

/-- What follows the overview data. -/
theorem after_stored (h : StoresData Cutofflow s a) {ov : OV}
    (hov : (storeData s a).state.ge.curdata = some ov) :
    after Cutofflow s a =
      let stored := storeData s a
      let set := if NeedsBlock stored.state.ge then ovsetcurindexblock stored.state a
        else ⟨stored.state, [], true⟩
      let added := storeEntry set.state a (entryFor a ov stored.state.ge.curoffset)
      if set.ok = true then
        ⟨added.state, stored.writes ++ set.writes ++ added.writes, added.ok⟩
      else ⟨set.state, stored.writes ++ set.writes, false⟩ := by
  have hok := storeData_ok.mpr ⟨h.written, h.block⟩
  rw [after, buffindexed_add, if_neg (Nat.not_lt.mpr h.length), if_neg h.cutoff, Option.getD_some,
    ovaddrec, if_neg (Nat.not_lt.mpr h.length)]
  dsimp only
  rw [hok, hov]

/-- Where the index record is about to be written. -/
structure Ready (s : State) (a : Add) (es : List OVINDEX) (set : State) (writes : List Write)
    (chain : List OV) (cur : OV) (ie : OVINDEX) : Prop where
  holds : Holds set chain es
  cur : set.ge.curindex = some cur
  offset : set.ge.curindexoffset < OVINDEXMAX
  apart : Apart set chain a ie
  isFor : IsFor a ie
  data : dataOf set ie = a.data
  writes : InBlocks set writes
  same : SameData s set es
  update : NeedsUpdate set.ge a.artnum ↔ NeedsBlock s.ge ∨ NeedsUpdate s.ge a.artnum

/-- The result of the last part, with all that was written. -/
def entered (set : State) (a : Add) (writes : List Write) (ie : OVINDEX) : Result :=
  ⟨(storeEntry set a ie).state, writes ++ (storeEntry set a ie).writes, (storeEntry set a ie).ok⟩

/-- What follows the overview data: the index record is written behind the others; or behind a
full block; or this fails before. -/
inductive StoredCases (s : State) (a : Add) (es : List OVINDEX) (r : Result) : Prop where
  | enters (hgets : NeedsBlock s.ge → GetsIndex s a) (set : State) (writes : List Write)
      (chain : List OV) (cur : OV) (ie : OVINDEX) (hready : Ready s a es set writes chain cur ie)
      (hr : r = entered set a writes ie)
  | overflows (hneeds : NeedsBlock s.ge) (hindex : a.indexBlock ≠ none)
      (hbase : s.ge.baseindex ≠ none) (hfails : a.newHeadFails = true) (set : State)
      (writes : List Write) (chain : List OV) (cur : OV) (ie : OVINDEX)
      (hholds : Holds set chain es) (hcur : set.ge.curindex = some cur)
      (hoffset : set.ge.curindexoffset = OVINDEXMAX) (hr : r = entered set a writes ie)
  | fails (hneeds : NeedsBlock s.ge) (hgets : ¬ GetsIndex s a)
      (hfails : s.ge.baseindex = none ∨ a.indexBlock = none ∨ a.newHeadFails = false)
      (hok : r.ok = false) (chain : List OV) (hholds : Holds r.state chain es)
      (hwrites : InBlocks r.state r.writes) (hsame : SameData s r.state es)

theorem InBlocks.mono {writes : List Write} (h : InBlocks s writes)
    (howned : ∀ b ∈ s.owned, b ∈ s'.owned) : InBlocks s' writes :=
  fun w hw => ⟨howned _ (h w hw).1, (h w hw).2⟩

theorem InBlocks.append {writes writes' : List Write} (h : InBlocks s writes)
    (h' : InBlocks s writes') : InBlocks s (writes ++ writes') :=
  fun w hw => (List.mem_append.mp hw).elim (h w) (h' w)

theorem isFor_entryFor (a : Add) (ov : OV) (offset : ℕ) : IsFor a (entryFor a ov offset) :=
  ⟨rfl, rfl, rfl, rfl⟩

theorem add_cases (h : Holds s chain es) (hfree : Free s a) (hstores : StoresData Cutofflow s a) :
    StoredCases s a es (after Cutofflow s a) := by
  obtain ⟨hholds, hsame, hwrites, hstored, hdata⟩ := storeData_holds h hstores.length hfree.data
  obtain ⟨ov, hov, hroom, hdata⟩ := hdata (storeData_ok.mpr ⟨hstores.written, hstores.block⟩)
  obtain ⟨howned, hchain⟩ := hholds.curdata ov hov
  rw [after_stored hstores hov]
  generalize storeData s a = stored at *
  have hbase := hstored.baseindex
  have hblocks : NeedsBlock stored.state.ge ↔ NeedsBlock s.ge := by
    rw [NeedsBlock, NeedsBlock, hbase, hstored.curindexoffset]
  have hindexes : GetsIndex stored.state a ↔ GetsIndex s a := by
    rw [GetsIndex, GetsIndex, hbase]
  dsimp only
  by_cases hneeds : NeedsBlock stored.state.ge
  · rw [if_pos hneeds]
    have hunused : ∀ b, a.indexBlock = some b → ¬ stored.state.used b := fun b hb hused =>
      (hstored.used b hused).elim (hfree.index b hb).1 (hfree.index b hb).2
    obtain ⟨hinBlocks, hset, hcases⟩ := ovsetcurindexblock_holds hholds hneeds hunused
    generalize ovsetcurindexblock stored.state a = set at *
    have hall : InBlocks set.state (stored.writes ++ set.writes) :=
      (hwrites.mono hset.owned).append hinBlocks
    have hkept : SameData s set.state es := fun e he =>
      (hset.data e (hholds.entries e he).1 (hholds.entries e he).2.1).trans (hsame e he)
    cases hcases with
    | gets hgets hok chain' cur hafter hapart hcur hoffset hcurlow =>
      rw [if_pos hok]
      refine .enters (fun _ => hindexes.mp hgets) set.state _ chain' cur _
        { holds := hafter
          cur := hcur
          offset := hoffset ▸ (by decide)
          apart := ⟨hset.owned ov howned, hapart ov howned hchain, hroom, ?_, ?_⟩
          isFor := isFor_entryFor a ov _
          data := (hset.data _ howned hchain).trans hdata
          writes := hall
          same := hkept
          update := ?_ } rfl
      · rw [hset.curoffset]
        exact Nat.le_refl _
      · rwa [hset.curoffset]
      · exact iff_of_true (.inl (.inl hcurlow)) (.inl (hblocks.mp hneeds))
    | pretends hindex hfails hok _ hge hafter =>
      rw [if_pos hok]
      by_cases hnone : stored.state.ge.baseindex = none
      · have hcur : set.state.ge.curindex = none := by
          rw [hge, hholds.cur, List.head?_eq_none_iff.mp (hholds.base.symm.trans hnone)]
          rfl
        have hno : ∀ ie, storeEntry set.state a ie = ⟨set.state, [], false⟩ := fun ie => by
          rw [storeEntry, hcur]
        rw [hno, List.append_nil]
        exact .fails (hblocks.mp hneeds) (fun hgets => Bool.false_ne_true
          (hgets.2.1.symm.trans hfails)) (.inl (hbase ▸ hnone)) rfl chain hafter hall hkept
      · obtain ⟨init, hinit⟩ : ∃ cur, stored.state.ge.curindex = some cur := by
          refine ⟨_, hholds.cur.trans (List.getLast?_eq_some_getLast fun hnil => hnone ?_)⟩
          rw [hholds.base, hnil]
          rfl
        exact .overflows (hblocks.mp hneeds) hindex (fun hb => hnone (hbase.trans hb)) hfails
          set.state _ chain init _ hafter (hge ▸ hinit)
          (hge ▸ hneeds.resolve_left hnone) rfl
    | fails hgets hfails hok hafter =>
      rw [if_neg (by simp [hok])]
      exact .fails (hblocks.mp hneeds) (fun hg => hgets (hindexes.mpr hg)) (.inr hfails) rfl chain
        hafter hall hkept
  · rw [if_neg hneeds, if_pos rfl, List.append_nil]
    obtain ⟨hsome, hnotMax⟩ := not_or.mp hneeds
    obtain ⟨cur, hcur⟩ : ∃ cur, stored.state.ge.curindex = some cur := by
      refine ⟨_, hholds.cur.trans (List.getLast?_eq_some_getLast fun hnil => hsome ?_)⟩
      rw [hholds.base, hnil]
      rfl
    refine .enters (fun hn => absurd (hblocks.mpr hn) hneeds) stored.state _ chain cur _
      { holds := hholds
        cur := hcur
        offset := Nat.lt_of_le_of_ne hholds.offset hnotMax
        apart := ⟨howned, hchain, hroom, Nat.le_refl _, hroom⟩
        isFor := isFor_entryFor a ov _
        data := hdata
        writes := hwrites
        same := hsame
        update := ?_ } rfl
    rw [or_iff_right fun hn => hneeds (hblocks.mpr hn), NeedsUpdate, NeedsUpdate, hstored.curlow,
      hstored.curhigh]

theorem storeEntry_owned (s : State) (a : Add) (ie : OVINDEX) :
    (storeEntry s a ie).state.owned = s.owned := by
  rw [storeEntry]
  cases s.ge.curindex with
  | none => rfl
  | some cur =>
    dsimp only
    split
    · rfl
    · split
      · split <;> rfl
      · rfl

theorem entered_inBlocks {set : State} {writes : List Write} {ie : OVINDEX}
    (hwrites : InBlocks set writes)
    (h : InBlocks (storeEntry set a ie).state (storeEntry set a ie).writes) :
    InBlocks (entered set a writes ie).state (entered set a writes ie).writes :=
  (hwrites.mono fun _ hb => storeEntry_owned set a ie ▸ hb).append h

/-- `buffindexed_add`, once more. -/
def Next (Cutofflow : Bool) (s : State) (a : Add) (s' : State) : Prop :=
  Free s a ∧ s' = (after Cutofflow s a).state

/-- How an add ends that does no harm. -/
inductive Ends (s : State) (a : Add) (es : List OVINDEX) (r : Result) : Prop where
  | kept (chain : List OV) (hholds : Holds r.state chain es) (hok : r.ok = false)
  | added (chain : List OV) (e : OVINDEX) (hholds : Holds r.state chain (es ++ [e]))
      (hok : r.ok = true) (hfor : IsFor a e) (hdata : dataOf r.state e = a.data)

theorem add_unspoiled (h : Holds s chain es) (hfree : Free s a) (hno : ¬ Spoils Cutofflow s a) :
    InBlocks (after Cutofflow s a).state (after Cutofflow s a).writes ∧
      SameData s (after Cutofflow s a).state es ∧ Ends s a es (after Cutofflow s a) := by
  by_cases hstores : StoresData Cutofflow s a
  · cases add_cases h hfree hstores with
    | enters hgets set writes chain' cur ie hready hr =>
      obtain ⟨hok, hin, hdata, hholds⟩ :=
        storeEntry_holds hready.holds hready.cur hready.offset hready.apart
      have hfails : ¬ (a.entryFails = true ∨ NeedsUpdate set.ge a.artnum ∧ a.headFails = true) := by
        rintro (hentry | ⟨hupdate, hhead⟩)
        · exact hno (.entry hstores hgets hentry)
        · exact hno (.head hstores hgets (hready.update.mp hupdate) hhead)
      rw [if_neg hfails] at hholds
      rw [hr]
      refine ⟨entered_inBlocks hready.writes hin, fun e he => ?_,
        .added chain' ie hholds hok hready.isFor ((hdata ie hready.apart.chain).trans hready.data)⟩
      exact (hdata e (hready.holds.entries e he).2.1).trans (hready.same e he)
    | overflows hneeds hindex hbase hfails =>
      exact absurd (.newHead hstores hneeds hindex hbase hfails) hno
    | fails _ _ _ hok chain' hholds hwrites hsame => exact ⟨hwrites, hsame, .kept chain' hholds hok⟩
  · rcases after_failed hstores with hr | ⟨-, hlen, hr⟩
    · rw [hr]
      exact ⟨fun w hw => (nomatch hw), fun _ _ => rfl, .kept chain h rfl⟩
    · obtain ⟨hholds, hsame, hwrites, -⟩ := storeData_holds h hlen hfree.data
      rw [hr]
      exact ⟨hwrites, hsame, .kept chain hholds rfl⟩

/-- The other failures: a write behind the end of a full block, or no record. -/
theorem add_spoiled (h : Holds s chain es) (hfree : Free s a) (hspoils : Spoils Cutofflow s a) :
    (after Cutofflow s a).ok = true ∧
      (¬ InBlocks (after Cutofflow s a).state (after Cutofflow s a).writes ∨
        Mapped (after Cutofflow s a).state es) := by
  have hstores : StoresData Cutofflow s a := by
    cases hspoils <;> assumption
  cases add_cases h hfree hstores with
  | enters hgets set writes chain' cur ie hready hr =>
    obtain ⟨hok, -, -, hholds⟩ :=
      storeEntry_holds hready.holds hready.cur hready.offset hready.apart
    have hfails : a.entryFails = true ∨ NeedsUpdate set.ge a.artnum ∧ a.headFails = true := by
      cases hspoils with
      | newHead _ hneeds _ _ hhead =>
        exact absurd (hhead.symm.trans (hgets hneeds).2.1) (by decide)
      | entry _ _ hentry => exact .inl hentry
      | head _ _ hneeds hhead => exact .inr ⟨hready.update.mpr hneeds, hhead⟩
    rw [if_pos hfails] at hholds
    rw [hr]
    exact ⟨hok, .inr hholds.mapped⟩
  | overflows _ _ _ _ set writes chain' cur ie hholds hcur hoffset hr =>
    rw [hr, entered, storeEntry, hcur]
    dsimp only
    by_cases hentry : a.entryFails = true
    · rw [if_pos hentry]
      exact ⟨rfl, .inr hholds.mapped⟩
    · -- the place of the record is that behind the last one of the block
      have hout : ¬ sizeofHEAD + sizeofINDEX * set.ge.curindexoffset + sizeofINDEX ≤ OV_BLOCKSIZE :=
        fun hfits => absurd (entry_fits.mp hfits) (by rw [hoffset]; exact Nat.lt_irrefl _)
      have hoverflows : ∀ (state : State) (rest : List Write), ¬ InBlocks state (writes ++
          ⟨cur, sizeofHEAD + sizeofINDEX * set.ge.curindexoffset, sizeofINDEX⟩ :: rest) :=
        fun _ _ hall => hout (hall _ (List.mem_append_right _ List.mem_cons_self)).2
      rw [if_neg hentry]
      split
      · split <;> exact ⟨rfl, .inl (hoverflows _ _)⟩
      · exact ⟨rfl, .inl (hoverflows _ _)⟩
  | fails hneeds hgets hfails =>
    cases hspoils with
    | newHead _ _ hindex hbase hhead =>
      rcases hfails with hnone | hnone | hhead'
      · exact absurd hnone hbase
      · exact absurd hnone hindex
      · exact absurd (hhead.symm.trans hhead') (by decide)
    | entry _ hgets' _ => exact absurd (hgets' hneeds) hgets
    | head _ hgets' _ _ => exact absurd (hgets' hneeds) hgets

theorem atomic_of_unspoiled (h : Holds s chain es) (hfree : Free s a)
    (hno : ¬ Spoils Cutofflow s a) : Atomic Cutofflow s a := by
  obtain ⟨hin, hsame, hends⟩ := add_unspoiled h hfree hno
  refine ⟨hin, fun es' hes' => ?_, fun hok es' hes' => ?_⟩
  · obtain rfl := hes'.unique h.mapped
    cases hends with
    | kept chain' hholds _ => exact ⟨es', List.prefix_rfl, hholds.mapped, hsame⟩
    | added chain' e hholds _ _ _ =>
      exact ⟨es' ++ [e], List.prefix_append es' [e], hholds.mapped, hsame⟩
  · obtain rfl := hes'.unique h.mapped
    cases hends with
    | kept _ _ hfailed => exact absurd (hok.symm.trans hfailed) (by decide)
    | added chain' e hholds _ hfor hdata => exact ⟨e, hholds.mapped, hfor, hdata⟩

/-- After adds that do no harm, the records can still be read. -/
theorem holds_of_steps {as : List Add} (h : Holds s chain es)
    (hsteps : Steps (guarded (fun s a => ¬ Spoils Cutofflow s a) (Next Cutofflow)) s as s') :
    ∃ chain' es', Holds s' chain' es' := by
  refine @Steps.invariant _ _ _ (fun s => ∃ chain es, Holds s chain es) _ _ _
    (fun s a s' hnext hinv => ?_) hsteps ⟨chain, es, h⟩
  obtain ⟨hno, hfree, rfl⟩ := hnext
  obtain ⟨chain, es, h⟩ := hinv
  obtain ⟨-, -, hends⟩ := add_unspoiled h hfree hno
  cases hends with
  | kept chain' hholds _ => exact ⟨chain', es, hholds⟩
  | added chain' e hholds _ _ _ => exact ⟨chain', es ++ [e], hholds⟩

end Add

/-- From a group whose records can be read, through adds whose failures do no harm: the next add is
atomic exactly where its failures do none either. -/
theorem atomic_iff {Cutofflow : Bool} {s₀ s : State} {chain : List OV} {es : List OVINDEX}
    {as : List Add} {a : Add} (h₀ : Holds s₀ chain es)
    (hrun : Steps (guarded (fun s a => ¬ Spoils Cutofflow s a) (Next Cutofflow)) s₀ as s)
    (hfree : Free s a) : Atomic Cutofflow s a ↔ ¬ Spoils Cutofflow s a := by
  obtain ⟨chain, es, h⟩ := holds_of_steps h₀ hrun
  refine ⟨fun hatomic hspoils => ?_, atomic_of_unspoiled h hfree⟩
  obtain ⟨hok, hout | hmapped⟩ := add_spoiled h hfree hspoils
  · exact hout hatomic.inBlocks
  · obtain ⟨e, he, -⟩ := hatomic.reported hok es h.mapped
    exact List.cons_ne_nil _ _ (List.append_right_eq_self.mp (he.unique hmapped))

/-- A group without records. -/
def newGroup : State where
  ge := ⟨0, 0, 0, none, none, 0, 0, 0, none, 0⟩
  blocks _ := .data fun _ => 0
  used _ := False
  owned := []

theorem newGroup_holds : Holds newGroup [] [] where
  base := rfl
  cur := rfl
  nodup := .nil
  linked := trivial
  offset := Nat.zero_le _
  records := rfl
  count := rfl
  room := Nat.zero_le _
  curdata := nofun
  entries := nofun
  owned := nofun
  used := nofun

/-- An article with one byte of overview data, and no write fails. -/
def article (artnum : ℕ) (dataBlock indexBlock : Option OV) : Add :=
  ⟨artnum, .zero, [65], 0, 0, dataBlock, indexBlock, false, false, false, false, false⟩

theorem article_unspoiled {Cutofflow : Bool} {s : State} {artnum : ℕ}
    {dataBlock indexBlock : Option OV} :
    ¬ Spoils Cutofflow s (article artnum dataBlock indexBlock) := by
  rintro (⟨-, -, -, -, hfails⟩ | ⟨-, -, hfails⟩ | ⟨-, -, -, hfails⟩) <;> cases hfails

/-- The second article of a group. -/
theorem atomic_iff_second :
    Atomic false (after false newGroup (article 1 (some ⟨0, 0⟩) (some ⟨1, 0⟩))).state
        (article 2 none none) ↔
      ¬ Spoils false (after false newGroup (article 1 (some ⟨0, 0⟩) (some ⟨1, 0⟩))).state
        (article 2 none none) := by
  refine atomic_iff newGroup_holds (.snoc .nil ⟨article_unspoiled, ⟨?_, ?_⟩, rfl⟩) ⟨nofun, nofun⟩
  · exact fun b _ => id
  · exact fun b hb => ⟨id, fun heq => nomatch Option.some.inj (heq.trans hb.symm)⟩

/-- A group whose one index block is full. -/
def fullGroup : State where
  ge := ⟨127, 1, 127, some ⟨1, 0⟩, some ⟨1, 0⟩, OVINDEXMAX, 127, 1, some ⟨0, 0⟩, 127⟩
  blocks _ := .index ⟨none, 1, 127⟩ fun k => ⟨k + 1, ⟨0, 0⟩, .zero, k, 1, 0, 0⟩
  used b := b ∈ [⟨0, 0⟩, ⟨1, 0⟩]
  owned := [⟨0, 0⟩, ⟨1, 0⟩]

theorem fullGroup_holds : Holds fullGroup [⟨1, 0⟩]
    ((List.range OVINDEXMAX).map fun k => ⟨k + 1, ⟨0, 0⟩, .zero, k, 1, 0, 0⟩) where
  base := rfl
  cur := rfl
  nodup := List.nodup_singleton _
  linked := ⟨rfl, trivial⟩
  offset := Nat.le_refl _
  records := (List.append_nil _).symm
  count := (List.length_map _ |>.trans List.length_range).symm
  room := by decide
  curdata b hb := by
    obtain rfl := Option.some.inj hb
    decide
  entries e he := by
    obtain ⟨k, hk, rfl⟩ := List.mem_map.mp he
    have hk : k < 127 := List.mem_range.mp hk
    exact ⟨List.mem_cons_self, by simp, hk.trans (by decide), fun _ => hk⟩
  owned b hb := by
    obtain rfl := List.mem_singleton.mp hb
    decide
  used b hb := hb

/-- The head of the new index block cannot be written; the record goes behind the full one. -/
theorem not_atomic : ¬ ∀ (Cutofflow : Bool) (s : State) (chain : List OV) (es : List OVINDEX)
    (a : Add), Holds s chain es → Free s a → Atomic Cutofflow s a := by
  intro hall
  have hatomic := hall false fullGroup [⟨1, 0⟩] _
    { article 128 none (some ⟨2, 0⟩) with newHeadFails := true } fullGroup_holds
    ⟨nofun, fun b hb => ⟨?_, nofun⟩⟩
  · have hwrite := (hatomic.inBlocks ⟨⟨1, 0⟩, 8152, 64⟩ (.tail _ (.head _))).2
    exact absurd hwrite (by decide)
  · obtain rfl := Option.some.inj hb
    show ¬ _ ∈ _
    decide

end Inn.Buffindexed.Addrec
