import Mathlib.Logic.Function.Basic
import Inn.Base

/-!
# Inn.Tradindexed.GroupIndex — `group.index` of the tradindexed overview method

The file is a header (bucket heads and the head of the free list) and an array
of group entries. Every process that has it open maps it shared, so the entries
and the header are one state, `IndexFile`; what a process keeps for itself is
the number of entries it has mapped, `GroupIndex.count`.

Locations are record numbers, `-1` is the end of a chain. The system calls do
not fail. A mapped record past the end of the file, which only a truncation
by another process makes possible, reads as zeros and ignores writes.
-/

namespace Inn.Tradindexed

/-- `TDX_HASH_SIZE`. -/
def TDX_HASH_SIZE : ℕ := 16 * 1024

/-- `TDX_MAGIC`. -/
def TDX_MAGIC : ℤ := 0x0e0f0cc2

/-- `INT_MAX`, the largest entry count the code accepts. -/
def INT_MAX : ℕ := 2147483647

/-- `LONG_MAX`, the location `index_find` asks for to have the file remapped. -/
def LONG_MAX : ℤ := 9223372036854775807

/-- `group_entry`; `next` is the `recno` of its `loc`. -/
structure GroupEntry where
  hash : HASH
  high : ℕ
  low : ℕ
  base : ℕ
  count : ℤ
  flag : ℤ
  deleted : ℕ
  indexinode : ℕ
  next : ℤ
deriving DecidableEq

instance : Zero GroupEntry := ⟨⟨HASH.clear, 0, 0, 0, 0, 0, 0, 0, 0⟩⟩

/-- `group_header`. -/
structure GroupHeader where
  magic : ℤ
  hash : Fin TDX_HASH_SIZE → ℤ
  freelist : ℤ

/-- The file as all processes see it. -/
structure IndexFile where
  header : GroupHeader
  entries : List GroupEntry

/-- `group_index`: what a process keeps about the open file. -/
structure GroupIndex where
  writable : Bool
  count : ℕ
deriving DecidableEq

namespace IndexFile

/-- The number of entries in the file, `tdx_index_entry_count` of its size. -/
def size (file : IndexFile) : ℕ := file.entries.length

/-- `index->entries[loc]`. -/
def entry (file : IndexFile) (loc : ℕ) : GroupEntry := recordAt file.entries loc

/-- Update `index->entries[loc]` in place. -/
def modify (file : IndexFile) (loc : ℕ) (g : GroupEntry → GroupEntry) : IndexFile :=
  { file with entries := file.entries.modify loc g }

/-- `entries[loc].next.recno = recno`. -/
def setNext (file : IndexFile) (loc : ℕ) (recno : ℤ) : IndexFile :=
  file.modify loc (fun entry => { entry with next := recno })

/-- `header->hash[bucket].recno = recno`. -/
def setHash (file : IndexFile) (bucket : Fin TDX_HASH_SIZE) (recno : ℤ) : IndexFile :=
  { file with header :=
    { file.header with hash := Function.update file.header.hash bucket recno } }

/-- `header->freelist.recno = recno`. -/
def setFreelist (file : IndexFile) (recno : ℤ) : IndexFile :=
  { file with header := { file.header with freelist := recno } }

end IndexFile

/-- `index_maybe_remap`; `none` when the size is rejected. -/
def indexMaybeRemap (file : IndexFile) (index : GroupIndex) (loc : ℤ) : Option GroupIndex :=
  if loc < index.count then some index
  else if INT_MAX < file.size then none
  else some { index with count := file.size }

/-- `freelist_add`. -/
def freelistAdd (file : IndexFile) (loc : ℕ) : IndexFile :=
  (file.setNext loc file.header.freelist).setFreelist loc

/-- The loop of `index_expand`: the `n` entries from `lo` on, back to front. -/
def freeNew (file : IndexFile) (lo : ℕ) : ℕ → IndexFile
  | 0 => file
  | n + 1 => freeNew (freelistAdd file (lo + n)) lo n

/-- `ftruncate`, which cuts off or adds zeros. -/
def IndexFile.truncate (file : IndexFile) (n : ℕ) : IndexFile :=
  { file with entries := extend (file.entries.take n) n }

/-- The header of a new file. -/
def GroupHeader.new : GroupHeader := ⟨TDX_MAGIC, fun _ => -1, -1⟩

/-- `index_expand`: size the file for 1024 entries more than the caller has
mapped and put these on the free list. -/
def indexExpand (file : IndexFile) (index : GroupIndex) : Option (IndexFile × GroupIndex) :=
  if INT_MAX - 1024 < index.count then none
  else
    let file := file.truncate (index.count + 1024)
    -- a wrong magic means a new index file
    let file := if file.header.magic ≠ TDX_MAGIC then { file with header := .new } else file
    some (freeNew file index.count 1024, { index with count := index.count + 1024 })

/-- `index_bucket`: the first four bytes of the hash, little-endian. -/
def indexBucket (hash : HASH) : Fin TDX_HASH_SIZE :=
  ⟨(hash[0].toNat + hash[1].toNat * 2 ^ 8 + hash[2].toNat * 2 ^ 16 + hash[3].toNat * 2 ^ 24)
    % TDX_HASH_SIZE, Nat.mod_lt _ (by decide)⟩

/-- `index_add`. -/
def indexAdd (file : IndexFile) (loc : ℕ) : IndexFile :=
  let bucket := indexBucket (file.entry loc).hash
  -- refusing to add a loop
  if file.header.hash bucket = loc then file
  else (file.setNext loc (file.header.hash bucket)).setHash bucket loc

/-- The loop of `index_find`. The walk may refresh the mapping, so the index is
part of the result. -/
def findLoop (file : IndexFile) (hash : HASH) :
    ℕ → GroupIndex → ℤ → ℕ → ℤ × GroupIndex
  | 0, index, _, _ => (-1, index)
  | fuel + 1, index, loc, steps =>
    if loc < 0 then (-1, index)
    -- loop in group index
    else if index.count ≤ steps then (-1, index)
    else
      match indexMaybeRemap file index loc with
      | none => (-1, index)
      | some index =>
        -- out of range
        if (index.count : ℤ) ≤ loc then (-1, index)
        else
          let entry := file.entry loc.toNat
          if entry.deleted = 0 ∧ entry.hash = hash then (loc, index)
          -- index loop for this entry
          else if loc = entry.next then (-1, index)
          else findLoop file hash fuel index entry.next (steps + 1)

/-- The guard on `steps` stops every walk after at most this many rounds. -/
def walkFuel (file : IndexFile) (index : GroupIndex) : ℕ := max index.count file.size + 1

/-- `index_find`: the record number of the group, or `-1`. With `nfsreader` it
maps the current file first. -/
def indexFind (nfsreader : Bool) (file : IndexFile) (index : GroupIndex) (hash : HASH) :
    ℤ × GroupIndex :=
  match if nfsreader then indexMaybeRemap file index LONG_MAX else some index with
  | none => (-1, index)
  | some index =>
    findLoop file hash (walkFuel file index) index (file.header.hash (indexBucket hash)) 0

/-- Where the pointer to the current entry is stored: `int *parent`. -/
inductive Parent where
  | bucket
  | entry (loc : ℕ)
deriving DecidableEq

/-- `*parent = recno`. -/
def Parent.store (parent : Parent) (file : IndexFile) (bucket : Fin TDX_HASH_SIZE)
    (recno : ℤ) : IndexFile :=
  match parent with
  | .bucket => file.setHash bucket recno
  | .entry loc => file.setNext loc recno

/-- `entry_splice`. -/
def entrySplice (file : IndexFile) (bucket : Fin TDX_HASH_SIZE) (loc : ℕ) (parent : Parent) :
    IndexFile :=
  (parent.store file bucket (file.entry loc).next).setNext loc (-1)

/-- The loop of `index_unlink_hash`. After a remap it starts again at the head of
the chain, with `steps` going on. -/
def unlinkLoop (file : IndexFile) (hash : HASH) :
    ℕ → GroupIndex → Parent → ℤ → ℕ → ℤ × IndexFile × GroupIndex
  | 0, index, _, _, _ => (-1, file, index)
  | fuel + 1, index, parent, current, steps =>
    if current < 0 then (-1, file, index)
    -- loop in group index
    else if index.count ≤ steps then (-1, file, index)
    else
      match indexMaybeRemap file index current with
      | none => (-1, file, index)
      | some index' =>
        let head := file.header.hash (indexBucket hash)
        let remapped := (index.count : ℤ) ≤ current
        let parent := if remapped then .bucket else parent
        let current := if remapped then head else current
        -- out of range
        if current < 0 ∨ (index'.count : ℤ) ≤ current then (-1, file, index')
        else
          let entry := file.entry current.toNat
          if entry.deleted = 0 ∧ entry.hash = hash then
            (current, entrySplice file (indexBucket hash) current.toNat parent, index')
          -- index loop for this entry
          else if current = entry.next then (-1, file, index')
          else unlinkLoop file hash fuel index' (.entry current.toNat) entry.next (steps + 1)

/-- `index_unlink_hash`: find an entry by hash and splice it out of its chain. -/
def indexUnlinkHash (file : IndexFile) (index : GroupIndex) (hash : HASH) :
    ℤ × IndexFile × GroupIndex :=
  unlinkLoop file hash (walkFuel file index) index .bucket
    (file.header.hash (indexBucket hash)) 0

/-- The part of `tdx_index_add` that takes `loc` off the free list and fills it:
`inode` is the inode of the group's new data files. -/
def fillEntry (file : IndexFile) (loc : ℕ) (hash : HASH) (low high : ℕ) (flag : ℤ)
    (inode : ℕ) : IndexFile :=
  let file := file.setFreelist (file.entry loc).next
  let file := file.modify loc (fun entry =>
    { entry with
      hash := hash, low := if low = 0 then 1 else low, high := high, deleted := 0
      base := 0, count := 0, flag := flag, indexinode := inode })
  indexAdd file loc

/-- Find a free entry, making some if there is none, and add the group there. -/
def addNew (file : IndexFile) (index : GroupIndex) (hash : HASH) (low high : ℕ)
    (flag : ℤ) (inode : ℕ) : Bool × IndexFile × GroupIndex :=
  match if file.header.freelist = -1 then indexExpand file index else some (file, index) with
  | none => (false, file, index)
  | some (file, index) =>
    let loc := file.header.freelist
    let next := (file.entry loc.toNat).next
    -- invalid free list entry
    if loc < 0 ∨ (index.count : ℤ) ≤ loc ∨ next < -1 ∨ (index.count : ℤ) ≤ next then
      (false, file, index)
    else (true, fillEntry file loc.toNat hash low high flag inode, index)

/-- `tdx_index_add`: a group that exists already only gets its flag updated. -/
def tdxIndexAdd (nfsreader : Bool) (file : IndexFile) (index : GroupIndex) (hash : HASH)
    (low high : ℕ) (flag : ℤ) (inode : ℕ) : Bool × IndexFile × GroupIndex :=
  if !index.writable then (false, file, index)
  else
    match indexFind nfsreader file index hash with
    | (loc, index) =>
      if loc ≠ -1 then
        (true, file.modify loc.toNat (fun entry => { entry with flag := flag }), index)
      else addNew file index hash low high flag inode

/-- `tdx_index_delete` at time `now`. -/
def tdxIndexDelete (file : IndexFile) (index : GroupIndex) (hash : HASH) (now : ℕ) :
    Bool × IndexFile × GroupIndex :=
  if !index.writable then (false, file, index)
  else
    match indexUnlinkHash file index hash with
    | (loc, file, index) =>
      if loc = -1 then (false, file, index)
      else
        let file := file.modify loc.toNat (fun entry =>
          { entry with deleted := now, hash := HASH.clear })
        (true, freelistAdd file loc.toNat, index)

end Inn.Tradindexed
