import Inn.Tradindexed.Data
import Inn.Stream
import Inn.Words

/-!
# Inn.Tradindexed.Faults — the data files when operations fail

The functions of `Data` once more, down to the bytes of the index file and with every
system call free to fail. A `...Faults` structure says which calls of one function fail;
a write that fails says how many bytes it wrote before, never all of them.

* Contents are kept by inode, and a file that is renamed over or removed lives on for
  those who have it open. Index and data files are numbered apart.
* `-NEW` and `-BAK` files of an earlier run may be there. Opening for writing creates a
  missing file and does not truncate.
* A mapping shows its file up to the length at the time it was made.

Offsets are natural numbers: article numbers stay below `NNTP_MAXARTNUM`. File handles do
not go stale.
-/

namespace Inn.Tradindexed.Faults

open Function (update update_self update_of_ne)

/-! ## Index entries as bytes -/

/-- `sizeof(struct index_entry)`. -/
def ENTRY_SIZE : ℕ := 56

/-- The bytes of an index entry; what is past the end of the file reads as zeros. -/
def entryAt (file : List UInt8) (i : ℕ) : List UInt8 :=
  (List.range ENTRY_SIZE).map fun k => recordAt file (i * ENTRY_SIZE + k)

/-- `offset` of an index entry. -/
def entryOffset (entry : List UInt8) : ℕ := ofBytes (entry.take 8)

/-- `length` of an index entry. -/
def entryLength (entry : List UInt8) : ℕ := ofBytes ((entry.drop 8).take 4)

/-- An index entry that is whole in the file. -/
def record (file : List UInt8) (i : ℕ) : Option (List UInt8) :=
  if (i + 1) * ENTRY_SIZE ≤ file.length then some (entryAt file i) else none

/-- An index entry that is an article: one of length 0 is none. -/
def articleIn (file : List UInt8) (i : ℕ) : Option (List UInt8) :=
  (record file i).filter fun entry => entryLength entry ≠ 0

/-- The bytes of a `TOKEN`. -/
def tokenBytes (token : TOKEN) : List UInt8 := token.type :: token.cls :: token.token.toList

/-- The bytes `tdx_data_store` writes for an article, padding included. -/
def indexEntry (offset : ℕ) (article : Article) : List UInt8 :=
  toBytes 8 offset ++ toBytes 4 article.overview.length ++ toBytes 4 0 ++
    toBytes 8 (uint64 article.arrived) ++ toBytes 8 (uint64 article.expires) ++
    tokenBytes article.token ++ toBytes 6 0

/-! ## Files -/

/-- The files of a group, by their suffixes. -/
inductive Suffix where
  | IDX
  | DAT
  | IDX_NEW
  | DAT_NEW
  | IDX_BAK
deriving DecidableEq

/-- The files of the group: the inode a name stands for, and contents by inode. Inodes
from `fresh` on have not been used. -/
structure Files where
  dir : Suffix → Option ℕ
  idx : ℕ → List UInt8
  dat : ℕ → List UInt8
  fresh : ℕ

/-- Names stand for different files, and for used inodes. -/
structure Files.Ok (files : Files) : Prop where
  lt : ∀ name inode, files.dir name = some inode → inode < files.fresh
  inj : ∀ name name' inode, files.dir name = some inode → files.dir name' = some inode →
    name = name'

/-- Create an empty file. -/
def Files.create (files : Files) (suffix : Suffix) : Files where
  dir := update files.dir suffix (some files.fresh)
  idx := update files.idx files.fresh []
  dat := update files.dat files.fresh []
  fresh := files.fresh + 1

/-- `file_open`. -/
def fileOpen (writable fails : Bool) (files : Files) (suffix : Suffix) : Option ℕ × Files :=
  if fails then (none, files)
  else
    match files.dir suffix with
    | some inode => (some inode, files)
    | none =>
      if writable then (some files.fresh, files.create suffix)
      else (none, files)

/-- `rename`. -/
def rename (fails : Bool) (files : Files) (old new : Suffix) : Bool × Files :=
  match files.dir old with
  | none => (false, files)
  | some inode =>
    if fails then (false, files)
    else (true, { files with dir := update (update files.dir new (some inode)) old none })

/-- `unlink`. -/
def unlink (fails : Bool) (files : Files) (name : Suffix) : Bool × Files :=
  if fails ∨ files.dir name = none then (false, files)
  else (true, { files with dir := update files.dir name none })

/-- `xwrite` and `xpwrite` at a place of a file; a failing one has written a part. -/
def xwrite (fault : Option ℕ) (file : List UInt8) (pos : ℕ) (bytes : List UInt8) :
    Bool × List UInt8 :=
  if bytes = [] then (true, file)
  else
    match fault with
    | none => (true, writeAt file pos bytes)
    | some count => (false, writeAt file pos (bytes.dropLast.take count))

/-! ## Opening and mapping -/

/-- `group_data`. The descriptors are the inodes they are open on, `index` and `data` the
inodes of the mapped files. -/
structure GroupData where
  writable : Bool
  remapoutoforder : Bool
  high : ℕ
  base : ℕ
  indexfd : Option ℕ
  datafd : Option ℕ
  index : Option ℕ
  data : Option ℕ
  indexlen : ℕ
  datalen : ℕ
  indexinode : ℕ
  refcount : ℕ

/-- `file_open_index`. -/
def fileOpenIndex (openFails fstatFails : Bool) (suffix : Suffix) (files : Files)
    (data : GroupData) : Bool × Files × GroupData :=
  match fileOpen data.writable openFails files suffix with
  | (none, files) => (false, files, { data with indexfd := none })
  | (some inode, files) =>
    if fstatFails then (false, files, { data with indexfd := none })
    else (true, files, { data with indexfd := some inode, indexinode := inode })

/-- `file_open_data`. -/
def fileOpenData (openFails : Bool) (suffix : Suffix) (files : Files) (data : GroupData) :
    Bool × Files × GroupData :=
  match fileOpen data.writable openFails files suffix with
  | (none, files) => (false, files, { data with datafd := none })
  | (some inode, files) => (true, files, { data with datafd := some inode })

/-- `tdx_data_new`. -/
def tdxDataNew (writable : Bool) : GroupData :=
  ⟨writable, false, 0, 0, none, none, none, none, 0, 0, 0, 0⟩

/-- The calls of `tdx_data_open_files` that fail. -/
structure OpenFaults where
  openIdx : Bool
  fstatIdx : Bool
  openDat : Bool

/-- `tdx_data_open_files`. -/
def tdxDataOpenFiles (f : OpenFaults) (files : Files) (data : GroupData) :
    Bool × Files × GroupData :=
  let data := { data with index := none, data := none }
  match fileOpenIndex f.openIdx f.fstatIdx .IDX files data with
  | (false, files, data) => (false, files, { data with indexfd := none, datafd := none })
  | (true, files, data) =>
    match fileOpenData f.openDat .DAT files data with
    | (false, files, data) => (false, files, { data with indexfd := none, datafd := none })
    | (true, files, data) => (true, files, data)

/-- The calls of `map_index` or `map_data` that fail. -/
structure MapFaults where
  fstat : Bool
  mmap : Bool

/-- `map_index`; an empty file is not mapped. -/
def mapIndex (f : MapFaults) (files : Files) (data : GroupData) : Bool × GroupData :=
  match data.indexfd with
  | none => (false, data)
  | some inode =>
    if f.fstat then (false, data)
    else
      let data := { data with indexlen := (files.idx inode).length, index := none }
      if data.indexlen = 0 then (true, data)
      else if f.mmap then (false, data)
      else (true, { data with index := some inode })

/-- `map_data`. -/
def mapData (f : MapFaults) (files : Files) (data : GroupData) : Bool × GroupData :=
  match data.datafd with
  | none => (false, data)
  | some inode =>
    if f.fstat then (false, data)
    else
      let data := { data with datalen := (files.dat inode).length, data := none }
      if data.datalen = 0 then (true, data)
      else if f.mmap then (false, data)
      else (true, { data with data := some inode })

/-- Map the index if it is not mapped. -/
def needIndex (f : MapFaults) (files : Files) (data : GroupData) : Bool × GroupData :=
  if data.index = none then mapIndex f files data else (true, data)

/-- Map the data file if it is not mapped. -/
def needData (f : MapFaults) (files : Files) (data : GroupData) : Bool × GroupData :=
  if data.data = none then mapData f files data else (true, data)

/-- The bytes of the index that are mapped. -/
def mappedIndex (files : Files) (data : GroupData) : List UInt8 :=
  match data.index with
  | none => []
  | some inode => (files.idx inode).take data.indexlen

/-- The contents of an index file, by its name. -/
def indexNamed (files : Files) (suffix : Suffix) : List UInt8 :=
  match files.dir suffix with
  | none => []
  | some inode => files.idx inode

/-! ## Packing -/

/-- The calls of `tdx_data_pack_start` that fail. -/
structure PackFaults where
  openNew : Bool
  fstatNew : Bool
  map : MapFaults
  lseek : Bool
  write : Option ℕ
  close : Bool
  unlink : Bool

/-- Give up in `tdx_data_pack_start`: unlink the new index. -/
def packFail (f : PackFaults) (files : Files) (data : GroupData) : Bool × Files × GroupData :=
  (false, (unlink f.unlink files .IDX_NEW).2, data)

/-- The end of `tdx_data_pack_start`, with the old index mapped: copy it behind the place
for the lower numbers. -/
def packCopy (f : PackFaults) (inode base : ℕ) (files : Files) (data : GroupData) :
    Bool × Files × GroupData :=
  if f.lseek then packFail f files data
  else
    let written := xwrite f.write (files.idx inode) ((data.base - base) * ENTRY_SIZE)
      (mappedIndex files data)
    let files := { files with idx := update files.idx inode written.2 }
    if written.1 = false ∨ f.close = true then packFail f files data
    else (true, files, { data with base := base, indexinode := inode })

/-- `tdx_data_pack_start`. -/
def tdxDataPackStart (f : PackFaults) (files : Files) (data : GroupData) (artnum : ℕ) :
    Bool × Files × GroupData :=
  if data.writable = false then (false, files, data)
  else if data.base ≤ artnum then (false, files, data)
  else
    match fileOpen data.writable f.openNew files .IDX_NEW with
    | (none, files) => (false, files, data)
    | (some inode, files) =>
      if f.fstatNew then packFail f files data
      else
        match mapIndex f.map files { data with index := none } with
        | (false, data) => packFail f files data
        | (true, data) => packCopy f inode (indexBase artnum) files data

/-- The calls of `tdx_data_pack_finish` that fail. -/
structure FinishFaults where
  rename : Bool
  unlink : Bool
  openIdx : Bool
  fstatIdx : Bool

/-- `tdx_data_pack_finish`. -/
def tdxDataPackFinish (f : FinishFaults) (files : Files) (data : GroupData) :
    Bool × Files × GroupData :=
  if data.writable = false then (false, files, data)
  else
    match rename f.rename files .IDX_NEW .IDX with
    | (false, files) => (false, (unlink f.unlink files .IDX_NEW).2, data)
    | (true, files) => fileOpenIndex f.openIdx f.fstatIdx .IDX files data

/-! ## Storing -/

/-- The calls of `tdx_data_store` that fail. -/
structure StoreFaults where
  write : Option ℕ
  lseek : Bool
  pwrite : Option ℕ

/-- The end of `tdx_data_store`: append the overview to the data file and write the index
entry. -/
def storeWrite (f : StoreFaults) (files : Files) (data : GroupData) (article : Article) :
    Bool × Files × GroupData :=
  match data.datafd with
  | none => (false, files, data)
  | some dat =>
    let offset := (files.dat dat).length
    let appended := xwrite f.write (files.dat dat) offset article.overview
    let files := { files with dat := update files.dat dat appended.2 }
    if appended.1 = false ∨ f.lseek = true then (false, files, data)
    else
      match data.indexfd with
      | none => (false, files, data)
      | some idx =>
        let written := xwrite f.pwrite (files.idx idx) ((article.number - data.base) * ENTRY_SIZE)
          (indexEntry offset article)
        (written.1, { files with idx := update files.idx idx written.2 }, data)

/-- `tdx_data_store`. -/
def tdxDataStore (f : StoreFaults) (files : Files) (data : GroupData) (article : Article) :
    Bool × Files × GroupData :=
  if data.writable = false then (false, files, data)
  else
    let data := if data.base = 0 then { data with base := indexBase article.number } else data
    if article.number < data.base then (false, files, data)
    else storeWrite f files data article

/-! ## Reading -/

/-- The article an index entry describes. -/
def entryArticle (entry dat : List UInt8) (number : ℕ) : Article where
  number := number
  overview := (dat.drop (entryOffset entry)).take (entryLength entry)
  arrived := int64 (ofBytes ((entry.drop 16).take 8))
  expires := int64 (ofBytes ((entry.drop 24).take 8))
  token := ⟨recordAt entry 32, recordAt entry 33, Vector.ofFn fun i => recordAt entry (34 + i)⟩

/-- The calls of `tdx_article_entry` that fail. -/
structure LookupFaults where
  remap : MapFaults
  map : MapFaults

/-- `tdx_article_entry`: the index entry of an article. -/
def tdxArticleEntry (f : LookupFaults) (files : Files) (data : GroupData) (article high : ℕ) :
    Option (List UInt8) × GroupData :=
  let data :=
    if data.high < article ∧ data.high < high then
      { (mapIndex f.remap files { data with index := none }).2 with
        high := high, remapoutoforder := true }
    else data
  let mapped := needIndex f.map files data
  if mapped.1 = false then (none, mapped.2)
  else if article < mapped.2.base then (none, mapped.2)
  else (articleIn (mappedIndex files mapped.2) (article - mapped.2.base), mapped.2)

/-- The calls of `tdx_search_open` that fail. -/
structure SearchFaults where
  remap : MapFaults
  index : MapFaults
  data : MapFaults

/-- The first step of `tdx_search_open`: map the index anew when the high mark has moved on,
and forget the mapped data. -/
def remapSearch (f : MapFaults) (files : Files) (data : GroupData) (stop high : ℕ) : GroupData :=
  if (data.high < stop ∧ data.high < high) ∨ data.remapoutoforder = true then
    { (mapIndex f files { data with remapoutoforder := false, data := none, index := none }).2 with
      high := high }
  else data

/-- `tdx_search_open`. -/
def tdxSearchOpen (f : SearchFaults) (files : Files) (data : GroupData) (start stop high : ℕ) :
    Option Search × GroupData :=
  if stop < data.base then (none, data)
  else if stop < start then (none, data)
  else
    let data := remapSearch f.remap files data stop high
    if data.high < start then (none, data)
    else
      let index := needIndex f.index files data
      if index.1 = false then (none, index.2)
      else
        let mapped := needData f.data files index.2
        if mapped.1 = false then (none, mapped.2)
        else
          (some ⟨stop - mapped.2.base,
              if start < mapped.2.base then 0 else start - mapped.2.base⟩,
            { mapped.2 with refcount := mapped.2.refcount + 1 })

/-- The loop of `tdx_search` over entries without an article. -/
def skipEmpty (file : List UInt8) (limit max : ℕ) : ℕ → ℕ → ℕ
  | 0, current => current
  | fuel + 1, current =>
    if current ≤ limit ∧ current ≤ max then
      if entryLength (entryAt file current) ≠ 0 then current
      else skipEmpty file limit max fuel (current + 1)
    else current

/-- An entry that `tdx_search` warns of, with `offset` and `length` as signed numbers. -/
def inaccessible (entry : List UInt8) (datalen : ℕ) : Prop :=
  2 ^ 63 ≤ entryOffset entry ∨ 2 ^ 31 ≤ entryLength entry ∨
    datalen < entryOffset entry ∨ datalen - entryOffset entry < entryLength entry

instance (entry : List UInt8) (datalen : ℕ) : Decidable (inaccessible entry datalen) :=
  inferInstanceAs (Decidable (_ ∨ _))

/-- `tdx_search`. -/
def tdxSearch (files : Files) (data : GroupData) (search : Search) :
    Option Article × Search × GroupData :=
  match data.index, data.data with
  | some idx, some dat =>
    let count := data.indexlen / ENTRY_SIZE
    if count ≤ search.current then (none, search, data)
    else
      let current := skipEmpty (files.idx idx) search.limit (count - 1) (count - search.current)
        search.current
      if search.limit < current ∨ count - 1 < current then
        (none, { search with current := current }, data)
      else
        let entry := entryAt (files.idx idx) current
        if inaccessible entry data.datalen then
          (none, { search with current := current }, { data with remapoutoforder := true })
        else
          (some (entryArticle entry (files.dat dat) (current + data.base)),
            { search with current := current + 1 }, data)
  | _, _ => (none, search, data)

end Inn.Tradindexed.Faults
