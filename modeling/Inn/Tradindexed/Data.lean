import Inn.Tradindexed.Rebuild

/-!
# Inn.Tradindexed.Data — the overview data files of one group

A group has an IDX file, an array of index entries addressed by article number
minus the base, and a DAT file with the overview lines. An open `group_data`
holds descriptors of both, perhaps mappings, and its own ideas of the base and
of the high mark.

Files are told apart by inode, and inodes are never used again. A mapping shows
the current contents of its file up to the length the file had when it was mapped
(`MAP_SHARED`). The system calls do not fail, and there is no left-over `-NEW`
file; offsets and lengths are natural numbers.
-/

namespace Inn.Tradindexed

/-- A storage token. -/
structure TOKEN where
  type : UInt8
  cls : UInt8
  token : Vector UInt8 16
deriving DecidableEq

instance : Zero TOKEN := ⟨⟨0, 0, Vector.replicate 16 0⟩⟩

/-- `index_entry`; an entry of length 0 is no article. -/
structure IndexEntry where
  offset : ℕ
  length : ℕ
  arrived : ℤ
  expires : ℤ
  token : TOKEN
deriving DecidableEq

instance : Zero IndexEntry := ⟨⟨0, 0, 0, 0, 0⟩⟩

/-- `article`: what is added, and what a search returns. -/
structure Article where
  number : ℕ
  overview : List UInt8
  token : TOKEN
  arrived : ℤ
  expires : ℤ
deriving DecidableEq

/-- The files of the group: contents by inode, and the inodes `.IDX` and `.DAT`
name now. Inodes from `fresh` on have not been used. -/
structure Disk where
  idx : ℕ → List IndexEntry
  dat : ℕ → List UInt8
  idxFile : ℕ
  datFile : ℕ
  fresh : ℕ

/-- `group_data`, for writing. The descriptors are the inodes they are open on;
`index` and `data` are the inodes of the mapped files, and the lengths are in
records and in bytes. -/
structure GroupData where
  remapoutoforder : Bool
  high : ℕ
  base : ℕ
  indexfd : ℕ
  datafd : ℕ
  index : Option ℕ
  data : Option ℕ
  indexlen : ℕ
  datalen : ℕ
  indexinode : ℕ

/-! ## Opening and mapping -/

/-- `tdx_data_open_files` on a new or an open `group_data`. -/
def tdxDataOpenFiles (disk : Disk) (data : GroupData) : GroupData :=
  { data with
    index := none, data := none, indexfd := disk.idxFile, indexinode := disk.idxFile
    datafd := disk.datFile }

/-- `tdx_data_new`. -/
def tdxDataNew : GroupData := ⟨false, 0, 0, 0, 0, none, none, 0, 0, 0⟩

/-- `tdx_data_open`; the second try when the inode of the entry is another one
opens the same files. -/
def tdxDataOpen (disk : Disk) (entry : GroupEntry) : GroupData :=
  { tdxDataOpenFiles disk tdxDataNew with high := entry.high, base := entry.base }

/-- `map_index`; an empty file is not mapped. -/
def mapIndex (disk : Disk) (data : GroupData) : GroupData :=
  { data with
    indexlen := (disk.idx data.indexfd).length
    index := if (disk.idx data.indexfd).length = 0 then none else some data.indexfd }

/-- `map_data`. -/
def mapData (disk : Disk) (data : GroupData) : GroupData :=
  { data with
    datalen := (disk.dat data.datafd).length
    data := if (disk.dat data.datafd).length = 0 then none else some data.datafd }

/-! ## Searching -/

/-- `search`; positions are relative to the base of the `group_data`. -/
structure Search where
  limit : ℕ
  current : ℕ

/-- `tdx_search_open`. -/
def tdxSearchOpen (disk : Disk) (data : GroupData) (start stop high : ℕ) :
    Option Search × GroupData :=
  if stop < data.base then (none, data)
  else if stop < start then (none, data)
  else
    let data :=
      if (data.high < stop ∧ data.high < high) ∨ data.remapoutoforder = true then
        { mapIndex disk { data with remapoutoforder := false, data := none, index := none } with
          high := high }
      else data
    if data.high < start then (none, data)
    else
      let data := if data.index.isNone then mapIndex disk data else data
      let data := if data.data.isNone then mapData disk data else data
      (some ⟨stop - data.base, if start < data.base then 0 else start - data.base⟩, data)

/-- The loop of `tdx_search` over entries without an article. -/
def skipEmpty (file : List IndexEntry) (limit max : ℕ) : ℕ → ℕ → ℕ
  | 0, current => current
  | fuel + 1, current =>
    if current ≤ limit ∧ current ≤ max then
      if (recordAt file current).length ≠ 0 then current
      else skipEmpty file limit max fuel (current + 1)
    else current

/-- The article an index entry describes. -/
def IndexEntry.article (entry : IndexEntry) (dat : List UInt8) (number : ℕ) : Article where
  number := number
  overview := (dat.drop entry.offset).take entry.length
  token := entry.token
  arrived := entry.arrived
  expires := entry.expires

/-- `tdx_search`. -/
def tdxSearch (disk : Disk) (data : GroupData) (search : Search) :
    Option Article × Search × GroupData :=
  match data.index, data.data with
  | some idx, some dat =>
    if data.indexlen ≤ search.current then (none, search, data)
    else
      let max := data.indexlen - 1
      let current := skipEmpty (disk.idx idx) search.limit max (data.indexlen - search.current)
        search.current
      if search.limit < current ∨ max < current then
        (none, { search with current := current }, data)
      else
        let entry := recordAt (disk.idx idx) current
        -- invalid or inaccessible entry
        if data.datalen < entry.offset ∨ data.datalen - entry.offset < entry.length then
          (none, { search with current := current }, { data with remapoutoforder := true })
        else
          (some (entry.article (disk.dat dat) (current + data.base)),
            { search with current := current + 1 }, data)
  | _, _ => (none, search, data)

/-- Call `tdx_search` until it returns false. -/
def searchAll (disk : Disk) : ℕ → GroupData → Search → List Article × GroupData
  | 0, data, _ => ([], data)
  | fuel + 1, data, search =>
    match tdxSearch disk data search with
    | (none, _, data) => ([], data)
    | (some article, search, data) =>
      let rest := searchAll disk fuel data search
      (article :: rest.1, rest.2)

/-! ## Storing, cancelling and packing -/

/-- `index_base`: an index base with some room below the article number. -/
def indexBase (artnum : ℕ) : ℕ := if 128 < artnum then artnum - 128 else 1

/-- Replace the contents of an IDX file. -/
def Disk.setIdx (disk : Disk) (inode : ℕ) (file : List IndexEntry) : Disk :=
  { disk with idx := Function.update disk.idx inode file }

/-- Replace the contents of a DAT file. -/
def Disk.setDat (disk : Disk) (inode : ℕ) (file : List UInt8) : Disk :=
  { disk with dat := Function.update disk.dat inode file }

/-- `tdx_data_store`: append the overview to the DAT file and write the index
entry. -/
def tdxDataStore (disk : Disk) (data : GroupData) (article : Article) : Bool × Disk × GroupData :=
  let data := if data.base = 0 then { data with base := indexBase article.number } else data
  if article.number < data.base then (false, disk, data)
  else
    let dat := disk.dat data.datafd
    let entry : IndexEntry :=
      { offset := dat.length, length := article.overview.length
        arrived := article.arrived, expires := article.expires, token := article.token }
    let disk := disk.setDat data.datafd (dat ++ article.overview)
    (true, disk.setIdx data.indexfd
      (pwrite (disk.idx data.indexfd) (article.number - data.base) entry), data)

/-- `tdx_data_cancel`: blank out the index entry. -/
def tdxDataCancel (disk : Disk) (data : GroupData) (artnum : ℕ) : Bool × Disk :=
  if data.base = 0 ∨ artnum < data.base ∨ data.high < artnum then (false, disk)
  else (true, disk.setIdx data.indexfd (pwrite (disk.idx data.indexfd) (artnum - data.base) 0))

/-- `tdx_data_pack_start` and `tdx_data_pack_finish`: rewrite the index file with
a lower base. The old index stays mapped. -/
def tdxDataPack (disk : Disk) (data : GroupData) (artnum : ℕ) : Bool × Disk × GroupData :=
  if data.base ≤ artnum then (false, disk, data)
  else
    let base := indexBase artnum
    let delta := data.base - base
    let data := mapIndex disk { data with index := none }
    let old := (disk.idx data.indexfd).take data.indexlen
    let new := if old = [] then [] else List.replicate delta 0 ++ old
    let inode := disk.fresh
    let disk := { disk.setIdx inode new with idxFile := inode, fresh := inode + 1 }
    (true, disk, { data with base := base, indexinode := inode, indexfd := inode })

/-- `tdx_data_add`. -/
def tdxDataAdd (disk : Disk) (entry : GroupEntry) (data : GroupData) (article : Article) :
    Bool × Disk × GroupEntry × GroupData :=
  -- make sure we have the most current data files and the right base
  let data := if entry.indexinode ≠ data.indexinode then
      { tdxDataOpenFiles disk data with base := entry.base }
    else data
  -- too low to store in the index: repack with a lower base
  let packed := if article.number < entry.base then tdxDataPack disk data article.number
    else (true, disk, data)
  match packed with
  | (false, disk, data) => (false, disk, entry, data)
  | (true, disk, data) =>
    let entry := if article.number < entry.base then
        { entry with indexinode := data.indexinode, base := data.base }
      else entry
    match tdxDataStore disk data article with
    | (false, disk, data) => (false, disk, entry, data)
    | (true, disk, data) =>
      let entry :=
        { entry with
          base := if entry.base = 0 then data.base else entry.base
          low := if entry.low = 0 ∨ article.number < entry.low then article.number else entry.low
          high := if entry.high < article.number then article.number else entry.high
          count := entry.count + 1 }
      let data := if article.number < data.high then { data with remapoutoforder := true } else data
      (true, disk, entry, data)

/-! ## Expiring -/

/-- The loop of `tdx_data_expire_start`; `keep` is what the storage and history
checks say about an article. -/
def expireLoop (keep : Article → Bool) :
    ℕ → Disk → GroupData → Search → GroupData → GroupEntry → Option (Disk × GroupEntry)
  | 0, _, _, _, _, _ => none
  | fuel + 1, disk, data, search, newData, new =>
    match tdxSearch disk data search with
    | (none, _, _) => some (disk, new)
    | (some article, search, data) =>
      if keep article then
        match tdxDataStore disk newData article with
        | (false, _, _) => none
        | (true, disk, newData) =>
          let new := if new.base = 0 then
              { new with base := newData.base, low := article.number }
            else new
          let new :=
            { new with
              high := if new.high < article.number then article.number else new.high
              count := new.count + 1 }
          expireLoop keep fuel disk data search newData new
      else expireLoop keep fuel disk data search newData new

/-- `tdx_data_rebuild_start`: the files once empty `-NEW` files are there. IDX and
DAT files are numbered apart, and alike. -/
def rebuildDisk (disk : Disk) : Disk :=
  { (disk.setIdx disk.fresh []).setDat disk.fresh [] with fresh := disk.fresh + 1 }

/-- `tdx_data_rebuild_start`: the `group_data` open on the new files. -/
def rebuildData (disk : Disk) : GroupData :=
  { tdxDataNew with indexfd := disk.fresh, indexinode := disk.fresh, datafd := disk.fresh }

/-- `tdx_data_expire_start`: build new files from the articles to keep. `none`
is failure, with the new files deleted. -/
def tdxDataExpireStart (keep : Article → Bool) (disk : Disk) (data : GroupData)
    (new : GroupEntry) : Option (Disk × GroupEntry) :=
  let newData := rebuildData disk
  let high := if 0 < new.high then new.high else data.base
  match tdxSearchOpen (rebuildDisk disk) data data.base high high with
  | (none, _) => none
  | (some search, data) =>
    expireLoop keep (data.indexlen + 1) (rebuildDisk disk) data search
      { newData with high := high } { new with indexinode := newData.indexinode }

/-- `tdx_expire`, with the group's entry locked all the time: the group entry and
the files afterwards, or `none` if it failed and left both alone. -/
def tdxExpire (keep : Article → Bool) (disk : Disk) (entry : GroupEntry) :
    Option (Disk × GroupEntry) :=
  let new := { entry with low := 0, count := 0, base := 0 }
  let data := tdxDataOpen disk entry
  match tdxDataExpireStart keep disk data new with
  | none => none
  | some (disk, new) =>
    -- `tdx_data_rebuild_finish` moves the new files into place
    some ({ disk with idxFile := new.indexinode, datFile := new.indexinode },
      emptyMarks entry.high new)

end Inn.Tradindexed
