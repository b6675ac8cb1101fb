import Inn.Tradindexed.Search

/-!
# Inn.Tradindexed.Store — what storing and packing write

* `tdxDataStore_of_le` — an article not below the base is stored, in the files
  `stored` describes;
* `tdxDataPack_of_lt` — packing writes a new index file, `packed`, in which every
  entry has moved up by the difference of the bases.
-/

namespace Inn.Tradindexed

open Function (update update_self update_of_ne)

theorem indexBase_pos (n : ℕ) : indexBase n ≠ 0 := by
  unfold indexBase
  split <;> omega

theorem indexBase_le {n : ℕ} (h : 1 ≤ n) : indexBase n ≤ n := by
  unfold indexBase
  split <;> omega

/-! ## Storing -/

/-- The base `tdx_data_store` uses. -/
def storeBase (data : GroupData) (n : ℕ) : ℕ :=
  if data.base = 0 then indexBase n else data.base

theorem storeBase_pos (data : GroupData) (n : ℕ) : storeBase data n ≠ 0 := by
  unfold storeBase
  split
  · exact indexBase_pos n
  · assumption

/-- The files after an article was stored. -/
def stored (disk : Disk) (data : GroupData) (article : Article) : Disk :=
  (disk.setDat data.datafd (disk.dat data.datafd ++ article.overview)).setIdx data.indexfd
    (pwrite (disk.idx data.indexfd) (article.number - storeBase data article.number)
      ⟨(disk.dat data.datafd).length, article.overview.length, article.arrived, article.expires,
        article.token⟩)

theorem tdxDataStore_of_le {disk : Disk} {data : GroupData} {article : Article}
    (h : storeBase data article.number ≤ article.number) :
    tdxDataStore disk data article =
      (true, stored disk data article, { data with base := storeBase data article.number }) := by
  unfold tdxDataStore stored storeBase at *
  by_cases hbase : data.base = 0
  · simp only [if_pos hbase] at h ⊢
    rw [if_neg (Nat.not_lt.mpr h)]
    rfl
  · simp only [if_neg hbase] at h ⊢
    rw [if_neg (Nat.not_lt.mpr h)]
    rfl

section Stored

variable {disk : Disk} {data : GroupData} {article : Article}

theorem idx_stored_self : (stored disk data article).idx data.indexfd =
    pwrite (disk.idx data.indexfd) (article.number - storeBase data article.number)
      ⟨(disk.dat data.datafd).length, article.overview.length, article.arrived, article.expires,
        article.token⟩ := update_self _ _ _

theorem dat_stored_self : (stored disk data article).dat data.datafd =
    disk.dat data.datafd ++ article.overview := update_self _ _ _

theorem idx_stored_of_ne {inode : ℕ} (h : inode ≠ data.indexfd) :
    (stored disk data article).idx inode = disk.idx inode := update_of_ne h _ _

end Stored

/-! ## Packing -/

/-- The entries of an index file after packing. -/
def packed (file : List IndexEntry) (delta : ℕ) : List IndexEntry :=
  if file = [] then [] else List.replicate delta 0 ++ file

/-- Packing moves every entry up. -/
theorem recordAt_packed (file : List IndexEntry) (delta i : ℕ) :
    recordAt (packed file delta) i = if i < delta then 0 else recordAt file (i - delta) := by
  unfold packed
  split
  · rename_i hnil
    rw [hnil, recordAt_nil, recordAt_nil, ite_self]
  · rw [recordAt, pread, List.getElem?_append, List.length_replicate]
    split
    · rename_i hlt
      rw [List.getElem?_replicate, if_pos hlt]
      rfl
    · rfl

/-- The files after packing. -/
def repacked (disk : Disk) (data : GroupData) (n : ℕ) : Disk :=
  { disk.setIdx disk.fresh (packed (disk.idx data.indexfd) (data.base - indexBase n)) with
    idxFile := disk.fresh, fresh := disk.fresh + 1 }

theorem tdxDataPack_of_lt {disk : Disk} {data : GroupData} {n : ℕ} (h : n < data.base) :
    tdxDataPack disk data n = (true, repacked disk data n,
      { mapIndex disk { data with index := none } with
        base := indexBase n, indexinode := disk.fresh, indexfd := disk.fresh }) := by
  unfold tdxDataPack
  rw [if_neg (Nat.not_le.mpr h)]
  simp only [mapIndex, List.take_length]
  rfl

/-! ## Adding -/

/-- `tdx_data_add` once its files are current. -/
def addCurrent (disk : Disk) (entry : GroupEntry) (data : GroupData) (article : Article) :
    Bool × Disk × GroupEntry × GroupData :=
  match tdxDataStore disk data article with
  | (false, disk, data) => (false, disk, entry, data)
  | (true, disk, data) =>
    (true, disk,
      { entry with
        base := if entry.base = 0 then data.base else entry.base
        low := if entry.low = 0 ∨ article.number < entry.low then article.number else entry.low
        high := if entry.high < article.number then article.number else entry.high
        count := entry.count + 1 },
      if article.number < data.high then { data with remapoutoforder := true } else data)

/-- `tdx_data_add` reopens if the inode is another one, packs if the number is too
low, and then stores. -/
theorem tdxDataAdd_eq (disk : Disk) (entry : GroupEntry) (data : GroupData) (article : Article) :
    tdxDataAdd disk entry data article =
      let data := if entry.indexinode ≠ data.indexinode then
          { tdxDataOpenFiles disk data with base := entry.base }
        else data
      if article.number < entry.base then
        match tdxDataPack disk data article.number with
        | (false, disk, data) => (false, disk, entry, data)
        | (true, disk, data) =>
          addCurrent disk { entry with indexinode := data.indexinode, base := data.base } data
            article
      else addCurrent disk entry data article := by
  unfold tdxDataAdd
  simp only []
  by_cases hlow : article.number < entry.base
  · simp only [if_pos hlow]
    rcases tdxDataPack disk _ article.number with ⟨_ | _, disk', data'⟩ <;> rfl
  · simp only [if_neg hlow]
    rfl

/-- The entry after an article was stored with base `base`. -/
def addedEntry (entry : GroupEntry) (base n : ℕ) : GroupEntry :=
  { entry with
    base := if entry.base = 0 then base else entry.base
    low := if entry.low = 0 ∨ n < entry.low then n else entry.low
    high := if entry.high < n then n else entry.high
    count := entry.count + 1 }

/-- The `group_data` after an article was stored. -/
def addedData (data : GroupData) (n : ℕ) : GroupData :=
  { data with
    base := storeBase data n
    remapoutoforder := data.remapoutoforder || decide (n < data.high) }

theorem addCurrent_of_le {disk : Disk} {entry : GroupEntry} {data : GroupData}
    {article : Article} (h : storeBase data article.number ≤ article.number) :
    addCurrent disk entry data article =
      (true, stored disk data article,
        addedEntry entry (storeBase data article.number) article.number,
        addedData data article.number) := by
  rw [addCurrent, tdxDataStore_of_le h]
  simp only [addedEntry, addedData]
  by_cases hlt : article.number < data.high
  · simp [hlt]
  · simp [hlt]

end Inn.Tradindexed
