import Inn.Tradindexed.Packing

/-!
# Inn.Tradindexed.Closing — `tdx_expire` when operations fail

Expiring a group opens its data, builds new files from the articles to keep, closes the
data and moves the new files into place. When one of the renames fails, the code has closed
the data already and goes to the label that closes it again.

* `Kept` — names and contents of the index and the data file stay, step by step;
* `tdxDataExpireStart_spec` — building the new files leaves the old pair and the reference
  count alone;
* `expire_closes_once_iff` — `tdx_expire` closes what it opened exactly once, and leaves
  the old group behind when it fails, unless a rename fails once the new files are built.
-/

namespace Inn.Tradindexed.Faults

open Function (update update_self update_of_ne)

/-! ## The code -/

/-- `tdx_data_open`, with what fails at the first and at the second try. When it fails it
has closed its `group_data` itself. -/
def tdxDataOpen (first second : OpenFaults) (files : Files) (entry : GroupEntry) :
    Option GroupData × Files :=
  let opened := tdxDataOpenFiles first files (tdxDataNew true)
  if opened.1 = false then (none, opened.2.1)
  else if entry.indexinode ≠ opened.2.2.indexinode then
    let again := tdxDataOpenFiles second opened.2.1 opened.2.2
    if again.1 = false then (none, again.2.1)
    else (some { again.2.2 with high := entry.high, base := entry.base }, again.2.1)
  else (some { opened.2.2 with high := entry.high, base := entry.base }, opened.2.1)

/-- `tdx_data_delete` of the `-NEW` files; each of the two may stay. -/
def tdxDataDeleteNew (fails : Bool × Bool) (files : Files) : Files :=
  (unlink fails.2 (unlink fails.1 files .IDX_NEW).2 .DAT_NEW).2

/-- `tdx_search_close`: whether it closes the `group_data`, with the count it leaves. -/
def tdxSearchClose (data : GroupData) : Bool × GroupData :=
  (decide (data.refcount - 1 = 0), { data with refcount := data.refcount - 1 })

/-- The calls of `tdx_data_expire_start` that fail; those of a store by article number. -/
structure BuildFaults where
  delete : Bool × Bool
  openIdx : Bool
  fstatIdx : Bool
  openDat : Bool
  search : SearchFaults
  store : ℕ → StoreFaults
  undo : Bool × Bool

/-- What `tdx_data_expire_start` leaves: its result, the files, the data it reads, the new
group entry, and how often it closed the data it reads. -/
structure Build where
  ok : Bool
  files : Files
  data : GroupData
  new : GroupEntry
  closed : ℕ

/-- The loop of `tdx_data_expire_start`; `keep` is what the storage and history checks say
about an article. -/
def expireLoop (keep : Article → Bool) (store : ℕ → StoreFaults) :
    ℕ → Files → GroupData → Search → GroupData → GroupEntry →
      Bool × Files × GroupData × GroupEntry
  | 0, files, data, _, _, new => (true, files, data, new)
  | fuel + 1, files, data, search, newData, new =>
    match tdxSearch files data search with
    | (none, _, data) => (true, files, data, new)
    | (some article, search, data) =>
      if keep article then
        match tdxDataStore (store article.number) files newData article with
        | (false, files, _) => (false, files, data, new)
        | (true, files, newData) =>
          let new := if new.base = 0 then
              { new with base := newData.base, low := article.number }
            else new
          let new :=
            { new with
              high := if new.high < article.number then article.number else new.high
              count := new.count + 1 }
          expireLoop keep store fuel files data search newData new
      else expireLoop keep store fuel files data search newData new

/-- The part of `tdx_data_expire_start` with the new files open. -/
def expireCopy (f : BuildFaults) (keep : Article → Bool) (files : Files)
    (data newData : GroupData) (new : GroupEntry) : Build :=
  let new := { new with indexinode := newData.indexinode }
  let high := if 0 < new.high then new.high else data.base
  let newData := { newData with high := high }
  match tdxSearchOpen f.search files { data with refcount := data.refcount + 1 } data.base high
    high with
  | (none, data) =>
    ⟨false, tdxDataDeleteNew f.undo files, { data with refcount := data.refcount - 1 }, new, 0⟩
  | (some search, data) =>
    let copied := expireLoop keep f.store (data.indexlen / ENTRY_SIZE + 1) files data search
      newData new
    let closed := tdxSearchClose copied.2.2.1
    ⟨copied.1, if copied.1 then copied.2.1 else tdxDataDeleteNew f.undo copied.2.1,
      { closed.2 with refcount := closed.2.refcount - 1 }, copied.2.2.2, closed.1.toNat⟩

/-- `tdx_data_expire_start`, from `tdx_data_rebuild_start` on. -/
def tdxDataExpireStart (f : BuildFaults) (keep : Article → Bool) (files : Files)
    (data : GroupData) (new : GroupEntry) : Build :=
  let idx := fileOpenIndex f.openIdx f.fstatIdx .IDX_NEW (tdxDataDeleteNew f.delete files)
    (tdxDataNew true)
  if idx.1 = false then ⟨false, tdxDataDeleteNew f.undo idx.2.1, data, new, 0⟩
  else
    let dat := fileOpenData f.openDat .DAT_NEW idx.2.1 idx.2.2
    if dat.1 = false then ⟨false, tdxDataDeleteNew f.undo dat.2.1, data, new, 0⟩
    else expireCopy f keep dat.2.1 data dat.2.2 new

/-- The calls of `tdx_data_rebuild_finish` that fail. -/
structure RenameFaults where
  saveIdx : Bool
  newIdx : Bool
  newDat : Bool
  restore : Bool
  unlink : Bool

/-- One of the three renames fails. -/
def RenameFaults.Any (f : RenameFaults) : Prop :=
  f.saveIdx = true ∨ f.newIdx = true ∨ f.newDat = true

/-- `tdx_data_rebuild_finish`. -/
def tdxDataRebuildFinish (f : RenameFaults) (files : Files) : Bool × Files :=
  let saved := rename f.saveIdx files .IDX .IDX_BAK
  if saved.1 = false then (false, saved.2)
  else
    let idx := rename f.newIdx saved.2 .IDX_NEW .IDX
    if idx.1 = false then (false, (rename f.restore idx.2 .IDX_BAK .IDX).2)
    else
      let dat := rename f.newDat idx.2 .DAT_NEW .DAT
      if dat.1 = false then (false, (rename f.restore dat.2 .IDX_BAK .IDX).2)
      else (true, (unlink f.unlink dat.2 .IDX_BAK).2)

/-- The calls of `tdx_expire` that fail; `index` is `tdx_index_open`. -/
structure ExpireFaults where
  index : Bool
  first : OpenFaults
  second : OpenFaults
  build : BuildFaults
  finish : RenameFaults

/-- What `tdx_expire` leaves: its result, the files and the group entry, and how many
`group_data` it opened for the group and how often it closed one. -/
structure Expired where
  ok : Bool
  files : Files
  entry : Option GroupEntry
  opened : ℕ
  closed : ℕ

/-- The end of `tdx_expire`, with the new files built. -/
def expireFinish (f : RenameFaults) (entry : GroupEntry) (built : Build) : Expired :=
  let changed := { entry with indexinode := built.new.indexinode, base := built.new.base }
  let closed := built.closed + 1
  let moved := tdxDataRebuildFinish f built.files
  if moved.1 = false then
    let entry := { changed with base := entry.base, indexinode := entry.indexinode }
    -- the label `fail` closes the data again
    ⟨false, moved.2, some entry, 1, closed + 1⟩
  else ⟨true, moved.2, some (emptyMarks entry.high built.new), 1, closed⟩

/-- `tdx_expire`; `entry` is what `tdx_index_entry` finds. -/
def tdxExpire (f : ExpireFaults) (keep : Article → Bool) (files : Files)
    (entry : Option GroupEntry) : Expired :=
  if f.index then ⟨false, files, entry, 0, 0⟩
  else
    match entry with
    | none => ⟨false, files, none, 0, 0⟩
    | some entry =>
      match tdxDataOpen f.first f.second files entry with
      | (none, files) => ⟨false, files, some entry, 1, 1⟩
      | (some data, files) =>
        let built := tdxDataExpireStart f.build keep files data
          { entry with low := 0, count := 0, base := 0 }
        if built.ok = false then ⟨false, built.files, some entry, 1, built.closed + 1⟩
        else expireFinish f.finish entry built

/-! ## The old pair -/

/-- The index and the data file are the old pair: what was there is there under its name
with its contents, and what was missing is missing or empty. -/
structure OldPair (before after : Files) : Prop where
  idx : ∀ i, before.dir .IDX = some i → after.dir .IDX = some i ∧ after.idx i = before.idx i
  dat : ∀ i, before.dir .DAT = some i → after.dir .DAT = some i ∧ after.dat i = before.dat i
  noIdx : before.dir .IDX = none → ∀ i, after.dir .IDX = some i → after.idx i = []
  noDat : before.dir .DAT = none → ∀ i, after.dir .DAT = some i → after.dat i = []

/-- A step that leaves the old pair alone, and the names in order. -/
structure Kept (before after : Files) : Prop where
  ok : after.Ok
  pair : OldPair before after

theorem OldPair.refl {files : Files} : OldPair files files where
  idx := fun _ h => ⟨h, rfl⟩
  dat := fun _ h => ⟨h, rfl⟩
  noIdx := fun hno _ h => absurd (hno.symm.trans h) (Option.some_ne_none _).symm
  noDat := fun hno _ h => absurd (hno.symm.trans h) (Option.some_ne_none _).symm

theorem OldPair.trans {a b c : Files} (h : OldPair a b) (h' : OldPair b c) : OldPair a c where
  idx := by
    intro i hi
    obtain ⟨hb, hc⟩ := h.idx i hi
    obtain ⟨hb', hc'⟩ := h'.idx i hb
    exact ⟨hb', hc'.trans hc⟩
  dat := by
    intro i hi
    obtain ⟨hb, hc⟩ := h.dat i hi
    obtain ⟨hb', hc'⟩ := h'.dat i hb
    exact ⟨hb', hc'.trans hc⟩
  noIdx := by
    intro hno i hi
    cases hb : b.dir .IDX with
    | none => exact h'.noIdx hb i hi
    | some j =>
      -- created in the first step, empty
      obtain ⟨hj, hsame⟩ := h'.idx j hb
      obtain rfl : j = i := Option.some.inj (hj.symm.trans hi)
      rw [hsame, h.noIdx hno j hb]
  noDat := by
    intro hno i hi
    cases hb : b.dir .DAT with
    | none => exact h'.noDat hb i hi
    | some j =>
      obtain ⟨hj, hsame⟩ := h'.dat j hb
      obtain rfl : j = i := Option.some.inj (hj.symm.trans hi)
      rw [hsame, h.noDat hno j hb]

theorem Kept.refl {files : Files} (hok : files.Ok) : Kept files files := ⟨hok, OldPair.refl⟩

theorem Kept.trans {a b c : Files} (h : Kept a b) (h' : Kept b c) : Kept a c :=
  ⟨h'.ok, h.pair.trans h'.pair⟩

theorem fileOpen_kept {files : Files} (hok : files.Ok) (writable fails : Bool)
    (suffix : Suffix) : Kept files (fileOpen writable fails files suffix).2 := by
  unfold fileOpen
  split
  · exact Kept.refl hok
  split
  · exact Kept.refl hok
  rename_i hdir
  split
  · -- created: a new inode, with nothing in it
    have hold : ∀ name i, files.dir name = some i → name ≠ suffix := by
      rintro name i hi rfl
      exact absurd (hdir.symm.trans hi) (Option.some_ne_none _).symm
    refine ⟨hok.create suffix, ?_, ?_, ?_, ?_⟩
    · intro i hi
      exact ⟨(update_of_ne (hold _ i hi) _ _).trans hi, update_of_ne (hok.lt _ _ hi).ne _ _⟩
    · intro i hi
      exact ⟨(update_of_ne (hold _ i hi) _ _).trans hi, update_of_ne (hok.lt _ _ hi).ne _ _⟩
    · intro hno i hi
      rcases dir_create hi with ⟨rfl, -⟩ | hi
      · exact update_self ..
      · exact absurd (hno.symm.trans hi) (Option.some_ne_none _).symm
    · intro hno i hi
      rcases dir_create hi with ⟨rfl, -⟩ | hi
      · exact update_self ..
      · exact absurd (hno.symm.trans hi) (Option.some_ne_none _).symm
  · exact Kept.refl hok

theorem unlink_kept {files : Files} (hok : files.Ok) (fails : Bool) {name : Suffix}
    (hidx : name ≠ .IDX) (hdat : name ≠ .DAT) : Kept files (unlink fails files name).2 := by
  unfold unlink
  split
  · exact Kept.refl hok
  have hother : ∀ {other i}, update files.dir name none other = some i →
      files.dir other = some i := by
    intro other i hi
    by_cases ho : other = name
    · rw [ho, update_self] at hi
      cases hi
    · rwa [update_of_ne ho] at hi
  constructor
  · exact ⟨fun other i hi => hok.lt other i (hother hi),
      fun other other' i hi hi' => hok.inj other other' i (hother hi) (hother hi')⟩
  · refine ⟨fun i hi => ⟨?_, rfl⟩, fun i hi => ⟨?_, rfl⟩, fun hno i hi => ?_, fun hno i hi => ?_⟩
    · exact (update_of_ne hidx.symm _ _).trans hi
    · exact (update_of_ne hdat.symm _ _).trans hi
    · exact absurd (hno.symm.trans (hother hi)) (Option.some_ne_none _).symm
    · exact absurd (hno.symm.trans (hother hi)) (Option.some_ne_none _).symm

theorem tdxDataDeleteNew_kept {files : Files} (hok : files.Ok) (fails : Bool × Bool) :
    Kept files (tdxDataDeleteNew fails files) := by
  have h : Kept files (unlink fails.1 files .IDX_NEW).2 :=
    unlink_kept hok fails.1 (by decide) (by decide)
  exact h.trans (unlink_kept h.ok fails.2 (by decide) (by decide))

/-! ## Opening -/

theorem Opened.dir_ne {files after : Files} {suffix : Suffix} {inode : ℕ}
    (h : Opened files suffix inode after) : after.dir suffix ≠ none := by
  rw [h.dir, update_self]
  exact Option.some_ne_none _

/-- `file_open_index`: the old pair stays, and the `group_data` but for the index. -/
theorem fileOpenIndex_spec {files : Files} (hok : files.Ok) (openFails fstatFails : Bool)
    (suffix : Suffix) (data : GroupData) :
    Kept files (fileOpenIndex openFails fstatFails suffix files data).2.1 ∧
      (fileOpenIndex openFails fstatFails suffix files data).2.2.refcount = data.refcount := by
  have h := fileOpen_kept hok data.writable openFails suffix
  unfold fileOpenIndex
  split
  · rename_i heq
    rw [heq] at h
    exact ⟨h, rfl⟩
  · rename_i heq
    rw [heq] at h
    split
    · exact ⟨h, rfl⟩
    · exact ⟨h, rfl⟩

theorem fileOpenData_spec {files : Files} (hok : files.Ok) (openFails : Bool)
    (suffix : Suffix) (data : GroupData) :
    Kept files (fileOpenData openFails suffix files data).2.1 ∧
      (fileOpenData openFails suffix files data).2.2.refcount = data.refcount := by
  have h := fileOpen_kept hok data.writable openFails suffix
  unfold fileOpenData
  split
  · rename_i heq
    rw [heq] at h
    exact ⟨h, rfl⟩
  · rename_i heq
    rw [heq] at h
    exact ⟨h, rfl⟩

theorem fileOpenData_true {openFails : Bool} {suffix : Suffix} {files : Files}
    {data : GroupData} (h : (fileOpenData openFails suffix files data).1 = true) :
    ∃ inode opened, Opened files suffix inode opened ∧
      fileOpenData openFails suffix files data =
        (true, opened, { data with datafd := some inode }) := by
  unfold fileOpenData at h ⊢
  split at h
  · cases h
  · rename_i inode opened hopen
    exact ⟨inode, opened, fileOpen_some hopen, rfl⟩

/-- Both files of the group are there. -/
def Files.Whole (files : Files) : Prop := files.dir .IDX ≠ none ∧ files.dir .DAT ≠ none

theorem Kept.whole {before after : Files} (h : Kept before after) (hw : before.Whole) :
    after.Whole := by
  obtain ⟨i, hi⟩ := Option.ne_none_iff_exists'.mp hw.1
  obtain ⟨j, hj⟩ := Option.ne_none_iff_exists'.mp hw.2
  constructor
  · rw [(h.pair.idx i hi).1]
    exact Option.some_ne_none _
  · rw [(h.pair.dat j hj).1]
    exact Option.some_ne_none _

/-- `tdx_data_open_files`: the old pair stays, and when it succeeds both files are there. -/
theorem tdxDataOpenFiles_spec (f : OpenFaults) {files : Files} (hok : files.Ok)
    (data : GroupData) :
    Kept files (tdxDataOpenFiles f files data).2.1 ∧
      (tdxDataOpenFiles f files data).2.2.refcount = data.refcount ∧
      ((tdxDataOpenFiles f files data).1 = true →
        (tdxDataOpenFiles f files data).2.1.Whole) := by
  have hidx := fileOpenIndex_spec hok f.openIdx f.fstatIdx .IDX
    { data with index := none, data := none }
  unfold tdxDataOpenFiles
  dsimp only
  rcases hi : fileOpenIndex f.openIdx f.fstatIdx .IDX files
    { data with index := none, data := none } with ⟨_ | _, files₁, data₁⟩
  · rw [hi] at hidx
    exact ⟨hidx.1, hidx.2, fun h => absurd h Bool.false_ne_true⟩
  · obtain ⟨inode, opened, hopened, heq⟩ :=
      fileOpenIndex_true (congrArg Prod.fst hi)
    rw [hi] at hidx heq
    obtain rfl : files₁ = opened := congrArg (fun r => r.2.1) heq
    have hdat := fileOpenData_spec hidx.1.ok f.openDat .DAT data₁
    dsimp only
    rcases hd : fileOpenData f.openDat .DAT files₁ data₁ with ⟨_ | _, files₂, data₂⟩
    · rw [hd] at hdat
      exact ⟨hidx.1.trans hdat.1, hdat.2.trans hidx.2, fun h => absurd h Bool.false_ne_true⟩
    · rw [hd] at hdat
      refine ⟨hidx.1.trans hdat.1, hdat.2.trans hidx.2, fun _ => ⟨?_, ?_⟩⟩
      · obtain ⟨i, hi'⟩ := Option.ne_none_iff_exists'.mp hopened.dir_ne
        exact (hdat.1.pair.idx i hi').1 ▸ Option.some_ne_none _
      · obtain ⟨inode', opened', hopened', heq'⟩ := fileOpenData_true (congrArg Prod.fst hd)
        rw [hd] at heq'
        obtain rfl : files₂ = opened' := congrArg (fun r => r.2.1) heq'
        exact hopened'.dir_ne

/-- `tdx_data_open`: the old pair stays; what it returns is used by nobody else. -/
theorem tdxDataOpen_spec (first second : OpenFaults) {files : Files} (hok : files.Ok)
    (entry : GroupEntry) :
    Kept files (tdxDataOpen first second files entry).2 ∧
      ∀ data, (tdxDataOpen first second files entry).1 = some data →
        data.refcount = 0 ∧ (tdxDataOpen first second files entry).2.Whole := by
  obtain ⟨hkept, hcount, hwhole⟩ := tdxDataOpenFiles_spec first hok (tdxDataNew true)
  unfold tdxDataOpen
  dsimp only
  by_cases hopened : (tdxDataOpenFiles first files (tdxDataNew true)).1 = false
  · rw [if_pos hopened]
    exact ⟨hkept, fun data h => absurd h (Option.some_ne_none _).symm⟩
  rw [if_neg hopened]
  by_cases hinode :
      entry.indexinode ≠ (tdxDataOpenFiles first files (tdxDataNew true)).2.2.indexinode
  · rw [if_pos hinode]
    obtain ⟨hkept', hcount', hwhole'⟩ := tdxDataOpenFiles_spec second hkept.ok
      (tdxDataOpenFiles first files (tdxDataNew true)).2.2
    split
    · exact ⟨hkept.trans hkept', fun data h => absurd h (Option.some_ne_none _).symm⟩
    · rename_i hagain
      refine ⟨hkept.trans hkept', fun data h => ?_⟩
      rw [← Option.some.inj h]
      exact ⟨hcount'.trans hcount, hwhole' (Bool.of_not_eq_false hagain)⟩
  · rw [if_neg hinode]
    refine ⟨hkept, fun data h => ?_⟩
    rw [← Option.some.inj h]
    exact ⟨hcount, hwhole (Bool.of_not_eq_false hopened)⟩

/-! ## Building the new files -/

/-- Only the contents of one index and of one data file change. -/
structure Wrote (idx dat : ℕ) (before after : Files) : Prop where
  dir : after.dir = before.dir
  fresh : after.fresh = before.fresh
  idx_ne : ∀ i, i ≠ idx → after.idx i = before.idx i
  dat_ne : ∀ i, i ≠ dat → after.dat i = before.dat i

theorem Wrote.trans {idx dat : ℕ} {a b c : Files} (h : Wrote idx dat a b)
    (h' : Wrote idx dat b c) : Wrote idx dat a c where
  dir := h'.dir.trans h.dir
  fresh := h'.fresh.trans h.fresh
  idx_ne := fun i hi => (h'.idx_ne i hi).trans (h.idx_ne i hi)
  dat_ne := fun i hi => (h'.dat_ne i hi).trans (h.dat_ne i hi)

theorem Wrote.refl {idx dat : ℕ} {files : Files} : Wrote idx dat files files :=
  ⟨rfl, rfl, fun _ _ => rfl, fun _ _ => rfl⟩

/-- Writing to other files than the group's keeps the old pair. -/
theorem Wrote.kept {idx dat : ℕ} {before after : Files} (h : Wrote idx dat before after)
    (hok : before.Ok) (hidx : before.dir .IDX ≠ some idx) (hdat : before.dir .DAT ≠ some dat) :
    Kept before after := by
  constructor
  · constructor
    · rw [h.dir, h.fresh]
      exact hok.lt
    · rw [h.dir]
      exact hok.inj
  · refine ⟨fun i hi => ?_, fun i hi => ?_, fun hno i hi => ?_, fun hno i hi => ?_⟩
    · refine ⟨h.dir ▸ hi, h.idx_ne i ?_⟩
      rintro rfl
      exact hidx hi
    · refine ⟨h.dir ▸ hi, h.dat_ne i ?_⟩
      rintro rfl
      exact hdat hi
    · rw [h.dir] at hi
      exact absurd (hno.symm.trans hi) (Option.some_ne_none _).symm
    · rw [h.dir] at hi
      exact absurd (hno.symm.trans hi) (Option.some_ne_none _).symm

theorem tdxDataStore_wrote (f : StoreFaults) (files : Files) {data : GroupData}
    (article : Article) {idx dat : ℕ} (hidx : data.indexfd = some idx)
    (hdat : data.datafd = some dat) :
    Wrote idx dat files (tdxDataStore f files data article).2.1 ∧
      (tdxDataStore f files data article).2.2.indexfd = some idx ∧
      (tdxDataStore f files data article).2.2.datafd = some dat := by
  have hwrite : ∀ base : ℕ, Wrote idx dat files
      (storeWrite f files { data with base := base } article).2.1 ∧
      (storeWrite f files { data with base := base } article).2.2 =
        { data with base := base } := by
    intro base
    unfold storeWrite
    rw [hdat, hidx]
    dsimp only
    split
    · exact ⟨⟨rfl, rfl, fun _ _ => rfl, fun i hi => update_of_ne hi _ _⟩, rfl⟩
    · exact ⟨⟨rfl, rfl, fun i hi => update_of_ne hi _ _, fun i hi => update_of_ne hi _ _⟩, rfl⟩
  unfold tdxDataStore
  split
  · exact ⟨Wrote.refl, hidx, hdat⟩
  by_cases hbase : data.base = 0
  · rw [if_pos hbase]
    dsimp only
    split
    · exact ⟨Wrote.refl, hidx, hdat⟩
    · obtain ⟨hwrote, heq⟩ := hwrite (indexBase article.number)
      rw [heq]
      exact ⟨hwrote, hidx, hdat⟩
  · rw [if_neg hbase]
    dsimp only
    split
    · exact ⟨Wrote.refl, hidx, hdat⟩
    · obtain ⟨hwrote, heq⟩ := hwrite data.base
      rw [heq]
      exact ⟨hwrote, hidx, hdat⟩

theorem tdxSearch_refcount (files : Files) (data : GroupData) (search : Search) :
    (tdxSearch files data search).2.2.refcount = data.refcount := by
  unfold tdxSearch
  split
  · dsimp only
    split
    · rfl
    · split
      · rfl
      · split
        · rfl
        · rfl
  · rfl

/-- The loop writes to the new files only, and leaves the reference count alone. -/
theorem expireLoop_spec (keep : Article → Bool) (store : ℕ → StoreFaults) (fuel : ℕ)
    (files : Files) (data : GroupData) (search : Search) (newData : GroupData)
    (new : GroupEntry) {idx dat : ℕ} (hidx : newData.indexfd = some idx)
    (hdat : newData.datafd = some dat) :
    Wrote idx dat files (expireLoop keep store fuel files data search newData new).2.1 ∧
      (expireLoop keep store fuel files data search newData new).2.2.1.refcount =
        data.refcount := by
  induction fuel generalizing files data search newData new with
  | zero => exact ⟨Wrote.refl, rfl⟩
  | succ fuel ih =>
    have hcount := tdxSearch_refcount files data search
    unfold expireLoop
    generalize tdxSearch files data search = found at hcount ⊢
    rcases found with ⟨_ | article, search', data'⟩
    · exact ⟨Wrote.refl, hcount⟩
    · dsimp only at hcount ⊢
      rw [← hcount]
      by_cases hkeep : keep article = true
      · rw [if_pos hkeep]
        obtain ⟨hwrote, hidx', hdat'⟩ :=
          tdxDataStore_wrote (store article.number) files article hidx hdat
        generalize tdxDataStore (store article.number) files newData article = stored
          at hwrote hidx' hdat' ⊢
        rcases stored with ⟨_ | _, files', newData'⟩
        · exact ⟨hwrote, rfl⟩
        · dsimp only at hwrote hidx' hdat' ⊢
          obtain ⟨hrest, hsame⟩ := ih files' data' search' _ _ hidx' hdat'
          exact ⟨hwrote.trans hrest, hsame⟩
      · rw [if_neg hkeep]
        exact ih files data' search' newData new hidx hdat

theorem mapIndex_refcount (f : MapFaults) (files : Files) (data : GroupData) :
    (mapIndex f files data).2.refcount = data.refcount := by
  unfold mapIndex
  split
  · rfl
  · split
    · rfl
    · dsimp only
      split
      · rfl
      · split
        · rfl
        · rfl

theorem mapData_refcount (f : MapFaults) (files : Files) (data : GroupData) :
    (mapData f files data).2.refcount = data.refcount := by
  unfold mapData
  split
  · rfl
  · split
    · rfl
    · dsimp only
      split
      · rfl
      · split
        · rfl
        · rfl

theorem needIndex_refcount (f : MapFaults) (files : Files) (data : GroupData) :
    (needIndex f files data).2.refcount = data.refcount := by
  unfold needIndex
  split
  · exact mapIndex_refcount ..
  · rfl

theorem needData_refcount (f : MapFaults) (files : Files) (data : GroupData) :
    (needData f files data).2.refcount = data.refcount := by
  unfold needData
  split
  · exact mapData_refcount ..
  · rfl

theorem remapSearch_refcount (f : MapFaults) (files : Files) (data : GroupData)
    (stop high : ℕ) : (remapSearch f files data stop high).refcount = data.refcount := by
  unfold remapSearch
  split
  · exact mapIndex_refcount ..
  · rfl

/-- A search that is opened counts, one that is not does not. -/
theorem tdxSearchOpen_refcount (f : SearchFaults) (files : Files) (data : GroupData)
    (start stop high : ℕ) :
    (tdxSearchOpen f files data start stop high).2.refcount =
      data.refcount + (tdxSearchOpen f files data start stop high).1.isSome.toNat := by
  unfold tdxSearchOpen
  split
  · rfl
  split
  · rfl
  dsimp only
  have hremap := remapSearch_refcount f.remap files data stop high
  generalize remapSearch f.remap files data stop high = data₁ at hremap ⊢
  have hindex := (needIndex_refcount f.index files data₁).trans hremap
  have hdata := (needData_refcount f.data files (needIndex f.index files data₁).2).trans hindex
  split
  · exact hremap
  split
  · exact hindex
  split
  · exact hdata
  · exact congrArg (· + 1) hdata

/-- `expireCopy` with new files open: it writes to them only, it does not close the data it
reads, and the new files are there when it succeeds. -/
theorem expireCopy_spec (f : BuildFaults) (keep : Article → Bool) {files : Files}
    (hok : files.Ok) {data : GroupData} (newData : GroupData) (new : GroupEntry) {idx dat : ℕ}
    (hcount : data.refcount = 0) (hidx : newData.indexfd = some idx)
    (hdat : newData.datafd = some dat) (hnewIdx : files.dir .IDX_NEW = some idx)
    (hnewDat : files.dir .DAT_NEW = some dat) :
    Kept files (expireCopy f keep files data newData new).files ∧
      (expireCopy f keep files data newData new).closed = 0 ∧
      ((expireCopy f keep files data newData new).ok = true →
        (expireCopy f keep files data newData new).files.dir .IDX_NEW ≠ none ∧
        (expireCopy f keep files data newData new).files.dir .DAT_NEW ≠ none) := by
  have hne : files.dir .IDX ≠ some idx := fun h =>
    absurd (hok.inj _ _ _ h hnewIdx) (by decide)
  have hne' : files.dir .DAT ≠ some dat := fun h =>
    absurd (hok.inj _ _ _ h hnewDat) (by decide)
  unfold expireCopy
  dsimp only
  generalize (if 0 < new.high then new.high else data.base) = high
  have hopen := tdxSearchOpen_refcount f.search files
    { data with refcount := data.refcount + 1 } data.base high high
  generalize tdxSearchOpen f.search files { data with refcount := data.refcount + 1 } data.base
    high high = opened at hopen ⊢
  rcases opened with ⟨_ | search, data'⟩
  · exact ⟨tdxDataDeleteNew_kept hok f.undo, rfl, fun h => absurd h Bool.false_ne_true⟩
  · dsimp only at hopen ⊢
    obtain ⟨hwrote, hsame⟩ := expireLoop_spec keep f.store (data'.indexlen / ENTRY_SIZE + 1) files
      data' search { newData with high := high } { new with indexinode := newData.indexinode }
      hidx hdat
    have hkept := hwrote.kept hok hne hne'
    refine ⟨?_, ?_, fun hdone => ?_⟩
    · split
      · exact hkept
      · exact hkept.trans (tdxDataDeleteNew_kept hkept.ok f.undo)
    · -- one reference of the expire is left when the search is closed
      have htwo : data'.refcount = 2 := by rw [hopen, hcount]; rfl
      unfold tdxSearchClose
      rw [hsame, htwo]
      rfl
    · rw [if_pos hdone, hwrote.dir, hnewIdx, hnewDat]
      exact ⟨Option.some_ne_none _, Option.some_ne_none _⟩

theorem tdxDataExpireStart_spec (f : BuildFaults) (keep : Article → Bool) {files : Files}
    (hok : files.Ok) {data : GroupData} (new : GroupEntry) (hcount : data.refcount = 0) :
    Kept files (tdxDataExpireStart f keep files data new).files ∧
      (tdxDataExpireStart f keep files data new).closed = 0 ∧
      ((tdxDataExpireStart f keep files data new).ok = true →
        (tdxDataExpireStart f keep files data new).files.dir .IDX_NEW ≠ none ∧
        (tdxDataExpireStart f keep files data new).files.dir .DAT_NEW ≠ none) := by
  have hdelete := tdxDataDeleteNew_kept hok f.delete
  have hidx := fileOpenIndex_spec hdelete.ok f.openIdx f.fstatIdx .IDX_NEW (tdxDataNew true)
  unfold tdxDataExpireStart
  dsimp only
  split
  · exact ⟨hdelete.trans (hidx.1.trans (tdxDataDeleteNew_kept hidx.1.ok f.undo)), rfl,
      fun h => absurd h Bool.false_ne_true⟩
  rename_i hopen
  obtain ⟨idx, opened, hopened, heq⟩ := fileOpenIndex_true (Bool.of_not_eq_false hopen)
  rw [heq] at hidx ⊢
  dsimp only at hidx ⊢
  have hkept := hdelete.trans hidx.1
  have hdat := fileOpenData_spec hidx.1.ok f.openDat .DAT_NEW
    { tdxDataNew true with indexfd := some idx, indexinode := idx }
  split
  · exact ⟨hkept.trans (hdat.1.trans (tdxDataDeleteNew_kept hdat.1.ok f.undo)), rfl,
      fun h => absurd h Bool.false_ne_true⟩
  rename_i hopenDat
  obtain ⟨dat, opened', hopened', heq'⟩ := fileOpenData_true (Bool.of_not_eq_false hopenDat)
  rw [heq'] at hdat ⊢
  dsimp only at hdat ⊢
  have hnew : opened'.dir .IDX_NEW = some idx := by
    rw [hopened'.dir, update_of_ne (by decide), hopened.dir, update_self]
  have hnew' : opened'.dir .DAT_NEW = some dat := by rw [hopened'.dir, update_self]
  obtain ⟨hcopy, hclosed, hthere⟩ := expireCopy_spec f keep hdat.1.ok
    { tdxDataNew true with indexfd := some idx, indexinode := idx, datafd := some dat } new
    hcount rfl rfl hnew hnew'
  exact ⟨hkept.trans (hdat.1.trans hcopy), hclosed, hthere⟩

/-! ## Moving the new files into place -/

theorem rename_eq {files : Files} {old : Suffix} (h : files.dir old ≠ none) (fails : Bool)
    (new : Suffix) : (rename fails files old new).1 = !fails := by
  obtain ⟨inode, hdir⟩ := Option.ne_none_iff_exists'.mp h
  unfold rename
  rw [hdir]
  cases fails with
  | false => rfl
  | true => rfl

theorem rename_fails (files : Files) (old new : Suffix) :
    (rename true files old new).1 = false := by
  unfold rename
  split
  · rfl
  · rfl

/-- `tdx_data_rebuild_finish` fails when one of the three renames does. -/
theorem tdxDataRebuildFinish_fails {f : RenameFaults} (files : Files) (h : f.Any) :
    (tdxDataRebuildFinish f files).1 = false := by
  unfold tdxDataRebuildFinish
  dsimp only
  by_cases hsave : (rename f.saveIdx files .IDX .IDX_BAK).1 = false
  · rw [if_pos hsave]
  rw [if_neg hsave]
  generalize (rename f.saveIdx files .IDX .IDX_BAK).2 = saved
  by_cases hnew : (rename f.newIdx saved .IDX_NEW .IDX).1 = false
  · rw [if_pos hnew]
  rw [if_neg hnew]
  generalize hidx : (rename f.newIdx saved .IDX_NEW .IDX).2 = idx
  rcases h with h | h | h
  · rw [h] at hsave
    exact absurd (rename_fails ..) hsave
  · rw [h] at hnew
    exact absurd (rename_fails ..) hnew
  · rw [h, if_pos (rename_fails ..)]

/-- A rename takes no other name away than the old one. -/
theorem rename_dir_ne {files : Files} {name : Suffix} (h : files.dir name ≠ none)
    (fails : Bool) {old : Suffix} (new : Suffix) (hne : name ≠ old) :
    (rename fails files old new).2.dir name ≠ none := by
  unfold rename
  split
  · exact h
  · split
    · exact h
    · dsimp only
      rw [update_of_ne hne]
      by_cases hname : name = new
      · rw [hname, update_self]
        exact Option.some_ne_none _
      · rwa [update_of_ne hname]

/-- With the new files there, it succeeds when none does. -/
theorem tdxDataRebuildFinish_ok {f : RenameFaults} {files : Files} (hidx : files.dir .IDX ≠ none)
    (hnew : files.dir .IDX_NEW ≠ none) (hdat : files.dir .DAT_NEW ≠ none) (h : ¬f.Any) :
    (tdxDataRebuildFinish f files).1 = true := by
  have hf : f.saveIdx = false := Bool.of_not_eq_true fun h' => h (.inl h')
  have hf' : f.newIdx = false := Bool.of_not_eq_true fun h' => h (.inr (.inl h'))
  have hf'' : f.newDat = false := Bool.of_not_eq_true fun h' => h (.inr (.inr h'))
  have hsaved : ∀ {name}, files.dir name ≠ none → name ≠ .IDX →
      (rename f.saveIdx files .IDX .IDX_BAK).2.dir name ≠ none :=
    fun h' hne => rename_dir_ne h' f.saveIdx .IDX_BAK hne
  have hnew' := hsaved hnew (by decide)
  have hdat' : (rename f.newIdx (rename f.saveIdx files .IDX .IDX_BAK).2 .IDX_NEW .IDX).2.dir
      .DAT_NEW ≠ none := rename_dir_ne (hsaved hdat (by decide)) f.newIdx .IDX (by decide)
  unfold tdxDataRebuildFinish
  dsimp only
  rw [if_neg, if_neg, if_neg]
  · rw [rename_eq hdat', hf'']
    decide
  · rw [rename_eq hnew', hf']
    decide
  · rw [rename_eq hidx, hf]
    decide

/-! ## Closing once -/

/-- `tdx_expire` gets to the point where the new files are built. -/
def Builds (f : ExpireFaults) (keep : Article → Bool) (files : Files)
    (entry : Option GroupEntry) : Prop :=
  f.index = false ∧ ∃ old data opened, entry = some old ∧
    tdxDataOpen f.first f.second files old = (some data, opened) ∧
    (tdxDataExpireStart f.build keep opened data
      { old with low := 0, count := 0, base := 0 }).ok = true

/-- What is asked of `tdx_expire`: it has closed what it opened once, and when it fails the
group is the old one. -/
structure Closes (files : Files) (entry : Option GroupEntry) (r : Expired) : Prop where
  once : r.closed = r.opened
  entry : r.ok = false → r.entry = entry
  pair : r.ok = false → OldPair files r.files

/-- `tdx_expire` closes the `group_data` it opened exactly once, and leaves group entry and
files alone when it fails, but for one case: a rename fails once the new files are built. -/
theorem expire_closes_once_iff (f : ExpireFaults) (keep : Article → Bool) {files : Files}
    (hok : files.Ok) (entry : Option GroupEntry) :
    Closes files entry (tdxExpire f keep files entry) ↔
      ¬(Builds f keep files entry ∧ f.finish.Any) := by
  unfold tdxExpire
  by_cases hindex : f.index = true
  · rw [if_pos hindex]
    refine iff_of_true ⟨rfl, fun _ => rfl, fun _ => OldPair.refl⟩ ?_
    rintro ⟨⟨hno, -⟩, -⟩
    exact absurd (hindex.symm.trans hno) (by decide)
  rw [if_neg hindex]
  cases entry with
  | none =>
    refine iff_of_true ⟨rfl, fun _ => rfl, fun _ => OldPair.refl⟩ ?_
    rintro ⟨⟨-, old, data, opened, hno, -⟩, -⟩
    cases hno
  | some old =>
    obtain ⟨hopen, hdata⟩ := tdxDataOpen_spec f.first f.second hok old
    dsimp only
    rcases hopened : tdxDataOpen f.first f.second files old with ⟨_ | data, opened⟩
    · rw [hopened] at hopen
      refine iff_of_true ⟨rfl, fun _ => rfl, fun _ => hopen.pair⟩ ?_
      rintro ⟨⟨-, old', data, opened', hold, heq, -⟩, -⟩
      obtain rfl : old = old' := Option.some.inj hold
      rw [hopened] at heq
      cases heq
    · rw [hopened] at hopen hdata
      obtain ⟨hcount, hwhole⟩ := hdata data rfl
      obtain ⟨hbuild, hclosed, hthere⟩ := tdxDataExpireStart_spec f.build keep hopen.ok
        { old with low := 0, count := 0, base := 0 } hcount
      have hbuilds : Builds f keep files (some old) ↔
          (tdxDataExpireStart f.build keep opened data
            { old with low := 0, count := 0, base := 0 }).ok = true := by
        constructor
        · rintro ⟨-, old', data', opened', hold, heq, hdone⟩
          obtain rfl : old = old' := Option.some.inj hold
          rw [hopened] at heq
          cases heq
          exact hdone
        · intro hdone
          exact ⟨Bool.of_not_eq_true hindex, old, data, opened, rfl, hopened, hdone⟩
      rw [hbuilds]
      dsimp only at hbuild hclosed hthere hwhole ⊢
      generalize tdxDataExpireStart f.build keep opened data
        { old with low := 0, count := 0, base := 0 } = built at hbuild hclosed hthere ⊢
      by_cases hdone : built.ok = false
      · rw [if_pos hdone]
        refine iff_of_true ⟨?_, fun _ => rfl, fun _ => (hopen.trans hbuild).pair⟩ ?_
        · exact congrArg (· + 1) hclosed
        · rw [hdone]
          rintro ⟨hno, -⟩
          exact absurd hno Bool.false_ne_true
      · rw [if_neg hdone]
        have hdone := Bool.of_not_eq_false hdone
        obtain ⟨hnew, hdat⟩ := hthere hdone
        unfold expireFinish
        dsimp only
        by_cases hany : f.finish.Any
        · -- closed before the renames, and once more at the label
          rw [if_pos (tdxDataRebuildFinish_fails _ hany)]
          refine iff_of_false (fun h => ?_) fun h => h ⟨hdone, hany⟩
          have hone : built.closed + 1 + 1 = 1 := h.once
          omega
        · have hmoved := tdxDataRebuildFinish_ok (hbuild.whole hwhole).1 hnew hdat hany
          rw [hmoved, if_neg (by decide)]
          refine iff_of_true ⟨?_, fun h => absurd h ?_, fun h => absurd h ?_⟩ fun h => hany h.2
          · exact congrArg (· + 1) hclosed
          · exact fun h => Bool.false_ne_true h.symm
          · exact fun h => Bool.false_ne_true h.symm

/-- A group whose index and data files are empty. -/
def emptyGroup : Files where
  dir := fun name => if name = .IDX then some 1 else if name = .DAT then some 2 else none
  idx := fun _ => []
  dat := fun _ => []
  fresh := 3

theorem emptyGroup_ok : emptyGroup.Ok where
  lt := by
    intro name inode h
    cases name with
    | IDX => cases h; decide
    | DAT => cases h; decide
    | IDX_NEW => cases h
    | DAT_NEW => cases h
    | IDX_BAK => cases h
  inj := by
    intro name name' inode h h'
    cases name with
    | IDX => cases h; cases name' <;> first | rfl | cases h'
    | DAT => cases h; cases name' <;> first | rfl | cases h'
    | IDX_NEW => cases h
    | DAT_NEW => cases h
    | IDX_BAK => cases h

/-- No call fails but perhaps the rename of the old index. -/
def saveFaults (saveIdx : Bool) : ExpireFaults where
  index := false
  first := ⟨false, false, false⟩
  second := ⟨false, false, false⟩
  build := ⟨(false, false), false, false, false, ⟨⟨false, false⟩, ⟨false, false⟩, ⟨false, false⟩⟩,
    fun _ => ⟨none, false, none⟩, (false, false)⟩
  finish := ⟨saveIdx, false, false, false, false⟩

/-- The group's entry. -/
def emptyGroupEntry : GroupEntry := { (0 : GroupEntry) with indexinode := 1 }

theorem expire_closes_once_empty :
    Closes emptyGroup (some emptyGroupEntry)
      (tdxExpire (saveFaults false) (fun _ => true) emptyGroup (some emptyGroupEntry)) := by
  refine (expire_closes_once_iff (saveFaults false) (fun _ => true) emptyGroup_ok
    (some emptyGroupEntry)).mpr ?_
  rintro ⟨-, h | h | h⟩
  · cases h
  · cases h
  · cases h

/-- The first rename fails, and the data is closed twice. -/
theorem rename_failure_closes_twice :
    (tdxExpire (saveFaults true) (fun _ => true) emptyGroup (some emptyGroupEntry)).opened = 1 ∧
    (tdxExpire (saveFaults true) (fun _ => true) emptyGroup (some emptyGroupEntry)).closed = 2 ∧
    ¬Closes emptyGroup (some emptyGroupEntry)
      (tdxExpire (saveFaults true) (fun _ => true) emptyGroup (some emptyGroupEntry)) := by
  refine ⟨rfl, rfl, fun h => ?_⟩
  exact absurd h.once (by decide)

end Inn.Tradindexed.Faults
