import Inn.Rules
import Inn.Tradindexed.Store

/-!
# Inn.Tradindexed.Marks — the water marks over adds, cancels and expires

Any number of writers hold the files of the group open, and `tdx_expire` runs
between their calls. `KeepsMarks` says that the high mark in the group entry never
goes back, that the low mark does not go back in an expire, and that an expire of
an empty group changes neither.

When nothing survives, `tdx_expire` sets `low` to the old high mark and `high` to
one less, so every expire of an empty group takes the high mark down by one. The
marks are kept in the runs where every expire keeps an article or finds the marks
of a group that never had one (`ExpireSafe`).
-/

namespace Inn.Tradindexed

open Function (update update_self update_of_ne)

/-- The group on disk, and the `group_data` that writers have open. -/
structure GroupState (Handle : Type*) where
  disk : Disk
  entry : GroupEntry
  handles : Handle → Option GroupData

/-- A call with its result; `keep` is what an expire keeps. -/
inductive DataAct (Handle : Type*) where
  | dataOpen (h : Handle)
  | dataClose (h : Handle)
  | add (h : Handle) (article : Article) (ok : Bool)
  | cancel (h : Handle) (artnum : ℕ) (ok : Bool)
  | expire (keep : Article → Bool)

/-- The group after `tdx_expire`, which may have failed. -/
def GroupState.expired {Handle : Type*} (s : GroupState Handle)
    (result : Option (Disk × GroupEntry)) : GroupState Handle :=
  match result with
  | none => s
  | some (disk, entry) => { s with disk := disk, entry := entry }

variable {Handle : Type*} [DecidableEq Handle]

/-- One call. -/
def DataNext (s : GroupState Handle) (act : DataAct Handle) (s' : GroupState Handle) : Prop :=
  match act with
  | .dataOpen h => s' = { s with handles := update s.handles h (some (tdxDataOpen s.disk s.entry)) }
  | .dataClose h => s' = { s with handles := update s.handles h none }
  | .add h article ok =>
    ∃ data disk entry data', s.handles h = some data ∧
      tdxDataAdd s.disk s.entry data article = (ok, disk, entry, data') ∧
      s' = { disk := disk, entry := entry, handles := update s.handles h (some data') }
  | .cancel h artnum ok =>
    ∃ data disk, s.handles h = some data ∧ tdxDataCancel s.disk data artnum = (ok, disk) ∧
      s' = { s with disk := disk }
  | .expire keep => s' = s.expired (tdxExpire keep s.disk s.entry)

/-- The `i`th index entry on disk. -/
def GroupState.record (s : GroupState Handle) (i : ℕ) : IndexEntry :=
  recordAt (s.disk.idx s.disk.idxFile) i

/-- The group as `tdx_index_add` leaves it. -/
structure NewGroup (s : GroupState Handle) : Prop where
  low : 1 ≤ s.entry.low
  base : s.entry.base = 0
  inode : s.entry.indexinode = s.disk.idxFile
  idx : s.disk.idx s.disk.idxFile = []
  idx_lt : s.disk.idxFile < s.disk.fresh
  dat_lt : s.disk.datFile < s.disk.fresh
  handles : ∀ h, s.handles h = none

/-- In every run the high mark never decreases, the low mark never decreases in
an expire, and an expire of a group without articles changes neither. -/
def KeepsMarks (next : GroupState Handle → DataAct Handle → GroupState Handle → Prop) : Prop :=
  ∀ s₀, NewGroup s₀ → ∀ acts s, Steps next s₀ acts s → ∀ act s', next s act s' →
    s.entry.high ≤ s'.entry.high ∧
    ∀ keep, act = .expire keep → s.entry.low ≤ s'.entry.low ∧
      ((∀ i, (s.record i).length = 0) →
        s'.entry.low = s.entry.low ∧ s'.entry.high = s.entry.high)

/-- Where `tdx_data_expire_start` searches: from the base up to the high mark. -/
def GroupState.Searched (s : GroupState Handle) (i : ℕ) : Prop :=
  s.entry.base + i ≤ if 0 < s.entry.high then s.entry.high else s.entry.base

/-- The expire keeps an article. -/
def GroupState.Keeps (s : GroupState Handle) (keep : Article → Bool) : Prop :=
  ∃ i, s.Searched i ∧ (s.record i).length ≠ 0 ∧
    keep ((s.record i).article (s.disk.dat s.disk.datFile) (i + s.entry.base)) = true

/-- An expire keeps an article or has the marks of a group that never had one; an
add stores a number from 1 on through a `group_data` with the base of the entry. -/
def ExpireSafe (s : GroupState Handle) : DataAct Handle → Prop
  | .expire keep => s.Keeps keep ∨ (s.entry.high = 0 ∧ s.entry.low = 1)
  | .add h article _ => 1 ≤ article.number ∧ ∀ data, s.handles h = some data →
      data.indexinode = s.entry.indexinode → data.base = s.entry.base
  | _ => True

/-! ## Entries on disk -/

/-- The non-empty entries of an index file are of articles from `low` on, with
their overview inside the data. -/
structure RecordsOk (file : List IndexEntry) (dat : List UInt8) (base low : ℕ) : Prop where
  base_ne : ∀ i, (recordAt file i).length ≠ 0 → base ≠ 0
  low_le : ∀ i, (recordAt file i).length ≠ 0 → low ≤ base + i
  within : ∀ i, (recordAt file i).Within dat.length

theorem recordsOk_nil (dat : List UInt8) (base low : ℕ) : RecordsOk [] dat base low where
  base_ne := by
    intro i h
    rw [recordAt_nil] at h
    exact absurd rfl h
  low_le := by
    intro i h
    rw [recordAt_nil] at h
    exact absurd rfl h
  within := by
    intro i h
    rw [recordAt_nil] at h
    exact absurd rfl h

namespace RecordsOk

variable {file : List IndexEntry} {dat : List UInt8} {base low : ℕ}

/-- Blanking an entry out. -/
theorem blank (h : RecordsOk file dat base low) (place : ℕ) :
    RecordsOk (pwrite file place 0) dat base low := by
  have hkeep : ∀ i, (recordAt (pwrite file place 0) i).length ≠ 0 →
      recordAt (pwrite file place 0) i = recordAt file i := by
    intro i hi
    rw [recordAt_pwrite] at hi ⊢
    split at hi
    · exact absurd rfl hi
    · rename_i hne
      rw [if_neg hne]
  refine ⟨?_, ?_, ?_⟩
  · intro i hi
    exact h.base_ne i (hkeep i hi ▸ hi)
  · intro i hi
    exact h.low_le i (hkeep i hi ▸ hi)
  · intro i hi
    rw [hkeep i hi]
    exact h.within i (hkeep i hi ▸ hi)

/-- Storing an article; a file with base 0 has no articles yet. -/
theorem store (h : RecordsOk file dat base low) {base' low' : ℕ} (place : ℕ)
    (article : Article) (hbase : base ≠ 0 → base' = base) (hbase' : base' ≠ 0)
    (hlow : base ≠ 0 → low' ≤ low) (hplace : low' ≤ base' + place) :
    RecordsOk (pwrite file place ⟨dat.length, article.overview.length, article.arrived,
      article.expires, article.token⟩) (dat ++ article.overview) base' low' := by
  refine ⟨fun _ _ => hbase', ?_, ?_⟩
  · intro i hi
    rw [recordAt_pwrite] at hi
    split at hi
    · rename_i heq
      rw [heq]
      exact hplace
    · rw [hbase (h.base_ne i hi)]
      exact (hlow (h.base_ne i hi)).trans (h.low_le i hi)
  · intro i
    rw [recordAt_pwrite, List.length_append]
    split
    · intro _
      exact le_refl _
    · intro hi
      exact (h.within i hi).trans (Nat.le_add_right _ _)

/-- Packing for a lower base. -/
theorem packed (h : RecordsOk file dat base low) {base' delta : ℕ} (hbase : base' + delta = base)
    (hpos : base' ≠ 0) : RecordsOk (packed file delta) dat base' low := by
  have hat : ∀ i, (recordAt (Tradindexed.packed file delta) i).length ≠ 0 →
      ∃ j, i = delta + j ∧ recordAt (Tradindexed.packed file delta) i = recordAt file j := by
    intro i hi
    rw [recordAt_packed] at hi ⊢
    split at hi
    · exact absurd rfl hi
    · rename_i hge
      rw [if_neg hge]
      exact ⟨i - delta, by omega, rfl⟩
  refine ⟨fun _ _ => hpos, ?_, ?_⟩
  · intro i hi
    obtain ⟨j, rfl, heq⟩ := hat i hi
    rw [heq] at hi
    have hlow := h.low_le j hi
    omega
  · intro i hi
    obtain ⟨j, rfl, heq⟩ := hat i hi
    rw [heq] at hi ⊢
    exact h.within j hi

end RecordsOk

/-! ## The invariant -/

/-- The descriptors of a `group_data` belong together. -/
structure HandleOk (disk : Disk) (data : GroupData) : Prop where
  idx_lt : data.indexfd < disk.fresh
  dat_lt : data.datafd < disk.fresh
  inode : data.indexinode = data.indexfd
  dat : data.indexfd = disk.idxFile → data.datafd = disk.datFile

/-- The group on disk is consistent, and so is every open `group_data`. -/
structure MarksInv (s : GroupState Handle) : Prop where
  low_pos : 1 ≤ s.entry.low
  inode : s.entry.indexinode = s.disk.idxFile
  idx_lt : s.disk.idxFile < s.disk.fresh
  dat_lt : s.disk.datFile < s.disk.fresh
  records : RecordsOk (s.disk.idx s.disk.idxFile) (s.disk.dat s.disk.datFile) s.entry.base
    s.entry.low
  handle : ∀ h data, s.handles h = some data → HandleOk s.disk data

omit [DecidableEq Handle] in
theorem NewGroup.inv {s : GroupState Handle} (h : NewGroup s) : MarksInv s where
  low_pos := h.low
  inode := h.inode
  idx_lt := h.idx_lt
  dat_lt := h.dat_lt
  records := by
    rw [h.idx]
    exact recordsOk_nil _ _ _
  handle := by
    intro i data hdata
    rw [h.handles i] at hdata
    cases hdata

/-- The files of a group after the names moved on, if at all, to fresh inodes. -/
theorem HandleOk.later {disk disk' : Disk} {data : GroupData} (h : HandleOk disk data)
    (hfresh : disk.fresh ≤ disk'.fresh)
    (hname : (disk'.idxFile = disk.idxFile ∧ disk'.datFile = disk.datFile) ∨
      disk'.idxFile = disk.fresh) : HandleOk disk' data where
  idx_lt := h.idx_lt.trans_le hfresh
  dat_lt := h.dat_lt.trans_le hfresh
  inode := h.inode
  dat := by
    intro heq
    rcases hname with ⟨hidx, hdat⟩ | hnew
    · rw [hdat]
      exact h.dat (heq.trans hidx)
    · have := h.idx_lt
      omega

theorem handles_update {disk : Disk} {handles : Handle → Option GroupData} {data : GroupData}
    (hall : ∀ h data, handles h = some data → HandleOk disk data) (hdata : HandleOk disk data)
    (h₀ : Handle) : ∀ h d, update handles h₀ (some data) h = some d → HandleOk disk d := by
  intro h d hd
  by_cases hh : h = h₀
  · subst hh
    rw [update_self] at hd
    cases hd
    exact hdata
  · rw [update_of_ne hh] at hd
    exact hall h d hd

/-! ## Adding an article -/

/-- The files and the descriptors `tdx_data_add` stores through, after reopening
and packing: they are current, and the base is the entry's and not too high. -/
structure Current (disk : Disk) (entry : GroupEntry) (data : GroupData) (n : ℕ) : Prop where
  indexfd : data.indexfd = disk.idxFile
  datafd : data.datafd = disk.datFile
  indexinode : data.indexinode = disk.idxFile
  inode : entry.indexinode = disk.idxFile
  base : data.base = entry.base
  base_le : entry.base ≤ n
  records : RecordsOk (disk.idx disk.idxFile) (disk.dat disk.datFile) entry.base entry.low

/-- Storing through current files: the marks take in the new number, and the files
stay consistent. -/
theorem addCurrent_spec {disk : Disk} {entry : GroupEntry} {data : GroupData} {article : Article}
    (hpos : 1 ≤ article.number) (hlow : 1 ≤ entry.low)
    (h : Current disk entry data article.number) :
    ∃ disk' entry' data', addCurrent disk entry data article = (true, disk', entry', data') ∧
      entry.high ≤ entry'.high ∧ 1 ≤ entry'.low ∧ entry'.indexinode = disk'.idxFile ∧
      disk'.idxFile = disk.idxFile ∧ disk'.datFile = disk.datFile ∧ disk'.fresh = disk.fresh ∧
      RecordsOk (disk'.idx disk'.idxFile) (disk'.dat disk'.datFile) entry'.base entry'.low ∧
      data'.indexfd = disk'.idxFile ∧ data'.datafd = disk'.datFile ∧
      data'.indexinode = disk'.idxFile := by
  have hbase : storeBase data article.number =
      if entry.base = 0 then indexBase article.number else entry.base := by
    rw [storeBase, h.base]
  have hle : storeBase data article.number ≤ article.number := by
    rw [hbase]
    split
    · exact indexBase_le hpos
    · exact h.base_le
  have hfields : ∀ d : GroupData,
      (if article.number < d.high then { d with remapoutoforder := true } else d).indexfd =
          d.indexfd ∧
        (if article.number < d.high then { d with remapoutoforder := true } else d).datafd =
          d.datafd ∧
        (if article.number < d.high then { d with remapoutoforder := true } else d).indexinode =
          d.indexinode := by
    intro d
    split <;> exact ⟨rfl, rfl, rfl⟩
  rw [addCurrent, tdxDataStore_of_le hle]
  refine ⟨_, _, _, rfl, ?_, ?_, h.inode, rfl, rfl, rfl, ?_, ?_, ?_, ?_⟩
  · show entry.high ≤ if entry.high < article.number then article.number else entry.high
    split <;> omega
  · show 1 ≤ if entry.low = 0 ∨ article.number < entry.low then article.number else entry.low
    split <;> omega
  · -- the new entry and the old ones
    have hidx : (stored disk data article).idx disk.idxFile =
        pwrite (disk.idx disk.idxFile) (article.number - storeBase data article.number)
          ⟨(disk.dat disk.datFile).length, article.overview.length, article.arrived,
            article.expires, article.token⟩ := by
      rw [← h.indexfd, ← h.datafd]
      exact idx_stored_self
    have hdat : (stored disk data article).dat disk.datFile =
        disk.dat disk.datFile ++ article.overview := by
      rw [← h.datafd]
      exact dat_stored_self
    show RecordsOk ((stored disk data article).idx disk.idxFile)
      ((stored disk data article).dat disk.datFile)
      (if entry.base = 0 then storeBase data article.number else entry.base)
      (if entry.low = 0 ∨ article.number < entry.low then article.number else entry.low)
    rw [hidx, hdat]
    refine h.records.store _ article ?_ ?_ ?_ ?_
    · intro hne
      rw [if_neg hne]
    · split
      · exact storeBase_pos data _
      · assumption
    · intro _
      split <;> omega
    · have hsame : (if entry.base = 0 then storeBase data article.number else entry.base) =
          storeBase data article.number := by
        rw [hbase]
        split
        · rfl
        · rfl
      rw [hsame]
      split <;> omega
  · exact (hfields _).1.trans h.indexfd
  · exact (hfields _).2.1.trans h.datafd
  · exact (hfields _).2.2.trans h.indexinode

omit [DecidableEq Handle] in
/-- After reopening, the descriptors are those of the files on disk. -/
theorem MarksInv.reopen {s : GroupState Handle} (hinv : MarksInv s) {h : Handle}
    {data : GroupData} (hdata : s.handles h = some data)
    (hbase : data.indexinode = s.entry.indexinode → data.base = s.entry.base) :
    ∃ data', (if s.entry.indexinode ≠ data.indexinode then
        { tdxDataOpenFiles s.disk data with base := s.entry.base }
      else data) = data' ∧ data'.indexfd = s.disk.idxFile ∧ data'.datafd = s.disk.datFile ∧
      data'.indexinode = s.disk.idxFile ∧ data'.base = s.entry.base := by
  by_cases hne : s.entry.indexinode = data.indexinode
  · have hok := hinv.handle h data hdata
    have hfd : data.indexfd = s.disk.idxFile := by
      rw [← hok.inode, ← hne, hinv.inode]
    rw [if_neg (not_not.mpr hne)]
    exact ⟨data, rfl, hfd, hok.dat hfd, hok.inode.trans hfd, hbase hne.symm⟩
  · rw [if_pos hne]
    exact ⟨_, rfl, rfl, rfl, rfl, rfl⟩

/-- An add keeps the invariant and does not lower the high mark. -/
theorem MarksInv.add {s : GroupState Handle} (hinv : MarksInv s) {h : Handle} {data : GroupData}
    (hdata : s.handles h = some data) {article : Article} (hpos : 1 ≤ article.number)
    (hbase : data.indexinode = s.entry.indexinode → data.base = s.entry.base) :
    ∃ disk entry data', tdxDataAdd s.disk s.entry data article = (true, disk, entry, data') ∧
      s.entry.high ≤ entry.high ∧
      MarksInv { disk := disk, entry := entry, handles := update s.handles h (some data') } := by
  obtain ⟨data₁, heq, hidx, hdat, hinode, hbase₁⟩ := hinv.reopen hdata hbase
  rw [tdxDataAdd_eq, heq]
  simp only []
  by_cases hlow : article.number < s.entry.base
  · -- packing makes a new index file with a base that is low enough
    have hlt : article.number < data₁.base := hbase₁ ▸ hlow
    rw [if_pos hlow, tdxDataPack_of_lt hlt]
    have hdelta : indexBase article.number + (data₁.base - indexBase article.number) =
        s.entry.base := by
      have hle := indexBase_le hpos
      omega
    obtain ⟨disk', entry', data', hres, hhigh, hlow', hin', hidx', hdat', hfresh', hrec', hfd',
      hdfd', hino'⟩ := @addCurrent_spec (repacked s.disk data₁ article.number)
        { s.entry with indexinode := s.disk.fresh, base := indexBase article.number }
        { mapIndex s.disk { data₁ with index := none } with
          base := indexBase article.number, indexinode := s.disk.fresh, indexfd := s.disk.fresh } article
        hpos hinv.low_pos
        { indexfd := rfl
          datafd := hdat
          indexinode := rfl
          inode := rfl
          base := rfl
          base_le := indexBase_le hpos
          records := by
            show RecordsOk (update s.disk.idx s.disk.fresh _ s.disk.fresh) _ _ _
            rw [update_self, hidx]
            exact hinv.records.packed hdelta (indexBase_pos _) }
    refine ⟨disk', entry', data', hres, hhigh, ?_⟩
    have hf : disk'.fresh = s.disk.fresh + 1 := hfresh'
    have hi : disk'.idxFile = s.disk.fresh := hidx'
    have hd : disk'.datFile = s.disk.datFile := hdat'
    have hdl := hinv.dat_lt
    refine ⟨hlow', hin', by show disk'.idxFile < disk'.fresh; omega,
      by show disk'.datFile < disk'.fresh; omega, hrec', ?_⟩
    refine handles_update ?_ ⟨by omega, by omega, hino'.trans hfd'.symm, fun _ => hdfd'⟩ h
    exact fun i d hd => (hinv.handle i d hd).later (by omega) (.inr hi)
  · rw [if_neg hlow]
    obtain ⟨disk', entry', data', hres, hhigh, hlow', hin', hidx', hdat', hfresh', hrec', hfd',
      hdfd', hino'⟩ := addCurrent_spec hpos
        hinv.low_pos ⟨hidx, hdat, hinode, hinv.inode, hbase₁, by omega, hinv.records⟩
    refine ⟨disk', entry', data', hres, hhigh, ?_⟩
    have hil := hinv.idx_lt
    have hdl := hinv.dat_lt
    refine ⟨hlow', hin', by show disk'.idxFile < disk'.fresh; omega,
      by show disk'.datFile < disk'.fresh; omega, hrec', ?_⟩
    refine handles_update ?_ ⟨by omega, by omega, hino'.trans hfd'.symm, fun _ => hdfd'⟩ h
    exact fun i d hd => (hinv.handle i d hd).later (by omega) (.inl ⟨hidx', hdat'⟩)

/-! ## Cancelling an article -/

omit [DecidableEq Handle] in
/-- A cancel blanks an entry of some index file, if anything. -/
theorem MarksInv.cancel {s : GroupState Handle} (hinv : MarksInv s) {data : GroupData} {n : ℕ}
    {ok : Bool} {disk : Disk} (heq : tdxDataCancel s.disk data n = (ok, disk)) :
    MarksInv { s with disk := disk } := by
  unfold tdxDataCancel at heq
  split at heq
  · cases heq
    exact hinv
  · cases heq
    refine ⟨hinv.low_pos, hinv.inode, hinv.idx_lt, hinv.dat_lt, ?_, ?_⟩
    · show RecordsOk (update s.disk.idx data.indexfd _ s.disk.idxFile) _ _ _
      by_cases hfd : s.disk.idxFile = data.indexfd
      · rw [hfd, update_self]
        have hrec := hinv.records
        rw [hfd] at hrec
        exact hrec.blank _
      · rw [update_of_ne hfd]
        exact hinv.records
    · intro h d hd
      have hok := hinv.handle h d hd
      exact ⟨hok.idx_lt, hok.dat_lt, hok.inode, hok.dat⟩

/-! ## Expiring -/

/-- An entry the search still has ahead, of an article to keep. -/
def KeepsAhead (keep : Article → Bool) (file : List IndexEntry) (bytes : List UInt8)
    (data : GroupData) (search : Search) : Prop :=
  ∃ i, search.current ≤ i ∧ i ≤ search.limit ∧ i < data.indexlen ∧
    (recordAt file i).length ≠ 0 ∧
    keep ((recordAt file i).article bytes (i + data.base)) = true

/-- What the loop of an expire leaves, when it began with `new`: the new files
are consistent, and the marks are those of the articles kept. -/
structure Rebuilt (disk disk' : Disk) (inode : ℕ) (new new' : GroupEntry) (kept : Prop)
    (low : ℕ) : Prop where
  names : disk'.idxFile = disk.idxFile ∧ disk'.datFile = disk.datFile ∧ disk'.fresh = disk.fresh
  records : RecordsOk (disk'.idx inode) (disk'.dat inode) new'.base new'.low
  inode : new'.indexinode = new.indexinode
  high : new.high ≤ new'.high
  going : new.base ≠ 0 → new'.base ≠ 0 ∧ new'.low = new.low
  first : new.base = 0 → kept → new'.base ≠ 0 ∧ low ≤ new'.low
  none : new.base = 0 → ¬ kept → new'.base = 0 ∧ new'.low = new.low ∧ new'.high = new.high

/-- The state of the loop: what it has stored in the new files so far. -/
structure Rebuilding (disk : Disk) (inode : ℕ) (newData : GroupData) (new : GroupEntry)
    (number : ℕ) : Prop where
  indexfd : newData.indexfd = inode
  datafd : newData.datafd = inode
  base : newData.base = new.base
  base_le : new.base ≠ 0 → new.base ≤ new.low
  low_le : new.base ≠ 0 → new.low ≤ number
  records : RecordsOk (disk.idx inode) (disk.dat inode) new.base new.low

/-- The marks after one more article was kept. -/
def keptMarks (new : GroupEntry) (base n : ℕ) : GroupEntry :=
  let new := if new.base = 0 then { new with base := base, low := n } else new
  { new with high := if new.high < n then n else new.high, count := new.count + 1 }

theorem keptMarks_spec (new : GroupEntry) (base n : ℕ) :
    (keptMarks new base n).base = (if new.base = 0 then base else new.base) ∧
      (keptMarks new base n).low = (if new.base = 0 then n else new.low) ∧
      new.high ≤ (keptMarks new base n).high ∧
      (keptMarks new base n).indexinode = new.indexinode := by
  unfold keptMarks
  split
  · refine ⟨rfl, rfl, ?_, rfl⟩
    show new.high ≤ if new.high < n then n else new.high
    split <;> omega
  · refine ⟨rfl, rfl, ?_, rfl⟩
    show new.high ≤ if new.high < n then n else new.high
    split <;> omega

/-- Keeping an article stores it in the new files. -/
theorem Rebuilding.keep {disk : Disk} {inode : ℕ} {newData : GroupData} {new : GroupEntry}
    {number : ℕ} {article : Article} (h : Rebuilding disk inode newData new number)
    (hpos : 1 ≤ article.number) (hnumber : number ≤ article.number) :
    tdxDataStore disk newData article = (true, stored disk newData article,
        { newData with base := storeBase newData article.number }) ∧
      Rebuilding (stored disk newData article) inode
        { newData with base := storeBase newData article.number }
        (keptMarks new (storeBase newData article.number) article.number) (article.number + 1) := by
  have hbase : storeBase newData article.number =
      if new.base = 0 then indexBase article.number else new.base := by
    rw [storeBase, h.base]
  have hle : storeBase newData article.number ≤ article.number := by
    rw [hbase]
    split
    · exact indexBase_le hpos
    · rename_i hne
      exact ((h.base_le hne).trans (h.low_le hne)).trans hnumber
  obtain ⟨hb, hl, _, _⟩ := keptMarks_spec new (storeBase newData article.number) article.number
  have hb' : (keptMarks new (storeBase newData article.number) article.number).base =
      storeBase newData article.number := by
    rw [hb, hbase]
    split <;> rfl
  refine ⟨tdxDataStore_of_le hle, h.indexfd, h.datafd, hb'.symm, ?_, ?_, ?_⟩
  · intro _
    rw [hb', hl]
    split
    · exact hle
    · rename_i hne
      rw [hbase, if_neg hne]
      exact h.base_le hne
  · intro _
    rw [hl]
    split
    · omega
    · rename_i hne
      have := h.low_le hne
      omega
  · have hidx := @idx_stored_self disk newData article
    have hdat := @dat_stored_self disk newData article
    rw [h.indexfd, h.datafd] at hidx
    rw [h.datafd] at hdat
    rw [hidx, hdat, hb', hl]
    refine h.records.store _ article ?_ (storeBase_pos _ _) ?_ ?_
    · intro hne
      rw [hbase, if_neg hne]
    · intro hne
      rw [if_neg hne]
    · split
      · omega
      · rename_i hne
        have := h.low_le hne
        omega

/-- What is ahead of a search that has just skipped to the entry `c`. -/
theorem keepsAhead_iff {keep : Article → Bool} {file : List IndexEntry} {bytes : List UInt8}
    {data : GroupData} {search : Search} {c : ℕ} (hle : search.current ≤ c)
    (hlimit : c ≤ search.limit) (hlt : c < data.indexlen) (hlen : (recordAt file c).length ≠ 0)
    (hskip : ∀ i, search.current ≤ i → i < c → (recordAt file i).length = 0) :
    KeepsAhead keep file bytes data search ↔
      keep ((recordAt file c).article bytes (c + data.base)) = true ∨
        KeepsAhead keep file bytes data { search with current := c + 1 } := by
  constructor
  · rintro ⟨i, hlo, hil, hilt, hilen, hkeep⟩
    rcases Nat.lt_trichotomy i c with hic | rfl | hic
    · exact absurd (hskip i hlo hic) hilen
    · exact .inl hkeep
    · exact .inr ⟨i, hic, hil, hilt, hilen, hkeep⟩
  · rintro (hkeep | ⟨i, hlo, hrest⟩)
    · exact ⟨c, hle, hlimit, hlt, hlen, hkeep⟩
    · exact ⟨i, hle.trans (Nat.le_of_succ_le hlo), hrest⟩

/-- Nothing more to keep: the loop ends with what it has. -/
theorem Rebuilding.done {disk : Disk} {inode : ℕ} {newData : GroupData} {new : GroupEntry}
    {number low : ℕ} {kept : Prop} (h : Rebuilding disk inode newData new number)
    (hkept : ¬ kept) : Rebuilt disk disk inode new new kept low where
  names := ⟨rfl, rfl, rfl⟩
  records := h.records
  inode := rfl
  high := le_refl _
  going := fun hne => ⟨hne, rfl⟩
  first := fun _ hk => absurd hk hkept
  none := fun hzero _ => ⟨hzero, rfl, rfl⟩

/-- One article kept, and then the rest of the loop. -/
theorem Rebuilt.step {disk disk₁ disk' : Disk} {inode : ℕ} {new new' : GroupEntry}
    {kept kept' : Prop} {low base n : ℕ}
    (h : Rebuilt disk₁ disk' inode (keptMarks new base n) new' kept low) (hbase : base ≠ 0)
    (hlow : low ≤ n)
    (hnames : disk₁.idxFile = disk.idxFile ∧ disk₁.datFile = disk.datFile ∧
      disk₁.fresh = disk.fresh) (hkept : kept') :
    Rebuilt disk disk' inode new new' kept' low := by
  obtain ⟨hb, hl, hhigh, hino⟩ := keptMarks_spec new base n
  have hne : (keptMarks new base n).base ≠ 0 := by
    rw [hb]
    split
    · exact hbase
    · assumption
  obtain ⟨hbase', hlow'⟩ := h.going hne
  refine ⟨?_, h.records, h.inode.trans hino, hhigh.trans h.high, ?_, ?_, ?_⟩
  · exact ⟨h.names.1.trans hnames.1, h.names.2.1.trans hnames.2.1, h.names.2.2.trans hnames.2.2⟩
  · intro hnz
    rw [if_neg hnz] at hl
    exact ⟨hbase', hlow'.trans hl⟩
  · intro hzero _
    rw [if_pos hzero] at hl
    rw [hlow', hl]
    exact ⟨hbase', hlow⟩
  · intro _ hnot
    exact absurd hkept hnot

/-- The loop of an expire keeps the files consistent and never fails. -/
theorem expireLoop_spec {keep : Article → Bool} {fuel : ℕ} {disk : Disk} {data : GroupData}
    {search : Search} {newData : GroupData} {new : GroupEntry} {idx dat inode number low : ℕ}
    (hidx : data.index = some idx) (hdat : data.data = some dat)
    (hfresh : idx ≠ inode ∧ dat ≠ inode) (hcur : search.current ≤ data.indexlen)
    (hfuel : data.indexlen < fuel + search.current)
    (hin : ∀ i, search.current ≤ i → i ≤ search.limit → i < data.indexlen →
      (recordAt (disk.idx idx) i).Within data.datalen)
    (hlow : ∀ i, (recordAt (disk.idx idx) i).length ≠ 0 →
      1 ≤ i + data.base ∧ low ≤ i + data.base)
    (hnumber : number ≤ search.current + data.base)
    (hnew : Rebuilding disk inode newData new number) :
    ∃ disk' new', expireLoop keep fuel disk data search newData new = some (disk', new') ∧
      Rebuilt disk disk' inode new new'
        (KeepsAhead keep (disk.idx idx) (disk.dat dat) data search) low := by
  induction fuel generalizing disk search newData new number with
  | zero => omega
  | succ fuel ih =>
    rw [expireLoop]
    rcases tdxSearch_spec hidx hdat hin with ⟨c, hle, hlimit, hlt, hlen, hskip, heq⟩ |
      ⟨hempty, search', heq⟩
    · rw [heq]
      simp only []
      have hahead := @keepsAhead_iff keep _ (disk.dat dat) _ _ _ hle hlimit hlt hlen hskip
      have hin' : ∀ i, c + 1 ≤ i → i ≤ search.limit → i < data.indexlen →
          (recordAt (disk.idx idx) i).Within data.datalen :=
        fun i hlo => hin i (hle.trans (Nat.le_of_succ_le hlo))
      split
      · -- the article is kept
        rename_i hkeep
        obtain ⟨hpos, hge⟩ := hlow c hlen
        obtain ⟨hstore, hnew'⟩ := hnew.keep
          (show 1 ≤ ((recordAt (disk.idx idx) c).article (disk.dat dat) (c + data.base)).number from hpos)
          (hnumber.trans (Nat.add_le_add_right hle _))
        rw [hstore]
        simp only []
        have hsame : (stored disk newData ((recordAt (disk.idx idx) c).article (disk.dat dat)
            (c + data.base))).idx idx = disk.idx idx :=
          idx_stored_of_ne (by rw [hnew.indexfd]; exact hfresh.1)
        obtain ⟨disk', new', hres, hrebuilt⟩ := @ih _ { search with current := c + 1 } _ _ _
          (Nat.succ_le_of_lt hlt) (by simp only; omega) (by rw [hsame]; exact hin')
          (by rw [hsame]; exact hlow) (by
            show c + data.base + 1 ≤ c + 1 + data.base
            omega) hnew'
        exact ⟨disk', new', hres, hrebuilt.step (storeBase_pos _ _) hge ⟨rfl, rfl, rfl⟩
          (hahead.mpr (.inl hkeep))⟩
      · rename_i hkeep
        obtain ⟨disk', new', hres, hrebuilt⟩ := @ih _ { search with current := c + 1 } _ _ _
          (Nat.succ_le_of_lt hlt) (by simp only; omega) hin' hlow
          (hnumber.trans (Nat.add_le_add_right (hle.trans (Nat.le_succ c)) _)) hnew
        have hiff := hahead.trans (or_iff_right hkeep)
        refine ⟨disk', new', hres, hrebuilt.names, hrebuilt.records, hrebuilt.inode,
          hrebuilt.high, hrebuilt.going, ?_, ?_⟩
        · exact fun hzero hk => hrebuilt.first hzero (hiff.mp hk)
        · exact fun hzero hk => hrebuilt.none hzero (fun hk' => hk (hiff.mpr hk'))
    · rw [heq]
      refine ⟨disk, new, rfl, hnew.done ?_⟩
      rintro ⟨i, hlo, hil, hilt, hilen, _⟩
      exact hilen (hempty i hlo hil hilt)

/-- Without mappings the loop has nothing to look at. -/
theorem expireLoop_unmapped {keep : Article → Bool} {fuel : ℕ} {disk : Disk} {data : GroupData}
    {search : Search} {newData : GroupData} {new : GroupEntry}
    (h : data.index = none ∨ data.data = none) :
    expireLoop keep (fuel + 1) disk data search newData new = some (disk, new) := by
  rw [expireLoop, tdxSearch_unmapped h]

/-- The search of an expire begins at the base, with both files mapped as far as
they are not empty. -/
theorem tdxSearchOpen_fresh {disk : Disk} {data : GroupData} {stop : ℕ}
    (hflag : data.remapoutoforder = false) (hidx : data.index = none) (hdat : data.data = none)
    (hstop : stop = if 0 < data.high then data.high else data.base) :
    tdxSearchOpen disk data data.base stop stop = (none, data) ∨
      ∃ data', tdxSearchOpen disk data data.base stop stop =
          (some ⟨stop - data.base, 0⟩, data') ∧ data.base ≤ stop ∧ data'.base = data.base ∧
        data'.indexlen = (disk.idx data.indexfd).length ∧
        data'.datalen = (disk.dat data.datafd).length ∧
        data'.index = (if (disk.idx data.indexfd).length = 0 then none else some data.indexfd) ∧
        data'.data = (if (disk.dat data.datafd).length = 0 then none else some data.datafd) := by
  unfold tdxSearchOpen
  by_cases hlow : stop < data.base
  · rw [if_pos hlow]
    exact .inl rfl
  · rw [if_neg hlow, if_neg hlow]
    by_cases hre : data.high < stop
    · -- the high mark is 0 and the base is not: the index is mapped here already
      have hzero : ¬ 0 < data.high := by
        intro hpos
        rw [if_pos hpos] at hstop
        omega
      rw [if_neg hzero] at hstop
      subst hstop
      refine .inr ?_
      simp only [hre, and_self, true_or, if_true, lt_irrefl, if_false, mapIndex, mapData]
      by_cases hlen : (disk.idx data.indexfd).length = 0
      · simp only [hlen, if_true, Option.isNone_none, Nat.sub_self, ite_self]
        refine ⟨_, rfl, le_refl _, ?_⟩
        exact ⟨rfl, rfl, rfl, rfl, rfl⟩
      · simp only [hlen, if_false, Option.isNone_some, Option.isNone_none, if_true, Nat.sub_self,
          Bool.false_eq_true, ite_self]
        refine ⟨_, rfl, le_refl _, ?_⟩
        exact ⟨rfl, rfl, rfl, rfl, rfl⟩
    · refine .inr ?_
      have hstart : ¬ data.high < data.base := by omega
      simp only [hre, hflag, false_and, Bool.false_eq_true, or_self, if_false, hstart, hidx, hdat,
        Option.isNone_none, if_true, lt_irrefl, Nat.sub_self, mapIndex, mapData]
      refine ⟨_, rfl, Nat.le_of_not_lt hlow, ?_⟩
      exact ⟨rfl, rfl, rfl, rfl, rfl⟩

/-- The marks `emptyMarks` sets if nothing was kept. -/
theorem emptyMarks_of_pos {oldHigh : ℕ} {new : GroupEntry} (h : new.low ≠ 0) :
    emptyMarks oldHigh new = new := if_neg h

theorem emptyMarks_of_zero {oldHigh : ℕ} {new : GroupEntry} (h : new.low = 0) :
    (emptyMarks oldHigh new).low = (if 0 < oldHigh then oldHigh else 1) ∧
      (emptyMarks oldHigh new).high = (if 0 < oldHigh then oldHigh else 1) - 1 ∧
      (emptyMarks oldHigh new).base = new.base ∧
      (emptyMarks oldHigh new).indexinode = new.indexinode := by
  rw [emptyMarks, if_pos h]
  exact ⟨rfl, rfl, rfl, rfl⟩

/-- Without a search nothing is built. -/
theorem tdxDataExpireStart_closed {keep : Article → Bool} {disk : Disk} {data data' : GroupData}
    {new : GroupEntry} {high : ℕ} (hhigh : high = if 0 < new.high then new.high else data.base)
    (h : tdxSearchOpen (rebuildDisk disk) data data.base high high = (none, data')) :
    tdxDataExpireStart keep disk data new = none := by
  subst hhigh
  rw [tdxDataExpireStart, h]

theorem tdxDataExpireStart_opened {keep : Article → Bool} {disk : Disk} {data data' : GroupData}
    {new : GroupEntry} {high : ℕ} {search : Search}
    (hhigh : high = if 0 < new.high then new.high else data.base)
    (h : tdxSearchOpen (rebuildDisk disk) data data.base high high = (some search, data')) :
    tdxDataExpireStart keep disk data new =
      expireLoop keep (data'.indexlen + 1) (rebuildDisk disk) data' search
        { rebuildData disk with high := high }
        { new with indexinode := (rebuildData disk).indexinode } := by
  subst hhigh
  rw [tdxDataExpireStart, h]

omit [DecidableEq Handle] in
/-- Building the new files: they are consistent, and the marks those of what was
kept. -/
theorem MarksInv.expireStart {s : GroupState Handle} (hinv : MarksInv s)
    (keep : Article → Bool) {result : Option (Disk × GroupEntry)}
    (hres : tdxDataExpireStart keep s.disk (tdxDataOpen s.disk s.entry)
      { s.entry with low := 0, count := 0, base := 0 } = result) :
    result = none ∨ ∃ disk' new', result = some (disk', new') ∧
      Rebuilt (rebuildDisk s.disk) disk' s.disk.fresh
        { s.entry with low := 0, count := 0, base := 0, indexinode := s.disk.fresh } new'
        (s.Keeps keep) s.entry.low := by
  have hidx_ne : s.disk.idxFile ≠ s.disk.fresh := hinv.idx_lt.ne
  have hdat_ne : s.disk.datFile ≠ s.disk.fresh := hinv.dat_lt.ne
  have hidx_same : (rebuildDisk s.disk).idx s.disk.idxFile = s.disk.idx s.disk.idxFile :=
    update_of_ne hidx_ne _ _
  have hdat_same : (rebuildDisk s.disk).dat s.disk.datFile = s.disk.dat s.disk.datFile :=
    update_of_ne hdat_ne _ _
  have hidx_new : (rebuildDisk s.disk).idx s.disk.fresh = [] := update_self _ _ _
  have hdat_new : (rebuildDisk s.disk).dat s.disk.fresh = [] := update_self _ _ _
  obtain ⟨stop, hstop⟩ : ∃ stop, stop = if 0 < s.entry.high then s.entry.high else s.entry.base :=
    ⟨_, rfl⟩
  subst hres
  rcases @tdxSearchOpen_fresh _ (tdxDataOpen s.disk s.entry) _
    rfl rfl rfl hstop with hnone |
    ⟨data, hopen, hstop_le, hbase, hilen, hdlen, hidx, hdat⟩
  · exact .inl (tdxDataExpireStart_closed hstop hnone)
  · rw [@tdxDataExpireStart_opened _ _ _ _ { s.entry with low := 0, count := 0, base := 0 } _ _
      hstop hopen]
    refine .inr ?_
    replace hbase : data.base = s.entry.base := hbase
    replace hilen : data.indexlen = (s.disk.idx s.disk.idxFile).length := by
      rw [hilen, ← hidx_same]
      rfl
    replace hdlen : data.datalen = (s.disk.dat s.disk.datFile).length := by
      rw [hdlen, ← hdat_same]
      rfl
    have hlen_of : ∀ i, (s.record i).length ≠ 0 → i < data.indexlen := by
      intro i hi
      by_contra hge
      rw [GroupState.record, recordAt_of_length_le (by omega)] at hi
      exact hi rfl
    -- what lies ahead of the search is what the group holds up to the high mark
    have hkeeps : KeepsAhead keep (s.disk.idx s.disk.idxFile) (s.disk.dat s.disk.datFile) data
        ⟨stop - s.entry.base, 0⟩ ↔ s.Keeps keep := by
      have hle : s.entry.base ≤ stop := hstop_le
      constructor
      · rintro ⟨i, _, hlimit, _, hlen, hkeep⟩
        refine ⟨i, ?_, hlen, hbase ▸ hkeep⟩
        rw [GroupState.Searched, ← hstop]
        show s.entry.base + i ≤ stop
        have : i ≤ stop - s.entry.base := hlimit
        omega
      · rintro ⟨i, hsearched, hlen, hkeep⟩
        rw [GroupState.Searched, ← hstop] at hsearched
        refine ⟨i, Nat.zero_le i, ?_, hlen_of i hlen, hlen, by rw [hbase]; exact hkeep⟩
        show i ≤ stop - s.entry.base
        omega
    have hstart : Rebuilding (rebuildDisk s.disk) s.disk.fresh
        { rebuildData s.disk with high := stop }
        { s.entry with low := 0, count := 0, base := 0, indexinode := s.disk.fresh } 0 :=
      { indexfd := rfl
        datafd := rfl
        base := rfl
        base_le := fun hne => absurd rfl hne
        low_le := fun hne => absurd rfl hne
        records := by
          rw [hidx_new]
          exact recordsOk_nil _ _ _ }
    have hnothing : (∀ i, (s.record i).length = 0) → ¬ s.Keeps keep := by
      rintro hall ⟨i, _, hlen, _⟩
      exact hlen (hall i)
    simp only []
    by_cases hilen0 : (s.disk.idx s.disk.idxFile).length = 0
    · have hnone : data.index = none := by
        rw [hidx]
        exact if_pos (by rw [← hilen0, ← hidx_same]; rfl)
      refine ⟨_, _, expireLoop_unmapped (.inl hnone), hstart.done (hnothing ?_)⟩
      intro i
      by_contra hi
      have := hlen_of i hi
      omega
    · by_cases hdlen0 : (s.disk.dat s.disk.datFile).length = 0
      · have hnone : data.data = none := by
          rw [hdat]
          exact if_pos (by rw [← hdlen0, ← hdat_same]; rfl)
        refine ⟨_, _, expireLoop_unmapped (.inr hnone), hstart.done (hnothing ?_)⟩
        intro i
        by_contra hi
        have := hinv.records.within i hi
        rw [hdlen0] at this
        have hi' : (recordAt (s.disk.idx s.disk.idxFile) i).length ≠ 0 := hi
        omega
      · -- both files are mapped, so the loop sees every article
        have hidx' : data.index = some s.disk.idxFile := by
          rw [hidx, if_neg]
          · rfl
          · rw [← hidx_same] at hilen0
            exact hilen0
        have hdat' : data.data = some s.disk.datFile := by
          rw [hdat, if_neg]
          · rfl
          · rw [← hdat_same] at hdlen0
            exact hdlen0
        obtain ⟨disk', new', hres, hrebuilt⟩ := @expireLoop_spec _ _ _ _ ⟨stop - s.entry.base, 0⟩
          _ _ _ _ _ _ s.entry.low hidx' hdat'
          ⟨hidx_ne, hdat_ne⟩ (Nat.zero_le _) (Nat.lt_succ_self _) (by
            intro i _ _ _
            rw [hidx_same, hdlen]
            exact hinv.records.within i) (by
            intro i hi
            rw [hidx_same] at hi
            have hlow := hinv.records.low_le i hi
            have hpos := hinv.low_pos
            rw [hbase]
            omega) (Nat.zero_le _) hstart
        rw [hidx_same, hdat_same] at hrebuilt
        refine ⟨disk', new', hres, hrebuilt.names, hrebuilt.records, hrebuilt.inode,
          hrebuilt.high, hrebuilt.going, ?_, ?_⟩
        · exact fun hzero hk => hrebuilt.first hzero (hkeeps.mpr hk)
        · exact fun hzero hk => hrebuilt.none hzero (fun hk' => hk (hkeeps.mp hk'))

omit [DecidableEq Handle] in
/-- An expire keeps the invariant. If it keeps an article neither mark goes back;
otherwise both come from the old high mark. -/
theorem MarksInv.expire {s : GroupState Handle} (hinv : MarksInv s) (keep : Article → Bool) :
    tdxExpire keep s.disk s.entry = none ∨
      ∃ disk entry, tdxExpire keep s.disk s.entry = some (disk, entry) ∧
        MarksInv { s with disk := disk, entry := entry } ∧
        (s.Keeps keep → s.entry.low ≤ entry.low ∧ s.entry.high ≤ entry.high) ∧
        (¬ s.Keeps keep → entry.low = (if 0 < s.entry.high then s.entry.high else 1) ∧
          entry.high = (if 0 < s.entry.high then s.entry.high else 1) - 1) := by
  unfold tdxExpire
  simp only []
  rcases hinv.expireStart keep rfl with hnone | ⟨disk', new', hsome, hrebuilt⟩
  · rw [hnone]
    exact .inl rfl
  · rw [hsome]
    refine .inr ⟨_, _, rfl, ?_, ?_, ?_⟩
    · -- the group after the new files were moved into place
      obtain ⟨_, _, hfresh⟩ := hrebuilt.names
      have hf : disk'.fresh = s.disk.fresh + 1 := hfresh
      have hino : new'.indexinode = s.disk.fresh := hrebuilt.inode
      have hhandle : ∀ h data, s.handles h = some data → HandleOk
          { disk' with idxFile := new'.indexinode, datFile := new'.indexinode } data := by
        intro h data hdata
        refine (hinv.handle h data hdata).later ?_ (.inr hino)
        show s.disk.fresh ≤ disk'.fresh
        omega
      have hrec : RecordsOk (disk'.idx new'.indexinode) (disk'.dat new'.indexinode) new'.base
          new'.low := by
        rw [hino]
        exact hrebuilt.records
      by_cases hk : s.Keeps keep
      · obtain ⟨_, hlow⟩ := hrebuilt.first rfl hk
        have hlow0 : new'.low ≠ 0 := by
          have := hinv.low_pos
          omega
        rw [emptyMarks_of_pos hlow0]
        exact ⟨Nat.pos_of_ne_zero hlow0, rfl, by show new'.indexinode < disk'.fresh; omega,
          by show new'.indexinode < disk'.fresh; omega, hrec, hhandle⟩
      · obtain ⟨hbase, hlow, _⟩ := hrebuilt.none rfl hk
        obtain ⟨hlow', _, hbase', hino'⟩ := emptyMarks_of_zero hlow
        refine ⟨?_, hino', by show new'.indexinode < disk'.fresh; omega,
          by show new'.indexinode < disk'.fresh; omega, ?_, hhandle⟩
        · show 1 ≤ (emptyMarks s.entry.high new').low
          rw [hlow']
          split <;> omega
        · show RecordsOk _ _ (emptyMarks s.entry.high new').base _
          rw [hbase']
          -- no article was stored
          refine ⟨hrec.base_ne, fun i hi => ?_, hrec.within⟩
          exact absurd hbase (hrec.base_ne i hi)
    · intro hk
      obtain ⟨_, hlow⟩ := hrebuilt.first rfl hk
      have hlow0 : new'.low ≠ 0 := by
        have := hinv.low_pos
        omega
      rw [emptyMarks_of_pos hlow0]
      exact ⟨hlow, hrebuilt.high⟩
    · intro hk
      obtain ⟨_, hlow, _⟩ := hrebuilt.none rfl hk
      obtain ⟨hlow', hhigh', _⟩ := emptyMarks_of_zero hlow
      exact ⟨hlow', hhigh'⟩

/-! ## Runs -/

/-- A safe call keeps the invariant. -/
theorem marks_step_inv (s : GroupState Handle) (act : DataAct Handle) (s' : GroupState Handle)
    (hstep : guarded ExpireSafe DataNext s act s') (hinv : MarksInv s) : MarksInv s' := by
  obtain ⟨hsafe, hnext⟩ := hstep
  cases act with
  | dataOpen h =>
    cases hnext
    refine ⟨hinv.low_pos, hinv.inode, hinv.idx_lt, hinv.dat_lt, hinv.records, ?_⟩
    exact handles_update hinv.handle
      ⟨hinv.idx_lt, hinv.dat_lt, rfl, fun _ => rfl⟩ h
  | dataClose h =>
    cases hnext
    refine ⟨hinv.low_pos, hinv.inode, hinv.idx_lt, hinv.dat_lt, hinv.records, ?_⟩
    intro i d hd
    have hd' : update s.handles h none i = some d := hd
    by_cases hi : i = h
    · rw [hi, update_self] at hd'
      cases hd'
    · rw [update_of_ne hi] at hd'
      exact hinv.handle i d hd'
  | add h article ok =>
    obtain ⟨data, disk, entry, data', hdata, heq, rfl⟩ := hnext
    obtain ⟨disk₁, entry₁, data₁, heq₁, _, hinv₁⟩ :=
      hinv.add hdata hsafe.1 (hsafe.2 data hdata)
    rw [heq] at heq₁
    cases heq₁
    exact hinv₁
  | cancel h artnum ok =>
    obtain ⟨data, disk, _, heq, rfl⟩ := hnext
    exact hinv.cancel heq
  | expire keep =>
    cases hnext
    rcases hinv.expire keep with hnone | ⟨disk, entry, hsome, hinv', _⟩
    · rw [hnone]
      exact hinv
    · rw [hsome]
      exact hinv'

/-- The marks of a group are kept in every run in which each expire keeps an
article, or finds the marks of a group that never had one. -/
theorem safe_expire_keeps_marks :
    KeepsMarks (guarded ExpireSafe (@DataNext Handle _)) := by
  intro s₀ hnew acts s hrun act s' hstep
  have hinv : MarksInv s := Steps.invariant marks_step_inv hrun hnew.inv
  obtain ⟨hsafe, hnext⟩ := hstep
  cases act with
  | dataOpen h =>
    cases hnext
    exact ⟨le_refl _, by rintro keep ⟨⟩⟩
  | dataClose h =>
    cases hnext
    exact ⟨le_refl _, by rintro keep ⟨⟩⟩
  | add h article ok =>
    obtain ⟨data, disk, entry, data', hdata, heq, rfl⟩ := hnext
    obtain ⟨disk₁, entry₁, data₁, heq₁, hhigh, _⟩ :=
      hinv.add hdata hsafe.1 (hsafe.2 data hdata)
    rw [heq] at heq₁
    cases heq₁
    exact ⟨hhigh, by rintro keep ⟨⟩⟩
  | cancel h artnum ok =>
    obtain ⟨data, disk, _, heq, rfl⟩ := hnext
    exact ⟨le_refl _, by rintro keep ⟨⟩⟩
  | expire keep =>
    cases hnext
    rcases hinv.expire keep with hnone | ⟨disk, entry, hsome, _, hkept, hempty⟩
    · rw [hnone]
      exact ⟨le_refl _, fun _ _ => ⟨le_refl _, fun _ => ⟨rfl, rfl⟩⟩⟩
    · rw [hsome]
      by_cases hk : s.Keeps keep
      · obtain ⟨hlow, hhigh⟩ := hkept hk
        refine ⟨hhigh, fun _ _ => ⟨hlow, fun hall => ?_⟩⟩
        obtain ⟨i, _, hlen, _⟩ := hk
        exact absurd (hall i) hlen
      · obtain ⟨hzero, hone⟩ := hsafe.resolve_left hk
        obtain ⟨hlow, hhigh⟩ := hempty hk
        rw [hzero] at hlow hhigh
        have hlow' : entry.low = s.entry.low := hlow.trans hone.symm
        have hhigh' : entry.high = s.entry.high := hhigh.trans hzero.symm
        exact ⟨hhigh'.ge, fun _ _ => ⟨hlow'.ge, fun _ => ⟨hlow', hhigh'⟩⟩⟩

/-! ## A group with nothing left -/

/-- A group created with high mark 5, without articles. -/
def emptyGroup : GroupState Unit where
  disk := ⟨fun _ => [], fun _ => [], 0, 0, 1⟩
  entry := { (0 : GroupEntry) with low := 1, high := 5 }
  handles := fun _ => none

/-- An expire of an empty group takes the high mark down. -/
theorem expire_lowers_high_mark : ¬ KeepsMarks (@DataNext Unit _) := by
  intro hkeeps
  have hnew : NewGroup emptyGroup :=
    ⟨by decide, rfl, rfl, rfl, by decide, by decide, fun _ => rfl⟩
  obtain ⟨hhigh, _⟩ := hkeeps emptyGroup hnew [] emptyGroup .nil (.expire fun _ => false) _ rfl
  exact absurd hhigh (by decide)

end Inn.Tradindexed
