import Inn.Tradindexed.Faults

/-!
# Inn.Tradindexed.Packing — what a repack makes of the index file

`tdx_data_pack_start` opens `IDX-NEW` without truncating it, copies the old index behind
the place for the lower article numbers, and `tdx_data_pack_finish` moves the file into
place. What an interrupted run left in `IDX-NEW` is not removed: below the copy it shows as
it was, and so does what lies behind the copy.

* `tdxDataPackStart_ok`, `tdxDataPackFinish_ok` — what the two do when they succeed;
* `pack_preserves_iff` — the new index describes the articles of the old one exactly when
  the left-over has no article below the copy and is not longer than it.
-/

namespace Inn.Tradindexed.Faults

open Function (update update_self update_of_ne)

/-! ## Entries of a written file -/

/-- Entries are equal when their bytes are. -/
theorem entryAt_congr {file file' : List UInt8} {i j : ℕ}
    (h : ∀ k < ENTRY_SIZE,
      recordAt file (i * ENTRY_SIZE + k) = recordAt file' (j * ENTRY_SIZE + k)) :
    entryAt file i = entryAt file' j :=
  List.map_congr_left fun k hk => h k (List.mem_range.mp hk)

theorem record_eq_none_iff {file : List UInt8} {i : ℕ} :
    record file i = none ↔ file.length / ENTRY_SIZE ≤ i := by
  have hsize : ¬(i + 1) * ENTRY_SIZE ≤ file.length ↔ file.length / ENTRY_SIZE ≤ i := by
    simp only [ENTRY_SIZE]
    omega
  rw [record, ← hsize]
  by_cases h : (i + 1) * ENTRY_SIZE ≤ file.length
  · rw [if_pos h]
    exact ⟨fun h' => (Option.some_ne_none _ h').elim, fun h' => absurd h h'⟩
  · rw [if_neg h]
    exact ⟨fun _ => h, fun _ => rfl⟩

theorem record_of_le {file : List UInt8} {i : ℕ} (h : (i + 1) * ENTRY_SIZE ≤ file.length) :
    record file i = some (entryAt file i) :=
  if_pos h

section Written

variable {left old : List UInt8} {delta i : ℕ}

/-- Below the place of a write the old entries stay. -/
theorem entryAt_write_low (h : i < delta) :
    entryAt (writeAt left (delta * ENTRY_SIZE) old) i = entryAt left i := by
  apply entryAt_congr
  intro k hk
  rw [recordAt_writeAt, if_neg]
  simp only [ENTRY_SIZE] at hk ⊢
  omega

/-- From the place of a write on there are the entries written. -/
theorem entryAt_write_high (h : (i + 1) * ENTRY_SIZE ≤ old.length) :
    entryAt (writeAt left (delta * ENTRY_SIZE) old) (delta + i) = entryAt old i := by
  apply entryAt_congr
  intro k hk
  simp only [ENTRY_SIZE] at hk h ⊢
  rw [recordAt_writeAt, if_pos (by omega)]
  congr 1
  omega

theorem le_length_write (left : List UInt8) (delta : ℕ) (hne : old ≠ []) (h : i ≤ old.length) :
    delta * ENTRY_SIZE + i ≤ (writeAt left (delta * ENTRY_SIZE) old).length := by
  rw [length_writeAt _ _ hne]
  omega

/-- Entries written are whole in the file. -/
theorem record_write_high (h : (i + 1) * ENTRY_SIZE ≤ old.length) :
    record (writeAt left (delta * ENTRY_SIZE) old) (delta + i) = record old i := by
  have hne : old ≠ [] := by
    intro hnil
    rw [hnil, List.length_nil, ENTRY_SIZE] at h
    omega
  have hlen : (delta + i + 1) * ENTRY_SIZE ≤ (writeAt left (delta * ENTRY_SIZE) old).length := by
    rw [Nat.add_assoc, Nat.add_mul]
    exact le_length_write left delta hne h
  rw [record_of_le h, record_of_le hlen, entryAt_write_high h]

end Written

/-! ## What the two functions do -/

/-- `group_data` whose index is open. -/
structure IndexOpen (files : Files) (data : GroupData) (old : ℕ) : Prop where
  fd : data.indexfd = some old
  lt : old < files.fresh

/-- A name of a created file, or of one there was before. -/
theorem dir_create {files : Files} {suffix name : Suffix} {i : ℕ}
    (h : (files.create suffix).dir name = some i) :
    i = files.fresh ∧ name = suffix ∨ files.dir name = some i := by
  unfold Files.create at h
  dsimp only at h
  by_cases hs : name = suffix
  · rw [hs, update_self] at h
    exact .inl ⟨(Option.some.inj h).symm, hs⟩
  · rw [update_of_ne hs] at h
    exact .inr h

theorem Files.Ok.create {files : Files} (h : files.Ok) (suffix : Suffix) :
    (files.create suffix).Ok := by
  constructor
  · intro name i hi
    rcases dir_create hi with ⟨rfl, -⟩ | hi
    · exact Nat.lt_succ_self _
    · exact Nat.lt_succ_of_lt (h.lt name i hi)
  · intro name name' i hi hi'
    rcases dir_create hi with ⟨rfl, rfl⟩ | hi
    · rcases dir_create hi' with ⟨-, rfl⟩ | hi'
      · rfl
      · exact absurd (h.lt _ _ hi') (Nat.lt_irrefl _)
    · rcases dir_create hi' with ⟨rfl, -⟩ | hi'
      · exact absurd (h.lt _ _ hi) (Nat.lt_irrefl _)
      · exact h.inj _ _ _ hi hi'

/-- What `file_open` does when it succeeds: the inode it opens holds what the name stood
for, or nothing, and other inodes and names stay. -/
structure Opened (files : Files) (suffix : Suffix) (inode : ℕ) (after : Files) : Prop where
  dir : after.dir = update files.dir suffix (some inode)
  idx : after.idx inode = indexNamed files suffix
  idx_ne : ∀ i < files.fresh, after.idx i = files.idx i
  found : ∀ i, files.dir suffix = some i → i = inode ∧ after = files
  created : files.dir suffix = none → inode = files.fresh
  ok : files.Ok → after.Ok

theorem fileOpen_some {writable fails : Bool} {files after : Files} {suffix : Suffix}
    {inode : ℕ} (h : fileOpen writable fails files suffix = (some inode, after)) :
    Opened files suffix inode after := by
  unfold fileOpen at h
  split at h
  · cases h
  split at h
  · rename_i i hdir
    obtain ⟨⟨⟩, rfl⟩ := Prod.mk.inj h
    constructor
    · rw [← hdir, Function.update_eq_self]
    · rw [indexNamed, hdir]
    · exact fun _ _ => rfl
    · exact fun i hi => ⟨Option.some.inj (hi.symm.trans hdir), rfl⟩
    · exact fun hno => absurd (hno.symm.trans hdir) (Option.some_ne_none _).symm
    · exact id
  · rename_i hdir
    split at h
    · obtain ⟨⟨⟩, rfl⟩ := Prod.mk.inj h
      constructor
      · rfl
      · rw [indexNamed, hdir]
        exact update_self ..
      · exact fun i hi => update_of_ne hi.ne _ _
      · exact fun i hi => absurd (hdir.symm.trans hi) (Option.some_ne_none _).symm
      · exact fun _ => rfl
      · exact fun hok => hok.create suffix
    · cases h

theorem xwrite_true {fault : Option ℕ} {file bytes : List UInt8} {pos : ℕ}
    (h : (xwrite fault file pos bytes).1 = true) :
    (xwrite fault file pos bytes).2 = writeAt file pos bytes := by
  unfold xwrite at h ⊢
  split
  · rename_i hnil
    rw [hnil, writeAt_nil]
  · cases fault with
    | none => rfl
    | some count =>
      rename_i hne
      rw [if_neg hne] at h
      cases h

theorem mapIndex_true {f : MapFaults} {files : Files} {data : GroupData}
    (h : (mapIndex f files data).1 = true) :
    ∃ old, data.indexfd = some old ∧
      (mapIndex f files data).2 =
        { data with
          indexlen := (files.idx old).length
          index := if files.idx old = [] then none else some old } ∧
      mappedIndex files (mapIndex f files data).2 = files.idx old := by
  unfold mapIndex at h ⊢
  split at h
  · cases h
  · rename_i old hfd
    refine ⟨old, hfd, ?_⟩
    rw [hfd]
    dsimp only at h ⊢
    split at h
    · cases h
    · rename_i hstat
      rw [if_neg hstat]
      by_cases hnil : files.idx old = []
      · rw [if_pos (List.length_eq_zero_iff.mpr hnil), if_pos hnil]
        exact ⟨rfl, hnil.symm⟩
      · have hlen : (files.idx old).length ≠ 0 := fun h => hnil (List.length_eq_zero_iff.mp h)
        rw [if_neg hlen] at h ⊢
        rw [if_neg hnil]
        split at h
        · cases h
        · rename_i hmap
          rw [if_neg hmap]
          exact ⟨rfl, List.take_length⟩

/-- `tdx_data_pack_start` when it succeeds: the new index is the left-over file with the
old index written over it, and the `group_data` has the new base with the old index mapped. -/
theorem tdxDataPackStart_ok {f : PackFaults} {files : Files} {data : GroupData} {artnum : ℕ}
    (h : (tdxDataPackStart f files data artnum).1 = true) :
    ∃ inode old opened, data.writable = true ∧ artnum < data.base ∧
      data.indexfd = some old ∧ Opened files .IDX_NEW inode opened ∧
      tdxDataPackStart f files data artnum =
        (true,
          { opened with
            idx := update opened.idx inode (writeAt (opened.idx inode)
              ((data.base - indexBase artnum) * ENTRY_SIZE) (opened.idx old)) },
          { data with
            indexlen := (opened.idx old).length
            index := if opened.idx old = [] then none else some old
            base := indexBase artnum
            indexinode := inode }) := by
  unfold tdxDataPackStart at h ⊢
  split at h
  · cases h
  rename_i hw
  rw [if_neg hw]
  split at h
  · cases h
  rename_i hbase
  rw [if_neg hbase]
  split at h
  · cases h
  rename_i inode opened hopen
  split at h
  · cases h
  rename_i hstat
  rw [if_neg hstat]
  split at h
  · cases h
  rename_i mapped hmap
  obtain ⟨old, hfd, hdata, hmapped⟩ := mapIndex_true (by rw [hmap])
  rw [hmap] at hdata hmapped
  dsimp only at hfd hdata hmapped
  refine ⟨inode, old, opened, Bool.of_not_eq_false hw, Nat.lt_of_not_le hbase, hfd,
    fileOpen_some hopen, ?_⟩
  unfold packCopy at h ⊢
  split at h
  · cases h
  rename_i hseek
  rw [if_neg hseek]
  dsimp only at h ⊢
  split at h
  · cases h
  rename_i hwrite
  rw [if_neg hwrite]
  have hok : (xwrite f.write (opened.idx inode) ((mapped.base - indexBase artnum) * ENTRY_SIZE)
      (mappedIndex opened mapped)).1 = true :=
    Bool.of_not_eq_false fun hf => hwrite (.inl hf)
  rw [xwrite_true hok, hmapped, hdata]

theorem fileOpenIndex_true {openFails fstatFails : Bool} {suffix : Suffix} {files : Files}
    {data : GroupData}
    (h : (fileOpenIndex openFails fstatFails suffix files data).1 = true) :
    ∃ inode opened, Opened files suffix inode opened ∧
      fileOpenIndex openFails fstatFails suffix files data =
        (true, opened, { data with indexfd := some inode, indexinode := inode }) := by
  unfold fileOpenIndex at h ⊢
  split at h
  · cases h
  · rename_i inode opened hopen
    split at h
    · cases h
    · rename_i hstat
      exact ⟨inode, opened, fileOpen_some hopen, by rw [if_neg hstat]⟩

theorem rename_true {fails : Bool} {files : Files} {old new : Suffix}
    (h : (rename fails files old new).1 = true) :
    ∃ inode, files.dir old = some inode ∧ rename fails files old new =
      (true, { files with dir := update (update files.dir new (some inode)) old none }) := by
  unfold rename at h ⊢
  split at h
  · cases h
  · rename_i inode hdir
    split at h
    · cases h
    · rename_i hfails
      exact ⟨inode, hdir, by rw [if_neg hfails]⟩

/-- The files once `IDX-NEW`, an inode, has been renamed. -/
def Files.renamed (files : Files) (inode : ℕ) : Files :=
  { files with dir := update (update files.dir .IDX (some inode)) .IDX_NEW none }

@[simp] theorem dir_renamed (files : Files) (inode : ℕ) :
    (files.renamed inode).dir .IDX = some inode := by
  unfold Files.renamed
  dsimp only
  rw [update_of_ne (by decide), update_self]

@[simp] theorem idx_renamed (files : Files) (inode : ℕ) :
    (files.renamed inode).idx = files.idx := rfl

/-- `tdx_data_pack_finish` when it succeeds: the name `IDX` stands for what was `IDX-NEW`. -/
theorem tdxDataPackFinish_ok {f : FinishFaults} {files : Files} {data : GroupData}
    (h : (tdxDataPackFinish f files data).1 = true) :
    ∃ inode, files.dir .IDX_NEW = some inode ∧
      tdxDataPackFinish f files data =
        (true, files.renamed inode,
          { data with indexfd := some inode, indexinode := inode }) := by
  unfold tdxDataPackFinish at h ⊢
  split at h
  · cases h
  rename_i hw
  rw [if_neg hw]
  split at h
  · cases h
  rename_i renamed hren
  obtain ⟨inode, hdir, heq⟩ := rename_true (by rw [hren])
  rw [hren] at heq
  obtain ⟨-, rfl⟩ := Prod.mk.inj heq
  obtain ⟨i, opened, hopened, heq⟩ := fileOpenIndex_true h
  obtain ⟨rfl, rfl⟩ := hopened.found inode (dir_renamed files inode)
  exact ⟨inode, hdir, heq⟩

/-! ## The new index -/

/-- The new index with its base describes what the old one did with the old base: the same
records from the old base on, so none behind the last one, and no article below. -/
structure Repacked (old : List UInt8) (base : ℕ) (new : List UInt8) (newBase : ℕ) : Prop where
  same : ∀ n, base ≤ n → record new (n - newBase) = record old (n - base)
  empty : ∀ n, newBase ≤ n → n < base →
    ∀ entry, record new (n - newBase) = some entry → entryLength entry = 0

/-- A left-over that does no harm: below the copy it has no article (where it ends there,
what it has of an entry is completed with zeros, if anything is copied at all), and it has
no more records than the new index needs. -/
structure Clean (left old : List UInt8) (delta : ℕ) : Prop where
  low : ∀ i < delta, old ≠ [] ∨ (i + 1) * ENTRY_SIZE ≤ left.length →
    entryLength (entryAt left i) = 0
  size : left.length / ENTRY_SIZE ≤ delta + old.length / ENTRY_SIZE

section Shift

variable {left old : List UInt8} {base newBase delta : ℕ}

theorem length_write_div (h : left.length / ENTRY_SIZE ≤ delta + old.length / ENTRY_SIZE) :
    (writeAt left (delta * ENTRY_SIZE) old).length / ENTRY_SIZE ≤
      delta + old.length / ENTRY_SIZE := by
  by_cases hnil : old = []
  · rw [hnil, writeAt_nil]
    rwa [hnil] at h
  · rw [length_writeAt _ _ hnil]
    simp only [ENTRY_SIZE] at h ⊢
    omega

/-- The old records stand from the copy on, and nothing behind them. -/
theorem record_write_shift (h : left.length / ENTRY_SIZE ≤ delta + old.length / ENTRY_SIZE)
    (i : ℕ) : record (writeAt left (delta * ENTRY_SIZE) old) (delta + i) = record old i := by
  by_cases hi : (i + 1) * ENTRY_SIZE ≤ old.length
  · exact record_write_high hi
  · have hold : old.length / ENTRY_SIZE ≤ i := by
      simp only [ENTRY_SIZE] at hi ⊢
      omega
    have hlen := length_write_div h
    rw [record_eq_none_iff.mpr hold, record_eq_none_iff]
    omega

theorem Clean.repacked (hle : newBase ≤ base) (h : Clean left old (base - newBase)) :
    Repacked old base (writeAt left ((base - newBase) * ENTRY_SIZE) old) newBase := by
  constructor
  · intro n hn
    have heq : n - newBase = base - newBase + (n - base) := by omega
    rw [heq]
    exact record_write_shift h.size (n - base)
  · intro n hn hlt entry hrec
    have hi : n - newBase < base - newBase := by omega
    unfold record at hrec
    split at hrec
    · rename_i hlen
      rw [entryAt_write_low hi] at hrec
      rw [← Option.some.inj hrec]
      apply h.low _ hi
      by_cases hnil : old = []
      · rw [hnil, writeAt_nil] at hlen
        exact .inr hlen
      · exact .inl hnil
    · cases hrec

theorem Repacked.clean (hle : newBase ≤ base)
    (h : Repacked old base (writeAt left ((base - newBase) * ENTRY_SIZE) old) newBase) :
    Clean left old (base - newBase) := by
  constructor
  · intro i hi hlong
    have hlen : (i + 1) * ENTRY_SIZE ≤
        (writeAt left ((base - newBase) * ENTRY_SIZE) old).length := by
      by_cases hnil : old = []
      · rw [hnil, writeAt_nil]
        exact hlong.resolve_left fun hne => hne hnil
      · have := le_length_write left (base - newBase) hnil (Nat.zero_le _)
        simp only [ENTRY_SIZE] at this ⊢
        omega
    have hsub : newBase + i - newBase = i := Nat.add_sub_cancel_left ..
    have := h.empty (newBase + i) (Nat.le_add_right ..) (by omega) _
      (by rw [hsub]; exact record_of_le hlen)
    rwa [entryAt_write_low hi] at this
  · -- behind the last old record there is none in the new index
    have hsame := h.same (base + old.length / ENTRY_SIZE) (Nat.le_add_right ..)
    rw [Nat.add_sub_cancel_left, record_eq_none_iff.mpr le_rfl, record_eq_none_iff] at hsame
    by_cases hnil : old = []
    · rw [hnil, writeAt_nil] at hsame
      rw [hnil]
      exact hsame.trans (Nat.le_refl _)
    · rw [length_writeAt _ _ hnil] at hsame
      simp only [ENTRY_SIZE] at hsame ⊢
      omega

end Shift

theorem indexBase_le {artnum base : ℕ} (h : artnum < base) : indexBase artnum ≤ base := by
  unfold indexBase
  split
  · omega
  · omega

/-- After a repack the new index describes what the old one did exactly when the left-over
`IDX-NEW`, if there was one, was clean. -/
theorem pack_preserves_iff {start : PackFaults} {finish : FinishFaults} {files started : Files}
    {data packed : GroupData} {artnum old : ℕ} (hopen : IndexOpen files data old)
    (hstart : tdxDataPackStart start files data artnum = (true, started, packed))
    (hfinish : (tdxDataPackFinish finish started packed).1 = true) :
    Repacked (files.idx old) data.base
        (indexNamed (tdxDataPackFinish finish started packed).2.1 .IDX)
        (tdxDataPackFinish finish started packed).2.2.base ↔
      Clean (indexNamed files .IDX_NEW) (files.idx old) (data.base - indexBase artnum) := by
  obtain ⟨inode, old', opened, -, hlt, hfd, hopened, heq⟩ :=
    tdxDataPackStart_ok (by rw [hstart] : (tdxDataPackStart start files data artnum).1 = true)
  obtain rfl : old' = old := Option.some.inj (hfd.symm.trans hopen.fd)
  rw [hstart] at heq
  obtain ⟨rfl, rfl⟩ := Prod.mk.inj (Prod.mk.inj heq).2
  obtain ⟨new, hdir, hend⟩ := tdxDataPackFinish_ok hfinish
  rw [hend]
  have hnew : new = inode := by
    have hdir' : opened.dir .IDX_NEW = some new := hdir
    rw [hopened.dir, update_self] at hdir'
    exact (Option.some.inj hdir').symm
  have hfile : indexNamed
        (Files.renamed { opened with
          idx := update opened.idx inode (writeAt (opened.idx inode)
            ((data.base - indexBase artnum) * ENTRY_SIZE) (opened.idx old')) } new) .IDX =
      writeAt (indexNamed files .IDX_NEW) ((data.base - indexBase artnum) * ENTRY_SIZE)
        (files.idx old') := by
    rw [indexNamed, dir_renamed, idx_renamed, hnew]
    dsimp only
    rw [update_self, hopened.idx, hopened.idx_ne _ hopen.lt]
  have hle := indexBase_le hlt
  dsimp only
  rw [hfile]
  exact ⟨Repacked.clean hle, Clean.repacked hle⟩

/-- A pack in which no call fails. -/
def packFaultless : PackFaults := ⟨false, false, ⟨false, false⟩, false, none, false, false⟩

/-- The finish of a pack in which no call fails. -/
def finishFaultless : FinishFaults := ⟨false, false, false, false⟩

/-- A group with one article, number 2, in its index, and a left-over in `IDX-NEW`. -/
def leftOverFiles (left : List UInt8) : Files where
  dir := fun name => match name with
    | .IDX => some 1
    | .DAT => some 2
    | .IDX_NEW => some 3
    | _ => none
  idx := fun inode => if inode = 1 then List.replicate 56 1 else if inode = 3 then left else []
  dat := fun _ => []
  fresh := 4

/-- The `group_data` that is open on these files. -/
def leftOverData : GroupData :=
  { tdxDataNew true with base := 2, indexfd := some 1, datafd := some 2, indexinode := 1 }

/-- The repack for article 1 there. -/
def leftOverStart (left : List UInt8) : Bool × Files × GroupData :=
  tdxDataPackStart packFaultless (leftOverFiles left) leftOverData 1

def leftOverFinish (left : List UInt8) : Bool × Files × GroupData :=
  tdxDataPackFinish finishFaultless (leftOverStart left).2.1 (leftOverStart left).2.2

theorem pack_preserves_empty_left :
    Repacked (List.replicate 56 1) 2 (indexNamed (leftOverFinish []).2.1 .IDX)
      (leftOverFinish []).2.2.base := by
  have hopen : IndexOpen (leftOverFiles []) leftOverData 1 := ⟨rfl, by decide⟩
  apply (pack_preserves_iff hopen (rfl : leftOverStart [] = (true, _, _)) rfl).mpr
  constructor
  · intro i hi _
    obtain rfl : i = 0 := Nat.lt_one_iff.mp hi
    decide
  · exact Nat.zero_le _

/-- What an interrupted run left in `IDX-NEW` becomes an article of the group. -/
theorem left_over_repacked :
    (leftOverStart (List.replicate 56 1)).1 = true ∧
    (leftOverFinish (List.replicate 56 1)).1 = true ∧
    ¬Repacked (List.replicate 56 1) 2 (indexNamed (leftOverFinish (List.replicate 56 1)).2.1 .IDX)
      (leftOverFinish (List.replicate 56 1)).2.2.base := by
  refine ⟨rfl, rfl, fun h => ?_⟩
  have hempty := h.empty 1 le_rfl (by decide) (List.replicate 56 1) (by decide +kernel)
  exact absurd hempty (by decide)

end Inn.Tradindexed.Faults
