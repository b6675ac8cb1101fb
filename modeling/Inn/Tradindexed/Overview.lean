import Inn.Rules
import Inn.Tradindexed.Store

/-!
# Inn.Tradindexed.Overview — a group as a map from numbers to articles

The interface of the method, `tradindexed.c`, used by one writer: the open
`group_data` is cached between calls and may be evicted. Abstractly a group maps
article numbers to articles; `KeepsOverview` says that a search returns exactly
the articles of the map in its range.

A cached `group_data` is refreshed only for a search past its high mark, or after
an article below that mark was added. So the map is kept as long as no add slips
through these two tests (`AddSafe`): an article at the cached high mark once the
files are mapped, or one that makes the index be packed while the cached high mark
lies between its new base and its number.
-/

namespace Inn.Tradindexed

open Function (update update_self update_of_ne)

/-! ## The interface -/

/-- The group on disk, the cached `group_data` and the `OVCUTOFFLOW` setting. -/
structure Overview where
  disk : Disk
  entry : GroupEntry
  cache : Option GroupData
  cutoff : Bool

/-- `data_cache_open`. -/
def Overview.cacheOpen (s : Overview) : GroupData :=
  match s.cache with
  | some data => data
  | none => tdxDataOpen s.disk s.entry

/-- Articles below the low mark are not added if cutoff is set. -/
def Overview.cut (s : Overview) (artnum : ℕ) : Bool := s.cutoff && decide (artnum < s.entry.low)

/-- `tradindexed_add`. -/
def tradindexedAdd (s : Overview) (article : Article) : Bool × Overview :=
  if s.cut article.number = true then (true, s)
  else
    match tdxDataAdd s.disk s.entry s.cacheOpen article with
    | (ok, disk, entry, data) => (ok, { s with disk := disk, entry := entry, cache := some data })

/-- `tradindexed_cancel`; a cancel that succeeds reopens the data files. -/
def tradindexedCancel (s : Overview) (artnum : ℕ) : Bool × Overview :=
  let data := if s.cacheOpen.high < artnum then tdxDataOpen s.disk s.entry else s.cacheOpen
  match tdxDataCancel s.disk data artnum with
  | (false, disk) => (false, { s with disk := disk, cache := some data })
  | (true, disk) => (true, { s with disk := disk, cache := some (tdxDataOpen disk s.entry) })

/-- `tradindexed_opensearch`. -/
def tradindexedOpensearch (s : Overview) (low high : ℕ) : Option Search × Overview :=
  let data := s.cacheOpen
  let data := if s.entry.base ≠ data.base ∧ low < data.base ∧ s.entry.base < data.base then
      tdxDataOpen s.disk s.entry
    else data
  match tdxSearchOpen s.disk data low high s.entry.high with
  | (search, data) => (search, { s with cache := some data })

/-- `tradindexed_opensearch` and then `tradindexed_search` until it returns false;
without a search there is nothing to return. -/
def tradindexedSearch (s : Overview) (low high : ℕ) : List Article × Overview :=
  match tradindexedOpensearch s low high with
  | (none, s) => ([], s)
  | (some search, s) =>
    let data := s.cacheOpen
    let found := searchAll s.disk (data.indexlen + 1) data search
    (found.1, { s with cache := some found.2 })

/-! ## Runs -/

/-- A call with its result; `evict` is the cache dropping the group for others. -/
inductive OvCall where
  | add (article : Article) (cut ok : Bool)
  | cancel (artnum : ℕ) (ok : Bool)
  | search (low high : ℕ) (result : List Article)
  | evict

/-- One call. -/
def OvNext (s : Overview) (call : OvCall) (s' : Overview) : Prop :=
  match call with
  | .add article cut ok => cut = s.cut article.number ∧ tradindexedAdd s article = (ok, s')
  | .cancel artnum ok => tradindexedCancel s artnum = (ok, s')
  | .search low high result => tradindexedSearch s low high = (result, s')
  | .evict => s' = { s with cache := none }

/-- The articles of a group by number. -/
abbrev Articles := ℕ → Option Article

/-- The articles a call leaves. -/
def OvCall.apply (articles : Articles) : OvCall → Articles
  | .add article cut ok =>
    if ok = true ∧ cut = false then update articles article.number (some article) else articles
  | .cancel artnum _ => update articles artnum none
  | _ => articles

/-- The articles added and not cancelled since. -/
def holding (calls : List OvCall) : Articles := calls.foldl OvCall.apply (fun _ => none)

theorem holding_concat (calls : List OvCall) (call : OvCall) :
    holding (calls ++ [call]) = call.apply (holding calls) := by
  rw [holding, List.foldl_append]
  rfl

/-- The group as `tdx_index_add` leaves it, not opened yet. -/
structure NewOverview (s : Overview) : Prop where
  base : s.entry.base = 0
  inode : s.entry.indexinode = s.disk.idxFile
  idx : s.disk.idx s.disk.idxFile = []
  idx_lt : s.disk.idxFile < s.disk.fresh
  cache : s.cache = none

/-- In every run, a search up to at most the high mark returns exactly the articles
added and not cancelled since in its range, in increasing order. -/
def KeepsOverview (next : Overview → OvCall → Overview → Prop) : Prop :=
  ∀ s₀, NewOverview s₀ → ∀ calls s, Steps next s₀ calls s →
    ∀ low high result s', next s (.search low high result) s' → high ≤ s.entry.high →
      result.Pairwise (fun a b => a.number < b.number) ∧
      ∀ article, article ∈ result ↔ low ≤ article.number ∧ article.number ≤ high ∧
        holding calls article.number = some article

/-- Storing the number `n` leaves a cached `group_data` that will be remapped before
it is searched for `n`, or that has nothing mapped yet. -/
def GroupData.Notices (data : GroupData) (base n : ℕ) : Prop :=
  data.remapoutoforder = true ∨ n < data.high ∨
    (data.high < n ∧ (n < base → data.high < indexBase n)) ∨
    (data.high = n ∧ base ≤ n ∧ data.index = none ∧ data.data = none)

/-- An article with a number from 1 on and an overview, which the cached
`group_data` notices. -/
def AddSafe (s : Overview) : OvCall → Prop
  | .add article cut _ => cut = true ∨
      (1 ≤ article.number ∧ article.overview ≠ [] ∧
        ∀ data, s.cache = some data → data.Notices s.entry.base article.number)
  | _ => True

/-! ## The invariant -/

/-- The `i`th index entry on disk. -/
def Overview.record (s : Overview) (i : ℕ) : IndexEntry := recordAt (s.disk.idx s.disk.idxFile) i

/-- Every article up to `high` lies within what is mapped. -/
structure Mapped (disk : Disk) (base high : ℕ) (data : GroupData) : Prop where
  index : data.index = none ∨ (data.index = some disk.idxFile ∧
    ∀ i, (recordAt (disk.idx disk.idxFile) i).length ≠ 0 → base + i ≤ high → i < data.indexlen)
  data : data.data = none ∨ (data.data = some disk.datFile ∧
    ∀ i, base + i ≤ high → (recordAt (disk.idx disk.idxFile) i).Within data.datalen)

/-- The cached `group_data` is open on the files of the group. Unless its next
search remaps them, its mappings show every article up to its high mark. -/
structure CacheOk (disk : Disk) (entry : GroupEntry) (data : GroupData) : Prop where
  indexfd : data.indexfd = disk.idxFile
  datafd : data.datafd = disk.datFile
  inode : data.indexinode = disk.idxFile
  base : data.base = entry.base
  high : data.high ≤ entry.high
  mapped : data.remapoutoforder = false → data.base ≤ data.high →
    Mapped disk entry.base data.high data

/-- The files hold the articles, and the cached `group_data` belongs to them. -/
structure OverviewInv (articles : Articles) (s : Overview) : Prop where
  inode : s.entry.indexinode = s.disk.idxFile
  idx_lt : s.disk.idxFile < s.disk.fresh
  holds : ∀ n article, articles n = some article ↔ s.entry.base ≤ n ∧
    (s.record (n - s.entry.base)).length ≠ 0 ∧
    article = (s.record (n - s.entry.base)).article (s.disk.dat s.disk.datFile) n
  empty : s.entry.base = 0 → ∀ i, (s.record i).length = 0
  within : ∀ i, (s.record i).Within (s.disk.dat s.disk.datFile).length
  high : ∀ i, (s.record i).length ≠ 0 → s.entry.base + i ≤ s.entry.high
  base_le : s.entry.base ≤ s.entry.high
  cache : ∀ data, s.cache = some data → CacheOk s.disk s.entry data

theorem NewOverview.inv {s : Overview} (h : NewOverview s) : OverviewInv (fun _ => none) s := by
  have hrec : ∀ i, s.record i = 0 := by
    intro i
    rw [Overview.record, h.idx, recordAt_nil]
  refine ⟨h.inode, h.idx_lt, ?_, ?_, ?_, ?_, ?_, ?_⟩
  · intro n article
    rw [hrec]
    constructor
    · intro hn
      cases hn
    · rintro ⟨_, hlen, _⟩
      exact absurd rfl hlen
  · intro _ i
    rw [hrec]
    rfl
  · intro i hi
    rw [hrec] at hi
    exact absurd rfl hi
  · intro i hi
    rw [hrec] at hi
    exact absurd rfl hi
  · rw [h.base]
    exact Nat.zero_le _
  · intro data hdata
    rw [h.cache] at hdata
    cases hdata

/-- Fresh data files have nothing mapped. -/
theorem cacheOk_open {disk : Disk} {entry : GroupEntry} :
    CacheOk disk entry (tdxDataOpen disk entry) :=
  ⟨rfl, rfl, rfl, rfl, le_refl _, fun _ _ => ⟨.inl rfl, .inl rfl⟩⟩

theorem OverviewInv.cacheOpen {articles : Articles} {s : Overview} (h : OverviewInv articles s) :
    CacheOk s.disk s.entry s.cacheOpen := by
  unfold Overview.cacheOpen
  split
  · rename_i data hdata
    exact h.cache data hdata
  · exact cacheOk_open

/-! ## Searching -/

section Mapping

variable {disk : Disk} {entry : GroupEntry} {data : GroupData} {base high : ℕ}

theorem lt_length_of_length_ne {file : List IndexEntry} {i : ℕ}
    (h : (recordAt file i).length ≠ 0) : i < file.length := by
  by_contra hge
  rw [recordAt_of_length_le (Nat.le_of_not_lt hge)] at h
  exact h rfl

/-- Mapping the index file shows all of it. -/
theorem Mapped.mapIndex (h : Mapped disk base high data) (hfd : data.indexfd = disk.idxFile) :
    Mapped disk base high (mapIndex disk data) where
  index := by
    by_cases hlen : (disk.idx data.indexfd).length = 0
    · exact .inl (if_pos hlen)
    · refine .inr ⟨(if_neg hlen).trans (by rw [hfd]), fun i hi _ => ?_⟩
      show i < (disk.idx data.indexfd).length
      rw [hfd]
      exact lt_length_of_length_ne hi
  data := h.data

/-- Mapping the data file shows all of it. -/
theorem Mapped.mapData (h : Mapped disk base high data) (hfd : data.datafd = disk.datFile)
    (hwithin : ∀ i, (recordAt (disk.idx disk.idxFile) i).Within (disk.dat disk.datFile).length) :
    Mapped disk base high (mapData disk data) where
  index := h.index
  data := by
    by_cases hlen : (disk.dat data.datafd).length = 0
    · exact .inl (if_pos hlen)
    · refine .inr ⟨(if_neg hlen).trans (by rw [hfd]), fun i _ => ?_⟩
      show (recordAt (disk.idx disk.idxFile) i).Within (disk.dat data.datafd).length
      rw [hfd]
      exact hwithin i

/-- A `group_data` ready to be searched up to `stop`: its mappings show what there
is up to there, and a file that is not mapped is empty. -/
structure Ready (disk : Disk) (entry : GroupEntry) (data : GroupData) (stop : ℕ) : Prop where
  cache : CacheOk disk entry data
  mapped : Mapped disk entry.base data.high data
  covers : ∀ i, (recordAt (disk.idx disk.idxFile) i).length ≠ 0 → entry.base + i ≤ stop →
    entry.base + i ≤ data.high
  index : data.index = none → (disk.idx disk.idxFile).length = 0
  data : data.data = none → (disk.dat disk.datFile).length = 0

/-- Mapping whatever is not mapped yet makes a `group_data` ready. -/
theorem ready_map (hcache : CacheOk disk entry data)
    (hmapped : Mapped disk entry.base data.high data)
    (hwithin : ∀ i, (recordAt (disk.idx disk.idxFile) i).Within (disk.dat disk.datFile).length)
    {stop : ℕ} (hcovers : ∀ i, (recordAt (disk.idx disk.idxFile) i).length ≠ 0 →
      entry.base + i ≤ stop → entry.base + i ≤ data.high) :
    let data₁ := if data.index.isNone then Tradindexed.mapIndex disk data else data
    let data₂ := if data₁.data.isNone then Tradindexed.mapData disk data₁ else data₁
    Ready disk entry data₂ stop := by
  intro data₁ data₂
  -- first the index
  have h₁ : data₁.indexfd = data.indexfd ∧ data₁.datafd = data.datafd ∧
      data₁.indexinode = data.indexinode ∧ data₁.base = data.base ∧ data₁.high = data.high ∧
      data₁.data = data.data ∧ data₁.remapoutoforder = data.remapoutoforder := by
    simp only [data₁]
    split <;> exact ⟨rfl, rfl, rfl, rfl, rfl, rfl, rfl⟩
  have hm₁ : Mapped disk entry.base data.high data₁ := by
    simp only [data₁]
    split
    · exact hmapped.mapIndex hcache.indexfd
    · exact hmapped
  have he₁ : data₁.index = none → (disk.idx disk.idxFile).length = 0 := by
    simp only [data₁]
    intro hnone
    split at hnone
    · by_contra hlen
      rw [← hcache.indexfd] at hlen
      rw [Tradindexed.mapIndex] at hnone
      simp only [if_neg hlen] at hnone
      cases hnone
    · rename_i hsome
      exact absurd (by rw [hnone]; rfl) hsome
  -- then the data
  have h₂ : data₂.indexfd = data₁.indexfd ∧ data₂.datafd = data₁.datafd ∧
      data₂.indexinode = data₁.indexinode ∧ data₂.base = data₁.base ∧ data₂.high = data₁.high ∧
      data₂.index = data₁.index := by
    simp only [data₂]
    split <;> exact ⟨rfl, rfl, rfl, rfl, rfl, rfl⟩
  have hm₂ : Mapped disk entry.base data.high data₂ := by
    simp only [data₂]
    split
    · exact hm₁.mapData (h₁.2.1.trans hcache.datafd) hwithin
    · exact hm₁
  have he₂ : data₂.data = none → (disk.dat disk.datFile).length = 0 := by
    simp only [data₂]
    intro hnone
    split at hnone
    · by_contra hlen
      rw [← hcache.datafd, ← h₁.2.1] at hlen
      rw [Tradindexed.mapData] at hnone
      simp only [if_neg hlen] at hnone
      cases hnone
    · rename_i hsome
      exact absurd (by rw [hnone]; rfl) hsome
  have hhigh : data₂.high = data.high := h₂.2.2.2.2.1.trans h₁.2.2.2.2.1
  have hm : Mapped disk entry.base data₂.high data₂ := by
    rw [hhigh]
    exact hm₂
  refine ⟨⟨?_, ?_, ?_, ?_, ?_, fun _ _ => hm⟩, hm, ?_, ?_, he₂⟩
  · exact h₂.1.trans (h₁.1.trans hcache.indexfd)
  · exact h₂.2.1.trans (h₁.2.1.trans hcache.datafd)
  · exact h₂.2.2.1.trans (h₁.2.2.1.trans hcache.inode)
  · exact h₂.2.2.2.1.trans (h₁.2.2.2.1.trans hcache.base)
  · rw [hhigh]
    exact hcache.high
  · rw [hhigh]
    exact hcovers
  · intro hnone
    exact he₁ (h₂.2.2.2.2.2.symm.trans hnone)

end Mapping

/-- Opening a search: there is nothing in its range, or the `group_data` is ready
for it. -/
theorem OverviewInv.searchOpen {articles : Articles} {s : Overview} (h : OverviewInv articles s)
    {data : GroupData} (hcache : CacheOk s.disk s.entry data) (start stop : ℕ) :
    ∃ data', CacheOk s.disk s.entry data' ∧
      (((∀ i, (s.record i).length ≠ 0 → s.entry.base + i ≤ stop → s.entry.base + i < start) ∧
        tdxSearchOpen s.disk data start stop s.entry.high = (none, data')) ∨
      (tdxSearchOpen s.disk data start stop s.entry.high =
          (some ⟨stop - s.entry.base, start - s.entry.base⟩, data') ∧
        s.entry.base ≤ stop ∧ Ready s.disk s.entry data' stop)) := by
  unfold tdxSearchOpen
  by_cases hlow : stop < data.base
  · rw [if_pos hlow]
    rw [hcache.base] at hlow
    exact ⟨data, hcache, .inl ⟨fun i _ hi => by omega, rfl⟩⟩
  · rw [if_neg hlow]
    rw [hcache.base] at hlow
    by_cases hrange : stop < start
    · rw [if_pos hrange]
      exact ⟨data, hcache, .inl ⟨fun i _ hi => by omega, rfl⟩⟩
    · rw [if_neg hrange]
      obtain ⟨data₁, heq, hcache₁, hmapped₁, hcovers₁⟩ : ∃ data₁,
          (if (data.high < stop ∧ data.high < s.entry.high) ∨ data.remapoutoforder = true then
            { mapIndex s.disk { data with remapoutoforder := false, data := none, index := none }
              with high := s.entry.high }
          else data) = data₁ ∧ CacheOk s.disk s.entry data₁ ∧
          Mapped s.disk s.entry.base data₁.high data₁ ∧
          ∀ i, (s.record i).length ≠ 0 → s.entry.base + i ≤ stop →
            s.entry.base + i ≤ data₁.high := by
        by_cases hre : (data.high < stop ∧ data.high < s.entry.high) ∨
            data.remapoutoforder = true
        · -- the files are remapped
          rw [if_pos hre]
          have hm : Mapped s.disk s.entry.base s.entry.high
              (mapIndex s.disk { data with remapoutoforder := false, data := none, index := none }) :=
            Mapped.mapIndex ⟨.inl rfl, .inl rfl⟩ hcache.indexfd
          have hm' : Mapped s.disk s.entry.base s.entry.high
              { mapIndex s.disk { data with remapoutoforder := false, data := none, index := none }
                with high := s.entry.high } := ⟨hm.index, hm.data⟩
          exact ⟨_, rfl, ⟨hcache.indexfd, hcache.datafd, hcache.inode, hcache.base, le_refl _,
            fun _ _ => hm'⟩, hm', fun i hi _ => h.high i hi⟩
        · rw [if_neg hre]
          rw [not_or, Bool.not_eq_true] at hre
          have hle : stop ≤ data.high ∨ s.entry.high ≤ data.high := by omega
          have hbase : data.base ≤ data.high := by
            have := h.base_le
            rw [hcache.base]
            omega
          refine ⟨data, rfl, hcache, hcache.mapped hre.2 hbase, fun i hi histop => ?_⟩
          have := h.high i hi
          omega
      rw [heq]
      simp only []
      by_cases hstart : data₁.high < start
      · rw [if_pos hstart]
        exact ⟨data₁, hcache₁, .inl ⟨fun i hi histop => (hcovers₁ i hi histop).trans_lt hstart,
          rfl⟩⟩
      rw [if_neg hstart]
      have hready := ready_map hcache₁ hmapped₁ h.within hcovers₁
      have hres : ∀ d, Ready s.disk s.entry d stop →
          ((some ⟨stop - d.base, if start < d.base then 0 else start - d.base⟩, d) :
            Option Search × GroupData) =
          (some ⟨stop - s.entry.base, start - s.entry.base⟩, d) := by
        intro d hd
        have hsub : (if start < d.base then 0 else start - d.base) = start - s.entry.base := by
          rw [hd.cache.base]
          split <;> omega
        rw [hsub, hd.cache.base]
      exact ⟨_, hready.cache, .inr ⟨hres _ hready, by omega, hready⟩⟩

/-- The articles in a range, by their position in the index file. -/
theorem OverviewInv.held_iff {articles : Articles} {s : Overview} (h : OverviewInv articles s)
    {low high : ℕ} (hbase : s.entry.base ≤ high) (article : Article) :
    (low ≤ article.number ∧ article.number ≤ high ∧
        articles article.number = some article) ↔
      ∃ i, low - s.entry.base ≤ i ∧ i ≤ high - s.entry.base ∧ (s.record i).length ≠ 0 ∧
        article = (s.record i).article (s.disk.dat s.disk.datFile) (i + s.entry.base) := by
  constructor
  · rintro ⟨hlo, hhi, hart⟩
    obtain ⟨hb, hlen, heq⟩ := (h.holds _ _).mp hart
    refine ⟨article.number - s.entry.base, by omega, by omega, hlen, ?_⟩
    rw [Nat.sub_add_cancel hb]
    exact heq
  · rintro ⟨i, hlo, hhi, hlen, rfl⟩
    have hnumber : ((s.record i).article (s.disk.dat s.disk.datFile)
        (i + s.entry.base)).number = i + s.entry.base := rfl
    rw [hnumber, h.holds, Nat.add_sub_cancel]
    exact ⟨by omega, by omega, Nat.le_add_left _ _, hlen, rfl⟩

theorem searchAll_unmapped {disk : Disk} {fuel : ℕ} {data : GroupData} {search : Search}
    (h : data.index = none ∨ data.data = none) :
    searchAll disk (fuel + 1) data search = ([], data) := by
  rw [searchAll, tdxSearch_unmapped h]

/-- A `group_data` that is ready yields the entries of the range. -/
theorem Ready.searchAll {disk : Disk} {entry : GroupEntry} {data : GroupData} {low high : ℕ}
    (h : Ready disk entry data high) (hbase : entry.base ≤ high)
    (hwithin : ∀ i, (recordAt (disk.idx disk.idxFile) i).Within (disk.dat disk.datFile).length) :
    ∃ result, searchAll disk (data.indexlen + 1) data
        ⟨high - entry.base, low - entry.base⟩ = (result, data) ∧
      result.Pairwise (fun a b => a.number < b.number) ∧
      ∀ article, article ∈ result ↔ ∃ i, low - entry.base ≤ i ∧ i ≤ high - entry.base ∧
        (recordAt (disk.idx disk.idxFile) i).length ≠ 0 ∧
        article = (recordAt (disk.idx disk.idxFile) i).article (disk.dat disk.datFile)
          (i + entry.base) := by
  -- a file that is not mapped is empty, so no entry is left out
  have hnone : data.index = none ∨ data.data = none →
      ∀ i, (recordAt (disk.idx disk.idxFile) i).length = 0 := by
    intro hn i
    by_contra hlen
    rcases hn with hidx | hdat
    · have := lt_length_of_length_ne hlen
      have := h.index hidx
      omega
    · have := hwithin i hlen
      have := h.data hdat
      omega
  by_cases hn : data.index = none ∨ data.data = none
  · refine ⟨[], searchAll_unmapped hn, List.Pairwise.nil, ?_⟩
    intro article
    constructor
    · intro hmem
      cases hmem
    · rintro ⟨i, _, _, hlen, _⟩
      exact absurd (hnone hn i) hlen
  · rw [not_or] at hn
    obtain ⟨hidx, hcover⟩ := h.mapped.index.resolve_left hn.1
    obtain ⟨hdat, hin⟩ := h.mapped.data.resolve_left hn.2
    obtain ⟨hdata, hsorted, hmem⟩ := @searchAll_spec _ _
      ⟨high - entry.base, low - entry.base⟩ _ _ (data.indexlen + 1) hidx hdat
      (by simp only; omega) (by
        intro i _ hlimit _ hlen
        have hle : i ≤ high - entry.base := hlimit
        exact hin i (h.covers i hlen (by omega)) hlen)
    refine ⟨_, Prod.ext rfl hdata, hsorted, ?_⟩
    intro article
    rw [hmem, h.cache.base]
    constructor
    · rintro ⟨i, hlo, hhi, _, hlen, heq⟩
      exact ⟨i, hlo, hhi, hlen, heq⟩
    · rintro ⟨i, hlo, hhi, hlen, heq⟩
      exact ⟨i, hlo, hhi, hcover i hlen (h.covers i hlen (by omega)), hlen, heq⟩

/-- The search returns the articles in its range; only the `group_data` changes. -/
theorem OverviewInv.search {articles : Articles} {s : Overview} (h : OverviewInv articles s)
    (low high : ℕ) :
    ∃ result data, tradindexedSearch s low high = (result, { s with cache := some data }) ∧
      CacheOk s.disk s.entry data ∧
      result.Pairwise (fun a b => a.number < b.number) ∧
      ∀ article, article ∈ result ↔ low ≤ article.number ∧ article.number ≤ high ∧
        articles article.number = some article := by
  have hcache := h.cacheOpen
  unfold tradindexedSearch tradindexedOpensearch
  simp only []
  rw [if_neg (fun hne => hne.1 hcache.base.symm)]
  obtain ⟨data, hcache', ⟨hout, heq⟩ | ⟨heq, hbase, hready⟩⟩ := h.searchOpen hcache low high
  · -- no search: nothing is in the range
    rw [heq]
    refine ⟨[], _, rfl, hcache', List.Pairwise.nil, ?_⟩
    intro article
    constructor
    · intro hmem
      cases hmem
    · rintro ⟨hlo, hhi, hart⟩
      obtain ⟨hb, hlen, _⟩ := (h.holds _ _).mp hart
      have := hout _ hlen (by omega)
      omega
  · rw [heq]
    simp only [Overview.cacheOpen]
    obtain ⟨result, hall, hsorted, hmem⟩ := hready.searchAll hbase h.within
    rw [hall]
    refine ⟨result, data, rfl, hready.cache, hsorted, ?_⟩
    intro article
    rw [hmem, h.held_iff hbase]
    rfl

/-! ## Adding an article -/

/-- Appending to the data does not change what an entry describes. -/
theorem IndexEntry.Within.article_append {entry : IndexEntry} {dat : List UInt8}
    (h : entry.Within dat.length) (hlen : entry.length ≠ 0) (more : List UInt8) (n : ℕ) :
    entry.article (dat ++ more) n = entry.article dat n := by
  have hle := h hlen
  unfold IndexEntry.article
  rw [List.drop_append_of_le_length (by omega), List.take_append_of_le_length (by
    rw [List.length_drop]
    omega)]

/-- The entry written for an article describes it. -/
theorem article_stored (dat : List UInt8) (article : Article) :
    (IndexEntry.mk dat.length article.overview.length article.arrived article.expires
      article.token).article (dat ++ article.overview) article.number = article := by
  unfold IndexEntry.article
  rw [List.drop_left, List.take_length]

/-- The `group_data` an article is stored through: open on the files, and with
nothing stale mapped if it will not be remapped. -/
structure Storing (disk : Disk) (entry : GroupEntry) (data : GroupData) (n : ℕ) : Prop where
  indexfd : data.indexfd = disk.idxFile
  datafd : data.datafd = disk.datFile
  inode : data.indexinode = disk.idxFile
  base : data.base = entry.base
  high : data.high ≤ entry.high
  mapped : data.remapoutoforder = false → data.high ≤ n → storeBase data n ≤ data.high →
    Mapped disk entry.base data.high data ∧
      (data.high < n ∨ (data.index = none ∧ data.data = none))

/-- Storing an article adds it to the map. -/
theorem OverviewInv.store {articles : Articles} {s : Overview} (h : OverviewInv articles s)
    {data : GroupData} {article : Article} (hs : Storing s.disk s.entry data article.number)
    (hpos : 1 ≤ article.number) (hov : article.overview ≠ [])
    (hbase : s.entry.base ≤ article.number) :
    OverviewInv (update articles article.number (some article))
      { s with
        disk := stored s.disk data article
        entry := addedEntry s.entry (storeBase data article.number) article.number
        cache := some (addedData data article.number) } := by
  obtain ⟨b, hb⟩ : ∃ b, b = storeBase data article.number := ⟨_, rfl⟩
  have hb' : b = if s.entry.base = 0 then indexBase article.number else s.entry.base := by
    rw [hb, storeBase, hs.base]
  have hle : b ≤ article.number := by
    rw [hb']
    split
    · exact indexBase_le hpos
    · exact hbase
  have hbpos : b ≠ 0 := hb ▸ storeBase_pos data article.number
  have hentry : (addedEntry s.entry b article.number).base = b := by
    show (if s.entry.base = 0 then b else s.entry.base) = b
    split
    · rfl
    · rename_i hne
      rw [hb', if_neg hne]
  have hidx : (stored s.disk data article).idx s.disk.idxFile =
      pwrite (s.disk.idx s.disk.idxFile) (article.number - b)
        ⟨(s.disk.dat s.disk.datFile).length, article.overview.length, article.arrived,
          article.expires, article.token⟩ := by
    rw [hb, ← hs.indexfd, ← hs.datafd]
    exact idx_stored_self
  have hdat : (stored s.disk data article).dat s.disk.datFile =
      s.disk.dat s.disk.datFile ++ article.overview := by
    rw [← hs.datafd]
    exact dat_stored_self
  have hnew : ∀ i, recordAt ((stored s.disk data article).idx s.disk.idxFile) i =
      if i = article.number - b then
        ⟨(s.disk.dat s.disk.datFile).length, article.overview.length, article.arrived,
          article.expires, article.token⟩
      else s.record i := by
    intro i
    rw [hidx, recordAt_pwrite]
    rfl
  -- an entry that was there already keeps its number
  have hold : ∀ i, (s.record i).length ≠ 0 → b = s.entry.base := by
    intro i hi
    have hne : s.entry.base ≠ 0 := fun hzero => hi (h.empty hzero i)
    rw [hb', if_neg hne]
  have hovlen : article.overview.length ≠ 0 := fun hlen => hov (List.length_eq_zero_iff.mp hlen)
  rw [← hb]
  refine ⟨h.inode, h.idx_lt, ?_, ?_, ?_, ?_, ?_, ?_⟩
  · -- the articles
    intro m art
    show update articles article.number (some article) m = some art ↔
      (addedEntry s.entry b article.number).base ≤ m ∧
        (recordAt ((stored s.disk data article).idx s.disk.idxFile)
          (m - (addedEntry s.entry b article.number).base)).length ≠ 0 ∧
        art = (recordAt ((stored s.disk data article).idx s.disk.idxFile)
          (m - (addedEntry s.entry b article.number).base)).article
            ((stored s.disk data article).dat s.disk.datFile) m
    rw [hentry, hnew, hdat]
    by_cases hm : m = article.number
    · subst hm
      rw [update_self, if_pos rfl, article_stored, Option.some.injEq]
      constructor
      · rintro rfl
        exact ⟨hle, hovlen, rfl⟩
      · rintro ⟨_, _, rfl⟩
        rfl
    · rw [update_of_ne hm, h.holds]
      constructor
      · rintro ⟨hbm, hlen, rfl⟩
        rw [hold _ hlen, if_neg (by omega)]
        exact ⟨hbm, hlen, ((h.within _).article_append hlen _ m).symm⟩
      · rintro ⟨hbm, hlen, heq⟩
        rw [if_neg (by omega)] at hlen heq
        have hbeq := hold _ hlen
        rw [hbeq] at hbm hlen heq
        rw [(h.within _).article_append hlen] at heq
        exact ⟨hbm, hlen, heq⟩
  · intro hzero
    exact absurd (hentry.symm.trans hzero) hbpos
  · intro i
    show (recordAt ((stored s.disk data article).idx s.disk.idxFile) i).Within
      ((stored s.disk data article).dat s.disk.datFile).length
    rw [hnew, hdat, List.length_append]
    split
    · intro _
      exact le_refl _
    · intro hi
      exact (h.within i hi).trans (Nat.le_add_right _ _)
  · intro i hi
    replace hi : (recordAt ((stored s.disk data article).idx s.disk.idxFile) i).length ≠ 0 := hi
    rw [hnew] at hi
    show (addedEntry s.entry b article.number).base + i ≤
      if s.entry.high < article.number then article.number else s.entry.high
    rw [hentry]
    split at hi
    · split <;> omega
    · have := h.high i hi
      have := hold i hi
      split <;> omega
  · show (addedEntry s.entry b article.number).base ≤
      if s.entry.high < article.number then article.number else s.entry.high
    rw [hentry]
    split <;> omega
  · -- the cached data
    rintro d ⟨⟩
    refine ⟨hs.indexfd, hs.datafd, hs.inode, hb.symm.trans hentry.symm, ?_, ?_⟩
    · show data.high ≤ if s.entry.high < article.number then article.number else s.entry.high
      have := hs.high
      split <;> omega
    · intro hflag hhigh
      obtain ⟨hflag₁, hflag₂⟩ := Bool.or_eq_false_iff.mp hflag
      have hge : data.high ≤ article.number := Nat.le_of_not_lt (of_decide_eq_false hflag₂)
      obtain ⟨hmapped, hunseen⟩ := hs.mapped hflag₁ hge hhigh
      show Mapped (stored s.disk data article) (addedEntry s.entry b article.number).base data.high
        (addedData data article.number)
      rw [hentry]
      rcases hunseen with hlt | ⟨hi, hd⟩
      · -- the new article is past the high mark of the cache
        have hsame : ∀ i, b + i ≤ data.high →
            recordAt ((stored s.disk data article).idx s.disk.idxFile) i = s.record i := by
          intro i hi
          rw [hnew, if_neg (by omega)]
        refine ⟨hmapped.index.imp_right ?_, hmapped.data.imp_right ?_⟩
        · rintro ⟨hidx', hcover⟩
          refine ⟨hidx', fun i hi hbi => ?_⟩
          replace hi : (recordAt ((stored s.disk data article).idx s.disk.idxFile) i).length ≠ 0 := hi
          rw [hsame i hbi] at hi
          have hbeq := hold i hi
          exact hcover i hi (by omega)
        · rintro ⟨hdat', hin⟩
          refine ⟨hdat', fun i hbi => ?_⟩
          show (recordAt ((stored s.disk data article).idx s.disk.idxFile) i).Within data.datalen
          rw [hsame i hbi]
          intro hi
          have hbeq := hold i hi
          exact hin i (by omega) hi
      · exact ⟨.inl hi, .inl hd⟩

/-! ## Packing -/

/-- Packing keeps the map: the entries move up as the base goes down. -/
theorem OverviewInv.pack {articles : Articles} {s : Overview} (h : OverviewInv articles s)
    {data : GroupData} (hcache : CacheOk s.disk s.entry data) {n : ℕ} (hpos : 1 ≤ n)
    (hlow : n < s.entry.base) :
    OverviewInv articles
      { s with
        disk := repacked s.disk data n
        entry := { s.entry with indexinode := s.disk.fresh, base := indexBase n }
        cache := none } := by
  have hle := indexBase_le hpos
  obtain ⟨delta, hdelta⟩ : ∃ delta, delta = s.entry.base - indexBase n := ⟨_, rfl⟩
  have hsum : s.entry.base = indexBase n + delta := by omega
  have hrec : ∀ i, recordAt ((repacked s.disk data n).idx s.disk.fresh) i =
      if i < delta then 0 else s.record (i - delta) := by
    intro i
    have hidx : (repacked s.disk data n).idx s.disk.fresh =
        packed (s.disk.idx data.indexfd) (data.base - indexBase n) := update_self _ _ _
    rw [hidx, hcache.indexfd, hcache.base, ← hdelta, recordAt_packed]
    rfl
  refine ⟨rfl, Nat.lt_succ_self _, ?_, ?_, ?_, ?_, ?_, ?_⟩
  · intro m article
    show articles m = some article ↔ indexBase n ≤ m ∧
      (recordAt ((repacked s.disk data n).idx s.disk.fresh) (m - indexBase n)).length ≠ 0 ∧
      article = (recordAt ((repacked s.disk data n).idx s.disk.fresh) (m - indexBase n)).article
        (s.disk.dat s.disk.datFile) m
    rw [hrec, h.holds]
    constructor
    · rintro ⟨hb, hlen, heq⟩
      rw [if_neg (by omega), show m - indexBase n - delta = m - s.entry.base by omega]
      exact ⟨by omega, hlen, heq⟩
    · rintro ⟨hb, hlen, heq⟩
      split at hlen
      · exact absurd rfl hlen
      · rename_i hge
        rw [if_neg hge] at heq
        rw [show m - indexBase n - delta = m - s.entry.base by omega] at hlen heq
        exact ⟨by omega, hlen, heq⟩
  · intro hzero
    exact absurd hzero (indexBase_pos n)
  · intro i
    show (recordAt ((repacked s.disk data n).idx s.disk.fresh) i).Within
      (s.disk.dat s.disk.datFile).length
    rw [hrec]
    split
    · intro hlen
      exact absurd rfl hlen
    · exact h.within _
  · intro i hi
    replace hi : (recordAt ((repacked s.disk data n).idx s.disk.fresh) i).length ≠ 0 := hi
    rw [hrec] at hi
    show indexBase n + i ≤ s.entry.high
    split at hi
    · exact absurd rfl hi
    · have := h.high _ hi
      omega
  · show indexBase n ≤ s.entry.high
    have := h.base_le
    omega
  · intro data hdata
    cases hdata

/-- The `group_data` after packing. -/
def packedData (disk : Disk) (data : GroupData) (n : ℕ) : GroupData :=
  { mapIndex disk { data with index := none } with
    base := indexBase n, indexinode := disk.fresh, indexfd := disk.fresh }

/-- A cached `group_data` that notices the article is fit to store it. -/
theorem storing_of_notices {disk : Disk} {entry : GroupEntry} {data : GroupData} {n : ℕ}
    (hcache : CacheOk disk entry data) (hn : data.Notices entry.base n) :
    Storing disk entry data n where
  indexfd := hcache.indexfd
  datafd := hcache.datafd
  inode := hcache.inode
  base := hcache.base
  high := hcache.high
  mapped := by
    intro hflag hle hstore
    rcases hn with hf | hlt | ⟨hlt, _⟩ | ⟨heq, _, hidx, hdat⟩
    · rw [hflag] at hf
      cases hf
    · omega
    · refine ⟨hcache.mapped hflag ?_, .inl hlt⟩
      rw [storeBase] at hstore
      split at hstore
      · omega
      · exact hstore
    · exact ⟨⟨.inl hidx, .inl hdat⟩, .inr ⟨hidx, hdat⟩⟩

/-- Such a `group_data` is fit to store the article after packing too. -/
theorem storing_packed {disk : Disk} {entry : GroupEntry} {data : GroupData} {n : ℕ}
    (hcache : CacheOk disk entry data) (hn : data.Notices entry.base n) (hlow : n < entry.base) :
    Storing (repacked disk data n) { entry with indexinode := disk.fresh, base := indexBase n }
      (packedData disk data n) n where
  indexfd := rfl
  datafd := hcache.datafd
  inode := rfl
  base := rfl
  high := hcache.high
  mapped := by
    intro hflag hle hstore
    replace hflag : data.remapoutoforder = false := hflag
    replace hle : data.high ≤ n := hle
    have hbase : storeBase (packedData disk data n) n = indexBase n := by
      show (if indexBase n = 0 then indexBase n else indexBase n) = indexBase n
      rw [ite_self]
    rw [hbase] at hstore
    replace hstore : indexBase n ≤ data.high := hstore
    rcases hn with hf | hlt | ⟨_, hlt⟩ | ⟨_, hge, _⟩
    · rw [hflag] at hf
      cases hf
    · omega
    · have := hlt hlow
      omega
    · omega

/-- Fresh data files notice every article that does not need packing. -/
theorem notices_open {disk : Disk} {entry : GroupEntry} {n : ℕ} (hbase : entry.base ≤ entry.high) :
    (tdxDataOpen disk entry).Notices entry.base n := by
  rcases Nat.lt_trichotomy n entry.high with hlt | heq | hgt
  · exact .inr (.inl hlt)
  · exact .inr (.inr (.inr ⟨heq.symm, heq ▸ hbase, rfl, rfl⟩))
  · exact .inr (.inr (.inl ⟨hgt, fun hlow => by omega⟩))

/-! ## The calls -/

/-- Adding an article that the `group_data` notices puts it into the map. -/
theorem OverviewInv.add {articles : Articles} {s : Overview} (h : OverviewInv articles s)
    {data : GroupData} (hcache : CacheOk s.disk s.entry data) {article : Article}
    (hpos : 1 ≤ article.number) (hov : article.overview ≠ [])
    (hn : data.Notices s.entry.base article.number) :
    ∃ disk entry data', tdxDataAdd s.disk s.entry data article = (true, disk, entry, data') ∧
      OverviewInv (update articles article.number (some article))
        { s with disk := disk, entry := entry, cache := some data' } := by
  have hsame : ¬ s.entry.indexinode ≠ data.indexinode := by
    rw [h.inode, hcache.inode]
    exact fun hne => hne rfl
  rw [tdxDataAdd_eq]
  simp only [if_neg hsame]
  by_cases hlow : article.number < s.entry.base
  · -- the index is packed first
    have hstoring := storing_packed hcache hn hlow
    have hle : storeBase (packedData s.disk data article.number) article.number ≤
        article.number := by
      show (if indexBase article.number = 0 then indexBase article.number
        else indexBase article.number) ≤ article.number
      rw [ite_self]
      exact indexBase_le hpos
    rw [if_pos hlow, tdxDataPack_of_lt (hcache.base ▸ hlow)]
    exact ⟨_, _, _, addCurrent_of_le hle,
      (h.pack hcache hpos hlow).store hstoring hpos hov (indexBase_le hpos)⟩
  · have hge : s.entry.base ≤ article.number := Nat.le_of_not_lt hlow
    have hle : storeBase data article.number ≤ article.number := by
      rw [storeBase, hcache.base]
      split
      · exact indexBase_le hpos
      · exact hge
    rw [if_neg hlow]
    exact ⟨_, _, _, addCurrent_of_le hle,
      h.store (storing_of_notices hcache hn) hpos hov hge⟩

/-- Cancelling an article takes it out of the map, whether it is there or not. -/
theorem OverviewInv.cancel {articles : Articles} {s : Overview} (h : OverviewInv articles s)
    (n : ℕ) : OverviewInv (update articles n none) (tradindexedCancel s n).2 := by
  obtain ⟨data, hdata⟩ : ∃ data, data =
      if s.cacheOpen.high < n then tdxDataOpen s.disk s.entry else s.cacheOpen := ⟨_, rfl⟩
  have hcache : CacheOk s.disk s.entry data := by
    rw [hdata]
    split
    · exact cacheOk_open
    · exact h.cacheOpen
  have hhigh : data.high < n → s.entry.high < n := by
    rw [hdata]
    split
    · exact id
    · intro hlt
      contradiction
  unfold tradindexedCancel
  simp only [← hdata]
  unfold tdxDataCancel
  split
  · -- no such article
    rename_i disk hfalse
    split at hfalse
    · rename_i hout
      obtain ⟨-, rfl⟩ := Prod.mk.inj hfalse
      have hnone : articles n = none := by
        by_contra hne
        obtain ⟨article, hart⟩ := Option.ne_none_iff_exists'.mp hne
        obtain ⟨hb, hlen, -⟩ := (h.holds _ _).mp hart
        rw [hcache.base] at hout
        rcases hout with hzero | hlt | hgt
        · exact hlen (h.empty hzero _)
        · omega
        · have := h.high _ hlen
          have := hhigh hgt
          omega
      rw [← hnone, Function.update_eq_self]
      exact ⟨h.inode, h.idx_lt, h.holds, h.empty, h.within, h.high, h.base_le, by
        rintro d ⟨⟩
        exact hcache⟩
    · cases hfalse
  · rename_i disk htrue
    split at htrue
    · cases htrue
    · rename_i hin
      obtain ⟨-, rfl⟩ := Prod.mk.inj htrue
      rw [hcache.base] at hin
      have hrec : ∀ i, recordAt ((s.disk.setIdx data.indexfd (pwrite (s.disk.idx data.indexfd)
          (n - data.base) 0)).idx s.disk.idxFile) i =
          if i = n - s.entry.base then 0 else s.record i := by
        intro i
        have hidx : (s.disk.setIdx s.disk.idxFile (pwrite (s.disk.idx s.disk.idxFile)
            (n - s.entry.base) 0)).idx s.disk.idxFile =
            pwrite (s.disk.idx s.disk.idxFile) (n - s.entry.base) 0 := update_self _ _ _
        rw [hcache.indexfd, hcache.base, hidx, recordAt_pwrite]
        rfl
      refine ⟨h.inode, h.idx_lt, ?_, ?_, ?_, ?_, h.base_le, ?_⟩
      · intro m article
        show update articles n none m = some article ↔ s.entry.base ≤ m ∧
          (recordAt ((s.disk.setIdx data.indexfd (pwrite (s.disk.idx data.indexfd)
            (n - data.base) 0)).idx s.disk.idxFile) (m - s.entry.base)).length ≠ 0 ∧
          article = (recordAt ((s.disk.setIdx data.indexfd (pwrite (s.disk.idx data.indexfd)
            (n - data.base) 0)).idx s.disk.idxFile) (m - s.entry.base)).article
              (s.disk.dat s.disk.datFile) m
        rw [hrec]
        by_cases hm : m = n
        · subst hm
          rw [update_self, if_pos rfl]
          constructor
          · intro hnone
            cases hnone
          · rintro ⟨_, hlen, _⟩
            exact absurd rfl hlen
        · rw [update_of_ne hm, h.holds]
          constructor
          · rintro ⟨hb, hlen, heq⟩
            rw [if_neg (by omega)]
            exact ⟨hb, hlen, heq⟩
          · rintro ⟨hb, hlen, heq⟩
            rw [if_neg (by omega)] at hlen heq
            exact ⟨hb, hlen, heq⟩
      · intro hzero
        exact absurd hzero (fun hz => hin (.inl hz))
      · intro i
        show (recordAt ((s.disk.setIdx data.indexfd (pwrite (s.disk.idx data.indexfd)
            (n - data.base) 0)).idx s.disk.idxFile) i).Within (s.disk.dat s.disk.datFile).length
        rw [hrec]
        split
        · intro hlen
          exact absurd rfl hlen
        · exact h.within i
      · intro i hi
        replace hi : (recordAt ((s.disk.setIdx data.indexfd (pwrite (s.disk.idx data.indexfd)
            (n - data.base) 0)).idx s.disk.idxFile) i).length ≠ 0 := hi
        rw [hrec] at hi
        split at hi
        · exact absurd rfl hi
        · exact h.high i hi
      · rintro d ⟨⟩
        exact cacheOk_open

/-- One safe call keeps the invariant, for the map the call leaves. -/
theorem OverviewInv.next {articles : Articles} {s s' : Overview} (h : OverviewInv articles s)
    {call : OvCall} (hsafe : AddSafe s call) (hnext : OvNext s call s') :
    OverviewInv (call.apply articles) s' := by
  cases call with
  | add article cut ok =>
    obtain ⟨hcut, hadd⟩ := hnext
    unfold tradindexedAdd at hadd
    rcases hc : s.cut article.number with _ | _
    · rw [if_neg (by rw [hc]; exact Bool.false_ne_true)] at hadd
      rw [hc] at hcut
      subst hcut
      obtain ⟨hpos, hov, hn⟩ := hsafe.resolve_left Bool.false_ne_true
      have hnotices : s.cacheOpen.Notices s.entry.base article.number := by
        unfold Overview.cacheOpen
        split
        · rename_i data hdata
          exact hn data hdata
        · exact notices_open h.base_le
      obtain ⟨disk, entry, data, heq, hinv⟩ := h.add h.cacheOpen hpos hov hnotices
      rw [heq] at hadd
      obtain ⟨rfl, rfl⟩ := Prod.mk.inj hadd
      rw [OvCall.apply, if_pos ⟨rfl, rfl⟩]
      exact hinv
    · -- below the low mark: not added
      rw [if_pos hc] at hadd
      obtain ⟨rfl, rfl⟩ := Prod.mk.inj hadd
      rw [OvCall.apply, if_neg (fun hne => by rw [hcut, hc] at hne; cases hne.2)]
      exact h
  | cancel artnum ok =>
    replace hnext : tradindexedCancel s artnum = (ok, s') := hnext
    have hinv := h.cancel artnum
    rw [hnext] at hinv
    exact hinv
  | search low high result =>
    obtain ⟨result', data, heq, hcache, -⟩ := h.search low high
    obtain ⟨-, rfl⟩ := Prod.mk.inj (heq.symm.trans hnext)
    exact ⟨h.inode, h.idx_lt, h.holds, h.empty, h.within, h.high, h.base_le, by
      rintro d ⟨⟩
      exact hcache⟩
  | evict =>
    replace hnext : s' = { s with cache := none } := hnext
    subst hnext
    exact ⟨h.inode, h.idx_lt, h.holds, h.empty, h.within, h.high, h.base_le, fun d hd => by
      cases hd⟩

/-- The invariant holds in every run whose adds are safe. -/
theorem overviewInv_of_steps {s₀ s : Overview} {calls : List OvCall} (h : NewOverview s₀)
    (hrun : Steps (guarded AddSafe OvNext) s₀ calls s) : OverviewInv (holding calls) s := by
  refine @Steps.invariant_hist _ _ _ (fun calls s => OverviewInv (holding calls) s) _ _ _ ?_ hrun
    h.inv
  intro calls s call s' hstep hinv
  rw [holding_concat]
  exact hinv.next hstep.1 hstep.2

/-- A group keeps its overview as long as every article added is noticed by the
cached `group_data`. -/
theorem safe_adds_keep_overview {s₀ s s' : Overview} {calls : List OvCall} {low high : ℕ}
    {result : List Article} (hnew : NewOverview s₀)
    (hrun : Steps (guarded AddSafe OvNext) s₀ calls s)
    (hsearch : OvNext s (.search low high result) s') :
    result.Pairwise (fun a b => a.number < b.number) ∧
      ∀ article, article ∈ result ↔ low ≤ article.number ∧ article.number ≤ high ∧
        holding calls article.number = some article := by
  have hinv := overviewInv_of_steps hnew hrun
  obtain ⟨result', data, heq, -, hsorted, hmem⟩ := hinv.search low high
  replace hsearch : tradindexedSearch s low high = (result, s') := hsearch
  obtain ⟨rfl, -⟩ := Prod.mk.inj (heq.symm.trans hsearch)
  exact ⟨hsorted, hmem⟩

/-! ## An article that is never found -/

/-- A group created with high mark 2, without articles. -/
def lateGroup : Overview where
  disk := ⟨fun _ => [], fun _ => [], 0, 0, 1⟩
  entry := { (0 : GroupEntry) with low := 1, high := 2 }
  cache := none
  cutoff := false

/-- An article with one byte of overview. -/
def shortArticle (n : ℕ) : Article := ⟨n, [33], 0, 0, 0⟩

theorem safe_adds_keep_overview_one : [shortArticle 1].Pairwise (fun a b => a.number < b.number) ∧
    ∀ article, article ∈ [shortArticle 1] ↔ 1 ≤ article.number ∧ article.number ≤ 1 ∧
      holding [.add (shortArticle 1) false true] article.number = some article := by
  have hnew : NewOverview lateGroup := ⟨rfl, rfl, rfl, by decide, rfl⟩
  have hadd : OvNext lateGroup (.add (shortArticle 1) false true)
      (tradindexedAdd lateGroup (shortArticle 1)).2 := by
    exact ⟨rfl, Prod.ext (show (tradindexedAdd lateGroup (shortArticle 1)).1 = true by decide) rfl⟩
  have hsafe : AddSafe lateGroup (.add (shortArticle 1) false true) :=
    .inr ⟨le_refl 1, List.cons_ne_nil _ _, fun data hdata => nomatch hdata⟩
  have hsearch : OvNext (tradindexedAdd lateGroup (shortArticle 1)).2
      (.search 1 1 [shortArticle 1])
      (tradindexedSearch (tradindexedAdd lateGroup (shortArticle 1)).2 1 1).2 :=
    Prod.ext (by decide) rfl
  exact safe_adds_keep_overview hnew (.single ⟨hsafe, hadd⟩) hsearch

/-- The search for article 1 maps the files, and article 2 is not past the high
mark they were mapped with. -/
theorem unnoticed_article_is_not_found : ¬ KeepsOverview OvNext := by
  intro hkeeps
  have hnew : NewOverview lateGroup := ⟨rfl, rfl, rfl, by decide, rfl⟩
  obtain ⟨s₁, hs₁⟩ : ∃ s, s = (tradindexedAdd lateGroup (shortArticle 1)).2 := ⟨_, rfl⟩
  obtain ⟨s₂, hs₂⟩ : ∃ s, s = (tradindexedSearch s₁ 1 1).2 := ⟨_, rfl⟩
  obtain ⟨s₃, hs₃⟩ : ∃ s, s = (tradindexedAdd s₂ (shortArticle 2)).2 := ⟨_, rfl⟩
  have h₁ : OvNext lateGroup (.add (shortArticle 1) false true) s₁ :=
    ⟨rfl, Prod.ext (show (tradindexedAdd lateGroup (shortArticle 1)).1 = true by decide) hs₁.symm⟩
  have h₂ : OvNext s₁ (.search 1 1 _) s₂ := Prod.ext rfl hs₂.symm
  have h₃ : OvNext s₂ (.add (shortArticle 2) false true) s₃ := by
    refine ⟨?_, Prod.ext (show (tradindexedAdd s₂ (shortArticle 2)).1 = true from ?_) hs₃.symm⟩
    · rw [hs₂, hs₁]
      decide
    · rw [hs₂, hs₁]
      decide
  have hlast : OvNext s₃ (.search 2 2 []) (tradindexedSearch s₃ 2 2).2 := by
    refine Prod.ext ?_ rfl
    rw [hs₃, hs₂, hs₁]
    decide
  obtain ⟨-, hmem⟩ := hkeeps lateGroup hnew _ s₃ (((Steps.single h₁).snoc h₂).snoc h₃) 2 2 [] _
    hlast (by rw [hs₃, hs₂, hs₁]; decide)
  have hfound : shortArticle 2 ∈ [] :=
    (hmem (shortArticle 2)).mpr ⟨le_refl _, le_refl _, rfl⟩
  cases hfound

end Inn.Tradindexed
