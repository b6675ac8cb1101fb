import Mathlib.Tactic.Linarith
import Inn.Tradindexed.Data

/-!
# Inn.Tradindexed.Search — what a search returns

With both files mapped and every entry it meets inside the mapped data, a search
returns the non-empty entries between its position and its limit, in order.

* `tdxSearch_spec` — one call;
* `searchAll_spec` — calls until there is no next article.
-/

namespace Inn.Tradindexed

/-! ## The loop over empty entries -/

/-- The loop stops at the first entry that is not empty, or past the range. -/
theorem skipEmpty_spec (file : List IndexEntry) (limit max : ℕ) {fuel current : ℕ}
    (hfuel : max + 1 ≤ fuel + current) :
    current ≤ skipEmpty file limit max fuel current ∧
      (∀ i, current ≤ i → i < skipEmpty file limit max fuel current →
        (recordAt file i).length = 0) ∧
      (skipEmpty file limit max fuel current ≤ limit →
        skipEmpty file limit max fuel current ≤ max →
        (recordAt file (skipEmpty file limit max fuel current)).length ≠ 0) := by
  induction fuel generalizing current with
  | zero =>
    rw [skipEmpty]
    refine ⟨le_refl _, ?_, ?_⟩
    · intro i hlo hhi
      omega
    · intro _ hmax
      omega
  | succ fuel ih =>
    rw [skipEmpty]
    split
    · split
      · rename_i hne
        refine ⟨le_refl _, ?_, fun _ _ => hne⟩
        intro i hlo hhi
        omega
      · rename_i hzero
        obtain ⟨hle, hskip, hstop⟩ := @ih (current + 1) (by omega)
        refine ⟨by omega, ?_, hstop⟩
        intro i hlo hhi
        rcases Nat.eq_or_lt_of_le hlo with rfl | hlt
        · exact not_not.mp hzero
        · exact hskip i hlt hhi
    · rename_i hout
      refine ⟨le_refl _, ?_, ?_⟩
      · intro i hlo hhi
        omega
      · intro hl hm
        exact absurd ⟨hl, hm⟩ hout

/-! ## One call -/

/-- The overview of the entry lies within `n` bytes of data. -/
def IndexEntry.Within (entry : IndexEntry) (n : ℕ) : Prop :=
  entry.length ≠ 0 → entry.offset + entry.length ≤ n

/-- The next call finds the first non-empty entry of the range, or there is none. -/
theorem tdxSearch_spec {disk : Disk} {data : GroupData} {search : Search} {idx dat : ℕ}
    (hidx : data.index = some idx) (hdat : data.data = some dat)
    (hin : ∀ i, search.current ≤ i → i ≤ search.limit → i < data.indexlen →
      (recordAt (disk.idx idx) i).Within data.datalen) :
    (∃ c, search.current ≤ c ∧ c ≤ search.limit ∧ c < data.indexlen ∧
      (recordAt (disk.idx idx) c).length ≠ 0 ∧
      (∀ i, search.current ≤ i → i < c → (recordAt (disk.idx idx) i).length = 0) ∧
      tdxSearch disk data search =
        (some ((recordAt (disk.idx idx) c).article (disk.dat dat) (c + data.base)),
          { search with current := c + 1 }, data)) ∨
    ((∀ i, search.current ≤ i → i ≤ search.limit → i < data.indexlen →
      (recordAt (disk.idx idx) i).length = 0) ∧
      ∃ search', tdxSearch disk data search = (none, search', data)) := by
  unfold tdxSearch
  rw [hidx, hdat]
  simp only []
  split
  · rename_i hend
    refine .inr ⟨?_, _, rfl⟩
    intro i hlo _ hlt
    omega
  · rename_i hmore
    obtain ⟨hle, hskip, hstop⟩ := skipEmpty_spec (disk.idx idx) search.limit (data.indexlen - 1)
      (show _ ≤ data.indexlen - search.current + search.current by omega)
    generalize skipEmpty (disk.idx idx) search.limit (data.indexlen - 1)
      (data.indexlen - search.current) search.current = c at hle hskip hstop
    split
    · rename_i hout
      refine .inr ⟨?_, _, rfl⟩
      intro i hlo hlimit hlt
      exact hskip i hlo (by omega)
    · rename_i hcin
      have hlen := hstop (by omega) (by omega)
      have hwithin := hin c hle (by omega) (by omega) hlen
      rw [if_neg (by omega)]
      exact .inl ⟨c, hle, by omega, by omega, hlen, hskip, rfl⟩

/-- Without mappings there is nothing to find. -/
theorem tdxSearch_unmapped {disk : Disk} {data : GroupData} {search : Search}
    (h : data.index = none ∨ data.data = none) :
    tdxSearch disk data search = (none, search, data) := by
  unfold tdxSearch
  rcases h with hidx | hdat
  · rw [hidx]
  · rw [hdat]
    cases data.index <;> rfl

/-! ## All calls -/

/-- Calling `tdx_search` until it returns false yields the articles of the
non-empty entries in the range, in increasing order. -/
theorem searchAll_spec {disk : Disk} {data : GroupData} {search : Search} {idx dat fuel : ℕ}
    (hidx : data.index = some idx) (hdat : data.data = some dat)
    (hfuel : data.indexlen < fuel + search.current)
    (hin : ∀ i, search.current ≤ i → i ≤ search.limit → i < data.indexlen →
      (recordAt (disk.idx idx) i).Within data.datalen) :
    (searchAll disk fuel data search).2 = data ∧
      (searchAll disk fuel data search).1.Pairwise (fun a b => a.number < b.number) ∧
      ∀ article, article ∈ (searchAll disk fuel data search).1 ↔
        ∃ i, search.current ≤ i ∧ i ≤ search.limit ∧ i < data.indexlen ∧
          (recordAt (disk.idx idx) i).length ≠ 0 ∧
          article = (recordAt (disk.idx idx) i).article (disk.dat dat) (i + data.base) := by
  induction fuel generalizing search with
  | zero =>
    rw [searchAll]
    refine ⟨rfl, List.Pairwise.nil, ?_⟩
    intro article
    constructor
    · intro hmem
      cases hmem
    · rintro ⟨i, hlo, _, hlt, _⟩
      omega
  | succ fuel ih =>
    rw [searchAll]
    rcases tdxSearch_spec hidx hdat hin with ⟨c, hle, hlimit, hlt, hlen, hskip, heq⟩ |
      ⟨hempty, search', heq⟩
    · obtain ⟨hdata, hsorted, hmem⟩ := @ih { search with current := c + 1 }
        (by simp only; omega) (fun i hlo => hin i (hle.trans (Nat.le_of_succ_le hlo)))
      rw [heq]
      refine ⟨hdata, List.pairwise_cons.mpr ⟨?_, hsorted⟩, ?_⟩
      · intro article hart
        obtain ⟨i, hlo, _, _, _, rfl⟩ := (hmem article).mp hart
        exact Nat.add_lt_add_right (Nat.lt_of_succ_le hlo) data.base
      · intro article
        rw [List.mem_cons, hmem]
        constructor
        · rintro (rfl | ⟨i, hlo, hrest⟩)
          · exact ⟨c, hle, hlimit, hlt, hlen, rfl⟩
          · exact ⟨i, by simp only at hlo; omega, hrest⟩
        · rintro ⟨i, hlo, hil, hilt, hilen, rfl⟩
          rcases Nat.lt_trichotomy i c with hic | rfl | hic
          · exact absurd (hskip i hlo hic) hilen
          · exact .inl rfl
          · exact .inr ⟨i, hic, hil, hilt, hilen, rfl⟩
    · rw [heq]
      refine ⟨rfl, List.Pairwise.nil, ?_⟩
      intro article
      constructor
      · intro hmem
        cases hmem
      · rintro ⟨i, hlo, hil, hlt, hlen, _⟩
        exact absurd (hempty i hlo hil hlt) hlen

end Inn.Tradindexed
