import Mathlib.Data.List.Range
import Mathlib.Data.List.Perm.Subperm
import Inn.Tradindexed.Layout

/-!
# Inn.Tradindexed.Find — what `index_find` returns

A walk is cut short by the guard on `steps` when the caller has mapped too few
entries: it needs `index.count` to be the size of the file, or a location past
`index.count` early enough on the chain to have the file remapped.

* `Wf.findLoop_spec` — one lemma for the loop, by induction on its rounds;
* `Wf.indexFind_spec` — the same for `index_find`, on the conditions `Refreshes`
  and `Near`.
-/

namespace Inn.Tradindexed

/-! ## Walking a chain -/

/-- The first `n` cells met from `recno`. -/
def IndexFile.walk (file : IndexFile) : ℤ → ℕ → List ℕ
  | _, 0 => []
  | recno, n + 1 =>
    if recno < 0 then []
    else recno.toNat :: file.walk (file.entry recno.toNat).next n

theorem IndexFile.Links.walk_eq {file : IndexFile} {recno : ℤ} {l : List ℕ}
    (h : file.Links recno l) (n : ℕ) : file.walk recno n = l.take n := by
  induction n generalizing recno l with
  | zero => rw [IndexFile.walk, List.take_zero]
  | succ n ih =>
    rw [IndexFile.walk]
    rcases h.head_cases with ⟨hp, hl⟩ | ⟨rest, hp, hl, hrest⟩
    · rw [if_pos (by omega), hl, List.take_nil]
    · rw [if_neg (by omega), hl, List.take_succ_cons, ih hrest]

namespace Wf

variable {file : IndexFile} {layout : Layout} {hash : HASH} {index : GroupIndex}

theorem length_bucket_le (h : Wf file layout) (b : Fin TDX_HASH_SIZE) :
    (layout.bucket b).length ≤ file.size := by
  have hsub : layout.bucket b ⊆ List.range file.size := by
    intro c hc
    exact List.mem_range.mpr (h.chain_lt b c hc)
  have hlen := (List.subperm_of_subset (h.chain b).nodup hsub).length_le
  rwa [List.length_range] at hlen

/-- A remap never loses entries, and makes every location of the file valid. -/
theorem indexMaybeRemap_spec (h : Wf file layout) {c : ℕ}
    (hc : c < file.size) :
    ∃ index', indexMaybeRemap file index c = some index' ∧ index'.writable = index.writable ∧
      c < index'.count ∧
      ((c < index.count ∧ index' = index) ∨ (index.count ≤ c ∧ index'.count = file.size)) := by
  unfold indexMaybeRemap
  split
  · rename_i hlt
    have hlt' : c < index.count := by omega
    exact ⟨index, rfl, rfl, hlt', .inl ⟨hlt', rfl⟩⟩
  · rename_i hge
    rw [if_neg (Nat.not_lt.mpr h.size_le)]
    exact ⟨_, rfl, rfl, hc, .inr ⟨by omega, rfl⟩⟩

/-- What a walk that began with `index` returns; `rest` is the part of the chain
still ahead and `k` the number of rounds the guard on `steps` still allows. -/
structure Found (file : IndexFile) (hash : HASH) (index : GroupIndex) (rest : List ℕ) (k : ℕ)
    (r : ℤ × GroupIndex) : Prop where
  writable : r.2.writable = index.writable
  count : r.2.count = index.count ∨ r.2.count = file.size
  sound : r.1 = -1 ∨ ∃ c ∈ rest, r.1 = (c : ℤ) ∧ (file.entry c).hash = hash
  complete : (∃ c ∈ rest, (file.entry c).hash = hash) →
    (index.count = file.size ∨
      ∃ c ∈ rest.take k, index.count ≤ c ∨ (file.entry c).hash = hash) → r.1 ≠ -1
  fresh : r.1 = -1 → (index.count = file.size ∨ ∃ c ∈ rest.take k, index.count ≤ c) →
    r.2.count = file.size

/-- A walk that stops without having seen the whole rest: the mapping is stale. -/
theorem Found.stop {rest : List ℕ} (h : rest ≠ [] → index.count ≠ file.size) :
    Found file hash index rest 0 (-1, index) where
  writable := rfl
  count := .inl rfl
  sound := .inl rfl
  complete := by
    rintro ⟨c, hc, _⟩ (hfull | ⟨d, hd, _⟩)
    · exact absurd hfull (h (List.ne_nil_of_mem hc))
    · simp at hd
  fresh := by
    rintro _ (hfull | ⟨d, hd, _⟩)
    · exact hfull
    · simp at hd

/-- A walk that ends at the entry of the group. -/
theorem Found.here {rest : List ℕ} {c k : ℕ} {index' : GroupIndex}
    (hw : index'.writable = index.writable)
    (hcount : index'.count = index.count ∨ index'.count = file.size)
    (hhash : (file.entry c).hash = hash) :
    Found file hash index (c :: rest) k ((c : ℤ), index') where
  writable := hw
  count := hcount
  sound := .inr ⟨c, List.mem_cons_self, rfl, hhash⟩
  complete := fun _ _ => locDistinct.ne_nil c
  fresh := fun heq => absurd heq (locDistinct.ne_nil c)

/-- A walk goes on past an entry of another group, with the mapping that entry
needed. -/
theorem Found.skip {rest : List ℕ} {c k : ℕ} {index' : GroupIndex} {r : ℤ × GroupIndex}
    (hw : index'.writable = index.writable)
    (hmap : (c < index.count ∧ index' = index) ∨
      (index.count ≤ c ∧ index'.count = file.size))
    (hne : (file.entry c).hash ≠ hash) (hnext : Found file hash index' rest
      (if c < index.count then k else index'.count) r) :
    Found file hash index (c :: rest) (k + 1) r := by
  rcases hmap with ⟨hlt, rfl⟩ | ⟨hge, hn⟩
  · rw [if_pos hlt] at hnext
    refine ⟨hnext.writable, hnext.count, ?_, ?_, ?_⟩
    · rcases hnext.sound with he | ⟨d, hd, he⟩
      · exact .inl he
      · exact .inr ⟨d, List.mem_cons_of_mem _ hd, he⟩
    · rintro ⟨d, hd, hdh⟩ hvis
      rcases List.mem_cons.mp hd with rfl | hd
      · exact absurd hdh hne
      · refine hnext.complete ⟨d, hd, hdh⟩ ?_
        rcases hvis with hfull | ⟨e, he, hep⟩
        · exact .inl hfull
        · rw [List.take_succ_cons] at he
          rcases List.mem_cons.mp he with rfl | he
          · rcases hep with hep | hep
            · omega
            · exact absurd hep hne
          · exact .inr ⟨e, he, hep⟩
    · intro hr hvis
      refine hnext.fresh hr ?_
      rcases hvis with hfull | ⟨e, he, hep⟩
      · exact .inl hfull
      · rw [List.take_succ_cons] at he
        rcases List.mem_cons.mp he with rfl | he
        · omega
        · exact .inr ⟨e, he, hep⟩
  · -- the file was remapped: nothing further on can be missed
    refine ⟨hnext.writable.trans hw, ?_, ?_, ?_, fun hr _ => hnext.fresh hr (.inl hn)⟩
    · rcases hnext.count with he | he
      · exact .inr (he.trans hn)
      · exact .inr he
    · rcases hnext.sound with he | ⟨d, hd, he⟩
      · exact .inl he
      · exact .inr ⟨d, List.mem_cons_of_mem _ hd, he⟩
    · rintro ⟨d, hd, hdh⟩ _
      rcases List.mem_cons.mp hd with rfl | hd
      · exact absurd hdh hne
      · exact hnext.complete ⟨d, hd, hdh⟩ (.inl hn)

/-- No cell of a chain points to itself. -/
theorem no_loop (h : Wf file layout) {b : Fin TDX_HASH_SIZE} {pre rest : List ℕ} {c : ℕ}
    (hsplit : layout.bucket b = pre ++ c :: rest) (hrest : file.Links (file.entry c).next rest) :
    (c : ℤ) ≠ (file.entry c).next := by
  intro heq
  have hnd := (h.chain b).nodup
  rw [hsplit] at hnd
  have hnd' := (List.nodup_append.mp hnd).2.1
  rcases hrest.head_cases with ⟨hp, _⟩ | ⟨rest', _, hl, _⟩
  · omega
  · rw [← heq, Int.toNat_natCast] at hl
    rw [hl] at hnd'
    simp at hnd'

theorem Found.mono {rest : List ℕ} {k k' : ℕ} {r : ℤ × GroupIndex}
    (h : Found file hash index rest k r)
    (hk : k = k' ∨ index.count = file.size) : Found file hash index rest k' r := by
  rcases hk with rfl | hfull
  · exact h
  · exact ⟨h.writable, h.count, h.sound, fun hex _ => h.complete hex (.inl hfull),
      fun hr _ => h.fresh hr (.inl hfull)⟩

theorem findLoop_spec (h : Wf file layout) {fuel : ℕ} {pre rest : List ℕ} {loc : ℤ}
    (hsplit : layout.bucket (indexBucket hash) = pre ++ rest) (hloc : file.Links loc rest)
    (hfuel : file.size < fuel + pre.length) :
    Found file hash index rest (index.count - pre.length)
      (findLoop file hash fuel index loc pre.length) := by
  have hlen := h.length_bucket_le (indexBucket hash)
  rw [hsplit, List.length_append] at hlen
  induction fuel generalizing index pre rest loc with
  | zero => omega
  | succ fuel ih =>
    rw [findLoop]
    rcases hloc.head_cases with ⟨hp, hl⟩ | ⟨rest', hp, hl, hrest⟩
    · -- the end of the chain
      subst hl
      rw [if_pos (by omega)]
      refine ⟨rfl, .inl rfl, .inl rfl, ?_, ?_⟩
      · rintro ⟨c, hc, _⟩
        cases hc
      · rintro _ (hfull | ⟨c, hc, _⟩)
        · exact hfull
        · simp at hc
    · obtain ⟨c, rfl⟩ : ∃ c : ℕ, loc = (c : ℤ) := ⟨_, hp⟩
      rw [Int.toNat_natCast] at hl hrest
      subst hl
      rw [if_neg (by omega)]
      rw [List.length_cons] at hlen
      split
      · -- the guard: `index.count` cells were met, so the file is not wholly mapped
        rename_i hguard
        rw [Nat.sub_eq_zero_of_le hguard]
        exact Found.stop (fun _ => by omega)
      · rename_i hguard
        have hmem : c ∈ layout.bucket (indexBucket hash) := by simp [hsplit]
        obtain ⟨index', hmap, hw, hlt', hcases⟩ :=
          h.indexMaybeRemap_spec (h.chain_lt _ c hmem)
        have hcount : index'.count = index.count ∨ index'.count = file.size := by
          rcases hcases with ⟨_, rfl⟩ | ⟨_, hn⟩
          · exact .inl rfl
          · exact .inr hn
        rw [hmap]
        simp only [Int.toNat_natCast]
        rw [if_neg (by omega)]
        split
        · rename_i hmatch
          exact Found.here hw hcount hmatch.2
        · rename_i hmatch
          have hne : (file.entry c).hash ≠ hash := fun heq => hmatch ⟨(h.live _ c hmem).1, heq⟩
          rw [if_neg (h.no_loop hsplit hrest)]
          have hnext := @ih index' (pre ++ [c]) _ _ (by simp [hsplit]) hrest
            (by simp; omega) (by simp; omega)
          rw [List.length_append, List.length_singleton] at hnext
          rw [show index.count - pre.length = index.count - (pre.length + 1) + 1 by omega]
          refine Found.skip hw hcases hne (hnext.mono ?_)
          rcases hcases with ⟨hlt, rfl⟩ | ⟨hge, hn⟩
          · exact .inl (by rw [if_pos hlt])
          · exact .inr hn

end Wf

/-- `index_find` maps the current file, at the latest when it has missed the
group: because it always does (`nfsreader`), because there is nothing new to map,
or because one of the `index.count` first cells of the chain is not mapped yet. -/
def Refreshes (nfsreader : Bool) (file : IndexFile) (index : GroupIndex) (hash : HASH) : Prop :=
  nfsreader = true ∨ index.count = file.size ∨
    ∃ c ∈ file.walk (file.header.hash (indexBucket hash)) index.count, index.count ≤ c

/-- The group is among the `index.count` first cells of its chain. -/
def Near (file : IndexFile) (index : GroupIndex) (hash : HASH) : Prop :=
  ∃ c ∈ file.walk (file.header.hash (indexBucket hash)) index.count, (file.entry c).hash = hash

namespace Wf

variable {file : IndexFile} {layout : Layout} {hash : HASH} {index : GroupIndex}

/-- `index_find` returns the entry of the group or `-1`, and does find a group
that exists if the walk can get to it. -/
theorem indexFind_spec (h : Wf file layout) (nfsreader : Bool) (hcount : index.count ≤ file.size) :
    ∃ loc index', indexFind nfsreader file index hash = (loc, index') ∧
      index'.writable = index.writable ∧
      (index'.count = index.count ∨ index'.count = file.size) ∧
      (loc = -1 ∨ ∃ c : ℕ, loc = (c : ℤ) ∧ file.Has hash c) ∧
      ((∃ c, file.Has hash c) → Refreshes nfsreader file index hash ∨ Near file index hash →
        loc ≠ -1) ∧
      (loc = -1 → Refreshes nfsreader file index hash → index'.count = file.size) := by
  have hwalk : ∀ index : GroupIndex, Found file hash index (layout.bucket (indexBucket hash))
      index.count (findLoop file hash (walkFuel file index) index
        (file.header.hash (indexBucket hash)) 0) := by
    intro index
    exact @Wf.findLoop_spec _ _ _ _ h _ [] _ _ rfl (h.chain _) (by
      rw [walkFuel, List.length_nil]
      omega)
  have hhas : ∀ c ∈ layout.bucket (indexBucket hash), (file.entry c).hash = hash →
      file.Has hash c := fun c hc hh => h.has_iff.mpr ⟨hc, hh⟩
  rw [Refreshes, Near, (h.chain _).walk_eq]
  cases nfsreader with
  | true =>
    have hmap : indexMaybeRemap file index LONG_MAX = some { index with count := file.size } := by
      have hmax := h.size_le
      rw [indexMaybeRemap, if_neg, if_neg (Nat.not_lt.mpr hmax)]
      rw [LONG_MAX]
      rw [INT_MAX] at hmax
      omega
    have hf := hwalk { index with count := file.size }
    rw [indexFind, if_pos rfl, hmap]
    refine ⟨_, _, rfl, hf.writable, .inr ?_, ?_, ?_, ?_⟩
    · exact hf.count.elim id id
    · rcases hf.sound with he | ⟨c, hc, he, hh⟩
      · exact .inl he
      · exact .inr ⟨c, he, hhas c hc hh⟩
    · rintro ⟨c, hc⟩ _
      exact hf.complete ⟨c, h.has_iff.mp hc⟩ (.inl rfl)
    · intro _ _
      exact hf.count.elim id id
  | false =>
    have hf := hwalk index
    rw [indexFind, if_neg Bool.false_ne_true]
    refine ⟨_, _, rfl, hf.writable, hf.count, ?_, ?_, ?_⟩
    · rcases hf.sound with he | ⟨c, hc, he, hh⟩
      · exact .inl he
      · exact .inr ⟨c, he, hhas c hc hh⟩
    · rintro ⟨c, hc⟩ ((hnfs | hfull | ⟨d, hd, hdp⟩) | ⟨d, hd, hdp⟩)
      · cases hnfs
      · exact hf.complete ⟨c, h.has_iff.mp hc⟩ (.inl hfull)
      · exact hf.complete ⟨c, h.has_iff.mp hc⟩ (.inr ⟨d, hd, .inl hdp⟩)
      · exact hf.complete ⟨c, h.has_iff.mp hc⟩ (.inr ⟨d, hd, .inr hdp⟩)
    · rintro hr (hnfs | hvis)
      · cases hnfs
      · exact hf.fresh hr hvis

end Wf

end Inn.Tradindexed
