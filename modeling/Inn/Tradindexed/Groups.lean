import Inn.Tradindexed.Update

/-!
# Inn.Tradindexed.Groups — the group index as a map from groups to flags

Abstractly `group.index` is a finite map from (the hash of) a group to its flag:
`tdx_index_add` sets the flag of a group, `tdx_index_delete` removes the group.
`Represents file groups` ties a well-formed file to that map.

* `tdxIndexAdd_spec` — an add by a caller that does not miss an existing group,
  and does not expand the file with a stale count, sets the flag and leaves the
  entries of the other groups alone;
* `tdxIndexDelete_spec` — a delete removes the group.
-/

namespace Inn.Tradindexed

open Function (update update_self update_of_ne)

/-- The existing groups and their flags. -/
abbrev Groups := HASH → Option ℤ

/-- The live entries of the file are the entries of `groups`. -/
def Represents (file : IndexFile) (groups : Groups) : Prop :=
  ∀ hash flag, groups hash = some flag ↔ ∃ c, file.Has hash c ∧ (file.entry c).flag = flag

/-- Every well-formed file represents a map. -/
theorem Wf.exists_represents {file : IndexFile} {layout : Layout} (h : Wf file layout) :
    ∃ groups, Represents file groups := by
  classical
  refine ⟨fun hash => if hex : ∃ c, file.Has hash c then some (file.entry hex.choose).flag
    else none, ?_⟩
  intro hash flag
  by_cases hex : ∃ c, file.Has hash c
  · simp only [dif_pos hex, Option.some.injEq]
    constructor
    · intro heq
      exact ⟨_, hex.choose_spec, heq⟩
    · rintro ⟨c, hc, rfl⟩
      rw [h.has_unique hex.choose_spec hc]
  · simp only [dif_neg hex]
    constructor
    · intro heq
      cases heq
    · rintro ⟨c, hc, _⟩
      exact absurd ⟨c, hc⟩ hex

theorem Represents.has_iff {file : IndexFile} {groups : Groups} (h : Represents file groups)
    {hash : HASH} : (∃ c, file.Has hash c) ↔ ∃ flag, groups hash = some flag := by
  constructor
  · rintro ⟨c, hc⟩
    exact ⟨_, (h hash _).mpr ⟨c, hc, rfl⟩⟩
  · rintro ⟨flag, hflag⟩
    obtain ⟨c, hc, _⟩ := (h hash flag).mp hflag
    exact ⟨c, hc⟩

/-- A new file has the same groups if it has the same entries for them. -/
theorem Represents.congr {file file' : IndexFile} {groups : Groups} (h : Represents file groups)
    (hhas : ∀ hash c, file'.Has hash c ↔ file.Has hash c)
    (hflag : ∀ hash c, file.Has hash c → (file'.entry c).flag = (file.entry c).flag) :
    Represents file' groups := by
  intro hash flag
  rw [h hash flag]
  constructor
  · rintro ⟨c, hc, hf⟩
    exact ⟨c, (hhas hash c).mpr hc, (hflag hash c hc).trans hf⟩
  · rintro ⟨c, hc, hf⟩
    have hc' := (hhas hash c).mp hc
    exact ⟨c, hc', (hflag hash c hc').symm.trans hf⟩

/-- A new file in which one group got the flag `flag`. -/
theorem Represents.set {file file' : IndexFile} {groups : Groups} {hash : HASH} {flag : ℤ}
    (h : Represents file groups) (hself : ∃ c, file'.Has hash c ∧ (file'.entry c).flag = flag)
    (huniq : ∀ c c', file'.Has hash c → file'.Has hash c' → c = c')
    (hother : ∀ hash', hash' ≠ hash → ∀ c, file'.Has hash' c ↔ file.Has hash' c)
    (hflag : ∀ hash', hash' ≠ hash → ∀ c, file.Has hash' c →
      (file'.entry c).flag = (file.entry c).flag) :
    Represents file' (update groups hash (some flag)) := by
  intro hash' flag'
  by_cases heq : hash' = hash
  · subst heq
    rw [update_self, Option.some.injEq]
    obtain ⟨c, hc, hf⟩ := hself
    constructor
    · rintro rfl
      exact ⟨c, hc, hf⟩
    · rintro ⟨c', hc', rfl⟩
      rw [huniq c' c hc' hc]
      exact hf.symm
  · rw [update_of_ne heq, h hash' flag']
    constructor
    · rintro ⟨c, hc, hf⟩
      exact ⟨c, (hother hash' heq c).mpr hc, (hflag hash' heq c hc).trans hf⟩
    · rintro ⟨c, hc, hf⟩
      have hc' := (hother hash' heq c).mp hc
      exact ⟨c, hc', (hflag hash' heq c hc').symm.trans hf⟩

/-- A new file in which one group is gone. -/
theorem Represents.remove {file file' : IndexFile} {groups : Groups} {hash : HASH}
    (h : Represents file groups) (hself : ∀ c, ¬ file'.Has hash c)
    (hother : ∀ hash', hash' ≠ hash → ∀ c, file'.Has hash' c ↔ file.Has hash' c)
    (hflag : ∀ hash', hash' ≠ hash → ∀ c, file.Has hash' c →
      (file'.entry c).flag = (file.entry c).flag) :
    Represents file' (update groups hash none) := by
  intro hash' flag'
  by_cases heq : hash' = hash
  · subst heq
    rw [update_self]
    constructor
    · intro hn
      cases hn
    · rintro ⟨c, hc, _⟩
      exact absurd hc (hself c)
  · rw [update_of_ne heq, h hash' flag']
    constructor
    · rintro ⟨c, hc, hf⟩
      exact ⟨c, (hother hash' heq c).mpr hc, (hflag hash' heq c hc).trans hf⟩
    · rintro ⟨c, hc, hf⟩
      have hc' := (hother hash' heq c).mp hc
      exact ⟨c, hc', (hflag hash' heq c hc').symm.trans hf⟩

namespace Wf

variable {file file' : IndexFile} {layout layout' : Layout} {hash : HASH} {index : GroupIndex}

/-- Files with the same buckets and the same hashes there have the same groups. -/
theorem has_congr (h : Wf file layout) (h' : Wf file' layout')
    (hbucket : ∀ b, layout'.bucket b = layout.bucket b)
    (hhash : ∀ b, ∀ c ∈ layout.bucket b, (file'.entry c).hash = (file.entry c).hash)
    (hash' : HASH) (c : ℕ) : file'.Has hash' c ↔ file.Has hash' c := by
  rw [h.has_iff, h'.has_iff, hbucket]
  constructor
  · intro ⟨hc, he⟩
    exact ⟨hc, by rw [← hhash _ c hc]; exact he⟩
  · intro ⟨hc, he⟩
    exact ⟨hc, by rw [hhash _ c hc]; exact he⟩

/-- Updating fields other than the link, the hash and the deletion time keeps the
groups. -/
theorem has_modify (h : Wf file layout) (loc : ℕ) (g : GroupEntry → GroupEntry)
    (hg : (g (file.entry loc)).next = (file.entry loc).next ∧
      (g (file.entry loc)).deleted = (file.entry loc).deleted ∧
      (g (file.entry loc)).hash = (file.entry loc).hash) (hash' : HASH) (c : ℕ) :
    (file.modify loc g).Has hash' c ↔ file.Has hash' c := by
  refine h.has_congr (h.modify loc g hg) (fun _ => rfl) (fun b c _ => ?_) hash' c
  rw [file.entry_modify]
  split
  · rename_i hc
    rw [hc.1]
    exact hg.2.2
  · rfl

/-! ## Adding a group -/

/-- Filling a free entry adds the group there. -/
theorem has_fillEntry (h : Wf file layout) {loc : ℕ} {rest : List ℕ}
    (hfree : layout.free = loc :: rest) (hnew : ∀ c, ¬ file.Has hash c) (low high : ℕ)
    (flag : ℤ) (inode : ℕ) (hash' : HASH) (c : ℕ) :
    (fillEntry file loc hash low high flag inode).Has hash' c ↔
      (hash' = hash ∧ c = loc) ∨ (hash' ≠ hash ∧ file.Has hash' c) := by
  obtain ⟨hwf, _, hother, hself, _⟩ := h.fillEntry_spec hfree hnew low high flag inode
  have hout : ∀ b', loc ∉ layout.bucket b' :=
    fun b' => h.disjoint b' loc (by rw [hfree]; exact List.mem_cons_self)
  have hmem : ∀ b', c ∈ (layout.put rest (indexBucket hash)
      (loc :: layout.bucket (indexBucket hash))).bucket b' ↔
        (b' = indexBucket hash ∧ c = loc) ∨ c ∈ layout.bucket b' := by
    intro b'
    by_cases hb : b' = indexBucket hash
    · subst hb
      rw [Layout.bucket_put_self, List.mem_cons]
      simp
    · rw [Layout.bucket_put_of_ne _ _ _ hb]
      simp [hb]
  rw [hwf.has_iff, h.has_iff, hmem]
  constructor
  · rintro ⟨⟨_, rfl⟩ | hc, he⟩
    · exact .inl ⟨he.symm.trans hself, rfl⟩
    · have hcl : c ≠ loc := fun heq => hout _ (heq ▸ hc)
      rw [hother c hcl] at he
      refine .inr ⟨fun heq => hnew c ?_, hc, he⟩
      exact h.has_iff.mpr ⟨heq ▸ hc, he.trans heq⟩
  · rintro (⟨rfl, rfl⟩ | ⟨_, hc, he⟩)
    · exact ⟨.inl ⟨rfl, rfl⟩, hself⟩
    · have hcl : c ≠ loc := fun heq => hout _ (heq ▸ hc)
      exact ⟨.inr hc, by rw [hother c hcl]; exact he⟩

/-- The free list of a caller that has mapped the file holds a usable entry, or
the caller is told that there is none. -/
theorem addNew_spec (h : Wf file layout) {groups : Groups} (hrep : Represents file groups)
    (hcount : index.count ≤ file.size) (hnew : ∀ c, ¬ file.Has hash c)
    (hfull : file.header.freelist = -1 → index.count = file.size) (low high : ℕ) (flag : ℤ)
    (inode : ℕ) :
    ∃ ok file' index' layout', addNew file index hash low high flag inode = (ok, file', index') ∧
      Wf file' layout' ∧ index'.writable = index.writable ∧ index'.count ≤ file'.size ∧
      file.size ≤ file'.size ∧
      Represents file' (if ok then update groups hash (some flag) else groups) ∧
      ∀ hash' c, hash' ≠ hash → file.Has hash' c →
        file'.Has hash' c ∧ file'.entry c = file.entry c := by
  -- after making room the entries and the groups are the same
  obtain hfail | ⟨file₁, index₁, layout₁, heq, hwf₁, hw₁, hcount₁, hsize₁, hhas₁, hkeep₁⟩ :
      (if file.header.freelist = -1 then indexExpand file index else some (file, index)) = none ∨
      ∃ file₁ index₁ layout₁,
        (if file.header.freelist = -1 then indexExpand file index else some (file, index)) =
          some (file₁, index₁) ∧ Wf file₁ layout₁ ∧ index₁.writable = index.writable ∧
        index₁.count ≤ file₁.size ∧ file.size ≤ file₁.size ∧
        (∀ hash' c, file₁.Has hash' c ↔ file.Has hash' c) ∧
        ∀ c, c < file.size → file₁.entry c = file.entry c := by
    by_cases hfl : file.header.freelist = -1
    · rw [if_pos hfl]
      rcases hexp : indexExpand file index with _ | ⟨file₁, index₁⟩
      · exact .inl rfl
      · obtain ⟨hwf₁, hw₁, hcount₁, hsize₁, _, hkeep₁⟩ :=
          h.indexExpand_spec hfl (hfull hfl) hexp
        refine .inr ⟨file₁, index₁, _, rfl, hwf₁, hw₁, hcount₁.le, hsize₁, ?_, hkeep₁⟩
        refine h.has_congr hwf₁ (fun _ => rfl) (fun b c hc => ?_)
        rw [hkeep₁ c (h.chain_lt b c hc)]
    · rw [if_neg hfl]
      exact .inr ⟨file, index, layout, rfl, h, rfl, hcount, le_refl _, fun _ _ => Iff.rfl,
        fun _ _ => rfl⟩
  · rw [addNew, hfail]
    exact ⟨false, file, index, layout, rfl, h, rfl, hcount, le_refl _, hrep,
      fun _ _ _ hc => ⟨hc, rfl⟩⟩
  · have hrep₁ : Represents file₁ groups := by
      refine hrep.congr hhas₁ (fun hash' c hc => ?_)
      rw [hkeep₁ c (h.has_lt hc)]
    rw [addNew, heq]
    simp only []
    split
    · refine ⟨false, file₁, index₁, layout₁, rfl, hwf₁, hw₁, hcount₁, hsize₁, hrep₁, ?_⟩
      intro hash' c _ hc
      exact ⟨(hhas₁ hash' c).mpr hc, hkeep₁ c (h.has_lt hc)⟩
    · rename_i hvalid
      obtain ⟨rest, hfree, _⟩ := hwf₁.free.eq_cons (by omega)
      have hnew₁ : ∀ c, ¬ file₁.Has hash c := fun c hc => hnew c ((hhas₁ hash c).mp hc)
      obtain ⟨hwf₂, hsize₂, hother₂, _, hflag₂⟩ :=
        hwf₁.fillEntry_spec hfree hnew₁ low high flag inode
      have hhas₂ := hwf₁.has_fillEntry hfree hnew₁ low high flag inode
      have hne : ∀ hash' c, file₁.Has hash' c → c ≠ file₁.header.freelist.toNat := by
        rintro hash' c hc rfl
        exact hwf₁.disjoint _ _ (by rw [hfree]; exact List.mem_cons_self) (hwf₁.has_iff.mp hc).1
      refine ⟨true, _, index₁, _, rfl, hwf₂, hw₁, by omega, by omega, ?_, ?_⟩
      · rw [if_pos rfl]
        refine hrep₁.set ⟨_, (hhas₂ _ _).mpr (.inl ⟨rfl, rfl⟩), hflag₂⟩ ?_ ?_ ?_
        · intro c c' hc hc'
          exact hwf₂.has_unique hc hc'
        · intro hash' hne' c
          rw [hhas₂]
          simp [hne']
        · intro hash' _ c hc
          rw [hother₂ c (hne hash' c hc)]
      · intro hash' c hne' hc
        have hc₁ := (hhas₁ hash' c).mpr hc
        refine ⟨(hhas₂ _ _).mpr (.inr ⟨hne', hc₁⟩), ?_⟩
        rw [hother₂ c (hne hash' c hc₁), hkeep₁ c (h.has_lt hc)]

/-- `tdx_index_add` sets the flag of the group and leaves the other groups alone,
if the caller finds the group when it exists and has the whole file mapped when
it has to expand it. -/
theorem tdxIndexAdd_spec (h : Wf file layout) {groups : Groups} (hrep : Represents file groups)
    (hcount : index.count ≤ file.size) {nfsreader : Bool}
    (hfind : (∃ c, file.Has hash c) → Refreshes nfsreader file index hash ∨ Near file index hash)
    (hexp : (¬ ∃ c, file.Has hash c) → file.header.freelist = -1 →
      Refreshes nfsreader file index hash)
    (low high : ℕ) (flag : ℤ) (inode : ℕ) :
    ∃ ok file' index' layout',
      tdxIndexAdd nfsreader file index hash low high flag inode = (ok, file', index') ∧
      Wf file' layout' ∧ index'.writable = index.writable ∧ index'.count ≤ file'.size ∧
      file.size ≤ file'.size ∧
      Represents file' (if ok then update groups hash (some flag) else groups) ∧
      ∀ hash' c, hash' ≠ hash → file.Has hash' c →
        file'.Has hash' c ∧ file'.entry c = file.entry c := by
  unfold tdxIndexAdd
  split
  · exact ⟨false, file, index, layout, rfl, h, rfl, hcount, le_refl _, hrep,
      fun _ _ _ hc => ⟨hc, rfl⟩⟩
  · obtain ⟨loc, index₁, heq, hw₁, hcnt₁, hsound, hcomplete, hfresh⟩ :=
      h.indexFind_spec nfsreader hcount
    have hcount₁ : index₁.count ≤ file.size :=
      hcnt₁.elim (fun he => he.trans_le hcount) (fun he => he.le)
    rw [heq]
    simp only []
    by_cases hloc : loc = -1
    · -- the group does not exist
      have hnew : ¬ ∃ c, file.Has hash c := fun hex => hcomplete hex (hfind hex) hloc
      rw [if_neg (fun hn => hn hloc)]
      obtain ⟨ok, file', index', layout', he, hwf', hw', hcount', hsize', hrep', hkeep'⟩ :=
        h.addNew_spec hrep hcount₁ (fun c hc => hnew ⟨c, hc⟩)
          (fun hfl => hfresh hloc (hexp hnew hfl)) low high flag inode
      exact ⟨ok, file', index', layout', he, hwf', hw'.trans hw₁, hcount', hsize', hrep', hkeep'⟩
    · -- only the flag is updated
      obtain ⟨c, rfl, hc⟩ := hsound.resolve_left hloc
      rw [if_pos hloc]
      have hwf' := h.modify c (fun entry => { entry with flag := flag }) ⟨rfl, rfl, rfl⟩
      have hhas' := h.has_modify c (fun entry => { entry with flag := flag }) ⟨rfl, rfl, rfl⟩
      have hother : ∀ hash' d, hash' ≠ hash → file.Has hash' d → d ≠ c := by
        rintro hash' d hne hd rfl
        exact hne (hd.2.2.symm.trans hc.2.2)
      refine ⟨true, _, index₁, layout, rfl, hwf', hw₁, by simpa using hcount₁, by simp, ?_, ?_⟩
      · rw [if_pos rfl]
        refine hrep.set ⟨c, (hhas' hash c).mpr hc, ?_⟩ ?_ ?_ ?_
        · rw [Int.toNat_natCast, IndexFile.entry_modify_self _ _ (h.has_lt hc)]
        · intro d d' hd hd'
          exact hwf'.has_unique hd hd'
        · intro hash' _ d
          exact hhas' hash' d
        · intro hash' hne d hd
          rw [Int.toNat_natCast, IndexFile.entry_modify_of_ne _ _ (hother hash' d hne hd)]
      · intro hash' d hne hd
        refine ⟨(hhas' hash' d).mpr hd, ?_⟩
        rw [Int.toNat_natCast, IndexFile.entry_modify_of_ne _ _ (hother hash' d hne hd)]

/-! ## Deleting a group -/

/-- `tdx_index_delete` removes the group, or reports that it did not. -/
theorem tdxIndexDelete_spec (h : Wf file layout) {groups : Groups} (hrep : Represents file groups)
    (hcount : index.count ≤ file.size) (now : ℕ) :
    ∃ ok file' index' layout', tdxIndexDelete file index hash now = (ok, file', index') ∧
      Wf file' layout' ∧ index'.writable = index.writable ∧ index'.count ≤ file'.size ∧
      file'.size = file.size ∧
      Represents file' (if ok then update groups hash none else groups) := by
  unfold tdxIndexDelete
  split
  · exact ⟨false, file, index, layout, rfl, h, rfl, hcount, rfl, hrep⟩
  · obtain ⟨loc, file₁, index₁, heq, hw, hcnt, hres⟩ :=
      @Wf.unlinkLoop_spec _ _ _ _ h _ _ _ _ .bucket _ hcount rfl (h.chain (indexBucket hash)) rfl
    have hcount₁ : index₁.count ≤ file.size := by omega
    rw [indexUnlinkHash, heq]
    simp only []
    rcases hres with ⟨rfl, rfl⟩ | ⟨c, parent, pre, post, rfl, hhash, hsplit, hparent, rfl⟩
    · rw [if_pos rfl]
      exact ⟨false, _, index₁, layout, rfl, h, hw, hcount₁, rfl, hrep⟩
    · rw [if_neg (locDistinct.ne_nil c)]
      obtain ⟨hwf', hkeep⟩ := h.spliceAndFree_spec hsplit hparent now
      refine ⟨true, spliceAndFree file (indexBucket hash) c parent now, index₁, _, rfl, hwf', hw,
        ?_, size_spliceAndFree, ?_⟩
      · rw [size_spliceAndFree]
        exact hcount₁
      · have hcmem : c ∈ layout.bucket (indexBucket hash) := by simp [hsplit]
        have hcout : c ∉ pre ++ post := by
          have hnd := (h.chain (indexBucket hash)).nodup
          rw [hsplit, List.nodup_middle] at hnd
          exact (List.nodup_cons.mp hnd).1
        have hmem : ∀ b' d, d ∈ (layout.put (c :: layout.free) (indexBucket hash)
            (pre ++ post)).bucket b' ↔ d ≠ c ∧ d ∈ layout.bucket b' := by
          intro b' d
          by_cases hb : b' = indexBucket hash
          · subst hb
            rw [Layout.bucket_put_self, hsplit]
            simp only [List.mem_append, List.mem_cons] at hcout ⊢
            constructor
            · intro hd
              refine ⟨?_, hd.imp_right .inr⟩
              rintro rfl
              exact hcout hd
            · rintro ⟨hne, hd | rfl | hd⟩
              · exact .inl hd
              · exact absurd rfl hne
              · exact .inr hd
          · rw [Layout.bucket_put_of_ne _ _ _ hb]
            constructor
            · intro hd
              refine ⟨?_, hd⟩
              rintro rfl
              exact hb (h.bucket_disjoint hd hcmem)
            · exact fun hd => hd.2
        have hhas : ∀ hash' d, (spliceAndFree file (indexBucket hash) c parent now).Has hash' d ↔
            d ≠ c ∧ file.Has hash' d := by
          intro hash' d
          rw [hwf'.has_iff, hmem, h.has_iff, and_assoc]
          constructor
          · rintro ⟨hne, hd, he⟩
            obtain ⟨next, hn⟩ := hkeep d hne
            rw [hn] at he
            exact ⟨hne, hd, he⟩
          · rintro ⟨hne, hd, he⟩
            obtain ⟨next, hn⟩ := hkeep d hne
            refine ⟨hne, hd, ?_⟩
            rw [hn]
            exact he
        have hcHas : file.Has hash c := h.has_iff.mpr ⟨hcmem, hhash⟩
        rw [if_pos rfl]
        refine hrep.remove ?_ ?_ ?_
        · intro d hd
          obtain ⟨hne, hd'⟩ := (hhas hash d).mp hd
          exact hne (h.has_unique hd' hcHas)
        · intro hash' hne d
          rw [hhas]
          refine ⟨fun hd => hd.2, fun hd => ⟨?_, hd⟩⟩
          rintro rfl
          exact hne (hd.2.2.symm.trans hhash)
        · intro hash' hne d hd
          have hdc : d ≠ c := by
            rintro rfl
            exact hne (hd.2.2.symm.trans hhash)
          obtain ⟨next, hn⟩ := hkeep d hdc
          rw [hn]

end Wf

end Inn.Tradindexed
