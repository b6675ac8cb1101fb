import Inn.Tradindexed.Find

/-!
# Inn.Tradindexed.Update — how the index changes

For each part of `tdx_index_add` and `tdx_index_delete` that writes, one lemma
says which layout it leaves behind.

* `Wf.indexExpand_spec` — a caller that has the whole file mapped grows it;
* `Wf.fillEntry_spec` — a free entry becomes the entry of a new group;
* `Wf.unlinkLoop_spec`, `Wf.spliceAndFree_spec` — an entry leaves its chain and
  goes to the free list.
-/

namespace Inn.Tradindexed

open Function (update update_self update_of_ne)

/-! ## Taking entries from the free list and filling them -/

theorem freelistAdd_links {file : IndexFile} {loc : ℕ} {l : List ℕ}
    (hl : file.Links file.header.freelist l) (hlt : loc < file.size) (hnew : loc ∉ l) :
    (freelistAdd file loc).Links (freelistAdd file loc).header.freelist (loc :: l) := by
  refine ⟨rfl, ?_⟩
  have hself : ((freelistAdd file loc).entry loc).next = file.header.freelist := by
    rw [freelistAdd, IndexFile.entry_setFreelist, IndexFile.setNext,
      IndexFile.entry_modify_self _ _ hlt]
  show Chain _ _ _ ((freelistAdd file loc).entry loc).next l
  rw [hself]
  refine Chain.congr hl (fun c hc => ?_)
  rw [freelistAdd, IndexFile.entry_setFreelist, IndexFile.setNext, IndexFile.entry_modify_of_ne]
  intro heq
  exact hnew (heq ▸ hc)

theorem entry_freelistAdd_of_ne {file : IndexFile} {loc c : ℕ} (h : c ≠ loc) :
    (freelistAdd file loc).entry c = file.entry c := by
  rw [freelistAdd, IndexFile.entry_setFreelist, IndexFile.setNext,
    IndexFile.entry_modify_of_ne _ _ h]

@[simp] theorem size_freelistAdd (file : IndexFile) (loc : ℕ) :
    (freelistAdd file loc).size = file.size := by
  rw [freelistAdd, IndexFile.size_setFreelist, IndexFile.size_setNext]

/-- What putting the entries `lo`, …, `lo + n - 1` on the free list changes. -/
theorem freeNew_spec {file : IndexFile} {lo n : ℕ} {l : List ℕ}
    (hl : file.Links file.header.freelist l) (hsize : lo + n ≤ file.size)
    (hnew : ∀ c ∈ l, c < lo ∨ lo + n ≤ c) :
    (freeNew file lo n).Links (freeNew file lo n).header.freelist (List.range' lo n ++ l) ∧
      (freeNew file lo n).size = file.size ∧
      (freeNew file lo n).header.hash = file.header.hash ∧
      (freeNew file lo n).header.magic = file.header.magic ∧
      ∀ c, c < lo → (freeNew file lo n).entry c = file.entry c := by
  induction n generalizing file l with
  | zero => exact ⟨hl, rfl, rfl, rfl, fun c _ => rfl⟩
  | succ n ih =>
    have hnot : lo + n ∉ l := by
      intro hmem
      rcases hnew _ hmem with hlt | hge
      · omega
      · omega
    have hpush := freelistAdd_links hl (by omega) hnot
    obtain ⟨hlinks, hsz, hhash, hmagic, hkeep⟩ :=
      ih (l := (lo + n) :: l) hpush (by simp; omega) (by
        intro c hc
        rcases List.mem_cons.mp hc with rfl | hc
        · exact .inr (le_refl _)
        · rcases hnew c hc with hlt | hge
          · exact .inl hlt
          · exact .inr (by omega))
    rw [freeNew]
    refine ⟨?_, by rw [hsz, size_freelistAdd], hhash, hmagic, ?_⟩
    · rw [List.range'_concat, List.append_assoc]
      rw [Nat.one_mul]
      exact hlinks
    · intro c hc
      rw [hkeep c hc, entry_freelistAdd_of_ne (by omega)]

theorem entry_truncate {file : IndexFile} {n : ℕ} (h : file.size ≤ n) (c : ℕ) :
    (file.truncate n).entry c = file.entry c := by
  rw [IndexFile.truncate, IndexFile.entry, recordAt_extend]
  rw [List.take_of_length_le h]
  rfl

@[simp] theorem size_truncate (file : IndexFile) (n : ℕ) : (file.truncate n).size = n := by
  rw [IndexFile.truncate, IndexFile.size, length_extend, List.length_take]
  omega

namespace Wf

variable {file : IndexFile} {layout : Layout} {hash : HASH} {index : GroupIndex}

/-- Growing a file with an empty free list by `n` entries, all of them free. -/
theorem grow (h : Wf file layout) (hfree : file.header.freelist = -1) {n : ℕ}
    (hmax : file.size + n ≤ INT_MAX) {file' : IndexFile}
    (he : file' = freeNew (file.truncate (file.size + n)) file.size n) :
    Wf file' { layout with free := List.range' file.size n } ∧
      file'.size = file.size + n ∧ file'.header.hash = file.header.hash ∧
      ∀ c, c < file.size → file'.entry c = file.entry c := by
  subst he
  have hnil : (file.truncate (file.size + n)).Links
      (file.truncate (file.size + n)).header.freelist [] := hfree
  obtain ⟨hlinks, hsize, hhash, hmag, hkeep⟩ := freeNew_spec (n := n) hnil
    (by rw [size_truncate]) (by
      intro c hc
      cases hc)
  rw [List.append_nil] at hlinks
  rw [size_truncate] at hsize
  have hsame : ∀ c, c < file.size →
      (freeNew (file.truncate (file.size + n)) file.size n).entry c = file.entry c := by
    intro c hc
    rw [hkeep c hc, entry_truncate (by omega)]
  refine ⟨?_, hsize, hhash, hsame⟩
  refine h.congr hmag (by omega) (by omega) hhash ?_ hlinks ?_ ?_
  · intro b c hc
    rw [hsame c (h.chain_lt b c hc)]
    exact ⟨rfl, rfl, rfl⟩
  · intro c hc
    rw [hsize]
    rw [List.mem_range'_1] at hc
    exact hc.2
  · intro b c hc hmem
    rw [List.mem_range'_1] at hc
    exact absurd (h.chain_lt b c hmem) (by omega)

/-- A caller that has the whole file mapped expands it by 1024 free entries. -/
theorem indexExpand_spec (h : Wf file layout) (hfree : file.header.freelist = -1)
    (hcount : index.count = file.size) {file' : IndexFile} {index' : GroupIndex}
    (he : indexExpand file index = some (file', index')) :
    Wf file' { layout with free := List.range' file.size 1024 } ∧
      index'.writable = index.writable ∧ index'.count = file'.size ∧ file.size ≤ file'.size ∧
      file'.header.hash = file.header.hash ∧
      ∀ c, c < file.size → file'.entry c = file.entry c := by
  unfold indexExpand at he
  split at he
  · cases he
  · rename_i hmax
    rw [hcount] at he hmax
    -- the magic is right, so the header stays
    have hmagic : ¬ (file.truncate (file.size + 1024)).header.magic ≠ TDX_MAGIC :=
      fun hne => hne h.magic
    simp only [if_neg hmagic, Option.some.injEq, Prod.mk.injEq] at he
    obtain ⟨hfile, rfl⟩ := he
    have hroom : file.size + 1024 ≤ INT_MAX := by
      have : 1024 ≤ INT_MAX := by decide
      omega
    obtain ⟨hwf, hsize, hhash, hsame⟩ := h.grow hfree hroom hfile.symm
    exact ⟨hwf, rfl, hsize.symm, by omega, hhash, hsame⟩

/-- Unless it refuses, `index_add` pushes the entry on its bucket chain. -/
theorem indexAdd_eq {loc : ℕ} (hhash : (file.entry loc).hash = hash)
    (hhead : file.header.hash (indexBucket hash) ≠ loc) :
    indexAdd file loc =
      (file.setNext loc (file.header.hash (indexBucket hash))).setHash (indexBucket hash) loc := by
  subst hhash
  exact if_neg hhead

/-- Unless `index_add` refuses, filling an entry pops it and pushes it. -/
theorem fillEntry_eq {loc : ℕ} (hlt : loc < file.size)
    (hhead : file.header.hash (indexBucket hash) ≠ loc) (low high : ℕ) (flag : ℤ)
    (inode : ℕ) :
    fillEntry file loc hash low high flag inode =
      ((((file.setFreelist (file.entry loc).next).modify loc (fun entry =>
        { entry with
          hash := hash, low := if low = 0 then 1 else low, high := high, deleted := 0
          base := 0, count := 0, flag := flag, indexinode := inode })).setNext loc
        (file.header.hash (indexBucket hash))).setHash (indexBucket hash) loc) := by
  refine indexAdd_eq ?_ hhead
  rw [IndexFile.entry_modify_self _ _ (by simpa using hlt)]

/-- The entry at the head of the free list becomes the entry of a new group, at
the head of its bucket chain; no other entry changes. -/
theorem fillEntry_spec (h : Wf file layout) {loc : ℕ} {rest : List ℕ}
    (hfree : layout.free = loc :: rest) (hnew : ∀ c, ¬ file.Has hash c) (low high : ℕ)
    (flag : ℤ) (inode : ℕ) :
    let file' := fillEntry file loc hash low high flag inode
    let b := indexBucket hash
    Wf file' (layout.put rest b (loc :: layout.bucket b)) ∧ file'.size = file.size ∧
      (∀ c, c ≠ loc → file'.entry c = file.entry c) ∧
      (file'.entry loc).hash = hash ∧ (file'.entry loc).flag = flag := by
  intro file' b
  have hlt : loc < file.size := h.free_lt loc (by rw [hfree]; exact List.mem_cons_self)
  have hout : ∀ b', loc ∉ layout.bucket b' :=
    fun b' => h.disjoint b' loc (by rw [hfree]; exact List.mem_cons_self)
  have hlinks := h.free
  rw [hfree] at hlinks
  -- `index_add` does not refuse: the head of the bucket is another entry
  have hhead : file.header.hash b ≠ loc := by
    intro heq
    have hch := h.chain b
    rcases hch.head_cases with ⟨hp, _⟩ | ⟨rest', _, hl, _⟩
    · omega
    · rw [heq, Int.toNat_natCast] at hl
      exact hout b (by rw [hl]; exact List.mem_cons_self)
  have heq : file' = _ := fillEntry_eq hlt hhead low high flag inode
  have hentry : ∀ c, file'.entry c = if c = loc then
      { hash := hash, high := high, low := if low = 0 then 1 else low, base := 0, count := 0,
        flag := flag, deleted := 0, indexinode := inode, next := file.header.hash b }
      else file.entry c := by
    intro c
    rw [heq, IndexFile.entry_setHash, IndexFile.setNext, IndexFile.entry_modify]
    by_cases hc : c = loc
    · subst hc
      rw [if_pos ⟨rfl, by simpa using hlt⟩, if_pos rfl,
        IndexFile.entry_modify_self _ _ (by simpa using hlt)]
    · rw [if_neg (fun hn => hc hn.1), if_neg hc, IndexFile.entry_modify_of_ne _ _ hc,
        IndexFile.entry_setFreelist]
  have hheader : file'.header = { file.header with
      freelist := (file.entry loc).next, hash := update file.header.hash b loc } := by
    rw [heq]
    rfl
  have hsize : file'.size = file.size := by
    rw [heq]
    simp
  have hother : ∀ c, c ≠ loc → file'.entry c = file.entry c := by
    intro c hc
    rw [hentry, if_neg hc]
  have hself := hentry loc
  rw [if_pos rfl] at hself
  refine ⟨?_, hsize, hother, by rw [hself], by rw [hself]⟩
  have hloc_rest : loc ∉ rest := (List.nodup_cons.mp hlinks.nodup).1
  have hsame : ∀ c ∈ layout.bucket b, file'.entry c = file.entry c :=
    fun c hc => hother c (fun heq => hout b (heq ▸ hc))
  refine h.rebucket b ?_ hsize ?_ ?_ ?_ ?_ ?_ ?_ ?_ ?_ ?_
  · rw [hheader]
  · intro b' hb
    rw [hheader]
    exact update_of_ne hb _ _
  · intro b' _ c hc
    exact hother c (fun heq => hout b' (heq ▸ hc))
  · rw [hheader]
    refine IndexFile.Links.congr hlinks.2 (fun c hc => ?_)
    rw [hother c (fun heq => hloc_rest (heq ▸ hc))]
  · intro c hc
    exact h.free_lt c (by rw [hfree]; exact List.mem_cons_of_mem _ hc)
  · refine ⟨by rw [hheader]; exact update_self _ _ _, ?_⟩
    show file'.Links (file'.entry loc).next _
    rw [hself]
    exact (h.chain b).congr (fun c hc => by rw [hsame c hc])
  · intro c hc
    rcases List.mem_cons.mp hc with rfl | hc
    · exact hlt
    · exact h.chain_lt b c hc
  · intro c hc
    rcases List.mem_cons.mp hc with rfl | hc
    · rw [hself]
      exact ⟨rfl, rfl⟩
    · rw [hsame c hc]
      exact h.live b c hc
  · -- no entry of the chain has the new hash
    have hne : ∀ c ∈ layout.bucket b, (file.entry c).hash ≠ hash :=
      fun c hc heq => hnew c (h.has_iff.mpr ⟨hc, heq⟩)
    intro c hc c' hc' heq
    rcases List.mem_cons.mp hc with rfl | hcb
    · rcases List.mem_cons.mp hc' with rfl | hcb'
      · rfl
      · rw [hself, hsame c' hcb'] at heq
        exact absurd heq.symm (hne c' hcb')
    · rcases List.mem_cons.mp hc' with rfl | hcb'
      · rw [hsame c hcb, hself] at heq
        exact absurd heq (hne c hcb)
      · rw [hsame c hcb, hsame c' hcb'] at heq
        exact h.inj b c hcb c' hcb' heq
  · intro c hc
    have hc' : c ∈ layout.free := by
      rw [hfree]
      exact List.mem_cons_of_mem _ hc
    refine ⟨fun hmem => ?_, fun b' _ => h.disjoint b' c hc'⟩
    rcases List.mem_cons.mp hmem with rfl | hmem
    · exact hloc_rest hc
    · exact h.disjoint b c hc' hmem

end Wf

/-! ## Splicing an entry out and freeing it -/

/-- `parent` is where the pointer to the cell after `pre` is stored. -/
def Parent.After (parent : Parent) (pre : List ℕ) : Prop :=
  match parent with
  | .bucket => pre = []
  | .entry loc => ∃ front, pre = front ++ [loc]

theorem Parent.After.mem {loc : ℕ} {pre : List ℕ} (h : (Parent.entry loc).After pre) :
    loc ∈ pre := by
  obtain ⟨front, rfl⟩ := h
  simp

/-- `entry_splice`, marking the entry as deleted and freeing it, as
`tdx_index_delete` does. -/
def spliceAndFree (file : IndexFile) (b : Fin TDX_HASH_SIZE) (loc : ℕ) (parent : Parent)
    (now : ℕ) : IndexFile :=
  freelistAdd ((entrySplice file b loc parent).modify loc (fun entry =>
    { entry with deleted := now, hash := HASH.clear })) loc

section Splice

variable {file : IndexFile} {b : Fin TDX_HASH_SIZE} {loc c : ℕ} {parent : Parent} {now : ℕ}

/-- Of the other entries, only the parent's link changes. -/
theorem entry_spliceAndFree (hc : c ≠ loc) (hlt : ∀ p, parent = .entry p → p < file.size) :
    (spliceAndFree file b loc parent now).entry c =
      if parent = .entry c then { file.entry c with next := (file.entry loc).next }
      else file.entry c := by
  rw [spliceAndFree, entry_freelistAdd_of_ne hc, IndexFile.entry_modify_of_ne _ _ hc,
    entrySplice, IndexFile.setNext, IndexFile.entry_modify_of_ne _ _ hc]
  cases parent with
  | bucket => rfl
  | entry p =>
    rw [Parent.store, IndexFile.setNext]
    by_cases hp : p = c
    · subst hp
      rw [IndexFile.entry_modify_self _ _ (hlt p rfl), if_pos rfl]
    · rw [IndexFile.entry_modify_of_ne _ _ (Ne.symm hp), if_neg (fun he => hp (by cases he; rfl))]

theorem size_spliceAndFree : (spliceAndFree file b loc parent now).size = file.size := by
  cases parent <;> simp [spliceAndFree, entrySplice, Parent.store]

theorem hash_spliceAndFree :
    (spliceAndFree file b loc parent now).header.hash =
      if parent = .bucket then update file.header.hash b (file.entry loc).next
      else file.header.hash := by
  cases parent with
  | bucket => rw [if_pos rfl]; rfl
  | entry p => rw [if_neg (by intro he; cases he)]; rfl

theorem magic_spliceAndFree :
    (spliceAndFree file b loc parent now).header.magic = file.header.magic := by
  cases parent <;> rfl

end Splice

namespace Wf

variable {file : IndexFile} {layout : Layout} {hash : HASH} {index : GroupIndex}

/-- An entry spliced out of its chain and freed: the chain goes on without it. -/
theorem spliceAndFree_spec (h : Wf file layout) {b : Fin TDX_HASH_SIZE} {pre post : List ℕ}
    {loc : ℕ} {parent : Parent} (hsplit : layout.bucket b = pre ++ loc :: post)
    (hparent : parent.After pre) (now : ℕ) :
    Wf (spliceAndFree file b loc parent now) (layout.put (loc :: layout.free) b (pre ++ post)) ∧
      ∀ c, c ≠ loc → ∃ next,
        (spliceAndFree file b loc parent now).entry c = { file.entry c with next := next } := by
  have hlinks := h.chain b
  rw [hsplit] at hlinks
  have hnd := hlinks.nodup
  have hmem : ∀ c ∈ pre ++ post, c ∈ layout.bucket b ∧ c ≠ loc := by
    intro c hc
    rw [hsplit]
    have hnd' : loc ∉ pre ++ post ∧ (pre ++ post).Nodup := by
      rwa [← List.nodup_cons, ← List.nodup_middle]
    refine ⟨?_, fun heq => hnd'.1 (heq ▸ hc)⟩
    rcases List.mem_append.mp hc with hc | hc
    · exact List.mem_append_left _ hc
    · exact List.mem_append_right _ (List.mem_cons_of_mem _ hc)
  have hloc : loc ∈ layout.bucket b := by simp [hsplit]
  have hpmem : ∀ p, parent = .entry p → p ∈ layout.bucket b := by
    rintro p rfl
    rw [hsplit]
    exact List.mem_append_left _ hparent.mem
  have hplt : ∀ p, parent = .entry p → p < file.size :=
    fun p hp => h.chain_lt b p (hpmem p hp)
  -- entries outside this chain stay, those of the chain but `loc` keep all but the link
  have hout : ∀ c, c ∉ layout.bucket b →
      (spliceAndFree file b loc parent now).entry c = file.entry c := by
    intro c hc
    have hcl : c ≠ loc := by
      rintro rfl
      exact hc hloc
    rw [entry_spliceAndFree hcl hplt, if_neg]
    intro hp
    exact hc (hpmem c hp)
  have hin : ∀ c, c ≠ loc → ∃ next,
      (spliceAndFree file b loc parent now).entry c = { file.entry c with next := next } := by
    intro c hc
    rw [entry_spliceAndFree hc hplt]
    split
    · exact ⟨_, rfl⟩
    · exact ⟨(file.entry c).next, rfl⟩
  refine ⟨?_, hin⟩
  refine h.rebucket b magic_spliceAndFree size_spliceAndFree ?_ ?_ ?_ ?_ ?_ ?_ ?_ ?_ ?_
  · intro b' hb
    rw [hash_spliceAndFree]
    split
    · exact update_of_ne hb _ _
    · rfl
  · intro b' hb c hc
    exact hout c (fun hc' => hb (h.bucket_disjoint hc hc'))
  · -- the free list gets the entry
    have hfree : ((entrySplice file b loc parent).modify loc (fun entry =>
        { entry with deleted := now, hash := HASH.clear })).Links
        ((entrySplice file b loc parent).modify loc (fun entry =>
          { entry with deleted := now, hash := HASH.clear })).header.freelist layout.free := by
      have hhead : ((entrySplice file b loc parent).modify loc (fun entry =>
          { entry with deleted := now, hash := HASH.clear })).header.freelist =
          file.header.freelist := by
        cases parent <;> rfl
      rw [hhead]
      refine h.free.congr (fun c hc => ?_)
      have hcb := h.disjoint b c hc
      have hcl : c ≠ loc := fun heq => hcb (heq ▸ hloc)
      have hkeep := hout c hcb
      rw [spliceAndFree, entry_freelistAdd_of_ne hcl] at hkeep
      rw [hkeep]
    refine freelistAdd_links hfree ?_ (fun hc => h.disjoint b loc hc hloc)
    have hlt := h.chain_lt b loc hloc
    cases parent <;> simpa [entrySplice, Parent.store] using hlt
  · intro c hc
    rcases List.mem_cons.mp hc with rfl | hc
    · exact h.chain_lt b c hloc
    · exact h.free_lt c hc
  · -- the chain without `loc`
    have hnext : ∀ c ∈ pre ++ post, ((spliceAndFree file b loc parent now).entry c).next =
        if parent = .entry c then (file.entry loc).next else (file.entry c).next := by
      intro c hc
      rw [entry_spliceAndFree (hmem c hc).2 hplt]
      split <;> rfl
    rw [hash_spliceAndFree]
    cases parent with
    | bucket =>
      have hpre : pre = [] := hparent
      subst hpre
      rw [if_pos rfl, update_self]
      refine IndexFile.Links.congr hlinks.splice_head (fun c hc => ?_)
      rw [hnext c hc, if_neg (by intro he; cases he)]
    | entry p =>
      obtain ⟨front, rfl⟩ := hparent
      rw [if_neg (by intro he; cases he)]
      rw [List.append_assoc, List.singleton_append] at hlinks hnext ⊢
      refine Chain.congr (Chain.splice locDistinct hlinks) (fun c hc => ?_)
      rw [hnext c hc]
      by_cases hp : c = p
      · subst hp
        rw [if_pos rfl, update_self]
      · rw [if_neg (fun he => hp (by cases he; rfl)), update_of_ne hp]
  · intro c hc
    exact h.chain_lt b c (hmem c hc).1
  · intro c hc
    obtain ⟨next, heq⟩ := hin c (hmem c hc).2
    rw [heq]
    exact h.live b c (hmem c hc).1
  · intro c hc c' hc' heq
    obtain ⟨next, hn⟩ := hin c (hmem c hc).2
    obtain ⟨next', hn'⟩ := hin c' (hmem c' hc').2
    rw [hn, hn'] at heq
    exact h.inj b c (hmem c hc).1 c' (hmem c' hc').1 heq
  · intro c hc
    rcases List.mem_cons.mp hc with rfl | hc
    · exact ⟨fun hc' => (hmem c hc').2 rfl, fun b' hb hc' => hb (h.bucket_disjoint hc' hloc)⟩
    · exact ⟨fun hc' => h.disjoint b c hc (hmem c hc').1, fun b' _ => h.disjoint b' c hc⟩

/-- `index_unlink_hash` misses, or splices the entry of the group out of its
chain. -/
theorem unlinkLoop_spec (h : Wf file layout) {fuel steps : ℕ} {pre rest : List ℕ}
    {parent : Parent} {current : ℤ} (hcount : index.count ≤ file.size)
    (hsplit : layout.bucket (indexBucket hash) = pre ++ rest)
    (hcur : file.Links current rest) (hparent : parent.After pre) :
    ∃ loc file' index', unlinkLoop file hash fuel index parent current steps =
        (loc, file', index') ∧
      index'.writable = index.writable ∧
      (index'.count = index.count ∨ index'.count = file.size) ∧
      ((loc = -1 ∧ file' = file) ∨
        ∃ (c : ℕ) (parent' : Parent) (pre' post : List ℕ), loc = (c : ℤ) ∧
          (file.entry c).hash = hash ∧
          layout.bucket (indexBucket hash) = pre' ++ c :: post ∧ parent'.After pre' ∧
          file' = entrySplice file (indexBucket hash) c parent') := by
  induction fuel generalizing index pre rest parent current steps with
  | zero => exact ⟨_, _, _, rfl, rfl, .inl rfl, .inl ⟨rfl, rfl⟩⟩
  | succ fuel ih =>
    rw [unlinkLoop]
    split
    · exact ⟨_, _, _, rfl, rfl, .inl rfl, .inl ⟨rfl, rfl⟩⟩
    · rename_i hpos
      split
      · exact ⟨_, _, _, rfl, rfl, .inl rfl, .inl ⟨rfl, rfl⟩⟩
      · obtain ⟨rest', rfl, hrest⟩ := hcur.eq_cons (by omega)
        have hmem : current.toNat ∈ layout.bucket (indexBucket hash) := by simp [hsplit]
        obtain ⟨index', hmap, hw, hlt', hcases⟩ :=
          h.indexMaybeRemap_spec (h.chain_lt _ _ hmem)
        rw [Int.toNat_of_nonneg (by omega)] at hmap
        have hcnt : index'.count = index.count ∨ index'.count = file.size := by
          rcases hcases with ⟨_, rfl⟩ | ⟨_, hn⟩
          · exact .inl rfl
          · exact .inr hn
        have hcount' : index'.count ≤ file.size := by omega
        rw [hmap]
        simp only []
        -- the walk goes on here, or after a remap at the head of the chain
        obtain ⟨parent₁, current₁, pre₁, rest₁, hp₁, hc₁, hsplit₁, hcur₁, hparent₁⟩ :
            ∃ parent₁ current₁ pre₁ rest₁,
              (if (index.count : ℤ) ≤ current then Parent.bucket else parent) = parent₁ ∧
              (if (index.count : ℤ) ≤ current then file.header.hash (indexBucket hash)
                else current) = current₁ ∧
              layout.bucket (indexBucket hash) = pre₁ ++ rest₁ ∧
              file.Links current₁ rest₁ ∧ parent₁.After pre₁ := by
          by_cases hre : (index.count : ℤ) ≤ current
          · rw [if_pos hre, if_pos hre]
            exact ⟨_, _, [], _, rfl, rfl, rfl, h.chain _, rfl⟩
          · rw [if_neg hre, if_neg hre]
            exact ⟨_, _, pre, _, rfl, rfl, hsplit, hcur, hparent⟩
        rw [hp₁, hc₁]
        split
        · exact ⟨_, _, _, rfl, hw, hcnt, .inl ⟨rfl, rfl⟩⟩
        · rename_i hin
          obtain ⟨rest₂, rfl, hrest₂⟩ := hcur₁.eq_cons (by omega)
          split
          · rename_i hmatch
            refine ⟨_, _, _, rfl, hw, hcnt, .inr ⟨current₁.toNat, parent₁, pre₁, rest₂, ?_,
              hmatch.2, hsplit₁, hparent₁, rfl⟩⟩
            exact (Int.toNat_of_nonneg (by omega)).symm
          · split
            · exact ⟨_, _, _, rfl, hw, hcnt, .inl ⟨rfl, rfl⟩⟩
            · obtain ⟨loc, file', index'', heq, hw'', hcnt'', hres⟩ :=
                @ih _ _ _ _ (.entry current₁.toNat) _ hcount'
                  (by simp [hsplit₁]) hrest₂ ⟨pre₁, rfl⟩
              refine ⟨loc, file', index'', heq, hw''.trans hw, ?_, hres⟩
              rcases hcnt'' with he | he
              · rw [he]
                exact hcnt
              · exact .inr he

end Wf

end Inn.Tradindexed
