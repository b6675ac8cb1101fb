import Inn.Rules
import Inn.Tradindexed.Groups

/-!
# Inn.Tradindexed.Sharing — several processes writing one group index

Every process has the file mapped with its own entry count, which is stale once
another process has expanded the file. `KeepsGroups` says that whole calls of
`tdx_index_add` and `tdx_index_delete`, in any order, keep every group findable,
leave the entries of other groups alone and keep the free list apart from the
bucket chains.

The code does so as long as no call depends on a stale count
(`CountSuffices`): `index_expand` sizes the file and rebuilds the free list from
the count of its caller, and the guard on the number of steps in `index_find`
counts against it too.
-/

namespace Inn.Tradindexed

open Function (update update_self update_of_ne)

/-- The shared file, and what each process knows about it. -/
structure Shared (Proc : Type*) where
  file : IndexFile
  procs : Proc → GroupIndex

/-- A call with its result. -/
inductive Call (Proc : Type*) where
  | find (p : Proc) (hash : HASH) (loc : ℤ)
  | add (p : Proc) (hash : HASH) (low high : ℕ) (flag : ℤ) (inode : ℕ) (ok : Bool)
  | delete (p : Proc) (hash : HASH) (now : ℕ) (ok : Bool)

variable {Proc : Type*}

section Calls

variable [DecidableEq Proc]

/-- One call, which may update the file and the caller's mapping. -/
def Next (nfsreader : Bool) (s : Shared Proc) (call : Call Proc) (s' : Shared Proc) : Prop :=
  match call with
  | .find p hash loc =>
    ∃ index, indexFind nfsreader s.file (s.procs p) hash = (loc, index) ∧
      s' = { s with procs := update s.procs p index }
  | .add p hash low high flag inode ok =>
    ∃ file index, tdxIndexAdd nfsreader s.file (s.procs p) hash low high flag inode =
        (ok, file, index) ∧ s' = { file := file, procs := update s.procs p index }
  | .delete p hash now ok =>
    ∃ file index, tdxIndexDelete s.file (s.procs p) hash now = (ok, file, index) ∧
      s' = { file := file, procs := update s.procs p index }

end Calls

/-- The groups a call leaves, given those before it. -/
def Call.apply (groups : Groups) : Call Proc → Groups
  | .find _ _ _ => groups
  | .add _ hash _ _ flag _ ok => if ok then update groups hash (some flag) else groups
  | .delete _ hash _ ok => if ok then update groups hash none else groups

/-- The groups that were there or added, and not deleted since. -/
def ledger (groups : Groups) (calls : List (Call Proc)) : Groups := calls.foldl Call.apply groups

theorem ledger_concat (groups : Groups) (calls : List (Call Proc)) (call : Call Proc) :
    ledger groups (calls ++ [call]) = call.apply (ledger groups calls) := by
  rw [ledger, List.foldl_append]
  rfl

/-- The processes may begin with stale counts on any well-formed file. -/
structure Start (s : Shared Proc) (groups : Groups) : Prop where
  wf : ∃ layout, Wf s.file layout
  represents : Represents s.file groups
  count : ∀ p, (s.procs p).count ≤ s.file.size

/-- No entry is both on the free list and on a bucket chain. -/
def FreeDisjoint (file : IndexFile) : Prop :=
  ∀ b c, file.Reaches file.header.freelist c → ¬ file.Reaches (file.header.hash b) c

/-- In every run: the free list is disjoint from the chains, a group that was
added and not deleted since is found, and an add leaves the entries of other
groups where and as they are. -/
def KeepsGroups (next : Shared Proc → Call Proc → Shared Proc → Prop) : Prop :=
  ∀ s₀ groups, Start s₀ groups → ∀ calls s, Steps next s₀ calls s →
    FreeDisjoint s.file ∧
    (∀ p hash loc s', next s (.find p hash loc) s' → (ledger groups calls hash).isSome →
      ∃ c : ℕ, loc = (c : ℤ) ∧ c < s.file.size ∧ (s.file.entry c).deleted = 0 ∧
        (s.file.entry c).hash = hash) ∧
    ∀ p hash low high flag inode ok s', next s (.add p hash low high flag inode ok) s' →
      ∀ hash' c, hash' ≠ hash → s.file.Has hash' c →
        c < s'.file.size ∧ s'.file.entry c = s.file.entry c

/-- The caller's count does not keep `index_find` from an existing group, and is
not stale when the file is expanded. -/
def CountSuffices (nfsreader : Bool) (s : Shared Proc) : Call Proc → Prop
  | .find p hash _ => (∃ c, s.file.Has hash c) →
      Refreshes nfsreader s.file (s.procs p) hash ∨ Near s.file (s.procs p) hash
  | .add p hash _ _ _ _ _ =>
      ((∃ c, s.file.Has hash c) →
        Refreshes nfsreader s.file (s.procs p) hash ∨ Near s.file (s.procs p) hash) ∧
      ((¬ ∃ c, s.file.Has hash c) → s.file.header.freelist = -1 →
        Refreshes nfsreader s.file (s.procs p) hash)
  | .delete _ _ _ _ => True

/-! ## The invariant -/

/-- The file is well formed and holds the groups of the ledger, and no process
has mapped more than there is. -/
structure Inv (groups : Groups) (calls : List (Call Proc)) (s : Shared Proc) : Prop where
  wf : ∃ layout, Wf s.file layout
  represents : Represents s.file (ledger groups calls)
  count : ∀ p, (s.procs p).count ≤ s.file.size

theorem Start.inv {s : Shared Proc} {groups : Groups} (h : Start s groups) : Inv groups [] s :=
  ⟨h.wf, h.represents, h.count⟩

section Run

variable [DecidableEq Proc]

/-- Growing the file and refreshing one mapping keeps every count in range. -/
theorem count_update {s : Shared Proc} {file : IndexFile} {index : GroupIndex}
    (hcount : ∀ p, (s.procs p).count ≤ s.file.size) (hsize : s.file.size ≤ file.size) (p : Proc)
    (hindex : index.count ≤ file.size) (q : Proc) :
    (update s.procs p index q).count ≤ file.size := by
  by_cases hq : q = p
  · subst hq
    rwa [update_self]
  · rw [update_of_ne hq]
    exact (hcount q).trans hsize

/-- One call that does not depend on a stale count keeps the invariant. -/
theorem step_inv (nfsreader : Bool) (groups : Groups) (calls : List (Call Proc))
    (s : Shared Proc) (call : Call Proc) (s' : Shared Proc)
    (hstep : guarded (CountSuffices nfsreader) (Next nfsreader) s call s')
    (hinv : Inv groups calls s) : Inv groups (calls ++ [call]) s' := by
  obtain ⟨hcond, hnext⟩ := hstep
  obtain ⟨⟨layout, hwf⟩, hrep, hcount⟩ := hinv
  cases call with
  | find p hash loc =>
    obtain ⟨index, heq, rfl⟩ := hnext
    obtain ⟨loc', index', heq', _, hcnt, _⟩ :=
      hwf.indexFind_spec nfsreader (hcount p)
    rw [heq] at heq'
    obtain ⟨rfl, rfl⟩ := Prod.mk.inj heq'
    refine ⟨⟨layout, hwf⟩, ?_, ?_⟩
    · rw [ledger_concat]
      exact hrep
    · exact count_update hcount (le_refl _) p
        (hcnt.elim (fun he => he.trans_le (hcount p)) (fun he => he.le))
  | add p hash low high flag inode ok =>
    obtain ⟨file, index, heq, rfl⟩ := hnext
    obtain ⟨ok', file', index', layout', heq', hwf', _, hcnt, hsize, hrep', _⟩ :=
      hwf.tdxIndexAdd_spec hrep (hcount p) hcond.1 hcond.2 low high flag inode
    rw [heq] at heq'
    obtain ⟨rfl, hpair⟩ := Prod.mk.inj heq'
    obtain ⟨rfl, rfl⟩ := Prod.mk.inj hpair
    refine ⟨⟨layout', hwf'⟩, ?_, count_update hcount hsize p hcnt⟩
    rw [ledger_concat]
    exact hrep'
  | delete p hash now ok =>
    obtain ⟨file, index, heq, rfl⟩ := hnext
    obtain ⟨ok', file', index', layout', heq', hwf', _, hcnt, hsize, hrep'⟩ :=
      hwf.tdxIndexDelete_spec hrep (hcount p) now
    rw [heq] at heq'
    obtain ⟨rfl, hpair⟩ := Prod.mk.inj heq'
    obtain ⟨rfl, rfl⟩ := Prod.mk.inj hpair
    refine ⟨⟨layout', hwf'⟩, ?_, count_update hcount hsize.ge p hcnt⟩
    rw [ledger_concat]
    exact hrep'

theorem Wf.freeDisjoint {file : IndexFile} {layout : Layout} (h : Wf file layout) :
    FreeDisjoint file := by
  intro b c hfree hchain
  rw [h.free.reaches_iff] at hfree
  rw [(h.chain b).reaches_iff] at hchain
  exact h.disjoint b c hfree hchain

/-- Processes that share a group index keep its groups in every run in which no
call depends on a stale count. -/
theorem shared_index_keeps_groups (nfsreader : Bool) :
    KeepsGroups (guarded (CountSuffices nfsreader) (@Next Proc _ nfsreader)) := by
  intro s₀ groups hstart calls s hrun
  obtain ⟨⟨layout, hwf⟩, hrep, hcount⟩ :=
    Steps.invariant_hist (step_inv nfsreader groups) hrun hstart.inv
  refine ⟨hwf.freeDisjoint, ?_, ?_⟩
  · rintro p hash loc s' ⟨hcond, index, heq, _⟩ hsome
    obtain ⟨flag, hflag⟩ := Option.isSome_iff_exists.mp hsome
    have hex : ∃ c, s.file.Has hash c := hrep.has_iff.mpr ⟨flag, hflag⟩
    obtain ⟨loc', index', heq', _, _, hsound, hcomplete, _⟩ :=
      hwf.indexFind_spec nfsreader (hcount p)
    rw [heq] at heq'
    obtain ⟨rfl, rfl⟩ := Prod.mk.inj heq'
    obtain ⟨c, rfl, hc⟩ := hsound.resolve_left (hcomplete hex (hcond hex))
    exact ⟨c, rfl, hwf.has_lt hc, hc.2⟩
  · rintro p hash low high flag inode ok s' ⟨hcond, file, index, heq, rfl⟩ hash' c hne hc
    obtain ⟨ok', file', index', layout', heq', _, _, _, hsize, _, hkeep⟩ :=
      hwf.tdxIndexAdd_spec hrep (hcount p) hcond.1 hcond.2 low high flag inode
    rw [heq] at heq'
    obtain ⟨rfl, hpair⟩ := Prod.mk.inj heq'
    obtain ⟨rfl, rfl⟩ := Prod.mk.inj hpair
    exact ⟨(hwf.has_lt hc).trans_le hsize, (hkeep hash' c hne hc).2⟩

end Run

/-! ## A stale count -/

/-- The hash of the `i`th of some groups that fall into buckets of their own. -/
def groupHash (i : ℕ) : HASH :=
  #v[UInt8.ofNat (i % 256), UInt8.ofNat (i / 256), 0, 0, 0, 0, 0, 0, 0, 0, 0, 0, 0, 0, 0, 0]

/-- The entry of the `i`th group. -/
def groupEntry (i : ℕ) : GroupEntry := ⟨groupHash i, 0, 1, 0, 0, 121, 0, 0, -1⟩

/-- A file filled with `n` groups, one in each of the first `n` buckets. -/
def fullFile (n : ℕ) : IndexFile where
  header := ⟨TDX_MAGIC, fun b => if b.val < n then b.val else -1, -1⟩
  entries := (List.range n).map groupEntry

theorem indexBucket_groupHash {i : ℕ} (h : i < TDX_HASH_SIZE) :
    (indexBucket (groupHash i)).val = i := by
  have hlt : i < 16384 := h
  have h0 : (UInt8.ofNat (i % 256)).toNat = i % 256 := by simp
  have h1 : (UInt8.ofNat (i / 256)).toNat = i / 256 := by
    simp
    omega
  show ((UInt8.ofNat (i % 256)).toNat + (UInt8.ofNat (i / 256)).toNat * 2 ^ 8 + 0 * 2 ^ 16 +
    0 * 2 ^ 24) % 16384 = i
  rw [h0, h1]
  omega

theorem groupHash_injective {i j : ℕ} (hi : i < TDX_HASH_SIZE) (hj : j < TDX_HASH_SIZE)
    (h : groupHash i = groupHash j) : i = j := by
  rw [← indexBucket_groupHash hi, ← indexBucket_groupHash hj, h]

@[simp] theorem size_fullFile (n : ℕ) : (fullFile n).size = n := by
  simp [fullFile, IndexFile.size]

theorem entry_fullFile {n c : ℕ} (h : c < n) : (fullFile n).entry c = groupEntry c := by
  simp [fullFile, IndexFile.entry, recordAt, pread, h]

theorem hash_fullFile_of_lt {n : ℕ} {b : Fin TDX_HASH_SIZE} (h : b.val < n) :
    (fullFile n).header.hash b = (b.val : ℤ) := if_pos h

theorem hash_fullFile_of_le {n : ℕ} {b : Fin TDX_HASH_SIZE} (h : n ≤ b.val) :
    (fullFile n).header.hash b = -1 := if_neg (Nat.not_lt.mpr h)

/-- Every bucket of a full file holds one group, or none. -/
def fullLayout (n : ℕ) : Layout := ⟨[], fun b => if b.val < n then [b.val] else []⟩

theorem mem_fullLayout {n c : ℕ} {b : Fin TDX_HASH_SIZE} :
    c ∈ (fullLayout n).bucket b ↔ c = b.val ∧ b.val < n := by
  by_cases hb : b.val < n
  · simp [fullLayout, hb]
  · simp [fullLayout, hb]

theorem wf_fullFile {n : ℕ} (h : n ≤ TDX_HASH_SIZE) : Wf (fullFile n) (fullLayout n) where
  magic := rfl
  size_le := by
    have hmax : TDX_HASH_SIZE ≤ INT_MAX := by decide
    rw [size_fullFile]
    exact h.trans hmax
  free := rfl
  chain := by
    intro b
    by_cases hb : b.val < n
    · have hl : (fullLayout n).bucket b = [b.val] := if_pos hb
      rw [hash_fullFile_of_lt hb, hl]
      refine ⟨rfl, ?_⟩
      show ((fullFile n).entry b.val).next = -1
      rw [entry_fullFile hb]
      rfl
    · have hl : (fullLayout n).bucket b = [] := if_neg hb
      rw [hash_fullFile_of_le (Nat.le_of_not_lt hb), hl]
      rfl
  free_lt := by
    intro c hc
    cases hc
  chain_lt := by
    intro b c hc
    obtain ⟨rfl, hb⟩ := mem_fullLayout.mp hc
    rwa [size_fullFile]
  live := by
    intro b c hc
    obtain ⟨rfl, hb⟩ := mem_fullLayout.mp hc
    rw [entry_fullFile hb]
    exact ⟨rfl, Fin.ext (indexBucket_groupHash b.isLt)⟩
  inj := by
    intro b c hc c' hc' _
    rw [(mem_fullLayout.mp hc).1, (mem_fullLayout.mp hc').1]
  disjoint := by
    intro b c hc
    cases hc

/-- Entries freed on an empty free list: the first one becomes its head. -/
theorem freelist_freeNew {file : IndexFile} {lo n : ℕ} (hfree : file.header.freelist = -1)
    (hsize : lo + n ≤ file.size) (hn : 0 < n) :
    (freeNew file lo n).header.freelist = lo ∧ -1 ≤ ((freeNew file lo n).entry lo).next ∧
      ((freeNew file lo n).entry lo).next < lo + n := by
  obtain ⟨hlinks, _⟩ := freeNew_spec (l := []) hfree hsize (by
    intro c hc
    cases hc)
  obtain ⟨m, rfl⟩ : ∃ m, n = m + 1 := ⟨n - 1, by omega⟩
  rw [List.append_nil, List.range'_succ] at hlinks
  refine ⟨hlinks.1, ?_⟩
  cases m with
  | zero =>
    have hend : ((freeNew file lo 1).entry lo).next = -1 := hlinks.2
    rw [hend]
    omega
  | succ m =>
    have hnext := hlinks.2.1
    simp only at hnext
    rw [hnext]
    omega

/-- A process that has mapped `k` of the `k + 1024` entries of a full file adds
another group: it puts the entries from `k` on, all of them live, on the free list
and fills the first. -/
theorem stale_add {k j : ℕ} (hk : k ≤ INT_MAX - 1024) (hkj : k + 1024 ≤ j)
    (hj : j < TDX_HASH_SIZE) (low high : ℕ) (flag : ℤ) (inode : ℕ) :
    ∃ file index, tdxIndexAdd false (fullFile (k + 1024)) ⟨true, k⟩ (groupHash j) low high flag
      inode = (true, file, index) ∧ (file.entry k).hash = groupHash j := by
  have hempty : (fullFile (k + 1024)).header.hash (indexBucket (groupHash j)) = -1 := by
    refine hash_fullFile_of_le ?_
    rw [indexBucket_groupHash hj]
    exact hkj
  have hfind : indexFind false (fullFile (k + 1024)) ⟨true, k⟩ (groupHash j) =
      (-1, ⟨true, k⟩) := by
    rw [indexFind, if_neg Bool.false_ne_true]
    simp only [walkFuel, findLoop, hempty]
    rfl
  have htrunc : ∀ c, ((fullFile (k + 1024)).truncate (k + 1024)).entry c =
      (fullFile (k + 1024)).entry c := fun c => entry_truncate (by simp) c
  obtain ⟨freed, hfreed⟩ :
      ∃ freed, freed = freeNew ((fullFile (k + 1024)).truncate (k + 1024)) k 1024 := ⟨_, rfl⟩
  have hexpand : indexExpand (fullFile (k + 1024)) ⟨true, k⟩ = some (freed, ⟨true, k + 1024⟩) := by
    unfold indexExpand
    have hmagic : ¬ ((fullFile (k + 1024)).truncate (k + 1024)).header.magic ≠ TDX_MAGIC :=
      fun hne => hne rfl
    simp only [if_neg (Nat.not_lt.mpr hk), if_neg hmagic, hfreed]
  obtain ⟨hhead, hlow, hhigh⟩ := @freelist_freeNew
    ((fullFile (k + 1024)).truncate (k + 1024)) k 1024 rfl
    (by rw [size_truncate]) (by decide)
  obtain ⟨_, hsize, hhash, _⟩ := @freeNew_spec
    ((fullFile (k + 1024)).truncate (k + 1024)) k 1024 [] rfl
    (by rw [size_truncate]) (by
      intro c hc
      cases hc)
  rw [← hfreed] at hhead hlow hhigh hsize hhash
  have hroom : k < freed.size := by
    rw [hsize.trans (size_truncate _ _)]
    omega
  refine ⟨fillEntry freed k (groupHash j) low high flag inode, ⟨true, k + 1024⟩, ?_, ?_⟩
  · have hfl : (fullFile (k + 1024)).header.freelist = -1 := rfl
    unfold tdxIndexAdd
    simp only [hfind, Bool.not_true, Bool.false_eq_true, if_false, ne_eq, not_true_eq_false]
    rw [addNew, if_pos hfl, hexpand]
    simp only [hhead, Int.toNat_natCast]
    rw [if_neg]
    push_cast
    omega
  · have hne : freed.header.hash (indexBucket (groupHash j)) ≠ k := by
      have hbucket : freed.header.hash (indexBucket (groupHash j)) = -1 := by
        rw [hhash]
        exact hempty
      rw [hbucket]
      omega
    rw [Wf.fillEntry_eq hroom hne, IndexFile.entry_setHash, IndexFile.setNext,
      IndexFile.entry_modify_self, IndexFile.entry_modify_self]
    · exact hroom
    · rw [IndexFile.size_modify]
      exact hroom

/-- Two processes opened the file when it had 1024 entries; one of them has
filled it up to 2048. -/
def staleState : Shared Bool where
  file := fullFile (1024 + 1024)
  procs := fun p => if p then ⟨true, 1024 + 1024⟩ else ⟨true, 1024⟩

/-- With a stale count in play, an add overwrites the entry of another group. -/
theorem stale_add_overwrites_live_entry : ¬ KeepsGroups (@Next Bool _ false) := by
  intro hkeeps
  have hwf := wf_fullFile (n := 1024 + 1024) (by decide)
  obtain ⟨groups, hrep⟩ := hwf.exists_represents
  have hstart : Start staleState groups := by
    refine ⟨⟨_, hwf⟩, hrep, ?_⟩
    intro p
    rw [show staleState.file = fullFile (1024 + 1024) from rfl, size_fullFile]
    cases p with
    | false => decide
    | true => decide
  obtain ⟨file, index, hadd, hhash⟩ :=
    stale_add (k := 1024) (j := 2048) (by decide) (by decide) (by decide) 0 0 121 7
  obtain ⟨_, _, hothers⟩ := hkeeps staleState groups hstart [] staleState .nil
  have hhas : staleState.file.Has (groupHash 1024) 1024 := by
    have hentry : (fullFile (1024 + 1024)).entry 1024 = groupEntry 1024 :=
      entry_fullFile (by decide)
    refine hwf.has_iff.mpr ⟨?_, congrArg GroupEntry.hash hentry⟩
    rw [mem_fullLayout, indexBucket_groupHash (by decide)]
    decide
  have hne : groupHash 1024 ≠ groupHash 2048 := by
    intro heq
    exact absurd (groupHash_injective (by decide) (by decide) heq) (by decide)
  obtain ⟨_, hsame⟩ := hothers false (groupHash 2048) 0 0 121 7 true _ ⟨file, index, hadd, rfl⟩
    (groupHash 1024) 1024 hne hhas
  have hold : (staleState.file.entry 1024).hash = groupHash 1024 := hhas.2.2
  rw [← hsame] at hold
  exact hne (hold.symm.trans hhash)

end Inn.Tradindexed
