import Inn.Tradindexed.Sharing

/-!
# Inn.Tradindexed.Rebuild — `tdx_expire` beside other writers of the index

`tdx_expire` locks the entry of its group, copies it, rewrites the data files and
stores the copy back. Adding and deleting groups lock the header instead, so
these calls fall anywhere between the steps of an expire.

`KeepsChains` says that the index stays well formed and that its groups are those
of the ledger, flags included. It holds when the link, hash, flag and deletion
time that `tdx_index_rebuild_finish` stores are the ones the entry has at that
time (`CopyCurrent`); the code does not see to that, it stores the whole copy.
-/

namespace Inn.Tradindexed

open Function (update update_self update_of_ne)

/-- The marks of a group in which nothing survived: `high` is one less than `low`. -/
def emptyMarks (oldHigh : ℕ) (new : GroupEntry) : GroupEntry :=
  if new.low = 0 then
    let low := if 0 < oldHigh then oldHigh else 1
    { new with low := low, high := low - 1 }
  else new

/-- What `tdx_expire` keeps in its local variables: the location of the entry,
`new_entry`, and the old marks. -/
inductive Phase where
  | start
  | found (loc : ℕ)
  | copied (loc : ℕ) (new : GroupEntry) (oldHigh : ℕ)
  | rewritten (loc : ℕ) (new : GroupEntry) (oldHigh oldBase : ℕ) (oldInode : ℕ)
  | done

/-- The processes sharing the index, and the state of the one expire. -/
structure Expiring (Proc : Type*) where
  shared : Shared Proc
  phase : Phase

/-- A whole call of some process, or one step of the expire: it finds the group;
it locks and copies the entry; it has built the new files (whose marks
`tdx_data_expire_start` leaves in the copy) and stores inode and base; it stores
the copy; or it gives up, restoring inode and base. -/
inductive Act (Proc : Type*) where
  | call (call : Call Proc)
  | find (loc : ℤ)
  | copy
  | rewrite (low high base : ℕ) (count : ℤ) (inode : ℕ)
  | finish
  | fail

variable {Proc : Type*} [DecidableEq Proc]

/-- One step, with process `p` running `tdx_expire` on `group`. -/
def ExpireNext (nfsreader : Bool) (p : Proc) (group : HASH) (s : Expiring Proc) (act : Act Proc)
    (s' : Expiring Proc) : Prop :=
  let file := s.shared.file
  match act, s.phase with
  | .call call, _ =>
    ∃ shared, Next nfsreader s.shared call shared ∧ s' = { s with shared := shared }
  | .find loc, .start =>
    ∃ shared, Next nfsreader s.shared (.find p group loc) shared ∧
      s' = { shared := shared, phase := if loc = -1 then .done else .found loc.toNat }
  | .copy, .found loc =>
    let entry := file.entry loc
    s' = { s with phase := .copied loc { entry with low := 0, count := 0, base := 0 } entry.high }
  | .rewrite low high base count inode, .copied loc new oldHigh =>
    let entry := file.entry loc
    let new := { new with
      low := low, high := high, base := base, count := count, indexinode := inode }
    s' = { shared := { s.shared with file := file.modify loc (fun entry =>
             { entry with indexinode := new.indexinode, base := new.base }) }
           phase := .rewritten loc new oldHigh entry.base entry.indexinode }
  | .finish, .rewritten loc new oldHigh _ _ =>
    s' = { shared := { s.shared with file := file.modify loc (fun _ => emptyMarks oldHigh new) }
           phase := .done }
  | .fail, .copied _ _ _ => s' = { s with phase := .done }
  | .fail, .rewritten loc _ _ oldBase oldInode =>
    s' = { shared := { s.shared with file := file.modify loc (fun entry =>
             { entry with base := oldBase, indexinode := oldInode }) }
           phase := .done }
  | _, _ => False

/-- The groups the acts leave: the expire adds and deletes none. -/
def expireLedger (groups : Groups) (acts : List (Act Proc)) : Groups :=
  ledger groups (acts.filterMap fun act =>
    match act with
    | .call call => some call
    | _ => none)

/-- The chains and the free list end, so they are acyclic, and they are disjoint. -/
structure Tidy (file : IndexFile) : Prop where
  free : ∃ l : List ℕ, l.Nodup ∧ file.Links file.header.freelist l
  chain : ∀ b, ∃ l : List ℕ, l.Nodup ∧ file.Links (file.header.hash b) l
  free_disjoint : FreeDisjoint file
  chain_disjoint : ∀ b b' c, file.Reaches (file.header.hash b) c →
    file.Reaches (file.header.hash b') c → b = b'

/-- In every interleaving the index stays tidy, the groups found from their
buckets are those added and not deleted, and each has the flag set last. -/
def KeepsChains (next : Expiring Proc → Act Proc → Expiring Proc → Prop) : Prop :=
  ∀ s₀ groups, Start s₀.shared groups → s₀.phase = .start → ∀ acts s, Steps next s₀ acts s →
    Tidy s.shared.file ∧ Represents s.shared.file (expireLedger groups acts)

/-- No call depends on a stale count, and the copy the expire stores back has the
link, hash, flag and deletion time the entry has at that time. -/
def CopyCurrent (nfsreader : Bool) (s : Expiring Proc) : Act Proc → Prop
  | .call call => CountSuffices nfsreader s.shared call
  | .finish =>
    match s.phase with
    | .rewritten loc new _ _ _ =>
      new.next = (s.shared.file.entry loc).next ∧ new.hash = (s.shared.file.entry loc).hash ∧
        new.flag = (s.shared.file.entry loc).flag ∧
        new.deleted = (s.shared.file.entry loc).deleted
    | _ => True
  | _ => True

/-! ## The invariant -/

theorem Wf.tidy {file : IndexFile} {layout : Layout} (h : Wf file layout) : Tidy file where
  free := ⟨layout.free, h.free.nodup, h.free⟩
  chain := fun b => ⟨layout.bucket b, (h.chain b).nodup, h.chain b⟩
  free_disjoint := h.freeDisjoint
  chain_disjoint := by
    intro b b' c hc hc'
    rw [(h.chain b).reaches_iff] at hc
    rw [(h.chain b').reaches_iff] at hc'
    exact h.bucket_disjoint hc hc'

omit [DecidableEq Proc] in
/-- An update of an entry that keeps its link, hash, flag and deletion time. -/
theorem Inv.modify {groups : Groups} {calls : List (Call Proc)} {s : Shared Proc}
    (hinv : Inv groups calls s) (loc : ℕ) (g : GroupEntry → GroupEntry)
    (hnext : (g (s.file.entry loc)).next = (s.file.entry loc).next)
    (hhash : (g (s.file.entry loc)).hash = (s.file.entry loc).hash)
    (hflag : (g (s.file.entry loc)).flag = (s.file.entry loc).flag)
    (hdel : (g (s.file.entry loc)).deleted = (s.file.entry loc).deleted) :
    Inv groups calls { s with file := s.file.modify loc g } := by
  obtain ⟨⟨layout, hwf⟩, hrep, hcount⟩ := hinv
  refine ⟨⟨layout, hwf.modify loc g ⟨hnext, hdel, hhash⟩⟩, ?_, by simpa using hcount⟩
  refine hrep.congr (hwf.has_modify loc g ⟨hnext, hdel, hhash⟩) (fun hash c _ => ?_)
  rw [s.file.entry_modify]
  split
  · rename_i hc
    rw [hc.1]
    exact hflag
  · rfl

theorem emptyMarks_keeps (oldHigh : ℕ) (new : GroupEntry) :
    (emptyMarks oldHigh new).next = new.next ∧ (emptyMarks oldHigh new).hash = new.hash ∧
      (emptyMarks oldHigh new).flag = new.flag ∧
      (emptyMarks oldHigh new).deleted = new.deleted := by
  unfold emptyMarks
  split
  · exact ⟨rfl, rfl, rfl, rfl⟩
  · exact ⟨rfl, rfl, rfl, rfl⟩

omit [DecidableEq Proc] in
theorem expireLedger_call (groups : Groups) (acts : List (Act Proc)) (call : Call Proc) :
    expireLedger groups (acts ++ [.call call]) = call.apply (expireLedger groups acts) := by
  rw [expireLedger, List.filterMap_append]
  exact ledger_concat _ _ _

omit [DecidableEq Proc] in
theorem expireLedger_expire (groups : Groups) (acts : List (Act Proc)) {act : Act Proc}
    (h : ∀ call, act ≠ .call call) :
    expireLedger groups (acts ++ [act]) = expireLedger groups acts := by
  rw [expireLedger, List.filterMap_append]
  cases act with
  | call call => exact absurd rfl (h call)
  | find _ => rw [List.filterMap_cons, List.filterMap_nil, List.append_nil]; rfl
  | copy => rw [List.filterMap_cons, List.filterMap_nil, List.append_nil]; rfl
  | rewrite _ _ _ _ _ => rw [List.filterMap_cons, List.filterMap_nil, List.append_nil]; rfl
  | finish => rw [List.filterMap_cons, List.filterMap_nil, List.append_nil]; rfl
  | fail => rw [List.filterMap_cons, List.filterMap_nil, List.append_nil]; rfl

/-- The part of `Inv` an expire has to keep, on the ledger of the acts. -/
def ExpireInv (groups : Groups) (acts : List (Act Proc)) (s : Expiring Proc) : Prop :=
  Inv (expireLedger groups acts) [] s.shared

/-- A call of the ledger's system, as a step of this one. -/
theorem ExpireInv.call {nfsreader : Bool} {groups : Groups} {acts : List (Act Proc)}
    {s : Expiring Proc} {shared : Shared Proc} {call : Call Proc}
    (hcond : CountSuffices nfsreader s.shared call) (hnext : Next nfsreader s.shared call shared)
    (hinv : ExpireInv groups acts s) :
    Inv (call.apply (expireLedger groups acts)) [] shared :=
  have h := step_inv nfsreader (expireLedger groups acts) [] s.shared call shared
    ⟨hcond, hnext⟩ hinv
  ⟨h.wf, h.represents, h.count⟩

/-- Finding the group changes no entry, whether the walk reaches it or not. -/
theorem ExpireInv.find {nfsreader : Bool} {groups : Groups} {acts : List (Act Proc)}
    {s : Expiring Proc} {shared : Shared Proc} {p : Proc} {group : HASH} {loc : ℤ}
    (hnext : Next nfsreader s.shared (.find p group loc) shared)
    (hinv : ExpireInv groups acts s) : Inv (expireLedger groups acts) [] shared := by
  obtain ⟨index, heq, rfl⟩ := hnext
  obtain ⟨⟨layout, hwf⟩, hrep, hcount⟩ := hinv
  obtain ⟨loc', index', heq', _, hcnt, _⟩ :=
    hwf.indexFind_spec nfsreader (hcount p)
  rw [heq] at heq'
  obtain ⟨rfl, rfl⟩ := Prod.mk.inj heq'
  refine ⟨⟨layout, hwf⟩, hrep, ?_⟩
  exact count_update hcount (le_refl _) p
    (hcnt.elim (fun he => he.trans_le (hcount p)) (fun he => he.le))

/-- What one step of an expire does to the shared state. -/
theorem expireNext_cases {nfsreader : Bool} {p : Proc} {group : HASH} {s s' : Expiring Proc}
    {act : Act Proc} (h : ExpireNext nfsreader p group s act s') :
    (∃ call, act = .call call ∧ Next nfsreader s.shared call s'.shared) ∨
    (∀ call, act ≠ .call call) ∧
      ((∃ loc, act = .find loc ∧ Next nfsreader s.shared (.find p group loc) s'.shared) ∨
      s'.shared = s.shared ∨
      (∃ loc base inode, s'.shared = { s.shared with file := s.shared.file.modify loc (fun entry =>
        { entry with base := base, indexinode := inode }) }) ∨
      ∃ loc new oldHigh oldBase oldInode, act = .finish ∧
        s.phase = .rewritten loc new oldHigh oldBase oldInode ∧
        s'.shared = { s.shared with
          file := s.shared.file.modify loc (fun _ => emptyMarks oldHigh new) }) := by
  obtain ⟨shared, phase⟩ := s
  unfold ExpireNext at h
  cases act with
  | call call =>
    obtain ⟨shared', hnext, rfl⟩ := h
    exact .inl ⟨call, rfl, hnext⟩
  | find loc =>
    refine .inr ⟨(by intro call he; cases he), .inl ⟨loc, rfl, ?_⟩⟩
    cases phase with
    | start =>
      obtain ⟨shared', hnext, rfl⟩ := h
      exact hnext
    | _ => exact h.elim
  | copy =>
    refine .inr ⟨(by intro call he; cases he), .inr (.inl ?_)⟩
    cases phase with
    | found loc => rw [h]
    | _ => exact h.elim
  | rewrite low high base count inode =>
    refine .inr ⟨(by intro call he; cases he), .inr (.inr (.inl ?_))⟩
    cases phase with
    | copied loc new oldHigh =>
      rw [h]
      exact ⟨loc, base, inode, rfl⟩
    | _ => exact h.elim
  | finish =>
    refine .inr ⟨(by intro call he; cases he), .inr (.inr (.inr ?_))⟩
    cases phase with
    | rewritten loc new oldHigh oldBase oldInode =>
      rw [h]
      exact ⟨loc, new, oldHigh, oldBase, oldInode, rfl, rfl, rfl⟩
    | _ => exact h.elim
  | fail =>
    refine .inr ⟨(by intro call he; cases he), .inr ?_⟩
    cases phase with
    | copied loc new oldHigh =>
      rw [h]
      exact .inl rfl
    | rewritten loc new oldHigh oldBase oldInode =>
      rw [h]
      exact .inr (.inl ⟨loc, oldBase, oldInode, rfl⟩)
    | _ => exact h.elim

/-- One step keeps the invariant if it stores back a current copy. -/
theorem expire_step_inv (nfsreader : Bool) (p : Proc) (group : HASH) (groups : Groups)
    (acts : List (Act Proc)) (s : Expiring Proc) (act : Act Proc) (s' : Expiring Proc)
    (hstep : guarded (CopyCurrent nfsreader) (ExpireNext nfsreader p group) s act s')
    (hinv : ExpireInv groups acts s) : ExpireInv groups (acts ++ [act]) s' := by
  obtain ⟨hcond, hnext⟩ := hstep
  rcases expireNext_cases hnext with ⟨call, rfl, hcall⟩ | ⟨hne, hexp⟩
  · rw [ExpireInv, expireLedger_call]
    exact hinv.call hcond hcall
  · rw [ExpireInv, expireLedger_expire _ _ hne]
    rcases hexp with ⟨loc, rfl, hfind⟩ | hsame | ⟨loc, base, inode, hmod⟩ |
      ⟨loc, new, oldHigh, oldBase, oldInode, rfl, hphase, hmod⟩
    · exact hinv.find hfind
    · rw [hsame]
      exact hinv
    · -- only base and inode are stored
      rw [hmod]
      exact hinv.modify loc _ rfl rfl rfl rfl
    · -- the whole copy is stored, which is current by the condition
      rw [hmod]
      simp only [CopyCurrent, hphase] at hcond
      obtain ⟨hn, hh, hf, hd⟩ := emptyMarks_keeps oldHigh new
      exact hinv.modify loc _ (hn.trans hcond.1) (hh.trans hcond.2.1) (hf.trans hcond.2.2.1)
        (hd.trans hcond.2.2.2)

/-- An expire and the calls of other processes keep the index in every
interleaving in which the copy is still current when it is stored back. -/
theorem expire_keeps_chains (nfsreader : Bool) (p : Proc) (group : HASH) :
    KeepsChains (guarded (CopyCurrent nfsreader) (ExpireNext nfsreader p group)) := by
  intro s₀ groups hstart _ acts s hrun
  have hinv : ExpireInv groups acts s :=
    Steps.invariant_hist (expire_step_inv nfsreader p group groups) hrun hstart.inv
  obtain ⟨⟨layout, hwf⟩, hrep, _⟩ := hinv
  exact ⟨hwf.tidy, hrep⟩

/-! ## A flag set during an expire

A file of 1024 groups and two processes that have it mapped. One expires the
first group; between its copy and its write-back the other sets the flag. -/

/-- Both processes have mapped the file. -/
def flagShared (file : IndexFile) : Shared Bool := { file := file, procs := fun _ => ⟨true, 1024⟩ }

/-- The file after the flag was set. -/
def flaggedFile : IndexFile :=
  (fullFile 1024).modify 0 (fun entry => { entry with flag := 109 })

/-- The file after the expire has stored inode and base. -/
def rewrittenFile : IndexFile :=
  flaggedFile.modify 0 (fun entry => { entry with indexinode := 5, base := 0 })

/-- The copy that is stored back, with the flag it had. -/
def staleCopy : GroupEntry := { groupEntry 0 with indexinode := 5 }

/-- The file after the expire. -/
def expiredFile : IndexFile := rewrittenFile.modify 0 (fun _ => emptyMarks 0 staleCopy)

theorem entry_fullFile_zero : (fullFile 1024).entry 0 = groupEntry 0 := entry_fullFile (by decide)

theorem zero_lt_size_fullFile : 0 < (fullFile 1024).size := by
  rw [size_fullFile]
  decide

theorem indexFind_fullFile {n i : ℕ} (hn : n ≤ TDX_HASH_SIZE) (hi : i < n) :
    indexFind false (fullFile n) ⟨true, n⟩ (groupHash i) = ((i : ℤ), ⟨true, n⟩) := by
  have hwf := wf_fullFile hn
  have hhas : (fullFile n).Has (groupHash i) i := by
    rw [hwf.has_iff, mem_fullLayout, indexBucket_groupHash (hi.trans_le hn), entry_fullFile hi]
    exact ⟨⟨rfl, hi⟩, rfl⟩
  obtain ⟨loc, index, heq, hw, hcount, hsound, hcomplete, _⟩ :=
    @Wf.indexFind_spec _ _ _ ⟨true, n⟩ hwf false (size_fullFile n).ge
  obtain ⟨c, rfl, hc⟩ :=
    hsound.resolve_left (hcomplete ⟨i, hhas⟩ (.inl (.inr (.inl (size_fullFile n).symm))))
  have hindex : index = ⟨true, n⟩ := by
    rw [size_fullFile, or_self] at hcount
    cases index
    cases hw
    cases hcount
    rfl
  rw [heq, hwf.has_unique hc hhas, hindex]

/-- The steps of the expire, with the add in between. -/
def flagActs : List (Act Bool) :=
  [] ++ [.find 0] ++ [.copy] ++ [.call (.add false (groupHash 0) 0 0 109 7 true)] ++
    [.rewrite 1 0 0 0 5] ++ [.finish]

/-- The steps can be taken, and leave the old flag in the entry. -/
theorem flag_run : Steps (ExpireNext false true (groupHash 0))
    ⟨flagShared (fullFile 1024), .start⟩ flagActs ⟨flagShared expiredFile, .done⟩ := by
  have hfind := indexFind_fullFile (n := 1024) (i := 0) (by decide) (by decide)
  have hprocs : ∀ (file file' : IndexFile) (p : Bool),
      flagShared file' = ⟨file', update (flagShared file).procs p ⟨true, 1024⟩⟩ := by
    intro file file' p
    rw [show (⟨true, 1024⟩ : GroupIndex) = (flagShared file).procs p from rfl,
      Function.update_eq_self]
    rfl
  have hcopy : ExpireNext false true (groupHash 0) ⟨flagShared (fullFile 1024), .found 0⟩ .copy
      ⟨flagShared (fullFile 1024), .copied 0 { groupEntry 0 with low := 0 } 0⟩ := by
    show _ = Expiring.mk _ (.copied 0 { (fullFile 1024).entry 0 with low := 0, count := 0, base := 0 }
      ((fullFile 1024).entry 0).high)
    rw [entry_fullFile_zero]
    rfl
  have hadd : tdxIndexAdd false (fullFile 1024) ⟨true, 1024⟩ (groupHash 0) 0 0 109 7 =
      (true, flaggedFile, ⟨true, 1024⟩) := by
    unfold tdxIndexAdd
    simp only [hfind]
    rfl
  have hflag : flaggedFile.entry 0 = { groupEntry 0 with flag := 109 } := by
    rw [flaggedFile, IndexFile.entry_modify_self _ _ zero_lt_size_fullFile, entry_fullFile_zero]
  have hrewrite : ExpireNext false true (groupHash 0)
      ⟨flagShared flaggedFile, .copied 0 { groupEntry 0 with low := 0 } 0⟩ (.rewrite 1 0 0 0 5)
      ⟨flagShared rewrittenFile, .rewritten 0 staleCopy 0 0 0⟩ := by
    show _ = Expiring.mk _ (.rewritten 0 staleCopy 0 (flaggedFile.entry 0).base
      (flaggedFile.entry 0).indexinode)
    rw [hflag]
    rfl
  refine .snoc (.snoc (.snoc (.snoc (.snoc .nil ?_) hcopy) ?_) hrewrite) rfl
  · refine ⟨flagShared (fullFile 1024), ⟨_, hfind, ?_⟩, rfl⟩
    exact hprocs (fullFile 1024) (fullFile 1024) true
  · refine ⟨flagShared flaggedFile, ⟨_, _, hadd, ?_⟩, rfl⟩
    exact hprocs (fullFile 1024) flaggedFile false

/-- The flag that `tdx_index_add` sets between the copy and the write-back is
overwritten by the old one. -/
theorem expire_loses_flag : ¬ KeepsChains (ExpireNext false true (groupHash 0)) := by
  intro hkeeps
  have hwf := wf_fullFile (n := 1024) (by decide)
  obtain ⟨groups, hrep⟩ := hwf.exists_represents
  have hstart : Start (flagShared (fullFile 1024)) groups :=
    ⟨⟨_, hwf⟩, hrep, fun _ => (size_fullFile 1024).ge⟩
  obtain ⟨_, hrep'⟩ := hkeeps _ groups hstart rfl _ _ flag_run
  -- the ledger has the new flag, the entry the old one
  have hledger : expireLedger groups flagActs (groupHash 0) = some 109 := by
    show update groups (groupHash 0) (some 109) (groupHash 0) = _
    exact update_self _ _ _
  obtain ⟨c, hc, hflag⟩ := (hrep' _ _).mp hledger
  have hat : expiredFile.entry 0 = emptyMarks 0 staleCopy := by
    rw [expiredFile, IndexFile.entry_modify_self]
    simpa only [rewrittenFile, flaggedFile, IndexFile.size_modify] using zero_lt_size_fullFile
  have hb : (indexBucket (groupHash 0)).val = 0 := indexBucket_groupHash (by decide)
  have hlinks : expiredFile.Links (expiredFile.header.hash (indexBucket (groupHash 0))) [0] := by
    refine ⟨?_, ?_⟩
    · show (fullFile 1024).header.hash _ = 0
      rw [hash_fullFile_of_lt (by rw [hb]; decide), hb]
      rfl
    · show (expiredFile.entry 0).next = -1
      rw [hat]
      rfl
  have hc0 : c = 0 := List.mem_singleton.mp (hlinks.reaches_iff.mp hc.1)
  rw [hc0] at hflag
  replace hflag : (expiredFile.entry 0).flag = 109 := hflag
  rw [hat] at hflag
  exact absurd hflag (by decide)

end Inn.Tradindexed
