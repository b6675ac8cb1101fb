import Inn.Tradindexed.Audit
import Inn.Tradindexed.Layout

/-!
# Inn.Tradindexed.Repair — the walks of an audit

* `Walked` — what a walk changes in the file;
* `IndexFile.nextOf`, `IndexFile.Track` — the link that an audit leaves in an entry, and the cells
  that a walk meets;
* `Repairable` — no walk meets an entry twice, and no entry is in a place where the walks do the
  wrong thing;
* `bucketWalk_spec`, `sweep_spec`, `freeWalk_spec`, `attach_spec` — what is left by the walks over
  the buckets and the free list, and by the loop over the entries that were not reached.
-/

namespace Inn.Tradindexed

open Function (update update_self update_of_ne update_eq_self)

/-! ## Writing links -/

/-- A link that is in the file. -/
def Link.In (file : IndexFile) : Link → Prop
  | .entry c => c < file.size
  | _ => True

section Links

variable {file : IndexFile} {link link' : Link} {recno : ℤ} {c : ℕ}

theorem Link.read_write_self (h : link.In file) : link.read (link.write file recno) = recno := by
  cases link with
  | bucket b => exact update_self _ _ _
  | freelist => rfl
  | entry c =>
    change ((file.modify c _).entry c).next = recno
    rw [file.entry_modify_self _ h]

theorem Link.read_write_of_ne (h : link' ≠ link) :
    link'.read (link.write file recno) = link'.read file := by
  cases link with
  | bucket b =>
    cases link' with
    | bucket b' => exact update_of_ne (fun hb => h (congrArg Link.bucket hb)) _ _
    | freelist => rfl
    | entry c => rfl
  | freelist =>
    cases link' with
    | bucket b => rfl
    | freelist => exact absurd rfl h
    | entry c => rfl
  | entry c =>
    cases link' with
    | bucket b => rfl
    | freelist => rfl
    | entry c' =>
      change ((file.modify c _).entry c').next = (file.entry c').next
      rw [file.entry_modify_of_ne _ fun hc => h (congrArg Link.entry hc)]

theorem Link.size_write : (link.write file recno).size = file.size := by
  cases link with
  | entry c => exact file.size_setNext c recno
  | _ => rfl

/-- Links are no other data. -/
theorem Link.data_write : ((link.write file recno).entry c).hash = (file.entry c).hash ∧
    ((link.write file recno).entry c).deleted = (file.entry c).deleted := by
  cases link with
  | entry c' =>
    change ((file.modify c' _).entry c).hash = _ ∧ ((file.modify c' _).entry c).deleted = _
    rw [file.entry_modify]
    split <;> exact ⟨rfl, rfl⟩
  | _ => exact ⟨rfl, rfl⟩

/-- Other data are no links. -/
theorem Link.read_modify {g : GroupEntry → GroupEntry} (hg : ∀ e, (g e).next = e.next) :
    link.read (file.modify c g) = link.read file := by
  cases link with
  | entry c' =>
    change ((file.modify c g).entry c').next = (file.entry c').next
    rw [file.entry_modify]
    split
    · exact hg _
    · rfl
  | _ => rfl

end Links

/-- What a walk does with a file: it writes some links, and clears the hashes of some entries that
are deleted. -/
structure Walked (file file' : IndexFile) (links : Link → Prop) (cells : ℕ → Prop) : Prop where
  size : file'.size = file.size
  read : ∀ link, ¬links link → link.read file' = link.read file
  deleted : ∀ c, (file'.entry c).deleted = (file.entry c).deleted
  cleared : ∀ c, cells c → (file.entry c).deleted ≠ 0 → (file'.entry c).hash = HASH.clear
  hash : ∀ c, ¬cells c ∨ (file.entry c).deleted = 0 → (file'.entry c).hash = (file.entry c).hash

namespace Walked

variable {file file' file'' : IndexFile} {links links' : Link → Prop} {cells cells' : ℕ → Prop}

theorem refl (file : IndexFile) : Walked file file (fun _ => False) fun _ => False where
  size := rfl
  read := fun _ _ => rfl
  deleted := fun _ => rfl
  cleared := fun _ h => h.elim
  hash := fun _ _ => rfl

theorem trans (h : Walked file file' links cells) (h' : Walked file' file'' links' cells') :
    Walked file file'' (fun l => links l ∨ links' l) fun c => cells c ∨ cells' c where
  size := h'.size.trans h.size
  read := fun l hl => (h'.read l fun hl' => hl (.inr hl')).trans (h.read l fun hl' => hl (.inl hl'))
  deleted := fun c => (h'.deleted c).trans (h.deleted c)
  cleared := by
    intro c hc hdeleted
    by_cases hc' : cells' c
    · exact h'.cleared c hc' (by rwa [h.deleted])
    · rw [h'.hash c (.inl hc')]
      exact h.cleared c (hc.resolve_right hc') hdeleted
  hash := by
    intro c hc
    rw [h'.hash c, h.hash c]
    · exact hc.imp_left fun hc hc' => hc (.inl hc')
    · rw [h.deleted]
      exact hc.imp_left fun hc hc' => hc (.inr hc')

theorem of_iff (h : Walked file file' links cells) (hlinks : ∀ l, links l → links' l)
    (hcells : ∀ c, cells c ↔ cells' c) : Walked file file' links' cells' where
  size := h.size
  read := fun l hl => h.read l fun hl' => hl (hlinks l hl')
  deleted := h.deleted
  cleared := fun c hc => h.cleared c ((hcells c).mpr hc)
  hash := fun c hc => h.hash c (hc.imp_left fun hc hc' => hc ((hcells c).mp hc'))

theorem write (file : IndexFile) (link : Link) (recno : ℤ) :
    Walked file (link.write file recno) (· = link) fun _ => False where
  size := Link.size_write
  read := fun _ hl => Link.read_write_of_ne hl
  deleted := fun _ => Link.data_write.2
  cleared := fun _ h => h.elim
  hash := fun _ _ => Link.data_write.1

theorem in_iff (h : Walked file file' links cells) (link : Link) :
    link.In file' ↔ link.In file := by
  cases link with
  | entry c =>
    change c < file'.size ↔ c < file.size
    rw [h.size]
  | _ => exact Iff.rfl

end Walked

/-! ## The steps of a walk -/

/-- A location, if it is in the file. -/
def IndexFile.clean (file : IndexFile) (recno : ℤ) : ℤ :=
  if 0 ≤ recno ∧ recno < file.size then recno else -1

/-- The link that an audit leaves in an entry. -/
def IndexFile.nextOf (file : IndexFile) (c : ℕ) : ℤ :=
  if (file.entry c).next = c then -1 else file.clean (file.entry c).next

section Steps

variable {file : IndexFile} {link parent : Link} {c : ℕ}

theorem clean_cases (file : IndexFile) (recno : ℤ) :
    file.clean recno = -1 ∨ 0 ≤ file.clean recno ∧ file.clean recno < file.size := by
  rw [IndexFile.clean]
  split
  · rename_i h
    exact .inr h
  · exact .inl rfl

theorem nextOf_cases (file : IndexFile) (c : ℕ) :
    file.nextOf c = -1 ∨ 0 ≤ file.nextOf c ∧ file.nextOf c < file.size := by
  rw [IndexFile.nextOf]
  split
  · exact .inl rfl
  · exact clean_cases file _

theorem nextOf_ne (file : IndexFile) (c : ℕ) : file.nextOf c ≠ c := by
  rw [IndexFile.nextOf]
  split
  · omega
  · rename_i h
    rw [IndexFile.clean]
    split
    · exact h
    · omega

/-- What `index_audit_loc` leaves in a link. -/
def audited (file : IndexFile) (link : Link) : ℤ :=
  if link.isLoop (link.read file) then -1 else file.clean (link.read file)

theorem audited_entry (file : IndexFile) (c : ℕ) : audited file (.entry c) = file.nextOf c := by
  rw [audited, IndexFile.nextOf]
  exact if_congr beq_iff_eq rfl rfl

theorem indexAuditLoc_spec (file : IndexFile) (link : Link) (h : link.In file) :
    Walked file (indexAuditLoc true file link) (· = link) (fun _ => False) ∧
      link.read (indexAuditLoc true file link) = audited file link := by
  rw [indexAuditLoc, audited]
  by_cases herror : (file.size : ℤ) ≤ link.read file ∨ (link.read file < 0 ∧ link.read file ≠ -1) ∨
      link.isLoop (link.read file) = true
  · rw [if_pos ⟨rfl, herror⟩]
    refine ⟨Walked.write file link (-1), ?_⟩
    rw [Link.read_write_self h]
    split
    · rfl
    · rename_i hloop
      rw [IndexFile.clean, if_neg]
      rintro ⟨h0, hlt⟩
      rcases herror with h | h | h
      · omega
      · omega
      · exact hloop h
  · rw [if_neg fun h => herror h.2]
    refine ⟨(Walked.refl file).of_iff (fun _ h => h.elim) fun _ => Iff.rfl, ?_⟩
    rw [if_neg fun h => herror (.inr (.inr h)), IndexFile.clean]
    split
    · rfl
    · by_contra hne
      refine herror ?_
      omega

theorem indexAuditDeleted_spec (h : c < file.size) :
    Walked file (indexAuditDeleted true file c) (fun _ => False) (· = c) := by
  rw [indexAuditDeleted]
  by_cases hdeleted : (file.entry c).deleted ≠ 0 ∧ (file.entry c).hash ≠ HASH.clear
  · rw [if_pos ⟨rfl, hdeleted⟩]
    refine ⟨file.size_modify c _, fun _ _ => Link.read_modify fun _ => rfl, fun c' => ?_,
      fun c' hc' _ => ?_, fun c' hc' => ?_⟩
    · rw [file.entry_modify]
      split <;> rfl
    · rw [hc', file.entry_modify_self _ h]
    · rw [file.entry_modify_of_ne]
      rintro rfl
      rcases hc' with hc' | hc'
      · exact hc' rfl
      · exact hdeleted.1 hc'
  · rw [if_neg fun h => hdeleted h.2]
    refine ⟨rfl, fun _ _ => rfl, fun _ => rfl, fun c' hc' hd => ?_, fun _ _ => rfl⟩
    by_contra hne
    exact hdeleted (hc' ▸ ⟨hd, hne⟩)

theorem spliceAt_spec (hc : c < file.size) (hparent : parent.In file) (hne : parent ≠ .entry c) :
    Walked file (spliceAt file c parent) (fun l => l = parent ∨ l = .entry c) (fun _ => False) ∧
      parent.read (spliceAt file c parent) = (file.entry c).next ∧
      ((spliceAt file c parent).entry c).next = -1 := by
  have hwrite := Walked.write file parent (file.entry c).next
  have hwrite' := Walked.write (parent.write file (file.entry c).next) (.entry c) (-1)
  refine ⟨(hwrite.trans hwrite').of_iff (fun _ h => h) fun _ => or_self_iff, ?_, ?_⟩
  · change parent.read ((Link.entry c).write _ (-1)) = _
    rw [Link.read_write_of_ne hne, Link.read_write_self hparent]
  · exact Link.read_write_self ((hwrite.in_iff (.entry c)).mpr hc)

theorem nextOf_congr {file' : IndexFile} (hsize : file'.size = file.size)
    (hnext : (file'.entry c).next = (file.entry c).next) : file'.nextOf c = file.nextOf c := by
  rw [IndexFile.nextOf, IndexFile.nextOf, IndexFile.clean, IndexFile.clean, hnext, hsize]

/-- The audit of one entry. -/
theorem auditEntry_spec (hc : c < file.size) :
    Walked file (indexAuditLoc true (indexAuditDeleted true file c) (.entry c)) (· = .entry c)
        (· = c) ∧
      ((indexAuditLoc true (indexAuditDeleted true file c) (.entry c)).entry c).next =
        file.nextOf c := by
  have hdeleted := indexAuditDeleted_spec hc
  obtain ⟨hloc, hread⟩ :=
    indexAuditLoc_spec _ (.entry c) ((hdeleted.in_iff (.entry c)).mpr hc)
  refine ⟨(hdeleted.trans hloc).of_iff (fun _ h => h.resolve_left id) fun _ =>
    iff_of_eq (or_false _), ?_⟩
  refine hread.trans ?_
  rw [audited_entry]
  exact nextOf_congr hdeleted.size (hdeleted.read (.entry c) id)

/-- The entry stays on the chain of a bucket. -/
def Keeps (b : Fin TDX_HASH_SIZE) (e : GroupEntry) : Prop := e.deleted = 0 ∧ b = indexBucket e.hash

instance (b : Fin TDX_HASH_SIZE) (e : GroupEntry) : Decidable (Keeps b e) :=
  inferInstanceAs (Decidable (_ ∧ _))

/-- One round of the walk over a bucket. The link of an entry that is in the wrong bucket is not
audited. -/
theorem bucketEntry_spec {b : Fin TDX_HASH_SIZE} {s : AuditState} (hc : c < s.file.size)
    (hparent : parent.In s.file) (hread : parent.read s.file = c) (hne : parent ≠ .entry c)
    (hmoved : (s.file.entry c).deleted = 0 → ¬Keeps b (s.file.entry c) →
      (s.file.entry c).next = s.file.nextOf c) (hreach : s.reachable c = false) :
    let r := bucketEntry true b parent c s
    Walked s.file r.1.file (fun l => l = parent ∨ l = .entry c) (· = c) ∧
      r.2.read r.1.file = s.file.nextOf c ∧
      r.1.reachable = update s.reachable c (Keeps b (s.file.entry c)) ∧
      (Keeps b (s.file.entry c) → r.2 = .entry c ∧ parent.read r.1.file = c) ∧
      (¬Keeps b (s.file.entry c) → r.2 = parent) := by
  obtain ⟨haudit, hnext⟩ := auditEntry_spec hc
  rw [bucketEntry]
  dsimp only
  by_cases hdeleted : (s.file.entry c).deleted = 0
  · rw [if_neg (show ¬((s.file.entry c).deleted ≠ 0 ∧ true = true) from fun h => h.1 hdeleted)]
    by_cases hb : b = indexBucket (s.file.entry c).hash
    · have hkeeps : Keeps b (s.file.entry c) := ⟨hdeleted, hb⟩
      have hright : ¬((s.file.entry c).deleted = 0 ∧ b ≠ indexBucket (s.file.entry c).hash) :=
        fun h => h.2 hb
      rw [if_neg hright, if_neg fun h => hright h.1, if_neg fun h => hright h.1,
        decide_eq_true hkeeps]
      refine ⟨haudit.of_iff (fun _ => .inr) fun _ => Iff.rfl, hnext, rfl, fun _ => ⟨rfl, ?_⟩,
        fun h => absurd hkeeps h⟩
      rw [haudit.read parent hne, hread]
    · -- spliced out in front of the audit
      have hkeeps : ¬Keeps b (s.file.entry c) := fun h => hb h.2
      obtain ⟨hsplice, hparent', -⟩ := spliceAt_spec hc hparent hne
      obtain ⟨haudit', -⟩ := auditEntry_spec (hsplice.size ▸ hc)
      have hwrong : (s.file.entry c).deleted = 0 ∧ b ≠ indexBucket (s.file.entry c).hash :=
        ⟨hdeleted, hb⟩
      rw [if_pos hwrong, if_pos ⟨hwrong, rfl⟩, if_pos ⟨hwrong, rfl⟩, decide_eq_false hkeeps]
      refine ⟨(hsplice.trans haudit').of_iff (fun _ h => h.elim id .inr) fun _ =>
        iff_of_eq (false_or _), ?_, ?_, fun h => absurd h hkeeps, fun _ => rfl⟩
      · rw [haudit'.read parent hne, hparent', hmoved hdeleted hkeeps]
      · rw [← hreach, update_eq_self]
  · -- spliced out behind the audit
    have hkeeps : ¬Keeps b (s.file.entry c) := fun h => hdeleted h.1
    obtain ⟨hsplice, hparent', -⟩ :=
      spliceAt_spec (haudit.size ▸ hc) ((haudit.in_iff parent).mpr hparent) hne
    have hright : ¬((s.file.entry c).deleted = 0 ∧ b ≠ indexBucket (s.file.entry c).hash) :=
      fun h => hdeleted h.1
    rw [if_pos (show (s.file.entry c).deleted ≠ 0 ∧ true = true from ⟨hdeleted, rfl⟩),
      if_neg hright, if_neg fun h => hright h.1, decide_eq_false hkeeps]
    refine ⟨(haudit.trans hsplice).of_iff (fun _ h => h.elim .inr id) fun _ =>
      iff_of_eq (or_false _), ?_, ?_, fun h => absurd h hkeeps, fun _ => rfl⟩
    · exact hparent'.trans hnext
    · rw [Function.update_idem]

end Steps

/-! ## The walk over a bucket -/

/-- The cells that a walk meets, where the links are those that an audit leaves. -/
def IndexFile.Track (file : IndexFile) (recno : ℤ) (l : List ℕ) : Prop :=
  Chain (-1) (fun c : ℕ => (c : ℤ)) file.nextOf recno l

section Tracks

variable {file file' : IndexFile} {recno : ℤ} {l : List ℕ} {links : Link → Prop}
  {cells : ℕ → Prop}

theorem track_lt (h : file.Track recno l) (hrecno : recno = -1 ∨ 0 ≤ recno ∧ recno < file.size) :
    ∀ c ∈ l, c < file.size := by
  induction l generalizing recno with
  | nil => exact fun _ hc => absurd hc List.not_mem_nil
  | cons d l ih =>
    obtain ⟨hd, hl⟩ := h
    change recno = (d : ℤ) at hd
    intro c hc
    rcases List.mem_cons.mp hc with rfl | hc
    · omega
    · exact ih hl (nextOf_cases file d) c hc

theorem track_congr (h : file.Track recno l) (hwalked : Walked file file' links cells)
    (hlinks : ∀ c ∈ l, ¬links (.entry c)) : file'.Track recno l :=
  Chain.congr h fun c hc => nextOf_congr hwalked.size (hwalked.read _ (hlinks c hc))

theorem keeps_congr {b : Fin TDX_HASH_SIZE} {c : ℕ} (h : Walked file file' links cells)
    (hc : ¬cells c) : Keeps b (file'.entry c) ↔ Keeps b (file.entry c) := by
  rw [Keeps, Keeps, h.deleted, h.hash c (.inl hc)]

end Tracks

theorem bucketWalk_spec {b : Fin TDX_HASH_SIZE} {l : List ℕ} {fuel : ℕ} {parent : Link}
    {current : ℤ} {s : AuditState} (hfuel : l.length < fuel) (htrack : s.file.Track current l)
    (hlt : ∀ c ∈ l, c < s.file.size) (hparent : parent.In s.file)
    (hread : parent.read s.file = current) (hne : ∀ c ∈ l, parent ≠ .entry c)
    (hmoved : ∀ c ∈ l, (s.file.entry c).deleted = 0 → ¬Keeps b (s.file.entry c) →
      (s.file.entry c).next = s.file.nextOf c)
    (hreach : ∀ c ∈ l, s.reachable c = false) :
    ∃ s', bucketWalk true b fuel parent current s = some s' ∧
      Walked s.file s'.file (fun link => link = parent ∨ ∃ c ∈ l, link = .entry c) (· ∈ l) ∧
      s'.file.Links (parent.read s'.file) (l.filter fun c => Keeps b (s.file.entry c)) ∧
      ∀ c, s'.reachable c = (s.reachable c || decide (c ∈ l ∧ Keeps b (s.file.entry c))) := by
  obtain ⟨fuel, rfl⟩ : ∃ n, fuel = n + 1 := ⟨fuel - 1, by omega⟩
  induction l generalizing fuel parent current s with
  | nil =>
    obtain rfl : current = -1 := htrack
    refine ⟨s, if_pos (.inl (by decide)), ?_, hread, fun c => ?_⟩
    · exact (Walked.refl _).of_iff (fun _ h => h.elim) fun _ => by simp
    · simp
  | cons c l ih =>
    have hnodup := Chain.nodup locDistinct htrack
    obtain ⟨hc, hl⟩ := htrack
    change current = (c : ℤ) at hc
    subst hc
    obtain ⟨fuel, rfl⟩ : ∃ n, fuel = n + 1 := ⟨fuel - 1, by
      rw [List.length_cons] at hfuel
      omega⟩
    obtain ⟨hcl, hnodup⟩ := List.nodup_cons.mp hnodup
    have hmem : ∀ d ∈ l, d ∈ c :: l := fun d => List.mem_cons_of_mem c
    have hcmem : c ∈ c :: l := List.mem_cons_self
    have hneq : ∀ d ∈ l, d ≠ c := fun d hd heq => hcl (heq ▸ hd)
    have hclt := hlt c hcmem
    have hspec := bucketEntry_spec hclt hparent hread (hne c hcmem) (hmoved c hcmem)
      (hreach c hcmem)
    obtain ⟨r, hr⟩ : ∃ r, bucketEntry true b parent c s = r := ⟨_, rfl⟩
    rw [hr] at hspec
    obtain ⟨hwalked, hnext, hreach', hkeep, hdrop⟩ := hspec
    have hother : ∀ d ∈ l, ¬(Link.entry d = parent ∨ Link.entry d = .entry c) := by
      rintro d hd (h | h)
      · exact hne d (hmem d hd) h.symm
      · exact hneq d hd (Link.entry.inj h)
    have hkeeps : ∀ d ∈ l, (Keeps b (r.1.file.entry d) ↔ Keeps b (s.file.entry d)) := fun d hd =>
      keeps_congr hwalked (hneq d hd)
    have hdata : ∀ d ∈ l, (r.1.file.entry d).next = (s.file.entry d).next := fun d hd =>
      hwalked.read (.entry d) (hother d hd)
    have hfilter : (l.filter fun d => Keeps b (r.1.file.entry d)) =
        l.filter fun d => Keeps b (s.file.entry d) :=
      List.filter_congr fun d hd => decide_eq_decide.mpr (hkeeps d hd)
    obtain ⟨s', hwalk, hwalked', hlinks, hreached⟩ := @ih r.2 (s.file.nextOf c) r.1
      (track_congr hl hwalked hother) (fun d hd => hwalked.size.symm ▸ hlt d (hmem d hd)) (by
        rw [hwalked.in_iff]
        by_cases h : Keeps b (s.file.entry c)
        · rw [(hkeep h).1]
          exact hclt
        · rw [hdrop h]
          exact hparent) hnext (by
        intro d hd
        by_cases h : Keeps b (s.file.entry c)
        · rw [(hkeep h).1]
          exact fun heq => hneq d hd (Link.entry.inj heq).symm
        · rw [hdrop h]
          exact hne d (hmem d hd)) (by
        intro d hd hdeleted hdkeeps
        rw [hdata d hd, nextOf_congr hwalked.size (hdata d hd)]
        exact hmoved d (hmem d hd) ((hwalked.deleted d).symm.trans hdeleted)
          fun h => hdkeeps ((hkeeps d hd).mpr h)) (by
        intro d hd
        rw [hreach', update_of_ne (hneq d hd)]
        exact hreach d (hmem d hd)) fuel (Nat.lt_of_succ_lt_succ hfuel)
    refine ⟨s', ?_, ?_, ?_, ?_⟩
    · rw [bucketWalk, if_neg (by omega), Int.toNat_natCast, hr]
      dsimp only
      rw [hnext, if_neg (nextOf_ne _ _)]
      exact hwalk
    · refine (hwalked.trans hwalked').of_iff ?_ fun d => List.mem_cons.symm
      rintro link ((h | h) | (h | ⟨d, hd, h⟩))
      · exact .inl h
      · exact .inr ⟨c, hcmem, h⟩
      · by_cases hk : Keeps b (s.file.entry c)
        · exact .inr ⟨c, hcmem, h.trans (hkeep hk).1⟩
        · exact .inl (h.trans (hdrop hk))
      · exact .inr ⟨d, hmem d hd, h⟩
    · rw [List.filter_cons]
      rw [hfilter] at hlinks
      by_cases hk : Keeps b (s.file.entry c)
      · obtain ⟨hnext', hparent'⟩ := hkeep hk
        rw [hnext'] at hlinks
        rw [if_pos (decide_eq_true hk)]
        refine ⟨?_, hlinks⟩
        rw [hwalked'.read parent, hparent']
        rintro (h | ⟨d, hd, h⟩)
        · exact hne c hcmem (h.trans hnext')
        · exact hne d (hmem d hd) h
      · rw [hdrop hk] at hlinks
        rw [if_neg (by rw [decide_eq_true_iff]; exact hk)]
        exact hlinks
    · intro d
      rw [hreached, hreach']
      by_cases hdc : d = c
      · subst hdc
        have hout : ¬(d ∈ l ∧ Keeps b (r.1.file.entry d)) := fun h => hcl h.1
        rw [update_self, hreach d hcmem, decide_eq_false hout, Bool.or_false, Bool.false_or]
        exact decide_eq_decide.mpr (iff_and_self.mpr fun _ => hcmem)
      · rw [update_of_ne hdc]
        refine congrArg (s.reachable d || ·) (decide_eq_decide.mpr ?_)
        rw [List.mem_cons, or_iff_right hdc]
        exact and_congr_right fun hd => hkeeps d hd

/-! ## All buckets -/

/-- A group that exists. -/
def IsLive (e : GroupEntry) : Prop := e.hash ≠ HASH.clear ∧ e.deleted = 0

instance (e : GroupEntry) : Decidable (IsLive e) := inferInstanceAs (Decidable (_ ∧ _))

/-- No walk meets an entry twice or one of another walk, and no entry is where the walks go
wrong. -/
structure Repairable (file : IndexFile) (layout : Layout) : Prop where
  chain : ∀ b, file.Track (file.clean (file.header.hash b)) (layout.bucket b)
  free : file.Track (file.clean file.header.freelist) layout.free
  disjoint : ∀ b, ∀ c ∈ layout.bucket b, c ∉ layout.free
  apart : ∀ b b', ∀ c ∈ layout.bucket b, c ∈ layout.bucket b' → b = b'
  /-- The link of an entry that is moved to another bucket is one that needs no repair. -/
  moved : ∀ b, ∀ c ∈ layout.bucket b, (file.entry c).deleted = 0 →
    indexBucket (file.entry c).hash ≠ b → (file.entry c).next = file.nextOf c
  /-- An entry that never was in use is not on the chain of the bucket of an empty hash. -/
  empty : ∀ c ∈ layout.bucket (indexBucket HASH.clear), (file.entry c).deleted = 0 →
    (file.entry c).hash ≠ HASH.clear
  /-- Behind a group on the free list there is nothing. -/
  last : ∀ c ∈ layout.free, IsLive (file.entry c) → (file.entry c).next = -1

/-- The chains of some buckets were walked. -/
structure Swept (file : IndexFile) (layout : Layout) (done : List (Fin TDX_HASH_SIZE))
    (s : AuditState) : Prop where
  walked : Walked file s.file
    (fun link => ∃ b ∈ done, link = .bucket b ∨ ∃ c ∈ layout.bucket b, link = .entry c)
    fun c => ∃ b ∈ done, c ∈ layout.bucket b
  links : ∀ b ∈ done, s.file.Links (s.file.header.hash b)
    ((layout.bucket b).filter fun c => Keeps b (file.entry c))
  reachable : ∀ c, s.reachable c = true ↔
    ∃ b ∈ done, c ∈ layout.bucket b ∧ Keeps b (file.entry c)

section Sweep

variable {file : IndexFile} {layout : Layout} {fuel : ℕ}

theorem clean_congr {file' : IndexFile} (h : file'.size = file.size) (recno : ℤ) :
    file'.clean recno = file.clean recno := by
  rw [IndexFile.clean, IndexFile.clean, h]

/-- One more chain. -/
theorem auditBucket_spec (h : Repairable file layout) {done : List (Fin TDX_HASH_SIZE)}
    {s : AuditState} (hs : Swept file layout done s) {b : Fin TDX_HASH_SIZE} (hb : b ∉ done)
    (hfuel : (layout.bucket b).length < fuel) :
    ∃ s', auditBucket true fuel s b = some s' ∧ Swept file layout (done ++ [b]) s' := by
  have hother : ∀ c ∈ layout.bucket b, ¬∃ b' ∈ done, c ∈ layout.bucket b' := by
    rintro c hc ⟨b', hb', hc'⟩
    exact hb (h.apart b b' c hc hc' ▸ hb')
  have hhead : s.file.header.hash b = file.header.hash b := by
    refine hs.walked.read (.bucket b) ?_
    rintro ⟨b', hb', heq | ⟨c, -, heq⟩⟩
    · exact hb (Link.bucket.inj heq ▸ hb')
    · cases heq
  have hlinks : ∀ c ∈ layout.bucket b, ¬∃ b' ∈ done,
      Link.entry c = .bucket b' ∨ ∃ d ∈ layout.bucket b', Link.entry c = .entry d := by
    rintro c hc ⟨b', hb', heq | ⟨d, hd, heq⟩⟩
    · cases heq
    · exact hother c hc ⟨b', hb', Link.entry.inj heq ▸ hd⟩
  obtain ⟨hloc, hread⟩ := indexAuditLoc_spec s.file (.bucket b) trivial
  have haudited : audited s.file (.bucket b) = file.clean (file.header.hash b) := by
    rw [← hhead]
    exact clean_congr hs.walked.size _
  rw [haudited] at hread
  have hboth := hs.walked.trans hloc
  have htrack := track_congr (track_congr (h.chain b) hs.walked hlinks) hloc
    fun c _ => Link.noConfusion
  obtain ⟨file', hfile'⟩ : ∃ f, indexAuditLoc true s.file (.bucket b) = f := ⟨_, rfl⟩
  rw [hfile'] at hloc hread hboth htrack
  have hnext : ∀ c ∈ layout.bucket b, (file'.entry c).next = (file.entry c).next := fun c hc =>
    hboth.read (.entry c) fun hor => hor.elim (hlinks c hc) Link.noConfusion
  have hkeeps : ∀ c ∈ layout.bucket b, (Keeps b (file'.entry c) ↔ Keeps b (file.entry c)) :=
    fun c hc => keeps_congr hboth fun hor => hor.elim (hother c hc) id
  have hlt := track_lt (h.chain b) (clean_cases file _)
  obtain ⟨s', hwalk, hwalked, hchain, hreached⟩ :=
    @bucketWalk_spec b (layout.bucket b) fuel (.bucket b) _ ⟨file', s.reachable⟩ hfuel htrack
      (fun c hc => hboth.size.symm ▸ hlt c hc) trivial hread (fun c _ => Link.noConfusion)
      (fun c hc hdeleted hk => by
        change (file'.entry c).next = file'.nextOf c
        rw [hnext c hc, nextOf_congr hboth.size (hnext c hc)]
        refine h.moved b c hc ((hboth.deleted c).symm.trans hdeleted) fun heq => hk ?_
        exact (hkeeps c hc).mpr ⟨(hboth.deleted c).symm.trans hdeleted, heq.symm⟩)
      (fun c hc => by
        rw [Bool.eq_false_iff]
        intro hreach
        obtain ⟨b', hb', hc', -⟩ := (hs.reachable c).mp hreach
        exact hother c hc ⟨b', hb', hc'⟩)
  refine ⟨s', ?_, ?_, ?_, ?_⟩
  · rw [auditBucket, hfile']
    change bucketWalk true b fuel (.bucket b) (Link.read file' (.bucket b)) _ = _
    rw [hread]
    exact hwalk
  · refine (hboth.trans hwalked).of_iff ?_ ?_
    · rintro link ((⟨b', hb', hor⟩ | heq) | (heq | ⟨c, hc, heq⟩))
      · exact ⟨b', List.mem_append_left _ hb', hor⟩
      · exact ⟨b, List.mem_append_right _ (List.mem_singleton_self b), .inl heq⟩
      · exact ⟨b, List.mem_append_right _ (List.mem_singleton_self b), .inl heq⟩
      · exact ⟨b, List.mem_append_right _ (List.mem_singleton_self b), .inr ⟨c, hc, heq⟩⟩
    · intro c
      constructor
      · rintro ((⟨b', hb', hc⟩ | hfalse) | hc)
        · exact ⟨b', List.mem_append_left _ hb', hc⟩
        · exact hfalse.elim
        · exact ⟨b, List.mem_append_right _ (List.mem_singleton_self b), hc⟩
      · rintro ⟨b', hb', hc⟩
        rcases List.mem_append.mp hb' with hb' | hb'
        · exact .inl (.inl ⟨b', hb', hc⟩)
        · exact .inr (List.mem_singleton.mp hb' ▸ hc)
  · intro b' hb'
    rcases List.mem_append.mp hb' with hb' | hb'
    · -- the chains that were walked before are not written
      have hlate := hloc.trans hwalked
      have hne : b' ≠ b := fun heq => hb (heq ▸ hb')
      have hsame : s'.file.header.hash b' = s.file.header.hash b' := by
        refine hlate.read (.bucket b') ?_
        rintro (heq | heq | ⟨c, -, heq⟩)
        · exact hne (Link.bucket.inj heq)
        · exact hne (Link.bucket.inj heq)
        · cases heq
      rw [hsame]
      refine (hs.links b' hb').congr fun c hc => hlate.read (.entry c) ?_
      rintro (heq | heq | ⟨d, hd, heq⟩)
      · cases heq
      · cases heq
      · exact hne (h.apart b' b c (List.mem_of_mem_filter hc) (Link.entry.inj heq ▸ hd))
    · obtain rfl := List.mem_singleton.mp hb'
      have hfilter : ((layout.bucket b').filter fun c => Keeps b' (file'.entry c)) =
          (layout.bucket b').filter fun c => Keeps b' (file.entry c) :=
        List.filter_congr fun c hc => decide_eq_decide.mpr (hkeeps c hc)
      rw [← hfilter]
      exact hchain
  · intro c
    rw [hreached, Bool.or_eq_true, hs.reachable, decide_eq_true_iff]
    constructor
    · rintro (⟨b', hb', hc⟩ | ⟨hc, hk⟩)
      · exact ⟨b', List.mem_append_left _ hb', hc⟩
      · exact ⟨b, List.mem_append_right _ (List.mem_singleton_self b), hc, (hkeeps c hc).mp hk⟩
    · rintro ⟨b', hb', hc, hk⟩
      rcases List.mem_append.mp hb' with hb' | hb'
      · exact .inl ⟨b', hb', hc, hk⟩
      · obtain rfl := List.mem_singleton.mp hb'
        exact .inr ⟨hc, (hkeeps c hc).mpr hk⟩

/-- All chains. -/
theorem sweep_spec (h : Repairable file layout) (hfuel : ∀ b, (layout.bucket b).length < fuel)
    {done rest : List (Fin TDX_HASH_SIZE)} {s : AuditState} (hs : Swept file layout done s)
    (hnodup : (done ++ rest).Nodup) :
    ∃ s', rest.foldlM (auditBucket true fuel) s = some s' ∧
      Swept file layout (done ++ rest) s' := by
  induction rest generalizing done s with
  | nil =>
    rw [List.append_nil]
    exact ⟨s, rfl, hs⟩
  | cons b rest ih =>
    have hb : b ∉ done := fun hmem =>
      (List.nodup_append.mp hnodup).2.2 b hmem b List.mem_cons_self rfl
    obtain ⟨s', hstep, hs'⟩ := auditBucket_spec h hs hb (hfuel b)
    have happend : done ++ b :: rest = done ++ [b] ++ rest := by
      rw [List.append_assoc]
      rfl
    rw [happend] at hnodup ⊢
    obtain ⟨s'', hrest, hs''⟩ := ih hs' hnodup
    refine ⟨s'', ?_, hs''⟩
    rw [List.foldlM_cons, hstep]
    exact hrest

end Sweep

/-! ## The free list -/

section Free

variable {parent : Link} {c : ℕ} {s : AuditState}

theorem isLive_congr {file file' : IndexFile} {links : Link → Prop} {cells : ℕ → Prop}
    (h : Walked file file' links cells) (c : ℕ) :
    IsLive (file'.entry c) ↔ IsLive (file.entry c) := by
  rw [IsLive, IsLive, h.deleted]
  refine and_congr_left fun hdeleted => ?_
  rw [h.hash c (.inr hdeleted)]

theorem nextOf_of_end {file : IndexFile} (h : (file.entry c).next = -1) : file.nextOf c = -1 := by
  rw [IndexFile.nextOf, h, if_neg (by omega), IndexFile.clean, if_neg (by omega)]

/-- One round of the walk over the free list. -/
theorem freeEntry_spec (hc : c < s.file.size) (hparent : parent.In s.file)
    (hne : parent ≠ .entry c) (hlast : IsLive (s.file.entry c) → (s.file.entry c).next = -1) :
    Walked s.file (freeEntry true parent c s).file (fun l => l = parent ∨ l = .entry c) (· = c) ∧
      ((freeEntry true parent c s).file.entry c).next = s.file.nextOf c ∧
      (freeEntry true parent c s).reachable =
        update s.reachable c (!decide (IsLive (s.file.entry c))) ∧
      (IsLive (s.file.entry c) → parent.read (freeEntry true parent c s).file = -1) ∧
      (¬IsLive (s.file.entry c) →
        parent.read (freeEntry true parent c s).file = parent.read s.file) := by
  have hdeleted := indexAuditDeleted_spec hc
  have hlive := isLive_congr hdeleted c
  rw [freeEntry]
  by_cases h : IsLive (s.file.entry c)
  · have hend := hlast h
    obtain ⟨hsplice, hread, hcut⟩ := spliceAt_spec (hdeleted.size.symm ▸ hc)
      ((hdeleted.in_iff parent).mpr hparent) hne
    obtain ⟨hloc, hnext⟩ := indexAuditLoc_spec (spliceAt (indexAuditDeleted true s.file c) c parent)
      (.entry c) ((hsplice.in_iff (.entry c)).mpr ((hdeleted.in_iff (.entry c)).mpr hc))
    rw [if_pos ⟨hlive.mpr h, rfl⟩, decide_eq_true h, nextOf_of_end hend]
    refine ⟨((hdeleted.trans hsplice).trans hloc).of_iff ?_ ?_, ?_, rfl, fun _ => ?_,
      fun hnot => absurd h hnot⟩
    · rintro l ((hl | hl) | hl)
      · exact hl.elim
      · exact hl
      · exact .inr hl
    · intro d
      rw [or_false, or_false]
    · refine hnext.trans ?_
      rw [audited_entry]
      exact nextOf_of_end hcut
    · dsimp only
      rw [hloc.read parent hne, hread]
      exact (hdeleted.read (.entry c) id).trans hend
  · obtain ⟨haudit, hnext⟩ := auditEntry_spec hc
    rw [if_neg fun hor => h (hlive.mp hor.1), decide_eq_false h]
    exact ⟨haudit.of_iff (fun _ => .inr) fun _ => Iff.rfl, hnext, rfl, fun h' => absurd h' h,
      fun _ => haudit.read parent hne⟩

theorem freeWalk_spec {l : List ℕ} {fuel : ℕ} {current : ℤ} (hfuel : l.length < fuel)
    (htrack : s.file.Track current l) (hlt : ∀ c ∈ l, c < s.file.size) (hparent : parent.In s.file)
    (hread : parent.read s.file = current) (hne : ∀ c ∈ l, parent ≠ .entry c)
    (hlast : ∀ c ∈ l, IsLive (s.file.entry c) → (s.file.entry c).next = -1) :
    ∃ s', freeWalk true fuel parent current s = some s' ∧
      Walked s.file s'.file (fun link => link = parent ∨ ∃ c ∈ l, link = .entry c) (· ∈ l) ∧
      s'.file.Links (parent.read s'.file) (l.filter fun c => !decide (IsLive (s.file.entry c))) ∧
      ∀ c, s'.reachable c = if c ∈ l then !decide (IsLive (s.file.entry c)) else s.reachable c := by
  induction l generalizing fuel parent current s with
  | nil =>
    obtain ⟨fuel, rfl⟩ : ∃ n, fuel = n + 1 := ⟨fuel - 1, by omega⟩
    obtain rfl : current = -1 := htrack
    refine ⟨s, if_pos (.inl (by decide)), ?_, hread, fun c => ?_⟩
    · exact (Walked.refl _).of_iff (fun _ h => h.elim) fun _ => by simp
    · rw [if_neg List.not_mem_nil]
  | cons c l ih =>
    have hnodup := Chain.nodup locDistinct htrack
    obtain ⟨hc, hl⟩ := htrack
    change current = (c : ℤ) at hc
    subst hc
    obtain ⟨fuel, rfl⟩ : ∃ n, fuel = n + 1 := ⟨fuel - 1, by
      rw [List.length_cons] at hfuel
      omega⟩
    obtain ⟨hcl, hnodup⟩ := List.nodup_cons.mp hnodup
    have hmem : ∀ d ∈ l, d ∈ c :: l := fun d => List.mem_cons_of_mem c
    have hcmem : c ∈ c :: l := List.mem_cons_self
    have hneq : ∀ d ∈ l, d ≠ c := fun d hd heq => hcl (heq ▸ hd)
    have hclt := hlt c hcmem
    obtain ⟨hwalked, hnext, hreach, hcut, hstay⟩ :=
      freeEntry_spec hclt hparent (hne c hcmem) (hlast c hcmem)
    obtain ⟨r, hr⟩ : ∃ r, freeEntry true parent c s = r := ⟨_, rfl⟩
    rw [hr] at hwalked hnext hreach hcut hstay
    have hother : ∀ d ∈ l, ¬(Link.entry d = parent ∨ Link.entry d = .entry c) := by
      rintro d hd (h | h)
      · exact hne d (hmem d hd) h.symm
      · exact hneq d hd (Link.entry.inj h)
    obtain ⟨s', hwalk, hwalked', hlinks, hreached⟩ := @ih (.entry c) r fuel (s.file.nextOf c)
      (Nat.lt_of_succ_lt_succ hfuel) (track_congr hl hwalked hother)
      (fun d hd => hwalked.size.symm ▸ hlt d (hmem d hd))
      ((hwalked.in_iff (.entry c)).mpr hclt) hnext
      (fun d hd heq => hneq d hd (Link.entry.inj heq).symm) (fun d hd hlive =>
        (hwalked.read (.entry d) (hother d hd)).trans
          (hlast d (hmem d hd) ((isLive_congr hwalked d).mp hlive)))
    refine ⟨s', ?_, ?_, ?_, ?_⟩
    · rw [freeWalk, if_neg (by omega), Int.toNat_natCast, hr]
      dsimp only
      rw [hnext, if_neg (nextOf_ne _ _)]
      exact hwalk
    · refine (hwalked.trans hwalked').of_iff ?_ fun d => List.mem_cons.symm
      rintro link ((h | h) | (h | ⟨d, hd, h⟩))
      · exact .inl h
      · exact .inr ⟨c, hcmem, h⟩
      · exact .inr ⟨c, hcmem, h⟩
      · exact .inr ⟨d, hmem d hd, h⟩
    · have hfilter : (l.filter fun d => !decide (IsLive (r.file.entry d))) =
          l.filter fun d => !decide (IsLive (s.file.entry d)) :=
        List.filter_congr fun d _ => congrArg (!·) (decide_eq_decide.mpr (isLive_congr hwalked d))
      have hparent' : parent.read s'.file = parent.read r.file := by
        refine hwalked'.read parent ?_
        rintro (h | ⟨d, hd, h⟩)
        · exact hne c hcmem h
        · exact hne d (hmem d hd) h
      rw [hfilter] at hlinks
      rw [List.filter_cons, hparent']
      by_cases hlive : IsLive (s.file.entry c)
      · -- nothing is behind a group
        have hend := nextOf_of_end (hlast c hcmem hlive)
        rw [hend] at hl
        rw [hcut hlive, Chain.unique locDistinct hl (Chain.nil_iff.mpr rfl), decide_eq_true hlive]
        rfl
      · rw [hstay hlive, hread, decide_eq_false hlive]
        exact ⟨rfl, hlinks⟩
    · intro d
      rw [hreached, hreach]
      by_cases hdl : d ∈ l
      · rw [if_pos hdl, if_pos (hmem d hdl)]
        exact congrArg (!·) (decide_eq_decide.mpr (isLive_congr hwalked d))
      · rw [if_neg hdl]
        by_cases hdc : d = c
        · rw [hdc, update_self, if_pos hcmem]
        · rw [update_of_ne hdc, if_neg fun h => (List.mem_cons.mp h).elim hdc hdl]

end Free

/-! ## The entries that were not reached -/

/-- The entry is on the free list or on the chain of a bucket. -/
def Layout.Lists (layout : Layout) (c : ℕ) : Prop := c ∈ layout.free ∨ ∃ b, c ∈ layout.bucket b

/-- The chains end, and what is on them belongs there. -/
structure Linked (file : IndexFile) (layout : Layout) : Prop where
  free : file.Links file.header.freelist layout.free
  chain : ∀ b, file.Links (file.header.hash b) (layout.bucket b)
  lt : ∀ c, layout.Lists c → c < file.size
  group : ∀ b, ∀ c ∈ layout.bucket b,
    IsLive (file.entry c) ∧ indexBucket (file.entry c).hash = b
  other : ∀ c ∈ layout.free, ¬IsLive (file.entry c)
  cleared : ∀ c, layout.Lists c → (file.entry c).deleted ≠ 0 → (file.entry c).hash = HASH.clear

section Attach

variable {file file' : IndexFile} {layout : Layout} {n : ℕ} {l : List ℕ}

/-- An entry is put in front of a chain. -/
theorem links_push (link : Link) (h : file.Links (link.read file) l) (hn : n ∉ l)
    (hhead : link.read file' = n) (hnext : (file'.entry n).next = link.read file)
    (hother : ∀ d, d ≠ n → (file'.entry d).next = (file.entry d).next) :
    file'.Links (link.read file') (n :: l) := by
  refine ⟨hhead, ?_⟩
  dsimp only
  rw [hnext]
  exact h.congr fun d hd => hother d fun heq => hn (heq ▸ hd)

theorem indexAdd_spec (h : Linked file layout) (hn : n < file.size) (hnot : ¬layout.Lists n)
    (hlive : IsLive (file.entry n)) :
    ∃ layout', Linked (indexAdd file n) layout' ∧ (indexAdd file n).size = file.size ∧
      ∀ c, layout'.Lists c ↔ layout.Lists c ∨ c = n := by
  obtain ⟨b, hb⟩ : ∃ b, indexBucket (file.entry n).hash = b := ⟨_, rfl⟩
  have hhead : ¬file.header.hash b = n := by
    intro heq
    rcases (h.chain b).head_cases with ⟨hnil, -⟩ | ⟨rest, -, hcons, -⟩
    · omega
    · refine hnot (.inr ⟨b, ?_⟩)
      rw [hcons, heq]
      exact List.mem_cons_self
  have hadd : indexAdd file n = Link.write (Link.write file (file.header.hash b) (.entry n)) n
      (.bucket b) := by
    rw [indexAdd, hb, if_neg hhead]
    rfl
  obtain ⟨file', hfile'⟩ : ∃ f, indexAdd file n = f := ⟨_, rfl⟩
  rw [hfile'] at hadd ⊢
  have hwalked := (Walked.write file (.entry n) (file.header.hash b)).trans
    (Walked.write (Link.write file (file.header.hash b) (.entry n)) (.bucket b) n)
  rw [← hadd] at hwalked
  have hdata : ∀ c, (file'.entry c).hash = (file.entry c).hash := fun c =>
    hwalked.hash c (.inl fun hor => hor.elim id id)
  have hnext : ∀ c, c ≠ n → (file'.entry c).next = (file.entry c).next := fun c hc =>
    hwalked.read (.entry c) fun hor => hor.elim (fun heq => hc (Link.entry.inj heq))
      Link.noConfusion
  have hnew : (file'.entry n).next = file.header.hash b := by
    rw [hadd]
    change Link.read _ (.entry n) = _
    rw [Link.read_write_of_ne Link.noConfusion,
      Link.read_write_self (show Link.In file (.entry n) from hn)]
  have hput : Link.read file' (.bucket b) = n := by
    rw [hadd]
    exact Link.read_write_self trivial
  have hlists : ∀ c, (layout.put layout.free b (n :: layout.bucket b)).Lists c ↔
      layout.Lists c ∨ c = n := by
    intro c
    constructor
    · rintro (hc | ⟨b', hc⟩)
      · exact .inl (.inl hc)
      · by_cases hb' : b' = b
        · subst hb'
          rw [Layout.bucket_put_self] at hc
          exact (List.mem_cons.mp hc).elim .inr fun hc => .inl (.inr ⟨b', hc⟩)
        · rw [Layout.bucket_put_of_ne _ _ _ hb'] at hc
          exact .inl (.inr ⟨b', hc⟩)
    · rintro ((hc | ⟨b', hc⟩) | rfl)
      · exact .inl hc
      · refine .inr ⟨b', ?_⟩
        by_cases hb' : b' = b
        · subst hb'
          rw [Layout.bucket_put_self]
          exact List.mem_cons_of_mem _ hc
        · rwa [Layout.bucket_put_of_ne _ _ _ hb']
      · refine .inr ⟨b, ?_⟩
        rw [Layout.bucket_put_self]
        exact List.mem_cons_self
  refine ⟨layout.put layout.free b (n :: layout.bucket b), ⟨?_, ?_, ?_, ?_, ?_, ?_⟩, hwalked.size,
    hlists⟩
  · change file'.Links (Link.read file' .freelist) layout.free
    rw [hwalked.read .freelist fun hor => hor.elim Link.noConfusion Link.noConfusion]
    exact h.free.congr fun c hc => hnext c fun heq => hnot (.inl (heq ▸ hc))
  · intro b'
    by_cases hb' : b' = b
    · subst hb'
      rw [Layout.bucket_put_self]
      exact links_push (.bucket b') (h.chain b') (fun hmem => hnot (.inr ⟨b', hmem⟩)) hput
        hnew hnext
    · rw [Layout.bucket_put_of_ne _ _ _ hb']
      change file'.Links (Link.read file' (.bucket b')) _
      rw [hwalked.read (.bucket b') fun hor => hor.elim Link.noConfusion fun heq =>
        hb' (Link.bucket.inj heq)]
      exact (h.chain b').congr fun c hc => hnext c fun heq => hnot (.inr ⟨b', heq ▸ hc⟩)
  · intro c hc
    rw [hwalked.size]
    exact ((hlists c).mp hc).elim (h.lt c) fun heq => heq ▸ hn
  · intro b' c hc
    rw [isLive_congr hwalked, hdata]
    by_cases hb' : b' = b
    · subst hb'
      rw [Layout.bucket_put_self] at hc
      rcases List.mem_cons.mp hc with rfl | hc
      · exact ⟨hlive, hb⟩
      · exact h.group b' c hc
    · rw [Layout.bucket_put_of_ne _ _ _ hb'] at hc
      exact h.group b' c hc
  · intro c hc
    rw [isLive_congr hwalked]
    exact h.other c hc
  · intro c hc hdeleted
    rw [hwalked.deleted] at hdeleted
    rw [hdata]
    rcases (hlists c).mp hc with hc | rfl
    · exact h.cleared c hc hdeleted
    · exact absurd hlive.2 hdeleted

theorem freelistAdd_spec (h : Linked file layout) (hn : n < file.size) (hnot : ¬layout.Lists n)
    (hfile : freelistAdd (file.modify n fun entry =>
      { entry with hash := HASH.clear, deleted := 0 }) n = file') :
    ∃ layout', Linked file' layout' ∧ file'.size = file.size ∧
      ∀ c, layout'.Lists c ↔ layout.Lists c ∨ c = n := by
  obtain ⟨file₁, hfile₁⟩ : ∃ f, (file.modify n fun entry =>
    { entry with hash := HASH.clear, deleted := 0 }) = f := ⟨_, rfl⟩
  have hread : ∀ link, Link.read file₁ link = Link.read file link := by
    rw [← hfile₁]
    exact fun link => Link.read_modify fun _ => rfl
  have hsize : file₁.size = file.size := by
    rw [← hfile₁]
    exact file.size_modify n _
  have hentry : ∀ c, c ≠ n → file₁.entry c = file.entry c := by
    rw [← hfile₁]
    exact fun c hc => file.entry_modify_of_ne _ hc
  have hclear : (file₁.entry n).hash = HASH.clear ∧ (file₁.entry n).deleted = 0 := by
    rw [← hfile₁, file.entry_modify_self _ hn]
    exact ⟨rfl, rfl⟩
  have hadd : Link.write (Link.write file₁ file₁.header.freelist (.entry n)) n .freelist =
      file' := by
    rw [← hfile, hfile₁]
    rfl
  have hwalked := (Walked.write file₁ (.entry n) file₁.header.freelist).trans
    (Walked.write (Link.write file₁ file₁.header.freelist (.entry n)) .freelist n)
  rw [hadd] at hwalked
  have hdata : ∀ c, (file'.entry c).hash = (file₁.entry c).hash := fun c =>
    hwalked.hash c (.inl fun hor => hor.elim id id)
  have hnext : ∀ c, c ≠ n → (file'.entry c).next = (file.entry c).next := fun c hc =>
    (hwalked.read (.entry c) fun hor => hor.elim (fun heq => hc (Link.entry.inj heq))
      Link.noConfusion).trans (hread (.entry c))
  have hnew : (file'.entry n).next = file.header.freelist := by
    rw [← hadd]
    change Link.read _ (.entry n) = _
    have hin : n < file₁.size := hsize.symm ▸ hn
    rw [Link.read_write_of_ne Link.noConfusion,
      Link.read_write_self (show Link.In file₁ (.entry n) from hin)]
    exact hread .freelist
  have hput : Link.read file' .freelist = n := by
    rw [← hadd]
    exact Link.read_write_self trivial
  have hlive : ∀ c, IsLive (file'.entry c) ↔ IsLive (file.entry c) ∧ c ≠ n := by
    intro c
    rw [isLive_congr hwalked]
    by_cases hc : c = n
    · subst hc
      exact iff_of_false (fun h => h.1 hclear.1) fun h => h.2 rfl
    · rw [hentry c hc]
      exact (and_iff_left hc).symm
  have hlists : ∀ c, ({ layout with free := n :: layout.free } : Layout).Lists c ↔
      layout.Lists c ∨ c = n := by
    intro c
    change c ∈ n :: layout.free ∨ _ ↔ (c ∈ layout.free ∨ _) ∨ c = n
    rw [List.mem_cons, or_assoc, or_comm]
  refine ⟨{ layout with free := n :: layout.free }, ⟨?_, ?_, ?_, ?_, ?_, ?_⟩,
    hwalked.size.trans hsize, hlists⟩
  · exact links_push .freelist h.free (fun hmem => hnot (.inl hmem)) hput hnew hnext
  · intro b
    change file'.Links (Link.read file' (.bucket b)) _
    rw [hwalked.read (.bucket b) fun hor => hor.elim Link.noConfusion Link.noConfusion, hread]
    exact (h.chain b).congr fun c hc => hnext c fun heq => hnot (.inr ⟨b, heq ▸ hc⟩)
  · intro c hc
    rw [hwalked.size, hsize]
    exact ((hlists c).mp hc).elim (h.lt c) fun heq => heq ▸ hn
  · intro b c hc
    have hne : c ≠ n := fun heq => hnot (.inr ⟨b, heq ▸ hc⟩)
    rw [hlive, hdata, hentry c hne]
    exact ⟨⟨(h.group b c hc).1, hne⟩, (h.group b c hc).2⟩
  · intro c hc hlive'
    obtain ⟨hlive', hne⟩ := (hlive c).mp hlive'
    exact h.other c ((List.mem_cons.mp hc).resolve_left hne) hlive'
  · intro c hc hdeleted
    rw [hwalked.deleted] at hdeleted
    rw [hdata]
    rcases (hlists c).mp hc with hc | rfl
    · have hne : c ≠ n := fun heq => hnot (heq ▸ hc)
      rw [hentry c hne] at hdeleted ⊢
      exact h.cleared c hc hdeleted
    · exact hclear.1

/-- One entry that was not reached. -/
theorem attachEntry_spec {reachable : ℕ → Bool} (h : Linked file layout) (hn : n < file.size)
    (hnot : reachable n = false → ¬layout.Lists n) :
    ∃ layout', Linked (attachEntry true reachable file n) layout' ∧
      (attachEntry true reachable file n).size = file.size ∧
      ∀ c, layout'.Lists c ↔ layout.Lists c ∨ reachable n = false ∧ c = n := by
  rw [attachEntry]
  cases hreach : reachable n
  · rw [if_neg (by decide)]
    by_cases hlive : (file.entry n).hash ≠ HASH.clear ∧ (file.entry n).deleted = 0
    · rw [if_pos hlive]
      obtain ⟨layout', hlinked, hsize, hlists⟩ := indexAdd_spec h hn (hnot hreach) hlive
      exact ⟨layout', hlinked, hsize, fun c => (hlists c).trans (or_congr_right (by simp))⟩
    · rw [if_neg hlive]
      obtain ⟨layout', hlinked, hsize, hlists⟩ := freelistAdd_spec h hn (hnot hreach) rfl
      exact ⟨layout', hlinked, hsize, fun c => (hlists c).trans (or_congr_right (by simp))⟩
  · rw [if_pos (.inl rfl)]
    exact ⟨layout, h, rfl, fun c => by simp⟩

/-- All entries. -/
theorem attach_spec {reachable : ℕ → Bool} (h : Linked file layout)
    (hreach : ∀ c, reachable c = true ↔ layout.Lists c) (hn : n ≤ file.size) :
    ∃ layout', Linked ((List.range n).foldl (attachEntry true reachable) file) layout' ∧
      ((List.range n).foldl (attachEntry true reachable) file).size = file.size ∧
      ∀ c, layout'.Lists c ↔ layout.Lists c ∨ c < n := by
  induction n with
  | zero => exact ⟨layout, h, rfl, fun c => by simp⟩
  | succ n ih =>
    obtain ⟨layout', hlinked, hsize, hlists⟩ := ih (Nat.le_of_succ_le hn)
    obtain ⟨layout'', hlinked', hsize', hlists'⟩ := @attachEntry_spec _ layout' n reachable hlinked
      (hsize.symm ▸ hn) fun hnot hmem => by
        rcases (hlists n).mp hmem with hmem | hlt
        · rw [(hreach n).mpr hmem] at hnot
          cases hnot
        · exact Nat.lt_irrefl n hlt
    rw [List.range_succ, List.foldl_append]
    refine ⟨layout'', hlinked', hsize'.trans hsize, fun c => ?_⟩
    rw [hlists', hlists, Nat.lt_succ_iff_lt_or_eq, or_assoc]
    constructor
    · rintro (hc | hc | ⟨-, rfl⟩)
      · exact .inl hc
      · exact .inr (.inl hc)
      · exact .inr (.inr rfl)
    · rintro (hc | hc | rfl)
      · exact .inl hc
      · exact .inr (.inl hc)
      · cases hreach' : reachable c
        · exact .inr (.inr ⟨rfl, rfl⟩)
        · exact .inl ((hreach c).mp hreach')

end Attach

end Inn.Tradindexed
