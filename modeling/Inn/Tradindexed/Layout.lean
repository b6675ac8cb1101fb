import Mathlib.Tactic.Linarith
import Inn.Chain
import Inn.Tradindexed.GroupIndex

/-!
# Inn.Tradindexed.Layout — well-formed group index files

`Layout` names the cells of the free list and of every bucket chain, and
`Wf file layout` says that the file is laid out so: the chains end, they are
disjoint, and a bucket chain holds live entries of its own bucket, at most one
for each hash.

* `Wf.has_iff`, `Wf.has_unique` — a group has at most one entry, and it is on the
  chain of its bucket;
* `Wf.congr`, `Wf.modify`, `Wf.rebucket` — the ways an update keeps a layout.
-/

namespace Inn.Tradindexed

open Function (update update_self update_of_ne)

/-! ## Reading a file after an update -/

namespace IndexFile

variable (file : IndexFile) (loc c : ℕ) (g : GroupEntry → GroupEntry)

theorem entry_modify :
    (file.modify loc g).entry c =
      if c = loc ∧ loc < file.size then g (file.entry c) else file.entry c := by
  simp only [entry, modify, recordAt, pread, size, List.getElem?_modify]
  by_cases hc : c = loc
  · subst hc
    by_cases hlt : c < file.entries.length
    · simp [hlt]
    · simp [hlt]
  · simp [hc, Ne.symm hc]

theorem entry_modify_of_ne {loc c : ℕ} (h : c ≠ loc) :
    (file.modify loc g).entry c = file.entry c := by
  rw [entry_modify, if_neg (fun hc => h hc.1)]

theorem entry_modify_self {loc : ℕ} (h : loc < file.size) :
    (file.modify loc g).entry loc = g (file.entry loc) := by
  rw [entry_modify, if_pos ⟨rfl, h⟩]

@[simp] theorem size_modify : (file.modify loc g).size = file.size := by
  simp [size, modify]

@[simp] theorem size_setNext (recno : ℤ) : (file.setNext loc recno).size = file.size :=
  file.size_modify loc _

@[simp] theorem entry_setHash (b : Fin TDX_HASH_SIZE) (recno : ℤ) :
    (file.setHash b recno).entry c = file.entry c := rfl

@[simp] theorem size_setHash (b : Fin TDX_HASH_SIZE) (recno : ℤ) :
    (file.setHash b recno).size = file.size := rfl

@[simp] theorem entry_setFreelist (recno : ℤ) :
    (file.setFreelist recno).entry c = file.entry c := rfl

@[simp] theorem size_setFreelist (recno : ℤ) : (file.setFreelist recno).size = file.size := rfl

end IndexFile

/-! ## Chains of locations -/

/-- `-1` is no location, and locations are distinct. -/
theorem locDistinct : Chain.Distinct (-1) (fun c : ℕ => (c : ℤ)) where
  inj := fun a b h => Int.ofNat.inj h
  ne_nil := by
    intro c h
    omega

/-- Following `next` from `recno` visits `l` and ends. -/
def IndexFile.Links (file : IndexFile) (recno : ℤ) (l : List ℕ) : Prop :=
  Chain (-1) (fun c : ℕ => (c : ℤ)) (fun c => (file.entry c).next) recno l

/-- Following `next` from `recno` meets `c`. -/
def IndexFile.Reaches (file : IndexFile) (recno : ℤ) (c : ℕ) : Prop :=
  Chain.Reaches (fun c : ℕ => (c : ℤ)) (fun c => (file.entry c).next) recno c

namespace IndexFile

variable {file file' : IndexFile} {recno : ℤ} {l : List ℕ} {c : ℕ}

theorem Links.congr (h : file.Links recno l)
    (heq : ∀ c ∈ l, (file'.entry c).next = (file.entry c).next) : file'.Links recno l :=
  Chain.congr h heq

theorem Links.nodup (h : file.Links recno l) : l.Nodup := Chain.nodup locDistinct h

theorem Links.reaches_iff (h : file.Links recno l) : file.Reaches recno c ↔ c ∈ l :=
  Chain.reaches_iff locDistinct h

theorem Links.eq_cons {p : ℤ} (h : file.Links p l) (hp : 0 ≤ p) :
    ∃ rest, l = p.toNat :: rest ∧ file.Links (file.entry p.toNat).next rest := by
  cases l with
  | nil =>
    have hnil : p = -1 := h
    omega
  | cons c rest =>
    have hc : p = (c : ℤ) := h.1
    have htn : p.toNat = c := by rw [hc]; rfl
    rw [htn]
    exact ⟨rest, rfl, h.2⟩

/-- A chain pointer is `-1` or a cell of the chain. -/
theorem Links.head_cases (h : file.Links recno l) :
    (recno = -1 ∧ l = []) ∨ ∃ rest, recno = (recno.toNat : ℤ) ∧ l = recno.toNat :: rest ∧
      file.Links (file.entry recno.toNat).next rest := by
  cases l with
  | nil => exact .inl ⟨h, rfl⟩
  | cons c rest =>
    have hc : recno = (c : ℤ) := h.1
    have htn : recno.toNat = c := by rw [hc]; rfl
    refine .inr ⟨rest, by rw [htn]; exact hc, by rw [htn], ?_⟩
    rw [htn]
    exact h.2

end IndexFile

/-! ## Layouts -/

/-- The cells of the free list and of every bucket chain. -/
structure Layout where
  free : List ℕ
  bucket : Fin TDX_HASH_SIZE → List ℕ

/-- The layout with another free list and another chain in one bucket. -/
def Layout.put (layout : Layout) (free : List ℕ) (b : Fin TDX_HASH_SIZE) (l : List ℕ) : Layout :=
  ⟨free, update layout.bucket b l⟩

@[simp] theorem Layout.bucket_put_self (layout : Layout) (free : List ℕ)
    (b : Fin TDX_HASH_SIZE) (l : List ℕ) : (layout.put free b l).bucket b = l :=
  update_self _ _ _

theorem Layout.bucket_put_of_ne (layout : Layout) (free : List ℕ) {b b' : Fin TDX_HASH_SIZE}
    (l : List ℕ) (h : b' ≠ b) : (layout.put free b l).bucket b' = layout.bucket b' :=
  update_of_ne h _ _

/-- The file is laid out as `layout` says. -/
structure Wf (file : IndexFile) (layout : Layout) : Prop where
  magic : file.header.magic = TDX_MAGIC
  size_le : file.size ≤ INT_MAX
  free : file.Links file.header.freelist layout.free
  chain : ∀ b, file.Links (file.header.hash b) (layout.bucket b)
  free_lt : ∀ c ∈ layout.free, c < file.size
  chain_lt : ∀ b, ∀ c ∈ layout.bucket b, c < file.size
  live : ∀ b, ∀ c ∈ layout.bucket b,
    (file.entry c).deleted = 0 ∧ indexBucket (file.entry c).hash = b
  inj : ∀ b, ∀ c ∈ layout.bucket b, ∀ c' ∈ layout.bucket b,
    (file.entry c).hash = (file.entry c').hash → c = c'
  disjoint : ∀ b, ∀ c ∈ layout.free, c ∉ layout.bucket b

/-- `c` is the entry of the group: live, and on the chain of the group's bucket. -/
def IndexFile.Has (file : IndexFile) (hash : HASH) (c : ℕ) : Prop :=
  file.Reaches (file.header.hash (indexBucket hash)) c ∧
    (file.entry c).deleted = 0 ∧ (file.entry c).hash = hash

namespace Wf

variable {file file' : IndexFile} {layout : Layout} {hash : HASH} {c : ℕ}

theorem has_iff (h : Wf file layout) :
    file.Has hash c ↔ c ∈ layout.bucket (indexBucket hash) ∧ (file.entry c).hash = hash := by
  rw [IndexFile.Has, (h.chain _).reaches_iff]
  constructor
  · intro ⟨hmem, _, hhash⟩
    exact ⟨hmem, hhash⟩
  · intro ⟨hmem, hhash⟩
    exact ⟨hmem, (h.live _ c hmem).1, hhash⟩

theorem has_unique (h : Wf file layout) {c' : ℕ} (hc : file.Has hash c)
    (hc' : file.Has hash c') : c = c' := by
  rw [h.has_iff] at hc hc'
  exact h.inj _ c hc.1 c' hc'.1 (hc.2.trans hc'.2.symm)

theorem has_lt (h : Wf file layout) (hc : file.Has hash c) : c < file.size :=
  h.chain_lt _ c (h.has_iff.mp hc).1

/-- Distinct buckets have disjoint chains. -/
theorem bucket_disjoint (h : Wf file layout) {b b' : Fin TDX_HASH_SIZE}
    (hmem : c ∈ layout.bucket b) (hmem' : c ∈ layout.bucket b') : b = b' :=
  (h.live b c hmem).2.symm.trans (h.live b' c hmem').2

/-- An update that keeps the heads and what the chains need of their entries
keeps the buckets; the free list may become another one. -/
theorem congr (h : Wf file layout) {free : List ℕ}
    (hmagic : file'.header.magic = file.header.magic) (hsize : file.size ≤ file'.size)
    (hmax : file'.size ≤ INT_MAX) (hhash : file'.header.hash = file.header.hash)
    (hkeep : ∀ b, ∀ c ∈ layout.bucket b, (file'.entry c).next = (file.entry c).next ∧
      (file'.entry c).deleted = (file.entry c).deleted ∧
      (file'.entry c).hash = (file.entry c).hash)
    (hfree : file'.Links file'.header.freelist free)
    (hlt : ∀ c ∈ free, c < file'.size)
    (hdisj : ∀ b, ∀ c ∈ free, c ∉ layout.bucket b) :
    Wf file' { layout with free := free } where
  magic := hmagic.trans h.magic
  size_le := hmax
  free := hfree
  chain := by
    intro b
    rw [hhash]
    exact (h.chain b).congr (fun c hc => (hkeep b c hc).1)
  free_lt := hlt
  chain_lt := fun b c hc => lt_of_lt_of_le (h.chain_lt b c hc) hsize
  live := by
    intro b c hc
    rw [(hkeep b c hc).2.1, (hkeep b c hc).2.2]
    exact h.live b c hc
  inj := by
    intro b c hc c' hc' heq
    rw [(hkeep b c hc).2.2, (hkeep b c' hc').2.2] at heq
    exact h.inj b c hc c' hc' heq
  disjoint := hdisj

/-- Updating fields other than the link, the hash and the deletion time. -/
theorem modify (h : Wf file layout) (loc : ℕ) (g : GroupEntry → GroupEntry)
    (hg : (g (file.entry loc)).next = (file.entry loc).next ∧
      (g (file.entry loc)).deleted = (file.entry loc).deleted ∧
      (g (file.entry loc)).hash = (file.entry loc).hash) :
    Wf (file.modify loc g) layout := by
  have hkeep : ∀ c, ((file.modify loc g).entry c).next = (file.entry c).next ∧
      ((file.modify loc g).entry c).deleted = (file.entry c).deleted ∧
      ((file.modify loc g).entry c).hash = (file.entry c).hash := by
    intro c
    rw [file.entry_modify]
    split
    · rename_i hc
      rw [hc.1]
      exact hg
    · exact ⟨rfl, rfl, rfl⟩
  refine h.congr rfl (by simp) (by simpa using h.size_le) rfl (fun _ c _ => hkeep c) ?_ ?_
    h.disjoint
  · exact h.free.congr (fun c _ => (hkeep c).1)
  · simpa using h.free_lt

/-- An update of one bucket chain and the free list. -/
theorem rebucket {file' : IndexFile} (h : Wf file layout) (b : Fin TDX_HASH_SIZE) {l free : List ℕ}
    (hmagic : file'.header.magic = file.header.magic) (hsize : file'.size = file.size)
    (hhash : ∀ b', b' ≠ b → file'.header.hash b' = file.header.hash b')
    (hkeep : ∀ b', b' ≠ b → ∀ c ∈ layout.bucket b', file'.entry c = file.entry c)
    (hfree : file'.Links file'.header.freelist free)
    (hfree_lt : ∀ c ∈ free, c < file.size)
    (hl : file'.Links (file'.header.hash b) l)
    (hl_lt : ∀ c ∈ l, c < file.size)
    (hlive : ∀ c ∈ l, (file'.entry c).deleted = 0 ∧ indexBucket (file'.entry c).hash = b)
    (hinj : ∀ c ∈ l, ∀ c' ∈ l, (file'.entry c).hash = (file'.entry c').hash → c = c')
    (hdisj : ∀ c ∈ free, c ∉ l ∧ ∀ b', b' ≠ b → c ∉ layout.bucket b') :
    Wf file' (layout.put free b l) where
  magic := hmagic.trans h.magic
  size_le := hsize ▸ h.size_le
  free := hfree
  chain := by
    intro b'
    by_cases hb : b' = b
    · subst hb
      rwa [Layout.bucket_put_self]
    · rw [Layout.bucket_put_of_ne _ _ _ hb, hhash b' hb]
      refine (h.chain b').congr (fun c hc => ?_)
      rw [hkeep b' hb c hc]
  free_lt := fun c hc => hsize ▸ hfree_lt c hc
  chain_lt := by
    intro b' c hc
    rw [hsize]
    by_cases hb : b' = b
    · subst hb
      rw [Layout.bucket_put_self] at hc
      exact hl_lt c hc
    · rw [Layout.bucket_put_of_ne _ _ _ hb] at hc
      exact h.chain_lt b' c hc
  live := by
    intro b' c hc
    by_cases hb : b' = b
    · subst hb
      rw [Layout.bucket_put_self] at hc
      exact hlive c hc
    · rw [Layout.bucket_put_of_ne _ _ _ hb] at hc
      rw [hkeep b' hb c hc]
      exact h.live b' c hc
  inj := by
    intro b' c hc c' hc' heq
    by_cases hb : b' = b
    · subst hb
      rw [Layout.bucket_put_self] at hc hc'
      exact hinj c hc c' hc' heq
    · rw [Layout.bucket_put_of_ne _ _ _ hb] at hc hc'
      rw [hkeep b' hb c hc, hkeep b' hb c' hc'] at heq
      exact h.inj b' c hc c' hc' heq
  disjoint := by
    intro b' c hc
    by_cases hb : b' = b
    · subst hb
      rw [Layout.bucket_put_self]
      exact (hdisj c hc).1
    · rw [Layout.bucket_put_of_ne _ _ _ hb]
      exact (hdisj c hc).2 b' hb

end Wf

end Inn.Tradindexed
