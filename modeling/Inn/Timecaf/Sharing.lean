import Inn.Rules
import Inn.Timecaf.Content

/-!
# Inn.Timecaf.Sharing — writers, removers and cleaners of one CAF path

Any number of processes open the path, lock the file they got and then write an
article, remove articles or clean the file, where a clean may put another file
in its place or unlink it. A lock belongs to the opened file and is held until
the file is closed.

* `named_locks_keep_articles` — no stored article is lost, as long as writers and
  cleaners lock a file the path still names;
* `stale_lock_loses_article` — the first attempt to lock does not check that, so a
  writer that opened the file before it was replaced stores its article in a file
  nobody can reach.
-/

namespace Inn.Timecaf

open Function (update update_self update_of_ne)

/-- What a process is in: `CAFOpenArtWrite` (which may not want to wait for the
lock), `CAFRemoveMultArts` or `CAFClean`. -/
inductive Task where
  | write (waitlock : Bool)
  | remove (arts : List ℕ)
  | clean
deriving DecidableEq

/-- Where a process is, with the files it has open. -/
inductive Proc where
  | idle
  | ready (task : Task)
  | opened (task : Task) (fd : ℕ)
  | waiting (task : Task) (fd : ℕ)
  /-- `CAFCreateCAFFile` has a new file under its own name, locked. -/
  | creating (waitlock : Bool) (fd : ℕ)
  | writing (fd : ℕ)
  /-- `CAFStartWriteFd` has chosen the number of the article. -/
  | started (fd art : ℕ)
  | removing (arts : List ℕ) (fd : ℕ)
  | cleaning (fd : ℕ)
  /-- `CAFClean` has found no article. -/
  | emptied (fd : ℕ)
  /-- `CAFClean` has copied the articles to a new file, locked. -/
  | copied (fd new : ℕ)
  /-- The path has been changed, the files are still open. -/
  | closing (fds : List ℕ)
deriving DecidableEq

/-- The files a process holds the lock of. -/
def Proc.holds : Proc → List ℕ
  | .idle | .ready _ | .opened _ _ | .waiting _ _ => []
  | .creating _ fd | .writing fd | .started fd _ | .removing _ fd | .cleaning fd
  | .emptied fd => [fd]
  | .copied fd new => [fd, new]
  | .closing fds => fds

/-- The file a writer or a cleaner has locked, as long as it relies on the path. -/
def Proc.relies : Proc → Option ℕ
  | .writing fd | .started fd _ | .cleaning fd | .emptied fd | .copied fd _ => some fd
  | _ => none

/-- The path, the files, the processes, and what should be readable: `stored` has
the articles whose `CAFFinishArtWrite` succeeded, less those removed since. -/
structure System (P : Type) where
  path : Option ℕ
  files : ℕ → Content
  next : ℕ
  procs : P → Proc
  stored : ℕ → Option (List UInt8)

inductive Act (P : Type) where
  | call (p : P) (task : Task)
  | open (p : P)
  | link (p : P)
  | lock (p : P)
  | wait (p : P)
  | start (p : P)
  | finish (p : P) (text : List UInt8)
  | remove (p : P)
  | read (p : P)
  | keep (p : P)
  | copy (p : P)
  | rename (p : P)
  | unlink (p : P)
  | close (p : P)

variable {P : Type}

/-- What `CAFOpenArtRead` finds through the path. -/
def System.CAFOpenArtRead (s : System P) (art : ℕ) : Option (List UInt8) :=
  s.path.bind fun fd => (s.files fd).art art

/-- Some process holds the lock of the file. -/
def System.Locked (s : System P) (fd : ℕ) : Prop := ∃ p, fd ∈ (s.procs p).holds

section Steps

variable [DecidableEq P]

def System.goto (s : System P) (p : P) (pc : Proc) : System P :=
  { s with procs := update s.procs p pc }

@[simp] theorem System.goto_procs_self (s : System P) (p : P) (pc : Proc) :
    (s.goto p pc).procs p = pc :=
  update_self ..

theorem System.goto_procs_of_ne {s : System P} {p q : P} {pc : Proc} (h : q ≠ p) :
    (s.goto p pc).procs q = s.procs q :=
  update_of_ne h ..

/-- A new file, locked by the process that made it. -/
def System.create (s : System P) (c : Content) : System P :=
  { s with files := update s.files s.next c, next := s.next + 1 }

/-- What a process does with the file it has locked. -/
def Task.locked : Task → ℕ → Proc
  | .write _, fd => .writing fd
  | .remove arts, fd => .removing arts fd
  | .clean, fd => .cleaning fd

/-- A process whose lock was refused waits for it, unless a writer does not want
to. -/
def Task.refused : Task → ℕ → Proc
  | .write false, _ => .idle
  | task, fd => .waiting task fd

/-- What `open` of a path without a file leads to: a writer makes the file, a
remover and a cleaner have nothing to do. -/
def System.openMissing (s : System P) (p : P) : Task → System P
  | .write waitlock => (s.create .new).goto p (.creating waitlock s.next)
  | _ => s.goto p .idle

/-- One step. The writes of `CAFFinishArtWrite` and of `CAFRemoveMultArts` count as
one step each, as do those of a compaction, which changes no article. -/
def Next (s : System P) (act : Act P) (s' : System P) : Prop :=
  match act with
  | .call p task => s.procs p = .idle ∧ s' = s.goto p (.ready task)
  | .open p => ∃ task, s.procs p = .ready task ∧
      s' = match s.path with
        | some fd => s.goto p (.opened task fd)
        | none => s.openMissing p task
  | .link p => ∃ waitlock fd, s.procs p = .creating waitlock fd ∧
      s' = match s.path with
        | none => { s with path := some fd }.goto p (.writing fd)
        | some _ => s.goto p (.ready (.write waitlock))
  | .lock p => ∃ task fd, s.procs p = .opened task fd ∧
      (s.Locked fd ∧ s' = s.goto p (task.refused fd) ∨
        ¬ s.Locked fd ∧ s' = s.goto p (task.locked fd))
  | .wait p => ∃ task fd, s.procs p = .waiting task fd ∧ ¬ s.Locked fd ∧
      s' = s.goto p (.ready task)
  | .start p => ∃ fd, s.procs p = .writing fd ∧
      s' = s.goto p (.started fd ((s.files fd).High + 1))
  | .finish p text => ∃ fd art, s.procs p = .started fd art ∧
      s' = { s with files := update s.files fd ((s.files fd).store text),
                    stored := update s.stored art (some text) }.goto p (.writing fd)
  | .remove p => ∃ arts fd, s.procs p = .removing arts fd ∧
      s' = { s with files := update s.files fd ((s.files fd).remove arts),
                    stored := fun n => if n ∈ arts then none else s.stored n }.goto p
             (.ready .clean)
  | .read p => ∃ fd, s.procs p = .cleaning fd ∧ (s.files fd).Empty ∧
      s' = s.goto p (.emptied fd)
  | .keep p => ∃ fd, s.procs p = .cleaning fd ∧ ¬ (s.files fd).Empty ∧ s' = s.goto p .idle
  | .copy p => ∃ fd, s.procs p = .cleaning fd ∧ ¬ (s.files fd).Empty ∧
      s' = (s.create (s.files fd)).goto p (.copied fd s.next)
  | .rename p => ∃ fd new, s.procs p = .copied fd new ∧
      s' = { s with path := some new }.goto p (.closing [fd, new])
  | .unlink p => ∃ fd, s.procs p = .emptied fd ∧
      s' = { s with path := none }.goto p (.closing [fd])
  | .close p => s.procs p ≠ .idle ∧ s' = s.goto p .idle

end Steps

/-- No process is at work, and what the path has counts as stored. -/
structure Quiet (s : System P) : Prop where
  procs : ∀ p, s.procs p = .idle
  path : ∀ fd, s.path = some fd → fd < s.next
  stored : s.stored = s.CAFOpenArtRead

/-- Every article stored and not removed since is readable through the path. -/
def KeepsArticles (next : System P → Act P → System P → Prop) : Prop :=
  ∀ s₀, Quiet s₀ → ∀ acts s, Steps next s₀ acts s →
    ∀ art text, s.stored art = some text → s.CAFOpenArtRead art = some text

/-- Writers and cleaners lock a file the path names, and no article is empty. -/
def NamedLock (s : System P) : Act P → Prop
  | .lock p => ∀ task fd, s.procs p = .opened task fd → ¬ s.Locked fd →
      (task.locked fd).relies = some fd → s.path = some fd
  | .finish _ text => text ≠ []
  | _ => True

/-! ## The invariant -/

/-- The files a process has open. -/
def Proc.fds : Proc → List ℕ
  | .opened _ fd | .waiting _ fd => [fd]
  | pc => pc.holds

/-- What a process has found out about the files it has locked. -/
def Proc.Knows (files : ℕ → Content) : Proc → Prop
  | .started fd art => art = (files fd).High + 1
  | .emptied fd => (files fd).Empty
  | .copied fd new => files new = files fd
  | _ => True

theorem Proc.holds_subset_fds {pc : Proc} {fd : ℕ} (h : fd ∈ pc.holds) : fd ∈ pc.fds := by
  cases pc <;> first | exact h | cases h

theorem Proc.relies_holds {pc : Proc} {fd : ℕ} (h : pc.relies = some fd) : fd ∈ pc.holds := by
  cases pc <;> simp_all [relies, holds]

/-- What a process knows depends on the files it has locked only. -/
theorem Proc.Knows.congr {files files' : ℕ → Content} {pc : Proc} (h : pc.Knows files)
    (hsame : ∀ fd ∈ pc.holds, files' fd = files fd) : pc.Knows files' := by
  cases pc with
  | started fd art => simpa [Knows, hsame fd (by simp [holds])] using h
  | emptied fd => simpa [Knows, hsame fd (by simp [holds])] using h
  | copied fd new =>
    simpa [Knows, hsame fd (by simp [holds]), hsame new (by simp [holds])] using h
  | _ => trivial

structure Inv (s : System P) : Prop where
  path_lt : ∀ fd, s.path = some fd → fd < s.next
  fds_lt : ∀ p, ∀ fd ∈ (s.procs p).fds, fd < s.next
  alone : ∀ p q fd, fd ∈ (s.procs p).holds → fd ∈ (s.procs q).holds → p = q
  named : ∀ p fd, (s.procs p).relies = some fd → s.path = some fd
  knows : ∀ p, (s.procs p).Knows s.files
  stored : ∀ art text, s.stored art = some text → s.CAFOpenArtRead art = some text

variable {s s' : System P} {p q : P}

theorem Quiet.inv (h : Quiet s) : Inv s where
  path_lt := h.path
  fds_lt p := by
    rw [h.procs p]
    nofun
  alone p q fd hp := by
    rw [h.procs p] at hp
    cases hp
  named p fd hp := by
    rw [h.procs p] at hp
    cases hp
  knows p := by
    rw [h.procs p]
    trivial
  stored art text ht := by rwa [h.stored] at ht

/-- A new file, which nobody has open yet. -/
theorem Inv.create (h : Inv s) (c : Content) : Inv (s.create c) where
  path_lt fd hfd := Nat.lt_succ_of_lt (h.path_lt fd hfd)
  fds_lt p fd hfd := Nat.lt_succ_of_lt (h.fds_lt p fd hfd)
  alone := h.alone
  named := h.named
  knows p := (h.knows p).congr fun fd hfd =>
    update_of_ne (Nat.ne_of_lt (h.fds_lt p fd (Proc.holds_subset_fds hfd))) ..
  stored art text ht := by
    rw [← h.stored art text ht]
    unfold System.CAFOpenArtRead System.create
    rcases hp : s.path with _ | fd
    · rfl
    · simp [update_of_ne (Nat.ne_of_lt (h.path_lt fd hp))]

/-- A file changes that others rely on in nothing. -/
theorem Inv.setFile (h : Inv s) {fd : ℕ} {c : Content}
    (hknows : ∀ q, fd ∈ (s.procs q).holds → (s.procs q).Knows (update s.files fd c))
    {stored : ℕ → Option (List UInt8)}
    (hstored : ∀ art text, stored art = some text →
      (s.path.bind fun fd' => (update s.files fd c fd').art art) = some text) :
    Inv { s with files := update s.files fd c, stored := stored } where
  path_lt := h.path_lt
  fds_lt := h.fds_lt
  alone := h.alone
  named := h.named
  knows q := by
    by_cases hq : fd ∈ (s.procs q).holds
    · exact hknows q hq
    · refine (h.knows q).congr fun fd' hfd' => update_of_ne ?_ ..
      rintro rfl
      exact hq hfd'
  stored := hstored

/-- The path changes while nobody relies on it, and shows the same articles. -/
theorem Inv.setPath (h : Inv s) {path : Option ℕ} (hlt : ∀ fd, path = some fd → fd < s.next)
    (hnobody : ∀ q, (s.procs q).relies = none)
    (hsame : ∀ art text, s.CAFOpenArtRead art = some text →
      (path.bind fun fd => (s.files fd).art art) = some text) : Inv { s with path := path } where
  path_lt := hlt
  fds_lt := h.fds_lt
  alone := h.alone
  named q fd hq := by
    rw [hnobody q] at hq
    cases hq
  knows := h.knows
  stored art text ht := hsame art text (h.stored art text ht)

/-- Whoever relies on the path has the file it names locked, so there is one at
most. -/
theorem Inv.relies_alone (h : Inv s) {fd : ℕ} (hp : (s.procs p).relies = some fd) (hne : q ≠ p) :
    (s.procs q).relies = none := by
  rcases hq : (s.procs q).relies with _ | fd'
  · rfl
  · have hsame : fd' = fd := Option.some.inj ((h.named q fd' hq).symm.trans (h.named p fd hp))
    subst hsame
    exact absurd (h.alone q p fd' (Proc.relies_holds hq) (Proc.relies_holds hp)) hne

section Moves

variable [DecidableEq P]

/-- A process goes on without changing the files or the path. -/
theorem Inv.goto (h : Inv s) {pc : Proc} (hlt : ∀ fd ∈ pc.fds, fd < s.next)
    (halone : ∀ fd ∈ pc.holds, ∀ q, fd ∈ (s.procs q).holds → q = p)
    (hnamed : ∀ fd, pc.relies = some fd → s.path = some fd) (hknows : pc.Knows s.files) :
    Inv (s.goto p pc) where
  path_lt := h.path_lt
  fds_lt q := by
    rcases eq_or_ne q p with rfl | hne
    · rw [System.goto_procs_self]
      exact hlt
    · rw [System.goto_procs_of_ne hne]
      exact h.fds_lt q
  alone q r fd hq hr := by
    rcases eq_or_ne q p with rfl | hqp <;> rcases eq_or_ne r q with rfl | hrq
    · rfl
    · rw [System.goto_procs_self] at hq
      rw [System.goto_procs_of_ne hrq] at hr
      exact (halone fd hq r hr).symm
    · rfl
    · rcases eq_or_ne r p with rfl | hrp
      · rw [System.goto_procs_of_ne hqp] at hq
        rw [System.goto_procs_self] at hr
        exact halone fd hr q hq
      · rw [System.goto_procs_of_ne hqp] at hq
        rw [System.goto_procs_of_ne hrp] at hr
        exact h.alone q r fd hq hr
  named q fd hq := by
    rcases eq_or_ne q p with rfl | hne
    · exact hnamed fd (by simpa using hq)
    · exact h.named q fd (by simpa [System.goto_procs_of_ne hne] using hq)
  knows q := by
    rcases eq_or_ne q p with rfl | hne
    · rw [System.goto_procs_self]
      exact hknows
    · rw [System.goto_procs_of_ne hne]
      exact h.knows q
  stored := h.stored

/-- A process that keeps no more than it had. -/
theorem Inv.release (h : Inv s) {pc : Proc} (hfds : pc.fds ⊆ (s.procs p).fds)
    (hholds : pc.holds ⊆ (s.procs p).holds) (hrelies : pc.relies = none)
    (hknows : pc.Knows s.files) : Inv (s.goto p pc) :=
  h.goto (fun fd hfd => h.fds_lt p fd (hfds hfd))
    (fun fd hfd q hq => h.alone q p fd hq (hholds hfd))
    (fun fd hfd => by rw [hrelies] at hfd; cases hfd) hknows

/-- A process goes on with the files it has locked. -/
theorem Inv.advance (h : Inv s) {pc : Proc} (hfds : pc.fds ⊆ (s.procs p).fds)
    (hholds : pc.holds ⊆ (s.procs p).holds) (hrelies : pc.relies = (s.procs p).relies)
    (hknows : pc.Knows s.files) : Inv (s.goto p pc) :=
  h.goto (fun fd hfd => h.fds_lt p fd (hfds hfd))
    (fun fd hfd q hq => h.alone q p fd hq (hholds hfd))
    (fun fd hfd => h.named p fd (hrelies ▸ hfd)) hknows

/-- A cleaner puts the path somewhere else and is done with it. -/
theorem Inv.replace (h : Inv s) {fd : ℕ} (hp : (s.procs p).relies = some fd) {fds : List ℕ}
    (hfds : fds ⊆ (s.procs p).holds) {path : Option ℕ}
    (hlt : ∀ fd, path = some fd → fd < s.next)
    (hsame : ∀ art, (path.bind fun fd => (s.files fd).art art) = (s.files fd).art art) :
    Inv ({ s with path := path }.goto p (.closing fds)) := by
  have hmoved : Inv (s.goto p (.closing fds)) :=
    h.release (fun _ hfd => Proc.holds_subset_fds (hfds hfd)) hfds rfl trivial
  refine hmoved.setPath hlt (fun q => ?_) fun art text ht => ?_
  · rcases eq_or_ne q p with rfl | hne
    · simp [Proc.relies]
    · simpa [System.goto_procs_of_ne hne] using h.relies_alone hp hne
  · have hread : s.CAFOpenArtRead art = (s.files fd).art art := by
      rw [System.CAFOpenArtRead, h.named p fd hp]
      rfl
    exact (hsame art).trans (hread.symm.trans ht)

theorem next_inv {act : Act P} (hnext : guarded NamedLock Next s act s') (h : Inv s) :
    Inv s' := by
  obtain ⟨hsafe, hnext⟩ := hnext
  cases act with
  | call p task =>
    obtain ⟨_, rfl⟩ := hnext
    exact h.release (List.nil_subset _) (List.nil_subset _) rfl trivial
  | «open» p =>
    obtain ⟨task, hp, rfl⟩ := hnext
    rcases hpath : s.path with _ | fd
    · cases task with
      | write waitlock =>
        -- the new file is locked by the process that made it
        refine (h.create .new).goto (fun fd hfd => ?_) (fun fd hfd q hq => ?_) nofun trivial
        · exact List.mem_singleton.mp hfd ▸ Nat.lt_succ_self s.next
        · have := h.fds_lt q fd (Proc.holds_subset_fds hq)
          exact absurd (List.mem_singleton.mp hfd) (Nat.ne_of_lt this)
      | remove arts => exact h.release (List.nil_subset _) (List.nil_subset _) rfl trivial
      | clean => exact h.release (List.nil_subset _) (List.nil_subset _) rfl trivial
    · refine h.goto (fun fd' hfd' => ?_) nofun nofun trivial
      rw [Proc.fds, List.mem_singleton] at hfd'
      exact hfd' ▸ h.path_lt fd hpath
  | link p =>
    obtain ⟨waitlock, fd, hp, rfl⟩ := hnext
    rcases hpath : s.path with _ | fd'
    · -- nobody relies on a path without a file
      have hnobody (q : P) : (s.procs q).relies = none := by
        rcases hq : (s.procs q).relies with _ | fd'
        · rfl
        · rw [h.named q fd' hq] at hpath
          cases hpath
      have hfd : fd ∈ (s.procs p).holds := by simp [hp, Proc.holds]
      have hset : Inv { s with path := some fd } := by
        refine h.setPath (fun fd' hfd' => ?_) hnobody fun art text ht => ?_
        · exact Option.some.inj hfd' ▸ h.fds_lt p fd (Proc.holds_subset_fds hfd)
        · rw [System.CAFOpenArtRead, hpath] at ht
          cases ht
      refine hset.goto (fun fd' hfd' => ?_) (fun fd' hfd' q hq => ?_) (fun _ h' => h') trivial
      · exact List.mem_singleton.mp hfd' ▸ h.fds_lt p fd (Proc.holds_subset_fds hfd)
      · rw [List.mem_singleton.mp hfd'] at hq
        exact h.alone q p fd hq hfd
    · exact h.release (List.nil_subset _) (List.nil_subset _) rfl trivial
  | lock p =>
    obtain ⟨task, fd, hp, ⟨hlocked, rfl⟩ | ⟨hfree, rfl⟩⟩ := hnext
    · have hfds : (task.refused fd).fds ⊆ (s.procs p).fds := by
        rcases task with ⟨_ | _⟩ | _ | _ <;> simp [Task.refused, Proc.fds, Proc.holds, hp]
      refine h.release hfds ?_ ?_ ?_
      all_goals rcases task with ⟨_ | _⟩ | _ | _ <;>
        simp [Task.refused, Proc.holds, Proc.relies, Proc.Knows]
    · refine h.goto (fun fd' hfd' => ?_) (fun fd' hfd' q hq => ?_)
        (fun fd' hfd' => ?_) (by cases task <;> trivial)
      · have : fd' = fd := by cases task <;> simpa [Task.locked, Proc.fds, Proc.holds] using hfd'
        exact this ▸ h.fds_lt p fd (by simp [hp, Proc.fds])
      · have : fd' = fd := by cases task <;> simpa [Task.locked, Proc.holds] using hfd'
        exact absurd ⟨q, this ▸ hq⟩ hfree
      · have : fd' = fd := by cases task <;> simp_all [Task.locked, Proc.relies]
        exact this ▸ hsafe task fd hp hfree (this ▸ hfd')
  | wait p =>
    obtain ⟨task, fd, hp, _, rfl⟩ := hnext
    exact h.release (List.nil_subset _) (List.nil_subset _) rfl trivial
  | start p =>
    obtain ⟨fd, hp, rfl⟩ := hnext
    exact h.advance (by rw [hp]; exact List.Subset.refl _) (by rw [hp]; exact List.Subset.refl _)
      (by rw [hp]; rfl) rfl
  | finish p text =>
    obtain ⟨fd, art, hp, rfl⟩ := hnext
    have hart : art = (s.files fd).High + 1 := by simpa [hp, Proc.Knows] using h.knows p
    have hpath : s.path = some fd := h.named p fd (by rw [hp]; rfl)
    have hmoved : Inv (s.goto p (.writing fd)) :=
      h.advance (by rw [hp]; exact List.Subset.refl _) (by rw [hp]; exact List.Subset.refl _)
        (by rw [hp]; rfl) trivial
    refine hmoved.setFile (fun q hq => ?_) fun n text' ht => ?_
    · rcases eq_or_ne q p with rfl | hne
      · simp [Proc.Knows]
      · rw [System.goto_procs_of_ne hne] at hq
        exact absurd (h.alone q p fd hq (by simp [hp, Proc.holds])) hne
    · show (s.path.bind fun fd' => (update s.files fd ((s.files fd).store text) fd').art n) = _
      rw [hpath, Option.bind_some, update_self]
      replace ht : update s.stored art (some text) n = some text' := ht
      rcases eq_or_ne n art with rfl | hne
      · rw [update_self] at ht
        rw [hart, Content.store_self hsafe]
        exact ht
      · rw [update_of_ne hne] at ht
        rw [Content.store_of_ne (hart ▸ hne)]
        simpa [System.CAFOpenArtRead, hpath] using h.stored n text' ht
  | remove p =>
    obtain ⟨arts, fd, hp, rfl⟩ := hnext
    have hmoved : Inv (s.goto p (.ready .clean)) :=
      h.release (List.nil_subset _) (List.nil_subset _) rfl trivial
    refine hmoved.setFile (fun q hq => ?_) fun n text ht => ?_
    · rcases eq_or_ne q p with rfl | hne
      · simp [Proc.Knows]
      · rw [System.goto_procs_of_ne hne] at hq
        exact absurd (h.alone q p fd hq (by simp [hp, Proc.holds])) hne
    · -- an article that is not in the list is as it was, in this file or another
      dsimp only at ht
      split at ht
      · cases ht
      · rename_i hn
        have hread := h.stored n text ht
        show (s.path.bind fun fd' => (update s.files fd ((s.files fd).remove arts) fd').art n) = _
        rcases hpath : s.path with _ | fd'
        · rw [System.CAFOpenArtRead, hpath] at hread
          cases hread
        · rw [System.CAFOpenArtRead, hpath, Option.bind_some] at hread
          rw [Option.bind_some]
          rcases eq_or_ne fd' fd with rfl | hne
          · rw [update_self, Content.remove_of_not_mem hn]
            exact hread
          · rw [update_of_ne hne]
            exact hread
  | read p =>
    obtain ⟨fd, hp, hempty, rfl⟩ := hnext
    exact h.advance (by rw [hp]; exact List.Subset.refl _) (by rw [hp]; exact List.Subset.refl _)
      (by rw [hp]; rfl) hempty
  | keep p =>
    obtain ⟨fd, hp, _, rfl⟩ := hnext
    exact h.release (List.nil_subset _) (List.nil_subset _) rfl trivial
  | copy p =>
    obtain ⟨fd, hp, _, rfl⟩ := hnext
    have hfd : fd ∈ (s.procs p).holds := by simp [hp, Proc.holds]
    have hlt := h.fds_lt p fd (Proc.holds_subset_fds hfd)
    refine (h.create (s.files fd)).goto (fun fd' hfd' => ?_) (fun fd' hfd' q hq => ?_)
      (fun fd' hfd' => ?_) ?_
    · simp only [Proc.fds, Proc.holds, List.mem_cons, List.not_mem_nil, or_false] at hfd'
      show fd' < s.next + 1
      omega
    · simp only [Proc.holds, List.mem_cons, List.not_mem_nil, or_false] at hfd'
      rcases hfd' with rfl | rfl
      · exact h.alone q p fd' hq hfd
      · exact absurd (h.fds_lt q _ (Proc.holds_subset_fds hq)) (Nat.lt_irrefl _)
    · exact h.named p fd' (by rw [hp]; exact hfd')
    · show update s.files s.next (s.files fd) s.next = update s.files s.next (s.files fd) fd
      rw [update_self, update_of_ne (Nat.ne_of_lt hlt)]
  | rename p =>
    obtain ⟨fd, new, hp, rfl⟩ := hnext
    refine h.replace (by rw [hp]; rfl) (by rw [hp]; exact List.Subset.refl _) (fun fd' hfd' => ?_)
      fun art => ?_
    · cases hfd'
      exact h.fds_lt p _ (by rw [hp]; simp [Proc.fds, Proc.holds])
    · have hsame := h.knows p
      rw [hp] at hsame
      rw [Option.bind_some, show s.files new = s.files fd from hsame]
  | unlink p =>
    obtain ⟨fd, hp, rfl⟩ := hnext
    refine h.replace (by rw [hp]; rfl) (by rw [hp]; exact List.Subset.refl _) nofun fun art => ?_
    have hempty := h.knows p
    rw [hp] at hempty
    exact (hempty art).symm
  | close p =>
    obtain ⟨_, rfl⟩ := hnext
    exact h.release (List.nil_subset _) (List.nil_subset _) rfl trivial

/-- Where writers and cleaners lock files the path names, no stored article is lost. -/
theorem named_locks_keep_articles : KeepsArticles (guarded NamedLock (@Next P _)) :=
  fun _ hquiet _ _ hrun =>
    have hinv := hrun.invariant (fun _ _ _ hnext h => next_inv hnext h) hquiet.inv
    hinv.stored

end Moves

/-- A path with a file that has no article, and two idle processes. -/
def emptyPath : System Bool := ⟨some 0, fun _ => .new, 1, fun _ => .idle, fun _ => none⟩

/-- A writer opens the file, a cleaner unlinks it and closes it, and the writer
locks it without waiting: its article is stored in a file without a name. -/
theorem stale_lock_loses_article : ¬ KeepsArticles (@Next Bool _) := by
  intro hkeeps
  have hquiet : Quiet emptyPath := by
    refine ⟨fun _ => rfl, fun fd hfd => ?_, rfl⟩
    cases hfd
    exact Nat.zero_lt_one
  have hfree (s : System Bool) (hs : ∀ p, (s.procs p).holds = []) (fd : ℕ) : ¬ s.Locked fd := by
    rintro ⟨p, hp⟩
    rw [hs p] at hp
    cases hp
  -- the writer is `true`, the cleaner `false`
  let s₂ := (emptyPath.goto true (.ready (.write true))).goto true (.opened (.write true) 0)
  let s₄ := (s₂.goto false (.ready .clean)).goto false (.opened .clean 0)
  let s₆ := (s₄.goto false (.cleaning 0)).goto false (.emptied 0)
  let s₈ := ({ s₆ with path := none }.goto false (.closing [0])).goto false .idle
  let s₉ := s₈.goto true (.writing 0)
  let s₁₀ := s₉.goto true (.started 0 2)
  let s : System Bool :=
    { s₁₀ with files := update s₁₀.files 0 ((s₁₀.files 0).store [7]),
               stored := update s₁₀.stored 2 (some [7]) }.goto true (.writing 0)
  have hopen : Steps Next emptyPath [.call true (.write true), .open true] s₂ :=
    (Steps.single ⟨rfl, rfl⟩).snoc ⟨_, rfl, rfl⟩
  have hopen' : Steps Next s₂ [.call false .clean, .open false] s₄ :=
    (Steps.single ⟨rfl, rfl⟩).snoc ⟨_, rfl, rfl⟩
  have hclean : Steps Next s₄ [.lock false, .read false] s₆ :=
    (Steps.single ⟨_, _, rfl, .inr ⟨hfree s₄ (fun p => by cases p <;> rfl) 0, rfl⟩⟩).snoc
      ⟨_, rfl, fun _ => rfl, rfl⟩
  have hunlink : Steps Next s₆ [.unlink false, .close false] s₈ :=
    (Steps.single ⟨_, rfl, rfl⟩).snoc ⟨by simp, rfl⟩
  have hlock : Steps Next s₈ [.lock true] s₉ :=
    .single ⟨_, _, rfl, .inr ⟨hfree s₈ (fun p => by cases p <;> rfl) 0, rfl⟩⟩
  have hwrite : Steps Next s₉ [.start true, .finish true [7]] s :=
    (Steps.single ⟨_, rfl, rfl⟩).snoc ⟨_, _, rfl, rfl⟩
  have hrun := ((((hopen.trans hopen').trans hclean).trans hunlink).trans hlock).trans hwrite
  have hread := hkeeps emptyPath hquiet _ s hrun 2 [7] rfl
  cases hread

end Inn.Timecaf
