import Mathlib.Data.List.Basic
import Mathlib.Logic.Function.Basic

/-!
# Inn.Tombstone.Basic — the tombstone files and one run of expire

The storage side appends the tokens of cancelled articles to
`cancels.tombstone`, and expireover writes `expireover.tombstone`. A run of
expire loads both into a hash set, rewrites the history with it and removes
them:

* `Disk` — the three names, the files they stand for and the lines of each;
* `Expire` — where a run of expire is, with its local variables;
* `expireStep` — its next step, one system call (or one line of a file) each.

A run that is stopped leaves the disk as its last step left it.
-/

namespace Inn.Tombstone

open Function (update update_self update_of_ne)

/-- A line of a tombstone file, as `tombstone_read` takes it: the header that
`tombstone_ensure_header` writes, a line that is skipped (blank, another
comment, malformed), or a token. -/
inductive Line (TOKEN : Type) where
  | header
  | ignored
  | token (t : TOKEN)
deriving DecidableEq

/-- The files of `pathdb`: `cancels.tombstone`, `cancels.tombstone.processing`
and `expireover.tombstone`. -/
inductive Name where
  | cancels
  | processing
  | expireover
deriving DecidableEq

/-- The file each name stands for, if any, and the lines of every file. New
files are numbered from `next` on. -/
structure Disk (TOKEN : Type) where
  ino : Name → Option ℕ
  lines : ℕ → List (Line TOKEN)
  next : ℕ
  used : ∀ n i, ino n = some i → i < next

namespace Disk

variable {TOKEN : Type}

/-- What a reader of the name finds: nothing where there is no file. -/
def read (d : Disk TOKEN) (n : Name) : List (Line TOKEN) :=
  match d.ino n with
  | none => []
  | some i => d.lines i

/-- `open` with `O_CREAT` of a name without a file. -/
def creat (d : Disk TOKEN) (n : Name) : Disk TOKEN :=
  { ino := update d.ino n (some d.next)
    lines := update d.lines d.next []
    next := d.next + 1
    used := by
      intro m i hi
      rcases eq_or_ne m n with rfl | hne
      · rw [update_self] at hi
        have := Option.some.inj hi
        omega
      · rw [update_of_ne hne] at hi
        exact Nat.lt_succ_of_lt (d.used m i hi) }

def unlink (d : Disk TOKEN) (n : Name) : Disk TOKEN :=
  { d with
    ino := update d.ino n none
    used := by
      intro m i hi
      rcases eq_or_ne m n with rfl | hne
      · rw [update_self] at hi
        cases hi
      · rw [update_of_ne hne] at hi
        exact d.used m i hi }

/-- `rename(cancels.tombstone, cancels.tombstone.processing)`. -/
def rename (d : Disk TOKEN) : Disk TOKEN :=
  { d with
    ino := update (update d.ino .processing (d.ino .cancels)) .cancels none
    used := by
      intro m i hi
      cases m with
      | cancels => cases hi
      | processing => exact d.used .cancels i hi
      | expireover => exact d.used .expireover i hi }

/-- One write at the end of a file. -/
def append (d : Disk TOKEN) (i : ℕ) (line : Line TOKEN) : Disk TOKEN :=
  { d with lines := update d.lines i (d.lines i ++ [line]) }

/-- The locked part of `tombstone_ensure_header`: a header goes in front unless
the file starts with it. -/
def ensureHeader (d : Disk TOKEN) (i : ℕ) : Disk TOKEN :=
  match d.lines i with
  | .header :: _ => d
  | lines => { d with lines := update d.lines i (.header :: lines) }

/-- A token line of the file with this name. -/
def Holds (d : Disk TOKEN) (n : Name) (t : TOKEN) : Prop :=
  .token t ∈ d.read n

instance [DecidableEq TOKEN] (d : Disk TOKEN) (n : Name) (t : TOKEN) : Decidable (d.Holds n t) :=
  inferInstanceAs (Decidable (.token t ∈ d.read n))

end Disk

namespace Disk

variable {TOKEN : Type} {d : Disk TOKEN}

theorem read_none {n : Name} (h : d.ino n = none) : d.read n = [] := by
  rw [read, h]

theorem Holds.isSome {n : Name} {t : TOKEN} (h : d.Holds n t) : (d.ino n).isSome = true := by
  rcases hi : d.ino n with _ | i
  · rw [Holds, read_none hi] at h
    cases h
  · rfl

@[simp] theorem holds_unlink_self (n : Name) (t : TOKEN) : ¬(d.unlink n).Holds n t := by
  intro h
  have := h.isSome
  simp [unlink] at this

theorem holds_unlink_of_ne {n m : Name} (hne : m ≠ n) (t : TOKEN) :
    (d.unlink n).Holds m t ↔ d.Holds m t := by
  simp [Holds, read, unlink, update_of_ne hne]

@[simp] theorem holds_rename_cancels (t : TOKEN) : ¬d.rename.Holds .cancels t := by
  intro h
  have := h.isSome
  simp [rename] at this

@[simp] theorem read_rename_processing : d.rename.read .processing = d.read .cancels := by
  simp [read, rename]

@[simp] theorem read_rename_expireover : d.rename.read .expireover = d.read .expireover := by
  simp [read, rename]

/-- A new file holds nothing, and the others are as they were. -/
theorem read_creat {n : Name} (hn : d.ino n = none) (m : Name) :
    (d.creat n).read m = d.read m := by
  rcases eq_or_ne m n with rfl | hne
  · simp [read, creat, hn]
  · rcases hi : d.ino m with _ | i
    · simp [read, creat, update_of_ne hne, hi]
    · have hlt := d.used m i hi
      simp [read, creat, update_of_ne hne, hi, update_of_ne (show i ≠ d.next by omega)]

theorem holds_creat {n : Name} (hn : d.ino n = none) (m : Name) (t : TOKEN) :
    (d.creat n).Holds m t ↔ d.Holds m t := by
  rw [Holds, Holds, read_creat hn]

theorem read_append (i : ℕ) (line : Line TOKEN) (n : Name) :
    (d.append i line).read n = d.read n ++ if d.ino n = some i then [line] else [] := by
  rcases hj : d.ino n with _ | j
  · simp [read, append, hj]
  · rcases eq_or_ne j i with rfl | hne
    · simp [read, append, hj]
    · simp [read, append, hj, hne]

theorem holds_append (i : ℕ) (line : Line TOKEN) (n : Name) (t : TOKEN) :
    (d.append i line).Holds n t ↔ d.Holds n t ∨ d.ino n = some i ∧ line = .token t := by
  rw [Holds, Holds, read_append, List.mem_append]
  split
  · rename_i hi
    simp [hi, eq_comm]
  · rename_i hi
    simp [hi]

/-- A header in front of the lines leaves the tokens. -/
theorem holds_ensureHeader (d : Disk TOKEN) (i : ℕ) (n : Name) (t : TOKEN) :
    (d.ensureHeader i).Holds n t ↔ d.Holds n t := by
  unfold ensureHeader
  split
  · rfl
  · rcases hj : d.ino n with _ | j
    · simp [Holds, read, hj]
    · rcases eq_or_ne j i with rfl | hne
      · simp [Holds, read, hj]
      · simp [Holds, read, hj, update_of_ne hne]

end Disk

/-- Where a run of expire is. `rename`, `close` and the header steps carry the
descriptor they work on, the reads the line they are at. -/
inductive Phase where
  | probe
  | readLeftover (pos : ℕ)
  | openCancels
  | lockCancels (fd : ℕ)
  | renameCancels (fd : ℕ)
  | closeCancels (fd : ℕ)
  | readCancels (pos : ℕ)
  | readExpireover (pos : ℕ)
  | reconcile
  | HISexpire
  | unlinkExpireover
  | unlinkSnapshot
  | openHeader (n : Name)
  | lockHeader (n : Name) (fd : ℕ)
  | writeHeader (n : Name) (fd : ℕ)
  | closeHeader (n : Name) (fd : ℕ)
  | exited
deriving DecidableEq

namespace Phase

/-- The rename has been done, or there was nothing to rename. -/
def renamed : Phase → Bool
  | probe | readLeftover _ | openCancels | lockCancels _ | renameCancels _ => false
  | _ => true

/-- The loader has reconciled the leftover with the snapshot. -/
def reconciled : Phase → Bool
  | HISexpire | unlinkExpireover | unlinkSnapshot | openHeader _ | lockHeader _ _
  | writeHeader _ _ | closeHeader _ _ | exited => true
  | _ => false

/-- The history has been rewritten. -/
def rewritten : Phase → Bool
  | unlinkExpireover | unlinkSnapshot | openHeader _ | lockHeader _ _ | writeHeader _ _
  | closeHeader _ _ | exited => true
  | _ => false

end Phase

/-- A run of expire: `h` is the hash set, `snapshot` tells whether
`cancels_snapshot` is set (its path is always that of `.processing`) and
`loaded` whether `EXPloadtombstone` returned a hash set at all. -/
structure Expire (TOKEN : Type) where
  phase : Phase
  consuming : Bool
  expireoverPresent : Bool
  leftoverPresent : Bool
  cancelsPresent : Bool
  h : List TOKEN
  nLeftover : ℕ
  snapshot : Bool
  loaded : Bool

namespace Expire

variable {TOKEN : Type}

/-- The start of a run; `consuming` is false for a dry run, a traced one and one
that writes another history. -/
def start (consuming : Bool) : Expire TOKEN :=
  { phase := .probe, consuming := consuming, expireoverPresent := false,
    leftoverPresent := false, cancelsPresent := false, h := [], nLeftover := 0,
    snapshot := false, loaded := false }

def goto (e : Expire TOKEN) (p : Phase) : Expire TOKEN := { e with phase := p }

/-- The file a run holds the exclusive lock of. -/
def exclusive (e : Expire TOKEN) : Option ℕ :=
  match e.phase with
  | .renameCancels fd | .closeCancels fd | .writeHeader _ fd | .closeHeader _ fd => some fd
  | _ => none

end Expire

section Step

variable {TOKEN : Type} [DecidableEq TOKEN]

/-- `hash_insert` of a line's token, unless it is there already. -/
def insertLine (h : List TOKEN) : Line TOKEN → List TOKEN
  | .token t => h.insert t
  | _ => h

theorem mem_insertLine {h : List TOKEN} {line : Line TOKEN} {t : TOKEN} :
    t ∈ insertLine h line ↔ t ∈ h ∨ line = .token t := by
  cases line with
  | token u => simp [insertLine, eq_comm, or_comm]
  | _ => simp [insertLine]

/-- What a line adds to the count that `tombstone_read` returns. -/
def Line.count : Line TOKEN → ℕ
  | .token _ => 1
  | _ => 0

/-- One line of a `tombstone_read` into `e.h`: at the end of the file the run
goes on at `done`. -/
def tombstoneRead (lines : List (Line TOKEN)) (pos : ℕ) (e : Expire TOKEN)
    (again : ℕ → Phase) (done : Phase) : Expire TOKEN :=
  match lines[pos]? with
  | some line => { e with h := insertLine e.h line, phase := again (pos + 1) }
  | none => e.goto done

theorem tombstoneRead_some {lines : List (Line TOKEN)} {pos : ℕ} {line : Line TOKEN}
    (h : lines[pos]? = some line) (e : Expire TOKEN) (again : ℕ → Phase) (done : Phase) :
    tombstoneRead lines pos e again done =
      { e with h := insertLine e.h line, phase := again (pos + 1) } := by
  rw [tombstoneRead, h]

theorem tombstoneRead_none {lines : List (Line TOKEN)} {pos : ℕ}
    (h : lines[pos]? = none) (e : Expire TOKEN) (again : ℕ → Phase) (done : Phase) :
    tombstoneRead lines pos e again done = e.goto done := by
  rw [tombstoneRead, h]

/-- The reconciliation of the leftover with the snapshot: the disk, and whether
`cancels_snapshot` is set. -/
def reconcile (d : Disk TOKEN) (e : Expire TOKEN) : Disk TOKEN × Bool :=
  if !e.consuming then (d, e.snapshot)
  else if 0 < e.nLeftover ∧ !e.snapshot then (d, true)
  else if 0 < e.nLeftover then (d.unlink .processing, e.snapshot)
  else if e.leftoverPresent ∧ !e.snapshot then (d, true)
  else if e.leftoverPresent then (d.unlink .processing, e.snapshot)
  else (d, e.snapshot)

/-- The return of `EXPloadtombstone`: no hash set where none of the files was
there. -/
def loadReturn (e : Expire TOKEN) (snapshot : Bool) : Expire TOKEN :=
  let loaded := e.expireoverPresent || e.leftoverPresent || e.cancelsPresent || snapshot
  { e with phase := .HISexpire, snapshot := snapshot, loaded := loaded,
           h := if loaded then e.h else [] }

/-- The next step of a run, where `free` tells which files it may lock. It has
none when it waits for a lock or has exited. -/
def expireStep (free : ℕ → Bool) (d : Disk TOKEN) (e : Expire TOKEN) :
    Option (Disk TOKEN × Expire TOKEN) :=
  match e.phase with
  | .probe =>
    some (d, { e with expireoverPresent := (d.ino .expireover).isSome,
                      leftoverPresent := (d.ino .processing).isSome,
                      cancelsPresent := (d.ino .cancels).isSome,
                      phase := .readLeftover 0 })
  | .readLeftover pos =>
    let e' := tombstoneRead (d.read .processing) pos e .readLeftover
      (if e.consuming then .openCancels else .readCancels 0)
    some (d, { e' with nLeftover :=
      e.nLeftover + ((d.read .processing)[pos]?.map Line.count).getD 0 })
  | .openCancels =>
    -- without a file there is nothing to rename
    match d.ino .cancels with
    | none => some (d, e.goto (.readExpireover 0))
    | some fd => some (d, e.goto (.lockCancels fd))
  | .lockCancels fd => if free fd then some (d, e.goto (.renameCancels fd)) else none
  | .renameCancels fd => some (d.rename, { e with snapshot := true, phase := .closeCancels fd })
  | .closeCancels _ => some (d, e.goto (.readCancels 0))
  | .readCancels pos =>
    some (d, tombstoneRead (d.read (if e.consuming then .processing else .cancels)) pos e
      .readCancels (.readExpireover 0))
  | .readExpireover pos =>
    some (d, tombstoneRead (d.read .expireover) pos e .readExpireover .reconcile)
  | .reconcile => some ((reconcile d e).1, loadReturn e (reconcile d e).2)
  | .HISexpire => some (d, e.goto (if e.consuming then .unlinkExpireover else .exited))
  | .unlinkExpireover =>
    some (if e.loaded then d.unlink .expireover else d, e.goto .unlinkSnapshot)
  | .unlinkSnapshot =>
    some (if e.snapshot then d.unlink .processing else d, e.goto (.openHeader .cancels))
  | .openHeader n =>
    match d.ino n with
    | none => some (d.creat n, e.goto (.lockHeader n d.next))
    | some fd => some (d, e.goto (.lockHeader n fd))
  | .lockHeader n fd => if free fd then some (d, e.goto (.writeHeader n fd)) else none
  | .writeHeader n fd => some (d.ensureHeader fd, e.goto (.closeHeader n fd))
  | .closeHeader n _ =>
    some (d, e.goto (if n = .cancels then .openHeader .expireover else .exited))
  | .exited => none

end Step

end Inn.Tombstone
