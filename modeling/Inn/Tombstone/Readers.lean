import Mathlib.Data.PNat.Basic
import Mathlib.Algebra.BigOperators.Group.List.Basic
import Inn.Rules
import Inn.Tombstone.Basic

/-!
# Inn.Tombstone.Readers — nnrpd beside cancels and expire

A long-lived nnrpd keeps the tokens of `cancels.tombstone` in memory, under the time and
size that `stat` told when it read them, and answers from them whether an article is
there. Meanwhile articles are stored and cancelled, their tokens appended, and the file
is renamed away, removed and made anew.

* `World.step` — one system call of nnrpd, or one thing that happens beside it;
* `fast_path_agrees` — the answers agree with the spool and the file, but for what a
  read that failed has left out;
* `partial_read_answers` — after such a read an article whose cancel is recorded is
  still said to be there.
-/

namespace Inn.Tombstone

open Function (update update_self update_of_ne)

variable {TOKEN : Type}

/-- `st_mtime` and `st_size`. -/
structure Stat where
  mtime : ℕ
  size : ℕ
deriving DecidableEq

/-- Where a call of `ARTinstorebytoken` is: before the `fopen` of `tombstone_read`, at a
line of the file, before `SMretrieve`, or back with its answer. -/
inductive Call (TOKEN : Type) where
  | idle
  | opening (token : TOKEN) (sb : Stat)
  | reading (token : TOKEN) (sb : Stat) (fd pos : ℕ)
  | retrieving (token : TOKEN)
  | answered (token : TOKEN) (answer : Bool)
deriving DecidableEq

/-- `nnrpd_tombstone`, and `nnrpd_tombstone_mtime` with `nnrpd_tombstone_size`. -/
structure Nnrpd (TOKEN : Type) where
  tombstone : Option (List TOKEN)
  key : Stat
  call : Call TOKEN

/-- What no program looks at: the file and its lines at the last `stat`, the file that
`key` was taken from, and whether the tombstone was read to the end. -/
structure Ghost (TOKEN : Type) where
  fd : ℕ
  seen : List (Line TOKEN)
  keyFd : Option ℕ
  whole : Bool

/-- The disk with the times of its files, the clock, the articles that `SMretrieve`
finds, those that have been cancelled, and nnrpd. -/
structure World (TOKEN : Type) where
  disk : Disk TOKEN
  mtime : ℕ → ℕ
  now : ℕ
  spool : List TOKEN
  cancelled : List TOKEN
  nnrpd : Nnrpd TOKEN
  ghost : Ghost TOKEN

/-- The parameters of `ARTinstorebytoken`; `selfexpire` is `SMprobe(SELFEXPIRE, ..)`. -/
structure Config (TOKEN : Type) where
  expiretombstone : Bool
  nnrpdcheckart : Bool
  selfexpire : TOKEN → Bool

/-- Whether the fast path is tried. -/
def Config.fast (cfg : Config TOKEN) (token : TOKEN) : Bool :=
  cfg.expiretombstone && cfg.nnrpdcheckart && !cfg.selfexpire token

/-- What may happen. A cancel is recorded by an `append` at any later time, to
any file that its process may have opened. -/
inductive WorldEvent (TOKEN : Type) where
  | tick (now : ℕ)
  | store (token : TOKEN)
  | cancel (token : TOKEN)
  | remove (token : TOKEN)
  | creat
  | rename
  | unlink (n : Name)
  | append (fd : ℕ) (token : TOKEN)
  | header (fd : ℕ)
  | call (token : TOKEN)
  | open (denied : Bool)
  | read
  | fail
  | retrieve

/-- The steps of nnrpd. -/
def WorldEvent.ofNnrpd : WorldEvent TOKEN → Bool
  | .call _ | .open _ | .read | .fail | .retrieve => true
  | _ => false

/-- The bytes of some lines. -/
def bytes (size : Line TOKEN → ℕ+) (lines : List (Line TOKEN)) : ℕ :=
  (lines.map fun line => (size line : ℕ)).sum

section Step

variable [DecidableEq TOKEN]

namespace World

/-- A write to a file, at the present time. -/
def write (w : World TOKEN) (fd : ℕ) (disk : Disk TOKEN) : World TOKEN :=
  { w with disk := disk, mtime := update w.mtime fd w.now }

/-- nnrpd goes on. -/
def goto (w : World TOKEN) (call : Call TOKEN) : World TOKEN :=
  { w with nnrpd := { w.nnrpd with call := call } }

/-- The refresh has returned true: `!tombstone_present(nnrpd_tombstone, &token)`. -/
def present (w : World TOKEN) (token : TOKEN) : World TOKEN :=
  w.goto (.answered token !((w.nnrpd.tombstone.getD []).contains token))

/-- `nnrpd_tombstone_refresh` up to the `fopen`. -/
def statTombstone (size : Line TOKEN → ℕ+) (w : World TOKEN) (token : TOKEN) : World TOKEN :=
  match w.disk.ino .cancels with
  | none => { w with
      nnrpd := ⟨none, ⟨0, 0⟩, .retrieving token⟩
      ghost := { w.ghost with seen := [], keyFd := none, whole := false } }
  | some fd =>
    let sb : Stat := ⟨w.mtime fd, bytes size (w.disk.lines fd)⟩
    let w := { w with ghost := { w.ghost with fd := fd, seen := w.disk.lines fd } }
    if w.nnrpd.tombstone.isSome ∧ sb = w.nnrpd.key then w.present token
    else { w with
      nnrpd := { w.nnrpd with tombstone := some [], call := .opening token sb }
      ghost := { w.ghost with whole := false } }

/-- The read has been done without an error. -/
def loaded (w : World TOKEN) (token : TOKEN) (sb : Stat) (whole : Bool) : World TOKEN :=
  { w with
    nnrpd := { w.nnrpd with key := sb }
    ghost := { w.ghost with keyFd := some w.ghost.fd, whole := whole } }.present token

/-- `fopen` in `tombstone_read`; that there is no file is no error. -/
def fopen (w : World TOKEN) (denied : Bool) : Option (World TOKEN) :=
  match w.nnrpd.call with
  | .opening token sb =>
    if denied then some (w.present token)
    else
      match w.disk.ino .cancels with
      | none => some (w.loaded token sb false)
      | some fd => some (w.goto (.reading token sb fd 0))
  | _ => none

/-- A line of `tombstone_read`, or the end of the file. -/
def fgets (w : World TOKEN) : Option (World TOKEN) :=
  match w.nnrpd.call with
  | .reading token sb fd pos =>
    match (w.disk.lines fd)[pos]? with
    | some line => some { w with nnrpd := { w.nnrpd with
        tombstone := w.nnrpd.tombstone.map fun h => insertLine h line
        call := .reading token sb fd (pos + 1) } }
    | none => some (w.loaded token sb true)
  | _ => none

/-- `ferror`. -/
def ferror (w : World TOKEN) : Option (World TOKEN) :=
  match w.nnrpd.call with
  | .reading token _ _ _ => some (w.present token)
  | _ => none

/-- `SMretrieve(token, RETR_STAT)`. -/
def retrieve (w : World TOKEN) : Option (World TOKEN) :=
  match w.nnrpd.call with
  | .retrieving token => some (w.goto (.answered token (w.spool.contains token)))
  | _ => none

/-- `ARTinstorebytoken` up to its first wait. -/
def instore (cfg : Config TOKEN) (size : Line TOKEN → ℕ+) (w : World TOKEN) (token : TOKEN) :
    Option (World TOKEN) :=
  match w.nnrpd.call with
  | .idle | .answered _ _ =>
    some (if cfg.fast token then w.statTombstone size token else w.goto (.retrieving token))
  | _ => none

/-- One event. -/
def step (cfg : Config TOKEN) (size : Line TOKEN → ℕ+) (w : World TOKEN) :
    WorldEvent TOKEN → Option (World TOKEN)
  | .tick now => some { w with now := now }
  | .store token => some { w with spool := token :: w.spool }
  | .cancel token => some { w with
      spool := w.spool.filter (· ≠ token), cancelled := token :: w.cancelled }
  | .remove token => some { w with spool := w.spool.filter (· ≠ token) }
  | .creat =>
    match w.disk.ino .cancels with
    | none => some (w.write w.disk.next (w.disk.creat .cancels))
    | some _ => none
  | .rename => some { w with disk := w.disk.rename }
  | .unlink n => some { w with disk := w.disk.unlink n }
  | .append fd token =>
    if fd < w.disk.next ∧ token ∈ w.cancelled then
      some (w.write fd (w.disk.append fd (.token token)))
    else none
  | .header fd =>
    if fd < w.disk.next then
      some (if (w.disk.lines fd).head? = some .header then w
        else w.write fd (w.disk.ensureHeader fd))
    else none
  | .call token => w.instore cfg size token
  | .open denied => w.fopen denied
  | .read => w.fgets
  | .fail => w.ferror
  | .retrieve => w.retrieve

/-- A step of the world. -/
def Next (cfg : Config TOKEN) (size : Line TOKEN → ℕ+) (w : World TOKEN) (event : WorldEvent TOKEN)
    (w' : World TOKEN) : Prop :=
  w.step cfg size event = some w'

/-- What the programs rely on: the token of a cancelled article is not given to a new one;
a file with the time and size of the one that was read is that one; and the file that
`stat` has seen is the one that `fopen` opens. -/
def Regular (cfg : Config TOKEN) (size : Line TOKEN → ℕ+) (w : World TOKEN) : WorldEvent TOKEN → Prop
  | .store token => token ∉ w.cancelled
  | .call token => cfg.fast token = true → ∀ fd ∈ w.disk.ino .cancels,
      w.nnrpd.tombstone.isSome = true → w.nnrpd.key = ⟨w.mtime fd, bytes size (w.disk.lines fd)⟩ →
      w.ghost.keyFd = some fd
  | .open denied => denied = false → w.disk.ino .cancels = some w.ghost.fd
  | _ => True

end World

end Step

/-! ## What happens to a file -/

variable {size : Line TOKEN → ℕ+} {cfg : Config TOKEN}

theorem bytes_append (lines more : List (Line TOKEN)) :
    bytes size (lines ++ more) = bytes size lines + bytes size more := by
  unfold bytes
  rw [List.map_append, List.sum_append]

theorem bytes_cons_pos (line : Line TOKEN) (lines : List (Line TOKEN)) :
    bytes size lines < bytes size (line :: lines) := by
  have hpos := (size line).pos
  unfold bytes
  rw [List.map_cons, List.sum_cons]
  omega

/-- The lines of a file may get more, at the end or a header in front. -/
structure Longer (size : Line TOKEN → ℕ+) (lines lines' : List (Line TOKEN)) : Prop where
  bytes_lt : bytes size lines < bytes size lines'
  subset : ∀ line ∈ lines, line ∈ lines'
  length_le : lines.length ≤ lines'.length
  take : ∀ pos ≤ lines.length, ∀ t, .token t ∈ lines'.take pos → .token t ∈ lines.take pos

theorem longer_append (lines : List (Line TOKEN)) (line : Line TOKEN) :
    Longer size lines (lines ++ [line]) where
  bytes_lt := by
    have hpos := @bytes_cons_pos _ size line []
    have hnil : bytes size ([] : List (Line TOKEN)) = 0 := rfl
    rw [bytes_append]
    omega
  subset := fun _ h => List.mem_append_left _ h
  length_le := by
    rw [List.length_append]
    omega
  take := by
    intro pos hpos t ht
    rwa [List.take_append_of_le_length hpos] at ht

theorem longer_header (lines : List (Line TOKEN)) : Longer size lines (.header :: lines) where
  bytes_lt := bytes_cons_pos _ _
  subset := fun _ h => List.mem_cons_of_mem _ h
  length_le := Nat.le_succ _
  take := by
    intro pos hpos t ht
    cases pos with
    | zero => exact ht
    | succ pos =>
      rw [List.take_succ_cons, List.mem_cons] at ht
      rcases ht with hheader | ht
      · cases hheader
      · exact (List.take_subset_take_left lines (Nat.le_succ pos)) ht

/-- What the programs beside nnrpd do to the files. -/
structure Moves (size : Line TOKEN → ℕ+) (w w' : World TOKEN) : Prop where
  nnrpd : w'.nnrpd = w.nnrpd
  ghost : w'.ghost = w.ghost
  next_le : w.disk.next ≤ w'.disk.next
  cancels : ∀ i, w'.disk.ino .cancels = some i → w.disk.ino .cancels = some i ∨ w.disk.next ≤ i
  lines : ∀ i < w.disk.next, w'.disk.lines i = w.disk.lines i ∧ w'.mtime i = w.mtime i ∨
    Longer size (w.disk.lines i) (w'.disk.lines i)
  held : ∀ i t, .token t ∈ w'.disk.lines i → .token t ∈ w.disk.lines i ∨ t ∈ w.cancelled
  cancelled : ∀ t ∈ w.cancelled, t ∈ w'.cancelled
  spool : ∀ t ∈ w'.cancelled, (t ∈ w.cancelled → t ∉ w.spool) → t ∉ w'.spool

variable {w w' : World TOKEN}

/-- Steps that leave the files as they are. -/
theorem moves_of_spool {spool cancelled : List TOKEN} {now : ℕ}
    (hcancelled : ∀ t ∈ w.cancelled, t ∈ cancelled)
    (hspool : ∀ t ∈ cancelled, (t ∈ w.cancelled → t ∉ w.spool) → t ∉ spool) :
    Moves size w { w with now := now, spool := spool, cancelled := cancelled } where
  nnrpd := rfl
  ghost := rfl
  next_le := le_rfl
  cancels := fun _ h => .inl h
  lines := fun _ _ => .inl ⟨rfl, rfl⟩
  held := fun _ _ h => .inl h
  cancelled := hcancelled
  spool := hspool

/-- Steps that only change what a name stands for. -/
theorem moves_of_names {disk : Disk TOKEN} (hnext : disk.next = w.disk.next)
    (hlines : disk.lines = w.disk.lines)
    (hcancels : ∀ i, disk.ino .cancels = some i → w.disk.ino .cancels = some i) :
    Moves size w { w with disk := disk } where
  nnrpd := rfl
  ghost := rfl
  next_le := hnext.ge
  cancels := fun i h => .inl (hcancels i h)
  lines := fun _ _ => .inl ⟨by rw [hlines], rfl⟩
  held := fun _ _ h => .inl (by rwa [hlines] at h)
  cancelled := fun _ h => h
  spool := fun t ht h => h ht

/-- A write that makes a file longer. -/
theorem moves_of_write {fd : ℕ} {lines : List (Line TOKEN)} (hlonger : Longer size (w.disk.lines fd) lines)
    (hheld : ∀ t, .token t ∈ lines → .token t ∈ w.disk.lines fd ∨ t ∈ w.cancelled) :
    Moves size w (w.write fd { w.disk with lines := update w.disk.lines fd lines }) where
  nnrpd := rfl
  ghost := rfl
  next_le := le_rfl
  cancels := fun _ h => .inl h
  lines := by
    intro i _
    rcases eq_or_ne i fd with rfl | hne
    · right
      change Longer size _ (update w.disk.lines i lines i)
      rw [update_self]
      exact hlonger
    · left
      exact ⟨update_of_ne hne _ _, update_of_ne hne _ _⟩
  held := by
    intro i t ht
    change .token t ∈ update w.disk.lines fd lines i at ht
    rcases eq_or_ne i fd with rfl | hne
    · rw [update_self] at ht
      exact hheld t ht
    · rw [update_of_ne hne] at ht
      exact .inl ht
  cancelled := fun _ h => h
  spool := fun t ht h => h ht

theorem moves_creat : Moves size w (w.write w.disk.next (w.disk.creat .cancels)) where
  nnrpd := rfl
  ghost := rfl
  next_le := Nat.le_succ _
  cancels := by
    intro i hi
    change update w.disk.ino .cancels (some w.disk.next) .cancels = some i at hi
    rw [update_self] at hi
    exact .inr (Option.some.inj hi).le
  lines := fun i hi => .inl ⟨update_of_ne hi.ne _ _, update_of_ne hi.ne _ _⟩
  held := by
    intro i t ht
    change .token t ∈ update w.disk.lines w.disk.next [] i at ht
    rcases eq_or_ne i w.disk.next with rfl | hne
    · rw [update_self] at ht
      cases ht
    · rw [update_of_ne hne] at ht
      exact .inl ht
  cancelled := fun _ h => h
  spool := fun t ht h => h ht

/-- What happens beside nnrpd. -/
theorem World.Next.moves [DecidableEq TOKEN] {event : WorldEvent TOKEN} (hevent : event.ofNnrpd = false)
    (h : World.Next cfg size w event w') (hregular : World.Regular cfg size w event) :
    Moves size w w' := by
  unfold World.Next World.step at h
  cases event with
  | tick now =>
    cases h
    exact moves_of_spool (fun _ ht => ht) fun t ht h => h ht
  | store token =>
    cases h
    refine moves_of_spool (fun _ ht => ht) fun t ht h => ?_
    rw [List.mem_cons]
    rintro (rfl | hmem)
    · exact hregular ht
    · exact h ht hmem
  | cancel token =>
    cases h
    refine moves_of_spool (fun _ ht => List.mem_cons_of_mem _ ht) fun t ht h hmem => ?_
    obtain ⟨hspool, hne⟩ := List.mem_filter.mp hmem
    rcases List.mem_cons.mp ht with rfl | ht
    · exact of_decide_eq_true hne rfl
    · exact h ht hspool
  | remove token =>
    cases h
    exact moves_of_spool (fun _ ht => ht) fun t ht h hmem => h ht (List.mem_filter.mp hmem).1
  | creat =>
    simp only at h
    split at h
    · cases h
      exact moves_creat
    · cases h
  | rename =>
    cases h
    refine moves_of_names rfl rfl fun i hi => ?_
    cases hi
  | unlink n =>
    cases h
    refine moves_of_names rfl rfl fun i hi => ?_
    cases n with
    | cancels => cases hi
    | processing => exact hi
    | expireover => exact hi
  | append fd token =>
    simp only at h
    split at h
    · next hok =>
      cases h
      refine moves_of_write (longer_append _ _) fun t ht => ?_
      rcases List.mem_append.mp ht with ht | ht
      · exact .inl ht
      · cases List.mem_singleton.mp ht
        exact .inr hok.2
    · cases h
  | header fd =>
    simp only at h
    split at h
    · split at h
      · cases h
        exact moves_of_names rfl rfl fun _ hi => hi
      · next hhead =>
        cases h
        have hensure : w.disk.ensureHeader fd =
            { w.disk with lines := update w.disk.lines fd (.header :: w.disk.lines fd) } := by
          unfold Disk.ensureHeader
          cases hl : w.disk.lines fd with
          | nil => rfl
          | cons line lines =>
            cases line with
            | header =>
              rw [hl] at hhead
              exact absurd rfl hhead
            | ignored => rfl
            | token t => rfl
        rw [hensure]
        refine moves_of_write (longer_header _) fun t ht => ?_
        rcases List.mem_cons.mp ht with ht | ht
        · cases ht
        · exact .inl ht
    · cases h
  | call token => cases hevent
  | «open» denied => cases hevent
  | read => cases hevent
  | fail => cases hevent
  | retrieve => cases hevent

/-! ## The invariant -/

/-- A file since a `stat`: later files have greater numbers, and as long as it has not
become longer it has not been written to. -/
structure Since (size : Line TOKEN → ℕ+) (w : World TOKEN) (fd : ℕ) (sb : Stat) : Prop where
  lt_next : fd < w.disk.next
  le_cancels : ∀ i, w.disk.ino .cancels = some i → fd ≤ i
  size_le : sb.size ≤ bytes size (w.disk.lines fd)
  mtime : bytes size (w.disk.lines fd) = sb.size → w.mtime fd = sb.mtime

theorem Since.of_eq {fd : ℕ} {sb : Stat} (h : Since size w fd sb) (hdisk : w'.disk = w.disk)
    (hmtime : w'.mtime = w.mtime) : Since size w' fd sb := by
  obtain ⟨h₁, h₂, h₃, h₄⟩ := h
  rw [← hdisk] at h₁ h₂ h₃ h₄
  rw [← hmtime] at h₄
  exact ⟨h₁, h₂, h₃, h₄⟩

/-- The file that a call is reading holds what `stat` has seen, and the tombstone the lines
read so far. -/
def InCall (size : Line TOKEN → ℕ+) (w : World TOKEN) : Prop :=
  match w.nnrpd.call with
  | .opening _ sb => w.ghost.whole = false ∧ w.nnrpd.tombstone = some [] ∧
      Since size w w.ghost.fd sb ∧ ∀ line ∈ w.ghost.seen, line ∈ w.disk.lines w.ghost.fd
  | .reading _ sb fd pos => w.ghost.whole = false ∧ fd = w.ghost.fd ∧ Since size w fd sb ∧
      (∀ line ∈ w.ghost.seen, line ∈ w.disk.lines fd) ∧ pos ≤ (w.disk.lines fd).length ∧
      ∃ h, w.nnrpd.tombstone = some h ∧ ∀ t, .token t ∈ (w.disk.lines fd).take pos → t ∈ h
  | _ => True

/-- What holds of the tombstone at any time. -/
structure Cached (size : Line TOKEN → ℕ+) (w : World TOKEN) : Prop where
  gone : ∀ t ∈ w.cancelled, t ∉ w.spool
  held : ∀ i t, .token t ∈ w.disk.lines i → t ∈ w.cancelled
  seen : ∀ t, .token t ∈ w.ghost.seen → t ∈ w.cancelled
  set : ∀ h, w.nnrpd.tombstone = some h → ∀ t ∈ h, t ∈ w.cancelled
  unset : w.nnrpd.tombstone = none → w.ghost.keyFd = none
  key : ∀ fd, w.ghost.keyFd = some fd → Since size w fd w.nnrpd.key
  whole : w.ghost.whole = true → ∀ h, w.nnrpd.tombstone = some h →
    (∀ t, .token t ∈ w.ghost.seen → t ∈ h) ∧ ∀ fd, w.ghost.keyFd = some fd →
      bytes size (w.disk.lines fd) = w.nnrpd.key.size → ∀ t, .token t ∈ w.disk.lines fd → t ∈ h
  part : w.ghost.whole = false → w.nnrpd.tombstone.isSome = true → ∀ fd, w.ghost.keyFd = some fd →
    w.nnrpd.key.size < bytes size (w.disk.lines fd) ∨ ∀ i, w.disk.ino .cancels = some i → fd < i

/-- What holds of the world at any time. -/
structure Agrees (size : Line TOKEN → ℕ+) (w : World TOKEN) : Prop extends Cached size w where
  inCall : InCall size w

theorem Moves.bytes_le (h : Moves size w w') {fd : ℕ} (hfd : fd < w.disk.next) :
    bytes size (w.disk.lines fd) ≤ bytes size (w'.disk.lines fd) := by
  rcases h.lines fd hfd with ⟨hlines, -⟩ | hlonger
  · rw [hlines]
  · exact hlonger.bytes_lt.le

theorem Moves.mem (h : Moves size w w') {fd : ℕ} (hfd : fd < w.disk.next) {line : Line TOKEN}
    (hline : line ∈ w.disk.lines fd) : line ∈ w'.disk.lines fd := by
  rcases h.lines fd hfd with ⟨hlines, -⟩ | hlonger
  · rwa [hlines]
  · exact hlonger.subset line hline

theorem Moves.since (h : Moves size w w') {fd : ℕ} {sb : Stat} (hs : Since size w fd sb) :
    Since size w' fd sb where
  lt_next := hs.lt_next.trans_le h.next_le
  le_cancels := by
    intro i hi
    rcases h.cancels i hi with hi | hi
    · exact hs.le_cancels i hi
    · exact hs.lt_next.le.trans hi
  size_le := hs.size_le.trans (h.bytes_le hs.lt_next)
  mtime := by
    intro heq
    have hle := hs.size_le
    rcases h.lines fd hs.lt_next with ⟨hlines, hmtime⟩ | hlonger
    · rw [hlines] at heq
      rw [hmtime]
      exact hs.mtime heq
    · have := hlonger.bytes_lt
      omega

/-- A file that is as long as it was has the lines it had. -/
theorem Moves.lines_eq (h : Moves size w w') {fd n : ℕ} (hfd : fd < w.disk.next)
    (hle : n ≤ bytes size (w.disk.lines fd)) (heq : bytes size (w'.disk.lines fd) = n) :
    w'.disk.lines fd = w.disk.lines fd := by
  rcases h.lines fd hfd with ⟨hlines, -⟩ | hlonger
  · exact hlines
  · have := hlonger.bytes_lt
    omega

theorem Moves.inCall (h : Moves size w w') (hc : InCall size w) : InCall size w' := by
  unfold InCall at hc ⊢
  rw [h.nnrpd, h.ghost]
  cases hcall : w.nnrpd.call with
  | idle => trivial
  | retrieving t => trivial
  | answered t r => trivial
  | opening t sb =>
    rw [hcall] at hc
    obtain ⟨hwhole, hset, hsince, hseen⟩ := hc
    exact ⟨hwhole, hset, h.since hsince, fun line hl => h.mem hsince.lt_next (hseen line hl)⟩
  | reading t sb fd pos =>
    rw [hcall] at hc
    obtain ⟨hwhole, hfd, hsince, hseen, hpos, set, hset, htake⟩ := hc
    refine ⟨hwhole, hfd, h.since hsince, fun line hl => h.mem hsince.lt_next (hseen line hl), ?_, set,
      hset, fun t ht => htake t ?_⟩
    · rcases h.lines fd hsince.lt_next with ⟨hlines, -⟩ | hlonger
      · rwa [hlines]
      · exact hpos.trans hlonger.length_le
    · rcases h.lines fd hsince.lt_next with ⟨hlines, -⟩ | hlonger
      · rwa [hlines] at ht
      · exact hlonger.take pos hpos t ht

/-- What happens beside nnrpd keeps the invariant. -/
theorem Agrees.moves (hw : Agrees size w) (h : Moves size w w') : Agrees size w' where
  gone := fun t ht => h.spool t ht (hw.gone t)
  held := by
    intro i t ht
    rcases h.held i t ht with ht | ht
    · exact h.cancelled t (hw.held i t ht)
    · exact h.cancelled t ht
  seen := by
    rw [h.ghost]
    exact fun t ht => h.cancelled t (hw.seen t ht)
  set := by
    rw [h.nnrpd]
    exact fun set hset t ht => h.cancelled t (hw.set set hset t ht)
  unset := by
    rw [h.nnrpd, h.ghost]
    exact hw.unset
  key := by
    rw [h.nnrpd, h.ghost]
    exact fun fd hfd => h.since (hw.key fd hfd)
  whole := by
    rw [h.nnrpd, h.ghost]
    intro hwhole set hset
    obtain ⟨hseen, hkey⟩ := hw.whole hwhole set hset
    refine ⟨hseen, fun fd hfd heq => ?_⟩
    have hsince := hw.key fd hfd
    have hlines := h.lines_eq hsince.lt_next hsince.size_le heq
    rw [hlines] at heq ⊢
    exact hkey fd hfd heq
  part := by
    rw [h.nnrpd, h.ghost]
    intro hwhole hset fd hfd
    have hlt := (hw.key fd hfd).lt_next
    rcases hw.part hwhole hset fd hfd with hsize | hnew
    · exact .inl (hsize.trans_le (h.bytes_le hlt))
    · right
      intro i hi
      rcases h.cancels i hi with hi | hi
      · exact hnew i hi
      · exact hlt.trans_le hi
  inCall := h.inCall hw.inCall

/-! ## The steps of nnrpd -/

/-- The tombstone is there, but its last reading failed. -/
def World.Partial (w : World TOKEN) : Prop :=
  w.nnrpd.tombstone.isSome = true ∧ w.ghost.whole = false

/-- An answer agrees with the spool, and with what the file held at the last `stat` as far as
the tombstone has all of it. -/
def Answers (w : World TOKEN) : Prop :=
  ∀ t r, w.nnrpd.call = .answered t r → (r = false → t ∉ w.spool) ∧
    (r = true → w.Partial ∨ .token t ∉ w.ghost.seen)

/-- A call that goes on without a change to the tombstone. -/
theorem Cached.goto (hw : Cached size w) (call : Call TOKEN) : Cached size (w.goto call) :=
  { hw with key := fun fd hfd => (hw.key fd hfd).of_eq rfl rfl }

section Steps

variable [DecidableEq TOKEN]

theorem Cached.present (hw : Cached size w) (hset : w.nnrpd.tombstone.isSome = true) (token : TOKEN) :
    Agrees size (w.present token) ∧ Answers (w.present token) := by
  refine ⟨⟨hw.goto _, trivial⟩, ?_⟩
  obtain ⟨h, hh⟩ := Option.isSome_iff_exists.mp hset
  rintro t r hanswer
  cases hanswer
  rw [hh, Option.getD_some]
  refine ⟨fun hfound => ?_, fun hmissing => ?_⟩
  · rw [Bool.not_eq_false', List.contains_iff_mem] at hfound
    exact hw.gone _ (hw.set h hh _ hfound)
  · rw [Bool.not_eq_true', ← Bool.not_eq_true, List.contains_iff_mem] at hmissing
    cases hwhole : w.ghost.whole with
    | false => exact .inl ⟨hset, hwhole⟩
    | true => exact .inr fun hseen => hmissing ((hw.whole hwhole h hh).1 _ hseen)

/-- `stat`: the cached tombstone serves only if it was read to the end from this file. -/
theorem Cached.statTombstone (hw : Cached size w) {token : TOKEN}
    (hregular : ∀ fd, w.disk.ino .cancels = some fd → w.nnrpd.tombstone.isSome = true →
      w.nnrpd.key = ⟨w.mtime fd, bytes size (w.disk.lines fd)⟩ → w.ghost.keyFd = some fd) :
    Agrees size (w.statTombstone size token) ∧ Answers (w.statTombstone size token) ∧
      (w.Partial → ∀ fd, w.disk.ino .cancels = some fd →
        ∃ sb, (w.statTombstone size token).nnrpd.call = .opening token sb) := by
  unfold World.statTombstone
  cases hfd : w.disk.ino .cancels with
  | none =>
    refine ⟨⟨{ hw with
      seen := fun t ht => absurd ht List.not_mem_nil
      set := by
        intro h hh
        cases hh
      unset := fun _ => rfl
      key := by
        intro fd hfd
        cases hfd
      whole := by
        intro hwhole
        cases hwhole
      part := by
        intro _ hset
        cases hset }, trivial⟩, ?_, ?_⟩
    · intro t r hanswer
      cases hanswer
    · intro _ fd hfd
      cases hfd
  | some fd =>
    have hsince : Since size w fd ⟨w.mtime fd, bytes size (w.disk.lines fd)⟩ :=
      ⟨w.disk.used _ fd hfd, fun i hi => by rw [hfd] at hi; exact (Option.some.inj hi).le, le_rfl,
        fun _ => rfl⟩
    simp only
    split
    · next hfresh =>
      have hkeyFd := hregular fd hfd hfresh.1 hfresh.2.symm
      have hwhole : w.ghost.whole = true := by
        by_contra hpart
        rw [Bool.not_eq_true] at hpart
        rcases hw.part hpart hfresh.1 fd hkeyFd with hsize | hnew
        · rw [← hfresh.2] at hsize
          exact lt_irrefl _ hsize
        · exact lt_irrefl fd (hnew fd hfd)
      have hw' : Cached size
          { w with ghost := { w.ghost with fd := fd, seen := w.disk.lines fd } } :=
        { hw with
          seen := hw.held fd
          key := fun fd' hfd' => (hw.key fd' hfd').of_eq rfl rfl
          whole := by
            intro _ h hh
            obtain ⟨-, hkey⟩ := hw.whole hwhole h hh
            refine ⟨hkey fd hkeyFd ?_, hkey⟩
            rw [← hfresh.2] }
      obtain ⟨hagrees, hanswers⟩ := hw'.present hfresh.1 token
      refine ⟨hagrees, hanswers, fun hpart => ?_⟩
      have hnot : w.ghost.whole = false := hpart.2
      rw [hwhole] at hnot
      cases hnot
    · next hstale =>
      refine ⟨⟨{ hw with
        seen := hw.held fd
        set := by
          intro h hh
          cases hh
          exact fun t ht => absurd ht List.not_mem_nil
        unset := by
          intro hnone
          cases hnone
        key := fun fd' hfd' => (hw.key fd' hfd').of_eq rfl rfl
        whole := by
          intro hwhole
          cases hwhole
        part := ?_ }, rfl, rfl, hsince.of_eq rfl rfl, fun _ hl => hl⟩, ?_, ?_⟩
      · -- the file from which the key is has become longer, or has been replaced
        intro _ _ fd' hfd'
        have hkey := hw.key fd' hfd'
        rcases eq_or_ne fd' fd with rfl | hne
        · left
          refine lt_of_le_of_ne hkey.size_le fun heq => hstale ⟨?_, ?_⟩
          · by_contra hset
            rw [Bool.not_eq_true, Option.isSome_eq_false_iff, Option.isNone_iff_eq_none] at hset
            have hnone : w.ghost.keyFd = none := hw.unset hset
            have hsome : w.ghost.keyFd = some fd' := hfd'
            rw [hnone] at hsome
            cases hsome
          · rw [hkey.mtime heq.symm, ← heq]
        · right
          intro i hi
          have hi' : w.disk.ino .cancels = some i := hi
          rw [hfd] at hi'
          cases hi'
          exact lt_of_le_of_ne (hkey.le_cancels fd hfd) hne
      · intro t r hanswer
        cases hanswer
      · intro _ _ _
        exact ⟨_, rfl⟩

/-- The end of a read without an error. -/
theorem Cached.loaded (hw : Cached size w) {token : TOKEN} {sb : Stat} {h : List TOKEN}
    (hsince : Since size w w.ghost.fd sb) (hset : w.nnrpd.tombstone = some h)
    (hseen : ∀ line ∈ w.ghost.seen, line ∈ w.disk.lines w.ghost.fd)
    (hall : ∀ t, .token t ∈ w.disk.lines w.ghost.fd → t ∈ h) :
    Agrees size (w.loaded token sb true) ∧ Answers (w.loaded token sb true) := by
  have hw' : Cached size { w with
      nnrpd := { w.nnrpd with key := sb }
      ghost := { w.ghost with keyFd := some w.ghost.fd, whole := true } } :=
    { hw with
      unset := by
        intro hnone
        change w.nnrpd.tombstone = none at hnone
        rw [hset] at hnone
        cases hnone
      key := by
        intro fd hfd
        cases hfd
        exact hsince.of_eq rfl rfl
      whole := by
        intro _ h' hh'
        change w.nnrpd.tombstone = some h' at hh'
        rw [hset] at hh'
        cases hh'
        refine ⟨fun t ht => hall t (hseen _ ht), fun fd hfd _ => ?_⟩
        cases hfd
        exact hall
      part := by
        intro hpart
        cases hpart }
  exact hw'.present (by change w.nnrpd.tombstone.isSome = true; rw [hset]; rfl) token

theorem Agrees.fopen (hw : Agrees size w) {denied : Bool} (h : w.fopen denied = some w')
    (hregular : denied = false → w.disk.ino .cancels = some w.ghost.fd) :
    Agrees size w' ∧ Answers w' := by
  have hcall := hw.inCall
  unfold World.fopen at h
  unfold InCall at hcall
  split at h
  · next token sb hopening =>
    rw [hopening] at hcall
    obtain ⟨hwhole, hset, hsince, hseen⟩ := hcall
    split at h
    · cases h
      exact hw.toCached.present (by rw [hset]; rfl) token
    · next hok =>
      rw [hregular (Bool.not_eq_true _ ▸ hok)] at h
      cases h
      refine ⟨⟨hw.toCached.goto _, hwhole, rfl, hsince.of_eq rfl rfl, hseen, Nat.zero_le _, [], hset,
        fun t ht => absurd ht List.not_mem_nil⟩, ?_⟩
      intro t r hanswer
      cases hanswer
  · cases h

theorem Agrees.fgets (hw : Agrees size w) (h : w.fgets = some w') : Agrees size w' ∧ Answers w' := by
  have hcall := hw.inCall
  unfold World.fgets at h
  unfold InCall at hcall
  split at h
  · next token sb fd pos hreading =>
    rw [hreading] at hcall
    obtain ⟨hwhole, rfl, hsince, hseen, hpos, set, hset, htake⟩ := hcall
    split at h
    · next line hline =>
      cases h
      obtain ⟨hlt, hget⟩ := List.getElem?_eq_some_iff.mp hline
      have hline' : line ∈ w.disk.lines w.ghost.fd := hget ▸ List.getElem_mem hlt
      have hset' : w.nnrpd.tombstone.map (fun h => insertLine h line) = some (insertLine set line) := by
        rw [hset]
        rfl
      refine ⟨⟨{ hw.toCached with
        set := ?_
        unset := ?_
        key := fun fd hfd => (hw.key fd hfd).of_eq rfl rfl
        whole := ?_
        part := fun hpart _ => hw.part hpart (by rw [hset]; rfl) }, ?_⟩, ?_⟩
      · intro h hh t ht
        have hh' := hset'.symm.trans hh
        cases hh'
        rcases mem_insertLine.mp ht with ht | rfl
        · exact hw.set set hset t ht
        · exact hw.held _ t hline'
      · intro hnone
        have hnone' := hset'.symm.trans hnone
        cases hnone'
      · intro hpart
        change w.ghost.whole = true at hpart
        rw [hwhole] at hpart
        cases hpart
      · refine ⟨hwhole, rfl, hsince.of_eq rfl rfl, hseen, hlt, insertLine set line, hset', ?_⟩
        intro t ht
        change .token t ∈ (w.disk.lines w.ghost.fd).take (pos + 1) at ht
        rw [List.take_add_one, hline, List.mem_append] at ht
        refine mem_insertLine.mpr ?_
        rcases ht with ht | ht
        · exact .inl (htake t ht)
        · exact .inr (Option.mem_toList.mp ht |> Option.some.inj)
      · intro t r hanswer
        cases hanswer
    · next hend =>
      cases h
      refine hw.toCached.loaded hsince hset hseen fun t ht => htake t ?_
      rwa [List.take_of_length_le (List.getElem?_eq_none_iff.mp hend)]
  · cases h

theorem Agrees.ferror (hw : Agrees size w) (h : w.ferror = some w') : Agrees size w' ∧ Answers w' := by
  have hcall := hw.inCall
  unfold World.ferror at h
  unfold InCall at hcall
  split at h
  · next token sb fd pos hreading =>
    rw [hreading] at hcall
    obtain ⟨-, -, -, -, -, set, hset, -⟩ := hcall
    cases h
    exact hw.toCached.present (by rw [hset]; rfl) token
  · cases h

theorem Agrees.retrieve (hw : Agrees size w) (h : w.retrieve = some w') :
    Agrees size w' ∧ Answers w' := by
  unfold World.retrieve at h
  split at h
  · next token _ =>
    cases h
    refine ⟨⟨hw.toCached.goto _, trivial⟩, ?_⟩
    rintro t r hanswer
    cases hanswer
    refine ⟨fun hmissing hmem => ?_, fun hfound => .inr fun hseen => ?_⟩
    · rw [← Bool.not_eq_true, List.contains_iff_mem] at hmissing
      exact hmissing hmem
    · rw [List.contains_iff_mem] at hfound
      exact hw.gone _ (hw.seen _ hseen) hfound
  · cases h

theorem Agrees.instore (hw : Agrees size w) {token : TOKEN} (h : w.instore cfg size token = some w')
    (hregular : World.Regular cfg size w (.call token)) :
    Agrees size w' ∧ Answers w' ∧ (w.Partial → cfg.fast token = true →
      ∀ fd, w.disk.ino .cancels = some fd → ∃ sb, w'.nnrpd.call = .opening token sb) := by
  have hcall : ∀ w'', (if cfg.fast token then w.statTombstone size token
      else w.goto (.retrieving token)) = w'' → Agrees size w'' ∧ Answers w'' ∧
      (w.Partial → cfg.fast token = true →
        ∀ fd, w.disk.ino .cancels = some fd → ∃ sb, w''.nnrpd.call = .opening token sb) := by
    rintro w'' rfl
    split
    · next hfast =>
      obtain ⟨hagrees, hanswers, hagain⟩ := hw.toCached.statTombstone (hregular hfast)
      exact ⟨hagrees, hanswers, fun hpart _ => hagain hpart⟩
    · next hslow =>
      refine ⟨⟨hw.toCached.goto _, trivial⟩, ?_, fun _ hfast => absurd hfast hslow⟩
      intro t r hanswer
      cases hanswer
  unfold World.instore at h
  split at h
  · exact hcall w' (Option.some.inj h)
  · exact hcall w' (Option.some.inj h)
  · cases h

/-- Every step keeps the invariant, and those of nnrpd give right answers. -/
theorem Agrees.step {event : WorldEvent TOKEN} (hw : Agrees size w)
    (hregular : World.Regular cfg size w event) (h : World.Next cfg size w event w') :
    Agrees size w' ∧ (event.ofNnrpd = true → Answers w') := by
  cases hevent : event.ofNnrpd with
  | false => exact ⟨hw.moves (h.moves hevent hregular), fun hno => Bool.noConfusion hno⟩
  | true =>
    have hstep : Agrees size w' ∧ Answers w' := by
      unfold World.Next World.step at h
      cases event with
      | call token =>
        obtain ⟨hagrees, hanswers, -⟩ := hw.instore h hregular
        exact ⟨hagrees, hanswers⟩
      | «open» denied => exact hw.fopen h hregular
      | read => exact hw.fgets h
      | fail => exact hw.ferror h
      | retrieve => exact hw.retrieve h
      | tick | store | cancel | remove | creat | rename | unlink | append | header => cases hevent
    exact ⟨hstep.1, fun _ => hstep.2⟩

end Steps

/-! ## Runs -/

/-- Before the first call: the files hold the tokens of cancelled articles, which are gone. -/
structure Started (w : World TOKEN) : Prop where
  tombstone : w.nnrpd.tombstone = none
  call : w.nnrpd.call = .idle
  ghost : w.ghost.seen = [] ∧ w.ghost.keyFd = none
  held : ∀ i t, .token t ∈ w.disk.lines i → t ∈ w.cancelled
  gone : ∀ t ∈ w.cancelled, t ∉ w.spool

theorem Started.agrees (h : Started w) : Agrees size w where
  gone := h.gone
  held := h.held
  seen := by
    rw [h.ghost.1]
    exact fun t ht => absurd ht List.not_mem_nil
  set := by
    rw [h.tombstone]
    intro set hset
    cases hset
  unset := fun _ => h.ghost.2
  key := by
    rw [h.ghost.2]
    intro fd hfd
    cases hfd
  whole := by
    rw [h.tombstone]
    intro _ set hset
    cases hset
  part := by
    rw [h.tombstone]
    intro _ hset
    cases hset
  inCall := by
    unfold InCall
    rw [h.call]
    trivial

/-- In every regular run the tombstone holds only tokens of articles that are gone; read to
the end, it holds all that the file held at the last `stat`; the answers agree with the
spool, and with the file unless a read has failed; and then the next call reads again. -/
theorem fast_path_agrees [DecidableEq TOKEN] {events : List (WorldEvent TOKEN)} {w₀ : World TOKEN} (hstart : Started w₀)
    (h : Steps (guarded (World.Regular cfg size) (World.Next cfg size)) w₀ events w) :
    (∀ set, w.nnrpd.tombstone = some set → (∀ t ∈ set, t ∉ w.spool) ∧
      (w.ghost.whole = true → ∀ t, .token t ∈ w.ghost.seen → t ∈ set)) ∧
    ∀ event w', World.Regular cfg size w event → World.Next cfg size w event w' →
      (event.ofNnrpd = true → Answers w') ∧
      ∀ t fd, event = .call t → w.Partial → cfg.fast t = true → w.disk.ino .cancels = some fd →
        ∃ sb, w'.nnrpd.call = .opening t sb := by
  have hw : Agrees size w := by
    refine @Steps.invariant _ _ _ (fun w => Agrees size w) _ _ _ ?_ h hstart.agrees
    rintro w event w' ⟨hregular, hnext⟩ hw
    exact (hw.step hregular hnext).1
  refine ⟨fun set hset => ⟨fun t ht => hw.gone t (hw.set set hset t ht),
    fun hwhole => (hw.whole hwhole set hset).1⟩, ?_⟩
  intro event w' hregular hnext
  refine ⟨(hw.step hregular hnext).2, ?_⟩
  rintro t fd rfl hpart hfast hfd
  exact (hw.instore hnext hregular).2.2 hpart hfast fd hfd

instance [DecidableEq TOKEN] {event : WorldEvent TOKEN} : Decidable (World.Regular cfg size w event) :=
  match event with
  | .store _ => inferInstanceAs (Decidable (_ ∉ _))
  | .call _ => inferInstanceAs (Decidable (_ → ∀ fd ∈ w.disk.ino .cancels, _ → _ → _))
  | .open _ => inferInstanceAs (Decidable (_ → _))
  | .tick _ | .cancel _ | .remove _ | .creat | .rename | .unlink _ | .append _ _ | .header _
  | .read | .fail | .retrieve => inferInstanceAs (Decidable True)

/-- Events in a row, as long as they are regular. -/
def World.run [DecidableEq TOKEN] (cfg : Config TOKEN) (size : Line TOKEN → ℕ+) (w : World TOKEN)
    (events : List (WorldEvent TOKEN)) : Option (World TOKEN) :=
  events.foldlM (fun w event => if World.Regular cfg size w event then w.step cfg size event
    else none) w

theorem World.steps_of_run [DecidableEq TOKEN] {events : List (WorldEvent TOKEN)} {p : World TOKEN → Bool}
    (h : (w.run cfg size events).any p = true) :
    ∃ w', Steps (guarded (World.Regular cfg size) (World.Next cfg size)) w events w' ∧
      p w' = true := by
  cases hrun : w.run cfg size events with
  | none =>
    rw [hrun] at h
    cases h
  | some w' =>
    rw [hrun] at h
    refine ⟨w', (Steps.of_foldlM hrun).mono fun w event w' hstep => ?_, h⟩
    split at hstep
    · next hregular => exact ⟨hregular, hstep⟩
    · cases hstep

/-- The bytes of lines whose tokens are TOKENs; a line without a token is blank. -/
def lineSize : Line ℕ → ℕ+
  | .header => 19
  | .ignored => 1
  | .token _ => 39

/-- Everything is on, and no method is self-expiring. -/
def allOn : Config ℕ := ⟨true, true, fun _ => false⟩

/-- Article 1 has been cancelled and recorded, article 2 is there. -/
def oneCancel : World ℕ where
  disk :=
    { ino := fun n => if n = .cancels then some 0 else none
      lines := fun i => if i = 0 then [.header, .token 1] else []
      next := 1
      used := by
        intro n i hi
        split at hi
        · cases hi
          exact Nat.zero_lt_one
        · cases hi }
  mtime := fun _ => 5
  now := 9
  spool := [2]
  cancelled := [1]
  nnrpd := ⟨none, ⟨0, 0⟩, .idle⟩
  ghost := ⟨0, [], none, false⟩

theorem started_oneCancel : Started oneCancel where
  tombstone := rfl
  call := rfl
  ghost := ⟨rfl, rfl⟩
  held := by
    intro i t ht
    change .token t ∈ (if i = 0 then [Line.header, .token 1] else []) at ht
    split at ht
    · rcases List.mem_pair.mp ht with ht | ht
      · cases ht
      · cases ht
        exact List.mem_singleton_self 1
    · cases ht
  gone := by decide

/-- A call loads the tombstone, and after another cancel a second one loads it again. -/
theorem fast_path_agrees_cancel : ∃ w,
    Steps (guarded (World.Regular allOn lineSize) (World.Next allOn lineSize)) oneCancel
      [.call 1, .open false, .read, .read, .read, .cancel 2, .append 0 2, .call 2, .open false,
        .read, .read, .read, .read] w ∧
    w.nnrpd.call = .answered 2 false ∧ w.nnrpd.tombstone = some [2, 1] ∧ 2 ∉ w.spool := by
  obtain ⟨w, hsteps, hw⟩ := World.steps_of_run
    (p := fun w => w.nnrpd.call = .answered 2 false ∧ w.nnrpd.tombstone = some [2, 1])
    (by decide : (oneCancel.run allOn lineSize [.call 1, .open false, .read, .read, .read,
      .cancel 2, .append 0 2, .call 2, .open false, .read, .read, .read, .read]).any _ = true)
  obtain ⟨hcall, hset⟩ := of_decide_eq_true hw
  have hgone := ((fast_path_agrees started_oneCancel hsteps).1 _ hset).1
  exact ⟨w, hsteps, hcall, hset, hgone 2 (by decide)⟩

/-- A read that fails leaves a tombstone that is used all the same: an article whose cancel
is recorded is said to be there. -/
theorem partial_read_answers : ∃ w,
    Steps (guarded (World.Regular allOn lineSize) (World.Next allOn lineSize)) oneCancel
      [.call 1, .open false, .fail] w ∧
    w.nnrpd.call = .answered 1 true ∧ w.disk.Holds .cancels 1 ∧ 1 ∉ w.spool := by
  obtain ⟨w, hsteps, hw⟩ := World.steps_of_run
    (p := fun w => w.nnrpd.call = .answered 1 true ∧ w.disk.Holds .cancels 1 ∧ 1 ∉ w.spool)
    (by decide : (oneCancel.run allOn lineSize [.call 1, .open false, .fail]).any _ = true)
  exact ⟨w, hsteps, of_decide_eq_true hw⟩

end Inn.Tombstone
