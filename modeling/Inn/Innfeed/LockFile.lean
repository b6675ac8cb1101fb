import Inn.Rules
import Mathlib.Algebra.Ring.Int.Defs
import Mathlib.Logic.Function.Basic
import Mathlib.Tactic.Cases

/-!
# Inn.Innfeed.LockFile — processes that take one lock file

`lockFile` writes its process number to a file of its own and links that to the name of the lock.
Where there is a lock already, it reads the number in it and, if no such process is alive, unlinks
the name and tries again.

* `System.turn` — the next system call of a process, and what it does after it;
* `Inv` — what holds between the steps of processes that are careful;
* `careful_processes_exclude` — then one process has the lock, and nobody takes it away;
* `two_processes_hold` — two processes that find the same stale lock.
-/

namespace Inn.Innfeed.LockFile

open Function (update update_self update_of_ne)

/-! ## The processes -/

/-- The next system call in `lockFile`; `i` is the file that the process made, and `j` the one that
it found under the name of the lock. -/
inductive Pc where
  | idle
  /-- `open(tmpName)`. -/
  | opening
  /-- `unlink(tmpName)`, which was there. -/
  | retry
  | writing (i : ℕ)
  | linking (i : ℕ)
  /-- `open(realName)`. -/
  | reopening (i : ℕ)
  | reading (i j : ℕ)
  /-- `kill(pid, 0)`. -/
  | testing (i j : ℕ) (pid : ℤ)
  /-- `unlink(realName)`. -/
  | breaking (i j : ℕ)
  /-- `unlink(tmpName)`, and then the end. -/
  | leaving (i : ℕ) (ok : Bool)
  /-- It has returned true. -/
  | holding (i : ℕ)
  /-- It has returned false. -/
  | failed (i : Option ℕ)
deriving DecidableEq, Repr

/-- The directory and the processes, which go by their numbers. Files have the number that is in
them; a file that `tmpName` or the lock names has a number below `next`. -/
structure System where
  real : Option ℕ
  tmp : ℕ → Option ℕ
  content : ℕ → Option ℤ
  next : ℕ
  alive : ℕ → Bool
  pc : ℕ → Pc

namespace System

/-- A process at another place. -/
def goto (s : System) (p : ℕ) (c : Pc) : System := { s with pc := update s.pc p c }

/-- The next system call of a process; `fails` says that it fails, where it can. With a lock, it
calls `unlockFile`; its own temporary file can always be unlinked. -/
def turn (s : System) (p : ℕ) (fails : Bool) : System :=
  match s.pc p with
  | .idle => s.goto p .opening
  | .failed _ => s.goto p .opening
  | .opening =>
    if fails then { s.goto p (.failed none) with tmp := update s.tmp p none }
    else if (s.tmp p).isSome then s.goto p .retry
    else
      { s.goto p (.writing s.next) with
        tmp := update s.tmp p (some s.next)
        content := update s.content s.next none
        next := s.next + 1 }
  | .retry =>
    if fails then s.goto p (.failed none)
    else { s.goto p .opening with tmp := update s.tmp p none }
  | .writing i =>
    if fails then s.goto p (.leaving i false)
    else { s.goto p (.linking i) with content := update s.content i (some p) }
  | .linking i =>
    if fails then s.goto p (.leaving i false)
    else if s.real.isSome then s.goto p (.reopening i)
    else { s.goto p (.leaving i true) with real := some i }
  | .reopening i =>
    match s.real with
    | none => s.goto p (.leaving i false)
    | some j => s.goto p (if fails then .leaving i false else .reading i j)
  | .reading i j =>
    match s.content j with
    | none => s.goto p (.leaving i false)
    | some pid =>
      s.goto p (if fails = true ∨ pid ≤ 0 then .leaving i false else .testing i j pid)
  | .testing i j pid =>
    s.goto p (if s.alive pid.toNat = true ∧ fails = false then .leaving i false else .breaking i j)
  | .breaking i _ =>
    if fails = true ∨ s.real = none then s.goto p (.leaving i false)
    else { s.goto p (.linking i) with real := none }
  | .leaving i ok =>
    { s.goto p (if ok then .holding i else .failed (some i)) with tmp := update s.tmp p none }
  | .holding _ => if fails then s.goto p .idle else { s.goto p .idle with real := none }

end System

/-- What can happen. -/
inductive Act where
  | turn (p : ℕ) (fails : Bool)
  | dies (p : ℕ)
  | starts (p : ℕ)
deriving DecidableEq, Repr

def step (s : System) : Act → Option System
  | .turn p fails => if s.alive p then some (s.turn p fails) else none
  | .dies p =>
    if s.alive p then some { s.goto p .idle with alive := update s.alive p false } else none
  | .starts p => if s.alive p then none else some { s with alive := update s.alive p true }

/-- One step of the system. -/
def Next (s : System) (a : Act) (s' : System) : Prop := step s a = some s'

/-- No lock, the lock of a process that is alive, or any other file; the temporary names may be
those of old files. -/
structure Start (s : System) : Prop where
  pc : ∀ p, s.pc p = .idle ∨
    ∃ i, s.pc p = .holding i ∧ s.real = some i ∧ s.content i = some p ∧ s.alive p = true
  real : ∀ i, s.real = some i → i < s.next

/-- The step of a careful process: `kill` fails only where there is no such process, and the name of
the lock is unlinked only while it still is the file that was read. -/
def Careful (s : System) : Act → Prop
  | .turn p fails =>
    (∀ i j pid, s.pc p = .testing i j pid → fails = true → s.alive pid.toNat = false) ∧
      ∀ i j, s.pc p = .breaking i j → ∀ k, s.real = some k → k = j
  | _ => True

/-- One process has the lock, its lock is in place, and a process that returned false has left no
file of its own. -/
structure Safe (s : System) : Prop where
  exclusive : ∀ p q i k, s.pc p = .holding i → s.pc q = .holding k → p = q
  kept : ∀ p i, s.pc p = .holding i → s.real = some i
  clean : ∀ p i, s.pc p = .failed (some i) → s.tmp p = none

/-! ## The invariant -/

/-- The file that the process made, as long as it may become the lock. -/
def Pc.own : Pc → Option ℕ
  | .writing i | .linking i | .reopening i | .reading i _ | .testing i _ _ | .breaking i _
  | .leaving i true | .holding i => some i
  | _ => none

/-- The file that it found. -/
def Pc.found : Pc → Option ℕ
  | .reading _ j | .testing _ j _ | .breaking _ j => some j
  | _ => none

/-- It has linked its file to the name of the lock. -/
def Pc.has : Pc → Option ℕ
  | .leaving i true | .holding i => some i
  | _ => none

structure Inv (s : System) : Prop where
  dead : ∀ p, s.alive p = false → s.pc p = .idle
  below : ∀ i, (s.real = some i ∨ ∃ p, (s.pc p).own = some i ∨ (s.pc p).found = some i) → i < s.next
  own : ∀ p q i, (s.pc p).own = some i → (s.pc q).own = some i → p = q
  written : ∀ p i, (s.pc p).own = some i → s.pc p ≠ .writing i → s.content i = some p
  linked : ∀ i, (s.real = some i ∨ ∃ q, (s.pc q).found = some i) → ∀ p, s.pc p ≠ .writing i
  has : ∀ p i, (s.pc p).has = some i → s.real = some i
  read : ∀ p i j pid, s.pc p = .testing i j pid → s.content j = some pid
  stale : ∀ p i j, s.pc p = .breaking i j → ∀ q, (s.pc q).own ≠ some j
  clean : ∀ p i, s.pc p = .failed (some i) → s.tmp p = none

section Moves

variable {s s' : System} {p q i j : ℕ} {c : Pc}

/-- A process goes on with the files that it knows; the lock becomes `l`, and its temporary name
`t`. -/
structure Goes (s : System) (p : ℕ) (c : Pc) (l t : Option ℕ) : Prop where
  own : c.own = none ∨ c.own = (s.pc p).own
  found : c.found = none ∨ c.found = (s.pc p).found ∨ c.found = s.real
  writing : ∀ i, c ≠ .writing i
  written : ∀ i, c.own = some i → s.content i = some (p : ℤ)
  lock : l = none ∨ l = s.real ∨ l = c.own
  has : ∀ i, c.has = some i → l = some i
  others : ∀ q i, q ≠ p → (s.pc q).has = some i → l = some i
  read : ∀ i j pid, c = .testing i j pid → s.content j = some pid
  stale : ∀ i j, c = .breaking i j → ∀ q, (s.pc q).own ≠ some j
  clean : ∀ i, c = .failed (some i) → t = none

/-- What is true of all places is true after a move. -/
theorem forall_update {P : ℕ → Pc → Prop} (hp : P p c) (hq : ∀ q, q ≠ p → P q (s.pc q)) :
    ∀ q, P q (update s.pc p c q) := by
  intro q
  by_cases hqp : q = p
  · subst hqp
    rw [update_self]
    exact hp
  · rw [update_of_ne hqp]
    exact hq q hqp

theorem Inv.move (h : Inv s) {alive : ℕ → Bool} {l t : Option ℕ}
    (hdead : ∀ q, alive q = false → update s.pc p c q = .idle) (hgoes : Goes s p c l t) :
    Inv ⟨l, update s.tmp p t, s.content, s.next, alive, update s.pc p c⟩ := by
  -- a file that a place names was named before, by the same process or by the lock
  have hown : ∀ q i, (update s.pc p c q).own = some i → (s.pc q).own = some i := by
    refine forall_update (P := fun q c => ∀ i, c.own = some i → (s.pc q).own = some i)
      (fun i hi => ?_) fun _ _ _ hi => hi
    rcases hgoes.own with hnone | hsame
    · rw [hnone] at hi
      cases hi
    · exact hsame ▸ hi
  have hnamed : ∀ i, (l = some i ∨ ∃ q, (update s.pc p c q).found = some i) →
      (s.real = some i ∨ ∃ q, (s.pc q).found = some i) ∨ (s.pc p).own = some i := by
    rintro i (hlock | ⟨q, hq⟩)
    · rcases hgoes.lock with hnone | hsame | hnew
      · rw [hnone] at hlock
        cases hlock
      · exact .inl (.inl (hsame ▸ hlock))
      · rcases hgoes.own with hnone | hsame
        · rw [hnew, hnone] at hlock
          cases hlock
        · exact .inr (hsame ▸ hnew ▸ hlock)
    · refine .inl (forall_update (s := s) (P := fun _ c => c.found = some i →
        s.real = some i ∨ ∃ q, (s.pc q).found = some i) (fun hi => ?_)
          (fun q _ hi => .inr ⟨q, hi⟩) q hq)
      rcases hgoes.found with hnone | hsame | hreal
      · rw [hnone] at hi
        cases hi
      · exact .inr ⟨p, hsame ▸ hi⟩
      · exact .inl (hreal ▸ hi)
  refine ⟨hdead, ?_, fun q r i hq hr => h.own q r i (hown q i hq) (hown r i hr), ?_, ?_, ?_, ?_, ?_,
    ?_⟩
  · rintro i (hlock | ⟨q, hq | hq⟩)
    · rcases hnamed i (.inl hlock) with (hold | ⟨q, hold⟩) | hold
      · exact h.below i (.inl hold)
      · exact h.below i (.inr ⟨q, .inr hold⟩)
      · exact h.below i (.inr ⟨p, .inl hold⟩)
    · exact h.below i (.inr ⟨q, .inl (hown q i hq)⟩)
    · rcases hnamed i (.inr ⟨q, hq⟩) with (hold | ⟨q, hold⟩) | hold
      · exact h.below i (.inl hold)
      · exact h.below i (.inr ⟨q, .inr hold⟩)
      · exact h.below i (.inr ⟨p, .inl hold⟩)
  · exact forall_update (P := fun q c => ∀ i, c.own = some i → c ≠ .writing i →
      s.content i = some (q : ℤ)) (fun i hi _ => hgoes.written i hi) fun q _ => h.written q
  · intro i hi
    rcases hnamed i hi with hold | hold
    · exact forall_update (P := fun _ c => c ≠ .writing i) (hgoes.writing i)
        fun q _ => h.linked i hold q
    · -- nobody else writes to the file that the process made
      refine forall_update (P := fun _ c => c ≠ .writing i) (hgoes.writing i) fun q hqp hq => hqp ?_
      exact h.own q p i (by rw [hq]; rfl) hold
  · exact forall_update (P := fun _ c => ∀ i, c.has = some i → l = some i) hgoes.has
      fun q hqp i => hgoes.others q i hqp
  · exact forall_update (P := fun _ c => ∀ i j pid, c = .testing i j pid → s.content j = some pid)
      hgoes.read fun q _ => h.read q
  · refine forall_update (P := fun _ c' => ∀ i j, c' = .breaking i j → ∀ q,
      (update s.pc p c q).own ≠ some j) (fun i j hc q hq => ?_) fun r _ i j hc q hq => ?_
    · exact hgoes.stale i j hc q (hown q j hq)
    · exact h.stale r i j hc q (hown q j hq)
  · intro q i hq
    change update s.pc p c q = .failed (some i) at hq
    change update s.tmp p t q = none
    by_cases hqp : q = p
    · subst hqp
      rw [update_self] at hq ⊢
      exact hgoes.clean i hq
    · rw [update_of_ne hqp] at hq ⊢
      exact h.clean q i hq

theorem Pc.own_of_has {c : Pc} (h : c.has = some i) : c.own = some i := by
  cases c with
  | leaving k ok =>
    cases ok with
    | true => exact h
    | false => cases h
  | holding k => exact h
  | _ => cases h

/-- A process that gives up, or begins again. -/
theorem Goes.quit (h : Inv s) {t : Option ℕ} (hown : c.own = none) (hfound : c.found = none)
    (hwriting : ∀ i, c ≠ .writing i) (hclean : ∀ i, c = .failed (some i) → t = none) :
    Goes s p c s.real t where
  own := .inl hown
  found := .inl hfound
  writing := hwriting
  written := fun i hi => by
    rw [hown] at hi
    cases hi
  lock := .inr (.inl rfl)
  has := fun i hi => by
    rw [Pc.own_of_has hi] at hown
    cases hown
  others := fun q i _ hq => h.has q i hq
  read := fun i j pid hc => by
    rw [hc] at hfound
    cases hfound
  stale := fun i j hc => by
    rw [hc] at hfound
    cases hfound
  clean := hclean

/-- A process that keeps its file, and has not the lock. -/
theorem Goes.keep (h : Inv s) {t : Option ℕ} (hi : (s.pc p).own = some i)
    (hwritten : s.pc p ≠ .writing i) (hown : c.own = some i)
    (hfound : c.found = none ∨ c.found = (s.pc p).found ∨ c.found = s.real)
    (hwriting : ∀ i, c ≠ .writing i) (hhas : c.has = none)
    (hread : ∀ i j pid, c = .testing i j pid → s.content j = some pid)
    (hstale : ∀ i j, c = .breaking i j → ∀ q, (s.pc q).own ≠ some j) :
    Goes s p c s.real t where
  own := .inr (hown.trans hi.symm)
  found := hfound
  writing := hwriting
  written := fun k hk => by
    obtain rfl := Option.some.inj (hown.symm.trans hk)
    exact h.written p i hi hwritten
  lock := .inr (.inl rfl)
  has := fun k hk => by
    rw [hhas] at hk
    cases hk
  others := fun q k _ hq => h.has q k hq
  read := hread
  stale := hstale
  clean := fun k hk => by
    rw [hk] at hown
    cases hown

/-- A new temporary file. -/
theorem Inv.create (h : Inv s) (halive : s.alive p = true) :
    Inv { s.goto p (.writing s.next) with
      tmp := update s.tmp p (some s.next)
      content := update s.content s.next none
      next := s.next + 1 } := by
  have hnew : ∀ i, (s.real = some i ∨ ∃ q, (s.pc q).own = some i ∨ (s.pc q).found = some i) →
      i ≠ s.next := fun i hi => Nat.ne_of_lt (h.below i hi)
  have hfound : ∀ q i, (update s.pc p (.writing s.next) q).found = some i →
      ∃ q, (s.pc q).found = some i :=
    forall_update (P := fun _ c => ∀ i, c.found = some i → ∃ q, (s.pc q).found = some i)
      (fun i hi => by cases hi) fun q _ i hi => ⟨q, hi⟩
  have hown : ∀ q i, (update s.pc p (.writing s.next) q).own = some i →
      (q = p ∧ i = s.next) ∨ (q ≠ p ∧ (s.pc q).own = some i) :=
    forall_update (P := fun q c => ∀ i, c.own = some i →
        (q = p ∧ i = s.next) ∨ (q ≠ p ∧ (s.pc q).own = some i))
      (fun i hi => .inl ⟨rfl, (Option.some.inj hi).symm⟩) fun q hqp i hi => .inr ⟨hqp, hi⟩
  refine ⟨?_, ?_, ?_, ?_, ?_, ?_, ?_, ?_, ?_⟩
  · exact forall_update (P := fun q c => s.alive q = false → c = .idle)
      (fun hdead => absurd (halive.symm.trans hdead) (by decide)) fun q _ => h.dead q
  · rintro i (hreal | ⟨q, hq | hq⟩)
    · exact Nat.lt_succ_of_lt (h.below i (.inl hreal))
    · rcases hown q i hq with ⟨-, rfl⟩ | ⟨-, hold⟩
      · exact Nat.lt_succ_self _
      · exact Nat.lt_succ_of_lt (h.below i (.inr ⟨q, .inl hold⟩))
    · obtain ⟨q, hold⟩ := hfound q i hq
      exact Nat.lt_succ_of_lt (h.below i (.inr ⟨q, .inr hold⟩))
  · intro q r i hq hr
    rcases hown q i hq with ⟨hqp, hi⟩ | ⟨-, hq'⟩
    · rcases hown r i hr with ⟨hrp, -⟩ | ⟨-, hr'⟩
      · exact hqp.trans hrp.symm
      · exact absurd hi (hnew i (.inr ⟨r, .inl hr'⟩))
    · rcases hown r i hr with ⟨-, hi⟩ | ⟨-, hr'⟩
      · exact absurd hi (hnew i (.inr ⟨q, .inl hq'⟩))
      · exact h.own q r i hq' hr'
  · refine forall_update (P := fun q c => ∀ i, c.own = some i → c ≠ .writing i →
      update s.content s.next none i = some (q : ℤ)) (fun i hi hne => ?_) fun q _ i hi hne => ?_
    · exact absurd (congrArg Pc.writing (Option.some.inj hi)) hne
    · rw [update_of_ne (hnew i (.inr ⟨q, .inl hi⟩))]
      exact h.written q i hi hne
  · intro i hi
    have hold : s.real = some i ∨ ∃ q, (s.pc q).found = some i :=
      hi.imp_right fun ⟨q, hq⟩ => hfound q i hq
    have hne := hnew i (hold.imp_right fun ⟨q, hq⟩ => ⟨q, .inr hq⟩)
    exact forall_update (P := fun _ c => c ≠ .writing i)
      (fun heq => hne (Pc.writing.inj heq).symm) fun q _ => h.linked i hold q
  · exact forall_update (P := fun _ c => ∀ i, c.has = some i → s.real = some i)
      (fun i hi => by cases hi) fun q _ => h.has q
  · refine forall_update (P := fun _ c => ∀ i j pid, c = .testing i j pid →
      update s.content s.next none j = some pid) (fun i j pid hc => by cases hc)
        fun q _ i j pid hc => ?_
    rw [update_of_ne (hnew j (.inr ⟨q, .inr (by rw [hc]; rfl)⟩))]
    exact h.read q i j pid hc
  · refine forall_update (P := fun _ c => ∀ i j, c = .breaking i j → ∀ q,
      (update s.pc p (.writing s.next) q).own ≠ some j) (fun i j hc => by cases hc)
        fun r _ i j hc q hq => ?_
    rcases hown q j hq with ⟨-, hj⟩ | ⟨-, hold⟩
    · exact hnew j (.inr ⟨r, .inr (by rw [hc]; rfl)⟩) hj
    · exact h.stale r i j hc q hold
  · refine forall_update (P := fun q c => ∀ i, c = .failed (some i) →
      update s.tmp p (some s.next) q = none) (fun i hc => by cases hc) fun q hqp i hc => ?_
    rw [update_of_ne hqp]
    exact h.clean q i hc

/-- The number is written. -/
theorem Inv.write (h : Inv s) (hp : s.pc p = .writing i) (halive : s.alive p = true) :
    Inv { s.goto p (.linking i) with content := update s.content i (some (p : ℤ)) } := by
  have hpi : (s.pc p).own = some i := by
    rw [hp]
    rfl
  have hown : ∀ q k, (update s.pc p (.linking i) q).own = some k → (s.pc q).own = some k :=
    forall_update (P := fun q c => ∀ k, c.own = some k → (s.pc q).own = some k)
      (fun k hk => hpi.trans hk) fun _ _ _ hk => hk
  have hfound : ∀ q k, (update s.pc p (.linking i) q).found = some k → (s.pc q).found = some k :=
    forall_update (P := fun q c => ∀ k, c.found = some k → (s.pc q).found = some k)
      (fun k hk => by cases hk) fun _ _ _ hk => hk
  refine ⟨?_, ?_, fun q r k hq hr => h.own q r k (hown q k hq) (hown r k hr), ?_, ?_, ?_, ?_, ?_,
    ?_⟩
  · exact forall_update (P := fun q c => s.alive q = false → c = .idle)
      (fun hdead => absurd (halive.symm.trans hdead) (by decide)) fun q _ => h.dead q
  · rintro k (hreal | ⟨q, hq | hq⟩)
    · exact h.below k (.inl hreal)
    · exact h.below k (.inr ⟨q, .inl (hown q k hq)⟩)
    · exact h.below k (.inr ⟨q, .inr (hfound q k hq)⟩)
  · refine forall_update (P := fun q c => ∀ k, c.own = some k → c ≠ .writing k →
      update s.content i (some (p : ℤ)) k = some (q : ℤ)) (fun k hk _ => ?_)
        fun q hqp k hk hne => ?_
    · obtain rfl := Option.some.inj hk
      exact update_self _ _ _
    · have hki : k ≠ i := fun heq => hqp (h.own q p k hk (heq ▸ hpi))
      rw [update_of_ne hki]
      exact h.written q k hk hne
  · intro k hk
    have hold : s.real = some k ∨ ∃ q, (s.pc q).found = some k :=
      hk.imp_right fun ⟨q, hq⟩ => ⟨q, hfound q k hq⟩
    exact forall_update (P := fun _ c => c ≠ .writing k) (fun heq => by cases heq)
      fun q _ => h.linked k hold q
  · exact forall_update (P := fun _ c => ∀ k, c.has = some k → s.real = some k)
      (fun k hk => by cases hk) fun q _ => h.has q
  · refine forall_update (P := fun _ c => ∀ k j pid, c = .testing k j pid →
      update s.content i (some (p : ℤ)) j = some pid) (fun k j pid hc => by cases hc)
        fun q _ k j pid hc => ?_
    -- what was found under the name of the lock is not written to
    have hji : j ≠ i := by
      rintro rfl
      exact h.linked j (.inr ⟨q, by rw [hc]; rfl⟩) p hp
    rw [update_of_ne hji]
    exact h.read q k j pid hc
  · exact forall_update (P := fun _ c => ∀ k j, c = .breaking k j → ∀ q,
      (update s.pc p (.linking i) q).own ≠ some j) (fun k j hc => by cases hc)
        fun r _ k j hc q hq => h.stale r k j hc q (hown q j hq)
  · exact forall_update (P := fun q c => ∀ k, c = .failed (some k) → s.tmp q = none)
      (fun k hc => by cases hc) fun q _ => h.clean q

/-! ### Steps -/

theorem dead_of_update (h : Inv s) (halive : s.alive p = true) :
    ∀ q, s.alive q = false → update s.pc p c q = .idle :=
  forall_update (P := fun q c => s.alive q = false → c = .idle)
    (fun hdead => absurd (halive.symm.trans hdead) (by decide)) fun q _ => h.dead q

theorem Inv.turn (h : Inv s) (halive : s.alive p = true) {fails : Bool}
    (hcareful : Careful s (.turn p fails)) : Inv (s.turn p fails) := by
  have hgo : ∀ {c : Pc} {l t : Option ℕ}, Goes s p c l t →
      Inv ⟨l, update s.tmp p t, s.content, s.next, s.alive, update s.pc p c⟩ := fun hgoes =>
    h.move (dead_of_update h halive) hgoes
  have hsame : ∀ {c : Pc} {l : Option ℕ}, Goes s p c l (s.tmp p) →
      Inv ⟨l, s.tmp, s.content, s.next, s.alive, update s.pc p c⟩ := fun hgoes => by
    have hmove := hgo hgoes
    rwa [Function.update_eq_self] at hmove
  have hleave : ∀ i, Inv (s.goto p (.leaving i false)) := fun i =>
    hsame (Goes.quit h rfl rfl (fun _ hc => by cases hc) fun _ hc => by cases hc)
  obtain ⟨hkill, hbreak⟩ := hcareful
  rw [System.turn]
  cases hp : s.pc p with
  | idle => exact hsame (Goes.quit h rfl rfl (fun _ hc => by cases hc) fun _ hc => by cases hc)
  | failed i => exact hsame (Goes.quit h rfl rfl (fun _ hc => by cases hc) fun _ hc => by cases hc)
  | opening =>
    cases fails with
    | true => exact hgo (Goes.quit h rfl rfl (fun _ hc => by cases hc) fun _ _ => rfl)
    | false =>
      cases (s.tmp p).isSome with
      | true => exact hsame (Goes.quit h rfl rfl (fun _ hc => by cases hc) fun _ hc => by cases hc)
      | false => exact h.create halive
  | retry =>
    cases fails with
    | true => exact hsame (Goes.quit h rfl rfl (fun _ hc => by cases hc) fun _ hc => by cases hc)
    | false => exact hgo (Goes.quit h rfl rfl (fun _ hc => by cases hc) fun _ hc => by cases hc)
  | writing i =>
    cases fails with
    | true => exact hleave i
    | false => exact h.write hp halive
  | linking i =>
    cases fails with
    | true => exact hleave i
    | false =>
      have hpi : (s.pc p).own = some i := by rw [hp]; rfl
      have hne : s.pc p ≠ .writing i := by rw [hp]; exact fun heq => by cases heq
      cases hreal : s.real with
      | some j =>
        have hmove : Inv (s.goto p (.reopening i)) :=
          hsame (Goes.keep h hpi hne rfl (.inl rfl) (fun _ hc => by cases hc) rfl
            (fun _ _ _ hc => by cases hc) fun _ _ hc => by cases hc)
        simpa using hmove
      | none =>
        refine hsame (c := .leaving i true) (l := some i) ⟨.inr hpi.symm, .inl rfl,
          (fun _ hc => by cases hc), fun k hk => ?_, .inr (.inr rfl), fun k hk => hk,
          fun q k _ hq => ?_, (fun _ _ _ hc => by cases hc), (fun _ _ hc => by cases hc),
          fun _ hc => by cases hc⟩
        · obtain rfl := Option.some.inj hk
          exact h.written p i hpi hne
        · have hold := h.has q k hq
          rw [hreal] at hold
          cases hold
  | reopening i =>
    have hpi : (s.pc p).own = some i := by rw [hp]; rfl
    have hne : s.pc p ≠ .writing i := by rw [hp]; exact fun heq => by cases heq
    cases hreal : s.real with
    | none => exact hleave i
    | some j =>
      cases fails with
      | true => exact hleave i
      | false =>
        have hmove : Inv (s.goto p (.reading i j)) :=
          hsame (Goes.keep h hpi hne rfl (.inr (.inr hreal.symm)) (fun _ hc => by cases hc) rfl
            (fun _ _ _ hc => by cases hc) fun _ _ hc => by cases hc)
        exact hmove
  | reading i j =>
    have hpi : (s.pc p).own = some i := by rw [hp]; rfl
    have hne : s.pc p ≠ .writing i := by rw [hp]; exact fun heq => by cases heq
    dsimp only
    cases hcontent : s.content j with
    | none => exact hleave i
    | some pid =>
      dsimp only
      by_cases hbad : fails = true ∨ pid ≤ 0
      · rw [if_pos hbad]
        exact hleave i
      · rw [if_neg hbad]
        refine hsame (Goes.keep h hpi hne rfl (.inr (.inl ?_)) (fun _ hc => by cases hc) rfl
          (fun _ _ _ hc => ?_) fun _ _ hc => by cases hc)
        · rw [hp]
          rfl
        · obtain ⟨-, rfl, rfl⟩ := Pc.testing.inj hc
          exact hcontent
  | testing i j pid =>
    have hpi : (s.pc p).own = some i := by rw [hp]; rfl
    have hne : s.pc p ≠ .writing i := by rw [hp]; exact fun heq => by cases heq
    dsimp only
    split
    · exact hleave i
    · rename_i hgone
      have hdead : s.alive pid.toNat = false := by
        cases hfails : fails with
        | true => exact hkill i j pid hp hfails
        | false =>
          rw [hfails, and_iff_left rfl] at hgone
          exact Bool.eq_false_iff.mpr hgone
      refine hsame (Goes.keep h hpi hne rfl (.inr (.inl ?_)) (fun _ hc => by cases hc) rfl
        (fun _ _ _ hc => by cases hc) fun k l hc q hq => ?_)
      · rw [hp]
        rfl
      · -- the process that made the file would be the one that is dead
        obtain ⟨-, rfl⟩ := Pc.breaking.inj hc
        have hlinked := h.linked j (.inr ⟨p, by rw [hp]; rfl⟩) q
        have hwritten := (h.written q j hq hlinked).symm.trans (h.read p i j pid hp)
        have hqpid : pid.toNat = q := by
          have hcast := Option.some.inj hwritten
          omega
        rw [hqpid] at hdead
        rw [h.dead q hdead] at hq
        cases hq
  | breaking i j =>
    have hpi : (s.pc p).own = some i := by rw [hp]; rfl
    have hne : s.pc p ≠ .writing i := by rw [hp]; exact fun heq => by cases heq
    dsimp only
    split
    · exact hleave i
    · refine hsame (c := .linking i) (l := none) ⟨.inr hpi.symm, .inl rfl,
        (fun _ hc => by cases hc), fun k hk => ?_, .inl rfl, (fun k hk => by cases hk),
        fun q k _ hq => ?_, (fun _ _ _ hc => by cases hc), (fun _ _ hc => by cases hc),
        fun _ hc => by cases hc⟩
      · obtain rfl := Option.some.inj hk
        exact h.written p i hpi hne
      · -- nobody has the file that was read
        obtain rfl := hbreak i j hp k (h.has q k hq)
        exact absurd (Pc.own_of_has hq) (h.stale p i k hp q)
  | leaving i ok =>
    cases ok with
    | false => exact hgo (Goes.quit h rfl rfl (fun _ hc => by cases hc) fun _ _ => rfl)
    | true =>
      have hpi : (s.pc p).own = some i := by rw [hp]; rfl
      have hne : s.pc p ≠ .writing i := by rw [hp]; exact fun heq => by cases heq
      refine hgo (c := .holding i) (l := s.real) ⟨.inr hpi.symm, .inl rfl,
        (fun _ hc => by cases hc), fun k hk => ?_, .inr (.inl rfl), fun k hk => ?_,
        fun q k _ hq => h.has q k hq, (fun _ _ _ hc => by cases hc), (fun _ _ hc => by cases hc),
        fun _ hc => by cases hc⟩
      · obtain rfl := Option.some.inj hk
        exact h.written p i hpi hne
      · obtain rfl := Option.some.inj hk
        exact h.has p i (by rw [hp]; rfl)
  | holding i =>
    cases fails with
    | true => exact hsame (Goes.quit h rfl rfl (fun _ hc => by cases hc) fun _ hc => by cases hc)
    | false =>
      refine hsame (c := .idle) (l := none) ⟨.inl rfl, .inl rfl, (fun _ hc => by cases hc),
        (fun k hk => by cases hk), .inl rfl, (fun k hk => by cases hk), fun q k hqp hq => ?_,
        (fun _ _ _ hc => by cases hc), (fun _ _ hc => by cases hc), fun _ hc => by cases hc⟩
      -- nobody else has the lock
      have hreal := (h.has p i (by rw [hp]; rfl)).symm.trans (h.has q k hq)
      obtain rfl := Option.some.inj hreal
      exact absurd (h.own q p i (Pc.own_of_has hq) (by rw [hp]; rfl)) hqp

theorem Inv.step (h : Inv s) {a : Act} (hcareful : Careful s a) (hs : step s a = some s') :
    Inv s' := by
  cases a with
  | turn p fails =>
    rw [LockFile.step] at hs
    split at hs
    · rename_i halive
      cases hs
      exact h.turn halive hcareful
    · cases hs
  | dies p =>
    rw [LockFile.step] at hs
    split at hs
    · cases hs
      have hdead : ∀ q, update s.alive p false q = false → update s.pc p .idle q = .idle := by
        intro q hq
        by_cases hqp : q = p
        · rw [hqp, update_self]
        · rw [update_of_ne hqp] at hq ⊢
          exact h.dead q hq
      have hmove := h.move hdead (Goes.quit h (t := s.tmp p) rfl rfl (fun _ hc => by cases hc)
        fun _ hc => by cases hc)
      rwa [Function.update_eq_self] at hmove
    · cases hs
  | starts p =>
    rw [LockFile.step] at hs
    split at hs
    · cases hs
    · cases hs
      refine ⟨fun q hq => h.dead q ?_, h.below, h.own, h.written, h.linked, h.has, h.read, h.stale,
        h.clean⟩
      by_cases hqp : q = p
      · rw [hqp] at hq
        exact absurd ((update_self p true s.alive).symm.trans hq) (by decide)
      · exact (update_of_ne hqp true s.alive).symm.trans hq

theorem Start.inv (h : Start s) : Inv s := by
  have hplace : ∀ p, s.pc p ≠ .idle → ∃ i, s.pc p = .holding i ∧ s.real = some i ∧
      s.content i = some (p : ℤ) := fun p hp => by
    obtain ⟨i, hpc, hreal, hcontent, -⟩ := (h.pc p).resolve_left hp
    exact ⟨i, hpc, hreal, hcontent⟩
  have hown : ∀ p i, (s.pc p).own = some i → s.real = some i ∧ s.content i = some (p : ℤ) := by
    intro p i hi
    obtain ⟨k, hpc, hreal, hcontent⟩ := hplace p fun hidle => by
      rw [hidle] at hi
      cases hi
    rw [hpc] at hi
    obtain rfl := Option.some.inj hi
    exact ⟨hreal, hcontent⟩
  have hfound : ∀ p i, (s.pc p).found ≠ some i := by
    intro p i hi
    obtain ⟨k, hpc, -, -⟩ := hplace p fun hidle => by
      rw [hidle] at hi
      cases hi
    rw [hpc] at hi
    cases hi
  refine ⟨fun p hdead => ?_, ?_, fun p q i hp hq => ?_, fun p i hi _ => (hown p i hi).2, ?_,
    fun p i hi => (hown p i (Pc.own_of_has hi)).1, fun p i j pid hp => ?_, fun p i j hp => ?_,
    fun p i hp => ?_⟩
  · rcases h.pc p with hidle | ⟨-, -, -, -, halive⟩
    · exact hidle
    · exact absurd (halive.symm.trans hdead) (by decide)
  · rintro i (hreal | ⟨p, hp | hp⟩)
    · exact h.real i hreal
    · exact h.real i (hown p i hp).1
    · exact absurd hp (hfound p i)
  · have hcast := Option.some.inj ((hown p i hp).2.symm.trans (hown q i hq).2)
    omega
  · intro i _ p hp
    obtain ⟨k, hpc, -, -⟩ := hplace p fun hidle => by
      rw [hidle] at hp
      cases hp
    rw [hpc] at hp
    cases hp
  · exact absurd (by rw [hp]; rfl) (hfound p j)
  · exact absurd (by rw [hp]; rfl) (hfound p j)
  · obtain ⟨k, hpc, -, -⟩ := hplace p fun hidle => by
      rw [hidle] at hp
      cases hp
    rw [hpc] at hp
    cases hp

theorem Inv.safe (h : Inv s) : Safe s where
  exclusive := fun p q i k hp hq => by
    have hreal := (h.has p i (by rw [hp]; rfl)).symm.trans (h.has q k (by rw [hq]; rfl))
    obtain rfl := Option.some.inj hreal
    exact h.own p q i (by rw [hp]; rfl) (by rw [hq]; rfl)
  kept := fun p i hp => h.has p i (by rw [hp]; rfl)
  clean := h.clean

end Moves

/-- From any start, in any order of the steps of any processes, as long as they are careful. -/
theorem careful_processes_exclude {s s' : System} {as : List Act} (hs : Start s)
    (h : Steps (guarded Careful Next) s as s') : Safe s' := by
  have hinv : Inv s' :=
    Steps.invariant (fun s a s' hstep hinv => hinv.step hstep.1 hstep.2) h hs.inv
  exact hinv.safe

/-! ## Two processes -/

/-- The lock of process 9, which is gone; processes 1 and 2 begin. -/
def staleLock : System where
  real := some 0
  tmp _ := none
  content _ := some 9
  next := 1
  alive p := decide (p = 1 ∨ p = 2)
  pc _ := .idle

theorem staleLock_start : Start staleLock :=
  ⟨fun _ => .inl rfl, fun _ hi => Option.some.inj hi ▸ Nat.zero_lt_one⟩

/-- `Careful`, as a test. -/
def careful (s : System) : Act → Bool
  | .turn p fails =>
    match s.pc p with
    | .testing _ _ pid => !fails || !s.alive pid.toNat
    | .breaking _ j => decide (s.real = none ∨ s.real = some j)
    | _ => true
  | _ => true

theorem Careful.of_careful {s : System} {a : Act} (h : careful s a = true) : Careful s a := by
  cases a with
  | turn p fails =>
    rw [careful] at h
    refine ⟨fun i j pid hp hfails => ?_, fun i j hp k hk => ?_⟩
    · rw [hp, hfails] at h
      simpa using h
    · rw [hp] at h
      rcases of_decide_eq_true h with hnone | hsome
      · rw [hk] at hnone
        cases hnone
      · exact Option.some.inj (hk.symm.trans hsome)
  | _ => trivial

/-- Process 1 takes the lock, and then process 2 tries to. -/
def taking : List Act := List.replicate 10 (.turn 1 false) ++ List.replicate 8 (.turn 2 false)

theorem careful_processes_exclude_taking : ∃ s, Steps (guarded Careful Next) staleLock taking s ∧
    Safe s ∧ s.pc 1 = .holding 1 ∧ s.pc 2 = .failed (some 2) := by
  have hguard : ∀ {s : System} {a : Act} {s' : System},
      (if careful s a then step s a else none) = some s' → guarded Careful Next s a s' :=
    fun {s a s'} hstep => by
      by_cases hcareful : careful s a = true
      · rw [if_pos hcareful] at hstep
        exact ⟨.of_careful hcareful, hstep⟩
      · rw [if_neg hcareful] at hstep
        cases hstep
  have hsteps := (@Steps.of_foldlM _ _ (fun s a => if careful s a then step s a else none)
    staleLock _ taking (Option.some_get (by decide)).symm).mono fun _ _ _ => hguard
  exact ⟨_, hsteps, careful_processes_exclude staleLock_start hsteps, by decide, by decide⟩

/-- Both read the number of the dead process. Process 1 unlinks its lock and takes the lock; then
process 2 unlinks the lock of process 1. -/
def breakingTwice : List Act :=
  List.replicate 7 (.turn 1 false) ++ List.replicate 7 (.turn 2 false) ++
    List.replicate 3 (.turn 1 false) ++ List.replicate 3 (.turn 2 false)

theorem two_processes_hold : ¬ ∀ s as s', Start s → Steps Next s as s' → Safe s' := by
  intro hall
  have hsteps : Steps Next staleLock breakingTwice _ :=
    Steps.of_foldlM (Option.some_get (by decide)).symm
  have hsafe := hall _ _ _ staleLock_start hsteps
  exact absurd (hsafe.exclusive 1 2 1 2 (by decide) (by decide)) (by decide)

end Inn.Innfeed.LockFile
