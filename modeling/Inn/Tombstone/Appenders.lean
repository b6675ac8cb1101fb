import Inn.Rules
import Inn.Tombstone.Crash

/-!
# Inn.Tombstone.Appenders — SMcanceltombstone beside expire

Any number of processes run `SMcanceltombstone`, each opening
`cancels.tombstone`, locking it shared, appending its token and closing it, while
one process runs expire again and again. Locks belong to the opened file.

* `safe_appends_lose_no_token` — a token is in the hash set of the cycle under
  way or of the next one, as long as every append goes to the file that is still
  `cancels.tombstone`, or to the snapshot while expire is reading it;
* `late_append_is_lost` — an appender that opened the file before the rename and
  locks it after the snapshot has been read writes to a file nobody reads again.
-/

namespace Inn.Tombstone

open Function (update update_self update_of_ne)

/-- Where a call of `SMcanceltombstone` is. -/
inductive Proc where
  | start
  | opened (retried : Bool) (fd : ℕ)
  | retrying
  | locked (fd : ℕ)
  | appended (fd : ℕ)
  | returned (ok : Bool)
deriving DecidableEq

/-- The system: `done` has the hash sets of the completed cycles, and `mark p` how
many had completed when `p` appended. -/
structure System (P TOKEN : Type) where
  disk : Disk TOKEN
  expire : Option (Expire TOKEN)
  done : List (List TOKEN)
  procs : P → Proc
  mark : P → ℕ

inductive Act (P : Type) where
  | open (p : P)
  | lock (p : P)
  | append (p : P)
  | close (p : P)
  | fail (p : P)
  | begin
  | expire
  | exit

variable {P TOKEN : Type}

namespace System

/-- The calls that hold a shared lock of the file. -/
def Shared (s : System P TOKEN) (fd : ℕ) : Prop :=
  ∃ p, s.procs p = .locked fd ∨ s.procs p = .appended fd

/-- Expire holds the exclusive lock of the file. -/
def Exclusive (s : System P TOKEN) (fd : ℕ) : Prop :=
  ∃ e, s.expire = some e ∧ e.exclusive = some fd

end System

section Steps

variable [DecidableEq P] [DecidableEq TOKEN]

namespace System

def goto (s : System P TOKEN) (p : P) (pc : Proc) : System P TOKEN :=
  { s with procs := update s.procs p pc }

/-- `open` of `cancels.tombstone`, creating it where it is missing. -/
def openCancels (s : System P TOKEN) (p : P) (retried : Bool) : System P TOKEN :=
  match s.disk.ino .cancels with
  | none => { s with disk := s.disk.creat .cancels }.goto p (.opened retried s.disk.next)
  | some fd => s.goto p (.opened retried fd)

end System

/-- One step, of a call past its early returns (the feature is on and the token is
not empty) or of expire. A call whose lock is refused the first time closes the
file and opens the path again; the second time it gives up. -/
def Next (tok : P → TOKEN) (s : System P TOKEN) (act : Act P) (s' : System P TOKEN) : Prop :=
  match act with
  | .open p =>
    s.procs p = .start ∧ s' = s.openCancels p false ∨
      s.procs p = .retrying ∧ s' = s.openCancels p true
  | .lock p => ∃ retried fd, s.procs p = .opened retried fd ∧
      (s.Exclusive fd ∧ s' = s.goto p (if retried then .returned false else .retrying) ∨
        ¬ s.Exclusive fd ∧ s' = s.goto p (.locked fd))
  | .append p => ∃ fd, s.procs p = .locked fd ∧
      s' = { s with disk := s.disk.append fd (.token (tok p)),
                    mark := update s.mark p s.done.length }.goto p (.appended fd)
  | .close p => ∃ fd, s.procs p = .appended fd ∧ s' = s.goto p (.returned true)
  | .fail p => (∀ ok, s.procs p ≠ .returned ok) ∧ s' = s.goto p (.returned false)
  | .begin => s.expire = none ∧ s' = { s with expire := some (.start true) }
  | .expire => ∃ e free d' e', s.expire = some e ∧
      (∀ fd, free fd = true ↔ ¬ s.Shared fd) ∧ expireStep free s.disk e = some (d', e') ∧
      s' = { s with disk := d', expire := some e' }
  | .exit => ∃ e, s.expire = some e ∧ e.phase = .exited ∧
      s' = { s with expire := none, done := s.done ++ [e.h] }

end Steps

/-- No call and no expire has begun. -/
structure Fresh (s : System P TOKEN) : Prop where
  expire : s.expire = none
  done : s.done = []
  procs : ∀ p, s.procs p = .start

/-- The token of `p` is in the hash set of a cycle that completed after its append. -/
def Consumed (tok : P → TOKEN) (s : System P TOKEN) (p : P) : Prop :=
  ∃ h ∈ s.done.drop (s.mark p), tok p ∈ h

/-- Where `SMcanceltombstone` has returned true, the token is in the hash set of
the cycle that was under way at the append or of the one after it. -/
def LosesNoToken (tok : P → TOKEN)
    (next : System P TOKEN → Act P → System P TOKEN → Prop) : Prop :=
  ∀ s₀, Fresh s₀ → ∀ acts s, Steps next s₀ acts s → ∀ p, s.procs p = .returned true →
    s.mark p + 2 ≤ s.done.length → Consumed tok s p

/-- The appends that reach a cycle: to `cancels.tombstone`, or to the snapshot
while the run is reading it. -/
def AppendSafe (s : System P TOKEN) : Act P → Prop
  | .append p => ∀ fd, s.procs p = .locked fd → s.disk.ino .cancels = some fd ∨
      s.disk.ino .processing = some fd ∧ ∃ e pos, s.expire = some e ∧ e.phase = .readCancels pos
  | _ => True

/-! ## What a step of expire does -/

/-- The run reads the snapshot, or is about to. -/
def Phase.snapshotting : Phase → Bool
  | .closeCancels _ | .readCancels _ => true
  | _ => false

/-- The steps of a run that detaches `cancels.tombstone`, by what they do to it. -/
inductive Effect (d : Disk TOKEN) (e : Expire TOKEN) (d' : Disk TOKEN) (e' : Expire TOKEN) : Prop
    where
  | before (hr : e.phase.renamed = false) (hr' : e'.phase.renamed = false) (hd : d' = d)
  | absent (hr : e.phase.renamed = false) (hc : d.ino .cancels = none) (hd : d' = d)
      (hp : e'.phase = .readExpireover 0)
  | rename (hr : e.phase.renamed = false) (hd : d' = d.rename) (fd : ℕ)
      (hp : e'.phase = .closeCancels fd) (hs : e'.snapshot = true)
  | close (fd : ℕ) (hp : e.phase = .closeCancels fd) (hp' : e'.phase = .readCancels 0)
      (hd : d' = d) (hs : e'.snapshot = e.snapshot) (hh : e'.h = e.h)
  | line (pos : ℕ) (line : Line TOKEN) (hp : e.phase = .readCancels pos)
      (hline : (d.read .processing)[pos]? = some line) (hp' : e'.phase = .readCancels (pos + 1))
      (hd : d' = d) (hs : e'.snapshot = e.snapshot)
      (hh : ∀ t, t ∈ e'.h ↔ t ∈ e.h ∨ line = .token t)
  | eof (pos : ℕ) (hp : e.phase = .readCancels pos)
      (hline : (d.read .processing)[pos]? = none) (hp' : e'.phase = .readExpireover 0)
      (hd : d' = d) (hs : e'.snapshot = e.snapshot) (hh : e'.h = e.h)
  | after (hr : e.phase.renamed = true) (hw : e.phase.snapshotting = false)
      (hr' : e'.phase.renamed = true) (hw' : e'.phase.snapshotting = false)
      (hd : ∀ t, d.Holds .cancels t → d'.Holds .cancels t)
      (hs : e.snapshot = true → e'.snapshot = true ∧ ∀ t ∈ e.h, t ∈ e'.h)

variable {d d' : Disk TOKEN} {e e' : Expire TOKEN} {free : ℕ → Bool}

theorem reconcile_snapshot (h : e.snapshot = true) : (reconcile d e).2 = true := by
  unfold reconcile
  simp only [h]
  split_ifs <;> rfl

/-- The reconciliation only touches the name of the snapshot. -/
theorem reconcile_holds_cancels (t : TOKEN) :
    (reconcile d e).1.Holds .cancels t ↔ d.Holds .cancels t := by
  unfold reconcile
  split_ifs <;> rfl

theorem expireStep_effect [DecidableEq TOKEN] (hc : e.consuming = true)
    (h : expireStep free d e = some (d', e')) : e'.consuming = true ∧ Effect d e d' e' := by
  rcases e with ⟨phase, cons, eo, lo, ca, hash, n, snap, loaded⟩
  obtain rfl : cons = true := hc
  cases phase with
  | probe =>
    cases h
    exact ⟨rfl, .before rfl rfl rfl⟩
  | readLeftover pos =>
    rcases hline : (d.read .processing)[pos]? with _ | line
    · simp only [expireStep, tombstoneRead_none hline, Option.some.injEq, Prod.mk.injEq] at h
      obtain ⟨rfl, rfl⟩ := h
      exact ⟨rfl, .before rfl rfl rfl⟩
    · simp only [expireStep, tombstoneRead_some hline, Option.some.injEq, Prod.mk.injEq] at h
      obtain ⟨rfl, rfl⟩ := h
      exact ⟨rfl, .before rfl rfl rfl⟩
  | openCancels =>
    rcases hi : d.ino .cancels with _ | fd
    · simp only [expireStep, hi, Option.some.injEq, Prod.mk.injEq] at h
      obtain ⟨rfl, rfl⟩ := h
      exact ⟨rfl, .absent rfl hi rfl rfl⟩
    · simp only [expireStep, hi, Option.some.injEq, Prod.mk.injEq] at h
      obtain ⟨rfl, rfl⟩ := h
      exact ⟨rfl, .before rfl rfl rfl⟩
  | lockCancels fd =>
    simp only [expireStep] at h
    split at h
    · cases h
      exact ⟨rfl, .before rfl rfl rfl⟩
    · cases h
  | renameCancels fd =>
    cases h
    exact ⟨rfl, .rename rfl rfl fd rfl rfl⟩
  | closeCancels fd =>
    cases h
    exact ⟨rfl, .close fd rfl rfl rfl rfl rfl⟩
  | readCancels pos =>
    rcases hline : (d.read .processing)[pos]? with _ | line
    · simp only [expireStep, if_true, tombstoneRead_none hline, Option.some.injEq,
        Prod.mk.injEq] at h
      obtain ⟨rfl, rfl⟩ := h
      exact ⟨rfl, .eof pos rfl hline rfl rfl rfl rfl⟩
    · simp only [expireStep, if_true, tombstoneRead_some hline, Option.some.injEq,
        Prod.mk.injEq] at h
      obtain ⟨rfl, rfl⟩ := h
      exact ⟨rfl, .line pos line rfl hline rfl rfl rfl fun t => mem_insertLine⟩
  | readExpireover pos =>
    rcases hline : (d.read .expireover)[pos]? with _ | line
    · simp only [expireStep, tombstoneRead_none hline, Option.some.injEq, Prod.mk.injEq] at h
      obtain ⟨rfl, rfl⟩ := h
      exact ⟨rfl, .after rfl rfl rfl rfl (fun _ h => h) fun hs => ⟨hs, fun _ ht => ht⟩⟩
    · simp only [expireStep, tombstoneRead_some hline, Option.some.injEq, Prod.mk.injEq] at h
      obtain ⟨rfl, rfl⟩ := h
      exact ⟨rfl, .after rfl rfl rfl rfl (fun _ h => h)
        fun hs => ⟨hs, fun _ ht => mem_insertLine.mpr (.inl ht)⟩⟩
  | reconcile =>
    cases h
    refine ⟨rfl, .after rfl rfl rfl rfl (fun t => (reconcile_holds_cancels t).mpr) fun hs => ?_⟩
    have hsnap := reconcile_snapshot (d := d) hs
    refine ⟨hsnap, fun t ht => ?_⟩
    simp only [loadReturn, hsnap, Bool.or_true, if_true]
    exact ht
  | HISexpire =>
    cases h
    exact ⟨rfl, .after rfl rfl rfl rfl (fun _ h => h) fun hs => ⟨hs, fun _ ht => ht⟩⟩
  | unlinkExpireover =>
    cases h
    refine ⟨rfl, .after rfl rfl rfl rfl (fun t ht => ?_) fun hs => ⟨hs, fun _ ht => ht⟩⟩
    dsimp only
    split
    · exact (Disk.holds_unlink_of_ne (by simp) t).mpr ht
    · exact ht
  | unlinkSnapshot =>
    cases h
    refine ⟨rfl, .after rfl rfl rfl rfl (fun t ht => ?_) fun hs => ⟨hs, fun _ ht => ht⟩⟩
    dsimp only
    split
    · exact (Disk.holds_unlink_of_ne (by simp) t).mpr ht
    · exact ht
  | openHeader m =>
    rcases hi : d.ino m with _ | fd
    · simp only [expireStep, hi, Option.some.injEq, Prod.mk.injEq] at h
      obtain ⟨rfl, rfl⟩ := h
      exact ⟨rfl, .after rfl rfl rfl rfl (fun t => (Disk.holds_creat hi .cancels t).mpr)
        fun hs => ⟨hs, fun _ ht => ht⟩⟩
    · simp only [expireStep, hi, Option.some.injEq, Prod.mk.injEq] at h
      obtain ⟨rfl, rfl⟩ := h
      exact ⟨rfl, .after rfl rfl rfl rfl (fun _ h => h) fun hs => ⟨hs, fun _ ht => ht⟩⟩
  | lockHeader m fd =>
    simp only [expireStep] at h
    split at h
    · cases h
      exact ⟨rfl, .after rfl rfl rfl rfl (fun _ h => h) fun hs => ⟨hs, fun _ ht => ht⟩⟩
    · cases h
  | writeHeader m fd =>
    cases h
    exact ⟨rfl, .after rfl rfl rfl rfl (fun t => (d.holds_ensureHeader fd .cancels t).mpr)
      fun hs => ⟨hs, fun _ ht => ht⟩⟩
  | closeHeader m fd =>
    cases h
    refine ⟨rfl, .after rfl rfl ?_ ?_ (fun _ h => h) fun hs => ⟨hs, fun _ ht => ht⟩⟩
    · cases m <;> rfl
    · cases m <;> rfl
  | exited => cases h

/-! ## Where the token of an append is -/

/-- The token of `p` waits in `cancels.tombstone`, is in the snapshot, is in the
hash set of the cycle under way, or was in that of a completed one. -/
inductive Stage (tok : P → TOKEN) (s : System P TOKEN) (p : P) : Prop where
  | waiting (hd : s.disk.Holds .cancels (tok p))
      (hm : s.mark p = s.done.length ∨ s.mark p + 1 = s.done.length ∧
        ∀ e, s.expire = some e → e.phase.renamed = false)
  | detached (e : Expire TOKEN) (fd : ℕ) (he : s.expire = some e)
      (hp : e.phase = .closeCancels fd) (hs : e.snapshot = true)
      (hd : s.disk.Holds .processing (tok p))
      (hm : s.mark p ≤ s.done.length ∧ s.done.length ≤ s.mark p + 1)
  | unread (e : Expire TOKEN) (pos : ℕ) (he : s.expire = some e)
      (hp : e.phase = .readCancels pos) (hs : e.snapshot = true)
      (hd : .token (tok p) ∈ (s.disk.read .processing).drop pos)
      (hm : s.mark p ≤ s.done.length ∧ s.done.length ≤ s.mark p + 1)
  | loaded (e : Expire TOKEN) (he : s.expire = some e) (hr : e.phase.renamed = true)
      (hs : e.snapshot = true) (hh : tok p ∈ e.h)
      (hm : s.mark p ≤ s.done.length ∧ s.done.length ≤ s.mark p + 1)
  | consumed (h : Consumed tok s p)

/-- What holds in every state. -/
structure Inv (tok : P → TOKEN) (s : System P TOKEN) : Prop where
  consuming : ∀ e, s.expire = some e → e.consuming = true
  snapshot : ∀ e, s.expire = some e → e.phase.snapshotting = true → e.snapshot = true
  pos : ∀ e pos, s.expire = some e → e.phase = .readCancels pos →
    pos ≤ (s.disk.read .processing).length
  stage : ∀ p, ((∃ fd, s.procs p = .appended fd) ∨ s.procs p = .returned true) → Stage tok s p

variable {tok : P → TOKEN} {s s' : System P TOKEN} {p : P}

theorem Fresh.inv (h : Fresh s) : Inv tok s where
  consuming e he := by
    rw [h.expire] at he
    cases he
  snapshot e he := by
    rw [h.expire] at he
    cases he
  pos e _ he := by
    rw [h.expire] at he
    cases he
  stage p hp := by
    rw [h.procs p] at hp
    rcases hp with ⟨_, hp⟩ | hp <;> cases hp

/-- A step that leaves the cycles alone and takes no token away leaves the token
where it is. -/
theorem Stage.frame (h : Stage tok s p) (he : s'.expire = s.expire) (hdone : s'.done = s.done)
    (hmark : s'.mark p = s.mark p)
    (hcancels : s.disk.Holds .cancels (tok p) → s'.disk.Holds .cancels (tok p))
    (hproc : ∀ pos, .token (tok p) ∈ (s.disk.read .processing).drop pos →
      .token (tok p) ∈ (s'.disk.read .processing).drop pos) : Stage tok s' p := by
  cases h with
  | waiting hd hm => exact .waiting (hcancels hd) (by rwa [hmark, hdone, he])
  | detached e fd hexp hp hs hd hm =>
    exact .detached e fd (he ▸ hexp) hp hs (hproc 0 hd) (by rwa [hmark, hdone])
  | unread e pos hexp hp hs hd hm =>
    exact .unread e pos (he ▸ hexp) hp hs (hproc pos hd) (by rwa [hmark, hdone])
  | loaded e hexp hr hs hh hm =>
    exact .loaded e (he ▸ hexp) hr hs hh (by rwa [hmark, hdone])
  | consumed h => exact .consumed (by rwa [Consumed, hmark, hdone])

/-- A step of one call other than its append: the files may get a new, empty
`cancels.tombstone`. -/
theorem Inv.call [DecidableEq P] (h : Inv tok s) {pc : Proc} {d : Disk TOKEN}
    (hread : ∀ n, d.read n = s.disk.read n)
    (hpc : (∃ fd, pc = .appended fd) ∨ pc = .returned true →
      (∃ fd, s.procs p = .appended fd) ∨ s.procs p = .returned true) :
    Inv tok ({ s with disk := d }.goto p pc) where
  consuming := h.consuming
  snapshot := h.snapshot
  pos e pos he hp := by
    show pos ≤ (d.read .processing).length
    rw [hread]
    exact h.pos e pos he hp
  stage q hq := by
    have hstage : Stage tok s q := by
      refine h.stage q ?_
      rcases eq_or_ne q p with rfl | hne
      · simp only [System.goto, update_self] at hq
        exact hpc hq
      · simpa only [System.goto, update_of_ne hne] using hq
    refine hstage.frame rfl rfl rfl (fun hc => ?_) fun pos hmem => ?_
    · show .token (tok q) ∈ d.read .cancels
      rwa [hread]
    · show .token (tok q) ∈ (d.read .processing).drop pos
      rwa [hread]

/-- An append: the other tokens stay, and the new one is where a cycle finds it. -/
theorem Inv.append [DecidableEq P] (h : Inv tok s) {fd : ℕ} (hp : s.procs p = .locked fd)
    (hsafe : AppendSafe s (.append p)) :
    Inv tok ({ s with disk := s.disk.append fd (.token (tok p)),
                      mark := update s.mark p s.done.length }.goto p (.appended fd)) where
  consuming := h.consuming
  snapshot := h.snapshot
  pos e pos he hphase := by
    show pos ≤ ((s.disk.append fd _).read .processing).length
    rw [Disk.read_append, List.length_append]
    exact Nat.le_add_right_of_le (h.pos e pos he hphase)
  stage q hq := by
    rcases eq_or_ne q p with rfl | hne
    · rcases hsafe fd hp with hc | ⟨hproc, e, pos, he, hphase⟩
      · refine .waiting ((Disk.holds_append ..).mpr (.inr ⟨hc, rfl⟩)) (.inl ?_)
        exact update_self ..
      · refine .unread e pos he hphase (h.snapshot e he (by rw [hphase]; rfl)) ?_ ?_
        · show _ ∈ ((s.disk.append fd _).read .processing).drop pos
          rw [Disk.read_append, if_pos hproc,
            List.drop_append_of_le_length (h.pos e pos he hphase)]
          exact List.mem_append_right _ (List.mem_singleton.mpr rfl)
        · show update s.mark q _ q ≤ s.done.length ∧ s.done.length ≤ update s.mark q _ q + 1
          rw [update_self]
          exact ⟨Nat.le_refl _, Nat.le_succ _⟩
    · have hstage : Stage tok s q :=
        h.stage q (by simpa only [System.goto, update_of_ne hne] using hq)
      refine hstage.frame rfl rfl (update_of_ne hne ..)
        (fun hc => (Disk.holds_append ..).mpr (.inl hc)) fun pos hmem => ?_
      show _ ∈ ((s.disk.append fd _).read .processing).drop pos
      rw [Disk.read_append, List.drop_append]
      exact List.mem_append_left _ hmem

theorem Phase.renamed_of_snapshotting {p : Phase} (h : p.snapshotting = true) :
    p.renamed = true := by
  cases p <;> first | rfl | cases h

/-- Past the rename of the cycle under way, a token waits for the next cycle only
if it was appended since. -/
theorem mark_of_renamed {e : Expire TOKEN} (he : s.expire = some e)
    (hr : e.phase.renamed = true)
    (hm : s.mark p = s.done.length ∨ s.mark p + 1 = s.done.length ∧
      ∀ e, s.expire = some e → e.phase.renamed = false) : s.mark p = s.done.length := by
  rcases hm with hm | ⟨_, hr'⟩
  · exact hm
  · have := hr.symm.trans (hr' e he)
    cases this

/-- A step of expire takes the token on to the next stage. -/
theorem Stage.expire {e e' : Expire TOKEN} {d' : Disk TOKEN} (h : Stage tok s p)
    (he : s.expire = some e)
    (heff : Effect s.disk e d' e') : Stage tok { s with disk := d', expire := some e' } p := by
  have hnext (hr : e.phase.renamed = true) (hd : d'.Holds .cancels (tok p))
      (hm : s.mark p = s.done.length ∨ s.mark p + 1 = s.done.length ∧
        ∀ e, s.expire = some e → e.phase.renamed = false) :
      Stage tok { s with disk := d', expire := some e' } p :=
    .waiting hd (.inl (show s.mark p = s.done.length from mark_of_renamed he hr hm))
  cases h with
  | waiting hd hm =>
    cases heff with
    | before hr hr' hd' =>
      subst hd'
      refine .waiting hd (hm.imp_right fun hm' => ⟨hm'.1, fun e'' he'' => ?_⟩)
      cases he''
      exact hr'
    | absent hr hc =>
      have := hd.isSome
      rw [hc] at this
      cases this
    | rename hr hd' fd hp hs =>
      subst hd'
      refine .detached e' fd rfl hp hs ?_ ?_
      · show _ ∈ s.disk.rename.read .processing
        rwa [Disk.read_rename_processing]
      · show s.mark p ≤ s.done.length ∧ s.done.length ≤ s.mark p + 1
        omega
    | close fd hp hp' hd' => exact hnext (by rw [hp]; rfl) (hd' ▸ hd) hm
    | line pos line hp hline hp' hd' => exact hnext (by rw [hp]; rfl) (hd' ▸ hd) hm
    | eof pos hp hline hp' hd' => exact hnext (by rw [hp]; rfl) (hd' ▸ hd) hm
    | after hr hw hr' hw' hd' => exact hnext hr (hd' _ hd) hm
  | detached e₁ fd he₁ hp₁ hs₁ hd hm =>
    cases he.symm.trans he₁
    cases heff with
    | close fd hp hp' hd' hs => exact .unread e' 0 rfl hp' (hs.trans hs₁) (hd' ▸ hd) hm
    | before hr | absent hr | rename hr =>
      rw [hp₁] at hr
      cases hr
    | line _ _ hp | eof _ hp => cases hp₁.symm.trans hp
    | after _ hw =>
      rw [hp₁] at hw
      cases hw
  | unread e₁ pos he₁ hp₁ hs₁ hd hm =>
    cases he.symm.trans he₁
    cases heff with
    | line pos' line hp hline hp' hd' hs hh =>
      cases hp₁.symm.trans hp
      have hlt := (List.getElem?_eq_some_iff.mp hline)
      obtain ⟨hpos, rfl⟩ := hlt
      rw [List.drop_eq_getElem_cons hpos, List.mem_cons] at hd
      rcases hd with hd | hd
      · exact .loaded e' rfl (by rw [hp']; rfl) (hs.trans hs₁) ((hh _).mpr (.inr hd.symm)) hm
      · exact .unread e' (pos + 1) rfl hp' (hs.trans hs₁) (hd' ▸ hd) hm
    | eof pos' hp hline =>
      cases hp₁.symm.trans hp
      rw [List.drop_of_length_le (List.getElem?_eq_none_iff.mp hline)] at hd
      cases hd
    | before hr | absent hr | rename hr =>
      rw [hp₁] at hr
      cases hr
    | close _ hp => cases hp₁.symm.trans hp
    | after _ hw =>
      rw [hp₁] at hw
      cases hw
  | loaded e₁ he₁ hr₁ hs₁ hh₁ hm =>
    cases he.symm.trans he₁
    cases heff with
    | before hr | absent hr | rename hr => cases hr₁.symm.trans hr
    | close _ _ hp' _ hs hh => exact .loaded e' rfl (by rw [hp']; rfl) (hs.trans hs₁) (hh ▸ hh₁) hm
    | line _ _ _ _ hp' _ hs hh =>
      exact .loaded e' rfl (by rw [hp']; rfl) (hs.trans hs₁) ((hh _).mpr (.inl hh₁)) hm
    | eof _ _ _ hp' _ hs hh =>
      exact .loaded e' rfl (by rw [hp']; rfl) (hs.trans hs₁) (hh ▸ hh₁) hm
    | after _ _ hr' _ _ hs =>
      obtain ⟨hs', hh⟩ := hs hs₁
      exact .loaded e' rfl hr' hs' (hh _ hh₁) hm
  | consumed hc => exact .consumed hc

/-- A step of expire. -/
theorem Inv.expire (h : Inv tok s) {e e' : Expire TOKEN} {d' : Disk TOKEN}
    (he : s.expire = some e) (hcons : e'.consuming = true) (heff : Effect s.disk e d' e') :
    Inv tok { s with disk := d', expire := some e' } where
  consuming _ he' := by
    cases he'
    exact hcons
  snapshot _ he' hs := by
    cases he'
    cases heff with
    | before _ hr' =>
      rw [Phase.renamed_of_snapshotting hs] at hr'
      cases hr'
    | absent _ _ _ hp | eof _ _ _ hp =>
      rw [hp] at hs
      cases hs
    | rename _ _ _ _ hs' => exact hs'
    | close _ hp _ _ hs' => exact hs'.trans (h.snapshot e he (by rw [hp]; rfl))
    | line _ _ hp _ _ _ hs' => exact hs'.trans (h.snapshot e he (by rw [hp]; rfl))
    | after _ _ _ hw' => cases hs.symm.trans hw'
  pos _ pos he' hp := by
    cases he'
    cases heff with
    | before _ hr' =>
      rw [hp] at hr'
      cases hr'
    | absent _ _ _ hp' | eof _ _ _ hp' | rename _ _ _ hp' => cases hp.symm.trans hp'
    | close _ _ hp' =>
      cases hp.symm.trans hp'
      exact Nat.zero_le _
    | line _ _ _ hline hp' hd =>
      cases hp.symm.trans hp'
      subst hd
      exact (List.getElem?_eq_some_iff.mp hline).1
    | after _ _ _ hw' =>
      rw [hp] at hw'
      cases hw'
  stage p hw := (h.stage p hw).expire he heff

/-- The end of a cycle. -/
theorem Inv.exit (h : Inv tok s) {e : Expire TOKEN} (he : s.expire = some e)
    (hp : e.phase = .exited) : Inv tok { s with expire := none, done := s.done ++ [e.h] } where
  consuming _ he' := by cases he'
  snapshot _ he' := by cases he'
  pos _ _ he' := by cases he'
  stage p hw := by
    have hdrop (hm : s.mark p ≤ s.done.length) (hh : tok p ∈ e.h) :
        Consumed tok { s with expire := none, done := s.done ++ [e.h] } p := by
      refine ⟨e.h, ?_, hh⟩
      show e.h ∈ (s.done ++ [e.h]).drop (s.mark p)
      rw [List.drop_append_of_le_length hm]
      exact List.mem_append_right _ (List.mem_singleton.mpr rfl)
    cases h.stage p hw with
    | waiting hd hm =>
      rcases hm with hm | ⟨_, hr⟩
      · refine .waiting hd (.inr ⟨?_, fun _ he' => by cases he'⟩)
        show s.mark p + 1 = (s.done ++ [e.h]).length
        rw [List.length_append, hm]
        rfl
      · have := hr e he
        rw [hp] at this
        cases this
    | detached e' fd he' hp' =>
      cases he.symm.trans he'
      cases hp.symm.trans hp'
    | unread e' pos he' hp' =>
      cases he.symm.trans he'
      cases hp.symm.trans hp'
    | loaded e' he' _ _ hh hm =>
      cases he.symm.trans he'
      exact .consumed (hdrop hm.1 hh)
    | consumed hc =>
      obtain ⟨hash, hmem, hh⟩ := hc
      refine .consumed ⟨hash, ?_, hh⟩
      show hash ∈ (s.done ++ [e.h]).drop (s.mark p)
      rw [List.drop_append]
      exact List.mem_append_left _ hmem

/-- The begin of a cycle. -/
theorem Inv.begin (h : Inv tok s) (he : s.expire = none) :
    Inv tok { s with expire := some (.start true) } where
  consuming e' he' := by
    cases he'
    rfl
  snapshot e' he' hs := by
    cases he'
    cases hs
  pos e' pos he' hp := by
    cases he'
    cases hp
  stage p hw := by
    cases h.stage p hw with
    | waiting hd hm =>
      refine .waiting hd (hm.imp_right fun hm' => ⟨hm'.1, fun e' he' => ?_⟩)
      cases he'
      rfl
    | detached e' fd he' => cases he.symm.trans he'
    | unread e' pos he' => cases he.symm.trans he'
    | loaded e' he' => cases he.symm.trans he'
    | consumed hc => exact .consumed hc

section Runs

variable [DecidableEq P] [DecidableEq TOKEN]

theorem next_inv {act : Act P} (hnext : guarded AppendSafe (Next tok) s act s')
    (h : Inv tok s) : Inv tok s' := by
  obtain ⟨hsafe, hnext⟩ := hnext
  cases act with
  | «open» p =>
    have hopen (retried : Bool) (hp : s.procs p = .start ∨ s.procs p = .retrying) :
        Inv tok (s.openCancels p retried) := by
      have hnot (fd' : ℕ) : (∃ fd, Proc.opened retried fd' = .appended fd) ∨
          Proc.opened retried fd' = .returned true →
          (∃ fd, s.procs p = .appended fd) ∨ s.procs p = .returned true := by
        rintro (⟨_, h'⟩ | h') <;> cases h'
      unfold System.openCancels
      split
      · rename_i hi
        exact h.call (fun n => Disk.read_creat hi n) (hnot _)
      · exact h.call (fun _ => rfl) (hnot _)
    rcases hnext with ⟨hp, rfl⟩ | ⟨hp, rfl⟩
    · exact hopen false (.inl hp)
    · exact hopen true (.inr hp)
  | lock p =>
    obtain ⟨retried, fd, hp, ⟨_, rfl⟩ | ⟨_, rfl⟩⟩ := hnext
    · refine h.call (d := s.disk) (fun _ => rfl) ?_
      cases retried
      all_goals
        rintro (⟨_, h'⟩ | h') <;> cases h'
    · refine h.call (d := s.disk) (fun _ => rfl) ?_
      rintro (⟨_, h'⟩ | h') <;> cases h'
  | append p =>
    obtain ⟨fd, hp, rfl⟩ := hnext
    exact h.append hp hsafe
  | close p =>
    obtain ⟨fd, hp, rfl⟩ := hnext
    exact h.call (d := s.disk) (fun _ => rfl) fun _ => .inl ⟨fd, hp⟩
  | fail p =>
    obtain ⟨_, rfl⟩ := hnext
    refine h.call (d := s.disk) (fun _ => rfl) ?_
    rintro (⟨_, h'⟩ | h') <;> cases h'
  | begin =>
    obtain ⟨he, rfl⟩ := hnext
    exact h.begin he
  | expire =>
    obtain ⟨e, free, d', e', he, _, hstep, rfl⟩ := hnext
    obtain ⟨hcons, heff⟩ := expireStep_effect (h.consuming e he) hstep
    exact h.expire he hcons heff
  | exit =>
    obtain ⟨e, he, hp, rfl⟩ := hnext
    exact h.exit he hp

/-- Where every append goes to a file a cycle will still read, no token is lost. -/
theorem safe_appends_lose_no_token (tok : P → TOKEN) :
    LosesNoToken tok (guarded AppendSafe (Next tok)) := by
  intro s₀ hfresh acts s hrun p hp hm
  have hinv : Inv tok s := hrun.invariant (fun _ _ _ => next_inv) hfresh.inv
  cases hinv.stage p (.inr hp) with
  | waiting _ hm' => omega
  | detached _ _ _ _ _ _ hm' => omega
  | unread _ _ _ _ _ _ hm' => omega
  | loaded _ _ _ _ _ hm' => omega
  | consumed hc => exact hc

/-! ## A token that is lost -/

theorem mem_tombstoneRead {d : Disk TOKEN} {n : Name} {pos : ℕ} {e : Expire TOKEN}
    {again : ℕ → Phase} {done : Phase} {t : TOKEN}
    (h : t ∈ (tombstoneRead (d.read n) pos e again done).h) : t ∈ e.h ∨ d.Tracks t := by
  rcases hline : (d.read n)[pos]? with _ | line
  · rw [tombstoneRead_none hline] at h
    exact .inl h
  · rw [tombstoneRead_some hline] at h
    rcases mem_insertLine.mp h with h | rfl
    · exact .inl h
    · exact .inr ⟨n, List.mem_of_getElem? hline⟩

/-- A run of expire invents no token: what it adds to the hash set comes from the
files, and no file gets a token. -/
theorem expireStep_invents {d d' : Disk TOKEN} {e e' : Expire TOKEN} {free : ℕ → Bool}
    (h : expireStep free d e = some (d', e')) (t : TOKEN) :
    (t ∈ e'.h → t ∈ e.h ∨ d.Tracks t) ∧ (d'.Tracks t → d.Tracks t) := by
  rcases e with ⟨phase, cons, eo, lo, ca, hash, n, snap, loaded⟩
  cases phase with
  | readLeftover pos =>
    cases h
    exact ⟨mem_tombstoneRead, id⟩
  | readCancels pos =>
    cases h
    exact ⟨mem_tombstoneRead, id⟩
  | readExpireover pos =>
    cases h
    exact ⟨mem_tombstoneRead, id⟩
  | openCancels =>
    simp only [expireStep] at h
    split at h
    all_goals
      cases h
      exact ⟨.inl, id⟩
  | lockCancels fd | lockHeader m fd =>
    simp only [expireStep] at h
    split at h
    · cases h
      exact ⟨.inl, id⟩
    · cases h
  | renameCancels fd =>
    cases h
    refine ⟨.inl, fun ht => ?_⟩
    rcases (Disk.tracks_rename d t).mp ht with h | h
    · exact ⟨_, h⟩
    · exact ⟨_, h⟩
  | reconcile =>
    cases h
    refine ⟨fun ht => .inl ?_, fun ht => ?_⟩
    · simp only [loadReturn] at ht
      split at ht
      · exact ht
      · cases ht
    · unfold reconcile at ht
      split_ifs at ht
      all_goals first
        | exact ht
        | exact Disk.tracks_of_unlink ht
  | unlinkExpireover | unlinkSnapshot =>
    cases h
    refine ⟨.inl, fun ht => ?_⟩
    dsimp only at ht
    split at ht
    · exact Disk.tracks_of_unlink ht
    · exact ht
  | openHeader m =>
    rcases hi : d.ino m with _ | fd
    all_goals
      simp only [expireStep, hi, Option.some.injEq, Prod.mk.injEq] at h
      obtain ⟨rfl, rfl⟩ := h
    · exact ⟨.inl, Exists.imp fun n hn => (Disk.holds_creat hi n t).mp hn⟩
    · exact ⟨.inl, id⟩
  | writeHeader m fd =>
    cases h
    exact ⟨.inl, Exists.imp fun n hn => (d.holds_ensureHeader fd n t).mp hn⟩
  | exited => cases h
  | _ =>
    cases h
    exact ⟨.inl, id⟩

/-- Every call has returned, and the token is in no file and no hash set. -/
structure Lost (s : System P TOKEN) (t : TOKEN) : Prop where
  returned : ∀ p, ∃ ok, s.procs p = .returned ok
  files : ¬ s.disk.Tracks t
  expire : ∀ e, s.expire = some e → t ∉ e.h
  done : ∀ h ∈ s.done, t ∉ h

theorem Lost.next {t : TOKEN} (h : Lost s t) {act : Act P} (hnext : Next tok s act s') :
    Lost s' t := by
  have hreturned {p : P} {pc : Proc} (hp : s.procs p = pc) (hpc : ∀ ok, pc ≠ .returned ok) :
      False :=
    let ⟨ok, hok⟩ := h.returned p
    hpc ok (hp.symm.trans hok)
  cases act with
  | «open» p =>
    rcases hnext with ⟨hp, _⟩ | ⟨hp, _⟩
    · exact (hreturned hp nofun).elim
    · exact (hreturned hp nofun).elim
  | lock p =>
    obtain ⟨_, _, hp, _⟩ := hnext
    exact (hreturned hp nofun).elim
  | append p =>
    obtain ⟨_, hp, _⟩ := hnext
    exact (hreturned hp nofun).elim
  | close p =>
    obtain ⟨_, hp, _⟩ := hnext
    exact (hreturned hp nofun).elim
  | fail p =>
    obtain ⟨ok, hok⟩ := h.returned p
    exact absurd hok (hnext.1 ok)
  | begin =>
    obtain ⟨_, rfl⟩ := hnext
    refine ⟨h.returned, h.files, fun e he => ?_, h.done⟩
    cases he
    nofun
  | expire =>
    obtain ⟨e, free, d', e', he, _, hstep, rfl⟩ := hnext
    obtain ⟨hh, hd⟩ := expireStep_invents hstep t
    refine ⟨h.returned, mt hd h.files, fun e'' he'' => ?_, h.done⟩
    cases he''
    exact fun ht => (hh ht).elim (h.expire e he) h.files
  | exit =>
    obtain ⟨e, he, _, rfl⟩ := hnext
    refine ⟨h.returned, h.files, fun _ he' => (by cases he'), fun hash hmem => ?_⟩
    rcases List.mem_append.mp hmem with hmem | hmem
    · exact h.done hash hmem
    · rw [List.mem_singleton.mp hmem]
      exact h.expire e he

/-- What is lost is never consumed. -/
theorem Lost.not_consumed (h : Lost s (tok p)) {acts : List (Act P)}
    (hrun : Steps (Next tok) s acts s') : ¬ Consumed tok s' p := by
  have hlost : Lost s' (tok p) :=
    @Steps.invariant _ _ _ (fun s => Lost s (tok p)) _ _ _ (fun _ _ _ hnext h => h.next hnext)
      hrun h
  rintro ⟨hash, hmem, ht⟩
  exact hlost.done hash (List.mem_of_mem_drop hmem) ht

/-- While no call holds a lock, expire goes on as it does alone. -/
theorem steps_runFor (hfree : ∀ fd, ¬ s.Shared fd) (k : ℕ) {e : Expire TOKEN}
    (he : s.expire = some e) : ∃ acts, Steps (Next tok) s acts
      { s with disk := (runFor k (s.disk, e)).1, expire := some (runFor k (s.disk, e)).2 } := by
  induction k generalizing s e with
  | zero => exact ⟨[], by rw [runFor, ← he]; exact .nil⟩
  | succ k ih =>
    rcases hy : expireStep (fun _ => true) s.disk e with _ | ⟨d', e'⟩
    · refine ⟨[], ?_⟩
      rw [runFor, hy, ← he]
      exact .nil
    · have hone : Next tok s .expire { s with disk := d', expire := some e' } :=
        ⟨e, fun _ => true, d', e', he, fun fd => by simp [hfree fd], hy, rfl⟩
      obtain ⟨acts, hacts⟩ := ih (s := { s with disk := d', expire := some e' }) hfree rfl
      refine ⟨[.expire] ++ acts, ?_⟩
      rw [runFor, hy]
      exact (Steps.single hone).trans hacts

end Runs

/-- `SMcanceltombstone` opens the file, a whole cycle of expire passes, and then it
locks the file and appends: it returns true, and no cycle ever gets the token. -/
theorem late_append_is_lost : ∃ (s₀ : System Unit ℕ) (acts : List (Act Unit)) (s : System Unit ℕ),
    Fresh s₀ ∧ Steps (Next fun _ => 7) s₀ acts s ∧ s.procs () = .returned true ∧
      ∀ acts' s', Steps (Next fun _ => 7) s acts' s' → ¬ Consumed (fun _ => 7) s' () := by
  obtain ⟨d, hd⟩ : ∃ d, d = pathdb (some []) none := ⟨_, rfl⟩
  obtain ⟨x, hx⟩ : ∃ x, x = runFor 20 (d, .start true) := ⟨_, rfl⟩
  have hexit : x.2.phase = .exited := by
    rw [hx, hd]
    decide
  have hopened : d.ino .cancels = some 0 := by
    rw [hd]
    rfl
  -- opened, then the cycle, then locked, appended and closed
  let s₀ : System Unit ℕ := ⟨d, none, [], fun _ => .start, fun _ => 0⟩
  let s₁ : System Unit ℕ := ⟨d, some (.start true), [], fun _ => .opened false 0, fun _ => 0⟩
  let s₂ : System Unit ℕ := ⟨x.1, some x.2, [], fun _ => .opened false 0, fun _ => 0⟩
  let s : System Unit ℕ :=
    ⟨x.1.append 0 (.token 7), none, [x.2.h], fun _ => .returned true, fun _ => 1⟩
  have hopen : Steps (Next fun _ => 7) s₀ [.open (), .begin] s₁ := by
    have hone : Next (fun _ => 7) s₀ (.open ()) { s₁ with expire := none } := by
      refine .inl ⟨rfl, ?_⟩
      simp only [System.openCancels, s₀, hopened]
      rfl
    exact (Steps.single hone).snoc ⟨rfl, rfl⟩
  have hfree (fd : ℕ) : ¬ s₁.Shared fd := by
    rintro ⟨p, hp | hp⟩ <;> cases hp
  obtain ⟨acts, hcycle⟩ : ∃ acts, Steps (Next fun _ => 7) s₁ acts s₂ := by
    rw [show s₂ = { s₁ with disk := (runFor 20 (d, .start true)).1,
                            expire := some (runFor 20 (d, .start true)).2 } by rw [← hx]]
    exact steps_runFor hfree 20 rfl
  have hend : Steps (Next fun _ => 7) s₂ [.exit, .lock (), .append (), .close ()] s := by
    let s₃ : System Unit ℕ := { s₂ with expire := none, done := [x.2.h] }
    have hexited : Next (fun _ => 7) s₂ .exit s₃ := ⟨_, rfl, hexit, rfl⟩
    have hidle : ¬ s₃.Exclusive 0 := by
      rintro ⟨_, he, _⟩
      cases he
    have hlock : Next (fun _ => 7) s₃ (.lock ()) (s₃.goto () (.locked 0)) :=
      ⟨false, 0, rfl, .inr ⟨hidle, rfl⟩⟩
    have happend : Next (fun _ => 7) (s₃.goto () (.locked 0)) (.append ())
        { s with procs := fun _ => .appended 0 } :=
      ⟨0, rfl, rfl⟩
    have hclose : Next (fun _ => 7) { s with procs := fun _ => .appended 0 } (.close ()) s :=
      ⟨0, rfl, rfl⟩
    exact (((Steps.single hexited).snoc hlock).snoc happend).snoc hclose
  refine ⟨s₀, _, s, ⟨rfl, rfl, fun _ => rfl⟩, (hopen.trans hcycle).trans hend, rfl,
    fun acts' s' hrun => Lost.not_consumed ?_ hrun⟩
  refine ⟨fun _ => ⟨true, rfl⟩, ?_, fun _ he => (by cases he), ?_⟩
  · rintro ⟨n, hn⟩
    replace hn : (x.1.append 0 (.token 7)).Holds n 7 := hn
    rw [hx, hd] at hn
    cases n <;> revert hn <;> decide
  · show ∀ h ∈ [x.2.h], 7 ∉ h
    rw [hx, hd]
    decide

end Inn.Tombstone
