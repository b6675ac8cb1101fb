import Inn.Rules
import Inn.Tombstone.Basic
import Mathlib.Logic.Relation

/-!
# Inn.Tombstone.Crash — runs of expire that are stopped

Between successful runs of expire the storage side appends to
`cancels.tombstone`, and runs may be stopped anywhere before the history has
been rewritten. `stop_keeps_iff` says exactly which stops keep every token in
some file; `stopped_runs_keep_tokens` carries it over any number of stopped
runs to the run that succeeds.

A token gets lost where both `cancels.tombstone` and a leftover
`cancels.tombstone.processing` exist: the rename puts the first over the
second, and the loader then unlinks the name both had.
-/

namespace Inn.Tombstone

open Relation

variable {TOKEN : Type}

/-- A token of one of the three files. -/
def Disk.Tracks (d : Disk TOKEN) (t : TOKEN) : Prop := ∃ n, d.Holds n t

/-- `SMcanceltombstone` of a token, while no expire runs. -/
def Disk.cancel (d : Disk TOKEN) (t : TOKEN) : Disk TOKEN :=
  match d.ino .cancels with
  | none => (d.creat .cancels).append d.next (.token t)
  | some i => d.append i (.token t)

/-- What happens to the files between successful runs. -/
inductive Event (TOKEN : Type) where
  | appended (t : TOKEN)
  | stopped (consuming : Bool) (phase : Phase)

/-- The stops that lose nothing: where `cancels.tombstone` and a leftover both
exist and the run got past the rename, the leftover's tokens have to be in
another file, and past the reconciliation those of `cancels.tombstone` too. -/
def SafeStop (d : Disk TOKEN) : Event TOKEN → Prop
  | .appended _ => True
  | .stopped consuming phase =>
    consuming = true → (d.ino .cancels).isSome = true → (d.ino .processing).isSome = true →
      phase.renamed = true → ∀ t,
        (d.Holds .processing t →
          d.Holds .expireover t ∨ phase.reconciled = false ∧ d.Holds .cancels t) ∧
        (phase.reconciled = true → d.Holds .cancels t → d.Holds .expireover t)

/-! ## What a run has done at each phase -/

/-- The run detaches `cancels.tombstone`. -/
def Disk.detaches (d : Disk TOKEN) (consuming : Bool) : Bool :=
  consuming && (d.ino .cancels).isSome

/-- The disk of a run that started on `d`, at a phase. -/
def Disk.atPhase (d : Disk TOKEN) (consuming : Bool) (p : Phase) : Disk TOKEN :=
  if d.detaches consuming && p.renamed then
    if p.reconciled && (d.ino .processing).isSome then d.rename.unlink .processing
    else d.rename
  else d

/-- The tokens a run that started on `d` has in its hash set at a phase. -/
def Disk.Seen (d : Disk TOKEN) (t : TOKEN) : Phase → Prop
  | .probe => False
  | .readLeftover pos => .token t ∈ (d.read .processing).take pos
  | .openCancels | .lockCancels _ | .renameCancels _ | .closeCancels _ => d.Holds .processing t
  | .readCancels pos => d.Holds .processing t ∨ .token t ∈ (d.read .cancels).take pos
  | .readExpireover pos =>
    d.Holds .processing t ∨ d.Holds .cancels t ∨ .token t ∈ (d.read .expireover).take pos
  | _ => d.Tracks t

/-- A run that detaches `cancels.tombstone` has found one, and has it open. -/
def Disk.Opened (d : Disk TOKEN) (consuming : Bool) : Phase → Prop
  | .openCancels => consuming = true
  | .lockCancels fd | .renameCancels fd | .closeCancels fd =>
    consuming = true ∧ d.ino .cancels = some fd
  | .readCancels _ => consuming = true → (d.ino .cancels).isSome = true
  | _ => True

/-- What holds of a run that started on `d`, until the history is rewritten. -/
structure Loading (d : Disk TOKEN) (consuming : Bool) (d' : Disk TOKEN) (e : Expire TOKEN) :
    Prop where
  consuming_eq : e.consuming = consuming
  disk : d' = d.atPhase consuming e.phase
  seen : ∀ t, d.Seen t e.phase → t ∈ e.h
  opened : d.Opened consuming e.phase
  probed : e.phase ≠ .probe → e.expireoverPresent = (d.ino .expireover).isSome ∧
    e.leftoverPresent = (d.ino .processing).isSome ∧
    e.cancelsPresent = (d.ino .cancels).isSome
  counted : 0 < e.nLeftover → (d.ino .processing).isSome = true
  snapshot : e.phase.reconciled = false →
    e.snapshot = (d.detaches consuming && e.phase.renamed)

variable {d d' d'' : Disk TOKEN} {e e' : Expire TOKEN} {consuming : Bool}

theorem loading_start (d : Disk TOKEN) (consuming : Bool) :
    Loading d consuming d (.start consuming) where
  consuming_eq := rfl
  disk := by simp [Disk.atPhase, Phase.renamed, Expire.start]
  seen := fun _ ht => ht.elim
  opened := trivial
  probed := fun h => absurd rfl h
  counted := fun h => absurd h (Nat.lt_irrefl 0)
  snapshot := fun _ => by simp [Phase.renamed, Expire.start]

/-- The disk between the rename and the reconciliation. -/
theorem Disk.atPhase_renamed {p : Phase} (hr : p.renamed = true) (hc : p.reconciled = false) :
    d.atPhase consuming p = if d.detaches consuming then d.rename else d := by
  simp [Disk.atPhase, hr, hc]

/-- The loader unlinks the leftover's name where it has a snapshot too: it is the
snapshot's name. -/
theorem reconcile_disk (d : Disk TOKEN) (hleft : 0 < e.nLeftover → e.leftoverPresent = true) :
    (reconcile d e).1 =
      if e.consuming && e.snapshot && e.leftoverPresent then d.unlink .processing else d := by
  rcases e with ⟨_, cons, _, lo, _, _, n, snap, _⟩
  by_cases hn : 0 < n
  · have hlo : lo = true := hleft hn
    cases cons <;> cases snap <;> simp [reconcile, hn, hlo]
  · cases cons <;> cases snap <;> cases lo <;> simp [reconcile, hn]

/-- At the end of a file every line has been read. -/
theorem take_of_getElem?_none {α : Type} {l : List α} {pos : ℕ} (h : l[pos]? = none) :
    l.take pos = l :=
  List.take_of_length_le (List.getElem?_eq_none_iff.mp h)

/-- After the rename the tokens are those of `cancels.tombstone`, under the
other name, and of `expireover.tombstone`. -/
theorem Disk.tracks_rename (d : Disk TOKEN) (t : TOKEN) :
    d.rename.Tracks t ↔ d.Holds .cancels t ∨ d.Holds .expireover t := by
  constructor
  · rintro ⟨_ | _ | _, h⟩
    · exact absurd h (holds_rename_cancels t)
    · exact .inl (by simpa [Holds] using h)
    · exact .inr (by simpa [Holds] using h)
  · rintro (h | h)
    · exact ⟨.processing, by simpa [Holds] using h⟩
    · exact ⟨.expireover, by simpa [Holds] using h⟩

theorem Disk.tracks_of_unlink {d : Disk TOKEN} {n : Name} {t : TOKEN} (h : (d.unlink n).Tracks t) :
    d.Tracks t := by
  obtain ⟨m, hm⟩ := h
  rcases eq_or_ne m n with rfl | hne
  · exact absurd hm (holds_unlink_self m t)
  · exact ⟨m, (holds_unlink_of_ne hne t).mp hm⟩

/-- With that name unlinked only `expireover.tombstone` is left. -/
theorem Disk.tracks_rename_unlink (d : Disk TOKEN) (t : TOKEN) :
    (d.rename.unlink .processing).Tracks t ↔ d.Holds .expireover t := by
  constructor
  · rintro ⟨_ | _ | _, h⟩
    · rw [holds_unlink_of_ne (by simp)] at h
      exact absurd h (holds_rename_cancels t)
    · exact absurd h (holds_unlink_self _ t)
    · rw [holds_unlink_of_ne (by simp)] at h
      simpa [Holds] using h
  · intro h
    exact ⟨.expireover, (holds_unlink_of_ne (by simp) t).mpr (by simpa [Holds] using h)⟩

/-- The files at a phase still have every token exactly where the stop is safe. -/
theorem Disk.atPhase_keeps_iff (d : Disk TOKEN) (consuming : Bool) (p : Phase) :
    (∀ t, d.Tracks t → (d.atPhase consuming p).Tracks t) ↔ SafeStop d (.stopped consuming p) := by
  by_cases hmoved : (d.detaches consuming && p.renamed) = true
  swap
  · -- nothing has been renamed
    rw [atPhase, if_neg hmoved]
    refine ⟨fun _ hcons hc _ hren => absurd ?_ hmoved, fun _ t ht => ht⟩
    rw [detaches, hcons, hc, hren]
    rfl
  obtain ⟨hdet, hren⟩ := Bool.and_eq_true_iff.mp hmoved
  obtain ⟨hcons, hc⟩ := Bool.and_eq_true_iff.mp hdet
  rw [atPhase, if_pos hmoved]
  by_cases hleft : (d.ino .processing).isSome = true
  swap
  · -- without a leftover the rename loses nothing
    simp only [hleft, Bool.and_false, Bool.false_eq_true, if_false]
    refine ⟨fun _ _ _ h => absurd h hleft, fun _ t ht => (tracks_rename d t).mpr ?_⟩
    rcases ht with ⟨_ | _ | _, h⟩
    · exact .inl h
    · exact absurd h.isSome hleft
    · exact .inr h
  cases hrec : p.reconciled with
  | false =>
    simp only [Bool.false_and, Bool.false_eq_true, if_false]
    refine ⟨fun h _ _ _ _ t => ⟨fun ht => ?_, fun h' => by simp [hrec] at h'⟩,
      fun h t ht => (tracks_rename d t).mpr ?_⟩
    · rcases (tracks_rename d t).mp (h t ⟨_, ht⟩) with h' | h'
      · exact .inr ⟨hrec, h'⟩
      · exact .inl h'
    · rcases ht with ⟨_ | _ | _, ht⟩
      · exact .inl ht
      · rcases (h hcons hc hleft hren t).1 ht with h' | ⟨_, h'⟩
        · exact .inr h'
        · exact .inl h'
      · exact .inr ht
  | true =>
    simp only [hleft, Bool.and_self, if_true]
    refine ⟨fun h _ _ _ _ t => ⟨fun ht => .inl ?_, fun _ ht => ?_⟩,
      fun h t ht => (tracks_rename_unlink d t).mpr ?_⟩
    · exact (tracks_rename_unlink d t).mp (h t ⟨_, ht⟩)
    · exact (tracks_rename_unlink d t).mp (h t ⟨_, ht⟩)
    · rcases ht with ⟨_ | _ | _, ht⟩
      · exact (h hcons hc hleft hren t).2 hrec ht
      · rcases (h hcons hc hleft hren t).1 ht with h' | ⟨h', _⟩
        · exact h'
        · rw [hrec] at h'
          cases h'
      · exact ht

/-- `SMcanceltombstone` adds its token and keeps the others. -/
theorem cancel_tracks (d : Disk TOKEN) {t u : TOKEN} (h : u = t ∨ d.Tracks u) :
    (d.cancel t).Tracks u := by
  rcases hc : d.ino .cancels with _ | i
  · simp only [Disk.cancel, hc]
    rcases h with rfl | ⟨m, hm⟩
    · exact ⟨.cancels, (Disk.holds_append ..).mpr (.inr ⟨by simp [Disk.creat], rfl⟩)⟩
    · exact ⟨m, (Disk.holds_append ..).mpr (.inl ((Disk.holds_creat hc m u).mpr hm))⟩
  · simp only [Disk.cancel, hc]
    rcases h with rfl | ⟨m, hm⟩
    · exact ⟨.cancels, (Disk.holds_append ..).mpr (.inr ⟨hc, rfl⟩)⟩
    · exact ⟨m, (Disk.holds_append ..).mpr (.inl hm)⟩

/-! ## One step of a run -/

section Runs

variable [DecidableEq TOKEN]

/-- One step of a run of expire that runs alone. -/
def LoneStep (x y : Disk TOKEN × Expire TOKEN) : Prop :=
  expireStep (fun _ => true) x.1 x.2 = some y

/-- An event's effect: a run that is stopped leaves the files as they are at
that point. -/
def Happens (d : Disk TOKEN) : Event TOKEN → Disk TOKEN → Prop
  | .appended t, d' => d' = d.cancel t
  | .stopped consuming phase, d' => phase.rewritten = false ∧
      ∃ e, ReflTransGen LoneStep (d, .start consuming) (d', e) ∧ e.phase = phase

/-- A run from start to exit, which rewrites the history with the hash set `h`. -/
def Succeeds (d : Disk TOKEN) (consuming : Bool) (h : List TOKEN) : Prop :=
  ∃ d' e, ReflTransGen LoneStep (d, .start consuming) (d', e) ∧ e.phase = .exited ∧ e.h = h

/-- A line that has been read is in the hash set with those before it. -/
theorem mem_insertLine_of_take {lines : List (Line TOKEN)} {pos : ℕ} {line : Line TOKEN}
    {h : List TOKEN} {t : TOKEN} (hline : lines[pos]? = some line)
    (hseen : .token t ∈ lines.take pos → t ∈ h) (ht : .token t ∈ lines.take (pos + 1)) :
    t ∈ insertLine h line := by
  rw [List.take_add_one, hline, List.mem_append] at ht
  rw [mem_insertLine]
  rcases ht with ht | ht
  · exact .inl (hseen ht)
  · exact .inr (List.mem_singleton.mp ht).symm

/-- Once the history is rewritten it stays so, and the hash set is the one that
was used. -/
theorem rewritten_step (hstep : LoneStep (d', e) (d'', e')) (hr : e.phase.rewritten = true) :
    e'.phase.rewritten = true ∧ e'.h = e.h := by
  rcases e with ⟨phase, cons, eo, lo, ca, h, n, snap, loaded⟩
  cases phase with
  | openHeader m =>
    rcases hi : d'.ino m with _ | fd
    all_goals
      simp only [LoneStep, expireStep, hi, Option.some.injEq, Prod.mk.injEq] at hstep
      obtain ⟨rfl, rfl⟩ := hstep
      exact ⟨rfl, rfl⟩
  | closeHeader m fd =>
    simp only [LoneStep, expireStep, Option.some.injEq, Prod.mk.injEq] at hstep
    obtain ⟨rfl, rfl⟩ := hstep
    exact ⟨by cases m <;> rfl, rfl⟩
  | exited => cases hstep
  | unlinkExpireover => cases hstep; exact ⟨rfl, rfl⟩
  | unlinkSnapshot => cases hstep; exact ⟨rfl, rfl⟩
  | lockHeader m fd => cases hstep; exact ⟨rfl, rfl⟩
  | writeHeader m fd => cases hstep; exact ⟨rfl, rfl⟩
  | _ => cases hr

theorem tombstoneRead_rewritten (lines : List (Line TOKEN)) (pos : ℕ) (e : Expire TOKEN)
    {again : ℕ → Phase} {done : Phase} (hagain : ∀ k, (again k).rewritten = false)
    (hdone : done.rewritten = false) :
    (tombstoneRead lines pos e again done).phase.rewritten = false := by
  rcases hline : lines[pos]? with _ | line
  · rw [tombstoneRead_none hline]
    exact hdone
  · rw [tombstoneRead_some hline]
    exact hagain _

/-- `HISexpire` is the step that rewrites the history. -/
theorem rewriting_step (hstep : LoneStep (d', e) (d'', e')) (hr : e.phase.rewritten = false)
    (hr' : e'.phase.rewritten = true) : e.phase = .HISexpire ∧ e'.h = e.h := by
  rcases e with ⟨phase, cons, eo, lo, ca, h, n, snap, loaded⟩
  cases phase with
  | HISexpire => cases hstep; exact ⟨rfl, rfl⟩
  | readLeftover pos =>
    cases hstep
    have hdone : (if cons then Phase.openCancels else .readCancels 0).rewritten = false := by
      cases cons <;> rfl
    exact absurd ((tombstoneRead_rewritten _ pos _ (fun _ => rfl) hdone).symm.trans hr') (by simp)
  | readCancels pos =>
    cases hstep
    exact absurd ((tombstoneRead_rewritten _ pos _ (fun _ => rfl) rfl).symm.trans hr') (by simp)
  | readExpireover pos =>
    cases hstep
    exact absurd ((tombstoneRead_rewritten _ pos _ (fun _ => rfl) rfl).symm.trans hr') (by simp)
  | openCancels =>
    rcases hc : d'.ino .cancels with _ | fd
    all_goals
      simp only [LoneStep, expireStep, hc, Option.some.injEq, Prod.mk.injEq] at hstep
      obtain ⟨rfl, rfl⟩ := hstep
      cases hr'
  | probe => cases hstep; cases hr'
  | lockCancels fd => cases hstep; cases hr'
  | renameCancels fd => cases hstep; cases hr'
  | closeCancels fd => cases hstep; cases hr'
  | reconcile => cases hstep; cases hr'
  | _ => cases hr

theorem Loading.step (hl : Loading d consuming d' e)
    (hstep : LoneStep (d', e) (d'', e')) (hlate : e'.phase.rewritten = false) :
    Loading d consuming d'' e' := by
  obtain ⟨hcons, hdisk, hseen, hopen, hprobed, hcount, hsnap⟩ := hl
  rcases e with ⟨phase, cons, eo, lo, ca, h, n, snap, loaded⟩
  replace hcons : cons = consuming := hcons
  subst consuming
  cases phase with
  | probe =>
    cases hstep
    have hd : d' = d := by simpa [Disk.atPhase, Phase.renamed] using hdisk
    subst hd
    refine ⟨rfl, by simp [Disk.atPhase, Phase.renamed], fun t ht => ?_, trivial,
      fun _ => ⟨rfl, rfl, rfl⟩, hcount,
      fun _ => by simpa [Phase.renamed] using hsnap rfl⟩
    simp [Disk.Seen] at ht
  | readLeftover pos =>
    have hd : d' = d := by simpa [Disk.atPhase, Phase.renamed] using hdisk
    subst hd
    replace hsnap : snap = false := by simpa [Phase.renamed] using hsnap rfl
    have hfound := hprobed (by simp)
    rcases hline : (d'.read .processing)[pos]? with _ | line
    · -- the end of the file
      simp only [LoneStep, expireStep, tombstoneRead_none hline, hline, Expire.goto,
        Option.some.injEq, Prod.mk.injEq] at hstep
      obtain ⟨rfl, rfl⟩ := hstep
      replace hseen : ∀ t, d'.Holds .processing t → t ∈ h := by
        simpa [Disk.Seen, take_of_getElem?_none hline, Disk.Holds] using hseen
      cases cons with
      | true =>
        exact ⟨rfl, by simp [Disk.atPhase, Phase.renamed], hseen, rfl, fun _ => hfound,
          hcount, fun _ => by simpa [Phase.renamed] using hsnap⟩
      | false =>
        have hnd : d'.detaches false = false := by simp [Disk.detaches]
        refine ⟨rfl, by simp [Disk.atPhase, hnd], fun t ht => ?_,
          fun hcons => (Bool.false_ne_true hcons).elim, fun _ => hfound, hcount,
          fun _ => by simpa [hnd] using hsnap⟩
        rcases ht with ht | ht
        · exact hseen t ht
        · simp at ht
    · simp only [LoneStep, expireStep, tombstoneRead_some hline, hline,
        Option.some.injEq, Prod.mk.injEq] at hstep
      obtain ⟨rfl, rfl⟩ := hstep
      refine ⟨rfl, by simp [Disk.atPhase, Phase.renamed],
        fun t => mem_insertLine_of_take hline (hseen t), trivial, fun _ => hfound, fun _ => ?_,
        fun _ => by simpa [Phase.renamed] using hsnap⟩
      rcases hp : d'.ino .processing with _ | i
      · simp [Disk.read_none hp] at hline
      · rfl
  | openCancels =>
    have hd : d' = d := by simpa [Disk.atPhase, Phase.renamed] using hdisk
    subst hd
    replace hsnap : snap = false := by simpa [Phase.renamed] using hsnap rfl
    have hfound := hprobed (by simp)
    rcases hc : d'.ino .cancels with _ | fd
    · -- no `cancels.tombstone`: the run goes on without a snapshot
      simp only [LoneStep, expireStep, hc, Expire.goto, Option.some.injEq, Prod.mk.injEq] at hstep
      obtain ⟨rfl, rfl⟩ := hstep
      have hnd : d'.detaches cons = false := by simp [Disk.detaches, hc]
      refine ⟨rfl, by simp [Disk.atPhase, hnd], fun t ht => ?_, trivial, fun _ => hfound,
        hcount, fun _ => by simpa [hnd] using hsnap⟩
      rcases ht with ht | ht | ht
      · exact hseen t ht
      · rw [Disk.Holds, Disk.read_none hc] at ht
        cases ht
      · simp at ht
    · simp only [LoneStep, expireStep, hc, Expire.goto, Option.some.injEq, Prod.mk.injEq] at hstep
      obtain ⟨rfl, rfl⟩ := hstep
      exact ⟨rfl, by simp [Disk.atPhase, Phase.renamed], hseen, ⟨hopen, hc⟩, fun _ => hfound,
        hcount, fun _ => by simpa [Phase.renamed] using hsnap⟩
  | lockCancels fd =>
    cases hstep
    exact ⟨rfl, hdisk, hseen, hopen, fun _ => hprobed (by simp), hcount, hsnap⟩
  | renameCancels fd =>
    have hd : d' = d := by simpa [Disk.atPhase, Phase.renamed] using hdisk
    subst hd
    obtain ⟨hct, hfd⟩ := hopen
    have hdet : d'.detaches cons = true := by simp [Disk.detaches, hct, hfd]
    cases hstep
    exact ⟨rfl, by simp [Disk.atPhase, hdet, Phase.renamed, Phase.reconciled], hseen,
      ⟨hct, hfd⟩, fun _ => hprobed (by simp), hcount, fun _ => by simp [hdet, Phase.renamed]⟩
  | closeCancels fd =>
    cases hstep
    refine ⟨rfl, hdisk, fun t ht => ?_, fun _ => by simp [hopen.2],
      fun _ => hprobed (by simp), hcount, hsnap⟩
    rcases ht with ht | ht
    · exact hseen t ht
    · simp at ht
  | readCancels pos =>
    have hread : d'.read (if cons then .processing else .cancels) = d.read .cancels := by
      rw [hdisk, Disk.atPhase_renamed rfl rfl]
      cases cons with
      | false => simp [Disk.detaches]
      | true => simp [Disk.detaches, hopen rfl]
    rcases hline : (d.read .cancels)[pos]? with _ | line
    · simp only [LoneStep, expireStep, hread, tombstoneRead_none hline, Expire.goto,
        Option.some.injEq, Prod.mk.injEq] at hstep
      obtain ⟨rfl, rfl⟩ := hstep
      refine ⟨rfl, hdisk, fun t ht => ?_, trivial, fun _ => hprobed (by simp), hcount, hsnap⟩
      simp only [Disk.Seen, take_of_getElem?_none hline] at hseen
      rcases ht with ht | ht | ht
      · exact hseen t (.inl ht)
      · exact hseen t (.inr ht)
      · simp at ht
    · simp only [LoneStep, expireStep, hread, tombstoneRead_some hline,
        Option.some.injEq, Prod.mk.injEq] at hstep
      obtain ⟨rfl, rfl⟩ := hstep
      refine ⟨rfl, hdisk, fun t ht => ?_, hopen, fun _ => hprobed (by simp), hcount, hsnap⟩
      rcases ht with ht | ht
      · exact mem_insertLine.mpr (.inl (hseen t (.inl ht)))
      · exact mem_insertLine_of_take hline (fun h' => hseen t (.inr h')) ht
  | readExpireover pos =>
    have hread : d'.read .expireover = d.read .expireover := by
      rw [hdisk, Disk.atPhase_renamed rfl rfl]
      split <;> simp
    rcases hline : (d.read .expireover)[pos]? with _ | line
    · simp only [LoneStep, expireStep, hread, tombstoneRead_none hline, Expire.goto,
        Option.some.injEq, Prod.mk.injEq] at hstep
      obtain ⟨rfl, rfl⟩ := hstep
      refine ⟨rfl, hdisk, fun t ht => hseen t ?_, trivial, fun _ => hprobed (by simp), hcount,
        hsnap⟩
      simp only [Disk.Seen, take_of_getElem?_none hline]
      rcases ht with ⟨_ | _ | _, ht⟩
      · exact .inr (.inl ht)
      · exact .inl ht
      · exact .inr (.inr ht)
    · simp only [LoneStep, expireStep, hread, tombstoneRead_some hline,
        Option.some.injEq, Prod.mk.injEq] at hstep
      obtain ⟨rfl, rfl⟩ := hstep
      refine ⟨rfl, hdisk, fun t ht => ?_, trivial, fun _ => hprobed (by simp), hcount, hsnap⟩
      rcases ht with ht | ht | ht
      · exact mem_insertLine.mpr (.inl (hseen t (.inl ht)))
      · exact mem_insertLine.mpr (.inl (hseen t (.inr (.inl ht))))
      · exact mem_insertLine_of_take hline (fun h' => hseen t (.inr (.inr h'))) ht
  | reconcile =>
    replace hsnap : snap = d.detaches cons := by simpa [Phase.renamed] using hsnap rfl
    obtain ⟨heo, hlo, hca⟩ : eo = (d.ino .expireover).isSome ∧ lo = (d.ino .processing).isSome ∧
        ca = (d.ino .cancels).isSome := hprobed (by simp)
    have hleft : 0 < n → lo = true := fun h' => hlo.trans (hcount h')
    cases hstep
    refine ⟨rfl, ?_, fun t ht => ?_, trivial, fun _ => ⟨heo, hlo, hca⟩, hcount,
      fun h' => by cases h'⟩
    · rw [reconcile_disk _ hleft, hdisk, Disk.atPhase_renamed rfl rfl]
      simp only [loadReturn, Disk.atPhase, hsnap, hlo, Phase.renamed, Phase.reconciled,
        Bool.and_true, Bool.true_and]
      cases hdet : d.detaches cons with
      | false => simp
      | true =>
        have hcons : cons = true := (Bool.and_eq_true_iff.mp hdet).1
        simp [hcons]
    · -- a token comes from a file, so the hash set is returned
      obtain ⟨m, hm⟩ := ht
      have hsome := hm.isSome
      have hloaded : (eo || lo || ca) = true := by
        cases m <;> simp [heo, hlo, hca, hsome]
      simpa [loadReturn, hloaded] using hseen t ⟨m, hm⟩
  | HISexpire =>
    cases hstep
    cases cons <;> cases hlate
  | _ =>
    have hr := (rewritten_step hstep rfl).1
    rw [hlate] at hr
    cases hr

/-- What a run has done, wherever it is. -/
theorem run_loading (h : ReflTransGen LoneStep (d, .start consuming) (d', e)) :
    (e.phase.rewritten = false → Loading d consuming d' e) ∧
      (e.phase.rewritten = true → ∀ t, d.Tracks t → t ∈ e.h) := by
  generalize hx : (d', e) = x at h
  induction h generalizing d' e with
  | refl =>
    cases hx
    exact ⟨fun _ => loading_start d consuming, fun hr => by cases hr⟩
  | @tail y x hrun hstep ih =>
    cases hx
    obtain ⟨hload, hseen⟩ := @ih y.1 y.2 rfl
    rcases hr : y.2.phase.rewritten with _ | _
    · refine ⟨fun hlate => (hload hr).step hstep hlate, fun hlate t ht => ?_⟩
      obtain ⟨hphase, hh⟩ := rewriting_step hstep hr hlate
      exact hh ▸ (hload hr).seen t (by rw [hphase]; exact ht)
    · obtain ⟨hr', hh⟩ := rewritten_step hstep hr
      refine ⟨fun hlate => ?_, fun _ t ht => hh ▸ hseen hr t ht⟩
      rw [hr'] at hlate
      cases hlate

/-! ## A run that is not stopped -/

/-- The first `k` steps of a run that runs alone, fewer where it exits. -/
def runFor : ℕ → Disk TOKEN × Expire TOKEN → Disk TOKEN × Expire TOKEN
  | 0, x => x
  | k + 1, x =>
    match expireStep (fun _ => true) x.1 x.2 with
    | none => x
    | some y => runFor k y

theorem runFor_reaches (k : ℕ) (x : Disk TOKEN × Expire TOKEN) :
    ReflTransGen LoneStep x (runFor k x) := by
  induction k generalizing x with
  | zero => exact .refl
  | succ k ih =>
    rcases hy : expireStep (fun _ => true) x.1 x.2 with _ | y
    · rw [runFor, hy]
    · rw [runFor, hy]
      exact .head hy (ih y)

theorem happens_runFor {k : ℕ} {p : Phase} (hlate : p.rewritten = false)
    (h : (runFor k (d, .start consuming)).2.phase = p) :
    Happens d (.stopped consuming p) (runFor k (d, .start consuming)).1 :=
  ⟨hlate, _, runFor_reaches k _, h⟩

theorem succeeds_runFor {k : ℕ} (h : (runFor k (d, .start consuming)).2.phase = .exited) :
    Succeeds d consuming (runFor k (d, .start consuming)).2.h :=
  ⟨_, _, runFor_reaches k _, h, rfl⟩

/-! ## Stopped runs -/

/-- A stopped run keeps every token in some file exactly when the stop is safe. -/
theorem stop_keeps_iff {p : Phase} (h : Happens d (.stopped consuming p) d') :
    (∀ t, d.Tracks t → d'.Tracks t) ↔ SafeStop d (.stopped consuming p) := by
  obtain ⟨hlate, e, hrun, rfl⟩ := h
  rw [((run_loading hrun).1 hlate).disk]
  exact d.atPhase_keeps_iff consuming e.phase

theorem happens_keeps {ev : Event TOKEN} (hsafe : SafeStop d ev) (h : Happens d ev d') (t : TOKEN)
    (ht : d.Tracks t) : d'.Tracks t := by
  cases ev with
  | appended u => exact h ▸ cancel_tracks d (.inr ht)
  | stopped consuming p => exact (stop_keeps_iff h).mpr hsafe t ht

/-- Past any number of stopped runs and appended tokens, every token of the files
at the start or appended since is in some file. -/
theorem events_keep {events : List (Event TOKEN)}
    (h : Steps (guarded SafeStop Happens) d events d') {t : TOKEN}
    (ht : d.Tracks t ∨ .appended t ∈ events) : d'.Tracks t := by
  refine @Steps.invariant_hist _ _ _
    (fun events d'' => d.Tracks t ∨ .appended t ∈ events → d''.Tracks t) _ _ _ ?_ h ?_ ht
  · rintro events x ev y ⟨hsafe, hev⟩ ih ht
    rw [List.mem_append, List.mem_singleton, ← or_assoc] at ht
    rcases ht with ht | rfl
    · exact happens_keeps hsafe hev t (ih ht)
    · exact (show y = x.cancel t from hev) ▸ cancel_tracks x (.inl rfl)
  · rintro (ht | ht)
    · exact ht
    · cases ht

/-- The hash set of a run that succeeds has every token of every file. -/
theorem succeeds_seen {h : List TOKEN} (hs : Succeeds d consuming h) {t : TOKEN}
    (ht : d.Tracks t) : t ∈ h := by
  obtain ⟨d', e, hrun, hphase, rfl⟩ := hs
  exact (run_loading hrun).2 (by rw [hphase]; rfl) t ht

/-- Where every stopped run stops safely, every token of the files at the start
or appended between the runs is in the hash set of the run that succeeds. -/
theorem stopped_runs_keep_tokens {events : List (Event TOKEN)} {h : List TOKEN}
    (hrun : Steps (guarded SafeStop Happens) d events d') (hs : Succeeds d' consuming h)
    (t : TOKEN) (ht : d.Tracks t ∨ .appended t ∈ events) : t ∈ h :=
  succeeds_seen hs (events_keep hrun ht)

end Runs

/-- Files of `pathdb` with these tokens, and no `expireover.tombstone`. -/
def pathdb (cancels processing : Option (List ℕ)) : Disk ℕ where
  ino
    | .cancels => cancels.map fun _ => 0
    | .processing => processing.map fun _ => 1
    | .expireover => none
  lines i := ((if i = 0 then cancels else processing).getD []).map .token
  next := 2
  used := by
    rintro (_ | _ | _) i h
    · cases cancels <;> cases h
      exact Nat.zero_lt_two
    · cases processing <;> cases h
      exact Nat.one_lt_two
    · cases h

/-- Without a leftover: the run that fails in `HISexpire` leaves its snapshot,
which the next run loads with what was appended since. -/
theorem stopped_runs_keep_tokens_sample :
    1 ∈ (runFor 40
      ((runFor 10 (pathdb (some [1]) none, .start true)).1.cancel 2, .start true)).2.h := by
  have hstop := @happens_runFor ℕ (pathdb (some [1]) none) true _ 10 .HISexpire rfl
    (by decide)
  have hexit := @succeeds_runFor ℕ ((runFor 10 (pathdb (some [1]) none, .start true)).1.cancel 2)
    true _ 40 (by decide)
  have hsafe : SafeStop (pathdb (some [1]) none) (.stopped true .HISexpire) :=
    fun _ _ h => by cases h
  generalize (runFor 10 (pathdb (some [1]) none, .start true)).1 = failed at hstop hexit ⊢
  have happend : guarded SafeStop Happens failed (.appended 2) (failed.cancel 2) :=
    ⟨trivial, rfl⟩
  exact stopped_runs_keep_tokens (.snoc (.single ⟨hsafe, hstop⟩) happend) hexit 1
    (.inl ⟨.cancels, by decide⟩)

/-- With a leftover as well, a run that fails in `HISexpire` loses both: it has
renamed `cancels.tombstone` over the leftover and unlinked it. -/
theorem failed_run_loses_tokens : ∃ d' h,
    Steps Happens (pathdb (some [1]) (some [2])) [.stopped true .HISexpire] d' ∧
      Succeeds d' true h ∧ (pathdb (some [1]) (some [2])).Tracks 1 ∧
      (pathdb (some [1]) (some [2])).Tracks 2 ∧ 1 ∉ h ∧ 2 ∉ h :=
  ⟨_, _, .single (@happens_runFor ℕ _ _ _ 11 _ rfl (by decide)),
    @succeeds_runFor ℕ _ _ _ 40 (by decide), ⟨.cancels, by decide⟩,
    ⟨.processing, by decide⟩, by decide, by decide⟩

end Inn.Tombstone
