import Mathlib.Data.List.Basic
import Mathlib.Data.Nat.Notation

/-!
# Inn.History.Swap — the expired history in place of the old one

At the end of `hisv6_expire` the four files of the old history are unlinked and the four
new ones renamed. Any of the eight calls can fail, and the process can be killed before
any of them.

* `unlinked_get`, `renamed_get` — the files after some of the calls;
* `swap_iff` — the runs that leave a whole history, and the old one where they fail.
-/

namespace Inn.History

/-- The files of a history: the text, its `.dir`, `.index` and `.hash`. -/
inductive Part where
  | index
  | hash
  | dir
  | text
deriving DecidableEq

/-- The files in the order of the calls. -/
def parts : List Part := [.index, .hash, .dir, .text]

/-- The base name: the one in use, and the same with `.n`. -/
inductive Base where
  | live
  | new
deriving DecidableEq

/-- What a file belongs to: the old history, the expired one, or an expired one that was
not finished. -/
inductive Generation where
  | old
  | expired
  | unfinished
deriving DecidableEq

abbrev Files := Base → Part → Option Generation

/-- A call for a file. -/
inductive FileCall where
  | unlink (n : Base) (p : Part)
  | rename (p : Part)
deriving DecidableEq

section Calls

variable (fails : FileCall → Bool)

/-- A call that may fail; it does where its file is missing. -/
def attempt (fs : Files) : FileCall → Bool × Files
  | .unlink n p =>
    if fails (.unlink n p) = true ∨ fs n p = none then (false, fs)
    else (true, fun m q => if m = n ∧ q = p then none else fs m q)
  | .rename p =>
    if fails (.rename p) = true ∨ fs .new p = none then (false, fs)
    else (true, fun m q => if q = p then (if m = .live then fs .new p else none) else fs m q)

/-- Calls one after the other, whether they fail or not: whether all succeeded, and the
files after each. -/
def attempts (fs : Files) : List FileCall → Bool × List Files
  | [] => (true, [])
  | c :: cs =>
    let a := attempt fails fs c
    let rest := attempts a.2 cs
    (a.1 && rest.1, a.2 :: rest.2)

/-- `hisv6_unlink`. -/
def hisv6Unlink (fs : Files) (n : Base) : Bool × List Files :=
  attempts fails fs (parts.map (.unlink n))

/-- `hisv6_rename` of the new history to the old one. -/
def hisv6Rename (fs : Files) : Bool × List Files := attempts fails fs (parts.map .rename)

end Calls

/-- `hisv6_expire` where it gets to the label `fail`, with `writing` set and no `path`: the
status, whether there is a new history, what closing both will return, and the files of
the new one. They are complete if all went well. -/
structure Traversed where
  r : Bool
  hnew : Bool
  closedNew : Bool
  closedOld : Bool
  created : Part → Option Generation
  hnew_of_r : r = true → hnew = true
  complete : r = true → closedNew = true → ∀ p, created p = some .expired

/-- The files there: the old history is untouched. -/
def Traversed.files (e : Traversed) : Files
  | .live, _ => some .old
  | .new, p => e.created p

/-- The status after both were closed. -/
def Traversed.status (e : Traversed) : Bool := e.r && (!e.hnew || e.closedNew) && e.closedOld

/-- The end of `hisv6_expire`: the result, and the files before the first call and after
each call. -/
def hisv6ExpireEnd (fails : FileCall → Bool) (e : Traversed) : Bool × List Files :=
  if e.status then
    let u := hisv6Unlink fails e.files .live
    if u.1 then
      let m := hisv6Rename fails (u.2.getLastD e.files)
      (m.1, e.files :: u.2 ++ m.2)
    else (false, e.files :: u.2)
  else if e.hnew then (false, e.files :: (hisv6Unlink fails e.files .new).2)
  else (false, [e.files])

/-- A complete history under a name. -/
def Files.Complete (fs : Files) (n : Base) (g : Generation) : Prop := ∀ p, fs n p = some g

/-- A complete history under one of the names. -/
def Files.Survives (fs : Files) : Prop :=
  (fs.Complete .live .old ∨ fs.Complete .live .expired) ∨
    fs.Complete .new .old ∨ fs.Complete .new .expired

/-- The index of one history with the text of another. -/
def Files.Mixed (fs : Files) : Prop :=
  ∃ g g', fs .live .index = some g ∧ fs .live .text = some g' ∧ g ≠ g'

/-- The run is all or nothing. It is killed after `k` calls, or it returns. -/
def AllOrNothing (run : Bool × List Files) (kill : Option ℕ) : Prop :=
  match kill with
  | some k => ∀ fs, run.2[min k (run.2.length - 1)]? = some fs → fs.Survives
  | none => ∀ fs, run.2.getLast? = some fs →
      fs.Survives ∧ (run.1 = true → ¬ fs.Mixed) ∧ (run.1 = false → fs.Complete .live .old)

/-! ## The files after some of the calls -/

section After

variable {fails : FileCall → Bool}

/-- The files after the unlinks of some. -/
def unlinked (fails : FileCall → Bool) (n : Base) (ps : List Part) (fs : Files) : Files :=
  fun m q => if m = n ∧ q ∈ ps ∧ fails (.unlink n q) = false then none else fs m q

/-- The files after the renames of some. -/
def renamed (fails : FileCall → Bool) (ps : List Part) (fs : Files) : Files :=
  fun m q => if q ∈ ps ∧ fails (.rename q) = false ∧ fs .new q ≠ none then
    (if m = .live then fs .new q else none) else fs m q

theorem attempt_unlink (n : Base) (p : Part) (fs : Files) :
    (attempt fails fs (.unlink n p)).2 = unlinked fails n [p] fs := by
  rw [attempt]
  by_cases hc : fails (.unlink n p) = true ∨ fs n p = none
  · rw [if_pos hc]
    funext m q
    rw [unlinked]
    split
    · rename_i h
      obtain ⟨rfl, hq, hf⟩ := h
      rw [List.mem_singleton.mp hq] at hf ⊢
      exact hc.resolve_left (by rw [hf]; decide)
    · rfl
  · rw [if_neg hc]
    funext m q
    simp only [not_or, Bool.not_eq_true] at hc
    rw [unlinked]
    by_cases hq : m = n ∧ q = p
    · obtain ⟨rfl, rfl⟩ := hq
      rw [if_pos ⟨rfl, List.mem_singleton_self q, hc.1⟩]
      exact if_pos ⟨rfl, rfl⟩
    · rw [if_neg fun h => hq ⟨h.1, List.mem_singleton.mp h.2.1⟩]
      exact if_neg hq

theorem attempt_rename (p : Part) (fs : Files) :
    (attempt fails fs (.rename p)).2 = renamed fails [p] fs := by
  rw [attempt]
  by_cases hc : fails (.rename p) = true ∨ fs .new p = none
  · rw [if_pos hc]
    funext m q
    rw [renamed, if_neg]
    rintro ⟨hq, hf, hn⟩
    rw [List.mem_singleton.mp hq] at hf hn
    exact hc.elim (by rw [hf]; decide) hn
  · rw [if_neg hc]
    funext m q
    simp only [not_or, Bool.not_eq_true] at hc
    rw [renamed]
    by_cases hq : q = p
    · subst hq
      rw [if_pos ⟨List.mem_singleton_self q, hc⟩]
      exact if_pos rfl
    · rw [if_neg fun h => hq (List.mem_singleton.mp h.1)]
      exact if_neg hq

theorem unlinked_unlinked (n : Base) (p : Part) (ps : List Part) (fs : Files) :
    unlinked fails n ps (unlinked fails n [p] fs) = unlinked fails n (p :: ps) fs := by
  funext m q
  simp only [unlinked, List.mem_cons, List.not_mem_nil, or_false]
  by_cases hm : m = n
  · by_cases hf : fails (.unlink n q) = false
    · by_cases hq : q ∈ ps
      · simp [hm, hf, hq]
      · simp [hm, hf, hq]
    · simp [hf]
  · simp [hm]

theorem renamed_renamed (p : Part) (ps : List Part) (fs : Files) :
    renamed fails ps (renamed fails [p] fs) = renamed fails (p :: ps) fs := by
  funext m q
  simp only [renamed, List.mem_cons, List.not_mem_nil, or_false]
  by_cases hp : q = p
  · subst hp
    by_cases hf : fails (.rename q) = false ∧ fs .new q ≠ none
    · simp [hf]
    · simp [hf]
  · simp [hp]

theorem length_attempts (fs : Files) (cs : List FileCall) :
    (attempts fails fs cs).2.length = cs.length := by
  induction cs generalizing fs with
  | nil => rfl
  | cons c cs ih => exact congrArg (· + 1) (ih _)

/-- The files after `k` calls of a kind, where `after` says what calls of the kind do. -/
theorem attempts_get {call : Part → FileCall} {after : List Part → Files → Files}
    (hnil : ∀ fs, after [] fs = fs)
    (hcons : ∀ p ps fs, after ps (attempt fails fs (call p)).2 = after (p :: ps) fs)
    (ps : List Part) (fs : Files) {k : ℕ} (hk : k ≤ ps.length) :
    (fs :: (attempts fails fs (ps.map call)).2)[k]? = some (after (ps.take k) fs) := by
  induction ps generalizing fs k with
  | nil =>
    obtain rfl := Nat.le_zero.mp hk
    rw [List.take_nil, hnil]
    rfl
  | cons p ps ih =>
    cases k with
    | zero =>
      rw [List.take_zero, hnil]
      rfl
    | succ k =>
      rw [List.map_cons, attempts, List.getElem?_cons_succ, ih _ (Nat.le_of_succ_le_succ hk), hcons,
        List.take_succ_cons]

theorem unlinked_get (n : Base) (fs : Files) {k : ℕ} (hk : k ≤ 4) :
    (fs :: (hisv6Unlink fails fs n).2)[k]? = some (unlinked fails n (parts.take k) fs) :=
  attempts_get (fun fs => by funext m q; simp [unlinked])
    (fun p ps fs => by rw [attempt_unlink, unlinked_unlinked]) parts fs hk

theorem renamed_get (fs : Files) {k : ℕ} (hk : k ≤ 4) :
    (fs :: (hisv6Rename fails fs).2)[k]? = some (renamed fails (parts.take k) fs) :=
  attempts_get (fun fs => by funext m q; simp [renamed])
    (fun p ps fs => by rw [attempt_rename, renamed_renamed]) parts fs hk

/-- All calls of a kind succeed if none fails and the files under `n` they want are there. -/
theorem attempts_result {call : Part → FileCall} {n : Base} {ps : List Part} {fs : Files}
    (hframe : ∀ fs p q, q ≠ p → (attempt fails fs (call p)).2 n q = fs n q)
    (hfirst : ∀ fs p, fs n p ≠ none →
      ((attempt fails fs (call p)).1 = true ↔ fails (call p) = false))
    (hnodup : ps.Nodup) (hfs : ∀ p ∈ ps, fs n p ≠ none) :
    (attempts fails fs (ps.map call)).1 = true ↔ ∀ p ∈ ps, fails (call p) = false := by
  induction ps generalizing fs with
  | nil => simp [attempts]
  | cons p ps ih =>
    obtain ⟨hp, hnodup⟩ := List.nodup_cons.mp hnodup
    have hrest : ∀ q ∈ ps, (attempt fails fs (call p)).2 n q ≠ none := by
      intro q hq
      rw [hframe fs p q fun h => hp (h ▸ hq)]
      exact hfs q (List.mem_cons_of_mem _ hq)
    rw [List.map_cons, attempts, Bool.and_eq_true, ih hnodup hrest,
      hfirst fs p (hfs p List.mem_cons_self), List.forall_mem_cons]

theorem mem_parts (p : Part) : p ∈ parts := by
  cases p <;> decide

theorem nodup_parts : parts.Nodup := by decide

theorem unlink_result {n : Base} {fs : Files} (hfs : ∀ p, fs n p ≠ none) :
    (hisv6Unlink fails fs n).1 = true ↔ ∀ p, fails (.unlink n p) = false := by
  rw [hisv6Unlink, attempts_result (n := n) ?_ ?_ nodup_parts fun p _ => hfs p]
  · exact ⟨fun h p => h p (mem_parts p), fun h p _ => h p⟩
  · intro fs p q hqp
    rw [attempt_unlink, unlinked, if_neg fun h => hqp (List.mem_singleton.mp h.2.1)]
  · intro fs p hp
    rw [attempt]
    simp only [hp, or_false]
    cases fails (.unlink n p) <;> simp

theorem rename_result {fs : Files} (hfs : ∀ p, fs .new p ≠ none) :
    (hisv6Rename fails fs).1 = true ↔ ∀ p, fails (.rename p) = false := by
  rw [hisv6Rename, attempts_result (n := .new) ?_ ?_ nodup_parts fun p _ => hfs p]
  · exact ⟨fun h p => h p (mem_parts p), fun h p _ => h p⟩
  · intro fs p q hqp
    rw [attempt_rename, renamed, if_neg fun h => hqp (List.mem_singleton.mp h.1)]
  · intro fs p hp
    rw [attempt]
    simp only [hp, or_false]
    cases fails (.rename p) <;> simp

/-! ## Which files survive -/

variable {fs : Files} {e : Traversed}

/-- The new history is there whatever happens to the old files. -/
theorem survives_unlinked (hs : ∀ p, e.created p = some .expired) (ps : List Part) :
    (unlinked fails .live ps e.files).Survives := by
  refine .inr (.inr fun p => ?_)
  rw [unlinked, if_neg fun h => by cases h.1]
  exact hs p

/-- Between the names: the old files are gone, and some of the new ones are renamed. -/
theorem survives_renamed_iff (hlive : ∀ p, fs .live p = none)
    (hnew : ∀ p, fs .new p = some .expired) {k : ℕ} (hk : k ≤ 4) :
    (renamed fails (parts.take k) fs).Survives ↔
      (∀ p ∈ parts.take k, fails (.rename p) = true) ∨
        k = 4 ∧ ∀ p, fails (.rename p) = false := by
  have hget : ∀ m p, renamed fails (parts.take k) fs m p =
      if p ∈ parts.take k ∧ fails (.rename p) = false then
        (if m = .live then some .expired else none)
      else if m = .live then none else some .expired := by
    intro m p
    rw [renamed, hnew]
    by_cases hp : p ∈ parts.take k ∧ fails (.rename p) = false
    · rw [if_pos hp, if_pos ⟨hp.1, hp.2, by simp⟩]
    · rw [if_neg hp, if_neg fun h => hp ⟨h.1, h.2.1⟩]
      cases m with
      | live => rw [hlive, if_pos rfl]
      | new => rw [hnew, if_neg (by decide)]
  constructor
  · rintro ((h | h) | (h | h))
    · have := h .index
      rw [hget] at this
      split at this <;> simp at this
    · -- all of them were renamed
      have hall : ∀ p, p ∈ parts.take k ∧ fails (.rename p) = false := by
        intro p
        have := h p
        rw [hget] at this
        by_contra hp
        rw [if_neg hp] at this
        cases this
      have hlast : Part.text ∉ parts.take 3 := by decide
      refine .inr ⟨?_, fun p => (hall p).2⟩
      by_contra hne
      exact hlast (List.take_subset_take_left parts (by omega) (hall .text).1)
    · have := h .index
      rw [hget] at this
      split at this <;> simp at this
    · refine .inl fun p hp => ?_
      have := h p
      rw [hget] at this
      by_contra hf
      rw [if_pos ⟨hp, Bool.eq_false_iff.mpr hf⟩] at this
      cases this
  · rintro (h | ⟨rfl, h⟩)
    · refine .inr (.inr fun p => ?_)
      rw [hget, if_neg, if_neg (by decide)]
      rintro ⟨hp, hf⟩
      rw [h p hp] at hf
      cases hf
    · refine .inl (.inr fun p => ?_)
      rw [hget, if_pos ⟨mem_parts p, h p⟩, if_pos rfl]

/-- The runs that are all or nothing once the new history is there. Where the process is
killed: an old file could not be unlinked, or no new one was renamed yet, or all were. Where
the call returns: no old file could be unlinked, or everything went well. -/
def WholeSwap (fails : FileCall → Bool) (kill : Option ℕ) : Prop :=
  match kill with
  | some k => (∃ p, fails (.unlink .live p) = true) ∨
      (∀ p ∈ parts.take (k - 4), fails (.rename p) = true) ∨
      (8 ≤ k ∧ ∀ p, fails (.rename p) = false)
  | none => (∀ p, fails (.unlink .live p) = true) ∨
      ((∀ p, fails (.unlink .live p) = false) ∧ ∀ p, fails (.rename p) = false)

/-- A run by the files after each number of calls. -/
theorem allOrNothing_iff {r : Bool} {images : List Files} {n : ℕ} {image : ℕ → Files}
    {kill : Option ℕ} (hlen : images.length = n + 1)
    (hget : ∀ k ≤ n, images[k]? = some (image k)) :
    AllOrNothing (r, images) kill ↔
      match kill with
      | some k => (image (min k n)).Survives
      | none => (image n).Survives ∧ (r = true → ¬ (image n).Mixed) ∧
          (r = false → (image n).Complete .live .old) := by
  cases kill with
  | some k =>
    simp only [AllOrNothing, hlen, Nat.add_sub_cancel, hget _ (Nat.min_le_right k n)]
    exact ⟨fun h => h _ rfl, fun h fs hfs => Option.some.inj hfs ▸ h⟩
  | none =>
    simp only [AllOrNothing, List.getLast?_eq_getElem?, hlen, Nat.add_sub_cancel, hget n (Nat.le_refl n)]
    exact ⟨fun h => h _ rfl, fun h fs hfs => Option.some.inj hfs ▸ h⟩

/-- Where the traversal failed, the old history stays. -/
theorem failed_allOrNothing (he : e.status = false) (kill : Option ℕ) :
    AllOrNothing (hisv6ExpireEnd fails e) kill := by
  have hwhole : ∀ ps, (unlinked fails .new ps e.files).Complete .live .old := by
    intro ps p
    rw [unlinked, if_neg fun h => by cases h.1]
    rfl
  have hstart : e.files.Complete .live .old := fun _ => rfl
  rw [hisv6ExpireEnd, he, if_neg (by decide)]
  split
  · rw [allOrNothing_iff (n := 4) (by rw [List.length_cons, hisv6Unlink, length_attempts]; rfl)
      fun k hk => unlinked_get .new e.files hk]
    cases kill with
    | some k => exact .inl (.inl (hwhole _))
    | none => exact ⟨.inl (.inl (hwhole _)), nofun, fun _ => hwhole _⟩
  · rw [@allOrNothing_iff _ _ 0 (fun _ => e.files) _ rfl
      fun k hk => by rw [Nat.le_zero.mp hk]; rfl]
    cases kill with
    | some k => exact .inl (.inl hstart)
    | none => exact ⟨.inl (.inl hstart), nofun, fun _ => hstart⟩

/-- Where an old file could not be unlinked, nothing is renamed. -/
theorem unlinkFails_iff (he : e.status = true) (hs : ∀ p, e.created p = some .expired)
    (hu : (hisv6Unlink fails e.files .live).1 = false) (kill : Option ℕ) :
    AllOrNothing (hisv6ExpireEnd fails e) kill ↔
      (kill = none → ∀ p, fails (.unlink .live p) = true) := by
  rw [hisv6ExpireEnd, he, if_pos rfl]
  dsimp only
  rw [hu, if_neg (by decide), allOrNothing_iff (n := 4)
    (by rw [List.length_cons, hisv6Unlink, length_attempts]; rfl)
    fun k hk => unlinked_get .live e.files hk]
  cases kill with
  | some k => exact ⟨nofun, fun _ => survives_unlinked hs _⟩
  | none =>
    constructor
    · rintro ⟨-, -, h⟩ - p
      have := h rfl p
      rw [unlinked] at this
      by_contra hf
      rw [if_pos ⟨rfl, mem_parts p, Bool.eq_false_iff.mpr hf⟩] at this
      cases this
    · intro h
      refine ⟨survives_unlinked hs _, nofun, fun _ p => ?_⟩
      rw [unlinked, if_neg]
      · rfl
      · rintro ⟨-, -, hf⟩
        rw [h rfl p] at hf
        cases hf

/-- Where the old files are gone, the new ones are renamed. -/
theorem renames_iff (he : e.status = true) (hs : ∀ p, e.created p = some .expired)
    (hu : ∀ p, fails (.unlink .live p) = false) (kill : Option ℕ) :
    AllOrNothing (hisv6ExpireEnd fails e) kill ↔
      match kill with
      | some k => (∀ p ∈ parts.take (k - 4), fails (.rename p) = true) ∨
          (8 ≤ k ∧ ∀ p, fails (.rename p) = false)
      | none => ∀ p, fails (.rename p) = false := by
  have hnew : ∀ p, e.files .new p = some .expired := hs
  have hures : (hisv6Unlink fails e.files .live).1 = true :=
    (unlink_result fun p => by simp [Traversed.files]).mpr hu
  have hlen : ∀ fs, (hisv6Rename fails fs).2.length = 4 := fun fs => length_attempts fs _
  have hulen : (hisv6Unlink fails e.files .live).2.length = 4 := length_attempts e.files _
  -- the files when all old ones are gone
  generalize hgone : unlinked fails .live parts e.files = gone
  have hlast : (hisv6Unlink fails e.files .live).2.getLastD e.files = gone := by
    have h4 : (hisv6Unlink fails e.files .live).2[3]? =
        some (unlinked fails .live parts e.files) := unlinked_get .live e.files (Nat.le_refl 4)
    rw [List.getLastD_eq_getLast?, List.getLast?_eq_getElem?, hulen, h4, ← hgone]
    rfl
  have hgoneLive : ∀ p, gone .live p = none := by
    intro p
    rw [← hgone, unlinked, if_pos ⟨rfl, mem_parts p, hu p⟩]
  have hgoneNew : ∀ p, gone .new p = some .expired := by
    intro p
    rw [← hgone, unlinked, if_neg fun h => by cases h.1]
    exact hs p
  have hres : (hisv6Rename fails gone).1 = true ↔ ∀ p, fails (.rename p) = false :=
    rename_result fun p => by simp [hgoneNew]
  rw [hisv6ExpireEnd, he, if_pos rfl]
  dsimp only
  rw [hures, if_pos rfl, hlast]
  rw [@allOrNothing_iff _ _ 8 (fun k => if k ≤ 4 then unlinked fails .live (parts.take k) e.files
    else renamed fails (parts.take (k - 4)) gone) _ (by simp [hlen, hulen]) ?_]
  · cases kill with
    | some k =>
      dsimp only
      by_cases hk : k ≤ 4
      · rw [if_pos (by omega)]
        refine ⟨fun _ => .inl fun p hp => ?_, fun _ => survives_unlinked hs _⟩
        rw [Nat.sub_eq_zero_of_le hk] at hp
        cases hp
      · have htake : parts.take (min k 8 - 4) = parts.take (k - 4) := by
          rcases Nat.le_total k 8 with h | h
          · rw [Nat.min_eq_left h]
          · rw [Nat.min_eq_right h, List.take_of_length_le (i := k - 4) (by
              show 4 ≤ k - 4
              omega)]
            rfl
        have hall : min k 8 - 4 = 4 ↔ 8 ≤ k := by omega
        rw [if_neg (by omega), survives_renamed_iff hgoneLive hgoneNew (by omega), htake, hall]
    | none =>
      dsimp only
      rw [if_neg (by decide), survives_renamed_iff hgoneLive hgoneNew (Nat.le_refl 4)]
      constructor
      · rintro ⟨-, -, hold⟩
        refine hres.mp (by_contra fun hr => ?_)
        have := hold (Bool.eq_false_iff.mpr hr) .text
        rw [renamed, hgoneLive, hgoneNew] at this
        split at this <;> simp at this
      · intro h
        refine ⟨.inr ⟨rfl, h⟩, fun _ => ?_, fun hr => ?_⟩
        · rintro ⟨g, g', hi, ht, hne⟩
          have hget : ∀ p, renamed fails (parts.take (8 - 4)) gone .live p = some .expired := by
            intro p
            rw [renamed, if_pos ⟨mem_parts p, h p, by simp [hgoneNew]⟩, if_pos rfl, hgoneNew]
          rw [hget] at hi ht
          exact hne ((Option.some.inj hi).symm.trans (Option.some.inj ht))
        · rw [hres.mpr h] at hr
          cases hr
  · intro k hk
    rw [List.getElem?_append]
    by_cases h4 : k ≤ 4
    · rw [if_pos (by rw [List.length_cons, hulen]; omega), if_pos h4]
      exact unlinked_get .live e.files h4
    · rw [if_neg (by rw [List.length_cons, hulen]; omega), if_neg h4, ← renamed_get gone (by omega),
        List.length_cons, hulen]
      obtain ⟨j, rfl⟩ : ∃ j, k = j + 5 := ⟨k - 5, by omega⟩
      rfl

/-- The replacement is all or nothing exactly in these runs. -/
theorem swap_iff (fails : FileCall → Bool) (e : Traversed) (kill : Option ℕ) :
    AllOrNothing (hisv6ExpireEnd fails e) kill ↔ (e.status = true → WholeSwap fails kill) := by
  by_cases he : e.status = true
  · have hstatus := he
    rw [Traversed.status, Bool.and_eq_true, Bool.and_eq_true, Bool.or_eq_true] at hstatus
    obtain ⟨⟨hr, hclosed⟩, -⟩ := hstatus
    have hnew : e.closedNew = true := by
      rcases hclosed with h | h
      · rw [e.hnew_of_r hr] at h
        cases h
      · exact h
    have hs := e.complete hr hnew
    have hres : (hisv6Unlink fails e.files .live).1 = true ↔
        ∀ p, fails (.unlink .live p) = false :=
      unlink_result fun p => by simp [Traversed.files]
    rw [forall_prop_of_true he]
    cases hu : (hisv6Unlink fails e.files .live).1 with
    | false =>
      have hsome : ∃ p, fails (.unlink .live p) = true := by
        by_contra h
        push Not at h
        rw [hres.mpr fun p => Bool.eq_false_iff.mpr (h p)] at hu
        cases hu
      rw [unlinkFails_iff he hs hu]
      cases kill with
      | some k => exact ⟨fun _ => .inl hsome, nofun⟩
      | none =>
        refine ⟨fun h => .inl (h rfl), fun h _ => h.resolve_right fun hno => ?_⟩
        obtain ⟨p, hp⟩ := hsome
        rw [hno.1 p] at hp
        cases hp
    | true =>
      have hnone := hres.mp hu
      rw [renames_iff he hs hnone]
      cases kill with
      | some k =>
        refine ⟨.inr, fun h => h.resolve_left ?_⟩
        rintro ⟨p, hp⟩
        rw [hnone p] at hp
        cases hp
      | none =>
        refine ⟨fun h => .inr ⟨hnone, h⟩, fun h => (h.resolve_left fun hall => ?_).2⟩
        have := hall .text
        rw [hnone] at this
        cases this
  · exact ⟨fun _ h => absurd h he, fun _ => failed_allOrNothing (Bool.eq_false_iff.mpr he) kill⟩

end After

/-- A traversal that went well. -/
def traversed : Traversed where
  r := true
  hnew := true
  closedNew := true
  closedOld := true
  created _ := some .expired
  hnew_of_r _ := rfl
  complete _ _ _ := rfl

/-- If only the old text cannot be unlinked, the call fails and leaves it without index. -/
theorem text_without_index :
    ¬ AllOrNothing (hisv6ExpireEnd (fun c => decide (c = .unlink .live .text)) traversed) none := by
  intro h
  have hold := (h _ rfl).2.2 (by decide) .index
  exact absurd hold (by decide)

end Inn.History
