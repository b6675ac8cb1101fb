import Inn.Rules
import Inn.DirectMapped
import Inn.Dbz.Basic

/-!
# Inn.History.Cache — the cache of message-IDs in front of the history

`HIScheck` asks a cache first, and the history method only where the cache has nothing.
Writes that succeed are entered. A call can fail at any point inside the method.

* `step_uncached` — one call, with a cache and without;
* `results_uncached` — a run with a cache gives the results of the run without, as long as
  its calls are `Safe`.
-/

namespace Inn.His

open Inn.DirectMapped

/-- The index as the calls see it. It grows, and a hash whose stored bytes are those of an
empty record is never found in it. -/
structure Index (δ : Type) where
  dbzexists : δ → HASH → Bool
  /-- what `dbzstore` does for a hash that is not found -/
  insert : δ → HASH → δ
  exists_insert : ∀ d hash, Dbz.Erec.ofHash hash ≠ Dbz.emptyRec → dbzexists (insert d hash) hash = true
  exists_mono : ∀ d hash hash', dbzexists d hash' = true → dbzexists (insert d hash) hash' = true
  exists_empty : ∀ d hash, Dbz.Erec.ofHash hash = Dbz.emptyRec → dbzexists d hash = false

/-- `struct history` over `struct hisv6`: the cache is empty where the pointer is `NULL`. -/
structure History (δ : Type) where
  cache : List (HASH × Bool)
  synccount : ℕ
  dirty : ℕ
  db : δ

/-- The places where a write can fail: before the index is reached, in `dbzstore`, and in
the two parts of a synchronisation. -/
structure Faults where
  line : Bool
  dbzstore : Bool
  fflush : Bool
  dbzsync : Bool
deriving DecidableEq

/-- `sizeof(struct hiscache)`. -/
def sizeofHiscache : ℕ := 17

/-- `enum HISRESULT`. -/
inductive HISRESULT where
  | HIScachehit
  | HIScachemiss
  | HIScachedne
deriving DecidableEq

section Calls

variable {δ : Type} (ix : Index δ) (h : History δ) (hash : HASH)

/-- `loc`: the last four bytes of a hash. -/
def loc (hash : HASH) : ℕ := (hash.toList.drop 12).foldr (fun b acc => b.toNat + 256 * acc) 0

/-- `his_cacheadd`. -/
def hisCacheadd (found : Bool) : History δ := { h with cache := add loc h.cache hash found }

/-- `his_cachelookup`. -/
def hisCachelookup : HISRESULT :=
  match lookup loc h.cache hash with
  | some true => .HIScachehit
  | some false => .HIScachemiss
  | none => .HIScachedne

/-- `hisv6_sync`. -/
def hisv6Sync (f : Faults) : Bool × History δ :=
  if h.dirty = 0 then (!f.fflush, h)
  else if f.dbzsync then (false, h)
  else (!f.fflush, { h with dirty := 0 })

/-- `hisv6_writedbz`. -/
def hisv6Writedbz (f : Faults) : Bool × History δ :=
  if f.dbzstore then (false, h)
  else
    -- a duplicate is not an error
    let h := if ix.dbzexists h.db hash then h else { h with db := ix.insert h.db hash }
    if h.synccount = 0 then (true, h)
    else if h.synccount ≤ h.dirty + 1 then hisv6Sync { h with dirty := h.dirty + 1 } f
    else (true, { h with dirty := h.dirty + 1 })

/-- `hisv6_writeline`. -/
def hisv6Writeline (f : Faults) : Bool × History δ :=
  if f.line then (false, h) else hisv6Writedbz ix h hash f

/-- `hisv6_check`. -/
def hisv6Check (fail : Bool) : Bool := !fail && ix.dbzexists h.db hash

/-- `hisv6_replace`: it leaves the index alone, and wants the entry in it. -/
def hisv6Replace (ok : Bool) : Bool := ix.dbzexists h.db hash && ok

/-- `HIScheck`. -/
def HIScheck (fail : Bool) : Bool × History δ :=
  match hisCachelookup h hash with
  | .HIScachehit => (true, h)
  | .HIScachemiss => (false, h)
  | .HIScachedne => (hisv6Check ix h hash fail, hisCacheadd h hash (hisv6Check ix h hash fail))

/-- `HISwrite`, and `HISremember`. -/
def HISwrite (f : Faults) : Bool × History δ :=
  let w := hisv6Writeline ix h hash f
  if w.1 then (true, hisCacheadd w.2 hash true) else (false, w.2)

/-- `HISreplace`. -/
def HISreplace (ok : Bool) : Bool × History δ :=
  if hisv6Replace ix h hash ok then (true, hisCacheadd h hash true) else (false, h)

/-- `HISsetcache`. -/
def HISsetcache (size : ℕ) : History δ :=
  { h with cache := List.replicate (size / sizeofHiscache) (HASH.clear, false) }

end Calls

/-- A call, with the failures inside the method. -/
inductive Call where
  | HIScheck (hash : HASH) (fail : Bool)
  | HISwrite (hash : HASH) (f : Faults)
  | HISremember (hash : HASH) (f : Faults)
  | HISreplace (hash : HASH) (ok : Bool)
  | HISsetcache (size : ℕ)

/-- The same call, never for a cache. -/
def Call.uncached : Call → Call
  | .HISsetcache _ => .HISsetcache 0
  | c => c

section Runs

variable {δ : Type} (ix : Index δ)

/-- The result of a call and the history after it. -/
def step (h : History δ) : Call → Bool × History δ
  | .HIScheck hash fail => HIScheck ix h hash fail
  | .HISwrite hash f => HISwrite ix h hash f
  | .HISremember hash f => HISwrite ix h hash f
  | .HISreplace hash ok => HISreplace ix h hash ok
  | .HISsetcache size => (true, HISsetcache h size)

/-- A call that returns a result. -/
def Next (h : History δ) (l : Call × Bool) (h' : History δ) : Prop := step ix h l.1 = (l.2, h')

/-- The results of a list of calls. -/
def results (h : History δ) : List Call → List Bool
  | [] => []
  | c :: calls => (step ix h c).1 :: results (step ix h c).2 calls

/-- The write gets as far as the index. -/
def Faults.Stores (f : Faults) : Prop := f.line = false ∧ f.dbzstore = false

/-- The write would synchronise, and fail in that. -/
def Faults.SyncFails (f : Faults) (h : History δ) : Prop :=
  h.synccount ≠ 0 ∧ h.synccount ≤ h.dirty + 1 ∧ (f.fflush = true ∨ f.dbzsync = true)

/-- A write that stores its hash: if it then fails, the cache does not hold the hash for
absent; if it succeeds, the index can find the hash; and no other hash the cache holds for
absent is found because of it. -/
structure SafeWrite (h : History δ) (hash : HASH) (f : Faults) : Prop where
  failed : f.SyncFails h → Dbz.Erec.ofHash hash ≠ Dbz.emptyRec →
    hisCachelookup h hash ≠ .HIScachemiss
  succeeded : ¬ f.SyncFails h → Dbz.Erec.ofHash hash ≠ Dbz.emptyRec
  others : ∀ hash' ≠ hash, hisCachelookup h hash' = .HIScachemiss →
    ix.dbzexists h.db hash = false → ix.dbzexists (ix.insert h.db hash) hash' = false

/-- The calls that keep a cache right: a check does not fail for a hash in the index, and
the writes that store are `SafeWrite`. -/
def Safe (h : History δ) (c : Call) : Prop :=
  h.cache ≠ [] →
    match c with
    | .HIScheck hash fail => fail = true → ix.dbzexists h.db hash = false
    | .HISwrite hash f => f.Stores → SafeWrite ix h hash f
    | .HISremember hash f => f.Stores → SafeWrite ix h hash f
    | .HISreplace _ _ => True
    | .HISsetcache _ => True

/-! ## The cache and the index -/

variable {ix} {h h' : History δ} {hash : HASH} {r : Bool} {c : Call} {f : Faults}

/-- The cache says what the index says. -/
def Right (ix : Index δ) (h : History δ) : Prop := Agrees loc h.cache (ix.dbzexists h.db)

theorem Right.hit (hr : Right ix h) (hl : hisCachelookup h hash = .HIScachehit) :
    ix.dbzexists h.db hash = true ∧ h.cache ≠ [] := by
  rw [hisCachelookup] at hl
  split at hl
  · rename_i heq
    refine ⟨hr _ _ heq, fun hnil => ?_⟩
    rw [hnil] at heq
    cases heq
  · cases hl
  · cases hl

theorem Right.miss (hr : Right ix h) (hl : hisCachelookup h hash = .HIScachemiss) :
    ix.dbzexists h.db hash = false := by
  rw [hisCachelookup] at hl
  split at hl
  · cases hl
  · rename_i heq
    exact hr _ _ heq
  · cases hl

theorem hisCachelookup_of_lookup_false (hl : lookup loc h.cache hash = some false) :
    hisCachelookup h hash = .HIScachemiss := by
  rw [hisCachelookup, hl]

/-- What a write does: it stores or it does not, and it returns whether all went well. -/
theorem hisv6Writeline_cases (ix : Index δ) (h : History δ) (hash : HASH) (f : Faults) :
    (¬ f.Stores ∧ hisv6Writeline ix h hash f = (false, h)) ∨
      (f.Stores ∧ ∃ dirty,
        ((f.SyncFails h ∧ (hisv6Writeline ix h hash f).1 = false) ∨
          (¬ f.SyncFails h ∧ (hisv6Writeline ix h hash f).1 = true)) ∧
        (hisv6Writeline ix h hash f).2 = ⟨h.cache, h.synccount, dirty,
          if ix.dbzexists h.db hash then h.db else ix.insert h.db hash⟩) := by
  rw [hisv6Writeline]
  split
  · rename_i hline
    exact .inl ⟨fun hs => absurd (hs.1.symm.trans hline) (by decide), rfl⟩
  rename_i hline
  rw [hisv6Writedbz]
  split
  · rename_i hdbz
    exact .inl ⟨fun hs => absurd (hs.2.symm.trans hdbz) (by decide), rfl⟩
  rename_i hdbz
  refine .inr ⟨⟨Bool.eq_false_iff.mpr hline, Bool.eq_false_iff.mpr hdbz⟩, ?_⟩
  have hg : (if ix.dbzexists h.db hash then h else { h with db := ix.insert h.db hash }) =
      ⟨h.cache, h.synccount, h.dirty,
        if ix.dbzexists h.db hash then h.db else ix.insert h.db hash⟩ := by
    split <;> rfl
  rw [hg]
  dsimp only
  split
  · rename_i hzero
    exact ⟨_, .inr ⟨fun hs => hs.1 hzero, rfl⟩, rfl⟩
  rename_i hzero
  split
  · -- time to synchronise
    rename_i hdue
    rw [hisv6Sync, if_neg (Nat.succ_ne_zero _)]
    split
    · rename_i hsync
      exact ⟨_, .inl ⟨⟨hzero, hdue, .inr hsync⟩, rfl⟩, rfl⟩
    · rename_i hsync
      refine ⟨0, ?_, rfl⟩
      by_cases hflush : f.fflush = true
      · exact .inl ⟨⟨hzero, hdue, .inl hflush⟩, by rw [hflush]; rfl⟩
      · exact .inr ⟨fun hs => hs.2.2.elim hflush hsync,
          by rw [Bool.eq_false_iff.mpr hflush]; rfl⟩
  · rename_i hdue
    exact ⟨_, .inr ⟨fun hs => hdue hs.2.1, rfl⟩, rfl⟩

/-- The index after a hash was stored. -/
theorem exists_stored (ix : Index δ) (d : δ) {hash : HASH}
    (hne : Dbz.Erec.ofHash hash ≠ Dbz.emptyRec) :
    ix.dbzexists (if ix.dbzexists d hash then d else ix.insert d hash) hash = true := by
  split
  · assumption
  · exact ix.exists_insert _ _ hne

/-- A safe write leaves right what the cache says of other hashes. -/
theorem SafeWrite.agrees_others (hs : SafeWrite ix h hash f) (hr : Right ix h) {hash' : HASH}
    (hne : hash' ≠ hash) {b : Bool} (hl : lookup loc h.cache hash' = some b) :
    ix.dbzexists (if ix.dbzexists h.db hash then h.db else ix.insert h.db hash) hash' = b := by
  have hb := hr _ _ hl
  split
  · exact hb
  rename_i hnew
  cases b with
  | true => exact ix.exists_mono _ _ _ hb
  | false =>
    exact hs.others hash' hne (hisCachelookup_of_lookup_false hl) (Bool.eq_false_iff.mpr hnew)

/-- A safe write that fails leaves right what the cache says of its own hash. -/
theorem SafeWrite.agrees_self (hs : SafeWrite ix h hash f) (hr : Right ix h) (hf : f.SyncFails h)
    {b : Bool} (hl : lookup loc h.cache hash = some b) :
    ix.dbzexists (if ix.dbzexists h.db hash then h.db else ix.insert h.db hash) hash = b := by
  have hb := hr _ _ hl
  cases b with
  | true => rw [if_pos hb, hb]
  | false =>
    by_cases hempty : Dbz.Erec.ofHash hash = Dbz.emptyRec
    · exact ix.exists_empty _ _ hempty
    · exact absurd (hisCachelookup_of_lookup_false hl) (hs.failed hf hempty)

/-! ## A call with and without the cache -/

/-- The history without its cache. -/
def History.uncached (h : History δ) : History δ := { h with cache := [] }

theorem hisv6Writeline_uncached (ix : Index δ) (h : History δ) (hash : HASH) (f : Faults) :
    hisv6Writeline ix h.uncached hash f =
      ((hisv6Writeline ix h hash f).1, (hisv6Writeline ix h hash f).2.uncached) := by
  have hsync : ∀ g : History δ, hisv6Sync g.uncached f =
      ((hisv6Sync g f).1, (hisv6Sync g f).2.uncached) := by
    rintro ⟨cache, synccount, dirty, db⟩
    by_cases hd : dirty = 0
    · simp [hisv6Sync, History.uncached, hd]
    · by_cases hf : f.dbzsync = true
      · simp [hisv6Sync, History.uncached, hd, hf]
      · simp [hisv6Sync, History.uncached, hd, hf]
  have hg : (if ix.dbzexists h.db hash then h.uncached else
      { h.uncached with db := ix.insert h.db hash }) =
      (if ix.dbzexists h.db hash then h else { h with db := ix.insert h.db hash }).uncached := by
    split <;> rfl
  rw [hisv6Writeline, hisv6Writeline]
  split
  · rfl
  rw [hisv6Writedbz, hisv6Writedbz]
  split
  · rfl
  show (if _ then _ else _ : Bool × History δ) = _
  simp only [show h.uncached.db = h.db from rfl, hg]
  generalize (if ix.dbzexists h.db hash then h else { h with db := ix.insert h.db hash }) = g
  simp only [show g.uncached.synccount = g.synccount from rfl,
    show g.uncached.dirty = g.dirty from rfl]
  split
  · rfl
  split
  · exact hsync { g with dirty := g.dirty + 1 }
  · rfl

theorem write_uncached (hr : Right ix h) (hc : h.cache ≠ [] → f.Stores → SafeWrite ix h hash f)
    (hw : HISwrite ix h hash f = (r, h')) :
    Right ix h' ∧ HISwrite ix h.uncached hash f = (r, h'.uncached) := by
  have hun := hisv6Writeline_uncached ix h hash f
  rcases hisv6Writeline_cases ix h hash f with ⟨-, hline⟩ | ⟨hstores, dirty, hres, hstate⟩
  · -- nothing was stored
    rw [HISwrite, hline] at hw
    cases hw
    rw [HISwrite, hun, hline]
    exact ⟨hr, rfl⟩
  rcases hres with ⟨hf, hres⟩ | ⟨hf, hres⟩
  · -- stored, and then failed
    rw [HISwrite, hres, hstate] at hw
    cases hw
    rw [HISwrite, hun, hres, hstate]
    refine ⟨fun k b hl => ?_, rfl⟩
    have hne : h.cache ≠ [] := by
      rintro hnil
      dsimp only at hl
      rw [hnil] at hl
      cases hl
    by_cases hk : k = hash
    · subst hk
      exact (hc hne hstores).agrees_self hr hf hl
    · exact (hc hne hstores).agrees_others hr hk hl
  · rw [HISwrite, hres, hstate] at hw
    cases hw
    rw [HISwrite, hun, hres, hstate]
    refine ⟨?_, rfl⟩
    by_cases hne : h.cache = []
    · rw [Right, hisCacheadd, hne]
      exact agrees_nil
    · exact agrees_add (fun k hk b hl => (hc hne hstores).agrees_others hr hk hl)
        (exists_stored ix h.db ((hc hne hstores).succeeded hf))

/-- A safe call keeps the cache right, and returns what it returns without a cache. -/
theorem step_uncached (hr : Right ix h) (hc : Safe ix h c) (hs : step ix h c = (r, h')) :
    Right ix h' ∧ step ix h.uncached c.uncached = (r, h'.uncached) := by
  cases c with
  | HIScheck hash fail =>
    rw [step, HIScheck] at hs
    have hun : step ix h.uncached (Call.HIScheck hash fail).uncached =
        (hisv6Check ix h hash fail, h.uncached) := rfl
    rw [hun]
    split at hs
    · rename_i hl
      cases hs
      obtain ⟨hfound, hne⟩ := hr.hit hl
      have hfail : fail = false := Bool.eq_false_iff.mpr fun hf => by
        have := hc hne hf
        rw [hfound] at this
        cases this
      rw [hisv6Check, hfail, hfound]
      exact ⟨hr, rfl⟩
    · rename_i hl
      cases hs
      rw [hisv6Check, hr.miss hl, Bool.and_false]
      exact ⟨hr, rfl⟩
    · cases hs
      refine ⟨?_, rfl⟩
      by_cases hne : h.cache = []
      · rw [Right, hisCacheadd, hne]
        exact agrees_nil
      refine agrees_add (fun k _ b hl => hr k b hl) ?_
      show ix.dbzexists h.db hash = (!fail && ix.dbzexists h.db hash)
      cases fail with
      | false => rfl
      | true => exact hc hne rfl
  | HISwrite hash f => exact write_uncached hr hc hs
  | HISremember hash f => exact write_uncached hr hc hs
  | HISreplace hash ok =>
    rw [step, HISreplace] at hs
    have hun : step ix h.uncached (Call.HISreplace hash ok).uncached =
        (hisv6Replace ix h hash ok, h.uncached) := by
      show (if _ then _ else _ : Bool × History δ) = _
      cases hb : hisv6Replace ix h hash ok with
      | true => exact if_pos hb
      | false => exact if_neg (Bool.eq_false_iff.mp hb)
    rw [hun]
    split at hs
    · rename_i hb
      cases hs
      rw [hb]
      refine ⟨agrees_add (fun k _ b hl => hr k b hl) ?_, rfl⟩
      exact (Bool.and_eq_true_iff.mp hb).1
    · rename_i hb
      cases hs
      rw [Bool.eq_false_iff.mpr hb]
      exact ⟨hr, rfl⟩
  | HISsetcache size =>
    cases hs
    refine ⟨agrees_replicate (ix.exists_empty _ _ ?_) _, rfl⟩
    decide

/-- A history without a cache, as `HISopen` makes it: `his_cachelookup` has nothing. -/
theorem right_of_nil (h0 : h.cache = []) : Right ix h := by
  rw [Right, h0]
  exact agrees_nil

/-- The history after a list of calls. -/
def after (ix : Index δ) (h : History δ) (calls : List Call) : History δ :=
  calls.foldl (fun h c => (step ix h c).2) h

theorem results_append (ix : Index δ) (h : History δ) (calls : List Call) (c : Call) :
    results ix h (calls ++ [c]) = results ix h calls ++ [(step ix (after ix h calls) c).1] := by
  induction calls generalizing h with
  | nil => rfl
  | cons d calls ih => exact congrArg ((step ix h d).1 :: ·) (ih (step ix h d).2)

theorem after_append (ix : Index δ) (h : History δ) (calls : List Call) (c : Call) :
    after ix h (calls ++ [c]) = (step ix (after ix h calls) c).2 := by
  rw [after, List.foldl_append]
  rfl

/-- A run is its calls with their results. -/
theorem results_of_steps {calls : List (Call × Bool)} (hrun : Steps (Next ix) h calls h') :
    results ix h (calls.map (·.1)) = calls.map (·.2) ∧ after ix h (calls.map (·.1)) = h' := by
  induction hrun with
  | nil => exact ⟨rfl, rfl⟩
  | snoc _ hlast ih =>
    obtain ⟨hres, hafter⟩ := ih
    rw [Next] at hlast
    rw [List.map_append, List.map_append, List.map_singleton, List.map_singleton, results_append,
      after_append, hres, hafter, hlast]
    exact ⟨rfl, rfl⟩

/-- A run with a cache is a run without one. -/
theorem steps_uncached (ix : Index δ) {calls : List (Call × Bool)} (h0 : h.cache = [])
    (hrun : Steps (guarded (fun h l => Safe ix h l.1) (Next ix)) h calls h') :
    Steps (Next ix) h (calls.map fun l => (l.1.uncached, l.2)) h'.uncached := by
  have hun : h.uncached = h := by rw [History.uncached, ← h0]
  have hinv : Right ix h' ∧
      Steps (Next ix) h (calls.map fun l => (l.1.uncached, l.2)) h'.uncached := by
    refine @Steps.invariant_hist _ _ _ (fun calls h' => Right ix h' ∧
      Steps (Next ix) h (calls.map fun l => (l.1.uncached, l.2)) h'.uncached) _ _ _ ?_ hrun ?_
    · rintro calls h₁ l h₂ ⟨hsafe, hnext⟩ ⟨hright, hrun⟩
      obtain ⟨hright', hun'⟩ := step_uncached hright hsafe hnext
      refine ⟨hright', ?_⟩
      rw [List.map_append]
      exact hrun.snoc hun'
    · rw [hun]
      exact ⟨right_of_nil h0, .nil⟩
  exact hinv.2

end Runs

/-- An index that finds the hashes stored in it. -/
def listIndex : Index (List HASH) where
  dbzexists d hash := decide (hash ∈ d ∧ Dbz.Erec.ofHash hash ≠ Dbz.emptyRec)
  insert d hash := hash :: d
  exists_insert _ _ hne := decide_eq_true ⟨List.mem_cons_self, hne⟩
  exists_mono _ _ _ h :=
    decide_eq_true ((of_decide_eq_true h).imp_left (List.mem_cons_of_mem _))
  exists_empty _ _ h := decide_eq_false fun h' => h'.2 h

def onesHash : HASH := .replicate 16 1

/-- A new history that is synchronised after every write. -/
def newHistory : History (List HASH) := ⟨[], 1, 0, []⟩

/-- The flush after the index was updated fails. -/
def flushFails : Faults := ⟨false, false, true, false⟩

end Inn.His
