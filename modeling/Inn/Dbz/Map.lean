import Mathlib.Tactic.FinCases
import Inn.Rules
import Inn.Dbz.Search

/-!
# Inn.Dbz.Map — dbz as a partial map over whole runs

A run is a list of calls with their results. `KeepsMap` says that whatever
`dbzstore` accepted is what `dbzfetch` and `dbzexists` report from then on.

The code keeps its map only as long as no `dbzstore` resumes a saved searcher
that had left table 0 (`ResumesInFirstTable`): `search` starts with
`taboffset = 0` whatever `sp->tabno` is, so a resumed search probes table 0
again and goes on in the table after the one where it had stopped.
-/

namespace Inn.Dbz

open Probe

/-- A call of the library with its result. -/
inductive Call where
  | dbzfetch (key : HASH) (result : Option OffT)
  | dbzexists (key : HASH) (result : Bool)
  | dbzstore (key : HASH) (data : OffT) (result : StoreResult)

/-- The key of a call. -/
def Call.key : Call → HASH
  | .dbzfetch key _ => key
  | .dbzexists key _ => key
  | .dbzstore key _ _ => key

/-- One call. -/
def Next (db : Db) (c : Call) (db' : Db) : Prop :=
  match c with
  | .dbzfetch key result => Dbz.dbzfetch db key = some (result, db')
  | .dbzexists key result => Dbz.dbzexists db key = some (result, db')
  | .dbzstore key data result => Dbz.dbzstore db key data = some (result, db')

/-- The stored prefixes of the keys of a run are non-zero and pairwise distinct. -/
def DistinctPrefixes (calls : List Call) : Prop :=
  (∀ c ∈ calls, Erec.ofHash c.key ≠ emptyRec) ∧
    ∀ c ∈ calls, ∀ c' ∈ calls, Erec.ofHash c.key = Erec.ofHash c'.key → c.key = c'.key

/-- Every call returns, and a key that `dbzstore` accepted is found with its
value, in every state a run of `next` reaches from an empty database. -/
def KeepsMap (next : Db → Call → Db → Prop) (options : DbzOptions) (tsize : ℕ) : Prop :=
  ∀ calls db, Steps next (dbzinit options tsize [] []) calls db → DistinctPrefixes calls →
    (∀ key, (dbzfetch db key).isSome ∧ (dbzexists db key).isSome) ∧
    ∀ key data, .dbzstore key data .ok ∈ calls →
      (∃ db', dbzfetch db key = some (some data, db')) ∧
        ∃ db', dbzexists db key = some (true, db')

/-- A `dbzstore` does not resume a search that stopped past table 0. -/
def ResumesInFirstTable (db : Db) : Call → Prop
  | .dbzstore key _ _ => db.prevp = true → db.srch.hash = key → db.srch.tabno = 0
  | _ => True

/-! ## The invariant -/

/-- The saved searcher stands where the probe sequence of its key stops. -/
def Db.Saved (db : Db) : Prop :=
  db.prevp = true → ∃ n, db.srch.At db.conf.tsize n ∧
    StopsAt (slot db.conf.tsize) Erec.ofHash db.table db.srch.hash n

/-- The tables are well formed, the saved searcher is current, and every
accepted key is found with its value. -/
structure Inv (calls : List Call) (db : Db) : Prop where
  wf : db.Wf
  saved : db.Saved
  found : ∀ key data, .dbzstore key data .ok ∈ calls → Erec.ofHash key ≠ emptyRec →
    ∃ n, FoundAt (slot db.conf.tsize) Erec.ofHash db.table key n data

theorem load_openHashTable_nil {ρ : Type} [Zero ρ] (tsize : ℕ) (incore : IncoreVal) (q : ℕ) :
    (HashTable.openHashTable ([] : List ρ) tsize incore).load tsize q = 0 := by
  cases incore with
  | no => simp [HashTable.openHashTable, HashTable.load]
  | mem => simp [HashTable.openHashTable, HashTable.load, HashTable.getCore, recordAt_extend]
  | mmap => simp [HashTable.openHashTable, HashTable.load, HashTable.getCore, recordAt_extend]

theorem incore_openHashTable {ρ : Type} [Zero ρ] (file : List ρ) (tsize : ℕ)
    (incore : IncoreVal) : (HashTable.openHashTable file tsize incore).incore = incore := by
  cases incore <;> rfl

theorem table_dbzinit (options : DbzOptions) (tsize place : ℕ) :
    (dbzinit options tsize [] []).table place = none := by
  rw [Db.table_eq_none]
  exact load_openHashTable_nil tsize options.existsIncore place

theorem inv_dbzinit (options : DbzOptions) {tsize : ℕ} (h : 1 ≤ tsize) :
    Inv [] (dbzinit options tsize [] []) where
  wf :=
    { opened := rfl
      writable := rfl
      tsize_pos := h
      exists_incore := (incore_openHashTable _ _ _).symm
      pag_incore := (incore_openHashTable _ _ _).symm
      covers := fun place hp => absurd (table_dbzinit options tsize place) hp }
  saved := by
    intro hp
    cases hp
  found := by
    intro key data hmem
    cases hmem

/-! ## Calls that do not write

`Inv` does not speak about `srch` unless `prevp` is set, nor about the counters,
so a call that only moves the searcher keeps it. -/

theorem Db.Wf.not_closed {db : Db} (h : db.Wf) : (!db.opendb) = false := by
  rw [h.opened]
  rfl

theorem Db.Wf.not_readonly {db : Db} (h : db.Wf) : ¬ db.readonly = true := by
  rw [h.writable]
  exact Bool.false_ne_true

/-- Only the searcher and `prevp` differ. -/
theorem Db.Wf.of_srch {db : Db} (h : db.Wf) (sp : Searcher) (prevp : Bool) :
    ({ db with srch := sp, prevp := prevp } : Db).Wf :=
  ⟨h.opened, h.writable, h.tsize_pos, h.exists_incore, h.pag_incore, h.covers⟩

/-- A fresh search of any key stops, found or vacant. -/
theorem search_fresh {db : Db} (h : db.Wf) (key : HASH) (sp : Searcher) (prevp : Bool) :
    ∃ n found sp', search { db with srch := start sp key none, prevp := prevp }
        (start sp key none) = some (found, sp') ∧
      sp'.hash = key ∧ sp'.At db.conf.tsize n ∧
      (found = true → ∃ v, FoundAt (slot db.conf.tsize) Erec.ofHash db.table key n v) ∧
      (found = false → VacantAt (slot db.conf.tsize) Erec.ofHash db.table key n) := by
  obtain ⟨hk, hsh, hab, haim⟩ := start_fresh db.conf.tsize sp key
  have hwf := h.of_srch (start sp key none) prevp
  obtain ⟨n, found, sp', hs, hh, hat, hf, hv⟩ :=
    search_spec hwf (n := 0) (by rw [hk]; exact hsh) hab haim
      (by intro j hj; cases hj)
  rw [hk] at hh hf hv
  exact ⟨n, found, sp', hs, hh, hat, hf, hv⟩

/-- `dbzexists` returns whether the key is found; the tables stay. -/
theorem dbzexists_spec {db : Db} (h : db.Wf) (key : HASH) :
    ∃ n found sp, dbzexists db key = some (found, { db with prevp := false, srch := sp }) ∧
      (found = true → ∃ v, FoundAt (slot db.conf.tsize) Erec.ofHash db.table key n v) ∧
      (found = false → VacantAt (slot db.conf.tsize) Erec.ofHash db.table key n) := by
  obtain ⟨n, found, sp, hs, -, -, hf, hv⟩ := search_fresh h key db.srch false
  refine ⟨n, found, sp, ?_, hf, hv⟩
  simp only [dbzexists, h.not_closed, Bool.false_eq_true, if_false, hs, Option.map_some]

/-- The offset of an occupied place can be read. -/
theorem pread_idx {db : Db} (h : db.Wf) {place : ℕ} {e : Erec} {v : OffT}
    (ht : db.table place = some (e, v))
    (hc : ¬ (db.options.pagIncore ≠ .no ∧ place < db.conf.tsize)) :
    pread db.idxtab.file place = some v := by
  rw [h.pag_incore] at hc
  rcases h.covers place (by rw [ht]; simp) with hcore | hlt
  · exact absurd hcore hc
  · rw [pread_eq_some hlt]
    have hval := Db.idx_of_table ht
    unfold HashTable.load at hval
    rw [if_neg hc] at hval
    rw [hval]

/-- `dbzfetch` returns the value found, or remembers where it stopped. -/
theorem dbzfetch_spec {db : Db} (h : db.Wf) (key : HASH) :
    ∃ n sp, sp.hash = key ∧ sp.At db.conf.tsize n ∧
      ((∃ v, dbzfetch db key = some (some v, { db with prevp := false, srch := sp }) ∧
          FoundAt (slot db.conf.tsize) Erec.ofHash db.table key n v) ∨
        (dbzfetch db key = some (none, { db with prevp := true, srch := sp }) ∧
          VacantAt (slot db.conf.tsize) Erec.ofHash db.table key n)) := by
  obtain ⟨n, found, sp, hs, hh, hat, hf, hv⟩ := search_fresh h key db.srch false
  refine ⟨n, sp, hh, hat, ?_⟩
  cases found with
  | false =>
    right
    refine ⟨?_, hv rfl⟩
    simp only [dbzfetch, h.not_closed, Bool.false_eq_true, if_false, hs, Option.map_some]
  | true =>
    left
    obtain ⟨v, hfound⟩ := hf rfl
    refine ⟨v, ?_, hfound⟩
    have hplace : db.table sp.place = some (Erec.ofHash key, v) := by
      rw [hat.place_eq, hh]
      exact hfound.2
    by_cases hc : db.options.pagIncore ≠ .no ∧ sp.place < db.conf.tsize
    · have hval : db.idxtab.getCore sp.place = v := by
        have hload := Db.idx_of_table hplace
        unfold HashTable.load at hload
        rw [h.pag_incore] at hc
        rw [if_pos hc] at hload
        exact hload
      simp only [dbzfetch, h.not_closed, Bool.false_eq_true, if_false, hs, Option.map_some,
        if_true, if_pos hc, hval]
    · have hval := pread_idx h hplace hc
      simp only [dbzfetch, h.not_closed, Bool.false_eq_true, if_false, hs, Option.map_some,
        if_true, if_neg hc, hval]

/-! ## `dbzstore` -/

/-- Where `dbzstore` starts: at probe 0, or back at the probe where the saved
search stopped, if that was in table 0. -/
theorem start_store {db : Db} (hsaved : db.Saved) {key : HASH} {data : OffT}
    {result : StoreResult} (hguard : ResumesInFirstTable db (.dbzstore key data result)) :
    ∃ n, (start db.srch key (if db.prevp then some db.srch else none)).hash = key ∧
      (start db.srch key (if db.prevp then some db.srch else none)).shorthash = shorthash key ∧
      (start db.srch key (if db.prevp then some db.srch else none)).aborted = false ∧
      Aims db.conf.tsize (start db.srch key (if db.prevp then some db.srch else none)) 0 n ∧
      Passes (slot db.conf.tsize) Erec.ofHash db.table key n := by
  by_cases hresume : db.prevp = true ∧ db.srch.hash = key
  · obtain ⟨hp, hk⟩ := hresume
    obtain ⟨n, hat, hstop⟩ := hsaved hp
    have htab := hguard hp hk
    rw [if_pos hp]
    have hstart : start db.srch key (some db.srch) = { db.srch with run := db.srch.run - 1 } := by
      simp [start, hk]
    rw [hstart]
    refine ⟨n, hk, by rw [← hk]; exact hat.shorthash_eq, hat.not_aborted, ?_, hk ▸ hstop.1⟩
    have hR : runLength = 101 := rfl
    have hM : MAXRUN = 100 := rfl
    have hrun := hat.run_eq
    have hdiv := hat.tabno_eq
    rw [htab, hR] at hdiv
    rw [hR] at hrun
    refine ⟨?_, ?_, ?_, Or.inr ?_⟩
    · simp only [htab]
      omega
    · simp only
      omega
    · simp only [hM]
      omega
    · simp [htab]
  · have hfresh : start db.srch key (if db.prevp then some db.srch else none) =
        start db.srch key none := by
      by_cases hp : db.prevp = true
      · rw [if_pos hp]
        have hk : ¬ db.srch.hash = key := fun hk => hresume ⟨hp, hk⟩
        simp [start, hk]
      · rw [if_neg hp]
    rw [hfresh]
    obtain ⟨hk, hsh, hab, haim⟩ := start_fresh db.conf.tsize db.srch key
    exact ⟨0, hk, hsh, hab, haim, by intro j hj; cases hj⟩

/-- Both records written at the place found are one insertion into the table
(or none, for a key whose stored prefix is all zeros). -/
theorem table_store (db : Db) {sp : Searcher} (hab : sp.aborted = false) (data : OffT)
    (rest : Db) (hconf : rest.conf.tsize = db.conf.tsize)
    (hidx : rest.idxtab = (set db.options db.conf.tsize sp db.idxtab data).2)
    (hexist : rest.etab =
      (set db.options db.conf.tsize sp db.etab (Erec.ofHash sp.hash)).2)
    (hkey : Erec.ofHash sp.hash ≠ emptyRec) :
    rest.table = Function.update db.table sp.place (some (Erec.ofHash sp.hash, data)) := by
  funext q
  unfold Db.table
  rw [hconf, hidx, hexist, load_set _ _ _ hab, load_set _ _ _ hab]
  by_cases hq : q = sp.place
  · subst hq
    simp [hkey]
  · simp [hq]

/-- A key with an all-zero prefix leaves no trace. -/
theorem table_store_empty (db : Db) {sp : Searcher} (hab : sp.aborted = false) (data : OffT)
    (rest : Db) (hconf : rest.conf.tsize = db.conf.tsize)
    (hidx : rest.idxtab = (set db.options db.conf.tsize sp db.idxtab data).2)
    (hexist : rest.etab =
      (set db.options db.conf.tsize sp db.etab (Erec.ofHash sp.hash)).2)
    (hkey : Erec.ofHash sp.hash = emptyRec) (hvac : db.table sp.place = none) :
    rest.table = db.table := by
  funext q
  unfold Db.table
  rw [hconf, hidx, hexist, load_set _ _ _ hab, load_set _ _ _ hab]
  rw [Db.table_eq_none] at hvac
  by_cases hq : q = sp.place
  · subst hq
    simp [hkey, hvac]
  · simp [hq]

/-- `dbzstore` finds the key and changes nothing, or puts it where its search
stopped. -/
theorem dbzstore_spec {db : Db} (h : db.Wf) (hsaved : db.Saved) {key : HASH} {data : OffT}
    (hguard : ∀ result, ResumesInFirstTable db (.dbzstore key data result)) :
    ∃ n sp, sp.hash = key ∧ sp.At db.conf.tsize n ∧
      ((∃ v, dbzstore db key data = some (.exists, { db with srch := sp }) ∧
          FoundAt (slot db.conf.tsize) Erec.ofHash db.table key n v) ∨
        ∃ db', dbzstore db key data = some (.ok, db') ∧ db'.Wf ∧ db'.prevp = false ∧
          db'.conf.tsize = db.conf.tsize ∧
          VacantAt (slot db.conf.tsize) Erec.ofHash db.table key n ∧
          ((Erec.ofHash key ≠ emptyRec ∧ db'.table =
              Function.update db.table (slot db.conf.tsize key n) (some (Erec.ofHash key, data))) ∨
            Erec.ofHash key = emptyRec ∧ db'.table = db.table)) := by
  obtain ⟨n0, hk, hsh, hab, haim, hpass⟩ := start_store hsaved (hguard .ok)
  generalize hst : start db.srch key (if db.prevp then some db.srch else none) = st at *
  have hwf := h.of_srch st db.prevp
  obtain ⟨n, found, sp, hs, hh, hat, hf, hv⟩ :=
    search_spec hwf (n := n0) (by rw [hk]; exact hsh) hab haim (by rw [hk]; exact hpass)
  rw [hk] at hh hf hv
  refine ⟨n, sp, hh, hat, ?_⟩
  cases found with
  | true =>
    left
    obtain ⟨v, hfound⟩ := hf rfl
    refine ⟨v, ?_, hfound⟩
    simp only [dbzstore, h.not_closed, if_neg h.not_readonly, Bool.false_eq_true, if_false, hst, hs,
      Option.map_some, if_true]
  | false =>
    right
    have hvac := hv rfl
    have hab' := hat.not_aborted
    have hplace : sp.place = slot db.conf.tsize key n := by rw [hat.place_eq, hh]
    have hvacant : db.table sp.place = none := by
      rw [hplace]
      exact hvac.2
    let db' : Db :=
      { db with
        srch := sp, prevp := false, dirty := true,
        conf := { db.conf with used := db.conf.used + 1 },
        idxtab := (set db.options db.conf.tsize sp db.idxtab data).2,
        etab := (set db.options db.conf.tsize sp db.etab (Erec.ofHash sp.hash)).2 }
    have hres : dbzstore db key data = some (.ok, db') := by
      have hs' : search { db with srch := st } st = some (false, sp) := hs
      simp only [dbzstore, h.not_closed, if_neg h.not_readonly, Bool.false_eq_true, if_false, hst, hs',
        Option.map_some, set_ok _ _ _ hab', Bool.not_true, db']
    have htable : (Erec.ofHash key ≠ emptyRec ∧ db'.table =
          Function.update db.table (slot db.conf.tsize key n) (some (Erec.ofHash key, data))) ∨
        Erec.ofHash key = emptyRec ∧ db'.table = db.table := by
      by_cases hkey : Erec.ofHash key = emptyRec
      · right
        exact ⟨hkey, table_store_empty db hab' data db' rfl rfl rfl (by rw [hh]; exact hkey) hvacant⟩
      · left
        refine ⟨hkey, ?_⟩
        rw [← hplace, ← hh]
        exact table_store db hab' data db' rfl rfl rfl (by rw [hh]; exact hkey)
    refine ⟨db', hres, ?_, rfl, rfl, hvac, htable⟩
    refine ⟨h.opened, h.writable, h.tsize_pos, ?_, ?_, ?_⟩
    · rw [h.exists_incore]
      exact (set_incore _ _ _).symm
    · rw [h.pag_incore]
      exact (set_incore _ _ _).symm
    · intro place hp
      have hi : db'.idxtab.incore = db.idxtab.incore := set_incore _ _ _
      rw [hi]
      by_cases hq : place = sp.place
      · rw [hq]
        exact set_covers _ _ _ hab'
      · have hold : db.table place ≠ none := by
          rcases htable with ⟨-, ht⟩ | ⟨-, ht⟩
          · rw [ht, ← hplace, Function.update_of_ne hq] at hp
            exact hp
          · rw [ht] at hp
            exact hp
        rcases h.covers place hold with hc | hlt
        · exact Or.inl hc
        · exact Or.inr (lt_of_lt_of_le hlt (length_set _ _ _))

/-! ## One step, and whole runs -/

theorem inv_step (calls : List Call) (db : Db) (c : Call) (db' : Db)
    (hnext : guarded ResumesInFirstTable Next db c db') (hinv : Inv calls db) :
    Inv (calls ++ [c]) db' := by
  obtain ⟨hguard, hstep⟩ := hnext
  obtain ⟨hwf, hsaved, hfound⟩ := hinv
  cases c with
  | dbzfetch key result =>
    obtain ⟨n, sp, hh, hat, ⟨v, hres, -⟩ | ⟨hres, hvac⟩⟩ := dbzfetch_spec hwf key
    · have heq := hres.symm.trans hstep
      cases heq
      refine ⟨hwf.of_srch sp false, (by intro hp; cases hp), ?_⟩
      intro key' data hmem hne
      exact hfound key' data (by simpa using hmem) hne
    · have heq := hres.symm.trans hstep
      cases heq
      refine ⟨hwf.of_srch sp true, fun _ => ⟨n, hat, ?_⟩, ?_⟩
      · rw [hh]
        exact hvac.stops
      · intro key' data hmem hne
        exact hfound key' data (by simpa using hmem) hne
  | dbzexists key result =>
    obtain ⟨n, found, sp, hres, -, -⟩ := dbzexists_spec hwf key
    have heq := hres.symm.trans hstep
    cases heq
    refine ⟨hwf.of_srch sp false, (by intro hp; cases hp), ?_⟩
    intro key' data hmem hne
    exact hfound key' data (by simpa using hmem) hne
  | dbzstore key data result =>
    obtain ⟨n, sp, hh, hat, ⟨v, hres, hf⟩ | ⟨db1, hres, hwf1, hp1, hts, hvac, htable⟩⟩ :=
      dbzstore_spec hwf hsaved (fun _ => hguard)
    · -- the key exists: only the searcher moved, onto the key's entry
      have heq := hres.symm.trans hstep
      cases heq
      refine ⟨hwf.of_srch sp db.prevp, fun _ => ⟨n, hat, ?_⟩, ?_⟩
      · rw [hh]
        exact hf.stops
      · intro key' data' hmem hne
        exact hfound key' data' (by simpa using hmem) hne
    · have heq := hres.symm.trans hstep
      cases heq
      refine ⟨hwf1, (by intro hp; rw [hp1] at hp; cases hp), ?_⟩
      intro key' data' hmem hne
      rw [hts]
      rcases List.mem_append.mp hmem with hold | hnew
      · obtain ⟨m, hm⟩ := hfound key' data' hold hne
        rcases htable with ⟨-, ht⟩ | ⟨-, ht⟩
        · rw [ht]
          exact ⟨m, hm.insert_other hvac.2⟩
        · rw [ht]
          exact ⟨m, hm⟩
      · rw [List.mem_singleton] at hnew
        cases hnew
        rcases htable with ⟨-, ht⟩ | ⟨hz, -⟩
        · rw [ht]
          exact ⟨n, FoundAt.insert data hvac⟩
        · exact absurd hz hne

theorem run_inv {options : DbzOptions} {tsize : ℕ} (h : 1 ≤ tsize) {calls : List Call} {db : Db}
    (hrun : Steps (guarded ResumesInFirstTable Next) (dbzinit options tsize [] []) calls db) :
    Inv calls db :=
  hrun.invariant_hist inv_step (inv_dbzinit options h)

/-- What the invariant says about the next `dbzfetch` and `dbzexists` of a key. -/
theorem lookup_of_found {db : Db} (h : db.Wf) {key : HASH} {m : ℕ} {data : OffT}
    (hm : FoundAt (slot db.conf.tsize) Erec.ofHash db.table key m data) :
    (∃ db', dbzfetch db key = some (some data, db')) ∧
      ∃ db', dbzexists db key = some (true, db') := by
  constructor
  · obtain ⟨n, sp, -, -, ⟨v, hres, hf⟩ | ⟨-, hvac⟩⟩ := dbzfetch_spec h key
    · have hn := hf.stops.unique hm.stops
      rw [hn] at hf
      have hv := hf.2.symm.trans hm.2
      cases hv
      exact ⟨_, hres⟩
    · have hn := hvac.stops.unique hm.stops
      rw [hn] at hvac
      have hv := hvac.2.symm.trans hm.2
      cases hv
  · obtain ⟨n, found, sp, hres, -, hv⟩ := dbzexists_spec h key
    cases found with
    | true => exact ⟨_, hres⟩
    | false =>
      have hvac := hv rfl
      have hn := hvac.stops.unique hm.stops
      rw [hn] at hvac
      have hv := hvac.2.symm.trans hm.2
      cases hv

/-- dbz is a partial map over every run in which no `dbzstore` resumes a search
that had left table 0. -/
theorem dbz_keeps_map (options : DbzOptions) (tsize : ℕ) (h : 1 ≤ tsize) :
    KeepsMap (guarded ResumesInFirstTable Next) options tsize := by
  intro calls db hrun hkeys
  have hinv := run_inv h hrun
  refine ⟨fun key => ?_, fun key data hmem => ?_⟩
  · constructor
    · obtain ⟨n, sp, -, -, ⟨v, hres, -⟩ | ⟨hres, -⟩⟩ := dbzfetch_spec hinv.wf key
      · rw [hres]
        rfl
      · rw [hres]
        rfl
    · obtain ⟨n, found, sp, hres, -, -⟩ := dbzexists_spec hinv.wf key
      rw [hres]
      rfl
  · obtain ⟨m, hm⟩ := hinv.found key data hmem (hkeys.1 _ hmem)
    exact lookup_of_found hinv.wf hm

theorem dbz_keeps_map_one : 1 ≤ 1 ∧
    KeepsMap (guarded ResumesInFirstTable Next) ⟨false, .no, .no⟩ 1 :=
  ⟨le_refl 1, dbz_keeps_map ⟨false, .no, .no⟩ 1 (le_refl 1)⟩

/-! ## A resumed search past table 0

With one record a table, the second key overflows into table 1. Its `dbzfetch`
stops there, the `dbzstore` that follows resumes in table 0 and puts the key
into table 2, and the next `dbzfetch` stops at the place left vacant. -/

/-- The key whose sixteen bytes are all `b`. -/
def sameByteKey (b : UInt8) : HASH := Vector.replicate 16 b

/-- Store a first key, fetch a second, store it, and fetch it again. -/
def storeFetchStoreFetch (db : Db) (first second : HASH) :
    Option (StoreResult × Option OffT × StoreResult × Option OffT) :=
  (dbzstore db first 7).bind fun (r1, db1) =>
  (dbzfetch db1 second).bind fun (r2, db2) =>
  (dbzstore db2 second 9).bind fun (r3, db3) =>
  (dbzfetch db3 second).map fun (r4, _) => (r1, r2, r3, r4)

theorem resumed_store_is_lost :
    ¬ ∀ options tsize, 1 ≤ tsize → KeepsMap Next options tsize := by
  intro hall
  have hrun : storeFetchStoreFetch (dbzinit ⟨false, .no, .no⟩ 1 [] []) (sameByteKey 1)
      (sameByteKey 2) = some (.ok, none, .ok, none) := by
    decide +kernel
  simp only [storeFetchStoreFetch, Option.bind_eq_some_iff, Option.map_eq_some_iff,
    Prod.exists, Prod.mk.injEq] at hrun
  obtain ⟨r1, db1, h1, r2, db2, h2, r3, db3, h3, r4, db4, h4, rfl, rfl, rfl, rfl⟩ := hrun
  have hsteps : Steps Next (dbzinit ⟨false, .no, .no⟩ 1 [] [])
      [.dbzstore (sameByteKey 1) 7 .ok, .dbzfetch (sameByteKey 2) none,
        .dbzstore (sameByteKey 2) 9 .ok]
      db3 :=
    ((Steps.single h1).snoc h2).snoc h3
  have hkeys : DistinctPrefixes
      [.dbzstore (sameByteKey 1) 7 .ok, .dbzfetch (sameByteKey 2) none,
        .dbzstore (sameByteKey 2) 9 .ok] := by
    constructor
    · intro c hc
      fin_cases hc <;> decide
    · intro c hc c' hc'
      fin_cases hc <;> fin_cases hc' <;> decide
  obtain ⟨⟨db', hfetch⟩, -⟩ :=
    (hall ⟨false, .no, .no⟩ 1 (le_refl 1) _ _ hsteps hkeys).2 (sameByteKey 2) 9 (by simp)
  rw [h4] at hfetch
  cases hfetch

end Inn.Dbz
