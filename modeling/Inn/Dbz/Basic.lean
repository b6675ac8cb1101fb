import Inn.Base

/-!
# Inn.Dbz.Basic — the dbz database of `lib/dbz.c`

The non-tagged build: an index table of offsets and an existence table of hash
prefixes, each one or more hash tables of `tsize` records stored one after the
other. A search probes `MAXRUN + 1` places of table 0, then as many of table 1,
and so on.

The model keeps what the C code keeps between calls: the saved searcher `srch`,
whether `prevp` points to it, the in-core copies and the files. Reads and
writes do not fail, except that a read past the end of a file is short.
The tables live in core below `tsize` (a malloc'ed copy or a mapping of the
file) and in the file above it.
-/

namespace Inn.Dbz

/-- `MAXRUN`: length of run which shifts to the next table. -/
def MAXRUN : ℕ := 100

/-- `DBZ_INTERNAL_HASH_SIZE`: bytes of the hash actually stored. -/
def DBZ_INTERNAL_HASH_SIZE : ℕ := 6

/-- `erec`: a record of the existence table, the first bytes of a hash. -/
structure Erec where
  hash : Vector UInt8 DBZ_INTERNAL_HASH_SIZE
deriving DecidableEq

instance : Zero Erec := ⟨⟨Vector.replicate _ 0⟩⟩

/-- `empty_rec`. -/
def emptyRec : Erec := 0

/-- The record stored for a key: `memcpy` of the first bytes of its hash. -/
def Erec.ofHash (hash : HASH) : Erec := ⟨hash.take DBZ_INTERNAL_HASH_SIZE⟩

/-- A stored offset (`of_t`). -/
abbrev OffT := ℤ

/-- `dbz_incore_val`. -/
inductive IncoreVal where
  | no
  | mem
  | mmap
deriving DecidableEq, Repr

/-- `dbzoptions`, without the option for non-blocking writes. -/
structure DbzOptions where
  writethrough : Bool
  pagIncore : IncoreVal
  existsIncore : IncoreVal

/-- The fields of `dbzconfig` the calls below use: the table size and `used[0]`. -/
structure DbzConfig where
  tsize : ℕ
  used : ℕ

/-- `searcher`: where a search is, and for what. `run` is `-1` before the first
probe. -/
structure Searcher where
  place : ℕ
  tabno : ℕ
  run : ℤ
  hash : HASH
  shorthash : ℕ
  aborted : Bool

/-- `hash_table`: `core` is the malloc'ed copy of the first table (used with
`INCORE_MEM`); with `INCORE_MMAP` the core is the beginning of the file. -/
structure HashTable (ρ : Type) where
  incore : IncoreVal
  core : List ρ
  file : List ρ

namespace HashTable

variable {ρ : Type} [Zero ρ]

/-- Read an in-core record. -/
def getCore (tab : HashTable ρ) (place : ℕ) : ρ :=
  match tab.incore with
  | .mmap => recordAt tab.file place
  | _ => recordAt tab.core place

/-- Write an in-core record. -/
def setCore (tab : HashTable ρ) (place : ℕ) (value : ρ) : HashTable ρ :=
  match tab.incore with
  | .mmap => { tab with file := pwrite tab.file place value }
  | _ => { tab with core := pwrite tab.core place value }

/-- `openhashtable` with `getcore`: map the first table, extending the file if
it is too small, or copy it into core. -/
def openHashTable (file : List ρ) (tsize : ℕ) (incore : IncoreVal) : HashTable ρ :=
  match incore with
  | .no => { incore := .no, core := [], file := file }
  | .mem => { incore := .mem, core := extend (file.take tsize) tsize, file := file }
  | .mmap => { incore := .mmap, core := [], file := extend file tsize }

end HashTable

/-- The global state of the library: `opendb`, `readonly`, `dirty`, `options`,
`conf`, `srch`, `prevp` (true for `&srch`, false for `FRESH`) and the tables. -/
structure Db where
  opendb : Bool
  readonly : Bool
  dirty : Bool
  options : DbzOptions
  conf : DbzConfig
  srch : Searcher
  prevp : Bool
  idxtab : HashTable OffT
  etab : HashTable Erec

/-- `dbzinit` on a database whose files are given. The searcher is static, so
zero. -/
def dbzinit (options : DbzOptions) (tsize : ℕ) (idx : List OffT) (exist : List Erec) : Db where
  opendb := true
  readonly := false
  dirty := false
  options := options
  conf := { tsize := tsize, used := 0 }
  srch := { place := 0, tabno := 0, run := 0, hash := HASH.clear, shorthash := 0, aborted := false }
  prevp := false
  idxtab := HashTable.openHashTable idx tsize options.pagIncore
  etab := HashTable.openHashTable exist tsize options.existsIncore

/-- The integer version of a hash: the last eight bytes, read as a little-endian
`unsigned long`, shifted right by one. -/
def shorthash (hash : HASH) : ℕ :=
  (hash.toList.drop 8).foldr (fun b acc => b.toNat + 256 * acc) 0 / 2

/-- `start`: set up to start or restart a search. `osp` is `FRESH` or the
searcher of the previous search. -/
def start (sp : Searcher) (hash : HASH) (osp : Option Searcher) : Searcher :=
  let fresh : Searcher :=
    { sp with hash := hash, shorthash := shorthash hash, tabno := 0, run := -1, aborted := false }
  match osp with
  | none => fresh
  | some osp => if osp.hash = hash then { osp with run := osp.run - 1 } else fresh

/-- Read an existence record: from core, or from the file where a short read
counts as an empty record. -/
def Db.readErec (db : Db) (place : ℕ) : Erec :=
  if db.options.existsIncore ≠ .no ∧ place < db.conf.tsize then db.etab.getCore place
  else (pread db.etab.file place).getD 0

/-- The loop of `search`. `taboffset` is the local variable of that name;
`fuel` bounds the number of probes. -/
def searchLoop (db : Db) : ℕ → ℕ → Searcher → Option (Bool × Searcher)
  | 0, _, _ => none
  | fuel + 1, taboffset, sp =>
    -- go to next location: `if (sp->run++ == MAXRUN)`
    let next : Searcher × ℕ :=
      if sp.run = MAXRUN then
        ({ sp with tabno := sp.tabno + 1, run := 0 }, (sp.tabno + 1) * db.conf.tsize)
      else
        ({ sp with run := sp.run + 1 }, taboffset)
    let taboffset := next.2
    let sp := next.1
    let sp := { sp with place := (sp.shorthash + sp.run.toNat) % db.conf.tsize + taboffset }
    let value := db.readErec sp.place
    if value = emptyRec then some (false, sp)
    else if value = Erec.ofHash sp.hash then some (true, sp)
    else searchLoop db fuel taboffset sp

/-- More probes than any search makes: every table that is not wholly past the
end of the file is probed once, and one more. -/
def Db.searchFuel (db : Db) : ℕ := (db.etab.file.length + 3) * (MAXRUN + 1)

/-- `search`: find the key, or the vacant place where it would go. The local
`taboffset` starts at zero. -/
def search (db : Db) (sp : Searcher) : Option (Bool × Searcher) :=
  if sp.aborted then some (false, sp)
  else searchLoop db db.searchFuel 0 sp

/-- `set`: store a value at the location found by `search`. -/
def set {ρ : Type} [Zero ρ] (options : DbzOptions) (tsize : ℕ) (sp : Searcher)
    (tab : HashTable ρ) (value : ρ) : Bool × HashTable ρ :=
  if sp.aborted then (false, tab)
  else if tab.incore ≠ .no ∧ sp.place < tsize then
    let tab := tab.setCore sp.place value
    if tab.incore = .mmap then (true, tab)
    else if !options.writethrough then (true, tab)
    else (true, { tab with file := pwrite tab.file sp.place value })
  else (true, { tab with file := pwrite tab.file sp.place value })

/-- `DBZSTORE_RESULT`. -/
inductive StoreResult where
  | ok
  | exists
  | error
deriving DecidableEq, Repr

/-- `dbzexists`: is the key in the database? -/
def dbzexists (db : Db) (key : HASH) : Option (Bool × Db) :=
  if !db.opendb then some (false, db)
  else
    let db := { db with prevp := false, srch := start db.srch key none }
    (search db db.srch).map fun (found, sp) => (found, { db with srch := sp })

/-- `dbzfetch`: the offset stored for a key, if there is one. -/
def dbzfetch (db : Db) (key : HASH) : Option (Option OffT × Db) :=
  let db := { db with prevp := false }
  if !db.opendb then some (none, db)
  else
    let db := { db with srch := start db.srch key none }
    (search db db.srch).map fun (found, sp) =>
      if found then
        if db.options.pagIncore ≠ .no ∧ sp.place < db.conf.tsize then
          (some (db.idxtab.getCore sp.place), { db with srch := sp })
        else
          match pread db.idxtab.file sp.place with
          | some value => (some value, { db with srch := sp })
          | none => (none, { db with srch := { sp with aborted := true } })
      else
        -- remember where we stopped
        (none, { db with srch := sp, prevp := true })

/-- `dbzstore`: add an entry. The search resumes from the saved searcher when
`prevp` says so. -/
def dbzstore (db : Db) (key : HASH) (data : OffT) : Option (StoreResult × Db) :=
  if !db.opendb then some (.error, db)
  else if db.readonly then some (.error, db)
  else
    let db := { db with srch := start db.srch key (if db.prevp then some db.srch else none) }
    (search db db.srch).map fun (found, sp) =>
      if found then (.exists, { db with srch := sp })
      else
        let db := { db with srch := sp, prevp := false, dirty := true,
                            conf := { db.conf with used := db.conf.used + 1 } }
        let evalue := Erec.ofHash sp.hash
        let (ok, idxtab) := set db.options db.conf.tsize sp db.idxtab data
        let db := { db with idxtab := idxtab }
        if !ok then (.error, db)
        else
          let (ok, etab) := set db.options db.conf.tsize sp db.etab evalue
          let db := { db with etab := etab }
          if !ok then (.error, db) else (.ok, db)

end Inn.Dbz
