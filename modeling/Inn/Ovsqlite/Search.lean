import Inn.Ovsqlite.Server

/-!
# Inn.Ovsqlite.Search — searches through the server and by the direct reader

A search returns one article a call. The rows come in batches: from the server, which
packs as many as the space given to it allows (`doSearchGroup`), or from the database
itself (`fillSearchBufferDirect`). A batch is laid out in the buffer of the handle, the
arrays first and the overview text behind them, with one more pointer than there are
rows.

* `doSearchGroup` — `do_search_group` of the server;
* `fillSearchBuffer`, `fillSearchBufferDirect` — a batch in the handle;
* `ovsqliteSearch` — `ovsqlite_search`, on either path.
-/

namespace Inn.Ovsqlite

variable {Stream : Type*} (c : Compression Stream)

/-- `SEARCHSPACE`. -/
def SEARCHSPACE : ℕ := 0x20000

/-- The bits of `search_col_..`. -/
structure Cols where
  arrived : Bool
  expires : Bool
  token : Bool
  overview : Bool
deriving DecidableEq, Repr

/-- `cols & ~other` is not zero. -/
def Cols.exceed (cols other : Cols) : Bool :=
  cols.arrived && !other.arrived || cols.expires && !other.expires ||
    cols.token && !other.token || cols.overview && !other.overview

/-! ## The server -/

/-- The fields of a `request_search_group`; `high` is there if `search_flag_high` is set. -/
structure SearchGroup where
  space : ℕ
  cols : Cols
  groupname : List UInt8
  low : ℕ
  high : Option ℕ

/-- The reply: a list of articles, the last one or not, as packed rows behind their
number, or an error. -/
inductive SearchReply where
  | artlist (done : Bool) (cols : Cols) (count : ℕ) (rows : List UInt8)
  | error (code : UInt8)
deriving DecidableEq, Repr

/-- Why no more of a row is packed. -/
inductive RowEnd where
  | flush
  | corrupted
deriving DecidableEq, Repr

/-- The bytes of a list of articles in front of its rows: length, code, columns, number. -/
def artlistHeader : ℕ := 4 + 1 + 1 + 4

/-- `pack_now(..) > space`, behind the rows packed so far. -/
def packUpTo (space : ℕ) (rows bytes : List UInt8) : Except RowEnd (List UInt8) :=
  if space < artlistHeader + (rows ++ bytes).length then .error .flush else .ok (rows ++ bytes)

/-- A column, if it is asked for. -/
def packCol (space : ℕ) (wanted : Bool) (rows bytes : List UInt8) : Except RowEnd (List UInt8) :=
  if wanted then packUpTo space rows bytes else .ok rows

/-- `search_col_token`. -/
def packToken (space : ℕ) (wanted : Bool) (rows token : List UInt8) : Except RowEnd (List UInt8) :=
  if wanted && token.length ≠ tokenSize then .error .corrupted else packCol space wanted rows token

/-- `search_col_overview`, with the overview as `loadOverview` gives it. -/
def packOverview (space : ℕ) (wanted : Bool) (rows : List UInt8) (overview : Option (List UInt8)) :
    Except RowEnd (List UInt8) :=
  if wanted then
    match overview with
    | none => .error .corrupted
    | some overview =>
      packUpTo space rows (toBytes 4 overview.length) >>= fun rows => packUpTo space rows overview
  else .ok rows

/-- One row. -/
def packRow (space : ℕ) (cols : Cols) (groupname : List UInt8) (a : Artinfo)
    (rows : List UInt8) : Except RowEnd (List UInt8) := do
  let rows ← packUpTo space rows (toBytes 8 (uint64 a.artnum))
  let rows ← packCol space cols.arrived rows (toBytes 8 (uint64 a.arrived))
  let rows ← packCol space cols.expires rows (toBytes 8 (uint64 a.expires))
  let rows ← packToken space cols.token rows a.token
  packOverview space cols.overview rows (loadOverview c groupname (uint64 a.artnum) a.overview)

/-- The loop of `do_search_group` over what the statement returns. -/
def packRows (space : ℕ) (cols : Cols) (groupname : List UInt8) :
    List Artinfo → (count : ℕ) → List UInt8 → SearchReply
  | [], count, rows => .artlist true cols count rows
  | a :: arts, count, rows =>
    match packRow c space cols groupname a rows with
    | .ok rows => packRows space cols groupname arts (count + 1) rows
    | .error .flush => .artlist false cols count rows
    | .error .corrupted =>
      if count = 0 then .error responseCorrupted else .artlist false cols count rows

/-- `do_search_group`. -/
def doSearchGroup (db : Db) (r : SearchGroup) : SearchReply :=
  if 0x100000 ≤ r.space then .error responseBadRequest
  else packRows c r.space r.cols r.groupname
    (db.listArticles r.groupname (int64 r.low) (r.high.map int64)) 0 []

/-! ## The handle -/

/-- The arrays of a batch and the text behind them. `overview` holds where each overview
begins in the text and, last, where the text ends; an array of a column that was not
asked for is not there. -/
structure Batch where
  artnum : List ℕ
  arrived : List ℤ
  token : List (List UInt8)
  overview : List ℕ
  text : List UInt8
deriving DecidableEq, Repr

def Batch.empty : Batch := ⟨[], [], [], [], []⟩

/-- One more row. -/
def Batch.push (b : Batch) (cols : Cols) (artnum : ℕ) (arrived : ℤ) (token overview : List UInt8) :
    Batch where
  artnum := b.artnum ++ [artnum]
  arrived := if cols.arrived then b.arrived ++ [arrived] else b.arrived
  token := if cols.token then b.token ++ [token] else b.token
  overview := if cols.overview then b.overview ++ [b.text.length] else b.overview
  text := if cols.overview then b.text ++ overview else b.text

/-- The pointer behind the last overview. -/
def Batch.close (b : Batch) (cols : Cols) : Batch :=
  { b with overview := if cols.overview then b.overview ++ [b.text.length] else b.overview }

/-- `handle_t`, with the arrays of its buffer. -/
structure Handle where
  groupname : List UInt8
  low : ℕ
  high : ℕ
  cols : Cols
  done : Bool
  count : ℕ
  index : ℕ
  batch : Batch
deriving DecidableEq, Repr

/-- `ovsqlite_opensearch`. -/
def ovsqliteOpensearch (groupname : List UInt8) (low high : ℤ) : Handle :=
  { groupname := groupname, low := uint64 low, high := uint64 high
    cols := ⟨false, false, false, false⟩, done := false, count := 0, index := 0
    batch := Batch.empty }

/-! ## A batch from the server -/

namespace Cols

variable (cols : Cols)

/-- `wiresize`: the bytes of a row in the reply, without its overview. -/
def wiresize : ℕ :=
  8 + (if cols.arrived then 8 else 0) + (if cols.token then tokenSize else 0) +
    (if cols.overview then 4 else 0)

/-- `storesize`: the bytes of a row in the buffer, without its overview; also `per_row`. -/
def storesize : ℕ :=
  8 + (if cols.arrived then 8 else 0) + (if cols.token then tokenSize else 0) +
    (if cols.overview then 8 else 0)

/-- `storespace`: the bytes of the buffer, without the last pointer. -/
def storespace : ℕ := SEARCHSPACE - (if cols.overview then 8 else 0)

/-- `space`: the bytes that the server may use. -/
def space : ℕ := cols.storespace / cols.storesize * cols.wiresize + 10

/-- Where the text of a batch begins in the buffer. -/
def base (count : ℕ) : ℕ := count * cols.storesize + (if cols.overview then 8 else 0)

end Cols

/-- `search_col_arrived` in a row of the reply. -/
def unpackArrived (wanted : Bool) (response : Buffer) : Option (ℕ × Buffer) :=
  if wanted then response.unpackWord 8 else some (0, response)

/-- `search_col_token`. -/
def unpackToken (wanted : Bool) (response : Buffer) : Option (List UInt8 × Buffer) :=
  if wanted then response.unpackNow tokenSize else some ([], response)

/-- `search_col_overview`: the overview must fit the buffer from `store` on. -/
def unpackOverview (wanted : Bool) (store : ℕ) (response : Buffer) :
    Option (List UInt8 × Buffer) :=
  if wanted then
    (response.unpackWord 4).bind fun r =>
      if SEARCHSPACE < store + r.1 then none else r.2.unpackNow r.1
  else some ([], response)

/-- The rows of the reply, from `base` on in the buffer. -/
def unpackRows (cols : Cols) (base : ℕ) : ℕ → Buffer → Batch → Option (Buffer × Batch)
  | 0, response, b => some (response, b)
  | n + 1, response, b => do
    let (artnum, response) ← response.unpackWord 8
    let (arrived, response) ← unpackArrived cols.arrived response
    let (token, response) ← unpackToken cols.token response
    let (overview, response) ← unpackOverview cols.overview (base + b.text.length) response
    unpackRows cols base n response (b.push cols artnum (int64 arrived) token overview)

/-- `fill_search_buffer`: whether it succeeds, and the handle. Where it fails, the arrays
are left in some state that nobody looks at. -/
def fillSearchBuffer (db : Db) (h : Handle) : Bool × Handle :=
  let h := { h with count := 0, index := 0 }
  match doSearchGroup c db ⟨h.cols.space, h.cols, h.groupname, h.low, some h.high⟩ with
  | .error _ => (false, h)
  | .artlist done cols count rows =>
    let h := { h with done := h.done || done }
    if cols ≠ h.cols then (false, h)
    else if SEARCHSPACE < h.cols.base count then (false, h)
    else
      match unpackRows h.cols (h.cols.base count) count ⟨rows.length, rows, 0⟩ Batch.empty with
      | none => (false, h)
      | some (response, batch) =>
        if response.left ≠ 0 then (false, h)
        else (true, { h with count := count, batch := batch.close h.cols })

/-! ## A batch from the database -/

/-- `max_rows`. -/
def Cols.maxRows (cols : Cols) : ℕ := min (SEARCHSPACE / cols.storesize) 4096

/-- Whether one more row, with `len` bytes of overview, fits behind those of `b`. -/
def rowFits (cols : Cols) (b : Batch) (len : ℕ) : Bool :=
  if cols.overview then
    (b.artnum.length + 1) * cols.storesize + 8 + b.text.length + len ≤ SEARCHSPACE
  else (b.artnum.length + 1) * cols.storesize ≤ SEARCHSPACE

/-- The loop of `fill_search_buffer_direct` over what the statement returns: the rows
taken, whether they are the last ones, and the stream. -/
def collectRows (cols : Cols) (groupname : List UInt8) :
    List Artinfo → Batch → Stream → Batch × Bool × Stream
  | arts, b, stream =>
    if cols.maxRows ≤ b.artnum.length then (b, false, stream)
    else
      match arts with
      | [] => (b, true, stream)
      | a :: arts =>
        let token := if a.token.length = tokenSize then a.token else List.replicate tokenSize 0
        if cols.overview then
          match readerOverview c groupname (uint64 a.artnum) stream a.overview with
          | (none, stream) => collectRows cols groupname arts b stream
          | (some overview, stream) =>
            if rowFits cols b overview.length then
              collectRows cols groupname arts
                (b.push cols (uint64 a.artnum) a.arrived token overview) stream
            else (b, false, stream)
        else if rowFits cols b 0 then
          collectRows cols groupname arts (b.push cols (uint64 a.artnum) a.arrived token []) stream
        else (b, false, stream)

/-- `fill_search_buffer_direct`, which always succeeds. -/
def fillSearchBufferDirect (db : Db) (stream : Stream) (h : Handle) : Handle × Stream :=
  let r := collectRows c h.cols h.groupname
    (db.listArticles h.groupname (int64 h.low) (some (int64 h.high))) Batch.empty stream
  ({ h with
      low := match r.1.artnum.getLast? with
        | none => h.low
        | some artnum => (artnum + 1) % 2 ^ 64
      done := h.done || r.2.1
      count := r.1.artnum.length
      index := 0
      batch := r.1.close h.cols }, r.2.2)

/-! ## Searching -/

/-- What a call asks for. -/
structure Ask where
  artnum : Bool
  data : Bool
  len : Bool
  token : Bool
  arrived : Bool
deriving DecidableEq, Repr

/-- The columns that takes. -/
def Ask.cols (ask : Ask) : Cols := ⟨ask.arrived, false, ask.token, ask.data || ask.len⟩

/-- What a call returns where it returns true. The data is given as the bytes that a
caller who knows the length may look at. -/
structure Found where
  artnum : Option ℕ
  data : Option (List UInt8)
  len : Option ℕ
  token : Option (List UInt8)
  arrived : Option ℤ
deriving DecidableEq, Repr

/-- The row at an index of a batch, as far as it is asked for. -/
def Batch.found (b : Batch) (ask : Ask) (ix : ℕ) : Found where
  artnum := if ask.artnum then some (b.artnum.getD ix 0) else none
  data := if ask.data then some ((b.text.drop (b.overview.getD ix 0)).take
    (b.overview.getD (ix + 1) 0 - b.overview.getD ix 0)) else none
  len := if ask.len then some (b.overview.getD (ix + 1) 0 - b.overview.getD ix 0) else none
  token := if ask.token then some (b.token.getD ix []) else none
  arrived := if ask.arrived then some (b.arrived.getD ix 0) else none

/-- How a process reads the database: as a client of the server, or directly. -/
inductive Path where
  | server
  | direct
deriving DecidableEq, Repr

/-- A search in progress: the stream that the direct reader keeps, and the handle. -/
structure Searching (Stream : Type*) where
  stream : Stream
  handle : Handle

/-- A new batch, on either path. -/
def refill (path : Path) (db : Db) (s : Searching Stream) : Bool × Searching Stream :=
  match path with
  | .server =>
    let r := fillSearchBuffer c db s.handle
    (r.1, { s with handle := r.2 })
  | .direct =>
    let r := fillSearchBufferDirect c db s.stream s.handle
    (true, ⟨r.2, r.1⟩)

/-- The row at the index of the handle, if there is one. -/
def takeRow (ask : Ask) (s : Searching Stream) : Option Found × Searching Stream :=
  let h := s.handle
  if h.count ≤ h.index then (none, s)
  else (some (h.batch.found ask h.index),
    { s with handle :=
      { h with low := (h.batch.artnum.getD h.index 0 + 1) % 2 ^ 64, index := h.index + 1 } })

/-- `ovsqlite_search`. -/
def ovsqliteSearch (path : Path) (db : Db) (s : Searching Stream) (ask : Ask) :
    Option Found × Searching Stream :=
  let h := s.handle
  if h.done ∧ h.count ≤ h.index then (none, s)
  else if ask.cols.exceed h.cols ∨ h.count ≤ h.index then
    let r := refill c path db { s with handle := { h with cols := ask.cols } }
    if r.1 then takeRow ask r.2 else (none, r.2)
  else takeRow ask s

end Inn.Ovsqlite
