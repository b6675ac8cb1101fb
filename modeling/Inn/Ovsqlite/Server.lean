import Inn.Ovsqlite.Flate
import Inn.Ovsqlite.Requests

/-!
# Inn.Ovsqlite.Server — the requests that change the database

The handlers of `ovsqlite-server.c` for the requests that write. Each takes the request
behind its code and gives the reply and the database it leaves. A statement may fail, and
`Faults` says which do; what is done since a savepoint is then rolled back
(`rollbackTo`). Transactions are not visible here: the server alone writes, and it goes
on reading what it has not committed.

`serve` is the server's part in one request, and `Serves` its steps.
-/

namespace Inn.Ovsqlite

def responseDone : UInt8 := 0x01
def responseError : UInt8 := 0x80
def responseSequenceError : UInt8 := 0x81
def responseSqlError : UInt8 := 0x82
def responseCorrupted : UInt8 := 0x83
def responseNoGroup : UInt8 := 0x84
def responseNoArticle : UInt8 := 0x85
def responseDupArticle : UInt8 := 0x86
def responseOldArticle : UInt8 := 0x87

/-- The code of a reply. -/
def Reply.code : Reply → UInt8
  | .simple code => code
  | .packed code _ => code

/-- A reply with an error code. -/
def Reply.isError (reply : Reply) : Bool := responseError ≤ reply.code

/-- The statements that fail during a request, and the status and message SQLite then has
for the reply. -/
structure Faults where
  fails : Statement → Bool
  status : List UInt8

namespace Faults

/-- No statement fails. -/
def none : Faults := ⟨fun _ => false, []⟩

variable (f : Faults)

/-- `sql_error_response`. -/
def sqlErrorResponse : Reply := .packed responseSqlError f.status

/-- A statement with its result, unless it fails. -/
def exec {α : Type*} (statement : Statement) (result : α) : Except Reply α :=
  if f.fails statement then .error f.sqlErrorResponse else .ok result

/-- `.lookup_groupinfo`, which must find a group. -/
def lookup (db : Db) (groupname : List UInt8) : Except Reply Groupinfo := do
  match ← f.exec .lookupGroupinfo (db.lookupGroupinfo groupname) with
  | Option.none => .error (.simple responseNoGroup)
  | some g => .ok g

end Faults

/-- The fields of `client_t` that a request leaves for later ones. -/
structure Settings where
  cutofflow : Bool
  expirationStart : ℤ
  checkForgotten : Bool
deriving DecidableEq, Repr

/-- The fields of a new client. -/
def Settings.new : Settings := ⟨false, 0, false⟩

/-! ## Reading requests -/

namespace Buffer

/-- `unpack_now` of an unsigned integer. -/
def unpackWord (src : Buffer) (count : ℕ) : Option (ℕ × Buffer) :=
  (src.unpackNow count).map fun r => (ofBytes r.1, r.2)

/-- Bytes behind their number, which is a word of so many bytes. -/
def unpackBlob (src : Buffer) (width : ℕ) : Option (List UInt8 × Buffer) := do
  let (len, src) ← src.unpackWord width
  src.unpackLater len

end Buffer

/-- A value behind which the request is at its end. -/
def finishRequest {α : Type*} (request : Buffer) (value : α) : Option α :=
  if request.left = 0 then some value else none

/-- A request that is cut off or too long is bad. -/
def orBadRequest {α : Type*} : Option α → Except Reply α
  | none => .error (.simple responseBadRequest)
  | some value => .ok value

/-- `request_add_group`. -/
structure AddGroup where
  groupname : List UInt8
  low : ℕ
  high : ℕ
  flagAlias : List UInt8
deriving DecidableEq, Repr

def unpackAddGroup (request : Buffer) : Option AddGroup := do
  let (groupname, request) ← request.unpackBlob 2
  let (low, request) ← request.unpackWord 8
  let (high, request) ← request.unpackWord 8
  let (flagAlias, request) ← request.unpackBlob 2
  finishRequest request ⟨groupname, low, high, flagAlias⟩

/-- `sizeof (TOKEN)`. -/
def tokenSize : ℕ := 18

/-- `request_add_article`. -/
structure AddArticle where
  groupname : List UInt8
  artnum : ℕ
  arrived : ℕ
  expires : ℕ
  token : List UInt8
  overview : List UInt8
deriving DecidableEq, Repr

def unpackAddArticle (request : Buffer) : Option AddArticle := do
  let (groupname, request) ← request.unpackBlob 2
  let (artnum, request) ← request.unpackWord 8
  let (arrived, request) ← request.unpackWord 8
  let (expires, request) ← request.unpackWord 8
  let (token, request) ← request.unpackNow tokenSize
  let (overview, request) ← request.unpackBlob 4
  finishRequest request ⟨groupname, artnum, arrived, expires, token, overview⟩

/-- `request_delete_group` and `request_start_expire_group`. -/
def unpackGroup (request : Buffer) : Option (List UInt8) := do
  let (groupname, request) ← request.unpackBlob 2
  finishRequest request groupname

/-- `request_delete_article`. -/
def unpackDeleteArticle (request : Buffer) : Option (List UInt8 × ℕ) := do
  let (groupname, request) ← request.unpackBlob 2
  let (artnum, request) ← request.unpackWord 8
  finishRequest request (groupname, artnum)

/-- `request_set_cutofflow`. -/
def unpackCutofflow (request : Buffer) : Option Bool := do
  let (cutofflow, request) ← request.unpackWord 1
  finishRequest request (cutofflow ≠ 0)

/-! ## The handlers -/

/-- The end of a request with a savepoint: what has been done since is kept, or rolled
back where something failed. -/
def rollbackTo (db : Db) : Except Reply Db → Reply × Db
  | .error reply => (reply, db)
  | .ok db' => (.simple responseOk, db')

/-- `do_set_cutofflow`. -/
def doSetCutofflow (client : Settings) (request : Buffer) : Reply × Settings :=
  match unpackCutofflow request with
  | none => (.simple responseBadRequest, client)
  | some cutofflow => (.simple responseOk, { client with cutofflow := cutofflow })

/-- `do_add_group`. -/
def doAddGroup (f : Faults) (db : Db) (request : Buffer) : Reply × Db :=
  rollbackTo db do
    let r ← orBadRequest (unpackAddGroup request)
    match ← f.exec .lookupGroupinfo (db.lookupGroupinfo r.groupname) with
    | none =>
      match ← f.exec .addGroup (db.addGroup r.groupname r.flagAlias (int64 r.low) (int64 r.high)) with
      | none => .error f.sqlErrorResponse
      | some db => .ok db
    | some g =>
      f.exec .updateGroupinfoFlagAlias (db.updateGroupinfoFlagAlias g.groupid r.flagAlias).1

/-- `do_delete_group`. -/
def doDeleteGroup (f : Faults) (db : Db) (request : Buffer) : Reply × Db :=
  match unpackGroup request with
  | none => (.simple responseBadRequest, db)
  | some groupname =>
    if f.fails .setGroupDeleted then (f.sqlErrorResponse, db)
    else
      let (db, changes) := db.setGroupDeleted groupname
      if changes = 0 then (.simple responseNoGroup, db) else (.simple responseOk, db)

variable {Stream : Type*} (c : Compression Stream)

/-- `do_add_article`. -/
def doAddArticle (f : Faults) (client : Settings) (db : Db) (request : Buffer) : Reply × Db :=
  rollbackTo db do
    let r ← orBadRequest (unpackAddArticle request)
    if MAX_OVDATA_SIZE < r.overview.length then .error (.simple responseCorrupted)
    else
      let g ← f.lookup db r.groupname
      if client.cutofflow && r.artnum < uint64 g.low then .error (.simple responseOldArticle)
      else
        let overview := storeOverview c r.groupname r.artnum r.overview
        match ← f.exec .addArticle (db.addArticle ⟨g.groupid, int64 r.artnum, int64 r.arrived,
            int64 r.expires, r.token, overview⟩) with
        | .error .primaryKey => .error (.simple responseDupArticle)
        | .error .foreignKey => .error f.sqlErrorResponse
        | .ok db => f.exec .updateGroupinfoAdd (db.updateGroupinfoAdd g.groupid (int64 r.artnum))

/-- The three ways to bring a group up to date after `changes` of its articles are gone:
all of them, the one at its low mark among them, or others. -/
def updateGroupinfoDelete (f : Faults) (db : Db) (groupid changes : ℕ) (all low : Bool) :
    Except Reply Db :=
  if all then f.exec .updateGroupinfoDeleteAll (db.updateGroupinfoDeleteAll groupid changes)
  else if low then do
    match ← f.exec .updateGroupinfoDeleteLow (db.updateGroupinfoDeleteLow groupid changes) with
    | none => .error f.sqlErrorResponse
    | some db => .ok db
  else f.exec .updateGroupinfoDeleteMiddle (db.updateGroupinfoDeleteMiddle groupid changes)

/-- `do_delete_article`. -/
def doDeleteArticle (f : Faults) (db : Db) (request : Buffer) : Reply × Db :=
  rollbackTo db do
    let (groupname, artnum) ← orBadRequest (unpackDeleteArticle request)
    let g ← f.lookup db groupname
    let (db, changes) ← f.exec .deleteArticle (db.deleteArticle g.groupid (int64 artnum))
    if changes = 0 then .error (.simple responseNoArticle)
    else if uint64 g.count < 1 then .error (.simple responseCorrupted)
    else updateGroupinfoDelete f db g.groupid 1 (uint64 g.count = 1) (artnum = uint64 g.low)

/-- `do_start_expire_group`, at the time `now`. -/
def doStartExpireGroup (f : Faults) (now : ℤ) (client : Settings) (db : Db) (request : Buffer) :
    Reply × Settings × Db :=
  match unpackGroup request with
  | none => (.simple responseBadRequest, client, db)
  | some groupname =>
    let client := if client.expirationStart = 0 then
      { client with expirationStart := now, checkForgotten := true } else client
    if f.fails .startExpireGroup then (f.sqlErrorResponse, client, db)
    else
      let (db, changes) := db.startExpireGroup groupname client.expirationStart
      if changes = 0 then (.simple responseNoGroup, client, db)
      else (.simple responseOk, client, db)

/-- The numbers of `do_expire_group`, `count` of them from the one at `artix`; whether
the low mark is among those read so far is `hitLow`. -/
def addExpirearts (f : Faults) (low : ℕ) :
    (count artix : ℕ) → Buffer → Db → (hitLow : Bool) → Except Reply (Buffer × Db × Bool)
  | 0, _, request, db, hitLow => .ok (request, db, hitLow)
  | count + 1, artix, request, db, hitLow => do
    let (artnum, request) ← orBadRequest (request.unpackWord 8)
    let db ← f.exec (.addExpireart artix) (db.addExpireart (int64 artnum))
    addExpirearts f low count (artix + 1) request db (hitLow || artnum = low)

/-- `do_expire_group`, for a list that is not empty. -/
def expireGroup (f : Faults) (db : Db) (groupname : List UInt8) (count : ℕ) (request : Buffer) :
    Except Reply Db := do
  let g ← f.lookup db groupname
  let (request, db, hitLow) ← addExpirearts f (uint64 g.low) count 0 request db false
  let _ ← orBadRequest (finishRequest request ())
  let (db, changes) ← f.exec .expireArticles (db.expireArticles g.groupid)
  let db ← f.exec .clearExpireart db.clearExpireart
  if changes = 0 then .ok db
  else if uint64 g.count < changes then .error (.simple responseCorrupted)
  else updateGroupinfoDelete f db g.groupid changes (changes = uint64 g.count) hitLow

/-- The name and the number of articles in front of a `request_expire_group`. -/
def unpackExpireGroup (request : Buffer) : Option (List UInt8 × ℕ × Buffer) := do
  let (groupname, request) ← request.unpackBlob 2
  let (count, request) ← request.unpackWord 4
  some (groupname, count, request)

/-- `do_expire_group`. -/
def doExpireGroup (f : Faults) (db : Db) (request : Buffer) : Reply × Db :=
  rollbackTo db do
    let (groupname, count, request) ← orBadRequest (unpackExpireGroup request)
    if count = 0 then orBadRequest (finishRequest request db)
    else expireGroup f db groupname count request

/-- What `do_finish_expire` does with the first deleted group: take out some articles. -/
def expireDeleted (f : Faults) (db : Db) (groupid : ℕ) (limit : ℤ) : Except Reply Db := do
  let db ← f.exec .fillExpireart (db.fillExpireart groupid limit)
  let (db, _) ← f.exec .expireArticles (db.expireArticles groupid)
  f.exec .clearExpireart db.clearExpireart

/-- The groups that a run forgot are marked deleted, once. -/
def markForgotten (client : Settings) (db : Db) : Db :=
  if client.checkForgotten then (db.setForgottenDeleted client.expirationStart).1 else db

/-- `do_finish_expire`, with the configured `transaction_row_limit`. Each of its first two
statements is committed by itself. -/
def doFinishExpire (f : Faults) (transactionRowLimit : ℕ) (client : Settings) (db : Db)
    (request : Buffer) : Reply × Settings × Db :=
  if request.left ≠ 0 then (.simple responseBadRequest, client, db)
  else if client.expirationStart = 0 then (.simple responseSequenceError, client, db)
  else if client.checkForgotten && f.fails .setForgottenDeleted then
    (f.sqlErrorResponse, client, db)
  else
    let db := markForgotten client db
    let client := { client with checkForgotten := false }
    if f.fails .deleteEmptyGroups then (f.sqlErrorResponse, client, db)
    else
      let db := db.deleteEmptyGroups.1
      if f.fails .getDeletedGroupid then (f.sqlErrorResponse, client, db)
      else
        match db.getDeletedGroupid with
        | none => (.simple responseDone, { client with expirationStart := 0 }, db)
        | some groupid =>
          let r := rollbackTo db
            (expireDeleted f db groupid (int32 (transactionRowLimit / 2 + 1)))
          (r.1, client, r.2)

/-! ## The server -/

/-- The requests that write, by their codes. -/
inductive Code where
  | setCutofflow
  | addGroup
  | deleteGroup
  | addArticle
  | deleteArticle
  | startExpireGroup
  | expireGroup
  | finishExpire
deriving DecidableEq, Repr

/-- The database and the clients. -/
structure Server (Id : Type*) where
  db : Db
  clients : Id → Settings

/-- A client connects (again), or makes a request, at a time and with the faults that
happen. -/
inductive Input (Id : Type*) where
  | connect (id : Id)
  | request (id : Id) (code : Code) (request : Buffer) (now : ℤ) (f : Faults)

/-- The handler of a request. -/
def handle (transactionRowLimit : ℕ) (code : Code) (f : Faults) (now : ℤ) (client : Settings)
    (db : Db) (request : Buffer) : Reply × Settings × Db :=
  match code with
  | .setCutofflow =>
    let r := doSetCutofflow client request
    (r.1, r.2, db)
  | .addGroup =>
    let r := doAddGroup f db request
    (r.1, client, r.2)
  | .deleteGroup =>
    let r := doDeleteGroup f db request
    (r.1, client, r.2)
  | .addArticle =>
    let r := doAddArticle c f client db request
    (r.1, client, r.2)
  | .deleteArticle =>
    let r := doDeleteArticle f db request
    (r.1, client, r.2)
  | .startExpireGroup => doStartExpireGroup f now client db request
  | .expireGroup =>
    let r := doExpireGroup f db request
    (r.1, client, r.2)
  | .finishExpire => doFinishExpire f transactionRowLimit client db request

variable {Id : Type*} [DecidableEq Id]

/-- What the server does with an input, and its reply to a request. -/
def serve (transactionRowLimit : ℕ) (s : Server Id) : Input Id → Option Reply × Server Id
  | .connect id => (none, { s with clients := Function.update s.clients id .new })
  | .request id code request now f =>
    let r := handle c transactionRowLimit code f now (s.clients id) s.db request
    (some r.1, { db := r.2.2, clients := Function.update s.clients id r.2.1 })

/-- A step of the server. -/
def Serves (transactionRowLimit : ℕ) (s : Server Id) (input : Input Id) (s' : Server Id) : Prop :=
  (serve c transactionRowLimit s input).2 = s'

end Inn.Ovsqlite
