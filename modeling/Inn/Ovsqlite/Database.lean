import Inn.Words
import Mathlib.Data.List.Sort

/-!
# Inn.Ovsqlite.Database — the overview database and its statements

The tables of `sql-init.sql`, and the statements of `sql-main.sql` under their own names,
each executed as a whole. A statement that changes rows returns how many it changed,
what `sqlite3_changes` tells; one that a constraint of the schema stops changes nothing.

A table is the list of its rows, oldest first.
-/

namespace Inn.Ovsqlite

/-- A row of `groupinfo`. -/
structure Groupinfo where
  groupid : ℕ
  low : ℤ
  high : ℤ
  count : ℤ
  expired : ℤ
  deleted : ℕ
  groupname : List UInt8
  flagAlias : List UInt8
deriving DecidableEq, Repr

/-- A row of `artinfo`. -/
structure Artinfo where
  groupid : ℕ
  artnum : ℤ
  arrived : ℤ
  expires : ℤ
  token : List UInt8
  overview : List UInt8
deriving DecidableEq, Repr

/-- The database, with the temporary table of the article numbers to expire. -/
structure Db where
  groupinfo : List Groupinfo
  artinfo : List Artinfo
  expireart : List ℤ
deriving DecidableEq, Repr

/-- The statements that a request may find failing. -/
inductive Statement where
  | lookupGroupinfo
  | addGroup
  | updateGroupinfoFlagAlias
  | setGroupDeleted
  | addArticle
  | updateGroupinfoAdd
  | deleteArticle
  | updateGroupinfoDeleteAll
  | updateGroupinfoDeleteLow
  | updateGroupinfoDeleteMiddle
  | startExpireGroup
  /-- `.add_expireart` for the number at this index of the request. -/
  | addExpireart (artix : ℕ)
  | fillExpireart
  | expireArticles
  | clearExpireart
  | setForgottenDeleted
  | deleteEmptyGroups
  | getDeletedGroupid
deriving DecidableEq, Repr

/-- Why SQLite refuses a row of `artinfo`. -/
inductive Constraint where
  | primaryKey
  | foreignKey
deriving DecidableEq, Repr

namespace Db

/-- The database that `sql-init.sql` creates. -/
def empty : Db := ⟨[], [], []⟩

/-- The articles of a group. -/
def articles (db : Db) (groupid : ℕ) : List Artinfo :=
  db.artinfo.filter fun a => a.groupid = groupid

/-! ## Updates and deletions in general -/

/-- `update groupinfo set .. where ..`. -/
def updateGroupinfo (db : Db) (sel : Groupinfo → Bool) (set : Groupinfo → Groupinfo) : Db × ℕ :=
  ({ db with groupinfo := db.groupinfo.map fun g => if sel g then set g else g },
    (db.groupinfo.filter sel).length)

/-- `delete from artinfo where ..`. -/
def deleteArtinfo (db : Db) (sel : Artinfo → Bool) : Db × ℕ :=
  ({ db with artinfo := db.artinfo.filter fun a => !sel a }, (db.artinfo.filter sel).length)

/-- `select max(deleted) from groupinfo`, with 0 for no row. -/
def maxDeleted (db : Db) : ℕ := (db.groupinfo.map (·.deleted)).foldl max 0

/-! ## Groups -/

/-- The row of a group that is not deleted. -/
def isLive (groupname : List UInt8) (g : Groupinfo) : Bool :=
  g.deleted = 0 && g.groupname = groupname

/-- `.lookup_groupinfo`. -/
def lookupGroupinfo (db : Db) (groupname : List UInt8) : Option Groupinfo :=
  db.groupinfo.find? (isLive groupname)

/-- The rowid SQLite gives a new row, one more than the largest in use. -/
def newGroupid (db : Db) : ℕ := (db.groupinfo.map (·.groupid)).foldl max 0 + 1

/-- `.add_group`: fails if the name is in use. -/
def addGroup (db : Db) (groupname flagAlias : List UInt8) (low high : ℤ) : Option Db :=
  if db.groupinfo.any (isLive groupname) then none
  else some { db with groupinfo := db.groupinfo ++
    [{ groupid := db.newGroupid, low := low, high := high, count := 0, expired := 0,
       deleted := 0, groupname := groupname, flagAlias := flagAlias }] }

/-- `.update_groupinfo_flag_alias`. -/
def updateGroupinfoFlagAlias (db : Db) (groupid : ℕ) (flagAlias : List UInt8) : Db × ℕ :=
  db.updateGroupinfo (fun g => g.groupid = groupid && g.flagAlias != flagAlias)
    fun g => { g with flagAlias := flagAlias }

/-- `.set_group_deleted`. -/
def setGroupDeleted (db : Db) (groupname : List UInt8) : Db × ℕ :=
  db.updateGroupinfo (isLive groupname) fun g => { g with deleted := db.maxDeleted + 1 }

/-- `.start_expire_group`. -/
def startExpireGroup (db : Db) (groupname : List UInt8) (time : ℤ) : Db × ℕ :=
  db.updateGroupinfo (isLive groupname) fun g => { g with expired := time }

/-- `.set_forgotten_deleted`: the subquery is evaluated once. -/
def setForgottenDeleted (db : Db) (time : ℤ) : Db × ℕ :=
  db.updateGroupinfo (fun g => g.deleted = 0 && g.expired < time)
    fun g => { g with deleted := db.maxDeleted + 1 }

/-- A deleted group without articles. -/
def isEmptyDeleted (db : Db) (g : Groupinfo) : Bool :=
  0 < g.deleted && (db.articles g.groupid).isEmpty

/-- `.delete_empty_groups`. -/
def deleteEmptyGroups (db : Db) : Db × ℕ :=
  ({ db with groupinfo := db.groupinfo.filter fun g => !db.isEmptyDeleted g },
    (db.groupinfo.filter db.isEmptyDeleted).length)

/-- `.get_deleted_groupid`: a deleted group with the least mark; of those marked
together, the one with the oldest row. -/
def getDeletedGroupid (db : Db) : Option ℕ :=
  (((db.groupinfo.filter fun g => 0 < g.deleted).insertionSort
    fun g g' => g.deleted ≤ g'.deleted).head?).map (·.groupid)

/-! ## Articles -/

/-- `.add_article`. -/
def addArticle (db : Db) (a : Artinfo) : Except Constraint Db :=
  if db.artinfo.any fun a' => a'.groupid = a.groupid && a'.artnum = a.artnum then
    .error .primaryKey
  else if db.groupinfo.all fun g => g.groupid ≠ a.groupid then .error .foreignKey
  else .ok { db with artinfo := db.artinfo ++ [a] }

/-- `.update_groupinfo_add`. -/
def updateGroupinfoAdd (db : Db) (groupid : ℕ) (artnum : ℤ) : Db :=
  (db.updateGroupinfo (fun g => g.groupid = groupid) fun g =>
    { g with
      low := if g.count ≠ 0 then min g.low artnum else artnum
      high := if g.count ≠ 0 then max g.high artnum else artnum
      count := g.count + 1 }).1

/-- `.delete_article`. -/
def deleteArticle (db : Db) (groupid : ℕ) (artnum : ℤ) : Db × ℕ :=
  db.deleteArtinfo fun a => a.groupid = groupid && a.artnum = artnum

/-- `.update_groupinfo_delete_all`. -/
def updateGroupinfoDeleteAll (db : Db) (groupid : ℕ) (changes : ℤ) : Db :=
  (db.updateGroupinfo (fun g => g.groupid = groupid) fun g =>
    { g with low := max g.high 1, high := max (g.high - 1) 0, count := changes * 0 }).1

/-- `select min(artnum) from artinfo where ..`. -/
def minArtnum (db : Db) (groupid : ℕ) : Option ℤ := ((db.articles groupid).map (·.artnum)).min?

/-- `.update_groupinfo_delete_low`: `low` may not become null. -/
def updateGroupinfoDeleteLow (db : Db) (groupid : ℕ) (changes : ℤ) : Option Db :=
  match db.minArtnum groupid with
  | none => if db.groupinfo.any fun g => g.groupid = groupid then none else some db
  | some least => some (db.updateGroupinfo (fun g => g.groupid = groupid) fun g =>
      { g with low := least, count := g.count - changes }).1

/-- `.update_groupinfo_delete_middle`. -/
def updateGroupinfoDeleteMiddle (db : Db) (groupid : ℕ) (changes : ℤ) : Db :=
  (db.updateGroupinfo (fun g => g.groupid = groupid) fun g =>
    { g with count := g.count - changes }).1

/-! ## Expiration -/

/-- `.add_expireart`. -/
def addExpireart (db : Db) (artnum : ℤ) : Db :=
  if artnum ∈ db.expireart then db else { db with expireart := db.expireart ++ [artnum] }

/-- The rows that `order by artnum` gives. -/
def byArtnum (rows : List Artinfo) : List Artinfo :=
  rows.insertionSort fun a a' => a.artnum ≤ a'.artnum

/-- `limit ..`: a negative limit is none. -/
def limited {α : Type*} (limit : ℤ) (rows : List α) : List α :=
  if limit < 0 then rows else rows.take limit.toNat

/-- `.fill_expireart`. -/
def fillExpireart (db : Db) (groupid : ℕ) (limit : ℤ) : Db :=
  (limited limit (byArtnum (db.articles groupid))).foldl (fun db a => db.addExpireart a.artnum) db

/-- `.expire_articles`. -/
def expireArticles (db : Db) (groupid : ℕ) : Db × ℕ :=
  db.deleteArtinfo fun a => a.groupid = groupid && a.artnum ∈ db.expireart

/-- `.clear_expireart`. -/
def clearExpireart (db : Db) : Db := { db with expireart := [] }

/-! ## Searches -/

/-- `.list_articles` and its variants: the articles of a group in a range, in order.
The columns are chosen by who reads the rows. -/
def listArticles (db : Db) (groupname : List UInt8) (low : ℤ) (high : Option ℤ) : List Artinfo :=
  match db.lookupGroupinfo groupname with
  | none => []
  | some g => byArtnum ((db.articles g.groupid).filter fun a =>
      low ≤ a.artnum && high.all fun high => a.artnum ≤ high)

end Db

end Inn.Ovsqlite
