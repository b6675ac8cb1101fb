import Mathlib.Data.List.FinRange
import Inn.Tradindexed.GroupIndex

/-!
# Inn.Tradindexed.Audit — checking the links of `group.index`

`index_audit_header` walks the chains of all buckets and the free list, and adds the entries that
it did not reach again. The links are what is stored in the header and in the entries, and a walk
changes them behind itself and in front of it. The warnings are left out.
-/

namespace Inn.Tradindexed

/-- Where a location is stored: an `int *` into the mapped file. -/
inductive Link where
  | bucket (b : Fin TDX_HASH_SIZE)
  | freelist
  | entry (c : ℕ)
deriving DecidableEq

namespace Link

def read (file : IndexFile) : Link → ℤ
  | .bucket b => file.header.hash b
  | .freelist => file.header.freelist
  | .entry c => (file.entry c).next

def write (file : IndexFile) (recno : ℤ) : Link → IndexFile
  | .bucket b => file.setHash b recno
  | .freelist => file.setFreelist recno
  | .entry c => file.setNext c recno

/-- The location is the one of the entry in which it is stored. -/
def isLoop (loc : ℤ) : Link → Bool
  | .entry c => loc == c
  | _ => false

end Link

/-- `entry_splice`, wherever the pointer to the entry is stored. -/
def spliceAt (file : IndexFile) (c : ℕ) (parent : Link) : IndexFile :=
  (parent.write file (file.entry c).next).setNext c (-1)

/-- `index_audit_loc`. -/
def indexAuditLoc (fix : Bool) (file : IndexFile) (link : Link) : IndexFile :=
  let loc := link.read file
  if fix ∧ ((file.size : ℤ) ≤ loc ∨ (loc < 0 ∧ loc ≠ -1) ∨ link.isLoop loc) then
    link.write file (-1)
  else file

/-- `index_audit_deleted`. -/
def indexAuditDeleted (fix : Bool) (file : IndexFile) (c : ℕ) : IndexFile :=
  if fix ∧ (file.entry c).deleted ≠ 0 ∧ (file.entry c).hash ≠ HASH.clear then
    file.modify c fun entry => { entry with hash := HASH.clear }
  else file

/-- The file and what was reached so far. -/
structure AuditState where
  file : IndexFile
  reachable : ℕ → Bool

/-- One round of the walk over a bucket: the state, and the link that is followed next. -/
def bucketEntry (fix : Bool) (b : Fin TDX_HASH_SIZE) (parent : Link) (c : ℕ) (s : AuditState) :
    AuditState × Link :=
  let entry := s.file.entry c
  let wrong := entry.deleted = 0 ∧ b ≠ indexBucket entry.hash
  let file := if wrong ∧ fix then spliceAt s.file c parent else s.file
  let next := if wrong ∧ fix then parent else .entry c
  let reachable := if wrong then s.reachable else Function.update s.reachable c true
  let file := indexAuditLoc fix (indexAuditDeleted fix file c) (.entry c)
  -- a deleted entry belongs to the free list
  if entry.deleted ≠ 0 ∧ fix then
    (⟨spliceAt file c parent, Function.update reachable c false⟩, parent)
  else (⟨file, reachable⟩, next)

/-- The walk over the chain of a bucket. -/
def bucketWalk (fix : Bool) (b : Fin TDX_HASH_SIZE) :
    ℕ → Link → ℤ → AuditState → Option AuditState
  | 0, _, _, _ => none
  | fuel + 1, parent, current, s =>
    if current < 0 ∨ (s.file.size : ℤ) ≤ current then some s
    else
      let r := bucketEntry fix b parent current.toNat s
      if r.2.read r.1.file = current then some r.1
      else bucketWalk fix b fuel r.2 (r.2.read r.1.file) r.1

def auditBucket (fix : Bool) (fuel : ℕ) (s : AuditState) (b : Fin TDX_HASH_SIZE) :
    Option AuditState :=
  let file := indexAuditLoc fix s.file (.bucket b)
  bucketWalk fix b fuel (.bucket b) (file.header.hash b) { s with file }

/-- One round of the walk over the free list. -/
def freeEntry (fix : Bool) (parent : Link) (c : ℕ) (s : AuditState) : AuditState :=
  let file := indexAuditDeleted fix s.file c
  let undeleted := (file.entry c).hash ≠ HASH.clear ∧ (file.entry c).deleted = 0
  if undeleted ∧ fix then
    ⟨indexAuditLoc fix (spliceAt file c parent) (.entry c), Function.update s.reachable c false⟩
  else ⟨indexAuditLoc fix file (.entry c), Function.update s.reachable c true⟩

/-- The walk over the free list. -/
def freeWalk (fix : Bool) : ℕ → Link → ℤ → AuditState → Option AuditState
  | 0, _, _, _ => none
  | fuel + 1, parent, current, s =>
    if current < 0 ∨ (s.file.size : ℤ) ≤ current then some s
    else
      let s := freeEntry fix parent current.toNat s
      let next := (s.file.entry current.toNat).next
      if next = current then some s
      else freeWalk fix fuel (.entry current.toNat) next s

/-- What is done with an entry that may not have been reached. -/
def attachEntry (fix : Bool) (reachable : ℕ → Bool) (file : IndexFile) (c : ℕ) : IndexFile :=
  if reachable c ∨ !fix then file
  else if (file.entry c).hash ≠ HASH.clear ∧ (file.entry c).deleted = 0 then indexAdd file c
  else
    freelistAdd (file.modify c fun entry => { entry with hash := HASH.clear, deleted := 0 }) c

/-- `index_audit_header`, if no walk takes more than `fuel` rounds. -/
def indexAuditHeader (fix : Bool) (fuel : ℕ) (file : IndexFile) : Option IndexFile :=
  ((List.finRange TDX_HASH_SIZE).foldlM (auditBucket fix fuel) ⟨file, fun _ => false⟩).bind fun s =>
    let file := indexAuditLoc fix s.file .freelist
    (freeWalk fix fuel .freelist file.header.freelist { s with file }).map fun s =>
      (List.range s.file.size).foldl (attachEntry fix s.reachable) s.file

end Inn.Tradindexed
