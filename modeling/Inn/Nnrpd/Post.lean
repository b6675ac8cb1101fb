import Inn.Tokens
import Inn.Innd.Clean
import Mathlib.Data.List.DropRight

/-!
# Inn.Nnrpd.Post — the Newsgroups field of a posted article

What `ARTpost` of nnrpd does with the Newsgroups field: `StripOffHeaders` finds its body,
`ValidNewsgroups` checks the groups, `ProcessHeaders` its syntax, and when all is well the
field is written to innd.

* `PERMmatch`, `ValidNewsgroups` — the groups;
* `HEADER`, `IsValidHeaderBody`, `Towire`, `headerLine` — the field;
* `ARTpost` — all of it, with what the other fields lead to given as `others`.
-/

namespace Inn.Nnrpd

open Inn.Innd

/-! ## Groups -/

/-- The loop of `PERMmatch` over the patterns: the last one that matches decides. -/
def matchPats (uwildmat : List UInt8 → List UInt8 → Bool) (group : List UInt8) :
    List (List UInt8) → Bool → Bool
  | [], m => m
  | (33 :: p) :: pats, m => matchPats uwildmat group pats (if uwildmat group p then false else m)
  | p :: pats, m => matchPats uwildmat group pats (if uwildmat group p then true else m)

/-- `PERMmatch`. -/
def PERMmatch (uwildmat : List UInt8 → List UInt8 → Bool) (Pats list : List (List UInt8)) : Bool :=
  Pats.isEmpty || list.any fun group => matchPats uwildmat group Pats false

/-- `NF_FLAG_ALIAS`. -/
def NF_FLAG_ALIAS : UInt8 := 61

/-- `NF_FLAG_JUNK`. -/
def NF_FLAG_JUNK : UInt8 := 106

/-- `NF_FLAG_MODERATED`. -/
def NF_FLAG_MODERATED : UInt8 := 109

/-- `NF_FLAG_NOLOCAL`. -/
def NF_FLAG_NOLOCAL : UInt8 := 110

/-- `NF_FLAG_IGNORE`. -/
def NF_FLAG_IGNORE : UInt8 := 120

/-- What the checks of a posting depend on: `inn.conf`, the access group, the overview, the
Control and Approved fields, and what becomes of all that has nothing to do with the
Newsgroups field. -/
structure Posting where
  uwildmat : List UInt8 → List UInt8 → Bool
  mergetogroups : Bool
  PERMspecified : Bool
  PERMpostlist : List (List UInt8)
  allowapproved : Bool
  locpost : Bool
  OVgroupstats : List UInt8 → Option UInt8
  IsNewgroup : Bool
  approved : Bool
  others : Option (List UInt8)

/-- What the loop of `ValidNewsgroups` has found out: `Error`, `FoundOne`, the groups given to
`DDcheck`, and `*modgroup`. -/
structure Checked where
  Error : List UInt8
  FoundOne : Bool
  groups : List (List UInt8)
  modgroup : Option (List UInt8)

section Valid

variable (post : Posting)

/-- The name a group is checked under. -/
def groupName (p : List UInt8) : List UInt8 :=
  if post.mergetogroups && (octets "to.").isPrefixOf p then octets "to" else p

/-- The check of the post list. -/
def checkPost (st : Checked) (p : List UInt8) : Checked :=
  if post.PERMspecified && !PERMmatch post.uwildmat post.PERMpostlist [p] then
    { st with Error := octets "You are not allowed to post to " ++ p ++ octets "\r\n" }
  else st

/-- The check of a flag; `hasModgroup` is whether `modgroup` is a pointer. -/
def checkFlag (hasModgroup : Bool) (st : Checked) (p : List UInt8) (flag : UInt8) : Checked :=
  if flag = NF_FLAG_MODERATED then
    if !post.approved && hasModgroup && st.modgroup.isNone then { st with modgroup := some p } else st
  else if flag = NF_FLAG_IGNORE ∨ flag = NF_FLAG_JUNK ∨ flag = NF_FLAG_NOLOCAL then
    if !post.locpost then
      { st with Error := octets "Postings to \"" ++ p ++ octets "\" are not allowed here" }
    else st
  else if flag = NF_FLAG_ALIAS then
    { st with Error := octets "The newsgroup \"" ++ p ++ octets "\" has been renamed\n" }
  else st

/-- The check of a group that has its name. -/
def checkName (hasModgroup : Bool) (st : Checked) (p : List UInt8) : Checked :=
  let st := checkPost post st p
  match post.OVgroupstats p with
  | none => st
  | some flag =>
    checkFlag post hasModgroup { st with FoundOne := true, groups := st.groups ++ [p] } p flag

/-- The body of the loop of `ValidNewsgroups`. -/
def checkGroup (hasModgroup : Bool) (st : Checked) (p : List UInt8) : Checked :=
  checkName post hasModgroup st (groupName post p)

/-- The groups `strtok` finds: `NGSEPS` is a comma. -/
def groupTokens (hdr : List UInt8) : List (List UInt8) := tokens NG_ISSEP hdr

/-- Before the loop. -/
def startCheck : Checked where
  Error := if post.approved && !post.allowapproved then
    octets "You are not allowed to approve postings" else []
  FoundOne := false
  groups := []
  modgroup := none

/-- `ValidNewsgroups`, without Python. -/
def ValidNewsgroups (hasModgroup : Bool) (hdr : List UInt8) : Except (List UInt8) Checked :=
  if groupTokens hdr = [] then .error (octets "Can't parse Newsgroups header field body")
  else
    let st := (groupTokens hdr).foldl (checkGroup post hasModgroup) (startCheck post)
    let st := if !st.FoundOne && !post.IsNewgroup then
      { st with Error := octets "No valid newsgroups in \"" ++ MaxLength hdr ++ octets "\"" } else st
    if st.Error = [] then .ok st else .error st.Error

end Valid

/-! ## The field -/

/-- `Value`, `Body` (as its distance from `Value`) and `Len` of a `HEADER`. -/
structure HEADER where
  Value : List UInt8
  skip : ℕ
  Len : ℕ

/-- The C string `Body`. -/
def HEADER.Body (hp : HEADER) : List UInt8 := hp.Value.drop hp.skip

/-- How far `StripOffHeaders` goes from `Value` to `Body`. -/
def skipFold : List UInt8 → ℕ
  | [] => 0
  | c :: p => if ISWHITE c || (c == 10 && p.head?.any ISWHITE) then skipFold p + 1 else 0

/-- `TrimSpaces`. -/
def TrimSpaces (p : List UInt8) : ℕ :=
  ((p.dropWhile fun c => ISWHITE c || c == 10).rdropWhile isspace).length

/-- `isprint` in the C locale. -/
def isprint (c : UInt8) : Bool := 32 ≤ c && c < 127

/-- How many bits at the top of an octet are set before the first that is not. -/
def topBits (c : UInt8) : ℕ :=
  if c < 0x80 then 0 else if c < 0xC0 then 1 else if c < 0xE0 then 2 else if c < 0xF0 then 3
  else if c < 0xF8 then 4 else if c < 0xFC then 5 else if c < 0xFE then 6 else if c < 0xFF then 7 else 8

/-- The loop of `is_valid_utf8`, with so many octets of a character to come. -/
def utf8Loop : ℕ → List UInt8 → Bool
  | 0, [] => true
  | _ + 1, [] => false
  | 0, c :: p =>
    if topBits c = 0 then (isprint c || c == 13 || c == 10 || c == 9) && utf8Loop 0 p
    else 2 ≤ topBits c && topBits c ≤ 6 && utf8Loop (topBits c - 1) p
  | left + 1, c :: p => 0x80 ≤ c && c < 0xC0 && utf8Loop left p

/-- `is_valid_utf8`. -/
def is_valid_utf8 (p : List UInt8) : Bool := utf8Loop 0 p

/-- The loop of `IsValidHeaderBody`. -/
def bodyLoop (emptycontentline : Bool) : List UInt8 → Bool
  | [] => !emptycontentline
  | 13 :: 10 :: p => !emptycontentline && p.head?.any ISWHITE && bodyLoop true p
  | 13 :: _ => false
  | 10 :: p => !emptycontentline && p.head?.any ISWHITE && bodyLoop true p
  | c :: p => bodyLoop (emptycontentline && ISWHITE c) p

/-- `IsValidHeaderBody`. -/
def IsValidHeaderBody (p : List UInt8) : Bool := !p.isEmpty && is_valid_utf8 p && bodyLoop true p

/-- The loop of `Towire`. -/
def towireFrom (prev : UInt8) : List UInt8 → List UInt8
  | [] => []
  | c :: p => (if c = 10 ∧ prev ≠ 13 then [13, c] else [c]) ++ towireFrom c p

/-- `Towire`; `none` is a text that begins with a line end. -/
def Towire : List UInt8 → Option (List UInt8)
  | 10 :: _ => none
  | p => some (towireFrom 0 p)

/-- A field as `ARTpost` writes it to innd. -/
def headerLine (Name : List UInt8) (hp : HEADER) : List UInt8 :=
  let q := hp.Value.take (hp.skip + hp.Len)
  let colon := if hp.Value.head?.any ISWHITE then octets ":" else octets ": "
  if 10 ∈ q then ((Towire q).map fun p => Name ++ colon ++ p ++ octets "\r\n").getD []
  else Name ++ colon ++ q ++ octets "\r\n"

/-- What becomes of a posting: it is rejected, mailed to a moderator, or its Newsgroups
field is sent to innd in a line. -/
inductive Posted where
  | rejected (text : List UInt8)
  | mailed (group : List UInt8)
  | sent (line : List UInt8)
deriving DecidableEq

/-- `ARTpost`, for an article whose Newsgroups field has this behind its colon. -/
def ARTpost (post : Posting) (value : List UInt8) : Posted :=
  let hp : HEADER := ⟨value, skipFold value, 0⟩
  match ValidNewsgroups post true hp.Body with
  | .error text => .rejected text
  | .ok st =>
    let hp := { hp with Len := TrimSpaces value }
    if hp.Len = 0 then .rejected (octets "Missing required Newsgroups header field")
    else if !IsValidHeaderBody value then
      .rejected (octets "Invalid syntax encountered in Newsgroups header field body " ++
        octets "(unexpected byte or empty content line)")
    else
      match post.others, st.modgroup with
      | some text, _ => .rejected text
      | none, some group => .mailed group
      | none, none => .sent (headerLine (octets "Newsgroups") hp)

/-- The groups `NGsplit` finds in the Newsgroups field that innd has read. -/
def inndGroups (conf : Innconf) (line : List UInt8) : List (List UInt8) :=
  let body := fieldBody conf HDR_NEWSGROUPS line (octets "Newsgroups").length
  NGsplit ((line.drop body.1).take body.2.toNat)

end Inn.Nnrpd
