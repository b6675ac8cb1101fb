import Inn.Innd.Active

/-!
# Inn.Innd.Xref — article numbers and the Xref header field

* `ARTassignnumbers` — the next number of each group, and the field that lists them;
* `ARTxrefslave` — the numbers another server has assigned, read from its field.

`GroupPointers` is a list of places in `Groups`. The body of the field starts with
the host of `Path`; `ARTstore` writes it after `Xref: `.
-/

namespace Inn.Innd

/-- `MED_BUFFER`. -/
def MED_BUFFER : ℕ := 1024

/-- `MAXARTLINELENGTH`. -/
def MAXARTLINELENGTH : ℕ := 1000

/-- `ARTNUMPRINTSIZE`. -/
def ARTNUMPRINTSIZE : ℕ := 10

/-- The in-core active file and the groups of its lines. -/
structure InCore where
  active : List UInt8
  groups : List NEWSGROUP
deriving DecidableEq

/-- The part of `ARTDATA` the numbering writes: the first `XrefLength` octets of the
buffer, its size, and where the body to replicate starts, in the field it is part of. -/
structure XrefData where
  Xref : List UInt8
  XrefBufLength : ℕ
  Replic : ℕ
  ReplicLength : ℤ
deriving DecidableEq

/-- A group is replaced. -/
def InCore.put (core : InCore) (i : ℕ) (ngp : NEWSGROUP) : InCore :=
  { core with groups := core.groups.set i ngp }

/-- `ngp->Last` is already bumped; its digits are written over the field of the line. -/
def InCore.setLast (core : InCore) (i : ℕ) (ngp : NEWSGROUP) : InCore × Bool :=
  let (active, fits) := FormatLong core.active ngp.LastString ngp.Last ngp.Lastwidth
  ({ active, groups := core.groups.set i ngp }, fits)

/-! ## ARTassignnumbers -/

/-- The variables of the loop; `inBounds` tells whether all writes so far stayed within
`XrefBufLength`. -/
structure Numbering where
  core : InCore
  Xref : List UInt8
  linelen : ℕ
  XrefBufLength : ℕ
  inBounds : Bool
deriving DecidableEq

/-- ` name:number`. -/
def xrefEntry (ngp : NEWSGROUP) : List UInt8 := 32 :: (ngp.Name ++ 58 :: printed ngp.Filenum)

/-- Whether the entry of a group is put on a line of its own. -/
def exceeds (linelen : ℕ) (ngp : NEWSGROUP) : Bool :=
  linelen + 1 + ngp.Name.length + 1 + ARTNUMPRINTSIZE + 2 > MAXARTLINELENGTH

/-- The entry of a group is printed, on a new line where it would exceed this one. -/
def Numbering.print (s : Numbering) (ngp : NEWSGROUP) : Numbering :=
  let XrefBufLength :=
    if s.Xref.length + 1 + ngp.Name.length + 1 + ARTNUMPRINTSIZE + 2 + 2 > s.XrefBufLength then
      s.XrefBufLength + MED_BUFFER
    else s.XrefBufLength
  let text := if exceeds s.linelen ngp then octets "\r\n" ++ xrefEntry ngp else xrefEntry ngp
  { s with
    Xref := s.Xref ++ text
    linelen := if exceeds s.linelen ngp then text.length - 2 else s.linelen + text.length
    XrefBufLength
    -- sprintf writes a NUL as well
    inBounds := s.inBounds && decide (s.Xref.length + text.length + 1 ≤ XrefBufLength) }

/-- The group with the next number. -/
def NEWSGROUP.bump (ngp : NEWSGROUP) : NEWSGROUP :=
  { ngp with PostCount := ngp.PostCount + 1, Last := ngp.Last + 1 }

/-- The group whose number is that of the article. -/
def NEWSGROUP.numbered (ngp : NEWSGROUP) : NEWSGROUP := { ngp with Filenum := ngp.Last }

/-- The round of `ARTassignnumbers` for one group; none when it is full. -/
def assignStep (s : Numbering) (i : ℕ) : Option Numbering :=
  match s.core.groups[i]? with
  | none => some s
  | some ngp =>
    if ngp.PostCount > 0 then some s
    else if ngp.Last ≥ NNTP_MAXARTNUM then none
    else
      let (core, fits) := s.core.setLast i ngp.bump
      if !fits then some { s with core }
      else
        some ({ s with core := core.put i ngp.bump.numbered }.print ngp.bump.numbered)

/-- The loop of `ARTassignnumbers`; false when a group is full. -/
def assignLoop : List ℕ → Numbering → Bool × Numbering
  | [], s => (true, s)
  | i :: GroupPointers, s =>
    match assignStep s i with
    | none => (false, s)
    | some s => assignLoop GroupPointers s

/-- The state before the loop; the host is copied once into a buffer. -/
def startNumbering (host : List UInt8) (data : XrefData) (core : InCore) : Numbering :=
  if data.XrefBufLength = 0 then
    { core, Xref := host, linelen := 0, XrefBufLength := MED_BUFFER * 2 + 1
      inBounds := host.length ≤ MED_BUFFER * 2 + 1 }
  else
    { core, Xref := data.Xref.take host.length, linelen := 0
      XrefBufLength := data.XrefBufLength, inBounds := true }

/-- What `ARTassignnumbers` returns and leaves. -/
structure Assigned where
  ok : Bool
  inBounds : Bool
  data : XrefData
  core : InCore
deriving DecidableEq

/-- `ARTassignnumbers`. -/
def ARTassignnumbers (host : List UInt8) (data : XrefData) (core : InCore)
    (GroupPointers : List ℕ) : Assigned :=
  let (ok, s) := assignLoop GroupPointers (startNumbering host data core)
  if !ok then
    { ok, inBounds := s.inBounds, core := s.core
      data := { data with Xref := s.Xref, XrefBufLength := s.XrefBufLength } }
  else
    { ok, core := s.core
      inBounds := s.inBounds && decide (s.Xref.length + 2 ≤ s.XrefBufLength)
      data :=
        { Xref := s.Xref ++ octets "\r\n"
          XrefBufLength := s.XrefBufLength
          Replic := host.length + 1
          ReplicLength := (s.Xref.length : ℤ) - (host.length + 1 : ℕ) } }

/-! ## ARTxrefslave -/

/-- The characters between the entries of the field. -/
def xrefSpace (c : UInt8) : Bool := c == 32 || c == 9 || c == 13 || c == 10

/-- The entries of the field from `p` on. -/
def xrefNames : ℕ → List UInt8 → List (List UInt8)
  | 0, _ => []
  | _ + 1, [] => []
  | fuel + 1, c :: p =>
    (c :: p).takeWhile (!xrefSpace ·) ::
      xrefNames fuel (((c :: p).dropWhile (!xrefSpace ·)).dropWhile xrefSpace)

/-- The group and the number of an entry, if it is well-formed and the group exists. -/
def xrefNumber (groups : List NEWSGROUP) (name : List UInt8) : Option (ℕ × ℕ) :=
  if 58 ∉ name then none
  else
    (NGfind groups (name.takeWhile (· != 58))).map
      (·, toULong (atol (name.dropWhile (· != 58)).tail))

/-- The group with the number of an entry. -/
def NEWSGROUP.slave (ngp : NEWSGROUP) (Filenum : ℕ) : NEWSGROUP :=
  { ngp with Filenum, Last := max ngp.Last Filenum }

/-- The group that gets the article once more. -/
def NEWSGROUP.post (ngp : NEWSGROUP) : NEWSGROUP := { ngp with PostCount := ngp.PostCount + 1 }

/-- The round of `ARTxrefslave` for one entry: whether the loop goes on, and the group
put in `GroupPointers`. -/
def xrefStep (core : InCore) (name : List UInt8) : Bool × InCore × Option ℕ :=
  match xrefNumber core.groups name with
  | none => (true, core, none)
  | some (i, Filenum) =>
    match core.groups[i]? with
    | none => (true, core, none)
    | some ngp =>
      if Filenum > NNTP_MAXARTNUM then (false, core.put i { ngp with Filenum }, none)
      else
        let (core, fits) :=
          if ngp.Last < Filenum then core.setLast i (ngp.slave Filenum)
          else (core.put i (ngp.slave Filenum), true)
        if !fits then (true, core, none)
        else (true, core.put i (ngp.slave Filenum).post, some i)

/-- The loop of `ARTxrefslave`, with the entries of `GroupPointers` so far; false when
a group is full. -/
def xrefLoop : List (List UInt8) → InCore → List ℕ → Bool × InCore × List ℕ
  | [], core, GroupPointers => (true, core, GroupPointers)
  | name :: names, core, GroupPointers =>
    match xrefStep core name with
    | (false, core, _) => (false, core, GroupPointers)
    | (true, core, filed) => xrefLoop names core (GroupPointers ++ filed.toList)

/-- The entries of the body of the field; none without a host before them. -/
def xrefBody (xref : List UInt8) : List UInt8 :=
  ((cString xref).dropWhile (!xrefSpace ·)).dropWhile xrefSpace

/-- What `ARTxrefslave` returns and leaves; `ended` tells whether it has written the
NULL after the entries of `GroupPointers`. -/
structure Slaved where
  ok : Bool
  ended : Bool
  data : XrefData
  core : InCore
  GroupPointers : List ℕ
deriving DecidableEq

/-- `ARTxrefslave`, where `xref` is the body of the field, empty without one. -/
def ARTxrefslave (data : XrefData) (core : InCore) (xref : List UInt8) : Slaved :=
  let stop : Slaved := { ok := false, ended := false, data, core, GroupPointers := [] }
  if xref = [] then stop
  else if !(cString xref).any xrefSpace then stop
  else if xrefBody xref = [] then stop
  else
    let Replic := (cString xref).length - (xrefBody xref).length
    let data := { data with Replic, ReplicLength := (xref.length : ℤ) - Replic }
    let (ended, core, GroupPointers) :=
      xrefLoop (xrefNames (xrefBody xref).length (xrefBody xref)) core []
    { ok := ended && decide (GroupPointers ≠ []), ended, data, core, GroupPointers }

end Inn.Innd
