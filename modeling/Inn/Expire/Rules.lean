import Mathlib.Data.Int.Notation
import Mathlib.Data.Nat.Notation
import Mathlib.Data.List.Basic

/-!
# Inn.Expire.Rules — the verdict on one overview entry

`OVgroupbasedexpire` is called for each overview entry of an article. It reads the
groups of the article from its Xref, has a verdict on each from the rules of
expire.ctl, and decides about the entry and about the article.
-/

namespace Inn.Expire

/-- `enum KRP`. -/
inductive KRP where
  | Keep
  | Remove
  | Poison
deriving DecidableEq

/-- `NEWSGROUP`: the rule that matched a group. -/
structure NEWSGROUP where
  Name : List UInt8
  Keep : ℤ
  Default : ℤ
  Purge : ℤ
  Poison : Bool

/-- The times and the options of the run, and the groups of the active file. -/
structure Config where
  OVnow : ℤ
  OVrealnow : ℤ
  OVignoreselfexpire : Bool
  OVusepost : Bool
  OVkeep : Bool
  OVearliest : Bool
  Groups : List NEWSGROUP

/-- An article: its storage method, and what its overview data has. `Date` is what
`parsedate_rfc5322_lax` makes of the field, if it is there and a date. -/
structure Article where
  /-- `SMprobe(SELFEXPIRE)` -/
  selfexpire : Bool
  /-- `TOKEN_EMPTY` -/
  empty : Bool
  arrived : ℤ
  expires : ℤ
  Date : Option ℤ
  Xref : Option (List UInt8)

def SPACE : UInt8 := 32

def COLON : UInt8 := 58

/-- `NGfind`. -/
def NGfind (conf : Config) (Name : List UInt8) : Option NEWSGROUP :=
  conf.Groups.find? (·.Name = Name)

/-- `EXPnotfound`. -/
def EXPnotfound (conf : Config) (Entry : List UInt8) : NEWSGROUP :=
  { Name := Entry, Keep := conf.OVnow, Default := conf.OVnow, Purge := conf.OVnow, Poison := false }

/-- `EXPkeepit`. -/
def EXPkeepit (conf : Config) (Entry : List UInt8) (when expires : ℤ) : KRP :=
  let ngp := (NGfind conf Entry).getD (EXPnotfound conf Entry)
  let when := if when > conf.OVrealnow + 86400 then
      if expires ≠ 0 then ngp.Purge else ngp.Default
    else when
  let keep := if expires = 0 then when ≥ ngp.Default
    else when ≥ ngp.Purge ∧ (expires ≥ conf.OVnow ∨ when ≥ ngp.Keep)
  if keep then .Keep else if ngp.Poison then .Poison else .Remove

/-- The loop of `EXPsplit`, at the start of a field. -/
def splitFields (sep : UInt8) (count : ℕ) (p : List UInt8) (argv : List (List UInt8)) :
    ℕ → Option (List (List UInt8))
  | 0 => none
  | fuel + 1 =>
    if count ≤ argv.length then none
    else
      let argv := argv ++ [p.takeWhile (· ≠ sep)]
      let p := (p.dropWhile (· ≠ sep)).dropWhile (· = sep)
      if p = [] then some argv else splitFields sep count p argv fuel

/-- `EXPsplit`. -/
def EXPsplit (p : List UInt8) (sep : UInt8) (count : ℕ) : Option (List (List UInt8)) :=
  let p := p.dropWhile (· = sep)
  if p = [] then some [] else splitFields sep count p [] (p.length + 1)

namespace Article

variable (art : Article) (conf : Config)

/-- The rules are not for the article. -/
def exempt : Bool := art.selfexpire && !conf.OVignoreselfexpire

/-- The date the rules are about. -/
def when : Option ℤ := if conf.OVusepost then art.Date else some art.arrived

/-- The list of groups in the Xref, or that of the entry. -/
def groupList (group : List UInt8) : Option (List UInt8) :=
  match art.Xref with
  | none => some (group ++ [COLON])
  | some Xref =>
    if SPACE ∈ Xref then some ((Xref.dropWhile (· ≠ SPACE)).dropWhile (· = SPACE)) else none

end Article

/-- A group name, which is what comes before the first colon. -/
def entryName (art : List UInt8) : Option (List UInt8) :=
  if COLON ∈ art then some (art.takeWhile (· ≠ COLON)) else none

/-- The decision of `OVgroupbasedexpire` about the entry of `group`: whether it is to be
dropped, and whether `OVEXPremove` is called. -/
def decision (conf : Config) (empty : Bool) (group : List UInt8) (arts : List (List UInt8))
    (krp : List UInt8 → KRP) : Bool × Bool :=
  let poisoned := arts.any fun art => krp art = .Poison
  let keeper := conf.OVkeep && arts.any fun art => krp art = .Keep
  let delete := arts.any fun art => krp art = .Remove && group = art
  let purge := !arts.any fun art => krp art = .Keep
  if conf.OVearliest then
    if delete || poisoned || empty then (true, arts.head? = some group) else (false, false)
  else if !keeper && delete || empty then (true, purge)
  else (false, false)

/-- `OVgroupbasedexpire`: whether the entry is to be dropped, and whether `OVEXPremove`
is called. -/
def OVgroupbasedexpire (conf : Config) (art : Article) (group : List UInt8) : Bool × Bool :=
  if art.exempt conf then (false, false)
  else match art.when conf, art.groupList group with
    | some when, some Xref =>
      match EXPsplit Xref SPACE conf.Groups.length with
      | none => (true, false)
      | some arts =>
        match arts.mapM entryName with
        | none => (true, false)
        | some arts => decision conf art.empty group arts (EXPkeepit conf · when art.expires)
    | _, _ => (true, false)

end Inn.Expire
