import Mathlib.Logic.Function.Basic
import Inn.History.Line
import Inn.Innd.Channel

/-!
# Inn.Nnrpd.Readfile — reading readers.conf

`PERMreadfile` goes through the words of the file and of the files it includes. Groups may
be nested; an auth or access block starts with a copy of what the group around it has. The
parameters a block has been given are kept as bits of one set for the whole file.

* `accessdecl_parse`, `authdecl_parse` — a parameter of a group or block, and its value;
* `step` — a turn of the loop of `PERMreadfile`;
* `Block` — a group of parameters, with the part of the file it comes from.
-/

namespace Inn.Nnrpd.Readfile

open Inn.Innd (octets tolower strcaseEq)
open Inn.History (IsSpace strtoul)

/-! ## Words and parameters -/

/-- A word of the file, as `CONFgetword` returns it. -/
abbrev Word := List UInt8

/-- The parameters of an access group that are switches. -/
inductive Flag where
  | localtime
  | strippath
  | nnrpdperlfilter
  | nnrpdpythonfilter
  | spoolfirst
  | checkincludedtext
  | readertrack
  | strippostcc
  | addinjectiondate
  | addinjectionpostingaccount
  | addinjectionpostinghost
  | nnrpdoverstats
  | backoff_auth
  | nnrpdcheckart
  | nnrpdauthsender
  | virtualhost
deriving DecidableEq, Repr

/-- Those that are kept as they are written. -/
inductive Text where
  | fromhost
  | pathhost
  | organization
  | moderatormailer
  | domain
  | complaints
  | addcanlockuser
  | nnrpdposthost
  | backoff_db
  | newsmaster
deriving DecidableEq, Repr

/-- Those that are numbers. -/
inductive Number where
  | clienttimeout
  | localmaxartsize
  | nnrpdpostport
  | backoff_k
  | backoff_postfast
  | backoff_postslow
  | backoff_trigger
  | maxbytespersecond
  | groupexactcount
deriving DecidableEq, Repr

/-- The types of words; `string` is a word that is not in `PERMtoks`. -/
inductive Tok where
  | lbrace
  | rbrace
  | group
  | auth
  | access
  | host
  | authprog
  | resolv
  | resprog
  | defuser
  | defdomain
  | users
  | newsgroups
  | read
  | post
  | accessrp
  | alsolog
  | program
  | includes
  | key
  | localaddress
  | rejectwith
  | perl_auth
  | python_auth
  | perl_access
  | python_access
  | python_dynamic
  | require_encryption
  | flag (f : Flag)
  | text (t : Text)
  | number (n : Number)
  | string
deriving DecidableEq, Repr

/-- The words that mean something. -/
def PERMtoks : List (Tok × String) := [
  (.lbrace, "\x7b"),
  (.rbrace, "\x7d"),
  (.group, "group"),
  (.auth, "auth"),
  (.access, "access"),
  (.host, "hosts:"),
  (.authprog, "auth:"),
  (.resolv, "res"),
  (.resprog, "res:"),
  (.defuser, "default:"),
  (.defdomain, "default-domain:"),
  (.users, "users:"),
  (.newsgroups, "newsgroups:"),
  (.read, "read:"),
  (.post, "post:"),
  (.accessrp, "access:"),
  (.alsolog, "log:"),
  (.program, "program:"),
  (.includes, "include"),
  (.key, "key:"),
  (.flag .localtime, "localtime:"),
  (.flag .strippath, "strippath:"),
  (.flag .nnrpdperlfilter, "perlfilter:"),
  (.flag .nnrpdpythonfilter, "pythonfilter:"),
  (.text .fromhost, "fromhost:"),
  (.text .pathhost, "pathhost:"),
  (.text .organization, "organization:"),
  (.text .moderatormailer, "moderatormailer:"),
  (.text .domain, "domain:"),
  (.text .complaints, "complaints:"),
  (.flag .spoolfirst, "spoolfirst:"),
  (.flag .checkincludedtext, "checkincludedtext:"),
  (.number .clienttimeout, "clienttimeout:"),
  (.number .localmaxartsize, "localmaxartsize:"),
  (.flag .readertrack, "readertrack:"),
  (.flag .strippostcc, "strippostcc:"),
  (.text .addcanlockuser, "addcanlockuser:"),
  (.flag .addinjectiondate, "addinjectiondate:"),
  (.flag .addinjectionpostingaccount, "addinjectionpostingaccount:"),
  (.flag .addinjectionpostinghost, "addinjectionpostinghost:"),
  (.text .nnrpdposthost, "nnrpdposthost:"),
  (.number .nnrpdpostport, "nnrpdpostport:"),
  (.flag .nnrpdoverstats, "nnrpdoverstats:"),
  (.flag .backoff_auth, "backoff_auth:"),
  (.text .backoff_db, "backoff_db:"),
  (.number .backoff_k, "backoff_k:"),
  (.number .backoff_postfast, "backoff_postfast:"),
  (.number .backoff_postslow, "backoff_postslow:"),
  (.number .backoff_trigger, "backoff_trigger:"),
  (.flag .nnrpdcheckart, "nnrpdcheckart:"),
  (.flag .nnrpdauthsender, "nnrpdauthsender:"),
  (.flag .virtualhost, "virtualhost:"),
  (.text .newsmaster, "newsmaster:"),
  (.localaddress, "localaddress:"),
  (.rejectwith, "reject_with:"),
  (.number .maxbytespersecond, "max_rate:"),
  (.perl_auth, "perl_auth:"),
  (.python_auth, "python_auth:"),
  (.perl_access, "perl_access:"),
  (.python_access, "python_access:"),
  (.python_dynamic, "python_dynamic:"),
  (.number .groupexactcount, "groupexactcount:"),
  (.require_encryption, "require_encryption:")]

/-- `CONFgettoken` with `PERMtoks`: the type of a word. -/
def tokenOf (w : Word) : Tok :=
  ((PERMtoks.find? fun e => octets e.2 == w).map Prod.fst).getD .string

/-- Strip blanks out of a list; `inword` says that there is a word to end. -/
def compress : Bool → List UInt8 → List UInt8
  | _, [] => []
  | inword, c :: cs =>
    if c ∈ octets "\n \t," then
      if inword then 44 :: compress false cs else compress false cs
    else c :: compress true cs

def CompressList (list : Word) : Word := compress false list

/-- The switch a word stands for; `none` is the -1 of the source. -/
def boolval (v : Word) : Option Bool :=
  if strcaseEq v (octets "on") || strcaseEq v (octets "true") || strcaseEq v (octets "yes") then
    some true
  else if strcaseEq v (octets "off") || strcaseEq v (octets "false")
      || strcaseEq v (octets "no") then
    some false
  else none

/-- `strtol` in base 10. -/
def strtol (nptr : Word) : ℤ :=
  let p := nptr.dropWhile IsSpace
  let q := if p.head? = some 43 ∨ p.head? = some 45 then p.drop 1 else p
  let value : ℤ := decimalValue (q.takeWhile IsDigit)
  if p.head? = some 45 then max (-value) (-2 ^ 63) else min value (2 ^ 63 - 1)

/-- `atoi`: the `long` stored in an `int`. -/
def atoi (nptr : Word) : ℤ := (strtol nptr).bmod (2 ^ 32)

/-- How a number is read. -/
def Number.value : Number → Word → ℤ
  | .clienttimeout, v => atoi v
  | .maxbytespersecond, v => strtol v
  | _, v => (strtoul v).1

/-! ## Groups of parameters -/

/-- What the file is read with: inn.conf, the client, the files, and how nnrpd was built. -/
structure Conf where
  allownewnews : Bool
  flag : Flag → Bool
  text : Text → Option Word
  number : Number → ℤ
  IsValidDomain : Word → Bool
  /-- `MatchHost` with the name and address of the client. -/
  matchesClient : Option Word → Bool
  /-- `MatchHost` with the name and address of the server. -/
  matchesServer : Option Word → Bool
  /-- The words of a file, if it can be opened. -/
  CONFfopen : Word → Option (List Word)
  DO_PERL : Bool
  DO_PYTHON : Bool

structure METHOD where
  name : Option Word := none
  program : Option Word := none
  type : Option Tok := none
  users : Option Word := none
  extra_logs : List Word := []
deriving DecidableEq, Repr

structure AUTHGROUP where
  name : Option Word := none
  key : Option Word := none
  require_encryption : Bool := false
  hosts : Option Word := none
  res_methods : List METHOD := []
  auth_methods : List METHOD := []
  default_user : Option Word := none
  default_domain : Option Word := none
  localaddress : Option Word := none
  access_script : Option Word := none
  access_type : Option Tok := none
  dynamic_script : Option Word := none
  dynamic_type : Option Tok := none
deriving DecidableEq, Repr

structure ACCESSGROUP where
  name : Option Word := none
  key : Option Word := none
  read : Option Word := none
  post : Option Word := none
  users : Option Word := none
  rejectwith : Option Word := none
  allownewnews : Bool
  allowihave : Bool := false
  locpost : Bool := false
  allowapproved : Bool := false
  domainoverriden : Bool := false
  flag : Flag → Bool
  text : Text → Option Word
  number : Number → ℤ

/-- The switches an access group has at first. -/
def Conf.defaultFlag (conf : Conf) : Flag → Bool
  | .localtime => false
  | .strippath => false
  | .nnrpdperlfilter => true
  | .nnrpdpythonfilter => true
  | .virtualhost => false
  | f => conf.flag f

/-- The texts it has at first. -/
def Conf.defaultText (conf : Conf) : Text → Option Word
  | .addcanlockuser => some (octets "username")
  | .backoff_db => (conf.text .backoff_db).filter (· ≠ [])
  | .newsmaster => none
  | t => conf.text t

/-- The numbers it has at first. -/
def Conf.defaultNumber (conf : Conf) : Number → ℤ
  | .maxbytespersecond => 0
  | .groupexactcount => 5
  | n => conf.number n

def SetDefaultAccess (conf : Conf) : ACCESSGROUP where
  allownewnews := conf.allownewnews
  flag := conf.defaultFlag
  text := conf.defaultText
  number := conf.defaultNumber

/-! ## A parameter and its value -/

/-- What `ReportError` is called with; `duplicated` is a parameter that is already there, or
that does not go with one that is. -/
inductive Complaint where
  | duplicated (err : Word)
  | other (err : Word)
deriving DecidableEq, Repr

/-- `accessdecl_parse` with the value `v`; `bits` is `ConfigBit`. -/
def accessdecl_parse (conf : Conf) (curaccess : ACCESSGROUP) (bits : List Tok) (oldtype : Tok)
    (oldname v : Word) : Except Complaint (ACCESSGROUP × List Tok) :=
  if oldtype ∈ bits then
    .error (.duplicated (octets "Duplicated '" ++ oldname ++ octets "' field in access group."))
  else
    match oldtype with
    | .key => .ok ({ curaccess with key := some v }, oldtype :: bits)
    | .users => .ok ({ curaccess with users := some (CompressList v) }, oldtype :: bits)
    | .rejectwith => .ok ({ curaccess with rejectwith := some v }, oldtype :: bits)
    | .newsgroups =>
      if .read ∈ bits then .error (.duplicated (octets "read: newsgroups already set."))
      else if .post ∈ bits then .error (.duplicated (octets "post: newsgroups already set."))
      else
        .ok ({ curaccess with read := some (CompressList v), post := some (CompressList v) },
          .post :: .read :: oldtype :: bits)
    | .read => .ok ({ curaccess with read := some (CompressList v) }, oldtype :: bits)
    | .post => .ok ({ curaccess with post := some (CompressList v) }, oldtype :: bits)
    | .accessrp =>
      let noread : Bool := .read ∈ bits ∧ 82 ∉ v
      let bits := if noread then bits.filter (· ≠ .read) else bits
      let nopost : Bool := .post ∈ bits ∧ 80 ∉ v
      let bits := if nopost then bits.filter (· ≠ .post) else bits
      .ok ({ curaccess with
        read := if noread then none else curaccess.read
        post := if nopost then none else curaccess.post
        allowapproved := decide (65 ∈ v)
        allownewnews := decide (78 ∈ v)
        allowihave := decide (73 ∈ v)
        locpost := decide (76 ∈ v) }, oldtype :: bits)
    | .flag f =>
      .ok ({ curaccess with
        flag := Function.update curaccess.flag f ((boolval v).getD (curaccess.flag f)) },
        oldtype :: bits)
    | .text .domain =>
      if conf.IsValidDomain v then
        .ok ({ curaccess with
          domainoverriden := curaccess.domainoverriden || (curaccess.text .domain).isSome
          text := Function.update curaccess.text .domain (some v) }, oldtype :: bits)
      else
        .error (.other (octets "Invalid characters in domain '" ++ v
          ++ octets "' used in Message-IDs."))
    | .text t =>
      .ok ({ curaccess with text := Function.update curaccess.text t (some v) }, oldtype :: bits)
    | .number n =>
      .ok ({ curaccess with number := Function.update curaccess.number n (n.value v) },
        oldtype :: bits)
    | _ => .error (.other (octets "Unexpected token '" ++ v ++ octets "'."))

/-- `method_parse` with the value `v`; `auth` says that this is an `auth` and not a `res`. -/
def method_parse (method : METHOD) (oldtype : Tok) (v : Word) (auth : Bool) :
    Except Complaint METHOD :=
  match oldtype with
  | .alsolog => .ok { method with extra_logs := method.extra_logs ++ [v] }
  | .users =>
    if !auth then .error (.other (octets "Unexpected users: directive in file."))
    else if method.users ≠ none then
      .error (.other (octets "Multiple users: directive in file."))
    else .ok { method with users := some v }
  | .program =>
    if method.program ≠ none then
      .error (.other (octets "Multiple program: directives in auth/res declaration."))
    else .ok { method with program := some v }
  | _ => .ok method

/-- The body of a method, up to its brace; `none` in place of the words that are left is the
end of the file. -/
def methodBody (auth : Bool) (m : METHOD) :
    List Word → Except Complaint (METHOD × Option (List Word))
  | [] => .ok (m, none)
  | [w] =>
    if tokenOf w = .rbrace then .ok (m, some [])
    else .error (.other (octets "Expected value."))
  | w :: v :: rest =>
    if tokenOf w = .rbrace then .ok (m, some (v :: rest))
    else
      match method_parse m (tokenOf w) v auth with
      | .error c => .error c
      | .ok m => methodBody auth m rest

/-- A method with a name, its braces, and what is between them. -/
def namedMethod (auth : Bool) (name : Word) (rest : List Word) :
    Except Complaint (METHOD × List Word) :=
  match rest with
  | [] =>
    .error (.other (octets "Expected '\x7b' after '" ++ octets (if auth then "auth" else "res")
      ++ octets "'."))
  | w :: rest =>
    if tokenOf w ≠ .lbrace then
      .error (.other (octets "Expected '\x7b' after '" ++ octets (if auth then "auth" else "res")
        ++ octets "'."))
    else
      match methodBody auth { name := some name } rest with
      | .error c => .error c
      | .ok (m, rest) =>
        if auth = false ∧ m.program = none then .error (.other (octets "Missing 'program:' key."))
        else
          match rest with
          | none => .error (.other (octets "Unexpected EOF."))
          | some rest => .ok (m, rest)

/-- What needs Perl or Python, and is refused when nnrpd was built without it. -/
def needs (built : Bool) (what language : String) {α : Type} (a : α) : Except Complaint α :=
  if built then .ok a
  else .error (.other (octets (what ++ " can not be used in readers.conf: INN not compiled with "
    ++ language ++ " support enabled.")))

/-- `authdecl_parse` with the value `v`; `rest` is what is left of the file. -/
def authdecl_parse (conf : Conf) (curauth : AUTHGROUP) (bits : List Tok) (oldtype : Tok)
    (oldname v : Word) (rest : List Word) :
    Except Complaint (AUTHGROUP × List Tok × List Word) :=
  if oldtype ∈ bits then
    .error (.duplicated (octets "Duplicated '" ++ oldname ++ octets "' field in auth group."))
  else
    match oldtype with
    | .key => .ok ({ curauth with key := some v }, oldtype :: bits, rest)
    | .require_encryption =>
      .ok ({ curauth with
        require_encryption := (boolval v).getD curauth.require_encryption }, oldtype :: bits, rest)
    | .host =>
      .ok ({ curauth with hosts := some ((CompressList v).map tolower) }, oldtype :: bits, rest)
    | .defdomain => .ok ({ curauth with default_domain := some v }, oldtype :: bits, rest)
    | .defuser => .ok ({ curauth with default_user := some v }, oldtype :: bits, rest)
    -- a method empties `ConfigBit`
    | .resprog =>
      .ok ({ curauth with res_methods := curauth.res_methods ++ [{ program := some v }] }, [], rest)
    | .resolv =>
      match namedMethod false v rest with
      | .error c => .error c
      | .ok (m, rest) => .ok ({ curauth with res_methods := curauth.res_methods ++ [m] }, [], rest)
    | .authprog =>
      .ok ({ curauth with
        auth_methods := curauth.auth_methods ++ [{ type := some oldtype, program := some v }] },
        [], rest)
    | .perl_auth =>
      needs conf.DO_PERL "perl_auth" "Perl" ({ curauth with
        auth_methods := curauth.auth_methods ++ [{ type := some oldtype, program := some v }] },
        [], rest)
    | .python_auth =>
      needs conf.DO_PYTHON "python_auth" "Python" ({ curauth with
        auth_methods := curauth.auth_methods ++ [{ type := some oldtype, program := some v }] },
        [], rest)
    | .auth =>
      match namedMethod true v rest with
      | .error c => .error c
      | .ok (m, rest) =>
        .ok ({ curauth with auth_methods := curauth.auth_methods ++ [m] }, [], rest)
    | .perl_access =>
      needs conf.DO_PERL "perl_access" "Perl" ({ curauth with
        access_script := some v, access_type := some oldtype }, bits, rest)
    | .python_access =>
      needs conf.DO_PYTHON "python_access" "Python" ({ curauth with
        access_script := some v, access_type := some oldtype }, bits, rest)
    | .python_dynamic =>
      needs conf.DO_PYTHON "python_dynamic" "Python" ({ curauth with
        dynamic_script := some v, dynamic_type := some oldtype }, bits, rest)
    | .localaddress =>
      .ok ({ curauth with localaddress := some (CompressList v) }, oldtype :: bits, rest)
    | _ => .error (.other (octets "Unexpected token '" ++ v ++ octets "'."))

/-! ## Blocks -/

/-- A group of parameters, and the part of the file it comes from: what the groups around it
have when it begins, and what it gives itself. No turn reads that part. -/
structure Block (α : Type) where
  group : α
  above : List (Tok × Word) := []
  own : List (Tok × Word) := []
deriving Repr

/-- A block or group in a group: `copy_authgroup`, `copy_accessgroup`. -/
def Block.inside {α : Type} (b : Block α) : Block α :=
  { group := b.group, above := b.above ++ b.own }

/-- `copy_method` copies the name of every method, and there is none for a program alone. -/
def AUTHGROUP.Copies (auth : AUTHGROUP) : Prop :=
  ∀ m ∈ auth.res_methods ++ auth.auth_methods, m.name ≠ none

instance (auth : AUTHGROUP) : Decidable auth.Copies :=
  inferInstanceAs (Decidable (∀ m ∈ _, _))

structure GROUP where
  name : Option Word := none
  auth : Option (Block AUTHGROUP) := none
  access : Option (Block ACCESSGROUP) := none

/-- What is being read: `inwhat`, with `curauth` or `curaccess`. -/
inductive Inside where
  | top
  | auth (curauth : Block AUTHGROUP)
  | access (curaccess : Block ACCESSGROUP)

/-- How far the reading is. `refused` tells the block and the parameter that `ReportError`
was called for, if it was for one; `crashed` is a copy of a name that is not there. -/
inductive Status where
  | reading
  | finished
  | crashed
  | refused (c : Complaint) (place : Option (List (Tok × Word) × Tok))
deriving DecidableEq, Repr

/-- `files` is the chain of includes, the file that is being read first; `groups` is
`curgroup` and the groups above it. -/
structure State where
  files : List (List Word)
  bits : List Tok := []
  groups : List GROUP := []
  inwhat : Inside := .top
  auth_realms : List (Block AUTHGROUP) := []
  access_realms : List (Block ACCESSGROUP) := []
  status : Status := .reading

/-- `accessdecl_parse` in a block. -/
def accessTurn (conf : Conf) (b : Block ACCESSGROUP) (bits : List Tok) (p : Tok) (name : Word) :
    List Word → Except Complaint (Block ACCESSGROUP × List Tok × List Word)
  | [] => .error (.other (octets "Expected value."))
  | v :: rest =>
    match accessdecl_parse conf b.group bits p name v with
    | .error c => .error c
    | .ok (group, bits) => .ok ({ b with group := group, own := b.own ++ [(p, v)] }, bits, rest)

/-- `authdecl_parse` in a block. -/
def authTurn (conf : Conf) (b : Block AUTHGROUP) (bits : List Tok) (p : Tok) (name : Word) :
    List Word → Except Complaint (Block AUTHGROUP × List Tok × List Word)
  | [] => .error (.other (octets "Expected value."))
  | v :: rest =>
    match authdecl_parse conf b.group bits p name v rest with
    | .error c => .error c
    | .ok (group, bits, rest) =>
      .ok ({ b with group := group, own := b.own ++ [(p, v)] }, bits, rest)

/-! ## The loop -/

/-- The parameters of an auth group that a group may have. -/
def groupAuthToks : List Tok :=
  [.host, .require_encryption, .authprog, .resprog, .defuser, .defdomain]

/-- The parameters of an access group that a group may have. -/
def InGroup : Tok → Prop
  | .users => True
  | .rejectwith => True
  | .newsgroups => True
  | .read => True
  | .post => True
  | .accessrp => True
  | .flag _ => True
  | .text _ => True
  | .number n => n ≠ .maxbytespersecond
  | _ => False

instance (p : Tok) : Decidable (InGroup p) := by
  cases p <;> unfold InGroup <;> infer_instance

/-- `curgroup` and the groups above it, with a group made when there is none. -/
def curgroup : List GROUP → GROUP × List GROUP
  | [] => ({}, [])
  | g :: above => (g, above)

/-- The auth parameters of a group, made when there are none, and `ConfigBit` then. -/
def groupAuth (groups : List GROUP) (bits : List Tok) : Block AUTHGROUP × List Tok :=
  match (curgroup groups).1.auth with
  | none => ({ group := {} }, [])
  | some b => (b, bits)

/-- The access parameters of a group. -/
def groupAccess (conf : Conf) (groups : List GROUP) (bits : List Tok) :
    Block ACCESSGROUP × List Tok :=
  match (curgroup groups).1.access with
  | none => ({ group := SetDefaultAccess conf }, [])
  | some b => (b, bits)

/-- The auth parameters of these groups can be copied. -/
def AuthCopies (groups : List GROUP) : Prop :=
  ∀ b ∈ groups.head?.bind GROUP.auth, b.group.Copies

instance (groups : List GROUP) : Decidable (AuthCopies groups) := by
  unfold AuthCopies
  infer_instance

/-- The block that begins in these groups. -/
def newAuth (groups : List GROUP) (name : Word) : Block AUTHGROUP :=
  match groups.head?.bind GROUP.auth with
  | none => { group := { name := some name } }
  | some b => { b.inside with group := { b.group with name := some name } }

def newAccess (conf : Conf) (groups : List GROUP) (name : Word) : Block ACCESSGROUP :=
  match groups.head?.bind GROUP.access with
  | none => { group := { SetDefaultAccess conf with name := some name } }
  | some b => { b.inside with group := { b.group with name := some name } }

/-- The group that begins in these groups. -/
def newgroup (groups : List GROUP) (name : Word) : GROUP where
  name := some name
  auth := (groups.head?.bind GROUP.auth).map Block.inside
  access := (groups.head?.bind GROUP.access).map Block.inside

/-- `ReportError`, which does not return. -/
def State.refuse (s : State) (c : Complaint) (place : Option (List (Tok × Word) × Tok)) : State :=
  { s with status := .refused c place }

/-- The name of a group or block, and its brace. -/
def heading (eof brace : String) : List Word → Except Complaint (Word × List Word)
  | [] => .error (.other (octets eof))
  | [_] => .error (.other (octets brace))
  | name :: w :: rest =>
    if tokenOf w ≠ .lbrace then .error (.other (octets brace)) else .ok (name, rest)

/-- A parameter of a group, or a word that is out of place. -/
def groupTurn (conf : Conf) (s : State) (p : Tok) (w : Word) (rest : List Word)
    (fs : List (List Word)) : State :=
  if p ∈ groupAuthToks then
    let b := groupAuth s.groups s.bits
    match authTurn conf b.1 b.2 p w rest with
    | .error c => s.refuse c (some (b.1.own, p))
    | .ok (b, bits, rest) =>
      { s with
        files := rest :: fs, bits := bits
        groups := { (curgroup s.groups).1 with auth := some b } :: (curgroup s.groups).2 }
  else if InGroup p then
    let b := groupAccess conf s.groups s.bits
    match accessTurn conf b.1 b.2 p w rest with
    | .error c => s.refuse c (some (b.1.own, p))
    | .ok (b, bits, rest) =>
      { s with
        files := rest :: fs, bits := bits
        groups := { (curgroup s.groups).1 with access := some b } :: (curgroup s.groups).2 }
  else s.refuse (.other (octets "Unexpected token: " ++ w)) none

/-- The top-level parser, at the word `w`; `rest` is what is left of the file that is being
read, and `fs` are the files above it. -/
def topTurn (conf : Conf) (s : State) (w : Word) (rest : List Word) (fs : List (List Word)) :
    State :=
  match tokenOf w with
  | .includes =>
    match rest with
    | [] => s.refuse (.other (octets "Expected filename after 'include'.")) none
    | path :: rest =>
      match conf.CONFfopen path with
      | none => s.refuse (.other (octets "Could not open 'include' filename.")) none
      | some words => { s with files := words :: rest :: fs }
  | .group =>
    match heading "Unexpected EOF at group name." "Expected '\x7b' after group name." rest with
    | .error c => s.refuse c none
    | .ok (name, rest) =>
      if ¬ AuthCopies s.groups then { s with status := .crashed }
      else { s with files := rest :: fs, bits := [], groups := newgroup s.groups name :: s.groups }
  | .auth =>
    match heading "Expected identifier." "Expected '\x7b'." rest with
    | .error c => s.refuse c none
    | .ok (name, rest) =>
      if ¬ AuthCopies s.groups then { s with status := .crashed }
      else { s with files := rest :: fs, bits := [], inwhat := .auth (newAuth s.groups name) }
  | .access =>
    match heading "Expected identifier." "Expected '\x7b'." rest with
    | .error c => s.refuse c none
    | .ok (name, rest) =>
      { s with files := rest :: fs, bits := [], inwhat := .access (newAccess conf s.groups name) }
  | .rbrace =>
    match s.groups with
    | [] => s.refuse (.other (octets "Unmatched '\x7d'.")) none
    | _ :: above => { s with files := rest :: fs, groups := above }
  | p => groupTurn conf s p w rest fs

/-- The auth group parser. -/
def authBlockTurn (conf : Conf) (s : State) (b : Block AUTHGROUP) (w : Word) (rest : List Word)
    (fs : List (List Word)) : State :=
  if tokenOf w = .rbrace then
    { s with
      files := rest :: fs, inwhat := .top
      auth_realms :=
        if conf.matchesClient b.group.hosts && conf.matchesServer b.group.localaddress then
          s.auth_realms ++ [b]
        else s.auth_realms }
  else
    match authTurn conf b s.bits (tokenOf w) w rest with
    | .error c => s.refuse c (some (b.own, tokenOf w))
    | .ok (b, bits, rest) => { s with files := rest :: fs, bits := bits, inwhat := .auth b }

/-- The access group parser. -/
def accessBlockTurn (conf : Conf) (s : State) (b : Block ACCESSGROUP) (w : Word)
    (rest : List Word) (fs : List (List Word)) : State :=
  if tokenOf w = .rbrace then
    { s with files := rest :: fs, inwhat := .top, access_realms := s.access_realms ++ [b] }
  else
    match accessTurn conf b s.bits (tokenOf w) w rest with
    | .error c => s.refuse c (some (b.own, tokenOf w))
    | .ok (b, bits, rest) => { s with files := rest :: fs, bits := bits, inwhat := .access b }

/-- The next word, back up the chain of includes. -/
def nextWord : List (List Word) → Option (Word × List Word × List (List Word))
  | [] => none
  | [] :: fs => nextWord fs
  | (w :: rest) :: fs => some (w, rest, fs)

/-- A turn of the loop of `PERMreadfile`. -/
def step (conf : Conf) (s : State) : State :=
  match s.status with
  | .reading =>
    match nextWord s.files with
    | none => { s with status := .finished }
    | some (w, rest, fs) =>
      match s.inwhat with
      | .top => topTurn conf s w rest fs
      | .auth b => authBlockTurn conf s b w rest fs
      | .access b => accessBlockTurn conf s b w rest fs
  | _ => s

/-- The loop as a system. -/
def Next (conf : Conf) (s : State) (_ : Unit) (s' : State) : Prop := step conf s = s'

end Inn.Nnrpd.Readfile
