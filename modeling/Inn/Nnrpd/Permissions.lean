import Inn.Nnrpd.Groups

/-!
# Inn.Nnrpd.Permissions — what a client may read and post

The permissions of a session are a set of globals. `PERMgetinitialaccess` and
`PERMgetaccess` find out who the client is when it connects, and again after STARTTLS;
`PERMlogin` after AUTHINFO PASS. `PERMgetpermissions` then looks for the access group and sets
what GROUP and POST look at.

* `Readers` — the auth groups and the access groups of `readers.conf`;
* `Perms` — the globals;
* `Perms.take` — STARTTLS, AUTHINFO USER and AUTHINFO PASS; `GROUP` and `POST`.

What resolvers and authenticators say is given with each call, for each auth group.
-/

namespace Inn.Nnrpd

open Inn.Innd

/-- `AUTHGROUP`: whether it has resolvers and authenticators, and the fields that are read
here. -/
structure AUTHGROUP where
  key : Option (List UInt8)
  require_encryption : Bool
  res_methods : Bool
  auth_methods : Bool
  default_user : Option (List UInt8)
  default_domain : Option (List UInt8)
deriving DecidableEq

/-- `ACCESSGROUP`; `badhost` is whether it has `virtualhost` without a domain of its own. -/
structure ACCESSGROUP where
  key : Option (List UInt8)
  users : Option (List UInt8)
  read : Option (List UInt8)
  post : Option (List UInt8)
  rejectwith : Option (List UInt8)
  badhost : Bool
deriving DecidableEq

/-- What `PERMreadfile` has read; `access_realms` is a null pointer if there is no access
group. `HAVE_SASL` is whether nnrpd was built with SASL. -/
structure Readers where
  auth_realms : List AUTHGROUP
  access_realms : Option (List ACCESSGROUP)
  HAVE_SASL : Bool
  uwildmat : List UInt8 → List UInt8 → Bool

/-- The globals, and the name that AUTHINFO USER gave. -/
structure Perms where
  PERMuser : List UInt8
  PERMauthorized : Bool
  PERMneedauth : Bool
  PERMcanauthenticate : Bool
  PERMcanauthenticatewithoutSSL : Bool
  PERMspecified : Bool
  PERMcanread : Bool
  PERMcanpost : Bool
  PERMreadlist : List (List UInt8)
  PERMpostlist : List (List UInt8)
  success_auth : Option AUTHGROUP
  encryption_layer_on : Bool
  User : List UInt8

/-- How nnrpd ends: it exits, or it follows a null pointer. -/
inductive End where
  | exit
  | null
deriving DecidableEq

/-- `NGgetlist`: words between commas and blanks. -/
def NGgetlist (list : List UInt8) : List (List UInt8) := tokens nameEnd list

/-- What resolvers or authenticators say, for each auth group. -/
abbrev Answers := ℕ → Option (List UInt8)

section Access

variable (conf : Readers)

/-! ## Access groups -/

/-- Whether an access group has the key of an auth group. -/
def sameKey (group : ACCESSGROUP) (auth : AUTHGROUP) : Bool :=
  (group.key.isNone && auth.key.isNone) ||
    (group.key.isSome && auth.key.isSome && group.key == auth.key)

/-- `strip_accessgroups`. -/
def strip_accessgroups : Option (List ACCESSGROUP) :=
  conf.access_realms.map fun groups => groups.filter fun group => conf.auth_realms.any (sameKey group)

/-- The loop of `PERMgetpermissions`, over the access groups from the last to the first. -/
def selectGroup (auth : AUTHGROUP) (user : List UInt8) : List ACCESSGROUP → Option ACCESSGROUP
  | [] => none
  | group :: groups =>
    if sameKey group auth then
      match group.users with
      | none => some group
      | some users =>
        if user = [] then selectGroup auth user groups
        else if PERMmatch conf.uwildmat (NGgetlist users) [user] then some group
        else selectGroup auth user groups
    else selectGroup auth user groups

namespace Perms

/-- The access group that was found is put in force. -/
def setGroup (s : Perms) (group : ACCESSGROUP) : Perms :=
  let s := match group.read with
    | some read => { s with
        PERMspecified := !(NGgetlist read).isEmpty
        PERMreadlist := NGgetlist read
        PERMcanread := true }
    | none => { s with PERMcanread := false }
  match group.post with
  | some post => { s with PERMpostlist := NGgetlist post, PERMcanpost := true }
  | none => { s with PERMcanpost := false }

/-- `PERMgetpermissions`. -/
def PERMgetpermissions (s : Perms) : Except End Perms :=
  match s.success_auth with
  | none => .ok s
  | some auth =>
    match strip_accessgroups conf with
    | none => .error .null
    | some groups =>
      match selectGroup conf auth s.PERMuser groups.reverse with
      | none => .ok s
      | some group =>
        if group.rejectwith.isSome || group.badhost then .error .exit else .ok (s.setGroup group)

/-! ## Users -/

/-- `strlcpy` to `PERMuser`, and `strlcat` of the default domain. -/
def setUser (s : Perms) (auth : AUTHGROUP) (uname : List UInt8) : Perms :=
  let user := uname.take 255
  { s with
    PERMuser := match auth.default_domain with
      | some domain => if 64 ∈ user then user else (user ++ [64] ++ domain).take 255
      | none => user
    PERMneedauth := false
    success_auth := some auth }

/-- `ResolveUser`. -/
def ResolveUser (s : Perms) (auth : AUTHGROUP) (answer : Option (List UInt8)) : Option (List UInt8) :=
  if !auth.res_methods || (auth.require_encryption && !s.encryption_layer_on) then none else answer

/-- `AuthenticateUser`. -/
def AuthenticateUser (s : Perms) (auth : AUTHGROUP) (answer : Option (List UInt8)) :
    Option (List UInt8) :=
  if !auth.auth_methods || (auth.require_encryption && !s.encryption_layer_on) then none else answer

/-- What the loop of `PERMgetaccess` makes of an auth group: the user's name, and whether it
was resolved. -/
def resolveRealm (s : Perms) (answers : Answers) (realm : AUTHGROUP × ℕ) :
    Option (AUTHGROUP × List UInt8 × Bool) :=
  if realm.1.require_encryption && !s.encryption_layer_on then none
  else
    match s.ResolveUser realm.1 (answers realm.2) with
    | some uname => some (realm.1, uname, true)
    | none => realm.1.default_user.map fun uname => (realm.1, uname, false)

/-- The loop of `PERMgetaccess`: the last auth group that knows the client. -/
def resolve (s : Perms) (answers : Answers) : Option (AUTHGROUP × List UInt8 × Bool) :=
  conf.auth_realms.zipIdx.reverse.findSome? (s.resolveRealm answers)

/-- `PERMgetaccess(false)`. -/
def PERMgetaccess (s : Perms) (answers : Answers) : Perms :=
  match s.resolve conf answers with
  | some (auth, uname, resolved) =>
    { s with PERMauthorized := s.PERMauthorized || resolved }.setUser auth uname
  | none => { s with PERMneedauth := true }

/-- The loop of `PERMlogin`. -/
def authenticate (s : Perms) (answers : Answers) : Option (AUTHGROUP × List UInt8) :=
  conf.auth_realms.zipIdx.reverse.findSome? fun realm =>
    (s.AuthenticateUser realm.1 (answers realm.2)).map fun uname => (realm.1, uname)

/-- `PERMlogin`. -/
def PERMlogin (s : Perms) (answers : Answers) : Perms :=
  match s.authenticate conf answers with
  | some (auth, uname) =>
    { s with PERMauthorized := true, PERMcanauthenticate := false }.setUser auth uname
  | none => { s with PERMneedauth := true }

/-- `PERMgetinitialaccess`, of a process that has just started, when there are auth groups. -/
def PERMgetinitialaccess : Perms where
  PERMuser := []
  PERMauthorized := false
  PERMneedauth := false
  PERMcanauthenticate := conf.HAVE_SASL || conf.auth_realms.any (·.auth_methods)
  PERMcanauthenticatewithoutSSL :=
    conf.auth_realms.any fun auth => auth.auth_methods && !auth.require_encryption
  PERMspecified := false
  PERMcanread := false
  PERMcanpost := false
  PERMreadlist := []
  PERMpostlist := []
  success_auth := none
  encryption_layer_on := false
  User := []

/-- What `PERMgetaccess(true)` does for the greeting. -/
def greet (s : Perms) (groups : List ACCESSGROUP) : Perms :=
  if groups = [] then { s with PERMcanread := false, PERMcanpost := false, PERMneedauth := false }
  else { s with
    PERMcanread := groups.any (·.read.isSome)
    PERMcanpost := groups.any (·.post.isSome) }

/-- `PERMgetinitialaccess` and `PERMgetaccess(true)`, when the connection is encrypted or
not. -/
def initial (encrypted : Bool) (answers : Answers) : Except End Perms :=
  if conf.auth_realms = [] then .error .exit
  else
    let s := { PERMgetinitialaccess conf with encryption_layer_on := encrypted }
    if s.resolve conf answers = none ∧ s.PERMcanauthenticate = false then .error .exit
    else
      match strip_accessgroups conf with
      | none => .error .null
      | some groups => .ok ((s.PERMgetaccess conf answers).greet groups)

/-- A client connects. -/
def connect (encrypted : Bool) (answers : Answers) : Except End Perms := do
  let s ← initial conf encrypted answers
  let s ← s.PERMgetpermissions conf
  if !s.PERMcanread && !s.PERMcanpost && !s.PERMneedauth then .error .exit else .ok s

end Perms

/-! ## Commands -/

/-- The commands that change who the client is. -/
inductive Auth where
  | starttls (answers : Answers)
  | user (name : List UInt8)
  | pass (answers : Answers)

namespace Perms

/-- Whether AUTHINFO is refused: there is nothing to authenticate with, or encryption is
needed. -/
def authRefused (s : Perms) : Bool :=
  !s.PERMcanauthenticate || (!s.PERMcanauthenticatewithoutSSL && !s.encryption_layer_on)

/-- The state in which a command calls `PERMgetpermissions`, if it does. -/
def identify (s : Perms) : Auth → Option Perms
  | .starttls answers =>
    if s.encryption_layer_on || (s.PERMauthorized && !s.PERMneedauth && !s.PERMcanauthenticate) then none
    else some ({ s with encryption_layer_on := true }.PERMgetaccess conf answers)
  | .user _ => none
  | .pass answers => if s.authRefused || s.User.isEmpty then none else some (s.PERMlogin conf answers)

/-- What AUTHINFO PASS does when it succeeds. -/
def authenticated (s : Perms) : Perms :=
  if s.PERMneedauth then s else { s with PERMauthorized := true, PERMcanauthenticate := false }

/-- `CMDstarttls` and `CMDauthinfo`. -/
def take (s : Perms) (command : Auth) : Except End Perms :=
  match s.identify conf command with
  | some t =>
    match command with
    | .pass _ => (t.PERMgetpermissions conf).map authenticated
    | _ => t.PERMgetpermissions conf
  | none =>
    match command with
    | .user name => if s.authRefused then .ok s else .ok { s with User := name.take 255 }
    | _ => .ok s

/-- The reply code of GROUP; `found` is whether the overview has the group. -/
def GROUP (s : Perms) (found : Bool) (group : List UInt8) : ℕ :=
  let denied := if s.PERMcanauthenticate then 480 else 502
  if s.PERMneedauth then 480
  else if !s.PERMcanread then denied
  else if !found then 411
  else if s.PERMspecified && PERMmatch conf.uwildmat s.PERMreadlist [group] then 211
  else denied

/-- What POST and IHAVE do with an article, if they take it. -/
def POST (s : Perms) (post : Posting) (value : List UInt8) : Option Posted :=
  if s.PERMneedauth || !s.PERMcanpost then none
  else some (ARTpost { post with
    uwildmat := conf.uwildmat
    PERMspecified := s.PERMspecified
    PERMpostlist := s.PERMpostlist } value)

end Perms

end Access

end Inn.Nnrpd
