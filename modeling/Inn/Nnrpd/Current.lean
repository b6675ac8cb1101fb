import Inn.Nnrpd.Permissions
import Inn.Nnrpd.Submit

/-!
# Inn.Nnrpd.Current — the current group of a reader

The current group is a name, two marks and an article number, a count of the GROUP commands,
and a flag that the group is no longer to be read. GROUP and LISTGROUP set them; ARTICLE, NEXT
and the like use them, and set the article number. STARTTLS, AUTHINFO PASS and AUTHINFO SASL
change the permissions, and each deals with the group in its own way.

* `Client` — the session, with the bytes that have been read from the client and not yet been
  taken as a command;
* `CMDgroup`, `CMDfetch`, `CMDnextlast`, `CMDover`, `CMDpat` — the commands on the group;
* `CMDstarttls`, `AUTHINFO`, `SASLauth` — those that change the permissions;
* `step` — bytes arrive, or a command is taken.

What the overview, the storage and the authenticators answer is given with each command.
-/

namespace Inn.Nnrpd.Current

open Inn.Nnrpd.Submit (toInt)

/-- A number of the current group, with the group it was obtained for. -/
structure Mark where
  value : ℕ
  group : Option (List UInt8)
deriving DecidableEq, Repr

/-- The session. `buffer` is what `NNTPline` holds; each byte has the number of security
layers that were there when it was received, and `layer` is their number now. -/
structure Client where
  perms : Perms
  buffer : List (ℕ × UInt8)
  layer : ℕ
  GRPcur : Option (List UInt8)
  GRPcount : ℕ
  ARTlow : Mark
  ARThigh : Mark
  ARTnumber : Mark
  PERMgroupmadeinvalid : Bool

/-- What nnrpd is set up with. -/
structure Setup where
  readers : Readers
  nfsreader : Bool
  nfsreaderdelay : ℕ

/-- The reply of a command: its code, and the group of which it has served an article, or data
of articles, by number. -/
structure Answer where
  code : ℕ
  served : Option (List UInt8) := none
deriving DecidableEq, Repr

/-! ## GROUP and LISTGROUP -/

/-- What CMDgroup is told: `OVgroupstats` (low, high, count), `groupexactcount` of the access
group in force, `GRPexactcount`, the time, and the search for the last articles with their
numbers and arrivals, `none` if it cannot be opened. -/
structure Asked where
  stats : Option (ℕ × ℕ × ℕ)
  groupexactcount : ℕ
  exact : ℕ
  now : ℕ
  search : Option (List (ℕ × ℕ))
deriving DecidableEq, Repr

/-- The count, with an exact one where it is small. -/
def Asked.counted (asked : Asked) (count : ℕ) : ℕ :=
  if 0 < count ∧ (asked.groupexactcount = 0 ∨ count < asked.groupexactcount) then asked.exact
  else count

/-- The loop over the last articles of an NFS reader: the high mark before the first article
that is too new. -/
def settled (delay now : ℕ) (prev : ℕ) : List (ℕ × ℕ) → Option ℕ
  | [] => none
  | (i, arrived) :: rows =>
    if now < arrived + delay then some prev else settled delay now i rows

/-- The reply for what is not permitted. -/
def Client.denied (s : Client) : ℕ := if s.perms.PERMcanauthenticate then 480 else 502

/-- The end of GROUP and LISTGROUP. -/
def Client.select (s : Client) (group : List UInt8) (count : ℕ) : Client :=
  { s with
    GRPcount := s.GRPcount + 1
    ARTnumber := ⟨if count = 0 then 0 else s.ARTlow.value, some group⟩
    GRPcur := some group
    PERMgroupmadeinvalid := false }

/-- GROUP, from the marks on. -/
def groupReply (conf : Setup) (s : Client) (group : List UInt8) (asked : Asked) (count : ℕ) :
    Client × Answer :=
  if count = 0 ∨ conf.nfsreader = false then (s.select group count, { code := 211 })
  else
    let low := s.ARTlow.value
    let high := s.ARThigh.value
    let nfslow := if high < low + conf.nfsreaderdelay then low else high - conf.nfsreaderdelay
    match asked.search with
    | none => (s, { code := 503 })
    | some rows =>
      match settled conf.nfsreaderdelay asked.now nfslow rows with
      | none => (s.select group count, { code := 211 })
      | some prev =>
        let s := { s with ARThigh := ⟨prev, some group⟩ }
        let width := (prev + 2 ^ 64 - low) % 2 ^ 64
        (s.select group (if width < count then width + 1 else count), { code := 211 })

/-- CMDgroup; `name` is the group that is given, and `range` whether a range is valid. -/
def CMDgroup (conf : Setup) (s : Client) (listgroup : Bool) (name : Option (List UInt8))
    (range : Option Bool) (asked : Asked) : Client × Answer :=
  match name.or s.GRPcur with
  | none => (s, { code := 412 })
  | some group =>
    if range = some false then (s, { code := 501 })
    else if !s.perms.PERMcanread then (s, { code := s.denied })
    else
      match asked.stats with
      | none => (s, { code := 411 })
      | some (low, high, count) =>
        if !(s.perms.PERMspecified && PERMmatch conf.readers.uwildmat s.perms.PERMreadlist [group])
        then (s, { code := s.denied })
        else
          let s := { s with ARTlow := ⟨low, some group⟩, ARThigh := ⟨high, some group⟩ }
          let count := asked.counted count
          if listgroup then (s.select group count, { code := 211, served := some group })
          else groupReply conf s group asked count

/-! ## Articles by number -/

/-- Which article a command asks for. -/
inductive Which where
  | current
  | number (n : ℕ)
  | mid
  | invalid
deriving DecidableEq, Repr

/-- ARTICLE, HEAD, BODY and STAT. -/
inductive What where
  | article
  | head
  | body
  | stat
deriving DecidableEq, Repr

def What.ReplyCode : What → ℕ
  | .article => 220
  | .head => 221
  | .body => 222
  | .stat => 223

/-- What the spool says: the article can be opened, it has a Message-ID, and it may be read. -/
structure Opened where
  opens : Bool
  msgid : Bool
  artok : Bool
deriving DecidableEq, Repr

/-- The current article number is outside the marks. -/
def Client.outOfRange (s : Client) : Prop :=
  s.ARTnumber.value < s.ARTlow.value ∨ s.ARThigh.value < s.ARTnumber.value

instance (s : Client) : Decidable s.outOfRange := inferInstanceAs (Decidable (_ ∨ _))

/-- ARTICLE and the like, for an article number. -/
def fetchNumber (s : Client) (what : What) (given : Bool) (tart : ℕ) (opened : Opened) :
    Client × Answer :=
  if !opened.opens || !opened.msgid then (s, { code := 423 })
  else
    (if given then { s with ARTnumber := ⟨tart, s.GRPcur⟩ } else s,
      { code := what.ReplyCode, served := s.GRPcur })

def CMDfetch (s : Client) (what : What) (which : Which) (opened : Opened) : Client × Answer :=
  let ok := s.perms.PERMcanread || (what = .head && s.perms.PERMcanpost)
  let mid : Bool := which = .mid
  if which = .invalid then (s, { code := 501 })
  else if s.GRPcount = 0 ∧ mid = false then (s, { code := 412 })
  else if !ok || (!mid && s.PERMgroupmadeinvalid) then (s, { code := s.denied })
  else
    match which with
    | .current =>
      if s.outOfRange then (s, { code := 420 })
      else fetchNumber s what false s.ARTnumber.value opened
    | .number n => fetchNumber s what true n opened
    | _ =>
      if !opened.opens then (s, { code := 430 })
      else if !opened.artok then (s, { code := s.denied })
      else (s, { code := what.ReplyCode })

/-- A turn of the loop of NEXT and LAST: what a search finds when one is made, and what the
spool says about the article. -/
structure Try where
  search : Option (List ℕ)
  opens : Bool
  msgid : Bool
deriving DecidableEq, Repr

/-- The number that is looked at after `n`. -/
def Try.number (t : Try) (next : Bool) (n missing : ℕ) : ℕ :=
  if 50 < missing then
    match t.search with
    | none => 0
    | some rows => if next then rows.head?.getD 0 else rows.getLast?.getD 0
  else if next then (n + 1) % 2 ^ 64
  else (n + 2 ^ 64 - 1) % 2 ^ 64

/-- The number kept in the `int save`, put back. -/
def restored (number : Mark) : Mark :=
  let value := (toInt number.value % 2 ^ 64).toNat
  if value = number.value then number else ⟨value, none⟩

/-- The loop of CMDnextlast, from the number `n`. `none`: it needs more turns, or ends before
the last one. -/
def nextlast (next : Bool) (s : Client) : List Try → ℕ → ℕ → Option (Client × Answer)
  | [], _, _ => none
  | t :: ts, n, missing =>
    let n := t.number next n missing
    if n < s.ARTlow.value ∨ s.ARThigh.value < n then
      if ts = [] then
        some ({ s with ARTnumber := restored s.ARTnumber }, { code := if next then 421 else 422 })
      else none
    else if !t.opens then nextlast next s ts n (missing + 1)
    else if t.msgid then
      if ts = [] then
        some ({ s with ARTnumber := ⟨n, s.GRPcur⟩ }, { code := 223, served := s.GRPcur })
      else none
    else nextlast next s ts n 0

def CMDnextlast (s : Client) (next : Bool) (tries : List Try) : Option (Client × Answer) :=
  if s.GRPcount = 0 then some (s, { code := 412 })
  else if !s.perms.PERMcanread || s.PERMgroupmadeinvalid then some (s, { code := s.denied })
  else if s.outOfRange then some (s, { code := 420 })
  else nextlast next s tries s.ARTnumber.value 0

/-! ## OVER and HDR -/

/-- Which articles a command asks for; `mid` is one by Message-ID. -/
inductive Articles where
  | current
  | range
  | mid
  | invalid
deriving DecidableEq, Repr

/-- What the overview and the spool have: data of the articles, or none; `empty` is a search
of the overview that was opened and gave none. -/
inductive Found where
  | data
  | nothing
  | empty
deriving DecidableEq, Repr

/-- The data of the articles, if there are any. -/
def rows (s : Client) (ok nothing : ℕ) (found : Found) : Client × Answer :=
  if found = .data then (s, { code := ok, served := s.GRPcur }) else (s, { code := nothing })

def CMDover (s : Client) (xover : Bool) (articles : Articles) (found : Found) : Client × Answer :=
  if articles = .mid ∧ xover = false then (s, { code := 503 })
  else if articles = .mid ∨ articles = .invalid then (s, { code := 501 })
  else if s.GRPcount = 0 then (s, { code := 412 })
  else if !s.perms.PERMcanread || s.PERMgroupmadeinvalid then (s, { code := s.denied })
  else if articles = .current ∧ s.outOfRange then (s, { code := 420 })
  else rows s 224 (if xover then 224 else 423) found

/-- CMDpat; `header` is the code for a header that is refused, and `meta` says that it is
`:bytes` or `:lines`. -/
def CMDpat (s : Client) (hdr : Bool) (header : Option ℕ) («meta» : Bool) (articles : Articles)
    (opened : Opened) (found : Found) : Client × Answer :=
  let mid : Bool := articles = .mid
  let ok := if hdr then 225 else 221
  let nothing := if !hdr then 221 else if articles = .current ∧ found = .empty then 420 else 423
  match articles, header with
  | .invalid, _ => (s, { code := 501 })
  | _, some code => (s, { code := code })
  | _, none =>
    if s.GRPcount = 0 ∧ mid = false then (s, { code := 412 })
    else if !s.perms.PERMcanread || (!mid && s.PERMgroupmadeinvalid) then
      (s, { code := s.denied })
    else if mid then
      if hdr && «meta» then (s, { code := 503 })
      else if !opened.opens then (s, { code := 430 })
      else if !opened.artok then (s, { code := s.denied })
      else (s, { code := ok })
    else if articles = .current ∧ s.outOfRange then (s, { code := 420 })
    else rows s ok nothing found

/-! ## New permissions -/

/-- STARTTLS and AUTHINFO SASL leave the group. -/
def Client.leave (s : Client) : Client :=
  match s.GRPcur with
  | none => s
  | some _ => { s with GRPcur := none, GRPcount := 0, PERMgroupmadeinvalid := false }

/-- Whether the permissions let GROUP select a group. -/
def allowed (conf : Setup) (perms : Perms) (group : List UInt8) : Bool :=
  perms.PERMcanread && perms.PERMspecified &&
    PERMmatch conf.readers.uwildmat perms.PERMreadlist [group]

def makeGroupInvalid (conf : Setup) (s : Client) : Bool :=
  match s.GRPcur with
  | none => false
  | some group => !allowed conf s.perms group

/-- CMDstarttls; `init` says that TLS can be used. `none`: nnrpd exits. -/
def CMDstarttls (conf : Setup) (s : Client) (init : Bool) (answers : Answers) :
    Option (Client × Answer) :=
  match s.perms.identify conf.readers (.starttls answers) with
  | none => some (s, { code := 502 })
  | some perms =>
    if !init then some (s, { code := 580 })
    else
      match perms.PERMgetpermissions conf.readers with
      | .error _ => none
      | .ok perms =>
        some ({ s.leave with perms := perms, buffer := [], layer := s.layer + 1 }, { code := 382 })

/-- The code of AUTHINFO USER and AUTHINFO PASS when they are refused. -/
def refusal (s : Client) : ℕ := if !s.perms.PERMcanauthenticate then 502 else 483

/-- AUTHINFO USER. -/
def authUser (s : Client) (name : List UInt8) : Client × Answer :=
  if s.perms.authRefused then (s, { code := refusal s })
  else ({ s with perms := { s.perms with User := name.take 255 } }, { code := 381 })

/-- AUTHINFO PASS. -/
def authPass (conf : Setup) (s : Client) (answers : Answers) : Option (Client × Answer) :=
  match s.perms.identify conf.readers (.pass answers) with
  | none => some (s, { code := if s.perms.authRefused then refusal s else 482 })
  | some perms =>
    match perms.PERMgetpermissions conf.readers with
    | .error _ => none
    | .ok perms =>
      if perms.PERMneedauth then some ({ s with perms := perms }, { code := 481 })
      else
        let s := { s with perms := perms.authenticated }
        some ({ s with PERMgroupmadeinvalid := makeGroupInvalid conf s }, { code := 281 })

/-- How a SASL exchange ends: with a refusal, or with a user and a security strength. -/
inductive Exchange where
  | fails (code : ℕ)
  | ends (canon_user : List UInt8) (sasl_ssf : ℕ)
deriving DecidableEq, Repr

/-- The permissions after AUTHINFO SASL. -/
def saslPerms (conf : Setup) (perms : Perms) (canon_user : List UInt8) (sasl_ssf : ℕ)
    (answers : Answers) : Except End Perms :=
  let perms := if 1 < sasl_ssf then { perms with encryption_layer_on := true } else perms
  let perms := { perms.PERMgetaccess conf.readers answers with PERMuser := canon_user.take 255 }
  (perms.PERMgetpermissions conf.readers).map fun perms =>
    { perms with PERMneedauth := false, PERMauthorized := true, PERMcanauthenticate := false }

/-- The code of AUTHINFO SASL when it is refused before the exchange. -/
def saslRefused (conf : Setup) (s : Client) (plain : Bool) : Option ℕ :=
  if !conf.readers.HAVE_SASL then some 501
  else if !s.perms.PERMcanauthenticate then some 502
  else if !s.perms.PERMcanauthenticatewithoutSSL && !s.perms.encryption_layer_on && plain then
    some 483
  else none

/-- SASLauth; `plain` says that the mechanism needs an encryption layer, and `taken` how many
bytes the answers to the challenges have. -/
def SASLauth (conf : Setup) (s : Client) (plain : Bool) (taken : ℕ) (exchange : Exchange)
    (answers : Answers) : Option (Client × Answer) :=
  match saslRefused conf s plain with
  | some code => some (s, { code := code })
  | none =>
    let s := { s with buffer := s.buffer.drop taken }
    match exchange with
    | .fails code => some (s, { code := code })
    | .ends canon_user sasl_ssf =>
      match saslPerms conf s.perms canon_user sasl_ssf answers with
      | .error _ => none
      | .ok perms =>
        let t := if 1 < sasl_ssf ∧ s.GRPcur ≠ none then { s.leave with buffer := [] } else s
        some ({ t with perms := perms, layer := if 0 < sasl_ssf then s.layer + 1 else s.layer },
          { code := 281 })

/-! ## The session -/

/-- The commands. -/
inductive Command where
  | group (name : List UInt8) (asked : Asked)
  | listgroup (name : Option (List UInt8)) (range : Option Bool) (asked : Asked)
  | fetch (what : What) (which : Which) (opened : Opened)
  | nextlast (next : Bool) (tries : List Try)
  | overview (xover : Bool) (articles : Articles) (found : Found)
  | hdr (hdr : Bool) (header : Option ℕ) («meta» : Bool) (articles : Articles) (opened : Opened)
      (found : Found)
  | starttls (init : Bool) (answers : Answers)
  | user (name : List UInt8)
  | pass (answers : Answers)
  | sasl (plain : Bool) (taken : ℕ) (exchange : Exchange) (answers : Answers)

/-- The commands that are not for a client that has to authenticate. -/
def Command.Needauth : Command → Bool
  | .starttls _ _ => false
  | .user _ => false
  | .pass _ => false
  | .sasl _ _ _ _ => false
  | _ => true

/-- The function of a command. -/
def run (conf : Setup) (s : Client) : Command → Option (Client × Answer)
  | .group name asked => some (CMDgroup conf s false (some name) none asked)
  | .listgroup name range asked => some (CMDgroup conf s true name range asked)
  | .fetch what which opened => some (CMDfetch s what which opened)
  | .nextlast next tries => CMDnextlast s next tries
  | .overview xover articles found => some (CMDover s xover articles found)
  | .hdr hdr header «meta» articles opened found =>
    some (CMDpat s hdr header «meta» articles opened found)
  | .starttls init answers => CMDstarttls conf s init answers
  | .user name => some (authUser s name)
  | .pass answers => authPass conf s answers
  | .sasl plain taken exchange answers => SASLauth conf s plain taken exchange answers

/-- `NNTP_MAXARTNUM`: article numbers are not larger. -/
def maxArtnum : ℕ := 2147483647

/-- The overview does not give larger ones. -/
def Asked.Bounded (asked : Asked) : Prop :=
  (∀ stats ∈ asked.stats, stats.1 ≤ maxArtnum ∧ stats.2.1 ≤ maxArtnum) ∧
    ∀ rows ∈ asked.search, ∀ row ∈ rows, row.1 ≤ maxArtnum

instance (asked : Asked) : Decidable asked.Bounded := inferInstanceAs (Decidable (_ ∧ _))

def Command.Bounded : Command → Prop
  | .group _ asked => asked.Bounded
  | .listgroup _ _ asked => asked.Bounded
  | _ => True

instance (command : Command) : Decidable command.Bounded := by
  cases command <;> unfold Command.Bounded <;> infer_instance

/-- Bytes arrive, or a line of `size` bytes is taken as a command. -/
inductive Event where
  | receive (bytes : List UInt8)
  | command (size : ℕ) (command : Command)

/-- A step of the session. `none`: it is not possible, or nnrpd exits. -/
def step (conf : Setup) (s : Client) : Event → Option (Client × Option Answer)
  | .receive bytes =>
    some ({ s with buffer := s.buffer ++ bytes.map fun byte => (s.layer, byte) }, none)
  | .command size command =>
    if size = 0 ∨ s.buffer.length < size ∨ ¬ command.Bounded then none
    else
      let s := { s with buffer := s.buffer.drop size }
      if command.Needauth && s.perms.PERMneedauth then some (s, some { code := 480 })
      else (run conf s command).map fun r => (r.1, some r.2)

/-- The session of a client that has just connected, with these permissions. -/
def start (perms : Perms) : Client where
  perms := perms
  buffer := []
  layer := 0
  GRPcur := none
  GRPcount := 0
  ARTlow := ⟨0, none⟩
  ARThigh := ⟨0, none⟩
  ARTnumber := ⟨0, none⟩
  PERMgroupmadeinvalid := false

/-- The session as a system. -/
def Next (conf : Setup) (s : Client) (event : Event) (s' : Client) : Prop :=
  ∃ answer, step conf s event = some (s', answer)

end Inn.Nnrpd.Current
