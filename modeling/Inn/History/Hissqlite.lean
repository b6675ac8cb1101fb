import Inn.Keyset
import Mathlib.Data.List.Lex
import Mathlib.Data.Nat.Basic
import Inn.History.Expire

/-!
# Inn.History.Hissqlite — expiring the history in place

`hissqlite` keeps the history in a table of SQLite, one row for each message-ID.
`hissqlite_expire` reads the rows with a token in pages, asks the callback about each row,
and then changes the rows the callback decided on, one statement each; at the end it deletes
remembered rows. Another process writes to the same table between any two statements.

* `Event`, `step` — the statements of both processes, each executed as a whole;
* `Stands` — what may have become of a row the other process stored;
* `Finished` — what an expiry leaves that had the table for itself, `Remains`
  for the rule of `hisv6_expirecb` it is compared with.
-/

namespace Inn.History.Hissqlite

open Inn.History.Expire (Article Params discriminate Passes)

/-! ## The table -/

/-- `HISSQLITE_EXPIRE_BATCH`. -/
def HISSQLITE_EXPIRE_BATCH : ℕ := 10000

/-- The limit of `.expire_remembered`. -/
def REMEMBERED_LIMIT : ℕ := 10000

/-- The bytes of a hash; SQLite compares them one by one. -/
def blob (hash : HASH) : List ℕ := hash.toList.map UInt8.toNat

/-- `hist`. -/
abbrev Hist : Type := Keyset.Table fun e : Article => blob e.hash

/-- `.write` and `.remember`: insert a row, on conflict do nothing. -/
def insertNew (hist : Hist) (e : Article) : Hist :=
  if (hist.find (blob e.hash)).isSome then hist else hist.put e

/-- `.replace`. -/
def replace (hist : Hist) (e : Article) : Hist := hist.put e

/-- `.transition_remember`. -/
def transitionRemember (hist : Hist) (hash : HASH) : Hist :=
  hist.change (blob hash) (fun e => { e with token := none, expires := 0 }) fun _ => rfl

/-- `.update_token`. -/
def updateToken (hist : Hist) (hash : HASH) (token : TOKEN) (expires : Time) : Hist :=
  hist.change (blob hash) (fun e => { e with token := some token, expires := expires }) fun _ => rfl

/-- The rows of `.expire_scan`. -/
def hasToken (e : Article) : Bool := e.token.isSome

/-- The condition of `.expire_remembered`. -/
def Forgettable (threshold : Time) (e : Article) : Prop :=
  e.token = none ∧ (if 0 < e.posted then e.posted else e.arrived) < threshold

instance (threshold : Time) (e : Article) : Decidable (Forgettable threshold e) :=
  inferInstanceAs (Decidable (_ ∧ _))

/-- `.expire_remembered`, with the rows SQLite picks. -/
def expireRemembered (threshold : Time) (hist : Hist) (picked : List HASH) : Option Hist :=
  let old := (hist.rows.filter fun e => Forgettable threshold e).map (·.hash)
  if picked.Nodup ∧ picked ⊆ old ∧ picked.length = min old.length REMEMBERED_LIMIT then
    some (hist.delete fun e => picked.contains e.hash)
  else none

/-! ## The expiry -/

/-- A row `decide` was asked about, and its answer. -/
structure Asked where
  row : Article
  keep : Bool
  token : TOKEN
deriving DecidableEq

/-- `struct expire_action`. -/
structure Action where
  hash : HASH
  token : TOKEN
  expires : Time
  transition : Bool
deriving DecidableEq

/-- What is to be done for a row. -/
def Asked.action (q : Asked) : Option Action :=
  if q.keep && some q.token == q.row.token then none
  else some ⟨q.row.hash, q.token, if q.keep then q.row.expires else 0, !q.keep⟩

/-- An action is applied. -/
def Action.apply (act : Action) (hist : Hist) : Hist :=
  if act.transition then transitionRemember hist act.hash
  else updateToken hist act.hash act.token act.expires

/-- What `hissqlite_expire` is called with. -/
structure Call where
  writing : Bool
  threshold : Time

/-- Where `hissqlite_expire` is: before the scan of a page, with actions to apply, before a
step of the second pass, or at its end. -/
inductive Phase where
  | scan
  | apply
  | remembered
  | returned (ok : Bool)
deriving DecidableEq

/-- The table, the variables of `hissqlite_expire`, and what has happened: the rows `decide`
was asked about, and the rows the other process stored (the last one for each hash). -/
structure Expiry where
  hist : Hist
  phase : Phase
  last : Option (List ℕ)
  more : Bool
  acts : List Action
  asked : List Asked
  stored : List Article

/-- The beginning. -/
def start (hist : Hist) : Expiry := ⟨hist, .scan, none, true, [], [], []⟩

section Step

variable (c : Call)

/-- After the actions of a page. -/
def settle (s : Expiry) : Expiry :=
  if s.acts ≠ [] then { s with phase := .apply }
  else { s with
    phase := if s.more then .scan else if c.writing then .remembered else .returned true }

/-- The page that is read next. -/
def nextPage (s : Expiry) : List Article := s.hist.page hasToken s.last HISSQLITE_EXPIRE_BATCH

/-- The rows of the page, with the answers. -/
def askAll (s : Expiry) (answers : List (Bool × TOKEN)) : List Asked :=
  List.zipWith (fun row answer => ⟨row, answer.1, answer.2⟩) (nextPage s) answers

/-- A page is read, and `decide` is asked about its rows. -/
def scan (s : Expiry) (answers : List (Bool × TOKEN)) : Option Expiry :=
  if s.phase ≠ .scan ∨ answers.length ≠ (nextPage s).length then none
  else
    let more := decide (¬ (nextPage s).length < HISSQLITE_EXPIRE_BATCH)
    some (settle c { s with
      asked := s.asked ++ askAll s answers
      -- without `writing` the actions are not applied
      acts := if c.writing then (askAll s answers).filterMap Asked.action else []
      more := more
      last := if more then Keyset.Table.lastKey (fun e : Article => blob e.hash) s.last (nextPage s) else s.last })

/-- The other process has stored a row. -/
def store (s : Expiry) (hist : Hist) (e : Article) : Expiry :=
  { s with hist := hist, stored := e :: s.stored.filter fun e' => e'.hash ≠ e.hash }

/-- `HISwrite` and `HISremember` of the other process. -/
def storeNew (s : Expiry) (e : Article) : Expiry :=
  if (s.hist.find (blob e.hash)).isSome then { s with hist := insertNew s.hist e }
  else store s (insertNew s.hist e) e

/-- The statements of `hissqlite_expire`, with what `decide` answers, what SQLite picks and
which statement fails, and those of the other process. -/
inductive Event where
  | scan (answers : List (Bool × TOKEN))
  | scanFails (answers : List (Bool × TOKEN))
  | apply
  | applyFails
  | remembered (picked : List HASH)
  | rememberedFails
  | write (hash : HASH) (arrived posted expires : Time) (token : TOKEN)
  | remember (hash : HASH) (arrived posted : Time)
  | replace (e : Article)

/-- A statement of `hissqlite_expire`. -/
def Event.Own : Event → Prop
  | .write .. => False
  | .remember .. => False
  | .replace _ => False
  | _ => True

/-- One statement. -/
def step (s : Expiry) : Event → Option Expiry
  | .scan answers => scan c s answers
  | .scanFails answers =>
    if s.phase ≠ .scan ∨ (nextPage s).length < answers.length then none
    else some { s with asked := s.asked ++ askAll s answers, phase := .returned false }
  | .apply =>
    if s.phase ≠ .apply then none
    else
      match s.acts with
      | [] => none
      | act :: acts => some (settle c { s with hist := act.apply s.hist, acts := acts })
  | .applyFails => if s.phase ≠ .apply then none else some { s with phase := .returned false }
  | .remembered picked =>
    if s.phase ≠ .remembered then none
    else
      (expireRemembered c.threshold s.hist picked).map fun hist =>
        { s with hist := hist, phase := if picked = [] then .returned true else .remembered }
  | .rememberedFails => if s.phase ≠ .remembered then none else some { s with phase := .returned false }
  | .write hash arrived posted expires token => some (storeNew s ⟨hash, arrived, posted, expires, some token⟩)
  | .remember hash arrived posted => some (storeNew s ⟨hash, arrived, posted, 0, none⟩)
  | .replace e => some (store s (replace s.hist e) e)

/-- The steps of the two processes. -/
def Next (s : Expiry) (event : Event) (s' : Expiry) : Prop := step c s event = some s'

end Step

/-! ## What the expiry should do -/

/-- What the callback made of the token. -/
def Asked.result (q : Asked) : Option TOKEN := if q.keep then some q.token else none

/-- What an action makes of the token. -/
def Action.result (act : Action) : Option TOKEN := if act.transition then none else some act.token

/-- The row with the decision of the callback, as `hisv6_expirecb` has it. -/
def Asked.decided (q : Asked) : Article :=
  { q.row with token := q.result, expires := if q.keep then q.row.expires else 0 }

/-- The threshold rule of `hisv6_expirecb`. -/
def Remains (threshold : Time) (e : Article) : Prop :=
  e.token ≠ none ∨ threshold ≤ e.posted ∨ (e.posted ≤ 0 ∧ threshold ≤ e.arrived)

instance (threshold : Time) (e : Article) : Decidable (Remains threshold e) :=
  inferInstanceAs (Decidable (_ ∨ _ ∨ _))

/-- An entry with the decision on it, if `decide` was asked about it. -/
def decidedBy (asked : List Asked) (e : Article) : Article :=
  ((asked.find? fun q => q.row.hash = e.hash).map Asked.decided).getD e

/-- What becomes of a token: it stays, or it is what `decide` made of that very token. -/
def Becomes (asked : List Asked) (e : Article) (token : Option TOKEN) : Prop :=
  token = e.token ∨ ∃ q ∈ asked, q.row.hash = e.hash ∧ q.row.token = e.token ∧ token = q.result

/-- A row the other process stored is there with its token or what `decide` made of it, or it
had no token left and the threshold rule removed it. -/
def Stands (c : Call) (s : Expiry) (e : Article) : Prop :=
  ∃ token, Becomes s.asked e token ∧
    ((∃ r, s.hist.find (blob e.hash) = some r ∧ r.token = token ∧ r.arrived = e.arrived ∧
        r.posted = e.posted) ∨
      s.hist.find (blob e.hash) = none ∧ ¬ Remains c.threshold { e with token := token })

/-- What an expiry of these rows has done that had the table for itself and succeeded. -/
structure Finished (c : Call) (hist : Hist) (s : Expiry) : Prop where
  /-- `decide` was asked once about each row with a token. -/
  asked : s.asked.map (·.row) = hist.rows.filter hasToken
  /-- The rows are those of the rule of `hisv6_expirecb`. -/
  rows : c.writing = true →
    s.hist.rows = (hist.rows.map (decidedBy s.asked)).filter fun e => Remains c.threshold e

/-- The history is expired in place as it should be. -/
structure InPlace (c : Call) (hist : Hist) (events : List Event) (s : Expiry) : Prop where
  stored : ∀ e ∈ s.stored, Stands c s e
  alone : (∀ event ∈ events, event.Own) → s.phase = .returned true → Finished c hist s
  dry : (∀ event ∈ events, event.Own) → c.writing = false → s.hist = hist
  /-- It ends. -/
  bound : (∀ event ∈ events, event.Own) → events.length ≤ 3 * hist.rows.length + 3
  goes_on : (∀ event ∈ events, event.Own) → (∀ ok, s.phase ≠ .returned ok) →
    ∃ event s', event.Own ∧ Next c s event s'

/-- The condition on a statement: the row an action is for has still the token `decide` was
asked about, or the action leaves its token as it is; and no remembered row without a posting
time arrived before a threshold that lies before the epoch. -/
def Meets (c : Call) (s : Expiry) : Event → Prop
  | .apply => ∀ act, s.acts.head? = some act → ∀ e, s.hist.find (blob act.hash) = some e →
      e.token = act.result ∨ ∃ q ∈ s.asked, q.row.hash = act.hash ∧ q.row.token = e.token
  | .remembered _ => ∀ e ∈ s.hist.rows, e.token = none → e.posted ≤ 0 → c.threshold ≤ e.posted →
      c.threshold ≤ e.arrived
  | _ => True

instance (c : Call) (s : Expiry) (event : Event) : Decidable (Meets c s event) := by
  cases event with
  | apply =>
    exact inferInstanceAs (Decidable (∀ act ∈ s.acts.head?, ∀ e ∈ s.hist.find (blob act.hash), _ ∨ _))
  | remembered picked => exact inferInstanceAs (Decidable (∀ e ∈ s.hist.rows, _ → _ → _ → _))
  | scan | scanFails | applyFails | rememberedFails | write | remember | replace =>
    exact inferInstanceAs (Decidable True)

/-! ## The rule of hisv6 -/

end Inn.History.Hissqlite
