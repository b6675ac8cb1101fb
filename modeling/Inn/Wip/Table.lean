import Inn.Base
import Mathlib.Logic.Function.Basic
import Mathlib.Data.List.FinRange

/-!
# Inn.Wip.Table — articles in progress

The table of the articles that were offered and have not arrived: an entry belongs
to a channel, which keeps it in a ring of precommit slots (CHECK) or as its current
article (IHAVE, TAKETHIS).

A pointer is an address. A function returns nothing where it would touch an entry
that is not allocated, or the channel of an entry when that channel is closed.
-/

namespace Inn.Wip

/-- `WIPTABLESIZE`. -/
def WIPTABLESIZE : ℕ := 1024

/-- `WIP_ARTMAX`. -/
def WIP_ARTMAX : ℤ := 300

/-- `PRECOMMITCACHESIZE`. -/
def PRECOMMITCACHESIZE : ℕ := 128

/-- `WIP`; the rest of its bucket is in the table. -/
structure WIP where
  MessageID : HASH
  Timestamp : ℤ
  Chan : ℕ

/-- `CHANNEL_STATE`, where `CSgetarticle` is any state between the start and the end of
an article. -/
inductive CHANNEL_STATE where
  | CSerror
  | CSwritegoodbye
  | CSgetcmd
  | CSgetarticle
  | CSeatcommand
  | CSgetxbatch
  | CScancel
deriving DecidableEq

/-- The part of `CHANNEL` about articles in progress; a channel that is not open has
type `CTfree`. -/
structure CHANNEL where
  Open : Bool
  State : CHANNEL_STATE
  ArtBeg : ℤ
  ArtMax : ℤ
  CurrentMessageIDHash : HASH
  PrecommitWIP : Fin PRECOMMITCACHESIZE → Option ℕ
  PrecommitiCachenext : ℕ

/-- `CHANnull`. -/
def CHANnull : CHANNEL :=
  { Open := false, State := .CSerror, ArtBeg := 0, ArtMax := 0, CurrentMessageIDHash := HASH.clear
    PrecommitWIP := fun _ => none, PrecommitiCachenext := 0 }

/-- The clock, the entries by address, the buckets and the channels. -/
structure System where
  Now : ℤ
  memory : ℕ → Option WIP
  WIPtable : ℕ → List ℕ
  channels : ℕ → CHANNEL

/-- The hash of a message-ID, and two times of inn.conf. -/
structure Config where
  Hash : List UInt8 → HASH
  wipcheck : ℤ
  wipexpire : ℤ

namespace System

variable (s : System)

def setChannel (cp : ℕ) (c : CHANNEL) : System :=
  { s with channels := Function.update s.channels cp c }

@[simp] theorem setChannel_memory (cp : ℕ) (c : CHANNEL) :
    (s.setChannel cp c).memory = s.memory := rfl

@[simp] theorem setChannel_WIPtable (cp : ℕ) (c : CHANNEL) :
    (s.setChannel cp c).WIPtable = s.WIPtable := rfl

@[simp] theorem setChannel_self (cp : ℕ) (c : CHANNEL) : (s.setChannel cp c).channels cp = c :=
  Function.update_self ..

theorem setChannel_ne {cp cp' : ℕ} (h : cp' ≠ cp) (c : CHANNEL) :
    (s.setChannel cp c).channels cp' = s.channels cp' :=
  Function.update_of_ne h ..

@[simp] theorem setChannel_setChannel (cp : ℕ) (c c' : CHANNEL) :
    (s.setChannel cp c).setChannel cp c' = s.setChannel cp c' := by
  simp [setChannel]

/-- The channel of an entry, when it is open. -/
def owner (w : WIP) : Option CHANNEL :=
  if (s.channels w.Chan).Open then some (s.channels w.Chan) else none

end System

/-- `WIPsetup`, before any channel is open. -/
def WIPsetup (Now : ℤ) : System :=
  { Now, memory := fun _ => none, WIPtable := fun _ => [], channels := fun _ => CHANnull }

/-! ## The table -/

/-- The bucket of a hash. -/
def bucket (hash : HASH) : ℕ :=
  (hash.toList.take 8).foldr (fun c n => c.toNat + 256 * n) 0 % WIPTABLESIZE

/-- The loop of `WIPbyhash`. -/
def WIPsearch (s : System) (hash : HASH) : List ℕ → Option (Option ℕ)
  | [] => some none
  | wp :: rest => do
    let w ← s.memory wp
    if w.MessageID = hash then some (some wp) else WIPsearch s hash rest

/-- `WIPbyhash`. -/
def WIPbyhash (s : System) (hash : HASH) : Option (Option ℕ) :=
  WIPsearch s hash (s.WIPtable (bucket hash))

/-- `WIPnew`, in memory at `new`. -/
def WIPnew (s : System) (hash : HASH) (cp new : ℕ) : System :=
  { s with
    memory := Function.update s.memory new
      (some { MessageID := hash, Timestamp := s.Now, Chan := cp })
    WIPtable := Function.update s.WIPtable (bucket hash) (new :: s.WIPtable (bucket hash)) }

/-- The first slot with an entry is cleared. -/
def clearSlot (c : CHANNEL) (wp : ℕ) : CHANNEL :=
  match (List.finRange PRECOMMITCACHESIZE).find? (c.PrecommitWIP · = some wp) with
  | some i => { c with PrecommitWIP := Function.update c.PrecommitWIP i none }
  | none => c

/-- The loop of `WIPfree`: the bucket without the entry, if it is there. -/
def unlink (s : System) (wp : ℕ) : List ℕ → Option (Option (List ℕ))
  | [] => some none
  | cur :: rest =>
    if cur = wp then some (some rest)
    else do
      let _ ← s.memory cur
      let rest ← unlink s wp rest
      some (rest.map (cur :: ·))

/-- `WIPfree`. -/
def WIPfree (s : System) : Option ℕ → Option System
  | none => some s
  | some wp => do
    let w ← s.memory wp
    let c ← s.owner w
    let s := s.setChannel w.Chan (clearSlot c wp)
    match ← unlink s wp (s.WIPtable (bucket w.MessageID)) with
    | none => some s
    | some rest =>
      some { s with
        memory := Function.update s.memory wp none
        WIPtable := Function.update s.WIPtable (bucket w.MessageID) rest }

/-- `WIPprecomfree`. -/
def WIPprecomfree (s : System) (cp : ℕ) : Option System :=
  (List.finRange PRECOMMITCACHESIZE).foldlM
    (fun s i => WIPfree s ((s.channels cp).PrecommitWIP i)) s

/-- The new entry is put in the next slot of the ring, whose entry is freed. -/
def putPrecommit (s : System) (cp new : ℕ) : Option System :=
  let next := if (s.channels cp).PrecommitiCachenext = PRECOMMITCACHESIZE then 0
    else (s.channels cp).PrecommitiCachenext
  if h : next < PRECOMMITCACHESIZE then do
    let s ← WIPfree s ((s.channels cp).PrecommitWIP ⟨next, h⟩)
    let c := s.channels cp
    some (s.setChannel cp { c with
      PrecommitWIP := Function.update c.PrecommitWIP ⟨next, h⟩ (some new)
      PrecommitiCachenext := next + 1 })
  else none

/-- The new entry becomes that of the current article, in place of the one before. -/
def putCurrent (s : System) (cp new : ℕ) : Option System := do
  let s ← WIPfree s (← WIPbyhash s (s.channels cp).CurrentMessageIDHash)
  let w ← s.memory new
  some (s.setChannel cp { s.channels cp with CurrentMessageIDHash := w.MessageID })

/-- `WIPinprogress` for a hash, with memory at `new` for a new entry. -/
def WIPinprogress (conf : Config) (hash : HASH) (cp : ℕ) (Precommit : Bool) (new : ℕ) :
    ℕ → System → Option (Bool × System)
  | 0, _ => none
  | fuel + 1, s => do
    match ← WIPbyhash s hash with
    | some wp =>
      let w ← s.memory wp
      let c ← s.owner w
      let i := if c.ArtBeg = 0 then 0
        else if c.ArtMax < 0 ∨ WIP_ARTMAX < c.ArtMax then WIP_ARTMAX else c.ArtMax
      if s.Now - w.Timestamp < i + conf.wipcheck then some (true, s)
      else if s.Now - w.Timestamp > i + conf.wipexpire then
        let s ← WIPfree (s.setChannel w.Chan (clearSlot c wp)) (some wp)
        let (_, s) ← WIPinprogress conf hash cp Precommit new fuel s
        some (false, s)
      else some (decide (w.Chan = cp), s)
    | none =>
      let s := WIPnew s hash cp new
      let s ← if Precommit then putPrecommit s cp new else putCurrent s cp new
      some (false, s)

/-! ## Channels -/

/-- `NCclearwip`. -/
def NCclearwip (s : System) (cp : ℕ) : Option System := do
  let s ← WIPfree s (← WIPbyhash s (s.channels cp).CurrentMessageIDHash)
  some (s.setChannel cp { s.channels cp with CurrentMessageIDHash := HASH.clear, ArtBeg := 0 })

/-- `CHANclose` of an NNTP channel. -/
def CHANclose (s : System) (cp : ℕ) : Option System := do
  let s ← WIPprecomfree s cp
  let s ← NCclearwip s cp
  some (s.setChannel cp { s.channels cp with Open := false, State := .CSerror })

/-- `NCcreate`. -/
def NCcreate (s : System) (cp : ℕ) : Option System :=
  NCclearwip (s.setChannel cp { CHANnull with Open := true, State := .CSgetcmd }) cp

/-- The calls one `WIPinprogress` can come to. -/
def calls (s : System) (hash : HASH) : ℕ := (s.WIPtable (bucket hash)).length + 1

/-- `NCcheck`, when the history does not have the article. -/
def NCcheck (conf : Config) (s : System) (cp : ℕ) (mid : List UInt8) (new : ℕ) : Option System :=
  (WIPinprogress conf (conf.Hash mid) cp true new (calls s (conf.Hash mid)) s).map (·.2)

/-- `NCihave`, when the history does not have the article. -/
def NCihave (conf : Config) (s : System) (cp : ℕ) (mid : List UInt8) (new : ℕ) :
    Option System := do
  let (busy, s) ← WIPinprogress conf (conf.Hash mid) cp false new (calls s (conf.Hash mid)) s
  if busy then some s
  else some (s.setChannel cp { s.channels cp with ArtBeg := s.Now, State := .CSgetarticle })

/-- `NCtakethis`. -/
def NCtakethis (conf : Config) (s : System) (cp : ℕ) (mid : List UInt8) (new : ℕ) :
    Option System := do
  let s := s.setChannel cp { s.channels cp with ArtBeg := s.Now, State := .CSgetarticle }
  let (wp, s) := match ← WIPbyhash s (conf.Hash mid) with
    | some wp => (wp, s)
    | none => (new, WIPnew s (conf.Hash mid) cp new)
  let w ← s.memory wp
  some (s.setChannel cp { s.channels cp with CurrentMessageIDHash := w.MessageID })

/-- The end of `ARTpost` for an article that is stored. -/
def ARTstored (s : System) (cp : ℕ) : System :=
  let c := s.channels cp
  s.setChannel cp { c with ArtMax := max c.ArtMax (s.Now - c.ArtBeg), ArtBeg := 0 }

end Inn.Wip
