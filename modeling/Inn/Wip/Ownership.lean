import Inn.Wip.Table
import Inn.Rules

/-!
# Inn.Wip.Ownership — who owns an entry

Over every run of commands, completions and closings on any number of channels, an
entry belongs to an open channel that can reach it, and every pointer to an entry is
kept by its owner:

* `Inv` — the invariant; `pending` is an entry that is not yet put anywhere;
* one lemma for each function of the table, and one for each command;
* `wip_owned` — the run.
-/

namespace Inn.Wip

/-- What happens on the channels; `new` is the memory a call may allocate. -/
inductive Event where
  | tick (now : ℤ)
  | create (cp : ℕ)
  | check (cp : ℕ) (mid : List UInt8) (new : ℕ)
  | ihave (cp : ℕ) (mid : List UInt8) (new : ℕ)
  | takethis (cp : ℕ) (mid : List UInt8) (new : ℕ)
  | command (cp : ℕ) (state : CHANNEL_STATE)
  | complete (cp : ℕ) (stored : Bool) (state : CHANNEL_STATE)
  | completeClosed (cp : ℕ)
  | close (cp : ℕ)

namespace Event

/-- Memory is free when it is allocated: it is now, or holds the entry that
`WIPinprogress` frees first. -/
def freeFor (s : System) (hash : HASH) (new : ℕ) : Prop :=
  ∀ w, s.memory new = some w → w.MessageID = hash

/-- The message-ID of an offer. -/
def mid : Event → Option (List UInt8)
  | check _ mid _ | ihave _ mid _ | takethis _ mid _ => some mid
  | _ => none

/-- The message-ID of an offer does not have the hash that stands for none. -/
def Hashed (conf : Config) (e : Event) : Prop := ∀ mid ∈ e.mid, conf.Hash mid ≠ HASH.clear

/-- When an event can happen. -/
def Enabled (conf : Config) (s : System) : Event → Prop
  | tick _ => True
  | create cp => (s.channels cp).Open = false
  | check cp mid new => (s.channels cp).Open ∧ (s.channels cp).State = .CSgetcmd ∧
      freeFor s (conf.Hash mid) new
  | ihave cp mid new => (s.channels cp).Open ∧ (s.channels cp).State = .CSgetcmd ∧
      freeFor s (conf.Hash mid) new
  | takethis cp mid new => (s.channels cp).Open ∧ (s.channels cp).State = .CSgetcmd ∧
      freeFor s (conf.Hash mid) new
  | command cp state => (s.channels cp).Open ∧ (s.channels cp).State ≠ .CSgetarticle ∧
      state ≠ .CSgetarticle
  | complete cp _ state => (s.channels cp).Open ∧ (s.channels cp).State = .CSgetarticle ∧
      state ≠ .CSgetarticle
  | completeClosed cp => (s.channels cp).Open ∧ (s.channels cp).State = .CSgetarticle
  | close cp => (s.channels cp).Open

/-- What an event does. -/
def step (conf : Config) (s : System) : Event → Option System
  | tick now => some { s with Now := now }
  | create cp => NCcreate s cp
  | check cp mid new => NCcheck conf s cp mid new
  | ihave cp mid new => NCihave conf s cp mid new
  | takethis cp mid new => NCtakethis conf s cp mid new
  | command cp state => some (s.setChannel cp { s.channels cp with State := state })
  | complete cp stored state => do
    let s ← NCclearwip (if stored then ARTstored s cp else s) cp
    some (s.setChannel cp { s.channels cp with State := state })
  -- the reply is written at once, which closes a channel that says goodbye
  | completeClosed cp => do
    let s ← NCclearwip (← CHANclose s cp) cp
    some (s.setChannel cp { s.channels cp with State := .CSgetcmd })
  | close cp => CHANclose s cp

/-- An event that happens. -/
def next (conf : Config) (s : System) (e : Event) (s' : System) : Prop :=
  e.Enabled conf s ∧ e.step conf s = some s'

end Event

/-- The table as it is meant to be. -/
structure Owned (s : System) : Prop where
  /-- an entry is in its bucket, once -/
  listed : ∀ b, (s.WIPtable b).Nodup ∧ ∀ wp ∈ s.WIPtable b,
    ∃ w, s.memory wp = some w ∧ bucket w.MessageID = b
  /-- there is one entry for a hash -/
  unique : ∀ wp wp' w w', s.memory wp = some w → s.memory wp' = some w' →
    w.MessageID = w'.MessageID → wp = wp'
  /-- a slot has an entry of its channel -/
  slot : ∀ cp i wp, (s.channels cp).PrecommitWIP i = some wp →
    ∃ w, s.memory wp = some w ∧ wp ∈ s.WIPtable (bucket w.MessageID) ∧ w.Chan = cp
  /-- which is in no other slot -/
  slot_once : ∀ cp i j wp, (s.channels cp).PrecommitWIP i = some wp →
    (s.channels cp).PrecommitWIP j = some wp → i = j
  /-- the channel of an entry is open -/
  chan_open : ∀ wp w, s.memory wp = some w → (s.channels w.Chan).Open
  /-- and has the entry in a slot or as its current article -/
  reachable : ∀ wp w, s.memory wp = some w →
    (∃ i, (s.channels w.Chan).PrecommitWIP i = some wp) ∨
      (s.channels w.Chan).CurrentMessageIDHash = w.MessageID
  /-- allocated entries are in the table -/
  allocated : ∀ wp w, s.memory wp = some w → wp ∈ s.WIPtable (bucket w.MessageID)

/-- The invariant: `Owned`, but that `pending` may not be reachable yet, and what the
state of a channel says about its current article. -/
structure Inv (pending : Option ℕ) (s : System) : Prop where
  listed : ∀ b, (s.WIPtable b).Nodup ∧ ∀ wp ∈ s.WIPtable b,
    ∃ w, s.memory wp = some w ∧ bucket w.MessageID = b
  unique : ∀ wp wp' w w', s.memory wp = some w → s.memory wp' = some w' →
    w.MessageID = w'.MessageID → wp = wp'
  slot : ∀ cp i wp, (s.channels cp).PrecommitWIP i = some wp →
    ∃ w, s.memory wp = some w ∧ w.Chan = cp
  slot_once : ∀ cp i j wp, (s.channels cp).PrecommitWIP i = some wp →
    (s.channels cp).PrecommitWIP j = some wp → i = j
  chan_open : ∀ wp w, s.memory wp = some w → (s.channels w.Chan).Open
  reachable : ∀ wp w, s.memory wp = some w → some wp ≠ pending →
    (∃ i, (s.channels w.Chan).PrecommitWIP i = some wp) ∨
      (s.channels w.Chan).CurrentMessageIDHash = w.MessageID
  allocated : ∀ wp w, s.memory wp = some w → wp ∈ s.WIPtable (bucket w.MessageID)
  nonzero : ∀ wp w, s.memory wp = some w → w.MessageID ≠ HASH.clear
  idle : ∀ cp, (s.channels cp).State ≠ .CSgetarticle →
    (s.channels cp).CurrentMessageIDHash = HASH.clear
  ring : ∀ cp, (s.channels cp).PrecommitiCachenext ≤ PRECOMMITCACHESIZE

theorem Inv.owned {s : System} (h : Inv none s) : Owned s where
  listed := h.listed
  unique := h.unique
  slot cp i wp hslot := by
    obtain ⟨w, hw, hchan⟩ := h.slot cp i wp hslot
    exact ⟨w, hw, h.allocated wp w hw, hchan⟩
  slot_once := h.slot_once
  chan_open := h.chan_open
  reachable wp w hw := h.reachable wp w hw (by simp)
  allocated := h.allocated

theorem setup_inv (now : ℤ) : Inv none (WIPsetup now) where
  listed b := ⟨List.nodup_nil, by simp [WIPsetup]⟩
  unique wp wp' w w' h := by simp [WIPsetup] at h
  slot cp i wp h := by simp [WIPsetup, CHANnull] at h
  slot_once cp i j wp h := by simp [WIPsetup, CHANnull] at h
  chan_open wp w h := by simp [WIPsetup] at h
  reachable wp w h := by simp [WIPsetup] at h
  allocated wp w h := by simp [WIPsetup] at h
  nonzero wp w h := by simp [WIPsetup] at h
  idle cp _ := rfl
  ring cp := Nat.zero_le _

variable {s s' : System} {pending : Option ℕ} {wp cp new : ℕ} {w : WIP} {hash : HASH}
  {conf : Config}

/-! ## Looking up -/

/-- The entry of a hash is found, or there is none. -/
theorem Inv.search (h : Inv pending s) {b : ℕ} {l : List ℕ} (hl : ∀ wp ∈ l, wp ∈ s.WIPtable b)
    (hash : HASH) :
    (∃ wp w, WIPsearch s hash l = some (some wp) ∧ s.memory wp = some w ∧ w.MessageID = hash) ∨
      WIPsearch s hash l = some none ∧ ∀ wp ∈ l, ∀ w, s.memory wp = some w → w.MessageID ≠ hash := by
  induction l with
  | nil => exact .inr ⟨rfl, by simp⟩
  | cons cur rest ih =>
    obtain ⟨w, hw, -⟩ := (h.listed b).2 cur (hl cur List.mem_cons_self)
    by_cases heq : w.MessageID = hash
    · exact .inl ⟨cur, w, by simp [WIPsearch, hw, heq], hw, heq⟩
    · have hstep : WIPsearch s hash (cur :: rest) = WIPsearch s hash rest := by
        simp [WIPsearch, hw, heq]
      rcases ih fun wp hwp => hl wp (List.mem_cons_of_mem _ hwp) with hfound | ⟨hnone, hrest⟩
      · exact .inl (hstep ▸ hfound)
      · refine .inr ⟨hstep.trans hnone, List.forall_mem_cons.mpr ⟨fun w' hw' => ?_, hrest⟩⟩
        cases hw.symm.trans hw'
        exact heq

theorem Inv.byhash (h : Inv pending s) (hash : HASH) :
    (∃ wp w, WIPbyhash s hash = some (some wp) ∧ s.memory wp = some w ∧ w.MessageID = hash) ∨
      WIPbyhash s hash = some none ∧ ∀ wp w, s.memory wp = some w → w.MessageID ≠ hash := by
  rcases h.search (fun wp hwp => hwp) hash with hfound | ⟨hnone, hrest⟩
  · exact .inl hfound
  · refine .inr ⟨hnone, fun wp w hw heq => hrest wp ?_ w hw heq⟩
    exact heq ▸ h.allocated wp w hw

theorem Inv.byhash_clear (h : Inv pending s) : WIPbyhash s HASH.clear = some none := by
  rcases h.byhash HASH.clear with ⟨wp, w, -, hw, heq⟩ | ⟨hnone, -⟩
  · exact absurd heq (h.nonzero wp w hw)
  · exact hnone

/-! ## Freeing -/

/-- The slot of an entry is cleared, if it has one. -/
theorem clearSlot_slots (c : CHANNEL) (wp : ℕ) (hone : ∀ i j, c.PrecommitWIP i = some wp →
      c.PrecommitWIP j = some wp → i = j) (i : Fin PRECOMMITCACHESIZE) :
    (clearSlot c wp).PrecommitWIP i = if c.PrecommitWIP i = some wp then none
      else c.PrecommitWIP i := by
  rw [clearSlot]
  split
  · rename_i j hj
    have hwp : c.PrecommitWIP j = some wp := by simpa using List.find?_some hj
    dsimp only
    by_cases hij : i = j
    · subst hij
      rw [Function.update_self, if_pos hwp]
    · rw [Function.update_of_ne hij, if_neg fun hi => hij (hone i j hi hwp)]
  · rename_i hnone
    rw [if_neg]
    simpa using List.find?_eq_none.mp hnone i (List.mem_finRange i)

/-- Nothing else of the channel changes. -/
theorem clearSlot_rest (c : CHANNEL) (wp : ℕ) : (clearSlot c wp).Open = c.Open ∧
    (clearSlot c wp).State = c.State ∧ (clearSlot c wp).ArtBeg = c.ArtBeg ∧
    (clearSlot c wp).ArtMax = c.ArtMax ∧
    (clearSlot c wp).CurrentMessageIDHash = c.CurrentMessageIDHash ∧
    (clearSlot c wp).PrecommitiCachenext = c.PrecommitiCachenext := by
  rw [clearSlot]
  split <;> exact ⟨rfl, rfl, rfl, rfl, rfl, rfl⟩

/-- An entry of a bucket is taken out of it. -/
theorem unlink_eq {l : List ℕ} (hl : ∀ wp ∈ l, (s.memory wp).isSome) (hwp : wp ∈ l)
    (hnodup : l.Nodup) : unlink s wp l = some (some (l.erase wp)) := by
  induction l with
  | nil => cases hwp
  | cons cur rest ih =>
    rw [unlink]
    split
    · rename_i heq
      rw [heq, List.erase_cons_head]
    · rename_i hne
      obtain ⟨w, hw⟩ := Option.isSome_iff_exists.mp (hl cur List.mem_cons_self)
      have hrest := ih (fun p hp => hl p (List.mem_cons_of_mem _ hp))
        ((List.mem_cons.mp hwp).resolve_left (Ne.symm hne)) (List.nodup_cons.mp hnodup).2
      have hbeq : ¬ (cur == wp) = true := by simpa using hne
      simp [hw, hrest, List.erase_cons_tail hbeq]

/-- What is left when an entry is freed. -/
structure Freed (s : System) (wp : ℕ) (s' : System) : Prop where
  Now : s'.Now = s.Now
  memory : s'.memory = Function.update s.memory wp none
  WIPtable : ∀ b, s'.WIPtable b = (s.WIPtable b).erase wp
  PrecommitWIP : ∀ cp i, (s'.channels cp).PrecommitWIP i =
    if (s.channels cp).PrecommitWIP i = some wp then none else (s.channels cp).PrecommitWIP i
  Open : ∀ cp, (s'.channels cp).Open = (s.channels cp).Open
  State : ∀ cp, (s'.channels cp).State = (s.channels cp).State
  Current : ∀ cp, (s'.channels cp).CurrentMessageIDHash = (s.channels cp).CurrentMessageIDHash
  next : ∀ cp, (s'.channels cp).PrecommitiCachenext = (s.channels cp).PrecommitiCachenext

namespace Freed

variable (hfreed : Freed s wp s')

include hfreed

theorem memory_eq {p : ℕ} (hp : s'.memory p = some w) : s.memory p = some w ∧ p ≠ wp := by
  rw [hfreed.memory, Function.update_apply] at hp
  split at hp
  · cases hp
  · rename_i hne
    exact ⟨hp, hne⟩

theorem slot_eq {i : Fin PRECOMMITCACHESIZE} {p : ℕ}
    (hp : (s'.channels cp).PrecommitWIP i = some p) :
    (s.channels cp).PrecommitWIP i = some p ∧ p ≠ wp := by
  rw [hfreed.PrecommitWIP] at hp
  split at hp
  · cases hp
  · rename_i hne
    exact ⟨hp, fun heq => hne (heq ▸ hp)⟩

/-- The invariant is about the other entries as before. -/
theorem inv (h : Inv pending s) : Inv pending s' where
  listed b := by
    rw [hfreed.WIPtable]
    refine ⟨(h.listed b).1.erase wp, fun p hp => ?_⟩
    obtain ⟨hne, hp⟩ := (h.listed b).1.mem_erase_iff.mp hp
    obtain ⟨w, hw, hb⟩ := (h.listed b).2 p hp
    exact ⟨w, by rw [hfreed.memory, Function.update_of_ne hne]; exact hw, hb⟩
  unique p p' w w' hp hp' heq :=
    h.unique p p' w w' (hfreed.memory_eq hp).1 (hfreed.memory_eq hp').1 heq
  slot cp i p hslot := by
    obtain ⟨hslot, hne⟩ := hfreed.slot_eq hslot
    obtain ⟨w, hw, hchan⟩ := h.slot cp i p hslot
    exact ⟨w, by rw [hfreed.memory, Function.update_of_ne hne]; exact hw, hchan⟩
  slot_once cp i j p hi hj :=
    h.slot_once cp i j p (hfreed.slot_eq hi).1 (hfreed.slot_eq hj).1
  chan_open p w hp := by
    rw [hfreed.Open]
    exact h.chan_open p w (hfreed.memory_eq hp).1
  reachable p w hp hpend := by
    obtain ⟨hp, hne⟩ := hfreed.memory_eq hp
    rw [hfreed.Current]
    refine (h.reachable p w hp hpend).imp_left ?_
    rintro ⟨i, hi⟩
    refine ⟨i, ?_⟩
    rw [hfreed.PrecommitWIP, if_neg, hi]
    rw [hi]
    exact fun heq => hne (Option.some.inj heq)
  allocated p w hp := by
    obtain ⟨hp, hne⟩ := hfreed.memory_eq hp
    rw [hfreed.WIPtable]
    exact (List.mem_erase_of_ne hne).mpr (h.allocated p w hp)
  nonzero p w hp := h.nonzero p w (hfreed.memory_eq hp).1
  idle cp hstate := by
    rw [hfreed.Current]
    exact h.idle cp (hfreed.State cp ▸ hstate)
  ring cp := by
    rw [hfreed.next]
    exact h.ring cp

end Freed

/-- `WIPfree` of an entry of the table. -/
theorem Inv.free (h : Inv pending s) (hw : s.memory wp = some w) :
    ∃ s', WIPfree s (some wp) = some s' ∧ Freed s wp s' := by
  have hopen : s.owner w = some (s.channels w.Chan) := if_pos (h.chan_open wp w hw)
  have hunlink : unlink (s.setChannel w.Chan (clearSlot (s.channels w.Chan) wp)) wp
      (s.WIPtable (bucket w.MessageID)) =
      some (some ((s.WIPtable (bucket w.MessageID)).erase wp)) := by
    refine unlink_eq (fun p hp => ?_) (h.allocated wp w hw) (h.listed _).1
    obtain ⟨w', hw', -⟩ := (h.listed _).2 p hp
    exact Option.isSome_iff_exists.mpr ⟨w', hw'⟩
  have hrest := clearSlot_rest (s.channels w.Chan) wp
  have hslots := clearSlot_slots (s.channels w.Chan) wp fun i j => h.slot_once w.Chan i j wp
  refine ⟨_, by
    simp only [WIPfree, hw, hopen, System.setChannel_WIPtable, hunlink, Option.bind_eq_bind,
      Option.bind_some]
    rfl, ?_⟩
  have hsame : ∀ cp, cp ≠ w.Chan → ∀ i, (s.channels cp).PrecommitWIP i ≠ some wp := by
    intro cp hne i hi
    obtain ⟨w', hw', hchan⟩ := h.slot cp i wp hi
    cases hw.symm.trans hw'
    exact hne hchan.symm
  have hchannel : ∀ {α : Type} (f : CHANNEL → α), f (clearSlot (s.channels w.Chan) wp) =
      f (s.channels w.Chan) → ∀ cp, f ((s.setChannel w.Chan
        (clearSlot (s.channels w.Chan) wp)).channels cp) = f (s.channels cp) := by
    intro α f hf cp
    by_cases hcp : cp = w.Chan
    · subst hcp
      rw [System.setChannel_self, hf]
    · rw [System.setChannel_ne _ hcp]
  refine ⟨rfl, rfl, fun b => ?_, fun cp i => ?_, hchannel (·.Open) hrest.1,
    hchannel (·.State) hrest.2.1, hchannel (·.CurrentMessageIDHash) hrest.2.2.2.2.1,
    hchannel (·.PrecommitiCachenext) hrest.2.2.2.2.2⟩
  · show Function.update s.WIPtable _ _ b = _
    by_cases hb : b = bucket w.MessageID
    · subst hb
      rw [Function.update_self]
    · rw [Function.update_of_ne hb, List.erase_of_not_mem]
      intro hmem
      obtain ⟨w', hw', hb'⟩ := (h.listed b).2 wp hmem
      cases hw.symm.trans hw'
      exact hb hb'.symm
  · show ((s.setChannel w.Chan _).channels cp).PrecommitWIP i = _
    by_cases hcp : cp = w.Chan
    · subst hcp
      rw [System.setChannel_self, hslots]
    · rw [System.setChannel_ne _ hcp, if_neg (hsame cp hcp i)]

/-! ## Channels that change -/

/-- A channel whose slots and current article still have its entries. -/
theorem Inv.setChannel {pending' : Option ℕ} {c : CHANNEL} (h : Inv pending s)
    (hslot : ∀ i wp, c.PrecommitWIP i = some wp → ∃ w, s.memory wp = some w ∧ w.Chan = cp)
    (honce : ∀ i j wp, c.PrecommitWIP i = some wp → c.PrecommitWIP j = some wp → i = j)
    (hown : ∀ wp w, s.memory wp = some w → w.Chan = cp → c.Open ∧ (some wp ≠ pending' →
      (∃ i, c.PrecommitWIP i = some wp) ∨ c.CurrentMessageIDHash = w.MessageID))
    (hother : ∀ wp w, s.memory wp = some w → w.Chan ≠ cp → some wp ≠ pending)
    (hidle : c.State ≠ .CSgetarticle → c.CurrentMessageIDHash = HASH.clear)
    (hring : c.PrecommitiCachenext ≤ PRECOMMITCACHESIZE) :
    Inv pending' (s.setChannel cp c) where
  listed := h.listed
  unique := h.unique
  slot cp' i p hp := by
    by_cases hcp : cp' = cp
    · subst hcp
      rw [System.setChannel_self] at hp
      exact hslot i p hp
    · rw [System.setChannel_ne _ hcp] at hp
      exact h.slot cp' i p hp
  slot_once cp' i j p hi hj := by
    by_cases hcp : cp' = cp
    · subst hcp
      rw [System.setChannel_self] at hi hj
      exact honce i j p hi hj
    · rw [System.setChannel_ne _ hcp] at hi hj
      exact h.slot_once cp' i j p hi hj
  chan_open p w hp := by
    by_cases hcp : w.Chan = cp
    · rw [hcp, System.setChannel_self]
      exact (hown p w hp hcp).1
    · rw [System.setChannel_ne _ hcp]
      exact h.chan_open p w hp
  reachable p w hp hpend := by
    by_cases hcp : w.Chan = cp
    · rw [hcp, System.setChannel_self]
      exact (hown p w hp hcp).2 hpend
    · rw [System.setChannel_ne _ hcp]
      exact h.reachable p w hp (hother p w hp hcp)
  allocated := h.allocated
  nonzero := h.nonzero
  idle cp' hstate := by
    by_cases hcp : cp' = cp
    · subst hcp
      rw [System.setChannel_self] at hstate ⊢
      exact hidle hstate
    · rw [System.setChannel_ne _ hcp] at hstate ⊢
      exact h.idle cp' hstate
  ring cp' := by
    by_cases hcp : cp' = cp
    · subst hcp
      rw [System.setChannel_self]
      exact hring
    · rw [System.setChannel_ne _ hcp]
      exact h.ring cp'

/-- A channel that keeps its slots and its current article. -/
theorem Inv.setChannel_same {c : CHANNEL} (h : Inv none s)
    (hslots : c.PrecommitWIP = (s.channels cp).PrecommitWIP)
    (hopen : c.Open = (s.channels cp).Open)
    (hcurrent : c.CurrentMessageIDHash = (s.channels cp).CurrentMessageIDHash)
    (hidle : c.State ≠ .CSgetarticle → c.CurrentMessageIDHash = HASH.clear)
    (hring : c.PrecommitiCachenext ≤ PRECOMMITCACHESIZE) : Inv none (s.setChannel cp c) := by
  refine h.setChannel ?_ ?_ ?_ (fun _ _ _ _ => by simp) hidle hring
  · rw [hslots]
    exact h.slot cp
  · rw [hslots]
    exact h.slot_once cp
  · rintro p w hp rfl
    rw [hslots, hopen, hcurrent]
    exact ⟨h.chan_open p w hp, h.reachable p w hp⟩

/-- A pending entry that is freed is pending no more. -/
theorem Inv.settle (h : Inv (some wp) s) (hnone : s.memory wp = none) : Inv none s :=
  { h with
    reachable := fun p w hp _ => h.reachable p w hp fun heq => by
      cases heq
      rw [hnone] at hp
      cases hp }

/-- A new entry, not yet put anywhere. -/
theorem Inv.add (h : Inv none s) (hhash : hash ≠ HASH.clear) (hopen : (s.channels cp).Open)
    (hnone : ∀ wp w, s.memory wp = some w → w.MessageID ≠ hash) (hfree : s.memory new = none) :
    Inv (some new) (WIPnew s hash cp new) := by
  have hmem : ∀ {p w}, (WIPnew s hash cp new).memory p = some w →
      p = new ∧ w.MessageID = hash ∧ w.Chan = cp ∨ p ≠ new ∧ s.memory p = some w := by
    intro p w hp
    simp only [WIPnew, Function.update_apply] at hp
    split at hp
    · rename_i heq
      cases hp
      exact .inl ⟨heq, rfl, rfl⟩
    · exact .inr ⟨‹_›, hp⟩
  have hold : ∀ {p w}, s.memory p = some w → p ≠ new ∧
      (WIPnew s hash cp new).memory p = some w := by
    intro p w hp
    have hne : p ≠ new := by
      rintro rfl
      rw [hfree] at hp
      cases hp
    exact ⟨hne, (Function.update_of_ne hne ..).trans hp⟩
  have htable : ∀ b, (WIPnew s hash cp new).WIPtable b =
      if b = bucket hash then new :: s.WIPtable b else s.WIPtable b := by
    intro b
    simp only [WIPnew, Function.update_apply]
    split
    · rename_i heq
      rw [heq]
    · rfl
  have hnew : (WIPnew s hash cp new).memory new =
      some { MessageID := hash, Timestamp := s.Now, Chan := cp } := Function.update_self ..
  refine ⟨fun b => ?_, ?_, ?_, h.slot_once, ?_, ?_, ?_, ?_, h.idle, h.ring⟩
  · have hrest : ∀ p ∈ s.WIPtable b, p ≠ new ∧
        ∃ w, (WIPnew s hash cp new).memory p = some w ∧ bucket w.MessageID = b := by
      intro p hp
      obtain ⟨w, hw, hb⟩ := (h.listed b).2 p hp
      exact ⟨(hold hw).1, w, (hold hw).2, hb⟩
    rw [htable]
    split
    · rename_i hb
      refine ⟨List.nodup_cons.mpr ⟨fun hp => (hrest new hp).1 rfl, (h.listed b).1⟩, ?_⟩
      exact List.forall_mem_cons.mpr ⟨⟨_, hnew, hb.symm⟩, fun p hp => (hrest p hp).2⟩
    · exact ⟨(h.listed b).1, fun p hp => (hrest p hp).2⟩
  · intro p p' w w' hp hp' heq
    rcases hmem hp with ⟨rfl, hw, -⟩ | ⟨-, hwas⟩ <;>
      rcases hmem hp' with ⟨rfl, hw', -⟩ | ⟨-, hwas'⟩
    · rfl
    · exact absurd (heq.symm.trans hw) (hnone p' w' hwas')
    · exact absurd (heq.trans hw') (hnone p w hwas)
    · exact h.unique p p' w w' hwas hwas' heq
  · intro cp' i p hp
    obtain ⟨w, hw, hchan⟩ := h.slot cp' i p hp
    exact ⟨w, (hold hw).2, hchan⟩
  · intro p w hp
    rcases hmem hp with ⟨-, -, hchan⟩ | ⟨-, hp⟩
    · exact hchan ▸ hopen
    · exact h.chan_open p w hp
  · intro p w hp hpend
    rcases hmem hp with ⟨rfl, -⟩ | ⟨-, hp⟩
    · exact absurd rfl hpend
    · exact h.reachable p w hp (by simp)
  · intro p w hp
    rw [htable]
    rcases hmem hp with ⟨rfl, hw, -⟩ | ⟨-, hp⟩
    · rw [hw, if_pos rfl]
      exact List.mem_cons_self
    · split
      · exact List.mem_cons_of_mem _ (h.allocated p w hp)
      · exact h.allocated p w hp
  · intro p w hp
    rcases hmem hp with ⟨-, hw, -⟩ | ⟨-, hp⟩
    · exact hw ▸ hhash
    · exact h.nonzero p w hp

/-! ## Putting a new entry -/

/-- Of a channel, nothing changes but that slots are cleared. -/
structure Kept (cp : ℕ) (s s' : System) : Prop where
  Open : (s'.channels cp).Open = (s.channels cp).Open
  State : (s'.channels cp).State = (s.channels cp).State
  Current : (s'.channels cp).CurrentMessageIDHash = (s.channels cp).CurrentMessageIDHash
  slots : ∀ i wp, (s'.channels cp).PrecommitWIP i = some wp →
    (s.channels cp).PrecommitWIP i = some wp
  memory : ∀ wp w, s'.memory wp = some w → s.memory wp = some w

theorem Kept.refl (cp : ℕ) (s : System) : Kept cp s s :=
  ⟨rfl, rfl, rfl, fun _ _ h => h, fun _ _ h => h⟩

theorem Kept.trans {s'' : System} (h : Kept cp s s') (h' : Kept cp s' s'') : Kept cp s s'' :=
  ⟨h'.Open.trans h.Open, h'.State.trans h.State, h'.Current.trans h.Current,
    fun _ _ hi => h.slots _ _ (h'.slots _ _ hi),
    fun _ _ hp => h.memory _ _ (h'.memory _ _ hp)⟩

theorem Freed.kept (hfreed : Freed s wp s') (cp : ℕ) : Kept cp s s' where
  Open := hfreed.Open cp
  State := hfreed.State cp
  Current := hfreed.Current cp
  slots _ _ hp := (hfreed.slot_eq hp).1
  memory _ _ hp := (hfreed.memory_eq hp).1

/-- The entry of a slot is freed, if the slot has one. -/
theorem Inv.free_slot (h : Inv pending s) (cp : ℕ) (i : Fin PRECOMMITCACHESIZE) :
    ∃ s', WIPfree s ((s.channels cp).PrecommitWIP i) = some s' ∧ Inv pending s' ∧ Kept cp s s' ∧
      (s'.channels cp).PrecommitWIP i = none ∧
      ∀ wp, (s.channels cp).PrecommitWIP i ≠ some wp → s'.memory wp = s.memory wp := by
  cases hi : (s.channels cp).PrecommitWIP i with
  | none => exact ⟨s, rfl, h, .refl cp s, hi, fun _ _ => rfl⟩
  | some p =>
    obtain ⟨w, hw, -⟩ := h.slot cp i p hi
    obtain ⟨s', hfree, hfreed⟩ := h.free hw
    refine ⟨s', hfree, hfreed.inv h, hfreed.kept cp, ?_, fun wp hne => ?_⟩
    · rw [hfreed.PrecommitWIP, if_pos hi]
    · rw [hfreed.memory, Function.update_of_ne fun heq => hne (congrArg some heq.symm)]

/-- A new entry is put in the ring. -/
theorem Inv.precommit (h : Inv (some new) s) (hw : s.memory new = some w) (hchan : w.Chan = cp)
    (hslots : ∀ i, (s.channels cp).PrecommitWIP i ≠ some new) :
    ∃ s', putPrecommit s cp new = some s' ∧ Inv none s' := by
  have hring := h.ring cp
  rw [putPrecommit]
  generalize hnext : (if (s.channels cp).PrecommitiCachenext = PRECOMMITCACHESIZE then 0
    else (s.channels cp).PrecommitiCachenext) = next
  have hlt : next < PRECOMMITCACHESIZE := by
    rw [← hnext]
    split
    · exact Nat.zero_lt_succ _
    · omega
  obtain ⟨s₁, hfree, h₁, hkept, hnone, hmem⟩ := h.free_slot cp ⟨next, hlt⟩
  have hnew : s₁.memory new = some w := (hmem new (hslots _)).trans hw
  simp only [dif_pos hlt, hfree, Option.bind_eq_bind, Option.bind_some]
  refine ⟨_, rfl, h₁.setChannel ?_ ?_ ?_ ?_ (h₁.idle cp) hlt⟩
  · intro i p hp
    dsimp only at hp
    rw [Function.update_apply] at hp
    split at hp
    · cases hp
      exact ⟨w, hnew, hchan⟩
    · exact h₁.slot cp i p hp
  · have hslots₁ : ∀ i, (s₁.channels cp).PrecommitWIP i ≠ some new :=
      fun i hi => hslots i (hkept.slots i new hi)
    intro i j p hi hj
    dsimp only at hi hj
    rw [Function.update_apply] at hi hj
    split at hi <;> split at hj
    · rename_i hi' hj'
      rw [hi', hj']
    · cases hi
      exact absurd hj (hslots₁ j)
    · cases hj
      exact absurd hi (hslots₁ i)
    · exact h₁.slot_once cp i j p hi hj
  · rintro p w' hp rfl
    refine ⟨h₁.chan_open p w' hp, fun _ => ?_⟩
    by_cases heq : p = new
    · exact .inl ⟨⟨next, hlt⟩, by simp [heq]⟩
    · refine (h₁.reachable p w' hp fun hpend => heq (Option.some.inj hpend)).imp_left ?_
      rintro ⟨i, hi⟩
      have hne : i ≠ ⟨next, hlt⟩ := by
        rintro rfl
        rw [hnone] at hi
        cases hi
      exact ⟨i, by simpa [Function.update_of_ne hne] using hi⟩
  · rintro p w' hp hne heq
    cases heq
    cases hnew.symm.trans hp
    exact hne hchan

/-- The current article of a channel that had none is an entry, which may be pending. -/
theorem Inv.adopt {c : CHANNEL} (h : Inv pending s)
    (hpend : ∀ p w, some p = pending → s.memory p = some w → w.Chan = cp ∧ w.MessageID = hash)
    (hclear : (s.channels cp).CurrentMessageIDHash = HASH.clear)
    (hslots : c.PrecommitWIP = (s.channels cp).PrecommitWIP)
    (hopen : c.Open = (s.channels cp).Open) (hcurrent : c.CurrentMessageIDHash = hash)
    (hstate : c.State = .CSgetarticle)
    (hnext : c.PrecommitiCachenext = (s.channels cp).PrecommitiCachenext) :
    Inv none (s.setChannel cp c) := by
  refine h.setChannel ?_ ?_ ?_ ?_ (absurd hstate) (hnext ▸ h.ring cp)
  · rw [hslots]
    exact h.slot cp
  · rw [hslots]
    exact h.slot_once cp
  · rintro p w hp rfl
    refine ⟨hopen ▸ h.chan_open p w hp, fun _ => ?_⟩
    by_cases heq : some p = pending
    · exact .inr (hcurrent.trans (hpend p w heq hp).2.symm)
    · rcases h.reachable p w hp heq with hslot | hcur
      · exact .inl (hslots ▸ hslot)
      · exact absurd (hcur.symm.trans hclear) (h.nonzero p w hp)
  · exact fun p w hp hne heq => hne (hpend p w heq hp).1

theorem putCurrent_eq (h : Inv pending s) (hw : s.memory new = some w)
    (hclear : (s.channels cp).CurrentMessageIDHash = HASH.clear) :
    putCurrent s cp new = some (s.setChannel cp
      { s.channels cp with CurrentMessageIDHash := w.MessageID }) := by
  simp [putCurrent, hclear, h.byhash_clear, WIPfree, hw]

/-! ## Offers -/

theorem Inv.fresh (h : Inv none s) (hfree : s.memory new = none) (i : Fin PRECOMMITCACHESIZE) :
    (s.channels cp).PrecommitWIP i ≠ some new := by
  intro hi
  obtain ⟨w, hw, -⟩ := h.slot cp i new hi
  rw [hfree] at hw
  cases hw

theorem WIPnew_memory (s : System) (hash : HASH) (cp new : ℕ) :
    (WIPnew s hash cp new).memory new =
      some { MessageID := hash, Timestamp := s.Now, Chan := cp } :=
  Function.update_self ..

/-- The slot of an entry is cleared before the entry is freed. -/
theorem Inv.clear (h : Inv none s) (hopen : (s.channels cp).Open) (wp : ℕ) :
    Inv (some wp) (s.setChannel cp (clearSlot (s.channels cp) wp)) ∧
      ∀ cp', Kept cp' s (s.setChannel cp (clearSlot (s.channels cp) wp)) := by
  have hrest := clearSlot_rest (s.channels cp) wp
  have hslots := clearSlot_slots (s.channels cp) wp fun i j => h.slot_once cp i j wp
  have hwas : ∀ i p, (clearSlot (s.channels cp) wp).PrecommitWIP i = some p →
      (s.channels cp).PrecommitWIP i = some p := by
    intro i p hp
    rw [hslots] at hp
    split at hp
    · cases hp
    · exact hp
  constructor
  · refine h.setChannel (fun i p hp => h.slot cp i p (hwas i p hp))
      (fun i j p hi hj => h.slot_once cp i j p (hwas i p hi) (hwas j p hj)) ?_
      (fun _ _ _ _ => by simp) ?_ ?_
    · rintro p w hp rfl
      refine ⟨hrest.1 ▸ hopen, fun hne => ?_⟩
      rw [hrest.2.2.2.2.1]
      refine (h.reachable p w hp (by simp)).imp_left ?_
      rintro ⟨i, hi⟩
      exact ⟨i, by rw [hslots, hi, if_neg hne]⟩
    · rw [hrest.2.1, hrest.2.2.2.2.1]
      exact h.idle cp
    · rw [hrest.2.2.2.2.2]
      exact h.ring cp
  · intro cp'
    by_cases hcp : cp' = cp
    · subst hcp
      refine ⟨?_, ?_, ?_, ?_, fun _ _ hp => hp⟩ <;> rw [System.setChannel_self]
      · exact hrest.1
      · exact hrest.2.1
      · exact hrest.2.2.2.2.1
      · exact hwas
    · refine ⟨?_, ?_, ?_, ?_, fun _ _ hp => hp⟩ <;> rw [System.setChannel_ne _ hcp]
      exact fun _ _ hi => hi

/-- An entry that has expired is freed. -/
theorem Inv.expire (h : Inv none s) (hw : s.memory wp = some w) :
    ∃ s', WIPfree (s.setChannel w.Chan (clearSlot (s.channels w.Chan) wp)) (some wp) = some s' ∧
      Inv none s' ∧ (∀ cp, Kept cp s s') ∧ s'.memory = Function.update s.memory wp none := by
  obtain ⟨hinv, hkept⟩ := h.clear (h.chan_open wp w hw) wp
  obtain ⟨s', hfree, hfreed⟩ := @Inv.free _ _ wp w hinv hw
  refine ⟨s', hfree, (hfreed.inv hinv).settle ?_, fun cp => (hkept cp).trans (hfreed.kept cp),
    hfreed.memory⟩
  rw [hfreed.memory]
  exact Function.update_self ..

/-- A call that finds no entry makes one. -/
theorem WIPinprogress_new (hnone : WIPbyhash s hash = some none) (cp : ℕ) (Precommit : Bool)
    (new fuel : ℕ) : WIPinprogress conf hash cp Precommit new (fuel + 1) s =
      (if Precommit then putPrecommit (WIPnew s hash cp new) cp new
        else putCurrent (WIPnew s hash cp new) cp new).map (false, ·) := by
  simp only [WIPinprogress, hnone, Option.bind_eq_bind, Option.bind_some]
  cases Precommit <;> simp only [if_true, if_false, Bool.false_eq_true, Option.map_eq_bind] <;> rfl

/-- What an offer comes to: nothing changes, or the hash gets a new entry when there is
none. -/
theorem Inv.inprogress (h : Inv none s) (hash : HASH) (cp : ℕ) (Precommit : Bool)
    (hfree : Event.freeFor s hash new) :
    (∃ busy, WIPinprogress conf hash cp Precommit new (calls s hash) s = some (busy, s)) ∨
      ∃ s', Inv none s' ∧ Kept cp s s' ∧ s'.memory new = none ∧
        (∀ wp w, s'.memory wp = some w → w.MessageID ≠ hash) ∧
        WIPinprogress conf hash cp Precommit new (calls s hash) s =
          (if Precommit then putPrecommit (WIPnew s' hash cp new) cp new
            else putCurrent (WIPnew s' hash cp new) cp new).map (false, ·) := by
  rcases h.byhash hash with ⟨wp, w, hfound, hw, heq⟩ | ⟨hnone, hno⟩
  · have howner : s.owner w = some (s.channels w.Chan) := if_pos (h.chan_open wp w hw)
    rw [calls, WIPinprogress]
    simp only [hfound, hw, howner, Option.bind_eq_bind, Option.bind_some]
    generalize (if (s.channels w.Chan).ArtBeg = 0 then (0 : ℤ)
      else if (s.channels w.Chan).ArtMax < 0 ∨ WIP_ARTMAX < (s.channels w.Chan).ArtMax
        then WIP_ARTMAX else (s.channels w.Chan).ArtMax) = i
    split
    · exact .inl ⟨true, rfl⟩
    · split
      · obtain ⟨s', hexpire, hinv, hkept, hmemory⟩ := h.expire hw
        have hno : ∀ p w', s'.memory p = some w' → w'.MessageID ≠ hash := by
          intro p w' hp heq'
          rw [hmemory, Function.update_apply] at hp
          split at hp
          · cases hp
          · exact ‹p ≠ wp› (h.unique p wp w' w hp hw (heq'.trans heq.symm))
        have hnew : s'.memory new = none := by
          refine Option.eq_none_iff_forall_ne_some.mpr fun w' hp => hno new w' hp ?_
          exact hfree w' ((hkept cp).memory new w' hp)
        have hnone : WIPbyhash s' hash = some none := by
          rcases hinv.byhash hash with ⟨p, w', -, hp, heq'⟩ | ⟨hnone, -⟩
          · exact absurd heq' (hno p w' hp)
          · exact hnone
        obtain ⟨n, hn⟩ : ∃ n, (s.WIPtable (bucket hash)).length = n + 1 :=
          ⟨_, (Nat.succ_pred_eq_of_pos (List.length_pos_of_mem (heq ▸ h.allocated wp w hw))).symm⟩
        refine .inr ⟨s', hinv, hkept cp, hnew, hno, ?_⟩
        rw [hexpire, hn, Option.bind_some, WIPinprogress_new hnone, Option.map_eq_bind,
          Option.bind_assoc]
        rfl
      · exact .inl ⟨_, rfl⟩
  · refine .inr ⟨s, h, .refl cp s, ?_, hno, WIPinprogress_new hnone cp Precommit new _⟩
    cases hnew : s.memory new with
    | none => rfl
    | some w => exact absurd (hfree w hnew) (hno new w hnew)

/-! ## Closing -/

/-- The current article of a channel is over. -/
theorem Inv.clearwip (h : Inv none s) (cp : ℕ) : ∃ s', NCclearwip s cp = some s' ∧ Inv none s' ∧
    (s'.channels cp).Open = (s.channels cp).Open ∧
    (s'.channels cp).CurrentMessageIDHash = HASH.clear ∧
    (∀ i wp, (s'.channels cp).PrecommitWIP i = some wp →
      (s.channels cp).PrecommitWIP i = some wp) := by
  obtain ⟨s₁, hfree, h₁, hkept, hno⟩ : ∃ s₁, ((WIPbyhash s (s.channels cp).CurrentMessageIDHash).bind
      (WIPfree s)) = some s₁ ∧ Inv none s₁ ∧ Kept cp s s₁ ∧
      ∀ wp w, s₁.memory wp = some w → w.MessageID ≠ (s.channels cp).CurrentMessageIDHash := by
    rcases h.byhash (s.channels cp).CurrentMessageIDHash with ⟨wp, w, hfound, hw, heq⟩ | ⟨hnone, hno⟩
    · obtain ⟨s₁, hfree, hfreed⟩ := h.free hw
      refine ⟨s₁, by rw [hfound, Option.bind_some, hfree], hfreed.inv h, hfreed.kept cp, ?_⟩
      intro p w' hp heq'
      obtain ⟨hp, hne⟩ := hfreed.memory_eq hp
      exact hne (h.unique p wp w' w hp hw (heq'.trans heq.symm))
    · exact ⟨s, by rw [hnone, Option.bind_some]; rfl, h, .refl cp s, hno⟩
  refine ⟨s₁.setChannel cp { s₁.channels cp with
    CurrentMessageIDHash := HASH.clear, ArtBeg := 0 }, ?_, ?_, ?_, ?_, ?_⟩
  · rw [NCclearwip]
    simp only [Option.bind_eq_bind, ← Option.bind_assoc, hfree, Option.bind_some]
  · refine h₁.setChannel (h₁.slot cp) (h₁.slot_once cp) ?_ (fun _ _ _ _ => by simp)
      (fun _ => rfl) (h₁.ring cp)
    rintro p w hp rfl
    refine ⟨h₁.chan_open p w hp, fun _ => .inl ?_⟩
    exact (h₁.reachable p w hp (by simp)).resolve_right fun hcur =>
      hno p w hp (hcur.symm.trans hkept.Current)
  · rw [System.setChannel_self]
    exact hkept.Open
  · rw [System.setChannel_self]
  · rw [System.setChannel_self]
    exact hkept.slots

/-- The slots of a channel are freed. -/
theorem Inv.precomfree (h : Inv none s) (cp : ℕ) : ∃ s', WIPprecomfree s cp = some s' ∧
    Inv none s' ∧ Kept cp s s' ∧ ∀ i, (s'.channels cp).PrecommitWIP i = none := by
  have hloop : ∀ (l : List (Fin PRECOMMITCACHESIZE)) (s : System), Inv none s →
      ∃ s', l.foldlM (fun s i => WIPfree s ((s.channels cp).PrecommitWIP i)) s = some s' ∧
        Inv none s' ∧ Kept cp s s' ∧ ∀ i ∈ l, (s'.channels cp).PrecommitWIP i = none := by
    intro l
    induction l with
    | nil => exact fun s h => ⟨s, rfl, h, .refl cp s, by simp⟩
    | cons i rest ih =>
      intro s h
      obtain ⟨s₁, hfree, h₁, hkept₁, hnone, -⟩ := h.free_slot cp i
      obtain ⟨s₂, hrest, h₂, hkept₂, hnones⟩ := ih s₁ h₁
      refine ⟨s₂, ?_, h₂, hkept₁.trans hkept₂, List.forall_mem_cons.mpr ⟨?_, hnones⟩⟩
      · rw [List.foldlM_cons, hfree]
        exact hrest
      · refine Option.eq_none_iff_forall_ne_some.mpr fun p hp => ?_
        rw [hkept₂.slots i p hp] at hnone
        cases hnone
  obtain ⟨s', hfold, h', hkept, hnone⟩ := hloop (List.finRange PRECOMMITCACHESIZE) s h
  exact ⟨s', hfold, h', hkept, fun i => hnone i (List.mem_finRange i)⟩

/-- A channel is closed when no entry is left that is its own. -/
theorem Inv.close (h : Inv none s) (cp : ℕ) : ∃ s', CHANclose s cp = some s' ∧ Inv none s' := by
  obtain ⟨s₁, hprecom, h₁, -, hnone⟩ := h.precomfree cp
  obtain ⟨s₂, hclear, h₂, -, hcurrent, hslots⟩ := h₁.clearwip cp
  refine ⟨s₂.setChannel cp { s₂.channels cp with Open := false, State := .CSerror }, ?_,
    h₂.setChannel (h₂.slot cp) (h₂.slot_once cp) ?_ (fun _ _ _ _ => by simp)
      (fun _ => hcurrent) (h₂.ring cp)⟩
  · simp only [CHANclose, hprecom, hclear, Option.bind_eq_bind, Option.bind_some]
  · rintro p w hp rfl
    rcases h₂.reachable p w hp (by simp) with ⟨i, hi⟩ | hcur
    · have hslot := hslots i p hi
      rw [hnone i] at hslot
      cases hslot
    · exact absurd (hcur.symm.trans hcurrent) (h₂.nonzero p w hp)

theorem Inv.create (h : Inv none s) (hclosed : (s.channels cp).Open = false) :
    ∃ s', NCcreate s cp = some s' ∧ Inv none s' := by
  have hopened : Inv none (s.setChannel cp { CHANnull with Open := true, State := .CSgetcmd }) := by
    refine h.setChannel (fun i p hp => by cases hp) (fun i j p hp => by cases hp) ?_
      (fun _ _ _ _ => by simp) (fun _ => rfl) (Nat.zero_le _)
    rintro p w hp rfl
    rw [h.chan_open p w hp] at hclosed
    cases hclosed
  obtain ⟨s', hclear, h', -⟩ := hopened.clearwip cp
  exact ⟨s', hclear, h'⟩

/-! ## Commands -/

theorem Inv.check (h : Inv none s) {mid : List UInt8} (hhash : conf.Hash mid ≠ HASH.clear)
    (hopen : (s.channels cp).Open) (hfree : Event.freeFor s (conf.Hash mid) new) :
    ∃ s', NCcheck conf s cp mid new = some s' ∧ Inv none s' := by
  rcases @Inv.inprogress s new conf h (conf.Hash mid) cp true hfree with
    ⟨busy, hsame⟩ | ⟨s₁, h₁, hkept, hnew, hno, hmake⟩
  · exact ⟨s, by rw [NCcheck, hsame]; rfl, h⟩
  · obtain ⟨s', hput, h'⟩ := (h₁.add hhash (hkept.Open.trans hopen) hno hnew).precommit
      (WIPnew_memory s₁ _ cp new) rfl (h₁.fresh hnew)
    refine ⟨s', ?_, h'⟩
    rw [NCcheck, hmake, if_pos rfl, hput]
    rfl

theorem Inv.ihave (h : Inv none s) {mid : List UInt8} (hhash : conf.Hash mid ≠ HASH.clear)
    (hopen : (s.channels cp).Open) (hstate : (s.channels cp).State = .CSgetcmd)
    (hfree : Event.freeFor s (conf.Hash mid) new) :
    ∃ s', NCihave conf s cp mid new = some s' ∧ Inv none s' := by
  have hclear : (s.channels cp).CurrentMessageIDHash = HASH.clear := h.idle cp (by simp [hstate])
  rcases @Inv.inprogress s new conf h (conf.Hash mid) cp false hfree with
    ⟨busy, hsame⟩ | ⟨s₁, h₁, hkept, hnew, hno, hmake⟩
  · simp only [NCihave, hsame, Option.bind_eq_bind, Option.bind_some]
    cases busy with
    | true => exact ⟨s, rfl, h⟩
    | false => exact ⟨_, rfl, h.setChannel_same rfl rfl rfl (by simp) (h.ring cp)⟩
  · have hadd := h₁.add hhash (hkept.Open.trans hopen) hno hnew
    have hmem := WIPnew_memory s₁ (conf.Hash mid) cp new
    have hclear₁ : ((WIPnew s₁ (conf.Hash mid) cp new).channels cp).CurrentMessageIDHash =
        HASH.clear := hkept.Current.trans hclear
    simp only [NCihave, hmake, putCurrent_eq hadd hmem hclear₁, Option.bind_eq_bind,
      Bool.false_eq_true, if_false, Option.map_some, Option.bind_some]
    refine ⟨_, rfl, ?_⟩
    rw [System.setChannel_setChannel, System.setChannel_self]
    refine @Inv.adopt _ _ cp (conf.Hash mid) _ hadd ?_ hclear₁ rfl rfl rfl rfl rfl
    rintro p w heq hp
    cases heq
    cases hmem.symm.trans hp
    exact ⟨rfl, rfl⟩

theorem Inv.takethis (h : Inv none s) {mid : List UInt8} (hhash : conf.Hash mid ≠ HASH.clear)
    (hopen : (s.channels cp).Open) (hstate : (s.channels cp).State = .CSgetcmd)
    (hfree : Event.freeFor s (conf.Hash mid) new) :
    ∃ s', NCtakethis conf s cp mid new = some s' ∧ Inv none s' := by
  have hclear : (s.channels cp).CurrentMessageIDHash = HASH.clear := h.idle cp (by simp [hstate])
  rw [NCtakethis]
  generalize hs₁ : s.setChannel cp
    { s.channels cp with ArtBeg := s.Now, State := .CSgetarticle } = s₁
  have h₁ : Inv none s₁ := hs₁ ▸ h.setChannel_same rfl rfl rfl (by simp) (h.ring cp)
  have hchannel : s₁.channels cp =
      { s.channels cp with ArtBeg := s.Now, State := .CSgetarticle } := by
    rw [← hs₁, System.setChannel_self]
  have hmemory : s₁.memory = s.memory := by rw [← hs₁, System.setChannel_memory]
  rcases h₁.byhash (conf.Hash mid) with ⟨wp, w, hfound, hw, -⟩ | ⟨hnone, hno⟩
  · -- the entry found may be that of another channel, which keeps it
    simp only [hfound, hw, Option.bind_eq_bind, Option.bind_some]
    exact ⟨_, rfl, h₁.adopt (by simp) (by rw [hchannel]; exact hclear) rfl rfl rfl
      (by rw [hchannel]) rfl⟩
  · have hnew : s₁.memory new = none := by
      refine Option.eq_none_iff_forall_ne_some.mpr fun w hp => hno new w hp ?_
      exact hfree w (hmemory ▸ hp)
    have hadd := @Inv.add s₁ cp new _ h₁ hhash (by rw [hchannel]; exact hopen) hno hnew
    have hmem := WIPnew_memory s₁ (conf.Hash mid) cp new
    simp only [hnone, hmem, Option.bind_eq_bind, Option.bind_some]
    refine ⟨_, rfl, @Inv.adopt _ _ cp (conf.Hash mid) _ hadd ?_ ?_ rfl rfl rfl ?_ rfl⟩
    · rintro p w heq hp
      cases heq
      cases hmem.symm.trans hp
      exact ⟨rfl, rfl⟩
    · show (s₁.channels cp).CurrentMessageIDHash = _
      rw [hchannel]
      exact hclear
    · show (s₁.channels cp).State = _
      rw [hchannel]

theorem Inv.complete (h : Inv none s) (cp : ℕ) (stored : Bool) (state : CHANNEL_STATE) :
    ∃ s', Event.step conf s (.complete cp stored state) = some s' ∧ Inv none s' := by
  have hstored : Inv none (if stored then ARTstored s cp else s) := by
    split
    · exact h.setChannel_same rfl rfl rfl (h.idle cp) (h.ring cp)
    · exact h
  obtain ⟨s', hclear, h', -, hcurrent, -⟩ := hstored.clearwip cp
  refine ⟨s'.setChannel cp { s'.channels cp with State := state }, ?_,
    h'.setChannel_same rfl rfl rfl (fun _ => hcurrent) (h'.ring cp)⟩
  simp only [Event.step, hclear, Option.bind_eq_bind, Option.bind_some]

theorem Inv.completeClosed (h : Inv none s) (cp : ℕ) :
    ∃ s', Event.step conf s (.completeClosed cp) = some s' ∧ Inv none s' := by
  obtain ⟨s₁, hclose, h₁⟩ := h.close cp
  obtain ⟨s', hclear, h', -, hcurrent, -⟩ := h₁.clearwip cp
  refine ⟨s'.setChannel cp { s'.channels cp with State := .CSgetcmd }, ?_,
    h'.setChannel_same rfl rfl rfl (fun _ => hcurrent) (h'.ring cp)⟩
  simp only [Event.step, hclose, hclear, Option.bind_eq_bind, Option.bind_some]

/-- Every event that can happen is carried out and keeps the invariant. -/
theorem Inv.step (h : Inv none s) {e : Event} (he : e.Enabled conf s) (hhash : e.Hashed conf) :
    ∃ s', e.step conf s = some s' ∧ Inv none s' := by
  cases e with
  | tick now => exact ⟨_, rfl, { h with }⟩
  | create cp => exact h.create he
  | check cp mid new => exact h.check (hhash mid rfl) he.1 he.2.2
  | ihave cp mid new => exact h.ihave (hhash mid rfl) he.1 he.2.1 he.2.2
  | takethis cp mid new => exact h.takethis (hhash mid rfl) he.1 he.2.1 he.2.2
  | command cp state =>
    exact ⟨_, rfl, h.setChannel_same rfl rfl rfl (fun _ => h.idle cp he.2.1) (h.ring cp)⟩
  | complete cp stored state => exact h.complete cp stored state
  | completeClosed cp => exact h.completeClosed cp
  | close cp => exact h.close cp

/-! ## Runs -/

theorem Inv.run {now : ℤ} {events : List Event} (hrun : Steps (guarded (fun _ e => e.Hashed conf)
    (Event.next conf)) (WIPsetup now) events s) : Inv none s := by
  refine Steps.invariant (fun s e s' ⟨hhash, he, hstep⟩ h => ?_) hrun (setup_inv now)
  obtain ⟨s'', hstep', h'⟩ := h.step he hhash
  exact Option.some.inj (hstep'.symm.trans hstep) ▸ h'

/-- After every run each entry belongs to an open channel that reaches it, and whatever
happens next touches no entry that is freed and no channel that is closed. -/
theorem wip_owned (conf : Config) (now : ℤ) (events : List Event) (s : System)
    (hrun : Steps (guarded (fun _ e => e.Hashed conf) (Event.next conf)) (WIPsetup now)
      events s) :
    Owned s ∧ ∀ e : Event, e.Enabled conf s → e.Hashed conf → (e.step conf s).isSome := by
  have h := Inv.run hrun
  refine ⟨h.owned, fun e he hhash => ?_⟩
  obtain ⟨s', hstep, -⟩ := h.step he hhash
  rw [hstep]
  rfl

/-- A message-ID and its hash. -/
def offered : List UInt8 := "<a@b.c>".toUTF8.toList

def offeredHash : HASH :=
  #v[0x3f, 0xcc, 0x50, 0x9f, 0xbb, 0xd4, 0x75, 0xa7, 0x7f, 0xf9, 0x80, 0xc1, 0xab, 0x88, 0x21, 0x3c]

def offeredConfig : Config :=
  { Hash := fun mid => if mid = offered then offeredHash else HASH.clear
    wipcheck := 5, wipexpire := 10 }

/-- The state after an event. -/
def Event.after (s : System) (e : Event) : System := (e.step offeredConfig s).getD s

theorem Event.next_after (s : System) (e : Event) (he : e.Enabled offeredConfig s)
    (hhash : e.Hashed offeredConfig) (hsome : (e.step offeredConfig s).isSome) :
    guarded (fun _ e => e.Hashed offeredConfig) (Event.next offeredConfig) s e (e.after s) := by
  refine ⟨hhash, he, ?_⟩
  obtain ⟨s', hs'⟩ := Option.isSome_iff_exists.mp hsome
  rw [Event.after, hs', Option.getD_some]

theorem Event.freeFor_of_isNone {s : System} (h : (s.memory new).isNone) (hash : HASH) :
    Event.freeFor s hash new := by
  intro w hw
  rw [hw] at h
  cases h

/-- One channel is offered an article and another is sent it. -/
theorem wip_owned_adopted :
    let s := [Event.create 0, .create 1, .check 0 offered 0, .takethis 1 offered 1].foldl
      Event.after (WIPsetup 0)
    Owned s ∧ ((Event.complete 1 true .CSgetcmd).step offeredConfig s).isSome := by
  have hhash : ∀ mid ∈ some offered, offeredConfig.Hash mid ≠ HASH.clear := by
    rintro mid ⟨⟩
    decide +kernel
  have h₁ := Steps.single (Event.next_after (WIPsetup 0) (.create 0) rfl (by rintro _ ⟨⟩)
    (by decide))
  have hclosed : ((Event.after (WIPsetup 0) (.create 0)).channels 1).Open = false := by
    decide
  have h₂ := h₁.snoc (Event.next_after _ (.create 1) hclosed (by rintro _ ⟨⟩) (by decide))
  have h₃ := h₂.snoc (Event.next_after _ (.check 0 offered 0)
    ⟨by decide, by decide, Event.freeFor_of_isNone (by decide) _⟩ hhash
    (by decide))
  have h₄ := h₃.snoc (Event.next_after _ (.takethis 1 offered 1)
    ⟨by decide, by decide, Event.freeFor_of_isNone (by decide) _⟩ hhash
    (by decide +kernel))
  obtain ⟨howned, hnext⟩ := wip_owned offeredConfig 0 _ _ h₄
  exact ⟨howned, hnext (.complete 1 true .CSgetcmd)
    ⟨by decide +kernel, by decide +kernel, by decide⟩ (by rintro _ ⟨⟩)⟩

end Inn.Wip
