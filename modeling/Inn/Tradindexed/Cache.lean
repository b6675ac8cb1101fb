import Inn.Base
import Inn.Libinn.Hashtab
import Inn.Words

/-!
# Inn.Tradindexed.Cache — the cache of open data files

A `group_data` is held by its entry in the cache and by the searches in it, and the last holder
closes it. `Balanced` ties the counts to the holders, and every operation keeps it.
-/

namespace Inn.Tradindexed.Cache

open Function Libinn.Hashtab

/-! ## The code -/

/-- `cache_entry`, less `lastused`. The `group_data` are numbered as they are opened. -/
structure Entry where
  data : ℕ
  hash : HASH

/-- `entry_hash`: as much of the hash as an `unsigned long` holds. -/
def entryHash (key : HASH) : ℕ := ofBytes (key.toList.take 8)

/-- `entry_hash`, `entry_key` and `entry_equal`. -/
def entryFuncs : Funcs HASH Entry where
  hash := entryHash
  key := Entry.hash
  equal key entry := key == entry.hash

/-- `struct cache`, with the `group_data` that were opened: for which groups, by how many each is
held, how often it was closed, and when its entry was last used; and the data of the searches. -/
structure State where
  hashtable : Hash Entry
  count : ℕ
  max : ℕ
  opened : List HASH
  refcount : ℕ → ℤ
  closed : ℕ → ℕ
  lastused : ℕ → ℤ
  searches : List ℕ

/-- `refcount--`, and `tdx_data_close` at 0: `entry_delete` and `tdx_search_close`. -/
def State.drop (s : State) (data : ℕ) : State :=
  let refcount := s.refcount data - 1
  { s with
    refcount := update s.refcount data refcount
    closed := if refcount = 0 then update s.closed data (s.closed data + 1) else s.closed }

/-- `entry_find_oldest`. -/
def State.entryFindOldest (s : State) (oldest : Option Entry) (entry : Entry) : Option Entry :=
  match oldest with
  | none => some entry
  | some old =>
    if s.refcount entry.data > s.refcount old.data then some old
    else if s.lastused entry.data > s.lastused old.data then some old
    else some entry

/-- `tdx_cache_create`, with the `unsigned int` product. -/
def tdxCacheCreate (size : ℕ) : Option State :=
  (hash_create Entry (size * 4 % 2 ^ 32 / 3)).map fun hashtable =>
    ⟨hashtable, 0, size, [], fun _ => 0, fun _ => 0, fun _ => 0, []⟩

/-- The size that `tradindexed_open` gives the cache: a data has two descriptors. -/
def cacheSize (write : Bool) (overcachesize fdlimit : ℕ) : ℕ :=
  let cache_size := if write then overcachesize else 1
  if fdlimit > 0 ∧ fdlimit < cache_size * 2 then if fdlimit > 2 then fdlimit / 2 else 1
  else cache_size

def tradindexedOpen (write : Bool) (overcachesize fdlimit : ℕ) : Option State :=
  tdxCacheCreate (cacheSize write overcachesize fdlimit)

/-- `tdx_cache_lookup`. -/
def tdxCacheLookup (s : State) (now : ℤ) (hash : HASH) : Option (Option ℕ × State) :=
  (hash_lookup entryFuncs s.hashtable hash).map fun
    | none => (none, s)
    | some entry => (some entry.data, { s with lastused := update s.lastused entry.data now })

/-- `tdx_cache_delete`: `hash_delete` calls `entry_delete` on the entry it finds. -/
def tdxCacheDelete (s : State) (hash : HASH) : Option (Bool × State) :=
  (hash_lookup entryFuncs s.hashtable hash).bind fun found =>
    (hash_delete entryFuncs s.hashtable hash).map fun r =>
      let s := { found.elim s fun entry => s.drop entry.data with hashtable := r.2 }
      (r.1, if r.1 then { s with count := s.count - 1 } else s)

/-- `tdx_cache_insert` from `xmalloc` on. -/
def insertEntry (s : State) (now : ℤ) (hash : HASH) (data : ℕ) : Option State :=
  (hash_insert entryFuncs s.hashtable hash ⟨data, hash⟩).map fun r =>
    if r.1 then
      { s with
        hashtable := r.2
        refcount := update s.refcount data (s.refcount data + 1)
        lastused := update s.lastused data now
        count := s.count + 1 }
    else { s with hashtable := r.2 }

/-- `tdx_cache_insert`. -/
def tdxCacheInsert (s : State) (now : ℤ) (hash : HASH) (data : ℕ) : Option State :=
  if s.count = s.max then
    match hash_traverse s.hashtable s.entryFindOldest none with
    | none => some s
    | some oldest =>
      (tdxCacheDelete s oldest.hash).bind fun r =>
        if r.1 then insertEntry r.2 now hash data else some r.2
  else insertEntry s now hash data

/-- `tdx_data_open`, which may fail, and `tdx_cache_insert`. -/
def openInto (s : State) (now : ℤ) (opens : Bool) (hash : HASH) : Option (Option ℕ × State) :=
  if opens then
    (tdxCacheInsert { s with opened := s.opened ++ [hash] } now hash s.opened.length).map
      fun s' => (some s.opened.length, s')
  else some (none, s)

/-- `data_cache_open`. -/
def dataCacheOpen (s : State) (now : ℤ) (opens : Bool) (hash : HASH) :
    Option (Option ℕ × State) :=
  (tdxCacheLookup s now hash).bind fun r =>
    if r.1.isSome then some r else openInto r.2 now opens hash

/-- `data_cache_reopen`. -/
def dataCacheReopen (s : State) (now : ℤ) (opens : Bool) (hash : HASH) :
    Option (Option ℕ × State) :=
  (tdxCacheDelete s hash).bind fun r => openInto r.2 now opens hash

/-- The data that an overview call works with. -/
def fetch (s : State) (anew : Bool) (hash : HASH) (now : ℤ) (opens : Bool) :
    Option (Option ℕ × State) :=
  if anew then dataCacheReopen s now opens hash else dataCacheOpen s now opens hash

/-- What the overview calls do: get the data of a group, from the cache or anew, perhaps for a
search; and close a search. -/
inductive Event where
  | fetch (anew : Bool) (hash : HASH) (now : ℤ) (opens search : Bool)
  | closesearch (data : ℕ)

/-- `tdx_search_open` where it starts a search. -/
def State.hold (s : State) (data : ℕ) : State :=
  { s with
    refcount := update s.refcount data (s.refcount data + 1), searches := data :: s.searches }

def step (s : State) : Event → Option State
  | .fetch anew hash now opens search =>
    (fetch s anew hash now opens).map fun r =>
      r.1.elim r.2 fun data => if search then r.2.hold data else r.2
  | .closesearch data =>
    -- a caller has the handles of open searches only
    if data ∈ s.searches then some { s.drop data with searches := s.searches.erase data }
    else some s

def run (s : State) (events : List Event) : Option State := events.foldlM step s

/-! ## Holders -/

/-- The data below `n` are counted by their holders, and those without one are closed. -/
structure Ledger (n : ℕ) (refcount : ℕ → ℤ) (closed : ℕ → ℕ) (holders : List ℕ) : Prop where
  lt : ∀ d ∈ holders, d < n
  refs : ∀ d, refcount d = holders.count d
  closed : ∀ d, closed d = if d < n ∧ d ∉ holders then 1 else 0

section Holders

variable {n n' d : ℕ} {refcount : ℕ → ℤ} {closed : ℕ → ℕ} {l l' : List ℕ}

theorem Ledger.perm (h : Ledger n refcount closed l) (hl : l.Perm l') :
    Ledger n refcount closed l' where
  lt d hd := h.lt d (hl.mem_iff.mpr hd)
  refs d := by rw [h.refs, hl.count_eq]
  closed d := by simp only [h.closed, hl.mem_iff]

/-- One holder more, of a data that has one or of the next. -/
theorem Ledger.hold (h : Ledger n refcount closed l) (hd : d ∈ l ∧ n' = n ∨ d = n ∧ n' = n + 1) :
    Ledger n' (update refcount d (refcount d + 1)) closed (d :: l) where
  lt := by
    have := h.lt
    grind
  refs d' := by
    have := h.refs d'
    rw [update_apply, List.count_cons]
    grind
  closed d' := by
    have := h.lt d'
    rw [h.closed]
    grind

/-- The last holder closes the data. -/
theorem Ledger.drop (h : Ledger n refcount closed (d :: l)) :
    Ledger n (update refcount d (refcount d - 1))
      (if refcount d - 1 = 0 then update closed d (closed d + 1) else closed) l where
  lt d' hd := h.lt d' (List.mem_cons_of_mem d hd)
  refs d' := by
    have := h.refs d'
    rw [List.count_cons] at this
    rw [update_apply]
    grind
  closed d' := by
    have hclosed := h.closed d'
    have hlt := h.lt d List.mem_cons_self
    have hrefs := h.refs d
    rw [List.count_cons_self] at hrefs
    have hzero : refcount d - 1 = 0 ↔ d ∉ l := by
      rw [← List.count_eq_zero]
      omega
    simp only [hzero, apply_ite fun f : ℕ → ℕ => f d', update_apply]
    grind

end Holders

/-! ## What every operation keeps -/

theorem lawful_entries : Lawful entryFuncs (id : HASH → HASH) where
  equal _ _ := beq_iff_eq
  hash _ _ h := congrArg entryHash h

def State.holders (s : State) : List ℕ := s.hashtable.elements.map Entry.data ++ s.searches

/-- The table stands for the map `m`, and the data below `n` are held by its entries and by the
searches. -/
structure Balanced (size n : ℕ) (m : HASH → Option Entry) (s : State) : Prop where
  table : Libinn.Hashtab.Inv entryFuncs id s.hashtable m
  count : s.count = s.hashtable.elements.length
  room : s.count ≤ size ∧ s.max = size ∧ 0 < size ∧ size ≤ 2 ^ 29
  own : ∀ e ∈ s.hashtable.elements, s.opened[e.data]? = some e.hash
  ledger : Ledger n s.refcount s.closed s.holders

section Steps

variable {size n : ℕ} {m : HASH → Option Entry} {s : State} {hash : HASH}

/-- The entry of a group, and the others. -/
theorem Balanced.entries (h : Balanced size n m s) (hash : HASH) :
    s.hashtable.elements.Perm
      ((m hash).toList ++ s.hashtable.elements.filter fun e => e.hash ≠ hash) :=
  h.table.elements_update (c := hash) (by rw [update_eq_self]; exact h.table)

theorem Balanced.delete (h : Balanced size n m s) (hash : HASH) :
    ∃ s', tdxCacheDelete s hash = some ((m hash).isSome, s') ∧
      Balanced size n (update m hash none) s' ∧ s'.opened = s.opened ∧
      ((m hash).isSome → s'.count < size) := by
  obtain ⟨h', hreplace, htable⟩ := @hash_replace_spec _ _ _ entryFuncs id s.hashtable m _
    lawful_entries h.table hash .deleted rfl (by rintro d ⟨⟩)
  rw [tdxCacheDelete, hash_lookup_spec lawful_entries h.table, Option.bind_some, hash_delete,
    hreplace, id]
  cases hm : m hash with
  | none =>
    -- nothing is replaced
    obtain rfl : h' = s.hashtable := by
      rw [hash_replace, id, hm] at hreplace
      obtain ⟨found, -, heq⟩ := Option.map_eq_some_iff.mp hreplace
      cases hf : found.1 <;> simp_all
    have hsame : update m hash none = m := update_eq_self_iff.mpr hm.symm
    exact ⟨s, rfl, hsame.symm ▸ h, rfl, by simp⟩
  | some e =>
    rw [id, hm] at htable
    have hentries := h.entries hash
    rw [hm] at hentries
    have hcons := hentries.trans ((h.table.elements_update htable).symm.cons e)
    have hlength := hcons.length_eq
    have hroom := h.room
    have hcount := h.count
    rw [List.length_cons] at hlength
    refine ⟨{ s.drop e.data with
      hashtable := { h' with ndeleted := h'.ndeleted + 1 }, count := s.count - 1 },
      rfl, ?_, rfl, ?_⟩
    · exact {
        table := htable
        count := by
          rw [hcount, hlength]
          rfl
        room := ⟨(Nat.sub_le _ _).trans hroom.1, hroom.2⟩
        own := fun e' he' => h.own e' (hcons.mem_iff.mpr (List.mem_cons_of_mem e he'))
        ledger := (h.ledger.perm ((hcons.map Entry.data).append_right _)).drop }
    · intro _
      dsimp only [State.drop]
      omega

/-- A new entry holds the data that was opened for it. -/
theorem Balanced.insert (h : Balanced size n m s) (hm : m hash = none) (hroom : s.count < size)
    (hnew : s.opened[n]? = some hash) (now : ℤ) :
    ∃ s', insertEntry s now hash n = some s' ∧
      Balanced size (n + 1) (update m hash (some ⟨n, hash⟩)) s' ∧ s'.opened = s.opened ∧
      n ∈ s'.holders := by
  have hfits : hash_count s.hashtable ≤ 2 ^ 29 := by
    rw [← h.table.length_elements, ← h.count]
    exact h.room.1.trans h.room.2.2.2
  have hentries := h.entries hash
  obtain ⟨h', hinsert, htable⟩ := @hash_insert_spec _ _ _ entryFuncs id s.hashtable m _
    lawful_entries h.table (fun _ => hfits) hash ⟨n, hash⟩ rfl
  rw [id, hm] at htable
  rw [hm] at hentries
  have hcons := (h.table.elements_update htable).trans (hentries.symm.cons _)
  have hholders := ((hcons.map Entry.data).append_right s.searches).symm
  refine ⟨{ s with
    hashtable := h', refcount := update s.refcount n (s.refcount n + 1)
    lastused := update s.lastused n now, count := s.count + 1 },
    by rw [insertEntry, hinsert, id, hm]; rfl, ?_, rfl, hholders.mem_iff.mp List.mem_cons_self⟩
  exact {
    table := htable
    count := by
      rw [h.count]
      exact hcons.length_eq.symm
    room := ⟨hroom, h.room.2⟩
    own := by
      intro e he
      rcases List.mem_cons.mp (hcons.mem_iff.mp he) with rfl | he
      · exact hnew
      · exact h.own e he
    ledger := (h.ledger.hold (.inr ⟨rfl, rfl⟩)).perm hholders }

/-- The victim is one of the entries. -/
theorem foldl_entryFindOldest (s : State) (old : Entry) (l : List Entry) :
    ∃ o ∈ old :: l, l.foldl s.entryFindOldest (some old) = some o := by
  induction l generalizing old with
  | nil => exact ⟨old, List.mem_cons_self, rfl⟩
  | cons e l ih =>
    have hold := ih old
    have he := ih e
    rw [List.foldl_cons, State.entryFindOldest]
    split_ifs <;> grind

/-- A full cache has room after its victim has left. -/
theorem Balanced.cacheInsert (h : Balanced size n m s) (hm : m hash = none)
    (hnew : s.opened[n]? = some hash) (now : ℤ) :
    ∃ s' m', tdxCacheInsert s now hash n = some s' ∧ Balanced size (n + 1) m' s' ∧
      s'.opened = s.opened ∧ n ∈ s'.holders := by
  rw [tdxCacheInsert]
  split
  · rename_i hfull
    have hroom := h.room
    cases hl : s.hashtable.elements with
    | nil =>
      have hcount := h.count
      rw [hl, List.length_nil] at hcount
      omega
    | cons e l =>
      obtain ⟨o, ho, hfold⟩ := foldl_entryFindOldest s e l
      have hmo : m o.hash = some o := h.table.mem_elements.mp (hl ▸ ho)
      obtain ⟨s₁, hdelete, h₁, hopened, hlt⟩ := h.delete o.hash
      rw [hmo] at hdelete hlt
      obtain ⟨s', hinsert, h', hopened', hmem⟩ := h₁.insert (show _ = none by
        rw [update_apply]
        split <;> simp [hm]) (hlt rfl) (hopened ▸ hnew) now
      refine ⟨s', _, ?_, h', hopened'.trans hopened, hmem⟩
      rw [hash_traverse, hl, List.foldl_cons, show s.entryFindOldest none e = some e from rfl,
        hfold]
      dsimp only
      rw [hdelete]
      exact hinsert
  · rename_i hfull
    obtain ⟨s', hinsert, h', hopened, hmem⟩ :=
      h.insert hm (Nat.lt_of_le_of_ne h.room.1 (h.room.2.1 ▸ hfull)) hnew now
    exact ⟨s', _, hinsert, h', hopened, hmem⟩

/-- The state between two calls. -/
def Good (size : ℕ) (s : State) : Prop := ∃ m, Balanced size s.opened.length m s

theorem Balanced.openInto (h : Balanced size s.opened.length m s) (hm : m hash = none) (now : ℤ)
    (opens : Bool) :
    ∃ r, openInto s now opens hash = some r ∧ Good size r.2 ∧
      ∀ d ∈ r.1, d ∈ r.2.holders ∧ r.2.opened[d]? = some hash := by
  cases opens with
  | false => exact ⟨(none, s), rfl, ⟨m, h⟩, nofun⟩
  | true =>
    have hopen : Balanced size s.opened.length m { s with opened := s.opened ++ [hash] } :=
      { h with
        own := by
          intro e he
          have hown := h.own e he
          rwa [List.getElem?_append_left (List.getElem?_eq_some_iff.mp hown).1] }
    obtain ⟨s', m', hinsert, h', hopened, hmem⟩ :=
      hopen.cacheInsert hm List.getElem?_concat_length now
    refine ⟨(some s.opened.length, s'), by rw [Cache.openInto, if_pos rfl, hinsert]; rfl, ⟨m', ?_⟩,
      by rintro _ ⟨⟩; exact ⟨hmem, hopened ▸ List.getElem?_concat_length⟩⟩
    rw [hopened, List.length_append]
    exact h'

theorem Good.fetch (h : Good size s) (anew : Bool) (hash : HASH) (now : ℤ) (opens : Bool) :
    ∃ r, fetch s anew hash now opens = some r ∧ Good size r.2 ∧
      ∀ d ∈ r.1, d ∈ r.2.holders ∧ r.2.opened[d]? = some hash := by
  obtain ⟨m, h⟩ := h
  cases anew with
  | true =>
    obtain ⟨s', hdelete, h', hopened, -⟩ := h.delete hash
    rw [← hopened] at h'
    rw [Cache.fetch, if_pos rfl, dataCacheReopen, hdelete]
    exact h'.openInto (update_self ..) now opens
  | false =>
    rw [Cache.fetch, if_neg Bool.false_ne_true, dataCacheOpen, tdxCacheLookup,
      hash_lookup_spec lawful_entries h.table, Option.map_some, Option.bind_some, id]
    cases hm : m hash with
    | none => exact h.openInto hm now opens
    | some e =>
      refine ⟨_, rfl, ⟨m, { h with }⟩, ?_⟩
      rintro _ ⟨⟩
      obtain rfl : e.hash = hash := (h.table.reached hash e hm).1
      have hmem := h.table.mem_elements.mpr hm
      exact ⟨List.mem_append_left _ (List.mem_map_of_mem hmem), h.own e hmem⟩

theorem Good.step (h : Good size s) (event : Event) :
    ∃ s', step s event = some s' ∧ Good size s' := by
  cases event with
  | fetch anew hash now opens search =>
    obtain ⟨r, hfetch, ⟨m, h'⟩, hmem⟩ := h.fetch anew hash now opens
    rw [Cache.step, hfetch, Option.map_some]
    refine ⟨_, rfl, ?_⟩
    cases hr : r.1 with
    | none => exact ⟨m, h'⟩
    | some d =>
      cases search with
      | false => exact ⟨m, h'⟩
      | true =>
        refine ⟨m, { h' with ledger := ?_ }⟩
        exact (h'.ledger.hold (.inl ⟨(hmem d hr).1, rfl⟩)).perm List.perm_middle.symm
  | closesearch data =>
    obtain ⟨m, h⟩ := h
    rw [Cache.step]
    split
    · rename_i hd
      refine ⟨_, rfl, m, { h with ledger := ?_ }⟩
      refine (h.ledger.perm ?_).drop
      exact ((List.perm_cons_erase hd).append_left _).trans List.perm_middle
    · exact ⟨s, rfl, m, h⟩

theorem Good.run (h : Good size s) (events : List Event) :
    ∃ s', run s events = some s' ∧ Good size s' := by
  induction events generalizing s with
  | nil => exact ⟨s, rfl, h⟩
  | cons event events ih =>
    obtain ⟨s₁, hstep, h₁⟩ := h.step event
    obtain ⟨s', hrun, h'⟩ := ih h₁
    exact ⟨s', by rw [Cache.run, List.foldlM_cons, hstep]; exact hrun, h'⟩

theorem good_create (hsize : 0 < size ∧ size ≤ 2 ^ 29) :
    ∃ s, tdxCacheCreate size = some s ∧ Good size s := by
  obtain ⟨k, hk, heq, -⟩ := @hash_size_eq (size * 4 % 2 ^ 32 / 3) (by omega)
  refine ⟨_, by rw [tdxCacheCreate, hash_create, heq]; rfl, fun _ => none, ?_⟩
  have hnil : (blank Entry (2 ^ k)).elements = [] := by
    simp [Hash.elements, blank, Slot.element]
  exact {
    table := inv_blank entryFuncs id hk
    count := by rw [hnil]; rfl
    room := ⟨Nat.zero_le _, rfl, hsize⟩
    own := by simp [hnil]
    ledger := ⟨by simp [State.holders, hnil], by simp [State.holders, hnil], by simp⟩ }

end Steps

end Inn.Tradindexed.Cache
