import Inn.History.Hissqlite
import Inn.Rules

/-!
# Inn.History.InPlace — what the other process stored

The rows another process stores while the history is expired in place. Between the scan of a
page and its actions the other process may replace a row, and an action finds its row by the
hash alone.

* `Sound` — what holds between two statements, `next_sound` for one statement;
* `Alone` — what holds in addition while the expiry has the table for itself, `next_alone`;
* `expire_in_place` — the rows of the other process, and the result of an expiry alone;
* `replaced_row` — an action for a row that was replaced.
-/

namespace Inn.History.Hissqlite

open Inn.History.Expire (Article)

theorem blob_inj {hash hash' : HASH} : blob hash = blob hash' ↔ hash = hash' := by
  constructor
  · intro h
    have hlist := List.map_injective_iff.mpr (fun _ _ h => UInt8.toNat_inj.mp h) h
    exact Vector.toList_inj.mp hlist
  · rintro rfl
    rfl

section Settle

variable {c : Call} {s : Expiry}

theorem settle_same : (settle c s).hist = s.hist ∧ (settle c s).asked = s.asked ∧
    (settle c s).stored = s.stored ∧ (settle c s).acts = s.acts ∧ (settle c s).last = s.last ∧
    (settle c s).more = s.more := by
  rw [settle]
  split
  · exact ⟨rfl, rfl, rfl, rfl, rfl, rfl⟩
  · exact ⟨rfl, rfl, rfl, rfl, rfl, rfl⟩

/-- Where the expiry goes on. -/
theorem settle_phase : s.acts ≠ [] ∧ (settle c s).phase = .apply ∨
    s.acts = [] ∧ s.more = true ∧ (settle c s).phase = .scan ∨
    s.acts = [] ∧ s.more = false ∧ c.writing = true ∧ (settle c s).phase = .remembered ∨
    s.acts = [] ∧ s.more = false ∧ c.writing = false ∧ (settle c s).phase = .returned true := by
  rw [settle]
  by_cases hacts : s.acts = []
  · rw [if_neg (not_not.mpr hacts)]
    dsimp only
    cases hmore : s.more with
    | true => exact .inr (.inl ⟨hacts, rfl, rfl⟩)
    | false =>
      cases hwriting : c.writing with
      | true => exact .inr (.inr (.inl ⟨hacts, rfl, rfl, rfl⟩))
      | false => exact .inr (.inr (.inr ⟨hacts, rfl, rfl, rfl⟩))
  · rw [if_pos hacts]
    exact .inl ⟨hacts, rfl⟩

end Settle

/-! ## The actions -/

section Actions

variable {hist : Hist} {act : Action} {q : Asked} {hash : HASH}

theorem action_eq (h : q.action = some act) : act.hash = q.row.hash ∧ act.result = q.result ∧
    act = ⟨q.row.hash, q.token, if q.keep then q.row.expires else 0, !q.keep⟩ := by
  rw [Asked.action] at h
  split at h
  · cases h
  · cases h
    refine ⟨rfl, ?_, rfl⟩
    rw [Action.result, Asked.result]
    cases q.keep <;> rfl

/-- Nothing is to be done: the row is as `decide` wants it. -/
theorem action_none (h : q.action = none) : q.decided = q.row := by
  rw [Asked.action] at h
  split at h
  · rename_i hkeep
    obtain ⟨hkeep, htoken⟩ := Bool.and_eq_true_iff.mp hkeep
    rw [Asked.decided, Asked.result, if_pos hkeep, if_pos hkeep, beq_iff_eq.mp htoken]
  · cases h

/-- The row an action is for. -/
theorem find_apply_self : (act.apply hist).find (blob act.hash) =
    (hist.find (blob act.hash)).map fun e =>
      { e with token := act.result, expires := if act.transition then 0 else act.expires } := by
  rw [Action.apply, Action.result]
  cases act.transition with
  | true => exact Keyset.Table.find_change_self (by exact fun _ => rfl)
  | false => exact Keyset.Table.find_change_self (by exact fun _ => rfl)

theorem find_apply_of_ne (h : hash ≠ act.hash) :
    (act.apply hist).find (blob hash) = hist.find (blob hash) := by
  have hne : blob hash ≠ blob act.hash := fun heq => h (blob_inj.mp heq)
  rw [Action.apply]
  cases act.transition with
  | true => exact Keyset.Table.find_change_of_ne (by exact fun _ => rfl) hne
  | false => exact Keyset.Table.find_change_of_ne (by exact fun _ => rfl) hne

end Actions

/-! ## The second pass -/

section Second

variable {threshold : Time} {hist hist' : Hist} {picked : List HASH} {e : Article}

/-- The two forms of the threshold rule. -/
theorem forgettable_iff (h : e.posted ≤ 0 → threshold ≤ e.posted → threshold ≤ e.arrived)
    (htoken : e.token = none) : Forgettable threshold e ↔ ¬ Remains threshold e := by
  have hzero : (0 : Time).toInt = 0 := rfl
  rw [Forgettable, Remains]
  rw [Int64.le_iff_toInt_le, Int64.le_iff_toInt_le, Int64.le_iff_toInt_le, hzero] at h
  rw [Int64.le_iff_toInt_le, Int64.le_iff_toInt_le, Int64.le_iff_toInt_le, hzero]
  by_cases hposted : 0 < e.posted
  · rw [if_pos hposted, Int64.lt_iff_toInt_lt]
    rw [Int64.lt_iff_toInt_lt, hzero] at hposted
    constructor
    · rintro ⟨-, hlt⟩ (hne | hle | ⟨hle, -⟩)
      · exact hne htoken
      · omega
      · omega
    · exact fun hno => ⟨htoken, not_le.mp fun hle => hno (.inr (.inl hle))⟩
  · rw [if_neg hposted, Int64.lt_iff_toInt_lt]
    rw [Int64.lt_iff_toInt_lt, hzero] at hposted
    constructor
    · rintro ⟨-, hlt⟩ (hne | hle | ⟨-, hle⟩)
      · exact hne htoken
      · have := h (by omega) hle
        omega
      · omega
    · exact fun hno => ⟨htoken, not_le.mp fun hle => hno (.inr (.inr ⟨by omega, hle⟩))⟩

/-- The rows that are deleted are remembered ones that the condition allows to forget. -/
theorem expireRemembered_spec (h : expireRemembered threshold hist picked = some hist') :
    hist' = hist.delete (fun e => picked.contains e.hash) ∧
      picked.length = min (hist.rows.filter fun e => Forgettable threshold e).length REMEMBERED_LIMIT ∧
      ∀ e ∈ hist.rows, e.hash ∈ picked → Forgettable threshold e := by
  rw [expireRemembered] at h
  split at h
  · rename_i hpicked
    cases h
    obtain ⟨-, hsub, hlen⟩ := hpicked
    rw [List.length_map] at hlen
    refine ⟨rfl, hlen, fun e he hmem => ?_⟩
    obtain ⟨e', he', heq⟩ := List.mem_map.mp (hsub hmem)
    obtain ⟨hrow, hold⟩ := List.mem_filter.mp he'
    rw [Keyset.Table.eq_of_key he hrow (blob_inj.mpr heq.symm)]
    exact of_decide_eq_true hold
  · cases h

/-- SQLite can pick rows. -/
theorem exists_expireRemembered (threshold : Time) (hist : Hist) :
    ∃ picked hist', expireRemembered threshold hist picked = some hist' := by
  have hnodup : ((hist.rows.filter fun e => Forgettable threshold e).map (·.hash)).Nodup := by
    refine List.pairwise_map.mpr ((hist.sorted.filter _).imp fun {e e'} hlt heq => ?_)
    rw [heq] at hlt
    exact lt_irrefl _ hlt
  refine ⟨((hist.rows.filter fun e => Forgettable threshold e).map (·.hash)).take REMEMBERED_LIMIT, _,
    if_pos ⟨hnodup.sublist (List.take_sublist _ _), List.take_subset _ _, ?_⟩⟩
  rw [List.length_take, Nat.min_comm]

/-- A step that picks a row leaves fewer. -/
theorem length_expireRemembered (h : expireRemembered threshold hist picked = some hist')
    (hne : picked ≠ []) : hist'.rows.length < hist.rows.length := by
  rw [expireRemembered] at h
  split at h
  · rename_i hpicked
    cases h
    obtain ⟨hash, rest, rfl⟩ := List.exists_cons_of_ne_nil hne
    obtain ⟨e, he, hhash⟩ := List.mem_map.mp (hpicked.2.1 List.mem_cons_self)
    refine List.length_filter_lt_length_iff_exists.mpr ⟨e, (List.mem_filter.mp he).1, ?_⟩
    dsimp only
    rw [hhash, List.contains_iff_mem.mpr List.mem_cons_self]
    exact Bool.false_ne_true
  · cases h

end Second

/-! ## The rows of the other process -/

/-- What holds between two statements. -/
structure Sound (c : Call) (s : Expiry) : Prop where
  sorted : s.asked.Pairwise fun q q' => blob q.row.hash < blob q'.row.hash
  behind : (∀ ok, s.phase ≠ .returned ok) → s.more = true →
    ∀ q ∈ s.asked, ∃ l, s.last = some l ∧ blob q.row.hash ≤ l
  token : ∀ q ∈ s.asked, q.row.token ≠ none
  acts : ∀ act ∈ s.acts, ∃ q ∈ s.asked, q.action = some act
  scanning : s.phase = .scan → s.more = true
  stands : ∀ e ∈ s.stored, Stands c s e

section Stored

variable {c : Call} {s s' : Expiry} {e : Article} {answers : List (Bool × TOKEN)}

theorem sound_start (hist : Hist) : Sound c (start hist) where
  sorted := List.Pairwise.nil
  behind _ _ _ hq := absurd hq List.not_mem_nil
  token _ hq := absurd hq List.not_mem_nil
  acts _ hact := absurd hact List.not_mem_nil
  scanning _ := rfl
  stands _ he := absurd he List.not_mem_nil

/-- `decide` is asked about a hash once. -/
theorem asked_unique {asked : List Asked}
    (h : asked.Pairwise fun q q' => blob q.row.hash < blob q'.row.hash) {q q' : Asked}
    (hq : q ∈ asked) (hq' : q' ∈ asked) (heq : q.row.hash = q'.row.hash) : q = q' :=
  @Keyset.Table.eq_of_key _ _ _ (fun q : Asked => blob q.row.hash) ⟨asked, h⟩ q q' hq hq'
    (blob_inj.mpr heq)

/-- What became of a row, if the row is as before. -/
theorem Stands.mono (h : Stands c s e) (hasked : s.asked ⊆ s'.asked)
    (hfind : s'.hist.find (blob e.hash) = s.hist.find (blob e.hash)) : Stands c s' e := by
  obtain ⟨token, hbecomes, hrow⟩ := h
  refine ⟨token, ?_, hfind ▸ hrow⟩
  exact hbecomes.imp_right fun ⟨q, hq, hrest⟩ => ⟨q, hasked hq, hrest⟩

/-- An action is applied. -/
theorem Sound.stands_apply (h : Sound c s) {act : Action} {acts : List Action}
    (hacts : s.acts = act :: acts) (hmeets : Meets c s .apply) (he : e ∈ s.stored)
    (hhist : s'.hist = act.apply s.hist) (hasked : s'.asked = s.asked) : Stands c s' e := by
  by_cases heq : e.hash = act.hash
  · obtain ⟨token, hbecomes, hrow⟩ := h.stands e he
    have hmem : act ∈ s.acts := hacts ▸ List.mem_cons_self
    obtain ⟨q, hq, haction⟩ := h.acts act hmem
    obtain ⟨hhash, hresult, -⟩ := action_eq haction
    rcases hrow with ⟨r, hfind, rfl, harrived, hposted⟩ | ⟨hfind, hgone⟩
    · have hfind' : s'.hist.find (blob e.hash) = some
          { r with token := act.result, expires := if act.transition then 0 else act.expires } := by
        rw [hhist, heq, find_apply_self, ← heq, hfind]
        rfl
      refine ⟨act.result, ?_, .inl ⟨_, hfind', rfl, harrived, hposted⟩⟩
      rw [Becomes, hasked]
      rw [heq] at hfind
      rcases hmeets act (by rw [hacts]; rfl) r hfind with hsame | ⟨q', hq', hhash', htoken⟩
      · exact hsame ▸ hbecomes
      · have hqq := asked_unique h.sorted hq' hq (hhash'.trans hhash)
        subst hqq
        rcases hbecomes with hbecomes | ⟨q'', hq'', hhash'', htoken'', -⟩
        · exact .inr ⟨q', hq', hhash'.trans heq.symm, htoken.trans hbecomes, hresult⟩
        · have hqq := asked_unique h.sorted hq'' hq' (hhash''.trans (heq.trans hhash'.symm))
          subst hqq
          exact .inr ⟨q'', hq'', hhash'', htoken'', hresult⟩
    · refine ⟨token, ?_, .inr ⟨?_, hgone⟩⟩
      · rw [Becomes, hasked]
        exact hbecomes
      · rw [hhist, heq, find_apply_self, ← heq, hfind]
        rfl
  · exact (h.stands e he).mono (hasked ▸ List.Subset.refl _) (by rw [hhist, find_apply_of_ne heq])

/-- Remembered rows are deleted. -/
theorem Sound.stands_remembered (h : Sound c s) {picked : List HASH} {hist : Hist}
    (hmeets : Meets c s (.remembered picked))
    (hdelete : expireRemembered c.threshold s.hist picked = some hist) (he : e ∈ s.stored)
    (hhist : s'.hist = hist) (hasked : s'.asked = s.asked) : Stands c s' e := by
  obtain ⟨rfl, -, hold⟩ := expireRemembered_spec hdelete
  obtain ⟨token, hbecomes, hrow⟩ := h.stands e he
  have hbecomes' : Becomes s'.asked e token := by rwa [hasked]
  rcases hrow with ⟨r, hfind, htoken, harrived, hposted⟩ | ⟨hfind, hgone⟩
  · have hfind' : s'.hist.find (blob e.hash) = (some r).filter fun r => !picked.contains r.hash := by
      rw [hhist, Keyset.Table.find_delete, hfind]
    obtain ⟨hr, hkey⟩ := Keyset.Table.find_eq_some.mp hfind
    by_cases hpicked : r.hash ∈ picked
    · have hforget := hold r hr hpicked
      have hgone := (forgettable_iff (hmeets r hr hforget.1) hforget.1).mp hforget
      refine ⟨token, hbecomes', .inr ⟨?_, fun hremains => hgone ?_⟩⟩
      · rw [hfind', Option.filter_some, if_neg]
        rw [List.contains_iff_mem.mpr hpicked]
        exact Bool.false_ne_true
      · rw [Remains] at hremains ⊢
        rwa [htoken, harrived, hposted]
    · refine ⟨token, hbecomes', .inl ⟨r, ?_, htoken, harrived, hposted⟩⟩
      rw [hfind', Option.filter_some, if_pos]
      rw [Bool.not_eq_true', ← Bool.not_eq_true, List.contains_iff_mem]
      exact hpicked
  · refine ⟨token, hbecomes', .inr ⟨?_, hgone⟩⟩
    rw [hhist, Keyset.Table.find_delete, hfind]
    rfl

/-- The other process stores a row. -/
theorem Sound.store (h : Sound c s) {hist : Hist} (hself : hist.find (blob e.hash) = some e)
    (hother : ∀ hash, hash ≠ e.hash → hist.find (blob hash) = s.hist.find (blob hash)) :
    Sound c (store s hist e) where
  sorted := h.sorted
  behind := h.behind
  token := h.token
  acts := h.acts
  scanning := h.scanning
  stands e' he' := by
    rcases List.mem_cons.mp he' with rfl | he'
    · exact ⟨e'.token, .inl rfl, .inl ⟨e', hself, rfl, rfl, rfl⟩⟩
    · obtain ⟨he', hne⟩ := List.mem_filter.mp he'
      exact (h.stands e' he').mono (List.Subset.refl _) (hother _ (of_decide_eq_true hne))

theorem find_put_ne {hist : Hist} (hash : HASH) (h : hash ≠ e.hash) :
    (hist.put e).find (blob hash) = hist.find (blob hash) :=
  Keyset.Table.find_put_of_ne fun heq => h (blob_inj.mp heq)

theorem Sound.storeNew (h : Sound c s) : Sound c (storeNew s e) := by
  rw [Hissqlite.storeNew, insertNew]
  split
  · exact ⟨h.sorted, h.behind, h.token, h.acts, h.scanning, h.stands⟩
  · exact h.store Keyset.Table.find_put_self find_put_ne

theorem map_row_zipWith (rows : List Article) (answers : List (Bool × TOKEN)) :
    (List.zipWith (fun row answer => Asked.mk row answer.1 answer.2) rows answers).map (·.row) =
      rows.take answers.length := by
  induction rows generalizing answers with
  | nil => rw [List.zipWith_nil_left, List.take_nil, List.map_nil]
  | cons row rows ih =>
    cases answers with
    | nil => rfl
    | cons answer answers =>
      rw [List.zipWith_cons_cons, List.map_cons, ih, List.length_cons, List.take_succ_cons]

/-- The rows `decide` is asked about. -/
theorem map_row_askAll : (askAll s answers).map (·.row) = (nextPage s).take answers.length :=
  map_row_zipWith _ _

theorem mem_askAll {q : Asked} (h : q ∈ askAll s answers) : q.row ∈ nextPage s :=
  List.mem_of_mem_take (map_row_askAll ▸ List.mem_map.mpr ⟨q, h, rfl⟩)

/-- They come after those it was asked about before. -/
theorem Sound.sorted_askAll (h : Sound c s) (hphase : s.phase = .scan) :
    (s.asked ++ askAll s answers).Pairwise fun q q' => blob q.row.hash < blob q'.row.hash := by
  refine List.pairwise_append.mpr ⟨h.sorted, ?_, fun q hq q' hq' => ?_⟩
  · have hpage : ((askAll s answers).map (·.row)).Pairwise fun e e' => blob e.hash < blob e'.hash := by
      rw [map_row_askAll]
      exact Keyset.Table.page_sorted.take
    rwa [List.pairwise_map] at hpage
  · obtain ⟨l, hlast, hle⟩ := h.behind (fun ok heq => by rw [hphase] at heq; cases heq)
      (h.scanning hphase) q hq
    exact lt_of_le_of_lt hle ((Keyset.Table.mem_page (mem_askAll hq')).2.2 l hlast)

theorem Sound.token_askAll (h : Sound c s) :
    ∀ q ∈ s.asked ++ askAll s answers, q.row.token ≠ none := by
  intro q hq
  rcases List.mem_append.mp hq with hq | hq
  · exact h.token q hq
  · have hsome := (Keyset.Table.mem_page (mem_askAll hq)).2.1
    intro hnone
    rw [hasToken, hnone] at hsome
    cases hsome

/-- A full page ends at its last key. -/
theorem Sound.behind_askAll (h : Sound c s) (hphase : s.phase = .scan)
    (hfull : ¬ (nextPage s).length < HISSQLITE_EXPIRE_BATCH) :
    ∀ q ∈ s.asked ++ askAll s answers, ∃ l,
      Keyset.Table.lastKey (fun e : Article => blob e.hash) s.last (nextPage s) = some l ∧
        blob q.row.hash ≤ l := by
  rcases Keyset.Table.lastKey_cases s.last (nextPage s) with ⟨hnil, -⟩ | ⟨init, r, hpage, hlast⟩
  · rw [hnil] at hfull
    exact absurd (by decide) hfull
  · intro q hq
    refine ⟨_, hlast, ?_⟩
    have hsorted : (nextPage s).Pairwise fun e e' => blob e.hash < blob e'.hash := Keyset.Table.page_sorted
    have hr : r ∈ nextPage s := hpage ▸ List.mem_append_right init (List.mem_singleton.mpr rfl)
    rcases List.mem_append.mp hq with hq | hq
    · obtain ⟨l, hl, hle⟩ := h.behind (fun ok heq => by rw [hphase] at heq; cases heq)
        (h.scanning hphase) q hq
      exact hle.trans ((Keyset.Table.mem_page hr).2.2 l hl).le
    · have hrow := mem_askAll hq
      rw [hpage] at hrow hsorted
      rcases List.mem_append.mp hrow with hrow | hrow
      · exact ((List.pairwise_append.mp hsorted).2.2 _ hrow r (List.mem_singleton.mpr rfl)).le
      · rw [List.mem_singleton.mp hrow]

/-- Keyset.After the actions of a page. -/
theorem sound_settle (hsorted : s.asked.Pairwise fun q q' => blob q.row.hash < blob q'.row.hash)
    (hbehind : s.more = true → ∀ q ∈ s.asked, ∃ l, s.last = some l ∧ blob q.row.hash ≤ l)
    (htoken : ∀ q ∈ s.asked, q.row.token ≠ none)
    (hacts : ∀ act ∈ s.acts, ∃ q ∈ s.asked, q.action = some act)
    (hstands : ∀ e ∈ s.stored, Stands c s e) : Sound c (settle c s) := by
  obtain ⟨hhist, hasked, hstored, hacts', hlast, hmore⟩ := @settle_same c s
  refine ⟨by rwa [hasked], fun _ => ?_, by rwa [hasked], by rwa [hacts', hasked], fun hscan => ?_, ?_⟩
  · rw [hmore, hasked, hlast]
    exact hbehind
  · rw [hmore]
    rcases @settle_phase c s with ⟨-, hphase⟩ | ⟨-, hmore, -⟩ | ⟨-, -, -, hphase⟩ | ⟨-, -, -, hphase⟩
    · rw [hphase] at hscan
      cases hscan
    · exact hmore
    · rw [hphase] at hscan
      cases hscan
    · rw [hphase] at hscan
      cases hscan
  · rw [hstored]
    exact fun e he => (hstands e he).mono (hasked ▸ List.Subset.refl _) (by rw [hhist])

/-- The expiry ends early. -/
theorem Sound.returned (h : Sound c s) {asked : List Asked} {ok : Bool}
    (hsorted : asked.Pairwise fun q q' => blob q.row.hash < blob q'.row.hash)
    (htoken : ∀ q ∈ asked, q.row.token ≠ none) (hsub : s.asked ⊆ asked) :
    Sound c { s with asked := asked, phase := .returned ok } where
  sorted := hsorted
  behind hphase := absurd rfl (hphase ok)
  token := htoken
  acts act hact := by
    obtain ⟨q, hq, haction⟩ := h.acts act hact
    exact ⟨q, hsub hq, haction⟩
  scanning hscan := by cases hscan
  stands e he := (h.stands e he).mono hsub rfl

/-- One statement. -/
theorem next_sound {event : Event} (hstep : guarded (Meets c) (Next c) s event s')
    (h : Sound c s) : Sound c s' := by
  obtain ⟨hmeets, hnext⟩ := hstep
  rw [Next] at hnext
  cases event with
  | scan answers =>
    rw [step, scan] at hnext
    split at hnext
    · cases hnext
    · rename_i hready
      rw [not_or, not_not, not_not] at hready
      cases hnext
      refine sound_settle (h.sorted_askAll hready.1) (fun hmore => ?_) h.token_askAll ?_ ?_
      · have hfull := of_decide_eq_true hmore
        dsimp only
        rw [if_pos (decide_eq_true hfull)]
        exact h.behind_askAll hready.1 hfull
      · intro act hact
        dsimp only at hact
        split at hact
        · obtain ⟨q, hq, haction⟩ := List.mem_filterMap.mp hact
          exact ⟨q, List.mem_append_right _ hq, haction⟩
        · exact absurd hact List.not_mem_nil
      · exact fun e he => (h.stands e he).mono (List.subset_append_left _ _) rfl
  | scanFails answers =>
    rw [step] at hnext
    split at hnext
    · cases hnext
    · rename_i hready
      rw [not_or, not_not] at hready
      cases hnext
      exact h.returned (h.sorted_askAll hready.1) h.token_askAll (List.subset_append_left _ _)
  | apply =>
    rw [step] at hnext
    split at hnext
    · cases hnext
    · rename_i hphase
      rw [not_not] at hphase
      cases hacts : s.acts with
      | nil =>
        rw [hacts] at hnext
        cases hnext
      | cons act acts =>
        rw [hacts] at hnext
        cases hnext
        refine sound_settle h.sorted ?_ h.token (fun act' hact' => ?_) fun e he => ?_
        · exact h.behind fun ok heq => by rw [hphase] at heq; cases heq
        · exact h.acts act' (hacts ▸ List.mem_cons_of_mem act hact')
        · exact h.stands_apply hacts hmeets he rfl rfl
  | applyFails =>
    rw [step] at hnext
    split at hnext
    · cases hnext
    · cases hnext
      exact h.returned h.sorted h.token (List.Subset.refl _)
  | remembered picked =>
    rw [step] at hnext
    split at hnext
    · cases hnext
    · rename_i hphase
      rw [not_not] at hphase
      obtain ⟨hist, hdelete, hs'⟩ := Option.map_eq_some_iff.mp hnext
      subst hs'
      refine ⟨h.sorted, fun _ => h.behind ?_, h.token, h.acts, fun hscan => ?_,
        fun e he => h.stands_remembered hmeets hdelete he rfl rfl⟩
      · exact fun ok heq => by rw [hphase] at heq; cases heq
      · dsimp only at hscan
        split at hscan
        · cases hscan
        · cases hscan
  | rememberedFails =>
    rw [step] at hnext
    split at hnext
    · cases hnext
    · cases hnext
      exact h.returned h.sorted h.token (List.Subset.refl _)
  | write hash arrived posted expires token =>
    cases hnext
    exact h.storeNew
  | remember hash arrived posted =>
    cases hnext
    exact h.storeNew
  | replace e =>
    cases hnext
    exact h.store Keyset.Table.find_put_self find_put_ne

end Stored

/-! ## An expiry alone -/

/-- The rows while actions are outstanding. -/
def current (acts : List Action) (asked : List Asked) (e : Article) : Article :=
  if ∃ act ∈ acts, act.hash = e.hash then e else decidedBy asked e

/-- The rows that are not read yet. -/
def todo (hist : Hist) (s : Expiry) : List Article :=
  if s.more then hist.unread hasToken s.last else []

/-- What holds of an expiry of `hist` that has the table for itself. -/
structure Alone (c : Call) (hist : Hist) (s : Expiry) : Prop where
  asked : s.phase ≠ .returned false → s.asked.map (·.row) ++ todo hist s = hist.rows.filter hasToken
  dry : c.writing = false → s.hist = hist ∧ s.acts = []
  first : c.writing = true → s.phase = .scan ∨ s.phase = .apply →
    s.hist.rows = hist.rows.map (current s.acts s.asked)
  nodup : (s.acts.map (·.hash)).Nodup
  scan : s.phase = .scan → s.acts = []
  apply : s.phase = .apply → s.acts ≠ []
  second : s.phase = .remembered ∨ s.phase = .returned true → s.more = false
  remains : c.writing = true → s.phase = .remembered ∨ s.phase = .returned true →
    (s.hist.rows.filter fun e => Remains c.threshold e) =
      (hist.rows.map (decidedBy s.asked)).filter fun e => Remains c.threshold e
  done : c.writing = true → s.phase = .returned true → ∀ e ∈ s.hist.rows, Remains c.threshold e
  writing : s.phase = .remembered → c.writing = true

section OnlyExpire

variable {c : Call} {hist : Hist} {s s' : Expiry} {e : Article} {q : Asked}
  {answers : List (Bool × TOKEN)}

theorem current_nil (asked : List Asked) : current [] asked = decidedBy asked := by
  funext e
  exact if_neg fun ⟨_, hact, _⟩ => absurd hact List.not_mem_nil

theorem decidedBy_nil : decidedBy [] e = e := rfl

/-- Nothing was asked about a row. -/
theorem decidedBy_of_not_asked {asked : List Asked} (h : ∀ q ∈ asked, q.row.hash ≠ e.hash) :
    decidedBy asked e = e := by
  rw [decidedBy, List.find?_eq_none.mpr fun q hq => by rw [decide_eq_true_eq]; exact h q hq]
  rfl

/-- It was asked. -/
theorem decidedBy_of_asked {asked : List Asked}
    (hsorted : asked.Pairwise fun q q' => blob q.row.hash < blob q'.row.hash) (hq : q ∈ asked)
    (h : q.row.hash = e.hash) : decidedBy asked e = q.decided := by
  rw [decidedBy]
  cases hfind : asked.find? fun q => q.row.hash = e.hash with
  | none =>
    have := List.find?_eq_none.mp hfind q hq
    exact absurd (decide_eq_true h) this
  | some q' =>
    have hq' := List.mem_of_find?_eq_some hfind
    have hhash := List.find?_some hfind
    rw [asked_unique hsorted hq' hq ((of_decide_eq_true hhash).trans h.symm)]
    rfl

theorem hash_decidedBy (asked : List Asked) (e : Article) : (decidedBy asked e).hash = e.hash := by
  rw [decidedBy]
  cases hfind : asked.find? fun q => q.row.hash = e.hash with
  | none => rfl
  | some q =>
    have hhash := List.find?_some hfind
    exact of_decide_eq_true hhash

theorem hash_current (acts : List Action) (asked : List Asked) (e : Article) :
    (current acts asked e).hash = e.hash := by
  rw [current]
  split
  · rfl
  · exact hash_decidedBy asked e

theorem filter_map_eq {f : Article → Article} {p : Article → Bool} {l : List Article}
    (h : ∀ e ∈ l, p (f e) = p e ∧ (p e = true → f e = e)) : (l.map f).filter p = l.filter p := by
  induction l with
  | nil => rfl
  | cons e l ih =>
    obtain ⟨hp, hf⟩ := h e List.mem_cons_self
    have ih := ih fun e he => h e (List.mem_cons_of_mem _ he)
    rw [List.map_cons]
    cases hpe : p e with
    | true => rw [List.filter_cons_of_pos (hp.trans hpe), List.filter_cons_of_pos hpe, ih, hf hpe]
    | false =>
      rw [List.filter_cons_of_neg (by rw [hp, hpe]; exact Bool.false_ne_true),
        List.filter_cons_of_neg (by rw [hpe]; exact Bool.false_ne_true), ih]

theorem alone_start : Alone c hist (start hist) where
  asked _ := by
    show [] ++ hist.unread hasToken none = _
    rw [List.nil_append, Keyset.Table.unread]
    refine List.filter_congr fun e _ => ?_
    have hafter : Keyset.After none (blob e.hash) := fun l heq => by cases heq
    rw [decide_eq_true hafter, Bool.and_true]
  dry _ := ⟨rfl, rfl⟩
  first _ _ := by
    show hist.rows = hist.rows.map (current [] [])
    rw [current_nil, List.map_congr_left fun e _ => decidedBy_nil, List.map_id']
  nodup := List.nodup_nil
  scan _ := rfl
  apply h := by cases h
  second h := by rcases h with h | h <;> cases h
  remains _ h := by rcases h with h | h <;> cases h
  done _ h := by cases h
  writing h := by cases h

/-- The asked rows are rows of the table. -/
theorem Alone.row_mem (h : Alone c hist s) (hphase : s.phase ≠ .returned false) (hq : q ∈ s.asked) :
    q.row ∈ hist.rows := by
  have hmem : q.row ∈ s.asked.map (·.row) ++ todo hist s :=
    List.mem_append_left _ (List.mem_map.mpr ⟨q, hq, rfl⟩)
  rw [h.asked hphase] at hmem
  exact (List.mem_filter.mp hmem).1

/-- A page has rows of the table as it was. -/
theorem Alone.nextPage (h : Alone c hist s) (hsound : Sound c s) (hphase : s.phase = .scan) :
    Hissqlite.nextPage s = hist.page hasToken s.last HISSQLITE_EXPIRE_BATCH := by
  rw [Hissqlite.nextPage, Keyset.Table.page, Keyset.Table.page]
  congr 1
  cases hwriting : c.writing with
  | false => rw [(h.dry hwriting).1]
  | true =>
    rw [Keyset.Table.unread, h.first hwriting (.inl hphase), h.scan hphase, current_nil, Keyset.Table.unread]
    refine filter_map_eq fun e _ => ?_
    rw [hash_decidedBy]
    by_cases hafter : Keyset.After s.last (blob e.hash)
    · have hsame : decidedBy s.asked e = e := by
        refine decidedBy_of_not_asked fun q hq heq => ?_
        obtain ⟨l, hlast, hle⟩ := hsound.behind (fun ok hok => by rw [hphase] at hok; cases hok)
          (hsound.scanning hphase) q hq
        rw [heq] at hle
        exact absurd (hafter l hlast) (not_lt.mpr hle)
      rw [hsame]
      exact ⟨rfl, fun _ => rfl⟩
    · rw [decide_eq_false hafter, Bool.and_false, Bool.and_false]
      exact ⟨rfl, fun hp => by cases hp⟩

/-- The rows after a page was read. -/
theorem Alone.current_scan (h : Alone c hist s) (hsound : Sound c s) (hphase : s.phase = .scan)
    (he : e ∈ hist.rows) :
    current ((askAll s answers).filterMap Asked.action) (s.asked ++ askAll s answers) e =
      decidedBy s.asked e := by
  have hsorted := @Sound.sorted_askAll c s answers hsound hphase
  have hcross := (List.pairwise_append.mp hsorted).2.2
  have hnew : ∀ q ∈ askAll s answers, q.row.hash = e.hash → decidedBy s.asked e = e := by
    intro q hq hhash
    refine decidedBy_of_not_asked fun q' hq' hhash' => ?_
    have hlt := hcross q' hq' q hq
    rw [hhash, hhash'] at hlt
    exact lt_irrefl _ hlt
  rw [current]
  by_cases hact : ∃ act ∈ (askAll s answers).filterMap Asked.action, act.hash = e.hash
  · rw [if_pos hact]
    obtain ⟨act, hact, hhash⟩ := hact
    obtain ⟨q, hq, haction⟩ := List.mem_filterMap.mp hact
    rw [hnew q hq ((action_eq haction).1.symm.trans hhash)]
  · rw [if_neg hact]
    by_cases hasked : ∃ q ∈ askAll s answers, q.row.hash = e.hash
    · obtain ⟨q, hq, hhash⟩ := hasked
      have hnone : q.action = none := by
        cases haction : q.action with
        | none => rfl
        | some act =>
          exact absurd ⟨act, List.mem_filterMap.mpr ⟨q, hq, haction⟩,
            (action_eq haction).1.trans hhash⟩ hact
      have hrow : q.row ∈ hist.rows := by
        have hpage := mem_askAll hq
        rw [h.nextPage hsound hphase] at hpage
        exact (Keyset.Table.mem_page hpage).1
      rw [hnew q hq hhash, decidedBy_of_asked hsorted (List.mem_append_right _ hq) hhash,
        action_none hnone]
      exact Keyset.Table.eq_of_key hrow he (blob_inj.mpr hhash)
    · by_cases hold : ∃ q ∈ s.asked, q.row.hash = e.hash
      · obtain ⟨q, hq, hhash⟩ := hold
        rw [decidedBy_of_asked hsorted (List.mem_append_left _ hq) hhash,
          decidedBy_of_asked hsound.sorted hq hhash]
      · rw [decidedBy_of_not_asked fun q hq hhash => hold ⟨q, hq, hhash⟩,
          decidedBy_of_not_asked]
        intro q hq hhash
        rcases List.mem_append.mp hq with hq | hq
        · exact hold ⟨q, hq, hhash⟩
        · exact hasked ⟨q, hq, hhash⟩

theorem rows_apply {act : Action} {hist : Hist} :
    (act.apply hist).rows = hist.rows.map fun e => if blob e.hash = blob act.hash then
      { e with token := act.result, expires := if act.transition then 0 else act.expires } else e := by
  have hchange : ∀ (f : Article → Article) (hf : ∀ e, blob (f e).hash = blob e.hash),
      (hist.change (blob act.hash) f hf).rows =
        hist.rows.map fun e => if blob e.hash = blob act.hash then f e else e := by
    intro f hf
    refine List.map_congr_left fun e _ => ?_
    by_cases hhash : blob e.hash = blob act.hash
    · rw [if_pos hhash, if_pos hhash]
    · rw [if_neg hhash, if_neg hhash]
  rw [Action.apply, Action.result]
  cases act.transition with
  | true => exact hchange _ (by exact fun _ => rfl)
  | false => exact hchange _ (by exact fun _ => rfl)

/-- The rows after an action. -/
theorem Alone.current_apply (h : Alone c hist s) (hsound : Sound c s) {act : Action}
    {acts : List Action} (hphase : s.phase = .apply) (hacts : s.acts = act :: acts) (he : e ∈ hist.rows) :
    (if blob (current s.acts s.asked e).hash = blob act.hash then
      { current s.acts s.asked e with
        token := act.result, expires := if act.transition then 0 else act.expires }
      else current s.acts s.asked e) = current acts s.asked e := by
  have hmem : act ∈ s.acts := hacts ▸ List.mem_cons_self
  rw [hash_current]
  by_cases hhash : e.hash = act.hash
  · rw [if_pos (blob_inj.mpr hhash)]
    obtain ⟨q, hq, haction⟩ := hsound.acts act hmem
    obtain ⟨hqhash, hresult, rfl⟩ := action_eq haction
    have hrow : q.row = e := Keyset.Table.eq_of_key (h.row_mem (by rw [hphase]; exact fun heq => by cases heq) hq) he
      (blob_inj.mpr (hqhash.symm.trans hhash.symm))
    have hbefore : current s.acts s.asked e = e := if_pos ⟨_, hmem, hhash.symm⟩
    have hafter : current acts s.asked e = decidedBy s.asked e := by
      refine if_neg fun ⟨act', hact', hhash'⟩ => ?_
      have hnodup := h.nodup
      rw [hacts, List.map_cons, List.nodup_cons] at hnodup
      exact hnodup.1 (List.mem_map.mpr ⟨act', hact', hhash'.trans hhash⟩)
    rw [hbefore, hafter, decidedBy_of_asked hsound.sorted hq (hqhash.symm.trans hhash.symm), hresult,
      Asked.decided, hrow]
    cases q.keep with
    | true => rfl
    | false => rfl
  · rw [if_neg fun hb => hhash (blob_inj.mp hb), hacts, current, current]
    have hiff : (∃ act' ∈ act :: acts, act'.hash = e.hash) ↔ ∃ act' ∈ acts, act'.hash = e.hash := by
      constructor
      · rintro ⟨act', hact', hhash'⟩
        rcases List.mem_cons.mp hact' with rfl | hact'
        · exact absurd hhash'.symm hhash
        · exact ⟨act', hact', hhash'⟩
      · rintro ⟨act', hact', hhash'⟩
        exact ⟨act', List.mem_cons_of_mem _ hact', hhash'⟩
    rw [if_congr hiff rfl rfl]

/-- What is left to read after a page. -/
theorem Alone.todo_scan (h : Alone c hist s) (hsound : Sound c s) (hphase : s.phase = .scan)
    (hlen : answers.length = (Hissqlite.nextPage s).length) {more : Bool}
    (hmore : more = decide (¬ (Hissqlite.nextPage s).length < HISSQLITE_EXPIRE_BATCH)) :
    (s.asked ++ askAll s answers).map (·.row) ++
      (if more then hist.unread hasToken
        (Keyset.Table.lastKey (fun e : Article => blob e.hash) s.last (Hissqlite.nextPage s)) else []) =
      hist.rows.filter hasToken := by
  have hasked := h.asked (by rw [hphase]; exact fun heq => by cases heq)
  rw [todo, hsound.scanning hphase, if_pos rfl] at hasked
  rw [List.map_append, map_row_askAll, hlen, List.take_length, List.append_assoc, ← hasked]
  congr 1
  have hpage := h.nextPage hsound hphase
  by_cases hfull : (Hissqlite.nextPage s).length < HISSQLITE_EXPIRE_BATCH
  · rw [hmore, decide_eq_false (not_not.mpr hfull), if_neg Bool.false_ne_true, List.append_nil, hpage]
    rw [hpage, Keyset.Table.page, List.length_take] at hfull
    exact List.take_of_length_le (by omega)
  · rw [hmore, decide_eq_true hfull, if_pos rfl, hpage, Keyset.Table.unread_page]
    exact List.take_append_drop _ _

/-- Keyset.After the actions of a page. -/
theorem alone_settle
    (hasked : s.asked.map (·.row) ++ todo hist s = hist.rows.filter hasToken)
    (hdry : c.writing = false → s.hist = hist ∧ s.acts = [])
    (hrows : c.writing = true → s.hist.rows = hist.rows.map (current s.acts s.asked))
    (hnodup : (s.acts.map (·.hash)).Nodup) : Alone c hist (settle c s) := by
  obtain ⟨hhist, hasked', -, hacts, hlast, hmore⟩ := @settle_same c s
  have htodo : todo hist (settle c s) = todo hist s := by rw [todo, todo, hmore, hlast]
  have hrefute : ∀ {p p' : Phase}, (settle c s).phase = p → (settle c s).phase = p' → p ≠ p' → False :=
    fun h h' hne => hne (h.symm.trans h')
  constructor
  · rw [hasked', htodo]
    exact fun _ => hasked
  · rw [hhist, hacts]
    exact hdry
  · rw [hhist, hacts, hasked']
    exact fun hwriting _ => hrows hwriting
  · rwa [hacts]
  · intro hscan
    rw [hacts]
    rcases @settle_phase c s with ⟨-, hphase⟩ | ⟨hnil, -⟩ | ⟨hnil, -⟩ | ⟨hnil, -⟩
    · exact (hrefute hphase hscan fun heq => by cases heq).elim
    · exact hnil
    · exact hnil
    · exact hnil
  · intro happly
    rw [hacts]
    rcases @settle_phase c s with ⟨hne, -⟩ | ⟨-, -, hphase⟩ | ⟨-, -, -, hphase⟩ | ⟨-, -, -, hphase⟩
    · exact hne
    · exact (hrefute hphase happly fun heq => by cases heq).elim
    · exact (hrefute hphase happly fun heq => by cases heq).elim
    · exact (hrefute hphase happly fun heq => by cases heq).elim
  · intro hend
    rw [hmore]
    rcases @settle_phase c s with ⟨-, hphase⟩ | ⟨-, -, hphase⟩ | ⟨-, hno, -⟩ | ⟨-, hno, -⟩
    · rw [hphase] at hend
      rcases hend with heq | heq <;> cases heq
    · rw [hphase] at hend
      rcases hend with heq | heq <;> cases heq
    · exact hno
    · exact hno
  · intro hwriting hend
    rw [hhist, hasked', hrows hwriting]
    rcases @settle_phase c s with ⟨-, hphase⟩ | ⟨-, -, hphase⟩ | ⟨hnil, -⟩ | ⟨hnil, -⟩
    · rw [hphase] at hend
      rcases hend with heq | heq <;> cases heq
    · rw [hphase] at hend
      rcases hend with heq | heq <;> cases heq
    · rw [hnil, current_nil]
    · rw [hnil, current_nil]
  · intro hwriting hend
    rcases @settle_phase c s with ⟨-, hphase⟩ | ⟨-, -, hphase⟩ | ⟨-, -, -, hphase⟩ | ⟨-, -, hno, -⟩
    · exact (hrefute hphase hend fun heq => by cases heq).elim
    · exact (hrefute hphase hend fun heq => by cases heq).elim
    · exact (hrefute hphase hend fun heq => by cases heq).elim
    · rw [hwriting] at hno
      cases hno
  · intro hend
    rcases @settle_phase c s with ⟨-, hphase⟩ | ⟨-, -, hphase⟩ | ⟨-, -, hwriting, -⟩ | ⟨-, -, -, hphase⟩
    · exact (hrefute hphase hend fun heq => by cases heq).elim
    · exact (hrefute hphase hend fun heq => by cases heq).elim
    · exact hwriting
    · exact (hrefute hphase hend fun heq => by cases heq).elim

/-- The expiry ends with an error. -/
theorem alone_failed (hdry : c.writing = false → s.hist = hist ∧ s.acts = [])
    (hnodup : (s.acts.map (·.hash)).Nodup) {asked : List Asked} :
    Alone c hist { s with asked := asked, phase := .returned false } where
  asked hphase := absurd rfl hphase
  dry := hdry
  first _ h := by rcases h with h | h <;> cases h
  nodup := hnodup
  scan h := by cases h
  apply h := by cases h
  second h := by rcases h with h | h <;> cases h
  remains _ h := by rcases h with h | h <;> cases h
  done _ h := by cases h
  writing h := by cases h

/-- The actions of a page are for different rows. -/
theorem Sound.nodup_actions (hsound : Sound c s) (hphase : s.phase = .scan) :
    (((askAll s answers).filterMap Asked.action).map (·.hash)).Nodup := by
  have hsorted := (List.pairwise_append.mp (@Sound.sorted_askAll c s answers hsound hphase)).2.1
  rw [List.Nodup, List.pairwise_map, List.pairwise_filterMap]
  refine hsorted.imp fun {q q'} hlt act hact act' hact' heq => ?_
  rw [(action_eq hact).1, (action_eq hact').1] at heq
  rw [heq] at hlt
  exact lt_irrefl _ hlt

/-- A step of the second pass. -/
theorem Alone.forget (h : Alone c hist s) {picked : List HASH} {hist' : Hist}
    (hphase : s.phase = .remembered) (hmeets : Meets c s (.remembered picked))
    (hdelete : expireRemembered c.threshold s.hist picked = some hist') :
    Alone c hist { s with
      hist := hist', phase := if picked = [] then .returned true else .remembered } := by
  obtain ⟨rfl, hlen, hold⟩ := expireRemembered_spec hdelete
  have hwriting := h.writing hphase
  have hkeep : ((s.hist.delete fun e => picked.contains e.hash).rows.filter
        fun e => Remains c.threshold e) = s.hist.rows.filter fun e => Remains c.threshold e := by
    rw [Keyset.Table.delete, List.filter_filter]
    refine List.filter_congr fun e he => ?_
    by_cases hpicked : e.hash ∈ picked
    · have hforget := hold e he hpicked
      have hgone := (forgettable_iff (hmeets e he hforget.1) hforget.1).mp hforget
      rw [decide_eq_false hgone, Bool.false_and]
    · rw [Bool.eq_false_iff.mpr fun hc => hpicked (List.contains_iff_mem.mp hc), Bool.not_false,
        Bool.and_true]
  have hends : ∀ p : Phase, p ≠ .returned true → p ≠ .remembered →
      (if picked = [] then Phase.returned true else .remembered) ≠ p := by
    intro p hp hp'
    split
    · exact Ne.symm hp
    · exact Ne.symm hp'
  constructor
  · exact fun _ => h.asked fun heq => by rw [hphase] at heq; cases heq
  · exact fun hno => by rw [hwriting] at hno; cases hno
  · intro _ hfirst
    rcases hfirst with hfirst | hfirst
    · exact absurd hfirst (hends _ (fun heq => by cases heq) fun heq => by cases heq)
    · exact absurd hfirst (hends _ (fun heq => by cases heq) fun heq => by cases heq)
  · exact h.nodup
  · exact fun hscan => absurd hscan (hends _ (fun heq => by cases heq) fun heq => by cases heq)
  · exact fun happly => absurd happly (hends _ (fun heq => by cases heq) fun heq => by cases heq)
  · exact fun _ => h.second (.inl hphase)
  · exact fun _ _ => hkeep.trans (h.remains hwriting (.inl hphase))
  · intro _ hend e he
    obtain ⟨he, -⟩ := List.mem_filter.mp he
    have hnil : picked = [] := by
      by_contra hne
      dsimp only at hend
      rw [if_neg hne] at hend
      cases hend
    have hnone : ¬ Forgettable c.threshold e := by
      intro hforget
      have hmem : e ∈ s.hist.rows.filter fun e => Forgettable c.threshold e :=
        List.mem_filter.mpr ⟨he, decide_eq_true hforget⟩
      have hpos := List.length_pos_of_mem hmem
      rw [hnil, List.length_nil] at hlen
      have hlimit : 0 < REMEMBERED_LIMIT := by decide
      omega
    by_contra hgone
    have htoken : e.token = none := by_contra fun hne => hgone (.inl hne)
    exact hnone ((forgettable_iff (hmeets e he htoken) htoken).mpr hgone)
  · exact fun _ => hwriting

/-- One statement of the expiry. -/
theorem next_alone {event : Event} (hown : event.Own)
    (hstep : guarded (Meets c) (Next c) s event s') (hsound : Sound c s) (h : Alone c hist s) :
    Alone c hist s' := by
  obtain ⟨hmeets, hnext⟩ := hstep
  rw [Next] at hnext
  cases event with
  | scan answers =>
    rw [step, scan] at hnext
    split at hnext
    · cases hnext
    · rename_i hready
      rw [not_or, not_not, not_not] at hready
      obtain ⟨hphase, hlen⟩ := hready
      cases hnext
      refine alone_settle ?_ (fun hwriting => ⟨(h.dry hwriting).1, ?_⟩) (fun hwriting => ?_) ?_
      · rw [← h.todo_scan hsound hphase hlen rfl]
        congr 1
        rw [todo]
        dsimp only
        split
        · rfl
        · rfl
      · dsimp only
        rw [hwriting]
        rfl
      · dsimp only
        rw [if_pos hwriting, h.first hwriting (.inl hphase), h.scan hphase, current_nil]
        exact List.map_congr_left fun e he => (h.current_scan hsound hphase he).symm
      · dsimp only
        split
        · exact hsound.nodup_actions hphase
        · exact List.nodup_nil
  | scanFails answers =>
    rw [step] at hnext
    split at hnext
    · cases hnext
    · cases hnext
      exact alone_failed h.dry h.nodup
  | apply =>
    rw [step] at hnext
    split at hnext
    · cases hnext
    · rename_i hphase
      rw [not_not] at hphase
      cases hacts : s.acts with
      | nil =>
        rw [hacts] at hnext
        cases hnext
      | cons act acts =>
        rw [hacts] at hnext
        cases hnext
        have hnot : s.phase ≠ .returned false := fun heq => by rw [hphase] at heq; cases heq
        refine alone_settle (h.asked hnot) (fun hwriting => ?_) (fun hwriting => ?_) ?_
        · have hnil := (h.dry hwriting).2
          rw [hacts] at hnil
          cases hnil
        · dsimp only
          rw [rows_apply, h.first hwriting (.inr hphase), List.map_map]
          exact List.map_congr_left fun e he => h.current_apply hsound hphase hacts he
        · have hnodup := h.nodup
          rw [hacts, List.map_cons, List.nodup_cons] at hnodup
          exact hnodup.2
  | applyFails =>
    rw [step] at hnext
    split at hnext
    · cases hnext
    · cases hnext
      exact alone_failed h.dry h.nodup
  | remembered picked =>
    rw [step] at hnext
    split at hnext
    · cases hnext
    · rename_i hphase
      rw [not_not] at hphase
      obtain ⟨hist', hdelete, hs'⟩ := Option.map_eq_some_iff.mp hnext
      subst hs'
      exact h.forget hphase hmeets hdelete
  | rememberedFails =>
    rw [step] at hnext
    split at hnext
    · cases hnext
    · cases hnext
      exact alone_failed h.dry h.nodup
  | write | remember | replace => exact hown.elim

/-! ## The end of an expiry -/

/-- How much is left to do for an expiry of `hist`. -/
def left (hist : Hist) (s : Expiry) : ℕ :=
  match s.phase with
  | .scan => 2 * (todo hist s).length + s.hist.rows.length + 3
  | .apply => 2 * (todo hist s).length + s.acts.length + s.hist.rows.length + 3
  | .remembered => s.hist.rows.length + 2
  | .returned _ => 0

theorem left_settle : left hist (settle c s) ≤
    2 * (todo hist s).length + s.acts.length + s.hist.rows.length + 3 := by
  obtain ⟨hhist, -, -, hacts, hlast, hmore⟩ := @settle_same c s
  have htodo : todo hist (settle c s) = todo hist s := by rw [todo, todo, hmore, hlast]
  rw [left, htodo, hacts, hhist]
  rcases @settle_phase c s with ⟨-, hphase⟩ | ⟨-, -, hphase⟩ | ⟨-, -, -, hphase⟩ | ⟨-, -, -, hphase⟩
  · rw [hphase]
  · rw [hphase]
    dsimp only
    omega
  · rw [hphase]
    dsimp only
    omega
  · rw [hphase]
    exact Nat.zero_le _

theorem length_apply {act : Action} : (act.apply hist).rows.length = hist.rows.length := by
  rw [rows_apply, List.length_map]

theorem length_askAll (hlen : answers.length = (nextPage s).length) :
    (askAll s answers).length = (nextPage s).length := by
  rw [askAll, List.length_zipWith, hlen, Nat.min_self]

/-- Keyset.After the last page there is the second pass at most. -/
theorem left_settle_last (hnil : s.acts = []) (hmore : s.more = false) :
    left hist (settle c s) ≤ s.hist.rows.length + 2 := by
  obtain ⟨hhist, -⟩ := @settle_same c s
  rw [left, hhist]
  rcases @settle_phase c s with ⟨hne, -⟩ | ⟨-, hyes, -⟩ | ⟨-, -, -, hphase⟩ | ⟨-, -, -, hphase⟩
  · exact absurd hnil hne
  · rw [hmore] at hyes
    cases hyes
  · rw [hphase]
  · rw [hphase]
    exact Nat.zero_le _

/-- A page leaves fewer rows to read. -/
theorem left_scan (hsound : Sound c s) (h : Alone c hist s) (hphase : s.phase = .scan)
    {more : Bool} (hmore : more = decide (¬ (nextPage s).length < HISSQLITE_EXPIRE_BATCH)) :
    (if more then hist.unread hasToken
        (Keyset.Table.lastKey (fun e : Article => blob e.hash) s.last (nextPage s)) else []).length +
      (nextPage s).length ≤ (hist.unread hasToken s.last).length ∧
    (more = true → 0 < (nextPage s).length) := by
  have hpage := h.nextPage hsound hphase
  have hlen : (nextPage s).length =
      min HISSQLITE_EXPIRE_BATCH (hist.unread hasToken s.last).length := by
    rw [hpage, Keyset.Table.page, List.length_take]
  have hbatch : 0 < HISSQLITE_EXPIRE_BATCH := by decide
  by_cases hfull : (nextPage s).length < HISSQLITE_EXPIRE_BATCH
  · rw [hmore, decide_eq_false (not_not.mpr hfull), if_neg Bool.false_ne_true, List.length_nil]
    exact ⟨by omega, fun heq => by cases heq⟩
  · rw [hmore, decide_eq_true hfull, if_pos rfl, hpage, Keyset.Table.unread_page, List.length_drop, ← hpage]
    exact ⟨by omega, fun _ => by omega⟩

/-- Each statement of the expiry leaves less to do. -/
theorem next_left {event : Event} (hown : event.Own) (hnext : Next c s event s')
    (hsound : Sound c s) (h : Alone c hist s) : left hist s' < left hist s := by
  rw [Next] at hnext
  cases event with
  | scan answers =>
    rw [step, scan] at hnext
    split at hnext
    · cases hnext
    · rename_i hready
      rw [not_or, not_not, not_not] at hready
      obtain ⟨hphase, hlen⟩ := hready
      cases hnext
      obtain ⟨hfewer, hpos⟩ := left_scan hsound h hphase rfl
      have hacts : (if c.writing then (askAll s answers).filterMap Asked.action else []).length ≤
          (nextPage s).length := by
        split
        · exact (List.length_filterMap_le _ _).trans_eq (length_askAll hlen)
        · exact Nat.zero_le _
      have hbefore : left hist s =
          2 * (hist.unread hasToken s.last).length + s.hist.rows.length + 3 := by
        rw [left, hphase, todo, if_pos (hsound.scanning hphase)]
      rw [hbefore]
      by_cases hempty : (nextPage s).length = 0
      · -- there was nothing more to read
        refine Nat.lt_of_le_of_lt (left_settle_last ?_ ?_) ?_
        · exact List.eq_nil_of_length_eq_zero (by dsimp only; omega)
        · exact Bool.eq_false_iff.mpr fun hmore => by
            have := hpos hmore
            omega
        · dsimp only
          omega
      · refine Nat.lt_of_le_of_lt left_settle ?_
        rw [todo]
        dsimp only
        split at hfewer
        · rename_i hmore
          rw [if_pos hmore, if_pos hmore]
          omega
        · rename_i hmore
          rw [if_neg hmore]
          omega
  | scanFails answers =>
    rw [step] at hnext
    split at hnext
    · cases hnext
    · rename_i hready
      rw [not_or, not_not] at hready
      cases hnext
      rw [left, left, hready.1]
      dsimp only
      omega
  | apply =>
    rw [step] at hnext
    split at hnext
    · cases hnext
    · rename_i hphase
      rw [not_not] at hphase
      cases hacts : s.acts with
      | nil =>
        rw [hacts] at hnext
        cases hnext
      | cons act acts =>
        rw [hacts] at hnext
        cases hnext
        refine Nat.lt_of_le_of_lt left_settle ?_
        rw [left, hphase, hacts]
        dsimp only
        rw [length_apply, List.length_cons]
        show 2 * (todo hist s).length + _ + _ + 3 < _
        omega
  | applyFails =>
    rw [step] at hnext
    split at hnext
    · cases hnext
    · rename_i hphase
      rw [not_not] at hphase
      cases hnext
      rw [left, left, hphase]
      dsimp only
      omega
  | remembered picked =>
    rw [step] at hnext
    split at hnext
    · cases hnext
    · rename_i hphase
      rw [not_not] at hphase
      obtain ⟨hist', hdelete, hs'⟩ := Option.map_eq_some_iff.mp hnext
      subst hs'
      rw [left, left, hphase]
      dsimp only
      by_cases hnil : picked = []
      · rw [if_pos hnil]
        exact Nat.zero_lt_succ _
      · rw [if_neg hnil]
        dsimp only
        have hfewer := length_expireRemembered hdelete hnil
        omega
  | rememberedFails =>
    rw [step] at hnext
    split at hnext
    · cases hnext
    · rename_i hphase
      rw [not_not] at hphase
      cases hnext
      rw [left, left, hphase]
      dsimp only
      omega
  | write | remember | replace => exact hown.elim

/-- The expiry can go on until it returns. -/
theorem Alone.goes_on (h : Alone c hist s) (hphase : ∀ ok, s.phase ≠ .returned ok) :
    ∃ event s', event.Own ∧ Next c s event s' := by
  cases hp : s.phase with
  | scan =>
    refine ⟨.scan (List.replicate (Hissqlite.nextPage s).length (true, .replicate 18 0)), _, trivial,
      if_neg ?_⟩
    rw [not_or, not_not, not_not, List.length_replicate]
    exact ⟨hp, rfl⟩
  | apply =>
    obtain ⟨act, acts, hacts⟩ := List.exists_cons_of_ne_nil (h.apply hp)
    refine ⟨.apply, settle c { s with hist := act.apply s.hist, acts := acts }, trivial, ?_⟩
    rw [Next, step, if_neg (not_not.mpr hp), hacts]
  | remembered =>
    obtain ⟨picked, hist', hdelete⟩ := exists_expireRemembered c.threshold s.hist
    refine ⟨.remembered picked,
      { s with hist := hist', phase := if picked = [] then .returned true else .remembered }, trivial, ?_⟩
    rw [Next, step, if_neg (not_not.mpr hp), hdelete, Option.map_some]
  | returned ok => exact absurd hp (hphase ok)

end OnlyExpire

/-! ## A run -/

/-- A run of both processes: the rows the other process stored stand, and an expiry that had
the table for itself did what that of hisv6 does. -/
theorem expire_in_place {c : Call} {hist : Hist} {events : List Event} {s : Expiry}
    (h : Steps (guarded (Meets c) (Next c)) (start hist) events s) : InPlace c hist events s := by
  have hinv : Sound c s ∧ ((∀ event ∈ events, event.Own) →
      Alone c hist s ∧ events.length + left hist s ≤ left hist (start hist)) := by
    refine @Steps.invariant_hist _ _ _ (fun events s => Sound c s ∧ ((∀ event ∈ events, event.Own) →
      Alone c hist s ∧ events.length + left hist s ≤ left hist (start hist))) _ _ _
      (fun events s event s' hstep hinv => ?_) h ⟨sound_start hist, fun _ => ⟨alone_start, ?_⟩⟩
    · obtain ⟨hsound, hrest⟩ := hinv
      refine ⟨next_sound hstep hsound, fun hown => ?_⟩
      have hlast := hown event (List.mem_append_right _ (List.mem_singleton.mpr rfl))
      obtain ⟨halone, hleft⟩ := hrest fun event' hmem => hown event' (List.mem_append_left _ hmem)
      have hless := next_left hlast hstep.2 hsound halone
      refine ⟨next_alone hlast hstep hsound halone, ?_⟩
      rw [List.length_append, List.length_singleton]
      omega
    · rw [List.length_nil, Nat.zero_add]
  obtain ⟨hsound, hrest⟩ := hinv
  refine ⟨hsound.stands, fun hown hend => ?_, fun hown => fun hwriting => ?_, fun hown => ?_,
    fun hown hphase => (hrest hown).1.goes_on hphase⟩
  · obtain ⟨halone, -⟩ := hrest hown
    refine ⟨?_, fun hwriting => ?_⟩
    · have hasked := halone.asked (by rw [hend]; exact fun heq => by cases heq)
      rwa [todo, halone.second (.inr hend), if_neg Bool.false_ne_true, List.append_nil] at hasked
    · rw [← halone.remains hwriting (.inr hend)]
      exact (List.filter_eq_self.mpr fun e he => decide_eq_true (halone.done hwriting hend e he)).symm
  · exact ((hrest hown).1.dry hwriting).1
  · have hleft := (hrest hown).2
    have hstart : left hist (start hist) = 2 * (hist.unread hasToken none).length +
      hist.rows.length + 3 := rfl
    have hle : (hist.unread hasToken none).length ≤ hist.rows.length := List.length_filter_le _ _
    omega

/-- A row with a token, and an expiry that writes. -/
def oneRow : Article := ⟨.replicate 16 7, 100, 90, 0, some (.replicate 18 1)⟩

def oneRowHist : Hist := ⟨[oneRow], List.pairwise_singleton _ _⟩

def writingCall : Call := ⟨true, 95⟩

/-- `decide` refuses the token; the row is remembered and then forgotten. -/
def refusing : List Event :=
  [.scan [(false, .replicate 18 1)], .apply, .remembered [.replicate 16 7], .remembered []]

theorem in_place_refusing : ∃ s, Steps (guarded (Meets writingCall) (Next writingCall))
    (start oneRowHist) refusing s ∧ InPlace writingCall oneRowHist refusing s ∧
    s.phase = .returned true ∧ s.hist.rows = [] := by
  have hguard : ∀ {s : Expiry} {event : Event} {s' : Expiry},
      (if Meets writingCall s event then step writingCall s event else none) = some s' →
        guarded (Meets writingCall) (Next writingCall) s event s' := fun {s event s'} hstep => by
    by_cases hmeets : Meets writingCall s event
    · rw [if_pos hmeets] at hstep
      exact ⟨hmeets, hstep⟩
    · rw [if_neg hmeets] at hstep
      cases hstep
  have hsteps := (@Steps.of_foldlM _ _
    (fun s event => if Meets writingCall s event then step writingCall s event else none)
    (start oneRowHist) _ refusing (Option.some_get (by decide)).symm).mono fun _ _ _ => hguard
  exact ⟨_, hsteps, expire_in_place hsteps, by decide, by decide⟩

/-! ## A row that is replaced -/

/-- The other process replaces the row with another token, for which `decide` was not asked. -/
def replacing : List Event :=
  [.scan [(false, .replicate 18 1)], .replace { oneRow with token := some (.replicate 18 2) }, .apply]

/-- Its token is lost. -/
theorem replaced_row : ¬ ∀ c hist events s, Steps (Next c) (start hist) events s →
    InPlace c hist events s := by
  intro hall
  have hsteps : Steps (Next writingCall) (start oneRowHist) replacing _ :=
    Steps.of_foldlM (Option.some_get (by decide)).symm
  generalize hs : Option.get (replacing.foldlM (step writingCall) (start oneRowHist)) _ = s at hsteps
  have hstored : s.stored = [{ oneRow with token := some (.replicate 18 2) }] := by
    rw [← hs]
    decide
  have hfind : s.hist.find (blob oneRow.hash) = some { oneRow with token := none } := by
    rw [← hs]
    decide
  have hasked : s.asked = [⟨oneRow, false, .replicate 18 1⟩] := by
    rw [← hs]
    decide
  obtain ⟨token, hbecomes, hrow⟩ := (hall _ _ _ _ hsteps).stored
    { oneRow with token := some (.replicate 18 2) } (hstored ▸ List.mem_singleton.mpr rfl)
  have hnone : token = none := by
    rcases hrow with ⟨r, hfind', htoken, -⟩ | ⟨hfind', -⟩
    · cases hfind.symm.trans hfind'
      exact htoken.symm
    · cases hfind.symm.trans hfind'
  subst hnone
  rcases hbecomes with hsame | ⟨q, hq, -, htoken, -⟩
  · cases hsame
  · rw [hasked] at hq
    rw [List.mem_singleton.mp hq] at htoken
    exact absurd htoken (by decide)

end Inn.History.Hissqlite
