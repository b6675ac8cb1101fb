import Inn.Ovsqlite.Server

/-!
# Inn.Ovsqlite.Effects — what each request can do

One lemma for each handler that writes: the request is answered with an error and the
rows are as they were, or it is answered `response_ok` and the rows have changed in the
one way given. `doFinishExpire_cases` differs: its first statements stay done when a
later one fails.
-/

namespace Inn.Ovsqlite

/-! ## Results -/

section Results

universe u

variable {ε α β : Type u}

theorem bind_ok {x : Except ε α} {k : α → Except ε β} {b : β} :
    x >>= k = .ok b ↔ ∃ a, x = .ok a ∧ k a = .ok b := by
  cases x with
  | error e =>
    constructor
    · intro h
      cases h
    · rintro ⟨a, h, -⟩
      cases h
  | ok a =>
    constructor
    · intro h
      exact ⟨a, rfl, h⟩
    · rintro ⟨a', h, hk⟩
      cases h
      exact hk

theorem orBadRequest_ok {o : Option α} {a : α} (h : orBadRequest o = .ok a) : o = some a := by
  cases o with
  | none => cases h
  | some b =>
    cases h
    rfl

theorem exec_ok {f : Faults} {statement : Statement} {a b : α}
    (h : f.exec statement a = .ok b) : a = b := by
  unfold Faults.exec at h
  split at h
  · cases h
  · cases h
    rfl

/-- A computation that fails only with error codes. -/
def OnlyErrors (x : Except Reply α) : Prop := ∀ e, x = .error e → e.isError = true

namespace OnlyErrors

theorem ok (a : α) : OnlyErrors (.ok a) := by
  intro e h
  cases h

theorem error {e : Reply} (h : e.isError = true) : OnlyErrors (.error e : Except Reply α) := by
  intro e' h'
  cases h'
  exact h

theorem bind {x : Except Reply α} {k : α → Except Reply β} (hx : OnlyErrors x)
    (hk : ∀ a, OnlyErrors (k a)) : OnlyErrors (x >>= k) := by
  intro e h
  cases x with
  | error e' =>
    cases h
    exact hx e rfl
  | ok a => exact hk a e h

theorem ite {p : Prop} [Decidable p] {x y : Except Reply α} (hx : OnlyErrors x)
    (hy : OnlyErrors y) : OnlyErrors (if p then x else y) := by
  split
  · exact hx
  · exact hy

theorem orBadRequest (o : Option α) : OnlyErrors (orBadRequest o) := by
  cases o with
  | none => exact error rfl
  | some a => exact ok a

theorem exec (f : Faults) (statement : Statement) (a : α) : OnlyErrors (f.exec statement a) :=
  ite (error rfl) (ok a)

theorem lookup (f : Faults) (db : Db) (groupname : List UInt8) :
    OnlyErrors (f.lookup db groupname) := by
  refine (exec f _ _).bind fun found => ?_
  cases found with
  | none => exact error rfl
  | some g => exact ok g

end OnlyErrors

end Results

theorem lookup_ok {f : Faults} {db : Db} {groupname : List UInt8} {g : Groupinfo}
    (h : f.lookup db groupname = .ok g) : db.lookupGroupinfo groupname = some g := by
  obtain ⟨found, hfound, h⟩ := bind_ok.mp h
  rw [exec_ok hfound]
  cases found with
  | none => cases h
  | some g' =>
    cases h
    rfl

/-- A request with a savepoint fails and leaves the rows alone, or is done. -/
theorem rollbackTo_cases {db db' : Db} {x : Except Reply Db} {reply : Reply} (hx : OnlyErrors x)
    (h : rollbackTo db x = (reply, db')) :
    (reply.isError = true ∧ db' = db) ∨ (reply = .simple responseOk ∧ x = .ok db') := by
  cases x with
  | error e =>
    cases h
    exact .inl ⟨hx _ rfl, rfl⟩
  | ok db₁ =>
    cases h
    exact .inr ⟨rfl, rfl⟩

/-! ## Statements that find nothing -/

theorem updateGroupinfo_none {db : Db} {sel : Groupinfo → Bool} {set : Groupinfo → Groupinfo}
    (h : (db.updateGroupinfo sel set).2 = 0) : (db.updateGroupinfo sel set).1 = db := by
  have hsel : ∀ g ∈ db.groupinfo, sel g = false := by
    intro g hg
    have := List.filter_eq_nil_iff.mp (List.length_eq_zero_iff.mp h) g hg
    simpa using this
  have hmap : db.groupinfo.map (fun g => if sel g then set g else g) = db.groupinfo := by
    conv_rhs => rw [← List.map_id db.groupinfo]
    apply List.map_congr_left
    intro g hg
    rw [hsel g hg]
    rfl
  change ({ db with groupinfo := _ } : Db) = db
  rw [hmap]

/-! ## The handlers -/

section Handlers

variable {f : Faults} {db db' : Db} {request : Buffer} {reply : Reply}

theorem doAddGroup_cases (h : doAddGroup f db request = (reply, db')) :
    (reply.isError = true ∧ db' = db) ∨ (reply = .simple responseOk ∧
      ∃ r, unpackAddGroup request = some r ∧
        ((db.lookupGroupinfo r.groupname = none ∧
            db.addGroup r.groupname r.flagAlias (int64 r.low) (int64 r.high) = some db') ∨
          ∃ g, db.lookupGroupinfo r.groupname = some g ∧
            db' = (db.updateGroupinfoFlagAlias g.groupid r.flagAlias).1)) := by
  refine (rollbackTo_cases ?_ h).imp_right fun ⟨hreply, h⟩ => ⟨hreply, ?_⟩
  · refine (OnlyErrors.orBadRequest _).bind fun r => (OnlyErrors.exec _ _ _).bind fun found => ?_
    cases found with
    | none =>
      refine (OnlyErrors.exec _ _ _).bind fun added => ?_
      cases added with
      | none => exact OnlyErrors.error rfl
      | some db' => exact OnlyErrors.ok db'
    | some g => exact OnlyErrors.exec _ _ _
  · obtain ⟨r, hr, h⟩ := bind_ok.mp h
    obtain ⟨found, hfound, h⟩ := bind_ok.mp h
    refine ⟨r, orBadRequest_ok hr, ?_⟩
    rw [exec_ok hfound]
    cases found with
    | none =>
      left
      obtain ⟨added, hadded, h⟩ := bind_ok.mp h
      rw [exec_ok hadded]
      cases added with
      | none => cases h
      | some db₁ =>
        cases h
        exact ⟨rfl, rfl⟩
    | some g => exact .inr ⟨g, rfl, (exec_ok h).symm⟩

theorem doDeleteGroup_cases (h : doDeleteGroup f db request = (reply, db')) :
    (reply.isError = true ∧ db' = db) ∨ (reply = .simple responseOk ∧
      ∃ groupname, unpackGroup request = some groupname ∧
        db' = (db.setGroupDeleted groupname).1) := by
  unfold doDeleteGroup at h
  cases hname : unpackGroup request with
  | none =>
    rw [hname] at h
    cases h
    exact .inl ⟨rfl, rfl⟩
  | some groupname =>
    rw [hname] at h
    simp only at h
    split at h
    · cases h
      exact .inl ⟨rfl, rfl⟩
    · split at h
      · next hnone =>
        cases h
        exact .inl ⟨rfl, updateGroupinfo_none hnone⟩
      · cases h
        exact .inr ⟨rfl, groupname, rfl, rfl⟩

/-- The row that `do_add_article` adds. -/
def AddArticle.row {Stream : Type*} (c : Compression Stream) (r : AddArticle) (groupid : ℕ) :
    Artinfo :=
  ⟨groupid, int64 r.artnum, int64 r.arrived, int64 r.expires, r.token,
    storeOverview c r.groupname r.artnum r.overview⟩

theorem doAddArticle_cases {Stream : Type*} {c : Compression Stream} {client : Settings}
    (h : doAddArticle c f client db request = (reply, db')) :
    (reply.isError = true ∧ db' = db) ∨ (reply = .simple responseOk ∧
      ∃ r g db₁, unpackAddArticle request = some r ∧ r.overview.length ≤ MAX_OVDATA_SIZE ∧
        db.lookupGroupinfo r.groupname = some g ∧
        ¬ (client.cutofflow = true ∧ r.artnum < uint64 g.low) ∧
        db.addArticle (r.row c g.groupid) = .ok db₁ ∧
        db' = db₁.updateGroupinfoAdd g.groupid (int64 r.artnum)) := by
  refine (rollbackTo_cases ?_ h).imp_right fun ⟨hreply, h⟩ => ⟨hreply, ?_⟩
  · refine (OnlyErrors.orBadRequest _).bind fun r => ?_
    refine OnlyErrors.ite (OnlyErrors.error rfl) ((OnlyErrors.lookup _ _ _).bind fun g => ?_)
    refine OnlyErrors.ite (OnlyErrors.error rfl) ((OnlyErrors.exec _ _ _).bind fun added => ?_)
    rcases added with (- | -) | db₁
    · exact OnlyErrors.error rfl
    · exact OnlyErrors.error rfl
    · exact OnlyErrors.exec _ _ _
  · obtain ⟨r, hr, h⟩ := bind_ok.mp h
    split at h
    · cases h
    next hlen =>
    obtain ⟨g, hg, h⟩ := bind_ok.mp h
    split at h
    · cases h
    next hlow =>
    obtain ⟨added, hadded, h⟩ := bind_ok.mp h
    rcases added with (- | -) | db₁
    · cases h
    · cases h
    · refine ⟨r, g, db₁, orBadRequest_ok hr, Nat.not_lt.mp hlen, lookup_ok hg, ?_,
        exec_ok hadded, (exec_ok h).symm⟩
      rintro ⟨hcut, hlt⟩
      apply hlow
      rw [hcut, Bool.true_and]
      exact decide_eq_true hlt

theorem updateGroupinfoDelete_onlyErrors (f : Faults) (db : Db) (groupid changes : ℕ)
    (all low : Bool) : OnlyErrors (updateGroupinfoDelete f db groupid changes all low) := by
  refine OnlyErrors.ite (OnlyErrors.exec _ _ _)
    (OnlyErrors.ite ((OnlyErrors.exec _ _ _).bind fun updated => ?_) (OnlyErrors.exec _ _ _))
  cases updated with
  | none => exact OnlyErrors.error rfl
  | some db => exact OnlyErrors.ok db

theorem doDeleteArticle_cases (h : doDeleteArticle f db request = (reply, db')) :
    (reply.isError = true ∧ db' = db) ∨ (reply = .simple responseOk ∧
      ∃ groupname artnum g, unpackDeleteArticle request = some (groupname, artnum) ∧
        db.lookupGroupinfo groupname = some g ∧
        (db.deleteArticle g.groupid (int64 artnum)).2 ≠ 0 ∧
        updateGroupinfoDelete f (db.deleteArticle g.groupid (int64 artnum)).1 g.groupid 1
          (uint64 g.count = 1) (artnum = uint64 g.low) = .ok db') := by
  refine (rollbackTo_cases ?_ h).imp_right fun ⟨hreply, h⟩ => ⟨hreply, ?_⟩
  · refine (OnlyErrors.orBadRequest _).bind fun r => (OnlyErrors.lookup _ _ _).bind fun g => ?_
    refine (OnlyErrors.exec _ _ _).bind fun deleted => ?_
    exact OnlyErrors.ite (OnlyErrors.error rfl)
      (OnlyErrors.ite (OnlyErrors.error rfl) (updateGroupinfoDelete_onlyErrors _ _ _ _ _ _))
  · obtain ⟨⟨groupname, artnum⟩, hr, h⟩ := bind_ok.mp h
    obtain ⟨g, hg, h⟩ := bind_ok.mp h
    obtain ⟨⟨db₁, changes⟩, hdeleted, h⟩ := bind_ok.mp h
    refine ⟨groupname, artnum, g, orBadRequest_ok hr, lookup_ok hg, ?_⟩
    rw [exec_ok hdeleted]
    simp only at h
    split at h
    · cases h
    next hchanges =>
    split at h
    · cases h
    · exact ⟨hchanges, h⟩

theorem doStartExpireGroup_cases {now : ℤ} {client client' : Settings}
    (h : doStartExpireGroup f now client db request = (reply, client', db')) :
    (reply.isError = true ∧ db' = db) ∨ (reply = .simple responseOk ∧
      ∃ groupname, unpackGroup request = some groupname ∧
        db' = (db.startExpireGroup groupname client'.expirationStart).1) := by
  unfold doStartExpireGroup at h
  cases hname : unpackGroup request with
  | none =>
    rw [hname] at h
    cases h
    exact .inl ⟨rfl, rfl⟩
  | some groupname =>
    rw [hname] at h
    simp only at h
    generalize (if client.expirationStart = 0 then _ else client : Settings) = client₁ at h
    split at h
    · cases h
      exact .inl ⟨rfl, rfl⟩
    · split at h
      · next hnone =>
        cases h
        exact .inl ⟨rfl, updateGroupinfo_none hnone⟩
      · cases h
        exact .inr ⟨rfl, groupname, rfl, rfl⟩

/-! ## Lists of numbers -/

theorem unpackWord_lt {width n : ℕ} {request' : Buffer}
    (h : request.unpackWord width = some (n, request')) : n < 256 ^ width := by
  unfold Buffer.unpackWord Buffer.unpackNow Buffer.unpackLater at h
  split at h
  · cases h
  · cases h
    refine (ofBytes_lt _).trans_le (Nat.pow_le_pow_right (by decide) ?_)
    exact (List.length_take_le _ _)

theorem mem_addExpireart {artnum x : ℤ} :
    x ∈ (db.addExpireart artnum).expireart ↔ x ∈ db.expireart ∨ x = artnum := by
  unfold Db.addExpireart
  split
  · next hmem =>
    constructor
    · exact Or.inl
    · rintro (h | rfl)
      · exact h
      · exact hmem
  · exact List.mem_append.trans (or_congr_right List.mem_singleton)

theorem addExpireart_rows (db : Db) (artnum : ℤ) : (db.addExpireart artnum).groupinfo = db.groupinfo ∧
    (db.addExpireart artnum).artinfo = db.artinfo := by
  unfold Db.addExpireart
  split
  · exact ⟨rfl, rfl⟩
  · exact ⟨rfl, rfl⟩

/-- The numbers of a request get into `expireart`, and the low mark is noticed. -/
theorem addExpirearts_spec {low count artix : ℕ} {request' : Buffer} {hitLow hitLow' : Bool}
    (h : addExpirearts f low count artix request db hitLow = .ok (request', db', hitLow')) :
    db'.groupinfo = db.groupinfo ∧ db'.artinfo = db.artinfo ∧
      ∃ nums : List ℕ, (∀ n ∈ nums, n < 2 ^ 64) ∧
        (∀ x, x ∈ db'.expireart ↔ x ∈ db.expireart ∨ x ∈ nums.map int64) ∧
        (hitLow' = true ↔ hitLow = true ∨ low ∈ nums) := by
  induction count generalizing artix request db hitLow with
  | zero =>
    cases h
    refine ⟨rfl, rfl, [], ?_, ?_, ?_⟩
    · intro n hn
      cases hn
    · simp
    · simp
  | succ count ih =>
    obtain ⟨⟨artnum, request₁⟩, hword, h⟩ := bind_ok.mp h
    obtain ⟨db₁, hadd, h⟩ := bind_ok.mp h
    have hadd := exec_ok hadd
    subst hadd
    obtain ⟨hgroups, harts, nums, hlt, hmem, hhit⟩ := ih h
    obtain ⟨hgroups₁, harts₁⟩ := addExpireart_rows db (int64 artnum)
    refine ⟨hgroups.trans hgroups₁, harts.trans harts₁, artnum :: nums, ?_, ?_, ?_⟩
    · intro n hn
      rcases List.mem_cons.mp hn with rfl | hn
      · exact unpackWord_lt (orBadRequest_ok hword)
      · exact hlt n hn
    · intro x
      rw [hmem, mem_addExpireart, List.map_cons, List.mem_cons, or_assoc]
    · rw [hhit, Bool.or_eq_true, decide_eq_true_iff, List.mem_cons, or_assoc, eq_comm (a := low)]

theorem addExpirearts_onlyErrors {low count artix : ℕ} {hitLow : Bool} :
    OnlyErrors (addExpirearts f low count artix request db hitLow) := by
  induction count generalizing artix request db hitLow with
  | zero => exact OnlyErrors.ok _
  | succ count ih =>
    exact (OnlyErrors.orBadRequest _).bind fun r => (OnlyErrors.exec _ _ _).bind fun db => ih

/-- The articles of a group with the numbers given, taken out. -/
def takeOut (db : Db) (groupid : ℕ) (nums : List ℤ) : Db × ℕ :=
  db.deleteArtinfo fun a => a.groupid = groupid && a.artnum ∈ nums

/-- Expiring what `expireart` lists, and clearing it. -/
theorem expireArticles_eq {db₁ : Db} {nums : List ℤ} (groupid : ℕ)
    (hgroups : db₁.groupinfo = db.groupinfo) (harts : db₁.artinfo = db.artinfo)
    (hempty : db.expireart = []) (hmem : ∀ x, x ∈ db₁.expireart ↔ x ∈ nums) :
    (db₁.expireArticles groupid).1.clearExpireart = (takeOut db groupid nums).1 ∧
      (db₁.expireArticles groupid).2 = (takeOut db groupid nums).2 := by
  have hsel : (fun a : Artinfo => decide (a.groupid = groupid) && decide (a.artnum ∈ db₁.expireart)) =
      fun a => decide (a.groupid = groupid) && decide (a.artnum ∈ nums) := by
    funext a
    rw [decide_eq_decide.mpr (hmem a.artnum)]
  unfold takeOut Db.expireArticles Db.deleteArtinfo Db.clearExpireart
  rw [hsel, hgroups, harts, hempty]
  exact ⟨rfl, rfl⟩

theorem doExpireGroup_cases (hempty : db.expireart = [])
    (h : doExpireGroup f db request = (reply, db')) :
    (reply.isError = true ∧ db' = db) ∨ (reply = .simple responseOk ∧ (db' = db ∨
      ∃ groupname g, ∃ nums : List ℕ, db.lookupGroupinfo groupname = some g ∧
        (∀ n ∈ nums, n < 2 ^ 64) ∧ (((takeOut db g.groupid (nums.map int64)).2 = 0 ∧
            db' = (takeOut db g.groupid (nums.map int64)).1) ∨
          ((takeOut db g.groupid (nums.map int64)).2 ≠ 0 ∧
            (takeOut db g.groupid (nums.map int64)).2 ≤ uint64 g.count ∧
            updateGroupinfoDelete f (takeOut db g.groupid (nums.map int64)).1 g.groupid
              (takeOut db g.groupid (nums.map int64)).2
              ((takeOut db g.groupid (nums.map int64)).2 = uint64 g.count)
              (uint64 g.low ∈ nums) = .ok db')))) := by
  refine (rollbackTo_cases ?_ h).imp_right fun ⟨hreply, h⟩ => ⟨hreply, ?_⟩
  · refine (OnlyErrors.orBadRequest _).bind fun r => ?_
    refine OnlyErrors.ite (OnlyErrors.orBadRequest _) ((OnlyErrors.lookup _ _ _).bind fun g => ?_)
    refine addExpirearts_onlyErrors.bind fun r => (OnlyErrors.orBadRequest _).bind fun _ => ?_
    refine (OnlyErrors.exec _ _ _).bind fun r => (OnlyErrors.exec _ _ _).bind fun db => ?_
    exact OnlyErrors.ite (OnlyErrors.ok _)
      (OnlyErrors.ite (OnlyErrors.error rfl) (updateGroupinfoDelete_onlyErrors _ _ _ _ _ _))
  · obtain ⟨⟨groupname, count, request₁⟩, -, h⟩ := bind_ok.mp h
    simp only at h
    split at h
    · have h := orBadRequest_ok h
      unfold finishRequest at h
      split at h
      · cases h
        exact .inl rfl
      · cases h
    · right
      obtain ⟨g, hg, h⟩ := bind_ok.mp h
      obtain ⟨⟨request₂, db₁, hitLow⟩, hadd, h⟩ := bind_ok.mp h
      obtain ⟨-, -, h⟩ := bind_ok.mp h
      obtain ⟨⟨db₂, changes⟩, hexpire, h⟩ := bind_ok.mp h
      obtain ⟨db₃, hclear, h⟩ := bind_ok.mp h
      obtain ⟨hgroups, harts, nums, hlt, hmem, hhit⟩ := addExpirearts_spec hadd
      have hmem' : ∀ x, x ∈ db₁.expireart ↔ x ∈ nums.map int64 := by
        intro x
        rw [hmem, hempty]
        exact ⟨fun h => h.resolve_left (List.not_mem_nil), Or.inr⟩
      obtain ⟨hout, hnum⟩ := expireArticles_eq g.groupid hgroups harts hempty hmem'
      have hexpire := exec_ok hexpire
      have hclear := exec_ok hclear
      rw [hexpire] at hout hnum
      subst hclear
      simp only at hout hnum
      rw [hout, hnum] at h
      have hhit' : hitLow = decide (uint64 g.low ∈ nums) := by
        rw [Bool.eq_iff_iff, hhit, decide_eq_true_iff]
        simp
      refine ⟨groupname, g, nums, lookup_ok hg, hlt, ?_⟩
      split at h
      · next hzero =>
        cases h
        exact .inl ⟨hzero, rfl⟩
      next hchanges =>
      split at h
      · cases h
      next hcount =>
      rw [hhit'] at h
      exact .inr ⟨hchanges, Nat.not_lt.mp hcount, h⟩

/-! ## The end of a run of expiration -/

theorem fillExpireart_spec (db : Db) (groupid : ℕ) (limit : ℤ) :
    (db.fillExpireart groupid limit).groupinfo = db.groupinfo ∧
    (db.fillExpireart groupid limit).artinfo = db.artinfo ∧
    ∀ x, x ∈ (db.fillExpireart groupid limit).expireart ↔ x ∈ db.expireart ∨
      x ∈ (Db.limited limit (Db.byArtnum (db.articles groupid))).map (·.artnum) := by
  unfold Db.fillExpireart
  generalize Db.limited limit (Db.byArtnum (db.articles groupid)) = rows
  induction rows generalizing db with
  | nil =>
    refine ⟨rfl, rfl, fun x => ?_⟩
    simp
  | cons a rows ih =>
    obtain ⟨hgroups, harts, hmem⟩ := @ih (db.addExpireart a.artnum)
    obtain ⟨hgroups₁, harts₁⟩ := addExpireart_rows db a.artnum
    refine ⟨hgroups.trans hgroups₁, harts.trans harts₁, fun x => ?_⟩
    rw [List.foldl_cons, hmem, mem_addExpireart, List.map_cons, List.mem_cons, or_assoc]

/-- The outcomes of `do_finish_expire`: it stops with an error, at one of three states of
the rows; it is done; or it takes out some articles of a deleted group. -/
theorem doFinishExpire_cases {limit : ℕ} {client client' : Settings} (hempty : db.expireart = [])
    (h : doFinishExpire f limit client db request = (reply, client', db')) :
    (reply.isError = true ∧ client' = client ∧ db' = db) ∨
    (client.expirationStart ≠ 0 ∧
      ((reply.isError = true ∧ client' = { client with checkForgotten := false } ∧
          (db' = markForgotten client db ∨ db' = (markForgotten client db).deleteEmptyGroups.1)) ∨
        (reply = .simple responseDone ∧
          client' = { client with checkForgotten := false, expirationStart := 0 } ∧
          db' = (markForgotten client db).deleteEmptyGroups.1 ∧ db'.getDeletedGroupid = none) ∨
        (reply = .simple responseOk ∧ client' = { client with checkForgotten := false } ∧
          ∃ groupid, (markForgotten client db).deleteEmptyGroups.1.getDeletedGroupid =
              some groupid ∧
            db' = (takeOut (markForgotten client db).deleteEmptyGroups.1 groupid
              ((Db.limited (int32 (limit / 2 + 1)) (Db.byArtnum
                ((markForgotten client db).deleteEmptyGroups.1.articles groupid))).map
                (·.artnum))).1))) := by
  unfold doFinishExpire at h
  split at h
  · cases h
    exact .inl ⟨rfl, rfl, rfl⟩
  split at h
  · cases h
    exact .inl ⟨rfl, rfl, rfl⟩
  next hstart =>
  split at h
  · cases h
    exact .inl ⟨rfl, rfl, rfl⟩
  refine .inr ⟨hstart, ?_⟩
  simp only at h
  have hempty₁ : (markForgotten client db).deleteEmptyGroups.1.expireart = [] := by
    unfold markForgotten
    split
    · exact hempty
    · exact hempty
  generalize markForgotten client db = db₁ at h hempty₁
  split at h
  · cases h
    exact .inl ⟨rfl, rfl, .inl rfl⟩
  generalize db₁.deleteEmptyGroups.1 = db₂ at h hempty₁
  split at h
  · cases h
    exact .inl ⟨rfl, rfl, .inr rfl⟩
  split at h
  · next hnone =>
    cases h
    exact .inr (.inl ⟨rfl, rfl, rfl, hnone⟩)
  next groupid hsome =>
  cases h
  refine (rollbackTo_cases ?_ rfl).elim (fun ⟨herr, hdb⟩ => .inl ⟨herr, rfl, .inr hdb⟩)
    fun ⟨hreply, hdone⟩ => .inr (.inr ⟨hreply, rfl, groupid, hsome, ?_⟩)
  · refine (OnlyErrors.exec _ _ _).bind fun db => (OnlyErrors.exec _ _ _).bind fun r => ?_
    exact OnlyErrors.exec _ _ _
  · obtain ⟨db₄, hfill, hdone⟩ := bind_ok.mp hdone
    obtain ⟨⟨db₅, changes⟩, hexpire, hclear⟩ := bind_ok.mp hdone
    have hfill := exec_ok hfill
    have hexpire := exec_ok hexpire
    subst hfill
    obtain ⟨hgroups, harts, hmem⟩ := fillExpireart_spec db₂ groupid
      (int32 (limit / 2 + 1))
    rw [hempty₁] at hmem
    obtain ⟨hout, -⟩ := expireArticles_eq groupid hgroups harts hempty₁
      fun x => (hmem x).trans ⟨fun h => h.resolve_left (List.not_mem_nil), Or.inr⟩
    rw [hexpire] at hout
    rw [← hout]
    exact (exec_ok hclear).symm

end Handlers

end Inn.Ovsqlite
