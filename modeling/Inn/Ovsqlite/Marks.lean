import Inn.Rules
import Inn.Ovsqlite.Sound

/-!
# Inn.Ovsqlite.Marks — the counts and marks of the groups

`group_marks_kept` says for every run of requests, whichever statements fail, that the count
and the marks of the groups agree with their articles, how a request may move the marks,
and what a failed request leaves done.

Two things differ from what one might expect: an article added below the low mark lowers
it, unless the client has asked for such articles to be refused; and an error reply to
`request_finish_expire` may come after the marking of forgotten groups, or the removal of
empty ones, which stay done.
-/

namespace Inn.Ovsqlite

variable {early : Prop} {db db' : Db} {g : Groupinfo} {f : Faults}

/-! ## How requests move the marks -/

/-- The marks of every group there is before and after move as they may. -/
def MarksMoves (early : Prop) (db db' : Db) : Prop :=
  ∀ g ∈ db.groupinfo, ∀ g' ∈ db'.groupinfo, g'.groupid = g.groupid → MarksMove early g g'

/-- Every group after was there before, with the same marks. -/
def SameMarks (db db' : Db) : Prop :=
  ∀ g' ∈ db'.groupinfo, ∃ g ∈ db.groupinfo, g.groupid = g'.groupid ∧ g'.low = g.low ∧
    g'.high = g.high

theorem SameMarks.refl (db : Db) : SameMarks db db := fun g hg => ⟨g, hg, rfl, rfl, rfl⟩

theorem SameMarks.trans {db'' : Db} (h : SameMarks db db') (h' : SameMarks db' db'') :
    SameMarks db db'' := by
  intro g'' hg''
  obtain ⟨g', hg', hid', hlow', hhigh'⟩ := h' g'' hg''
  obtain ⟨g, hg, hid, hlow, hhigh⟩ := h g' hg'
  exact ⟨g, hg, hid.trans hid', hlow'.trans hlow, hhigh'.trans hhigh⟩

theorem SameMarks.moves (h : SameMarks db db') (hs : Sound db) : MarksMoves early db db' := by
  intro g hg g' hg' hid
  obtain ⟨g₀, hg₀, hid₀, hlow, hhigh⟩ := h g' hg'
  rw [hs.eq_of_groupid hg₀ hg (hid₀.trans hid)] at hlow hhigh
  exact .up hlow.ge hhigh.ge

theorem sameMarks_update {sel : Groupinfo → Bool} {set : Groupinfo → Groupinfo}
    (hid : ∀ g, (set g).groupid = g.groupid)
    (hmarks : ∀ g, (set g).low = g.low ∧ (set g).high = g.high) :
    SameMarks db (db.updateGroupinfo sel set).1 := by
  intro g' hg'
  obtain ⟨g, hg, rfl⟩ := mem_updateGroupinfo.mp hg'
  refine ⟨g, hg, ?_⟩
  split
  · exact ⟨(hid g).symm, hmarks g⟩
  · exact ⟨rfl, rfl, rfl⟩

theorem sameMarks_updateGroupinfoFlagAlias (groupid : ℕ) (flagAlias : List UInt8) :
    SameMarks db (db.updateGroupinfoFlagAlias groupid flagAlias).1 :=
  sameMarks_update (fun _ => rfl) fun _ => ⟨rfl, rfl⟩

theorem sameMarks_setGroupDeleted (groupname : List UInt8) :
    SameMarks db (db.setGroupDeleted groupname).1 :=
  sameMarks_update (fun _ => rfl) fun _ => ⟨rfl, rfl⟩

theorem sameMarks_startExpireGroup (groupname : List UInt8) (time : ℤ) :
    SameMarks db (db.startExpireGroup groupname time).1 :=
  sameMarks_update (fun _ => rfl) fun _ => ⟨rfl, rfl⟩

theorem sameMarks_markForgotten (client : Settings) (db : Db) : SameMarks db (markForgotten client db) := by
  unfold markForgotten
  split
  · exact sameMarks_update (fun _ => rfl) fun _ => ⟨rfl, rfl⟩
  · exact SameMarks.refl db

theorem sameMarks_deleteEmptyGroups : SameMarks db db.deleteEmptyGroups.1 :=
  fun g' hg' => ⟨g', (List.mem_filter.mp hg').1, rfl, rfl, rfl⟩

theorem Sound.marksMoves_addGroup (h : Sound db) {groupname flagAlias : List UInt8} {low high : ℤ}
    (hadd : db.addGroup groupname flagAlias low high = some db') : MarksMoves early db db' := by
  obtain ⟨-, rfl⟩ := addGroup_some hadd
  intro g hg g' hg' hid
  rcases List.mem_append.mp hg' with hg' | hg'
  · rw [h.eq_of_groupid hg' hg hid]
    exact .refl g
  · rw [List.mem_singleton.mp hg'] at hid
    exact absurd hid.symm (groupid_lt_newGroupid hg).ne

theorem Sound.marksMoves_replace (h : Sound db) (hg : g ∈ db.groupinfo) {g₁ : Groupinfo}
    (hmoves : MarksMove early g g₁) (hgroups : db'.groupinfo =
      db.groupinfo.map fun g' => if g'.groupid = g.groupid then g₁ else g')
    (hid₁ : g₁.groupid = g.groupid) : MarksMoves early db db' := by
  intro g₀ hg₀ g' hg' hid
  rw [hgroups] at hg'
  obtain ⟨g₂, hg₂, rfl⟩ := List.mem_map.mp hg'
  split at hid
  · rw [if_pos ‹_›, ← h.eq_of_groupid hg hg₀ (hid₁.symm.trans hid)]
    exact hmoves
  · rw [if_neg ‹_›, h.eq_of_groupid hg₂ hg₀ hid]
    exact .refl g₀

/-- A new article moves the low mark down only if it may. -/
theorem Marked.added_moves {rows : List Artinfo} (h : Marked rows g) {artnum : ℤ}
    (hearly : artnum < g.low → 0 < g.count → early) : MarksMove early g (g.added artnum) := by
  by_cases hzero : g.count = 0
  · refine .first hzero ?_ ?_
    · change g.count + 1 = 1
      rw [hzero]
      rfl
    · change (if g.count ≠ 0 then min g.low artnum else artnum) =
        if g.count ≠ 0 then max g.high artnum else artnum
      rw [if_neg (not_not.mpr hzero), if_neg (not_not.mpr hzero)]
  · have hpos : 0 < g.count := by
      have := h.count
      omega
    have hlow : (g.added artnum).low = min g.low artnum := if_pos hzero
    have hhigh : (g.added artnum).high = max g.high artnum := if_pos hzero
    by_cases hlt : artnum < g.low
    · obtain ⟨a, ha, hnum⟩ := h.low_mem hpos
      have hle := h.le_high hpos a ha
      refine .lowered (hearly hlt hpos) hpos rfl ?_ ?_
      · rw [hlow, min_eq_right hlt.le]
        exact hlt
      · rw [hhigh, max_eq_left (by omega)]
    · refine .up ?_ ?_
      · rw [hlow, min_eq_left (not_lt.mp hlt)]
      · rw [hhigh]
        exact le_max_left _ _

/-! ## One request -/

variable {Stream : Type*} {c : Compression Stream} {limit : ℕ} {code : Code} {now : ℤ}
  {client client' : Settings} {request : Buffer} {reply : Reply}

/-- The article numbers of a request to add one are below 2^63. -/
def SmallNumber (code : Code) (request : Buffer) : Prop :=
  code = .addArticle → ∀ r ∈ unpackAddArticle request, r.artnum < 2 ^ 63

instance (code : Code) (request : Buffer) : Decidable (SmallNumber code request) :=
  inferInstanceAs (Decidable (_ → _))

/-- What an error reply may leave done: nothing, except that `do_finish_expire` has
already committed its first statements. -/
def ErrorLeaves (code : Code) (client : Settings) (db db' : Db) : Prop :=
  db' = db ∨ (code = .finishExpire ∧ (db' = markForgotten client db ∨
    db' = (markForgotten client db).deleteEmptyGroups.1))

/-- A request keeps the database sound, moves the marks as it may, and undoes its work
if it fails. -/
structure Correct (code : Code) (client : Settings) (reply : Reply) (db db' : Db) : Prop where
  sound : Sound db'
  moves : MarksMoves (code = .addArticle ∧ client.cutofflow = false) db db'
  errors : reply.isError = true → ErrorLeaves code client db db'

/-- A request that fails and leaves the rows alone, or does something right. -/
theorem Correct.of_cases (h : Sound db) {P : Prop}
    (hcases : (reply.isError = true ∧ db' = db) ∨ (reply = .simple responseOk ∧ P))
    (hdone : P → Sound db' ∧ MarksMoves (code = .addArticle ∧ client.cutofflow = false) db db') :
    Correct code client reply db db' := by
  rcases hcases with ⟨-, rfl⟩ | ⟨hreply, hp⟩
  · exact ⟨h, (SameMarks.refl _).moves h, fun _ => .inl rfl⟩
  · obtain ⟨hsound, hmoves⟩ := hdone hp
    refine ⟨hsound, hmoves, fun herr => ?_⟩
    rw [hreply] at herr
    exact absurd herr (by decide)

theorem Sound.doAddArticle (h : Sound db) (hsmall : SmallNumber .addArticle request)
    (hdo : doAddArticle c f client db request = (reply, db')) :
    Correct .addArticle client reply db db' := by
  refine .of_cases h (doAddArticle_cases hdo) ?_
  rintro ⟨r, g, db₁, hr, -, hlook, hcut, hadd, rfl⟩
  obtain ⟨hg, hlive, -⟩ := lookup_spec hlook
  have hlt := hsmall rfl r hr
  have hnum : int64 r.artnum = r.artnum := int64_of_lt hlt
  have hmarked := h.marked g hg hlive
  refine ⟨h.addArticle (a := r.row c g.groupid) hg rfl ?_ hlive hadd, ?_⟩
  · change 0 ≤ int64 r.artnum ∧ int64 r.artnum < 2 ^ 63
    rw [hnum]
    omega
  · obtain ⟨-, rfl⟩ := addArticle_ok hadd
    refine h.marksMoves_replace hg (hmarked.added_moves ?_) (h.updateGroupinfo_one hg rfl _) rfl
    -- a client that wants old articles refused does not get here with one
    intro hbelow hpos
    refine ⟨rfl, Bool.eq_false_iff.mpr fun hcutofflow => hcut ⟨hcutofflow, ?_⟩⟩
    obtain ⟨a, ha, hlow⟩ := hmarked.low_mem hpos
    have hrange := h.range a (mem_articles.mp ha).1
    rw [hnum] at hbelow
    rw [uint64_of_nonneg (by omega) (by omega)]
    omega

theorem Sound.doDeleteArticle (h : Sound db) (hdo : doDeleteArticle f db request = (reply, db')) :
    Correct .deleteArticle client reply db db' := by
  refine .of_cases h (doDeleteArticle_cases hdo) ?_
  rintro ⟨groupname, artnum, g, hr, hlook, hchanges, hupd⟩
  obtain ⟨hg, hlive, -⟩ := lookup_spec hlook
  have hlt : artnum < 2 ^ 64 := by
    obtain ⟨⟨groupname', request₁⟩, -, hr⟩ := Option.bind_eq_some_iff.mp hr
    obtain ⟨⟨artnum', request₂⟩, hword, hr⟩ := Option.bind_eq_some_iff.mp hr
    simp only [finishRequest] at hr
    split at hr
    · cases hr
      exact unpackWord_lt hword
    · cases hr
  -- one number is a list of one
  have hone : db.deleteArticle g.groupid (int64 artnum) =
      takeOut db g.groupid ([artnum].map int64) := by
    unfold Db.deleteArticle takeOut
    simp
  rw [hone] at hchanges hupd
  have hnum : (takeOut db g.groupid ([artnum].map int64)).2 = 1 := by
    refine le_antisymm ?_ (Nat.one_le_iff_ne_zero.mpr hchanges)
    rw [takeOut_snd, ← List.length_map (f := (·.artnum))]
    have hnodup : (((db.articles g.groupid).filter fun a =>
        a.artnum ∈ [artnum].map int64).map (·.artnum)).Nodup :=
      (h.nodup_artnums g.groupid).sublist ((List.filter_sublist).map _)
    have hsub : (((db.articles g.groupid).filter fun a =>
        a.artnum ∈ [artnum].map int64).map (·.artnum)) ⊆ [int64 artnum] := by
      intro x hx
      obtain ⟨a, ha, rfl⟩ := List.mem_map.mp hx
      exact of_decide_eq_true (List.mem_filter.mp ha).2
    exact (hnodup.subperm hsub).length_le
  have hdec : decide (uint64 g.count = 1) = decide (1 = uint64 g.count) :=
    decide_eq_decide.mpr eq_comm
  have hdec' : decide (artnum = uint64 g.low) = decide (uint64 g.low ∈ [artnum]) :=
    decide_eq_decide.mpr (eq_comm.trans List.mem_singleton.symm)
  rw [hdec, hdec', ← hnum] at hupd
  obtain ⟨hsound, g₁, hre, hgroups⟩ := h.takeOut_update hg hlive
    (fun n hn => by rw [List.mem_singleton.mp hn]; exact hlt) hchanges hupd
  exact ⟨hsound, h.marksMoves_replace hg hre.moves hgroups hre.groupid⟩

theorem Sound.doExpireGroup (h : Sound db) (hdo : doExpireGroup f db request = (reply, db')) :
    Correct .expireGroup client reply db db' := by
  refine .of_cases h (doExpireGroup_cases h.expireart hdo) ?_
  rintro (rfl | ⟨groupname, g, nums, hlook, hlt, ⟨hnone, rfl⟩ | ⟨hchanges, -, hupd⟩⟩)
  · exact ⟨h, (SameMarks.refl _).moves h⟩
  · rw [takeOut_none hnone]
    exact ⟨h, (SameMarks.refl _).moves h⟩
  · obtain ⟨hg, hlive, -⟩ := lookup_spec hlook
    obtain ⟨hsound, g₁, hre, hgroups⟩ := h.takeOut_update hg hlive hlt hchanges hupd
    exact ⟨hsound, h.marksMoves_replace hg hre.moves hgroups hre.groupid⟩

/-- The group that `.get_deleted_groupid` finds. -/
theorem getDeletedGroupid_spec {groupid : ℕ} (h : db.getDeletedGroupid = some groupid) :
    ∃ g ∈ db.groupinfo, g.groupid = groupid ∧ 0 < g.deleted := by
  unfold Db.getDeletedGroupid at h
  obtain ⟨g, hhead, rfl⟩ := Option.map_eq_some_iff.mp h
  have hmem := List.mem_of_mem_head? (Option.mem_def.mpr hhead)
  rw [List.mem_insertionSort, List.mem_filter, decide_eq_true_iff] at hmem
  exact ⟨g, hmem.1, rfl, hmem.2⟩

theorem Sound.doFinishExpire (h : Sound db)
    (hdo : doFinishExpire f limit client db request = (reply, client', db')) :
    Correct .finishExpire client reply db db' := by
  have hsound₁ := h.markForgotten client
  have hsound₂ := hsound₁.deleteEmptyGroups
  have hsame₁ := sameMarks_markForgotten client db
  have hsame₂ := hsame₁.trans sameMarks_deleteEmptyGroups
  rcases doFinishExpire_cases h.expireart hdo with ⟨-, -, rfl⟩ |
    ⟨-, ⟨-, -, rfl | rfl⟩ | ⟨hreply, -, rfl, -⟩ | ⟨hreply, -, groupid, hdel, rfl⟩⟩
  · exact ⟨h, (SameMarks.refl _).moves h, fun _ => .inl rfl⟩
  · exact ⟨hsound₁, hsame₁.moves h, fun _ => .inr ⟨rfl, .inl rfl⟩⟩
  · exact ⟨hsound₂, hsame₂.moves h, fun _ => .inr ⟨rfl, .inr rfl⟩⟩
  · exact ⟨hsound₂, hsame₂.moves h, fun _ => .inr ⟨rfl, .inr rfl⟩⟩
  · obtain ⟨g, hg, rfl, hpos⟩ := getDeletedGroupid_spec hdel
    refine ⟨hsound₂.takeOut_deleted hg hpos _, SameMarks.moves (fun g' hg' => hsame₂ g' hg') h,
      fun herr => ?_⟩
    rw [hreply] at herr
    exact absurd herr (by decide)

/-- Every request is handled correctly. -/
theorem Sound.handle (h : Sound db) (hsmall : SmallNumber code request)
    (hdo : handle c limit code f now client db request = (reply, client', db')) :
    Correct code client reply db db' := by
  cases code with
  | setCutofflow =>
    cases hdo
    exact ⟨h, (SameMarks.refl db).moves h, fun _ => .inl rfl⟩
  | addGroup =>
    cases hdo
    refine .of_cases h (doAddGroup_cases rfl) ?_
    rintro ⟨r, -, ⟨-, hadd⟩ | ⟨g, -, heq⟩⟩
    · exact ⟨h.addGroup hadd, h.marksMoves_addGroup hadd⟩
    · rw [heq]
      exact ⟨h.updateGroupinfoFlagAlias _ _, (sameMarks_updateGroupinfoFlagAlias _ _).moves h⟩
  | deleteGroup =>
    cases hdo
    refine .of_cases h (doDeleteGroup_cases rfl) ?_
    rintro ⟨groupname, -, heq⟩
    rw [heq]
    exact ⟨h.setGroupDeleted _, (sameMarks_setGroupDeleted _).moves h⟩
  | addArticle =>
    cases hdo
    exact h.doAddArticle hsmall rfl
  | deleteArticle =>
    cases hdo
    exact h.doDeleteArticle rfl
  | startExpireGroup =>
    refine .of_cases h (doStartExpireGroup_cases hdo) ?_
    rintro ⟨groupname, -, rfl⟩
    exact ⟨h.startExpireGroup _ _, (sameMarks_startExpireGroup _ _).moves h⟩
  | expireGroup =>
    cases hdo
    exact h.doExpireGroup rfl
  | finishExpire => exact h.doFinishExpire hdo

/-! ## Runs -/

variable {Id : Type*} [DecidableEq Id] {s s₀ : Server Id}

/-- A request to add an article has a number below 2^63. -/
def Input.Small : Input Id → Prop
  | .connect _ => True
  | .request _ code request _ _ => SmallNumber code request

/-- What a request may do to the marks, and what it may leave done if it fails. -/
def Behaves (s : Server Id) (input : Input Id) (s' : Server Id) (reply : Option Reply) : Prop :=
  match input with
  | .connect _ => s'.db = s.db
  | .request id code _ _ _ =>
    MarksMoves (code = .addArticle ∧ (s.clients id).cutofflow = false) s.db s'.db ∧
    ∀ r, reply = some r → r.isError = true → ErrorLeaves code (s.clients id) s.db s'.db

theorem Sound.serve (h : Sound s.db) {input : Input Id} (hsmall : input.Small) :
    Sound (serve c limit s input).2.db ∧
      Behaves s input (serve c limit s input).2 (serve c limit s input).1 := by
  cases input with
  | connect id => exact ⟨h, rfl⟩
  | request id code request now f =>
    have hcorrect := h.handle hsmall (rfl :
      Inn.Ovsqlite.handle c limit code f now (s.clients id) s.db request = (_, _, _))
    refine ⟨hcorrect.sound, hcorrect.moves, fun r hr => ?_⟩
    cases hr
    exact hcorrect.errors

/-- In every run the count and marks of every live group agree with its articles; and
whatever comes next moves the marks as it may, and undoes its work if it fails. -/
theorem group_marks_kept {inputs : List (Input Id)} (h₀ : Sound s₀.db)
    (h : Steps (guarded (fun _ input => input.Small) (Serves c limit)) s₀ inputs s) :
    (∀ g ∈ s.db.groupinfo, g.deleted = 0 → Marked (s.db.articles g.groupid) g) ∧
    ∀ input : Input Id, input.Small →
      Behaves s input (serve c limit s input).2 (serve c limit s input).1 := by
  have hsound : Sound s.db := by
    refine @Steps.invariant _ _ _ (fun s => Sound s.db) _ _ _ ?_ h h₀
    rintro s input s' ⟨hsmall, rfl⟩ hs
    exact (hs.serve hsmall).1
  exact ⟨hsound.marked, fun input hsmall => (hsound.serve hsmall).2⟩

/-- A request with nothing read yet. -/
def requestOf (body : List UInt8) : Buffer := ⟨body.length, body, 0⟩

/-- A group name as requests have it. -/
def groupnameBytes (groupname : List UInt8) : List UInt8 :=
  toBytes 2 groupname.length ++ groupname

/-- Adding a group with low mark 1, high mark 0 and a flag. -/
def addGroupRequest (groupname : List UInt8) : Buffer :=
  requestOf (groupnameBytes groupname ++ toBytes 8 1 ++ toBytes 8 0 ++ toBytes 2 1 ++ [0x79])

/-- Adding an article with some overview data. -/
def addArticleRequest (groupname : List UInt8) (artnum : ℕ) : Buffer :=
  requestOf (groupnameBytes groupname ++ toBytes 8 artnum ++ toBytes 8 0 ++ toBytes 8 0 ++
    List.replicate tokenSize 0 ++ toBytes 4 1 ++ [0x78])

/-- A server with an empty database. -/
def newServer : Server ℕ := ⟨Db.empty, fun _ => Settings.new⟩

/-- What a server has done after some requests of its first client without faults. -/
def served (c : Compression Unit) (requests : List (Code × Buffer)) : Server ℕ :=
  requests.foldl (fun s r => (serve c 10000 s (.request 0 r.1 r.2 7 Faults.none)).2) newServer

/-- They are a run. -/
theorem served_run {c : Compression Unit} {requests : List (Code × Buffer)}
    (hsmall : ∀ r ∈ requests, SmallNumber r.1 r.2) :
    ∃ inputs, Steps (guarded (fun _ input => input.Small) (Serves c 10000)) newServer inputs
      (served c requests) := by
  induction requests using List.reverseRecOn with
  | nil => exact ⟨[], .nil⟩
  | append_singleton requests r ih =>
    obtain ⟨inputs, hrun⟩ := ih fun r hr => hsmall r (List.mem_append_left _ hr)
    have hr : (Input.request 0 r.1 r.2 7 Faults.none : Input ℕ).Small :=
      hsmall r (List.mem_append_right _ (List.mem_singleton_self r))
    have hserve : Serves c 10000 (served c requests) (.request 0 r.1 r.2 7 Faults.none)
        (served c (requests ++ [r])) := by
      unfold served Serves
      rw [List.foldl_append]
      rfl
    exact ⟨_, hrun.snoc ⟨hr, hserve⟩⟩

/-- Group "a" with one article, numbered 5. -/
def oneArticle : Server ℕ :=
  served uncompressed [(.addGroup, addGroupRequest [0x61]), (.addArticle, addArticleRequest [0x61] 5)]

theorem group_marks_kept_added :
    (∀ g ∈ oneArticle.db.groupinfo, g.deleted = 0 → Marked (oneArticle.db.articles g.groupid) g) ∧
    ∀ input : Input ℕ, input.Small → Behaves oneArticle input
      (serve uncompressed 10000 oneArticle input).2 (serve uncompressed 10000 oneArticle input).1 :=
  let ⟨_, hrun⟩ := served_run (by decide)
  group_marks_kept Sound.empty hrun

/-- A later article with a smaller number lowers the low mark of a group that has
articles; and a request answered with an error may leave a group marked as deleted. -/
theorem low_mark_falls :
    oneArticle.db.groupinfo = [⟨1, 5, 5, 1, 0, 0, [0x61], [0x79]⟩] ∧
    (serve uncompressed 10000 oneArticle
      (.request 0 .addArticle (addArticleRequest [0x61] 3) 7 Faults.none)).2.db.groupinfo =
        [⟨1, 3, 5, 2, 0, 0, [0x61], [0x79]⟩] ∧
    (let s := served uncompressed [(.addGroup, addGroupRequest [0x61]),
      (.addGroup, addGroupRequest [0x62]),
      (.startExpireGroup, requestOf (groupnameBytes [0x62]))]
    let f : Faults := ⟨fun statement => statement = .deleteEmptyGroups, []⟩
    let r := serve uncompressed 10000 s (.request 0 .finishExpire (requestOf []) 8 f)
    r.1 = some (.packed responseSqlError []) ∧
      s.db.groupinfo.map (·.deleted) = [0, 0] ∧ r.2.db.groupinfo.map (·.deleted) = [1, 0]) := by
  decide

end Inn.Ovsqlite
