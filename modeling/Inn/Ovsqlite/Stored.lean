import Inn.Ovsqlite.Searches
import Inn.Ovsqlite.Sound

/-!
# Inn.Ovsqlite.Stored — what is added is what searches return

`stored_unchanged`: after any adds of articles whose overview can be read back
(`Storable`), every search returns them with their own values, on either path and after
any other searches. No other overview is read back: one of no bytes is a null pointer to
the reader, a short one is stored as it is but read as a length, and one of the largest
size that does not get smaller is one byte too long behind its marker.
-/

namespace Inn.Ovsqlite

variable {Stream : Type*} {c : Compression Stream} {db db₀ : Db}

/-! ## Which overviews are read back -/

/-- `pack_length` has room for its bytes in a buffer as long as the data. -/
theorem length_packLength_le {n : ℕ} (h : 5 < n) (hn : n ≤ MAX_OVDATA_SIZE) :
    (packLength n).length ≤ n :=
  (length_packLength (hn.trans_lt (by decide))).trans (by omega)

/-! ## Calls that ask for everything -/

/-- Calls in a row that ask for the same. -/
def searched (c : Compression Stream) (path : Path) (db : Db) (ask : Ask) (s : Searching Stream) :
    ℕ → Searching Stream × List (Option Found)
  | 0 => (s, [])
  | n + 1 =>
    let r := searched c path db ask s n
    let call := ovsqliteSearch c path db r.1 ask
    (call.2, r.2 ++ [call.1])

/-- What all calls asked for so far is what the next one asks for. -/
def Settled (ask : Ask) (h : Handle) : Prop := h.done = false ∨ h.cols = ask.cols

variable {groupname : List UInt8} {arts rest : List Article} {ask : Ask} {path : Path} {high : ℤ}
  {s s' : Searching Stream}

theorem Settled.smooth (h : Settled ask s.handle) (htoken : ask.token = true) :
    Smooth path arts s ask := by
  intro hrefill
  refine ⟨fun hdone hindex => ?_, fun _ _ _ hno => ?_⟩
  · rcases h with hnot | hcols
    · rw [hnot] at hdone
      cases hdone
    · rw [hcols, exceed_self] at hrefill
      rcases hrefill with hex | hle
      · cases hex
      · omega
  · change ask.token = false at hno
    rw [htoken] at hno
    cases hno

/-- Taking a row does not change what the handle is about. -/
theorem takeRow_keeps (ask : Ask) (s : Searching Stream) :
    (takeRow ask s).2.stream = s.stream ∧ (takeRow ask s).2.handle.groupname = s.handle.groupname ∧
      (takeRow ask s).2.handle.cols = s.handle.cols ∧ (takeRow ask s).2.handle.done = s.handle.done := by
  unfold takeRow
  simp only
  split <;> exact ⟨rfl, rfl, rfl, rfl⟩

/-- A call leaves the stream of the direct reader as it was, and the columns either as
they were or as it asked. -/
theorem ovsqliteSearch_keeps (hholds : Holds c db groupname arts)
    (hvalid : ∀ art ∈ arts, art.Valid c groupname) (hz : c.zlib.Undoes)
    (hstream : s.stream = c.zlib.fresh) (hname : s.handle.groupname = groupname) :
    let s' := (ovsqliteSearch c path db s ask).2
    s'.stream = c.zlib.fresh ∧ s'.handle.groupname = groupname ∧
      (Settled ask s.handle → Settled ask s'.handle) := by
  by_cases hend : s.handle.done = true ∧ s.handle.count ≤ s.handle.index
  · have hsame : ovsqliteSearch c path db s ask = (none, s) := if_pos hend
    rw [hsame]
    exact ⟨hstream, hname, id⟩
  by_cases hneed : ask.cols.exceed s.handle.cols = true ∨ s.handle.count ≤ s.handle.index
  · obtain ⟨s', hs', href⟩ := @refill_refilled _ c db groupname arts path hholds hvalid hz
      { s with handle := { s.handle with cols := ask.cols } } hstream hname rfl
    obtain ⟨hstream', hname', hcols', -⟩ := takeRow_keeps ask s'
    rw [ovsqliteSearch_of_refill hend hneed hs']
    exact ⟨hstream'.trans href.stream, hname'.trans (href.groupname.trans hname),
      fun _ => .inr (hcols'.trans href.cols)⟩
  · obtain ⟨hstream', hname', hcols', hdone'⟩ := takeRow_keeps ask s
    rw [ovsqliteSearch_of_keep hend hneed]
    refine ⟨hstream'.trans hstream, hname'.trans hname, ?_⟩
    rintro (hdone | hcols)
    · exact .inl (hdone'.trans hdone)
    · exact .inr (hcols'.trans hcols)

/-- Calls that ask for everything return the articles of the range and then nothing. -/
theorem searched_eq (hz : c.zlib.Undoes) (hholds : Holds c db groupname arts)
    (hvalid : ∀ art ∈ arts, art.Valid c groupname) (htoken : ask.token = true) {low : ℤ}
    (hlow : -2 ^ 31 ≤ low ∧ low < 2 ^ 31) (hhigh : -2 ^ 31 ≤ high ∧ high < 2 ^ 31) (n : ℕ) :
    (searched c path db ask ⟨c.zlib.fresh, ovsqliteOpensearch groupname low high⟩ n).2 =
      returns (inRange low high arts) (List.replicate n ask) := by
  suffices h : ∀ r, searched c path db ask ⟨c.zlib.fresh, ovsqliteOpensearch groupname low high⟩ n = r →
      r.2 = returns (inRange low high arts) (List.replicate n ask) ∧ Settled ask r.1.handle ∧
      Sees c groupname high arts ((inRange low high arts).drop n) r.1 from (h _ rfl).1
  induction n with
  | zero =>
    rintro r rfl
    exact ⟨rfl, .inl rfl, sees_opensearch arts hlow hhigh⟩
  | succ n ih =>
    rintro r rfl
    obtain ⟨hanswers, hsettled, hsees⟩ := ih _ rfl
    obtain ⟨hfound, hsees'⟩ := hsees.search hholds hvalid hz (by omega)
      (hsettled.smooth htoken : Smooth path arts _ ask)
    obtain ⟨-, -, hsettled'⟩ := @ovsqliteSearch_keeps _ c db groupname arts ask path _ hholds hvalid hz
      hsees.fresh hsees.name
    refine ⟨?_, hsettled' hsettled, ?_⟩
    · change _ ++ [_] = _
      rw [List.replicate_succ', returns_concat, List.length_replicate, ← hanswers, hfound]
    · rw [List.tail_drop] at hsees'
      exact hsees'

/-! ## Adds -/

/-- A group name as a client packs it, with its length in two bytes. -/
def packedName (groupname : List UInt8) : List UInt8 := groupname.take (groupname.length % 2 ^ 16)

/-- The arguments of `ovsqlite_add`, each within its type. -/
structure Add where
  groupname : List UInt8
  art : Article
  artnum : -2 ^ 63 ≤ art.artnum ∧ art.artnum < 2 ^ 63
  arrived : -2 ^ 63 ≤ art.arrived ∧ art.arrived < 2 ^ 63
  expires : -2 ^ 63 ≤ art.expires ∧ art.expires < 2 ^ 63
  token : art.token.length = tokenSize

/-- The request that `ovsqlite_add` sends. -/
def Add.body (add : Add) : List UInt8 :=
  toBytes 2 (packedName add.groupname).length ++ (packedName add.groupname ++
    (toBytes 8 (uint64 add.art.artnum) ++ (toBytes 8 (uint64 add.art.arrived) ++
      (toBytes 8 (uint64 add.art.expires) ++ (add.art.token ++
        (toBytes 4 add.art.data.length ++ (add.art.data ++ [])))))))

/-- `ovsqlite_add`: whether it succeeds, and what it leaves. A group that the database
does not have is no failure. -/
def ovsqliteAdd (c : Compression Stream) (f : Faults) (client : Settings) (db : Db) (add : Add) :
    Bool × Db :=
  if MAX_OVDATA_SIZE < add.art.data.length then (false, db)
  else
    let r := doAddArticle c f client db ⟨add.body.length, add.body, 0⟩
    (r.1.code = responseOk || r.1.code = responseNoGroup, r.2)

/-- A successful add, whatever the settings of the client and the statements that fail. -/
def Adds (c : Compression Stream) (db : Db) (add : Add) (db' : Db) : Prop :=
  ∃ f client, ovsqliteAdd c f client db add = (true, db')

/-- The condition on an add: the group is there, and the overview can be read back. -/
def Storable (c : Compression Stream) (db : Db) (add : Add) : Prop :=
  db.lookupGroupinfo (packedName add.groupname) ≠ none ∧
    Kept c (packedName add.groupname) (uint64 add.art.artnum) add.art.data

/-- The articles added to a group, in the order of their numbers. -/
def addedTo (groupname : List UInt8) (adds : List Add) : List Article :=
  ((adds.filter fun add => packedName add.groupname = packedName groupname).map (·.art)).insertionSort
    fun art art' => art.artnum ≤ art'.artnum

theorem length_packedName (groupname : List UInt8) : (packedName groupname).length < 256 ^ 2 := by
  unfold packedName
  rw [List.length_take]
  omega

theorem Buffer.unpackBlob_append {b : Buffer} {width : ℕ} {xs ys : List UInt8}
    (h : b.bytes = toBytes width xs.length ++ (xs ++ ys)) (hn : xs.length < 256 ^ width) :
    ∃ b' : Buffer, b.unpackBlob width = some (xs, b') ∧ b'.bytes = ys := by
  obtain ⟨b₁, h₁, hbytes₁⟩ := Buffer.unpackWord_toBytes h hn
  obtain ⟨b₂, h₂, hbytes₂⟩ := Buffer.unpackNow_append hbytes₁ rfl
  refine ⟨b₂, ?_, hbytes₂⟩
  unfold Buffer.unpackBlob
  rw [h₁]
  exact h₂

/-- The server reads what the client packed. -/
theorem unpackAddArticle_body (add : Add) (hlen : add.art.data.length ≤ MAX_OVDATA_SIZE) :
    unpackAddArticle ⟨add.body.length, add.body, 0⟩ =
      some ⟨packedName add.groupname, uint64 add.art.artnum, uint64 add.art.arrived,
        uint64 add.art.expires, add.art.token, add.art.data⟩ := by
  have hmax : MAX_OVDATA_SIZE < 256 ^ 4 := by decide
  obtain ⟨b₁, h₁, e₁⟩ := @Buffer.unpackBlob_append ⟨add.body.length, add.body, 0⟩ 2
    (packedName add.groupname) _ rfl (length_packedName _)
  obtain ⟨b₂, h₂, e₂⟩ := Buffer.unpackWord_toBytes e₁ (uint64_lt _)
  obtain ⟨b₃, h₃, e₃⟩ := Buffer.unpackWord_toBytes e₂ (uint64_lt _)
  obtain ⟨b₄, h₄, e₄⟩ := Buffer.unpackWord_toBytes e₃ (uint64_lt _)
  obtain ⟨b₅, h₅, e₅⟩ := Buffer.unpackNow_append e₄ add.token
  obtain ⟨b₆, h₆, e₆⟩ := Buffer.unpackBlob_append e₅ (by omega)
  have hleft : b₆.left = 0 := by
    have : b₆.left = b₆.bytes.length := List.length_drop.symm
    rw [this, e₆]
    rfl
  unfold unpackAddArticle
  simp only [h₁, h₂, h₃, h₄, h₅, h₆, Option.bind_eq_bind, Option.bind_some, finishRequest, hleft,
    if_true]

universe u

theorem bind_error {ε α β : Type u} {x : Except ε α} {k : α → Except ε β} {e : ε}
    (h : x >>= k = .error e) : x = .error e ∨ ∃ a, x = .ok a ∧ k a = .error e := by
  cases x with
  | error e' =>
    cases h
    exact .inl rfl
  | ok a => exact .inr ⟨a, rfl, h⟩

theorem exec_error {α : Type u} {f : Faults} {statement : Statement} {a : α} {e : Reply}
    (h : f.exec statement a = .error e) : e = f.sqlErrorResponse := by
  unfold Faults.exec at h
  split at h
  · cases h
    rfl
  · cases h

/-- Only a group that is not there is answered so. -/
theorem doAddArticle_noGroup {f : Faults} {client : Settings} {request : Buffer} {reply : Reply}
    {db' : Db} (h : doAddArticle c f client db request = (reply, db'))
    (hcode : reply.code = responseNoGroup) :
    ∃ r, unpackAddArticle request = some r ∧ db.lookupGroupinfo r.groupname = none := by
  have hsql : f.sqlErrorResponse.code ≠ responseNoGroup :=
    (by decide : responseSqlError ≠ responseNoGroup)
  unfold doAddArticle rollbackTo at h
  split at h
  · next e hx =>
    cases h
    rcases bind_error hx with hbad | ⟨r, hr, hx⟩
    · cases hunpack : unpackAddArticle request with
      | none =>
        rw [hunpack] at hbad
        cases hbad
        cases hcode
      | some r =>
        rw [hunpack] at hbad
        cases hbad
    refine ⟨r, orBadRequest_ok hr, ?_⟩
    split at hx
    · cases hx
      cases hcode
    rcases bind_error hx with hlookup | ⟨g, -, hx⟩
    · rcases bind_error hlookup with hexec | ⟨found, hfound, hnone⟩
      · rw [exec_error hexec] at hcode
        exact absurd hcode hsql
      · rw [exec_ok hfound]
        cases found with
        | none => rfl
        | some g => cases hnone
    split at hx
    · cases hx
      cases hcode
    rcases bind_error hx with hexec | ⟨added, -, hx⟩
    · rw [exec_error hexec] at hcode
      exact absurd hcode hsql
    rcases added with (- | -) | db₁
    · cases hx
      cases hcode
    · cases hx
      exact absurd hcode hsql
    · rw [exec_error hx] at hcode
      exact absurd hcode hsql
  · cases h
    cases hcode

theorem isError_of_ok {reply : Reply} (h : reply.code = responseOk) : reply.isError ≠ true := by
  unfold Reply.isError
  rw [h]
  decide

/-- The row of an added article, in a group. -/
def Add.row (c : Compression Stream) (add : Add) (groupid : ℕ) : Artinfo :=
  add.art.row c (packedName add.groupname) groupid

/-- What a successful add to a group does. -/
theorem Adds.cases {add : Add} {db' : Db} (h : Adds c db add db')
    (hgroup : db.lookupGroupinfo (packedName add.groupname) ≠ none) :
    ∃ g, db.lookupGroupinfo (packedName add.groupname) = some g ∧
      (∀ a ∈ db.artinfo, a.groupid = g.groupid → a.artnum ≠ add.art.artnum) ∧
      db' = { db with artinfo := db.artinfo ++ [add.row c g.groupid] }.updateGroupinfoAdd g.groupid
        add.art.artnum := by
  obtain ⟨f, client, h⟩ := h
  unfold ovsqliteAdd at h
  split at h
  · cases h
  next hlen =>
  obtain ⟨reply, db₂, hdo⟩ : ∃ reply db₂,
      doAddArticle c f client db ⟨add.body.length, add.body, 0⟩ = (reply, db₂) := ⟨_, _, rfl⟩
  rw [hdo] at h
  obtain ⟨hcode, rfl⟩ := Prod.mk.inj h
  rw [Bool.or_eq_true, decide_eq_true_iff, decide_eq_true_iff] at hcode
  have hunpack := unpackAddArticle_body add (Nat.not_lt.mp hlen)
  rcases doAddArticle_cases hdo with ⟨herr, -⟩ | ⟨-, r, g, db₁, hr, -, hlook, -, hadd, heq⟩
  · rcases hcode with hok | hno
    · exact absurd herr (isError_of_ok hok)
    · obtain ⟨r, hr, hnone⟩ := doAddArticle_noGroup hdo hno
      rw [hunpack] at hr
      cases hr
      exact absurd hnone hgroup
  · rw [hunpack] at hr
    cases hr
    obtain ⟨hnew, rfl⟩ := addArticle_ok hadd
    have hrow : AddArticle.row c ⟨packedName add.groupname, uint64 add.art.artnum,
        uint64 add.art.arrived, uint64 add.art.expires, add.art.token, add.art.data⟩ g.groupid =
        add.row c g.groupid := by
      unfold AddArticle.row Add.row Article.row
      simp only
      rw [int64_uint64 add.artnum.1 add.artnum.2, int64_uint64 add.arrived.1 add.arrived.2,
        int64_uint64 add.expires.1 add.expires.2]
    rw [hrow] at hnew heq
    refine ⟨g, hlook, hnew, ?_⟩
    rw [heq, int64_uint64 add.artnum.1 add.artnum.2]

/-! ## What adds leave -/

/-- The row number of a live group. -/
def Db.groupidOf (db : Db) (groupname : List UInt8) : Option ℕ :=
  (db.lookupGroupinfo groupname).map (·.groupid)

/-- Updates that leave the names and marks of the groups alone. -/
theorem groupidOf_updateGroupinfo {sel : Groupinfo → Bool} {set : Groupinfo → Groupinfo}
    (hset : ∀ g, (set g).groupname = g.groupname ∧ (set g).deleted = g.deleted ∧
      (set g).groupid = g.groupid) (groupname : List UInt8) :
    (db.updateGroupinfo sel set).1.groupidOf groupname = db.groupidOf groupname := by
  have hlive : (Db.isLive groupname ∘ fun g => if sel g then set g else g) = Db.isLive groupname := by
    funext g
    rw [Function.comp_apply]
    split
    · obtain ⟨hname, hdel, -⟩ := hset g
      unfold Db.isLive
      rw [hname, hdel]
    · rfl
  unfold Db.groupidOf Db.lookupGroupinfo Db.updateGroupinfo
  simp only
  rw [List.find?_map, hlive, Option.map_map]
  congr 1
  funext g
  rw [Function.comp_apply]
  split
  · exact (hset g).2.2
  · rfl

theorem groupidOf_updateGroupinfoAdd (groupid : ℕ) (artnum : ℤ) (groupname : List UInt8) :
    (db.updateGroupinfoAdd groupid artnum).groupidOf groupname = db.groupidOf groupname := by
  unfold Db.updateGroupinfoAdd
  refine groupidOf_updateGroupinfo ?_ groupname
  intro g
  exact ⟨rfl, rfl, rfl⟩

/-- The database after some adds: one row for each, in order, and the same groups. -/
structure Stored (c : Compression Stream) (db₀ : Db) (adds : List Add) (db : Db) : Prop where
  groupids : ∀ groupname, db.groupidOf groupname = db₀.groupidOf groupname
  rows : db.artinfo = adds.map fun add =>
    add.row c ((db₀.groupidOf (packedName add.groupname)).getD 0)
  there : ∀ add ∈ adds, db₀.groupidOf (packedName add.groupname) ≠ none
  kept : ∀ add ∈ adds, Kept c (packedName add.groupname) (uint64 add.art.artnum) add.art.data
  keys : db.artinfo.Pairwise fun a a' => a.groupid = a'.groupid → a.artnum ≠ a'.artnum

theorem stored_nil (hempty : db₀.artinfo = []) : Stored c db₀ [] db₀ where
  groupids := fun _ => rfl
  rows := hempty
  there := fun _ h => absurd h List.not_mem_nil
  kept := fun _ h => absurd h List.not_mem_nil
  keys := by
    rw [hempty]
    exact List.Pairwise.nil

/-- One more add. -/
theorem Stored.snoc {adds : List Add} {add : Add} {db' : Db} (h : Stored c db₀ adds db)
    (hadd : Adds c db add db') (hstorable : Storable c db add) : Stored c db₀ (adds ++ [add]) db' := by
  obtain ⟨hgroup, hkept⟩ := hstorable
  obtain ⟨g, hlook, hnew, rfl⟩ := hadd.cases hgroup
  have hid : db₀.groupidOf (packedName add.groupname) = some g.groupid := by
    rw [← h.groupids, Db.groupidOf, hlook]
    rfl
  exact {
    groupids := fun groupname =>
      (groupidOf_updateGroupinfoAdd _ _ groupname).trans (h.groupids groupname)
    rows := by
      change db.artinfo ++ [add.row c g.groupid] = _
      rw [List.map_append, ← h.rows, List.map_singleton, hid]
      rfl
    there := by
      intro add' hadd'
      rcases List.mem_append.mp hadd' with hadd' | hadd'
      · exact h.there add' hadd'
      · rw [List.mem_singleton.mp hadd', hid]
        exact Option.some_ne_none _
    kept := by
      intro add' hadd'
      rcases List.mem_append.mp hadd' with hadd' | hadd'
      · exact h.kept add' hadd'
      · rw [List.mem_singleton.mp hadd']
        exact hkept
    keys := by
      change (db.artinfo ++ [add.row c g.groupid]).Pairwise _
      refine List.pairwise_append.mpr ⟨h.keys, List.pairwise_singleton _ _, ?_⟩
      intro a ha a' ha' hsame
      rw [List.mem_singleton.mp ha'] at hsame ⊢
      exact hnew a ha hsame }

/-- Live groups have different row numbers. -/
theorem groupidOf_inj (hids : (db.groupinfo.map (·.groupid)).Nodup) {groupname groupname' : List UInt8}
    {groupid : ℕ} (h : db.groupidOf groupname = some groupid) (h' : db.groupidOf groupname' = some groupid) :
    groupname = groupname' := by
  obtain ⟨g, hg, hid⟩ := Option.map_eq_some_iff.mp h
  obtain ⟨g', hg', hid'⟩ := Option.map_eq_some_iff.mp h'
  obtain ⟨hmem, -, hname⟩ := lookup_spec hg
  obtain ⟨hmem', -, hname'⟩ := lookup_spec hg'
  have heq : g = g' := List.inj_on_of_nodup_map hids hmem hmem' (hid.trans hid'.symm)
  rw [← hname, ← hname', heq]

theorem mem_addedTo {adds : List Add} {art : Article} : art ∈ addedTo groupname adds ↔
    ∃ add ∈ adds, packedName add.groupname = packedName groupname ∧ add.art = art := by
  unfold addedTo
  rw [List.mem_insertionSort, List.mem_map]
  constructor
  · rintro ⟨add, hadd, rfl⟩
    obtain ⟨hmem, hname⟩ := List.mem_filter.mp hadd
    exact ⟨add, hmem, of_decide_eq_true hname, rfl⟩
  · rintro ⟨add, hmem, hname, rfl⟩
    exact ⟨add, List.mem_filter.mpr ⟨hmem, decide_eq_true hname⟩, rfl⟩

/-- What is added can be read back. -/
theorem Stored.valid {adds : List Add} (h : Stored c db₀ adds db) (groupname : List UInt8) :
    ∀ art ∈ addedTo groupname adds, art.Valid c (packedName groupname) := by
  intro art hart
  obtain ⟨add, hadd, hname, rfl⟩ := mem_addedTo.mp hart
  exact ⟨add.artnum, add.arrived, add.token, hname ▸ h.kept add hadd⟩

/-- The rows of a group are those of the articles added to it. -/
theorem Stored.articles {adds : List Add} (h : Stored c db₀ adds db)
    (hids : (db₀.groupinfo.map (·.groupid)).Nodup) {groupid : ℕ}
    (hgroup : db₀.groupidOf (packedName groupname) = some groupid) :
    db.articles groupid = (adds.filter fun add => packedName add.groupname = packedName groupname).map
      fun add => add.art.row c (packedName groupname) groupid := by
  unfold Db.articles
  rw [h.rows, List.filter_map]
  have hfilter : adds.filter ((fun a : Artinfo => decide (a.groupid = groupid)) ∘ fun add : Add =>
      add.row c ((db₀.groupidOf (packedName add.groupname)).getD 0)) =
      adds.filter fun add => packedName add.groupname = packedName groupname := by
    refine List.filter_congr fun add hadd => ?_
    obtain ⟨id, hid⟩ := Option.ne_none_iff_exists'.mp (h.there add hadd)
    rw [Function.comp_apply, decide_eq_decide]
    change ((db₀.groupidOf (packedName add.groupname)).getD 0) = groupid ↔ _
    rw [hid, Option.getD_some]
    constructor
    · rintro rfl
      exact groupidOf_inj hids hid hgroup
    · intro hname
      rw [hname, hgroup] at hid
      exact (Option.some.inj hid).symm
  rw [hfilter]
  refine List.map_congr_left fun add hadd => ?_
  have hname := of_decide_eq_true (List.mem_filter.mp hadd).2
  unfold Add.row
  rw [hname, hgroup]
  rfl

/-- The database holds what was added. -/
theorem Stored.holds {adds : List Add} (h : Stored c db₀ adds db)
    (hids : (db₀.groupinfo.map (·.groupid)).Nodup) (groupname : List UInt8) :
    Holds c db (packedName groupname) (addedTo groupname adds) := by
  have hsame := h.groupids (packedName groupname)
  cases hid : db₀.groupidOf (packedName groupname) with
  | none =>
    have hnil : addedTo groupname adds = [] := by
      refine List.eq_nil_iff_forall_not_mem.mpr fun art hart => ?_
      obtain ⟨add, hadd, hname, -⟩ := mem_addedTo.mp hart
      exact h.there add hadd (hname ▸ hid)
    rw [hid] at hsame
    rw [hnil]
    refine ⟨List.Pairwise.nil, ?_⟩
    rw [Option.map_eq_none_iff.mp hsame]
  | some groupid =>
    have harticles := h.articles hids hid
    rw [hid] at hsame
    obtain ⟨g, hlook, rfl⟩ := Option.map_eq_some_iff.mp hsame
    -- the numbers differ, and so the order by number is strict
    have hne : ((adds.filter fun add => packedName add.groupname = packedName groupname).map
        (·.art)).Pairwise fun art art' => art.artnum ≠ art'.artnum := by
      have hkeys : (db.articles g.groupid).Pairwise _ := h.keys.filter _
      rw [harticles, List.pairwise_map] at hkeys
      rw [List.pairwise_map]
      exact hkeys.imp fun hne => hne rfl
    have hperm : (addedTo groupname adds).Perm _ := List.perm_insertionSort _ _
    refine ⟨?_, ?_⟩
    · have htotal : Std.Total fun art art' : Article => art.artnum ≤ art'.artnum :=
        ⟨fun art art' => le_total art.artnum art'.artnum⟩
      have htrans : IsTrans Article fun art art' => art.artnum ≤ art'.artnum :=
        ⟨fun _ _ _ => le_trans⟩
      have hle : (addedTo groupname adds).Pairwise fun art art' => art.artnum ≤ art'.artnum :=
        List.pairwise_insertionSort _ _
      have hne' := (hperm.pairwise_iff fun h => Ne.symm h).mpr hne
      exact (hle.and hne').imp fun h => lt_of_le_of_ne h.1 h.2
    · rw [hlook]
      simp only
      rw [harticles]
      refine List.Perm.trans (List.Perm.of_eq ?_) (hperm.map _).symm
      rw [List.map_map]
      rfl

/-! ## Reading -/

/-- What a process that reads does: open a search, which ends the last one, or ask. -/
inductive Read where
  | opensearch (groupname : List UInt8) (low high : ℤ)
  | search (ask : Ask)

/-- A step of reading. -/
def Reads (c : Compression Stream) (path : Path) (db : Db) (s : Searching Stream) (read : Read)
    (s' : Searching Stream) : Prop :=
  s' = match read with
    | .opensearch groupname low high =>
      ⟨s.stream, ovsqliteOpensearch (packedName groupname) low high⟩
    | .search ask => (ovsqliteSearch c path db s ask).2

/-- A process that has not read anything. -/
def newReader (c : Compression Stream) : Searching Stream :=
  ⟨c.zlib.fresh, ovsqliteOpensearch [] 0 0⟩

/-- Reading leaves the stream of the direct reader fresh for the next row. -/
theorem Stored.fresh {adds : List Add} {reads : List Read} (h : Stored c db₀ adds db)
    (hids : (db₀.groupinfo.map (·.groupid)).Nodup) (hz : c.zlib.Undoes)
    (hreads : Steps (Reads c path db) (newReader c) reads s) : s.stream = c.zlib.fresh := by
  suffices hinv : s.stream = c.zlib.fresh ∧
      ∃ groupname, s.handle.groupname = packedName groupname from hinv.1
  refine @Steps.invariant _ _ _ (fun s : Searching Stream => s.stream = c.zlib.fresh ∧
    ∃ groupname, s.handle.groupname = packedName groupname) _ _ _ ?_ hreads ⟨rfl, [], rfl⟩
  rintro s read s' rfl ⟨hstream, groupname, hname⟩
  cases read with
  | opensearch groupname low high => exact ⟨hstream, groupname, rfl⟩
  | search ask =>
    obtain ⟨hstream', hname', -⟩ := @ovsqliteSearch_keeps _ c db _ _ ask path s
      (h.holds hids groupname) (h.valid groupname) hz hstream hname
    exact ⟨hstream', groupname, hname'⟩

/-! ## All of it -/

/-- A call that asks for everything. -/
def everything : Ask := ⟨true, true, true, true, true⟩

/-- After any adds whose overviews can be read back, and after any reading, a search on
either path returns what was added; lengths are read back; and neither function that
would end the server for want of room or input does so. -/
theorem stored_unchanged {adds : List Add} (hz : c.zlib.Undoes)
    (hids : (db₀.groupinfo.map (·.groupid)).Nodup) (hempty : db₀.artinfo = [])
    (h : Steps (guarded (Storable c) (Adds c)) db₀ adds db) :
    (∀ path reads s, Steps (Reads c path db) (newReader c) reads s → ∀ groupname low high n,
      -2 ^ 31 ≤ low ∧ low < 2 ^ 31 → -2 ^ 31 ≤ high ∧ high < 2 ^ 31 →
      (searched c path db everything
        ⟨s.stream, ovsqliteOpensearch (packedName groupname) low high⟩ n).2 =
      returns (inRange low high (addedTo groupname adds)) (List.replicate n everything)) ∧
    (∀ (length : UInt32) (input : List UInt8),
      unpackLength (packLength length.toNat ++ input) = (length.toNat, input)) ∧
    (∀ add ∈ adds, 5 < add.art.data.length →
      (packLength add.art.data.length).length ≤ add.art.data.length) ∧
    (∀ a ∈ db.artinfo, a.overview ≠ []) := by
  have hstored : Stored c db₀ adds db := by
    refine @Steps.invariant_hist _ _ _ (fun adds db => Stored c db₀ adds db) _ _ _ ?_ h
      (stored_nil hempty)
    rintro adds db add db' ⟨hstorable, hadd⟩ hstored
    exact hstored.snoc hadd hstorable
  refine ⟨?_, ?_, ?_, ?_⟩
  · intro path reads s hreads groupname low high n hlow hhigh
    rw [hstored.fresh hids hz hreads]
    exact searched_eq hz (hstored.holds hids groupname) (hstored.valid groupname) rfl hlow hhigh n
  · intro length input
    exact unpackLength_packLength length.toNat_lt input
  · intro add hadd hfive
    exact length_packLength_le hfive (hstored.kept add hadd).2.1
  · intro a ha
    rw [hstored.rows] at ha
    obtain ⟨add, hadd, rfl⟩ := List.mem_map.mp ha
    exact fun hnil => (hstored.kept add hadd).length_store hz (.inl hnil)

instance {groupname data : List UInt8} {artnum : ℕ} : Decidable (Kept c groupname artnum data) :=
  inferInstanceAs (Decidable (_ ∧ _ ∧ (_ → _ ∧ (_ → _))))

instance {add : Add} : Decidable (Storable c db add) := inferInstanceAs (Decidable (_ ∧ _))

/-- Adds in a row without faults, as long as they meet the condition and succeed. -/
def added (c : Compression Stream) (db : Db) (adds : List Add) : Option Db :=
  adds.foldlM (fun db add =>
    let r := ovsqliteAdd c Faults.none Settings.new db add
    if Storable c db add ∧ r.1 = true then some r.2 else none) db

theorem steps_of_added {adds : List Add} (h : added c db₀ adds = some db) :
    Steps (guarded (Storable c) (Adds c)) db₀ adds db := by
  refine (Steps.of_foldlM h).mono fun db add db' hstep => ?_
  simp only at hstep
  split at hstep
  · next hok =>
    refine ⟨hok.1, Faults.none, Settings.new, ?_⟩
    rw [← hok.2, ← Option.some.inj hstep]
  · cases hstep

/-- Compression of data that it does not make smaller. -/
def incompressible : Compression Unit := { uncompressed with useCompression := true }

theorem undoes_incompressible : incompressible.zlib.Undoes := undoes_uncompressed

/-- An add to group "g". -/
def addOf (artnum : Fin 10) (data : List UInt8) : Add where
  groupname := [103]
  art := storedArticle artnum data
  artnum := by
    change -2 ^ 63 ≤ (artnum : ℤ) ∧ (artnum : ℤ) < 2 ^ 63
    omega
  arrived := by
    change -2 ^ 63 ≤ (1000 : ℤ) ∧ (1000 : ℤ) < 2 ^ 63
    omega
  expires := by
    change -2 ^ 63 ≤ (0 : ℤ) ∧ (0 : ℤ) < 2 ^ 63
    omega
  token := List.length_replicate

/-- Two articles of six bytes, the later one with the smaller number. -/
def sixBytes : List Add := [addOf 5 [65, 66, 67, 68, 69, 70], addOf 3 [71, 72, 73, 74, 75, 76]]

theorem stored_unchanged_six : ∃ db, added incompressible (storedDb incompressible [103] []) sixBytes =
    some db ∧ (searched incompressible .direct db everything
      ⟨(), ovsqliteOpensearch [103] 1 9⟩ 3).2 =
    [some ⟨some 3, some [71, 72, 73, 74, 75, 76], some 6, some (List.replicate tokenSize 0), some 1000⟩,
      some ⟨some 5, some [65, 66, 67, 68, 69, 70], some 6, some (List.replicate tokenSize 0), some 1000⟩,
      none] := by
  have hrun : (added incompressible (storedDb incompressible [103] []) sixBytes).isSome := by decide
  obtain ⟨db, hdb⟩ := Option.isSome_iff_exists.mp hrun
  have hall := (stored_unchanged undoes_incompressible (by decide) rfl (steps_of_added hdb)).1
  exact ⟨db, hdb, (hall .direct [] _ .nil [103] 1 9 3 (by decide) (by decide)).trans
    (by decide)⟩

/-- What a search returns after one add. -/
def searchedAfter (c : Compression Unit) (path : Path) (add : Add) : Bool × List (Option Found) :=
  let r := ovsqliteAdd c Faults.none Settings.new (storedDb c [103] []) add
  (r.1, (searched c path r.2 everything ⟨(), ovsqliteOpensearch [103] 1 9⟩ 1).2)

/-- An overview of no bytes without compression, and one of one byte with it, are added but
not returned. -/
theorem short_overview_lost :
    searchedAfter uncompressed .server (addOf 5 []) = (true, [none]) ∧
    searchedAfter uncompressed .direct (addOf 5 []) = (true, [none]) ∧
    searchedAfter incompressible .server (addOf 5 [65]) = (true, [none]) ∧
    searchedAfter incompressible .direct (addOf 5 [65]) = (true, [none]) := by
  decide +kernel

end Inn.Ovsqlite
