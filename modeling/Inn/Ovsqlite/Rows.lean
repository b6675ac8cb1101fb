import Inn.Batches
import Inn.Ovsqlite.Search

/-!
# Inn.Ovsqlite.Rows — batches of stored articles

`Holds` says what is stored for a group: some articles, in order of their numbers. For
rows whose overview can be read back (`Article.Valid`), both ways of filling the buffer
of a handle give the batch of the first articles that fit (`batchOf`):

* `packRows_eq`, `unpackRows_eq` — through the server;
* `collectRows_eq` — by the direct reader;
* `found_batchOf` — what a call finds in a batch.
-/

namespace Inn.Ovsqlite

variable {Stream : Type*} {c : Compression Stream}

/-- An article as it is added to a group and found again. -/
structure Article where
  artnum : ℤ
  arrived : ℤ
  expires : ℤ
  token : List UInt8
  data : List UInt8
deriving DecidableEq, Repr

namespace Article

/-- The row that stores an article. -/
def row (c : Compression Stream) (groupname : List UInt8) (groupid : ℕ) (art : Article) : Artinfo :=
  ⟨groupid, art.artnum, art.arrived, art.expires, art.token,
    storeOverview c groupname (uint64 art.artnum) art.data⟩

/-- An article whose row can be read back. -/
structure Valid (c : Compression Stream) (groupname : List UInt8) (art : Article) : Prop where
  artnum : -2 ^ 63 ≤ art.artnum ∧ art.artnum < 2 ^ 63
  arrived : -2 ^ 63 ≤ art.arrived ∧ art.arrived < 2 ^ 63
  token : art.token.length = tokenSize
  kept : Kept c groupname (uint64 art.artnum) art.data

/-- What a call returns for an article. -/
def answer (art : Article) (ask : Ask) : Found where
  artnum := if ask.artnum then some (uint64 art.artnum) else none
  data := if ask.data then some art.data else none
  len := if ask.len then some art.data.length else none
  token := if ask.token then some art.token else none
  arrived := if ask.arrived then some art.arrived else none

end Article

/-! ## What is stored -/

/-- The articles of a group, in the order of their numbers. -/
structure Holds (c : Compression Stream) (db : Db) (groupname : List UInt8) (arts : List Article) :
    Prop where
  sorted : arts.Pairwise fun art art' => art.artnum < art'.artnum
  rows : match db.lookupGroupinfo groupname with
    | none => arts = []
    | some g => (db.articles g.groupid).Perm (arts.map (Article.row c groupname g.groupid))

/-- The articles with numbers in a range. -/
def inRange (low high : ℤ) (arts : List Article) : List Article :=
  arts.filter fun art => low ≤ art.artnum && art.artnum ≤ high

theorem mem_inRange {low high : ℤ} {arts : List Article} {art : Article} :
    art ∈ inRange low high arts ↔ art ∈ arts ∧ low ≤ art.artnum ∧ art.artnum ≤ high := by
  rw [inRange, List.mem_filter, Bool.and_eq_true, decide_eq_true_iff, decide_eq_true_iff]

theorem pairwise_byArtnum (rows : List Artinfo) :
    (Db.byArtnum rows).Pairwise fun a a' => a.artnum ≤ a'.artnum := by
  have : Std.Total fun a a' : Artinfo => a.artnum ≤ a'.artnum :=
    ⟨fun a a' => le_total a.artnum a'.artnum⟩
  have : IsTrans Artinfo fun a a' => a.artnum ≤ a'.artnum :=
    ⟨fun _ _ _ => le_trans⟩
  exact List.pairwise_insertionSort _ rows

/-- Rows with different numbers, in order, are what sorting gives. -/
theorem byArtnum_eq_of_perm {rows rows' : List Artinfo} (hperm : rows.Perm rows')
    (hsorted : rows'.Pairwise fun a a' => a.artnum < a'.artnum) : Db.byArtnum rows = rows' := by
  have hperm' : (Db.byArtnum rows).Perm rows' := (List.perm_insertionSort _ rows).trans hperm
  refine hperm'.eq_of_pairwise ?_ (pairwise_byArtnum rows) (hsorted.imp fun h => le_of_lt h)
  intro a b ha hb hab hba
  have hnodup : (rows'.map (·.artnum)).Nodup :=
    (List.pairwise_map.mpr hsorted).imp fun h => h.ne
  exact List.inj_on_of_nodup_map hnodup (hperm'.mem_iff.mp ha) hb (le_antisymm hab hba)

/-- The statements give the articles of a range in order. -/
theorem Holds.listArticles {db : Db} {groupname : List UInt8} {arts : List Article}
    (h : Holds c db groupname arts) : ∃ groupid, ∀ low high,
      db.listArticles groupname low (some high) =
        (inRange low high arts).map (Article.row c groupname groupid) := by
  have hrows := h.rows
  unfold Db.listArticles
  cases hlook : db.lookupGroupinfo groupname with
  | none =>
    rw [hlook] at hrows
    refine ⟨0, fun low high => ?_⟩
    rw [hrows]
    rfl
  | some g =>
    rw [hlook] at hrows
    refine ⟨g.groupid, fun low high => ?_⟩
    have hperm := hrows.filter fun a => low ≤ a.artnum && a.artnum ≤ high
    rw [List.filter_map] at hperm
    refine byArtnum_eq_of_perm hperm ?_
    rw [List.pairwise_map]
    exact h.sorted.filter _

/-! ## Packing rows -/

theorem packUpTo_bind (space : ℕ) (rows bytes bytes' : List UInt8) :
    (packUpTo space rows bytes >>= fun rows => packUpTo space rows bytes') =
      packUpTo space rows (bytes ++ bytes') := by
  have hlen := @List.length_append _ (rows ++ bytes) bytes'
  by_cases h : space < artlistHeader + (rows ++ bytes).length
  · have h' : space < artlistHeader + (rows ++ (bytes ++ bytes')).length := by
      rw [← List.append_assoc, hlen]
      omega
    unfold packUpTo
    rw [if_pos h, if_pos h']
    rfl
  · unfold packUpTo
    rw [if_neg h]
    change (if space < artlistHeader + (rows ++ bytes ++ bytes').length then _ else _) = _
    rw [List.append_assoc]

theorem packCol_bind (space : ℕ) (wanted : Bool) (rows bytes bytes' : List UInt8) :
    (packUpTo space rows bytes >>= fun rows => packCol space wanted rows bytes') =
      packUpTo space rows (bytes ++ if wanted then bytes' else []) := by
  cases wanted with
  | true => exact packUpTo_bind space rows bytes bytes'
  | false =>
    rw [if_neg Bool.false_ne_true, List.append_nil]
    cases packUpTo space rows bytes with
    | error e => rfl
    | ok rows => rfl

/-- The bytes of an article in a reply. -/
def Article.wire (cols : Cols) (art : Article) : List UInt8 :=
  toBytes 8 (uint64 art.artnum) ++ (if cols.arrived then toBytes 8 (uint64 art.arrived) else []) ++
    (if cols.expires then toBytes 8 (uint64 art.expires) else []) ++
    (if cols.token then art.token else []) ++
    (if cols.overview then toBytes 4 art.data.length ++ art.data else [])

/-- The bytes of space it takes up there. -/
def Article.wireLength (cols : Cols) (art : Article) : ℕ := (art.wire cols).length

theorem packRow_row {space : ℕ} {cols : Cols} {groupname rows : List UInt8} {groupid : ℕ}
    {art : Article} (h : art.Valid c groupname) (hz : c.zlib.Undoes) :
    packRow c space cols groupname (art.row c groupname groupid) rows =
      packUpTo space rows (art.wire cols) := by
  have hload : loadOverview c groupname (uint64 art.artnum)
      (art.row c groupname groupid).overview = some art.data :=
    loadOverview_storeOverview h.kept hz
  have htoken : ∀ rows, packToken space cols.token rows (art.row c groupname groupid).token =
      packCol space cols.token rows art.token := by
    intro rows
    refine if_neg ?_
    rw [show (art.row c groupname groupid).token.length = tokenSize from h.token]
    simp
  have hoverview : ∀ rows, packOverview space cols.overview rows (some art.data) =
      packCol space cols.overview rows (toBytes 4 art.data.length ++ art.data) := by
    intro rows
    unfold packOverview packCol
    simp only [packUpTo_bind]
  unfold packRow
  simp only [htoken, ← bind_assoc, packCol_bind]
  change (_ >>= fun rows => packOverview space cols.overview rows (loadOverview c groupname
    (uint64 art.artnum) (art.row c groupname groupid).overview)) = _
  simp only [hload, hoverview, packCol_bind]
  rfl

/-- The server packs the rows that fit the space, and says whether these are all. -/
theorem packRows_eq {space : ℕ} {cols : Cols} {groupname : List UInt8} {groupid : ℕ}
    {arts : List Article} (hvalid : ∀ art ∈ arts, art.Valid c groupname) (hz : c.zlib.Undoes)
    {count : ℕ} {rows : List UInt8} (hrows : artlistHeader + rows.length ≤ space) :
    ∃ batch, batch = fitting (Article.wireLength cols)
        (space - artlistHeader - rows.length) arts ∧
      packRows c space cols groupname (arts.map (Article.row c groupname groupid)) count rows =
        .artlist (decide (batch.length = arts.length)) cols (count + batch.length)
          (rows ++ batch.flatMap (Article.wire cols)) := by
  refine ⟨_, rfl, ?_⟩
  induction arts generalizing count rows with
  | nil =>
    rw [fitting_nil, List.flatMap_nil, List.append_nil]
    rfl
  | cons art arts ih =>
    have hrow : packRow c space cols groupname (art.row c groupname groupid) rows =
        packUpTo space rows (art.wire cols) := packRow_row (hvalid art List.mem_cons_self) hz
    have hlen := @List.length_append _ rows (art.wire cols)
    rw [List.map_cons]
    unfold packRows
    rw [hrow]
    have hwire : art.wireLength cols = (art.wire cols).length := rfl
    by_cases h : art.wireLength cols ≤ space - artlistHeader - rows.length
    · have hpack : packUpTo space rows (art.wire cols) = .ok (rows ++ art.wire cols) :=
        if_neg (by omega)
      have hroom : space - artlistHeader - rows.length - art.wireLength cols =
          space - artlistHeader - (rows ++ art.wire cols).length := by omega
      rw [hpack, fitting_cons_of_le h, hroom]
      simp only
      rw [ih (fun art hart => hvalid art (List.mem_cons_of_mem _ hart)) (by omega),
        List.length_cons, List.length_cons, List.flatMap_cons, List.append_assoc, Nat.add_assoc,
        Nat.add_comm 1, decide_eq_decide.mpr Nat.succ_inj.symm]
    · have hpack : packUpTo space rows (art.wire cols) = .error .flush := if_pos (by omega)
      rw [hpack, fitting_cons_of_lt (Nat.not_le.mp h), List.flatMap_nil, List.append_nil]
      rfl

/-! ## Reading what was packed -/

/-- The bytes of a buffer that are not read yet. -/
def Buffer.bytes (b : Buffer) : List UInt8 := b.data.drop b.used

section Unpack

variable {b : Buffer} {xs ys : List UInt8}

theorem Buffer.unpackNow_append {n : ℕ} (h : b.bytes = xs ++ ys) (hn : xs.length = n) :
    ∃ b' : Buffer, b.unpackNow n = some (xs, b') ∧ b'.bytes = ys := by
  have hleft : b.left = (xs ++ ys).length := by
    rw [← h]
    exact List.length_drop.symm
  refine ⟨{ b with used := b.used + n }, ?_, ?_⟩
  · unfold Buffer.unpackNow Buffer.unpackLater
    rw [hleft, List.length_append, if_neg (by omega)]
    rw [show b.data.drop b.used = xs ++ ys from h, List.take_left' hn]
  · change b.data.drop (b.used + n) = ys
    rw [← List.drop_drop, show b.data.drop b.used = xs ++ ys from h, List.drop_left' hn]

theorem Buffer.unpackWord_toBytes {width n : ℕ} (h : b.bytes = toBytes width n ++ ys)
    (hn : n < 256 ^ width) : ∃ b' : Buffer, b.unpackWord width = some (n, b') ∧ b'.bytes = ys := by
  obtain ⟨b', hnow, hbytes⟩ := Buffer.unpackNow_append h (length_toBytes width n)
  refine ⟨b', ?_, hbytes⟩
  unfold Buffer.unpackWord
  rw [hnow, Option.map_some, ofBytes_toBytes hn]

theorem unpackArrived_append {n : ℕ} {wanted : Bool}
    (h : b.bytes = (if wanted then toBytes 8 n else []) ++ ys) (hn : n < 2 ^ 64) :
    ∃ b' : Buffer, unpackArrived wanted b = some (if wanted then n else 0, b') ∧ b'.bytes = ys := by
  cases wanted with
  | true => exact Buffer.unpackWord_toBytes h hn
  | false => exact ⟨b, rfl, h⟩

theorem unpackToken_append {wanted : Bool} (h : b.bytes = (if wanted then xs else []) ++ ys)
    (hn : xs.length = tokenSize) : ∃ b' : Buffer, unpackToken wanted b =
      some (if wanted then xs else [], b') ∧ b'.bytes = ys := by
  cases wanted with
  | true => exact Buffer.unpackNow_append h hn
  | false => exact ⟨b, rfl, h⟩

theorem unpackOverview_append {wanted : Bool} {store : ℕ}
    (h : b.bytes = (if wanted then toBytes 4 xs.length ++ xs else []) ++ ys)
    (hn : xs.length < 2 ^ 32) (hfit : store + (if wanted then xs.length else 0) ≤ SEARCHSPACE) :
    ∃ b' : Buffer, unpackOverview wanted store b = some (if wanted then xs else [], b') ∧
      b'.bytes = ys := by
  cases wanted with
  | true =>
    simp only [if_true, List.append_assoc] at h hfit
    obtain ⟨b₁, hword, hbytes⟩ := Buffer.unpackWord_toBytes h hn
    obtain ⟨b₂, hnow, hbytes₂⟩ := Buffer.unpackNow_append hbytes rfl
    refine ⟨b₂, ?_, hbytes₂⟩
    unfold unpackOverview
    simp only [if_true, hword, Option.bind_some]
    rw [if_neg (by omega), hnow]
  | false => exact ⟨b, rfl, h⟩

end Unpack

/-! ## Batches -/

/-- An article in a batch. -/
def Batch.add (cols : Cols) (b : Batch) (art : Article) : Batch :=
  b.push cols (uint64 art.artnum) art.arrived art.token art.data

/-- The batch of some articles. -/
def batchOf (cols : Cols) (arts : List Article) : Batch := arts.foldl (Batch.add cols) Batch.empty

/-- Columns that are not asked for do not matter. -/
theorem Batch.push_congr {b : Batch} {cols : Cols} {artnum : ℕ} {arrived arrived' : ℤ}
    {token token' overview overview' : List UInt8}
    (harrived : cols.arrived = true → arrived = arrived') (htoken : cols.token = true → token = token')
    (hoverview : cols.overview = true → overview = overview') :
    b.push cols artnum arrived token overview = b.push cols artnum arrived' token' overview' := by
  have h1 : (if cols.arrived then b.arrived ++ [arrived] else b.arrived) =
      if cols.arrived then b.arrived ++ [arrived'] else b.arrived := by
    split
    · next h => rw [harrived h]
    · rfl
  have h2 : (if cols.token then b.token ++ [token] else b.token) =
      if cols.token then b.token ++ [token'] else b.token := by
    split
    · next h => rw [htoken h]
    · rfl
  have h3 : (if cols.overview then b.text ++ overview else b.text) =
      if cols.overview then b.text ++ overview' else b.text := by
    split
    · next h => rw [hoverview h]
    · rfl
  unfold Batch.push
  rw [h1, h2, h3]

/-- The bytes of overview that an article takes up, if it is asked for. -/
def Article.textLength (cols : Cols) (art : Article) : ℕ :=
  if cols.overview then art.data.length else 0

theorem Batch.length_text_add (cols : Cols) (b : Batch) (art : Article) :
    (b.add cols art).text.length = b.text.length + art.textLength cols := by
  unfold Batch.add Batch.push Article.textLength
  simp only
  split
  · exact List.length_append
  · rfl

/-- The client gets the rows out of the reply that the server has packed into it. -/
theorem unpackRows_eq {cols : Cols} (hcols : cols.expires = false) {base : ℕ} {groupname : List UInt8}
    {arts : List Article} (hvalid : ∀ art ∈ arts, art.Valid c groupname) {response : Buffer}
    {more : List UInt8} (hbytes : response.bytes = arts.flatMap (Article.wire cols) ++ more)
    {b : Batch} (hfit : base + b.text.length + (arts.map (Article.textLength cols)).sum ≤
      SEARCHSPACE) :
    ∃ response', unpackRows cols base arts.length response b =
      some (response', arts.foldl (Batch.add cols) b) ∧ response'.bytes = more := by
  induction arts generalizing response b with
  | nil => exact ⟨response, rfl, hbytes⟩
  | cons art arts ih =>
    have hart := hvalid art List.mem_cons_self
    rw [List.map_cons, List.sum_cons] at hfit
    rw [List.flatMap_cons, Article.wire, hcols] at hbytes
    simp only [Bool.false_eq_true, if_false, List.append_nil, List.append_assoc] at hbytes
    obtain ⟨r₁, h1, hb1⟩ := Buffer.unpackWord_toBytes hbytes (uint64_lt art.artnum)
    have hlen := hart.kept.2.1.trans_lt (by decide : MAX_OVDATA_SIZE < 2 ^ 32)
    unfold Article.textLength at hfit
    obtain ⟨r₂, h2, hb2⟩ := unpackArrived_append hb1 (uint64_lt art.arrived)
    obtain ⟨r₃, h3, hb3⟩ := unpackToken_append hb2 hart.token
    obtain ⟨r₄, h4, hb4⟩ := unpackOverview_append hb3 hlen
      (show base + b.text.length + _ ≤ SEARCHSPACE by omega)
    have hadd := Batch.length_text_add cols b art
    obtain ⟨response', hrest, hmore⟩ := ih (fun art hart => hvalid art (List.mem_cons_of_mem _ hart))
      hb4 (b := b.add cols art) (by unfold Article.textLength at hadd ⊢; omega)
    refine ⟨response', ?_, hmore⟩
    rw [List.length_cons]
    unfold unpackRows
    simp only [h1, Option.bind_some, Option.bind_eq_bind, h2, h3, h4]
    rw [List.foldl_cons, ← hrest]
    congr 1
    refine Batch.push_congr ?_ ?_ ?_
    · intro h
      rw [if_pos h, int64_uint64 hart.arrived.1 hart.arrived.2]
    · intro h
      rw [if_pos h]
    · intro h
      rw [if_pos h]

/-- The bytes of the buffer that an article takes up. -/
def Article.storeLength (cols : Cols) (art : Article) : ℕ := cols.storesize + art.textLength cols

/-- The bytes of the buffer that a batch takes up, but for its last pointer. -/
def Batch.used (cols : Cols) (b : Batch) : ℕ := b.artnum.length * cols.storesize + b.text.length

theorem length_artnum_add (cols : Cols) (b : Batch) (art : Article) :
    (b.add cols art).artnum.length = b.artnum.length + 1 := List.length_append

theorem used_add (cols : Cols) (b : Batch) (art : Article) :
    (b.add cols art).used cols = b.used cols + art.storeLength cols := by
  unfold Batch.used Article.storeLength
  rw [length_artnum_add, Batch.length_text_add, Nat.succ_mul]
  omega

/-- A batch without overviews has no text. -/
theorem text_add {cols : Cols} {b : Batch} (h : cols.overview = false → b.text = [])
    (art : Article) : cols.overview = false → (b.add cols art).text = [] := by
  intro hov
  unfold Batch.add Batch.push
  simp only [hov, Bool.false_eq_true, if_false]
  exact h hov

theorem rowFits_iff {cols : Cols} {b : Batch} (htext : cols.overview = false → b.text = [])
    (hroom : b.used cols ≤ cols.storespace) (art : Article) :
    rowFits cols b (art.textLength cols) = true ↔
      art.storeLength cols ≤ cols.storespace - b.used cols := by
  have hspace : SEARCHSPACE = 0x20000 := rfl
  have hmul : (b.artnum.length + 1) * cols.storesize =
      b.artnum.length * cols.storesize + cols.storesize := Nat.succ_mul _ _
  unfold rowFits Article.storeLength Article.textLength
  unfold Batch.used Cols.storespace at *
  cases hov : cols.overview with
  | true =>
    simp only [hov, if_true, decide_eq_true_eq] at hroom ⊢
    omega
  | false =>
    simp only [hov, Bool.false_eq_true, if_false, decide_eq_true_eq, htext hov,
      List.length_nil] at hroom ⊢
    omega

/-- One row of the direct reader's loop. -/
theorem collectRows_cons {cols : Cols} {groupname : List UInt8} {groupid : ℕ} {art : Article}
    (hart : art.Valid c groupname) (hz : c.zlib.Undoes) {b : Batch}
    (htext : cols.overview = false → b.text = []) (hroom : b.used cols ≤ cols.storespace)
    (hmax : b.artnum.length < cols.maxRows) (rows : List Artinfo) :
    collectRows c cols groupname (art.row c groupname groupid :: rows) b c.zlib.fresh =
      if art.storeLength cols ≤ cols.storespace - b.used cols then
        collectRows c cols groupname rows (b.add cols art) c.zlib.fresh
      else (b, false, c.zlib.fresh) := by
  have hread : readerOverview c groupname (uint64 (art.row c groupname groupid).artnum)
      c.zlib.fresh (art.row c groupname groupid).overview = (some art.data, c.zlib.fresh) :=
    readerOverview_storeOverview hart.kept hz
  have htoken : (art.row c groupname groupid).token.length = tokenSize := hart.token
  have hfits := rowFits_iff htext hroom art
  rw [← if_congr hfits rfl rfl]
  conv_lhs => unfold collectRows
  rw [if_neg (Nat.not_le.mpr hmax)]
  simp only [hread, htoken, if_true]
  unfold Article.textLength
  cases hov : cols.overview with
  | true => rfl
  | false =>
    simp only [Bool.false_eq_true, if_false]
    have hpush : b.push cols (uint64 (art.row c groupname groupid).artnum)
        (art.row c groupname groupid).arrived (art.row c groupname groupid).token [] =
          b.add cols art :=
      Batch.push_congr (fun _ => rfl) (fun _ => rfl) fun h => absurd (hov.symm.trans h) (by decide)
    rw [hpush]

/-- The direct reader takes the rows that fit the buffer, but no more than `maxRows`; it
says whether these are all, and leaves its stream as it was. -/
theorem collectRows_eq {cols : Cols} {groupname : List UInt8} {groupid : ℕ} {arts : List Article}
    (hvalid : ∀ art ∈ arts, art.Valid c groupname) (hz : c.zlib.Undoes) {b : Batch}
    (htext : cols.overview = false → b.text = []) (hroom : b.used cols ≤ cols.storespace) :
    ∃ batch, batch = fitting (Article.storeLength cols) (cols.storespace - b.used cols)
        (arts.take (cols.maxRows - b.artnum.length)) ∧
      collectRows c cols groupname (arts.map (Article.row c groupname groupid)) b c.zlib.fresh =
        (batch.foldl (Batch.add cols) b,
          decide (batch.length = arts.length ∧ b.artnum.length + arts.length < cols.maxRows),
          c.zlib.fresh) := by
  refine ⟨_, rfl, ?_⟩
  induction arts generalizing b with
  | nil =>
    rw [List.take_nil, fitting_nil, List.map_nil]
    unfold collectRows
    split
    · next hmax =>
      rw [decide_eq_false fun h => Nat.not_lt.mpr hmax h.2]
      rfl
    · next hmax =>
      rw [decide_eq_true ⟨rfl, Nat.not_le.mp hmax⟩]
      rfl
  | cons art arts ih =>
    by_cases hmax : b.artnum.length < cols.maxRows
    · have htake : cols.maxRows - b.artnum.length = cols.maxRows - (b.artnum.length + 1) + 1 := by
        omega
      rw [List.map_cons, collectRows_cons (hvalid art List.mem_cons_self) hz htext hroom hmax,
        htake, List.take_succ_cons]
      split
      · next hle =>
        have hused := used_add cols b art
        have hroom' : cols.storespace - b.used cols - art.storeLength cols =
            cols.storespace - (b.add cols art).used cols := by omega
        rw [ih (fun art hart => hvalid art (List.mem_cons_of_mem _ hart)) (text_add htext art)
          (by omega), length_artnum_add, fitting_cons_of_le hle, hroom', List.foldl_cons,
          List.length_cons, List.length_cons]
        congr 2
        rw [decide_eq_decide]
        omega
      · next hle =>
        rw [fitting_cons_of_lt (Nat.not_le.mp hle),
          decide_eq_false fun h => Nat.succ_ne_zero _ h.1.symm]
        rfl
    · have hzero := Nat.sub_eq_zero_of_le (Nat.not_lt.mp hmax)
      rw [hzero, List.take_zero, fitting_nil, decide_eq_false fun h => Nat.succ_ne_zero _ h.1.symm]
      unfold collectRows
      rw [if_pos (Nat.not_lt.mp hmax)]
      rfl

/-! ## What a call finds in a batch -/

theorem batchOf_append (cols : Cols) (arts : List Article) (art : Article) :
    batchOf cols (arts ++ [art]) = (batchOf cols arts).add cols art := by
  unfold batchOf
  rw [List.foldl_append]
  rfl

/-- Where the overview of an article begins in the text of a batch. -/
def offset (arts : List Article) (i : ℕ) : ℕ := ((arts.take i).flatMap Article.data).length

/-- The arrays of a batch. -/
theorem batchOf_arrays (cols : Cols) (arts : List Article) :
    (batchOf cols arts).artnum = arts.map (fun art => uint64 art.artnum) ∧
    (cols.arrived = true → (batchOf cols arts).arrived = arts.map Article.arrived) ∧
    (cols.token = true → (batchOf cols arts).token = arts.map Article.token) ∧
    (cols.overview = true → (batchOf cols arts).text = arts.flatMap Article.data ∧
      (batchOf cols arts).overview = (List.range arts.length).map (offset arts)) := by
  induction arts using List.reverseRecOn with
  | nil => exact ⟨rfl, fun _ => rfl, fun _ => rfl, fun _ => ⟨rfl, rfl⟩⟩
  | append_singleton arts art ih =>
    obtain ⟨hartnum, harrived, htoken, hoverview⟩ := ih
    rw [batchOf_append]
    refine ⟨?_, ?_, ?_, ?_⟩
    · rw [List.map_append, ← hartnum]
      rfl
    · intro h
      rw [List.map_append, ← harrived h]
      exact if_pos h
    · intro h
      rw [List.map_append, ← htoken h]
      exact if_pos h
    · intro h
      obtain ⟨htext, hoffsets⟩ := hoverview h
      constructor
      · rw [List.flatMap_append, ← htext, List.flatMap_cons, List.flatMap_nil, List.append_nil]
        exact if_pos h
      · have hsame : (List.range arts.length).map (offset (arts ++ [art])) =
            (List.range arts.length).map (offset arts) := by
          apply List.map_congr_left
          intro i hi
          unfold offset
          rw [List.take_append_of_le_length (List.mem_range.mp hi).le]
        have hlast : offset (arts ++ [art]) arts.length = (batchOf cols arts).text.length := by
          unfold offset
          rw [List.take_left, htext]
        rw [List.length_append, List.length_singleton, List.range_succ, List.map_append, hsame,
          ← hoffsets, List.map_singleton, hlast]
        exact if_pos h

theorem overview_close {cols : Cols} (h : cols.overview = true) (arts : List Article) :
    ((batchOf cols arts).close cols).overview =
      (List.range (arts.length + 1)).map (offset arts) := by
  obtain ⟨htext, hoffsets⟩ := (batchOf_arrays cols arts).2.2.2 h
  have hlast : offset arts arts.length = (batchOf cols arts).text.length := by
    unfold offset
    rw [List.take_length, htext]
  rw [List.range_succ, List.map_append, ← hoffsets, List.map_singleton, hlast]
  exact if_pos h

theorem offset_succ {arts : List Article} {ix : ℕ} {art : Article} (h : arts[ix]? = some art) :
    offset arts (ix + 1) = offset arts ix + art.data.length := by
  unfold offset
  rw [List.take_add_one, h, List.flatMap_append, List.length_append]
  congr 1
  simp

/-- The text between two pointers is the overview of the article. -/
theorem text_between {arts : List Article} {ix : ℕ} {art : Article} (h : arts[ix]? = some art) :
    ((arts.flatMap Article.data).drop (offset arts ix)).take art.data.length = art.data := by
  obtain ⟨hlt, hget⟩ := List.getElem?_eq_some_iff.mp h
  have hsplit : arts.flatMap Article.data = (arts.take ix).flatMap Article.data ++
      (art.data ++ (arts.drop (ix + 1)).flatMap Article.data) := by
    rw [← List.flatMap_cons, ← List.flatMap_append, ← hget, ← List.drop_eq_getElem_cons hlt,
      List.take_append_drop]
  rw [hsplit, List.drop_left' (show ((arts.take ix).flatMap Article.data).length =
    offset arts ix from rfl), List.take_left' rfl]

theorem getD_map_of_getElem? {α β : Type*} {l : List α} {ix : ℕ} {a : α} (h : l[ix]? = some a)
    (f : α → β) (default : β) : (l.map f).getD ix default = f a := by
  rw [List.getD_eq_getElem?_getD, List.getElem?_map, h]
  rfl

/-- A call finds in a batch what it asks for of the article. -/
theorem found_batchOf {cols : Cols} {ask : Ask} {arts : List Article} {ix : ℕ} {art : Article}
    (hask : ask.cols.exceed cols = false) (h : arts[ix]? = some art) :
    ((batchOf cols arts).close cols).found ask ix = art.answer ask := by
  obtain ⟨hartnum, harrived, htoken, hoverview⟩ := batchOf_arrays cols arts
  unfold Cols.exceed Ask.cols at hask
  simp only [Bool.or_eq_false_iff, Bool.and_eq_false_iff, Bool.not_eq_false'] at hask
  obtain ⟨⟨⟨hask₁, -⟩, hask₂⟩, hask₃⟩ := hask
  have hlt := (List.getElem?_eq_some_iff.mp h).1
  have hfirst : ∀ i ≤ arts.length, cols.overview = true →
      ((batchOf cols arts).close cols).overview.getD i 0 = offset arts i := by
    intro i hi hov
    rw [overview_close hov, List.getD_eq_getElem?_getD, List.getElem?_map,
      List.getElem?_range (by omega)]
    rfl
  have hlen : cols.overview = true → ((batchOf cols arts).close cols).overview.getD (ix + 1) 0 -
      ((batchOf cols arts).close cols).overview.getD ix 0 = art.data.length := by
    intro hov
    rw [hfirst ix hlt.le hov, hfirst (ix + 1) hlt hov, offset_succ h, Nat.add_sub_cancel_left]
  unfold Batch.found Article.answer
  congr 1
  · cases ask.artnum with
    | false => rfl
    | true =>
      change some ((batchOf cols arts).artnum.getD ix 0) = some (uint64 art.artnum)
      rw [hartnum, getD_map_of_getElem? h]
  · cases hdata : ask.data with
    | false => rfl
    | true =>
      have hov : cols.overview = true := by simpa [hdata] using hask₃
      have htext : ((batchOf cols arts).close cols).text = arts.flatMap Article.data :=
        (hoverview hov).1
      simp only [if_true, hlen hov]
      rw [htext, hfirst ix hlt.le hov, text_between h]
  · cases hl : ask.len with
    | false => rfl
    | true =>
      have hov : cols.overview = true := by simpa [hl] using hask₃
      simp only [if_true, hlen hov]
  · cases htok : ask.token with
    | false => rfl
    | true =>
      have hcol : cols.token = true := by simpa [htok] using hask₂
      change some ((batchOf cols arts).token.getD ix []) = some art.token
      rw [htoken hcol, getD_map_of_getElem? h]
  · cases harr : ask.arrived with
    | false => rfl
    | true =>
      have hcol : cols.arrived = true := by simpa [harr] using hask₁
      change some ((batchOf cols arts).arrived.getD ix 0) = some art.arrived
      rw [harrived hcol, getD_map_of_getElem? h]

end Inn.Ovsqlite
