import Inn.Rules
import Inn.Ovsqlite.Rows

/-!
# Inn.Ovsqlite.Searches — whole searches

`search_complete`: the calls of a search return the articles of the range one by one, in
the order of their numbers and with their own values, and then nothing, on either path
and whichever columns each call asks for. `Smooth` is the condition on a call for that.
It excludes two things:

* after the flag `done` is set, a call that asks for a column the batch does not have
  gets a new batch, and the flag stays set although that batch may be shorter;
* a call that asks the server for overviews alone leaves so little room that a long one
  does not fit an empty batch.
-/

namespace Inn.Ovsqlite

variable {Stream : Type*} {c : Compression Stream} {db : Db} {groupname : List UInt8}
  {arts rest : List Article} {cols : Cols} {ask : Ask} {path : Path}

/-- The articles that a search has still to return. -/
def remaining (arts : List Article) (h : Handle) : List Article :=
  inRange (int64 h.low) (int64 h.high) arts

/-! ## Room -/

/-- Whether all of some articles fit one batch. -/
def FitsBatch (path : Path) (cols : Cols) (arts : List Article) : Prop :=
  match path with
  | .server => (arts.map (Article.wireLength cols)).sum + artlistHeader ≤ cols.space
  | .direct => arts.length ≤ cols.maxRows ∧
      (arts.map (Article.storeLength cols)).sum ≤ cols.storespace

theorem wireLength_eq (hcols : cols.expires = false) {art : Article}
    (hart : art.Valid c groupname) :
    art.wireLength cols = cols.wiresize + art.textLength cols := by
  have htoken := hart.token
  unfold Article.wireLength Article.wire Cols.wiresize Article.textLength
  rw [hcols]
  cases cols.arrived <;> cases cols.token <;> cases cols.overview <;>
    simp [htoken] <;> omega

theorem sum_wireLength (hcols : cols.expires = false) (hvalid : ∀ art ∈ arts, art.Valid c groupname) :
    (arts.map (Article.wireLength cols)).sum =
      arts.length * cols.wiresize + (arts.map (Article.textLength cols)).sum := by
  induction arts with
  | nil => simp
  | cons art arts ih =>
    rw [List.map_cons, List.sum_cons, List.map_cons, List.sum_cons, List.length_cons, Nat.succ_mul,
      ih fun art hart => hvalid art (List.mem_cons_of_mem _ hart),
      wireLength_eq hcols (hvalid art List.mem_cons_self)]
    omega

/-- Whatever the columns, a row in the buffer takes little more than one in the reply. -/
theorem Cols.sizes (cols : Cols) : 8 ≤ cols.wiresize ∧ cols.storesize ≤ cols.wiresize + 4 ∧
    cols.storespace + (if cols.overview then 8 else 0) = SEARCHSPACE ∧
    cols.space ≤ SEARCHSPACE + 10 := by
  obtain ⟨arrived, expires, token, overview⟩ := cols
  cases arrived <;> cases token <;> cases overview <;> cases expires <;> decide

/-- What the server packs into its space fits the buffer of the client. -/
theorem base_add_le {n text : ℕ} (h : n * cols.wiresize + text ≤
    cols.storespace / cols.storesize * cols.wiresize) (htext : cols.overview = false → text = 0) :
    cols.base n + text ≤ SEARCHSPACE := by
  obtain ⟨arrived, expires, token, overview⟩ := cols
  unfold Cols.base
  unfold Cols.storespace Cols.storesize Cols.wiresize tokenSize SEARCHSPACE at *
  cases arrived <;> cases token <;> cases overview <;> simp at h htext ⊢ <;> omega

/-- One article fits an empty batch of the server, except perhaps when the overview alone
is asked for. -/
theorem wire_fits {n : ℕ} (hn : n ≤ MAX_OVDATA_SIZE)
    (hlong : cols.overview = true → cols.arrived = false → cols.token = false → n ≤ 98280) :
    cols.wiresize + (if cols.overview then n else 0) ≤
      cols.storespace / cols.storesize * cols.wiresize := by
  obtain ⟨arrived, expires, token, overview⟩ := cols
  unfold Cols.storespace Cols.storesize Cols.wiresize tokenSize SEARCHSPACE MAX_OVDATA_SIZE at *
  cases arrived <;> cases token <;> cases overview <;> simp at hlong ⊢ <;> omega

/-- And always one of the direct reader. -/
theorem store_fits {n : ℕ} (hn : n ≤ MAX_OVDATA_SIZE) :
    cols.storesize + (if cols.overview then n else 0) ≤ cols.storespace ∧ 0 < cols.maxRows := by
  obtain ⟨arrived, expires, token, overview⟩ := cols
  unfold Cols.maxRows
  unfold Cols.storespace Cols.storesize tokenSize SEARCHSPACE MAX_OVDATA_SIZE at *
  cases arrived <;> cases token <;> cases overview <;> simp <;> omega

instance : Decidable (FitsBatch path cols arts) :=
  match path with
  | .server => inferInstanceAs (Decidable (_ ≤ _))
  | .direct => inferInstanceAs (Decidable (_ ∧ _))

/-! ## A new batch -/

/-- The batch that a handle gets. -/
def batchFrom (path : Path) (cols : Cols) (rest : List Article) : List Article :=
  match path with
  | .server => fitting (Article.wireLength cols) (cols.space - artlistHeader) rest
  | .direct => fitting (Article.storeLength cols) cols.storespace (rest.take cols.maxRows)

/-- Whether it is known to be the last one. -/
def lastFrom (path : Path) (cols : Cols) (rest : List Article) : Bool :=
  (batchFrom path cols rest).length = rest.length &&
    match path with
    | .server => true
    | .direct => rest.length < cols.maxRows

theorem batchFrom_prefix : batchFrom path cols rest <+: rest := by
  cases path with
  | server => exact fitting_prefix
  | direct => exact fitting_prefix.trans (List.take_prefix _ _)

theorem batchFrom_of_last (h : lastFrom path cols rest = true) : batchFrom path cols rest = rest := by
  unfold lastFrom at h
  rw [Bool.and_eq_true, decide_eq_true_iff] at h
  exact batchFrom_prefix.eq_of_length h.1

theorem batchFrom_of_fits (h : FitsBatch path cols rest) : batchFrom path cols rest = rest := by
  cases path with
  | server =>
    change _ + _ ≤ _ at h
    exact fitting_eq_self (by omega)
  | direct =>
    unfold batchFrom
    simp only
    rw [List.take_of_length_le h.1]
    exact fitting_eq_self h.2

/-- The overview of the next article is not too long to be asked for alone. -/
def NotLong (path : Path) (cols : Cols) (rest : List Article) : Prop :=
  path = .server → cols.overview = true → cols.arrived = false → cols.token = false →
    ∀ art ∈ rest.head?, art.data.length ≤ 98280

instance : Decidable (NotLong path cols rest) :=
  inferInstanceAs (Decidable (_ → _ → _ → _ → _))

/-- A batch is not empty while there are articles left. -/
theorem batchFrom_ne_nil (hcols : cols.expires = false) (hvalid : ∀ art ∈ rest, art.Valid c groupname)
    (hne : rest ≠ []) (hlong : NotLong path cols rest) : batchFrom path cols rest ≠ [] := by
  cases path with
  | server =>
    have hheader : artlistHeader = 10 := rfl
    have hspace : cols.space = cols.storespace / cols.storesize * cols.wiresize + 10 := rfl
    refine fitting_ne_nil hne fun art hart => ?_
    have hart' := hvalid art (List.mem_of_mem_head? hart)
    have hfit := wire_fits hart'.kept.2.1 fun hov harr htok => hlong rfl hov harr htok art hart
    rw [wireLength_eq hcols hart', Article.textLength]
    omega
  | direct =>
    cases rest with
    | nil => exact absurd rfl hne
    | cons art more =>
      obtain ⟨hfit, hmax⟩ := @store_fits cols _ (hvalid art List.mem_cons_self).kept.2.1
      refine fitting_ne_nil ?_ ?_
      · rw [ne_eq, List.take_eq_nil_iff]
        rintro (h0 | h0)
        · omega
        · cases h0
      · intro art' hart'
        rw [List.head?_take, if_neg hmax.ne'] at hart'
        cases hart'
        exact hfit

/-- A handle after a new batch for the articles `rest`. -/
structure Refilled (c : Compression Stream) (path : Path) (rest : List Article) (h : Handle)
    (s : Searching Stream) : Prop where
  stream : s.stream = c.zlib.fresh
  groupname : s.handle.groupname = h.groupname
  high : s.handle.high = h.high
  low : batchFrom path h.cols rest = [] → s.handle.low = h.low
  cols : s.handle.cols = h.cols
  index : s.handle.index = 0
  count : s.handle.count = (batchFrom path h.cols rest).length
  batch : s.handle.batch = (batchOf h.cols (batchFrom path h.cols rest)).close h.cols
  done : s.handle.done = (h.done || lastFrom path h.cols rest)

/-- A batch from the server. -/
theorem fillSearchBuffer_refilled (hholds : Holds c db groupname arts)
    (hvalid : ∀ art ∈ arts, art.Valid c groupname) (hz : c.zlib.Undoes) {s : Searching Stream}
    (hstream : s.stream = c.zlib.fresh) (hname : s.handle.groupname = groupname)
    (hcols : s.handle.cols.expires = false) :
    ∃ s', refill c .server db s = (true, s') ∧
      Refilled c .server (remaining arts s.handle) s.handle s' := by
  obtain ⟨stream, h⟩ := s
  obtain ⟨groupid, hlist⟩ := hholds.listArticles
  simp only at hstream hname hcols
  have hrest : ∀ art ∈ remaining arts h, art.Valid c groupname :=
    fun art hart => hvalid art (mem_inRange.mp hart).1
  obtain ⟨-, -, -, hspace⟩ := h.cols.sizes
  have hheader : artlistHeader = 10 := rfl
  have hspace' : h.cols.space = h.cols.storespace / h.cols.storesize * h.cols.wiresize + 10 := rfl
  have hempty : artlistHeader + ([] : List UInt8).length ≤ h.cols.space := by
    rw [hheader, hspace', List.length_nil]
    omega
  obtain ⟨B, hB, hpack⟩ := @packRows_eq _ c _ h.cols _ groupid _ hrest hz 0 _ hempty
  change B = batchFrom .server h.cols (remaining arts h) at hB
  have hfront : B <+: remaining arts h := hB ▸ batchFrom_prefix
  have hBvalid : ∀ art ∈ B, art.Valid c groupname := fun art hart => hrest art (hfront.subset hart)
  have hsum : B.length * h.cols.wiresize + (B.map (Article.textLength h.cols)).sum ≤
      h.cols.storespace / h.cols.storesize * h.cols.wiresize := by
    have hroom : h.cols.space - artlistHeader =
      h.cols.storespace / h.cols.storesize * h.cols.wiresize := Nat.add_sub_cancel _ _
    rw [← sum_wireLength hcols hBvalid, hB, ← hroom]
    exact sum_fitting_le
  have hnotext : h.cols.overview = false → (B.map (Article.textLength h.cols)).sum = 0 := by
    intro hov
    rw [List.sum_eq_zero]
    intro n hn
    obtain ⟨art, -, rfl⟩ := List.mem_map.mp hn
    rw [Article.textLength, hov]
    rfl
  have hbase := base_add_le hsum hnotext
  have hbytes : (⟨(B.flatMap (Article.wire h.cols)).length, B.flatMap (Article.wire h.cols), 0⟩ :
      Buffer).bytes = B.flatMap (Article.wire h.cols) ++ [] := (List.append_nil _).symm
  obtain ⟨response, hunpack, hmore⟩ := @unpackRows_eq _ c _ hcols (h.cols.base B.length) _ _
    hBvalid _ _ hbytes Batch.empty (by change h.cols.base B.length + 0 + _ ≤ _; omega)
  have hsearch : doSearchGroup c db ⟨h.cols.space, h.cols, h.groupname, h.low, some h.high⟩ =
      .artlist (decide (B.length = (remaining arts h).length)) h.cols B.length
        (B.flatMap (Article.wire h.cols)) := by
    have hsmall : h.cols.space < 0x100000 := hspace.trans_lt (by decide)
    rw [Nat.zero_add, List.nil_append] at hpack
    unfold doSearchGroup
    rw [if_neg (Nat.not_le.mpr hsmall)]
    simp only [hname, Option.map_some, hlist]
    exact hpack
  have hleft : response.left = 0 := by
    have : response.left = response.bytes.length := List.length_drop.symm
    rw [this, hmore]
    rfl
  have hfill : refill c .server db ⟨stream, h⟩ = (true, ⟨stream, { h with
      count := B.length, index := 0, batch := (batchOf h.cols B).close h.cols
      done := h.done || decide (B.length = (remaining arts h).length) }⟩) := by
    unfold refill fillSearchBuffer
    simp only [hsearch, ne_eq, not_true_eq_false, if_false]
    rw [if_neg (by omega)]
    simp only [hunpack, hleft, not_true_eq_false, if_false]
    rfl
  subst hB
  refine ⟨_, hfill, ?_⟩
  exact {
    stream := hstream, groupname := rfl, high := rfl, low := fun _ => rfl, cols := rfl
    index := rfl, count := rfl, batch := rfl
    done := by
      unfold lastFrom
      rw [Bool.and_true] }

/-- A batch of the direct reader. -/
theorem fillSearchBufferDirect_refilled (hholds : Holds c db groupname arts)
    (hvalid : ∀ art ∈ arts, art.Valid c groupname) (hz : c.zlib.Undoes) {s : Searching Stream}
    (hstream : s.stream = c.zlib.fresh) (hname : s.handle.groupname = groupname) :
    ∃ s', refill c .direct db s = (true, s') ∧
      Refilled c .direct (remaining arts s.handle) s.handle s' := by
  obtain ⟨stream, h⟩ := s
  obtain ⟨groupid, hlist⟩ := hholds.listArticles
  have hrest : ∀ art ∈ remaining arts h, art.Valid c groupname :=
    fun art hart => hvalid art (mem_inRange.mp hart).1
  have hused : Batch.empty.used h.cols = 0 := Nat.zero_mul _
  obtain ⟨B, hB, hcollect⟩ := @collectRows_eq _ c h.cols _ groupid _ hrest hz Batch.empty
    (fun _ => rfl) (hused.trans_le (Nat.zero_le _))
  rw [hused, Nat.sub_zero, show Batch.empty.artnum.length = 0 from rfl, Nat.sub_zero] at hB
  change B = batchFrom .direct h.cols (remaining arts h) at hB
  have hartnum : (batchOf h.cols B).artnum = B.map fun art => uint64 art.artnum :=
    (batchOf_arrays h.cols B).1
  have hlen : (batchOf h.cols B).artnum.length = B.length := by
    rw [hartnum, List.length_map]
  simp only at hstream hname
  subst hstream hname
  have hfill : refill c .direct db ⟨c.zlib.fresh, h⟩ = (true, ⟨c.zlib.fresh, { h with
      low := (batchOf h.cols B).artnum.getLast?.elim h.low fun artnum => (artnum + 1) % 2 ^ 64
      count := B.length, index := 0, batch := (batchOf h.cols B).close h.cols
      done := h.done || decide (B.length = (remaining arts h).length ∧
        Batch.empty.artnum.length + (remaining arts h).length < h.cols.maxRows) }⟩) := by
    unfold refill fillSearchBufferDirect
    rw [hlist, show inRange (int64 h.low) (int64 h.high) arts = remaining arts h from rfl, hcollect,
      ← hlen, show List.foldl (Batch.add h.cols) Batch.empty B = batchOf h.cols B from rfl]
    dsimp only
    cases (batchOf h.cols B).artnum.getLast? <;> rfl
  subst hB
  refine ⟨_, hfill, ?_⟩
  exact {
    stream := rfl, groupname := rfl, high := rfl, cols := rfl
    low := by
      intro hnil
      rw [hartnum, hnil]
      rfl
    index := rfl, count := rfl, batch := rfl
    done := by
      unfold lastFrom
      rw [Bool.decide_and, show Batch.empty.artnum.length = 0 from rfl, Nat.zero_add] }

/-- A new batch on either path. -/
theorem refill_refilled (hholds : Holds c db groupname arts)
    (hvalid : ∀ art ∈ arts, art.Valid c groupname) (hz : c.zlib.Undoes) {s : Searching Stream}
    (hstream : s.stream = c.zlib.fresh) (hname : s.handle.groupname = groupname)
    (hcols : s.handle.cols.expires = false) :
    ∃ s', refill c path db s = (true, s') ∧
      Refilled c path (remaining arts s.handle) s.handle s' := by
  cases path with
  | server => exact fillSearchBuffer_refilled hholds hvalid hz hstream hname hcols
  | direct => exact fillSearchBufferDirect_refilled hholds hvalid hz hstream hname

/-! ## One call -/

/-- A search with the articles `rest` to return, the first of which may be in the batch. -/
structure Loaded (c : Compression Stream) (groupname : List UInt8) (high : ℤ)
    (arts rest : List Article) (s : Searching Stream) : Prop where
  fresh : s.stream = c.zlib.fresh
  name : s.handle.groupname = groupname
  last : int64 s.handle.high = high
  cols : s.handle.cols.expires = false
  range : ∃ low, rest = inRange low high arts
  batch : ∃ B, s.handle.batch = (batchOf s.handle.cols B).close s.handle.cols ∧
    s.handle.count = B.length ∧ B.drop s.handle.index <+: rest ∧
    (s.handle.done = true → B.drop s.handle.index = rest)

/-- Between calls the low end of the handle says what is left. -/
structure Sees (c : Compression Stream) (groupname : List UInt8) (high : ℤ)
    (arts rest : List Article) (s : Searching Stream) : Prop
    extends Loaded c groupname high arts rest s where
  left : remaining arts s.handle = rest

variable {high : ℤ} {s s' : Searching Stream}

/-- Behind the first article of a range comes the rest of it. -/
theorem inRange_succ (hsorted : arts.Pairwise fun art art' => art.artnum < art'.artnum) {low : ℤ}
    {art : Article} (h : inRange low high arts = art :: rest) :
    inRange (art.artnum + 1) high arts = rest := by
  have hart : art ∈ inRange low high arts := h ▸ List.mem_cons_self
  have hlow := (mem_inRange.mp hart).2.1
  have hfilter : inRange (art.artnum + 1) high arts =
      (inRange low high arts).filter fun art' => art.artnum + 1 ≤ art'.artnum := by
    unfold inRange
    rw [List.filter_filter]
    apply List.filter_congr
    intro art' _
    rw [Bool.eq_iff_iff]
    simp only [Bool.and_eq_true, decide_eq_true_eq]
    omega
  have hpair : (art :: rest).Pairwise fun art art' => art.artnum < art'.artnum :=
    h ▸ hsorted.filter _
  rw [hfilter, h, List.filter_cons_of_neg (by simp), List.filter_eq_self]
  intro art' hart'
  exact decide_eq_true ((List.pairwise_cons.mp hpair).1 art' hart')

/-- Taking the row at the index of the handle. -/
theorem Loaded.takeRow (h : Loaded c groupname high arts rest s) (hholds : Holds c db groupname arts)
    (hvalid : ∀ art ∈ arts, art.Valid c groupname) (hhigh : high < 2 ^ 63 - 1)
    (hask : ask.cols.exceed s.handle.cols = false) (hindex : s.handle.index < s.handle.count) :
    (takeRow ask s).1 = rest.head?.map (·.answer ask) ∧
      Sees c groupname high arts rest.tail (takeRow ask s).2 := by
  obtain ⟨B, hbatch, hcount, hfront, hdone⟩ := h.batch
  obtain ⟨low, hlow⟩ := h.range
  rw [hcount] at hindex
  have hget : B[s.handle.index]? = some B[s.handle.index] := List.getElem?_eq_getElem hindex
  generalize B[s.handle.index] = art at hget
  have hdrop : B.drop s.handle.index = art :: B.drop (s.handle.index + 1) := by
    obtain ⟨hlt, heq⟩ := List.getElem?_eq_some_iff.mp hget
    rw [← heq]
    exact List.drop_eq_getElem_cons hlt
  rw [hdrop] at hfront hdone
  obtain ⟨more, hmore⟩ := hfront
  rw [List.cons_append] at hmore
  have hart : art ∈ inRange low high arts := by
    rw [← hlow, ← hmore]
    exact List.mem_cons_self
  obtain ⟨hmem, hge, hle⟩ := mem_inRange.mp hart
  have hnum : s.handle.batch.artnum.getD s.handle.index 0 = uint64 art.artnum := by
    rw [hbatch]
    change (batchOf s.handle.cols B).artnum.getD _ _ = _
    rw [(batchOf_arrays s.handle.cols B).1, getD_map_of_getElem? hget]
  have hrange := (hvalid art hmem).artnum
  have hnext : int64 ((uint64 art.artnum + 1) % 2 ^ 64) = art.artnum + 1 := by
    unfold int64 uint64
    split <;> omega
  have htail : inRange (art.artnum + 1) high arts = rest.tail := by
    rw [← hmore, List.tail_cons]
    exact inRange_succ hholds.sorted (by rw [← hlow, ← hmore])
  have htake : Ovsqlite.takeRow ask s = (some (art.answer ask), { s with handle :=
      { s.handle with low := (uint64 art.artnum + 1) % 2 ^ 64, index := s.handle.index + 1 } }) := by
    unfold Ovsqlite.takeRow
    simp only
    rw [if_neg (by omega), hnum, hbatch, found_batchOf hask hget]
  rw [htake]
  refine ⟨by rw [← hmore]; rfl, ?_⟩
  exact {
    fresh := h.fresh, name := h.name, last := h.last, cols := h.cols
    range := ⟨_, htail.symm⟩
    batch := by
      refine ⟨B, hbatch, hcount, ⟨more, ?_⟩, fun hd => ?_⟩
      · rw [← hmore]
        rfl
      · rw [← hdone hd]
        rfl
    left := by
      unfold remaining
      simp only
      rw [hnext, h.last]
      exact htail }

/-- The condition on a call: where it gets a new batch although the last one of the range
is already there and not used up, that one takes all articles left; and the next overview
is not too long to be asked for alone. -/
def Smooth (path : Path) (arts : List Article) (s : Searching Stream) (ask : Ask) : Prop :=
  ask.cols.exceed s.handle.cols = true ∨ s.handle.count ≤ s.handle.index →
    (s.handle.done = true → s.handle.index < s.handle.count →
      FitsBatch path ask.cols (remaining arts s.handle)) ∧
    NotLong path ask.cols (remaining arts s.handle)

instance : Decidable (Smooth path arts s ask) :=
  inferInstanceAs (Decidable (_ → _ ∧ _))

theorem exceed_self (cols : Cols) : cols.exceed cols = false := by
  obtain ⟨arrived, expires, token, overview⟩ := cols
  cases arrived <;> cases expires <;> cases token <;> cases overview <;> rfl

theorem ovsqliteSearch_of_refill (hend : ¬ (s.handle.done = true ∧ s.handle.count ≤ s.handle.index))
    (hneed : ask.cols.exceed s.handle.cols = true ∨ s.handle.count ≤ s.handle.index)
    (hs : refill c path db { s with handle := { s.handle with cols := ask.cols } } = (true, s')) :
    ovsqliteSearch c path db s ask = takeRow ask s' := by
  unfold ovsqliteSearch
  simp only
  rw [if_neg hend, if_pos hneed, hs]
  rfl

/-- A call in which the batch serves. -/
theorem ovsqliteSearch_of_keep (hend : ¬ (s.handle.done = true ∧ s.handle.count ≤ s.handle.index))
    (hkeep : ¬ (ask.cols.exceed s.handle.cols = true ∨ s.handle.count ≤ s.handle.index)) :
    ovsqliteSearch c path db s ask = takeRow ask s := by
  unfold ovsqliteSearch
  simp only
  rw [if_neg hend, if_neg hkeep]

/-- A call returns the next article, if there is one. -/
theorem Sees.search (h : Sees c groupname high arts rest s) (hholds : Holds c db groupname arts)
    (hvalid : ∀ art ∈ arts, art.Valid c groupname) (hz : c.zlib.Undoes) (hhigh : high < 2 ^ 63 - 1)
    (hsmooth : Smooth path arts s ask) :
    (ovsqliteSearch c path db s ask).1 = rest.head?.map (·.answer ask) ∧
      Sees c groupname high arts rest.tail (ovsqliteSearch c path db s ask).2 := by
  by_cases hend : s.handle.done = true ∧ s.handle.count ≤ s.handle.index
  · obtain ⟨B, -, hcount, -, hdone⟩ := h.batch
    have hnil : rest = [] := by
      rw [← hdone hend.1, List.drop_eq_nil_iff, ← hcount]
      exact hend.2
    have hsame : ovsqliteSearch c path db s ask = (none, s) := if_pos hend
    rw [hnil] at h ⊢
    rw [hsame]
    exact ⟨rfl, h⟩
  by_cases hrefill : ask.cols.exceed s.handle.cols = true ∨ s.handle.count ≤ s.handle.index
  · obtain ⟨hfits, hlong⟩ := hsmooth hrefill
    obtain ⟨s', hs', href⟩ := @refill_refilled _ c db groupname arts path hholds hvalid hz
      { s with handle := { s.handle with cols := ask.cols } } h.fresh h.name rfl
    have hsame : remaining arts { s.handle with cols := ask.cols } = rest := h.left
    rw [hsame] at href
    rw [h.left] at hfits hlong
    rw [ovsqliteSearch_of_refill hend hrefill hs']
    have hcols : s'.handle.cols = ask.cols := href.cols
    have hbatch : s'.handle.batch =
        (batchOf s'.handle.cols (batchFrom path ask.cols rest)).close s'.handle.cols := by
      rw [hcols]
      exact href.batch
    have hindex : s'.handle.index = 0 := href.index
    have hcount : s'.handle.count = (batchFrom path ask.cols rest).length := href.count
    have hdone : s'.handle.done = true → batchFrom path ask.cols rest = rest := by
      rw [href.done, Bool.or_eq_true]
      rintro (hd | hlast)
      · have : s.handle.index < s.handle.count := by
          by_contra hle
          exact hend ⟨hd, Nat.not_lt.mp hle⟩
        exact batchFrom_of_fits (hfits hd this)
      · exact batchFrom_of_last hlast
    have hloaded : Loaded c groupname high arts rest s' := by
      refine ⟨href.stream, href.groupname.trans h.name, ?_, ?_, h.range, _, hbatch, hcount, ?_, ?_⟩
      · rw [href.high]
        exact h.last
      · rw [hcols]
        rfl
      · rw [hindex, List.drop_zero]
        exact batchFrom_prefix
      · rw [hindex, List.drop_zero]
        exact hdone
    by_cases hempty : batchFrom path ask.cols rest = []
    · have hnil : rest = [] := by
        by_contra hne
        have hrest : ∀ art ∈ rest, art.Valid c groupname := by
          obtain ⟨low, hlow⟩ := h.range
          intro art hart
          rw [hlow] at hart
          exact hvalid art (mem_inRange.mp hart).1
        exact batchFrom_ne_nil rfl hrest hne hlong hempty
      rw [hempty, List.length_nil] at hcount
      unfold takeRow
      simp only
      rw [if_pos (by omega), hnil]
      rw [hnil] at hloaded hsame
      refine ⟨rfl, hloaded, ?_⟩
      have hlow : s'.handle.low = s.handle.low := href.low hempty
      have hhigh : s'.handle.high = s.handle.high := href.high
      unfold remaining at hsame ⊢
      rw [hlow, hhigh]
      exact hsame
    · refine hloaded.takeRow hholds hvalid hhigh ?_ ?_
      · rw [hcols]
        exact exceed_self _
      · rw [hindex, hcount]
        exact List.length_pos_iff.mpr hempty
  · rw [ovsqliteSearch_of_keep hend hrefill]
    rw [not_or, Bool.not_eq_true, Nat.not_le] at hrefill
    exact h.toLoaded.takeRow hholds hvalid hhigh hrefill.1 hrefill.2

/-- Where nothing fits the new batch, a call returns nothing. -/
theorem Sees.missed (h : Sees c groupname high arts rest s) (hholds : Holds c db groupname arts)
    (hvalid : ∀ art ∈ arts, art.Valid c groupname) (hz : c.zlib.Undoes)
    (hend : s.handle.done = false) (hneed : ask.cols.exceed s.handle.cols = true)
    (hempty : batchFrom path ask.cols rest = []) : (ovsqliteSearch c path db s ask).1 = none := by
  obtain ⟨s', hs', href⟩ := @refill_refilled _ c db groupname arts path hholds hvalid hz
    { s with handle := { s.handle with cols := ask.cols } } h.fresh h.name rfl
  have hsame : remaining arts { s.handle with cols := ask.cols } = rest := h.left
  have hcount : s'.handle.count = (batchFrom path ask.cols rest).length := hsame ▸ href.count
  rw [hempty, List.length_nil] at hcount
  rw [ovsqliteSearch_of_refill (by rw [hend]; exact fun h => Bool.noConfusion h.1) (.inl hneed) hs',
    takeRow, if_pos (hcount.trans_le (Nat.zero_le _))]

/-! ## All calls -/

/-- A call, with what the calls have returned. -/
def SearchNext (c : Compression Stream) (path : Path) (db : Db)
    (s : Searching Stream × List (Option Found)) (ask : Ask)
    (s' : Searching Stream × List (Option Found)) : Prop :=
  s' = ((ovsqliteSearch c path db s.1 ask).2, s.2 ++ [(ovsqliteSearch c path db s.1 ask).1])

/-- Calls in a row, as long as they meet the condition. -/
def searches (c : Compression Stream) (path : Path) (db : Db) (arts : List Article)
    (s : Searching Stream × List (Option Found)) (asks : List Ask) :
    Option (Searching Stream × List (Option Found)) :=
  asks.foldlM (fun s ask =>
    if Smooth path arts s.1 ask then
      some ((ovsqliteSearch c path db s.1 ask).2, s.2 ++ [(ovsqliteSearch c path db s.1 ask).1])
    else none) s

theorem steps_of_searches {asks : List Ask} {s s' : Searching Stream × List (Option Found)}
    (h : searches c path db arts s asks = some s') :
    Steps (guarded (fun s ask => Smooth path arts s.1 ask) (SearchNext c path db)) s asks s' := by
  refine (Steps.of_foldlM h).mono fun s ask s' hstep => ?_
  split at hstep
  · next hsmooth => exact ⟨hsmooth, (Option.some.inj hstep).symm⟩
  · cases hstep

/-- What calls should return: the articles one by one, and then nothing. -/
def returns (arts : List Article) (asks : List Ask) : List (Option Found) :=
  asks.mapIdx fun i ask => arts[i]?.map (·.answer ask)

theorem returns_concat (arts : List Article) (asks : List Ask) (ask : Ask) :
    returns arts (asks ++ [ask]) =
      returns arts asks ++ [(arts.drop asks.length).head?.map (·.answer ask)] := by
  unfold returns
  rw [List.mapIdx_concat, List.head?_drop]

/-- A search that has just been opened. -/
theorem sees_opensearch (arts : List Article) {low : ℤ} (hlow : -2 ^ 31 ≤ low ∧ low < 2 ^ 31)
    (hhigh : -2 ^ 31 ≤ high ∧ high < 2 ^ 31) : Sees c groupname high arts (inRange low high arts)
      ⟨c.zlib.fresh, ovsqliteOpensearch groupname low high⟩ := by
  have hlow' : int64 (uint64 low) = low := int64_uint64 (by omega) (by omega)
  have hhigh' : int64 (uint64 high) = high := int64_uint64 (by omega) (by omega)
  exact {
    fresh := rfl, name := rfl, last := hhigh', cols := rfl, range := ⟨low, rfl⟩
    batch := ⟨[], rfl, rfl, List.nil_prefix, fun h => Bool.noConfusion h⟩
    left := by
      unfold remaining ovsqliteOpensearch
      simp only
      rw [hlow', hhigh'] }

/-- On either path, with any columns, the calls of a search return the articles of the
range once each, in order, with their own values, and then nothing. -/
theorem search_complete {low : ℤ} {asks : List Ask} {s : Searching Stream × List (Option Found)}
    (hz : c.zlib.Undoes) (hholds : Holds c db groupname arts)
    (hvalid : ∀ art ∈ arts, art.Valid c groupname) (hlow : -2 ^ 31 ≤ low ∧ low < 2 ^ 31)
    (hhigh : -2 ^ 31 ≤ high ∧ high < 2 ^ 31)
    (h : Steps (guarded (fun s ask => Smooth path arts s.1 ask) (SearchNext c path db))
      (⟨c.zlib.fresh, ovsqliteOpensearch groupname low high⟩, []) asks s) :
    s.2 = returns (inRange low high arts) asks := by
  suffices hinv : s.2 = returns (inRange low high arts) asks ∧
      Sees c groupname high arts ((inRange low high arts).drop asks.length) s.1 from hinv.1
  refine @Steps.invariant_hist _ _ _
    (fun asks (s : Searching Stream × List (Option Found)) =>
      s.2 = returns (inRange low high arts) asks ∧
        Sees c groupname high arts ((inRange low high arts).drop asks.length) s.1)
    _ _ _ ?_ h ⟨rfl, sees_opensearch arts hlow hhigh⟩
  rintro asks s ask s' ⟨hsmooth, rfl⟩ ⟨hanswers, hsees⟩
  obtain ⟨hfound, hsees'⟩ := hsees.search hholds hvalid hz (by omega) hsmooth
  refine ⟨?_, ?_⟩
  · rw [returns_concat, ← hanswers, hfound]
  · rw [List.length_append, List.length_singleton, ← List.tail_drop]
    exact hsees'

/-! ## Two groups -/

/-- A database with one group, number 1, that holds some articles. -/
def storedDb (c : Compression Stream) (groupname : List UInt8) (arts : List Article) : Db where
  groupinfo := [⟨1, 1, 0, arts.length, 0, 0, groupname, [0x79]⟩]
  artinfo := arts.map (Article.row c groupname 1)
  expireart := []

theorem holds_storedDb (h : arts.Pairwise fun art art' => art.artnum < art'.artnum) :
    Holds c (storedDb c groupname arts) groupname arts := by
  refine ⟨h, ?_⟩
  have hlook : (storedDb c groupname arts).lookupGroupinfo groupname =
      some ⟨1, 1, 0, arts.length, 0, 0, groupname, [0x79]⟩ := by
    refine List.find?_cons_of_pos ?_
    unfold Db.isLive
    simp
  rw [hlook]
  refine List.Perm.of_eq (List.filter_eq_self.mpr ?_)
  intro a ha
  obtain ⟨art, -, rfl⟩ := List.mem_map.mp ha
  rfl

/-- A stored article, by its number and overview. -/
def storedArticle (artnum : ℤ) (data : List UInt8) : Article :=
  ⟨artnum, 1000, 0, List.replicate tokenSize 0, data⟩

theorem valid_uncompressed {artnum : ℤ} {data : List UInt8} (hnum : 0 ≤ artnum ∧ artnum < 2 ^ 31)
    (hne : data ≠ []) (hlen : data.length ≤ MAX_OVDATA_SIZE) :
    (storedArticle artnum data).Valid uncompressed groupname where
  artnum := by
    change -2 ^ 63 ≤ artnum ∧ artnum < 2 ^ 63
    omega
  arrived := ⟨by change -2 ^ 63 ≤ (1000 : ℤ); omega, by change (1000 : ℤ) < 2 ^ 63; omega⟩
  token := List.length_replicate
  kept := ⟨hne, hlen, fun h => Bool.noConfusion h⟩

theorem undoes_uncompressed : uncompressed.zlib.Undoes :=
  ⟨fun _ _ _ _ h => absurd h.symm (Option.some_ne_none _),
    fun _ _ _ _ h => absurd h.symm (Option.some_ne_none _)⟩

/-- Two short overviews. -/
def twoArticles : List Article := [storedArticle 1 [65], storedArticle 3 [66, 67]]

/-- The first call asks for the number alone, so that the second gets a new batch. -/
theorem search_complete_two : ∃ s : Searching Unit × List (Option Found),
    Steps (guarded (fun s ask => Smooth .server twoArticles s.1 ask)
      (SearchNext uncompressed .server (storedDb uncompressed [103] twoArticles)))
      (⟨(), ovsqliteOpensearch [103] 1 9⟩, [])
      [⟨true, false, false, false, false⟩, ⟨true, true, true, false, false⟩,
        ⟨true, true, true, false, false⟩] s ∧
    s.2 = [some ⟨some 1, none, none, none, none⟩, some ⟨some 3, some [66, 67], some 2, none, none⟩,
      none] := by
  have hrun : (searches uncompressed .server (storedDb uncompressed [103] twoArticles) twoArticles
      (⟨(), ovsqliteOpensearch [103] 1 9⟩, []) [⟨true, false, false, false, false⟩,
        ⟨true, true, true, false, false⟩, ⟨true, true, true, false, false⟩]).isSome := by
    decide
  obtain ⟨s, hs⟩ := Option.isSome_iff_exists.mp hrun
  refine ⟨s, steps_of_searches hs, (search_complete undoes_uncompressed (holds_storedDb (by decide))
    ?_ (by decide) (by decide) (steps_of_searches hs)).trans (by decide)⟩
  intro art hart
  rcases List.mem_pair.mp hart with rfl | rfl
  · exact valid_uncompressed (by decide) (by decide) (by decide)
  · exact valid_uncompressed (by decide) (by decide) (by decide)

/-- An overview that is too long to be asked for alone. -/
def longArticle : Article := storedArticle 1 (List.replicate 98281 65)

/-- Through the server, a call that asks for the overview alone does not find it. -/
theorem long_overview_missed : ∃ s : Searching Unit × List (Option Found),
    Steps (SearchNext uncompressed .server (storedDb uncompressed [103] [longArticle]))
      (⟨(), ovsqliteOpensearch [103] 1 9⟩, []) [⟨false, true, true, false, false⟩] s ∧
    s.2 = [none] ∧ inRange 1 9 [longArticle] = [longArticle] := by
  have hlen : longArticle.data.length = 98281 := List.length_replicate
  have hvalid : ∀ art ∈ [longArticle], art.Valid uncompressed [103] := by
    intro art hart
    rw [List.mem_singleton.mp hart]
    refine valid_uncompressed (by decide) ?_ ?_
    · exact List.ne_nil_of_length_pos (by rw [List.length_replicate]; decide)
    · rw [List.length_replicate]
      decide
  have hrange : inRange 1 9 [longArticle] = [longArticle] := rfl
  refine ⟨_, .single rfl, ?_, hrange⟩
  have hsees := @sees_opensearch _ uncompressed [103] 9 [longArticle] 1 (by decide) (by decide)
  refine congrArg (fun found => [found]) (hsees.missed (holds_storedDb (List.pairwise_singleton _ _))
    hvalid undoes_uncompressed rfl rfl ?_)
  -- the space left is one byte too small
  rw [hrange]
  refine fitting_cons_of_lt ?_
  rw [wireLength_eq rfl (hvalid _ List.mem_cons_self), Article.textLength, hlen]
  decide

end Inn.Ovsqlite
