import Inn.Innd.Clean

/-!
# Inn.Innd.Hashfeed — how a feed is split by the hash of the Message-ID

A site with `Q` flags takes the articles whose hash, modulo a number, lies in one of its ranges.
The MD5 hash of the last Message-ID is kept, with the first 127 bytes of it.

* `SITEparseQ` — the flag;
* `HashFeedMatch_eq` — what a site takes, where the digest that is kept is the right one;
* `hashfeeds_iff` — which flags are safe, and in which runs the ranges split the feed.
-/

namespace Inn.Innd

/-! ## The flag -/

/-- `HASHFEED_MD5` and `HASHFEED_QH`. -/
inductive HashKind where
  | md5
  | qh
deriving DecidableEq, Repr

/-- `HASHFEEDLIST`, without `next`. -/
structure HASHFEED where
  type : HashKind
  begin : ℕ
  last : ℕ
  mod : ℕ
  offset : ℕ
deriving DecidableEq, Repr

/-- `%u` of `sscanf`: the number as it is written, and what follows it. -/
def scanU (p : List UInt8) : Option (ℤ × List UInt8) :=
  let q := p.dropWhile isspace
  let r := if q.head? = some 45 ∨ q.head? = some 43 then q.tail else q
  if r.takeWhile isdigit = [] then none
  else some (if q.head? = some 45 then -leadingNumber r else leadingNumber r, r.dropWhile isdigit)

/-- The number as `%u` stores it: from `strtoul`, in an `unsigned int`. -/
def toUnsigned (v : ℤ) : ℕ :=
  ((if 2 ^ 64 ≤ v.natAbs then 2 ^ 64 - 1 else v % 2 ^ 64) % 2 ^ 32).toNat

/-- `%u/%u`. -/
def scanPair (p : List UInt8) : Option (ℤ × ℤ) :=
  (scanU p).bind fun x =>
    if x.2.head? = some 47 then (scanU x.2.tail).map fun z => (x.1, z.1) else none

/-- `%u/%u`, or else `%u-%u/%u`: the numbers x, y and z, y being x in the first form. -/
def scanRange (p : List UInt8) : Option (ℤ × ℤ × ℤ) :=
  ((scanPair p).map fun r => (r.1, r.1, r.2)).or
    ((scanU p).bind fun x =>
      if x.2.head? = some 45 then (scanPair x.2.tail).map fun r => (x.1, r.1, r.2) else none)

/-- The text after the `@` of a quickhash. -/
def flagText (p : List UInt8) : List UInt8 := if p.head? = some 64 then p.tail else p

/-- The offset after the first `_`. -/
def flagOffset (p : List UInt8) : Option ℕ :=
  let u := p.dropWhile (· ≠ 95)
  if u = [] then some 0 else (scanU u.tail).map fun r => toUnsigned r.1

/-- The `Q` flag in `SITEparseone`, after the `Q`. -/
def SITEparseQ (p : List UInt8) : Except String HASHFEED :=
  match flagOffset (flagText p) with
  | none => .error "invalid hash offset for Q param in field 3"
  | some offset =>
    if 12 < offset then .error "invalid hash offset for Q param in field 3"
    else
      match scanRange (flagText p) with
      | none => .error "hash not in x/z or x-y/z format for Q param in field 3"
      | some r =>
        if toUnsigned r.2.1 < toUnsigned r.1 ∨ toUnsigned r.2.2 < toUnsigned r.2.1 then
          .error "incorrect hash values for Q param in field 3"
        else .ok {
          type := if p.head? = some 64 then .qh else .md5
          begin := toUnsigned r.1
          last := toUnsigned r.2.1
          mod := toUnsigned r.2.2
          offset := offset }

/-! ## The match -/

/-- The static variables of `HashFeedMD5`; a context stands for the bytes that were put into it. -/
structure Cache where
  LastMessageID : List UInt8
  LastMessageIDPtr : Option ℕ
  context : List UInt8
deriving DecidableEq, Repr

def Cache.init : Cache := ⟨[], none, []⟩

/-- `ntohl` of four bytes of a digest. -/
def digestWord (digest : List UInt8) (offset : ℕ) : ℕ :=
  ((digest.drop (12 - offset)).take 4).foldl (fun n b => 256 * n + b.toNat) 0

section Match

variable (md5 : List UInt8 → List UInt8)

/-- `HashFeedMD5` of a Message-ID in the buffer at `addr`. -/
def HashFeedMD5 (c : Cache) (addr : ℕ) (MessageID : List UInt8) (offset : ℕ) : Cache × ℕ :=
  if 12 < offset then (c, 0)
  else
    let c : Cache :=
      if c.LastMessageIDPtr ≠ some addr ∨ MessageID ≠ c.LastMessageID then
        ⟨MessageID.take 127, some addr, MessageID⟩
      else c
    (c, digestWord (md5 c.context) offset)

/-- `HashFeedQH`, with `*tmp`. -/
def HashFeedQH (MessageID : List UInt8) (tmp : ℕ) : ℕ :=
  if tmp ≠ 2 ^ 32 - 1 then tmp else (MessageID.map UInt8.toNat).sum % 2 ^ 32

/-- The hash is in the range. -/
def HASHFEED.takes (hf : HASHFEED) (h : ℕ) : Bool :=
  decide (hf.begin ≤ h % hf.mod + 1 ∧ h % hf.mod + 1 ≤ hf.last)

/-- The hash for one element of the list: the cache, `qh` and `h`. -/
def hashFor (addr : ℕ) (MessageID : List UInt8) (hf : HASHFEED) (c : Cache) (qh : ℕ) :
    Cache × ℕ × ℕ :=
  match hf.type with
  | .md5 =>
    let r := HashFeedMD5 md5 c addr MessageID hf.offset
    (r.1, qh, r.2)
  | .qh => (c, HashFeedQH MessageID qh, HashFeedQH MessageID qh)

/-- `HashFeedMatch`; `none` is a division by zero. -/
def HashFeedMatch (addr : ℕ) (MessageID : List UInt8) :
    List HASHFEED → Cache → ℕ → Cache × Option Bool
  | [], c, _ => (c, some false)
  | hf :: rest, c, qh =>
    let r := hashFor md5 addr MessageID hf c qh
    if hf.mod = 0 then (r.1, none)
    else if hf.takes r.2.2 then (r.1, some true)
    else HashFeedMatch addr MessageID rest r.1 r.2.1

/-- A call of `HashFeedMatch`: the site, and the Message-ID in its buffer. -/
structure HashCall where
  site : ℕ
  addr : ℕ
  MessageID : List UInt8
deriving DecidableEq, Repr

/-- The calls of a server, with what they return; `feeds` are the lists of the sites. -/
def hashRun (feeds : ℕ → List HASHFEED) : Cache → List HashCall → List (HashCall × Option Bool)
  | _, [] => []
  | c, call :: calls =>
    let r := HashFeedMatch md5 call.addr call.MessageID (feeds call.site) c (2 ^ 32 - 1)
    (call, r.2) :: if r.2 = none then [] else hashRun feeds r.1 calls

/-! ## The rule -/

/-- The hash that the flag is about. -/
def HASHFEED.hash (hf : HASHFEED) (MessageID : List UInt8) : ℕ :=
  match hf.type with
  | .md5 => if 12 < hf.offset then 0 else digestWord (md5 MessageID) hf.offset
  | .qh => (MessageID.map UInt8.toNat).sum % 2 ^ 32

/-- Some range has the hash. -/
def hashWanted (feeds : List HASHFEED) (MessageID : List UInt8) : Bool :=
  feeds.any fun hf => hf.takes (hf.hash md5 MessageID)

/-- The digest is of a longer Message-ID in the same buffer, whose first 127 bytes are this one. -/
def Stale (c : Cache) (addr : ℕ) (MessageID : List UInt8) : Prop :=
  c.LastMessageIDPtr = some addr ∧ 127 < c.context.length ∧ MessageID = c.context.take 127

/-- The digest is asked for. -/
def asksDigest (MessageID : List UInt8) : List HASHFEED → Bool
  | [] => false
  | hf :: rest => (hf.type = .md5 ∧ hf.offset ≤ 12) ||
      (!(hf.takes (hf.hash md5 MessageID)) && asksDigest MessageID rest)

/-- No call asks for a digest that is stale. -/
def Fresh (feeds : ℕ → List HASHFEED) : Cache → List HashCall → Prop
  | _, [] => True
  | c, call :: calls =>
    (asksDigest md5 call.MessageID (feeds call.site) = true →
        ¬ Stale c call.addr call.MessageID) ∧
      Fresh feeds
        (HashFeedMatch md5 call.addr call.MessageID (feeds call.site) c (2 ^ 32 - 1)).1 calls

/-- The sites share 1 to `m`. -/
structure Division (kind : HashKind) (offset m : ℕ) (sites : Set ℕ) (feeds : ℕ → List HASHFEED) :
    Prop where
  same : ∀ i ∈ sites, ∀ hf ∈ feeds i, hf.type = kind ∧ hf.offset = offset ∧ hf.mod = m
  once : ∀ x, 1 ≤ x → x ≤ m → ∃! i, i ∈ sites ∧ ∃ hf ∈ feeds i, hf.begin ≤ x ∧ x ≤ hf.last

/-! ## One call -/

variable {md5} {c : Cache} {addr qh : ℕ} {MessageID : List UInt8} {hf : HASHFEED}
  {feeds : List HASHFEED}

/-- What is kept is the beginning of what was hashed. -/
def Cache.Kept (c : Cache) : Prop :=
  c.LastMessageIDPtr ≠ none → c.LastMessageID = c.context.take 127

theorem HashFeedMD5_kept (h : c.Kept) (offset : ℕ) :
    (HashFeedMD5 md5 c addr MessageID offset).1.Kept := by
  rw [HashFeedMD5]
  split
  · exact h
  · split
    · exact fun _ => rfl
    · exact h

/-- A digest that is not stale is the one of the Message-ID, and stays so. -/
theorem HashFeedMD5_fresh (hkept : c.Kept) (hfresh : ¬ Stale c addr MessageID) {offset : ℕ}
    (hoffset : offset ≤ 12) :
    (HashFeedMD5 md5 c addr MessageID offset).2 = digestWord (md5 MessageID) offset ∧
      ¬ Stale (HashFeedMD5 md5 c addr MessageID offset).1 addr MessageID := by
  have hnot : ∀ c : Cache, c.context = MessageID → ¬ Stale c addr MessageID := by
    rintro c rfl ⟨-, hlong, htake⟩
    have hlength := congrArg List.length htake
    rw [List.length_take] at hlength
    omega
  rw [HashFeedMD5, if_neg (by omega)]
  split
  · exact ⟨rfl, hnot _ rfl⟩
  · rename_i hhit
    rw [not_or, not_not, not_not] at hhit
    have hlast := hkept (by rw [hhit.1]; exact Option.some_ne_none _)
    have hcontext : c.context = MessageID := by
      by_cases hlong : 127 < c.context.length
      · exact absurd ⟨hhit.1, hlong, hhit.2.trans hlast⟩ hfresh
      · rw [hhit.2, hlast, List.take_of_length_le (by omega)]
    exact ⟨congrArg (fun i => digestWord (md5 i) offset) hcontext, hnot c hcontext⟩

/-- `qh` is not set, or it is the sum. -/
def QhSet (MessageID : List UInt8) (qh : ℕ) : Prop :=
  qh = 2 ^ 32 - 1 ∨ qh = (MessageID.map UInt8.toNat).sum % 2 ^ 32

theorem HashFeedQH_eq (h : QhSet MessageID qh) :
    HashFeedQH MessageID qh = (MessageID.map UInt8.toNat).sum % 2 ^ 32 := by
  rw [HashFeedQH]
  split
  · rename_i hset
    exact h.resolve_left hset
  · rfl

/-- A site takes what is in its ranges. -/
theorem HashFeedMatch_eq (hmod : ∀ hf ∈ feeds, hf.mod ≠ 0) (hkept : c.Kept)
    (hfresh : asksDigest md5 MessageID feeds = true → ¬ Stale c addr MessageID)
    (hqh : QhSet MessageID qh) :
    (HashFeedMatch md5 addr MessageID feeds c qh).2 = some (hashWanted md5 feeds MessageID) := by
  induction feeds generalizing c qh with
  | nil => rfl
  | cons hf rest ih =>
    have hstep : (hashFor md5 addr MessageID hf c qh).2.2 = hf.hash md5 MessageID ∧
        (hashFor md5 addr MessageID hf c qh).1.Kept ∧
        QhSet MessageID (hashFor md5 addr MessageID hf c qh).2.1 ∧
        (hf.takes (hf.hash md5 MessageID) = false → asksDigest md5 MessageID rest = true →
          ¬ Stale (hashFor md5 addr MessageID hf c qh).1 addr MessageID) := by
      rw [hashFor, HASHFEED.hash]
      cases hkind : hf.type with
      | md5 =>
        by_cases hoffset : 12 < hf.offset
        · simp only [HashFeedMD5, if_pos hoffset]
          refine ⟨trivial, hkept, hqh, fun hno hasks => hfresh ?_⟩
          rw [asksDigest, HASHFEED.hash, hkind]
          simp only [if_pos hoffset]
          rw [hno, hasks]
          simp
        · have hasks : asksDigest md5 MessageID (hf :: rest) = true := by
            rw [asksDigest, hkind]
            simp [not_lt.mp hoffset]
          obtain ⟨hword, hstays⟩ :=
            @HashFeedMD5_fresh md5 c addr MessageID hkept (hfresh hasks) _ (not_lt.mp hoffset)
          simp only [if_neg hoffset]
          exact ⟨hword, HashFeedMD5_kept hkept _, hqh, fun _ _ => hstays⟩
      | qh =>
        simp only [HashFeedQH_eq hqh]
        refine ⟨trivial, hkept, .inr rfl, fun hno hasks => hfresh ?_⟩
        rw [asksDigest, HASHFEED.hash, hkind]
        simp only
        rw [hno, hasks]
        simp
    rw [HashFeedMatch, if_neg (hmod hf List.mem_cons_self), hstep.1, hashWanted, List.any_cons]
    cases htakes : hf.takes (hf.hash md5 MessageID) with
    | true => rw [if_pos rfl, Bool.true_or]
    | false =>
      rw [if_neg Bool.false_ne_true, Bool.false_or]
      exact ih (fun hf h => hmod hf (List.mem_cons_of_mem _ h)) hstep.2.1 (hstep.2.2.2 htakes)
        hstep.2.2.1

theorem HashFeedMatch_kept (h : c.Kept) :
    (HashFeedMatch md5 addr MessageID feeds c qh).1.Kept := by
  induction feeds generalizing c qh with
  | nil => exact h
  | cons hf rest ih =>
    have hstep : (hashFor md5 addr MessageID hf c qh).1.Kept := by
      rw [hashFor]
      split
      · exact HashFeedMD5_kept h _
      · exact h
    rw [HashFeedMatch]
    split
    · exact hstep
    · split
      · exact hstep
      · exact ih hstep

/-- Without a zero there is no division by zero. -/
theorem HashFeedMatch_ne_none (hmod : ∀ hf ∈ feeds, hf.mod ≠ 0) :
    (HashFeedMatch md5 addr MessageID feeds c qh).2 ≠ none := by
  induction feeds generalizing c qh with
  | nil => exact Option.some_ne_none _
  | cons hf rest ih =>
    rw [HashFeedMatch, if_neg (hmod hf List.mem_cons_self)]
    split
    · exact Option.some_ne_none _
    · exact ih fun hf h => hmod hf (List.mem_cons_of_mem _ h)

/-! ## Runs -/

/-- What a run of calls returns: the answers that the ranges give. -/
theorem hashRun_eq {feeds : ℕ → List HASHFEED} {calls : List HashCall} (hkept : c.Kept)
    (hfresh : Fresh md5 feeds c calls) :
    ∀ e ∈ hashRun md5 feeds c calls, (∀ hf ∈ feeds e.1.site, hf.mod ≠ 0) →
      e.2 = some (hashWanted md5 (feeds e.1.site) e.1.MessageID) := by
  induction calls generalizing c with
  | nil =>
    intro e he
    cases he
  | cons call calls ih =>
    intro e he hmod
    rw [hashRun, List.mem_cons] at he
    rcases he with rfl | he
    · exact HashFeedMatch_eq hmod hkept hfresh.1 (.inl rfl)
    · split at he
      · cases he
      · exact ih (HashFeedMatch_kept hkept) hfresh.2 e he hmod

/-- Each hash is in the ranges of one site. -/
theorem Division.one {kind : HashKind} {offset m : ℕ} {sites : Set ℕ} {feeds : ℕ → List HASHFEED}
    (h : Division kind offset m sites feeds) (hm : 0 < m) (MessageID : List UInt8) :
    ∃ i ∈ sites, ∀ j ∈ sites, hashWanted md5 (feeds j) MessageID = decide (j = i) := by
  have hhash : ∀ j ∈ sites, ∀ hf ∈ feeds j, hf.takes (hf.hash md5 MessageID) = true ↔
      hf.begin ≤ HASHFEED.hash md5 ⟨kind, 0, 0, m, offset⟩ MessageID % m + 1 ∧
        HASHFEED.hash md5 ⟨kind, 0, 0, m, offset⟩ MessageID % m + 1 ≤ hf.last := by
    intro j hj hf hhf
    obtain ⟨hkind, hoffset, hmod⟩ := h.same j hj hf hhf
    have heq : hf.hash md5 MessageID = HASHFEED.hash md5 ⟨kind, 0, 0, m, offset⟩ MessageID := by
      rw [HASHFEED.hash, HASHFEED.hash, hkind, hoffset]
    rw [HASHFEED.takes, decide_eq_true_iff, heq, hmod]
  have hlt := Nat.mod_lt (HASHFEED.hash md5 ⟨kind, 0, 0, m, offset⟩ MessageID) hm
  obtain ⟨i, ⟨hi, hf, hhf, hrange⟩, hunique⟩ :=
    h.once (HASHFEED.hash md5 ⟨kind, 0, 0, m, offset⟩ MessageID % m + 1) (by omega) (by omega)
  refine ⟨i, hi, fun j hj => ?_⟩
  rw [Bool.eq_iff_iff, decide_eq_true_iff, hashWanted, List.any_eq_true]
  constructor
  · rintro ⟨hf, hhf, htakes⟩
    exact hunique j ⟨hj, hf, hhf, (hhash j hj hf hhf).mp htakes⟩
  · rintro rfl
    exact ⟨hf, hhf, (hhash j hj hf hhf).mpr hrange⟩

end Match

/-! ## Numbers -/

/-- A number that an `unsigned int` holds. -/
def Fits32 (v : ℤ) : Prop := 0 ≤ v ∧ v < 2 ^ 32

theorem toUnsigned_eq_iff (v : ℤ) : (toUnsigned v : ℤ) = v ↔ Fits32 v := by
  rw [toUnsigned, Fits32]
  split <;> omega

/-- What an accepted flag holds. -/
theorem SITEparseQ_ok {p : List UInt8} {hf : HASHFEED} (h : SITEparseQ p = .ok hf) :
    ∃ x y z, scanRange (flagText p) = some (x, y, z) ∧ hf.begin = toUnsigned x ∧
      hf.last = toUnsigned y ∧ hf.mod = toUnsigned z ∧ hf.offset ≤ 12 := by
  rw [SITEparseQ] at h
  split at h
  · cases h
  · rename_i offset hoffset
    split at h
    · cases h
    · rename_i hle
      split at h
      · cases h
      · rename_i r hr
        split at h
        · cases h
        · obtain rfl := Except.ok.inj h
          exact ⟨r.1, r.2.1, r.2.2, hr, rfl, rfl, rfl, not_lt.mp hle⟩

/-- The flags that are accepted are safe, and mean what they say, exactly where the modulus is not
zero and the numbers fit; and the ranges of a division split the feed in every run in which no
digest is asked for that is stale. -/
theorem hashfeeds_iff (md5 : List UInt8 → List UInt8) :
    (∀ p hf, SITEparseQ p = .ok hf → ∃ x y z, scanRange (flagText p) = some (x, y, z) ∧
        (((∀ addr MessageID c qh, (HashFeedMatch md5 addr MessageID [hf] c qh).2 ≠ none) ∧
            (hf.begin : ℤ) = x ∧ (hf.last : ℤ) = y ∧ (hf.mod : ℤ) = z) ↔
          z ≠ 0 ∧ Fits32 x ∧ Fits32 y ∧ Fits32 z)) ∧
      ∀ kind offset m sites feeds, 0 < m → Division kind offset m sites feeds →
        ∀ calls, Fresh md5 feeds Cache.init calls → ∀ MessageID, ∃ i ∈ sites,
          ∀ e ∈ hashRun md5 feeds Cache.init calls, e.1.MessageID = MessageID →
            e.1.site ∈ sites → e.2 = some (decide (e.1.site = i)) := by
  constructor
  · intro p hf h
    obtain ⟨x, y, z, hscan, hbegin, hlast, hmod, -⟩ := SITEparseQ_ok h
    refine ⟨x, y, z, hscan, ?_⟩
    rw [hbegin, hlast, hmod, toUnsigned_eq_iff, toUnsigned_eq_iff, toUnsigned_eq_iff]
    constructor
    · rintro ⟨hsafe, hx, hy, hz⟩
      refine ⟨fun hzero => hsafe 0 [] Cache.init 0 ?_, hx, hy, hz⟩
      rw [HashFeedMatch, if_pos (by rw [hmod, hzero]; rfl)]
    · rintro ⟨hzero, hx, hy, hz⟩
      refine ⟨fun addr MessageID c qh => HashFeedMatch_ne_none fun hf' hf'mem => ?_, hx, hy, hz⟩
      rw [List.mem_singleton.mp hf'mem, hmod]
      have hstored := (toUnsigned_eq_iff z).mpr hz
      omega
  · intro kind offset m sites feeds hm hdiv calls hfresh MessageID
    obtain ⟨i, hi, hone⟩ := @Division.one md5 _ _ _ _ _ hdiv hm MessageID
    refine ⟨i, hi, fun e he hid hsite => ?_⟩
    subst hid
    have hkept : Cache.init.Kept := fun hnone => absurd rfl hnone
    rw [hashRun_eq hkept hfresh e he, hone _ hsite]
    intro hf hhf
    rw [(hdiv.same _ hsite hf hhf).2.2]
    omega

/-- `Q0/0`. -/
theorem zero_of_zero : ¬ ∀ (md5 : List UInt8 → List UInt8) (p : List UInt8) (hf : HASHFEED),
    SITEparseQ p = .ok hf → ∀ addr MessageID c qh,
      (HashFeedMatch md5 addr MessageID [hf] c qh).2 ≠ none := by
  intro h
  exact h id [48, 47, 48] ⟨.md5, 0, 0, 0, 0⟩ (by decide) 0 [] Cache.init 0 rfl

end Inn.Innd
