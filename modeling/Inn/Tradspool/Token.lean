import Inn.Decimal
import Inn.Storage.Token
import Inn.Tradspool.Map

/-!
# Inn.Tradspool.Token — the two numbers in a token

`MakeToken` copies the number of the newsgroup and that of the article into the token as they
are in memory, each an `unsigned long` of four or eight bytes that `htonl` made.
`TokenToPath` and `tradspool_ctl` copy them out as such; `tradspool_explaintoken` takes four bytes
for each of them.

* `numbers_fillToken` — what the first two read;
* `explained_four`, `explained_eight` — what the third reads.
-/

namespace Inn.Tradspool

open Storage (length_get get_add get_put_of_disjoint get_putWord_self getWord_putWord_self
  getWord_putWord_of_disjoint)

def TOKEN_TRADSPOOL : UInt8 := 5

section Code

-- the order of the bytes in memory, and the size of `unsigned long`
variable (order : ByteOrder) (width : ℕ) (hash : Name → Fin NGT_SIZE)

/-- The last lines of `MakeToken`. -/
def fillToken (num artnum : ℕ) (cls : UInt8) : Storage.TOKEN :=
  let token := { Storage.TOKEN.zero with type := TOKEN_TRADSPOOL, cls := cls }
  let num := order.hton 4 (num % 2 ^ 32)
  let token := token.putWord order width 0 num
  let artnum := order.hton 4 (artnum % 2 ^ 32)
  token.putWord order width width artnum

/-- `MakeToken`, with the variables of the process and the map after it; `none` is a null
pointer for the entry. -/
def MakeToken (t : Spool) (map : List NGTENT) (ng : Name) (artnum : ℕ) (cls : UInt8) :
    Option (Storage.TOKEN × Spool × List NGTENT) :=
  match FindNGByName hash t ng with
  | some ngtp => some (fillToken order width ngtp.ngnumber artnum cls, t, map)
  | none =>
    let t := AddNG hash t ng 0
    let (map, t) := DumpDB t map
    (FindNGByName hash t ng).map fun ngtp =>
      (fillToken order width ngtp.ngnumber artnum cls, t, map)

/-- The numbers that `TokenToPath` and `tradspool_ctl` copy out of a token. -/
def numbers (token : Storage.TOKEN) : TOKEN :=
  ⟨order.hton 4 (token.getWord order width 0 % 2 ^ 32),
    order.hton 4 (token.getWord order width width % 2 ^ 32)⟩

/-- `TokenToPath`. -/
def tokenPath (patharticles : List UInt8) (t : Spool) (map : List NGTENT) (token : Storage.TOKEN)
    (now mtime : ℕ) : Option (List UInt8) :=
  (TokenToPath hash t map (numbers order width token) now mtime).1.map fun (ng, artnum) =>
    patharticles ++ 47 :: (ng.1 ++ 47 :: printed artnum)

/-- `tradspool_ctl`: the name of the newsgroup and the number of the article. -/
def tradspool_ctl (t : Spool) (map : List NGTENT) (token : Storage.TOKEN) (now mtime : ℕ) :
    Option (List UInt8 × ℕ) :=
  (TokenToPath hash t map (numbers order width token) now mtime).1.map fun (ng, artnum) =>
    (ng.1.map fun b => if b = 47 then 46 else b, artnum)

/-- What `tradspool_explaintoken` prints. -/
structure Explained where
  cls : UInt8
  ngnum : ℕ
  artnum : ℕ
  file : List UInt8
deriving DecidableEq

def tradspool_explaintoken (patharticles : List UInt8) (t : Spool) (map : List NGTENT)
    (token : Storage.TOKEN) (now mtime : ℕ) : Explained where
  cls := token.cls
  ngnum := order.hton 4 (token.getWord order 4 0)
  artnum := order.hton 4 (token.getWord order 4 4)
  file := (tokenPath order width hash patharticles t map token now mtime).getD []

/-- The number of a newsgroup in the map: that of its entry, or the next one. -/
def mapNumber (t : Spool) (ng : Name) : ℕ :=
  match FindNGByName hash t ng with
  | some ngtp => ngtp.ngnumber
  | none => (t.MaxNgNumber + 1) % 2 ^ 64

end Code

/-! ## The numbers -/

section Numbers

variable {order : ByteOrder} {width num artnum : ℕ} {cls : UInt8}

/-- The first two readers. -/
theorem numbers_fillToken (hwidth : width = 4 ∨ width = 8) :
    numbers order width (fillToken order width num artnum cls) =
      ⟨num % 2 ^ 32, artnum % 2 ^ 32⟩ := by
  have hle : width + width ≤ 16 := by omega
  have hlt (n : ℕ) : order.hton 4 n < 2 ^ 32 := order.hton_lt 4 n
  have hfits (n : ℕ) : order.hton 4 n < 256 ^ width :=
    Nat.lt_of_lt_of_le (order.hton_lt 4 n) (Nat.pow_le_pow_right (by decide) (by omega))
  have hback (n : ℕ) : order.hton 4 (order.hton 4 (n % 2 ^ 32)) = n % 2 ^ 32 :=
    order.hton_hton (Nat.mod_lt n (by decide))
  rw [numbers, fillToken]
  dsimp only
  rw [getWord_putWord_of_disjoint (by omega) (.inl (by omega)),
    getWord_putWord_self (by omega) (hfits _), getWord_putWord_self hle (hfits _),
    Nat.mod_eq_of_lt (hlt _), Nat.mod_eq_of_lt (hlt _), hback, hback]

/-- The third reader, where `unsigned long` has four bytes. -/
theorem explained_four :
    order.hton 4 ((fillToken order 4 num artnum cls).getWord order 4 0) = num % 2 ^ 32 ∧
      order.hton 4 ((fillToken order 4 num artnum cls).getWord order 4 4) = artnum % 2 ^ 32 := by
  have hback (n : ℕ) : order.hton 4 (order.hton 4 (n % 2 ^ 32)) = n % 2 ^ 32 :=
    order.hton_hton (Nat.mod_lt n (by decide))
  rw [fillToken]
  dsimp only
  rw [getWord_putWord_of_disjoint (by decide) (by decide),
    getWord_putWord_self (by decide) (order.hton_lt 4 _),
    getWord_putWord_self (by decide) (order.hton_lt 4 _), hback, hback]
  exact ⟨rfl, rfl⟩

/-- The third reader, where it has eight: both numbers are in the bytes of the newsgroup's. -/
theorem explained_eight :
    (order = .little →
      order.hton 4 ((fillToken order 8 num artnum cls).getWord order 4 0) = num % 2 ^ 32 ∧
        order.hton 4 ((fillToken order 8 num artnum cls).getWord order 4 4) = 0) ∧
    (order = .big →
      order.hton 4 ((fillToken order 8 num artnum cls).getWord order 4 0) = 0 ∧
        order.hton 4 ((fillToken order 8 num artnum cls).getWord order 4 4) = num % 2 ^ 32) := by
  have hlt := order.hton_lt 4 (num % 2 ^ 32)
  have hback : order.hton 4 (order.hton 4 (num % 2 ^ 32)) = num % 2 ^ 32 :=
    order.hton_hton (Nat.mod_lt num (by decide))
  have hzero : order.hton 4 0 = 0 := by cases order <;> rfl
  have hread (v : ℕ) (hv : v < 256 ^ 4) : order.number (order.bytes 4 v) = v :=
    ByteOrder.number_bytes hv
  generalize htoken : fillToken order 8 num artnum cls = token
  -- the first eight bytes are those of the newsgroup's number
  have hbytes : token.get 0 4 ++ token.get 4 4 =
      order.bytes (4 + 4) (order.hton 4 (num % 2 ^ 32)) := by
    rw [← get_add token 0 4 4, ← htoken, fillToken]
    dsimp only
    rw [Storage.TOKEN.putWord, get_put_of_disjoint (by decide) (.inl (by decide))]
    exact get_putWord_self (by decide)
  rw [ByteOrder.bytes_double hlt] at hbytes
  have hlen : (token.get 0 4).length = 4 := length_get (by decide)
  constructor
  · intro ho
    rw [if_pos ho] at hbytes
    obtain ⟨hlow, hhigh⟩ := List.append_inj hbytes (by rw [hlen, ByteOrder.length_bytes])
    rw [Storage.TOKEN.getWord, Storage.TOKEN.getWord, hlow, hhigh, hread _ hlt,
      hread 0 (by decide), hback, hzero]
    exact ⟨rfl, rfl⟩
  · intro ho
    rw [if_neg (by rw [ho]; decide)] at hbytes
    obtain ⟨hlow, hhigh⟩ := List.append_inj hbytes (by rw [hlen, ByteOrder.length_bytes])
    rw [Storage.TOKEN.getWord, Storage.TOKEN.getWord, hlow, hhigh, hread _ hlt,
      hread 0 (by decide), hback, hzero]
    exact ⟨rfl, rfl⟩

end Numbers

/-! ## The newsgroup -/

section Newsgroups

variable {hash : Name → Fin NGT_SIZE} {t : Spool} {map : List NGTENT} {p : Name} {n : ℕ}

/-- A number that leads to a name keeps it. -/
theorem findNGByNum_addNG (h : FindNGByNum t n = some p) (ng : Name) (number : ℕ) :
    FindNGByNum (AddNG hash t ng number) n = some p := by
  rw [AddNG]
  dsimp only
  cases t.lookup hash (DeDotify ng) with
  | some e => exact h
  | none =>
    obtain ⟨e, he, hp⟩ := Option.map_eq_some_iff.mp h
    rw [FindNGByNum]
    dsimp only
    generalize hkey : (if number = 0 then _ else number) = key
    rw [SearchTree.find_insert]
    by_cases hn : key = n
    · rw [if_pos hn, hn, he, Option.getD_some, Option.map_some, hp]
    · rw [if_neg hn, he, Option.map_some, hp]

theorem findNGByNum_readDBFile (h : FindNGByNum t n = some p) (map : List NGTENT) :
    FindNGByNum (ReadDBFile hash t map) n = some p := by
  rw [ReadDBFile]
  induction map generalizing t with
  | nil => exact h
  | cons line map ih => exact ih (findNGByNum_addNG h line.ngname line.ngnumber)

theorem findNGByNum_check (h : FindNGByNum t n = some p) (map : List NGTENT) (force : Bool)
    (now mtime : ℕ) : FindNGByNum (CheckNeedReloadDB hash t map force now mtime) n = some p := by
  rw [CheckNeedReloadDB]
  split
  · exact h
  · split
    · exact findNGByNum_readDBFile (t := { t with lastcheck := now }) h map
    · exact h

/-- A token whose number leads to a name. -/
theorem tokenToPath_found {token : TOKEN} (h : FindNGByNum t token.ngnum = some p) (now mtime : ℕ) :
    (TokenToPath hash t map token now mtime).1 = some (p, token.artnum) := by
  rw [TokenToPath]
  dsimp only
  rw [findNGByNum_check h]

theorem findNGByName_dumpDB (map : List NGTENT) (ng : Name) :
    FindNGByName hash (DumpDB t map).2 ng = FindNGByName hash t ng := by
  rw [DumpDB]
  split <;> rfl

theorem findNGByNum_dumpDB (map : List NGTENT) (n : ℕ) :
    FindNGByNum (DumpDB t map).2 n = FindNGByNum t n := by
  rw [DumpDB]
  split <;> rfl

/-- `MakeToken` fills in the number of the newsgroup, which leads to its name from then on. -/
theorem makeToken_spec {order : ByteOrder} {width : ℕ} (hs : Sound hash t) (hb : t.Below)
    (hmax : t.MaxNgNumber < 2 ^ 64) (map : List NGTENT) (ng : Name) (artnum : ℕ) (cls : UInt8) :
    ∃ t' map', MakeToken order width hash t map ng artnum cls =
        some (fillToken order width (mapNumber hash t ng) artnum cls, t', map') ∧
      FindNGByNum t' (mapNumber hash t ng) = some (DeDotify ng) := by
  cases hfind : FindNGByName hash t ng with
  | some e =>
    obtain ⟨he, hp⟩ := hs.lookup_iff.mp hfind
    refine ⟨t, map, ?_⟩
    simp only [MakeToken, mapNumber, hfind, true_and]
    rw [hs.findNGByNum he, hp]
  | none =>
    have hnew := hs.lookup_none.mp hfind
    have hfree : ∀ e ∈ t.entries, e.ngnumber ≠ (t.MaxNgNumber + 1) % 2 ^ 64 := by
      intro e he
      have := hb e he
      omega
    obtain ⟨hs', hmem, -⟩ := @addNG_new hash t ng 0 hs hnew ((t.MaxNgNumber + 1) % 2 ^ 64) rfl hfree
    have he := (hmem _).mpr (.inr rfl)
    have hname : FindNGByName hash (AddNG hash t ng 0) ng =
        some ⟨DeDotify ng, (t.MaxNgNumber + 1) % 2 ^ 64⟩ := hs'.lookup_iff.mpr ⟨he, rfl⟩
    refine ⟨(DumpDB (AddNG hash t ng 0) map).2, (DumpDB (AddNG hash t ng 0) map).1, ?_⟩
    simp only [MakeToken, mapNumber, hfind, findNGByName_dumpDB, hname, Option.map_some, true_and]
    rw [findNGByNum_dumpDB, hs'.findNGByNum he]

end Newsgroups

/-! ## What the readers make of a token -/

section Readers

variable (order : ByteOrder) (width : ℕ) (hash : Name → Fin NGT_SIZE)

/-- The path and the answer of `tradspool_ctl` are those of the article. -/
def LeadsToArticle (t : Spool) (token : Storage.TOKEN) (ng : Newsgroup) (artnum : ℕ) : Prop :=
  ∀ patharticles map now mtime,
    tokenPath order width hash patharticles t map token now mtime =
        some (patharticles ++ 47 :: ((DeDotify ng.name).1 ++ 47 :: printed artnum)) ∧
      tradspool_ctl order width hash t map token now mtime = some (ng.name.1, artnum)

/-- `tradspool_explaintoken` prints the two numbers. -/
def PrintsNumbers (t : Spool) (token : Storage.TOKEN) (num artnum : ℕ) : Prop :=
  ∀ patharticles map now mtime,
    (tradspool_explaintoken order width hash patharticles t map token now mtime).ngnum = num ∧
      (tradspool_explaintoken order width hash patharticles t map token now mtime).artnum = artnum

/-- The token that `MakeToken` makes is read as what it was made of. -/
def ReadsBack (t : Spool) (map : List NGTENT) (ng : Newsgroup) (artnum : ℕ) (cls : UInt8) : Prop :=
  ∃ token t' map', MakeToken order width hash t map ng.name artnum cls = some (token, t', map') ∧
    LeadsToArticle order width hash t' token ng artnum ∧
    PrintsNumbers order width hash t' token (mapNumber hash t ng.name) artnum

variable {order width hash} {t : Spool} {ng : Newsgroup} {num artnum : ℕ} {cls : UInt8}

/-- The slashes become dots again. -/
theorem dots_DeDotify (ng : Newsgroup) :
    ((DeDotify ng.name).1.map fun b => if b = 47 then 46 else b) = ng.name.1 := by
  rw [DeDotify, List.map_map]
  refine (List.map_congr_left fun b hb => ?_).trans (List.map_id _)
  have hne : b ≠ 47 := fun h => ng.noSlash (h ▸ hb)
  rw [Function.comp_apply, id_eq]
  unfold deDot
  by_cases h : b = 46
  · rw [if_pos h, if_pos rfl, h]
  · rw [if_neg h, if_neg hne]

theorem leadsToArticle (hwidth : width = 4 ∨ width = 8) (hnum : num < 2 ^ 32)
    (hart : artnum < 2 ^ 31) (h : FindNGByNum t num = some (DeDotify ng.name)) :
    LeadsToArticle order width hash t (fillToken order width num artnum cls) ng artnum := by
  intro patharticles map now mtime
  have hnumbers := @numbers_fillToken order width num artnum cls hwidth
  rw [Nat.mod_eq_of_lt hnum, Nat.mod_eq_of_lt (show artnum < 2 ^ 32 by omega)] at hnumbers
  have hfound := @tokenToPath_found hash t map (DeDotify ng.name) ⟨num, artnum⟩ h now mtime
  rw [tokenPath, tradspool_ctl, hnumbers, hfound, Option.map_some, Option.map_some]
  dsimp only
  rw [dots_DeDotify ng]
  exact ⟨rfl, rfl⟩

theorem printsNumbers_iff (hwidth : width = 4 ∨ width = 8) (hart : artnum < 2 ^ 31) :
    PrintsNumbers order width hash t (fillToken order width num artnum cls) num artnum ↔
      num < 2 ^ 32 ∧ (width = 4 ∨ order = .little ∧ artnum = 0 ∨
        order = .big ∧ num = 0 ∧ artnum = 0) := by
  have hforall :
      PrintsNumbers order width hash t (fillToken order width num artnum cls) num artnum ↔
      order.hton 4 ((fillToken order width num artnum cls).getWord order 4 0) = num ∧
        order.hton 4 ((fillToken order width num artnum cls).getWord order 4 4) = artnum :=
    ⟨fun h => h [] [] 0 0, fun h _ _ _ _ => h⟩
  have hart' : artnum % 2 ^ 32 = artnum := Nat.mod_eq_of_lt (by omega)
  have hnum : num % 2 ^ 32 = num ↔ num < 2 ^ 32 := by omega
  rw [hforall]
  rcases hwidth with rfl | rfl
  · obtain ⟨hng, hartnum⟩ := @explained_four order num artnum cls
    rw [hng, hartnum, hart', hnum]
    simp
  · obtain ⟨hlittle, hbig⟩ := @explained_eight order num artnum cls
    cases order with
    | little =>
      obtain ⟨hng, hartnum⟩ := hlittle rfl
      rw [hng, hartnum, hnum]
      simp [eq_comm]
    | big =>
      obtain ⟨hng, hartnum⟩ := hbig rfl
      rw [hng, hartnum]
      simp
      omega

/-- The token is the one that the number of the newsgroup was filled into. -/
theorem ReadsBack.prints {map : List NGTENT} (hs : Sound hash t) (hb : t.Below)
    (hmax : t.MaxNgNumber < 2 ^ 64) (h : ReadsBack order width hash t map ng artnum cls) :
    ∃ t', PrintsNumbers order width hash t'
      (fillToken order width (mapNumber hash t ng.name) artnum cls) (mapNumber hash t ng.name)
      artnum := by
  obtain ⟨token, t', map', hmade, -, hprint⟩ := h
  obtain ⟨u, map'', hmake, -⟩ :=
    @makeToken_spec hash t order width hs hb hmax map ng.name artnum cls
  obtain ⟨rfl, -⟩ := Prod.mk.inj (Option.some_inj.mp (hmake.symm.trans hmade))
  exact ⟨t', hprint⟩

/-- A token is read as what it was made of where the number of the newsgroup has 32 bits and
`unsigned long` as many; with more only where the number that is not printed is zero. -/
theorem readsBack_iff (hwidth : width = 4 ∨ width = 8) (hs : Sound hash t) (hb : t.Below)
    (hmax : t.MaxNgNumber < 2 ^ 64) (map : List NGTENT) (hart : artnum < 2 ^ 31) :
    ReadsBack order width hash t map ng artnum cls ↔
      mapNumber hash t ng.name < 2 ^ 32 ∧ (width = 4 ∨ order = .little ∧ artnum = 0 ∨
        order = .big ∧ mapNumber hash t ng.name = 0 ∧ artnum = 0) := by
  constructor
  · intro h
    obtain ⟨t', hprint⟩ := h.prints hs hb hmax
    exact (printsNumbers_iff hwidth hart).mp hprint
  · intro h
    obtain ⟨t', map', hmake, hfind⟩ :=
      @makeToken_spec hash t order width hs hb hmax map ng.name artnum cls
    exact ⟨_, t', map', hmake, leadsToArticle hwidth h.1 hart hfind,
      (printsNumbers_iff hwidth hart).mpr h⟩

/-- The first chain for each name. -/
def firstChain (_ : Name) : Fin NGT_SIZE := ⟨0, by unfold NGT_SIZE; decide⟩

/-- A newsgroup of one letter. -/
def groupA : Newsgroup := ⟨⟨[97], by simp⟩, by simp⟩

theorem readsBack_new : ReadsBack .big 4 firstChain Spool.new [] groupA 5 0 :=
  (readsBack_iff (.inl rfl) sound_new (fun e he => absurd he (not_mem_new e)) (by decide) []
    (by decide)).mpr ⟨by decide, .inl rfl⟩

/-- The first article of a newsgroup: with eight bytes its number is printed as zero. -/
theorem number_not_printed : ¬ ReadsBack .little 8 firstChain Spool.new [] groupA 5 0 := by
  intro h
  obtain ⟨t', hprint⟩ := h.prints sound_new (fun e he => absurd he (not_mem_new e)) (by decide)
  obtain ⟨-, hwidth | ⟨-, hart⟩ | ⟨horder, -⟩⟩ :=
    (printsNumbers_iff (.inr rfl) (by decide)).mp hprint
  · exact absurd hwidth (by decide)
  · exact absurd hart (by decide)
  · exact absurd horder nofun

end Readers

end Inn.Tradspool
