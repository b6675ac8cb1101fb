import Inn.Decimal
import Inn.Ovsqlite.Database

/-!
# Inn.Ovsqlite.Flate — how overview data is stored

With compression, the overview of an article is stored behind its length, written in one
to five bytes, or unpacked behind a length of zero where deflating saves nothing. The
server and the direct reader each have their own function for reading it back.

* `packLength`, `unpackLength` — the length in front (`pack_length`, `unpack_length` and
  `reader_unpack_length`);
* `storeOverview` — the stored form (in `do_add_article`);
* `loadOverview`, `readerOverview` — the data of a row (in `do_search_group`, and in
  `reader_decompress` with the checks of its caller).

zlib is a parameter, a `Zlib`.
-/

namespace Inn.Ovsqlite

/-- `MAX_OVDATA_SIZE`. -/
def MAX_OVDATA_SIZE : ℕ := 100000

/-! ## The length in front -/

/-- `pack_length_bias`, by the number of bytes. -/
def packLengthBias (lenlen : ℕ) : ℕ := [0, 0x80, 0x4080, 0x204080, 0x10204080].getD (lenlen - 1) 0

/-- The number of bytes for a length. -/
def lengthLength (length : ℕ) : ℕ :=
  ([2, 3, 4, 5].takeWhile fun lenlen => packLengthBias lenlen ≤ length).length + 1

/-- The bytes behind the first, the last one written first, and what is left for the first. -/
def packTail : ℕ → ℕ → List UInt8 → ℕ × List UInt8
  | 0, length, walk => (length, walk)
  | n + 1, length, walk => packTail n (length / 256) (UInt8.ofNat length :: walk)

/-- The first byte: as many ones as there are bytes behind it, a zero, and the top of the
length. -/
def packFirst (lenlen length : ℕ) : UInt8 := UInt8.ofNat (length ||| (256 - 2 ^ (9 - lenlen)))

/-- `pack_length`. -/
def packLength (length : ℕ) : List UInt8 :=
  let lenlen := lengthLength length
  let tail := packTail (lenlen - 1) (length - packLengthBias lenlen) []
  packFirst lenlen tail.1 :: tail.2

/-- The number of bytes that a first byte announces: the ones in front, and one. With
eight ones the loop of the source shifts by a negative count; any number above 5 serves. -/
def announced (c : UInt8) : ℕ :=
  ((List.range 8).takeWhile fun i => c.toNat.testBit (7 - i)).length + 1

/-- `unpack_length` on input that is not empty, and `reader_unpack_length`: the length
and the input left; `~0U`, with nothing consumed, for bytes that hold none. -/
def unpackLength (input : List UInt8) : ℕ × List UInt8 :=
  match input with
  | [] => (2 ^ 32 - 1, input)
  | c :: walk =>
    let lenlen := announced c
    if 5 < lenlen ∨ walk.length + 1 < lenlen then (2 ^ 32 - 1, input)
    else
      let length := (walk.take (lenlen - 1)).foldl (fun length b => length * 256 + b.toNat)
        (c.toNat % 2 ^ (8 - lenlen))
      ((length + packLengthBias lenlen) % 2 ^ 32, walk.drop (lenlen - 1))

/-! ## zlib -/

/-- The results of `inflate` that the code tells apart. -/
inductive Status where
  | streamEnd
  | needDict
  | other
deriving DecidableEq, Repr

/-- A call of `inflate`: its status, what it wrote, the input left and the state left. -/
structure Inflated (Stream : Type*) where
  status : Status
  out : List UInt8
  input : List UInt8
  stream : Stream

/-- What the code uses of zlib. `deflate`, after `deflateSetDictionary` where there is a
dictionary, finishes a stream in the given space or does not (`none`). `fresh` is the
state that `inflateInit` and `inflateReset` leave. -/
structure Zlib (Stream : Type*) where
  deflate : Option (List UInt8) → List UInt8 → ℕ → Option (List UInt8)
  fresh : Stream
  inflate : Stream → List UInt8 → ℕ → Inflated Stream
  inflateSetDictionary : Stream → List UInt8 → Option Stream

variable {Stream : Type*}

/-- `inflate` with `Z_FINISH`, and again behind the dictionary if it asks for one. -/
def Zlib.inflateAll (z : Zlib Stream) (dict : Option (List UInt8)) (stream : Stream)
    (input : List UInt8) (room : ℕ) : Inflated Stream :=
  let r := z.inflate stream input room
  match r.status, dict with
  | .needDict, some dict =>
    match z.inflateSetDictionary r.stream dict with
    | none => { r with status := .other }
    | some stream =>
      let r' := z.inflate stream r.input (room - r.out.length)
      { r' with out := r.out ++ r'.out }
  | _, _ => r

/-- What zlib documents: a stream that deflating finished fits the space it was given,
and inflating it under the same dictionary gives the data back. -/
structure Zlib.Undoes (z : Zlib Stream) : Prop where
  fits : ∀ dict data room out, z.deflate dict data room = some out → out.length ≤ room
  inflates : ∀ dict data room out, z.deflate dict data room = some out →
    (z.inflateAll dict z.fresh out data.length).status = .streamEnd ∧
    (z.inflateAll dict z.fresh out data.length).out = data

/-! ## The stored form -/

/-- How the overview is stored: whether it is compressed, and the dictionary all
articles share, if the program was built to use one. -/
structure Compression (Stream : Type*) where
  zlib : Zlib Stream
  useCompression : Bool
  basedict : Option (List UInt8)

/-- A database set up without compression. -/
def uncompressed : Compression Unit where
  zlib :=
    { deflate := fun _ _ _ => none
      fresh := ()
      inflate := fun _ input _ => ⟨.other, [], input, ()⟩
      inflateSetDictionary := fun _ _ => none }
  useCompression := false
  basedict := none

variable (c : Compression Stream)

/-- `make_dict`, `reader_make_dict`: the dictionary of an article, in a buffer of
0x8000 bytes. -/
def makeDict (groupname : List UInt8) (artnum : ℕ) : Option (List UInt8) :=
  c.basedict.map fun basedict => basedict ++
    (groupname.takeWhile (· ≠ 0) ++ [0x3a] ++ printed artnum ++ [0x0d, 0x0a]).take
      (0x8000 - basedict.length - 1)

/-- The overview as `do_add_article` stores it. -/
def storeOverview (groupname : List UInt8) (artnum : ℕ) (overview : List UInt8) : List UInt8 :=
  if c.useCompression ∧ 5 < overview.length then
    let length := packLength overview.length
    match c.zlib.deflate (makeDict c groupname artnum) overview
        (overview.length - length.length) with
    | some out => length ++ out
    | none => 0 :: overview
  else overview

/-- The overview of a row in `do_search_group`; `none`: the row is corrupted. -/
def loadOverview (groupname : List UInt8) (artnum : ℕ) (overview : List UInt8) :
    Option (List UInt8) :=
  -- SQLite gives a null pointer for a blob of no bytes
  if overview = [] ∨ MAX_OVDATA_SIZE < overview.length then none
  else if c.useCompression then
    let (rawLen, input) := unpackLength overview
    if MAX_OVDATA_SIZE < rawLen then none
    else if 0 < rawLen then
      let r := c.zlib.inflateAll (makeDict c groupname artnum) c.zlib.fresh input rawLen
      if r.status ≠ .streamEnd ∨ r.out.length < rawLen then none else some r.out
    else some (overview.drop 1)
  else some overview

/-- The overview of a row in `fill_search_buffer_direct`, and the state that the stream
`reader_inflation` is left in: it is not reset when the row does not inflate. -/
def readerOverview (groupname : List UInt8) (artnum : ℕ) (stream : Stream)
    (overview : List UInt8) : Option (List UInt8) × Stream :=
  if overview = [] ∨ MAX_OVDATA_SIZE < overview.length then (none, stream)
  else if c.useCompression then
    let (rawLen, input) := unpackLength overview
    if MAX_OVDATA_SIZE < rawLen then (none, stream)
    else if 0 < rawLen then
      let r := c.zlib.inflateAll (makeDict c groupname artnum) stream input rawLen
      if r.status ≠ .streamEnd ∨ r.out.length < rawLen then (none, r.stream)
      else (some r.out, c.zlib.fresh)
    else (some input, stream)
  else (some overview, stream)

/-! ## The length is read back -/

theorem packTail_fst (n length : ℕ) (walk : List UInt8) :
    (packTail n length walk).1 = length / 256 ^ n := by
  induction n generalizing length walk with
  | zero =>
    rw [pow_zero, Nat.div_one]
    rfl
  | succ n ih =>
    change (packTail n (length / 256) _).1 = _
    rw [ih, Nat.div_div_eq_div_mul, pow_succ']

theorem length_packTail (n length : ℕ) (walk : List UInt8) :
    (packTail n length walk).2.length = n + walk.length := by
  induction n generalizing length walk with
  | zero => exact (Nat.zero_add _).symm
  | succ n ih =>
    change (packTail n (length / 256) _).2.length = _
    rw [ih, List.length_cons]
    omega

/-- Reading the bytes behind what is left for the first gives the length again. -/
theorem foldl_packTail (n length : ℕ) (walk : List UInt8) :
    (packTail n length walk).2.foldl (fun length b => length * 256 + b.toNat)
      (packTail n length walk).1 = walk.foldl (fun length b => length * 256 + b.toNat) length := by
  induction n generalizing length walk with
  | zero => rfl
  | succ n ih =>
    change (packTail n (length / 256) _).2.foldl _ (packTail n (length / 256) _).1 = _
    rw [ih, List.foldl_cons, UInt8.toNat_ofNat']
    congr 1
    omega

theorem lengthLength_eq (length : ℕ) : lengthLength length =
    if length < 0x80 then 1 else if length < 0x4080 then 2 else if length < 0x204080 then 3
    else if length < 0x10204080 then 4 else 5 := by
  have h2 : packLengthBias 2 = 0x80 := rfl
  have h3 : packLengthBias 3 = 0x4080 := rfl
  have h4 : packLengthBias 4 = 0x204080 := rfl
  have h5 : packLengthBias 5 = 0x10204080 := rfl
  unfold lengthLength
  simp only [List.takeWhile_cons, List.takeWhile_nil, h2, h3, h4, h5]
  by_cases c2 : length < 0x80
  · simp [c2]
  by_cases c3 : length < 0x4080
  · simp [c2, c3, Nat.not_lt.mp c2]
  by_cases c4 : length < 0x204080
  · simp [c2, c3, c4, Nat.not_lt.mp c2, Nat.not_lt.mp c3]
  by_cases c5 : length < 0x10204080
  · simp [c2, c3, c4, c5, Nat.not_lt.mp c2, Nat.not_lt.mp c3, Nat.not_lt.mp c4]
  · simp [c2, c3, c4, c5, Nat.not_lt.mp c2, Nat.not_lt.mp c3, Nat.not_lt.mp c4, Nat.not_lt.mp c5]

/-- A length has from one to five bytes, and what is left for the first fits it. -/
theorem lengthLength_spec {length : ℕ} (h : length < 2 ^ 32) :
    lengthLength length ∈ [1, 2, 3, 4, 5] ∧ packLengthBias (lengthLength length) ≤ length ∧
    (length - packLengthBias (lengthLength length)) / 256 ^ (lengthLength length - 1) <
      2 ^ (8 - lengthLength length) := by
  rw [lengthLength_eq]
  split_ifs <;> refine ⟨by decide, ?_, ?_⟩ <;> simp only [packLengthBias, List.getD_cons_zero,
    List.getD_cons_succ, Nat.sub_self, Nat.reduceSub] <;> omega

/-- The first byte tells the number of bytes, and keeps the top of the length. -/
theorem packFirst_spec : ∀ lenlen ∈ [1, 2, 3, 4, 5], ∀ top < 2 ^ (8 - lenlen),
    announced (packFirst lenlen top) = lenlen ∧
    (packFirst lenlen top).toNat % 2 ^ (8 - lenlen) = top := by
  decide

/-- Both unpackers read back what `pack_length` has written, whatever follows. -/
theorem unpackLength_packLength {length : ℕ} (h : length < 2 ^ 32) (input : List UInt8) :
    unpackLength (packLength length ++ input) = (length, input) := by
  obtain ⟨hmem, hbias, htop⟩ := lengthLength_spec h
  have hpack : packLength length = packFirst (lengthLength length) (packTail (lengthLength length - 1)
      (length - packLengthBias (lengthLength length)) []).1 :: (packTail (lengthLength length - 1)
      (length - packLengthBias (lengthLength length)) []).2 := rfl
  generalize lengthLength length = lenlen at *
  have hlen := length_packTail (lenlen - 1) (length - packLengthBias lenlen) []
  have hfold := foldl_packTail (lenlen - 1) (length - packLengthBias lenlen) []
  have hfst := packTail_fst (lenlen - 1) (length - packLengthBias lenlen) []
  generalize packTail (lenlen - 1) (length - packLengthBias lenlen) [] = tail at *
  rw [hfst] at hfold hpack
  obtain ⟨hann, hmod⟩ := packFirst_spec lenlen hmem _ htop
  have hle : 1 ≤ lenlen ∧ lenlen ≤ 5 := by
    simp only [List.mem_cons, List.not_mem_nil, or_false] at hmem
    omega
  rw [hpack, List.cons_append]
  unfold unpackLength
  simp only [hann, hmod]
  rw [if_neg, List.take_append_of_le_length (by rw [hlen]; exact le_rfl),
    List.drop_append_of_le_length (by rw [hlen]; exact le_rfl),
    List.take_of_length_le (by rw [hlen]; exact le_rfl),
    List.drop_of_length_le (by rw [hlen]; exact le_rfl), hfold, List.foldl_nil]
  · rw [Nat.sub_add_cancel hbias, Nat.mod_eq_of_lt h]
    rfl
  · rw [List.length_append, hlen, List.length_nil]
    omega

theorem length_packLength {length : ℕ} (h : length < 2 ^ 32) : (packLength length).length ≤ 5 := by
  obtain ⟨hmem, -, -⟩ := lengthLength_spec h
  have hlen := length_packTail (lengthLength length - 1)
    (length - packLengthBias (lengthLength length)) []
  simp only [List.mem_cons, List.not_mem_nil, or_false] at hmem
  unfold packLength
  rw [List.length_cons, hlen, List.length_nil]
  omega

/-! ## The data is read back -/

/-- The overview data that can be read back: there is some, it is longer than five bytes
if it may be compressed, and data of the largest size does get smaller. -/
def Kept (groupname : List UInt8) (artnum : ℕ) (data : List UInt8) : Prop :=
  data ≠ [] ∧ data.length ≤ MAX_OVDATA_SIZE ∧ (c.useCompression = true → 5 < data.length ∧
    (data.length = MAX_OVDATA_SIZE → c.zlib.deflate (makeDict c groupname artnum) data
      (data.length - (packLength data.length).length) ≠ none))

variable {c} {groupname data : List UInt8} {artnum : ℕ}

/-- What `storeOverview` leaves in the database, for data that can be read back. -/
theorem Kept.cases (h : Kept c groupname artnum data) :
    (c.useCompression = false ∧ storeOverview c groupname artnum data = data) ∨
    (c.useCompression = true ∧ ∃ out, c.zlib.deflate (makeDict c groupname artnum) data
      (data.length - (packLength data.length).length) = some out ∧
      storeOverview c groupname artnum data = packLength data.length ++ out) ∨
    (c.useCompression = true ∧ data.length < MAX_OVDATA_SIZE ∧
      storeOverview c groupname artnum data = 0 :: data) := by
  obtain ⟨-, hmax, hcomp⟩ := h
  cases hc : c.useCompression with
  | false =>
    left
    refine ⟨rfl, ?_⟩
    simp [storeOverview, hc]
  | true =>
    right
    obtain ⟨hfive, hlarge⟩ := hcomp hc
    unfold storeOverview
    rw [if_pos ⟨hc, hfive⟩]
    cases hdef : c.zlib.deflate (makeDict c groupname artnum) data
        (data.length - (packLength data.length).length) with
    | some out => exact .inl ⟨rfl, out, rfl, by simp only [hdef]⟩
    | none =>
      right
      refine ⟨rfl, lt_of_le_of_ne hmax fun heq => hlarge heq hdef, ?_⟩
      simp only [hdef]

theorem packLength_ne_nil (length : ℕ) : packLength length ≠ [] := by
  unfold packLength
  exact List.cons_ne_nil _ _

theorem unpackLength_zero (input : List UInt8) : unpackLength (0 :: input) = (0, input) :=
  @unpackLength_packLength 0 (by decide) input

/-- The stored form of the data is not empty and not too long to be read. -/
theorem Kept.length_store (h : Kept c groupname artnum data) (hz : c.zlib.Undoes) :
    ¬ (storeOverview c groupname artnum data = [] ∨
      MAX_OVDATA_SIZE < (storeOverview c groupname artnum data).length) := by
  rcases h.cases with ⟨-, hst⟩ | ⟨hc, out, hdef, hst⟩ | ⟨-, hlt, hst⟩
  · rw [hst]
    exact not_or.mpr ⟨h.1, Nat.not_lt.mpr h.2.1⟩
  · have hfit := hz.fits _ _ _ _ hdef
    have hfive := (h.2.2 hc).1
    have hlen : (packLength data.length).length ≤ 5 :=
      length_packLength (h.2.1.trans_lt (by decide))
    rw [hst, List.length_append]
    refine not_or.mpr ⟨fun hnil => ?_, ?_⟩
    · exact packLength_ne_nil _ (List.append_eq_nil_iff.mp hnil).1
    · have hmax := h.2.1
      omega
  · rw [hst, List.length_cons]
    exact not_or.mpr ⟨List.cons_ne_nil _ _, by omega⟩

/-- The server reads back the data of a row. -/
theorem loadOverview_storeOverview (h : Kept c groupname artnum data) (hz : c.zlib.Undoes) :
    loadOverview c groupname artnum (storeOverview c groupname artnum data) = some data := by
  unfold loadOverview
  rw [if_neg (h.length_store hz)]
  have hmax := h.2.1
  rcases h.cases with ⟨hc, hst⟩ | ⟨hc, out, hdef, hst⟩ | ⟨hc, -, hst⟩
  · rw [hc, hst]
    rfl
  · obtain ⟨hstatus, hout⟩ := hz.inflates _ _ _ _ hdef
    have hpos : 0 < data.length := List.length_pos_iff.mpr h.1
    rw [hst, if_pos hc, unpackLength_packLength (hmax.trans_lt (by decide))]
    simp only [hstatus, hout]
    rw [if_neg (Nat.not_lt.mpr hmax), if_pos hpos]
    simp
  · rw [hst, if_pos hc, unpackLength_zero]
    rfl

/-- So does the direct reader, and leaves its stream as it was. -/
theorem readerOverview_storeOverview (h : Kept c groupname artnum data) (hz : c.zlib.Undoes) :
    readerOverview c groupname artnum c.zlib.fresh (storeOverview c groupname artnum data) =
      (some data, c.zlib.fresh) := by
  unfold readerOverview
  rw [if_neg (h.length_store hz)]
  have hmax := h.2.1
  rcases h.cases with ⟨hc, hst⟩ | ⟨hc, out, hdef, hst⟩ | ⟨hc, -, hst⟩
  · rw [hc, hst]
    rfl
  · obtain ⟨hstatus, hout⟩ := hz.inflates _ _ _ _ hdef
    have hpos : 0 < data.length := List.length_pos_iff.mpr h.1
    rw [hst, if_pos hc, unpackLength_packLength (hmax.trans_lt (by decide))]
    simp only [hstatus, hout]
    rw [if_neg (Nat.not_lt.mpr hmax), if_pos hpos]
    simp
  · rw [hst, if_pos hc, unpackLength_zero]
    rfl

end Inn.Ovsqlite
