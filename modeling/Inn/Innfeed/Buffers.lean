import Inn.Dlist
import Inn.Innfeed.Buffer
import Inn.Rules
import Mathlib.Algebra.BigOperators.Group.List.Basic
import Mathlib.Algebra.Order.Group.Nat

/-!
# Inn.Innfeed.Buffers — reference counts, sizes and contents of buffers

The structures come from a pool and go back to it, and those that are in use are on a doubly linked
list. Callers take and delete references, fill buffers, and change their sizes.

* `Sound` — the list, the counts and the sizes are right;
* `Right` — a call does to the contents what it is for;
* `buffers_right` — calls that are right, and those that are not;
* `concat_not_appended` — a short buffer, and a long one behind it.
-/

namespace Inn.Innfeed.Buffers

open Function (update update_self update_of_ne)

/-! ## The code -/

/-- A number as an `unsigned int`. -/
def unsigned (n : ℤ) : ℕ := (n % 2 ^ 32).toNat

/-- The structures and the globals. A structure goes by its number; the list of the free ones stands
for their `next`. -/
structure Table where
  buffer : ℕ → Buffer
  refCount : ℕ → ℤ
  next : ℕ → Option ℕ
  prev : ℕ → Option ℕ
  gBufferList : Option ℕ
  bufferPool : List ℕ
  bufferCount : ℕ
  bufferByteCount : ℕ
  /-- The structures that `fillBufferPool` has allocated. -/
  allocated : ℕ

/-- A structure has 72 bytes. -/
def BUFFER_POOL_SIZE : ℕ := (4096 - 2 * 8) / 72

/-- `memcpy`, to a place in the allocation. -/
def memcpy (dest : List UInt8) (pos : ℕ) (src : List UInt8) (n : ℕ) : Option (List UInt8) :=
  if n ≤ src.length ∧ pos + n ≤ dest.length then
    some (dest.take pos ++ (src.take n ++ dest.drop (pos + n)))
  else none

def bufferSetDataSize (buff : Buffer) (size : ℕ) : Option Buffer :=
  if size ≤ buff.memSize then some { buff with dataSize := size } else none

def bufferIncrDataSize (buff : Buffer) (size : ℕ) : Option Buffer :=
  if (buff.dataSize + size) % 2 ^ 64 > buff.memSize then none
  else some { buff with dataSize := (buff.dataSize + size) % 2 ^ 64 }

def bufferDecrDataSize (buff : Buffer) (size : ℕ) : Option Buffer :=
  if size > buff.dataSize then some { buff with dataSize := size_t (buff.dataSize - size : ℤ) }
  else none

/-- The new memory of `concatBuffer`, when `n` bytes are too many. -/
def grow (dest : Buffer) (n : ℕ) : Option Buffer :=
  if n > dest.memSize then
    (memcpy (List.replicate (n + 1) 0) 0 dest.mem dest.dataSize).map fun mem =>
      { dest with mem := mem, memSize := n }
  else some dest

namespace Table

def fillBufferPool (t : Table) : Table :=
  { t with
    bufferPool := List.range' t.allocated BUFFER_POOL_SIZE
    allocated := t.allocated + BUFFER_POOL_SIZE }

/-- The end of `newBuffer` and `newBufferByCharP`: the structure is the first one on the list. -/
def link (t : Table) (nb : ℕ) : Table :=
  let prev := update t.prev nb none
  { t with
    next := update t.next nb t.gBufferList
    prev := t.gBufferList.elim prev fun first => update prev first (some nb)
    gBufferList := some nb }

/-- A structure from the pool, for a buffer. -/
def create (t : Table) (buffer : Buffer) (bytes : ℕ) : Option (ℕ × Table) :=
  let t := if t.bufferPool = [] then t.fillBufferPool else t
  match t.bufferPool with
  | [] => none
  | nb :: pool =>
    some (nb, link
      { t with
        bufferPool := pool
        buffer := update t.buffer nb buffer
        refCount := update t.refCount nb 1
        bufferByteCount := unsigned (t.bufferByteCount + bytes)
        bufferCount := unsigned (t.bufferCount + 1) } nb)

/-- What `xmalloc` leaves in the memory is `fresh`. -/
def newBuffer (t : Table) (fresh : ℕ → UInt8) (size : ℕ) : Option (ℕ × Table) :=
  t.create ⟨(List.range size).map fresh ++ [0], size, 0, true⟩ (size + 1)

def newBufferByCharP (t : Table) (ptr : List UInt8) (size dataSize : ℕ) : Option (ℕ × Table) :=
  t.create ⟨ptr, size, dataSize, false⟩ 0

/-- A buffer without references goes back to the pool. -/
def release (t : Table) (buff : ℕ) : Option Table :=
  if t.prev buff = none ∧ t.gBufferList ≠ some buff then none
  else
    let b := t.buffer buff
    some
      { t with
        bufferCount := unsigned (t.bufferCount - 1 : ℤ)
        bufferByteCount := if b.deletable then unsigned (t.bufferByteCount - (b.memSize + 1) : ℤ)
          else t.bufferByteCount
        buffer := if b.deletable then update t.buffer buff { b with mem := [] } else t.buffer
        prev := (t.next buff).elim t.prev fun n => update t.prev n (t.prev buff)
        next := (t.prev buff).elim t.next fun p => update t.next p (t.next buff)
        gBufferList := (t.prev buff).elim (t.next buff) fun _ => t.gBufferList
        bufferPool := buff :: t.bufferPool }

def delBuffer (t : Table) (buff : ℕ) : Option Table :=
  let refCount := t.refCount buff - 1
  let t := { t with refCount := update t.refCount buff refCount }
  if refCount = 0 then t.release buff else some t

def bufferTakeRef (t : Table) (buff : ℕ) : Option Table :=
  if t.refCount buff + 1 < 2 ^ 31 then
    some { t with refCount := update t.refCount buff (t.refCount buff + 1) }
  else none

/-- A buffer with other fields. -/
def set (t : Table) (buff : ℕ) (b : Buffer) : Table := { t with buffer := update t.buffer buff b }

def copyBuffer (t : Table) (dest src : ℕ) : Option (Bool × Table) :=
  let amt := (t.buffer src).dataSize % 2 ^ 32
  let d := t.buffer dest
  if amt > d.memSize then some (false, t)
  else do
    let mem ← memcpy d.mem 0 (t.buffer src).mem amt
    let d ← bufferSetDataSize { d with mem := mem } amt
    some (true, t.set dest d)

def concatBuffer (t : Table) (dest src : ℕ) : Option (Bool × Table) :=
  let d := t.buffer dest
  let n := (d.dataSize + (t.buffer src).dataSize) % 2 ^ 64
  if d.deletable then do
    let d ← grow d n
    let bytes := unsigned (t.bufferByteCount + (d.memSize - (t.buffer dest).memSize) : ℤ)
    let t := { t.set dest d with bufferByteCount := bytes }
    -- `dest->dataSize` bytes, whatever `src` has
    let mem ← memcpy d.mem d.dataSize (t.buffer src).mem d.dataSize
    some (true, t.set dest { d with mem := mem, dataSize := n })
  else none

def expandBuffer (t : Table) (fresh : ℕ → UInt8) (buff amt : ℕ) : Bool × Table :=
  match Innfeed.expandBuffer fresh (t.buffer buff) amt with
  | none => (false, t)
  | some b => (true, { t.set buff b with bufferByteCount := unsigned (t.bufferByteCount + amt) })

end Table

/-- A call. `store` is a caller that writes to the memory of a buffer. -/
inductive Call where
  | newBuffer (fresh : ℕ → UInt8) (size : ℕ)
  | newBufferByCharP (ptr : List UInt8) (size dataSize : ℕ)
  | delBuffer (buff : ℕ)
  | bufferTakeRef (buff : ℕ)
  | store (buff pos : ℕ) (bytes : List UInt8)
  | bufferSetDataSize (buff size : ℕ)
  | bufferIncrDataSize (buff size : ℕ)
  | bufferDecrDataSize (buff size : ℕ)
  | copyBuffer (dest src : ℕ)
  | concatBuffer (dest src : ℕ)
  | expandBuffer (fresh : ℕ → UInt8) (buff amt : ℕ)

/-- The table, the buffers that callers have references to, the newest one first, and how many
references each has. -/
structure World where
  table : Table
  live : List ℕ
  refs : ℕ → ℕ

namespace World

abbrev buffer (w : World) (i : ℕ) : Buffer := w.table.buffer i

/-- A new buffer, for the caller. -/
def created (w : World) (nb : ℕ × Table) : Bool × World :=
  (true, ⟨nb.2, nb.1 :: w.live, update w.refs nb.1 1⟩)

/-- A buffer with other fields. -/
def put (w : World) (i : ℕ) (b : Buffer) : Bool × World :=
  (true, { w with table := w.table.set i b })

end World

/-- A call, and what it returns. `none` is an assertion that fails, `die`, or a byte outside of an
allocation. -/
def step (w : World) : Call → Option (Bool × World)
  | .newBuffer fresh size => (w.table.newBuffer fresh size).map w.created
  | .newBufferByCharP ptr size dataSize =>
    (w.table.newBufferByCharP ptr size dataSize).map w.created
  | .delBuffer i => (w.table.delBuffer i).map fun t =>
    (true, ⟨t, if w.refs i = 1 then w.live.erase i else w.live, update w.refs i (w.refs i - 1)⟩)
  | .bufferTakeRef i => (w.table.bufferTakeRef i).map fun t =>
    (true, { w with table := t, refs := update w.refs i (w.refs i + 1) })
  | .store i pos bytes => (memcpy (w.buffer i).mem pos bytes bytes.length).map fun mem =>
    w.put i { w.buffer i with mem := mem }
  | .bufferSetDataSize i size => (bufferSetDataSize (w.buffer i) size).map (w.put i)
  | .bufferIncrDataSize i size => (bufferIncrDataSize (w.buffer i) size).map (w.put i)
  | .bufferDecrDataSize i size => (bufferDecrDataSize (w.buffer i) size).map (w.put i)
  | .copyBuffer dest src =>
    (w.table.copyBuffer dest src).map fun r => (r.1, { w with table := r.2 })
  | .concatBuffer dest src =>
    (w.table.concatBuffer dest src).map fun r => (r.1, { w with table := r.2 })
  | .expandBuffer fresh i amt =>
    some ((w.table.expandBuffer fresh i amt).1,
      { w with table := (w.table.expandBuffer fresh i amt).2 })

/-! ## What the calls are for -/

/-- The contents of a buffer. -/
def data (b : Buffer) : List UInt8 := b.mem.take b.dataSize

/-- The bytes that are allocated for a buffer. -/
def bytes (b : Buffer) : ℕ := if b.deletable then b.memSize + 1 else 0

/-- The bytes that are allocated. -/
def World.total (w : World) : ℕ := (w.live.map fun i => bytes (w.buffer i)).sum

/-- The caller has a reference to the buffer, which is from `newBuffer`. -/
def World.Has (w : World) (i : ℕ) : Prop := i ∈ w.live ∧ (w.buffer i).deletable = true

/-- What the calls are documented for. -/
def Documented (w : World) : Call → Prop
  | .newBuffer _ size => size + 1 < 2 ^ 64
  | .newBufferByCharP ptr size dataSize => size ≤ ptr.length ∧ dataSize ≤ size
  | .delBuffer i | .bufferTakeRef i => i ∈ w.live
  | .store i pos bytes => w.Has i ∧ pos + bytes.length ≤ (w.buffer i).memSize + 1
  | .bufferSetDataSize i size => w.Has i ∧ size ≤ (w.buffer i).memSize
  | .bufferIncrDataSize i size =>
    w.Has i ∧ (w.buffer i).dataSize + size ≤ (w.buffer i).memSize
  | .bufferDecrDataSize i size => w.Has i ∧ size ≤ (w.buffer i).dataSize
  | .copyBuffer dest src | .concatBuffer dest src => w.Has dest ∧ w.Has src
  | .expandBuffer _ i amt => w.Has i ∧ (w.buffer i).memSize + amt + 1 < 2 ^ 64

/-- One step of the callers. -/
def Next (w : World) (call : Call) (w' : World) : Prop :=
  Documented w call ∧ ∃ ok, step w call = some (ok, w')

/-- The list is that of the buffers with references, and the counts and the sizes are right. -/
structure Sound (w : World) : Prop where
  live : ∀ i, i ∈ w.live ↔ 0 < w.refs i
  forward : Chain none some w.table.next w.table.gBufferList w.live
  back : Chain none some w.table.prev w.live.getLast? w.live.reverse
  refCount : ∀ i ∈ w.live, w.table.refCount i = w.refs i
  size : ∀ i ∈ w.live, (w.buffer i).dataSize ≤ (w.buffer i).memSize
  mem : ∀ i ∈ w.live, (w.buffer i).memSize ≤ (w.buffer i).mem.length ∧
    ((w.buffer i).deletable = true → (w.buffer i).mem.length = (w.buffer i).memSize + 1)
  bytes : w.table.bufferByteCount = w.total

/-- All buffers but one are as they were. -/
def Others (w w' : World) (i : ℕ) : Prop :=
  w'.live = w.live ∧ ∀ j ∈ w.live, j ≠ i → w'.buffer j = w.buffer j

/-- A new buffer, with its contents. -/
def Creates (w w' : World) (size : ℕ) (contents : List UInt8) : Prop :=
  ∃ i ∉ w.live, w'.live = i :: w.live ∧ (w'.buffer i).memSize = size ∧
    data (w'.buffer i) = contents ∧ ∀ j ∈ w.live, w'.buffer j = w.buffer j

/-- What a call is to do. -/
def Right (w : World) (ok : Bool) (w' : World) : Call → Prop
  | .newBuffer _ size => Creates w w' size []
  | .newBufferByCharP ptr size dataSize => Creates w w' size (ptr.take dataSize)
  | .delBuffer i =>
    w'.live = (if w.refs i = 1 then w.live.erase i else w.live) ∧
      ∀ j ∈ w'.live, w'.buffer j = w.buffer j
  | .bufferTakeRef i => Others w w' i ∧ w'.buffer i = w.buffer i
  | .store i pos bytes => Others w w' i ∧ ((w'.buffer i).mem.drop pos).take bytes.length = bytes
  | .bufferSetDataSize i size =>
    Others w w' i ∧ data (w'.buffer i) = (w.buffer i).mem.take size
  | .bufferIncrDataSize i size =>
    Others w w' i ∧ data (w'.buffer i) = (w.buffer i).mem.take ((w.buffer i).dataSize + size)
  | .bufferDecrDataSize i size =>
    Others w w' i ∧ data (w'.buffer i) = (data (w.buffer i)).take ((w.buffer i).dataSize - size)
  | .copyBuffer dest src =>
    if (w.buffer src).dataSize ≤ (w.buffer dest).memSize then
      ok = true ∧ Others w w' dest ∧ data (w'.buffer dest) = data (w.buffer src)
    else ok = false ∧ w' = w
  | .concatBuffer dest src =>
    ok = true ∧ Others w w' dest ∧
      data (w'.buffer dest) = data (w.buffer dest) ++ data (w.buffer src)
  | .expandBuffer _ i amt =>
    ok = true ∧ Others w w' i ∧ data (w'.buffer i) = data (w.buffer i) ∧
      (w'.buffer i).memSize = (w.buffer i).memSize + amt

/-- What is in the memory of `concatBuffer` behind the contents of `dest`, as it begins to copy. -/
def behind (dest src : Buffer) : List UInt8 :=
  if dest.memSize < dest.dataSize + src.dataSize then List.replicate (src.dataSize + 1) 0
  else dest.mem.drop dest.dataSize

/-- As many bytes as `dest` holds are within both allocations, and what `src` has more is behind
them already. -/
structure Appends (dest src : Buffer) : Prop where
  read : dest.dataSize ≤ src.memSize + 1
  written : 2 * dest.dataSize ≤ max dest.memSize (dest.dataSize + src.dataSize) + 1
  rest : ((behind dest src).drop dest.dataSize).take (src.dataSize - dest.dataSize) =
    (data src).drop dest.dataSize

/-- When a call is right. -/
def Meets (w : World) : Call → Prop
  | .newBuffer _ size => w.total + (size + 1) < 2 ^ 32
  | .bufferTakeRef i => w.refs i + 1 < 2 ^ 31
  | .bufferDecrDataSize _ _ => False
  | .concatBuffer dest src => Appends (w.buffer dest) (w.buffer src) ∧
    w.total + ((w.buffer dest).dataSize + (w.buffer src).dataSize - (w.buffer dest).memSize) <
      2 ^ 32
  | .expandBuffer _ _ amt => w.total + amt < 2 ^ 32
  | _ => True

/-! ## Lists of bytes -/

section Memory

variable {dest src mem : List UInt8} {pos n : ℕ} {d s : Buffer}

theorem memcpy_eq_some (h : memcpy dest pos src n = some mem) :
    n ≤ src.length ∧ pos + n ≤ dest.length ∧
      mem = dest.take pos ++ (src.take n ++ dest.drop (pos + n)) := by
  rw [memcpy] at h
  split at h
  · rename_i hin
    exact ⟨hin.1, hin.2, (Option.some.inj h).symm⟩
  · cases h

theorem length_memcpy (h : memcpy dest pos src n = some mem) : mem.length = dest.length := by
  obtain ⟨hread, hwritten, rfl⟩ := memcpy_eq_some h
  simp only [List.length_append, List.length_take, List.length_drop]
  omega

theorem memcpy_eq (hread : n ≤ src.length) (hwritten : pos + n ≤ dest.length) :
    memcpy dest pos src n = some (dest.take pos ++ (src.take n ++ dest.drop (pos + n))) :=
  if_pos ⟨hread, hwritten⟩

/-- The memory of `concatBuffer`: the contents of `dest`, and what is behind them. -/
theorem grow_eq (hsize : d.dataSize ≤ d.memSize) (hmem : d.mem.length = d.memSize + 1) :
    grow d (d.dataSize + s.dataSize) =
      some { d with
        mem := data d ++ behind d s
        memSize := max d.memSize (d.dataSize + s.dataSize) } := by
  rw [grow, behind]
  by_cases hlong : d.memSize < d.dataSize + s.dataSize
  · have hcopy : memcpy (List.replicate (d.dataSize + s.dataSize + 1) 0) 0 d.mem d.dataSize =
        some (data d ++ List.replicate (s.dataSize + 1) 0) := by
      have hrest : d.dataSize + s.dataSize + 1 - (0 + d.dataSize) = s.dataSize + 1 := by omega
      rw [memcpy_eq (by omega) (by rw [List.length_replicate]; omega), List.drop_replicate, hrest]
      rfl
    rw [if_pos hlong, if_pos hlong, hcopy, max_eq_right hlong.le]
    rfl
  · rw [if_neg hlong, if_neg hlong, max_eq_left (by omega), data, List.take_append_drop]

/-- What is copied and what was there make up the contents of `src`. -/
theorem appends_rest (hread : d.dataSize ≤ s.mem.length) :
    (s.mem.take d.dataSize ++ (behind d s).drop d.dataSize).take s.dataSize = data s ↔
      ((behind d s).drop d.dataSize).take (s.dataSize - d.dataSize) =
        (data s).drop d.dataSize := by
  have hlength : (s.mem.take d.dataSize).length = d.dataSize := List.length_take_of_le hread
  have hsplit : data s = s.mem.take (min s.dataSize d.dataSize) ++ (data s).drop d.dataSize := by
    conv_lhs => rw [← List.take_append_drop d.dataSize (data s)]
    rw [data, List.take_take, min_comm]
  rw [List.take_append, hlength, List.take_take]
  constructor
  · intro h
    rw [hsplit] at h
    exact List.append_cancel_left h
  · intro h
    rw [h, ← hsplit]

end Memory

/-! ## The invariant -/

/-- The pool has structures that are not in use. -/
structure Inv (w : World) : Prop extends Sound w where
  pool : w.table.bufferPool.Nodup
  free : ∀ i ∈ w.table.bufferPool, i ∉ w.live
  below : ∀ i, i ∈ w.table.bufferPool ∨ i ∈ w.live → i < w.table.allocated
  fits : w.total < 2 ^ 32

section Steps

variable {w w' : World} {t : Table} {i j : ℕ} {b : Buffer} {ok : Bool}

theorem Inv.nodup (h : Inv w) : w.live.Nodup := h.forward.nodup distinct_some

theorem unsigned_eq {n : ℕ} (hlt : n < 2 ^ 32) : unsigned n = n := by
  rw [unsigned]
  omega

theorem unsigned_lt (n : ℤ) : unsigned n < 2 ^ 32 := by
  rw [unsigned]
  omega

/-- One buffer has other fields. -/
theorem sum_update {l : List ℕ} (hnodup : l.Nodup) (hi : i ∈ l) (f : ℕ → ℕ) (n : ℕ) :
    (l.map (update f i n)).sum + f i = (l.map f).sum + n := by
  have hrest : (l.erase i).map (update f i n) = (l.erase i).map f :=
    List.map_congr_left fun j hj => update_of_ne (hnodup.mem_erase_iff.mp hj).1 _ _
  have hnew := List.sum_map_erase (update f i n) hi
  have hold := List.sum_map_erase f hi
  rw [hrest, update_self] at hnew
  omega

theorem total_set (h : Inv w) (hi : i ∈ w.live) (b : Buffer) (n : ℕ) :
    World.total ⟨{ w.table.set i b with bufferByteCount := n }, w.live, w.refs⟩ +
      bytes (w.buffer i) = w.total + bytes b := by
  have hsum := sum_update h.nodup hi (fun j => bytes (w.buffer j)) (bytes b)
  have hmap : (fun j => bytes (update w.table.buffer i b j)) =
      update (fun j => bytes (w.buffer j)) i (bytes b) := by
    funext j
    by_cases hji : j = i
    · rw [hji, update_self, update_self]
    · rw [update_of_ne hji, update_of_ne hji]
  rw [World.total, World.total, ← hsum, ← hmap]
  rfl

/-- A buffer in use has other fields, and other bytes are counted. -/
theorem Inv.set (h : Inv w) (hi : i ∈ w.live) (hsize : b.dataSize ≤ b.memSize)
    (hmem : b.memSize ≤ b.mem.length ∧ (b.deletable = true → b.mem.length = b.memSize + 1))
    {n : ℕ} (hn : n + bytes (w.buffer i) = w.total + bytes b) (hlt : n < 2 ^ 32) :
    Inv ⟨{ w.table.set i b with bufferByteCount := n }, w.live, w.refs⟩ where
  live := h.live
  forward := h.forward
  back := h.back
  refCount := h.refCount
  size := fun j hj => by
    change (update w.table.buffer i b j).dataSize ≤ (update w.table.buffer i b j).memSize
    by_cases hji : j = i
    · rw [hji, update_self]
      exact hsize
    · rw [update_of_ne hji]
      exact h.size j hj
  mem := fun j hj => by
    change (update w.table.buffer i b j).memSize ≤ (update w.table.buffer i b j).mem.length ∧
      ((update w.table.buffer i b j).deletable = true →
        (update w.table.buffer i b j).mem.length = (update w.table.buffer i b j).memSize + 1)
    by_cases hji : j = i
    · rw [hji, update_self]
      exact hmem
    · rw [update_of_ne hji]
      exact h.mem j hj
  bytes := by
    have htotal := total_set h hi b n
    change n = _
    omega
  pool := h.pool
  free := h.free
  below := h.below
  fits := by
    have htotal := total_set h hi b n
    omega

/-- The other buffers are as they were. -/
theorem others_set (w : World) (i : ℕ) (b : Buffer) (n : ℕ) :
    Others w ⟨{ w.table.set i b with bufferByteCount := n }, w.live, w.refs⟩ i :=
  ⟨rfl, fun _ _ hji => update_of_ne hji _ _⟩

theorem buffer_set (w : World) (i : ℕ) (b : Buffer) (n : ℕ) :
    World.buffer ⟨{ w.table.set i b with bufferByteCount := n }, w.live, w.refs⟩ i = b := by
  change update w.table.buffer i b i = b
  exact update_self _ _ _

/-- A buffer with as much memory as before. -/
theorem Inv.put (h : Inv w) (hi : w.Has i) (hsize : b.dataSize ≤ b.memSize)
    (hmem : b.mem.length = (w.buffer i).mem.length) (hmemSize : b.memSize = (w.buffer i).memSize)
    (hdeletable : b.deletable = (w.buffer i).deletable) : Inv (w.put i b).2 := by
  have hlength := (h.mem i hi.1).2 hi.2
  refine h.set (n := w.table.bufferByteCount) hi.1 hsize ⟨by omega, fun _ => by omega⟩ ?_
    (h.bytes.trans_lt h.fits)
  rw [h.bytes, bytes, bytes, hdeletable, hmemSize]

/-- What a call needs to be right. -/
theorem right_of_put (h : Inv w) {call : Call} (hi : w.Has i) {b : Buffer}
    (hstep : step w call = some (w.put i b)) (hsize : b.dataSize ≤ b.memSize)
    (hmem : b.mem.length = (w.buffer i).mem.length) (hmemSize : b.memSize = (w.buffer i).memSize)
    (hdeletable : b.deletable = (w.buffer i).deletable)
    (hright : Others w (w.put i b).2 i → (w.put i b).2.buffer i = b →
      Right w true (w.put i b).2 call) :
    ∃ ok w', step w call = some (ok, w') ∧ Right w ok w' call ∧ Inv w' :=
  ⟨true, (w.put i b).2, hstep,
    hright (others_set w i b w.table.bufferByteCount) (buffer_set w i b w.table.bufferByteCount),
    h.put hi hsize hmem hmemSize hdeletable⟩

/-! ### Sizes and contents -/

theorem store_right (h : Inv w) {pos : ℕ} {cs : List UInt8}
    (hdoc : Documented w (.store i pos cs)) :
    ∃ ok w', step w (.store i pos cs) = some (ok, w') ∧ Right w ok w' (.store i pos cs) ∧
      Inv w' := by
  obtain ⟨hi, hroom⟩ := hdoc
  have hlength := (h.mem i hi.1).2 hi.2
  have hcopy : memcpy (w.buffer i).mem pos cs cs.length = _ := memcpy_eq le_rfl (by omega)
  rw [List.take_length] at hcopy
  refine right_of_put (b := { w.buffer i with
    mem := (w.buffer i).mem.take pos ++ (cs ++ (w.buffer i).mem.drop (pos + cs.length)) }) h hi ?_
      (h.size i hi.1) (length_memcpy hcopy) rfl rfl fun hothers hbuffer => ⟨hothers, ?_⟩
  · rw [step, hcopy]
    rfl
  · have hpos : ((w.buffer i).mem.take pos).length = pos := List.length_take_of_le (by omega)
    rw [hbuffer]
    change (List.drop pos (_ ++ _)).take _ = _
    rw [List.drop_left' hpos, List.take_left]

theorem bufferSetDataSize_right (h : Inv w) {n : ℕ} (hdoc : Documented w (.bufferSetDataSize i n)) :
    ∃ ok w', step w (.bufferSetDataSize i n) = some (ok, w') ∧
      Right w ok w' (.bufferSetDataSize i n) ∧ Inv w' := by
  obtain ⟨hi, hle⟩ := hdoc
  refine right_of_put (b := { w.buffer i with dataSize := n }) h hi ?_ hle rfl rfl rfl
    fun hothers hbuffer => ⟨hothers, by rw [hbuffer]; rfl⟩
  rw [step, bufferSetDataSize, if_pos hle]
  rfl

/-- A buffer from `newBuffer` is part of what is counted. -/
theorem Inv.memSize_lt (h : Inv w) (hi : w.Has i) : (w.buffer i).memSize + 1 < 2 ^ 32 := by
  have hsum := List.sum_map_erase (fun j => bytes (w.buffer j)) hi.1
  have hfits := h.fits
  rw [World.total, ← hsum, bytes, if_pos hi.2] at hfits
  omega

theorem bufferIncrDataSize_right (h : Inv w) {n : ℕ}
    (hdoc : Documented w (.bufferIncrDataSize i n)) :
    ∃ ok w', step w (.bufferIncrDataSize i n) = some (ok, w') ∧
      Right w ok w' (.bufferIncrDataSize i n) ∧ Inv w' := by
  obtain ⟨hi, hle⟩ := hdoc
  have hlt := h.memSize_lt hi
  have hwrap : ((w.buffer i).dataSize + n) % 2 ^ 64 = (w.buffer i).dataSize + n := by omega
  refine right_of_put (b := { w.buffer i with dataSize := (w.buffer i).dataSize + n }) h hi ?_ hle
    rfl rfl rfl fun hothers hbuffer => ⟨hothers, by rw [hbuffer]; rfl⟩
  rw [step, bufferIncrDataSize, hwrap, if_neg (by omega)]
  rfl

theorem length_data (h : Inv w) (hi : i ∈ w.live) :
    (data (w.buffer i)).length = (w.buffer i).dataSize :=
  List.length_take_of_le ((h.size i hi).trans (h.mem i hi).1)

theorem copyBuffer_right (h : Inv w) {src : ℕ} (hdoc : Documented w (.copyBuffer i src)) :
    ∃ ok w', step w (.copyBuffer i src) = some (ok, w') ∧ Right w ok w' (.copyBuffer i src) ∧
      Inv w' := by
  obtain ⟨hi, hsrc⟩ := hdoc
  have hlt := h.memSize_lt hsrc
  have hsize := h.size src hsrc.1
  have hwrap : (w.buffer src).dataSize % 2 ^ 32 = (w.buffer src).dataSize := by omega
  by_cases hle : (w.buffer src).dataSize ≤ (w.buffer i).memSize
  · have hmem := (h.mem i hi.1).2 hi.2
    have hcopy : memcpy (w.buffer i).mem 0 (w.buffer src).mem (w.buffer src).dataSize =
        some (data (w.buffer src) ++ (w.buffer i).mem.drop (0 + (w.buffer src).dataSize)) :=
      memcpy_eq (hsize.trans (h.mem src hsrc.1).1) (by omega)
    refine right_of_put (b := { w.buffer i with
      mem := data (w.buffer src) ++ (w.buffer i).mem.drop (0 + (w.buffer src).dataSize)
      dataSize := (w.buffer src).dataSize }) h hi ?_ hle (length_memcpy hcopy) rfl rfl
      fun hothers hbuffer => ?_
    · simp only [step, Table.copyBuffer, hwrap, if_neg (Nat.not_lt.mpr hle), hcopy,
        Option.bind_eq_bind, Option.bind_some, bufferSetDataSize, if_pos hle, Option.map_some]
      rfl
    · rw [Right, if_pos hle, hbuffer]
      refine ⟨rfl, hothers, ?_⟩
      change (data (w.buffer src) ++ _).take _ = _
      rw [← length_data h hsrc.1, List.take_left]
  · refine ⟨false, w, ?_, ?_, h⟩
    · rw [step, Table.copyBuffer]
      simp only [hwrap, if_pos (Nat.not_le.mp hle), Option.map_some]
    · rw [Right, if_neg hle]
      exact ⟨rfl, rfl⟩

theorem expandBuffer_eq (h : Inv w) {fresh : ℕ → UInt8} {amt : ℕ}
    (hdoc : Documented w (.expandBuffer fresh i amt)) :
    ∃ b : Buffer, step w (.expandBuffer fresh i amt) =
        some (true, ⟨{ w.table.set i b with
          bufferByteCount := unsigned (w.total + amt) }, w.live, w.refs⟩) ∧
      b.memSize = (w.buffer i).memSize + amt ∧ b.dataSize = (w.buffer i).dataSize ∧
      b.deletable = true ∧ b.mem.length = b.memSize + 1 ∧ data b = data (w.buffer i) := by
  obtain ⟨hi, hlt⟩ := hdoc
  have hwrap : ((w.buffer i).memSize + amt) % 2 ^ 64 = (w.buffer i).memSize + amt := by omega
  refine ⟨{ w.buffer i with
    mem := (List.range ((w.buffer i).memSize + amt + 1)).map fun k =>
      (w.buffer i).mem.getD k (fresh k)
    memSize := (w.buffer i).memSize + amt }, ?_, rfl, rfl, hi.2, ?_, ?_⟩
  · have hexpand : Innfeed.expandBuffer fresh (w.table.buffer i) amt = some _ := if_pos hi.2
    change ((w.table.buffer i).memSize + amt) % 2 ^ 64 = (w.table.buffer i).memSize + amt at hwrap
    rw [hwrap] at hexpand
    rw [step, Table.expandBuffer, hexpand]
    simp only [h.bytes]
  · simp
  · have hsize := h.size i hi.1
    have hmem := (h.mem i hi.1).2 hi.2
    refine List.ext_getElem? fun k => ?_
    rw [data, data, List.getElem?_take, List.getElem?_take]
    dsimp only
    split
    · rw [List.getElem?_map, List.getElem?_range (by omega), Option.map_some,
        List.getD_eq_getElem?_getD, List.getElem?_eq_getElem (by omega)]
      rfl
    · rfl

theorem expandBuffer_right (h : Inv w) {fresh : ℕ → UInt8} {amt : ℕ}
    (hdoc : Documented w (.expandBuffer fresh i amt)) (hfits : w.total + amt < 2 ^ 32) :
    ∃ ok w', step w (.expandBuffer fresh i amt) = some (ok, w') ∧
      Right w ok w' (.expandBuffer fresh i amt) ∧ Inv w' := by
  obtain ⟨b, hstep, hmemSize, hdataSize, hdeletable, hlength, hdata⟩ := expandBuffer_eq h hdoc
  obtain ⟨hi, -⟩ := hdoc
  have hsize := h.size i hi.1
  have hunsigned : unsigned ((w.total : ℤ) + amt) = w.total + amt := by
    exact_mod_cast unsigned_eq hfits
  rw [hunsigned] at hstep
  refine ⟨true, _, hstep, ⟨rfl, others_set w i b _, ?_, ?_⟩,
    h.set hi.1 (by omega) ⟨by omega, fun _ => hlength⟩ ?_ hfits⟩
  · rw [buffer_set, hdata]
  · rw [buffer_set, hmemSize]
  · rw [bytes, bytes, hdeletable, hi.2, hmemSize]
    simp only [if_true]
    omega

/-- The buffer that `concatBuffer` leaves. -/
def appended (d s : Buffer) : Buffer where
  mem := data d ++ (s.mem.take d.dataSize ++ (behind d s).drop d.dataSize)
  memSize := max d.memSize (d.dataSize + s.dataSize)
  dataSize := d.dataSize + s.dataSize
  deletable := d.deletable

theorem length_behind {d s : Buffer} (hsize : d.dataSize ≤ d.memSize)
    (hmem : d.mem.length = d.memSize + 1) :
    d.dataSize + (behind d s).length = max d.memSize (d.dataSize + s.dataSize) + 1 := by
  rw [behind]
  split
  · rw [List.length_replicate]
    omega
  · rw [List.length_drop]
    omega

theorem concatBuffer_eq (h : Inv w) {src : ℕ} (hdoc : Documented w (.concatBuffer i src)) :
    step w (.concatBuffer i src) =
      if (w.buffer i).dataSize ≤ (w.buffer src).memSize + 1 ∧ 2 * (w.buffer i).dataSize ≤
          max (w.buffer i).memSize ((w.buffer i).dataSize + (w.buffer src).dataSize) + 1 then
        some (true, ⟨{ w.table.set i (appended (w.buffer i) (w.buffer src)) with
          bufferByteCount := unsigned (w.total + ((w.buffer i).dataSize +
            (w.buffer src).dataSize - (w.buffer i).memSize : ℕ)) }, w.live, w.refs⟩)
      else none := by
  obtain ⟨hi, hsrc⟩ := hdoc
  have hlt := h.memSize_lt hi
  have hlt' := h.memSize_lt hsrc
  have hsize := h.size i hi.1
  have hsize' := h.size src hsrc.1
  have hmem := (h.mem i hi.1).2 hi.2
  have hmem' := (h.mem src hsrc.1).2 hsrc.2
  have hbehind := @length_behind _ (w.buffer src) hsize hmem
  have hwrap : ((w.buffer i).dataSize + (w.buffer src).dataSize) % 2 ^ 64 =
      (w.buffer i).dataSize + (w.buffer src).dataSize := by omega
  have hcount : ((max (w.buffer i).memSize ((w.buffer i).dataSize + (w.buffer src).dataSize) : ℕ) -
      (w.buffer i).memSize : ℤ) =
        ((w.buffer i).dataSize + (w.buffer src).dataSize - (w.buffer i).memSize : ℕ) := by omega
  have hdata := length_data h hi.1
  -- where `src` is `dest`, it has the new memory
  have hmemory : ∀ b : Buffer, b.mem = data (w.buffer i) ++ behind (w.buffer i) (w.buffer src) →
      ((w.buffer i).dataSize ≤ (update w.table.buffer i b src).mem.length ↔
        (w.buffer i).dataSize ≤ (w.buffer src).memSize + 1) ∧
      (update w.table.buffer i b src).mem.take (w.buffer i).dataSize =
        (w.buffer src).mem.take (w.buffer i).dataSize := by
    intro b hb
    by_cases hsame : src = i
    · subst hsame
      rw [update_self, hb, List.length_append, hdata, List.take_left' hdata]
      exact ⟨by omega, rfl⟩
    · rw [update_of_ne hsame, hmem']
      exact ⟨Iff.rfl, rfl⟩
  simp only [step, Table.concatBuffer, hwrap, if_pos hi.2, grow_eq hsize hmem,
    Option.bind_eq_bind, Option.bind_some, hcount, h.bytes, Table.set]
  obtain ⟨hread, htake⟩ := hmemory { w.buffer i with
    mem := data (w.buffer i) ++ behind (w.buffer i) (w.buffer src)
    memSize := max (w.buffer i).memSize ((w.buffer i).dataSize + (w.buffer src).dataSize) } rfl
  have hwritten : (w.buffer i).dataSize + (w.buffer i).dataSize ≤
      (data (w.buffer i) ++ behind (w.buffer i) (w.buffer src)).length ↔
        2 * (w.buffer i).dataSize ≤
          max (w.buffer i).memSize ((w.buffer i).dataSize + (w.buffer src).dataSize) + 1 := by
    rw [List.length_append, hdata]
    omega
  by_cases hfit : (w.buffer i).dataSize ≤ (w.buffer src).memSize + 1 ∧ 2 * (w.buffer i).dataSize ≤
      max (w.buffer i).memSize ((w.buffer i).dataSize + (w.buffer src).dataSize) + 1
  · have hdrop : (data (w.buffer i) ++ behind (w.buffer i) (w.buffer src)).drop
        ((w.buffer i).dataSize + (w.buffer i).dataSize) =
          (behind (w.buffer i) (w.buffer src)).drop (w.buffer i).dataSize := by
      rw [← List.drop_drop, List.drop_left' hdata]
    rw [if_pos hfit, memcpy_eq (hread.mpr hfit.1) (hwritten.mpr hfit.2), htake,
      List.take_left' hdata, hdrop, Option.bind_some, Option.map_some, Function.update_idem]
    rfl
  · rw [if_neg hfit, memcpy, if_neg fun hin => hfit ⟨hread.mp hin.1, hwritten.mp hin.2⟩]
    rfl

theorem data_appended (h : Inv w) {src : ℕ} (hi : i ∈ w.live) :
    data (appended (w.buffer i) (w.buffer src)) = data (w.buffer i) ++
      ((w.buffer src).mem.take (w.buffer i).dataSize ++
        (behind (w.buffer i) (w.buffer src)).drop (w.buffer i).dataSize).take
          (w.buffer src).dataSize := by
  have hdata := length_data h hi
  rw [data, appended]
  dsimp only
  rw [List.take_append, hdata, Nat.add_sub_cancel_left, List.take_of_length_le (by omega)]

theorem total_concat (h : Inv w) {src : ℕ} (hi : w.Has i) (n : ℕ) :
    World.total ⟨{ w.table.set i (appended (w.buffer i) (w.buffer src)) with
      bufferByteCount := n }, w.live, w.refs⟩ = w.total +
        ((w.buffer i).dataSize + (w.buffer src).dataSize - (w.buffer i).memSize) := by
  have htotal := total_set h hi.1 (appended (w.buffer i) (w.buffer src)) n
  rw [bytes, bytes, if_pos hi.2, if_pos (show (appended _ _).deletable = true from hi.2)] at htotal
  have hmemSize : (appended (w.buffer i) (w.buffer src)).memSize =
      max (w.buffer i).memSize ((w.buffer i).dataSize + (w.buffer src).dataSize) := rfl
  omega

theorem concatBuffer_right (h : Inv w) {src : ℕ} (hdoc : Documented w (.concatBuffer i src))
    (hmeets : Meets w (.concatBuffer i src)) : ∃ ok w', step w (.concatBuffer i src) =
      some (ok, w') ∧ Right w ok w' (.concatBuffer i src) ∧ Inv w' := by
  obtain ⟨hi, hsrc⟩ := hdoc
  obtain ⟨happends, hfits⟩ := hmeets
  have hstep := concatBuffer_eq h ⟨hi, hsrc⟩
  have hsize := h.size i hi.1
  have hmem := (h.mem i hi.1).2 hi.2
  have hread := happends.read
  have hbehind := @length_behind _ (w.buffer src) hsize hmem
  have hdata := length_data h hi.1
  have hlength : (appended (w.buffer i) (w.buffer src)).mem.length =
      (appended (w.buffer i) (w.buffer src)).memSize + 1 := by
    have hmem' := (h.mem src hsrc.1).2 hsrc.2
    have hwritten := happends.written
    simp only [appended, List.length_append, List.length_take, List.length_drop, hdata, hmem']
    omega
  rw [if_pos ⟨hread, happends.written⟩, ← Nat.cast_add, unsigned_eq hfits] at hstep
  refine ⟨true, _, hstep, ⟨rfl, others_set w i _ _, ?_⟩,
    h.set hi.1 (le_max_right _ _) ⟨by omega, fun _ => hlength⟩ ?_ hfits⟩
  · rw [buffer_set, data_appended h hi.1, (appends_rest ?_).mpr happends.rest]
    rw [(h.mem src hsrc.1).2 hsrc.2]
    exact hread
  · have htotal := total_set h hi.1 (appended (w.buffer i) (w.buffer src)) 0
    have hsum := @total_concat w i h src hi 0
    omega

/-! ### References -/

theorem bufferTakeRef_right (h : Inv w) (hdoc : Documented w (.bufferTakeRef i))
    (hmeets : Meets w (.bufferTakeRef i)) : ∃ ok w', step w (.bufferTakeRef i) = some (ok, w') ∧
      Right w ok w' (.bufferTakeRef i) ∧ Inv w' := by
  have hcount := h.refCount i hdoc
  have hlt : w.table.refCount i + 1 < 2 ^ 31 := by
    rw [hcount]
    exact_mod_cast hmeets
  refine ⟨true, ⟨{ w.table with
    refCount := update w.table.refCount i (w.table.refCount i + 1) }, w.live,
    update w.refs i (w.refs i + 1)⟩, ?_, ⟨⟨rfl, fun _ _ _ => rfl⟩, rfl⟩,
    ⟨⟨fun j => ?_, h.forward, h.back, fun j hj => ?_, h.size, h.mem, h.bytes⟩, h.pool, h.free,
      h.below, h.fits⟩⟩
  · rw [step, Table.bufferTakeRef, if_pos hlt]
    rfl
  · by_cases hji : j = i
    · rw [hji]
      dsimp only
      rw [update_self]
      exact ⟨fun _ => Nat.succ_pos _, fun _ => hdoc⟩
    · dsimp only
      rw [update_of_ne hji]
      exact h.live j
  · by_cases hji : j = i
    · rw [hji]
      dsimp only
      rw [update_self, update_self, hcount]
      rfl
    · dsimp only
      rw [update_of_ne hji, update_of_ne hji]
      exact h.refCount j hj

/-- The pool has a structure. -/
theorem exists_free (h : Inv w) : ∃ nb pool, (if w.table.bufferPool = [] then
      w.table.fillBufferPool else w.table).bufferPool = nb :: pool ∧ (nb :: pool).Nodup ∧
    ∀ j, (j ∈ nb :: pool → j ∉ w.live) ∧ (j ∈ nb :: pool ∨ j ∈ w.live →
      j < (if w.table.bufferPool = [] then w.table.fillBufferPool else w.table).allocated) := by
  by_cases hempty : w.table.bufferPool = []
  · rw [if_pos hempty]
    refine ⟨w.table.allocated, List.range' (w.table.allocated + 1) (BUFFER_POOL_SIZE - 1), rfl,
      show (List.range' w.table.allocated BUFFER_POOL_SIZE).Nodup from List.nodup_range' 1,
      fun j => ⟨fun hj hlive => ?_, ?_⟩⟩
    · have hlt := h.below j (.inr hlive)
      have hge := (List.mem_range'_1 (m := j) (n := BUFFER_POOL_SIZE)).mp hj
      omega
    · rintro (hj | hj)
      · exact ((List.mem_range'_1 (m := j) (n := BUFFER_POOL_SIZE)).mp hj).2
      · exact Nat.lt_add_right _ (h.below j (.inr hj))
  · obtain ⟨nb, pool, hpool⟩ := List.exists_cons_of_ne_nil hempty
    have hnodup := h.pool
    rw [if_neg hempty]
    rw [hpool] at hnodup
    refine ⟨nb, pool, hpool, hnodup, fun j => ⟨fun hj => h.free j (hpool ▸ hj), fun hj => ?_⟩⟩
    rw [← hpool] at hj
    exact h.below j hj

theorem total_cons {nb : ℕ} (hnb : nb ∉ w.live) (buffer : Buffer) :
    ((nb :: w.live).map fun j => bytes (update w.table.buffer nb buffer j)).sum =
      w.total + bytes buffer := by
  have hmap : w.live.map (fun j => bytes (update w.table.buffer nb buffer j)) =
      w.live.map fun j => bytes (w.buffer j) := by
    refine List.map_congr_left fun j hj => ?_
    rw [update_of_ne fun hji : j = nb => hnb (hji ▸ hj)]
  rw [List.map_cons, List.sum_cons, update_self, hmap, World.total, Nat.add_comm]

/-- A new buffer is the first one on the list. -/
theorem create_right (h : Inv w) {buffer : Buffer} {n : ℕ}
    (hsize : buffer.dataSize ≤ buffer.memSize)
    (hmem : buffer.memSize ≤ buffer.mem.length ∧
      (buffer.deletable = true → buffer.mem.length = buffer.memSize + 1))
    (hn : n = bytes buffer) (hfits : w.total + n < 2 ^ 32) :
    ∃ nb, (w.table.create buffer n).map w.created = some (w.created nb) ∧
      Creates w (w.created nb).2 buffer.memSize (data buffer) ∧ Inv (w.created nb).2 := by
  obtain ⟨nb, pool, hpool, hnodup, hfree⟩ := exists_free h
  obtain ⟨hnb, -⟩ := hfree nb
  have hnew := hnb List.mem_cons_self
  have hne : ∀ j ∈ w.live, j ≠ nb := fun j hj hji => hnew (hji ▸ hj)
  have hcount : unsigned ((w.total : ℤ) + n) = w.total + n := by
    exact_mod_cast unsigned_eq hfits
  rw [Table.create]
  generalize ht : (if w.table.bufferPool = [] then w.table.fillBufferPool else w.table) = t at *
  have hsame : t.buffer = w.table.buffer ∧ t.refCount = w.table.refCount ∧
      t.next = w.table.next ∧ t.prev = w.table.prev ∧ t.gBufferList = w.table.gBufferList ∧
      t.bufferByteCount = w.total := by
    rw [← h.bytes, ← ht]
    split <;> exact ⟨rfl, rfl, rfl, rfl, rfl, rfl⟩
  obtain ⟨hbuffer, hrefs, hnext, hprev, hlist, hbytes⟩ := hsame
  simp only [hpool, hbytes, hcount]
  refine ⟨_, rfl, ⟨nb, hnew, rfl, ?_, ?_, fun j hj => ?_⟩, ⟨⟨fun j => ?_, ⟨rfl, ?_⟩, ?_, ?_, ?_, ?_,
    ?_⟩, hnodup.of_cons, fun j hj hlive => ?_, fun j hj => (hfree j).2 ?_, ?_⟩⟩
  · change (update t.buffer nb buffer nb).memSize = _
    rw [update_self]
  · change data (update t.buffer nb buffer nb) = _
    rw [update_self]
  · change update t.buffer nb buffer j = w.table.buffer j
    rw [update_of_ne (hne j hj), hbuffer]
  · change j ∈ nb :: w.live ↔ 0 < update w.refs nb 1 j
    by_cases hji : j = nb
    · rw [hji, update_self]
      exact ⟨fun _ => Nat.zero_lt_one, fun _ => List.mem_cons_self⟩
    · rw [update_of_ne hji, List.mem_cons, or_iff_right hji]
      exact h.live j
  · change Chain none some (update t.next nb t.gBufferList) (update t.next nb t.gBufferList nb) _
    rw [update_self, hnext, hlist]
    exact h.forward.congr fun j hj => update_of_ne (hne j hj) _ _
  · -- the old first buffer points back to the new one
    have hback := h.back.snoc (i := nb) fun hj => hnew (List.mem_reverse.mp hj)
    rw [List.getLast?_reverse, ← h.forward.head_eq, ← List.reverse_cons] at hback
    have hlast : some (w.live.getLast?.getD nb) = (nb :: w.live).getLast? := by
      rw [List.getLast?_cons]
    rw [hlast] at hback
    refine hback.congr fun j hj => ?_
    change (t.gBufferList.elim (update t.prev nb none) fun first =>
      update (update t.prev nb none) first (some nb)) j = _
    rw [hlist, hprev]
    cases hfirst : w.table.gBufferList with
    | none => rfl
    | some first =>
      have hmem : first ∈ w.live := by
        rw [h.forward.head_eq] at hfirst
        exact List.mem_of_head? hfirst
      rw [Option.elim_some, Option.elim_some, Function.update_comm (hne first hmem)]
  · intro j hj
    change update t.refCount nb 1 j = (update w.refs nb 1 j : ℕ)
    by_cases hji : j = nb
    · rw [hji, update_self, update_self]
      rfl
    · rw [update_of_ne hji, update_of_ne hji, hrefs]
      exact h.refCount j ((List.mem_cons.mp hj).resolve_left hji)
  · intro j hj
    change (update t.buffer nb buffer j).dataSize ≤ (update t.buffer nb buffer j).memSize
    by_cases hji : j = nb
    · rw [hji, update_self]
      exact hsize
    · rw [update_of_ne hji, hbuffer]
      exact h.size j ((List.mem_cons.mp hj).resolve_left hji)
  · intro j hj
    change (update t.buffer nb buffer j).memSize ≤ (update t.buffer nb buffer j).mem.length ∧
      ((update t.buffer nb buffer j).deletable = true →
        (update t.buffer nb buffer j).mem.length = (update t.buffer nb buffer j).memSize + 1)
    by_cases hji : j = nb
    · rw [hji, update_self]
      exact hmem
    · rw [update_of_ne hji, hbuffer]
      exact h.mem j ((List.mem_cons.mp hj).resolve_left hji)
  · change w.total + n = ((nb :: w.live).map fun j => bytes (update t.buffer nb buffer j)).sum
    rw [hbuffer, total_cons hnew, hn]
  · rcases List.mem_cons.mp hlive with rfl | hlive
    · exact (List.nodup_cons.mp hnodup).1 hj
    · exact (hfree j).1 (List.mem_cons_of_mem _ hj) hlive
  · rcases hj with hj | hj
    · exact .inl (List.mem_cons_of_mem _ hj)
    · rcases List.mem_cons.mp hj with rfl | hj
      · exact .inl List.mem_cons_self
      · exact .inr hj
  · change ((nb :: w.live).map fun j => bytes (update t.buffer nb buffer j)).sum < 2 ^ 32
    rw [hbuffer, total_cons hnew, ← hn]
    exact hfits

theorem newBuffer_right (h : Inv w) {fresh : ℕ → UInt8} {n : ℕ}
    (hmeets : Meets w (.newBuffer fresh n)) : ∃ ok w', step w (.newBuffer fresh n) =
      some (ok, w') ∧ Right w ok w' (.newBuffer fresh n) ∧ Inv w' := by
  obtain ⟨nb, hcreate, hright, hinv⟩ := @create_right w h
    ⟨(List.range n).map fresh ++ [0], n, 0, true⟩ (n + 1) (Nat.zero_le _) (by simp) rfl hmeets
  exact ⟨true, _, hcreate, hright, hinv⟩

theorem newBufferByCharP_right (h : Inv w) {ptr : List UInt8} {n m : ℕ}
    (hdoc : Documented w (.newBufferByCharP ptr n m)) : ∃ ok w',
      step w (.newBufferByCharP ptr n m) = some (ok, w') ∧
        Right w ok w' (.newBufferByCharP ptr n m) ∧ Inv w' := by
  obtain ⟨nb, hcreate, hright, hinv⟩ := @create_right w h ⟨ptr, n, m, false⟩ 0 hdoc.2
    ⟨hdoc.1, fun hfalse => Bool.noConfusion hfalse⟩ rfl h.fits
  exact ⟨true, _, hcreate, hright, hinv⟩

/-- The last reference: the buffer is cut out of the list. -/
theorem release_right (h : Inv w) (hi : i ∈ w.live) (hlast : w.refs i = 1) {count : ℕ → ℤ}
    (hcount : ∀ j, j ≠ i → count j = w.table.refCount j) :
    ∃ t, ({ w.table with refCount := count } : Table).release i = some t ∧
      (∀ j ∈ w.live.erase i, t.buffer j = w.buffer j) ∧
      Inv ⟨t, w.live.erase i, update w.refs i 0⟩ := by
  obtain ⟨before, rest, hlive⟩ := List.append_of_mem hi
  have hnodup := h.nodup
  have hne : ∀ j ∈ w.live.erase i, j ≠ i ∧ j ∈ w.live := fun j hj => hnodup.mem_erase_iff.mp hj
  have herase : w.live.erase i = before ++ rest := by
    rw [hlive] at hnodup ⊢
    have hi' : i ∉ before := fun hmem =>
      (List.nodup_append.mp hnodup).2.2 i hmem i List.mem_cons_self rfl
    rw [List.erase_append_right _ hi', List.erase_cons_head]
  have hforward : Chain none some w.table.next w.table.gBufferList (before ++ i :: rest) :=
    hlive ▸ h.forward
  have hback : Chain none some w.table.prev w.live.getLast?
      (rest.reverse ++ i :: before.reverse) := by
    have hback := h.back
    rw [hlive, List.reverse_append, List.reverse_cons, List.append_assoc] at hback
    rw [hlive]
    exact hback
  have hnext : w.table.next i = rest.head? := hforward.next_of_split
  have hprev : w.table.prev i = before.getLast? := by
    rw [hback.next_of_split, List.head?_reverse]
  have hassert : ¬ (w.table.prev i = none ∧ w.table.gBufferList ≠ some i) := by
    rintro ⟨hnone, hne⟩
    rw [hprev, List.getLast?_eq_none_iff] at hnone
    rw [hnone] at hforward
    exact hne hforward.head_eq
  have hcut := hforward.cut
  have hcut' := hback.cut
  rw [← hprev] at hcut
  rw [List.getLast?_reverse, ← hnext] at hcut'
  have hsum := List.sum_map_erase (fun j => bytes (w.buffer j)) hi
  have htotal := h.bytes
  have hfits := h.fits
  rw [World.total, ← hsum] at htotal hfits
  rw [Table.release]
  simp only
  rw [if_neg hassert]
  refine ⟨_, rfl, ?_⟩
  generalize hbuffer : (if (w.table.buffer i).deletable = true then
      update w.table.buffer i { w.table.buffer i with mem := [] } else w.table.buffer) = buffer
  have hother : ∀ j ∈ w.live.erase i, buffer j = w.buffer j := by
    intro j hj
    rw [← hbuffer]
    split
    · exact update_of_ne (hne j hj).1 _ _
    · rfl
  have hrest : ((w.live.erase i).map fun j => bytes (buffer j)).sum =
      ((w.live.erase i).map fun j => bytes (w.buffer j)).sum := by
    rw [List.map_congr_left fun j hj => congrArg bytes (hother j hj)]
  refine ⟨hother, ⟨⟨fun j => ?_, ?_, ?_, fun j hj => ?_, fun j hj => ?_, fun j hj => ?_, ?_⟩,
    List.nodup_cons.mpr ⟨fun hmem => h.free i hmem hi, h.pool⟩, fun j hj hmem => ?_,
    fun j hj => ?_, ?_⟩⟩
  · change j ∈ w.live.erase i ↔ 0 < update w.refs i 0 j
    by_cases hji : j = i
    · rw [hji, update_self]
      exact ⟨fun hmem => absurd rfl (hne i hmem).1, fun hlt => absurd hlt (Nat.lt_irrefl 0)⟩
    · rw [update_of_ne hji, hnodup.mem_erase_iff, and_iff_right hji]
      exact h.live j
  · rw [herase] at hne ⊢
    exact hcut.congr fun j hj => (update_of_ne (hne j hj).1 _ _).symm
  · rw [herase] at hne ⊢
    rw [← List.reverse_append] at hcut'
    have hlast : ((w.table.next i).elim (w.table.prev i) fun _ => w.live.getLast?) =
        (before ++ rest).getLast? := by
      rw [hnext, hprev, hlive]
      cases rest with
      | nil => rw [List.append_nil]; rfl
      | cons k rest => rw [List.head?_cons, Option.elim_some, List.getLast?_append_cons,
          List.getLast?_cons_cons, List.getLast?_append_cons]
    rw [← hlast]
    exact hcut'.congr fun j hj =>
      (update_of_ne (hne j (List.mem_reverse.mp hj)).1 _ _).symm
  · change count j = (update w.refs i 0 j : ℕ)
    rw [hcount j (hne j hj).1, update_of_ne (hne j hj).1]
    exact h.refCount j (hne j hj).2
  · change (buffer j).dataSize ≤ (buffer j).memSize
    rw [hother j hj]
    exact h.size j (hne j hj).2
  · change (buffer j).memSize ≤ (buffer j).mem.length ∧
      ((buffer j).deletable = true → (buffer j).mem.length = (buffer j).memSize + 1)
    rw [hother j hj]
    exact h.mem j (hne j hj).2
  · change (if (w.table.buffer i).deletable = true then _ else _) =
      ((w.live.erase i).map fun j => bytes (buffer j)).sum
    rw [hrest, htotal, bytes]
    split
    · rename_i hdeletable
      rw [bytes, if_pos hdeletable] at hfits
      rw [unsigned]
      simp only [World.buffer] at hfits ⊢
      omega
    · rw [Nat.zero_add]
  · rcases List.mem_cons.mp hj with rfl | hj
    · exact (hne j hmem).1 rfl
    · exact h.free j hj (hne j hmem).2
  · rcases hj with hj | hj
    · rcases List.mem_cons.mp hj with rfl | hj
      · exact h.below j (.inr hi)
      · exact h.below j (.inl hj)
    · exact h.below j (.inr (hne j hj).2)
  · change ((w.live.erase i).map fun j => bytes (buffer j)).sum < 2 ^ 32
    omega

theorem delBuffer_right (h : Inv w) (hi : i ∈ w.live) : ∃ ok w',
    step w (.delBuffer i) = some (ok, w') ∧ Right w ok w' (.delBuffer i) ∧ Inv w' := by
  have hcount := h.refCount i hi
  have hpos := (h.live i).mp hi
  rw [step, Table.delBuffer]
  by_cases hlast : w.refs i = 1
  · have hzero : w.table.refCount i - 1 = 0 := by omega
    obtain ⟨t, hrelease, hsame, hinv⟩ := @release_right w i h hi hlast
      (update w.table.refCount i (w.table.refCount i - 1)) fun j hji => update_of_ne hji _ _
    have hnone : w.refs i - 1 = 0 := by omega
    simp only [if_pos hlast, if_pos hzero, hrelease, hnone]
    refine ⟨true, _, rfl, ⟨?_, hsame⟩, hinv⟩
    rw [if_pos hlast]
  · have hzero : w.table.refCount i - 1 ≠ 0 := by omega
    simp only [if_neg hlast, if_neg hzero]
    refine ⟨true, _, rfl, ⟨?_, fun _ _ => rfl⟩, ⟨⟨fun j => ?_, h.forward, h.back, fun j hj => ?_,
      h.size, h.mem, h.bytes⟩, h.pool, h.free, h.below, h.fits⟩⟩
    · rw [if_neg hlast]
    · change j ∈ w.live ↔ 0 < update w.refs i (w.refs i - 1) j
      by_cases hji : j = i
      · rw [hji, update_self]
        exact ⟨fun _ => by omega, fun _ => hi⟩
      · rw [update_of_ne hji]
        exact h.live j
    · change update w.table.refCount i (w.table.refCount i - 1) j =
        (update w.refs i (w.refs i - 1) j : ℕ)
      by_cases hji : j = i
      · rw [hji, update_self, update_self]
        omega
      · rw [update_of_ne hji, update_of_ne hji]
        exact h.refCount j hj

/-! ### Any call -/

/-- A call that meets the condition. -/
theorem Inv.step (h : Inv w) {call : Call} (hdoc : Documented w call) (hmeets : Meets w call) :
    ∃ ok w', step w call = some (ok, w') ∧ Right w ok w' call ∧ Inv w' := by
  cases call with
  | newBuffer fresh n => exact newBuffer_right h hmeets
  | newBufferByCharP ptr n m => exact newBufferByCharP_right h hdoc
  | delBuffer i => exact delBuffer_right h hdoc
  | bufferTakeRef i => exact bufferTakeRef_right h hdoc hmeets
  | store i pos cs => exact store_right h hdoc
  | bufferSetDataSize i n => exact bufferSetDataSize_right h hdoc
  | bufferIncrDataSize i n => exact bufferIncrDataSize_right h hdoc
  | bufferDecrDataSize i n => exact hmeets.elim
  | copyBuffer dest src => exact copyBuffer_right h hdoc
  | concatBuffer dest src => exact concatBuffer_right h hdoc hmeets
  | expandBuffer fresh i amt => exact expandBuffer_right h hdoc hmeets

theorem create_lt {nb : ℕ × Table} {n : ℕ} (hcreate : t.create b n = some nb) :
    nb.2.bufferByteCount < 2 ^ 32 ∧ (nb.2.buffer nb.1).deletable = b.deletable := by
  rw [Table.create] at hcreate
  generalize (if t.bufferPool = [] then t.fillBufferPool else t) = t' at hcreate
  split at hcreate
  · cases hcreate
  · rename_i first pool _
    obtain rfl := Option.some.inj hcreate
    refine ⟨unsigned_lt (t'.bufferByteCount + n), ?_⟩
    change (update t'.buffer first b first).deletable = b.deletable
    rw [update_self]

/-- A call that is right meets the condition. -/
theorem Inv.meets (h : Inv w) {call : Call} (hdoc : Documented w call)
    (hstep : Buffers.step w call = some (ok, w')) (hright : Right w ok w' call)
    (hsound : Sound w') : Meets w call := by
  cases call with
  | newBuffer fresh n =>
    obtain ⟨nb, hcreate, hw⟩ := Option.map_eq_some_iff.mp hstep
    obtain ⟨-, rfl⟩ := Prod.mk.inj hw
    obtain ⟨hlt, hdeletable⟩ := create_lt hcreate
    obtain ⟨i, hi, hlive, hsize, -, hsame⟩ := hright
    obtain ⟨rfl, -⟩ := List.cons.inj hlive
    have hbytes := hsound.bytes
    have hmap : w.live.map (fun j => bytes (nb.2.buffer j)) =
        w.live.map fun j => bytes (w.buffer j) :=
      List.map_congr_left fun j hj => congrArg bytes (hsame j hj)
    change nb.2.bufferByteCount = bytes (nb.2.buffer nb.1) +
      (w.live.map fun j => bytes (nb.2.buffer j)).sum at hbytes
    change (nb.2.buffer nb.1).memSize = n at hsize
    rw [hmap, bytes, if_pos hdeletable, hsize] at hbytes
    rw [Meets, World.total]
    omega
  | bufferTakeRef i =>
    obtain ⟨t, htake, -⟩ := Option.map_eq_some_iff.mp hstep
    rw [Table.bufferTakeRef] at htake
    split at htake
    · rename_i hlt
      rw [h.refCount i hdoc] at hlt
      exact_mod_cast hlt
    · cases htake
  | bufferDecrDataSize i n =>
    obtain ⟨b, hdecr, -⟩ := Option.map_eq_some_iff.mp hstep
    rw [bufferDecrDataSize, if_neg (Nat.not_lt.mpr hdoc.2)] at hdecr
    cases hdecr
  | concatBuffer i src =>
    rw [concatBuffer_eq h hdoc] at hstep
    split at hstep
    · rename_i hfit
      generalize hcount : unsigned _ = n at hstep
      have hlt : n < 2 ^ 32 := hcount ▸ unsigned_lt _
      obtain ⟨-, rfl⟩ := Prod.mk.inj (Option.some.inj hstep)
      obtain ⟨hi, hsrc⟩ := hdoc
      obtain ⟨-, -, hdata⟩ := hright
      have hbytes := hsound.bytes
      rw [total_concat h hi] at hbytes
      refine ⟨⟨hfit.1, hfit.2, ?_⟩, hbytes ▸ hlt⟩
      rw [buffer_set, data_appended h hi.1] at hdata
      refine (appends_rest ?_).mp (List.append_cancel_left hdata)
      rw [(h.mem src hsrc.1).2 hsrc.2]
      exact hfit.1
    · cases hstep
  | expandBuffer fresh i amt =>
    obtain ⟨b, hexpand, hmemSize, -, hdeletable, -, -⟩ := expandBuffer_eq h hdoc
    generalize hcount : unsigned _ = n at hexpand
    have hlt : n < 2 ^ 32 := hcount ▸ unsigned_lt _
    obtain ⟨-, rfl⟩ := Prod.mk.inj (Option.some.inj (hexpand.symm.trans hstep))
    have hbytes : n = _ := hsound.bytes
    have htotal := total_set h hdoc.1.1 b n
    rw [bytes, bytes, if_pos hdeletable, if_pos hdoc.1.2, hmemSize, ← hbytes] at htotal
    rw [Meets]
    omega
  | _ => trivial

end Steps

/-- Nothing is allocated. -/
def start : World where
  table :=
    { buffer := fun _ => ⟨[], 0, 0, false⟩
      refCount := fun _ => 0
      next := fun _ => none
      prev := fun _ => none
      gBufferList := none
      bufferPool := []
      bufferCount := 0
      bufferByteCount := 0
      allocated := 0 }
  live := []
  refs _ := 0

theorem start_inv : Inv start where
  live := fun _ => ⟨fun h => absurd h List.not_mem_nil, fun h => absurd h (Nat.lt_irrefl 0)⟩
  forward := rfl
  back := rfl
  refCount := fun _ h => absurd h List.not_mem_nil
  size := fun _ h => absurd h List.not_mem_nil
  mem := fun _ h => absurd h List.not_mem_nil
  bytes := rfl
  pool := List.nodup_nil
  free := fun _ h => absurd h List.not_mem_nil
  below := fun _ h => by rcases h with h | h <;> exact absurd h List.not_mem_nil
  fits := by decide

/-- In any run of calls that meet the condition, the list, the counts and the sizes are right; and
the next call is right when it meets the condition, and only then. -/
theorem buffers_right {calls : List Call} {w : World}
    (h : Steps (guarded Meets Next) start calls w) : Sound w ∧ ∀ call, Documented w call →
      ((∃ ok w', step w call = some (ok, w') ∧ Right w ok w' call ∧ Sound w') ↔ Meets w call) := by
  have hinv : Inv w := by
    refine Steps.invariant (fun w call w' hstep hinv => ?_) h start_inv
    obtain ⟨hmeets, hdoc, ok, hstep⟩ := hstep
    obtain ⟨ok', w'', hstep', -, hinv'⟩ := hinv.step hdoc hmeets
    obtain ⟨-, rfl⟩ := Prod.mk.inj (Option.some.inj (hstep.symm.trans hstep'))
    exact hinv'
  refine ⟨hinv.toSound, fun call hdoc => ⟨?_, fun hmeets => ?_⟩⟩
  · rintro ⟨ok, w', hstep, hright, hsound⟩
    exact hinv.meets hdoc hstep hright hsound
  · obtain ⟨ok, w', hstep, hright, hinv'⟩ := hinv.step hdoc hmeets
    exact ⟨ok, w', hstep, hright, hinv'.toSound⟩

instance (w : World) (i : ℕ) : Decidable (w.Has i) :=
  inferInstanceAs (Decidable (i ∈ w.live ∧ (w.buffer i).deletable = true))

instance (dest src : Buffer) : Decidable (Appends dest src) :=
  decidable_of_iff (dest.dataSize ≤ src.memSize + 1 ∧
      2 * dest.dataSize ≤ max dest.memSize (dest.dataSize + src.dataSize) + 1 ∧
      ((behind dest src).drop dest.dataSize).take (src.dataSize - dest.dataSize) =
        (data src).drop dest.dataSize)
    ⟨fun h => ⟨h.1, h.2.1, h.2.2⟩, fun h => ⟨h.read, h.written, h.rest⟩⟩

instance (w : World) (call : Call) : Decidable (Documented w call) :=
  match call with
  | .newBuffer _ size => inferInstanceAs (Decidable (size + 1 < 2 ^ 64))
  | .newBufferByCharP ptr size dataSize =>
    inferInstanceAs (Decidable (size ≤ ptr.length ∧ dataSize ≤ size))
  | .delBuffer i | .bufferTakeRef i => inferInstanceAs (Decidable (i ∈ w.live))
  | .store i pos bytes =>
    inferInstanceAs (Decidable (w.Has i ∧ pos + bytes.length ≤ (w.buffer i).memSize + 1))
  | .bufferSetDataSize i size =>
    inferInstanceAs (Decidable (w.Has i ∧ size ≤ (w.buffer i).memSize))
  | .bufferIncrDataSize i size =>
    inferInstanceAs (Decidable (w.Has i ∧ (w.buffer i).dataSize + size ≤ (w.buffer i).memSize))
  | .bufferDecrDataSize i size =>
    inferInstanceAs (Decidable (w.Has i ∧ size ≤ (w.buffer i).dataSize))
  | .copyBuffer dest src | .concatBuffer dest src =>
    inferInstanceAs (Decidable (w.Has dest ∧ w.Has src))
  | .expandBuffer _ i amt =>
    inferInstanceAs (Decidable (w.Has i ∧ (w.buffer i).memSize + amt + 1 < 2 ^ 64))

instance (w : World) (call : Call) : Decidable (Meets w call) :=
  match call with
  | .newBuffer _ size => inferInstanceAs (Decidable (w.total + (size + 1) < 2 ^ 32))
  | .bufferTakeRef i => inferInstanceAs (Decidable (w.refs i + 1 < 2 ^ 31))
  | .bufferDecrDataSize _ _ => .isFalse id
  | .concatBuffer dest src => inferInstanceAs (Decidable
      (Appends (w.buffer dest) (w.buffer src) ∧ w.total + ((w.buffer dest).dataSize +
        (w.buffer src).dataSize - (w.buffer dest).memSize) < 2 ^ 32))
  | .expandBuffer _ _ amt => inferInstanceAs (Decidable (w.total + amt < 2 ^ 32))
  | .newBufferByCharP _ _ _ | .delBuffer _ | .store _ _ _ | .bufferSetDataSize _ _
  | .bufferIncrDataSize _ _ | .copyBuffer _ _ => .isTrue trivial

/-- Two buffers are filled. -/
def filled (a b : List UInt8) : List Call :=
  [.newBuffer (fun _ => 0) 4, .store 0 0 a, .bufferSetDataSize 0 a.length,
    .newBuffer (fun _ => 0) 4, .store 1 0 b, .bufferSetDataSize 1 b.length]

/-- The world behind calls that meet the condition. -/
def after (calls : List Call) : Option World :=
  calls.foldlM (fun w call =>
    if Documented w call ∧ Meets w call then (step w call).map Prod.snd else none) start

theorem steps_after {calls : List Call} {w : World} (h : after calls = some w) :
    Steps (guarded Meets Next) start calls w := by
  refine (Steps.of_foldlM h).mono fun w call w' hstep => ?_
  by_cases hmeets : Documented w call ∧ Meets w call
  · rw [if_pos hmeets] at hstep
    obtain ⟨⟨ok, w''⟩, hcall, rfl⟩ := Option.map_eq_some_iff.mp hstep
    exact ⟨hmeets.2, hmeets.1, ok, hcall⟩
  · rw [if_neg hmeets] at hstep
    cases hstep

/-- Two buffers of one length. -/
theorem buffers_right_filled : ∃ w ok w', Steps (guarded Meets Next) start (filled [97] [98]) w ∧
    step w (.concatBuffer 0 1) = some (ok, w') ∧ data (w'.buffer 0) = [97, 98] ∧ Sound w' := by
  have hafter : after (filled [97] [98]) = some _ := (Option.some_get (by decide)).symm
  have hsteps := steps_after hafter
  obtain ⟨ok, w', hstep, ⟨-, -, hdata⟩, hsound⟩ :=
    ((buffers_right hsteps).2 (.concatBuffer 0 1) (by decide)).mpr (by decide)
  exact ⟨_, ok, w', hsteps, hstep, hdata.trans (by decide), hsound⟩

/-- The second buffer is longer than the first one: only its first byte is copied. -/
theorem concat_not_appended : ¬ ∀ calls w, Steps Next start calls w → ∀ call, Documented w call →
    ∃ ok w', step w call = some (ok, w') ∧ Right w ok w' call := by
  intro hall
  have hafter : after (filled [97] [98, 99]) = some _ := (Option.some_get (by decide)).symm
  have hsteps := (steps_after hafter).mono fun _ _ _ hstep => hstep.2
  obtain ⟨ok, w', hstep, -, -, hdata⟩ := hall _ _ hsteps (.concatBuffer 0 1) (by decide)
  have hcopied := congrArg (Option.map fun r => data (r.2.buffer 0)) hstep
  rw [Option.map_some, hdata] at hcopied
  revert hcopied
  decide

end Inn.Innfeed.Buffers
