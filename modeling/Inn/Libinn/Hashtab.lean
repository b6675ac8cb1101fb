import Mathlib.Algebra.Order.Ring.Nat
import Mathlib.Data.Nat.ModEq
import Mathlib.Data.Set.Card

/-!
# Inn.Libinn.Hashtab — the generic hash table

`hashtab.c` is open addressing with linear probing. A deleted element leaves `HASH_DELETED`
behind, an insertion takes the last such slot it passed, and a table that is three quarters
full is built anew before an insertion.

* `hash_size_eq` — the sizes are powers of two, and `1 << n` has no meaning from `n = 31` on;
* `Inv` — what every operation keeps: the counters are right, a quarter of the slots is empty,
  and the way to an element meets no empty slot;
* `step_spec` — one operation does to the table what it does to a finite map;
* `table_is_map` — and so does every sequence of them.
-/

namespace Inn.Libinn.Hashtab

/-! ## The table -/

/-- A slot: `HASH_EMPTY`, `HASH_DELETED` or an element. -/
inductive Slot (V : Type*) where
  | empty
  | deleted
  | full (v : V)
deriving DecidableEq

/-- The element in a slot. -/
def Slot.element {V : Type*} : Slot V → Option V
  | .full v => some v
  | _ => none

def Slot.isEmpty {V : Type*} : Slot V → Bool
  | .empty => true
  | _ => false

def Slot.isDeleted {V : Type*} : Slot V → Bool
  | .deleted => true
  | _ => false

/-- The functions a table is created with. -/
structure Funcs (K V : Type*) where
  hash : K → ℕ
  key : V → K
  equal : K → V → Bool

/-- `struct hash`. -/
structure Hash (V : Type*) where
  size : ℕ
  mask : ℕ
  nelements : ℕ
  ndeleted : ℕ
  table : List (Slot V)

variable {K V C : Type*}

def Hash.slot (h : Hash V) (i : ℕ) : Slot V := h.table.getD i .empty

/-- The loop of `hash_size` that counts the bits of a `size_t`. -/
def countBits : ℕ → ℕ → ℕ
  | 0, _ => 0
  | bits + 1, size => if 0 < size then countBits bits (size >>> 1) + 1 else 0

/-- `1 << n` is a shift of an `int`: it has a value up to bit 30. -/
def intShift (n : ℕ) : Option ℕ := if n < 31 then some (1 <<< n) else none

/-- `hash_size`. -/
def hash_size (target : ℕ) : Option ℕ :=
  if target = 0 then some 4
  else (intShift (countBits 64 (target - 1))).map fun size => if size < 4 then 4 else size

/-- A table of empty slots. -/
def blank (V : Type*) (size : ℕ) : Hash V := ⟨size, size - 1, 0, 0, List.replicate size .empty⟩

/-- `hash_create`. -/
def hash_create (V : Type*) (size : ℕ) : Option (Hash V) := (hash_size size).map (blank V)

/-- The slot that is probed after this one. -/
def Hash.next (h : Hash V) (slot : ℕ) : ℕ :=
  if h.size ≤ slot + 1 then slot + 1 - h.size else slot + 1

section Operations

variable (F : Funcs K V)

/-- The loop of `hash_find_empty`. A loop that meets no empty slot in `size` turns has met
them all and goes round for ever, which `none` stands for. -/
def findEmptyLoop (h : Hash V) : ℕ → ℕ → Option ℕ
  | 0, _ => none
  | fuel + 1, slot =>
    if (h.slot slot).isEmpty then some slot else findEmptyLoop h fuel (h.next slot)

/-- `hash_find_empty`. -/
def hash_find_empty (h : Hash V) (key : K) : Option ℕ :=
  findEmptyLoop h h.size (F.hash key &&& h.mask)

/-- What `hash_expand` does with a slot of the old table. -/
def moveSlot (h : Hash V) : Slot V → Option (Hash V)
  | .full v => (hash_find_empty F h (F.key v)).map fun slot =>
      { h with table := h.table.set slot (.full v), nelements := h.nelements + 1 }
  | _ => some h

/-- `hash_expand`. -/
def hash_expand (h : Hash V) : Option (Hash V) :=
  (hash_size ((h.nelements - h.ndeleted) * 2)).bind fun size =>
    h.table.foldlM (moveSlot F) (blank V size)

/-- `hash_find_slot` at an empty slot. -/
def atEmpty (h : Hash V) (insert : Bool) (deleted_slot : Option ℕ) (slot : ℕ) :
    Option ℕ × Hash V :=
  if insert then
    match deleted_slot with
    | some d => (some d, { h with table := h.table.set d .empty, ndeleted := h.ndeleted - 1 })
    | none => (some slot, { h with nelements := h.nelements + 1 })
  else (none, h)

/-- The loop of `hash_find_slot`. -/
def findLoop (key : K) (insert : Bool) (h : Hash V) :
    ℕ → Option ℕ → ℕ → Option (Option ℕ × Hash V)
  | 0, _, _ => none
  | fuel + 1, deleted_slot, slot =>
    match h.slot slot with
    | .empty => some (atEmpty h insert deleted_slot slot)
    | .deleted =>
      findLoop key insert h fuel (if insert then some slot else deleted_slot) (h.next slot)
    | .full entry =>
      if F.equal key entry then some (some slot, h)
      else findLoop key insert h fuel deleted_slot (h.next slot)

/-- The table `hash_find_slot` looks at: an insertion into a full one expands it. -/
def makeSpace (h : Hash V) (insert : Bool) : Option (Hash V) :=
  if insert && h.size * 3 ≤ h.nelements * 4 then hash_expand F h else some h

/-- `hash_find_slot`. -/
def hash_find_slot (h : Hash V) (key : K) (insert : Bool) : Option (Option ℕ × Hash V) :=
  (makeSpace F h insert).bind fun h =>
    findLoop F key insert h h.size none (F.hash key &&& h.mask)

/-- `hash_lookup`. -/
def hash_lookup (h : Hash V) (key : K) : Option (Option V) :=
  (hash_find_slot F h key false).map fun found =>
    found.1.bind fun slot => (found.2.slot slot).element

/-- `hash_insert` once the slot is known. -/
def insertAt (datum : V) (slot : ℕ) (h : Hash V) : Bool × Hash V :=
  if (h.slot slot).isEmpty then (true, { h with table := h.table.set slot (.full datum) })
  else (false, h)

/-- `hash_insert`. -/
def hash_insert (h : Hash V) (key : K) (datum : V) : Option (Bool × Hash V) :=
  (hash_find_slot F h key true).bind fun found =>
    found.1.map fun slot => insertAt datum slot found.2

/-- `hash_replace`, with `HASH_DELETED` among the values that it can store. -/
def hash_replace (h : Hash V) (key : K) (datum : Slot V) : Option (Bool × Hash V) :=
  (hash_find_slot F h key false).map fun found =>
    match found.1 with
    | none => (false, h)
    | some slot => (true, { h with table := h.table.set slot datum })

/-- `hash_delete`. -/
def hash_delete (h : Hash V) (key : K) : Option (Bool × Hash V) :=
  (hash_replace F h key .deleted).map fun result =>
    if result.1 then (true, { result.2 with ndeleted := result.2.ndeleted + 1 }) else result

end Operations

/-- `hash_count`. -/
def hash_count (h : Hash V) : ℕ := h.nelements - h.ndeleted

/-- The elements in the order of their slots. -/
def Hash.elements (h : Hash V) : List V := h.table.filterMap Slot.element

/-- `hash_traverse`. -/
def hash_traverse {A : Type*} (h : Hash V) (callback : A → V → A) (cookie : A) : A :=
  h.elements.foldl callback cookie

/-! ## Sizes -/

theorem lt_two_pow_countBits {bits size : ℕ} (h : size < 2 ^ bits) :
    size < 2 ^ countBits bits size := by
  induction bits generalizing size with
  | zero => simpa [countBits] using h
  | succ bits ih =>
    rw [countBits]
    split
    · have hhalf : size >>> 1 = size / 2 := Nat.shiftRight_succ size 0
      have hlt := @ih (size >>> 1) (by rw [hhalf]; omega)
      rw [hhalf] at hlt ⊢
      rw [Nat.pow_succ]
      omega
    · simp only [Nat.pow_zero]
      omega

theorem countBits_le {bits size n : ℕ} (h : size < 2 ^ n) : countBits bits size ≤ n := by
  induction bits generalizing size n with
  | zero => exact Nat.zero_le n
  | succ bits ih =>
    rw [countBits]
    split
    · rename_i hpos
      obtain - | n := n
      · omega
      · have hhalf : size >>> 1 = size / 2 := Nat.shiftRight_succ size 0
        have hle := @ih (size >>> 1) n (by rw [hhalf, Nat.pow_succ] at *; omega)
        omega
    · exact Nat.zero_le n

/-- The sizes of tables. -/
theorem hash_size_eq {target : ℕ} (h : target ≤ 2 ^ 30) :
    ∃ n, 2 ≤ n ∧ hash_size target = some (2 ^ n) ∧ target ≤ 2 ^ n := by
  rw [hash_size]
  split
  · exact ⟨2, le_rfl, rfl, by omega⟩
  · have hle : countBits 64 (target - 1) ≤ 30 := countBits_le (by omega)
    have hlt : target - 1 < 2 ^ countBits 64 (target - 1) :=
      lt_two_pow_countBits (Nat.lt_trans (by omega : target - 1 < 2 ^ 30) (by decide))
    rw [intShift, if_pos (by omega), Option.map_some, Nat.one_shiftLeft]
    generalize countBits 64 (target - 1) = n at hle hlt
    by_cases hn : n < 2
    · have : n = 0 ∨ n = 1 := by omega
      refine ⟨2, le_rfl, ?_, ?_⟩ <;> rcases this with rfl | rfl <;> simp at * <;> omega
    · have hpow : 2 ^ 2 ≤ 2 ^ n := Nat.pow_le_pow_right (by decide) (by omega)
      exact ⟨n, by omega, by rw [if_neg (by omega)], by omega⟩

/-- Larger sizes shift the `int` too far. -/
theorem hash_size_eq_none {target : ℕ} (h : 2 ^ 30 < target) (hmax : target < 2 ^ 64) :
    hash_size target = none := by
  have hlt : target - 1 < 2 ^ countBits 64 (target - 1) := lt_two_pow_countBits (by omega)
  have hbits : ¬ countBits 64 (target - 1) < 31 := by
    intro hn
    have := Nat.pow_le_pow_right (n := 2) (by decide) (Nat.le_of_lt_succ hn)
    omega
  rw [hash_size, if_neg (by omega), intShift, if_neg hbits]
  rfl

/-! ## Probing -/

/-- The `i`th slot that is probed for a key with this hash. -/
def Hash.probe (h : Hash V) (hash i : ℕ) : ℕ := (hash + i) % h.size

/-- The size of a table is a power of two, which the mask and the table itself agree with. -/
structure Shaped (h : Hash V) : Prop where
  power : ∃ n, 2 ≤ n ∧ h.size = 2 ^ n
  mask : h.mask = h.size - 1
  length : h.table.length = h.size

namespace Shaped

variable {h : Hash V}

theorem four_dvd (hs : Shaped h) : 4 ∣ h.size := by
  obtain ⟨n, hn, hsize⟩ := hs.power
  rw [hsize]
  exact Nat.pow_dvd_pow 2 hn

theorem size_pos (hs : Shaped h) : 0 < h.size := by
  obtain ⟨n, -, hsize⟩ := hs.power
  rw [hsize]
  exact Nat.two_pow_pos n

theorem first (hs : Shaped h) (hash : ℕ) : hash &&& h.mask = h.probe hash 0 := by
  obtain ⟨n, -, hsize⟩ := hs.power
  rw [hs.mask, hsize, Nat.and_two_pow_sub_one_eq_mod, Hash.probe, hsize, Nat.add_zero]

theorem probe_lt (hs : Shaped h) (hash i : ℕ) : h.probe hash i < h.size :=
  Nat.mod_lt _ hs.size_pos

theorem next_probe (hs : Shaped h) (hash i : ℕ) :
    h.next (h.probe hash i) = h.probe hash (i + 1) := by
  have hpos := hs.size_pos
  have hlt := hs.probe_lt hash i
  rw [Hash.next, Hash.probe, Hash.probe] at *
  rw [← Nat.add_assoc, Nat.add_mod (hash + i) 1]
  generalize (hash + i) % h.size = m at *
  have hfour := Nat.le_of_dvd hpos hs.four_dvd
  rw [Nat.mod_eq_of_lt (by omega : 1 < h.size)]
  split
  · have heq : m + 1 = h.size := by omega
    rw [heq, Nat.mod_self, Nat.sub_self]
  · rw [Nat.mod_eq_of_lt (by omega)]

/-- Every slot is probed for every key. -/
theorem exists_probe (hs : Shaped h) (hash : ℕ) {slot : ℕ} (hslot : slot < h.size) :
    ∃ i < h.size, h.probe hash i = slot := by
  have hpos := hs.size_pos
  have hlt : hash % h.size < h.size := Nat.mod_lt _ hpos
  have hsum : ∀ i, h.probe hash i = (hash % h.size + i) % h.size := fun i => by
    rw [Hash.probe, Nat.mod_add_mod]
  by_cases hle : hash % h.size ≤ slot
  · refine ⟨slot - hash % h.size, by omega, ?_⟩
    rw [hsum, Nat.add_sub_cancel' hle, Nat.mod_eq_of_lt hslot]
  · refine ⟨slot + h.size - hash % h.size, by omega, ?_⟩
    rw [hsum, Nat.add_sub_cancel' (by omega), Nat.add_mod_right, Nat.mod_eq_of_lt hslot]

end Shaped

/-! ## What the loops find -/

section Loops

variable {F : Funcs K V} {h : Hash V} {key : K} {insert : Bool} {n : ℕ}

/-- The slot does not end a search for the key. -/
def Passed (F : Funcs K V) (key : K) : Slot V → Prop
  | .empty => False
  | .deleted => True
  | .full v => F.equal key v = false

theorem findLoop_passed {fuel slot : ℕ} {deleted_slot : Option ℕ}
    (hpass : Passed F key (h.slot slot)) :
    ∃ deleted', findLoop F key insert h (fuel + 1) deleted_slot slot =
        findLoop F key insert h fuel deleted' (h.next slot) ∧
      (deleted' = deleted_slot ∨ deleted' = some slot ∧ h.slot slot = .deleted) := by
  rw [findLoop]
  cases hslot : h.slot slot with
  | empty =>
    rw [hslot] at hpass
    exact hpass.elim
  | deleted =>
    refine ⟨_, rfl, ?_⟩
    cases insert with
    | false => exact .inl rfl
    | true => exact .inr ⟨rfl, rfl⟩
  | full v =>
    rw [hslot] at hpass
    have hne : F.equal key v = false := hpass
    refine ⟨deleted_slot, ?_, .inl rfl⟩
    dsimp only
    rw [hne, if_neg Bool.false_ne_true]

/-- The loop comes to the first slot that is not passed, with the last deleted slot before. -/
theorem findLoop_reaches (hs : Shaped h) {fuel j : ℕ} {deleted_slot : Option ℕ} (hjn : j ≤ n)
    (hfuel : n - j < fuel)
    (hpass : ∀ i, j ≤ i → i < n → Passed F key (h.slot (h.probe (F.hash key) i))) :
    ∃ fuel' deleted', findLoop F key insert h fuel deleted_slot (h.probe (F.hash key) j) =
        findLoop F key insert h (fuel' + 1) deleted' (h.probe (F.hash key) n) ∧
      (deleted' = deleted_slot ∨ ∃ i, j ≤ i ∧ i < n ∧ deleted' = some (h.probe (F.hash key) i) ∧
        h.slot (h.probe (F.hash key) i) = .deleted) := by
  induction fuel generalizing j deleted_slot with
  | zero => exact absurd hfuel (Nat.not_lt_zero _)
  | succ fuel ih =>
    rcases Nat.eq_or_lt_of_le hjn with rfl | hlt
    · exact ⟨fuel, deleted_slot, rfl, .inl rfl⟩
    · obtain ⟨deleted', hstep, hdel⟩ := @findLoop_passed _ _ F h key insert fuel _
        deleted_slot (hpass j le_rfl hlt)
      rw [hstep, hs.next_probe]
      obtain ⟨fuel', deleted'', heq, hdel'⟩ := @ih (j + 1) deleted' hlt (by omega)
        fun i hi hin => hpass i (by omega) hin
      refine ⟨fuel', deleted'', heq, ?_⟩
      rcases hdel' with rfl | ⟨i, hi, hin, hsome, hslot⟩
      · rcases hdel with rfl | ⟨rfl, hslot⟩
        · exact .inl rfl
        · exact .inr ⟨j, le_rfl, hlt, rfl, hslot⟩
      · exact .inr ⟨i, by omega, hin, hsome, hslot⟩

/-- A search that ends in an element of the key. -/
theorem findLoop_full (hs : Shaped h) (hn : n < h.size) {v : V}
    (hpass : ∀ i < n, Passed F key (h.slot (h.probe (F.hash key) i)))
    (hslot : h.slot (h.probe (F.hash key) n) = .full v) (hequal : F.equal key v = true) :
    findLoop F key insert h h.size none (F.hash key &&& h.mask) =
      some (some (h.probe (F.hash key) n), h) := by
  rw [hs.first]
  obtain ⟨fuel, deleted, heq, -⟩ := @findLoop_reaches _ _ F h key insert n hs h.size 0 none
    (Nat.zero_le n) (by omega) fun i _ hi => hpass i hi
  rw [heq, findLoop, hslot]
  dsimp only
  rw [if_pos hequal]

/-- A search that ends in an empty slot. -/
theorem findLoop_empty (hs : Shaped h) (hn : n < h.size)
    (hpass : ∀ i < n, Passed F key (h.slot (h.probe (F.hash key) i)))
    (hslot : h.slot (h.probe (F.hash key) n) = .empty) :
    ∃ deleted, findLoop F key insert h h.size none (F.hash key &&& h.mask) =
        some (atEmpty h insert deleted (h.probe (F.hash key) n)) ∧
      ∀ d, deleted = some d → ∃ i < n, d = h.probe (F.hash key) i ∧ h.slot d = .deleted := by
  rw [hs.first]
  obtain ⟨fuel, deleted, heq, hdel⟩ := @findLoop_reaches _ _ F h key insert n hs h.size 0 none
    (Nat.zero_le n) (by omega) fun i _ hi => hpass i hi
  refine ⟨deleted, ?_, ?_⟩
  · rw [heq, findLoop, hslot]
  · intro d hd
    rcases hdel with hnone | ⟨i, -, hi, hsome, hslot'⟩
    · rw [hnone] at hd
      cases hd
    · rw [hsome] at hd
      obtain rfl := Option.some.inj hd
      exact ⟨i, hi, rfl, hslot'⟩

/-- `hash_find_empty` comes to the first empty slot. -/
theorem hash_find_empty_eq (hs : Shaped h) (hn : n < h.size)
    (hpass : ∀ i < n, (h.slot (h.probe (F.hash key) i)).isEmpty = false)
    (hslot : (h.slot (h.probe (F.hash key) n)).isEmpty = true) :
    hash_find_empty F h key = some (h.probe (F.hash key) n) := by
  have hloop : ∀ fuel j, j ≤ n → n - j < fuel →
      findEmptyLoop h fuel (h.probe (F.hash key) j) = some (h.probe (F.hash key) n) := by
    intro fuel
    induction fuel with
    | zero => exact fun j _ hfuel => absurd hfuel (Nat.not_lt_zero _)
    | succ fuel ih =>
      intro j hjn hfuel
      rcases Nat.eq_or_lt_of_le hjn with rfl | hlt
      · rw [findEmptyLoop, if_pos hslot]
      · rw [findEmptyLoop, hpass j hlt, if_neg Bool.false_ne_true, hs.next_probe]
        exact ih (j + 1) hlt (by omega)
  rw [hash_find_empty, hs.first]
  exact hloop h.size 0 (Nat.zero_le n) (by omega)

end Loops

/-! ## The map that a table stands for -/

/-- The equality compares keys by a canonical form, which the hash of a key depends on only. -/
structure Lawful (F : Funcs K V) (canon : K → C) : Prop where
  equal : ∀ key v, F.equal key v = true ↔ canon key = canon (F.key v)
  hash : ∀ key key', canon key = canon key' → F.hash key = F.hash key'

/-- The table holds the elements of the map `m`, each in one slot, which a search for its key
reaches. -/
structure Inv (F : Funcs K V) (canon : K → C) (h : Hash V) (m : C → Option V) : Prop
    extends Shaped h where
  elements : h.nelements = h.table.countP fun s => !s.isEmpty
  deleted : h.ndeleted = h.table.countP Slot.isDeleted
  room : 4 * h.nelements ≤ 3 * h.size
  live : ∀ s v, h.slot s = .full v → m (canon (F.key v)) = some v
  unique : ∀ s t v w, h.slot s = .full v → h.slot t = .full w →
    canon (F.key v) = canon (F.key w) → s = t
  reached : ∀ c v, m c = some v → canon (F.key v) = c ∧
    ∃ n < h.size, h.slot (h.probe (F.hash (F.key v)) n) = .full v ∧
      ∀ i < n, (h.slot (h.probe (F.hash (F.key v)) i)).isEmpty = false

theorem slot_of_lt {h : Hash V} {s : ℕ} (hs : s < h.table.length) : h.slot s = h.table[s] := by
  rw [Hash.slot, List.getD_eq_getElem?_getD, List.getElem?_eq_getElem hs, Option.getD_some]

theorem lt_of_isEmpty_eq_false {h : Hash V} {s : ℕ} (hs : (h.slot s).isEmpty = false) :
    s < h.table.length := by
  by_contra hge
  rw [Hash.slot, List.getD_eq_getElem?_getD, List.getElem?_eq_none (Nat.le_of_not_lt hge)] at hs
  cases hs

theorem slot_set {h : Hash V} {t : ℕ} (x : Slot V) (ht : t < h.table.length)
    (size mask n d s : ℕ) :
    (Hash.mk size mask n d (h.table.set t x)).slot s = if s = t then x else h.slot s := by
  rw [Hash.slot, Hash.slot, List.getD_eq_getElem?_getD, List.getD_eq_getElem?_getD,
    List.getElem?_set]
  by_cases heq : t = s
  · rw [if_pos heq, if_pos ht, if_pos heq.symm, Option.getD_some]
  · rw [if_neg heq, if_neg (Ne.symm heq)]

/-- What a write to one slot changes in a count of slots. -/
theorem countP_set_slot {h : Hash V} {t : ℕ} (p : Slot V → Bool) (x : Slot V)
    (ht : t < h.table.length) :
    (h.table.set t x).countP p + (if p (h.slot t) then 1 else 0) =
      h.table.countP p + if p x then 1 else 0 := by
  have hpos := List.boole_getElem_le_countP (p := p) ht
  rw [List.countP_set ht, slot_of_lt ht]
  omega

section Searches

variable {F : Funcs K V} {canon : K → C} {h : Hash V} {m : C → Option V}

/-- A quarter of the slots is empty. -/
theorem Inv.exists_empty (hi : Inv F canon h m) : ∃ s < h.size, h.slot s = .empty := by
  by_contra hall
  have hcount : h.table.countP (fun s => !s.isEmpty) = h.table.length := by
    rw [List.countP_eq_length]
    intro x hx
    obtain ⟨s, hs, rfl⟩ := List.getElem_of_mem hx
    cases hslot : h.table[s] with
    | empty => exact absurd ⟨s, hi.length ▸ hs, (slot_of_lt hs).trans hslot⟩ hall
    | deleted => rfl
    | full v => rfl
  have hroom := hi.room
  have hpos := hi.size_pos
  rw [hi.elements, hcount, hi.length] at hroom
  omega

/-- Every search comes to a slot that ends it. -/
theorem Inv.exists_end (hi : Inv F canon h m) (key : K) :
    ∃ n < h.size, (∀ i < n, Passed F key (h.slot (h.probe (F.hash key) i))) ∧
      ¬ Passed F key (h.slot (h.probe (F.hash key) n)) := by
  classical
  obtain ⟨s, hs, hempty⟩ := hi.exists_empty
  obtain ⟨e, he, rfl⟩ := hi.exists_probe (F.hash key) hs
  have hex : ∃ n, ¬ Passed F key (h.slot (h.probe (F.hash key) n)) := ⟨e, by
    rw [hempty]
    exact id⟩
  refine ⟨Nat.find hex, ?_, ?_, Nat.find_spec hex⟩
  · refine Nat.lt_of_le_of_lt (Nat.find_min' hex ?_) he
    rw [hempty]
    exact id
  · intro i hlt
    exact not_not.mp (Nat.find_min hex hlt)

/-- The slot that ends the search for a key holds its element, or it is empty. -/
theorem Inv.find (hF : Lawful F canon) (hi : Inv F canon h m) (key : K) :
    ∃ n < h.size, (∀ i < n, Passed F key (h.slot (h.probe (F.hash key) i))) ∧
      h.slot (h.probe (F.hash key) n) = (m (canon key)).elim .empty .full := by
  obtain ⟨n, hn, hpass, hend⟩ := hi.exists_end key
  refine ⟨n, hn, hpass, ?_⟩
  cases hslot : h.slot (h.probe (F.hash key) n) with
  | deleted =>
    rw [hslot] at hend
    exact absurd trivial hend
  | full v =>
    have hequal : F.equal key v = true := by
      rw [hslot] at hend
      exact Bool.eq_true_of_not_eq_false hend
    rw [(hF.equal key v).mp hequal, hi.live _ v hslot, Option.elim_some]
  | empty =>
    cases hm : m (canon key) with
    | none => rfl
    | some v =>
      -- the way to an element of the key meets no empty slot
      obtain ⟨hcanon, j, hj, hfull, hway⟩ := hi.reached _ v hm
      rw [hF.hash _ _ hcanon] at hfull hway
      rcases Nat.lt_trichotomy j n with hlt | rfl | hlt
      · have hp := hpass j hlt
        rw [hfull] at hp
        have hequal := (hF.equal key v).mpr hcanon.symm
        exact absurd hequal (Bool.eq_false_iff.mp hp)
      · rw [hslot] at hfull
        cases hfull
      · have := hway n hlt
        rw [hslot] at this
        cases this

theorem Inv.find_live (hF : Lawful F canon) (hi : Inv F canon h m) {key : K} {v : V}
    (hm : m (canon key) = some v) (insert : Bool) :
    ∃ s < h.size, h.slot s = .full v ∧
      findLoop F key insert h h.size none (F.hash key &&& h.mask) = some (some s, h) := by
  obtain ⟨n, hn, hpass, hslot⟩ := hi.find hF key
  rw [hm] at hslot
  refine ⟨_, hi.probe_lt _ n, hslot, findLoop_full hi.toShaped hn hpass hslot ?_⟩
  exact (hF.equal key v).mpr (hi.reached _ v hm).1.symm

theorem Passed.nonempty {key : K} {s : Slot V} (h : Passed F key s) : s.isEmpty = false := by
  cases s with
  | empty => exact h.elim
  | deleted => rfl
  | full v => rfl

/-- The elements in a list of slots. -/
def fulls (l : List (Slot V)) : ℕ := l.countP fun s => s.element.isSome

/-- No two slots hold elements of the same key. -/
def Distinct (F : Funcs K V) (canon : K → C) (l : List (Slot V)) : Prop :=
  l.Pairwise fun s t => ∀ v w : V, s = .full v → t = .full w → canon (F.key v) ≠ canon (F.key w)

theorem Inv.nelements_eq (hi : Inv F canon h m) : h.nelements = fulls h.table + h.ndeleted := by
  rw [hi.elements, hi.deleted, fulls]
  generalize h.table = l
  induction l with
  | nil => rfl
  | cons s l ih =>
    rw [List.countP_cons, List.countP_cons, List.countP_cons, ih]
    cases s <;> simp [Slot.isEmpty, Slot.isDeleted, Slot.element] <;> omega

theorem Inv.fulls_eq (hi : Inv F canon h m) : fulls h.table = hash_count h := by
  have := hi.nelements_eq
  rw [hash_count]
  omega

theorem Inv.mem_table (hi : Inv F canon h m) {v : V} :
    .full v ∈ h.table ↔ m (canon (F.key v)) = some v := by
  constructor
  · intro hv
    obtain ⟨s, hs, heq⟩ := List.getElem_of_mem hv
    exact hi.live s v ((slot_of_lt hs).trans heq)
  · intro hv
    obtain ⟨-, j, hj, hslot, -⟩ := hi.reached _ v hv
    have hlt := lt_of_isEmpty_eq_false (h := h) (by rw [hslot]; rfl)
    rw [slot_of_lt hlt] at hslot
    exact hslot ▸ List.getElem_mem hlt

theorem Inv.distinct (hi : Inv F canon h m) : Distinct F canon h.table := by
  rw [Distinct, List.pairwise_iff_getElem]
  intro s t hs ht hlt v w hv hw heq
  exact Nat.ne_of_lt hlt
    (hi.unique s t v w ((slot_of_lt hs).trans hv) ((slot_of_lt ht).trans hw) heq)

theorem Inv.mem_elements (hi : Inv F canon h m) {v : V} :
    v ∈ h.elements ↔ m (canon (F.key v)) = some v := by
  rw [← hi.mem_table, Hash.elements, List.mem_filterMap]
  constructor
  · rintro ⟨s, hs, hv⟩
    cases s <;> cases hv
    exact hs
  · exact fun hv => ⟨.full v, hv, rfl⟩

theorem Inv.length_elements (hi : Inv F canon h m) : h.elements.length = hash_count h := by
  rw [← hi.fulls_eq, fulls, Hash.elements, List.length_filterMap_eq_countP]

theorem Inv.nodup_elements (hi : Inv F canon h m) : h.elements.Nodup := by
  rw [List.Nodup, Hash.elements, List.pairwise_filterMap]
  refine hi.distinct.imp fun {s t} hne v hv w hw heq => ?_
  cases s <;> cases hv
  cases t <;> cases hw
  exact hne _ _ rfl rfl (heq ▸ rfl)

/-- What a change of the map at one key does to the elements. -/
theorem Inv.elements_update [DecidableEq C] {h' : Hash V} {c : C} {x : Option V}
    (hi : Inv F canon h m) (hi' : Inv F canon h' (Function.update m c x)) :
    h'.elements.Perm (x.toList ++ h.elements.filter fun v => canon (F.key v) ≠ c) := by
  have hx : ∀ v ∈ x, canon (F.key v) = c := by
    intro v hv
    exact (hi'.reached c v ((Function.update_self ..).trans hv)).1
  refine (List.perm_ext_iff_of_nodup hi'.nodup_elements ?_).mpr fun v => ?_
  · refine List.nodup_append.mpr ⟨by cases x <;> simp, hi.nodup_elements.filter _, ?_⟩
    rintro v hv w hw rfl
    simp [hx v (Option.mem_toList.mp hv)] at hw
  · rw [hi'.mem_elements, List.mem_append, Option.mem_toList, List.mem_filter, hi.mem_elements]
    by_cases hc : canon (F.key v) = c
    · simp [hc]
    · simpa [hc] using fun hv : x = some v => absurd (hx v hv) hc

end Searches

/-- The empty table stands for the empty map. -/
theorem inv_blank (F : Funcs K V) (canon : K → C) {n : ℕ} (hn : 2 ≤ n) :
    Inv F canon (blank V (2 ^ n)) fun _ => none := by
  have hslot : ∀ s, (blank V (2 ^ n)).slot s = .empty := by
    intro s
    rw [Hash.slot, List.getD_eq_getElem?_getD, blank, List.getElem?_replicate]
    split <;> rfl
  have hcount : ∀ p : Slot V → Bool, p .empty = false → (blank V (2 ^ n)).table.countP p = 0 := by
    intro p hp
    rw [blank, List.countP_replicate, hp, if_neg Bool.false_ne_true]
  exact {
    power := ⟨n, hn, rfl⟩
    mask := rfl
    length := List.length_replicate
    elements := (hcount _ rfl).symm
    deleted := (hcount _ rfl).symm
    room := Nat.zero_le _
    live := by
      intro s v hs
      rw [hslot] at hs
      cases hs
    unique := by
      intro s t v w hs
      rw [hslot] at hs
      cases hs
    reached := by
      intro c v hm
      cases hm }

section Changes

variable [DecidableEq C] {F : Funcs K V} {canon : K → C} {h : Hash V} {m : C → Option V}

/-- A new element, in a slot that its search came by. -/
theorem Inv.put (hi : Inv F canon h m) {d : V} {n : ℕ} (hn : n < h.size)
    (hnew : m (canon (F.key d)) = none)
    (hway : ∀ i < n, (h.slot (h.probe (F.hash (F.key d)) i)).isEmpty = false)
    (hfree : (h.slot (h.probe (F.hash (F.key d)) n)).element = none) (nelements ndeleted : ℕ)
    (helements : nelements + (if (h.slot (h.probe (F.hash (F.key d)) n)).isDeleted then 1 else 0) =
      h.nelements + 1)
    (hdeleted : ndeleted + (if (h.slot (h.probe (F.hash (F.key d)) n)).isDeleted then 1 else 0) =
      h.ndeleted)
    (hroom : 4 * nelements ≤ 3 * h.size) :
    Inv F canon ⟨h.size, h.mask, nelements, ndeleted,
      h.table.set (h.probe (F.hash (F.key d)) n) (.full d)⟩
      (Function.update m (canon (F.key d)) (some d)) := by
  have ht : h.probe (F.hash (F.key d)) n < h.table.length := hi.length ▸ hi.probe_lt _ n
  have hset := slot_set (h := h) (.full d) ht h.size h.mask nelements ndeleted
  have hne : ∀ s v, h.slot s = .full v → s ≠ h.probe (F.hash (F.key d)) n := by
    rintro s v hs rfl
    rw [hs] at hfree
    cases hfree
  have hother : ∀ s v, h.slot s = .full v → canon (F.key v) ≠ canon (F.key d) := by
    intro s v hs heq
    have := hi.live s v hs
    rw [heq, hnew] at this
    cases this
  generalize htarget : h.probe (F.hash (F.key d)) n = t at *
  exact {
    power := hi.power
    mask := hi.mask
    length := by rw [List.length_set]; exact hi.length
    elements := by
      have hcount := countP_set_slot (fun s => !s.isEmpty) (.full d) ht
      rw [← hi.elements] at hcount
      cases hslot : h.slot t with
      | full v => rw [hslot] at hfree; cases hfree
      | empty =>
        rw [hslot] at hcount helements
        exact (Nat.add_right_cancel (hcount.trans helements.symm)).symm
      | deleted =>
        rw [hslot] at hcount helements
        exact (Nat.add_right_cancel (hcount.trans helements.symm)).symm
    deleted := by
      have hcount := countP_set_slot Slot.isDeleted (.full d) ht
      rw [← hi.deleted] at hcount
      exact (Nat.add_right_cancel (hcount.trans hdeleted.symm)).symm
    room := hroom
    live := by
      intro s v hs
      rw [hset] at hs
      split at hs
      · cases hs
        exact Function.update_self ..
      · rw [Function.update_of_ne (hother s v hs)]
        exact hi.live s v hs
    unique := by
      intro s s' v w hs hs' heq
      rw [hset] at hs hs'
      split at hs <;> split at hs'
      · rename_i h₁ h₂
        rw [h₁, h₂]
      · cases hs
        exact absurd heq.symm (hother s' w hs')
      · cases hs'
        exact absurd heq (hother s v hs)
      · exact hi.unique s s' v w hs hs' heq
    reached := by
      intro c v hm
      by_cases hc : c = canon (F.key d)
      · rw [hc, Function.update_self] at hm
        cases hm
        refine ⟨hc.symm, n, hn, ?_, ?_⟩
        · rw [hset]
          exact if_pos htarget
        · intro i hlt
          rw [hset]
          split
          · rfl
          · exact hway i hlt
      · rw [Function.update_of_ne hc] at hm
        obtain ⟨hcanon, j, hj, hfull, hbefore⟩ := hi.reached c v hm
        refine ⟨hcanon, j, hj, ?_, ?_⟩
        · rw [hset]
          exact (if_neg (hne _ v hfull)).trans hfull
        · intro i hlt
          rw [hset]
          split
          · rfl
          · exact hbefore i hlt }

/-- What is kept when an element is overwritten by anything that is not an empty slot. -/
theorem Inv.overwrite (hi : Inv F canon h m) {t : ℕ} {v : V} {x : Slot V}
    (ht : h.slot t = .full v) (hx : x.isEmpty = false) {ndeleted : ℕ}
    (hdeleted : ndeleted = h.ndeleted + if x.isDeleted then 1 else 0)
    (hkey : ∀ d, x = .full d → canon (F.key d) = canon (F.key v)) (hF : Lawful F canon) :
    Inv F canon ⟨h.size, h.mask, h.nelements, ndeleted, h.table.set t x⟩
      (Function.update m (canon (F.key v)) x.element) := by
  have hlt : t < h.table.length := lt_of_isEmpty_eq_false (by rw [ht]; rfl)
  have hset := slot_set (h := h) x hlt h.size h.mask h.nelements ndeleted
  have hother : ∀ s w, h.slot s = .full w → s ≠ t → canon (F.key w) ≠ canon (F.key v) :=
    fun s w hs hne heq => hne (hi.unique s t w v hs ht heq)
  exact {
    power := hi.power
    mask := hi.mask
    length := by rw [List.length_set]; exact hi.length
    elements := by
      have hcount := countP_set_slot (fun s => !s.isEmpty) x hlt
      rw [ht, hx, ← hi.elements] at hcount
      exact (Nat.add_right_cancel hcount).symm
    deleted := by
      have hcount := countP_set_slot Slot.isDeleted x hlt
      rw [ht, ← hi.deleted] at hcount
      exact hdeleted.trans hcount.symm
    room := hi.room
    live := by
      intro s w hs
      rw [hset] at hs
      split at hs
      · rw [hkey w hs, Function.update_self, hs]
        rfl
      · rename_i hne
        rw [Function.update_of_ne (hother s w hs hne)]
        exact hi.live s w hs
    unique := by
      intro s s' w w' hs hs' heq
      rw [hset] at hs hs'
      split at hs <;> split at hs'
      · rename_i h₁ h₂
        rw [h₁, h₂]
      · rename_i h₁ h₂
        exact absurd (heq.symm.trans (hkey w hs)) (hother s' w' hs' h₂)
      · rename_i h₁ h₂
        exact absurd (heq.trans (hkey w' hs')) (hother s w hs h₁)
      · exact hi.unique s s' w w' hs hs' heq
    reached := by
      intro c w hm
      have hway : ∀ {hash j : ℕ}, (∀ i < j, (h.slot (h.probe hash i)).isEmpty = false) →
          ∀ i < j, ((Hash.mk h.size h.mask h.nelements ndeleted (h.table.set t x)).slot
            (h.probe hash i)).isEmpty = false := by
        intro hash j hbefore i hij
        rw [hset]
        split
        · exact hx
        · exact hbefore i hij
      by_cases hc : c = canon (F.key v)
      · rw [hc, Function.update_self] at hm
        have hfull : x = .full w := by
          cases x with
          | full d => cases hm; rfl
          | empty => cases hm
          | deleted => cases hm
        obtain ⟨-, j, hj, hslot, hbefore⟩ := hi.reached _ v (hi.live t v ht)
        rw [← hF.hash _ _ (hkey w hfull)] at hslot hbefore
        refine ⟨(hkey w hfull).trans hc.symm, j, hj, ?_, hway hbefore⟩
        rw [hset]
        exact (if_pos (hi.unique _ _ v v hslot ht rfl)).trans hfull
      · rw [Function.update_of_ne hc] at hm
        obtain ⟨hcanon, j, hj, hslot, hbefore⟩ := hi.reached c w hm
        refine ⟨hcanon, j, hj, ?_, hway hbefore⟩
        rw [hset]
        refine (if_neg ?_).trans hslot
        intro heq
        change h.probe (F.hash (F.key w)) j = t at heq
        rw [heq, ht] at hslot
        cases hslot
        exact hc hcanon.symm }

/-! ## Building the table anew -/

/-- An element of the old table goes to its place in the new one. -/
theorem moveSlot_spec (hi : Inv F canon h m) (hnone : h.ndeleted = 0) {v : V}
    (hnew : m (canon (F.key v)) = none) (hroom : 4 * (h.nelements + 1) ≤ 3 * h.size)
    (hF : Lawful F canon) :
    ∃ h', moveSlot F h (.full v) = some h' ∧ h'.size = h.size ∧ h'.ndeleted = 0 ∧
      h'.nelements = h.nelements + 1 ∧
      Inv F canon h' (Function.update m (canon (F.key v)) (some v)) := by
  obtain ⟨n, hn, hpass, hslot⟩ := hi.find hF (F.key v)
  rw [hnew] at hslot
  have hway : ∀ i < n, (h.slot (h.probe (F.hash (F.key v)) i)).isEmpty = false :=
    fun i hlt => (hpass i hlt).nonempty
  have hfind : hash_find_empty F h (F.key v) = some (h.probe (F.hash (F.key v)) n) := by
    refine hash_find_empty_eq hi.toShaped hn hway ?_
    rw [hslot]
    rfl
  refine ⟨⟨h.size, h.mask, h.nelements + 1, h.ndeleted, h.table.set _ (.full v)⟩,
    by rw [moveSlot, hfind]; rfl, rfl, hnone, rfl, ?_⟩
  refine hi.put hn hnew hway ?_ _ _ ?_ ?_ hroom
  · rw [hslot]
    rfl
  · rw [hslot]
    rfl
  · rw [hslot]
    rfl

/-- The loop of `hash_expand`. -/
theorem move_spec (hF : Lawful F canon) {l : List (Slot V)} (hi : Inv F canon h m)
    (hnone : h.ndeleted = 0)
    (hdistinct : Distinct F canon l)
    (hnew : ∀ v, .full v ∈ l → m (canon (F.key v)) = none)
    (hroom : 4 * (h.nelements + fulls l) ≤ 3 * h.size) :
    ∃ h' m', l.foldlM (moveSlot F) h = some h' ∧ h'.size = h.size ∧ h'.ndeleted = 0 ∧
      h'.nelements = h.nelements + fulls l ∧ Inv F canon h' m' ∧
      ∀ c v, m' c = some v ↔ m c = some v ∨ .full v ∈ l ∧ canon (F.key v) = c := by
  induction l generalizing h m with
  | nil => exact ⟨h, m, rfl, rfl, hnone, rfl, hi, fun c v => by simp⟩
  | cons s l ih =>
    obtain ⟨hhead, htail⟩ := List.pairwise_cons.mp hdistinct
    have hnew' : ∀ v, .full v ∈ l → m (canon (F.key v)) = none :=
      fun v hv => hnew v (List.mem_cons_of_mem s hv)
    rw [List.foldlM_cons]
    cases s with
    | full v =>
      have hfulls : fulls (.full v :: l) = fulls l + 1 := List.countP_cons_of_pos rfl
      rw [hfulls] at hroom ⊢
      have hv := hnew v List.mem_cons_self
      obtain ⟨h₁, hmove, hsize, hzero, hcount, hi₁⟩ := moveSlot_spec hi hnone hv (by omega) hF
      have hfresh : ∀ w, .full w ∈ l →
          Function.update m (canon (F.key v)) (some v) (canon (F.key w)) = none := by
        intro w hw
        rw [Function.update_of_ne (hhead _ hw v w rfl rfl).symm]
        exact hnew' w hw
      obtain ⟨h', m', hfold, hsize', hzero', hcount', hi', hmap⟩ :=
        ih hi₁ hzero htail hfresh (by rw [hsize, hcount]; omega)
      refine ⟨h', m', ?_, hsize'.trans hsize, hzero', by omega, hi', ?_⟩
      · rw [hmove]
        exact hfold
      · intro c w
        rw [hmap]
        by_cases hc : c = canon (F.key v)
        · rw [hc, Function.update_self, hv]
          constructor
          · rintro (hw | ⟨hw, hcanon⟩)
            · cases hw
              exact .inr ⟨List.mem_cons_self, rfl⟩
            · exact .inr ⟨List.mem_cons_of_mem _ hw, hcanon⟩
          · rintro (hw | ⟨hw, hcanon⟩)
            · cases hw
            · rcases List.mem_cons.mp hw with heq | hw
              · cases heq
                exact .inl rfl
              · exact .inr ⟨hw, hcanon⟩
        · rw [Function.update_of_ne hc]
          constructor
          · rintro (hw | ⟨hw, hcanon⟩)
            · exact .inl hw
            · exact .inr ⟨List.mem_cons_of_mem _ hw, hcanon⟩
          · rintro (hw | ⟨hw, hcanon⟩)
            · exact .inl hw
            · rcases List.mem_cons.mp hw with heq | hw
              · cases heq
                exact absurd hcanon.symm hc
              · exact .inr ⟨hw, hcanon⟩
    | empty =>
      obtain ⟨h', m', hfold, hsize, hzero, hcount, hi', hmap⟩ :=
        ih hi hnone htail hnew' hroom
      refine ⟨h', m', hfold, hsize, hzero, hcount, hi', fun c w => ?_⟩
      rw [hmap]
      simp
    | deleted =>
      obtain ⟨h', m', hfold, hsize, hzero, hcount, hi', hmap⟩ :=
        ih hi hnone htail hnew' hroom
      refine ⟨h', m', hfold, hsize, hzero, hcount, hi', fun c w => ?_⟩
      rw [hmap]
      simp

/-- The new table holds the same elements, and it has space for one more. -/
theorem hash_expand_spec (hF : Lawful F canon) (hi : Inv F canon h m)
    (hsmall : hash_count h ≤ 2 ^ 29) :
    ∃ h', hash_expand F h = some h' ∧ Inv F canon h' m ∧ 4 * h'.nelements + 4 ≤ 3 * h'.size := by
  obtain ⟨n, hn, hsize, hle⟩ := @hash_size_eq (hash_count h * 2) (by omega)
  have hfour : 2 ^ 2 ≤ 2 ^ n := Nat.pow_le_pow_right (by decide) hn
  have hfulls := hi.fulls_eq
  have hroom : 4 * fulls h.table + 4 ≤ 3 * 2 ^ n := by
    generalize 2 ^ n = size at *
    omega
  have hblank : (blank V (2 ^ n)).nelements = 0 := rfl
  obtain ⟨h', m', hfold, hsize', -, hcount, hi', hmap⟩ := move_spec hF (inv_blank F canon hn) rfl
    hi.distinct (fun _ _ => rfl) (by rw [hblank, Nat.zero_add]; exact Nat.le_of_add_right_le hroom)
  have hm : m' = m := by
    funext c
    have hiff : ∀ v, m' c = some v ↔ m c = some v := by
      intro v
      rw [hmap, hi.mem_table]
      constructor
      · rintro (hnone | ⟨hv, rfl⟩)
        · cases hnone
        · exact hv
      · intro hv
        obtain rfl := (hi.reached c v hv).1
        exact .inr ⟨hv, rfl⟩
    cases hc : m c with
    | none =>
      cases hc' : m' c with
      | none => rfl
      | some v =>
        rw [(hiff v).mp hc'] at hc
        cases hc
    | some v => exact (hiff v).mpr hc
  subst hm
  refine ⟨h', ?_, hi', ?_⟩
  · rw [hash_expand, ← hash_count, hsize]
    exact hfold
  · rw [hcount, hsize', hblank, Nat.zero_add]
    exact hroom

end Changes

/-! ## The operations -/

section Specs

variable {F : Funcs K V} {canon : K → C} {h : Hash V} {m : C → Option V}

/-- An insertion that finds the table full can build a new one. -/
def Fits (h : Hash V) : Prop := h.size * 3 ≤ h.nelements * 4 → hash_count h ≤ 2 ^ 29

instance (h : Hash V) : Decidable (Fits h) := inferInstanceAs (Decidable (_ → _))

theorem makeSpace_spec [DecidableEq C] (hF : Lawful F canon) (hi : Inv F canon h m) (hfits : Fits h) :
    ∃ h', makeSpace F h true = some h' ∧ Inv F canon h' m ∧
      4 * h'.nelements + 4 ≤ 3 * h'.size := by
  rw [makeSpace]
  split
  · rename_i hfull
    rw [Bool.true_and, decide_eq_true_iff] at hfull
    exact hash_expand_spec hF hi (hfits hfull)
  · rename_i hfull
    rw [Bool.true_and, decide_eq_true_iff] at hfull
    obtain ⟨k, hk⟩ := hi.four_dvd
    exact ⟨h, rfl, hi, by omega⟩

theorem hash_lookup_spec (hF : Lawful F canon) (hi : Inv F canon h m) (key : K) :
    hash_lookup F h key = some (m (canon key)) := by
  rw [hash_lookup, hash_find_slot, makeSpace, Bool.false_and, if_neg Bool.false_ne_true,
    Option.bind_some]
  cases hm : m (canon key) with
  | some v =>
    obtain ⟨s, hs, hslot, hfind⟩ := hi.find_live hF hm false
    rw [hfind, Option.map_some, Option.bind_some, hslot]
    rfl
  | none =>
    obtain ⟨n, hn, hpass, hslot⟩ := hi.find hF key
    rw [hm] at hslot
    obtain ⟨deleted, hfind, -⟩ := @findLoop_empty _ _ F h key false n hi.toShaped hn hpass hslot
    rw [hfind]
    rfl

theorem insertAt_empty {d : V} {s : ℕ} (hs : h.slot s = .empty) :
    insertAt d s h = (true, { h with table := h.table.set s (.full d) }) := by
  rw [insertAt, hs]
  rfl

variable [DecidableEq C]

/-- The element that an insertion puts into the table, in the slot `atEmpty` gives it. -/
theorem insert_atEmpty (hF : Lawful F canon) (hi : Inv F canon h m) {d : V} {key : K}
    (hkey : canon (F.key d) = canon key) (hnew : m (canon key) = none)
    (hroom : 4 * h.nelements + 4 ≤ 3 * h.size) :
    ∃ (found : ℕ × Hash V) (h' : Hash V), findLoop F key true h h.size none (F.hash key &&& h.mask) = some (some found.1,
        found.2) ∧ insertAt d found.1 found.2 = (true, h') ∧
      Inv F canon h' (Function.update m (canon key) (some d)) := by
  obtain ⟨n, hn, hpass, hslot⟩ := hi.find hF key
  rw [hnew] at hslot
  obtain ⟨deleted, hfind, hdeleted⟩ := @findLoop_empty _ _ F h key true n
    hi.toShaped hn hpass hslot
  have hput := fun i (hi' : i < h.size) => hi.put (d := d) hi' (hkey.symm ▸ hnew)
  rw [hF.hash _ _ hkey, hkey] at hput
  have hway : ∀ i < n, (h.slot (h.probe (F.hash key) i)).isEmpty = false :=
    fun i hlt => (hpass i hlt).nonempty
  have hlt : ∀ i, h.probe (F.hash key) i < h.table.length := fun i => hi.length ▸ hi.probe_lt _ i
  cases deleted with
  | none =>
    refine ⟨(_, _), _, hfind, ?_, hput n hn hway ?_ (h.nelements + 1) h.ndeleted
      ?_ ?_ (by omega)⟩
    · exact insertAt_empty hslot
    · rw [hslot]
      rfl
    · rw [hslot]
      rfl
    · rw [hslot]
      rfl
  | some s =>
    obtain ⟨i, hin, rfl, hdel⟩ := hdeleted s rfl
    refine ⟨(_, _), _, hfind, ?_, hput i (by omega) (fun j hj => hway j (by omega)) ?_
      h.nelements (h.ndeleted - 1) ?_ ?_ (by omega)⟩
    · refine (insertAt_empty ((slot_set .empty (hlt i) _ _ _ _ _).trans (if_pos rfl))).trans ?_
      dsimp only
      rw [List.set_set]
    · rw [hdel]
      rfl
    · rw [hdel]
      rfl
    · have hpos : 0 < h.ndeleted := by
        rw [hi.deleted, List.countP_pos_iff]
        exact ⟨_, List.getElem_mem (hlt i), by rw [← slot_of_lt (hlt i), hdel]; rfl⟩
      rw [hdel, if_pos (by rfl)]
      exact Nat.sub_add_cancel hpos

theorem hash_insert_spec (hF : Lawful F canon) (hi : Inv F canon h m) (hfits : Fits h) {key : K}
    {d : V} (hkey : canon (F.key d) = canon key) :
    ∃ h', hash_insert F h key d = some ((m (canon key)).isNone, h') ∧
      Inv F canon h' (if (m (canon key)).isNone then Function.update m (canon key) (some d)
        else m) := by
  obtain ⟨h₁, hspace, hi₁, hroom⟩ := makeSpace_spec hF hi hfits
  rw [hash_insert, hash_find_slot, hspace, Option.bind_some]
  cases hm : m (canon key) with
  | none =>
    obtain ⟨found, h', hfind, hat, hi'⟩ := insert_atEmpty hF hi₁ hkey hm hroom
    exact ⟨h', by rw [hfind, Option.bind_some, Option.map_some, hat]; rfl, hi'⟩
  | some v =>
    obtain ⟨s, hs, hslot, hfind⟩ := hi₁.find_live hF hm true
    refine ⟨h₁, ?_, hi₁⟩
    rw [hfind, Option.bind_some, Option.map_some, insertAt, hslot]
    rfl

/-- `hash_replace` with an element of the same key or with `HASH_DELETED`. -/
theorem hash_replace_spec (hF : Lawful F canon) (hi : Inv F canon h m) {key : K} {x : Slot V}
    (hx : x.isEmpty = false) (hkey : ∀ d, x = .full d → canon (F.key d) = canon key) :
    ∃ h', hash_replace F h key x = some ((m (canon key)).isSome, h') ∧
      Inv F canon { h' with ndeleted := h'.ndeleted +
          if (m (canon key)).isSome && x.isDeleted then 1 else 0 }
        (if (m (canon key)).isSome then Function.update m (canon key) x.element else m) := by
  rw [hash_replace, hash_find_slot, makeSpace, Bool.false_and, if_neg Bool.false_ne_true,
    Option.bind_some]
  cases hm : m (canon key) with
  | none =>
    obtain ⟨n, hn, hpass, hslot⟩ := hi.find hF key
    rw [hm] at hslot
    obtain ⟨deleted, hfind, -⟩ := @findLoop_empty _ _ F h key false n hi.toShaped hn hpass hslot
    exact ⟨h, by rw [hfind]; rfl, hi⟩
  | some v =>
    obtain ⟨s, hs, hslot, hfind⟩ := hi.find_live hF hm false
    have hcanon := (hi.reached _ v hm).1
    refine ⟨_, by rw [hfind]; rfl, ?_⟩
    have hover := hi.overwrite hslot hx (by rfl) (fun d hd => (hkey d hd).trans hcanon.symm) hF
    rw [hcanon] at hover
    exact hover

end Specs

/-! ## Runs -/

/-- A call, with an element whose own key is the key that is given. -/
inductive Op (F : Funcs K V) (canon : K → C) where
  | insert (key : K) (datum : V) (keyed : canon (F.key datum) = canon key)
  | replace (key : K) (datum : V) (keyed : canon (F.key datum) = canon key)
  | delete (key : K)
  | lookup (key : K)

/-- What a call returns. -/
inductive Answer (V : Type*) where
  | flag (b : Bool)
  | element (v : Option V)

section Runs

variable {F : Funcs K V} {canon : K → C}

/-- One call on the table. -/
def step (h : Hash V) : Op F canon → Option (Answer V × Hash V)
  | .insert key datum _ => (hash_insert F h key datum).map fun r => (.flag r.1, r.2)
  | .replace key datum _ => (hash_replace F h key (.full datum)).map fun r => (.flag r.1, r.2)
  | .delete key => (hash_delete F h key).map fun r => (.flag r.1, r.2)
  | .lookup key => (hash_lookup F h key).map fun v => (.element v, h)

/-- One call on a finite map. -/
def mapStep [DecidableEq C] (m : C → Option V) : Op F canon → Answer V × (C → Option V)
  | .insert key datum _ =>
    if (m (canon key)).isNone then (.flag true, Function.update m (canon key) (some datum))
    else (.flag false, m)
  | .replace key datum _ =>
    if (m (canon key)).isSome then (.flag true, Function.update m (canon key) (some datum))
    else (.flag false, m)
  | .delete key =>
    if (m (canon key)).isSome then (.flag true, Function.update m (canon key) none)
    else (.flag false, m)
  | .lookup key => (.element (m (canon key)), m)

/-- The calls of a run, with what they return. -/
def run (h : Hash V) : List (Op F canon) → Option (List (Answer V) × Hash V)
  | [] => some ([], h)
  | op :: ops => (step h op).bind fun r => (run r.2 ops).map fun rest => (r.1 :: rest.1, rest.2)

def mapRun [DecidableEq C] (m : C → Option V) :
    List (Op F canon) → List (Answer V) × (C → Option V)
  | [] => ([], m)
  | op :: ops =>
    let rest := mapRun (mapStep m op).2 ops
    ((mapStep m op).1 :: rest.1, rest.2)

/-- The condition on a call. -/
def Meets (h : Hash V) : Op F canon → Prop
  | .insert .. => Fits h
  | _ => True

instance (h : Hash V) (op : Op F canon) : Decidable (Meets h op) := by
  cases op with
  | insert key datum keyed => exact inferInstanceAs (Decidable (Fits h))
  | _ => exact instDecidableTrue

/-- Every call of the run meets it. -/
def AllMeet (h : Hash V) : List (Op F canon) → Prop
  | [] => True
  | op :: ops => Meets h op ∧ ∀ r ∈ step h op, AllMeet r.2 ops

instance decAllMeet (h : Hash V) : (ops : List (Op F canon)) → Decidable (AllMeet h ops)
  | [] => instDecidableTrue
  | op :: ops =>
    have := fun r : Answer V × Hash V => decAllMeet r.2 ops
    inferInstanceAs (Decidable (_ ∧ ∀ r ∈ step h op, _))

/-- The table stands for the map: there is an empty slot, the counters are right, each live key
is in one slot, and a lookup finds what was stored for its key. -/
structure Refines (F : Funcs K V) (canon : K → C) (h : Hash V) (m : C → Option V) : Prop where
  empty : ∃ s < h.size, h.slot s = .empty
  nelements : h.nelements = h.table.countP fun s => !s.isEmpty
  ndeleted : h.ndeleted = h.table.countP Slot.isDeleted
  once : ∀ c v, m c = some v ↔ canon (F.key v) = c ∧ ∃ s < h.size, h.slot s = .full v ∧
    ∀ s' v', h.slot s' = .full v' → canon (F.key v') = c → s' = s
  lookup : ∀ key, hash_lookup F h key = some (m (canon key))
  count : hash_count h = {c | (m c).isSome}.ncard

variable [DecidableEq C] {h : Hash V} {m : C → Option V}

/-- One call does to the table what it does to the map. -/
theorem step_spec (hF : Lawful F canon) (hi : Inv F canon h m) {op : Op F canon}
    (hmeets : Meets h op) :
    ∃ h', step h op = some ((mapStep m op).1, h') ∧ Inv F canon h' (mapStep m op).2 := by
  cases op with
  | insert key datum keyed =>
    obtain ⟨h', hins, hi'⟩ := hash_insert_spec hF hi hmeets keyed
    refine ⟨h', ?_, ?_⟩
    · rw [step, hins, mapStep]
      cases m (canon key) <;> rfl
    · rw [mapStep, apply_ite Prod.snd]
      exact hi'
  | replace key datum keyed =>
    obtain ⟨h', hrep, hi'⟩ := hash_replace_spec (x := .full datum) hF hi rfl fun d hd => by
      cases hd
      exact keyed
    refine ⟨h', ?_, ?_⟩
    · rw [step, hrep, mapStep]
      cases m (canon key) <;> rfl
    · rw [show Slot.isDeleted (.full datum) = false from rfl, Bool.and_false,
        if_neg Bool.false_ne_true] at hi'
      rw [mapStep, apply_ite Prod.snd]
      exact hi'
  | delete key =>
    obtain ⟨h', hrep, hi'⟩ := @hash_replace_spec _ _ _ F canon h m _ hF hi key
      .deleted rfl fun d hd => by cases hd
    rw [step, hash_delete, hrep, mapStep]
    cases hm : m (canon key) with
    | none =>
      rw [hm] at hi'
      exact ⟨h', rfl, hi'⟩
    | some v =>
      rw [hm] at hi'
      exact ⟨_, rfl, hi'⟩
  | lookup key =>
    refine ⟨h, ?_, hi⟩
    rw [step, hash_lookup_spec hF hi key]
    rfl

theorem run_spec (hF : Lawful F canon) {ops : List (Op F canon)} (hi : Inv F canon h m)
    (hmeets : AllMeet h ops) :
    ∃ h', run h ops = some ((mapRun m ops).1, h') ∧ Inv F canon h' (mapRun m ops).2 := by
  induction ops generalizing h m with
  | nil => exact ⟨h, rfl, hi⟩
  | cons op ops ih =>
    obtain ⟨h₁, hstep, hi₁⟩ := step_spec hF hi hmeets.1
    obtain ⟨h', hrun, hi'⟩ := ih hi₁ (hmeets.2 _ hstep)
    refine ⟨h', ?_, hi'⟩
    rw [run, hstep, Option.bind_some, hrun]
    rfl

omit [DecidableEq C] in
/-- There are as many live keys as elements. -/
theorem Inv.count (hi : Inv F canon h m) : hash_count h = {c | (m c).isSome}.ncard := by
  classical
  have hdistinct : ((h.table.filterMap Slot.element).map fun v => canon (F.key v)).Nodup := by
    rw [List.Nodup, List.pairwise_map, List.pairwise_filterMap]
    refine hi.distinct.imp fun {s t} hne v hv w hw => hne v w ?_ ?_
    · cases s <;> cases hv
      rfl
    · cases t <;> cases hw
      rfl
  have hlive : {c | (m c).isSome} =
      (((h.table.filterMap Slot.element).map fun v => canon (F.key v)).toFinset : Set C) := by
    ext c
    rw [Set.mem_ofPred_eq, Finset.mem_coe, List.mem_toFinset, Option.isSome_iff_exists,
      List.mem_map]
    constructor
    · rintro ⟨v, hv⟩
      obtain rfl := (hi.reached c v hv).1
      exact ⟨v, List.mem_filterMap.mpr ⟨.full v, hi.mem_table.mpr hv, rfl⟩, rfl⟩
    · rintro ⟨v, hv, rfl⟩
      obtain ⟨s, hs, hsv⟩ := List.mem_filterMap.mp hv
      cases s <;> cases hsv
      exact ⟨v, hi.mem_table.mp hs⟩
  rw [hlive, Set.ncard_coe_finset, List.toFinset_card_of_nodup hdistinct, List.length_map,
    ← hi.fulls_eq, fulls, List.length_filterMap_eq_countP]

omit [DecidableEq C] in
theorem Inv.refines (hF : Lawful F canon) (hi : Inv F canon h m) : Refines F canon h m where
  empty := hi.exists_empty
  nelements := hi.elements
  ndeleted := hi.deleted
  once := by
    intro c v
    constructor
    · intro hv
      obtain ⟨rfl, j, hj, hslot, -⟩ := hi.reached c v hv
      exact ⟨rfl, _, hi.probe_lt _ j, hslot, fun s' v' hs' heq => hi.unique _ _ _ _ hs' hslot heq⟩
    · rintro ⟨rfl, s, -, hslot, -⟩
      exact hi.live s v hslot
  lookup := hash_lookup_spec hF hi
  count := hi.count

/-- Whatever the hash function, the table stays a finite map over every run, as long as its
sizes can be computed. -/
theorem table_is_map (hF : Lawful F canon) {size : ℕ} (hsize : size ≤ 2 ^ 30)
    {ops : List (Op F canon)} (hmeets : ∀ h ∈ hash_create V size, AllMeet h ops) :
    ∃ h', (hash_create V size).bind (fun h => run h ops) =
        some ((mapRun (fun _ => none) ops).1, h') ∧
      Refines F canon h' (mapRun (fun _ => none) ops).2 := by
  obtain ⟨n, hn, heq, -⟩ := hash_size_eq hsize
  have hcreate : hash_create V size = some (blank V (2 ^ n)) := by rw [hash_create, heq]; rfl
  obtain ⟨h', hrun, hi⟩ := run_spec hF (inv_blank F canon hn) (hmeets _ hcreate)
  refine ⟨h', ?_, hi.refines hF⟩
  rw [hcreate, Option.bind_some, hrun]

/-! ## Strings as keys -/

/-- A table of strings, with the sum of the bytes as hash function. -/
def strings : Funcs (List UInt8) (List UInt8) where
  hash key := (key.map UInt8.toNat).sum
  key v := v
  equal key v := key == v

theorem lawful_strings : Lawful strings (id : List UInt8 → List UInt8) where
  equal _ _ := beq_iff_eq
  hash _ _ h := congrArg strings.hash h

/-- Four strings in a table of four slots, one of them over a deleted one. -/
def fewCalls : List (Op strings (id : List UInt8 → List UInt8)) :=
  [.insert [97] [97] rfl, .insert [101] [101] rfl, .delete [97], .insert [105] [105] rfl,
    .lookup [101], .insert [98] [98] rfl, .insert [99] [99] rfl, .replace [98] [98] rfl]

theorem table_is_map_strings :
    ∃ h', (hash_create (List UInt8) 3).bind (fun h => run h fewCalls) =
        some ((mapRun (fun _ => none) fewCalls).1, h') ∧
      Refines strings id h' (mapRun (fun _ => none) fewCalls).2 :=
  table_is_map lawful_strings (by decide) (by decide)

/-- A table of more than 2 ^ 30 slots cannot be made. -/
theorem large_table_undefined :
    ¬ ∀ size < 2 ^ 64, ∃ h, hash_create (List UInt8) size = some h ∧
      Refines strings id h fun _ => none := by
  intro hall
  obtain ⟨h, hh, -⟩ := hall (2 ^ 30 + 1) (by decide)
  rw [hash_create, hash_size_eq_none (by decide) (by decide)] at hh
  cases hh

end Runs

end Inn.Libinn.Hashtab
