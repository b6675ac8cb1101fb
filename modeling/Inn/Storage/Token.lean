import Mathlib.Data.List.Basic
import Mathlib.Data.Nat.Notation
import Inn.Network

/-!
# Inn.Storage.Token — storage tokens

A token names an article: the storage method, the class, and sixteen bytes whose meaning is up
to the method, which copies numbers into them and out of them.

* `TOKEN.put`, `TOKEN.get` — `memcpy` to and from the bytes;
* `get_put_self`, `get_put_of_disjoint` — what is copied out;
* `getWord_putWord_self`, `getWord_putWord_of_disjoint` — the same for numbers.
-/

namespace Inn.Storage

/-- `TOKEN`. -/
@[ext]
structure TOKEN where
  type : UInt8
  cls : UInt8
  token : Vector UInt8 16
deriving DecidableEq

/-- `memset(&token, '\0', sizeof(token))`. -/
def TOKEN.zero : TOKEN := ⟨0, 0, .replicate 16 0⟩

/-- `memcpy` to the bytes from `k` on. -/
def TOKEN.put (t : TOKEN) (k : ℕ) (bs : List UInt8) : TOKEN :=
  { t with
    token := .ofFn fun i =>
      if k ≤ i ∧ i < k + bs.length then bs.getD (i - k) 0 else t.token[i] }

/-- `memcpy` of `n` bytes from `k` on. -/
def TOKEN.get (t : TOKEN) (k n : ℕ) : List UInt8 := (t.token.toList.drop k).take n

/-- `memcpy` of a number of so many bytes to the bytes from `k` on. -/
def TOKEN.putWord (order : ByteOrder) (width : ℕ) (t : TOKEN) (k v : ℕ) : TOKEN :=
  t.put k (order.bytes width v)

/-- `memcpy` of the bytes from `k` on to a number of so many bytes. -/
def TOKEN.getWord (order : ByteOrder) (width : ℕ) (t : TOKEN) (k : ℕ) : ℕ :=
  order.number (t.get k width)

variable {t : TOKEN} {j k n : ℕ} {bs : List UInt8}

@[simp] theorem cls_put : (t.put k bs).cls = t.cls := by rw [TOKEN.put]

theorem length_get (h : k + n ≤ 16) : (t.get k n).length = n := by
  rw [TOKEN.get, List.length_take, List.length_drop, Vector.length_toList]
  omega

theorem getElem_put (i : ℕ) (h : i < 16) : (t.put k bs).token[i] =
    if k ≤ i ∧ i < k + bs.length then bs.getD (i - k) 0 else t.token[i] :=
  Vector.getElem_ofFn h

theorem getElem?_get (i : ℕ) :
    (t.get k n)[i]? = if i < n then t.token[k + i]? else none := by
  by_cases hi : i < n
  · rw [if_pos hi, TOKEN.get, List.getElem?_take_of_lt hi, List.getElem?_drop,
      Vector.getElem?_toList]
  · rw [if_neg hi, List.getElem?_eq_none]
    rw [TOKEN.get, List.length_take]
    omega

theorem getElem?_put {i : ℕ} (h : i < 16) : (t.put k bs).token[i]? =
    if k ≤ i ∧ i < k + bs.length then some (bs.getD (i - k) 0) else t.token[i]? := by
  rw [Vector.getElem?_eq_getElem h, getElem_put i h, Vector.getElem?_eq_getElem h]
  split <;> rfl

/-- What was copied in is copied out. -/
theorem get_put_self (h : k + bs.length ≤ 16) : (t.put k bs).get k bs.length = bs := by
  apply List.ext_getElem?
  intro i
  rw [getElem?_get]
  by_cases hi : i < bs.length
  · rw [if_pos hi, getElem?_put (by omega), if_pos (by omega), Nat.add_sub_cancel_left,
      List.getD_eq_getElem?_getD, List.getElem?_eq_getElem hi, Option.getD_some]
  · rw [if_neg hi, List.getElem?_eq_none (Nat.not_lt.mp hi)]

/-- Other bytes are as they were. -/
theorem get_put_of_disjoint (hj : j + n ≤ 16) (h : j + n ≤ k ∨ k + bs.length ≤ j) :
    (t.put k bs).get j n = t.get j n := by
  apply List.ext_getElem?
  intro i
  rw [getElem?_get, getElem?_get]
  by_cases hi : i < n
  · rw [if_pos hi, if_pos hi, getElem?_put (by omega), if_neg (by omega)]
  · rw [if_neg hi, if_neg hi]

theorem get_add (t : TOKEN) (k m n : ℕ) : t.get k (m + n) = t.get k m ++ t.get (k + m) n := by
  rw [TOKEN.get, TOKEN.get, TOKEN.get, List.take_add, List.drop_drop]

section Words

variable {order : ByteOrder} {width width' v : ℕ}

@[simp] theorem cls_putWord : (t.putWord order width k v).cls = t.cls := cls_put

theorem get_putWord_self (h : k + width ≤ 16) :
    (t.putWord order width k v).get k width = order.bytes width v := by
  have hlen := ByteOrder.length_bytes order width v
  have hget := @get_put_self t k (order.bytes width v) (by rwa [hlen])
  rwa [hlen] at hget

theorem getWord_putWord_self (h : k + width ≤ 16) (hv : v < 256 ^ width) :
    (t.putWord order width k v).getWord order width k = v := by
  rw [TOKEN.getWord, get_putWord_self h, ByteOrder.number_bytes hv]

theorem getWord_putWord_of_disjoint (hj : j + width' ≤ 16) (h : j + width' ≤ k ∨ k + width ≤ j) :
    (t.putWord order width k v).getWord order width' j = t.getWord order width' j := by
  rw [TOKEN.getWord, TOKEN.getWord, TOKEN.putWord, get_put_of_disjoint hj]
  rwa [ByteOrder.length_bytes]

end Words

end Inn.Storage
