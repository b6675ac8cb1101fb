import Mathlib.Data.List.Basic
import Inn.Words

/-!
# Inn.Network — numbers in network byte order

A machine keeps a number in memory with its least or its most significant byte first. What
`htonl` makes of a number has in memory the most significant byte first on each of them.

* `number_bytes` — the number that has these bytes;
* `hton_number` — the number that is converted back.
-/

namespace Inn

/-- The order of the bytes of a number in memory. -/
inductive ByteOrder where
  | little
  | big
deriving DecidableEq

namespace ByteOrder

/-- A number of so many bytes in memory. -/
def bytes (order : ByteOrder) (width n : ℕ) : List UInt8 :=
  match order with
  | little => toBytes width n
  | big => (toBytes width n).reverse

/-- The number that the bytes in memory are. -/
def number (order : ByteOrder) (bs : List UInt8) : ℕ :=
  match order with
  | little => ofBytes bs
  | big => ofBytes bs.reverse

/-- `htonl` and `htons`, which also convert back. -/
def hton (order : ByteOrder) (width n : ℕ) : ℕ := order.number (toBytes width n).reverse

end ByteOrder

variable {order : ByteOrder} {width n : ℕ} {bs : List UInt8}

theorem toBytes_ofBytes (bs : List UInt8) : toBytes bs.length (ofBytes bs) = bs := by
  induction bs with
  | nil => rfl
  | cons b bs ih =>
    have hb := b.toNat_lt
    have hlow : UInt8.ofNat (b.toNat + 256 * ofBytes bs) = b := by
      rw [← UInt8.toNat_inj, UInt8.toNat_ofNat']
      omega
    have hhigh : (b.toNat + 256 * ofBytes bs) / 256 = ofBytes bs := by omega
    change UInt8.ofNat (b.toNat + 256 * ofBytes bs) ::
      toBytes bs.length ((b.toNat + 256 * ofBytes bs) / 256) = b :: bs
    rw [hlow, hhigh, ih]

/-- The low bytes and the high bytes of a number. -/
theorem toBytes_add (m n v : ℕ) : toBytes (m + n) v = toBytes m v ++ toBytes n (v / 256 ^ m) := by
  induction m generalizing v with
  | zero => rw [Nat.zero_add, Nat.pow_zero, Nat.div_one, toBytes, List.nil_append]
  | succ m ih =>
    rw [Nat.succ_add, toBytes, toBytes, ih, Nat.div_div_eq_div_mul, Nat.pow_succ',
      List.cons_append]

namespace ByteOrder

/-- A number that half of the bytes hold. -/
theorem bytes_double (h : n < 256 ^ width) : order.bytes (width + width) n =
    if order = little then order.bytes width n ++ order.bytes width 0
    else order.bytes width 0 ++ order.bytes width n := by
  have hsplit := toBytes_add width width n
  rw [Nat.div_eq_of_lt h] at hsplit
  cases order with
  | little => rw [if_pos rfl, bytes, bytes, bytes, hsplit]
  | big => rw [if_neg nofun, bytes, bytes, bytes, hsplit, List.reverse_append]

@[simp] theorem length_bytes (order : ByteOrder) (width n : ℕ) :
    (order.bytes width n).length = width := by
  cases order with
  | little => exact length_toBytes width n
  | big => exact List.length_reverse.trans (length_toBytes width n)

theorem number_bytes (h : n < 256 ^ width) : order.number (order.bytes width n) = n := by
  cases order with
  | little => exact ofBytes_toBytes h
  | big =>
    rw [number, bytes, List.reverse_reverse]
    exact ofBytes_toBytes h

theorem number_lt (h : bs.length = width) : order.number bs < 256 ^ width := by
  subst h
  cases order with
  | little => exact ofBytes_lt bs
  | big => exact @List.length_reverse _ bs ▸ ofBytes_lt bs.reverse

theorem hton_lt (order : ByteOrder) (width n : ℕ) : order.hton width n < 256 ^ width :=
  number_lt (List.length_reverse.trans (length_toBytes width n))

/-- What is read from the network. -/
theorem hton_number (h : bs.length = width) :
    order.hton width (order.number bs) = ofBytes bs.reverse := by
  subst h
  cases order with
  | little => rw [hton, number, number, toBytes_ofBytes]
  | big =>
    rw [hton, number, number, List.reverse_reverse, ← List.length_reverse, toBytes_ofBytes]

/-- Converting back. -/
theorem hton_hton (h : n < 256 ^ width) : order.hton width (order.hton width n) = n := by
  have hlength : (toBytes width n).reverse.length = width :=
    List.length_reverse.trans (length_toBytes width n)
  calc order.hton width (order.hton width n)
      = ofBytes (toBytes width n).reverse.reverse := hton_number hlength
    _ = n := by rw [List.reverse_reverse, ofBytes_toBytes h]

end ByteOrder

end Inn
