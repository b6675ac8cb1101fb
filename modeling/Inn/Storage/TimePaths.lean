import Inn.Format
import Inn.Storage.Token

/-!
# Inn.Storage.TimePaths — tokens and paths of timehash and timecaf

Both methods put the arrival time and a number into the token, and spread the bytes of the time
over the names of directories and of a file. The walk through the spool puts the time together
again. In timecaf the time is shifted by eight bits, and the file holds the articles of 256
seconds.

* `BreakToken_MakeToken` — what is put into a token;
* `PathToToken_relative`, `PathNumToToken_relative` — what the walk makes of a path;
* `tokens_and_paths` — how tokens and paths correspond.
-/

namespace Inn

open Storage

/-! ## Bytes of a time -/

theorem and_byte (n : ℕ) : n &&& 0xff = n % 2 ^ 8 := Nat.and_two_pow_sub_one_eq_mod n 8

/-- The byte from bit `k` on, in its place. -/
theorem and_mask (n k : ℕ) : n &&& (0xff <<< k) = n / 2 ^ k % 2 ^ 8 * 2 ^ k := by
  have hmask : (0xff : ℕ) = 2 ^ 8 - 1 := rfl
  apply Nat.eq_of_testBit_eq
  intro i
  rw [Nat.testBit_and, Nat.testBit_shiftLeft, hmask, Nat.testBit_two_pow_sub_one,
    Nat.testBit_mul_two_pow, Nat.testBit_mod_two_pow, Nat.testBit_div_two_pow]
  by_cases hi : k ≤ i
  · obtain ⟨j, rfl⟩ := Nat.exists_eq_add_of_le hi
    simp [Nat.add_comm, Bool.and_comm]
  · simp [hi]

theorem or_eq_add {a b k : ℕ} (h : b < 2 ^ k) : a * 2 ^ k ||| b = a * 2 ^ k + b := by
  rw [← Nat.shiftLeft_eq, Nat.shiftLeft_add_eq_or_of_lt h]

/-! ## timehash -/

namespace Timehash

def TOKEN_TIMEHASH : UInt8 := 2

variable (order : ByteOrder)

def MakeToken (now seqnum : ℕ) (cls : UInt8) (oldtoken : Option TOKEN) : TOKEN :=
  let token := { oldtoken.getD .zero with type := TOKEN_TIMEHASH, cls := cls }
  let token := token.putWord order 4 0 (order.hton 4 (now % 2 ^ 32))
  token.putWord order 2 4 (order.hton 2 (seqnum &&& 0xffff))

def BreakToken (token : TOKEN) : ℕ × ℕ :=
  (order.hton 4 (token.getWord order 4 0), order.hton 2 (token.getWord order 2 4))

/-- `"time-%02x/%02x/%02x/%04x-%04x"`. -/
def pathFormat : List Directive :=
  [.text "time-".toUTF8.toList, .hex 2, .text "/".toUTF8.toList, .hex 2, .text "/".toUTF8.toList,
    .hex 2, .text "/".toUTF8.toList, .hex 4, .text "-".toUTF8.toList, .hex 4]

def MakePath (patharticles : List UInt8) (now seqnum : ℕ) (cls : UInt8) : List UInt8 :=
  patharticles ++ "/".toUTF8.toList ++
    snprintf pathFormat [cls.toNat, (now >>> 16) &&& 0xff, (now >>> 8) &&& 0xff, seqnum,
      (now &&& 0xff) ||| ((now >>> 16) &&& 0xff00)]

/-- The path that `timehash_retrieve` and `timehash_cancel` go to. -/
def tokenPath (patharticles : List UInt8) (token : TOKEN) : List UInt8 :=
  MakePath patharticles (BreakToken order token).1 (BreakToken order token).2 token.cls

def PathToToken (path : List UInt8) : Option TOKEN :=
  match sscanf pathFormat path with
  | [tclass, t1, t2, seqnum, t3] =>
    let now := ((t1 <<< 16) &&& 0xff0000) ||| ((t2 <<< 8) &&& 0xff00) |||
      ((t3 <<< 16) &&& 0xff000000) ||| (t3 &&& 0xff)
    some (MakeToken order now seqnum (UInt8.ofNat tclass) none)
  | _ => none

variable {order : ByteOrder} {patharticles path : List UInt8} {now now' seqnum seqnum' : ℕ}
  {cls cls' : UInt8} {oldtoken : Option TOKEN}

@[simp] theorem cls_MakeToken : (MakeToken order now seqnum cls oldtoken).cls = cls := by
  simp only [MakeToken, cls_putWord]

/-- The token of an article gives back its time and number. -/
theorem BreakToken_MakeToken (hnow : now < 2 ^ 32) (hseq : seqnum < 2 ^ 16) :
    BreakToken order (MakeToken order now seqnum cls oldtoken) = (now, seqnum) := by
  have hnow' : now % 2 ^ 32 = now := Nat.mod_eq_of_lt hnow
  have hseq' : seqnum &&& 0xffff = seqnum := by
    rw [show 0xffff = 2 ^ 16 - 1 from rfl, Nat.and_two_pow_sub_one_eq_mod, Nat.mod_eq_of_lt hseq]
  rw [BreakToken, MakeToken, getWord_putWord_of_disjoint (by decide) (by decide),
    getWord_putWord_self (by decide) (order.hton_lt 4 _),
    getWord_putWord_self (by decide) (order.hton_lt 2 _), hnow', hseq', order.hton_hton hnow,
    order.hton_hton hseq]

/-- The last number of a path: the lowest and the highest byte of the time. -/
theorem outer_bytes (hnow : now < 2 ^ 32) :
    (now &&& 0xff) ||| ((now >>> 16) &&& 0xff00) = now / 2 ^ 24 * 2 ^ 8 + now % 2 ^ 8 := by
  have hhigh : now / 2 ^ 16 / 2 ^ 8 % 2 ^ 8 = now / 2 ^ 24 := by omega
  rw [show 0xff00 = 0xff <<< 8 from rfl, and_mask, and_byte, Nat.shiftRight_eq_div_pow, hhigh,
    Nat.or_comm, or_eq_add (by omega)]

/-- The time that the numbers of a path are put together to. -/
theorem time_of_parts (a b c d : ℕ) (ha : a < 2 ^ 8) (hb : b < 2 ^ 8) (hc : c < 2 ^ 8)
    (hd : d < 2 ^ 8) :
    ((b <<< 16) &&& 0xff0000) ||| ((c <<< 8) &&& 0xff00) |||
      (((a * 2 ^ 8 + d) <<< 16) &&& 0xff000000) ||| ((a * 2 ^ 8 + d) &&& 0xff) =
    a * 2 ^ 24 + b * 2 ^ 16 + c * 2 ^ 8 + d := by
  have hb' : (b <<< 16) &&& 0xff0000 = b * 2 ^ 16 := by
    rw [show 0xff0000 = 0xff <<< 16 from rfl, and_mask, Nat.shiftLeft_eq]
    omega
  have hc' : (c <<< 8) &&& 0xff00 = c * 2 ^ 8 := by
    rw [show 0xff00 = 0xff <<< 8 from rfl, and_mask, Nat.shiftLeft_eq]
    omega
  have ha' : ((a * 2 ^ 8 + d) <<< 16) &&& 0xff000000 = a * 2 ^ 24 := by
    rw [show 0xff000000 = 0xff <<< 24 from rfl, and_mask, Nat.shiftLeft_eq]
    omega
  have hd' : (a * 2 ^ 8 + d) &&& 0xff = d := by
    rw [and_byte]
    omega
  have hlow : b * 2 ^ 16 ||| c * 2 ^ 8 = b * 2 ^ 16 + c * 2 ^ 8 := or_eq_add (by omega)
  have hhigh : b * 2 ^ 16 + c * 2 ^ 8 ||| a * 2 ^ 24 = (a * 2 ^ 16 + b * 2 ^ 8 + c) * 2 ^ 8 := by
    rw [Nat.or_comm, or_eq_add (by omega)]
    omega
  have hall : (a * 2 ^ 16 + b * 2 ^ 8 + c) * 2 ^ 8 ||| d =
      (a * 2 ^ 16 + b * 2 ^ 8 + c) * 2 ^ 8 + d := or_eq_add hd
  rw [ha', hb', hc', hd', hlow, hhigh, hall]
  omega

/-- The numbers in a path fit their digits. -/
theorem fits_path (hnow : now < 2 ^ 32) (hseq : seqnum < 2 ^ 16) :
    Fits pathFormat [cls.toNat, (now >>> 16) &&& 0xff, (now >>> 8) &&& 0xff, seqnum,
      (now &&& 0xff) ||| ((now >>> 16) &&& 0xff00)] := by
  have hcls := cls.toNat_lt
  rw [outer_bytes hnow, and_byte, and_byte]
  simp only [pathFormat, Fits, and_true]
  omega

/-- The walk makes the token of an article from its path below the spool. -/
theorem PathToToken_relative (hnow : now < 2 ^ 32) (hseq : seqnum < 2 ^ 16)
    (hpath : MakePath patharticles now seqnum cls = patharticles ++ "/".toUTF8.toList ++ path) :
    PathToToken order path = some (MakeToken order now seqnum cls none) := by
  have hfits : Fits pathFormat [cls.toNat, _, _, seqnum, _] := fits_path hnow hseq
  have hscan := sscanf_snprintf hfits []
  have htime := time_of_parts (now / 2 ^ 24) (now / 2 ^ 16 % 2 ^ 8) (now / 2 ^ 8 % 2 ^ 8)
    (now % 2 ^ 8) (by omega) (by omega) (by omega) (by omega)
  have hnow' : now / 2 ^ 24 * 2 ^ 24 + now / 2 ^ 16 % 2 ^ 8 * 2 ^ 16 + now / 2 ^ 8 % 2 ^ 8 * 2 ^ 8 +
      now % 2 ^ 8 = now := by omega
  rw [MakePath] at hpath
  rw [List.append_nil, List.append_cancel_left hpath, outer_bytes hnow, and_byte, and_byte,
    Nat.shiftRight_eq_div_pow, Nat.shiftRight_eq_div_pow] at hscan
  simp only [PathToToken, hscan, htime, hnow', UInt8.ofNat_toNat]

/-- A path belongs to one article. -/
theorem eq_of_tokenPath_eq (hnow : now < 2 ^ 32) (hseq : seqnum < 2 ^ 16) (hnow' : now' < 2 ^ 32)
    (hseq' : seqnum' < 2 ^ 16)
    (h : tokenPath order patharticles (MakeToken order now seqnum cls none) =
      tokenPath order patharticles (MakeToken order now' seqnum' cls' none)) :
    MakeToken order now seqnum cls none = MakeToken order now' seqnum' cls' none := by
  rw [tokenPath, tokenPath, BreakToken_MakeToken hnow hseq, BreakToken_MakeToken hnow' hseq',
    cls_MakeToken, cls_MakeToken] at h
  apply Option.some_inj.mp
  rw [← PathToToken_relative hnow hseq h,
    ← PathToToken_relative hnow' hseq' (Eq.refl (MakePath patharticles now' seqnum' cls'))]

end Timehash

/-! ## timecaf -/

namespace Timecaf

def TOKEN_TIMECAF : UInt8 := 4

variable (order : ByteOrder)

def MakeToken (now seqnum : ℕ) (cls : UInt8) (oldtoken : Option TOKEN) : TOKEN :=
  let token := { oldtoken.getD .zero with type := TOKEN_TIMECAF, cls := cls }
  let token := token.putWord order 4 0 (order.hton 4 (now % 2 ^ 32))
  let token := token.putWord order 2 4 (order.hton 2 (seqnum &&& 0xffff))
  token.putWord order 2 6 (order.hton 2 ((seqnum >>> 16) &&& 0xffff))

/-- `BreakToken`; the number is put together as an `int`, which holds it below `2 ^ 31`. -/
def BreakToken (token : TOKEN) : ℕ × ℕ :=
  (order.hton 4 (token.getWord order 4 0),
    (order.hton 2 (token.getWord order 2 6) <<< 16) + order.hton 2 (token.getWord order 2 4))

/-- `"timecaf-%02x/%02x/%02x%02x.CF"`. -/
def pathFormat : List Directive :=
  [.text "timecaf-".toUTF8.toList, .hex 2, .text "/".toUTF8.toList, .hex 2,
    .text "/".toUTF8.toList, .hex 2, .hex 2, .text ".CF".toUTF8.toList]

/-- `"timecaf-%02x/%02x/%04x.CF"`. -/
def scanFormat : List Directive :=
  [.text "timecaf-".toUTF8.toList, .hex 2, .text "/".toUTF8.toList, .hex 2,
    .text "/".toUTF8.toList, .hex 4, .text ".CF".toUTF8.toList]

def MakePath (patharticles : List UInt8) (now : ℕ) (cls : UInt8) : List UInt8 :=
  patharticles ++ "/".toUTF8.toList ++
    snprintf pathFormat [cls.toNat, (now >>> 8) &&& 0xff, (now >>> 16) &&& 0xff, now &&& 0xff]

/-- The path that `timecaf_retrieve` and `timecaf_cancel` go to. -/
def tokenPath (patharticles : List UInt8) (token : TOKEN) : List UInt8 :=
  MakePath patharticles (BreakToken order token).1 token.cls

def PathNumToToken (path : List UInt8) (artnum : ℕ) : Option TOKEN :=
  match sscanf scanFormat path with
  | [tclass, t1, t2] =>
    let timestamp := ((t1 <<< 8) &&& 0xff00) ||| ((t2 <<< 8) &&& 0xff0000) ||| ((t2 <<< 0) &&& 0xff)
    some (MakeToken order timestamp artnum (UInt8.ofNat tclass) none)
  | _ => none

variable {order : ByteOrder} {patharticles path : List UInt8} {now now' seqnum seqnum' : ℕ}
  {cls cls' : UInt8} {oldtoken : Option TOKEN}

@[simp] theorem cls_MakeToken : (MakeToken order now seqnum cls oldtoken).cls = cls := by
  simp only [MakeToken, cls_putWord]

/-- The token of an article gives back its time and number. -/
theorem BreakToken_MakeToken (hnow : now < 2 ^ 32) (hseq : seqnum < 2 ^ 32) :
    BreakToken order (MakeToken order now seqnum cls oldtoken) = (now, seqnum) := by
  have hnow' : now % 2 ^ 32 = now := Nat.mod_eq_of_lt hnow
  have hmask (n : ℕ) : n &&& 0xffff = n % 2 ^ 16 := Nat.and_two_pow_sub_one_eq_mod n 16
  have hback (n : ℕ) : order.hton 2 (order.hton 2 (n &&& 0xffff)) = n % 2 ^ 16 := by
    have hlt : n % 2 ^ 16 < 256 ^ 2 := Nat.mod_lt n (by decide)
    rw [hmask, order.hton_hton hlt]
  have hhigh : (seqnum >>> 16) % 2 ^ 16 = seqnum / 2 ^ 16 := by
    rw [Nat.shiftRight_eq_div_pow]
    omega
  have hsum : (seqnum / 2 ^ 16) <<< 16 + seqnum % 2 ^ 16 = seqnum := by
    rw [Nat.shiftLeft_eq]
    omega
  rw [BreakToken, MakeToken]
  rw [getWord_putWord_of_disjoint (by decide) (by decide),
    getWord_putWord_of_disjoint (by decide) (by decide),
    getWord_putWord_self (by decide) (order.hton_lt 4 _),
    getWord_putWord_self (by decide) (order.hton_lt 2 _),
    getWord_putWord_of_disjoint (by decide) (by decide),
    getWord_putWord_self (by decide) (order.hton_lt 2 _), hnow', order.hton_hton hnow, hback, hback,
    hhigh, hsum]

theorem time_of_parts (a b c : ℕ) (ha : a < 2 ^ 8) (hb : b < 2 ^ 8) (hc : c < 2 ^ 8) :
    ((b <<< 8) &&& 0xff00) ||| (((a * 2 ^ 8 + c) <<< 8) &&& 0xff0000) |||
        (((a * 2 ^ 8 + c) <<< 0) &&& 0xff) = a * 2 ^ 16 + b * 2 ^ 8 + c := by
  have hb' : (b <<< 8) &&& 0xff00 = b * 2 ^ 8 := by
    rw [show 0xff00 = 0xff <<< 8 from rfl, and_mask, Nat.shiftLeft_eq]
    omega
  have ha' : ((a * 2 ^ 8 + c) <<< 8) &&& 0xff0000 = a * 2 ^ 16 := by
    rw [show 0xff0000 = 0xff <<< 16 from rfl, and_mask, Nat.shiftLeft_eq]
    omega
  have hc' : ((a * 2 ^ 8 + c) <<< 0) &&& 0xff = c := by
    rw [and_byte, Nat.shiftLeft_zero]
    omega
  have hsum : a * 2 ^ 16 + b * 2 ^ 8 = (a * 2 ^ 8 + b) * 2 ^ 8 := by omega
  rw [ha', hb', hc', Nat.or_comm _ (a * 2 ^ 16), or_eq_add (by omega), hsum, or_eq_add hc]

/-- The two numbers of the file name are written and read as one. -/
theorem snprintf_pathFormat (c t : ℕ) {a b : ℕ} (ha : a < 2 ^ 8) (hb : b < 2 ^ 8) :
    snprintf pathFormat [c, t, a, b] = snprintf scanFormat [c, t, a * 2 ^ 8 + b] := by
  have hjoin : hexadecimal 2 a ++ hexadecimal 2 b = hexadecimal 4 (16 ^ 2 * a + b) :=
    hexadecimal_append 2 a hb
  have hsum : 16 ^ 2 * a + b = a * 2 ^ 8 + b := by omega
  have hlt : a * 2 ^ 8 + b < 16 ^ 4 := by omega
  rw [hsum] at hjoin
  simp only [pathFormat, scanFormat, snprintf, max_log (w := 2) (by decide) ha,
    max_log (w := 2) (by decide) hb, max_log (w := 4) (by decide) hlt]
  rw [← hjoin, List.append_assoc (hexadecimal 2 a)]

/-- The walk makes the token of an article from the path below the spool and the number in the
file. -/
theorem PathNumToToken_relative (hnow : now < 2 ^ 24)
    (hpath : MakePath patharticles now cls = patharticles ++ "/".toUTF8.toList ++ path) :
    PathNumToToken order path seqnum = some (MakeToken order now seqnum cls none) := by
  have hcls := cls.toNat_lt
  have hfits : Fits scanFormat [cls.toNat, now / 2 ^ 8 % 2 ^ 8,
      now / 2 ^ 16 * 2 ^ 8 + now % 2 ^ 8] := by
    simp only [scanFormat, Fits, and_true]
    omega
  have hscan := sscanf_snprintf hfits []
  have htime := time_of_parts (now / 2 ^ 16) (now / 2 ^ 8 % 2 ^ 8) (now % 2 ^ 8) (by omega)
    (by omega) (by omega)
  have hnow' : now / 2 ^ 16 * 2 ^ 16 + now / 2 ^ 8 % 2 ^ 8 * 2 ^ 8 + now % 2 ^ 8 = now := by omega
  have hhigh : now / 2 ^ 16 % 2 ^ 8 = now / 2 ^ 16 := by omega
  rw [MakePath, and_byte, and_byte, and_byte, Nat.shiftRight_eq_div_pow, Nat.shiftRight_eq_div_pow,
    snprintf_pathFormat _ _ (by omega) (by omega), hhigh] at hpath
  rw [List.append_nil, List.append_cancel_left hpath] at hscan
  simp only [PathNumToToken, hscan, htime, hnow', UInt8.ofNat_toNat]

/-- A path belongs to the articles of one class and time. -/
theorem eq_of_tokenPath_eq (hnow : now < 2 ^ 24) (hnow' : now' < 2 ^ 24) (hseq : seqnum < 2 ^ 32)
    (hseq' : seqnum' < 2 ^ 32)
    (h : tokenPath order patharticles (MakeToken order now seqnum cls none) =
      tokenPath order patharticles (MakeToken order now' seqnum' cls' none)) :
    cls = cls' ∧ now = now' := by
  rw [tokenPath, tokenPath, BreakToken_MakeToken (by omega) hseq,
    BreakToken_MakeToken (by omega) hseq', cls_MakeToken, cls_MakeToken] at h
  have htoken : MakeToken order now 0 cls none = MakeToken order now' 0 cls' none := by
    apply Option.some_inj.mp
    rw [← PathNumToToken_relative hnow h,
      ← PathNumToToken_relative hnow' (Eq.refl (MakePath patharticles now' cls'))]
  have hbroken := congrArg (BreakToken order) htoken
  rw [BreakToken_MakeToken (by omega) (by decide), BreakToken_MakeToken (by omega) (by decide)]
    at hbroken
  exact ⟨congrArg TOKEN.cls htoken, congrArg Prod.fst hbroken⟩

end Timecaf

/-! ## Tokens and paths -/

/-- Tokens give back the time and the number. The walk makes each token again from the path, in
timecaf with the number. In timehash no two articles share a path, and in timecaf those that do
have different numbers. -/
theorem tokens_and_paths (order : ByteOrder) (patharticles : List UInt8) :
    (∀ (cls : UInt8) (t n : ℕ), t < 2 ^ 32 → n < 2 ^ 16 →
      Timehash.BreakToken order (Timehash.MakeToken order t n cls none) = (t, n) ∧
      ∀ path, Timehash.MakePath patharticles t n cls =
          patharticles ++ "/".toUTF8.toList ++ path →
        Timehash.PathToToken order path = some (Timehash.MakeToken order t n cls none)) ∧
    (∀ (cls cls' : UInt8) (t t' n n' : ℕ), t < 2 ^ 32 → n < 2 ^ 16 → t' < 2 ^ 32 → n' < 2 ^ 16 →
      Timehash.MakeToken order t n cls none ≠ Timehash.MakeToken order t' n' cls' none →
      Timehash.tokenPath order patharticles (Timehash.MakeToken order t n cls none) ≠
        Timehash.tokenPath order patharticles (Timehash.MakeToken order t' n' cls' none)) ∧
    (∀ (cls : UInt8) (t n : ℕ), t < 2 ^ 32 → n < 2 ^ 31 →
      Timecaf.BreakToken order (Timecaf.MakeToken order (t >>> 8) n cls none) = (t >>> 8, n) ∧
      ∀ path, Timecaf.MakePath patharticles (t >>> 8) cls =
          patharticles ++ "/".toUTF8.toList ++ path →
        Timecaf.PathNumToToken order path n =
          some (Timecaf.MakeToken order (t >>> 8) n cls none)) ∧
    (∀ (cls cls' : UInt8) (t t' n n' : ℕ), t < 2 ^ 32 → n < 2 ^ 31 → t' < 2 ^ 32 → n' < 2 ^ 31 →
      Timecaf.MakeToken order (t >>> 8) n cls none ≠
        Timecaf.MakeToken order (t' >>> 8) n' cls' none →
      Timecaf.tokenPath order patharticles (Timecaf.MakeToken order (t >>> 8) n cls none) =
        Timecaf.tokenPath order patharticles (Timecaf.MakeToken order (t' >>> 8) n' cls' none) →
      cls = cls' ∧ t >>> 8 = t' >>> 8 ∧ n ≠ n') := by
  have hshift (t : ℕ) (h : t < 2 ^ 32) : t >>> 8 < 2 ^ 24 := by
    rw [Nat.shiftRight_eq_div_pow]
    omega
  refine ⟨fun cls t n ht hn => ⟨Timehash.BreakToken_MakeToken ht hn, fun path hpath =>
      Timehash.PathToToken_relative ht hn hpath⟩,
    fun cls cls' t t' n n' ht hn ht' hn' hne hpath =>
      hne (Timehash.eq_of_tokenPath_eq ht hn ht' hn' hpath),
    fun cls t n ht hn => ?_, fun cls cls' t t' n n' ht hn ht' hn' hne hpath => ?_⟩
  · have ht := hshift t ht
    exact ⟨Timecaf.BreakToken_MakeToken (by omega) (by omega), fun path hpath =>
      Timecaf.PathNumToToken_relative ht hpath⟩
  · obtain ⟨rfl, htime⟩ :=
      Timecaf.eq_of_tokenPath_eq (hshift t ht) (hshift t' ht') (by omega) (by omega) hpath
    refine ⟨rfl, htime, ?_⟩
    rintro rfl
    exact hne (by rw [htime])

/-- At the end of 2001, in the first file of a class. -/
theorem tokens_and_paths_2001 :
    Timehash.BreakToken .little (Timehash.MakeToken .little 1009843199 65535 3 none) =
        (1009843199, 65535) ∧
      Timecaf.BreakToken .big (Timecaf.MakeToken .big (1009843199 >>> 8) 70000 3 none) =
        (1009843199 >>> 8, 70000) :=
  ⟨((tokens_and_paths .little []).1 3 1009843199 65535 (by decide) (by decide)).1,
    ((tokens_and_paths .big []).2.2.1 3 1009843199 70000 (by decide) (by decide)).1⟩

/-- Two articles of one file of timecaf. -/
theorem timecaf_path_shared :
    Timecaf.MakeToken .little 0 1 0 none ≠ Timecaf.MakeToken .little 0 2 0 none ∧
      ∀ patharticles,
        Timecaf.tokenPath .little patharticles (Timecaf.MakeToken .little 0 1 0 none) =
          Timecaf.tokenPath .little patharticles (Timecaf.MakeToken .little 0 2 0 none) := by
  have hone : Timecaf.BreakToken .little (Timecaf.MakeToken .little 0 1 0 none) = (0, 1) :=
    Timecaf.BreakToken_MakeToken (by decide) (by decide)
  have htwo : Timecaf.BreakToken .little (Timecaf.MakeToken .little 0 2 0 none) = (0, 2) :=
    Timecaf.BreakToken_MakeToken (by decide) (by decide)
  constructor
  · intro h
    rw [h, htwo] at hone
    exact absurd hone (by decide)
  · intro patharticles
    rw [Timecaf.tokenPath, Timecaf.tokenPath, hone, htwo, Timecaf.cls_MakeToken,
      Timecaf.cls_MakeToken]

end Inn
