import Mathlib.Data.List.Pairwise
import Mathlib.Tactic.Use
import Inn.Storage.Token

/-!
# Inn.Buffindexed.Gettoken — the search of a group's sorted index

`ovgroupmmap` sorts the index of a group and zeroes all but the last entry of each article
number; `gettoken` then bisects it. A probe that meets a zeroed entry looks backwards for one
that is not.

* `bisect_halved` — the search comes to every stretch that holds the number's place;
* `bisect_found` — where none of them starts with zeroed entries up to its middle, it finds it;
* `bisect_above` — above the last entry it ends behind the index for some lengths.
-/

namespace Inn.Buffindexed

open Inn.Storage

/-- `OVINDEX`, without the place of the overview data. -/
structure OVINDEX where
  artnum : ℕ
  token : TOKEN
deriving DecidableEq

/-! ## The index -/

/-- The loop of `ovgroupmmap` that zeroes an entry whose successor has the same number. -/
def removeDuplicates : List OVINDEX → List OVINDEX
  | [] => []
  | [e] => [e]
  | e :: f :: rest =>
    (if e.artnum = f.artnum then { e with artnum := 0 } else e) :: removeDuplicates (f :: rest)

/-- What `qsort` with `INDEXcompare` leaves. -/
def SortedIndex (Gib : List OVINDEX) : Prop := Gib.Pairwise fun e f => e.artnum ≤ f.artnum

/-- Of the entries that are not zeroed, a later one has the greater number. -/
def Increasing (Gib : List OVINDEX) : Prop :=
  Gib.Pairwise fun e f => e.artnum ≠ 0 → f.artnum ≠ 0 → e.artnum < f.artnum

theorem exists_of_mem_removeDuplicates (Gib : List OVINDEX) :
    ∀ e ∈ removeDuplicates Gib, e.artnum ≠ 0 → e ∈ Gib := by
  induction Gib using removeDuplicates.induct with
  | case1 => simp [removeDuplicates]
  | case2 e => simp [removeDuplicates]
  | case3 e f rest ih =>
    intro g hg hne
    rw [removeDuplicates, List.mem_cons] at hg
    rcases hg with rfl | hg
    · split at hne
      · exact absurd rfl hne
      · rename_i heq
        simp [heq]
    · exact List.mem_cons_of_mem _ (ih g hg hne)

/-- What `ovgroupmmap` leaves for the search. -/
theorem increasing_removeDuplicates {Gib : List OVINDEX} (h : SortedIndex Gib) :
    Increasing (removeDuplicates Gib) := by
  induction Gib using removeDuplicates.induct with
  | case1 => exact .nil
  | case2 e => exact List.pairwise_singleton _ _
  | case3 e f rest ih =>
    have htail := (List.pairwise_cons.mp h).2
    refine List.pairwise_cons.mpr ⟨fun g hg hne hne' => ?_, ih htail⟩
    have hg' := exists_of_mem_removeDuplicates _ g hg hne'
    have hef := (List.pairwise_cons.mp h).1 f (by simp)
    have hfg : f.artnum ≤ g.artnum := by
      rcases List.mem_cons.mp hg' with rfl | hg'
      · exact Nat.le_refl _
      · exact (List.pairwise_cons.mp htail).1 g hg'
    -- an entry that is left differs from its successor
    split at hne
    · exact absurd rfl hne
    · rename_i heq
      simp only [heq, if_false]
      omega

/-! ## The search -/

/-- The backward scan from a zeroed entry: the last of the `k` entries from `offset` on that is
not zeroed. The outer `none` is a read behind the index. -/
def lastFilled (Gib : List OVINDEX) (offset : ℕ) : ℕ → Option (Option ℕ)
  | 0 => some none
  | k + 1 =>
    match Gib[offset + k]? with
    | none => none
    | some e => if e.artnum ≠ 0 then some (some (offset + k)) else lastFilled Gib offset k

/-- What one pass of the loop, or the end of it, comes to. -/
inductive Pass where
  | overread
  | answer (token : Option TOKEN)
  | narrow (offset limit : ℕ)
deriving DecidableEq

/-- A pass of the loop of `gettoken` over `[offset, limit)`, and what follows the loop where
that has no middle. -/
def pass (Gib : List OVINDEX) (artnum offset limit : ℕ) : Pass :=
  let i := (limit - offset) / 2
  if 0 < i then
    match Gib[offset + i]? with
    | none => .overread
    | some e =>
      if e.artnum = artnum then .answer (some e.token)
      else if e.artnum = 0 then
        match lastFilled Gib offset i with
        | none => .overread
        | some none => .answer none
        | some (some j) =>
          match Gib[j]? with
          | none => .overread
          | some f =>
            if f.artnum = artnum then .answer (some f.token)
            else if f.artnum < artnum then .narrow (offset + i + 1) limit
            else .narrow offset j
      else if e.artnum < artnum then .narrow (offset + i + 1) limit
      else .narrow offset (offset + i)
  else
    match Gib[offset]? with
    | none => .overread
    | some e => .answer (if e.artnum ≠ artnum then none else some e.token)

theorem lastFilled_lt {Gib : List OVINDEX} {offset k j : ℕ}
    (h : lastFilled Gib offset k = some (some j)) : j < offset + k := by
  induction k with
  | zero => simp [lastFilled] at h
  | succ k ih =>
    rw [lastFilled] at h
    split at h
    · exact nomatch h
    · split at h
      · cases h
        omega
      · exact Nat.lt_succ_of_lt (ih h)

/-- Each pass leaves a smaller stretch. -/
theorem pass_narrow {Gib : List OVINDEX} {artnum offset limit o l : ℕ}
    (h : pass Gib artnum offset limit = .narrow o l) : l - o < limit - offset := by
  rw [pass] at h
  split_ifs at h with hi
  · split at h
    · exact nomatch h
    · split_ifs at h
      · split at h
        · exact nomatch h
        · exact nomatch h
        · rename_i hj
          have hj := lastFilled_lt hj
          split at h
          · exact nomatch h
          · split_ifs at h
            · cases h
              omega
            · cases h
              omega
      · cases h
        omega
      · cases h
        omega
  · split at h <;> exact nomatch h

/-- The loop of `gettoken` from `[offset, limit)` on. -/
def bisect (Gib : List OVINDEX) (artnum offset limit : ℕ) : Option (Option TOKEN) :=
  match h : pass Gib artnum offset limit with
  | .overread => none
  | .answer token => some token
  | .narrow o l =>
    have := pass_narrow h
    bisect Gib artnum o l
termination_by limit - offset

/-- `gettoken`; `none` is a read behind the index. -/
def gettoken (Gib : List OVINDEX) (artnum : ℕ) : Option (Option TOKEN) :=
  if Gib.length = 0 then some none else bisect Gib artnum 0 Gib.length

theorem bisect_answer {Gib : List OVINDEX} {artnum o l : ℕ} {token : Option TOKEN}
    (h : pass Gib artnum o l = .answer token) : bisect Gib artnum o l = some token := by
  rw [bisect]
  split <;> simp_all

theorem bisect_overread {Gib : List OVINDEX} {artnum o l : ℕ}
    (h : pass Gib artnum o l = .overread) : bisect Gib artnum o l = none := by
  rw [bisect]
  split <;> simp_all

theorem bisect_narrow {Gib : List OVINDEX} {artnum o l o' l' : ℕ}
    (h : pass Gib artnum o l = .narrow o' l') :
    bisect Gib artnum o l = bisect Gib artnum o' l' := by
  rw [bisect]
  split <;> simp_all

/-! ## Stretches -/

/-- The middle that a pass over `[offset, limit)` probes. -/
def middle (offset limit : ℕ) : ℕ := offset + (limit - offset) / 2

/-- The entry is zeroed. -/
def Zeroed (Gib : List OVINDEX) (k : ℕ) : Prop := ∀ e, Gib[k]? = some e → e.artnum = 0

/-- `f` is the last entry of `[offset, m]` that is not zeroed. -/
structure Filled (Gib : List OVINDEX) (offset m j : ℕ) (f : OVINDEX) : Prop where
  lower : offset ≤ j
  upper : j ≤ m
  entry : Gib[j]? = some f
  filled : f.artnum ≠ 0
  zeroed : ∀ k, j < k → k ≤ m → Zeroed Gib k

/-- All entries from the first to the middle are zeroed. -/
def Blocked (Gib : List OVINDEX) (offset limit : ℕ) : Prop :=
  2 ≤ limit - offset ∧ ∀ k, offset ≤ k → k ≤ middle offset limit → Zeroed Gib k

/-- The stretches that halving the index comes to: behind the middle, or before the last entry
up to the middle that is not zeroed. -/
inductive Halved (Gib : List OVINDEX) : ℕ → ℕ → Prop
  | whole : Halved Gib 0 Gib.length
  | behind {o l j : ℕ} {f : OVINDEX} : Halved Gib o l → 2 ≤ l - o → Filled Gib o (middle o l) j f →
      Halved Gib (middle o l + 1) l
  | before {o l j : ℕ} {f : OVINDEX} : Halved Gib o l → 2 ≤ l - o → Filled Gib o (middle o l) j f →
      Halved Gib o j

theorem middle_lt {o l : ℕ} (h : 2 ≤ l - o) : middle o l < l := by
  rw [middle]
  omega

theorem Halved.le_length {Gib : List OVINDEX} {o l : ℕ} (h : Halved Gib o l) :
    o ≤ l ∧ l ≤ Gib.length := by
  induction h with
  | whole => exact ⟨Nat.zero_le _, Nat.le_refl _⟩
  | behind _ h2 _ ih => exact ⟨middle_lt h2, ih.2⟩
  | before _ h2 hf ih =>
    have := middle_lt h2
    exact ⟨hf.lower, by have := hf.upper; omega⟩

theorem lastFilled_none {Gib : List OVINDEX} {o k : ℕ} (hk : o + k ≤ Gib.length)
    (h : ∀ i, o ≤ i → i < o + k → Zeroed Gib i) : lastFilled Gib o k = some none := by
  induction k with
  | zero => rfl
  | succ k ih =>
    have hlt : o + k < Gib.length := hk
    have hz := h (o + k) (by omega) (by omega) _ (List.getElem?_eq_getElem hlt)
    rw [lastFilled, List.getElem?_eq_getElem hlt]
    simp only [hz, ne_eq, not_true_eq_false, if_false]
    exact ih (by omega) fun i hi hik => h i hi (by omega)

theorem lastFilled_some {Gib : List OVINDEX} {o k j : ℕ} {f : OVINDEX} (hk : o + k ≤ Gib.length)
    (hj : o ≤ j) (hjk : j < o + k) (hf : Gib[j]? = some f) (hne : f.artnum ≠ 0)
    (h : ∀ i, j < i → i < o + k → Zeroed Gib i) : lastFilled Gib o k = some (some j) := by
  induction k with
  | zero => omega
  | succ k ih =>
    have hlt : o + k < Gib.length := hk
    rw [lastFilled, List.getElem?_eq_getElem hlt]
    rcases Nat.lt_or_ge j (o + k) with hjk' | hjk'
    · have hz := h (o + k) hjk' (by omega) _ (List.getElem?_eq_getElem hlt)
      simp only [hz, ne_eq, not_true_eq_false, if_false]
      exact ih (by omega) hjk' fun i hi hik => h i hi (by omega)
    · obtain rfl : j = o + k := by omega
      rw [List.getElem?_eq_getElem hlt, Option.some_inj] at hf
      simp only [hf, ne_eq, hne, not_false_eq_true, if_true]

/-- A stretch starts with zeroed entries up to its middle, or has a last one that is not. -/
theorem blocked_or_filled {Gib : List OVINDEX} {o l : ℕ} (h2 : 2 ≤ l - o) (hl : l ≤ Gib.length) :
    Blocked Gib o l ∨ ∃ j f, Filled Gib o (middle o l) j f := by
  have key : ∀ k, o + k ≤ Gib.length →
      (∀ i, o ≤ i → i < o + k → Zeroed Gib i) ∨ ∃ j f, o ≤ j ∧ j < o + k ∧ Gib[j]? = some f ∧
        f.artnum ≠ 0 ∧ ∀ i, j < i → i < o + k → Zeroed Gib i := by
    intro k
    induction k with
    | zero => exact fun _ => .inl fun i hi hik => absurd hik (by omega)
    | succ k ih =>
      intro hk
      have hlt : o + k < Gib.length := hk
      by_cases hz : (Gib[o + k]).artnum = 0
      · have hzk : Zeroed Gib (o + k) := by
          intro e he
          rw [List.getElem?_eq_getElem hlt, Option.some_inj] at he
          exact he ▸ hz
        rcases ih (by omega) with hall | ⟨j, f, hj, hjk, hf, hne, hrest⟩
        · refine .inl fun i hi hik => ?_
          rcases Nat.lt_or_eq_of_le (Nat.lt_succ_iff.mp hik) with hik | rfl
          · exact hall i hi hik
          · exact hzk
        · refine .inr ⟨j, f, hj, by omega, hf, hne, fun i hi hik => ?_⟩
          rcases Nat.lt_or_eq_of_le (Nat.lt_succ_iff.mp hik) with hik | rfl
          · exact hrest i hi hik
          · exact hzk
      · exact .inr ⟨o + k, Gib[o + k], by omega, by omega, List.getElem?_eq_getElem hlt, hz,
          fun i hi hik => by omega⟩
  have hm := middle_lt h2
  have hmo : o ≤ middle o l := Nat.le_add_right _ _
  rcases key (middle o l + 1 - o) (by omega) with hall | ⟨j, f, hj, hjk, hf, hne, hrest⟩
  · exact .inl ⟨h2, fun k hk hkm => hall k hk (by omega)⟩
  · exact .inr ⟨j, f, hj, by omega, hf, hne, fun k hk hkm => hrest k hk (by omega)⟩

variable {Gib : List OVINDEX} {artnum o l j q : ℕ} {e f : OVINDEX}

/-- A pass over a stretch that starts with zeroed entries gives up. -/
theorem pass_blocked (h0 : 0 < artnum) (hl : l ≤ Gib.length) (hb : Blocked Gib o l) :
    pass Gib artnum o l = .answer none := by
  obtain ⟨h2, hz⟩ := hb
  have hm := middle_lt h2
  rw [middle] at hm hz
  have hlt : o + (l - o) / 2 < Gib.length := by omega
  have hmid := hz _ (by omega) (Nat.le_refl _) _ (List.getElem?_eq_getElem hlt)
  have hscan : lastFilled Gib o ((l - o) / 2) = some none :=
    lastFilled_none (by omega) fun i hi hik => hz i hi (by omega)
  simp only [pass, if_pos (show 0 < (l - o) / 2 by omega), List.getElem?_eq_getElem hlt, hmid,
    if_neg (show ¬ 0 = artnum by omega), if_true, hscan]

/-- A pass over another one compares with the last entry that is not zeroed. -/
theorem pass_filled (h0 : 0 < artnum) (h2 : 2 ≤ l - o) (hl : l ≤ Gib.length)
    (hf : Filled Gib o (middle o l) j f) :
    pass Gib artnum o l =
      if f.artnum = artnum then .answer (some f.token)
      else if f.artnum < artnum then .narrow (middle o l + 1) l
      else .narrow o j := by
  have hm := middle_lt h2
  obtain ⟨hlow, hup, hent, hne, hz⟩ := hf
  rw [middle] at *
  have hlt : o + (l - o) / 2 < Gib.length := by omega
  simp only [pass, if_pos (show 0 < (l - o) / 2 by omega)]
  rcases Nat.lt_or_eq_of_le hup with hup | rfl
  · -- the probe is zeroed
    have hmid := hz _ hup (Nat.le_refl _) _ (List.getElem?_eq_getElem hlt)
    have hscan : lastFilled Gib o ((l - o) / 2) = some (some j) :=
      lastFilled_some (by omega) hlow hup hent hne fun i hi hik => hz i hi (by omega)
    simp only [List.getElem?_eq_getElem hlt, hmid, if_neg (show ¬ 0 = artnum by omega), if_true,
      hscan, hent]
  · simp only [hent, if_neg hne]

/-- What follows the loop. -/
theorem pass_end (h2 : ¬ 2 ≤ l - o) (he : Gib[o]? = some e) :
    pass Gib artnum o l = .answer (if e.artnum ≠ artnum then none else some e.token) := by
  simp only [pass, if_neg (show ¬ 0 < (l - o) / 2 by omega), he]

theorem pass_behind (h2 : ¬ 2 ≤ l - o) (ho : Gib.length ≤ o) :
    pass Gib artnum o l = .overread := by
  simp only [pass, if_neg (show ¬ 0 < (l - o) / 2 by omega), List.getElem?_eq_none ho]

/-! ## The run -/

/-- The place of the number among the entries that are not zeroed. -/
structure Place (Gib : List OVINDEX) (artnum q : ℕ) : Prop where
  before : ∀ k f, Gib[k]? = some f → f.artnum ≠ 0 → k < q → f.artnum < artnum
  behind : ∀ k f, Gib[k]? = some f → f.artnum ≠ 0 → q < k → artnum < f.artnum

/-- The stretch holds the place `q`, or ends with the index as the place does. -/
def Holds (Gib : List OVINDEX) (o l q : ℕ) : Prop :=
  o ≤ q ∧ (q < l ∨ l = Gib.length ∧ q = Gib.length)

theorem Increasing.lt {j k : ℕ} (h : Increasing Gib) (hj : Gib[j]? = some e) (hk : Gib[k]? = some f)
    (hjk : j < k) (he : e.artnum ≠ 0) (hf : f.artnum ≠ 0) : e.artnum < f.artnum := by
  obtain ⟨hjl, rfl⟩ := List.getElem?_eq_some_iff.mp hj
  obtain ⟨hkl, rfl⟩ := List.getElem?_eq_some_iff.mp hk
  exact List.pairwise_iff_getElem.mp h j k hjl hkl hjk he hf

/-- The place of a number that has an entry. -/
theorem Increasing.place (h : Increasing Gib) (h0 : 0 < artnum) (hq : Gib[q]? = some e)
    (he : e.artnum = artnum) : Place Gib artnum q := by
  have hne : e.artnum ≠ 0 := by omega
  constructor
  · intro k f hk hf hkq
    exact he ▸ h.lt hk hq hkq hf hne
  · intro k f hk hf hqk
    exact he ▸ h.lt hq hk hqk hne hf

/-- The place of a number above all entries. -/
theorem place_length (h : ∀ e ∈ Gib, e.artnum < artnum) : Place Gib artnum Gib.length := by
  constructor
  · intro k f hk _ _
    exact h f (List.mem_of_getElem? hk)
  · intro k f hk _ hlt
    exact absurd (List.getElem?_eq_some_iff.mp hk).1 (by omega)

/-- The search comes to every stretch that holds the place. -/
theorem bisect_halved (h0 : 0 < artnum) (hp : Place Gib artnum q) (h : Halved Gib o l)
    (hq : Holds Gib o l q) : bisect Gib artnum 0 Gib.length = bisect Gib artnum o l := by
  induction h with
  | whole => rfl
  | @behind o l j f hh h2 hf ih =>
    have hm : o ≤ middle o l := Nat.le_add_right _ _
    have hfq := hf.upper
    have hlt := hp.before j f hf.entry hf.filled (by have := hq.1; omega)
    rw [ih ⟨by have := hq.1; omega, hq.2⟩]
    apply bisect_narrow
    rw [pass_filled h0 h2 hh.le_length.2 hf, if_neg (by omega), if_pos hlt]
  | @before o l j f hh h2 hf ih =>
    have hm := middle_lt h2
    have hfq := hf.upper
    have hjl := (List.getElem?_eq_some_iff.mp hf.entry).1
    have hqj : q < j := by
      rcases hq.2 with h | ⟨h, _⟩
      · exact h
      · omega
    have hlt := hp.behind j f hf.entry hf.filled hqj
    rw [ih ⟨hq.1, .inl (by omega)⟩]
    apply bisect_narrow
    rw [pass_filled h0 h2 hh.le_length.2 hf, if_neg (by omega), if_neg (by omega)]

/-- Where a stretch with the place starts with zeroed entries, the search gives up. -/
theorem bisect_blocked (h0 : 0 < artnum) (hp : Place Gib artnum q) (h : Halved Gib o l)
    (hq : Holds Gib o l q) (hb : Blocked Gib o l) :
    bisect Gib artnum 0 Gib.length = some none := by
  rw [bisect_halved h0 hp h hq]
  exact bisect_answer (pass_blocked h0 h.le_length.2 hb)

/-- Else it finds an entry. -/
theorem bisect_found (h0 : 0 < artnum) (hp : Place Gib artnum q) (hq : Gib[q]? = some e)
    (he : e.artnum = artnum)
    (hfree : ∀ o l, Halved Gib o l → o ≤ q → q < l → ¬ Blocked Gib o l) (h : Halved Gib o l)
    (ho : o ≤ q) (hl : q < l) : bisect Gib artnum o l = some (some e.token) := by
  induction hn : l - o using Nat.strongRecOn generalizing o l with
  | _ n ih =>
  subst hn
  by_cases h2 : 2 ≤ l - o
  · obtain ⟨j, f, hf⟩ :=
      (blocked_or_filled h2 h.le_length.2).resolve_left (hfree o l h ho hl)
    have hpass := pass_filled h0 h2 h.le_length.2 hf
    have hml := middle_lt h2
    have hmo : o ≤ middle o l := Nat.le_add_right _ _
    have hlow := hf.lower
    have hup := hf.upper
    rcases Nat.lt_trichotomy q j with hqj | rfl | hjq
    · have hlt := hp.behind j f hf.entry hf.filled hqj
      rw [if_neg (by omega), if_neg (by omega)] at hpass
      rw [bisect_narrow hpass]
      exact ih _ (by omega) (h.before h2 hf) ho hqj rfl
    · obtain rfl := Option.some_inj.mp (hf.entry.symm.trans hq)
      rw [if_pos he] at hpass
      exact bisect_answer hpass
    · have hlt := hp.before j f hf.entry hf.filled hjq
      rw [if_neg (by omega), if_pos hlt] at hpass
      rw [bisect_narrow hpass]
      -- the entries between `j` and the middle are zeroed, so the place is behind it
      have hmq : middle o l < q := by
        by_contra hmq
        have := hf.zeroed q hjq (by omega) e hq
        omega
      exact ih _ (by omega) (h.behind h2 hf) hmq hl rfl
  · obtain rfl : o = q := by omega
    rw [bisect_answer (pass_end h2 hq), if_neg (not_not.mpr he)]

/-- A number below some entry that has none of its own is not found. -/
theorem bisect_absent (h0 : 0 < artnum) (hinc : Increasing Gib)
    (habs : ∀ e ∈ Gib, e.artnum ≠ artnum) (hl : l ≤ Gib.length)
    (hq : Gib[q]? = some e) (he : artnum < e.artnum) (ho : o ≤ q) (hql : q ≤ l) :
    bisect Gib artnum o l = some none := by
  induction hn : l - o using Nat.strongRecOn generalizing o l q e with
  | _ n ih =>
  subst hn
  by_cases h2 : 2 ≤ l - o
  · rcases blocked_or_filled h2 hl with hb | ⟨j, f, hf⟩
    · exact bisect_answer (pass_blocked h0 hl hb)
    · have hpass := pass_filled h0 h2 hl hf
      rw [if_neg (habs f (List.mem_of_getElem? hf.entry))] at hpass
      have hml := middle_lt h2
      have hmo : o ≤ middle o l := Nat.le_add_right _ _
      have hlow := hf.lower
      have hup := hf.upper
      by_cases hlt : f.artnum < artnum
      · rw [if_pos hlt] at hpass
        rw [bisect_narrow hpass]
        have hmq : middle o l < q := by
          by_contra hmq
          rcases Nat.lt_trichotomy q j with hqj | rfl | hjq
          · have := hinc.lt hq hf.entry hqj (by omega) hf.filled
            omega
          · obtain rfl := Option.some_inj.mp (hf.entry.symm.trans hq)
            omega
          · have := hf.zeroed q hjq (by omega) e hq
            omega
        exact ih _ (by omega) hl hq he hmq hql rfl
      · rw [if_neg hlt] at hpass
        rw [bisect_narrow hpass]
        have hne := habs f (List.mem_of_getElem? hf.entry)
        exact ih _ (by omega) (by omega) hf.entry (by omega) hlow (Nat.le_refl _) rfl
  · have hql' := (List.getElem?_eq_some_iff.mp hq).1
    have hlt : o < Gib.length := by omega
    rw [bisect_answer (pass_end h2 (List.getElem?_eq_getElem hlt)),
      if_pos (habs _ (List.getElem_mem hlt))]

theorem div_two_pow_succ (n k : ℕ) : n / 2 ^ (k + 1) = n / 2 ^ k / 2 := by
  rw [Nat.pow_succ, Nat.div_div_eq_div_mul]

/-- A number that halving takes to two is not taken to three. -/
theorem div_two_pow_ne_three {n k : ℕ} (h : n / 2 ^ k = 2) (m : ℕ) : n / 2 ^ m ≠ 3 := by
  intro h3
  rcases Nat.le_total k m with hkm | hkm
  · obtain ⟨d, rfl⟩ := Nat.exists_eq_add_of_le hkm
    rw [Nat.pow_add, ← Nat.div_div_eq_div_mul, h] at h3
    have := Nat.div_le_self 2 (2 ^ d)
    omega
  · obtain ⟨d, rfl⟩ := Nat.exists_eq_add_of_le hkm
    rw [Nat.pow_add, ← Nat.div_div_eq_div_mul, h3] at h
    cases d with
    | zero => simp at h
    | succ d =>
      rw [div_two_pow_succ, Nat.div_div_eq_div_mul, Nat.mul_comm, ← Nat.div_div_eq_div_mul] at h
      have := Nat.div_le_self (3 / 2) (2 ^ d)
      omega

/-- The search for a number above all entries keeps the end of the index: it ends behind it
where the halves of its length come to two, and at the last entry otherwise. -/
theorem bisect_above {k : ℕ} (h0 : 0 < artnum) (habove : ∀ e ∈ Gib, e.artnum < artnum)
    (hfree : ∀ o, Halved Gib o Gib.length → ¬ Blocked Gib o Gib.length)
    (h : Halved Gib o Gib.length) (ho : o < Gib.length)
    (hk : (Gib.length + 1) / 2 ^ k = Gib.length - o + 1) :
    (bisect Gib artnum o Gib.length = none ∧ ∃ k, (Gib.length + 1) / 2 ^ k = 3) ∨
    (bisect Gib artnum o Gib.length = some none ∧ ¬ ∃ k, (Gib.length + 1) / 2 ^ k = 3) := by
  induction hn : Gib.length - o using Nat.strongRecOn generalizing o k with
  | _ n ih =>
  subst hn
  by_cases h2 : 2 ≤ Gib.length - o
  · obtain ⟨j, f, hf⟩ := (blocked_or_filled h2 (Nat.le_refl _)).resolve_left (hfree o h)
    have hlt := habove f (List.mem_of_getElem? hf.entry)
    have hpass := pass_filled h0 h2 (Nat.le_refl _) hf
    rw [if_neg (by omega), if_pos hlt] at hpass
    rw [bisect_narrow hpass]
    have hnext := h.behind h2 hf
    have hm : middle o Gib.length = o + (Gib.length - o) / 2 := rfl
    by_cases h3 : Gib.length - o = 2
    · -- the last entry was probed, and the stretch behind it is empty
      refine .inl ⟨bisect_overread (pass_behind (by omega) (by omega)), k, by omega⟩
    · refine ih _ (by omega) (k := k + 1) hnext (by omega) ?_ rfl
      rw [div_two_pow_succ, hk]
      omega
  · refine .inr ⟨?_, fun ⟨m, hm⟩ => div_two_pow_ne_three (hk.trans (by omega)) m hm⟩
    have hne := Nat.ne_of_lt (habove _ (List.getElem_mem ho))
    rw [bisect_answer (pass_end h2 (List.getElem?_eq_getElem ho)), if_pos hne]

/-! ## When the search is correct -/

/-- The token of the entry with the number. -/
def tokenFor (Gib : List OVINDEX) (artnum : ℕ) : Option TOKEN :=
  (Gib.find? fun e => e.artnum = artnum).map (·.token)

/-- No stretch of the search that holds the number's entry starts with zeroed entries up to its
middle. -/
def Reached (Gib : List OVINDEX) (artnum : ℕ) : Prop :=
  ∀ q e, Gib[q]? = some e → e.artnum = artnum →
    ∀ o l, Halved Gib o l → o ≤ q → q < l → ¬ Blocked Gib o l

/-- For a number above all entries, the length plus one is not of the binary form `11…`, or a
stretch at the end of the index starts with zeroed entries up to its middle. -/
def EndsInside (Gib : List OVINDEX) (artnum : ℕ) : Prop :=
  (∀ e ∈ Gib, e.artnum < artnum) → (∃ k, (Gib.length + 1) / 2 ^ k = 3) →
    ∃ o, Halved Gib o Gib.length ∧ Blocked Gib o Gib.length

theorem tokenFor_some (h : Increasing Gib) (h0 : 0 < artnum) (hq : Gib[q]? = some e)
    (he : e.artnum = artnum) : tokenFor Gib artnum = some e.token := by
  have hfound : (Gib.find? fun e => e.artnum = artnum).isSome :=
    List.find?_isSome.mpr ⟨e, List.mem_of_getElem? hq, by simpa using he⟩
  obtain ⟨f, hf⟩ := Option.isSome_iff_exists.mp hfound
  have hfa : f.artnum = artnum := by simpa using List.find?_some hf
  obtain ⟨j, hj⟩ := List.getElem?_of_mem (List.mem_of_find?_eq_some hf)
  have hef : f = e := by
    rcases Nat.lt_trichotomy q j with hqj | rfl | hjq
    · have := h.lt hq hj hqj (by omega) (by omega)
      omega
    · exact Option.some_inj.mp (hj.symm.trans hq)
    · have := h.lt hj hq hjq (by omega) (by omega)
      omega
  rw [tokenFor, hf, hef]
  rfl

theorem tokenFor_none (h : ∀ e ∈ Gib, e.artnum ≠ artnum) : tokenFor Gib artnum = none := by
  have hnone : (Gib.find? fun e => e.artnum = artnum) = none := by
    rw [List.find?_eq_none]
    intro e he
    simpa using h e he
  rw [tokenFor, hnone]
  rfl

theorem gettoken_present (h : Increasing Gib) (h0 : 0 < artnum) (hq : Gib[q]? = some e)
    (he : e.artnum = artnum) :
    gettoken Gib artnum = some (some e.token) ↔ Reached Gib artnum := by
  have hlt := (List.getElem?_eq_some_iff.mp hq).1
  rw [gettoken, if_neg (by omega)]
  constructor
  · intro hfound r f hr hf o l hh ho hl hb
    have hgive := bisect_blocked h0 (h.place h0 hr hf) hh ⟨ho, .inl hl⟩ hb
    rw [hgive] at hfound
    exact nomatch hfound
  · intro hreach
    exact bisect_found h0 (h.place h0 hq he) hq he (hreach q e hq he) .whole (Nat.zero_le _) hlt

theorem gettoken_above (h0 : 0 < artnum) (habove : ∀ e ∈ Gib, e.artnum < artnum) :
    gettoken Gib artnum = some none ↔ EndsInside Gib artnum := by
  by_cases hb : ∃ o, Halved Gib o Gib.length ∧ Blocked Gib o Gib.length
  · refine iff_of_true ?_ fun _ _ => hb
    obtain ⟨o, hh, hb⟩ := hb
    have hgive := bisect_blocked h0 (place_length habove) hh ⟨hh.le_length.1, .inr ⟨rfl, rfl⟩⟩ hb
    rw [gettoken, hgive, ite_self]
  · have hiff : EndsInside Gib artnum ↔ ¬ ∃ k, (Gib.length + 1) / 2 ^ k = 3 :=
      ⟨fun h hk => hb (h habove hk), fun h _ hk => absurd hk h⟩
    rw [hiff, gettoken]
    by_cases hlen : Gib.length = 0
    · rw [if_pos hlen]
      refine iff_of_true rfl fun ⟨k, hk⟩ => ?_
      have := Nat.div_le_self (Gib.length + 1) (2 ^ k)
      omega
    · rw [if_neg hlen]
      rcases bisect_above (k := 0) h0 habove (fun o ho ho' => hb ⟨o, ho, ho'⟩) .whole (by omega)
          (by simp) with ⟨hrun, hk⟩ | ⟨hrun, hk⟩
      · rw [hrun]
        exact iff_of_false nofun fun h => h hk
      · exact iff_of_true hrun hk

/-- The search answers for the number exactly under these two conditions. -/
theorem gettoken_correct_iff {index : List OVINDEX} (hs : SortedIndex index) (h0 : 0 < artnum) :
    gettoken (removeDuplicates index) artnum = some (tokenFor (removeDuplicates index) artnum) ↔
      Reached (removeDuplicates index) artnum ∧ EndsInside (removeDuplicates index) artnum := by
  have hinc := increasing_removeDuplicates hs
  generalize removeDuplicates index = Gib at hinc
  by_cases hpres : ∃ e ∈ Gib, e.artnum = artnum
  · obtain ⟨e, hmem, he⟩ := hpres
    obtain ⟨q, hq⟩ := List.getElem?_of_mem hmem
    have hends : EndsInside Gib artnum := fun h => absurd (h e hmem) (by omega)
    rw [tokenFor_some hinc h0 hq he, gettoken_present hinc h0 hq he]
    exact (and_iff_left hends).symm
  · have habs : ∀ e ∈ Gib, e.artnum ≠ artnum := fun e he ha => hpres ⟨e, he, ha⟩
    have hreach : Reached Gib artnum := fun q e hq he =>
      absurd he (habs e (List.mem_of_getElem? hq))
    rw [tokenFor_none habs, and_iff_right hreach]
    by_cases habove : ∀ e ∈ Gib, e.artnum < artnum
    · exact gettoken_above h0 habove
    · push Not at habove
      obtain ⟨e, hmem, hle⟩ := habove
      obtain ⟨q, hq⟩ := List.getElem?_of_mem hmem
      have hlt := (List.getElem?_eq_some_iff.mp hq).1
      have hne := habs e hmem
      refine iff_of_true ?_ fun h => absurd (h e hmem) (by omega)
      rw [gettoken, if_neg (by omega)]
      exact bisect_absent h0 hinc habs (Nat.le_refl _) hq (by omega) (Nat.zero_le _) (by omega)

/-- Such an index, with one entry for each of two numbers. -/
theorem gettoken_correct_two :
    (SortedIndex [⟨3, .zero⟩, ⟨4, .zero⟩] ∧ 0 < 3) ∧
      (gettoken (removeDuplicates [⟨3, .zero⟩, ⟨4, .zero⟩]) 3 =
          some (tokenFor (removeDuplicates [⟨3, .zero⟩, ⟨4, .zero⟩]) 3) ↔
        Reached (removeDuplicates [⟨3, .zero⟩, ⟨4, .zero⟩]) 3 ∧
          EndsInside (removeDuplicates [⟨3, .zero⟩, ⟨4, .zero⟩]) 3) := by
  have hs : SortedIndex [⟨3, .zero⟩, ⟨4, .zero⟩] := by simp [SortedIndex]
  exact ⟨⟨hs, by decide⟩, gettoken_correct_iff hs (by decide)⟩

/-- Three entries of one article: the first probe meets a zeroed one, and the article is not
found. Two articles, and a number above both: the last entry read is behind the index. -/
theorem gettoken_wrong :
    (SortedIndex [⟨5, .zero⟩, ⟨5, .zero⟩, ⟨5, .zero⟩] ∧
      gettoken (removeDuplicates [⟨5, .zero⟩, ⟨5, .zero⟩, ⟨5, .zero⟩]) 5 = some none ∧
      tokenFor (removeDuplicates [⟨5, .zero⟩, ⟨5, .zero⟩, ⟨5, .zero⟩]) 5 = some .zero) ∧
    (SortedIndex [⟨1, .zero⟩, ⟨2, .zero⟩] ∧
      gettoken (removeDuplicates [⟨1, .zero⟩, ⟨2, .zero⟩]) 3 = none) := by
  have hthree : removeDuplicates [⟨5, .zero⟩, ⟨5, .zero⟩, ⟨5, .zero⟩] =
      [⟨0, .zero⟩, ⟨0, .zero⟩, ⟨5, .zero⟩] := rfl
  have htwo : removeDuplicates [⟨1, .zero⟩, ⟨2, .zero⟩] = [⟨1, .zero⟩, ⟨2, .zero⟩] := rfl
  have hgive : pass [⟨0, .zero⟩, ⟨0, .zero⟩, ⟨5, .zero⟩] 5 0 3 = .answer none := rfl
  have hnarrow : pass [⟨1, .zero⟩, ⟨2, .zero⟩] 3 0 2 = .narrow 2 2 := rfl
  have hbehind : pass [⟨1, .zero⟩, ⟨2, .zero⟩] 3 2 2 = .overread := rfl
  rw [hthree, htwo]
  refine ⟨⟨by simp [SortedIndex], bisect_answer hgive, rfl⟩, by simp [SortedIndex], ?_⟩
  exact (bisect_narrow hnarrow).trans (bisect_overread hbehind)

end Inn.Buffindexed
