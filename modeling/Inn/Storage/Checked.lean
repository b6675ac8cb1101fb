import Mathlib.Data.List.Forall2
import Inn.Storage.Columns

/-!
# Inn.Storage.Checked — what `overview_check` lets through

Overview data is split at its TABs, up to its first NUL. Each field is then checked as the
memory from it on, so a check may look behind the field.

* `overviewFields`, `Sound` — the fields, and what is to hold of data that is let through;
* `valid_overview_string_full`, `valid_overview_string_cons` — the two modes of the validator;
* `overview_check_sound_iff` — when data that is let through is sound.
-/

namespace Inn.Storage

open Inn.Innd Inn.Nnrpd
open Inn.Libinn.Wire (xstrndup)

/-! ## Sound overview data -/

/-- The fields of overview data. -/
def overviewFields (data : List UInt8) : List (List UInt8) := (xstrndup data).splitOn TAB

/-- No CR and no LF, except one CRLF at the very end. -/
def OneLine (s : List UInt8) : Prop :=
  ∃ t, (s = t ∨ s = t ++ crlf) ∧ ∀ c ∈ t, c ≠ 13 ∧ c ≠ 10

/-- A check of a string that does not look behind its NUL. -/
def ChecksOnly {α : Type} (check : List UInt8 → α) (s : List UInt8) : Prop :=
  ∀ r r', check (s ++ 0 :: r) = check (s ++ 0 :: r')

/-- The fields that are checked without a header name, and those with one. -/
def plainFields (data : List UInt8) : List (List UInt8) := ((overviewFields data).take 6).drop 1

def fullFields (data : List UInt8) : List (List UInt8) := (overviewFields data).drop 8

/-- What `overview_check` is to make sure of. -/
structure Sound (data : List UInt8) (article : ℕ) : Prop where
  count : 8 ≤ (overviewFields data).length
  nonempty : (overviewFields data).getD 0 [] ≠ []
  digits : ∀ c ∈ (overviewFields data).getD 0 [], IsDigit c
  number : decimalValue ((overviewFields data).getD 0 []) = article
  bytes : ∀ c ∈ (overviewFields data).getD 6 [], IsDigit c
  lines : ∀ s ∈ plainFields data ++ fullFields data, OneLine s
  number_only : ChecksOnly valid_number ((overviewFields data).getD 0 []) ∧
    ChecksOnly strtoul ((overviewFields data).getD 0 [])
  bytes_only : ChecksOnly valid_number ((overviewFields data).getD 6 [])
  plain_only : ∀ s ∈ plainFields data, ChecksOnly (valid_overview_string · false) s
  full_only : ∀ s ∈ fullFields data, ChecksOnly (valid_overview_string · true) s

/-- The article number is there and fits into an `unsigned long`, and each of the fields behind
it up to References begins with an octet that is no line end. -/
structure WellBegun (data : List UInt8) : Prop where
  nonempty : (overviewFields data).getD 0 [] ≠ []
  fits : decimalValue ((overviewFields data).getD 0 []) ≤ ULONG_MAX
  begins : ∀ s ∈ plainFields data, ∃ c t, s = c :: t ∧ c ≠ 13 ∧ c ≠ 10

/-! ## Fields in memory -/

section Fields

variable {p s r : List UInt8} {ss : List (List UInt8)}

theorem splitOn_tab (p : List UInt8) :
    ∃ s ss, p.splitOn TAB = s :: ss ∧ p = s ++ tabbed ss ∧ TAB ∉ s ∧ ∀ t ∈ ss, TAB ∉ t := by
  induction p with
  | nil => exact ⟨[], [], List.splitOn_nil TAB, rfl, List.not_mem_nil, fun t ht => nomatch ht⟩
  | cons c p ih =>
    obtain ⟨s, ss, hsplit, hp, hs, hss⟩ := ih
    rw [List.splitOn_cons_eq_if_modifyHead, hsplit]
    by_cases hc : c = TAB
    · refine ⟨[], s :: ss, if_pos (beq_iff_eq.mpr hc), ?_, List.not_mem_nil, ?_⟩
      · rw [hc, hp, tabbed_cons, List.nil_append]
      · exact List.forall_mem_cons.mpr ⟨hs, hss⟩
    · refine ⟨c :: s, ss, ?_, ?_, ?_, hss⟩
      · rw [if_neg fun h => hc (beq_iff_eq.mp h), List.modifyHead_cons]
      · rw [hp, List.cons_append]
      · exact fun h => (List.mem_cons.mp h).elim (fun h => hc h.symm) hs

theorem mem_tabbed {c : UInt8} {t : List UInt8} (ht : t ∈ ss) (hc : c ∈ t) : c ∈ tabbed ss :=
  List.mem_flatMap.mpr ⟨t, ht, List.mem_cons_of_mem _ hc⟩

/-- Each string in memory is a field and a NUL. -/
theorem strings_fields (ss : List (List UInt8)) :
    List.Forall₂ (fun s m => ∃ r, m = s ++ 0 :: r) ss (strings ss) := by
  induction ss with
  | nil => exact .nil
  | cons s ss ih =>
    rw [strings, flatMap_nul]
    exact .cons ⟨_, rfl⟩ ih

theorem cvector_split_fields (data : List UInt8) :
    cvector_split TAB (xstrndup data) = strings (overviewFields data) := by
  obtain ⟨s, ss, hsplit, hp, hs, hss⟩ := splitOn_tab (xstrndup data)
  rw [overviewFields, hsplit, hp, cvector_split_columns hs hss]

theorem nul_free {data : List UInt8} (hs : s ∈ overviewFields data) : (0 : UInt8) ∉ s := by
  obtain ⟨t, ts, hsplit, hp, -, -⟩ := splitOn_tab (xstrndup data)
  rw [overviewFields, hsplit] at hs
  intro h0
  have hmem : (0 : UInt8) ∈ xstrndup data := by
    rw [hp, List.mem_append]
    rcases List.mem_cons.mp hs with rfl | hs
    · exact .inl h0
    · exact .inr (mem_tabbed hs h0)
  rw [xstrndup] at hmem
  exact absurd (List.mem_takeWhile_imp hmem) (by decide)

theorem getD_nul_free {data : List UInt8} (i : ℕ) :
    (0 : UInt8) ∉ (overviewFields data).getD i [] := by
  rw [List.getD_eq_getElem?_getD]
  rcases hget : (overviewFields data)[i]? with _ | s
  · exact List.not_mem_nil
  · exact nul_free (List.mem_of_getElem? hget)

/-- A check of every string is a check of every field. -/
theorem all_fields {ms : List (List UInt8)} {check : List UInt8 → Bool}
    (h : List.Forall₂ (fun s m => ∃ r, m = s ++ 0 :: r) ss ms) :
    ms.all check = true → ∀ s ∈ ss, ∃ r, check (s ++ 0 :: r) = true := by
  induction h with
  | nil => exact fun _ s hs => nomatch hs
  | cons hm _ ih =>
    intro hall
    rw [List.all_cons, Bool.and_eq_true] at hall
    obtain ⟨r, rfl⟩ := hm
    exact List.forall_mem_cons.mpr ⟨⟨r, hall.1⟩, ih hall.2⟩

theorem getD_fields {ms : List (List UInt8)} {i : ℕ}
    (h : List.Forall₂ (fun s m => ∃ r, m = s ++ 0 :: r) ss ms) (hi : i < ss.length) :
    ∃ r, ms.getD i [] = ss.getD i [] ++ 0 :: r := by
  induction h generalizing i with
  | nil => exact absurd hi (Nat.not_lt_zero i)
  | cons hm _ ih =>
    cases i with
    | zero => exact hm
    | succ i => exact ih (Nat.lt_of_succ_lt_succ hi)

end Fields

/-! ## The validator -/

section Validator

variable {c : UInt8} {s t p r : List UInt8}

theorem OneLine.nil : OneLine [] := ⟨[], .inl rfl, fun _ hc => absurd hc List.not_mem_nil⟩

theorem OneLine.cons (hc : c ≠ 13 ∧ c ≠ 10) (hs : OneLine s) : OneLine (c :: s) := by
  obtain ⟨t, hst, ht⟩ := hs
  exact ⟨c :: t, hst.imp (congrArg (c :: ·)) (congrArg (c :: ·)), List.forall_mem_cons.mpr ⟨hc, ht⟩⟩

theorem OneLine.append (ht : ∀ c ∈ t, c ≠ 13 ∧ c ≠ 10) (hs : OneLine s) : OneLine (t ++ s) := by
  induction t with
  | nil => exact hs
  | cons c t ih =>
    rw [List.forall_mem_cons] at ht
    exact (ih ht.2).cons ht.1

/-- Only a CRLF begins with a line end. -/
theorem OneLine.begins (h : OneLine (c :: s)) : (c = 13 ∧ s = [10]) ∨ c ≠ 13 ∧ c ≠ 10 := by
  obtain ⟨t, hst, ht⟩ := h
  rcases t with _ | ⟨d, t⟩
  · rcases hst with hst | hst
    · cases hst
    · cases hst
      exact .inl ⟨rfl, rfl⟩
  · have hcd : c = d := by
      rcases hst with hst | hst
      · exact (List.cons.inj hst).1
      · exact (List.cons.inj hst).1
    exact .inr (hcd ▸ ht d List.mem_cons_self)

theorem OneLine.tail (h : OneLine (c :: s)) (hc : c ≠ 13) : OneLine s := by
  obtain ⟨t, hst, ht⟩ := h
  rcases t with _ | ⟨d, t⟩
  · rcases hst with hst | hst
    · cases hst
    · exact absurd (List.cons.inj hst).1 hc
  · exact ⟨t, hst.imp (fun h => (List.cons.inj h).2) (fun h => (List.cons.inj h).2),
      fun x hx => ht x (List.mem_cons_of_mem d hx)⟩

/-- The last loop of the validator, on a string in memory. -/
theorem noLineEnds_nul (h0 : (0 : UInt8) ∉ s) (r : List UInt8) :
    noLineEnds (s ++ 0 :: r) = true ↔ OneLine s := by
  induction s with
  | nil => exact iff_of_true rfl .nil
  | cons c s ih =>
    rw [List.mem_cons, not_or] at h0
    obtain ⟨hc, h0⟩ := h0
    have ih := ih h0
    rw [List.cons_append, noLineEnds.eq_def]
    split
    · rename_i heq
      cases heq
    · rename_i heq
      exact absurd (List.cons.inj heq).1.symm hc
    · -- CRLF and a NUL
      rename_i p heq
      obtain ⟨rfl, heq⟩ := List.cons.inj heq
      refine iff_of_true rfl ?_
      rcases s with _ | ⟨d, _ | ⟨e, s⟩⟩
      · cases heq
      · cases heq
        exact ⟨[], .inr rfl, fun _ hc => absurd hc List.not_mem_nil⟩
      · cases heq
        exact absurd (List.mem_cons_of_mem 10 List.mem_cons_self) h0
    · rename_i hnot heq
      obtain ⟨rfl, rfl⟩ := List.cons.inj heq
      rw [Bool.and_eq_true, Bool.and_eq_true, bne_iff_ne, bne_iff_ne, ih]
      constructor
      · rintro ⟨hc, hs⟩
        exact hs.cons hc
      · intro h
        rcases h.begins with ⟨rfl, rfl⟩ | hc
        · exact absurd rfl (hnot r rfl)
        · exact ⟨hc, h.tail hc.1⟩

/-- Without a header name the first octet is passed over. -/
theorem valid_overview_string_cons (h0 : (0 : UInt8) ∉ c :: s) (r : List UInt8) :
    valid_overview_string (c :: s ++ 0 :: r) false = true ↔ OneLine s := by
  rw [valid_overview_string, if_neg Bool.false_ne_true]
  exact noLineEnds_nul (fun h => h0 (List.mem_cons_of_mem c h)) r

/-- The name in front of the first colon. -/
theorem colon_unique {h h' p p' : List UInt8} (hh : 58 ∉ h) (hh' : 58 ∉ h')
    (heq : h ++ 58 :: p = h' ++ 58 :: p') : h = h' ∧ p = p' := by
  have htake : ∀ {h p : List UInt8}, 58 ∉ h → (h ++ 58 :: p).takeWhile (· != 58) = h := by
    intro h p hh
    rw [List.takeWhile_append_of_pos fun c hc => bne_iff_ne.mpr fun h58 : c = 58 => hh (h58 ▸ hc)]
    exact List.append_nil h
  have hname : h = h' := by rw [← htake hh (p := p), heq, htake hh']
  subst hname
  exact ⟨rfl, (List.cons.inj (List.append_cancel_left heq)).2⟩

/-- With a header name. -/
theorem valid_overview_string_full (h0 : (0 : UInt8) ∉ s) (r : List UInt8) :
    valid_overview_string (s ++ 0 :: r) true = true ↔
      s = [] ∨ s = crlf ∨ ∃ h p, s = h ++ 58 :: 32 :: p ∧ 58 ∉ h ∧ h.all isgraph = true ∧
        OneLine p := by
  have hempty : ((s ++ 0 :: r).head? = some 0 ∨ (s ++ 0 :: r).take 3 = [13, 10, 0]) ↔
      s = [] ∨ s = crlf := by
    constructor
    · rintro (hhead | htake)
      · rcases s with _ | ⟨c, s⟩
        · exact .inl rfl
        · cases hhead
          exact absurd List.mem_cons_self h0
      · rcases s with _ | ⟨c, _ | ⟨d, _ | ⟨e, s⟩⟩⟩
        · exact .inl rfl
        · cases htake
        · cases htake
          exact .inr rfl
        · cases htake
          exact absurd (List.mem_cons_of_mem _ (List.mem_cons_of_mem _ List.mem_cons_self)) h0
    · rintro (rfl | rfl)
      · exact .inl rfl
      · exact .inr rfl
  rw [valid_overview_string, if_pos rfl, ← or_assoc]
  by_cases hs : s = [] ∨ s = crlf
  · rw [if_pos (hempty.mpr hs)]
    exact iff_of_true rfl (.inl hs)
  rw [if_neg fun h => hs (hempty.mp h), or_iff_right hs]
  have hname : ∀ {h : List UInt8}, 0 ∉ h → 58 ∉ h →
      ∀ c ∈ h, (fun c : UInt8 => c != 0 && c != 58) c = true := by
    intro h hnul hcolon c hc
    have hc0 : c ≠ 0 := fun h0 => hnul (h0 ▸ hc)
    have hc58 : c ≠ 58 := fun h58 => hcolon (h58 ▸ hc)
    dsimp only
    rw [bne_iff_ne.mpr hc0, bne_iff_ne.mpr hc58]
    rfl
  by_cases h58 : 58 ∈ s
  · obtain ⟨h, p, rfl, hh⟩ := List.eq_append_cons_of_mem h58
    rw [List.mem_append, not_or] at h0
    have h0p : (0 : UInt8) ∉ p := fun h => h0.2 (List.mem_cons_of_mem _ h)
    have htake : (h ++ 58 :: p ++ 0 :: r).takeWhile (fun c => c != 0 && c != 58) = h := by
      rw [List.append_assoc, List.takeWhile_append_of_pos (hname h0.1 hh)]
      exact List.append_nil h
    have hdrop : (h ++ 58 :: p ++ 0 :: r).dropWhile (fun c => c != 0 && c != 58) =
        58 :: (p ++ 0 :: r) := by
      rw [List.append_assoc, List.dropWhile_append_of_pos (hname h0.1 hh)]
      rfl
    rw [htake, hdrop]
    cases hgraph : h.all isgraph with
    | false =>
      refine iff_of_false Bool.false_ne_true ?_
      rintro ⟨h', p', heq, hh', hgraph', -⟩
      rw [(colon_unique hh hh' heq).1, hgraph'] at hgraph
      cases hgraph
    | true =>
      rcases p with _ | ⟨c, p⟩
      · refine iff_of_false Bool.false_ne_true ?_
        rintro ⟨h', p', heq, hh', -⟩
        cases (colon_unique hh hh' heq).2
      · by_cases hc : c = 32
        · subst hc
          change noLineEnds (p ++ 0 :: r) = true ↔ _
          rw [noLineEnds_nul fun h => h0p (List.mem_cons_of_mem _ h)]
          constructor
          · exact fun hp => ⟨h, p, rfl, hh, hgraph, hp⟩
          · rintro ⟨h', p', heq, hh', -, hp⟩
            cases (colon_unique hh hh' heq).2
            exact hp
        · refine iff_of_false ?_ ?_
          · intro hmatch
            rw [if_neg (by decide)] at hmatch
            split at hmatch
            · rename_i heq
              cases heq
              exact hc rfl
            · cases hmatch
          · rintro ⟨h', p', heq, hh', -⟩
            cases (colon_unique hh hh' heq).2
            exact hc rfl
  · have hdrop : (s ++ 0 :: r).dropWhile (fun c => c != 0 && c != 58) = 0 :: r := by
      rw [List.dropWhile_append_of_pos (hname h0 h58)]
      rfl
    rw [hdrop]
    refine iff_of_false (fun h => ?_) ?_
    · split at h
      · cases h
      · cases h
    · rintro ⟨h, p, rfl, -⟩
      exact h58 (List.mem_append_right h List.mem_cons_self)

/-- Neither mode looks behind the NUL, but for an empty string without a header name. -/
theorem checksOnly_cons (h0 : (0 : UInt8) ∉ c :: s) :
    ChecksOnly (valid_overview_string · false) (c :: s) := fun r r' =>
  Bool.eq_iff_iff.mpr ((valid_overview_string_cons h0 r).trans
    (valid_overview_string_cons h0 r').symm)

theorem checksOnly_full (h0 : (0 : UInt8) ∉ s) : ChecksOnly (valid_overview_string · true) s :=
  fun r r' => Bool.eq_iff_iff.mpr ((valid_overview_string_full h0 r).trans
    (valid_overview_string_full h0 r').symm)

theorem not_checksOnly_nil : ¬ ChecksOnly (valid_overview_string · false) [] := by
  intro h
  have := h [] [10]
  revert this
  decide

theorem valid_number_nul (h0 : (0 : UInt8) ∉ s) (r : List UInt8) :
    valid_number (s ++ 0 :: r) = s.all fun c => decide (IsDigit c) := by
  have hstring : cString (s ++ 0 :: r) = s := by
    have hne : ∀ c ∈ s, (c != 0) = true := fun c hc => bne_iff_ne.mpr fun h : c = 0 => h0 (h ▸ hc)
    rw [cString, List.takeWhile_append_of_pos hne]
    exact List.append_nil s
  rw [valid_number, hstring]

theorem strtoul_nul (s r : List UInt8) :
    strtoul (s ++ 0 :: r) =
      min (decimalValue (s.takeWhile fun c => decide (IsDigit c))) ULONG_MAX := by
  have htake : (s ++ 0 :: r).takeWhile (fun c => decide (IsDigit c)) =
      s.takeWhile fun c => decide (IsDigit c) := by
    rw [List.takeWhile_append]
    split
    · rename_i hlen
      rw [(List.takeWhile_prefix _).eq_of_length hlen]
      exact List.append_nil s
    · rfl
  rw [strtoul, htake]

/-- With a header name, only a string of one line is valid. -/
theorem oneLine_full (h0 : (0 : UInt8) ∉ s)
    (h : valid_overview_string (s ++ 0 :: r) true = true) : OneLine s := by
  rcases (valid_overview_string_full h0 r).mp h with rfl | rfl | ⟨h, p, rfl, -, hgraph, hp⟩
  · exact .nil
  · exact ⟨[], .inr rfl, fun _ hc => absurd hc List.not_mem_nil⟩
  · refine OneLine.append (fun c hc => ?_) ((hp.cons (by decide)).cons (by decide))
    have hc := List.all_eq_true.mp hgraph c hc
    constructor
    · rintro rfl
      exact absurd hc (by decide)
    · rintro rfl
      exact absurd hc (by decide)

end Validator

/-! ## What is let through -/

section Check

variable {data : List UInt8} {article : ℕ}

/-- The checks, field by field. -/
theorem overview_check_fields (h : overview_check data article = true) :
    8 ≤ (overviewFields data).length ∧
      (∀ c ∈ (overviewFields data).getD 0 [], IsDigit c) ∧
      min (decimalValue ((overviewFields data).getD 0 [])) ULONG_MAX = article ∧
      (∀ c ∈ (overviewFields data).getD 6 [], IsDigit c) ∧
      (∀ s ∈ plainFields data, ∃ r, valid_overview_string (s ++ 0 :: r) false = true) ∧
      ∀ s ∈ fullFields data, ∃ r, valid_overview_string (s ++ 0 :: r) true = true := by
  have hfields := strings_fields (overviewFields data)
  rw [overview_check, cvector_split_fields] at h
  simp only [Bool.and_eq_true, decide_eq_true_eq, beq_iff_eq, length_strings] at h
  obtain ⟨⟨⟨⟨⟨hcount, hdigits⟩, hnumber⟩, hbytes⟩, hplain⟩, hfull⟩ := h
  obtain ⟨r₀, hr₀⟩ := getD_fields hfields (i := 0) (by omega)
  obtain ⟨r₆, hr₆⟩ := getD_fields hfields (i := 6) (by omega)
  rw [hr₀, valid_number_nul (getD_nul_free 0), List.all_eq_true] at hdigits
  rw [hr₆, valid_number_nul (getD_nul_free 6), List.all_eq_true] at hbytes
  rw [hr₀, strtoul_nul, List.takeWhile_eq_self_iff.mpr hdigits] at hnumber
  refine ⟨hcount, fun c hc => of_decide_eq_true (hdigits c hc), hnumber,
    fun c hc => of_decide_eq_true (hbytes c hc), ?_, ?_⟩
  · exact all_fields (List.forall₂_drop 1 (List.forall₂_take 6 hfields)) hplain
  · exact all_fields (List.forall₂_drop 8 hfields) hfull

theorem plain_nul_free {s : List UInt8} (hs : s ∈ plainFields data) : (0 : UInt8) ∉ s :=
  nul_free (List.mem_of_mem_take (List.mem_of_mem_drop hs))

theorem full_nul_free {s : List UInt8} (hs : s ∈ fullFields data) : (0 : UInt8) ∉ s :=
  nul_free (List.mem_of_mem_drop hs)

/-- Data that `overview_check` lets through is sound just when it is well begun. -/
theorem overview_check_sound_iff (h : overview_check data article = true) :
    Sound data article ↔ WellBegun data := by
  obtain ⟨hcount, hdigits, hnumber, hbytes, hplain, hfull⟩ := overview_check_fields h
  constructor
  · intro hsound
    refine ⟨hsound.nonempty, ?_, fun s hs => ?_⟩
    · have hvalue := hsound.number
      omega
    · have h0 := plain_nul_free hs
      obtain ⟨r, hr⟩ := hplain s hs
      rcases s with _ | ⟨c, s⟩
      · exact absurd (hsound.plain_only [] hs) not_checksOnly_nil
      · refine ⟨c, s, rfl, ?_⟩
        rcases (hsound.lines _ (List.mem_append_left _ hs)).begins with ⟨-, rfl⟩ | hc
        · -- a CRLF alone is refused, as the check begins at the LF
          have hlf := (valid_overview_string_cons h0 r).mp hr
          rcases hlf.begins with ⟨h10, -⟩ | h10
          · exact absurd h10 (by decide)
          · exact absurd rfl h10.2
        · exact hc
  · rintro ⟨hnonempty, hfits, hbegins⟩
    refine ⟨hcount, hnonempty, hdigits, by omega, hbytes, fun s hs => ?_, ⟨fun r r' => ?_,
      fun r r' => ?_⟩, fun r r' => ?_, fun s hs => ?_, fun s hs => ?_⟩
    · rcases List.mem_append.mp hs with hs | hs
      · obtain ⟨c, t, rfl, hc⟩ := hbegins s hs
        obtain ⟨r, hr⟩ := hplain _ hs
        exact ((valid_overview_string_cons (plain_nul_free hs) r).mp hr).cons hc
      · obtain ⟨r, hr⟩ := hfull s hs
        exact oneLine_full (full_nul_free hs) hr
    · rw [valid_number_nul (getD_nul_free 0), valid_number_nul (getD_nul_free 0)]
    · rw [strtoul_nul, strtoul_nul]
    · rw [valid_number_nul (getD_nul_free 6), valid_number_nul (getD_nul_free 6)]
    · obtain ⟨c, t, rfl, -⟩ := hbegins s hs
      exact checksOnly_cons (plain_nul_free hs)
    · exact checksOnly_full (full_nul_free hs)

/-- Overview data with this Subject. -/
def withSubject (subject : List UInt8) : List UInt8 :=
  49 :: tabbed [subject, [97], [97], [97], [97], [49], [49]]

theorem plain_subject_sound : Sound (withSubject [97]) 1 := by
  refine (overview_check_sound_iff (by decide)).mpr
    ⟨by decide, by decide, fun s hs => ?_⟩
  have hfields : plainFields (withSubject [97]) = List.replicate 5 [97] := by decide
  rw [hfields] at hs
  exact ⟨97, [], List.eq_of_mem_replicate hs, by decide⟩

/-- A CR at the start of the Subject is let through. -/
theorem leading_cr_accepted :
    ¬ ∀ data article, overview_check data article = true → Sound data article := by
  intro h
  have hsound := h (withSubject [13, 97]) 1 (by decide)
  have hmem : [13, 97] ∈ plainFields (withSubject [13, 97]) := by decide
  rcases (hsound.lines _ (List.mem_append_left _ hmem)).begins with ⟨-, h⟩ | h
  · exact absurd h (by decide)
  · exact absurd rfl h.1

end Check

end Inn.Storage
