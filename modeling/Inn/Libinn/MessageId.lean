import Mathlib.Data.List.DropRight
import Mathlib.Data.List.TakeWhile
import Inn.Innd.Channel
import Inn.Lines

/-!
# Inn.Libinn.MessageId — which texts are message identifiers

`IsValidMessageID` of `messageid.c`. A string is the list of the octets before its NUL, and a
pointer into it the list of those that are left.

* `IsMessageId`, `IsLaxMessageId` — the syntax;
* `dotAtom_of_localFrom` — what the loop over the atoms passes over;
* `IsValidMessageID_exact` — the function decides the syntax, and the strict one is part of
  the lax one.
-/

namespace Inn.Libinn.MessageId

open Inn.Innd

/-! ## Characters -/

def letters : List UInt8 := octets "abcdefghijklmnopqrstuvwxyzABCDEFGHIJKLMNOPQRSTUVWXYZ0123456789"

def specials : List UInt8 := octets "!#$%&'*+-/=?^_`\x7b|\x7d~"

def quoted : List UInt8 := octets "\"(),.:;<@"

/-- `midatomchar`. -/
def midatomchar (c : UInt8) : Bool := letters.contains c || specials.contains c

/-- `midnormchar`. -/
def midnormchar (c : UInt8) : Bool := midatomchar c || quoted.contains c

def NNTP_MAXLEN_MSGID : ℕ := 250

/-! ## The functions -/

/-- The loop over a no-fold-literal, behind its bracket. -/
def literal : List UInt8 → Option (List UInt8)
  | [] => none
  | c :: p => if c = 93 then some p else if midnormchar c then literal p else none

theorem length_dropWhile_le (sep : UInt8 → Bool) (p : List UInt8) :
    (p.dropWhile sep).length ≤ p.length :=
  (List.dropWhile_sublist sep).length_le

/-- The loop of `IsValidRightPartMessageID`: where it stops. -/
def domainFrom (firstchar : Bool) : List UInt8 → Option (List UInt8)
  | [] => none
  | c :: p =>
    if midatomchar c then
      match _h : p.dropWhile midatomchar with
      | 46 :: q => domainFrom false q
      | q => some q
    else if !firstchar || c != 91 then none
    else literal p
termination_by p => p.length
decreasing_by
  have := length_dropWhile_le midatomchar p
  rw [_h, List.length_cons] at this
  rw [List.length_cons]
  omega

/-- Blanks, where they are to be skipped. -/
def skipBlanks (stripspaces : Bool) (p : List UInt8) : List UInt8 :=
  if stripspaces then p.dropWhile ISWHITE else p

/-- `IsValidRightPartMessageID`. -/
def IsValidRightPartMessageID (domain : List UInt8) (stripspaces bracket : Bool) : Bool :=
  match domainFrom true domain with
  | none => false
  | some p =>
    if bracket then
      match p with
      | 62 :: p => (skipBlanks stripspaces p).isEmpty
      | _ => false
    else (skipBlanks stripspaces p).isEmpty

/-- The loop of `IsValidMessageID`: where it stops. -/
def localFrom ( laxsyntax : Bool) : List UInt8 → Option (List UInt8)
  | [] => none
  | c :: p =>
    if midatomchar c then
      match _h : p.dropWhile midatomchar with
      | [] => some []
      | d :: q =>
        if laxsyntax && (midnormchar d || d == 91 || d == 93) then localFrom laxsyntax q
        else if d = 46 then localFrom laxsyntax q
        else some (d :: q)
    else if laxsyntax && (midnormchar c || c == 91 || c == 93) then localFrom laxsyntax p
    else if laxsyntax && c == 62 then some (c :: p)
    else none
termination_by p => p.length
decreasing_by
  all_goals
    rw [List.length_cons]
    first
      | omega
      | have := length_dropWhile_le midatomchar p
        rw [_h, List.length_cons] at this
        omega

/-! ### One round of the loops -/

section Rounds

variable {lax firstchar : Bool} {c d : UInt8} {p q : List UInt8}

/-- One round of the loop: at the end, behind an atom, and at another character. -/
theorem localFrom_round (lax : Bool) : localFrom lax [] = none ∧ ∀ c p,
    (midatomchar c = true → p.dropWhile midatomchar = [] → localFrom lax (c :: p) = some []) ∧
    (∀ d q, midatomchar c = true → p.dropWhile midatomchar = d :: q → localFrom lax (c :: p) =
      if lax && (midnormchar d || d == 91 || d == 93) then localFrom lax q
      else if d = 46 then localFrom lax q else some (d :: q)) ∧
    (midatomchar c = false → localFrom lax (c :: p) =
      if lax && (midnormchar c || c == 91 || c == 93) then localFrom lax p
      else if lax && c == 62 then some (c :: p) else none) := by
  refine ⟨by rw [localFrom], fun c p => ⟨fun hc hp => ?_, fun d q hc hp => ?_, fun hc => ?_⟩⟩
  · rw [localFrom, if_pos hc]
    split
    · rfl
    · rename_i heq
      rw [hp] at heq
      cases heq
  · rw [localFrom, if_pos hc]
    split
    · rename_i heq
      rw [hp] at heq
      cases heq
    · rename_i heq
      rw [hp] at heq
      cases heq
      rfl
  · rw [localFrom, hc, if_neg Bool.false_ne_true]

theorem localFrom_nil : localFrom lax [] = none :=
  (localFrom_round lax).1

theorem localFrom_last (hc : midatomchar c = true) (hp : p.dropWhile midatomchar = []) :
    localFrom lax (c :: p) = some [] :=
  ((localFrom_round lax).2 c p).1 hc hp

theorem localFrom_behind (hc : midatomchar c = true) (hp : p.dropWhile midatomchar = d :: q) :
    localFrom lax (c :: p) =
      if lax && (midnormchar d || d == 91 || d == 93) then localFrom lax q
      else if d = 46 then localFrom lax q else some (d :: q) :=
  ((localFrom_round lax).2 c p).2.1 d q hc hp

theorem localFrom_notAtom (hc : midatomchar c = false) :
    localFrom lax (c :: p) =
      if lax && (midnormchar c || c == 91 || c == 93) then localFrom lax p
      else if lax && c == 62 then some (c :: p) else none :=
  ((localFrom_round lax).2 c p).2.2 hc

/-- One round of the loop of the right-hand side. -/
theorem domainFrom_round (firstchar : Bool) : domainFrom firstchar [] = none ∧ ∀ c p,
    (midatomchar c = true → p.dropWhile midatomchar = [] →
      domainFrom firstchar (c :: p) = some []) ∧
    (∀ d q, midatomchar c = true → p.dropWhile midatomchar = d :: q →
      domainFrom firstchar (c :: p) = if d = 46 then domainFrom false q else some (d :: q)) ∧
    (midatomchar c = false → domainFrom firstchar (c :: p) =
      if !firstchar || c != 91 then none else literal p) := by
  refine ⟨by rw [domainFrom], fun c p => ⟨fun hc hp => ?_, fun d q hc hp => ?_, fun hc => ?_⟩⟩
  · rw [domainFrom, if_pos hc]
    split
    · rename_i heq
      rw [hp] at heq
      cases heq
    · rw [hp]
  · rw [domainFrom, if_pos hc]
    split
    · rename_i heq
      rw [hp] at heq
      cases heq
      rw [if_pos rfl]
    · rename_i hne
      rw [hp, if_neg]
      rintro rfl
      exact hne q hp
  · rw [domainFrom, hc, if_neg Bool.false_ne_true]

theorem domainFrom_nil : domainFrom firstchar [] = none :=
  (domainFrom_round firstchar).1

theorem domainFrom_last (hc : midatomchar c = true) (hp : p.dropWhile midatomchar = []) :
    domainFrom firstchar (c :: p) = some [] :=
  ((domainFrom_round firstchar).2 c p).1 hc hp

theorem domainFrom_behind (hc : midatomchar c = true) (hp : p.dropWhile midatomchar = d :: q) :
    domainFrom firstchar (c :: p) = if d = 46 then domainFrom false q else some (d :: q) :=
  ((domainFrom_round firstchar).2 c p).2.1 d q hc hp

theorem domainFrom_notAtom (hc : midatomchar c = false) :
    domainFrom firstchar (c :: p) = if !firstchar || c != 91 then none else literal p :=
  ((domainFrom_round firstchar).2 c p).2.2 hc

end Rounds

/-- `IsValidMessageID`. -/
def IsValidMessageID (MessageID : List UInt8) (stripspaces laxsyntax : Bool) : Bool :=
  let p := skipBlanks stripspaces MessageID
  match memchr 62 p with
  | none => false
  | some q =>
    if NNTP_MAXLEN_MSGID < q + 1 then false
    else
      match p with
      | 60 :: p =>
        if p.head? = some 62 then false
        else
          match localFrom laxsyntax p with
          | none => false
          | some p =>
            if laxsyntax then
              match p with
              | 62 :: p => (skipBlanks stripspaces p).isEmpty
              | _ => false
            else
              match p with
              | 64 :: p => IsValidRightPartMessageID p stripspaces true
              | _ => false
      | _ => false

/-! ## The syntax -/

/-- `atext`: digits, letters and some other printable characters. -/
def IsAtext (c : UInt8) : Prop :=
  (48 ≤ c.toNat ∧ c.toNat ≤ 57) ∨ (65 ≤ c.toNat ∧ c.toNat ≤ 90) ∨
    (97 ≤ c.toNat ∧ c.toNat ≤ 122) ∨
    c.toNat ∈ [33, 35, 36, 37, 38, 39, 42, 43, 45, 47, 61, 63, 94, 95, 96, 123, 124, 125, 126]

/-- `mdtext`: printable, but no closing angle bracket, no brackets and no backslash. -/
def IsMdtext (c : UInt8) : Prop :=
  (33 ≤ c.toNat ∧ c.toNat ≤ 61) ∨ (63 ≤ c.toNat ∧ c.toNat ≤ 90) ∨
    (94 ≤ c.toNat ∧ c.toNat ≤ 126)

instance (c : UInt8) : Decidable (IsAtext c) := inferInstanceAs (Decidable (_ ∨ _))

instance (c : UInt8) : Decidable (IsMdtext c) := inferInstanceAs (Decidable (_ ∨ _))

/-- `dot-atom-text`. -/
inductive DotAtomText : List UInt8 → Prop where
  | atom {a : List UInt8} : a ≠ [] → (∀ c ∈ a, IsAtext c) → DotAtomText a
  | dot {a l : List UInt8} : a ≠ [] → (∀ c ∈ a, IsAtext c) → DotAtomText l →
      DotAtomText (a ++ 46 :: l)

/-- The right-hand side: a `dot-atom-text` or a `no-fold-literal`. -/
def IsIdRight (l : List UInt8) : Prop :=
  DotAtomText l ∨ ∃ m, l = 91 :: m ++ [93] ∧ ∀ c ∈ m, IsMdtext c

/-- A message identifier. -/
def IsMessageId (l : List UInt8) : Prop :=
  ∃ left right, l = 60 :: left ++ 64 :: right ++ [62] ∧ DotAtomText left ∧ IsIdRight right

/-- A message identifier in the lax syntax. -/
def IsLaxMessageId (l : List UInt8) : Prop :=
  ∃ m, l = 60 :: m ++ [62] ∧ m ≠ [] ∧ ∀ c ∈ m, IsMdtext c ∨ c = 91 ∨ c = 93

/-- A text without the blanks around it, where they are to be removed. -/
def trimmed (stripspaces : Bool) (s : List UInt8) : List UInt8 :=
  if stripspaces then (s.dropWhile ISWHITE).rdropWhile ISWHITE else s

/-! ## Characters of the syntax -/

section Characters

variable {c : UInt8}

theorem contains_toNat (l : List UInt8) (c : UInt8) :
    l.contains c = (l.map UInt8.toNat).contains c.toNat := by
  rw [Bool.eq_iff_iff, List.contains_iff_mem, List.contains_iff_mem]
  exact (List.mem_map_of_injective fun _ _ => UInt8.toNat_inj.mp).symm

/-- The numbers of the letters and digits. -/
def letterNumbers : List ℕ :=
  (List.range 26).map (97 + ·) ++ (List.range 26).map (65 + ·) ++ (List.range 10).map (48 + ·)

def specialNumbers : List ℕ :=
  [33, 35, 36, 37, 38, 39, 42, 43, 45, 47, 61, 63, 94, 95, 96, 123, 124, 125, 126]

def quotedNumbers : List ℕ := [34, 40, 41, 44, 46, 58, 59, 60, 64]

theorem characters_toNat : letters.map UInt8.toNat = letterNumbers ∧
    specials.map UInt8.toNat = specialNumbers ∧ quoted.map UInt8.toNat = quotedNumbers := by
  decide

theorem midatomchar_eq (c : UInt8) : midatomchar c =
    (letterNumbers.contains c.toNat || specialNumbers.contains c.toNat) := by
  rw [midatomchar, contains_toNat, contains_toNat, characters_toNat.1, characters_toNat.2.1]

theorem midnormchar_eq (c : UInt8) : midnormchar c =
    (letterNumbers.contains c.toNat || specialNumbers.contains c.toNat ||
      quotedNumbers.contains c.toNat) := by
  rw [midnormchar, midatomchar_eq, contains_toNat, characters_toNat.2.2]

/-- The numbers from `a` on. -/
theorem mem_map_range {a k n : ℕ} : n ∈ (List.range k).map (a + ·) ↔ a ≤ n ∧ n < a + k := by
  rw [List.mem_map]
  constructor
  · rintro ⟨i, hi, rfl⟩
    have := List.mem_range.mp hi
    omega
  · intro h
    exact ⟨n - a, List.mem_range.mpr (by omega), by omega⟩

theorem mem_letterNumbers {n : ℕ} : n ∈ letterNumbers ↔
    (97 ≤ n ∧ n < 123) ∨ (65 ≤ n ∧ n < 91) ∨ (48 ≤ n ∧ n < 58) := by
  rw [letterNumbers, List.mem_append, List.mem_append, mem_map_range, mem_map_range,
    mem_map_range, or_assoc]

theorem midatomchar_iff (c : UInt8) : midatomchar c = true ↔ IsAtext c := by
  rw [midatomchar_eq, Bool.or_eq_true, List.contains_iff_mem, List.contains_iff_mem,
    mem_letterNumbers]
  have hletters : (97 ≤ c.toNat ∧ c.toNat < 123) ∨ (65 ≤ c.toNat ∧ c.toNat < 91) ∨
      (48 ≤ c.toNat ∧ c.toNat < 58) ↔ (48 ≤ c.toNat ∧ c.toNat ≤ 57) ∨
        (65 ≤ c.toNat ∧ c.toNat ≤ 90) ∨ (97 ≤ c.toNat ∧ c.toNat ≤ 122) := by
    omega
  rw [hletters, or_assoc, or_assoc]
  exact Iff.rfl

/-- The three sets together are the visible characters without the brackets. -/
theorem midnormNumbers : (letterNumbers ++ specialNumbers ++ quotedNumbers).Perm
    ((List.range 29).map (33 + ·) ++ (List.range 28).map (63 + ·) ++
      (List.range 33).map (94 + ·)) := by
  decide

theorem midnormchar_iff (c : UInt8) : midnormchar c = true ↔ IsMdtext c := by
  have hmem := midnormNumbers.mem_iff (a := c.toNat)
  simp only [List.mem_append, mem_map_range] at hmem
  rw [midnormchar_eq, Bool.or_eq_true, Bool.or_eq_true, List.contains_iff_mem,
    List.contains_iff_mem, List.contains_iff_mem, hmem, IsMdtext]
  omega

theorem midatomchar_of_not (h : ¬ IsAtext c) : midatomchar c = false :=
  Bool.eq_false_iff.mpr (mt (midatomchar_iff c).mp h)

theorem IsAtext.mdtext (h : IsAtext c) : IsMdtext c := by
  rw [← midnormchar_iff, midnormchar, (midatomchar_iff c).mpr h, Bool.true_or]

theorem IsMdtext.ne_close (h : IsMdtext c) : c ≠ 62 := by
  rintro rfl
  exact absurd h (by decide)

end Characters

/-! ## Atoms -/

section Atoms

variable {l m p r a : List UInt8}

theorem takeWhile_atom (ha : ∀ c ∈ a, IsAtext c) (hr : ∀ c ∈ r.head?, midatomchar c = false) :
    (a ++ r).dropWhile midatomchar = r := by
  rw [List.dropWhile_append_of_pos fun c hc => (midatomchar_iff c).mpr (ha c hc)]
  cases r with
  | nil => rfl
  | cons d r => exact List.dropWhile_cons_of_neg (Bool.eq_false_iff.mp (hr d rfl))

theorem DotAtomText.start (h : DotAtomText l) : ∃ c l', l = c :: l' ∧ IsAtext c := by
  cases h with
  | atom hne ha =>
    obtain ⟨c, a, rfl⟩ := List.exists_cons_of_ne_nil hne
    exact ⟨c, a, rfl, ha c List.mem_cons_self⟩
  | dot hne ha _ =>
    obtain ⟨c, a, rfl⟩ := List.exists_cons_of_ne_nil hne
    exact ⟨c, _, rfl, ha c List.mem_cons_self⟩

theorem DotAtomText.mdtext (h : DotAtomText l) : ∀ c ∈ l, IsMdtext c := by
  induction h with
  | atom _ ha => exact fun c hc => (ha c hc).mdtext
  | dot _ ha _ ih =>
    intro c hc
    rcases List.mem_append.mp hc with hc | hc
    · exact (ha c hc).mdtext
    · rcases List.mem_cons.mp hc with rfl | hc
      · decide
      · exact ih c hc

/-- The loop over the atoms in the strict syntax, one atom at a time. -/
theorem localFrom_atom (hne : a ≠ []) (ha : ∀ c ∈ a, IsAtext c)
    (hr : ∀ c ∈ r.head?, midatomchar c = false) :
    localFrom false (a ++ r) =
      if r.head? = some 46 then localFrom false r.tail else some r := by
  obtain ⟨c, a, rfl⟩ := List.exists_cons_of_ne_nil hne
  have hdrop := takeWhile_atom (fun d hd => ha d (List.mem_cons_of_mem c hd)) hr
  have hc := (midatomchar_iff c).mpr (ha c List.mem_cons_self)
  rw [List.cons_append]
  cases r with
  | nil =>
    rw [localFrom_last hc hdrop]
    rfl
  | cons d q =>
    rw [localFrom_behind hc hdrop, Bool.false_and, if_neg Bool.false_ne_true, List.head?_cons,
      List.tail_cons]
    by_cases hd : d = 46
    · rw [if_pos hd, if_pos (congrArg some hd)]
    · rw [if_neg hd, if_neg fun h => hd (Option.some.inj h)]

/-- The loop passes over a `dot-atom-text`. -/
theorem localFrom_dotAtom (h : DotAtomText l)
    (hr : ∀ c ∈ r.head?, midatomchar c = false ∧ c ≠ 46) : localFrom false (l ++ r) = some r := by
  induction h with
  | atom hne ha =>
    rw [localFrom_atom hne ha fun c hc => (hr c hc).1, if_neg]
    exact fun h46 => (hr 46 h46).2 rfl
  | @dot a l hne ha _ ih =>
    have hdot : ∀ c ∈ (46 :: (l ++ r)).head?, midatomchar c = false := by
      rintro c ⟨⟩
      exact midatomchar_of_not (by decide)
    rw [List.append_assoc, List.cons_append, localFrom_atom hne ha hdot, List.head?_cons,
      if_pos rfl, List.tail_cons, ih]

/-- What the loop passes over is a `dot-atom-text`. -/
theorem dotAtom_of_localFrom (h : localFrom false p = some r) :
    ∃ l, DotAtomText l ∧ p = l ++ r := by
  induction hn : p.length using Nat.strongRecOn generalizing p with
  | ind n ih =>
    rcases p with _ | ⟨c, p⟩
    · rw [localFrom_nil] at h
      cases h
    · cases hc : midatomchar c with
      | false =>
        rw [localFrom_notAtom hc, Bool.false_and, if_neg Bool.false_ne_true, Bool.false_and,
          if_neg Bool.false_ne_true] at h
        cases h
      | true =>
        -- the first atom and what follows it
        have hsplit : c :: p = (c :: p.takeWhile midatomchar) ++ p.dropWhile midatomchar := by
          rw [List.cons_append, List.takeWhile_append_dropWhile]
        have hatom : ∀ d ∈ c :: p.takeWhile midatomchar, IsAtext d := by
          intro d hd
          rcases List.mem_cons.mp hd with rfl | hd
          · exact (midatomchar_iff d).mp hc
          · exact (midatomchar_iff d).mp (List.mem_takeWhile_imp hd)
        have hhead : ∀ d ∈ (p.dropWhile midatomchar).head?, midatomchar d = false := by
          intro d hd
          have := List.head?_dropWhile_not midatomchar p
          rw [Option.mem_def.mp hd] at this
          simpa using this
        rw [hsplit, localFrom_atom (List.cons_ne_nil _ _) hatom hhead] at h
        split at h
        · rename_i h46
          obtain ⟨q, hq⟩ := List.head?_eq_some_iff.mp h46
          have hle := length_dropWhile_le midatomchar p
          rw [hq, List.tail_cons] at h
          rw [hq, List.length_cons] at hle
          rw [List.length_cons] at hn
          obtain ⟨l, hl, rfl⟩ := ih q.length (by omega) h rfl
          refine ⟨_, .dot (List.cons_ne_nil _ _) hatom hl, ?_⟩
          rw [hsplit, hq, List.append_assoc, List.cons_append]
          rfl
        · cases h
          exact ⟨_, .atom (List.cons_ne_nil _ _) hatom, hsplit⟩

/-- The loop of the right-hand side is the same behind the first atom. -/
theorem domainFrom_false (p : List UInt8) : domainFrom false p = localFrom false p := by
  induction hn : p.length using Nat.strongRecOn generalizing p with
  | ind n ih =>
    rcases p with _ | ⟨c, p⟩
    · rw [domainFrom_nil, localFrom_nil]
    · cases hc : midatomchar c with
      | false =>
        rw [domainFrom_notAtom hc, localFrom_notAtom hc]
        rfl
      | true =>
        rw [List.length_cons] at hn
        have hle := length_dropWhile_le midatomchar p
        rcases hdrop : p.dropWhile midatomchar with _ | ⟨d, q⟩
        · rw [domainFrom_last hc hdrop, localFrom_last hc hdrop]
        · rw [hdrop, List.length_cons] at hle
          rw [domainFrom_behind hc hdrop, localFrom_behind hc hdrop, Bool.false_and,
            if_neg Bool.false_ne_true, ih q.length (by omega) q rfl]

/-- A no-fold-literal, behind its bracket. -/
theorem literal_eq_some :
    literal p = some r ↔ ∃ m, p = m ++ 93 :: r ∧ ∀ c ∈ m, IsMdtext c := by
  constructor
  · intro h
    induction p with
    | nil => cases h
    | cons c p ih =>
      rw [literal] at h
      split at h
      · rename_i hc
        cases h
        exact ⟨[], by rw [hc]; rfl, fun d hd => absurd hd List.not_mem_nil⟩
      · split at h
        · rename_i hnorm
          obtain ⟨m, rfl, hm⟩ := ih h
          refine ⟨c :: m, rfl, fun d hd => ?_⟩
          rcases List.mem_cons.mp hd with rfl | hd
          · exact (midnormchar_iff d).mp hnorm
          · exact hm d hd
        · cases h
  · rintro ⟨m, rfl, hm⟩
    induction m with
    | nil => exact if_pos rfl
    | cons c m ih =>
      have hc := hm c List.mem_cons_self
      have hne : c ≠ 93 := by
        rintro rfl
        exact absurd hc (by decide)
      rw [List.cons_append, literal, if_neg hne, if_pos ((midnormchar_iff c).mpr hc)]
      exact ih fun d hd => hm d (List.mem_cons_of_mem c hd)

/-- A first atom makes the whole right-hand side a `dot-atom-text`. -/
theorem domainFrom_atom {c : UInt8} (hc : midatomchar c = true) (p : List UInt8) :
    domainFrom true (c :: p) = localFrom false (c :: p) := by
  rw [← domainFrom_false]
  rcases hdrop : p.dropWhile midatomchar with _ | ⟨d, q⟩
  · rw [domainFrom_last hc hdrop, domainFrom_last hc hdrop]
  · rw [domainFrom_behind hc hdrop, domainFrom_behind hc hdrop]

/-- Where the loop of the right-hand side stops. -/
theorem right_of_domainFrom (h : domainFrom true p = some r) : ∃ l, IsIdRight l ∧ p = l ++ r := by
  rcases p with _ | ⟨c, p⟩
  · rw [domainFrom_nil] at h
    cases h
  · cases hc : midatomchar c with
    | true =>
      rw [domainFrom_atom hc] at h
      obtain ⟨l, hl, hp⟩ := dotAtom_of_localFrom h
      exact ⟨l, .inl hl, hp⟩
    | false =>
      rw [domainFrom_notAtom hc, Bool.not_true, Bool.false_or] at h
      split at h
      · cases h
      · rename_i hbracket
        have hbracket : c = 91 := by simpa using hbracket
        obtain ⟨m, rfl, hm⟩ := literal_eq_some.mp h
        refine ⟨91 :: m ++ [93], .inr ⟨m, rfl, hm⟩, ?_⟩
        rw [hbracket, List.append_assoc]
        rfl

theorem domainFrom_right (h : IsIdRight l) (r : List UInt8) :
    domainFrom true (l ++ 62 :: r) = some (62 :: r) := by
  have hclose : ∀ c ∈ (62 :: r).head?, midatomchar c = false ∧ c ≠ 46 := by
    rintro c ⟨⟩
    exact ⟨midatomchar_of_not (by decide), by decide⟩
  rcases h with h | ⟨m, rfl, hm⟩
  · have hlocal := localFrom_dotAtom h hclose
    obtain ⟨c, l', rfl, hc⟩ := h.start
    rw [List.cons_append] at hlocal ⊢
    rw [domainFrom_atom ((midatomchar_iff c).mpr hc), hlocal]
  · have hliteral : literal (m ++ 93 :: 62 :: r) = some (62 :: r) :=
      literal_eq_some.mpr ⟨m, rfl, hm⟩
    have hatom : midatomchar 91 = false := midatomchar_of_not (by decide)
    rw [List.append_assoc, List.cons_append, domainFrom_notAtom hatom, if_neg (by decide)]
    exact hliteral

/-! ## The lax syntax -/

/-- A character that the lax syntax allows. -/
def IsLaxChar (c : UInt8) : Prop := IsMdtext c ∨ c = 91 ∨ c = 93

instance (c : UInt8) : Decidable (IsLaxChar c) := inferInstanceAs (Decidable (_ ∨ _))

theorem laxChar_iff (c : UInt8) :
    (midnormchar c || c == 91 || c == 93) = true ↔ IsLaxChar c := by
  rw [Bool.or_eq_true, Bool.or_eq_true, midnormchar_iff, beq_iff_eq, beq_iff_eq, or_assoc,
    IsLaxChar]

theorem localFrom_other {c : UInt8} (hc : midatomchar c = false) (hlax : IsLaxChar c)
    (p : List UInt8) : localFrom true (c :: p) = localFrom true p := by
  rw [localFrom_notAtom hc, Bool.true_and, (laxChar_iff c).mpr hlax, if_pos rfl]

theorem localFrom_close (r : List UInt8) : localFrom true (62 :: r) = some (62 :: r) := by
  have hatom : midatomchar 62 = false := midatomchar_of_not (by decide)
  have hnorm : (midnormchar 62 || (62 : UInt8) == 91 || (62 : UInt8) == 93) = false :=
    Bool.eq_false_iff.mpr (mt (laxChar_iff 62).mp (by decide))
  rw [localFrom_notAtom hatom, hnorm]
  rfl

/-- One character at a time. -/
theorem localFrom_lax {c d : UInt8} (hc : IsLaxChar c) (hd : IsLaxChar d ∨ d = 62)
    (p : List UInt8) : localFrom true (c :: d :: p) = localFrom true (d :: p) := by
  cases hatom : midatomchar c with
  | false => exact localFrom_other hatom hc (d :: p)
  | true =>
    cases hatom' : midatomchar d with
    | true =>
      have hdrop := List.dropWhile_cons_of_pos (l := p) hatom'
      rcases hp : p.dropWhile midatomchar with _ | ⟨e, q⟩
      · rw [localFrom_last hatom (hdrop.trans hp), localFrom_last hatom' hp]
      · rw [localFrom_behind hatom (hdrop.trans hp), localFrom_behind hatom' hp]
    | false =>
      rw [localFrom_behind hatom (List.dropWhile_cons_of_neg (Bool.eq_false_iff.mp hatom'))]
      rcases hd with hd | rfl
      · rw [localFrom_other hatom' hd, Bool.true_and, (laxChar_iff d).mpr hd, if_pos rfl]
      · have hnorm : (midnormchar 62 || (62 : UInt8) == 91 || (62 : UInt8) == 93) = false :=
          Bool.eq_false_iff.mpr (mt (laxChar_iff 62).mp (by decide))
        rw [localFrom_close, hnorm]
        rfl

theorem localFrom_laxChars (hm : ∀ c ∈ m, IsLaxChar c) (r : List UInt8) :
    localFrom true (m ++ 62 :: r) = some (62 :: r) := by
  induction m with
  | nil => exact localFrom_close r
  | cons c m ih =>
    have ih := ih fun d hd => hm d (List.mem_cons_of_mem c hd)
    cases m with
    | nil => exact (localFrom_lax (hm c List.mem_cons_self) (.inr rfl) r).trans ih
    | cons d m =>
      have hd := hm d (List.mem_cons_of_mem c List.mem_cons_self)
      exact (localFrom_lax (hm c List.mem_cons_self) (.inl hd) _).trans ih

theorem laxChars_of_localFrom (h : localFrom true p = some (62 :: r)) :
    ∃ m, p = m ++ 62 :: r ∧ ∀ c ∈ m, IsLaxChar c := by
  induction hn : p.length using Nat.strongRecOn generalizing p with
  | ind n ih =>
    rcases p with _ | ⟨c, p⟩
    · rw [localFrom_nil] at h
      cases h
    · rw [List.length_cons] at hn
      have hcons : ∀ {q m : List UInt8}, q = m ++ 62 :: r → (∀ d ∈ m, IsLaxChar d) → IsLaxChar c →
          ∃ m, c :: q = m ++ 62 :: r ∧ ∀ d ∈ m, IsLaxChar d := by
        rintro q m rfl hm hc
        refine ⟨c :: m, rfl, fun d hd => ?_⟩
        rcases List.mem_cons.mp hd with rfl | hd
        · exact hc
        · exact hm d hd
      by_cases hlax : IsLaxChar c
      · rcases p with _ | ⟨d, p⟩
        · cases hatom : midatomchar c with
          | true =>
            rw [localFrom_last hatom rfl] at h
            cases h
          | false =>
            rw [localFrom_other hatom hlax, localFrom_nil] at h
            cases h
        · by_cases hd : IsLaxChar d ∨ d = 62
          · rw [localFrom_lax hlax hd] at h
            obtain ⟨m, hp, hm⟩ := ih _ (by omega) h rfl
            exact hcons hp hm hlax
          · -- the loop stops at another character
            rw [not_or] at hd
            have hnorm := Bool.eq_false_iff.mpr fun h' => hd.1 ((laxChar_iff d).mp h')
            have hatom' : midatomchar d = false := by
              rw [Bool.or_eq_false_iff, Bool.or_eq_false_iff, midnormchar,
                Bool.or_eq_false_iff] at hnorm
              exact hnorm.1.1.1
            have h46 : d ≠ 46 := by
              rintro rfl
              exact hd.1 (.inl (by decide))
            cases hatom : midatomchar c with
            | true =>
              have hdrop := List.dropWhile_cons_of_neg (l := p) (Bool.eq_false_iff.mp hatom')
              rw [localFrom_behind hatom hdrop, hnorm, Bool.and_false, if_neg Bool.false_ne_true,
                if_neg h46] at h
              cases h
              exact absurd rfl hd.2
            | false =>
              rw [localFrom_other hatom hlax, localFrom_notAtom hatom', hnorm, Bool.and_false,
                if_neg Bool.false_ne_true, beq_eq_false_iff_ne.mpr hd.2, Bool.and_false,
                if_neg Bool.false_ne_true] at h
              cases h
      · have hnorm := Bool.eq_false_iff.mpr fun h' => hlax ((laxChar_iff c).mp h')
        have hatom : midatomchar c = false := by
          rw [Bool.or_eq_false_iff, Bool.or_eq_false_iff, midnormchar,
            Bool.or_eq_false_iff] at hnorm
          exact hnorm.1.1.1
        rw [localFrom_notAtom hatom, hnorm, Bool.and_false, if_neg Bool.false_ne_true] at h
        split at h
        · cases h
          exact ⟨[], rfl, fun d hd => absurd hd List.not_mem_nil⟩
        · cases h

end Atoms

/-! ## The whole -/

section Whole

variable {s x w : List UInt8} {stripspaces : Bool}

/-- A text ends with the bracket, but for blanks. -/
theorem trimmed_iff : trimmed stripspaces s = x ++ [62] ↔
    ∃ w, skipBlanks stripspaces s = x ++ 62 :: w ∧ (skipBlanks stripspaces w).isEmpty = true := by
  cases stripspaces with
  | false =>
    constructor
    · intro h
      exact ⟨[], h, rfl⟩
    · rintro ⟨w, h, hw⟩
      have hw : w = [] := List.isEmpty_iff.mp hw
      rw [hw] at h
      exact h
  | true =>
    have hskip : ∀ p, skipBlanks true p = p.dropWhile ISWHITE := fun p => rfl
    have htrim : trimmed true s = (s.dropWhile ISWHITE).rdropWhile ISWHITE := rfl
    rw [hskip, htrim]
    constructor
    · intro h
      refine ⟨(s.dropWhile ISWHITE).rtakeWhile ISWHITE, ?_, ?_⟩
      · have := List.rdropWhile_append_rtakeWhile (p := ISWHITE) (l := s.dropWhile ISWHITE)
        rw [h, List.append_assoc] at this
        exact this.symm
      · rw [hskip, List.isEmpty_iff, List.dropWhile_eq_nil_iff]
        exact fun c hc => List.mem_rtakeWhile_imp hc
    · rintro ⟨w, h, hw⟩
      rw [hskip, List.isEmpty_iff, List.dropWhile_eq_nil_iff] at hw
      rw [h]
      clear h
      induction w using List.reverseRecOn with
      | nil => exact List.rdropWhile_concat_neg _ _ _ (by decide)
      | append_singleton w c ih =>
        have hc : ISWHITE c = true := hw c (by simp)
        rw [← List.cons_append, ← List.append_assoc, List.rdropWhile_concat_pos _ _ _ hc]
        exact ih fun d hd => hw d (List.mem_append_left _ hd)

theorem DotAtomText.ne_close {l : List UInt8} (h : DotAtomText l) : (62 : UInt8) ∉ l :=
  fun h62 => (h.mdtext 62 h62).ne_close rfl

theorem IsIdRight.ne_close {l : List UInt8} (h : IsIdRight l) : (62 : UInt8) ∉ l := by
  rcases h with h | ⟨m, rfl, hm⟩
  · exact h.ne_close
  · intro h62
    rcases List.mem_append.mp h62 with h62 | h62
    · rcases List.mem_cons.mp h62 with h62 | h62
      · exact absurd h62 (by decide)
      · exact (hm 62 h62).ne_close rfl
    · exact absurd h62 (by decide)

/-- The length test is about the whole identifier. -/
theorem length_test (hx : (62 : UInt8) ∉ x) (w : List UInt8) :
    memchr 62 (x ++ 62 :: w) = some x.length ∧
      ((x ++ [62]).length ≤ NNTP_MAXLEN_MSGID ↔ ¬ NNTP_MAXLEN_MSGID < x.length + 1) := by
  refine ⟨memchr_append hx w, ?_⟩
  rw [List.length_append, List.length_singleton, Nat.not_lt]

theorem right_part_iff : IsValidRightPartMessageID s stripspaces true = true ↔
    ∃ right w, s = right ++ 62 :: w ∧ IsIdRight right ∧
      (skipBlanks stripspaces w).isEmpty = true := by
  rw [IsValidRightPartMessageID]
  constructor
  · intro h
    split at h
    · cases h
    · rename_i p hp
      obtain ⟨right, hright, rfl⟩ := right_of_domainFrom hp
      rw [if_pos rfl] at h
      split at h
      · rename_i w
        exact ⟨right, w, rfl, hright, h⟩
      · cases h
  · rintro ⟨right, w, rfl, hright, hw⟩
    rw [domainFrom_right hright]
    exact hw

/-- The strict syntax. -/
theorem strict_iff (s : List UInt8) (stripspaces : Bool) :
    IsValidMessageID s stripspaces false = true ↔
      IsMessageId (trimmed stripspaces s) ∧
        (trimmed stripspaces s).length ≤ NNTP_MAXLEN_MSGID := by
  have hclose : ∀ {left right : List UInt8}, DotAtomText left → IsIdRight right →
      (62 : UInt8) ∉ 60 :: left ++ 64 :: right := by
    intro left right hleft hright h62
    rcases List.mem_append.mp h62 with h62 | h62
    · rcases List.mem_cons.mp h62 with h62 | h62
      · exact absurd h62 (by decide)
      · exact hleft.ne_close h62
    · rcases List.mem_cons.mp h62 with h62 | h62
      · exact absurd h62 (by decide)
      · exact hright.ne_close h62
  rw [IsValidMessageID]
  constructor
  · intro h
    split at h
    · cases h
    rename_i q hq
    split at h
    · cases h
    rename_i hlen
    split at h
    · rename_i p hp
      split at h
      · cases h
      split at h
      · cases h
      · rename_i p' hlocal
        obtain ⟨left, hleft, rfl⟩ := dotAtom_of_localFrom hlocal
        rw [if_neg Bool.false_ne_true] at h
        split at h
        · rename_i p''
          obtain ⟨right, w, rfl, hright, hw⟩ := right_part_iff.mp h
          have hskip : skipBlanks stripspaces s = (60 :: left ++ 64 :: right) ++ 62 :: w := by
            rw [hp]
            simp only [List.append_assoc, List.cons_append]
          have htrim := trimmed_iff.mpr ⟨w, hskip, hw⟩
          have htest := length_test (hclose hleft hright) w
          rw [hskip, htest.1] at hq
          cases hq
          rw [htrim]
          exact ⟨⟨left, right, rfl, hleft, hright⟩, htest.2.mpr hlen⟩
        · cases h
    · cases h
  · rintro ⟨⟨left, right, htrim, hleft, hright⟩, hlen⟩
    obtain ⟨w, hskip, hw⟩ := trimmed_iff.mp htrim
    have htest := length_test (hclose hleft hright) w
    have hat : ∀ c ∈ (64 :: (right ++ 62 :: w)).head?, midatomchar c = false ∧ c ≠ 46 := by
      rintro c ⟨⟩
      exact ⟨midatomchar_of_not (by decide), by decide⟩
    rw [htrim] at hlen
    rw [hskip, htest.1]
    dsimp only
    rw [if_neg (htest.2.mp hlen), List.append_assoc, List.cons_append, List.cons_append]
    change (if (left ++ 64 :: (right ++ 62 :: w)).head? = some 62 then false else _) = true
    rw [if_neg, localFrom_dotAtom hleft hat]
    · exact right_part_iff.mpr ⟨right, w, rfl, hright, hw⟩
    · intro h62
      obtain ⟨c, l, rfl, hc⟩ := hleft.start
      cases h62
      exact hc.mdtext.ne_close rfl

/-- The lax syntax. -/
theorem lax_iff (s : List UInt8) (stripspaces : Bool) :
    IsValidMessageID s stripspaces true = true ↔
      IsLaxMessageId (trimmed stripspaces s) ∧
        (trimmed stripspaces s).length ≤ NNTP_MAXLEN_MSGID := by
  have hclose : ∀ {m : List UInt8}, (∀ c ∈ m, IsLaxChar c) → (62 : UInt8) ∉ 60 :: m := by
    intro m hm h62
    rcases List.mem_cons.mp h62 with h62 | h62
    · exact absurd h62 (by decide)
    · rcases hm 62 h62 with h | h | h
      · exact h.ne_close rfl
      · exact absurd h (by decide)
      · exact absurd h (by decide)
  rw [IsValidMessageID]
  constructor
  · intro h
    split at h
    · cases h
    rename_i q hq
    split at h
    · cases h
    rename_i hlen
    split at h
    · rename_i p hp
      split at h
      · cases h
      rename_i hhead
      split at h
      · cases h
      · rename_i p' hlocal
        rw [if_pos rfl] at h
        split at h
        · rename_i w
          obtain ⟨m, rfl, hm⟩ := laxChars_of_localFrom hlocal
          have hne : m ≠ [] := by
            rintro rfl
            exact hhead rfl
          have hskip : skipBlanks stripspaces s = 60 :: m ++ 62 :: w := hp
          have htrim := trimmed_iff.mpr ⟨w, hskip, h⟩
          have htest := length_test (hclose hm) w
          rw [hskip, htest.1] at hq
          cases hq
          rw [htrim]
          exact ⟨⟨m, rfl, hne, hm⟩, htest.2.mpr hlen⟩
        · cases h
    · cases h
  · rintro ⟨⟨m, htrim, hne, hm⟩, hlen⟩
    obtain ⟨w, hskip, hw⟩ := trimmed_iff.mp htrim
    have htest := length_test (hclose hm) w
    rw [htrim] at hlen
    rw [hskip, htest.1]
    dsimp only
    rw [if_neg (htest.2.mp hlen), List.cons_append]
    change (if (m ++ 62 :: w).head? = some 62 then false else _) = true
    rw [if_neg, localFrom_laxChars hm]
    · exact hw
    · intro h62
      obtain ⟨c, m, rfl⟩ := List.exists_cons_of_ne_nil hne
      cases h62
      exact hclose hm (List.mem_cons_of_mem _ List.mem_cons_self)

/-- What is a message identifier is one in the lax syntax. -/
theorem IsMessageId.lax {l : List UInt8} (h : IsMessageId l) : IsLaxMessageId l := by
  obtain ⟨left, right, rfl, hleft, hright⟩ := h
  refine ⟨left ++ 64 :: right, by simp only [List.append_assoc, List.cons_append], ?_, ?_⟩
  · exact fun h0 => by simp at h0
  · intro c hc
    rcases List.mem_append.mp hc with hc | hc
    · exact .inl (hleft.mdtext c hc)
    · rcases List.mem_cons.mp hc with rfl | hc
      · exact .inl (by decide)
      · rcases hright with hright | ⟨m, rfl, hm⟩
        · exact .inl (hright.mdtext c hc)
        · rcases List.mem_append.mp hc with hc | hc
          · rcases List.mem_cons.mp hc with rfl | hc
            · exact .inr (.inl rfl)
            · exact .inl (hm c hc)
          · exact .inr (.inr (List.mem_singleton.mp hc))

/-- `IsValidMessageID` decides the syntax in both modes, and the strict one is part of the
other. -/
theorem IsValidMessageID_exact (s : List UInt8) (stripspaces : Bool) :
    (IsValidMessageID s stripspaces false = true ↔
      IsMessageId (trimmed stripspaces s) ∧
        (trimmed stripspaces s).length ≤ NNTP_MAXLEN_MSGID) ∧
    (IsValidMessageID s stripspaces true = true ↔
      IsLaxMessageId (trimmed stripspaces s) ∧
        (trimmed stripspaces s).length ≤ NNTP_MAXLEN_MSGID) ∧
    (IsValidMessageID s stripspaces false = true →
      IsValidMessageID s stripspaces true = true) := by
  refine ⟨strict_iff s stripspaces, lax_iff s stripspaces, fun h => ?_⟩
  obtain ⟨hid, hlen⟩ := (strict_iff s stripspaces).mp h
  exact (lax_iff s stripspaces).mpr ⟨hid.lax, hlen⟩

end Whole

end Inn.Libinn.MessageId
