import Inn.Innd.Channel
import Mathlib.Data.List.Forall2
import Mathlib.Tactic.SplitIfs

/-!
# Inn.Innd.Distribution — which distributions a site wants

`DISTwanted` compares an article's distribution with the entries of a site, the first character
before the rest. The compare ignores case, the one of the first character does not.

* `DISTwanted_eq` — the walk as a search for the first entry that matches;
* `distributions_iff` — for which lists the case of letters makes no difference.
-/

namespace Inn.Innd

/-! ## The code -/

/-- `*p` of a string. -/
def firstChar (p : List UInt8) : UInt8 := p.headD 0

/-- The loop of `DISTwanted`, with `sawbang`. -/
def DISTwantedLoop (p : List UInt8) : Bool → List (List UInt8) → Bool
  | sawbang, [] => sawbang
  | sawbang, q :: list =>
    if firstChar q = 33 then
      if firstChar p = firstChar q.tail ∧ strcaseEq p q.tail then false
      else DISTwantedLoop p true list
    else if firstChar p = firstChar q ∧ strcaseEq p q then true
    else DISTwantedLoop p sawbang list

/-- `DISTwanted`. -/
def DISTwanted (list : List (List UInt8)) (p : List UInt8) : Bool := DISTwantedLoop p false list

/-- `DISTwantany`. -/
def DISTwantany (site article : List (List UInt8)) : Bool :=
  if article = [] then true else article.any (DISTwanted site)

/-! ## The rule -/

/-- The entry says no. -/
def negated (q : List UInt8) : Bool := firstChar q == 33

/-- The distribution of an entry. -/
def distOf (q : List UInt8) : List UInt8 := if negated q then q.tail else q

/-- The first entry that matches decides; without one, entries that say no leave the others. -/
def verdict (hit : List UInt8 → Bool) (site : List (List UInt8)) : Bool :=
  ((site.find? hit).map fun q => !(negated q)).getD (site.any negated)

/-- The distribution is wanted, case ignored. -/
def Wanted (site : List (List UInt8)) (p : List UInt8) : Bool :=
  verdict (fun q => strcaseEq p (distOf q)) site

/-- The article is wanted. -/
def WantedAny (site article : List (List UInt8)) : Prop :=
  article = [] ∨ ∃ p ∈ article, Wanted site p = true

/-- The same strings, but for the case of letters. -/
def Recased : List (List UInt8) → List (List UInt8) → Prop :=
  List.Forall₂ fun l l' => strcaseEq l l' = true

/-- An ASCII letter. -/
def IsLetterChar (c : UInt8) : Prop := (65 ≤ c ∧ c ≤ 90) ∨ (97 ≤ c ∧ c ≤ 122)

instance (c : UInt8) : Decidable (IsLetterChar c) := inferInstanceAs (Decidable (_ ∨ _))

/-- Wanted whatever the first characters are: some entry says no, but none for this distribution. -/
def Always (site : List (List UInt8)) (p : List UInt8) : Prop :=
  if IsLetterChar (firstChar p) then
    site.any negated = true ∧ ∀ q ∈ site, strcaseEq p (distOf q) = true → negated q = false
  else Wanted site p = true

/-- Not wanted whatever the first characters are: the distribution has no entry, and none says
no. -/
def Never (site : List (List UInt8)) (p : List UInt8) : Prop :=
  if IsLetterChar (firstChar p) then
    site.any negated = false ∧ ∀ q ∈ site, strcaseEq p (distOf q) = false
  else Wanted site p = false

section Walk

variable {site site' article article' : List (List UInt8)} {p p' q : List UInt8}
  {hit hit' : List UInt8 → Bool}

/-- What `DISTwanted` takes for the same distribution. -/
def codeHit (p q : List UInt8) : Bool :=
  decide (firstChar p = firstChar (distOf q)) && strcaseEq p (distOf q)

theorem DISTwantedLoop_eq (sawbang : Bool) : DISTwantedLoop p sawbang site =
    ((site.find? (codeHit p)).map fun q => !(negated q)).getD (sawbang || site.any negated) := by
  induction site generalizing sawbang with
  | nil => simp [DISTwantedLoop]
  | cons q site ih =>
    rw [DISTwantedLoop, List.find?_cons, codeHit, List.any_cons]
    by_cases hbang : firstChar q = 33
    · have hneg : negated q = true := beq_iff_eq.mpr hbang
      rw [if_pos hbang, distOf, if_pos hneg]
      by_cases hsame : firstChar p = firstChar q.tail ∧ strcaseEq p q.tail
      · rw [if_pos hsame, decide_eq_true hsame.1, hsame.2]
        simp [hneg]
      · have hmiss : (decide (firstChar p = firstChar q.tail) && strcaseEq p q.tail) = false := by
          simpa using hsame
        rw [if_neg hsame, hmiss, ih, hneg]
        simp
    · have hneg : negated q = false := beq_eq_false_iff_ne.mpr hbang
      rw [if_neg hbang, distOf, hneg, if_neg Bool.false_ne_true]
      by_cases hsame : firstChar p = firstChar q ∧ strcaseEq p q
      · rw [if_pos hsame, decide_eq_true hsame.1, hsame.2]
        simp [hneg]
      · have hmiss : (decide (firstChar p = firstChar q) && strcaseEq p q) = false := by
          simpa using hsame
        rw [if_neg hsame, hmiss, ih]
        simp

theorem DISTwanted_eq (site : List (List UInt8)) (p : List UInt8) :
    DISTwanted site p = verdict (codeHit p) site := by
  rw [DISTwanted, DISTwantedLoop_eq, Bool.false_or, verdict]

theorem DISTwantany_iff : DISTwantany site article = true ↔
    article = [] ∨ ∃ p ∈ article, DISTwanted site p = true := by
  rw [DISTwantany]
  split
  · rename_i hnil
    simp [hnil]
  · rename_i hne
    simp [hne, List.any_eq_true]

/-! ## Verdicts -/

theorem verdict_congr (h : ∀ q ∈ site, hit q = hit' q) : verdict hit site = verdict hit' site := by
  have hfind : site.find? hit = site.find? hit' := by
    induction site with
    | nil => rfl
    | cons q site ih =>
      rw [List.find?_cons, List.find?_cons, h q List.mem_cons_self,
        ih fun q' hq' => h q' (List.mem_cons_of_mem _ hq')]
  rw [verdict, verdict, hfind]

/-- An entry that matches is plain, or none matches and some entry says no. -/
theorem verdict_true (hbang : site.any negated = true)
    (hplain : ∀ q ∈ site, hit q = true → negated q = false) : verdict hit site = true := by
  rw [verdict]
  cases hfind : site.find? hit with
  | none => exact hbang
  | some q =>
    have hneg := hplain q (List.mem_of_find?_eq_some hfind) (List.find?_some hfind)
    simp [hneg]

/-- All that match say no, and one does if any entry says no. -/
theorem verdict_false (hno : ∀ q ∈ site, hit q = true → negated q = true)
    (hsome : site.any negated = true → ∃ q ∈ site, hit q = true) : verdict hit site = false := by
  rw [verdict]
  cases hfind : site.find? hit with
  | none =>
    refine Bool.eq_false_iff.mpr fun hbang => ?_
    obtain ⟨q, hq, hhit⟩ := hsome hbang
    exact absurd hhit (by simpa using List.find?_eq_none.mp hfind q hq)
  | some q =>
    have hneg := hno q (List.mem_of_find?_eq_some hfind) (List.find?_some hfind)
    simp [hneg]

end Walk

/-! ## Case -/

/-- `toupper` in the C locale. -/
def toupper (c : UInt8) : UInt8 := if 97 ≤ c ∧ c ≤ 122 then c - 32 else c

section Case

variable {site site' article article' : List (List UInt8)} {p p' q : List UInt8}

theorem strcaseEq_iff {a b : List UInt8} : strcaseEq a b = true ↔ a.map tolower = b.map tolower :=
  beq_iff_eq

theorem toNat_tolower (c : UInt8) : (tolower c).toNat =
    if 65 ≤ c.toNat ∧ c.toNat ≤ 90 then c.toNat + 32 else c.toNat := by
  rw [tolower]
  simp only [UInt8.le_iff_toNat_le]
  change (if 65 ≤ c.toNat ∧ c.toNat ≤ 90 then c + 32 else c).toNat = _
  split
  · rw [UInt8.toNat_add]
    change (c.toNat + 32) % 256 = _
    omega
  · rfl

theorem toNat_toupper (c : UInt8) : (toupper c).toNat =
    if 97 ≤ c.toNat ∧ c.toNat ≤ 122 then c.toNat - 32 else c.toNat := by
  rw [toupper]
  simp only [UInt8.le_iff_toNat_le]
  change (if 97 ≤ c.toNat ∧ c.toNat ≤ 122 then c - 32 else c).toNat = _
  split
  · rw [UInt8.toNat_sub_of_le _ _ (UInt8.le_iff_toNat_le.mpr (by
      change 32 ≤ c.toNat
      omega))]
    rfl
  · rfl

theorem isLetterChar_iff (c : UInt8) : IsLetterChar c ↔
    (65 ≤ c.toNat ∧ c.toNat ≤ 90) ∨ (97 ≤ c.toNat ∧ c.toNat ≤ 122) := by
  simp only [IsLetterChar, UInt8.le_iff_toNat_le]
  rfl

theorem tolower_toupper (c : UInt8) : tolower (toupper c) = tolower c := by
  rw [← UInt8.toNat_inj, toNat_tolower, toNat_toupper, toNat_tolower]
  split_ifs <;> omega

theorem tolower_tolower (c : UInt8) : tolower (tolower c) = tolower c := by
  rw [← UInt8.toNat_inj, toNat_tolower, toNat_tolower]
  split_ifs <;> omega

theorem letter_tolower (c : UInt8) : IsLetterChar (tolower c) ↔ IsLetterChar c := by
  rw [isLetterChar_iff, isLetterChar_iff, toNat_tolower]
  split <;> omega

theorem tolower_of_not_letter {c : UInt8} (h : ¬ IsLetterChar c) : tolower c = c := by
  rw [isLetterChar_iff] at h
  rw [← UInt8.toNat_inj, toNat_tolower, if_neg (by omega)]

/-- A letter has two cases. -/
theorem tolower_ne_toupper {c : UInt8} (h : IsLetterChar c) (d : UInt8) :
    tolower c ≠ toupper d := by
  rw [isLetterChar_iff] at h
  rw [ne_eq, ← UInt8.toNat_inj, toNat_tolower, toNat_toupper]
  split <;> split <;> omega

theorem firstChar_map {f : UInt8 → UInt8} (hzero : f 0 = 0) :
    firstChar (p.map f) = f (firstChar p) := by
  cases p
  · exact hzero.symm
  · rfl

theorem tolower_firstChar (h : strcaseEq p q = true) :
    tolower (firstChar p) = tolower (firstChar q) := by
  have hmap := congrArg firstChar (strcaseEq_iff.mp h)
  rwa [firstChar_map rfl, firstChar_map rfl] at hmap

theorem negated_iff : negated q = true ↔ firstChar q = 33 := beq_iff_eq

theorem negated_congr (h : strcaseEq p q = true) : negated p = negated q := by
  have hlower := tolower_firstChar h
  rw [← UInt8.toNat_inj, toNat_tolower, toNat_tolower] at hlower
  rw [Bool.eq_iff_iff, negated_iff, negated_iff, ← UInt8.toNat_inj, ← UInt8.toNat_inj]
  change _ = 33 ↔ _ = 33
  split at hlower <;> split at hlower <;> omega

theorem distOf_congr (h : strcaseEq p q = true) : strcaseEq (distOf p) (distOf q) = true := by
  rw [distOf, distOf, negated_congr h]
  split
  · rw [strcaseEq_iff] at h ⊢
    rw [List.map_tail, List.map_tail, h]
  · exact h

theorem letter_congr (h : strcaseEq p q = true) :
    IsLetterChar (firstChar p) ↔ IsLetterChar (firstChar q) := by
  rw [← letter_tolower, tolower_firstChar h, letter_tolower]

/-- What does not begin with a letter has one first character. -/
theorem codeHit_of_not_letter (h : ¬ IsLetterChar (firstChar p)) (q : List UInt8) :
    codeHit p q = strcaseEq p (distOf q) := by
  rw [codeHit]
  cases hsame : strcaseEq p (distOf q) with
  | false => exact Bool.and_false _
  | true =>
    have hq := (letter_congr hsame).not.mp h
    have hlower := tolower_firstChar hsame
    rw [tolower_of_not_letter h, tolower_of_not_letter hq] at hlower
    rw [decide_eq_true hlower, Bool.and_true]

theorem DISTwanted_of_not_letter (h : ¬ IsLetterChar (firstChar p)) :
    DISTwanted site p = Wanted site p := by
  rw [DISTwanted_eq, Wanted]
  exact verdict_congr fun q _ => codeHit_of_not_letter h q

theorem any_negated_congr (h : Recased site site') : site.any negated = site'.any negated := by
  induction h with
  | nil => rfl
  | cons hq _ ih => rw [List.any_cons, List.any_cons, negated_congr hq, ih]

theorem strcaseEq_congr {a b a' b' : List UInt8} (ha : strcaseEq a a' = true)
    (hb : strcaseEq b b' = true) : strcaseEq a b = strcaseEq a' b' := by
  rw [strcaseEq, strcaseEq, strcaseEq_iff.mp ha, strcaseEq_iff.mp hb]

theorem strcaseEq_symm {a b : List UInt8} (h : strcaseEq a b = true) : strcaseEq b a = true :=
  strcaseEq_iff.mpr (strcaseEq_iff.mp h).symm

/-- The first entry that matches says the same, whatever the case of its letters. -/
theorem find_negated_congr (h : Recased site site') (hp : strcaseEq p p' = true) :
    (site.find? fun q => strcaseEq p (distOf q)).map (fun q => !(negated q)) =
      (site'.find? fun q => strcaseEq p' (distOf q)).map fun q => !(negated q) := by
  induction h with
  | nil => rfl
  | @cons q q' site site' hq _ ih =>
    rw [List.find?_cons, List.find?_cons, strcaseEq_congr hp (distOf_congr hq)]
    cases strcaseEq p' (distOf q') with
    | true => exact congrArg some (congrArg (!·) (negated_congr hq))
    | false => exact ih

/-- The rule does not see the case of letters. -/
theorem Wanted_congr (h : Recased site site') (hp : strcaseEq p p' = true) :
    Wanted site p = Wanted site' p' := by
  rw [Wanted, Wanted, verdict, verdict, find_negated_congr h hp, any_negated_congr h]

/-! ## Other cases -/

/-- The entries in upper case, those that say no perhaps in lower case. -/
def recase (lowerNo : Bool) (q : List UInt8) : List UInt8 :=
  if negated q = true ∧ lowerNo = true then q.map tolower else q.map toupper

theorem strcaseEq_lower (p : List UInt8) : strcaseEq p (p.map tolower) = true := by
  rw [strcaseEq_iff, List.map_map]
  exact List.map_congr_left fun c _ => (tolower_tolower c).symm

theorem strcaseEq_recase (lowerNo : Bool) (q : List UInt8) :
    strcaseEq q (recase lowerNo q) = true := by
  rw [recase]
  split
  · exact strcaseEq_lower q
  · rw [strcaseEq_iff, List.map_map]
    exact List.map_congr_left fun c _ => (tolower_toupper c).symm

theorem recased_map {f : List UInt8 → List UInt8} (h : ∀ q, strcaseEq q (f q) = true)
    (site : List (List UInt8)) : Recased site (site.map f) :=
  List.forall₂_map_right_iff.mpr (List.forall₂_same.mpr fun q _ => h q)

theorem distOf_map {f : UInt8 → UInt8} (h : negated (q.map f) = negated q) :
    distOf (q.map f) = (distOf q).map f := by
  rw [distOf, distOf, h]
  split
  · exact List.map_tail.symm
  · rfl

/-- A distribution in lower case is only found in entries that say no. -/
theorem codeHit_recase (hp : IsLetterChar (firstChar p)) (lowerNo : Bool) (q : List UInt8) :
    codeHit (p.map tolower) (recase lowerNo q) =
      (strcaseEq p (distOf q) && negated q && lowerNo) := by
  have hneg := negated_congr (strcaseEq_recase lowerNo q)
  have hsame : strcaseEq (p.map tolower) (distOf (recase lowerNo q)) = strcaseEq p (distOf q) :=
    (strcaseEq_congr (strcaseEq_lower p) (distOf_congr (strcaseEq_recase lowerNo q))).symm
  rw [codeHit, hsame, firstChar_map rfl]
  cases hcase : strcaseEq p (distOf q) with
  | false => rw [Bool.and_false, Bool.false_and, Bool.false_and]
  | true =>
    rw [Bool.and_true, Bool.true_and]
    rw [recase] at hneg ⊢
    split at hneg
    · rename_i hlower
      rw [if_pos hlower, distOf_map hneg.symm, firstChar_map rfl, tolower_firstChar hcase, hlower.1,
        hlower.2]
      exact decide_eq_true rfl
    · rename_i hupper
      rw [if_neg hupper, distOf_map hneg.symm, firstChar_map rfl,
        decide_eq_false (tolower_ne_toupper hp _)]
      symm
      simpa using hupper

/-- With all entries in upper case, nothing is found. -/
theorem DISTwanted_upper (hp : IsLetterChar (firstChar p)) :
    DISTwanted (site.map (recase false)) (p.map tolower) = site.any negated := by
  have hbang := any_negated_congr (recased_map (strcaseEq_recase false) site)
  have hnone : (site.map (recase false)).find? (codeHit (p.map tolower)) = none := by
    refine List.find?_eq_none.mpr fun q hq => ?_
    obtain ⟨q, -, rfl⟩ := List.mem_map.mp hq
    rw [codeHit_recase hp, Bool.and_false]
    exact Bool.false_ne_true
  rw [DISTwanted_eq, verdict, hnone, hbang]
  rfl

/-- With the others in upper case, an entry that says no is found. -/
theorem DISTwanted_lower (hp : IsLetterChar (firstChar p)) (hno : site.any negated = true →
      ∃ q ∈ site, strcaseEq p (distOf q) = true ∧ negated q = true) :
    DISTwanted (site.map (recase true)) (p.map tolower) = false := by
  rw [DISTwanted_eq]
  refine verdict_false (fun q hq hhit => ?_) fun hany => ?_
  · obtain ⟨q, -, rfl⟩ := List.mem_map.mp hq
    rw [codeHit_recase hp, Bool.and_eq_true, Bool.and_eq_true] at hhit
    rw [← negated_congr (strcaseEq_recase true q)]
    exact hhit.1.2
  · rw [← any_negated_congr (recased_map (strcaseEq_recase true) site)] at hany
    obtain ⟨q, hq, hsame, hneg⟩ := hno hany
    refine ⟨_, List.mem_map_of_mem hq, ?_⟩
    rw [codeHit_recase hp, hsame, hneg]
    rfl

/-! ## The lists -/

theorem Recased.mem (h : Recased site site') (hq : q ∈ site) :
    ∃ q' ∈ site', strcaseEq q q' = true := by
  induction h with
  | nil => cases hq
  | cons hsame _ ih =>
    rcases List.mem_cons.mp hq with rfl | hq
    · exact ⟨_, List.mem_cons_self, hsame⟩
    · obtain ⟨q', hq', hsame⟩ := ih hq
      exact ⟨q', List.mem_cons_of_mem _ hq', hsame⟩

theorem Recased.symm (h : Recased site site') : Recased site' site := by
  induction h with
  | nil => exact .nil
  | cons hsame _ ih => exact .cons (strcaseEq_symm hsame) ih

theorem Recased.nil_iff (h : Recased site site') : site = [] ↔ site' = [] := by
  cases h <;> simp

theorem WantedAny_congr (hsite : Recased site site') (harticle : Recased article article') :
    WantedAny site article ↔ WantedAny site' article' := by
  have hone : ∀ {site site' article article' : List (List UInt8)}, Recased site site' →
      Recased article article' → WantedAny site article → WantedAny site' article' := by
    intro site site' article article' hsite harticle h
    rcases h with hnil | ⟨p, hp, hwanted⟩
    · exact .inl (harticle.nil_iff.mp hnil)
    · obtain ⟨p', hp', hsame⟩ := harticle.mem hp
      exact .inr ⟨p', hp', (Wanted_congr hsite hsame).symm.trans hwanted⟩
  exact ⟨hone hsite harticle, hone hsite.symm harticle.symm⟩

/-- `Always` is about the strings without their case. -/
theorem DISTwanted_of_always (hsite : Recased site site') (hp : strcaseEq p p' = true)
    (h : Always site p) : DISTwanted site' p' = true := by
  rw [Always] at h
  by_cases hletter : IsLetterChar (firstChar p)
  · rw [if_pos hletter] at h
    rw [DISTwanted_eq]
    refine verdict_true (any_negated_congr hsite ▸ h.1) fun q' hq' hhit => ?_
    obtain ⟨q, hq, hsame⟩ := hsite.symm.mem hq'
    rw [codeHit, Bool.and_eq_true] at hhit
    rw [negated_congr hsame]
    refine h.2 q hq ?_
    rw [strcaseEq_congr hp (distOf_congr (strcaseEq_symm hsame))]
    exact hhit.2
  · rw [if_neg hletter] at h
    rw [DISTwanted_of_not_letter ((letter_congr hp).not.mp hletter), ← Wanted_congr hsite hp, h]

/-- The rule agrees, where no first character can matter. -/
theorem Wanted_of_always (h : Always site p) : Wanted site p = true := by
  rw [Always] at h
  split at h
  · exact verdict_true h.1 h.2
  · exact h

theorem Wanted_of_never (h : Never site p) : Wanted site p = false := by
  rw [Never] at h
  split at h
  · refine verdict_false (fun q hq hhit => ?_) fun hany => ?_
    · exact absurd (hhit.symm.trans (h.2 q hq)) (by decide)
    · exact absurd (hany.symm.trans h.1) (by decide)
  · exact h

theorem DISTwanted_of_never (hsite : Recased site site') (hp : strcaseEq p p' = true)
    (h : Never site p) : DISTwanted site' p' = false := by
  rw [Never] at h
  by_cases hletter : IsLetterChar (firstChar p)
  · rw [if_pos hletter] at h
    have hno : ∀ q' ∈ site', codeHit p' q' = false := by
      intro q' hq'
      obtain ⟨q, hq, hsame⟩ := hsite.symm.mem hq'
      rw [codeHit, ← strcaseEq_congr hp (distOf_congr (strcaseEq_symm hsame)), h.2 q hq,
        Bool.and_false]
    rw [DISTwanted_eq]
    refine verdict_false (fun q' hq' hhit => ?_) fun hany => ?_
    · exact absurd (hhit.symm.trans (hno q' hq')) (by decide)
    · exact absurd ((any_negated_congr hsite).trans hany |>.symm.trans h.1) (by decide)
  · rw [if_neg hletter] at h
    rw [DISTwanted_of_not_letter ((letter_congr hp).not.mp hletter), ← Wanted_congr hsite hp, h]

end Case

/-- The case of letters makes no difference, and the rule is followed, exactly where the article
has no distribution, or has one that is wanted for the other entries' sake or begins with no
letter, or where none of its distributions has an entry. -/
theorem distributions_iff (site article : List (List UInt8)) :
    (∀ site' article', Recased site site' → Recased article article' →
        (DISTwantany site' article' = true ↔ WantedAny site' article')) ↔
      article = [] ∨ (∃ p ∈ article, Always site p) ∨ ∀ p ∈ article, Never site p := by
  constructor
  · intro h
    by_cases hnil : article = []
    · exact .inl hnil
    refine .inr (or_iff_not_imp_left.mpr fun halways p hp => ?_)
    have hlower := recased_map strcaseEq_lower article
    have hne : article.map (List.map tolower) ≠ [] := fun heq => hnil (List.map_eq_nil_iff.mp heq)
    by_cases hany : WantedAny site article
    · -- all are refused with the entries that say no in the case of the article
      have hsite := recased_map (strcaseEq_recase true) site
      have hcode := (h _ _ hsite hlower).mpr ((WantedAny_congr hsite hlower).mp hany)
      rcases DISTwantany_iff.mp hcode with heq | ⟨p', hp', hwanted⟩
      · exact absurd heq hne
      obtain ⟨p, hp, rfl⟩ := List.mem_map.mp hp'
      refine absurd ⟨p, hp, ?_⟩ halways
      rw [Always]
      by_cases hletter : IsLetterChar (firstChar p)
      · rw [if_pos hletter]
        by_contra hnot
        refine absurd (hwanted.symm.trans (DISTwanted_lower hletter fun hbang => ?_)) (by decide)
        simp only [not_and, not_forall] at hnot
        obtain ⟨q, hq, hsame, hneg⟩ := hnot hbang
        exact ⟨q, hq, hsame, Bool.not_eq_false _ ▸ hneg⟩
      · rw [if_neg hletter]
        rwa [DISTwanted_of_not_letter ((letter_congr (strcaseEq_lower p)).not.mp hletter),
          ← Wanted_congr hsite (strcaseEq_lower p)] at hwanted
    · -- one is taken with all entries in the other case
      have hwanted : Wanted site p = false :=
        Bool.eq_false_iff.mpr fun hw => hany (.inr ⟨p, hp, hw⟩)
      rw [Never]
      by_cases hletter : IsLetterChar (firstChar p)
      · rw [if_pos hletter]
        have hsite := recased_map (strcaseEq_recase false) site
        have hbang : site.any negated = false := by
          refine Bool.eq_false_iff.mpr fun hbang => hany ?_
          refine (WantedAny_congr hsite hlower).mpr ((h _ _ hsite hlower).mp ?_)
          exact DISTwantany_iff.mpr (.inr ⟨_, List.mem_map_of_mem hp,
            (DISTwanted_upper hletter).trans hbang⟩)
        refine ⟨hbang, fun q hq => Bool.eq_false_iff.mpr fun hsame => ?_⟩
        obtain ⟨q', hfind⟩ := Option.isSome_iff_exists.mp
          (List.find?_isSome.mpr ⟨q, hq, hsame⟩ :
            (site.find? fun q => strcaseEq p (distOf q)).isSome)
        have hneg : negated q' = false := List.any_eq_false.mp hbang q'
          (List.mem_of_find?_eq_some hfind) |> Bool.eq_false_iff.mpr
        rw [Wanted, verdict, hfind, Option.map_some, Option.getD_some, hneg] at hwanted
        exact absurd hwanted (by decide)
      · rwa [if_neg hletter]
  · intro h site' article' hsite harticle
    rw [DISTwantany_iff, ← WantedAny_congr hsite harticle, WantedAny]
    rcases h with hnil | ⟨p, hp, halways⟩ | hnever
    · exact iff_of_true (.inl (harticle.nil_iff.mp hnil)) (.inl hnil)
    · obtain ⟨p', hp', hsame⟩ := harticle.mem hp
      exact iff_of_true (.inr ⟨p', hp', DISTwanted_of_always hsite hsame halways⟩)
        (.inr ⟨p, hp, Wanted_of_always halways⟩)
    · refine or_congr harticle.nil_iff.symm (iff_of_false ?_ ?_)
      · rintro ⟨p', hp', hwanted⟩
        obtain ⟨p, hp, hsame⟩ := harticle.symm.mem hp'
        have hno := DISTwanted_of_never hsite (strcaseEq_symm hsame) (hnever p hp)
        exact absurd (hwanted.symm.trans hno) (by decide)
      · rintro ⟨p, hp, hwanted⟩
        exact absurd (hwanted.symm.trans (Wanted_of_never (hnever p hp))) (by decide)

/-- The site has `World`, the article `world`. -/
theorem world_is_not_World : ¬ ∀ site article : List (List UInt8),
    (DISTwantany site article = true ↔ WantedAny site article) := by
  intro h
  have hrule := (h [[87, 111, 114, 108, 100]] [[119, 111, 114, 108, 100]]).mpr
    (.inr ⟨_, List.mem_singleton_self _, by decide⟩)
  exact absurd hrule (by decide)

end Inn.Innd
