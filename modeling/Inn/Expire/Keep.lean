import Inn.Expire.Control

/-!
# Inn.Expire.Keep — whether an article is kept

A limit is kept as the time that an article must not be older than, and 0 stands for never. The
test is made twice: for the rule of a group in `storage/expire.c`, and for that of a storage class
in `expire/expire.c`.

* `EXPgetnum_eq` — the time that a limit becomes;
* `Class.EXPkeepit_iff` — the class, or the default, is tested as a group is;
* `keeps_iff` — an article is kept as documented, but for what `Astray` names.
-/

namespace Inn.Expire

/-! ## The storage classes -/

namespace Class

/-- `enum KR`. -/
inductive KR where
  | Keep
  | Remove
deriving DecidableEq

/-- `EXPIRECLASS`. -/
structure EXPIRECLASS where
  Keep : ℤ
  Default : ℤ
  Purge : ℤ
  Missing : Bool
  ReportedMissing : Bool
deriving DecidableEq

/-- `NUM_STORAGE_CLASSES`. -/
def NUM_STORAGE_CLASSES : ℕ := 256

/-- `EXPkeepit` for a class that has a rule. -/
def keepsClass (Now RealNow : ℤ) (cls : EXPIRECLASS) (when Expires : ℤ) : KR :=
  let when := if when > RealNow + 86400 then if Expires ≠ 0 then cls.Purge else cls.Default
    else when
  if Expires = 0 then if when ≥ cls.Default then .Keep else .Remove
  else if when ≥ cls.Purge ∧ (Expires ≥ Now ∨ when ≥ cls.Keep) then .Keep else .Remove

/-- `EXPkeepit` of `expire/expire.c`, with what it leaves of `EXPclasses`. -/
def EXPkeepit (Now RealNow : ℤ) (EXPclasses : ℕ → EXPIRECLASS) (token_class : ℕ)
    (when Expires : ℤ) : KR × (ℕ → EXPIRECLASS) :=
  let cls := EXPclasses token_class
  if cls.Missing then
    let default := EXPclasses NUM_STORAGE_CLASSES
    if default.Missing then
      (.Keep, Function.update EXPclasses token_class { cls with ReportedMissing := true })
    else
      (keepsClass Now RealNow default when Expires, Function.update EXPclasses token_class default)
  else (keepsClass Now RealNow cls when Expires, EXPclasses)

/-- The rule for the articles of a class: its own one, or the default. -/
def ruleOf (EXPclasses : ℕ → EXPIRECLASS) (token_class : ℕ) : Option EXPIRECLASS :=
  if (EXPclasses token_class).Missing then
    if (EXPclasses NUM_STORAGE_CLASSES).Missing then none
    else some (EXPclasses NUM_STORAGE_CLASSES)
  else some (EXPclasses token_class)

end Class

/-! ## The documented decision -/

/-- The limit that a word of a rule says, in seconds; `none` is never. -/
def limit (atof : Atof) (word : List UInt8) : Option ℤ :=
  if word.map tolower = never ∨ atof.magic word = true then none else some (atof.seconds word)

/-- The time that a limit is kept as. -/
def cutoff (now : ℤ) : Option ℤ → ℤ
  | none => 0
  | some seconds => now - seconds

/-- An age is within a limit. -/
def Within (age : ℤ) (limit : Option ℤ) : Prop := ∀ seconds, limit = some seconds → age ≤ seconds

/-- A rule has these limits. -/
structure Rule.Says (atof : Atof) (OVnow : ℤ) (min default max : Option ℤ) (v : Values) : Prop where
  keep : ∃ word, EXPgetnum atof OVnow word = some v.Keep ∧ limit atof word = min
  default : ∃ word, EXPgetnum atof OVnow word = some v.Default ∧ limit atof word = default
  purge : ∃ word, EXPgetnum atof OVnow word = some v.Purge ∧ limit atof word = max
  inRange : inRange v = true

section Keep

variable {atof : Atof} {word : List UInt8} {conf : Config} {Entry : List UInt8} {ngp : NEWSGROUP}
  {min default max : Option ℤ} {now realnow when expires v : ℤ} {values : Values}

/-- An article is kept, as expire.ctl documents it. -/
def KeepsArticle (min default max : Option ℤ) (now realnow when expires : ℤ) : Prop :=
  min = none ∨
    (realnow + 86400 < when → (if expires = 0 then default else max) = none) ∧
      if expires = 0 then Within (now - when) default
      else Within (now - when) max ∧ (now ≤ expires ∨ Within (now - when) min)

/-- Where the code decides otherwise. -/
@[mk_iff]
inductive Astray (min default max : Option ℤ) (now realnow when expires : ℤ) : Prop where
  /-- A date in the future becomes the limit, and meets it. -/
  | future_default (hfuture : realnow + 86400 < when) (hexpires : expires = 0) (hmin : min ≠ none)
      (hdefault : default ≠ none)
  | future_max (hfuture : realnow + 86400 < when) (hexpires : expires ≠ 0) (hmin : min ≠ none)
      (hmax : max ≠ none) (hkept : now ≤ expires ∨ cutoff now min ≤ cutoff now max)
  /-- A date in the future becomes 0, and its age is not what is tested. -/
  | future_never (hfuture : realnow + 86400 < when) (hexpires : expires ≠ 0) (hmin : min ≠ none)
      (hmax : max = none) (hexpired : expires < now)
      (hage : ¬ (Within (now - when) min ↔ cutoff now min ≤ 0))
  /-- It is not seen that the minimum is never. -/
  | min_default (hdate : when ≤ realnow + 86400) (hexpires : expires = 0) (hmin : min = none)
      (hold : when < cutoff now default)
  | min_max (hdate : when ≤ realnow + 86400) (hexpires : expires ≠ 0) (hmin : min = none)
      (hold : when < cutoff now max ∨ expires < now ∧ when < 0)
  | min_future (hfuture : realnow + 86400 < when) (hexpires : expires ≠ 0) (hmin : min = none)
      (hexpired : expires < now) (hmax : cutoff now max < 0)
  /-- A time before 1970 is before never. -/
  | early_default (hdate : when ≤ realnow + 86400) (hexpires : expires = 0) (hmin : min ≠ none)
      (hdefault : default = none) (hold : when < 0)
  | early_max (hdate : when ≤ realnow + 86400) (hexpires : expires ≠ 0) (hmin : min ≠ none)
      (hmax : max = none) (hold : when < 0) (hkept : now ≤ expires ∨ cutoff now min ≤ when)

/-- The tests of both functions, of the times that the limits are kept as. -/
def Tested (Keep Default Purge now realnow when expires : ℤ) : Prop :=
  let date := if realnow + 86400 < when then if expires ≠ 0 then Purge else Default else when
  if expires = 0 then Default ≤ date else Purge ≤ date ∧ (now ≤ expires ∨ Keep ≤ date)

theorem EXPgetnum_eq (h : EXPgetnum atof now word = some v) : v = cutoff now (limit atof word) := by
  rw [EXPgetnum] at h
  rw [limit]
  split at h
  · rename_i hnever
    rw [if_pos (.inl hnever)]
    exact (Option.some.inj h).symm
  · rename_i hnever
    simp only [Option.ite_none_right_eq_some, Option.some.injEq] at h
    obtain ⟨-, rfl⟩ := h
    cases hmagic : atof.magic word <;> simp [hnever, cutoff]

theorem Rule.Says.eq (h : Rule.Says atof now min default max values) :
    values.Keep = cutoff now min ∧ values.Default = cutoff now default ∧
      values.Purge = cutoff now max := by
  obtain ⟨⟨_, hkeep, rfl⟩, ⟨_, hdefault, rfl⟩, ⟨_, hpurge, rfl⟩, -⟩ := h
  exact ⟨EXPgetnum_eq hkeep, EXPgetnum_eq hdefault, EXPgetnum_eq hpurge⟩

theorem EXPkeepit_iff (hfind : NGfind conf Entry = some ngp) :
    EXPkeepit conf Entry when expires = .Keep ↔
      Tested ngp.Keep ngp.Default ngp.Purge conf.OVnow conf.OVrealnow when expires := by
  rw [EXPkeepit, hfind, Option.getD_some, Tested]
  simp only [gt_iff_lt, ge_iff_le]
  generalize (if conf.OVrealnow + 86400 < when then
    if expires ≠ 0 then ngp.Purge else ngp.Default else when) = date
  by_cases hexpires : expires = 0
  · simp only [hexpires, if_true]
    split
    · rename_i hkeep
      simpa using hkeep
    · rename_i hkeep
      cases ngp.Poison <;> simpa using hkeep
  · simp only [hexpires, if_false]
    split
    · rename_i hkeep
      simpa using hkeep
    · rename_i hkeep
      cases ngp.Poison <;> simpa using hkeep

theorem Class.EXPkeepit_iff {EXPclasses : ℕ → Class.EXPIRECLASS} {token_class : ℕ}
    {cls : Class.EXPIRECLASS} (hrule : Class.ruleOf EXPclasses token_class = some cls) :
    (Class.EXPkeepit now realnow EXPclasses token_class when expires).1 = .Keep ↔
      Tested cls.Keep cls.Default cls.Purge now realnow when expires := by
  have hkeeps : (Class.EXPkeepit now realnow EXPclasses token_class when expires).1 =
      Class.keepsClass now realnow cls when expires := by
    rw [Class.ruleOf] at hrule
    rw [Class.EXPkeepit]
    split at hrule
    · rename_i hmissing
      split at hrule
      · cases hrule
      · rename_i hdefault
        obtain rfl := Option.some.inj hrule
        simp only [hmissing, if_true, hdefault]
        rfl
    · rename_i hmissing
      obtain rfl := Option.some.inj hrule
      simp only [hmissing]
      rfl
  rw [hkeeps, Class.keepsClass, Tested]
  simp only [gt_iff_lt, ge_iff_le]
  split
  · rw [ite_eq_left_iff]
    simp
  · rw [ite_eq_left_iff]
    simp only [reduceCtorEq, imp_false, not_not]

/-- The tests come to what is documented, but for what is named. -/
theorem tested_iff : (Tested (cutoff now min) (cutoff now default) (cutoff now max) now realnow
    when expires ↔ KeepsArticle min default max now realnow when expires) ↔
      ¬ Astray min default max now realnow when expires := by
  rw [astray_iff]
  unfold Tested KeepsArticle Within
  rcases le_or_gt when (realnow + 86400) with hdate | hfuture
  · by_cases hexpires : expires = 0
    · cases min <;> cases default <;> simp [hdate, hexpires, cutoff, not_lt.2 hdate]
      omega
    · cases min <;> cases max <;> simp [hdate, hexpires, cutoff, not_lt.2 hdate] <;> omega
  · by_cases hexpires : expires = 0
    · cases min <;> cases default <;> simp [hfuture, hexpires, cutoff, not_le.2 hfuture]
    · cases min <;> cases max <;> simp [hfuture, hexpires, cutoff, not_le.2 hfuture] <;> omega

/-- `EXPkeepit`, of the group's rule and of the class's one. -/
theorem keeps_iff {EXPclasses : ℕ → Class.EXPIRECLASS} {token_class : ℕ}
    {cls : Class.EXPIRECLASS} (hfind : NGfind conf Entry = some ngp)
    (hsaid : Rule.Says atof conf.OVnow min default max
      ⟨ngp.Keep, ngp.Default, ngp.Purge, ngp.Poison⟩)
    (hrule : Class.ruleOf EXPclasses token_class = some cls)
    (hclass : Rule.Says atof now min default max ⟨cls.Keep, cls.Default, cls.Purge, false⟩) :
    ((EXPkeepit conf Entry when expires = .Keep ↔
        KeepsArticle min default max conf.OVnow conf.OVrealnow when expires) ↔
      ¬ Astray min default max conf.OVnow conf.OVrealnow when expires) ∧
    (((Class.EXPkeepit now realnow EXPclasses token_class when expires).1 = .Keep ↔
        KeepsArticle min default max now realnow when expires) ↔
      ¬ Astray min default max now realnow when expires) := by
  obtain ⟨hkeep, hdefault, hpurge⟩ := hsaid.eq
  obtain ⟨hkeep', hdefault', hpurge'⟩ := hclass.eq
  dsimp only at hkeep hdefault hpurge hkeep' hdefault' hpurge'
  rw [EXPkeepit_iff hfind, Class.EXPkeepit_iff hrule, hkeep, hdefault, hpurge, hkeep', hdefault',
    hpurge']
  exact ⟨tested_iff, tested_iff⟩

end Keep

/-- The day 11, with the rule `1:2:3` for the group `a`. -/
def oneConf : Config :=
  { OVnow := 1000000, OVrealnow := 1000000, OVignoreselfexpire := false, OVusepost := true,
    OVkeep := false, OVearliest := false, Groups := [⟨[97], 913600, 827200, 740800, false⟩] }

/-- The same rule for each class. -/
def oneClass (_ : ℕ) : Class.EXPIRECLASS := ⟨913600, 827200, 740800, false, false⟩

theorem oneConf_rule : Rule.Says wholeDays 1000000 (some 86400) (some 172800) (some 259200)
    ⟨913600, 827200, 740800, false⟩ where
  keep := ⟨[49], rfl, rfl⟩
  default := ⟨[50], rfl, rfl⟩
  purge := ⟨[51], rfl, rfl⟩
  inRange := rfl

theorem oneConf_keeps :
    (EXPkeepit oneConf [97] 950000 0 = .Keep ↔
      KeepsArticle (some 86400) (some 172800) (some 259200) 1000000 1000000 950000 0) ∧
    ((Class.EXPkeepit 1000000 1000000 oneClass 0 950000 0).1 = .Keep ↔
      KeepsArticle (some 86400) (some 172800) (some 259200) 1000000 1000000 950000 0) := by
  have hiff := @keeps_iff wholeDays oneConf [97] _ _ _ _ 1000000 1000000 950000 0 oneClass 0
    (oneClass 0) rfl oneConf_rule rfl oneConf_rule
  have hnot : ¬ Astray (some 86400) (some 172800) (some 259200) 1000000 1000000 950000 0 := by
    simp [astray_iff, cutoff]
  exact ⟨hiff.1.mpr hnot, hiff.2.mpr hnot⟩

theorem future_kept : ¬ ∀ (atof : Atof) (min default max : Option ℤ) (conf : Config)
    (Entry : List UInt8) (ngp : NEWSGROUP) (now realnow when expires : ℤ)
    (EXPclasses : ℕ → Class.EXPIRECLASS) (token_class : ℕ) (cls : Class.EXPIRECLASS),
    NGfind conf Entry = some ngp →
    Rule.Says atof conf.OVnow min default max ⟨ngp.Keep, ngp.Default, ngp.Purge, ngp.Poison⟩ →
    Class.ruleOf EXPclasses token_class = some cls →
    Rule.Says atof now min default max ⟨cls.Keep, cls.Default, cls.Purge, false⟩ →
      (EXPkeepit conf Entry when expires = .Keep ↔
        KeepsArticle min default max conf.OVnow conf.OVrealnow when expires) ∧
      ((Class.EXPkeepit now realnow EXPclasses token_class when expires).1 = .Keep ↔
        KeepsArticle min default max now realnow when expires) := by
  intro h
  have hkeeps := (h wholeDays _ _ _ oneConf [97] _ 1000000 1000000 2000000 0 oneClass 0
    (oneClass 0) rfl oneConf_rule rfl oneConf_rule).1.mp rfl
  simp [KeepsArticle, oneConf] at hkeeps

end Inn.Expire
