import Mathlib.Data.List.Forall2
import Inn.Override
import Inn.Lines
import Inn.Decimal
import Inn.Expire.Rules
import Inn.Libinn.Uwildmat

/-!
# Inn.Expire.Control — expire.ctl

`BuildGroups` has a record for each line of the active file, and `EXPreadfile` goes through the
lines of expire.ctl and sets the records of the groups that a line is for.

* `readLoop_named` — the rules of an expire.ctl that can be read are applied in order;
* `readLoop_unnamed` — where a record has no name, it is read;
* `rules_iff` — each group has the rule that is documented, when there is one for each of them.
-/

namespace Inn.Expire

open Libinn.Uwildmat (uwildmat)

def LF : UInt8 := 10

def BUFSIZ : ℕ := 8192

/-! ## The code -/

/-- `tolower`. -/
def tolower (c : UInt8) : UInt8 := if 65 ≤ c ∧ c ≤ 90 then c + 32 else c

/-- `"never"`. -/
def never : List UInt8 := [110, 101, 118, 101, 114]

/-- What `atof` makes of a number: whether it is more than `MAGIC_TIME`, and
`(time_t) (d * 86400.)`. -/
structure Atof where
  magic : List UInt8 → Bool
  seconds : List UInt8 → ℤ

/-- The digits of `EXPgetnum`, with one dot at most. -/
def onlyDigits : Bool → List UInt8 → Bool
  | _, [] => true
  | SawDot, c :: p =>
    if c = 46 then !SawDot && onlyDigits true p
    else (48 ≤ c && c ≤ 57) && onlyDigits SawDot p

/-- `EXPgetnum`. -/
def EXPgetnum (atof : Atof) (OVnow : ℤ) (word : List UInt8) : Option ℤ :=
  if word.map tolower = never then some 0
  else
    let p := word.dropWhile fun c => c = 32 ∨ c = 9
    let p := if p.head? = some 43 ∨ p.head? = some 45 then p.tail else p
    if onlyDigits false p then some (if atof.magic word then 0 else OVnow - atof.seconds word)
    else none

/-- The values that a rule sets. -/
structure Values where
  Keep : ℤ
  Default : ℤ
  Purge : ℤ
  Poison : Bool
deriving DecidableEq

/-- A `NEWSGROUP` in `Groups`. It has no name when `BuildGroups` has left it as it was. -/
structure Record extends Values where
  Name : Option (List UInt8)
  Rest : List UInt8

/-- The name and the flag in a line of the active file; a line that begins with a dot has none.
The outer `none` is an `exit`. -/
def activeLine (line : List UInt8) : Option (Option (List UInt8 × List UInt8)) :=
  if line.head? = some 46 then some none
  else
    match EXPsplit line 32 5 with
    | some [name, _, _, rest] => some (some (name, rest))
    | _ => none

/-- The loop of `BuildGroups`. What `xmalloc` returns has the values `fresh`. -/
def buildLoop (fresh : ℕ → Values) : ℕ → List (List UInt8) → Option (List Record)
  | _, [] => some []
  | i, line :: lines => do
    let group ← activeLine line.dropLast
    let Groups ← buildLoop fresh (i + 1) lines
    some ({ fresh i with Name := group.map (·.1), Rest := (group.map (·.2)).getD [] } :: Groups)

/-- `BuildGroups`. -/
def BuildGroups (fresh : ℕ → Values) (active : List UInt8) : Option (List Record) :=
  buildLoop fresh 0 (completeLines LF active)

/-- `mod`. -/
inductive Mod where
  | a
  | m
  | u
deriving DecidableEq

/-- A rule is for a group of this flag. -/
def Mod.isFor (mod : Mod) (rest : List UInt8) : Bool :=
  match mod with
  | a => true
  | m => rest.head? = some 109
  | u => rest.head? ≠ some 109

/-- A pattern is for a group. -/
def patternFor (p name : List UInt8) : Bool :=
  if p.head? = some 33 then !uwildmat name p.tail else uwildmat name p

/-- `EXPmatch`. `none` is a name that is not there to be read. -/
def EXPmatch (p : List UInt8) (v : Values) (mod : Mod) (Groups : List Record) :
    Option (List Record) :=
  Groups.mapM fun ngp => do
    let name ← ngp.Name
    some (if patternFor p name && mod.isFor ngp.Rest then { ngp with toValues := v } else ngp)

/-- What `EXPreadfile` makes of a line. -/
inductive Line where
  | skip
  | bad
  | rule (groups : List UInt8) (mod : Mod) (v : Values)

/-- `isspace`. -/
def isspace (c : UInt8) : Bool := c = 32 ∨ (9 ≤ c ∧ c ≤ 13)

/-- A line without its comment, and without space at its end. -/
def stripped (buff : List UInt8) : List UInt8 :=
  (((buff.takeWhile (· ≠ 35)).reverse).dropWhile isspace).reverse

/-- `"/remember/"`. -/
def remember : List UInt8 := [47, 114, 101, 109, 101, 109, 98, 101, 114, 47]

/-- The flag of a rule. -/
def modOf (field : List UInt8) : Option Mod :=
  if 77 ∈ field then some .m
  else if 85 ∈ field then some .u
  else if 65 ∈ field then some .a
  else none

/-- The tests of `EXPreadfile` of the three times. A time that is never is 0. -/
def inRange (v : Values) : Bool :=
  v.Purge = 0 ∨ ¬ (v.Keep ≠ 0 ∧ v.Keep < v.Purge) ∧ ¬ (v.Default ≠ 0 ∧ v.Default < v.Purge)

section Read

variable (atof : Atof) (OVnow : ℤ)

/-- `EXPreadfile` at a line, up to its patterns. -/
def parseLine (buff : List UInt8) : Line :=
  let p := buff.takeWhile (· ≠ 0)
  if LF ∉ p then .bad
  else
    let buff := stripped (p.takeWhile (· ≠ LF))
    if buff = [] then .skip
    else
      match EXPsplit buff 58 7 with
      | none => .bad
      | some fields =>
        if fields = [] then .bad
        else if fields.head? = some remember then .skip
        else
          match fields with
          | [groups, flag, keep, default, purge] =>
            match modOf flag, EXPgetnum atof OVnow keep, EXPgetnum atof OVnow default,
              EXPgetnum atof OVnow purge with
            | some mod, some Keep, some Default, some Purge =>
              let v : Values := ⟨Keep, Default, Purge, decide (88 ∈ flag)⟩
              if inRange v then .rule groups mod v else .bad
            | _, _, _, _ => .bad
          | _ => .bad

/-- The lines as `fgets` returns them. -/
def fgetsLines : ℕ → List UInt8 → List (List UInt8)
  | 0, _ => []
  | fuel + 1, file =>
    if file = [] then []
    else
      let buff := file.take (BUFSIZ - 1)
      let buff := if LF ∈ buff then buff.takeWhile (· ≠ LF) ++ [LF] else buff
      buff :: fgetsLines fuel (file.drop buff.length)

/-- The loop over the patterns of a line. -/
def matchLoop (v : Values) (mod : Mod) : List (List UInt8) → List Record → Option (List Record)
  | [], Groups => some Groups
  | p :: patterns, Groups => (EXPmatch p v mod Groups).bind (matchLoop v mod patterns)

/-- The line is the default line. -/
def isDefault (groups : List UInt8) (mod : Mod) : Bool := groups = [42] ∧ mod = .a

/-- The loop of `EXPreadfile`. -/
def readLoop : List (List UInt8) → Bool → List Record → Option (Bool × List Record)
  | [], _, Groups => some (true, Groups)
  | buff :: lines, SawDefault, Groups =>
    match parseLine atof OVnow buff with
    | .skip => readLoop lines SawDefault Groups
    | .bad => some (false, Groups)
    | .rule groups mod v =>
      if isDefault groups mod && SawDefault then some (false, Groups)
      else
        match EXPsplit groups 44 Groups.length with
        | none => some (false, Groups)
        | some patterns =>
          (matchLoop v mod patterns Groups).bind
            (readLoop lines (SawDefault || isDefault groups mod))

/-- `EXPreadfile`: what it returns, and the groups. -/
def EXPreadfile (file : List UInt8) (Groups : List Record) : Option (Bool × List Record) :=
  readLoop atof OVnow (fgetsLines (file.length + 1) file) false Groups

end Read

/-! ## The rules -/

/-- A pattern with the rest of its line. -/
structure Rule where
  pattern : List UInt8
  mod : Mod
  v : Values

section Rules

variable {atof : Atof} {OVnow : ℤ} {n : ℕ} {lines : List (List UInt8)} {saw : Bool}
  {rules : List Rule} {Groups : List Record} {fresh fresh' : ℕ → Values}

/-- A rule is for a group. -/
def Rule.isFor (rule : Rule) (ngp : Record) : Bool :=
  ngp.Name.any fun name => patternFor rule.pattern name && rule.mod.isFor ngp.Rest

/-- The values of a rule. -/
def Rule.set (rule : Rule) (ngp : Record) : Record := { ngp with toValues := rule.v }

theorem rule_overrides : Overrides Rule.isFor Rule.set where
  set_set _ _ _ := rfl
  isFor_set _ _ _ := rfl

/-- The rules of an expire.ctl that is accepted, in order, where there are `n` groups. -/
def controlRules (atof : Atof) (OVnow : ℤ) (n : ℕ) : List (List UInt8) → Bool → Option (List Rule)
  | [], _ => some []
  | buff :: lines, SawDefault =>
    match parseLine atof OVnow buff with
    | .skip => controlRules atof OVnow n lines SawDefault
    | .bad => none
    | .rule groups mod v =>
      if isDefault groups mod && SawDefault then none
      else
        match EXPsplit groups 44 n with
        | none => none
        | some patterns =>
          (controlRules atof OVnow n lines (SawDefault || isDefault groups mod)).map
            (patterns.map (⟨·, mod, v⟩) ++ ·)

/-- The groups with a rule applied. -/
def applyRules (rules : List Rule) (Groups : List Record) : List Record :=
  Groups.map fun ngp => rules.foldl (override Rule.isFor Rule.set) ngp

theorem EXPmatch_named (p : List UInt8) (v : Values) (mod : Mod)
    (hnamed : ∀ ngp ∈ Groups, ngp.Name ≠ none) :
    EXPmatch p v mod Groups = some (applyRules [⟨p, mod, v⟩] Groups) := by
  induction Groups with
  | nil => rfl
  | cons ngp Groups ih =>
    obtain ⟨hname, hnamed⟩ := List.forall_mem_cons.mp hnamed
    obtain ⟨name, hname⟩ := Option.ne_none_iff_exists'.mp hname
    rw [EXPmatch, List.mapM_cons, ← EXPmatch, ih hnamed]
    simp [hname, applyRules, override, Rule.isFor, Rule.set]

theorem EXPmatch_unnamed (p : List UInt8) (v : Values) (mod : Mod)
    (hno : ∃ ngp ∈ Groups, ngp.Name = none) : EXPmatch p v mod Groups = none := by
  induction Groups with
  | nil => simp at hno
  | cons ngp Groups ih =>
    rw [EXPmatch, List.mapM_cons, ← EXPmatch]
    cases hname : ngp.Name with
    | none => rfl
    | some name =>
      have hno : ∃ ngp ∈ Groups, ngp.Name = none := by simpa [hname] using hno
      simp [ih hno]

@[simp] theorem length_applyRules (rules : List Rule) (Groups : List Record) :
    (applyRules rules Groups).length = Groups.length := List.length_map ..

theorem applyRules_append (rules rules' : List Rule) (Groups : List Record) :
    applyRules rules' (applyRules rules Groups) = applyRules (rules ++ rules') Groups := by
  simp only [applyRules, List.map_map, List.foldl_append, Function.comp_def]

theorem foldl_name (rules : List Rule) (ngp : Record) :
    (rules.foldl (override Rule.isFor Rule.set) ngp).Name = ngp.Name ∧
      (rules.foldl (override Rule.isFor Rule.set) ngp).Rest = ngp.Rest := by
  induction rules generalizing ngp with
  | nil => exact ⟨rfl, rfl⟩
  | cons rule rules ih =>
    obtain ⟨hname, hrest⟩ := ih (override Rule.isFor Rule.set ngp rule)
    rw [List.foldl_cons, hname, hrest, override]
    split <;> exact ⟨rfl, rfl⟩

theorem applyRules_named (rules : List Rule) (hnamed : ∀ ngp ∈ Groups, ngp.Name ≠ none) :
    ∀ ngp ∈ applyRules rules Groups, ngp.Name ≠ none := by
  intro ngp hngp
  obtain ⟨first, hfirst, rfl⟩ := List.mem_map.mp hngp
  rw [(foldl_name rules first).1]
  exact hnamed first hfirst

theorem matchLoop_named (v : Values) (mod : Mod) (patterns : List (List UInt8))
    (hnamed : ∀ ngp ∈ Groups, ngp.Name ≠ none) : matchLoop v mod patterns Groups =
      some (applyRules (patterns.map (⟨·, mod, v⟩)) Groups) := by
  induction patterns generalizing Groups with
  | nil => simp [matchLoop, applyRules]
  | cons p patterns ih =>
    rw [matchLoop, EXPmatch_named p v mod hnamed, Option.bind_some,
      ih (applyRules_named _ hnamed), applyRules_append]
    rfl

/-- The rules of a file are applied in order. -/
theorem readLoop_named (hnamed : ∀ ngp ∈ Groups, ngp.Name ≠ none) :
    (∀ rules, controlRules atof OVnow Groups.length lines saw = some rules →
      readLoop atof OVnow lines saw Groups = some (true, applyRules rules Groups)) ∧
    (controlRules atof OVnow Groups.length lines saw = none →
      ∃ Groups', readLoop atof OVnow lines saw Groups = some (false, Groups')) := by
  induction lines generalizing saw Groups with
  | nil =>
    refine ⟨fun rules h => ?_, nofun⟩
    obtain rfl := Option.some.inj h
    simp [readLoop, applyRules]
  | cons buff lines ih =>
    rw [readLoop, controlRules]
    cases parseLine atof OVnow buff with
    | skip => exact ih hnamed
    | bad => exact ⟨nofun, fun _ => ⟨_, rfl⟩⟩
    | rule groups mod v =>
      simp only
      split
      · exact ⟨nofun, fun _ => ⟨_, rfl⟩⟩
      cases EXPsplit groups 44 Groups.length with
      | none => exact ⟨nofun, fun _ => ⟨_, rfl⟩⟩
      | some patterns =>
        have hrest := @ih (saw || isDefault groups mod) _
          (applyRules_named (patterns.map (⟨·, mod, v⟩)) hnamed)
        rw [length_applyRules] at hrest
        simp only [matchLoop_named v mod patterns hnamed, Option.bind_some]
        constructor
        · intro rules h
          obtain ⟨rest, hrest', rfl⟩ := Option.map_eq_some_iff.mp h
          rw [hrest.1 rest hrest', applyRules_append]
        · intro h
          exact hrest.2 (Option.map_eq_none_iff.mp h)

theorem matchLoop_unnamed (v : Values) (mod : Mod) {patterns : List (List UInt8)}
    (hpatterns : patterns ≠ []) (hno : ∃ ngp ∈ Groups, ngp.Name = none) :
    matchLoop v mod patterns Groups = none := by
  obtain ⟨p, patterns, rfl⟩ := List.exists_cons_of_ne_nil hpatterns
  rw [matchLoop, EXPmatch_unnamed p v mod hno]
  rfl

/-- A record without a name is read, by the first rule that there is. -/
theorem readLoop_unnamed (hno : ∃ ngp ∈ Groups, ngp.Name = none)
    (hrules : controlRules atof OVnow Groups.length lines saw = some rules) :
    readLoop atof OVnow lines saw Groups = if rules = [] then some (true, Groups) else none := by
  induction lines generalizing saw rules with
  | nil =>
    obtain rfl := Option.some.inj hrules
    rfl
  | cons buff lines ih =>
    rw [controlRules] at hrules
    rw [readLoop]
    cases hparse : parseLine atof OVnow buff with
    | skip =>
      rw [hparse] at hrules
      exact ih hrules
    | bad =>
      rw [hparse] at hrules
      cases hrules
    | rule groups mod v =>
      rw [hparse] at hrules
      simp only at hrules ⊢
      split at hrules
      · cases hrules
      rename_i hdefault
      rw [if_neg hdefault]
      cases hsplit : EXPsplit groups 44 Groups.length with
      | none =>
        rw [hsplit] at hrules
        cases hrules
      | some patterns =>
        rw [hsplit] at hrules
        obtain ⟨rest, hrest, rfl⟩ := Option.map_eq_some_iff.mp hrules
        simp only
        by_cases hpatterns : patterns = []
        · subst hpatterns
          exact ih hrest
        · rw [matchLoop_unnamed v mod hpatterns hno, if_neg (by simp [hpatterns])]
          rfl

/-- Records of one group. -/
def SameGroup (ngp ngp' : Record) : Prop := ngp'.Name = ngp.Name ∧ ngp'.Rest = ngp.Rest

theorem SameGroup.isFor {ngp ngp' : Record} (h : SameGroup ngp ngp') (rule : Rule) :
    rule.isFor ngp' = rule.isFor ngp := by
  rw [Rule.isFor, Rule.isFor, h.1, h.2]

theorem exists_of_forall₂ {α β : Type} {R : α → β → Prop} {l : List α} {l' : List β}
    (h : List.Forall₂ R l l') : ∀ a ∈ l, ∃ b ∈ l', R a b := by
  induction h with
  | nil => exact nofun
  | cons hab _ ih =>
    rintro a (_ | ⟨_, ha⟩)
    · exact ⟨_, List.mem_cons_self, hab⟩
    · obtain ⟨b, hb, hab⟩ := ih a ha
      exact ⟨b, List.mem_cons_of_mem _ hb, hab⟩

/-- The groups are the same whatever is in the memory. -/
theorem buildLoop_fresh {i : ℕ} (h : buildLoop fresh i lines = some Groups) :
    ∃ Groups', buildLoop fresh' i lines = some Groups' ∧ List.Forall₂ SameGroup Groups Groups' ∧
      ∀ ngp ∈ Groups', ∃ j, ngp.toValues = fresh' j := by
  induction lines generalizing i Groups with
  | nil =>
    obtain rfl := Option.some.inj h
    exact ⟨[], rfl, .nil, nofun⟩
  | cons line lines ih =>
    rw [buildLoop] at h ⊢
    simp only [Option.bind_eq_bind, Option.bind_eq_some_iff] at h
    obtain ⟨group, hgroup, rest, hrest, h⟩ := h
    obtain rfl := Option.some.inj h
    obtain ⟨rest', hrest', hsame, hvalues⟩ := ih hrest
    rw [hgroup, Option.bind_eq_bind, Option.bind_some, hrest', Option.bind_eq_bind,
      Option.bind_some]
    refine ⟨_, rfl, .cons ⟨rfl, rfl⟩ hsame, fun ngp hngp => ?_⟩
    obtain rfl | hngp := List.mem_cons.mp hngp
    · exact ⟨i, rfl⟩
    · exact hvalues ngp hngp

/-! ## The rule of a group -/

/-- A record as `EXPkeepit` has it. -/
def Record.newsgroup (ngp : Record) : NEWSGROUP where
  Name := ngp.Name.getD []
  Keep := ngp.Keep
  Default := ngp.Default
  Purge := ngp.Purge
  Poison := ngp.Poison

/-- No article expires in the group, whatever the time is. -/
def NeverExpires (ngp : Record) : Prop :=
  ∀ (conf : Config) (Entry : List UInt8) (when expires : ℤ),
    NGfind conf Entry = some ngp.newsgroup → 0 ≤ when → EXPkeepit conf Entry when expires = .Keep

/-- A group `ngp` has its rule in `ngp'`: the last one that is for it, and none expires it where
there is no rule for it. -/
structure Ruled (rules : List Rule) (ngp ngp' : Record) : Prop where
  last : ∀ before rule after, rules = before ++ rule :: after → rule.isFor ngp = true →
    (∀ rule' ∈ after, rule'.isFor ngp = false) → ngp'.toValues = rule.v
  never : (∀ rule ∈ rules, rule.isFor ngp = false) → NeverExpires ngp'

/-- Each group has its rule, whatever is in the memory that the records are put in. -/
def AllRuled (atof : Atof) (OVnow : ℤ) (active file : List UInt8) (rules : List Rule) : Prop :=
  ∀ fresh Groups, BuildGroups fresh active = some Groups →
    ∃ Groups', EXPreadfile atof OVnow file Groups = some (true, Groups') ∧
      List.Forall₂ (fun ngp ngp' => ngp.Name ≠ none → Ruled rules ngp ngp') Groups Groups'

/-- A record that is left with a time in it. -/
def garbage : Values := ⟨1, 1, 1, false⟩

theorem not_neverExpires {ngp : Record} (h : ngp.toValues = garbage) : ¬ NeverExpires ngp := by
  intro hnever
  have hfind : NGfind ⟨0, 0, false, false, false, false, [ngp.newsgroup]⟩ ngp.newsgroup.Name =
      some ngp.newsgroup := by simp [NGfind]
  have hkeep := hnever _ _ 0 0 hfind (Int.le_refl 0)
  have hdefault : ngp.Default = 1 := congrArg Values.Default h
  have hpoison : ngp.Poison = false := congrArg Values.Poison h
  rw [EXPkeepit, hfind] at hkeep
  simp [Record.newsgroup, hdefault, hpoison] at hkeep

/-- What is accepted. -/
theorem EXPreadfile_iff {file : List UInt8} {Groups' : List Record}
    (hrules : controlRules atof OVnow Groups.length (fgetsLines (file.length + 1) file) false =
      some rules) : EXPreadfile atof OVnow file Groups = some (true, Groups') ↔
      (rules = [] ∨ ∀ ngp ∈ Groups, ngp.Name ≠ none) ∧ Groups' = applyRules rules Groups := by
  rw [EXPreadfile]
  by_cases hnamed : ∀ ngp ∈ Groups, ngp.Name ≠ none
  · rw [(readLoop_named hnamed).1 rules hrules]
    constructor
    · intro h
      obtain rfl := (Prod.mk.inj (Option.some.inj h)).2
      exact ⟨.inr hnamed, rfl⟩
    · rintro ⟨-, rfl⟩
      rfl
  · have hno : ∃ ngp ∈ Groups, ngp.Name = none := by simpa using hnamed
    rw [readLoop_unnamed hno hrules]
    by_cases hnil : rules = []
    · subst hnil
      simp [applyRules, eq_comm]
    · rw [if_neg hnil]
      exact iff_of_false nofun fun h => hnamed (h.1.resolve_left hnil)

/-- A group has the last of its rules, and keeps what was in the memory where it has none. -/
theorem ruled_iff (rules : List Rule) (ngp : Record) :
    Ruled rules ngp (rules.foldl (override Rule.isFor Rule.set) ngp) ↔
      (∃ rule ∈ rules, rule.isFor ngp = true) ∨ NeverExpires ngp := by
  have hsame : (∀ rule ∈ rules, rule.isFor ngp = false) →
      rules.foldl (override Rule.isFor Rule.set) ngp = ngp := foldl_override_of_no_rule
  constructor
  · intro hruled
    by_cases hrule : ∃ rule ∈ rules, rule.isFor ngp = true
    · exact .inl hrule
    · have hno : ∀ rule ∈ rules, rule.isFor ngp = false := by simpa using hrule
      exact .inr (hsame hno ▸ hruled.never hno)
  · intro h
    refine ⟨?_, fun hno => ?_⟩
    · rintro before rule after rfl hrule hlast
      rw [rule_overrides.foldl_last hrule hlast]
      rfl
    · rw [hsame hno]
      refine h.resolve_left ?_
      rintro ⟨rule, hmem, hrule⟩
      rw [hno rule hmem] at hrule
      cases hrule

/-- Each group has its documented rule, when there is one for each of them, and no line of the
active file begins with a dot. -/
theorem rules_iff {active file : List UInt8} (hactive : BuildGroups fresh active = some Groups)
    (hrules : controlRules atof OVnow Groups.length (fgetsLines (file.length + 1) file) false =
      some rules) :
    AllRuled atof OVnow active file rules ↔
      (rules = [] ∨ ∀ ngp ∈ Groups, ngp.Name ≠ none) ∧
        ∀ ngp ∈ Groups, ngp.Name ≠ none → ∃ rule ∈ rules, rule.isFor ngp = true := by
  constructor
  · intro hruled
    obtain ⟨Groups', hbuild, hsame, hvalues⟩ :=
      @buildLoop_fresh _ _ fresh (fun _ => garbage) _ hactive
    obtain ⟨Groups'', hread, hall⟩ := hruled _ Groups' hbuild
    rw [hsame.length_eq] at hrules
    obtain ⟨hnamed, rfl⟩ := (EXPreadfile_iff hrules).mp hread
    rw [applyRules, List.forall₂_map_right_iff, List.forall₂_same] at hall
    have hfind : ∀ ngp ∈ Groups, ∃ ngp' ∈ Groups', SameGroup ngp ngp' := exists_of_forall₂ hsame
    refine ⟨hnamed.imp_right fun hnamed ngp hngp => ?_, fun ngp hngp hname => ?_⟩
    · obtain ⟨ngp', hngp', hgroup⟩ := hfind ngp hngp
      rw [← hgroup.1]
      exact hnamed ngp' hngp'
    · obtain ⟨ngp', hngp', hgroup⟩ := hfind ngp hngp
      obtain ⟨j, hgarbage⟩ := hvalues ngp' hngp'
      have hrule := ((ruled_iff rules ngp').mp (hall ngp' hngp' (hgroup.1 ▸ hname))).resolve_right
        (not_neverExpires hgarbage)
      simpa only [hgroup.isFor] using hrule
  · rintro ⟨hnamed, hfor⟩ fresh' Groups' hbuild
    obtain ⟨Groups₁, hbuild₁, hsame, -⟩ := @buildLoop_fresh _ _ fresh fresh' _ hactive
    obtain rfl := Option.some.inj (hbuild₁.symm.trans hbuild)
    have hfind : ∀ ngp' ∈ Groups₁, ∃ ngp ∈ Groups, SameGroup ngp ngp' :=
      exists_of_forall₂ hsame.flip
    rw [hsame.length_eq] at hrules
    refine ⟨_, (EXPreadfile_iff hrules).mpr ⟨hnamed.imp_right fun hnamed ngp' hngp' => ?_, rfl⟩, ?_⟩
    · obtain ⟨ngp, hngp, hgroup⟩ := hfind ngp' hngp'
      rw [hgroup.1]
      exact hnamed ngp hngp
    · rw [applyRules, List.forall₂_map_right_iff, List.forall₂_same]
      intro ngp' hngp' hname
      obtain ⟨ngp, hngp, hgroup⟩ := hfind ngp' hngp'
      obtain ⟨rule, hmem, hrule⟩ := hfor ngp hngp (hgroup.1 ▸ hname)
      exact (ruled_iff rules ngp').mpr (.inl ⟨rule, hmem, (hgroup.isFor rule).trans hrule⟩)

end Rules

/-- Whole days. -/
def wholeDays : Atof where
  magic word := 49710 < decimalValue word
  seconds word := 86400 * decimalValue word

/-- `a 1 1 y` -/
def oneGroup : List UInt8 := [97, 32, 49, 32, 49, 32, 121, 10]

/-- `*:A:1:2:3`, or another flag. -/
def oneRule (flag : UInt8) : List UInt8 := [42, 58, flag, 58, 49, 58, 50, 58, 51, 10]

theorem oneGroup_build (fresh : ℕ → Values) :
    BuildGroups fresh oneGroup = some [{ fresh 0 with Name := some [97], Rest := [121] }] := rfl

theorem oneRule_all : controlRules wholeDays 1000000 1 (fgetsLines 11 (oneRule 65)) false =
    some [⟨[42], .a, ⟨913600, 827200, 740800, false⟩⟩] := by rfl

theorem oneRule_moderated : controlRules wholeDays 1000000 1 (fgetsLines 11 (oneRule 77)) false =
    some [⟨[42], .m, ⟨913600, 827200, 740800, false⟩⟩] := by rfl

theorem oneRule_ruled : AllRuled wholeDays 1000000 oneGroup (oneRule 65)
    [⟨[42], .a, ⟨913600, 827200, 740800, false⟩⟩] :=
  (rules_iff (oneGroup_build fun _ => garbage) oneRule_all).mpr
    ⟨.inr (by simp), by simp [Rule.isFor, patternFor, Mod.isFor, Libinn.Uwildmat.uwildmat]⟩

theorem unmoderated_not_ruled : ¬ ∀ (atof : Atof) (OVnow : ℤ) (active file : List UInt8)
    (fresh : ℕ → Values) (Groups : List Record) (rules : List Rule),
    BuildGroups fresh active = some Groups →
      controlRules atof OVnow Groups.length (fgetsLines (file.length + 1) file) false =
        some rules → AllRuled atof OVnow active file rules := by
  intro h
  have hruled := h wholeDays 1000000 oneGroup (oneRule 77) (fun _ => garbage) _ _
    (oneGroup_build _) oneRule_moderated
  obtain ⟨Groups', hread, hall⟩ := hruled (fun _ => garbage) _ (oneGroup_build _)
  obtain ⟨-, rfl⟩ := (EXPreadfile_iff oneRule_moderated).mp hread
  rw [applyRules, List.forall₂_map_right_iff, List.forall₂_same] at hall
  obtain ⟨rule, hmem, hrule⟩ | hnever :=
    (ruled_iff _ _).mp (hall _ List.mem_cons_self (by simp))
  · obtain rfl := List.mem_singleton.mp hmem
    cases hrule
  · exact not_neverExpires rfl hnever

end Inn.Expire
