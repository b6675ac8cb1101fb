import Inn.Rules
import Inn.Nnrpd.Permissions

/-!
# Inn.Nnrpd.Rights — the rights in force are those of the access group that applies

`rights_exact`: in every run whose calls of `PERMgetpermissions` are `Settled`, GROUP and POST
allow only what the access group that applies allows, and no null list of access groups is
followed. `Settled` leaves out two defects: when no access group applies the rights in force
before stay in force, and the post list is looked at only where there is a read list that is
not empty.

* `accessGroup` — the access group that applies, and `selectGroup_strip`, which says that the
  loop of `PERMgetpermissions` finds it;
* `Lawful` — the invariant; `Lawful.of_permissions`.
-/

namespace Inn.Nnrpd

open Inn.Innd

variable (conf : Readers)

/-! ## The access group that applies -/

/-- An access group has the key of the auth group, and its users the identity: every identity
if none are given. -/
def applies (auth : AUTHGROUP) (user : List UInt8) (group : ACCESSGROUP) : Bool :=
  group.key == auth.key && group.users.all fun users =>
    !user.isEmpty && PERMmatch conf.uwildmat (NGgetlist users) [user]

/-- The last access group of the file that applies to the identity in force. -/
def accessGroup (s : Perms) : Option ACCESSGROUP :=
  s.success_auth.bind fun auth =>
    ((conf.access_realms.getD []).filter (applies conf auth s.PERMuser)).getLast?

variable {conf}

theorem sameKey_eq (group : ACCESSGROUP) (auth : AUTHGROUP) :
    sameKey group auth = (group.key == auth.key) := by
  unfold sameKey
  cases group.key <;> cases auth.key <;> simp

theorem selectGroup_eq (auth : AUTHGROUP) (user : List UInt8) (groups : List ACCESSGROUP) :
    selectGroup conf auth user groups = groups.find? (applies conf auth user) := by
  induction groups with
  | nil => rfl
  | cons group groups ih =>
    unfold selectGroup applies
    rw [List.find?_cons, sameKey_eq]
    cases hkey : group.key == auth.key with
    | false =>
      rw [Bool.false_and]
      exact ih
    | true =>
      rw [Bool.true_and, if_pos rfl]
      cases group.users with
      | none => rfl
      | some users =>
        rw [Option.all_some]
        cases user with
        | nil => exact ih
        | cons c user =>
          simp only [reduceCtorEq, if_false, List.isEmpty_cons, Bool.not_false, Bool.true_and]
          split
          · next hmatch => rw [hmatch]
          · next hmatch =>
            rw [Bool.eq_false_iff.mpr hmatch]
            exact ih

/-- The loop finds the access group that applies: none of those that were stripped does. -/
theorem selectGroup_strip {s : Perms} {auth : AUTHGROUP} {groups : List ACCESSGROUP}
    (hauth : s.success_auth = some auth) (hmem : auth ∈ conf.auth_realms)
    (hstrip : strip_accessgroups conf = some groups) :
    selectGroup conf auth s.PERMuser groups.reverse = accessGroup conf s := by
  obtain ⟨file, hfile, rfl⟩ := Option.map_eq_some_iff.mp hstrip
  have hused : ∀ group ∈ file, (applies conf auth s.PERMuser group &&
      conf.auth_realms.any (sameKey group)) = applies conf auth s.PERMuser group := by
    intro group _
    cases happ : applies conf auth s.PERMuser group with
    | false => rfl
    | true =>
      rw [Bool.true_and]
      refine List.any_eq_true.mpr ⟨auth, hmem, ?_⟩
      rw [sameKey_eq]
      exact (Bool.and_eq_true_iff.mp happ).1
  unfold accessGroup
  rw [hauth, hfile, selectGroup_eq, Option.bind_some, Option.getD_some, ← List.head?_filter,
    List.filter_reverse, List.head?_reverse, List.filter_filter, List.filter_congr hused]

/-! ## PERMgetpermissions -/

namespace Perms

/-- What GROUP looks at. -/
def Reads (conf : Readers) (s : Perms) (g : List UInt8) : Prop :=
  s.PERMcanread = true ∧ s.PERMspecified = true ∧ PERMmatch conf.uwildmat s.PERMreadlist [g] = true

/-- What POST looks at. -/
def Posts (conf : Readers) (s : Perms) (g : List UInt8) : Prop :=
  s.PERMcanpost = true ∧
    (s.PERMspecified = true → PERMmatch conf.uwildmat s.PERMpostlist [g] = true)

end Perms

/-- The access group that applies has a read list that matches. -/
def Readable (conf : Readers) (s : Perms) (g : List UInt8) : Prop :=
  ∃ group list, accessGroup conf s = some group ∧ group.read = some list ∧
    PERMmatch conf.uwildmat (NGgetlist list) [g] = true

/-- The access group that applies has a post list that matches. -/
def Postable (conf : Readers) (s : Perms) (g : List UInt8) : Prop :=
  ∃ group list, accessGroup conf s = some group ∧ group.post = some list ∧
    PERMmatch conf.uwildmat (NGgetlist list) [g] = true

/-- Authentication is needed, or the rights in force are rights of the access group. -/
def Within (conf : Readers) (s : Perms) : Prop :=
  s.PERMneedauth = true ∨
    ∀ g, (s.Reads conf g → Readable conf s g) ∧ (s.Posts conf g → Postable conf s g)

/-- `PERMspecified` once an access group is in force. -/
def specifiedBy (s : Perms) (group : ACCESSGROUP) : Bool :=
  group.read.elim s.PERMspecified fun list => !(NGgetlist list).isEmpty

/-- Authentication is needed, or: if no access group applies nothing was allowed before, and
the post list of one that applies will be looked at, or matches every group. -/
def Settled (conf : Readers) (s : Perms) : Prop :=
  s.PERMneedauth = true ∨
    (accessGroup conf s = none → ∀ g, ¬ s.Reads conf g ∧ ¬ s.Posts conf g) ∧
    ∀ group list, accessGroup conf s = some group → group.post = some list →
      specifiedBy s group = true ∨ ∀ g, PERMmatch conf.uwildmat (NGgetlist list) [g] = true

/-- The auth group in force is one of those that were read. -/
def Known (conf : Readers) (s : Perms) : Prop := ∀ auth ∈ s.success_auth, auth ∈ conf.auth_realms

section Permissions

variable {s s' : Perms} {group : ACCESSGROUP}

theorem setGroup_same : (s.setGroup group).PERMuser = s.PERMuser ∧
    (s.setGroup group).success_auth = s.success_auth ∧
    (s.setGroup group).PERMneedauth = s.PERMneedauth := by
  unfold Perms.setGroup
  cases group.read <;> cases group.post <;> exact ⟨rfl, rfl, rfl⟩

/-- What `PERMgetpermissions` does. -/
theorem getpermissions_cases (hknown : Known conf s) (h : s.PERMgetpermissions conf = .ok s') :
    (accessGroup conf s = none ∧ s' = s) ∨
      ∃ group, accessGroup conf s = some group ∧ s' = s.setGroup group := by
  unfold Perms.PERMgetpermissions at h
  cases hauth : s.success_auth with
  | none =>
    rw [hauth] at h
    refine .inl ⟨?_, (Except.ok.inj h).symm⟩
    unfold accessGroup
    rw [hauth]
    rfl
  | some auth =>
    rw [hauth] at h
    cases hstrip : strip_accessgroups conf with
    | none =>
      rw [hstrip] at h
      cases h
    | some groups =>
      rw [hstrip] at h
      simp only [selectGroup_strip hauth (hknown auth hauth) hstrip] at h
      cases hgroup : accessGroup conf s with
      | none =>
        rw [hgroup] at h
        exact .inl ⟨rfl, (Except.ok.inj h).symm⟩
      | some group =>
        rw [hgroup] at h
        simp only at h
        split at h
        · cases h
        · exact .inr ⟨group, rfl, (Except.ok.inj h).symm⟩

/-- No null list is followed if there is an access group. -/
theorem getpermissions_ne_null (hfile : conf.access_realms ≠ none) :
    s.PERMgetpermissions conf ≠ .error .null := by
  unfold Perms.PERMgetpermissions
  split
  · exact fun h => by cases h
  · split
    · next hstrip => exact absurd (Option.map_eq_none_iff.mp hstrip) hfile
    · split
      · exact fun h => by cases h
      · split <;> exact fun h => by cases h

theorem accessGroup_congr (huser : s'.PERMuser = s.PERMuser) (hauth : s'.success_auth = s.success_auth) :
    accessGroup conf s' = accessGroup conf s := by
  unfold accessGroup
  rw [huser, hauth]

theorem setGroup_reads {g : List UInt8} (h : (s.setGroup group).Reads conf g) :
    ∃ list, group.read = some list ∧ PERMmatch conf.uwildmat (NGgetlist list) [g] = true := by
  obtain ⟨hcan, hspec, hmatch⟩ := h
  unfold Perms.setGroup at hcan hmatch
  cases hread : group.read with
  | none =>
    rw [hread] at hcan
    cases hpost : group.post <;> rw [hpost] at hcan <;> cases hcan
  | some list =>
    rw [hread] at hmatch
    refine ⟨list, rfl, ?_⟩
    cases hpost : group.post <;> rw [hpost] at hmatch <;> exact hmatch

theorem setGroup_posts {g : List UInt8} (h : (s.setGroup group).Posts conf g) :
    ∃ list, group.post = some list ∧
      (specifiedBy s group = true → PERMmatch conf.uwildmat (NGgetlist list) [g] = true) := by
  obtain ⟨hcan, hmatch⟩ := h
  unfold Perms.setGroup at hcan hmatch
  cases hpost : group.post with
  | none =>
    rw [hpost] at hcan
    cases hread : group.read <;> rw [hread] at hcan <;> cases hcan
  | some list =>
    rw [hpost] at hmatch
    refine ⟨list, rfl, fun hspec => hmatch ?_⟩
    unfold specifiedBy at hspec
    cases hread : group.read <;> rw [hread] at hspec <;> exact hspec

/-- After a settled call the rights in force are those of the access group. -/
theorem Within.of_permissions (hknown : Known conf s) (hsettled : Settled conf s)
    (h : s.PERMgetpermissions conf = .ok s') : Known conf s' ∧ Within conf s' := by
  rcases getpermissions_cases hknown h with ⟨hnone, rfl⟩ | ⟨group, hgroup, rfl⟩
  · refine ⟨hknown, ?_⟩
    rcases hsettled with hneed | ⟨hnothing, -⟩
    · exact .inl hneed
    · exact .inr fun g => ⟨fun hr => absurd hr (hnothing hnone g).1,
        fun hp => absurd hp (hnothing hnone g).2⟩
  · obtain ⟨huser, hauth, hneed⟩ := @setGroup_same s group
    have hsame := (@accessGroup_congr conf _ _ huser hauth).trans hgroup
    refine ⟨fun auth h => hknown auth (hauth ▸ h), ?_⟩
    rcases hsettled with hneed' | ⟨-, hpost⟩
    · exact .inl (hneed.trans hneed')
    · refine .inr fun g => ⟨fun hr => ?_, fun hp => ?_⟩
      · obtain ⟨list, hlist, hmatch⟩ := setGroup_reads hr
        exact ⟨group, list, hsame, hlist, hmatch⟩
      · obtain ⟨list, hlist, hmatch⟩ := setGroup_posts hp
        refine ⟨group, list, hsame, hlist, ?_⟩
        rcases hpost group list hgroup hlist with hspec | hall
        · exact hmatch hspec
        · exact hall g

end Permissions

/-! ## Users -/

section Users

variable {s : Perms} {answers : Answers}

theorem mem_of_findSome {β : Type*} {f : AUTHGROUP × ℕ → Option β} {b : β} {realms : List AUTHGROUP}
    (h : realms.zipIdx.reverse.findSome? f = some b) : ∃ realm, realm.1 ∈ realms ∧ f realm = some b := by
  obtain ⟨realm, hmem, hf⟩ := List.exists_of_findSome?_eq_some h
  exact ⟨realm, List.fst_mem_of_mem_zipIdx (List.mem_reverse.mp hmem), hf⟩

theorem resolve_mem {auth : AUTHGROUP} {uname : List UInt8} {resolved : Bool}
    (h : s.resolve conf answers = some (auth, uname, resolved)) : auth ∈ conf.auth_realms := by
  obtain ⟨realm, hmem, hf⟩ := mem_of_findSome h
  suffices hauth : realm.1 = auth from hauth ▸ hmem
  unfold Perms.resolveRealm at hf
  split at hf
  · cases hf
  · split at hf
    · exact congrArg Prod.fst (Option.some.inj hf)
    · obtain ⟨uname, -, heq⟩ := Option.map_eq_some_iff.mp hf
      exact congrArg Prod.fst heq

theorem authenticate_mem {auth : AUTHGROUP} {uname : List UInt8}
    (h : s.authenticate conf answers = some (auth, uname)) : auth ∈ conf.auth_realms := by
  obtain ⟨realm, hmem, hf⟩ := mem_of_findSome h
  obtain ⟨uname, -, heq⟩ := Option.map_eq_some_iff.mp hf
  have hauth : realm.1 = auth := congrArg Prod.fst heq
  exact hauth ▸ hmem

theorem Known.getaccess (hknown : Known conf s) : Known conf (s.PERMgetaccess conf answers) := by
  unfold Perms.PERMgetaccess
  split
  · next auth uname resolved hresolve =>
    intro auth' hauth
    cases hauth
    exact resolve_mem hresolve
  · exact hknown

theorem Known.login (hknown : Known conf s) : Known conf (s.PERMlogin conf answers) := by
  unfold Perms.PERMlogin
  split
  · next auth uname hfound =>
    intro auth' hauth
    cases hauth
    exact authenticate_mem hfound
  · exact hknown

theorem Known.initial {encrypted : Bool} (h : Perms.initial conf encrypted answers = .ok s) :
    Known conf s := by
  have hnew : Known conf { Perms.PERMgetinitialaccess conf with encryption_layer_on := encrypted } :=
    fun auth hauth => by cases hauth
  have haccess := @Known.getaccess conf _ answers hnew
  unfold Perms.initial at h
  split at h
  · cases h
  simp only at h
  split at h
  · cases h
  split at h
  · cases h
  · cases h
    unfold Perms.greet
    split <;> exact haccess

theorem Known.identify (hknown : Known conf s) {command : Auth} {t : Perms}
    (h : s.identify conf command = some t) : Known conf t := by
  cases command with
  | starttls answers =>
    unfold Perms.identify at h
    simp only at h
    split at h
    · cases h
    · cases h
      exact Known.getaccess hknown
  | user name => cases h
  | pass answers =>
    unfold Perms.identify at h
    simp only at h
    split at h
    · cases h
    · cases h
      exact Known.login hknown

end Users

/-! ## Runs -/

/-- What a session consists of. -/
inductive Event where
  | connect (encrypted : Bool) (answers : Answers)
  | auth (command : Auth)
  | group (found : Bool) (g : List UInt8)
  | post (post : Posting) (value : List UInt8)

section Runs

variable (conf)

/-- What an event does to the globals, if it can happen: before the client connects there are
none. -/
def happen : Option Perms → Event → Option (Except End Perms)
  | none, .connect encrypted answers => some (Perms.connect conf encrypted answers)
  | some s, .auth command => some (s.take conf command)
  | some s, .group _ _ => some (.ok s)
  | some s, .post _ _ => some (.ok s)
  | _, _ => none

/-- The state in which `PERMgetpermissions` is called. -/
def called : Option Perms → Event → Option Perms
  | none, .connect encrypted answers => (Perms.initial conf encrypted answers).toOption
  | some s, .auth command => s.identify conf command
  | _, _ => none

/-- A step of a session. -/
def Happens (s : Option Perms) (event : Event) (s' : Option Perms) : Prop :=
  ∃ t, happen conf s event = some (.ok t) ∧ s' = some t

/-- There is an access group, and the call of `PERMgetpermissions` is settled. -/
def Sound (s : Option Perms) (event : Event) : Prop :=
  conf.access_realms ≠ none ∧ ∀ t ∈ called conf s event, Settled conf t

/-- GROUP and POST allow only what the access group that applies allows. -/
structure Rightful (s : Perms) : Prop where
  group : ∀ found g, s.GROUP conf found g = 211 → Readable conf s g
  post : ∀ post value outcome, s.POST conf post value = some outcome →
    (∀ text, outcome ≠ .rejected text) → ∀ p ∈ groupTokens (HDR value), Postable conf s (groupName post p)

variable {conf} {s : Perms}

theorem reads_of_GROUP {found : Bool} {g : List UInt8} (h : s.GROUP conf found g = 211) :
    s.PERMneedauth = false ∧ s.Reads conf g := by
  have hdenied : (if s.PERMcanauthenticate = true then 480 else 502) ≠ 211 := by
    split <;> decide
  unfold Perms.GROUP at h
  simp only at h
  split at h
  · cases h
  split at h
  · exact absurd h hdenied
  split at h
  · cases h
  split at h
  · next hneed hcan _ hand =>
    obtain ⟨hspec, hmatch⟩ := Bool.and_eq_true_iff.mp hand
    exact ⟨Bool.eq_false_iff.mpr hneed, by simpa using hcan, hspec, hmatch⟩
  · exact absurd h hdenied

theorem posts_of_POST {post : Posting} {value : List UInt8} {outcome : Posted}
    (h : s.POST conf post value = some outcome) (hpassed : ∀ text, outcome ≠ .rejected text) :
    s.PERMneedauth = false ∧ ∀ p ∈ groupTokens (HDR value), s.Posts conf (groupName post p) := by
  unfold Perms.POST at h
  split at h
  · cases h
  · next hcond =>
    obtain ⟨hneed, hcan⟩ := not_or.mp fun hor => hcond (Bool.or_eq_true_iff.mpr hor)
    have houtcome := Option.some.inj h
    rw [← houtcome] at hpassed
    refine ⟨Bool.eq_false_iff.mpr hneed, fun p hp => ⟨by simpa using hcan, fun hspec => ?_⟩⟩
    exact ARTpost_permitted hpassed p hp hspec

theorem Within.rightful (h : Within conf s) : Rightful conf s := by
  constructor
  · intro found g hgroup
    obtain ⟨hneed, hreads⟩ := reads_of_GROUP hgroup
    rcases h with hneed' | h
    · exact absurd (hneed.symm.trans hneed') Bool.false_ne_true
    · exact (h g).1 hreads
  · intro post value outcome hpost hpassed p hp
    obtain ⟨hneed, hposts⟩ := posts_of_POST hpost hpassed
    rcases h with hneed' | h
    · exact absurd (hneed.symm.trans hneed') Bool.false_ne_true
    · exact (h _).2 (hposts p hp)

/-- A state with the same identity and rights. -/
theorem Within.same {t : Perms} (h : Within conf s) (hgroup : accessGroup conf t = accessGroup conf s)
    (hneed : t.PERMneedauth = s.PERMneedauth) (hreads : ∀ g, t.Reads conf g → s.Reads conf g)
    (hposts : ∀ g, t.Posts conf g → s.Posts conf g) : Within conf t := by
  rcases h with h | h
  · exact .inl (hneed.trans h)
  · refine .inr fun g => ⟨fun hr => ?_, fun hp => ?_⟩
    · unfold Readable
      rw [hgroup]
      exact (h g).1 (hreads g hr)
    · unfold Postable
      rw [hgroup]
      exact (h g).2 (hposts g hp)

theorem Within.authenticated (hknown : Known conf s) (h : Within conf s) :
    Known conf s.authenticated ∧ Within conf s.authenticated := by
  unfold Perms.authenticated
  split
  · exact ⟨hknown, h⟩
  · exact ⟨hknown, h.same rfl rfl (fun _ hr => hr) fun _ hp => hp⟩

theorem Within.connect {encrypted : Bool} {answers : Answers}
    (hsettled : ∀ t ∈ (Perms.initial conf encrypted answers).toOption, Settled conf t)
    (h : Perms.connect conf encrypted answers = .ok s) : Known conf s ∧ Within conf s := by
  unfold Perms.connect at h
  cases hinitial : Perms.initial conf encrypted answers with
  | error e =>
    rw [hinitial] at h
    cases h
  | ok t =>
    have hsettled := hsettled t (by rw [hinitial]; rfl)
    rw [hinitial] at h
    change (t.PERMgetpermissions conf >>= _) = _ at h
    cases hperms : t.PERMgetpermissions conf with
    | error e =>
      rw [hperms] at h
      cases h
    | ok t' =>
      rw [hperms] at h
      change (if _ then _ else _) = _ at h
      split at h
      · cases h
      · cases h
        exact Within.of_permissions (Known.initial hinitial) hsettled hperms

theorem Within.take {s' : Perms} {command : Auth} (hknown : Known conf s) (hwithin : Within conf s)
    (hsettled : ∀ t ∈ s.identify conf command, Settled conf t) (h : s.take conf command = .ok s') :
    Known conf s' ∧ Within conf s' := by
  unfold Perms.take at h
  cases hident : s.identify conf command with
  | none =>
    rw [hident] at h
    cases command with
    | starttls answers =>
      cases h
      exact ⟨hknown, hwithin⟩
    | user name =>
      simp only at h
      split at h
      · cases h
        exact ⟨hknown, hwithin⟩
      · cases h
        exact ⟨hknown, hwithin.same rfl rfl (fun _ hr => hr) fun _ hp => hp⟩
    | pass answers =>
      cases h
      exact ⟨hknown, hwithin⟩
  | some t =>
    have hcall := hsettled t hident
    have ht := hknown.identify hident
    rw [hident] at h
    cases command with
    | starttls answers => exact Within.of_permissions ht hcall h
    | user name => cases hident
    | pass answers =>
      simp only at h
      cases hperms : t.PERMgetpermissions conf with
      | error e =>
        rw [hperms] at h
        cases h
      | ok t' =>
        rw [hperms] at h
        cases h
        obtain ⟨hknown', hwithin'⟩ := Within.of_permissions ht hcall hperms
        exact Within.authenticated hknown' hwithin'

theorem Within.next {s s' : Option Perms} {event : Event} (hsound : Sound conf s event)
    (hnext : Happens conf s event s') (h : ∀ t ∈ s, Known conf t ∧ Within conf t) :
    ∀ t ∈ s', Known conf t ∧ Within conf t := by
  obtain ⟨t, hhappen, rfl⟩ := hnext
  intro t' ht'
  cases ht'
  cases s with
  | none =>
    cases event with
    | connect encrypted answers => exact Within.connect hsound.2 (Option.some.inj hhappen)
    | auth command => cases hhappen
    | group found g => cases hhappen
    | post post value => cases hhappen
  | some s =>
    obtain ⟨hknown, hwithin⟩ := h s rfl
    cases event with
    | connect encrypted answers => cases hhappen
    | auth command => exact hwithin.take hknown hsound.2 (Option.some.inj hhappen)
    | group found g =>
      cases hhappen
      exact ⟨hknown, hwithin⟩
    | post post value =>
      cases hhappen
      exact ⟨hknown, hwithin⟩

/-- No event follows a null list. -/
theorem happen_ne_null {s : Option Perms} {event : Event} (hfile : conf.access_realms ≠ none) :
    happen conf s event ≠ some (.error .null) := by
  have hstrip : strip_accessgroups conf ≠ none := fun h => hfile (Option.map_eq_none_iff.mp h)
  have hinitial : ∀ encrypted answers, Perms.initial conf encrypted answers ≠ .error .null := by
    intro encrypted answers h
    unfold Perms.initial at h
    split at h
    · cases h
    simp only at h
    split at h
    · cases h
    split at h
    · next hnone => exact hstrip hnone
    · cases h
  intro h
  cases s with
  | none =>
    cases event with
    | connect encrypted answers =>
      have h := Option.some.inj h
      unfold Perms.connect at h
      cases hi : Perms.initial conf encrypted answers with
      | error e =>
        rw [hi] at h
        cases h
        exact hinitial _ _ hi
      | ok t =>
        rw [hi] at h
        change (t.PERMgetpermissions conf >>= _) = _ at h
        cases hperms : t.PERMgetpermissions conf with
        | error e =>
          rw [hperms] at h
          cases h
          exact getpermissions_ne_null hfile hperms
        | ok t' =>
          rw [hperms] at h
          change (if _ then _ else _) = _ at h
          split at h <;> cases h
    | auth command => cases h
    | group found g => cases h
    | post post value => cases h
  | some s =>
    cases event with
    | connect encrypted answers => cases h
    | auth command =>
      have h := Option.some.inj h
      unfold Perms.take at h
      cases hi : s.identify conf command with
      | none =>
        rw [hi] at h
        cases command with
        | starttls answers => cases h
        | user name =>
          simp only at h
          split at h <;> cases h
        | pass answers => cases h
      | some t =>
        rw [hi] at h
        cases command with
        | starttls answers => exact getpermissions_ne_null hfile h
        | user name => cases hi
        | pass answers =>
          simp only at h
          cases hperms : t.PERMgetpermissions conf with
          | error e =>
            rw [hperms] at h
            cases h
            exact getpermissions_ne_null hfile hperms
          | ok t' =>
            rw [hperms] at h
            cases h
    | group found g => cases h
    | post post value => cases h

/-- In every run whose calls are settled, the rights in force are those of the access group that
applies. -/
theorem rights_exact {events : List Event} {s : Option Perms}
    (hrun : Steps (guarded (Sound conf) (Happens conf)) none events s) :
    (∀ t ∈ s, Rightful conf t) ∧
      ∀ event, Sound conf s event → happen conf s event ≠ some (.error .null) := by
  have hinv : ∀ t ∈ s, Known conf t ∧ Within conf t := by
    refine @Steps.invariant _ _ _ (fun s => ∀ t ∈ s, Known conf t ∧ Within conf t) _ _ _ ?_ hrun
      fun t ht => by cases ht
    rintro s event s' ⟨hsound, hnext⟩ h
    exact Within.next hsound hnext h
  exact ⟨fun t ht => (hinv t ht).2.rightful, fun event hsound => happen_ne_null hsound.1⟩

/-- An auth group with an authenticator, or with a default user. -/
def authGroup (default_user : Option (List UInt8)) : AUTHGROUP :=
  ⟨none, false, false, true, default_user, none⟩

/-- An access group for the users of a name. -/
def accessFor (user : String) : ACCESSGROUP :=
  ⟨none, some (octets user), some (octets "*"), some (octets "a.*"), none, false⟩

/-- One auth group and one access group, for `joe`. -/
def joesReaders (default_user : Option (List UInt8)) : Readers where
  auth_realms := [authGroup default_user]
  access_realms := some [accessFor "joe"]
  HAVE_SASL := false
  uwildmat text pat := text == pat || pat == octets "*" || pat == octets "a.*" && (octets "a.").isPrefixOf text

/-- A client that is not known by its host logs in. -/
def loginEvents : List Event := [.connect false fun _ => none, .auth (.user (octets "joe")),
  .auth (.pass fun _ => some (octets "joe")), .group true (octets "b.c")]

theorem sound_snoc {events : List Event} {s : Option Perms} (event : Event) {t : Perms}
    (hrun : Steps (guarded (Sound conf) (Happens conf)) none events s)
    (hhappen : happen conf s event = some (.ok t)) (hsound : Sound conf s event) :
    Steps (guarded (Sound conf) (Happens conf)) none (events ++ [event]) (some t) :=
  hrun.snoc ⟨hsound, t, hhappen, rfl⟩

theorem rights_exact_login : ∃ s,
    Steps (guarded (Sound (joesReaders none)) (Happens (joesReaders none))) none loginEvents (some s) ∧
      s.GROUP (joesReaders none) true (octets "b.c") = 211 ∧ Rightful (joesReaders none) s := by
  have hfile : (joesReaders none).access_realms ≠ none := Option.some_ne_none _
  have h₀ : Steps (guarded (Sound (joesReaders none)) (Happens (joesReaders none))) none [] none := .nil
  have h₁ := sound_snoc (.connect false fun _ => none) h₀ rfl
    ⟨hfile, fun t ht => .inl (by cases ht; rfl)⟩
  have h₂ := sound_snoc (.auth (.user (octets "joe"))) h₁ rfl ⟨hfile, fun t ht => by cases ht⟩
  have h₃ := sound_snoc (.auth (.pass fun _ => some (octets "joe"))) h₂ rfl
    ⟨hfile, fun t ht => .inr (by
      cases ht
      refine ⟨fun hnone => absurd hnone (by decide), fun group list hgroup hlist => .inl ?_⟩
      cases hgroup
      decide)⟩
  have hrun := sound_snoc (.group true (octets "b.c")) h₃ rfl ⟨hfile, fun t ht => by cases ht⟩
  exact ⟨_, hrun, by decide, (rights_exact hrun).1 _ rfl⟩

/-- A client that is known by its host, and to which no access group applies. -/
def strangerEvents : List Event := [.connect false fun _ => none]

/-- It may post everywhere, because another one may post somewhere. -/
theorem stranger_posts : ¬ ∀ (conf : Readers) (events : List Event) (s : Option Perms),
    Steps (Happens conf) none events s → (∀ t ∈ s, Rightful conf t) ∧
      ∀ event, happen conf s event ≠ some (.error .null) := by
  intro hall
  have hstep : Happens (joesReaders (some (octets "guest"))) none (.connect false fun _ => none) _ :=
    ⟨_, rfl, rfl⟩
  have hrightful := (hall _ strangerEvents _ (.single hstep)).1 _ rfl
  obtain ⟨group, list, hgroup, -⟩ := hrightful.post publicPosting (octets " c") _ rfl
    (fun text h => by cases h) (octets "c") (by decide)
  have hnone : some group = none := hgroup.symm.trans rfl
  exact absurd hnone (Option.some_ne_none group)

end Runs

end Inn.Nnrpd
