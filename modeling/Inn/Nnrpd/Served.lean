import Inn.Nnrpd.Current
import Inn.Rules

/-!
# Inn.Nnrpd.Served — the current group is consistent and authorised

* `Consistent` — the marks and the number are those of the current group;
* `Good` — a step: an error of GROUP leaves them alone, what is served by number is permitted,
  and no byte from before a security layer is taken as a command;
* `served_good` — both hold in every run of `Meets`: the search of GROUP for an NFS reader can
  be opened, and AUTHINFO SASL leaves neither bytes nor a group that the new permissions
  refuse. They do not without that.
-/

namespace Inn.Nnrpd.Current

open Inn.Innd (octets)
open Inn.Nnrpd.Submit (toInt)

/-! ## What is to hold -/

/-- The marks and the article number were obtained for the current group. -/
structure Consistent (s : Client) : Prop where
  low : ∀ g, s.GRPcur = some g → s.ARTlow.group = some g
  high : ∀ g, s.GRPcur = some g → s.ARThigh.group = some g
  number : ∀ g, s.GRPcur = some g → s.ARTnumber.group = some g

/-- The commands that select a group. -/
def Command.IsGroup : Command → Prop
  | .group _ _ => True
  | .listgroup _ _ _ => True
  | _ => False

/-- A command that is taken at `s`, and leaves `s'`. -/
structure Good (conf : Setup) (s s' : Client) (size : ℕ) (command : Command) (answer : Answer) :
    Prop where
  kept : command.IsGroup → 400 ≤ answer.code → s'.GRPcur = s.GRPcur ∧ s'.ARTlow = s.ARTlow ∧
    s'.ARThigh = s.ARThigh ∧ s'.ARTnumber = s.ARTnumber
  permitted : ∀ g, answer.served = some g → s.perms.GROUP conf.readers true g = 211
  layered : ∀ byte ∈ s.buffer.take size, byte.1 = s.layer

/-! ## The condition -/

/-- GROUP gets to its search for an NFS reader. -/
def Searches (conf : Setup) (s : Client) (group : List UInt8) (asked : Asked) : Prop :=
  allowed conf s.perms group ∧ conf.nfsreader ∧ ∃ stats ∈ asked.stats, asked.counted stats.2.2 ≠ 0

instance (conf : Setup) (s : Client) (group : List UInt8) (asked : Asked) :
    Decidable (Searches conf s group asked) := inferInstanceAs (Decidable (_ ∧ _ ∧ _))

/-- The permissions let the current group be read, or nothing at all. -/
def Fits (conf : Setup) (s : Client) (perms : Perms) : Prop :=
  s.PERMgroupmadeinvalid ∨ (∀ g ∈ s.GRPcur, allowed conf perms g) ∨
    (perms.PERMcanread = false ∧ perms.PERMcanpost = false)

instance (conf : Setup) (s : Client) (perms : Perms) : Decidable (Fits conf s perms) :=
  inferInstanceAs (Decidable (_ ∨ _ ∨ _))

/-- The condition on a command, after its line has been taken. -/
def MeetsCommand (conf : Setup) (s : Client) : Command → Prop
  | .group name asked => Searches conf s name asked → asked.search ≠ none
  | .sasl plain taken (.ends canon_user sasl_ssf) answers =>
    saslRefused conf s plain = none →
      (0 < sasl_ssf → s.buffer.drop taken = [] ∨ (1 < sasl_ssf ∧ s.GRPcur ≠ none)) ∧
      (sasl_ssf ≤ 1 →
        match saslPerms conf s.perms canon_user sasl_ssf answers with
        | .error _ => True
        | .ok perms => Fits conf s perms)
  | _ => True

instance (conf : Setup) (s : Client) (command : Command) :
    Decidable (MeetsCommand conf s command) :=
  match command with
  | .group name asked =>
    inferInstanceAs (Decidable (Searches conf s name asked → asked.search ≠ none))
  | .sasl _ _ (.ends canon_user sasl_ssf) answers =>
    @instDecidableForall _ _ _ (@instDecidableAnd _ _ _ (@instDecidableForall _ _ _
      (match saslPerms conf s.perms canon_user sasl_ssf answers with
        | .error _ => instDecidableTrue
        | .ok perms => inferInstanceAs (Decidable (Fits conf s perms)))))
  | .sasl _ _ (.fails _) _ | .listgroup _ _ _ | .fetch _ _ _ | .nextlast _ _ | .overview _ _ _
  | .hdr _ _ _ _ _ _ | .starttls _ _ | .user _ | .pass _ => instDecidableTrue

/-- The condition on a step. -/
def Meets (conf : Setup) (s : Client) : Event → Prop
  | .receive _ => True
  | .command size command => MeetsCommand conf { s with buffer := s.buffer.drop size } command

instance (conf : Setup) (s : Client) (event : Event) : Decidable (Meets conf s event) := by
  cases event <;> unfold Meets <;> infer_instance

/-! ## The invariant -/

/-- With a group, the client has still to authenticate, or the group is invalid, or it is
permitted; all that was received came through the layer that is there now. -/
structure Inv (conf : Setup) (s : Client) : Prop where
  consistent : Consistent s
  rights : ∀ g, s.GRPcur = some g → s.perms.PERMneedauth ∨ s.PERMgroupmadeinvalid ∨
    allowed conf s.perms g ∨ (s.perms.PERMcanread = false ∧ s.perms.PERMcanpost = false)
  buffer : ∀ byte ∈ s.buffer, byte.1 = s.layer
  bound : s.ARThigh.value ≤ maxArtnum

/-- A command that reads leaves everything but the article number, and serves the current
group to a client that may read it. -/
structure Reads (s : Client) (r : Client × Answer) : Prop where
  kept : r.1 = { s with ARTnumber := r.1.ARTnumber }
  number : r.1.ARTnumber.group = s.ARTnumber.group ∨ r.1.ARTnumber.group = s.GRPcur
  served : ∀ g, r.2.served = some g → s.GRPcur = some g ∧ s.PERMgroupmadeinvalid = false ∧
    (s.perms.PERMcanread ∨ s.perms.PERMcanpost)

section
variable {conf : Setup} {s : Client}

theorem Reads.refused (code : ℕ) : Reads s (s, { code := code }) :=
  ⟨rfl, .inl rfl, fun _ h => by cases h⟩

theorem fetchNumber_reads {what : What} {given : Bool} {tart : ℕ} {opened : Opened}
    (hvalid : s.PERMgroupmadeinvalid = false)
    (hok : s.perms.PERMcanread ∨ s.perms.PERMcanpost) :
    Reads s (fetchNumber s what given tart opened) := by
  unfold fetchNumber
  split
  · exact .refused _
  · refine ⟨?_, ?_, fun g hg => ⟨hg, hvalid, hok⟩⟩
    · cases given <;> rfl
    · cases given
      · exact .inl rfl
      · exact .inr rfl

theorem CMDfetch_reads (what : What) (which : Which) (opened : Opened) :
    Reads s (CMDfetch s what which opened) := by
  unfold CMDfetch
  dsimp only
  split
  · exact .refused _
  split
  · exact .refused _
  split
  · exact .refused _
  rename_i hperm
  simp only [Bool.or_eq_true, Bool.and_eq_true, Bool.not_eq_true', not_or, not_and,
    Bool.not_eq_true, Bool.not_eq_false] at hperm
  have hok : s.perms.PERMcanread ∨ s.perms.PERMcanpost := hperm.1.imp_right And.right
  split
  · split
    · exact .refused _
    · exact fetchNumber_reads (hperm.2 rfl) hok
  · exact fetchNumber_reads (hperm.2 rfl) hok
  · split
    · exact .refused _
    split
    · exact .refused _
    · exact ⟨rfl, .inl rfl, fun _ h => by cases h⟩

/-- A number that fits in an `int` is put back. -/
theorem restored_eq {number : Mark} (h : number.value ≤ maxArtnum) : restored number = number := by
  have hint : toInt number.value = number.value := by
    unfold toInt
    unfold maxArtnum at h
    rw [Nat.mod_eq_of_lt (by omega), if_pos (by omega)]
  unfold restored
  rw [hint]
  unfold maxArtnum at h
  exact if_pos (by omega)

theorem nextlast_reads {next : Bool} {r : Client × Answer} (tries : List Try) (n missing : ℕ)
    (hvalid : s.PERMgroupmadeinvalid = false) (hread : s.perms.PERMcanread)
    (hnumber : s.ARTnumber.value ≤ maxArtnum)
    (h : nextlast next s tries n missing = some r) : Reads s r := by
  induction tries generalizing n missing with
  | nil => cases h
  | cons t ts ih =>
    unfold nextlast at h
    dsimp only at h
    split at h
    · split at h <;> cases h
      rw [restored_eq hnumber]
      exact .refused _
    split at h
    · exact ih _ _ h
    split at h
    · split at h <;> cases h
      exact ⟨rfl, .inr rfl, fun g hg => ⟨hg, hvalid, .inl hread⟩⟩
    · exact ih _ _ h

theorem CMDnextlast_reads {next : Bool} {tries : List Try} {r : Client × Answer}
    (hbound : s.ARThigh.value ≤ maxArtnum) (h : CMDnextlast s next tries = some r) :
    Reads s r := by
  unfold CMDnextlast at h
  split at h
  · cases h
    exact .refused _
  split at h
  · cases h
    exact .refused _
  rename_i hperm
  simp only [Bool.or_eq_true, Bool.not_eq_true', not_or, Bool.not_eq_true,
    Bool.not_eq_false] at hperm
  split at h
  · cases h
    exact .refused _
  rename_i hrange
  refine nextlast_reads tries _ _ hperm.2 hperm.1 ?_ h
  unfold Client.outOfRange at hrange
  omega

theorem rows_reads {ok nothing : ℕ} {found : Found} (hvalid : s.PERMgroupmadeinvalid = false)
    (hread : s.perms.PERMcanread) : Reads s (rows s ok nothing found) := by
  unfold rows
  split
  · exact ⟨rfl, .inl rfl, fun g hg => ⟨hg, hvalid, .inl hread⟩⟩
  · exact .refused _

theorem CMDover_reads (xover : Bool) (articles : Articles) (found : Found) :
    Reads s (CMDover s xover articles found) := by
  unfold CMDover
  split
  · exact .refused _
  split
  · exact .refused _
  split
  · exact .refused _
  split
  · exact .refused _
  rename_i hperm
  simp only [Bool.or_eq_true, Bool.not_eq_true', not_or, Bool.not_eq_true,
    Bool.not_eq_false] at hperm
  split
  · exact .refused _
  · exact rows_reads hperm.2 hperm.1

theorem CMDpat_reads (hdr : Bool) (header : Option ℕ) («meta» : Bool) (articles : Articles)
    (opened : Opened) (found : Found) :
    Reads s (CMDpat s hdr header «meta» articles opened found) := by
  unfold CMDpat
  dsimp only
  split
  · exact .refused _
  · exact .refused _
  split
  · exact .refused _
  split
  · exact .refused _
  rename_i hperm
  simp only [Bool.or_eq_true, Bool.and_eq_true, Bool.not_eq_true', not_or, not_and,
    Bool.not_eq_true, Bool.not_eq_false] at hperm
  split
  · split
    · exact .refused _
    split
    · exact .refused _
    split
    · exact .refused _
    · exact ⟨rfl, .inl rfl, fun _ h => by cases h⟩
  rename_i hmid
  split
  · exact .refused _
  · exact rows_reads (hperm.2 (Bool.not_eq_true _ ▸ hmid)) hperm.1

/-- A reading command keeps the invariant, -/
theorem Reads.inv {r : Client × Answer} (h : Inv conf s) (hr : Reads s r) : Inv conf r.1 := by
  have hc := h.consistent
  rw [hr.kept]
  refine ⟨⟨hc.low, hc.high, fun g hg => ?_⟩, h.rights, h.buffer, h.bound⟩
  obtain hn | hn := hr.number
  · exact hn.trans (hc.number g hg)
  · exact hn.trans hg

/-- and what it serves is permitted. -/
theorem Reads.permitted {r : Client × Answer} (h : Inv conf s) (hr : Reads s r)
    (hauth : s.perms.PERMneedauth = false) {g : List UInt8} (hg : r.2.served = some g) :
    allowed conf s.perms g := by
  obtain ⟨hcur, hvalid, hok⟩ := hr.served g hg
  obtain h' | h' | h' | ⟨hread, hpost⟩ := h.rights g hcur
  · cases hauth.symm.trans h'
  · cases hvalid.symm.trans h'
  · exact h'
  · rw [hread, hpost] at hok
    exact absurd hok (by simp)

/-- What is permitted is what GROUP would let through. -/
theorem GROUP_of_allowed {perms : Perms} {g : List UInt8} (h : allowed conf perms g)
    (hauth : perms.PERMneedauth = false) : perms.GROUP conf.readers true g = 211 := by
  simp only [allowed, Bool.and_eq_true] at h
  simp [Perms.GROUP, hauth, h.1.1, h.1.2, h.2]

/-! ## GROUP and LISTGROUP -/

/-- A group is selected. -/
structure Selects (conf : Setup) (s : Client) (g : List UInt8) (r : Client × Answer) : Prop where
  perms : r.1.perms = s.perms
  buffer : r.1.buffer = s.buffer
  layer : r.1.layer = s.layer
  cur : r.1.GRPcur = some g
  low : r.1.ARTlow.group = some g
  high : r.1.ARThigh.group = some g
  number : r.1.ARTnumber.group = some g
  bound : r.1.ARThigh.value ≤ maxArtnum
  code : r.2.code = 211
  served : ∀ g', r.2.served = some g' → g' = g
  permitted : allowed conf s.perms g

theorem settled_le {delay now prev high : ℕ} {rows : List (ℕ × ℕ)} {n : ℕ} (hprev : prev ≤ high)
    (hrows : ∀ row ∈ rows, row.1 ≤ high) (h : settled delay now prev rows = some n) :
    n ≤ high := by
  induction rows generalizing prev with
  | nil => cases h
  | cons row rows ih =>
    unfold settled at h
    split at h
    · cases h
      exact hprev
    · exact ih (hrows row List.mem_cons_self) (fun row h => hrows row (List.mem_cons_of_mem _ h)) h

/-- The end of GROUP and LISTGROUP, with marks of the group. -/
theorem select_selects {t : Client} {g : List UInt8} {count : ℕ} {served : Option (List UInt8)}
    (hperms : t.perms = s.perms) (hbuffer : t.buffer = s.buffer) (hlayer : t.layer = s.layer)
    (hlow : t.ARTlow.group = some g) (hhigh : t.ARThigh.group = some g)
    (hbound : t.ARThigh.value ≤ maxArtnum) (hserved : ∀ g', served = some g' → g' = g)
    (hallowed : allowed conf s.perms g) :
    Selects conf s g (t.select g count, { code := 211, served := served }) :=
  ⟨hperms, hbuffer, hlayer, rfl, hlow, hhigh, rfl, hbound, rfl, hserved, hallowed⟩

theorem groupReply_selects {t : Client} {g : List UInt8} {asked : Asked} {count : ℕ}
    (hperms : t.perms = s.perms) (hbuffer : t.buffer = s.buffer) (hlayer : t.layer = s.layer)
    (hlow : t.ARTlow.group = some g) (hhigh : t.ARThigh.group = some g)
    (hbound : t.ARTlow.value ≤ maxArtnum ∧ t.ARThigh.value ≤ maxArtnum)
    (hrows : ∀ rows ∈ asked.search, ∀ row ∈ rows, row.1 ≤ maxArtnum)
    (hallowed : allowed conf s.perms g)
    (hsearch : count ≠ 0 → conf.nfsreader → asked.search ≠ none) :
    Selects conf s g (groupReply conf t g asked count) := by
  have hnone : ∀ g', (none : Option (List UInt8)) = some g' → g' = g := fun _ h => by cases h
  unfold groupReply
  split
  · exact select_selects hperms hbuffer hlayer hlow hhigh hbound.2 hnone hallowed
  rename_i hnfs
  rw [not_or, Bool.not_eq_false] at hnfs
  dsimp only
  split
  · rename_i hs
    exact absurd hs (hsearch hnfs.1 hnfs.2)
  rename_i rows hs
  split
  · exact select_selects hperms hbuffer hlayer hlow hhigh hbound.2 hnone hallowed
  · rename_i prev hprev
    refine select_selects hperms hbuffer hlayer hlow rfl ?_ hnone hallowed
    refine settled_le ?_ (hrows rows hs) hprev
    split
    · exact hbound.1
    · exact (Nat.sub_le _ _).trans hbound.2

/-- GROUP and LISTGROUP refuse, or select a permitted group. -/
theorem CMDgroup_cases {listgroup : Bool} {name : Option (List UInt8)} {range : Option Bool}
    {asked : Asked} (hbounded : asked.Bounded)
    (hsearch : listgroup = false → ∀ g, name.or s.GRPcur = some g → Searches conf s g asked →
      asked.search ≠ none) :
    (∃ code, CMDgroup conf s listgroup name range asked = (s, { code := code })) ∨
      ∃ g, Selects conf s g (CMDgroup conf s listgroup name range asked) := by
  unfold CMDgroup
  split
  · exact .inl ⟨_, rfl⟩
  rename_i g hg
  split
  · exact .inl ⟨_, rfl⟩
  split
  · exact .inl ⟨_, rfl⟩
  rename_i hread
  split
  · exact .inl ⟨_, rfl⟩
  rename_i low high count hstats
  split
  · exact .inl ⟨_, rfl⟩
  rename_i hmatch
  obtain ⟨hlow, hhigh⟩ := hbounded.1 _ hstats
  have hallowed : allowed conf s.perms g := by
    rw [Bool.not_eq_true, Bool.not_eq_false'] at hread hmatch
    rw [allowed, Bool.and_assoc, hread, hmatch]
    rfl
  refine .inr ⟨g, ?_⟩
  dsimp only
  split
  · exact select_selects rfl rfl rfl rfl rfl hhigh (fun _ h => (Option.some.inj h).symm) hallowed
  rename_i hlist
  refine groupReply_selects rfl rfl rfl rfl rfl ⟨hlow, hhigh⟩ hbounded.2 hallowed ?_
  intro hcount hnfs
  exact hsearch (Bool.eq_false_iff.mpr hlist) g hg ⟨hallowed, hnfs, _, hstats, hcount⟩

theorem Selects.inv {g : List UInt8} {r : Client × Answer} (h : Inv conf s)
    (hr : Selects conf s g r) : Inv conf r.1 := by
  have hcur : ∀ {g' : List UInt8}, r.1.GRPcur = some g' → g' = g := fun hg' =>
    Option.some.inj (hg'.symm.trans hr.cur)
  refine ⟨⟨fun g' hg' => ?_, fun g' hg' => ?_, fun g' hg' => ?_⟩, fun g' hg' => ?_, ?_, hr.bound⟩
  · exact hcur hg' ▸ hr.low
  · exact hcur hg' ▸ hr.high
  · exact hcur hg' ▸ hr.number
  · rw [hcur hg', hr.perms]
    exact .inr (.inr (.inl hr.permitted))
  · rw [hr.buffer, hr.layer]
    exact h.buffer

/-! ## New permissions -/

@[simp] theorem leave_cur : s.leave.GRPcur = none := by
  unfold Client.leave
  split
  · assumption
  · rfl

@[simp] theorem leave_high : s.leave.ARThigh = s.ARThigh := by
  unfold Client.leave
  split <;> rfl

/-- Without a group only the buffer matters. -/
theorem inv_of_none {t : Client} (hcur : t.GRPcur = none)
    (hbuffer : ∀ byte ∈ t.buffer, byte.1 = t.layer) (hbound : t.ARThigh.value ≤ maxArtnum) :
    Inv conf t := by
  have hno : ∀ {g : List UInt8}, t.GRPcur ≠ some g := fun h => by cases hcur.symm.trans h
  exact ⟨⟨fun _ h => absurd h hno, fun _ h => absurd h hno, fun _ h => absurd h hno⟩,
    fun _ h => absurd h hno, hbuffer, hbound⟩

theorem CMDstarttls_inv {init : Bool} {answers : Answers} {r : Client × Answer} (h : Inv conf s)
    (hr : CMDstarttls conf s init answers = some r) : Inv conf r.1 ∧ r.2.served = none := by
  unfold CMDstarttls at hr
  split at hr
  · cases hr
    exact ⟨h, rfl⟩
  split at hr
  · cases hr
    exact ⟨h, rfl⟩
  split at hr <;> cases hr
  refine ⟨inv_of_none leave_cur (fun _ h => absurd h List.not_mem_nil) ?_, rfl⟩
  simpa using h.bound

/-- The same group and marks. -/
theorem Consistent.congr {t : Client} (h : Consistent s) (hcur : t.GRPcur = s.GRPcur)
    (hlow : t.ARTlow = s.ARTlow) (hhigh : t.ARThigh = s.ARThigh)
    (hnumber : t.ARTnumber = s.ARTnumber) : Consistent t :=
  ⟨hlow ▸ hcur ▸ h.low, hhigh ▸ hcur ▸ h.high, hnumber ▸ hcur ▸ h.number⟩

theorem authUser_inv (h : Inv conf s) (name : List UInt8) : Inv conf (authUser s name).1 := by
  unfold authUser
  split
  · exact h
  · exact ⟨h.consistent.congr rfl rfl rfl rfl, h.rights, h.buffer, h.bound⟩

theorem authUser_served (name : List UInt8) : (authUser s name).2.served = none := by
  unfold authUser
  split <;> rfl

/-- The current group is made invalid, or it is permitted. -/
theorem makeGroupInvalid_or {t : Client} {g : List UInt8} (hg : t.GRPcur = some g) :
    makeGroupInvalid conf t ∨ allowed conf t.perms g := by
  by_cases hallowed : allowed conf t.perms g
  · exact .inr hallowed
  · simp [makeGroupInvalid, hg, hallowed]

theorem authPass_inv {answers : Answers} {r : Client × Answer} (h : Inv conf s)
    (hr : authPass conf s answers = some r) : Inv conf r.1 ∧ r.2.served = none := by
  unfold authPass at hr
  split at hr
  · cases hr
    exact ⟨h, rfl⟩
  split at hr
  · cases hr
  split at hr
  · rename_i hauth
    cases hr
    exact ⟨⟨h.consistent.congr rfl rfl rfl rfl, fun _ _ => .inl hauth, h.buffer, h.bound⟩, rfl⟩
  · cases hr
    refine ⟨⟨h.consistent.congr rfl rfl rfl rfl, fun g hg => ?_, h.buffer, h.bound⟩, rfl⟩
    obtain hinvalid | hallowed := @makeGroupInvalid_or conf { s with perms := _ } _ hg
    · exact .inr (.inl hinvalid)
    · exact .inr (.inr (.inl hallowed))

theorem SASLauth_inv {plain : Bool} {taken : ℕ} {exchange : Exchange} {answers : Answers}
    {r : Client × Answer} (h : Inv conf s)
    (hmeets : MeetsCommand conf s (.sasl plain taken exchange answers))
    (hr : SASLauth conf s plain taken exchange answers = some r) :
    Inv conf r.1 ∧ r.2.served = none := by
  have hdrop : ∀ byte ∈ s.buffer.drop taken, byte.1 = s.layer := fun byte hb =>
    h.buffer byte (List.mem_of_mem_drop hb)
  unfold SASLauth at hr
  split at hr
  · cases hr
    exact ⟨h, rfl⟩
  rename_i hrefused
  dsimp only at hr
  split at hr
  · cases hr
    exact ⟨⟨h.consistent.congr rfl rfl rfl rfl, h.rights, hdrop, h.bound⟩, rfl⟩
  rename_i canon_user ssf
  obtain ⟨hbuffer, hfits⟩ := hmeets hrefused
  split at hr
  · cases hr
  rename_i perms hperms
  cases hr
  refine ⟨?_, rfl⟩
  dsimp only
  split
  · rename_i hssf
    refine inv_of_none leave_cur (fun _ h => absurd h List.not_mem_nil) ?_
    simpa using h.bound
  rename_i hssf
  have hbytes : ∀ byte ∈ s.buffer.drop taken,
      byte.1 = if 0 < ssf then s.layer + 1 else s.layer := by
    split
    · rename_i hpos
      obtain hnil | hstrong := hbuffer hpos
      · rw [hnil]
        exact fun _ h => absurd h List.not_mem_nil
      · exact absurd hstrong hssf
    · exact hdrop
  obtain hcur | ⟨g, hcur⟩ := Option.eq_none_or_eq_some s.GRPcur
  · exact inv_of_none hcur hbytes h.bound
  · have hweak : ssf ≤ 1 := by
      by_contra hlt
      exact hssf ⟨by omega, hcur ▸ Option.some_ne_none g⟩
    have hfit := hfits hweak
    rw [hperms] at hfit
    refine ⟨h.consistent.congr rfl rfl rfl rfl, fun g' hg' => ?_, hbytes, h.bound⟩
    obtain hinvalid | hallowed | hnothing := hfit
    · exact .inr (.inl hinvalid)
    · exact .inr (.inr (.inl (hallowed g' hg')))
    · exact .inr (.inr (.inr hnothing))

end

/-! ## A run -/

section
variable {conf : Setup} {s : Client}

/-- What the function of a command does. -/
theorem run_good {command : Command} {r : Client × Answer} (h : Inv conf s)
    (hbounded : command.Bounded) (hmeets : MeetsCommand conf s command)
    (hauth : command.Needauth → s.perms.PERMneedauth = false)
    (hr : run conf s command = some r) :
    Inv conf r.1 ∧ (command.IsGroup → 400 ≤ r.2.code → r.1 = s) ∧
      ∀ g, r.2.served = some g → allowed conf s.perms g ∧ s.perms.PERMneedauth = false := by
  have hreads : ∀ {r : Client × Answer}, ¬ command.IsGroup → command.Needauth → Reads s r →
      Inv conf r.1 ∧ (command.IsGroup → 400 ≤ r.2.code → r.1 = s) ∧
        ∀ g, r.2.served = some g → allowed conf s.perms g ∧ s.perms.PERMneedauth = false :=
    fun hgroup hneed hreads => ⟨hreads.inv h, fun h => absurd h hgroup,
      fun g hg => ⟨hreads.permitted h (hauth hneed) hg, hauth hneed⟩⟩
  have hsilent : ∀ {r : Client × Answer}, ¬ command.IsGroup → Inv conf r.1 ∧ r.2.served = none →
      Inv conf r.1 ∧ (command.IsGroup → 400 ≤ r.2.code → r.1 = s) ∧
        ∀ g, r.2.served = some g → allowed conf s.perms g ∧ s.perms.PERMneedauth = false :=
    fun hgroup hr => ⟨hr.1, fun h => absurd h hgroup, fun g hg => by cases hr.2.symm.trans hg⟩
  have hselects : command.Needauth → ((∃ code, r = (s, { code := code })) ∨
      ∃ g, Selects conf s g r) → Inv conf r.1 ∧ (command.IsGroup → 400 ≤ r.2.code → r.1 = s) ∧
        ∀ g, r.2.served = some g → allowed conf s.perms g ∧ s.perms.PERMneedauth = false := by
    rintro hneed (⟨code, rfl⟩ | ⟨g, hsel⟩)
    · exact ⟨h, fun _ _ => rfl, fun _ hg => by cases hg⟩
    · refine ⟨hsel.inv h, fun _ hcode => ?_, fun g' hg' => ?_⟩
      · rw [hsel.code] at hcode
        omega
      · exact ⟨hsel.served g' hg' ▸ hsel.permitted, hauth hneed⟩
  cases command with
  | group name asked =>
    cases hr
    refine hselects rfl (CMDgroup_cases hbounded fun _ g hg => ?_)
    cases hg
    exact hmeets
  | listgroup name range asked =>
    cases hr
    exact hselects rfl (CMDgroup_cases hbounded fun hlist => by cases hlist)
  | fetch what which opened =>
    cases hr
    exact hreads id rfl (CMDfetch_reads what which opened)
  | nextlast next tries => exact hreads id rfl (CMDnextlast_reads h.bound hr)
  | overview xover articles found =>
    cases hr
    exact hreads id rfl (CMDover_reads xover articles found)
  | hdr hdr header «meta» articles opened found =>
    cases hr
    exact hreads id rfl (CMDpat_reads hdr header «meta» articles opened found)
  | starttls init answers => exact hsilent id (CMDstarttls_inv h hr)
  | user name =>
    cases hr
    exact hsilent id ⟨authUser_inv h name, authUser_served name⟩
  | pass answers => exact hsilent id (authPass_inv h hr)
  | sasl plain taken exchange answers => exact hsilent id (SASLauth_inv h hmeets hr)

/-- The invariant after a line has been taken. -/
theorem Inv.taken (h : Inv conf s) (size : ℕ) :
    Inv conf { s with buffer := s.buffer.drop size } :=
  ⟨h.consistent.congr rfl rfl rfl rfl, h.rights,
    fun byte hb => h.buffer byte (List.mem_of_mem_drop hb), h.bound⟩

/-- A command that meets the condition is good, and keeps the invariant. -/
theorem command_good {size : ℕ} {command : Command} {s' : Client} {answer : Option Answer}
    (h : Inv conf s) (hmeets : Meets conf s (.command size command))
    (hstep : step conf s (.command size command) = some (s', answer)) :
    Inv conf s' ∧ ∃ a, answer = some a ∧ Good conf s s' size command a := by
  have hlayered : ∀ byte ∈ s.buffer.take size, byte.1 = s.layer := fun byte hb =>
    h.buffer byte (List.mem_of_mem_take hb)
  simp only [step] at hstep
  split at hstep
  · cases hstep
  rename_i hsize
  rw [not_or, not_or, not_not] at hsize
  split at hstep
  · cases hstep
    exact ⟨h.taken size, _, rfl, fun _ _ => ⟨rfl, rfl, rfl, rfl⟩, fun _ hg => (by cases hg),
      hlayered⟩
  rename_i hneed
  obtain ⟨r, hr, heq⟩ := Option.map_eq_some_iff.mp hstep
  cases heq
  have hauth : command.Needauth → s.perms.PERMneedauth = false := fun hn => by
    simpa [hn] using hneed
  obtain ⟨hinv, hkept, hserved⟩ := run_good (h.taken size) hsize.2.2 hmeets hauth hr
  refine ⟨hinv, _, rfl, fun hgroup hcode => ?_, fun g hg => ?_, hlayered⟩
  · rw [hkept hgroup hcode]
    exact ⟨rfl, rfl, rfl, rfl⟩
  · exact GROUP_of_allowed (hserved g hg).1 (hserved g hg).2

/-- A step that meets the condition keeps the invariant. -/
theorem step_inv {event : Event} {s' : Client} (h : Inv conf s) (hmeets : Meets conf s event)
    (hnext : Next conf s event s') : Inv conf s' := by
  obtain ⟨answer, hstep⟩ := hnext
  cases event with
  | receive bytes =>
    cases hstep
    refine ⟨h.consistent.congr rfl rfl rfl rfl, h.rights, fun byte hb => ?_, h.bound⟩
    obtain hb | hb := List.mem_append.mp hb
    · exact h.buffer byte hb
    · obtain ⟨_, -, rfl⟩ := List.mem_map.mp hb
      rfl
  | command size command => exact (command_good h hmeets hstep).1

/-- In every run that meets the condition the marks and the number are those of the current
group, an error of GROUP leaves them alone, what is served by number is permitted, and what is
taken as a command came through the layer that is there. -/
theorem served_good {perms : Perms} {events : List Event}
    (hrun : Steps (guarded (Meets conf) (Next conf)) (start perms) events s) :
    Consistent s ∧ ∀ size command s' answer, Meets conf s (.command size command) →
      step conf s (.command size command) = some (s', answer) →
        ∃ a, answer = some a ∧ Good conf s s' size command a := by
  have hinv : Inv conf s := by
    refine @Steps.invariant _ _ _ (Inv conf) _ _ _ ?_ hrun ?_
    · rintro s event s' ⟨hmeets, hnext⟩ h
      exact step_inv h hmeets hnext
    · exact inv_of_none rfl (fun _ h => absurd h List.not_mem_nil) (Nat.zero_le _)
  exact ⟨hinv.consistent, fun _ _ _ _ hmeets hstep => (command_good hinv hmeets hstep).2⟩

end

/-! ## Runs -/

/-- A site where anyone may read all groups, and the user `u` only the group `b`. -/
def twoUsers : Readers where
  auth_realms := [⟨none, false, false, true, some (octets "anon"), none⟩]
  access_realms := some [⟨none, some (octets "anon"), some (octets "*"), none, none, false⟩,
    ⟨none, some (octets "u"), some (octets "b"), none, none, false⟩]
  HAVE_SASL := true
  uwildmat text pattern := pattern == octets "*" || text == pattern

/-- A client that has connected. -/
def anonymous : Perms where
  PERMuser := octets "anon"
  PERMauthorized := false
  PERMneedauth := false
  PERMcanauthenticate := true
  PERMcanauthenticatewithoutSSL := true
  PERMspecified := true
  PERMcanread := true
  PERMcanpost := false
  PERMreadlist := [octets "*"]
  PERMpostlist := []
  success_auth := some ⟨none, false, false, true, some (octets "anon"), none⟩
  encryption_layer_on := false
  User := []

/-- nnrpd with that site, as an NFS reader or not. -/
def site (nfsreader : Bool) : Setup := ⟨twoUsers, nfsreader, 60⟩

/-- A group of five articles, with what a search for the last ones finds. -/
def five (rows : List (ℕ × ℕ)) : Asked := ⟨some (1, 5, 5), 1, 5, 1000, some rows⟩

/-- The group `b` is selected and read by anyone, and then by the user `u`. -/
def login : List Event :=
  [.receive (octets "GROUP b\r\nSTAT\r\nAUTHINFO SASL PLAIN AHUAcA==\r\n"),
    .command 9 (.group (octets "b") (five [(1, 10), (5, 990)])),
    .command 6 (.fetch .stat .current ⟨true, true, true⟩),
    .command 30 (.sasl true 0 (.ends (octets "u") 0) fun _ => none)]

theorem served_good_login : ∃ s, Consistent s ∧ s.GRPcur = some (octets "b") ∧
    s.perms.PERMuser = octets "u" ∧ ∀ s' answer,
      step (site true) s (.command 1 (.fetch .article (.number 3) ⟨true, true, true⟩)) =
        some (s', answer) → ∃ a, answer = some a ∧
          Good (site true) s s' 1 (.fetch .article (.number 3) ⟨true, true, true⟩) a := by
  have hguard : ∀ s event s',
      (if Meets (site true) s event then (step (site true) s event).map Prod.fst else none) =
        some s' → guarded (Meets (site true)) (Next (site true)) s event s' := by
    intro s event s' hstep
    by_cases hmeets : Meets (site true) s event
    · rw [if_pos hmeets] at hstep
      obtain ⟨⟨_, answer⟩, hr, rfl⟩ := Option.map_eq_some_iff.mp hstep
      exact ⟨hmeets, answer, hr⟩
    · rw [if_neg hmeets] at hstep
      cases hstep
  have hrun := (@Steps.of_foldlM _ _
    (fun s event =>
      if Meets (site true) s event then (step (site true) s event).map Prod.fst else none)
    (start anonymous) _ login (Option.some_get (by decide)).symm).mono hguard
  obtain ⟨hconsistent, hgood⟩ := served_good hrun
  exact ⟨_, hconsistent, by decide, by decide,
    fun s' answer => hgood 1 _ s' answer trivial⟩

/-! ## Where it is not so -/

theorem steps_of_events {conf : Setup} {s s' : Client} {events : List Event}
    (h : events.foldlM (fun s event => (step conf s event).map Prod.fst) s = some s') :
    Steps (Next conf) s events s' := by
  refine (Steps.of_foldlM h).mono fun s event s' hstep => ?_
  obtain ⟨⟨_, answer⟩, hr, rfl⟩ := Option.map_eq_some_iff.mp hstep
  exact ⟨answer, hr⟩

/-- The group `a` is selected, and there is another command. -/
def selected : List Event :=
  [.receive (octets "GROUP a\r\nGROUP b\r\n"), .command 9 (.group (octets "a") (five []))]

/-- The group `a` is selected, and the client is then the user `u`, without a layer. -/
def changed : List Event :=
  [.receive (octets "GROUP a\r\nAUTHINFO SASL PLAIN AHUAcA==\r\nARTICLE 1\r\n"),
    .command 9 (.group (octets "a") (five [])),
    .command 30 (.sasl true 0 (.ends (octets "u") 0) fun _ => none)]

/-- A security layer is negotiated, with a command after it in the clear. -/
def injected : List Event :=
  [.receive (octets "AUTHINFO SASL X\r\nAUTHINFO USER v\r\n"),
    .command 17 (.sasl false 0 (.ends (octets "u") 56) fun _ => none)]

/-- An error of GROUP changes the marks, an article of a group is served that GROUP would
refuse, and a command is taken that came before the security layer. -/
theorem served_wrong :
    (∃ events s r, Steps (Next (site true)) (start anonymous) events s ∧
      step (site true) s (.command 9 (.group (octets "b") ⟨some (7, 9, 3), 1, 3, 1000, none⟩)) =
        some r ∧
      r.2 = some { code := 503 } ∧ r.1.ARTlow.value ≠ s.ARTlow.value) ∧
    (∃ events s r, Steps (Next (site false)) (start anonymous) events s ∧
      step (site false) s (.command 11 (.fetch .article (.number 1) ⟨true, true, true⟩)) = some r ∧
      r.2 = some { code := 220, served := some (octets "a") } ∧
      s.perms.GROUP twoUsers true (octets "a") = 502) ∧
    ∃ events s r, Steps (Next (site false)) (start anonymous) events s ∧
      step (site false) s (.command 17 (.user (octets "v"))) = some r ∧
      ∀ byte ∈ s.buffer.take 17, byte.1 < s.layer := by
  refine ⟨⟨selected, _, _, steps_of_events (Option.some_get (by decide)).symm,
      (Option.some_get (by decide)).symm, by decide, by decide⟩,
    ⟨changed, _, _, steps_of_events (Option.some_get (by decide)).symm,
      (Option.some_get (by decide)).symm, by decide, by decide⟩,
    ⟨injected, _, _, steps_of_events (Option.some_get (by decide)).symm,
      (Option.some_get (by decide)).symm, by decide⟩⟩

end Inn.Nnrpd.Current
