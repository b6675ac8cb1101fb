import Inn.Nnrpd.Post

/-!
# Inn.Nnrpd.Groups — the groups nnrpd checks and the groups innd takes

`ValidNewsgroups` cuts the Newsgroups field at commas, with `strtok`; `NGsplit` of innd cuts
it at blanks as well. `groups_agree_iff`: for an article that is sent, innd takes the groups
that were checked exactly when the field body has no blank and no colon (a fold needs a blank),
and no group that `mergetogroups` gives another name.

* `NGsplit_eq` — what `NGsplit` takes, as words;
* `ValidNewsgroups_ok` — what was checked of every group;
* `bodyLoop_start` — what `IsValidHeaderBody` says about the body;
* `inndGroups_headerLine` — what innd takes from the line it is sent.
-/

namespace Inn.Nnrpd

open Inn.Innd

/-! ## NGsplit -/

/-- What ends a name in `NGsplit`. -/
def nameEnd (c : UInt8) : Bool := NG_ISSEP c || ISWHITE c

theorem inName_eq : (fun c => !NG_ISSEP c && !ISWHITE c) = fun c => !nameEnd c := by
  funext c
  exact (Bool.not_or _ _).symm

theorem groupLoop_nil {fuel : ℕ} {p : List UInt8} (h : p.dropWhile nameEnd = []) :
    groupLoop (fuel + 1) p = some [] := by
  have h : (p.dropWhile fun c => NG_ISSEP c || ISWHITE c) = [] := h
  rw [groupLoop, h]

theorem groupLoop_cons {fuel : ℕ} {p q : List UInt8} {c : UInt8} (h : p.dropWhile nameEnd = c :: q) :
    groupLoop (fuel + 1) p = if 58 ∈ (c :: q).takeWhile (fun c => !nameEnd c) then none
      else (groupLoop fuel ((c :: q).dropWhile fun c => !nameEnd c).tail).map
        ((c :: q).takeWhile (fun c => !nameEnd c) :: ·) := by
  have h : (p.dropWhile fun c => NG_ISSEP c || ISWHITE c) = c :: q := h
  rw [groupLoop, h]
  simp only [inName_eq]

theorem groupLoop_eq {fuel : ℕ} {p : List UInt8} (h : p.length ≤ fuel) :
    groupLoop fuel p = if 58 ∈ p then none else some (tokens nameEnd p) := by
  induction fuel generalizing p with
  | zero =>
    rw [List.eq_nil_of_length_eq_zero (Nat.le_zero.mp h)]
    rfl
  | succ fuel ih =>
    have hcolon : ∀ c, nameEnd c = true → c ≠ 58 := by
      rintro c hc rfl
      exact absurd hc (by decide)
    have hmem : 58 ∈ p ↔ 58 ∈ p.dropWhile nameEnd := by
      constructor
      · intro hp
        rw [← List.takeWhile_append_dropWhile (p := nameEnd) (l := p)] at hp
        exact (List.mem_append.mp hp).resolve_left fun hw =>
          hcolon 58 (List.mem_takeWhile_imp hw) rfl
      · exact fun hp => (List.dropWhile_sublist _).subset hp
    have hlen := (List.dropWhile_sublist (l := p) nameEnd).length_le
    rw [← tokens_dropWhile p]
    simp only [hmem]
    cases hp : p.dropWhile nameEnd with
    | nil => exact groupLoop_nil hp
    | cons c q =>
      have hc : nameEnd c = false := by
        have := List.head?_dropWhile_not nameEnd p
        rw [hp] at this
        exact this
      rw [groupLoop_cons hp]
      obtain ⟨w, rest, hw, hrest, hsplit, hne, hwsep, hsep, hshort⟩ := word_spec nameEnd hc q
      rw [hp, List.length_cons] at hlen
      have htail : rest.tail.length ≤ fuel := by
        rw [List.length_tail]
        omega
      have hmemtail : 58 ∈ rest ↔ 58 ∈ rest.tail := by
        cases rest with
        | nil => exact Iff.rfl
        | cons d rest => exact List.mem_cons.trans (or_iff_right fun hd => hcolon d (hsep d rfl) hd.symm)
      rw [hw, hrest, ih htail, hsplit, tokens_word hne hwsep hsep, tokens_tail hsep]
      simp only [List.mem_append, ← hmemtail]
      by_cases hwcolon : 58 ∈ w
      · rw [if_pos hwcolon, if_pos (.inl hwcolon)]
      · rw [if_neg hwcolon]
        by_cases hr : 58 ∈ rest
        · rw [if_pos hr, if_pos (.inr hr)]
          rfl
        · rw [if_neg hr, if_neg (not_or.mpr ⟨hwcolon, hr⟩)]
          rfl

theorem NGsplit_eq (p : List UInt8) : NGsplit p = if 58 ∈ p then [] else tokens nameEnd p := by
  unfold NGsplit
  rw [groupLoop_eq le_rfl]
  split <;> rfl

/-! ## ValidNewsgroups -/

section Valid

variable {post : Posting} {st : Checked} {p hdr : List UInt8}

/-- What lets a group pass without moderation: the post list, and its flag. -/
structure Passes (post : Posting) (p : List UInt8) : Prop where
  permitted : post.PERMspecified = true → PERMmatch post.uwildmat post.PERMpostlist [p] = true
  moderated : post.OVgroupstats p = some NF_FLAG_MODERATED → post.approved = true
  posting : ∀ flag, post.OVgroupstats p = some flag →
    flag = NF_FLAG_IGNORE ∨ flag = NF_FLAG_JUNK ∨ flag = NF_FLAG_NOLOCAL → post.locpost = true
  renamed : post.OVgroupstats p ≠ some NF_FLAG_ALIAS

theorem checkPost_ok (h : (checkPost post st p).Error = []) : checkPost post st p = st ∧
    (post.PERMspecified = true → PERMmatch post.uwildmat post.PERMpostlist [p] = true) := by
  unfold checkPost at h ⊢
  split at h
  · exact absurd (List.append_eq_nil_iff.mp h).2 (by decide)
  · next hcond =>
    rw [if_neg hcond]
    refine ⟨rfl, fun hspec => ?_⟩
    rw [hspec] at hcond
    simpa using hcond

/-- The flags that pass. -/
theorem checkFlag_ok {flag : UInt8} (h : (checkFlag post true st p flag).Error = [])
    (hmod : (checkFlag post true st p flag).modgroup = none) :
    st.Error = [] ∧ st.modgroup = none ∧ (flag = NF_FLAG_MODERATED → post.approved = true) ∧
      (flag = NF_FLAG_IGNORE ∨ flag = NF_FLAG_JUNK ∨ flag = NF_FLAG_NOLOCAL → post.locpost = true) ∧
      flag ≠ NF_FLAG_ALIAS := by
  unfold checkFlag at h hmod
  by_cases hm : flag = NF_FLAG_MODERATED
  · subst hm
    rw [if_pos rfl] at h hmod
    have hlast : (NF_FLAG_MODERATED = NF_FLAG_IGNORE ∨ NF_FLAG_MODERATED = NF_FLAG_JUNK ∨
        NF_FLAG_MODERATED = NF_FLAG_NOLOCAL → post.locpost = true) ∧ NF_FLAG_MODERATED ≠ NF_FLAG_ALIAS :=
      ⟨fun hor => absurd hor (by decide), by decide⟩
    split at h
    · next hcond =>
      rw [if_pos hcond] at hmod
      cases hmod
    · next hcond =>
      rw [if_neg hcond] at hmod
      refine ⟨h, hmod, fun _ => ?_, hlast⟩
      rw [hmod] at hcond
      simpa using hcond
  · rw [if_neg hm] at h hmod
    split at h
    · next hclosed =>
      rw [if_pos hclosed] at hmod
      have halias : flag ≠ NF_FLAG_ALIAS := by
        rintro rfl
        exact absurd hclosed (by decide)
      split at h
      · exact absurd (List.append_eq_nil_iff.mp h).2 (by decide)
      · next hpost =>
        rw [if_neg hpost] at hmod
        exact ⟨h, hmod, fun hflag => absurd hflag hm, fun _ => by simpa using hpost, halias⟩
    · next hclosed =>
      rw [if_neg hclosed] at hmod
      split at h
      · exact absurd (List.append_eq_nil_iff.mp h).2 (by decide)
      · next halias =>
        rw [if_neg halias] at hmod
        exact ⟨h, hmod, fun hflag => absurd hflag hm, fun hor => absurd hor hclosed, halias⟩

theorem checkName_ok (h : (checkName post true st p).Error = [])
    (hmod : (checkName post true st p).modgroup = none) :
    st.Error = [] ∧ st.modgroup = none ∧ Passes post p := by
  unfold checkName at h hmod
  simp only at h hmod
  cases hflag : post.OVgroupstats p with
  | none =>
    rw [hflag] at h hmod
    obtain ⟨hsame, hpermitted⟩ := checkPost_ok h
    rw [hsame] at h hmod
    have hno : ∀ flag, post.OVgroupstats p ≠ some flag := fun flag heq =>
      absurd (hflag.symm.trans heq).symm (Option.some_ne_none flag)
    exact ⟨h, hmod, ⟨hpermitted, fun heq => absurd heq (hno _), fun flag heq => absurd heq (hno flag),
      hno _⟩⟩
  | some flag =>
    rw [hflag] at h hmod
    obtain ⟨herror, hnone, hmoderated, hlocal, halias⟩ := checkFlag_ok h hmod
    obtain ⟨hsame, hpermitted⟩ := checkPost_ok herror
    rw [hsame] at herror hnone
    refine ⟨herror, hnone, ⟨hpermitted, fun heq => ?_, fun flag' heq => ?_, fun heq => ?_⟩⟩
    · exact hmoderated (Option.some.inj (hflag.symm.trans heq))
    · exact Option.some.inj (hflag.symm.trans heq) ▸ hlocal
    · exact halias (Option.some.inj (hflag.symm.trans heq))

/-- Every group passed, under its name. -/
theorem checkGroups_ok {groups : List (List UInt8)}
    (h : (groups.foldl (checkGroup post true) st).Error = [])
    (hmod : (groups.foldl (checkGroup post true) st).modgroup = none) :
    st.Error = [] ∧ st.modgroup = none ∧ ∀ p ∈ groups, Passes post (groupName post p) := by
  induction groups generalizing st with
  | nil => exact ⟨h, hmod, fun p hp => absurd hp List.not_mem_nil⟩
  | cons p groups ih =>
    obtain ⟨herror, hnone, hrest⟩ := ih h hmod
    obtain ⟨herror, hnone, hp⟩ := checkName_ok herror hnone
    refine ⟨herror, hnone, fun q hq => ?_⟩
    rcases List.mem_cons.mp hq with rfl | hq
    · exact hp
    · exact hrest q hq

theorem ValidNewsgroups_ok (h : ValidNewsgroups post true hdr = .ok st) (hmod : st.modgroup = none) :
    groupTokens hdr ≠ [] ∧ ∀ p ∈ groupTokens hdr, Passes post (groupName post p) := by
  unfold ValidNewsgroups at h
  split at h
  · cases h
  · next hne =>
    refine ⟨hne, ?_⟩
    simp only at h
    split at h
    · split at h
      · next hbad => exact absurd (List.append_eq_nil_iff.mp hbad).2 (by decide)
      · cases h
    · split at h
      · next hok =>
        cases h
        exact (checkGroups_ok hok hmod).2.2
      · cases h

/-- An error stays. -/
theorem checkFlag_error {hasModgroup : Bool} {flag : UInt8}
    (h : (checkFlag post hasModgroup st p flag).Error = []) : st.Error = [] := by
  unfold checkFlag at h
  split at h
  · split at h <;> exact h
  · split at h
    · split at h
      · exact absurd (List.append_eq_nil_iff.mp h).2 (by decide)
      · exact h
    · split at h
      · exact absurd (List.append_eq_nil_iff.mp h).2 (by decide)
      · exact h

/-- Whatever else is found out, every group matched the post list. -/
theorem checkGroups_permitted {hasModgroup : Bool} {groups : List (List UInt8)}
    (h : (groups.foldl (checkGroup post hasModgroup) st).Error = []) :
    st.Error = [] ∧ ∀ p ∈ groups, post.PERMspecified = true →
      PERMmatch post.uwildmat post.PERMpostlist [groupName post p] = true := by
  induction groups generalizing st with
  | nil => exact ⟨h, fun p hp => absurd hp List.not_mem_nil⟩
  | cons p groups ih =>
    obtain ⟨herror, hrest⟩ := ih h
    have hpost : (checkPost post st (groupName post p)).Error = [] := by
      unfold checkGroup checkName at herror
      simp only at herror
      split at herror
      · exact herror
      · have hbefore := checkFlag_error herror
        exact hbefore
    obtain ⟨hsame, hpermitted⟩ := checkPost_ok hpost
    rw [hsame] at hpost
    refine ⟨hpost, fun q hq => ?_⟩
    rcases List.mem_cons.mp hq with rfl | hq
    · exact hpermitted
    · exact hrest q hq

theorem ValidNewsgroups_permitted {hasModgroup : Bool} (h : ValidNewsgroups post hasModgroup hdr = .ok st) :
    ∀ p ∈ groupTokens hdr, post.PERMspecified = true →
      PERMmatch post.uwildmat post.PERMpostlist [groupName post p] = true := by
  unfold ValidNewsgroups at h
  split at h
  · cases h
  simp only at h
  split at h
  · split at h
    · next hbad => exact absurd (List.append_eq_nil_iff.mp hbad).2 (by decide)
    · cases h
  · split at h
    · next hok => exact (checkGroups_permitted hok).2
    · cases h

end Valid

/-! ## A valid body -/

section Body

variable {p value : List UInt8} {c : UInt8} {e : Bool}

/-- The ASCII characters of a valid text. -/
theorem utf8Loop_ascii {left : ℕ} (h : utf8Loop left p = true) (hc : c ∈ p) (hascii : c < 0x80) :
    isprint c = true ∨ c = 13 ∨ c = 10 ∨ c = 9 := by
  induction p generalizing left with
  | nil => exact absurd hc List.not_mem_nil
  | cons d p ih =>
    cases left with
    | zero =>
      rw [utf8Loop] at h
      split at h
      · obtain ⟨hd, hrest⟩ := Bool.and_eq_true_iff.mp h
        rcases List.mem_cons.mp hc with rfl | hc
        · simpa [or_assoc] using hd
        · exact ih hrest hc
      · next htop =>
        rcases List.mem_cons.mp hc with rfl | hc
        · exact absurd (if_pos hascii) htop
        · exact ih (Bool.and_eq_true_iff.mp h).2 hc
    | succ left =>
      rw [utf8Loop] at h
      obtain ⟨hd, hrest⟩ := Bool.and_eq_true_iff.mp h
      rcases List.mem_cons.mp hc with rfl | hc
      · have := (Bool.and_eq_true_iff.mp hd).1
        exact absurd hascii (UInt8.not_lt.mpr (of_decide_eq_true this))
      · exact ih hrest hc

/-- What one character of a valid body can be. -/
theorem bodyLoop_cons (h : bodyLoop e (c :: p) = true) :
    (c = 10 ∧ e = false ∧ p.head?.any ISWHITE = true ∧ bodyLoop true p = true) ∨
    (c = 13 ∧ e = false ∧ ∃ q, p = 10 :: q ∧ q.head?.any ISWHITE = true ∧ bodyLoop true q = true) ∨
    (c ≠ 10 ∧ c ≠ 13 ∧ bodyLoop (e && ISWHITE c) p = true) := by
  rw [bodyLoop.eq_def] at h
  split at h
  · next heq => cases heq
  · next q heq =>
    cases heq
    obtain ⟨hand, hq⟩ := Bool.and_eq_true_iff.mp h
    obtain ⟨he, hwhite⟩ := Bool.and_eq_true_iff.mp hand
    exact .inr (.inl ⟨rfl, (Bool.not_eq_true' _).mp he, q, rfl, hwhite, hq⟩)
  · cases h
  · next q heq =>
    cases heq
    obtain ⟨hand, hq⟩ := Bool.and_eq_true_iff.mp h
    obtain ⟨he, hwhite⟩ := Bool.and_eq_true_iff.mp hand
    exact .inl ⟨rfl, (Bool.not_eq_true' _).mp he, hwhite, hq⟩
  · next d q hcr hcr' hlf heq =>
    cases heq
    exact .inr (.inr ⟨fun hc => hlf hc, fun hc => hcr' hc, h⟩)

/-- Without blanks there is no fold. -/
theorem bodyLoop_unfolded (h : bodyLoop e p = true) (hwhite : ∀ c ∈ p, ISWHITE c = false) :
    ∀ c ∈ p, c ≠ 10 ∧ c ≠ 13 := by
  have hfold : ∀ {q : List UInt8}, (∀ c ∈ q, ISWHITE c = false) → q.head?.any ISWHITE ≠ true := by
    intro q hq hany
    cases q with
    | nil => cases hany
    | cons d q => exact Bool.false_ne_true ((hq d List.mem_cons_self).symm.trans hany)
  induction p generalizing e with
  | nil => exact fun c hc => absurd hc List.not_mem_nil
  | cons d p ih =>
    have hp : ∀ c ∈ p, ISWHITE c = false := fun c hc => hwhite c (List.mem_cons_of_mem _ hc)
    rcases bodyLoop_cons h with ⟨-, -, hany, -⟩ | ⟨-, -, q, rfl, hany, -⟩ | ⟨hlf, hcr, hrest⟩
    · exact absurd hany (hfold hp)
    · exact absurd hany (hfold fun c hc => hp c (List.mem_cons_of_mem _ hc))
    · intro c hc
      rcases List.mem_cons.mp hc with rfl | hc
      · exact ⟨hlf, hcr⟩
      · exact ih hrest hp c hc

/-- A valid value is blanks and then a body that begins with something else. -/
theorem bodyLoop_start (h : bodyLoop true p = true) : ∃ ws c rest, p = ws ++ c :: rest ∧
    (∀ w ∈ ws, ISWHITE w = true) ∧ ISWHITE c = false ∧ c ≠ 10 ∧ bodyLoop true (c :: rest) = true := by
  induction p with
  | nil => cases h
  | cons d p ih =>
    have h' := h
    rcases bodyLoop_cons h with ⟨-, hfalse, -⟩ | ⟨-, hfalse, -⟩ | ⟨hlf, hcr, hrest⟩
    · cases hfalse
    · cases hfalse
    · cases hd : ISWHITE d with
      | false => exact ⟨[], d, p, rfl, fun w hw => absurd hw List.not_mem_nil, hd, hlf, h'⟩
      | true =>
        rw [hd] at hrest
        obtain ⟨ws, c, rest, rfl, hws, hc⟩ := ih hrest
        refine ⟨d :: ws, c, rest, rfl, fun w hw => ?_, hc⟩
        rcases List.mem_cons.mp hw with rfl | hw
        · exact hd
        · exact hws w hw

/-- Where `StripOffHeaders` finds the body. -/
theorem skipFold_eq {ws rest : List UInt8} (hws : ∀ w ∈ ws, ISWHITE w = true)
    (hc : ISWHITE c = false) (hlf : c ≠ 10) : skipFold (ws ++ c :: rest) = ws.length := by
  induction ws with
  | nil =>
    rw [List.nil_append, skipFold, hc, beq_false_of_ne hlf]
    rfl
  | cons w ws ih =>
    rw [List.cons_append, skipFold, hws w List.mem_cons_self, Bool.true_or, if_pos rfl,
      ih fun w hw => hws w (List.mem_cons_of_mem _ hw)]
    rfl

theorem TrimSpaces_eq {ws rest : List UInt8} (hws : ∀ w ∈ ws, ISWHITE w = true)
    (hc : ISWHITE c = false) (hlf : c ≠ 10) :
    TrimSpaces (ws ++ c :: rest) = ((c :: rest).rdropWhile isspace).length := by
  unfold TrimSpaces
  rw [List.dropWhile_append_of_pos fun w hw => by rw [hws w hw]; rfl, List.dropWhile_cons_of_neg]
  rw [hc, beq_false_of_ne hlf]
  decide

/-! ## The line that is sent -/

@[simp] theorem towireFrom_nil (prev : UInt8) : towireFrom prev [] = [] := rfl

theorem towireFrom_cons (prev : UInt8) (p : List UInt8) : towireFrom prev (c :: p) =
    (if c = 10 ∧ prev ≠ 13 then [13, c] else [c]) ++ towireFrom c p := rfl

theorem towireFrom_append (prev : UInt8) (p q : List UInt8) :
    towireFrom prev (p ++ q) = towireFrom prev p ++ towireFrom (p.getLast?.getD prev) q := by
  induction p generalizing prev with
  | nil => rfl
  | cons c p ih =>
    have hlast : (c :: p).getLast?.getD prev = p.getLast?.getD c := by
      rw [List.getLast?_cons]
      rfl
    rw [List.cons_append, towireFrom_cons, towireFrom_cons, ih, hlast, List.append_assoc]

theorem towireFrom_eq_self {prev : UInt8} (h : 10 ∉ p) : towireFrom prev p = p := by
  induction p generalizing prev with
  | nil => rfl
  | cons c p ih =>
    have hc : c ≠ 10 := fun hc => h (hc ▸ List.mem_cons_self)
    rw [towireFrom_cons, if_neg fun hand => hc hand.1, ih fun hp => h (List.mem_cons_of_mem _ hp)]
    rfl

/-- Only the first octet can depend on the one before the text. -/
theorem towireFrom_congr {prev prev' : UInt8} (hc : c ≠ 10) :
    towireFrom prev (c :: p) = towireFrom prev' (c :: p) := by
  rw [towireFrom_cons, towireFrom_cons, if_neg fun hand => hc hand.1,
    if_neg fun hand => hc hand.1]

theorem getLast?_towireFrom (prev : UInt8) (p : List UInt8) :
    (towireFrom prev p).getLast? = p.getLast? := by
  rcases List.eq_nil_or_concat p with rfl | ⟨p, c, rfl⟩
  · rfl
  · rw [List.concat_eq_append, towireFrom_append, List.getLast?_concat, towireFrom_cons,
      towireFrom_nil, List.append_nil]
    split
    · rw [List.append_cons]
      exact List.getLast?_concat
    · exact List.getLast?_concat

/-- innd reads the body behind the colon and one more octet. -/
theorem inndGroups_line (conf : Innconf) {start text : List UInt8} (h : start.length = 12) :
    inndGroups conf (start ++ text ++ octets "\r\n") = NGsplit text := by
  have hbody : ∀ header, fieldBody conf HDR_NEWSGROUPS header (octets "Newsgroups").length =
      (12, (header.length : ℤ) - 12 - 2) := by
    intro header
    unfold fieldBody
    rw [if_neg]
    · rfl
    · unfold trimmed
      cases conf.xrefslave <;> decide
  have hcrlf : (octets "\r\n").length = 2 := rfl
  unfold inndGroups
  simp only [hbody]
  rw [List.append_assoc, List.length_append, List.length_append, h, hcrlf, List.drop_left' h,
    List.take_left' (by omega)]

theorem NGsplit_skip {ws : List UInt8} (hws : ∀ w ∈ ws, ISWHITE w = true) (p : List UInt8) :
    NGsplit (ws ++ p) = NGsplit p := by
  have hcolon : 58 ∉ ws := fun hmem => absurd (hws 58 hmem) (by decide)
  have hsep : ∀ w ∈ ws, nameEnd w = true := fun w hw => by rw [nameEnd, hws w hw, Bool.or_true]
  rw [NGsplit_eq, NGsplit_eq, tokens_skip hsep]
  simp only [List.mem_append, or_iff_right hcolon]

/-- A field whose text does not begin with a line end. -/
theorem headerLine_eq {Name q : List UInt8} {skip Len : ℕ} (hq : value.take (skip + Len) = q)
    (hstart : ∀ c ∈ q.head?, c ≠ 10) : headerLine Name ⟨value, skip, Len⟩ =
      Name ++ (if value.head?.any ISWHITE then octets ":" else octets ": ") ++ towireFrom 0 q ++
        octets "\r\n" := by
  unfold headerLine
  simp only [hq]
  split
  · have hwire : Towire q = some (towireFrom 0 q) := by
      cases q with
      | nil => rfl
      | cons c q =>
        rw [Towire.eq_def]
        split
        · next heq =>
          cases heq
          exact absurd rfl (hstart 10 rfl)
        · rfl
    rw [hwire]
    rfl
  · next hlf => rw [towireFrom_eq_self hlf]

/-- What innd takes from a field that is blanks and then a body. -/
theorem inndGroups_headerLine (conf : Innconf) {ws rest : List UInt8}
    (hws : ∀ w ∈ ws, ISWHITE w = true) (hc : ISWHITE c = false) (hlf : c ≠ 10) :
    inndGroups conf (headerLine (octets "Newsgroups")
      ⟨ws ++ c :: rest, ws.length, ((c :: rest).rdropWhile isspace).length⟩) =
      NGsplit (towireFrom 0 ((c :: rest).rdropWhile isspace)) := by
  obtain ⟨trail, htrail⟩ := List.rdropWhile_prefix isspace (l := c :: rest)
  generalize (c :: rest).rdropWhile isspace = t at htrail
  have htake : (ws ++ c :: rest).take (ws.length + t.length) = ws ++ t := by
    rw [List.take_length_add_append, ← htrail, List.take_left]
  have hstart : ∀ {prev prev' : UInt8}, towireFrom prev t = towireFrom prev' t := by
    intro prev prev'
    cases t with
    | nil => rfl
    | cons d t =>
      cases htrail
      exact towireFrom_congr hlf
  have hnolf : 10 ∉ ws := fun hmem => absurd (hws 10 hmem) (by decide)
  cases ws with
  | nil =>
    rw [headerLine_eq htake]
    · rw [if_neg (by rw [List.nil_append, List.head?_cons, Option.any_some, hc]; decide)]
      exact inndGroups_line conf rfl
    · intro d hd
      cases t with
      | nil => cases hd
      | cons e t =>
        cases htrail
        cases hd
        exact hlf
  | cons w ws =>
    rw [headerLine_eq htake]
    · have hws' : ∀ v ∈ ws, ISWHITE v = true := fun v hv => hws v (List.mem_cons_of_mem _ hv)
      have htext : octets "Newsgroups" ++ octets ":" ++ towireFrom 0 (w :: ws ++ t) ++ octets "\r\n" =
          (octets "Newsgroups" ++ octets ":" ++ [w]) ++ (ws ++ towireFrom 0 t) ++ octets "\r\n" := by
        rw [towireFrom_append, towireFrom_eq_self hnolf, @hstart _ 0]
        simp only [List.append_assoc, List.cons_append, List.nil_append]
      have hany : (w :: ws ++ c :: rest).head?.any ISWHITE = true := hws w List.mem_cons_self
      rw [if_pos hany, htext, inndGroups_line conf rfl, NGsplit_skip hws']
    · intro d hd
      cases hd
      rintro rfl
      exact hnolf List.mem_cons_self

/-- The body of the field. -/
def HDR (value : List UInt8) : List UInt8 := value.drop (skipFold value)

/-- What is not rejected matched the post list. -/
theorem ARTpost_permitted {post : Posting} {value : List UInt8}
    (h : ∀ text, ARTpost post value ≠ .rejected text) :
    ∀ p ∈ groupTokens (HDR value), post.PERMspecified = true →
      PERMmatch post.uwildmat post.PERMpostlist [groupName post p] = true := by
  have hBody : (⟨value, skipFold value, 0⟩ : HEADER).Body = HDR value := rfl
  unfold ARTpost at h
  simp only [hBody] at h
  cases hvalid : ValidNewsgroups post true (HDR value) with
  | error text =>
    rw [hvalid] at h
    exact absurd rfl (h text)
  | ok st => exact ValidNewsgroups_permitted hvalid

/-- What is sent of an article: what was checked of its groups, and what innd takes. -/
structure Sent (post : Posting) (conf : Innconf) (value line : List UInt8) : Prop where
  tokens : groupTokens (HDR value) ≠ []
  passes : ∀ p ∈ groupTokens (HDR value), Passes post (groupName post p)
  folds : bodyLoop true (HDR value) = true
  ascii : ∀ c ∈ HDR value, c < 0x80 → isprint c = true ∨ c = 13 ∨ c = 10 ∨ c = 9
  groups : inndGroups conf line = NGsplit (towireFrom 0 ((HDR value).rdropWhile isspace))

theorem sent_of_ARTpost {post : Posting} {conf : Innconf} {value line : List UInt8}
    (h : ARTpost post value = .sent line) : Sent post conf value line := by
  have hBody : (⟨value, skipFold value, 0⟩ : HEADER).Body = HDR value := rfl
  unfold ARTpost at h
  simp only [hBody] at h
  cases hvalid : ValidNewsgroups post true (HDR value) with
  | error text =>
    rw [hvalid] at h
    cases h
  | ok st =>
    rw [hvalid] at h
    simp only at h
    split at h
    · cases h
    split at h
    · cases h
    next hlen hsyntax =>
    have hmod : st.modgroup = none ∧ headerLine (octets "Newsgroups") ⟨value, skipFold value, TrimSpaces value⟩ =
        line := by
      split at h
      · cases h
      · cases h
      · next hnone =>
        exact ⟨hnone, Posted.sent.inj h⟩
    obtain ⟨hmod, hline⟩ := hmod
    obtain ⟨hne, hpasses⟩ := ValidNewsgroups_ok hvalid hmod
    rw [Bool.not_eq_true', Bool.not_eq_false] at hsyntax
    obtain ⟨hand, hfolds⟩ := Bool.and_eq_true_iff.mp hsyntax
    have hutf8 := (Bool.and_eq_true_iff.mp hand).2
    -- blanks, and then the body
    obtain ⟨ws, c, rest, rfl, hws, hc, hlf, hbody⟩ := bodyLoop_start hfolds
    have hskip := @skipFold_eq _ ws rest hws hc hlf
    have htrim := @TrimSpaces_eq _ ws rest hws hc hlf
    have hHDR : HDR (ws ++ c :: rest) = c :: rest := by
      unfold HDR
      rw [hskip, List.drop_left]
    rw [hHDR] at hne hpasses
    have hgroups : inndGroups conf line = NGsplit (towireFrom 0 ((c :: rest).rdropWhile isspace)) := by
      rw [← hline, hskip, htrim]
      exact inndGroups_headerLine conf hws hc hlf
    constructor
    · rw [hHDR]
      exact hne
    · rw [hHDR]
      exact hpasses
    · rw [hHDR]
      exact hbody
    · rw [hHDR]
      exact fun d hd => utf8Loop_ascii hutf8 (List.mem_append_right _ hd)
    · rw [hHDR]
      exact hgroups

end Body

/-! ## Agreement -/

section Agree

variable {post : Posting} {conf : Innconf} {value line : List UInt8}

/-- innd takes the groups that were checked, each of which passed under the name innd knows it
by. -/
structure Agrees (post : Posting) (conf : Innconf) (value line : List UInt8) : Prop where
  names : inndGroups conf line = (groupTokens (HDR value)).map (groupName post)
  passes : ∀ g ∈ inndGroups conf line, Passes post g

/-- A group that `mergetogroups` gives another name. -/
def IsTo (p : List UInt8) : Prop := octets "to." <+: p

instance (p : List UInt8) : Decidable (IsTo p) := inferInstanceAs (Decidable (octets "to." <+: p))

/-- No blanks (and so no folds), no colons, and no group with another name. -/
structure Plain (post : Posting) (hdr : List UInt8) : Prop where
  unbroken : ∀ c ∈ hdr, ISWHITE c = false ∧ c ≠ 58
  named : post.mergetogroups = true → ∀ p ∈ groupTokens hdr, ¬ IsTo p

theorem groupName_eq {p : List UInt8} (h : post.mergetogroups = true → ¬ IsTo p) :
    groupName post p = p := by
  unfold groupName
  rw [if_neg]
  rintro hand
  obtain ⟨hmerge, hto⟩ := Bool.and_eq_true_iff.mp hand
  exact h hmerge (List.isPrefixOf_iff_prefix.mp hto)

/-- No group has the name of one that is merged. -/
theorem not_isTo_groupName (hmerge : post.mergetogroups = true) (p : List UInt8) :
    ¬ IsTo (groupName post p) := by
  unfold groupName
  split
  · exact fun hto => absurd hto.length_le (by decide)
  · next hand =>
    rw [hmerge, Bool.true_and] at hand
    exact fun hto => hand (List.isPrefixOf_iff_prefix.mpr hto)

theorem groups_eq_map (h : post.mergetogroups = true → ∀ p ∈ groupTokens (HDR value), ¬ IsTo p) :
    (groupTokens (HDR value)).map (groupName post) = groupTokens (HDR value) :=
  (List.map_congr_left fun p hp => groupName_eq fun hmerge => h hmerge p hp).trans (List.map_id _)

/-- What ends a valid body is a blank or part of a fold. -/
theorem isspace_valid {c : UInt8} (hspace : isspace c = true)
    (hascii : c < 0x80 → isprint c = true ∨ c = 13 ∨ c = 10 ∨ c = 9) :
    ISWHITE c = true ∨ c = 10 ∨ c = 13 := by
  unfold isspace at hspace
  unfold isprint at hascii
  unfold ISWHITE
  simp only [Bool.or_eq_true, Bool.and_eq_true, beq_iff_eq, decide_eq_true_eq, UInt8.le_iff_toNat_le,
    UInt8.lt_iff_toNat_lt, ← UInt8.toNat_inj] at hspace hascii ⊢
  simp only [UInt8.reduceToNat] at hspace hascii ⊢
  omega

/-- What is sent of a plain body is the body. -/
theorem Sent.plain (h : Sent post conf value line) (hplain : ∀ c ∈ HDR value, ISWHITE c = false) :
    towireFrom 0 ((HDR value).rdropWhile isspace) = HDR value := by
  have hunfolded := bodyLoop_unfolded h.folds hplain
  have htrim : (HDR value).rdropWhile isspace = HDR value := by
    rw [List.rdropWhile_eq_self_iff]
    intro hne hspace
    have hmem := List.getLast_mem hne
    rcases isspace_valid hspace (h.ascii _ hmem) with hwhite | hlf | hcr
    · exact Bool.false_ne_true ((hplain _ hmem).symm.trans hwhite)
    · exact (hunfolded _ hmem).1 hlf
    · exact (hunfolded _ hmem).2 hcr
  rw [htrim]
  exact towireFrom_eq_self fun hlf => (hunfolded 10 hlf).1 rfl

theorem Sent.agrees (h : Sent post conf value line) (hplain : Plain post (HDR value)) :
    Agrees post conf value line := by
  have hcolon : 58 ∉ HDR value := fun hmem => (hplain.unbroken 58 hmem).2 rfl
  have hnames : inndGroups conf line = (groupTokens (HDR value)).map (groupName post) := by
    rw [h.groups, h.plain fun c hc => (hplain.unbroken c hc).1, NGsplit_eq, if_neg hcolon,
      groups_eq_map hplain.named]
    refine tokens_congr fun c hc => ?_
    rw [nameEnd, (hplain.unbroken c hc).1, Bool.or_false]
  refine ⟨hnames, fun g hg => ?_⟩
  rw [hnames] at hg
  obtain ⟨p, hp, rfl⟩ := List.mem_map.mp hg
  exact h.passes p hp

/-- What is trimmed begins behind the last character that is not space. -/
theorem rdropWhile_append_of_neg {l : List UInt8} {c : UInt8} (hc : isspace c = false) (p : List UInt8) :
    ∃ tail, (l ++ [c] ++ p).rdropWhile isspace = l ++ [c] ++ tail := by
  induction p using List.reverseRecOn with
  | nil =>
    rw [List.append_nil, List.rdropWhile_concat_neg _ _ _ (hc ▸ Bool.false_ne_true)]
    exact ⟨[], (List.append_nil _).symm⟩
  | append_singleton p d ih =>
    rw [← List.append_assoc]
    by_cases hd : isspace d = true
    · rw [List.rdropWhile_concat_pos _ _ _ hd]
      exact ih
    · rw [List.rdropWhile_concat_neg _ _ _ hd, List.append_assoc]
      exact ⟨p ++ [d], rfl⟩

/-- A group that would be merged is one of those innd takes, if it takes any. -/
theorem exists_isTo {hdr p : List UInt8} (hp : p ∈ groupTokens hdr) (hto : IsTo p)
    (hne : NGsplit (towireFrom 0 (hdr.rdropWhile isspace)) ≠ []) :
    ∃ g ∈ NGsplit (towireFrom 0 (hdr.rdropWhile isspace)), IsTo g := by
  obtain ⟨rest, rfl⟩ := hto
  obtain ⟨pre, behind, hsplit, hpre⟩ := split_of_mem_tokens hp
  -- the name does not end in what is trimmed
  obtain ⟨tail, htail⟩ : ∃ tail, hdr.rdropWhile isspace = pre ++ octets "to." ++ tail := by
    have hto : octets "to." = [116, 111, 46] := rfl
    obtain ⟨tail, htail⟩ := rdropWhile_append_of_neg (l := pre ++ [116, 111]) (c := 46)
      (show isspace 46 = false from rfl) (rest ++ behind)
    refine ⟨tail, ?_⟩
    rw [hsplit, hto]
    simpa only [List.append_assoc, List.cons_append, List.nil_append] using htail
  have hpre' : ∀ d ∈ (towireFrom 0 pre).getLast?, nameEnd d = true := by
    intro d hd
    rw [getLast?_towireFrom] at hd
    rw [nameEnd, hpre d hd, Bool.true_or]
  have hto : towireFrom (pre.getLast?.getD 0) (octets "to.") = octets "to." :=
    towireFrom_eq_self (by decide)
  rw [NGsplit_eq] at hne ⊢
  split at hne
  · exact absurd rfl hne
  · next hcolon =>
    rw [if_neg hcolon, htail, towireFrom_append, towireFrom_append, hto]
    exact exists_prefix_tokens hpre' (by decide +kernel) (by decide +kernel) _

/-- The groups agree exactly when the body is plain. -/
theorem groups_agree_iff (h : ARTpost post value = .sent line) :
    Agrees post conf value line ↔ Plain post (HDR value) := by
  have hsent : Sent post conf value line := sent_of_ARTpost h
  refine ⟨fun hagrees => ?_, hsent.agrees⟩
  have hnames := hagrees.names
  have hne : inndGroups conf line ≠ [] := by
    rw [hnames]
    exact fun hnil => hsent.tokens (List.map_eq_nil_iff.mp hnil)
  have hnamed : post.mergetogroups = true → ∀ p ∈ groupTokens (HDR value), ¬ IsTo p := by
    intro hmerge p hp hto
    rw [hsent.groups] at hne hnames
    obtain ⟨g, hg, hto⟩ := exists_isTo hp hto hne
    rw [hnames] at hg
    obtain ⟨q, -, rfl⟩ := List.mem_map.mp hg
    exact not_isTo_groupName hmerge q hto
  refine ⟨fun c hc => ?_, hnamed⟩
  rw [groups_eq_map hnamed, hsent.groups, NGsplit_eq] at hnames
  rw [hsent.groups, NGsplit_eq] at hne
  split at hnames
  · next hcolon => exact absurd (if_pos hcolon) hne
  · next hcolon =>
    cases hcomma : NG_ISSEP c with
    | true =>
      have hc44 : c = 44 := eq_of_beq hcomma
      rw [hc44]
      decide
    | false =>
      -- a name that innd takes has it
      obtain ⟨p, hp, hcp⟩ := exists_mem_tokens hc hcomma
      have hp : p ∈ tokens nameEnd (towireFrom 0 ((HDR value).rdropWhile isspace)) := by
        rw [hnames]
        exact hp
      obtain ⟨hend, hmem⟩ := mem_of_mem_tokens hp hcp
      refine ⟨((Bool.or_eq_false_iff).mp hend).2, ?_⟩
      rintro rfl
      exact hcolon hmem

/-- A reader that may post to all groups but the private ones, and two groups. -/
def publicPosting : Posting where
  uwildmat text pat := pat == octets "*" || pat == octets "private.*" && (octets "private.").isPrefixOf text
  mergetogroups := true
  PERMspecified := true
  PERMpostlist := [octets "*", octets "!private.*"]
  allowapproved := false
  locpost := true
  OVgroupstats p := if p = octets "a.b" ∨ p = octets "c" ∨ p = octets "private.d" then some 121 else none
  IsNewgroup := false
  approved := false
  others := none

theorem groups_agree_iff_plain : Agrees publicPosting ⟨1000, false⟩ (octets " a.b,c,e")
    (octets "Newsgroups: a.b,c,e\r\n") :=
  (groups_agree_iff (show ARTpost publicPosting (octets " a.b,c,e") =
    .sent (octets "Newsgroups: a.b,c,e\r\n") by decide)).mpr
    ⟨by decide +kernel, fun _ => by decide +kernel⟩

/-- A blank behind a comma hides a private group from nnrpd. -/
theorem blank_hides_group : ¬ ∀ (post : Posting) (conf : Innconf) (value line : List UInt8),
    ARTpost post value = .sent line → Agrees post conf value line := by
  intro hall
  have hagrees := hall publicPosting ⟨1000, false⟩ (octets " a.b, private.d")
    (octets "Newsgroups: a.b, private.d\r\n") (by decide)
  -- innd takes the private group, which does not match the post list
  have hgroup : octets "private.d" ∈
      inndGroups ⟨1000, false⟩ (octets "Newsgroups: a.b, private.d\r\n") := by decide
  exact absurd ((hagrees.passes _ hgroup).permitted rfl) (by decide)

end Agree

end Inn.Nnrpd
