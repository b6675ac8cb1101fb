import Inn.Innd.Channel

/-!
# Inn.Nnrpd.Wire — looking around in an article in wire format

The functions of `lib/wire.c` take pointers into an article. A pointer is what follows it,
up to the end of the article, so that the distance of two pointers is the difference of
two lengths, and the pointer to the last octet is a list of length one.

* `wireFindheader`, `wireEndheader` — the functions;
* `Block`, `Field` — header fields that are not the one looked for, and the one that is;
  `wireFindheader_field` and `wireEndheader_field` say what the functions return.
-/

namespace Inn.Nnrpd

open Inn.Innd

/-- CRLF. -/
def crlf : List UInt8 := [13, 10]

/-! ## The functions -/

/-- `wire_nextline`: what follows the next CRLF, unless that is at the end. -/
def wireNextline : List UInt8 → Option (List UInt8)
  | [] => none
  | c :: p => if c = 13 ∧ p.head? = some 10 ∧ 2 ≤ p.length then some p.tail else wireNextline p

/-- `isheader`: the line begins with the name, a colon and white space. -/
def isheader (line header : List UInt8) : Bool :=
  (line)[header.length]? == some 58 && ((line)[header.length + 1]?).any ISWHITE &&
    (line.take header.length).map tolower == header.map tolower

/-- `skip_fws_bounded`. -/
def skipFws : List UInt8 → Option (List UInt8)
  | [] => none
  | 13 :: 10 :: c :: p => if ISWHITE c then skipFws p else some (13 :: 10 :: c :: p)
  | c :: p => if ISWHITE c then skipFws p else some (c :: p)

/-- The loop of `wire_findheader`; a line has two octets at least. -/
def findheaderFrom (header : List UInt8) (stripspaces : Bool) :
    ℕ → List UInt8 → Option (List UInt8)
  | 0, _ => none
  | fuel + 1, p =>
    if p.length ≤ header.length + 3 then none
    else if p.take 2 = crlf then none
    else if isheader p header then
      let p := p.drop (header.length + 2)
      match if stripspaces then skipFws p else some p with
      | none => none
      | some p =>
        if p.length ≤ 1 ∨ p.take 2 ≠ crlf then some p
        else (wireNextline p).bind (findheaderFrom header stripspaces fuel)
    else (wireNextline p).bind (findheaderFrom header stripspaces fuel)

/-- `wire_findheader`. -/
def wireFindheader (article header : List UInt8) (stripspaces : Bool) : Option (List UInt8) :=
  findheaderFrom header stripspaces article.length article

/-- The loop of `wire_endheader`: the octet before the first line that does not begin with
white space. -/
def endheaderFrom : ℕ → Option (List UInt8) → Option (List UInt8)
  | 0, _ => none
  | _ + 1, none => none
  | fuel + 1, some p =>
    if p.head?.any ISWHITE then endheaderFrom fuel (wireNextline p) else some (10 :: p)

/-- `wire_endheader`. -/
def wireEndheader (header : List UInt8) : Option (List UInt8) :=
  match endheaderFrom header.length (wireNextline header) with
  | some p => some p
  | none => if crlf <:+ header then some [10] else none

/-! ## Lines and fields -/

/-- Each CRLF inside goes on with white space. -/
def Folded (l : List UInt8) : Prop :=
  ∀ a r, l = a ++ crlf ++ r → ∃ c r', r = c :: r' ∧ ISWHITE c = true

/-- Folding white space. -/
inductive Fws : List UInt8 → Prop where
  | nil : Fws []
  | blank {c : UInt8} {l : List UInt8} : ISWHITE c = true → Fws l → Fws (c :: l)
  | fold {c : UInt8} {l : List UInt8} : ISWHITE c = true → Fws l → Fws (13 :: 10 :: c :: l)

/-- A header field, without its last CRLF, that is not the one looked for. -/
structure Block (header l : List UInt8) : Prop where
  folded : Folded l
  start : ∃ c l', l = c :: l' ∧ ISWHITE c = false ∧ c ≠ 13
  other : ∀ rest, isheader (l ++ crlf ++ rest) header = false

/-- A header field: its name in any case, a colon, white space, and a body that begins with
something else. -/
structure Field (header : List UInt8) where
  label : List UInt8
  white : UInt8
  lead : List UInt8
  body : List UInt8
  label_eq : label.map tolower = header.map tolower
  white_eq : ISWHITE white = true
  fws : Fws lead
  start : ∃ c b, body = c :: b ∧ ISWHITE c = false ∧ c ≠ 13
  folded : Folded (label ++ [58, white] ++ lead ++ body)

namespace Field

variable {header : List UInt8} (f : Field header)

/-- What comes before the body. -/
def intro : List UInt8 := f.label ++ [58, f.white] ++ f.lead

/-- The field, without its last CRLF. -/
def text : List UInt8 := f.intro ++ f.body

theorem length_label : f.label.length = header.length := by
  rw [← List.length_map tolower, f.label_eq, List.length_map]

end Field

section Nextline

variable {l m p header : List UInt8}

theorem crlf_eq : crlf = [13, 10] := rfl

/-- The next line, where there is none before. -/
theorem wireNextline_append (hl : ¬ crlf <:+: l) (hm : m ≠ []) :
    wireNextline (l ++ crlf ++ m) = some m := by
  obtain ⟨d, m', rfl⟩ := List.exists_cons_of_ne_nil hm
  induction l with
  | nil =>
    rw [List.nil_append, crlf_eq, List.cons_append, wireNextline, if_pos]
    · rfl
    · exact ⟨rfl, rfl, Nat.le_add_left 2 m'.length⟩
  | cons c l ih =>
    have hl' : ¬ crlf <:+: l := fun h => hl (h.trans (List.suffix_cons c l).isInfix)
    rw [List.cons_append, List.cons_append, wireNextline, if_neg, ih hl']
    rintro ⟨rfl, hhead, -⟩
    rcases l with _ | ⟨c', l⟩
    · cases hhead
    · cases hhead
      exact hl (List.prefix_append [13, 10] l).isInfix

theorem wireNextline_last (hl : ¬ crlf <:+: l) : wireNextline (l ++ crlf) = none := by
  induction l with
  | nil => rfl
  | cons c l ih =>
    have hl' : ¬ crlf <:+: l := fun h => hl (h.trans (List.suffix_cons c l).isInfix)
    rw [List.cons_append, wireNextline, if_neg, ih hl']
    rintro ⟨rfl, hhead, -⟩
    rcases l with _ | ⟨c', l⟩
    · cases hhead
    · cases hhead
      exact hl (List.prefix_append [13, 10] l).isInfix

/-- The next line is shorter. -/
theorem length_wireNextline (h : wireNextline l = some p) : p.length < l.length := by
  induction l with
  | nil => cases h
  | cons c l ih =>
    rw [wireNextline] at h
    split at h
    · rename_i hc
      cases h
      rw [List.length_tail, List.length_cons]
      omega
    · exact (ih h).trans (Nat.lt_succ_self _)

/-- The first CRLF of a text, if there is one. -/
theorem split_crlf (l : List UInt8) : ¬ crlf <:+: l ∨ ∃ a r, l = a ++ crlf ++ r ∧ ¬ crlf <:+: a := by
  induction l with
  | nil => exact .inl fun h => absurd (List.infix_nil.mp h) (by decide)
  | cons c l ih =>
    by_cases hc : [c] ++ l.take 1 = crlf
    · refine .inr ⟨[], l.drop 1, ?_, fun h => absurd (List.infix_nil.mp h) (by decide)⟩
      rw [List.nil_append, ← hc, List.append_assoc, List.take_append_drop]
      rfl
    · rcases ih with hno | ⟨a, r, rfl, ha⟩
      · refine .inl fun h => ?_
        rcases List.infix_cons_iff.mp h with hpre | hin
        · obtain ⟨t, ht⟩ := hpre
          rw [crlf_eq] at ht
          cases ht
          exact hc rfl
        · exact hno hin
      · refine .inr ⟨c :: a, r, rfl, fun h => ?_⟩
        rcases List.infix_cons_iff.mp h with hpre | hin
        · obtain ⟨t, ht⟩ := hpre
          rw [crlf_eq] at ht
          cases ht
          exact hc rfl
        · exact ha hin

theorem Folded.tail {a r : List UInt8} (h : Folded (a ++ crlf ++ r)) : Folded r := by
  intro a' r' hr
  refine h (a ++ crlf ++ a') r' ?_
  rw [hr]
  simp only [List.append_assoc]

end Nextline

/-! ## What the functions return -/

section Find

variable {header b rest p q : List UInt8} {strip : Bool}

theorem length_skipFws (h : skipFws p = some q) : q.length ≤ p.length := by
  fun_induction skipFws p with
  | case1 => cases h
  | case2 c p hc ih => exact (ih h).trans (by simp only [List.length_cons]; omega)
  | case3 => cases h; exact Nat.le_refl _
  | case4 c p _ hc ih => exact (ih h).trans (Nat.le_succ _)
  | case5 => cases h; exact Nat.le_refl _

/-- Folding white space is skipped. -/
theorem skipFws_append {c : UInt8} {l : List UInt8} (hfws : Fws l) (hc : ISWHITE c = false)
    (hcr : c ≠ 13) : skipFws (l ++ c :: rest) = some (c :: rest) := by
  have hwhite : ∀ {w : UInt8} {m : List UInt8}, ISWHITE w = true → skipFws (w :: m) = skipFws m := by
    intro w m hw
    rw [skipFws.eq_def]
    split
    · rename_i heq
      cases heq
    · rename_i heq
      cases heq
      exact absurd hw (by decide)
    · rename_i heq
      cases heq
      rw [if_pos hw]
  induction hfws with
  | nil =>
    rw [List.nil_append, skipFws.eq_def]
    split
    · rename_i heq
      cases heq
    · rename_i heq
      cases heq
      exact absurd rfl hcr
    · rename_i heq
      cases heq
      rw [if_neg (by rw [hc]; exact Bool.false_ne_true)]
  | blank hw _ ih =>
    rw [List.cons_append, hwhite hw]
    exact ih
  | fold hw _ ih =>
    rw [List.cons_append, List.cons_append, List.cons_append, skipFws, if_pos hw]
    exact ih

/-- More fuel than octets makes no difference. -/
theorem findheaderFrom_fuel {n m : ℕ} (hn : p.length ≤ n) (hm : p.length ≤ m) :
    findheaderFrom header strip n p = findheaderFrom header strip m p := by
  induction n generalizing m p with
  | zero =>
    have hp : p = [] := List.length_eq_zero_iff.mp (Nat.le_zero.mp hn)
    subst hp
    cases m with
    | zero => rfl
    | succ m => rw [findheaderFrom, findheaderFrom,
        if_pos (show ([] : List UInt8).length ≤ header.length + 3 from Nat.zero_le _)]
  | succ n ih =>
    cases m with
    | zero =>
      have hp : p = [] := List.length_eq_zero_iff.mp (Nat.le_zero.mp hm)
      subst hp
      rw [findheaderFrom, findheaderFrom,
        if_pos (show ([] : List UInt8).length ≤ header.length + 3 from Nat.zero_le _)]
    | succ m =>
      have hnext : ∀ p', p'.length ≤ p.length →
          (wireNextline p').bind (findheaderFrom header strip n) =
            (wireNextline p').bind (findheaderFrom header strip m) := by
        intro p' hp'
        rcases hq : wireNextline p' with _ | q
        · rfl
        · have := length_wireNextline hq
          exact ih (by omega) (by omega)
      rw [findheaderFrom, findheaderFrom, hnext p (Nat.le_refl _)]
      congr 3
      dsimp only
      split
      · rfl
      · rename_i p' hp'
        have hle : p'.length ≤ p.length := by
          split at hp'
          · have := length_skipFws hp'
            rw [List.length_drop] at this
            omega
          · cases hp'
            rw [List.length_drop]
            omega
        rw [hnext p' hle]

/-- A line that is something else. -/
theorem wireFindheader_next (hlen : header.length + 3 < p.length) (hblank : p.take 2 ≠ crlf)
    (hother : isheader p header = false) (hnext : wireNextline p = some q) :
    wireFindheader p header strip = wireFindheader q header strip := by
  have hlt := length_wireNextline hnext
  obtain ⟨n, hn⟩ : ∃ n, p.length = n + 1 := ⟨p.length - 1, by omega⟩
  rw [wireFindheader, hn, findheaderFrom, if_neg (by omega), if_neg hblank, if_neg (by
    rw [hother]; exact Bool.false_ne_true), hnext, Option.bind_some, wireFindheader]
  exact findheaderFrom_fuel (by omega) (Nat.le_refl _)

/-- A continuation line is no header field. -/
theorem isheader_white {c h : UInt8} {l hs : List UInt8} (hc : ISWHITE c = true)
    (hh : 33 ≤ tolower h) : isheader (c :: l) (h :: hs) = false := by
  have hlower : tolower c = c := by
    rcases (Bool.or_eq_true _ _).mp hc with h | h <;> rw [beq_iff_eq.mp h] <;> rfl
  have hne : ((c :: l).take (h :: hs).length).map tolower ≠ (h :: hs).map tolower := by
    rw [List.length_cons, List.take_succ_cons, List.map_cons, List.map_cons, hlower]
    intro heq
    rw [← (List.cons.inj heq).1] at hh
    rcases (Bool.or_eq_true _ _).mp hc with h | h <;> rw [beq_iff_eq.mp h] at hh <;>
      exact absurd hh (by decide)
  rw [isheader, Bool.and_eq_false_iff]
  exact .inr (beq_eq_false_iff_ne.mpr hne)

theorem take_two_ne_crlf {c : UInt8} {l : List UInt8} (hc : c ≠ 13) : (c :: l).take 2 ≠ crlf := by
  intro h
  rw [crlf_eq, List.take_succ_cons] at h
  exact hc (List.cons.inj h).1

/-- All lines of a field are passed over. -/
theorem wireFindheader_folded {h : UInt8} {hs : List UInt8} (hh : 33 ≤ tolower h)
    (hrest : hs.length + 4 < rest.length) {n : ℕ} (hn : b.length ≤ n) (hfolded : Folded b)
    (hstart : ∃ c l, b = c :: l ∧ c ≠ 13)
    (hother : isheader (b ++ crlf ++ rest) (h :: hs) = false) :
    wireFindheader (b ++ crlf ++ rest) (h :: hs) strip = wireFindheader rest (h :: hs) strip := by
  induction n generalizing b with
  | zero =>
    obtain ⟨c, l, rfl, -⟩ := hstart
    cases hn
  | succ n ih =>
    have hne : rest ≠ [] := List.ne_nil_of_length_pos (by omega)
    have hblank : (b ++ crlf ++ rest).take 2 ≠ crlf := by
      obtain ⟨c, l, rfl, hc⟩ := hstart
      exact take_two_ne_crlf hc
    have hlen : (h :: hs).length + 3 < (b ++ crlf ++ rest).length := by
      rw [List.length_append, List.length_cons]
      omega
    rcases split_crlf b with hno | ⟨a, r, rfl, ha⟩
    · exact wireFindheader_next hlen hblank hother (wireNextline_append hno hne)
    · -- the line is continued
      obtain ⟨c, r', rfl, hc⟩ := hfolded a r rfl
      have happ : a ++ crlf ++ c :: r' ++ crlf ++ rest = a ++ crlf ++ (c :: r' ++ crlf ++ rest) := by
        simp only [List.append_assoc, List.cons_append]
      rw [happ] at hlen hblank hother ⊢
      rw [wireFindheader_next hlen hblank hother (wireNextline_append ha (List.cons_ne_nil _ _))]
      refine ih ?_ hfolded.tail ⟨c, r', rfl, fun h13 => ?_⟩ ?_
      · rw [List.length_append, List.length_append] at hn
        have : crlf.length = 2 := rfl
        omega
      · rw [h13] at hc
        exact absurd hc (by decide)
      · exact isheader_white hc hh

/-- The lines before the field that is looked for. -/
theorem wireFindheader_blocks {h : UInt8} {hs : List UInt8} (hh : 33 ≤ tolower h)
    (hrest : hs.length + 4 < rest.length) {blocks : List (List UInt8)}
    (hblocks : ∀ b ∈ blocks, Block (h :: hs) b) :
    wireFindheader (blocks.flatMap (· ++ crlf) ++ rest) (h :: hs) strip =
      wireFindheader rest (h :: hs) strip := by
  induction blocks with
  | nil => rfl
  | cons b blocks ih =>
    have hb := hblocks b List.mem_cons_self
    obtain ⟨c, l, hl, -, hc⟩ := hb.start
    rw [List.flatMap_cons, List.append_assoc, wireFindheader_folded hh ?_ (Nat.le_refl _) hb.folded
      ⟨c, l, hl, hc⟩ (hb.other _), ih fun b' hb' => hblocks b' (List.mem_cons_of_mem b hb')]
    rw [List.length_append]
    omega

theorem isheader_field (f : Field header) (rest : List UInt8) :
    isheader (f.text ++ rest) header = true := by
  have hlen := f.length_label
  have htext : f.text ++ rest = f.label ++ 58 :: f.white :: (f.lead ++ f.body ++ rest) := by
    simp only [Field.text, Field.intro, List.append_assoc, List.cons_append, List.nil_append]
  have hget : ∀ i, (f.text ++ rest)[header.length + i]? =
      (58 :: f.white :: (f.lead ++ f.body ++ rest))[i]? := fun i => by
    rw [htext, List.getElem?_append_right (by omega), hlen, Nat.add_sub_cancel_left]
  have hcolon : (f.text ++ rest)[header.length]? = some 58 := hget 0
  have hwhite : (f.text ++ rest)[header.length + 1]? = some f.white := hget 1
  rw [isheader, hcolon, hwhite, htext, ← hlen, List.take_left, f.label_eq]
  rw [Option.any_some, f.white_eq, beq_self_eq_true, beq_self_eq_true]
  rfl

/-- A name begins with a letter. -/
theorem Field.label_start {h : UInt8} {hs : List UInt8} (hh : 33 ≤ tolower h) (f : Field (h :: hs)) :
    ∃ d label, f.label = d :: label ∧ ISWHITE d = false ∧ d ≠ 13 := by
  obtain ⟨d, label, hlabel⟩ : ∃ d label, f.label = d :: label :=
    List.exists_cons_of_length_pos (by rw [f.length_label]; exact Nat.succ_pos _)
  have hd : tolower d = tolower h := by
    have := f.label_eq
    rw [hlabel, List.map_cons, List.map_cons] at this
    exact (List.cons.inj this).1
  rw [← hd] at hh
  refine ⟨d, label, hlabel, ?_, fun h13 => ?_⟩
  · rw [← Bool.not_eq_true]
    intro hw
    rcases (Bool.or_eq_true _ _).mp hw with h | h <;> rw [beq_iff_eq.mp h] at hh <;>
      exact absurd hh (by decide)
  · rw [h13] at hh
    exact absurd hh (by decide)

theorem Field.folded_body (f : Field header) : Folded f.body := by
  intro a r hr
  refine f.folded (f.label ++ [58, f.white] ++ f.lead ++ a) r ?_
  rw [hr]
  simp only [List.append_assoc]

/-- A field is passed over when another one is looked for. -/
theorem Field.block {h h' : UInt8} {hs hs' : List UInt8} (hh : 33 ≤ tolower h) (f : Field (h :: hs))
    (hlen : hs'.length = hs.length) (hne : (h :: hs).map tolower ≠ (h' :: hs').map tolower) :
    Block (h' :: hs') f.text where
  folded := f.folded
  start := by
    obtain ⟨d, label, hlabel, hwhite, hcr⟩ := f.label_start hh
    exact ⟨d, label ++ [58, f.white] ++ f.lead ++ f.body, by
      rw [Field.text, Field.intro, hlabel]
      rfl, hwhite, hcr⟩
  other rest := by
    have htext : f.text ++ crlf ++ rest =
        f.label ++ ([58, f.white] ++ (f.lead ++ (f.body ++ (crlf ++ rest)))) := by
      simp only [Field.text, Field.intro, List.append_assoc]
    have hlabel : f.label.length = (h' :: hs').length := by
      rw [f.length_label, List.length_cons, List.length_cons, hlen]
    rw [isheader, htext, ← hlabel, List.take_left, f.label_eq, Bool.and_eq_false_iff]
    exact .inr (beq_eq_false_iff_ne.mpr hne)

/-- The field that is looked for: a pointer to its body. -/
theorem wireFindheader_field {h : UInt8} {hs : List UInt8} (hh : 33 ≤ tolower h)
    (f : Field (h :: hs)) (rest : List UInt8) :
    wireFindheader (f.text ++ crlf ++ rest) (h :: hs) true = some (f.body ++ crlf ++ rest) := by
  have hlen := f.length_label
  obtain ⟨c, body, hbody, hc, hcr⟩ := f.start
  obtain ⟨d, label, hlabel, -, hd⟩ := f.label_start hh
  have htext : f.text ++ crlf ++ rest =
      f.label ++ [58, f.white] ++ (f.lead ++ c :: (body ++ crlf ++ rest)) := by
    simp only [Field.text, Field.intro, hbody, List.append_assoc, List.cons_append]
  have hdrop : (f.text ++ crlf ++ rest).drop ((h :: hs).length + 2) =
      f.lead ++ c :: (body ++ crlf ++ rest) := by
    rw [htext, ← hlen]
    exact List.drop_left' (by rw [List.length_append]; rfl)
  have hlong : (h :: hs).length + 3 < (f.text ++ crlf ++ rest).length := by
    have : [58, f.white].length = 2 := rfl
    have : crlf.length = 2 := rfl
    simp only [htext, List.length_append, List.length_cons, hlen]
    omega
  have hblank : (f.text ++ crlf ++ rest).take 2 ≠ crlf := by
    rw [htext, hlabel]
    exact take_two_ne_crlf hd
  obtain ⟨n, hn⟩ : ∃ n, (f.text ++ crlf ++ rest).length = n + 1 :=
    ⟨(f.text ++ crlf ++ rest).length - 1, by omega⟩
  rw [wireFindheader, hn, findheaderFrom, if_neg (by omega), if_neg hblank,
    List.append_assoc f.text crlf rest, if_pos (isheader_field f _), ← List.append_assoc f.text]
  dsimp only
  rw [hdrop, if_pos rfl, skipFws_append f.fws hc hcr]
  dsimp only
  rw [if_pos (.inr (take_two_ne_crlf hcr)), hbody]
  rfl

/-- A name that begins with a letter. -/
def IsName (header : List UInt8) : Prop := ∃ h hs, header = h :: hs ∧ 33 ≤ tolower h

theorem Field.length_text (f : Field header) : header.length + 3 ≤ f.text.length := by
  obtain ⟨c, body, hbody, -, -⟩ := f.start
  simp only [Field.text, Field.intro, hbody, List.length_append, List.length_cons, f.length_label]
  omega

/-- The field that is looked for, behind others. -/
theorem wireFindheader_behind (hname : IsName header) (f : Field header) {blocks : List (List UInt8)}
    (hblocks : ∀ b ∈ blocks, Block header b) (rest : List UInt8) :
    wireFindheader (blocks.flatMap (· ++ crlf) ++ (f.text ++ (crlf ++ rest))) header true =
      some (f.body ++ (crlf ++ rest)) := by
  obtain ⟨h, hs, rfl, hh⟩ := hname
  have hlen := f.length_text
  have hcrlf : crlf.length = 2 := rfl
  rw [wireFindheader_blocks hh ?_ hblocks, ← List.append_assoc, wireFindheader_field hh,
    List.append_assoc]
  rw [List.length_append, List.length_append]
  rw [List.length_cons] at hlen
  omega

/-- A field is passed over when one of the same length is looked for. -/
theorem Field.isBlock {header' : List UInt8} (hname : IsName header) (hname' : IsName header')
    (f : Field header) (hlen : header'.length = header.length)
    (hne : header.map tolower ≠ header'.map tolower) : Block header' f.text := by
  obtain ⟨h, hs, rfl, hh⟩ := hname
  obtain ⟨h', hs', rfl, -⟩ := hname'
  exact f.block hh (Nat.succ_injective hlen) hne

/-- Neither a field nor a block begins with white space. -/
theorem Field.head_text (hname : IsName header) (f : Field header) (rest : List UInt8) :
    (f.text ++ rest).head?.any ISWHITE = false := by
  obtain ⟨h, hs, rfl, hh⟩ := hname
  obtain ⟨d, label, hlabel, hd, -⟩ := f.label_start hh
  rw [Field.text, Field.intro, hlabel]
  exact hd

theorem head_blocks {blocks : List (List UInt8)} (hblocks : ∀ b ∈ blocks, Block header b)
    (hrest : rest.head?.any ISWHITE = false) :
    (blocks.flatMap (· ++ crlf) ++ rest).head?.any ISWHITE = false := by
  rcases blocks with _ | ⟨b, blocks⟩
  · exact hrest
  · obtain ⟨c, l, hl, hc, -⟩ := (hblocks b List.mem_cons_self).start
    rw [List.flatMap_cons, hl]
    exact hc

end Find

/-! ## The end of a field -/

section Endheader

variable {b rest : List UInt8}

/-- The line feed of the CRLF behind a field body. -/
theorem endheaderFrom_folded (hrest : rest ≠ []) (hwhite : rest.head?.any ISWHITE = false) {n : ℕ}
    (hn : b.length < n) (hfolded : Folded b) :
    endheaderFrom n (wireNextline (b ++ crlf ++ rest)) = some (10 :: rest) := by
  induction n generalizing b with
  | zero => cases hn
  | succ n ih =>
    rcases split_crlf b with hno | ⟨a, r, rfl, ha⟩
    · rw [wireNextline_append hno hrest, endheaderFrom, hwhite, if_neg Bool.false_ne_true]
    · obtain ⟨c, r', rfl, hc⟩ := hfolded a r rfl
      have happ : a ++ crlf ++ c :: r' ++ crlf ++ rest = a ++ crlf ++ (c :: r' ++ crlf ++ rest) := by
        simp only [List.append_assoc, List.cons_append]
      have hnext : wireNextline (a ++ crlf ++ (c :: r' ++ crlf ++ rest)) =
          some (c :: r' ++ crlf ++ rest) := wireNextline_append ha (List.cons_ne_nil _ _)
      have hhead : (c :: r' ++ crlf ++ rest).head?.any ISWHITE = true := hc
      rw [happ, hnext, endheaderFrom, hhead, if_pos rfl]
      refine ih ?_ hfolded.tail
      rw [List.length_append, List.length_append, show crlf.length = 2 from rfl] at hn
      omega

theorem endheaderFrom_last {n : ℕ} (hn : b.length < n) (hfolded : Folded b) :
    endheaderFrom n (wireNextline (b ++ crlf)) = none := by
  induction n generalizing b with
  | zero => cases hn
  | succ n ih =>
    rcases split_crlf b with hno | ⟨a, r, rfl, ha⟩
    · rw [wireNextline_last hno, endheaderFrom]
    · obtain ⟨c, r', rfl, hc⟩ := hfolded a r rfl
      have happ : a ++ crlf ++ c :: r' ++ crlf = a ++ crlf ++ (c :: r' ++ crlf) := by
        simp only [List.append_assoc, List.cons_append]
      have hnext : wireNextline (a ++ crlf ++ (c :: r' ++ crlf)) = some (c :: r' ++ crlf) :=
        wireNextline_append ha (List.cons_ne_nil _ _)
      have hhead : (c :: r' ++ crlf).head?.any ISWHITE = true := hc
      rw [happ, hnext, endheaderFrom, hhead, if_pos rfl]
      refine ih ?_ hfolded.tail
      rw [List.length_append, List.length_append, show crlf.length = 2 from rfl] at hn
      omega

/-- `wire_endheader` on a field that another line follows, or nothing. -/
theorem wireEndheader_field (hfolded : Folded b) (hwhite : rest.head?.any ISWHITE = false) :
    wireEndheader (b ++ crlf ++ rest) = some (10 :: rest) := by
  have hlen : b.length < (b ++ crlf ++ rest).length := by
    rw [List.length_append, List.length_append, show crlf.length = 2 from rfl]
    omega
  rw [wireEndheader]
  by_cases hrest : rest = []
  · subst hrest
    rw [List.append_nil] at hlen ⊢
    rw [endheaderFrom_last hlen hfolded]
    exact if_pos (List.suffix_append _ _)
  · rw [endheaderFrom_folded hrest hwhite hlen hfolded]

end Endheader

end Inn.Nnrpd
