import Inn.Innd.Fields

/-!
# Inn.Innd.Reads — the reads make no difference

* `split_is_harmless` — whatever the reads, moves and reallocations were, the channel
  agrees with one that parsed everything in one read, and the article ends at its
  first terminator.
-/

namespace Inn.Innd

open ChannelState StateTransition

/-- The channels agree in everything that does not depend on the buffer. -/
structure SameOutcome (cp cp' : CHANNEL) : Prop where
  State : cp.State = cp'.State
  consumed : cp.Next - cp.Start = cp'.Next - cp'.Start
  Body : cp.Data.Body - cp.Start = cp'.Data.Body - cp'.Start
  Lines : cp.Data.Lines = cp'.Data.Lines
  HeaderLines : cp.Data.HeaderLines = cp'.Data.HeaderLines
  CRwithoutLF : cp.Data.CRwithoutLF = cp'.Data.CRwithoutLF
  LFwithoutCR : cp.Data.LFwithoutCR = cp'.Data.LFwithoutCR
  DotStuffedLines : cp.Data.DotStuffedLines = cp'.Data.DotStuffedLines
  Error : cp.Error = [] ↔ cp'.Error = []
  HDR : ∀ i, cp.HDR i = cp'.HDR i
  HDR_LEN : ∀ i, (cp.Data.HdrContent i).Length = (cp'.Data.HdrContent i).Length

/-- What was consumed ends at the first terminator; if none has come, the channel is
still receiving. -/
def CHANNEL.EndsAtTerminator (cp : CHANNEL) : Prop :=
  if cp.Receiving then ∀ k, ¬ Ends cp.stream (cp.Data.Body - cp.Start) k
  else IsLeast { k | Ends cp.stream (cp.Data.Body - cp.Start) k } (cp.Next - cp.Start)

section Outcome

variable {conf : Innconf} {sendid : ℕ} {text more pre : List UInt8} {delta : ℤ}
  {c d cp cp' : CHANNEL}

theorem SameOutcome.symm (h : SameOutcome cp cp') : SameOutcome cp' cp :=
  ⟨h.State.symm, h.consumed.symm, h.Body.symm, h.Lines.symm, h.HeaderLines.symm,
    h.CRwithoutLF.symm, h.LFwithoutCR.symm, h.DotStuffedLines.symm, h.Error.symm,
    fun i => (h.HDR i).symm, fun i => (h.HDR_LEN i).symm⟩

theorem SameOutcome.trans {cp'' : CHANNEL} (h : SameOutcome cp cp') (h' : SameOutcome cp' cp'') :
    SameOutcome cp cp'' :=
  ⟨h.State.trans h'.State, h.consumed.trans h'.consumed, h.Body.trans h'.Body,
    h.Lines.trans h'.Lines, h.HeaderLines.trans h'.HeaderLines,
    h.CRwithoutLF.trans h'.CRwithoutLF, h.LFwithoutCR.trans h'.LFwithoutCR,
    h.DotStuffedLines.trans h'.DotStuffedLines, h.Error.trans h'.Error,
    fun i => (h.HDR i).trans (h'.HDR i), fun i => (h.HDR_LEN i).trans (h'.HDR_LEN i)⟩

/-- What is recorded of the header fields lies in the buffer. -/
theorem Parsed.headers_in (h : Parsed conf sendid text c) (i : ℕ) (v : ℤ)
    (hv : (c.Data.HdrContent i).Value = some v) : (c.Data.HdrContent i).Length.toNat = 0 ∨
      (0 ≤ v ∧ v.toNat + (c.Data.HdrContent i).Length.toNat ≤ c.used) := by
  have hused := h.position.holds.used
  have key : ∀ (fields : List (List UInt8)) (n : ℕ), text.take n = fields.flatten →
      HasRecord conf fields c → (c.Data.HdrContent i).Length.toNat = 0 ∨
        (0 ≤ v ∧ v.toNat + (c.Data.HdrContent i).Length.toNat ≤ c.used) := by
    intro fields n htaken hrecord
    rw [hrecord.HdrContent] at hv ⊢
    have hlen : fields.flatten.length ≤ text.length := by
      rw [← htaken]
      exact List.length_take_le' _ _
    have := recorded_le conf fields i v hv
    omega
  cases h.progress with
  | header fields _ hin _ => exact key fields _ hin.taken hin.record
  | body fields _ hin _ => exact key fields _ hin.taken hin.record
  | noBody fields n _ _ hin _ _ _ _ => exact key fields _ hin.taken hin.record
  | noArticle fields _ htaken hrecord _ => exact key fields _ htaken hrecord

/-- A larger buffer makes no difference. -/
theorem Parsed.same_embed (h : Parsed conf sendid text c) :
    SameOutcome (c.embed pre more delta) c := by
  have hstart : c.Start = 0 := h.position.holds.Start
  have hdata : c.In.data = 0 := by rw [h.position.holds.In]
  have hsub : ∀ n, pre.length + n - (pre.length + c.Start) = n - c.Start := by
    intro n
    omega
  refine ⟨rfl, hsub _, hsub _, rfl, rfl, rfl, rfl, rfl, Iff.rfl, ?_, fun i => rfl⟩
  intro i
  have hcontent : (c.embed pre more delta).Data.HdrContent i =
      { c.Data.HdrContent i with Value := (c.Data.HdrContent i).Value.map (· - -delta) } := rfl
  unfold CHANNEL.HDR
  rw [hcontent]
  rcases hv : (c.Data.HdrContent i).Value with _ | v
  · rfl
  · have hin := h.headers_in i v hv
    show some ((c.embed pre more delta).slice (v - -delta - (c.In.data + delta - pre.length)).toNat
        (c.Data.HdrContent i).Length.toNat) =
      some (c.slice (v - c.In.data).toNat (c.Data.HdrContent i).Length.toNat)
    rcases hin with hzero | ⟨hpos, hle⟩
    · rw [hzero]
      unfold CHANNEL.slice
      rw [List.take_zero, List.take_zero]
    · have haddr : (v - -delta - (c.In.data + delta - pre.length)).toNat =
          pre.length + (v - c.In.data).toNat := by
        rw [hdata]
        omega
      rw [haddr, slice_embed (.inl (by rw [hdata, sub_zero]; exact hle))]

theorem stream_embed : (c.embed pre [] delta).stream = c.stream := by
  show (pre ++ c.In.text ++ []).drop (pre.length + c.Start) = c.In.text.drop c.Start
  rw [List.append_nil, ← List.drop_drop, List.drop_left]

/-- The article ends at its first terminator, wherever it is in the buffer. -/
theorem Tracks.ends (h : Tracks conf sendid text cp) : cp.EndsAtTerminator := by
  obtain ⟨pre, delta, c, hc, rfl⟩ := h
  have hholds := hc.position.holds
  have hstream : (c.embed pre [] delta).stream = text := by
    rw [stream_embed, CHANNEL.stream, hholds.In, hholds.Start, List.drop_zero]
  have hbody : (c.embed pre [] delta).Data.Body - (c.embed pre [] delta).Start = c.Data.Body := by
    show pre.length + c.Data.Body - (pre.length + c.Start) = c.Data.Body
    rw [hholds.Start]
    omega
  have hnext : (c.embed pre [] delta).Next - (c.embed pre [] delta).Start = c.Next := by
    show pre.length + c.Next - (pre.length + c.Start) = c.Next
    rw [hholds.Start]
    omega
  unfold CHANNEL.EndsAtTerminator
  rw [hstream, hbody, hnext]
  by_cases hrec : c.Receiving
  · have hrec' : (c.embed pre [] delta).Receiving := hrec
    rw [if_pos hrec']
    exact hc.not_ends hrec
  · have hrec' : ¬ (c.embed pre [] delta).Receiving := hrec
    rw [if_neg hrec']
    exact (hc.position.done hrec).1

/-- One read of a whole article. -/
theorem tracks_one_read (hsize : conf.maxartsize = 0) (hnext : cp.Next ≤ cp.used) :
    Tracks conf cp.SendidSize (cp.In.text.drop cp.Next ++ text)
      (ARTparse conf ((startArticle cp).readtext text)) := by
  have hmove : (startArticle cp).readtext text =
      (article cp.SendidSize (cp.In.text.drop cp.Next ++ text)).embed (cp.In.text.take cp.Next) []
        (cp.In.data + cp.Next) := by
    rw [startArticle_eq hnext]
    unfold CHANNEL.readtext CHANNEL.embed
    simp only [List.append_nil, List.append_assoc]
    rfl
  rw [hmove]
  exact (follows_ARTparse fun d => Iff.rfl).resolve_right fun h => h.2 hsize

/-- Two channels that track the same article agree, whatever follows a complete one. -/
theorem Tracks.same (h : Tracks conf sendid text cp) (h' : Tracks conf sendid (text ++ more) cp')
    (hmore : cp.Receiving → more = []) : SameOutcome cp cp' := by
  obtain ⟨pre, delta, c, hc, rfl⟩ := h
  obtain ⟨pre', delta', d, hd, rfl⟩ := h'
  have hdc : d = c.readtext more := by
    refine Part.mem_unique (hc.readtext.mpr hd) (mem_eval.mpr ⟨.refl, ?_⟩)
    by_cases hrec : c.Receiving
    · rw [hmore hrec]
      have hnil : c.readtext [] = c := by
        unfold CHANNEL.readtext
        rw [List.append_nil]
      rw [hnil]
      exact (mem_eval.mp hc).2
    · rw [parseStep_eq_none_iff]
      exact fun h => absurd h hrec
  have hsame : SameOutcome d c := by
    rw [hdc, readtext_eq_embed]
    exact hc.same_embed
  exact hc.same_embed.trans (hsame.symm.trans hd.same_embed.symm)

end Outcome

/-- Without a size limit, an article comes out the same however it is cut into reads and
wherever its buffer goes, and it ends at its first terminator. -/
theorem split_is_harmless {conf : Innconf} {cp cp' : CHANNEL} {acts : List ChanAct}
    {tail : List UInt8} (hsize : conf.maxartsize = 0) (hnext : cp.Next ≤ cp.used)
    (hrun : Steps (ArtNext conf) (ARTparse conf (startArticle cp)) acts cp')
    (htail : cp'.Receiving → tail = []) :
    SameOutcome cp' (ARTparse conf ((startArticle cp).readtext (received acts ++ tail))) ∧
      cp'.EndsAtTerminator := by
  have htracks := tracks_of_steps hsize hnext hrun
  have hwhole := @tracks_one_read conf (received acts ++ tail) cp hsize hnext
  rw [← List.append_assoc] at hwhole
  exact ⟨htracks.same hwhole htail, htracks.ends⟩

/-- The settings without a size limit. -/
def unlimited : Innconf := ⟨0, false⟩

/-- A channel that has read a command and the first octets of an article. -/
def shortChannel : CHANNEL :=
  ⟨CSgetcmd, ⟨100, octets "QUIT\r\nA: b\r"⟩, 0, 0, 6, [], preparedData 0⟩

/-- Three more reads, and the buffer moves twice. -/
theorem split_is_harmless_short : ∃ cp',
    SameOutcome cp' (ARTparse unlimited ((startArticle shortChannel).readtext
      (received [.read (octets "\n\r"), .move, .read (octets "\nx\r\n"), .resize 7,
        .read (octets ".\r\nHELP")] ++ octets "\r\n"))) ∧ cp'.EndsAtTerminator := by
  have h₀ : (ARTparse unlimited (startArticle shortChannel)).Receiving := by decide
  refine ⟨_, split_is_harmless rfl (by decide)
    ((((((Steps.nil).snoc ⟨h₀, rfl⟩).snoc ⟨?_, rfl⟩).snoc ⟨?_, rfl⟩).snoc ⟨?_, rfl⟩).snoc ⟨?_, rfl⟩)
    ?_⟩
  all_goals decide

end Inn.Innd
