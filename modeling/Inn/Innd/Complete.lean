import Inn.Innd.Fields

/-!
# Inn.Innd.Complete — a channel with a complete article

When a run of reads ends with the article complete, the channel is the octets of the
article, parsed by themselves, somewhere in a buffer (`complete_of_steps`).
-/

namespace Inn.Innd

open ChannelState StateTransition

/-- The octets of the article, with the terminator. -/
def CHANNEL.consumed (cp : CHANNEL) : List UInt8 := cp.slice cp.Start (cp.Next - cp.Start)

section Complete

variable {conf : Innconf} {sendid : ℕ} {text : List UInt8} {c cp cp' : CHANNEL}

theorem embed_embed (pre post : List UInt8) (delta : ℤ) :
    (c.embed [] post 0).embed pre [] delta = c.embed pre post delta := by
  unfold CHANNEL.embed
  simp only [List.length_nil, Nat.zero_add, List.nil_append, Nat.cast_zero, sub_zero, add_zero,
    neg_zero, adjust_zero, List.append_nil, List.append_assoc]

/-- A terminator ends in the text. -/
theorem ends_le {body k : ℕ} (h : Ends text body k) : k ≤ text.length := by
  rcases h with ⟨rfl, hdot⟩ | ⟨rfl, hdot⟩ | ⟨t, rfl, hterm⟩
  · have := lt_of_getElem?_eq_some (octetsAt_dotcrlf.mp hdot).2.2
    omega
  · have := lt_of_getElem?_eq_some (octetsAt_dotcrlf.mp hdot).2.2
    omega
  · have := lt_of_getElem?_eq_some (octetsAt_dotcrlf.mp (octetsAt_terminator.mp hterm).2.2).2.2
    omega

/-- Without the size limit in the way, a complete article is one that was parsed by itself,
to its last octet. -/
theorem complete_of_steps (hnext : cp.Next ≤ cp.used) {acts : List ChanAct}
    (hrun : Steps (ArtNext conf) (ARTparse conf (startArticle cp)) acts cp')
    (hs : cp'.State = CSgotarticle) :
    ∃ d pre rest delta, Parsed conf cp.SendidSize cp'.consumed d ∧
      d.Next = cp'.consumed.length ∧ cp' = d.embed pre rest delta := by
  rcases follows_of_steps hnext hrun with ⟨pre, delta, c, hc, rfl⟩ | ⟨hover, _⟩
  · have hs' : c.State = CSgotarticle := hs
    have hdone : ¬ c.Receiving := by
      rintro (h | h | h) <;> cases hs'.symm.trans h
    obtain ⟨d, hd, _, hcd⟩ := hc.prefix hdone
    obtain ⟨hin, hstart, _⟩ := reaches_article hc.reaches
    have hconsumed : (c.embed pre [] delta).consumed =
        (cp.In.text.drop cp.Next ++ received acts).take c.Next := by
      show ((pre ++ c.In.text ++ []).drop (pre.length + c.Start)).take
        (pre.length + c.Next - (pre.length + c.Start)) = _
      rw [List.append_nil, ← List.drop_drop, List.drop_left, hstart, hin, List.drop_zero,
        Nat.add_zero, Nat.add_sub_cancel_left]
    rw [hconsumed]
    refine ⟨d, pre, (cp.In.text.drop cp.Next ++ received acts).drop c.Next, delta, hd, ?_, ?_⟩
    · have hle := ends_le (hc.position.done hdone).1.1
      have hdnext : d.Next = c.Next := by
        rw [hcd]
        rfl
      rw [hdnext, List.length_take, min_eq_left hle]
    · have hembed := embed_embed (c := d) pre
        ((cp.In.text.drop cp.Next ++ received acts).drop c.Next) delta
      rw [← readtext_eq_embed, ← hcd] at hembed
      exact hembed
  · rcases hover with h | h <;> cases h.symm.trans hs

end Complete

end Inn.Innd
