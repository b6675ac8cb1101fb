import Inn.Tradindexed.Repair

/-!
# Inn.Tradindexed.Repaired — a repaired `group.index`

* `Repaired` — every group is on the chain of its bucket, and every other entry is free;
* `audit_linked` — an audit changes nothing in such a file;
* `audit_repairs` — the audit of a file in which no walk goes wrong ends, and repairs it;
* `cycle_never_ends` — two groups of a bucket that point at each other are walked for ever.
-/

namespace Inn.Tradindexed

open Function (update)

/-- Every group is on the chain of its bucket and only there, and every other entry is on the free
list. No chain meets an entry twice. -/
structure Repaired (file : IndexFile) (layout : Layout) : Prop where
  free : file.Links file.header.freelist layout.free
  chain : ∀ b, file.Links (file.header.hash b) (layout.bucket b)
  group : ∀ c < file.size, IsLive (file.entry c) →
    c ∉ layout.free ∧ ∀ b, c ∈ layout.bucket b ↔ b = indexBucket (file.entry c).hash
  other : ∀ c < file.size, ¬IsLive (file.entry c) → c ∈ layout.free ∧ ∀ b, c ∉ layout.bucket b
  inRange : ∀ link : Link, link.In file →
    link.read file = -1 ∨ 0 ≤ link.read file ∧ link.read file < file.size

/-- The audit ends and repairs the file, and a second one changes nothing. -/
def AuditRepairs (file : IndexFile) : Prop :=
  ∃ fuel file', indexAuditHeader true fuel file = some file' ∧ (∃ layout, Repaired file' layout) ∧
    ∃ fuel', indexAuditHeader true fuel' file' = some file'

/-! ## Nothing to repair -/

section Same

variable {file : IndexFile} {layout : Layout} {c : ℕ}

theorem links_range {recno : ℤ} {l : List ℕ} (h : file.Links recno l)
    (hlt : ∀ c ∈ l, c < file.size) : recno = -1 ∨ 0 ≤ recno ∧ recno < file.size := by
  cases l with
  | nil => exact .inl h
  | cons c l =>
    have hc : recno = (c : ℤ) := h.1
    have := hlt c List.mem_cons_self
    omega

theorem indexAuditLoc_same (link : Link)
    (hrange : link.read file = -1 ∨ 0 ≤ link.read file ∧ link.read file < file.size)
    (hloop : link.isLoop (link.read file) = false) : indexAuditLoc true file link = file := by
  rw [indexAuditLoc]
  refine if_neg ?_
  rintro ⟨-, h | h | h⟩
  · omega
  · omega
  · rw [hloop] at h
    cases h

theorem indexAuditDeleted_same (h : (file.entry c).deleted ≠ 0 → (file.entry c).hash = HASH.clear) :
    indexAuditDeleted true file c = file := by
  rw [indexAuditDeleted]
  exact if_neg fun hand => hand.2.2 (h hand.2.1)

/-- What an audit may find in an entry. -/
structure Sound (file : IndexFile) (c : ℕ) : Prop where
  cleared : (file.entry c).deleted ≠ 0 → (file.entry c).hash = HASH.clear
  range : (file.entry c).next = -1 ∨ 0 ≤ (file.entry c).next ∧ (file.entry c).next < file.size
  no_loop : (file.entry c).next ≠ c

theorem auditEntry_same (h : Sound file c) :
    indexAuditLoc true (indexAuditDeleted true file c) (.entry c) = file := by
  rw [indexAuditDeleted_same h.cleared]
  exact indexAuditLoc_same (.entry c) h.range (beq_eq_false_iff_ne.mpr h.no_loop)

/-- What is on a chain needs no repair. -/
theorem Linked.sound (h : Linked file layout) {recno : ℤ} {l : List ℕ}
    (hl : file.Links recno (c :: l)) (hlists : ∀ d ∈ c :: l, layout.Lists d) : Sound file c where
  cleared := h.cleared c (hlists c List.mem_cons_self)
  range := links_range hl.2 fun d hd => h.lt d (hlists d (List.mem_cons_of_mem c hd))
  no_loop := by
    intro hloop
    have hnext := hl.2
    dsimp only at hnext
    rw [hloop] at hnext
    have hcons : l = c :: l := Chain.unique locDistinct hnext ⟨rfl, hl.2⟩
    exact List.cons_ne_self c l hcons.symm

theorem bucketEntry_same {b : Fin TDX_HASH_SIZE} {parent : Link} {reachable : ℕ → Bool}
    (hsound : Sound file c) (hdeleted : (file.entry c).deleted = 0)
    (hb : indexBucket (file.entry c).hash = b) :
    bucketEntry true b parent c ⟨file, reachable⟩ =
      (⟨file, update reachable c true⟩, .entry c) := by
  have hright : ¬((file.entry c).deleted = 0 ∧ b ≠ indexBucket (file.entry c).hash) :=
    fun hand => hand.2 hb.symm
  rw [bucketEntry]
  dsimp only
  rw [if_neg (show ¬((file.entry c).deleted ≠ 0 ∧ true = true) from fun hand => hand.1 hdeleted),
    if_neg hright, if_neg fun hand => hright hand.1, if_neg fun hand => hright hand.1,
    auditEntry_same hsound]

theorem bucketWalk_same (h : Linked file layout) {b : Fin TDX_HASH_SIZE} {l : List ℕ} {fuel : ℕ}
    {parent : Link} {current : ℤ} {reachable : ℕ → Bool} (hfuel : l.length < fuel)
    (hl : file.Links current l) (hmem : ∀ c ∈ l, c ∈ layout.bucket b) :
    bucketWalk true b fuel parent current ⟨file, reachable⟩ =
      some ⟨file, fun c => reachable c || decide (c ∈ l)⟩ := by
  induction l generalizing fuel parent current reachable with
  | nil =>
    obtain ⟨fuel, rfl⟩ : ∃ n, fuel = n + 1 := ⟨fuel - 1, by omega⟩
    obtain rfl : current = -1 := hl
    rw [bucketWalk, if_pos (.inl (by decide))]
    simp
  | cons c l ih =>
    obtain ⟨fuel, rfl⟩ : ∃ n, fuel = n + 1 := ⟨fuel - 1, by
      rw [List.length_cons] at hfuel
      omega⟩
    have hlists : ∀ d ∈ c :: l, layout.Lists d := fun d hd => .inr ⟨b, hmem d hd⟩
    have hsound := h.sound hl hlists
    obtain ⟨⟨-, hdeleted⟩, hb⟩ := h.group b c (hmem c List.mem_cons_self)
    have hlt := h.lt c (hlists c List.mem_cons_self)
    have hentry := @bucketEntry_same file c b parent reachable hsound hdeleted hb
    obtain ⟨hc, hl⟩ := hl
    change current = (c : ℤ) at hc
    subst hc
    rw [bucketWalk, if_neg (by dsimp only; omega), Int.toNat_natCast, hentry]
    dsimp only
    rw [if_neg (show ¬Link.read file (.entry c) = c from hsound.no_loop)]
    refine (ih (Nat.lt_of_succ_lt_succ hfuel) hl fun d hd =>
      hmem d (List.mem_cons_of_mem c hd)).trans ?_
    congr 2
    funext d
    by_cases hd : d = c
    · simp [hd]
    · simp [hd, Function.update_of_ne]

theorem freeWalk_same (h : Linked file layout) {l : List ℕ} {fuel : ℕ} {parent : Link}
    {current : ℤ} {reachable : ℕ → Bool} (hfuel : l.length < fuel) (hl : file.Links current l)
    (hmem : ∀ c ∈ l, c ∈ layout.free) :
    freeWalk true fuel parent current ⟨file, reachable⟩ =
      some ⟨file, fun c => reachable c || decide (c ∈ l)⟩ := by
  induction l generalizing fuel parent current reachable with
  | nil =>
    obtain ⟨fuel, rfl⟩ : ∃ n, fuel = n + 1 := ⟨fuel - 1, by omega⟩
    obtain rfl : current = -1 := hl
    rw [freeWalk, if_pos (.inl (by decide))]
    simp
  | cons c l ih =>
    obtain ⟨fuel, rfl⟩ : ∃ n, fuel = n + 1 := ⟨fuel - 1, by
      rw [List.length_cons] at hfuel
      omega⟩
    have hlists : ∀ d ∈ c :: l, layout.Lists d := fun d hd => .inl (hmem d hd)
    have hsound := h.sound hl hlists
    have hnot := h.other c (hmem c List.mem_cons_self)
    have hlt := h.lt c (hlists c List.mem_cons_self)
    have hentry : freeEntry true parent c ⟨file, reachable⟩ =
        ⟨file, update reachable c true⟩ := by
      rw [freeEntry, indexAuditDeleted_same hsound.cleared, if_neg fun hand => hnot hand.1,
        indexAuditLoc_same (.entry c) hsound.range (beq_eq_false_iff_ne.mpr hsound.no_loop)]
    obtain ⟨hc, hl⟩ := hl
    change current = (c : ℤ) at hc
    subst hc
    rw [freeWalk, if_neg (by dsimp only; omega), Int.toNat_natCast, hentry]
    dsimp only
    rw [if_neg hsound.no_loop]
    refine (ih (Nat.lt_of_succ_lt_succ hfuel) hl fun d hd =>
      hmem d (List.mem_cons_of_mem c hd)).trans ?_
    congr 2
    funext d
    by_cases hd : d = c
    · simp [hd]
    · simp [hd, Function.update_of_ne]

theorem length_le_size {l : List ℕ} (hnodup : l.Nodup) (hlt : ∀ c ∈ l, c < file.size) :
    l.length < file.size + 1 := by
  have hsub : l ⊆ List.range file.size := fun c hc => List.mem_range.mpr (hlt c hc)
  have hlen := (List.subperm_of_subset hnodup hsub).length_le
  rw [List.length_range] at hlen
  exact Nat.lt_succ_of_le hlen

theorem auditBucket_same (h : Linked file layout) (buckets : List (Fin TDX_HASH_SIZE))
    (reachable : ℕ → Bool) :
    ∃ reachable', buckets.foldlM (auditBucket true (file.size + 1)) ⟨file, reachable⟩ =
        some ⟨file, reachable'⟩ ∧
      ∀ b ∈ buckets, ∀ c ∈ layout.bucket b, reachable' c = true := by
  have main : ∃ reachable', buckets.foldlM (auditBucket true (file.size + 1)) ⟨file, reachable⟩ =
      some ⟨file, reachable'⟩ ∧ (∀ c, reachable c = true → reachable' c = true) ∧
      ∀ b ∈ buckets, ∀ c ∈ layout.bucket b, reachable' c = true := by
    induction buckets generalizing reachable with
    | nil => exact ⟨reachable, rfl, fun _ h => h, fun _ hb => absurd hb List.not_mem_nil⟩
    | cons b buckets ih =>
      have hlt : ∀ c ∈ layout.bucket b, c < file.size := fun c hc => h.lt c (.inr ⟨b, hc⟩)
      have hfuel := length_le_size (h.chain b).nodup hlt
      have hhead := indexAuditLoc_same (.bucket b) (links_range (h.chain b) hlt) rfl
      obtain ⟨reachable', hrest, hkept, hreached⟩ :=
        ih fun c => reachable c || decide (c ∈ layout.bucket b)
      refine ⟨reachable', ?_, fun c hc => hkept c ?_, fun b' hb' c hc => ?_⟩
      · rw [List.foldlM_cons, auditBucket, hhead]
        dsimp only
        rw [bucketWalk_same h hfuel (h.chain b) fun c hc => hc]
        exact hrest
      · rw [hc, Bool.true_or]
      · rcases List.mem_cons.mp hb' with rfl | hb'
        · exact hkept c (by rw [decide_eq_true hc, Bool.or_true])
        · exact hreached b' hb' c hc
  obtain ⟨reachable', hfold, -, hreached⟩ := main
  exact ⟨reachable', hfold, hreached⟩

/-- An audit changes nothing in a repaired file. -/
theorem audit_linked (h : Linked file layout) (hall : ∀ c < file.size, layout.Lists c) :
    indexAuditHeader true (file.size + 1) file = some file := by
  have hlt : ∀ c ∈ layout.free, c < file.size := fun c hc => h.lt c (.inl hc)
  obtain ⟨reachable, hsweep, hreached⟩ :=
    auditBucket_same h (List.finRange TDX_HASH_SIZE) fun _ => false
  have hhead := indexAuditLoc_same .freelist (links_range h.free hlt) rfl
  have hfree := @freeWalk_same file layout h layout.free (file.size + 1) .freelist _ reachable
    (length_le_size h.free.nodup hlt) h.free fun c hc => hc
  have hsame : ∀ n ≤ file.size, (List.range n).foldl (attachEntry true fun c =>
      reachable c || decide (c ∈ layout.free)) file = file := by
    intro n hn
    induction n with
    | zero => rfl
    | succ n ih =>
      rw [List.range_succ, List.foldl_append, ih (Nat.le_of_succ_le hn), List.foldl_cons,
        List.foldl_nil, attachEntry]
      refine if_pos (.inl ?_)
      rw [Bool.or_eq_true, decide_eq_true_iff]
      rcases hall n hn with hmem | ⟨b, hmem⟩
      · exact .inr hmem
      · exact .inl (hreached b (List.mem_finRange b) n hmem)
  rw [indexAuditHeader, hsweep, Option.bind_some]
  dsimp only
  rw [hhead, hfree, Option.map_some]
  exact congrArg some (hsame file.size (Nat.le_refl _))

/-- Such a file is repaired. -/
theorem Linked.repaired (h : Linked file layout) (hall : ∀ c < file.size, layout.Lists c) :
    Repaired file layout where
  free := h.free
  chain := h.chain
  group := by
    intro c hc hlive
    have hfree : c ∉ layout.free := fun hmem => h.other c hmem hlive
    obtain ⟨b, hb⟩ := (hall c hc).resolve_left hfree
    refine ⟨hfree, fun b' => ⟨fun hb' => (h.group b' c hb').2.symm, fun hb' => ?_⟩⟩
    rw [hb', (h.group b c hb).2]
    exact hb
  other := by
    intro c hc hlive
    have hbucket : ∀ b, c ∉ layout.bucket b := fun b hmem => hlive (h.group b c hmem).1
    exact ⟨(hall c hc).resolve_right fun ⟨b, hb⟩ => hbucket b hb, hbucket⟩
  inRange := by
    intro link hin
    cases link with
    | bucket b => exact links_range (h.chain b) fun c hc => h.lt c (.inr ⟨b, hc⟩)
    | freelist => exact links_range h.free fun c hc => h.lt c (.inl hc)
    | entry c =>
      have hsplit : ∀ {recno : ℤ} {l : List ℕ}, file.Links recno l → c ∈ l →
          (∀ d ∈ l, layout.Lists d) →
          (file.entry c).next = -1 ∨ 0 ≤ (file.entry c).next ∧ (file.entry c).next < file.size := by
        intro recno l hl hc hlists
        obtain ⟨pre, post, rfl⟩ := List.append_of_mem hc
        exact (h.sound (Chain.drop hl) fun d hd => hlists d (List.mem_append_right _ hd)).range
      rcases hall c hin with hmem | ⟨b, hmem⟩
      · exact hsplit h.free hmem fun d hd => .inl hd
      · exact hsplit (h.chain b) hmem fun d hd => .inr ⟨b, hd⟩

end Same

/-! ## The whole audit -/

section Audit

variable {file : IndexFile} {layout : Layout}

/-- What the walks leave: the groups on the chains of their buckets, the other entries of the free
list. -/
def Layout.walked (file : IndexFile) (layout : Layout) : Layout where
  free := layout.free.filter fun c => !decide (IsLive (file.entry c))
  bucket := fun b => (layout.bucket b).filter fun c => Keeps b (file.entry c)

/-- A group stays on its chain. -/
theorem Repairable.live_of_keeps (h : Repairable file layout) {b : Fin TDX_HASH_SIZE} {c : ℕ}
    (hc : c ∈ layout.bucket b) (hkeeps : Keeps b (file.entry c)) : IsLive (file.entry c) := by
  refine ⟨fun hclear => ?_, hkeeps.1⟩
  have hb := hkeeps.2
  rw [hclear] at hb
  exact h.empty c (hb ▸ hc) hkeeps.1 hclear

/-- The walk over the free list, when all chains were walked. -/
theorem walked_linked (h : Repairable file layout) {s : AuditState}
    (hs : Swept file layout (List.finRange TDX_HASH_SIZE) s) :
    ∃ s', freeWalk true (file.size + 1) .freelist
        (indexAuditLoc true s.file .freelist).header.freelist
        ⟨indexAuditLoc true s.file .freelist, s.reachable⟩ = some s' ∧
      s'.file.size = file.size ∧ Linked s'.file (layout.walked file) ∧
      ∀ c, s'.reachable c = true ↔ (layout.walked file).Lists c := by
  have hlinks : ∀ c ∈ layout.free, ¬∃ b ∈ List.finRange TDX_HASH_SIZE,
      Link.entry c = .bucket b ∨ ∃ d ∈ layout.bucket b, Link.entry c = .entry d := by
    rintro c hc ⟨b, -, heq | ⟨d, hd, heq⟩⟩
    · cases heq
    · exact h.disjoint b d hd (Link.entry.inj heq ▸ hc)
  have hcells : ∀ c ∈ layout.free, ¬∃ b ∈ List.finRange TDX_HASH_SIZE, c ∈ layout.bucket b :=
    fun c hc ⟨b, _, hb⟩ => h.disjoint b c hb hc
  obtain ⟨hloc, hread⟩ := indexAuditLoc_spec s.file .freelist trivial
  have hhead : s.file.header.freelist = file.header.freelist := by
    refine hs.walked.read .freelist ?_
    rintro ⟨b, -, heq | ⟨c, -, heq⟩⟩ <;> cases heq
  have haudited : audited s.file .freelist = file.clean file.header.freelist := by
    rw [← hhead]
    exact clean_congr hs.walked.size _
  rw [haudited] at hread
  have hboth := hs.walked.trans hloc
  have htrack := track_congr (track_congr h.free hs.walked hlinks) hloc
    fun c _ => Link.noConfusion
  obtain ⟨file', hfile'⟩ : ∃ f, indexAuditLoc true s.file .freelist = f := ⟨_, rfl⟩
  rw [hfile'] at hloc hread hboth htrack ⊢
  have hlt := track_lt h.free (clean_cases file _)
  have hnext : ∀ c ∈ layout.free, (file'.entry c).next = (file.entry c).next := fun c hc =>
    hboth.read (.entry c) fun hor => hor.elim (hlinks c hc) Link.noConfusion
  obtain ⟨s', hwalk, hwalked, hchain, hreached⟩ :=
    @freeWalk_spec .freelist ⟨file', s.reachable⟩ layout.free (file.size + 1) _
      (length_le_size (Chain.nodup locDistinct h.free) hlt) htrack
      (fun c hc => hboth.size.symm ▸ hlt c hc) trivial hread (fun c _ => Link.noConfusion)
      fun c hc hlive => (hnext c hc).trans (h.last c hc ((isLive_congr hboth c).mp hlive))
  have hall := hboth.trans hwalked
  have hlate := hloc.trans hwalked
  have hfilter : (layout.free.filter fun c => !decide (IsLive (file'.entry c))) =
      (layout.walked file).free :=
    List.filter_congr fun c _ => congrArg (!·) (decide_eq_decide.mpr (isLive_congr hboth c))
  have hsize : s'.file.size = file.size := hall.size
  refine ⟨s', ?_, hsize, ⟨?_, ?_, ?_, ?_, ?_, ?_⟩, ?_⟩
  · change freeWalk true _ .freelist (Link.read file' .freelist) _ = _
    rw [hread]
    exact hwalk
  · rw [← hfilter]
    exact hchain
  · intro b
    change s'.file.Links (Link.read s'.file (.bucket b)) _
    rw [hlate.read (.bucket b) (by rintro (heq | heq | ⟨c, -, heq⟩) <;> cases heq)]
    refine (hs.links b (List.mem_finRange b)).congr fun c hc => hlate.read (.entry c) ?_
    rintro (heq | heq | ⟨d, hd, heq⟩)
    · cases heq
    · cases heq
    · exact h.disjoint b c (List.mem_of_mem_filter hc) (Link.entry.inj heq ▸ hd)
  · rw [hsize]
    rintro c (hc | ⟨b, hc⟩)
    · exact hlt c (List.mem_of_mem_filter hc)
    · exact track_lt (h.chain b) (clean_cases file _) c (List.mem_of_mem_filter hc)
  · intro b c hc
    obtain ⟨hmem, hkeeps⟩ := List.mem_filter.mp hc
    have hkeeps := of_decide_eq_true hkeeps
    rw [isLive_congr hall, hall.hash c (.inr hkeeps.1)]
    exact ⟨h.live_of_keeps hmem hkeeps, hkeeps.2.symm⟩
  · intro c hc hlive
    obtain ⟨-, hnot⟩ := List.mem_filter.mp hc
    rw [decide_eq_true ((isLive_congr hall c).mp hlive)] at hnot
    cases hnot
  · intro c hc hdeleted
    rw [hall.deleted] at hdeleted
    rcases hc with hc | ⟨b, hc⟩
    · exact hall.cleared c (.inr (List.mem_of_mem_filter hc)) hdeleted
    · exact absurd (of_decide_eq_true (List.mem_filter.mp hc).2).1 hdeleted
  · intro c
    rw [hreached]
    by_cases hc : c ∈ layout.free
    · have hbucket : ¬∃ b, c ∈ (layout.walked file).bucket b := fun ⟨b, hb⟩ =>
        h.disjoint b c (List.mem_of_mem_filter hb) hc
      rw [if_pos hc, Layout.Lists, or_iff_left hbucket, ← hfilter, List.mem_filter]
      exact (and_iff_right hc).symm
    · have hfree : c ∉ (layout.walked file).free := fun hmem => hc (List.mem_of_mem_filter hmem)
      rw [if_neg hc, Layout.Lists, or_iff_right hfree, hs.reachable]
      refine exists_congr fun b => ?_
      rw [and_iff_right (List.mem_finRange b)]
      change _ ↔ c ∈ (layout.bucket b).filter _
      rw [List.mem_filter, decide_eq_true_iff]

/-- The audit of a file in which no walk goes wrong. -/
theorem audit_spec (h : Repairable file layout) :
    ∃ file' layout', indexAuditHeader true (file.size + 1) file = some file' ∧
      Linked file' layout' ∧ ∀ c < file'.size, layout'.Lists c := by
  have hstart : Swept file layout [] ⟨file, fun _ => false⟩ := by
    refine ⟨(Walked.refl file).of_iff (fun _ hl => hl.elim) fun c => ?_, ?_, fun c => ?_⟩
    · simp
    · exact fun _ hb => absurd hb List.not_mem_nil
    · simp
  have hfuel : ∀ b, (layout.bucket b).length < file.size + 1 := fun b =>
    length_le_size (Chain.nodup locDistinct (h.chain b)) (track_lt (h.chain b) (clean_cases file _))
  obtain ⟨s, hsweep, hs⟩ := sweep_spec h hfuel hstart
    (List.nil_append (List.finRange TDX_HASH_SIZE) ▸ List.nodup_finRange _)
  rw [List.nil_append] at hs
  obtain ⟨s', hfree, hsize, hlinked, hreached⟩ := walked_linked h hs
  obtain ⟨layout', hlinked', hsize', hlists⟩ :=
    attach_spec hlinked hreached (Nat.le_refl s'.file.size)
  refine ⟨_, layout', ?_, hlinked', fun c hc => (hlists c).mpr (.inr (hsize' ▸ hc))⟩
  rw [indexAuditHeader, hsweep, Option.bind_some]
  dsimp only
  rw [hfree]
  rfl

/-- The audit repairs a file in which every walk ends and no entry is where the walks go wrong. -/
theorem audit_repairs (file : IndexFile) (h : ∃ layout, Repairable file layout) :
    AuditRepairs file := by
  obtain ⟨layout, h⟩ := h
  obtain ⟨file', layout', haudit, hlinked, hall⟩ := audit_spec h
  exact ⟨_, file', haudit, ⟨layout', hlinked.repaired hall⟩, _, audit_linked hlinked hall⟩

end Audit

/-! ## Two files -/

def firstBucket : Fin TDX_HASH_SIZE := ⟨0, by decide⟩

theorem first_lt : 0 < 16 := by decide

theorem last_lt : 15 < 16 := by decide

/-- A group whose hash begins with a byte. -/
def groupAt (byte : UInt8) (next : ℤ) : GroupEntry :=
  { (0 : GroupEntry) with hash := (HASH.clear.set 15 1 last_lt).set 0 byte first_lt, next }

/-- A file whose only chain is in the first bucket. -/
def oneChain (head freelist : ℤ) (entries : List GroupEntry) : IndexFile :=
  ⟨⟨TDX_MAGIC, fun b => if b = firstBucket then head else -1, freelist⟩, entries⟩

/-- A group in the wrong bucket, a link that is out of range, a group on the free list, and an
entry that is nowhere. -/
def damaged : IndexFile := oneChain 0 2 [groupAt 1 1, groupAt 0 7, groupAt 2 (-1), 0]

theorem audit_repairs_damaged : AuditRepairs damaged := by
  refine audit_repairs damaged
    ⟨⟨[2], fun b => if b = firstBucket then [0, 1] else []⟩, ?_, ?_, ?_, ?_, ?_, ?_, ?_⟩
  · intro b
    by_cases hb : b = firstBucket
    · subst hb
      exact ⟨by decide, by decide, (by decide : damaged.nextOf 1 = -1)⟩
    · have hhead : damaged.header.hash b = -1 := if_neg hb
      dsimp only
      rw [hhead, if_neg hb]
      exact (by decide : damaged.clean (-1) = -1)
  · exact ⟨by decide, (by decide : damaged.nextOf 2 = -1)⟩
  · intro b c hc
    dsimp only at hc
    split at hc
    · revert c
      decide
    · cases hc
  · intro b b' c hc hc'
    dsimp only at hc hc'
    split at hc
    · split at hc'
      · rename_i h h'
        rw [h, h']
      · cases hc'
    · cases hc
  · intro b c hc _ hmoved
    dsimp only at hc
    split at hc
    · rename_i hb
      subst hb
      rcases List.mem_cons.mp hc with rfl | hc
      · decide
      · obtain rfl := List.mem_singleton.mp hc
        exact absurd (by decide) hmoved
    · cases hc
  · decide
  · decide

/-- Two groups of a bucket that point at each other are walked for ever. -/
theorem cycle_never_ends : ¬∀ file : IndexFile, AuditRepairs file := by
  intro h
  obtain ⟨fuel, file', haudit, -⟩ := h (oneChain 0 (-1) [groupAt 0 1, groupAt 0 0])
  obtain ⟨file, hfile⟩ : ∃ f, oneChain 0 (-1) [groupAt 0 1, groupAt 0 0] = f := ⟨_, rfl⟩
  have hentry : ∀ c < 2, Sound file c ∧ (file.entry c).deleted = 0 ∧
      indexBucket (file.entry c).hash = firstBucket ∧ (file.entry c).next = (1 - c : ℕ) := by
    subst hfile
    intro c hc
    obtain rfl | rfl : c = 0 ∨ c = 1 := by omega
    · exact ⟨⟨by decide, by decide, by decide⟩, by decide, by decide, by decide⟩
    · exact ⟨⟨by decide, by decide, by decide⟩, by decide, by decide, by decide⟩
  have hsize : file.size = 2 := by
    subst hfile
    rfl
  have hwalk : ∀ fuel parent (c : ℕ) reachable, c < 2 →
      bucketWalk true firstBucket fuel parent c ⟨file, reachable⟩ = none := by
    intro fuel
    induction fuel with
    | zero => exact fun _ _ _ _ => rfl
    | succ fuel ih =>
      intro parent c reachable hc
      obtain ⟨hsound, hdeleted, hb, hnext⟩ := hentry c hc
      rw [bucketWalk, if_neg (by rw [hsize]; omega), Int.toNat_natCast,
        bucketEntry_same hsound hdeleted hb]
      dsimp only
      rw [if_neg (show ¬Link.read file (.entry c) = c from hsound.no_loop)]
      change bucketWalk true firstBucket fuel _ (file.entry c).next _ = none
      rw [hnext]
      exact ih _ _ _ (by omega)
  have hfirst : auditBucket true fuel ⟨file, fun _ => false⟩ firstBucket = none := by
    have hhead : file.header.hash firstBucket = ((0 : ℕ) : ℤ) := by
      subst hfile
      rfl
    rw [auditBucket, indexAuditLoc_same (.bucket firstBucket) (.inr (by
      change 0 ≤ file.header.hash firstBucket ∧ file.header.hash firstBucket < _
      rw [hhead, hsize]
      decide)) rfl]
    dsimp only
    rw [hhead]
    exact hwalk fuel _ 0 _ (by decide)
  have hbuckets : List.finRange TDX_HASH_SIZE =
      firstBucket :: (List.finRange 16383).map Fin.succ := List.finRange_succ
  rw [hfile, indexAuditHeader, hbuckets, List.foldlM_cons, hfirst] at haudit
  cases haudit

end Inn.Tradindexed
