import Inn.Storage.Overdata

/-!
# Inn.Storage.ConfigLines — the lines of `cycbuff.conf` and `buffindexed.conf`

Both readers go through the text in place: an entry is moved towards its start where a
backslash and a newline are left out of it, and ends with a nul in place of its newline.

* `readFrom_spec` — what is in memory for each line;
* `readLines_eq` — what the entries are;
* `config_lines_iff` — when those are the logical lines.
-/

namespace Inn.Storage

/-! ## The code -/

section Code

variable (mem : List UInt8)

/-- The loop over a comment, and the step past its end. `none` is a read behind the memory. -/
def skipComment (src : ℕ) : Option ℕ :=
  if h : src < mem.length then
    if mem[src] ≠ 0 ∧ mem[src] ≠ 10 then skipComment (src + 1) else some (src + 1)
  else none
termination_by mem.length - src

/-- The loop over white space. -/
def skipSpace (src : ℕ) : Option ℕ :=
  if h : src < mem.length then
    if mem[src] ≠ 0 ∧ isspace mem[src] then skipSpace (src + 1) else some src
  else none
termination_by mem.length - src

/-- What a pass of the loop over an entry comes to. -/
inductive Copied where
  | overread
  | again (mem : List UInt8) (src dst : ℕ)
  | ends (mem : List UInt8) (src : ℕ)

/-- A pass of the loop over an entry, from what follows the test for a continued line on. -/
def copyByte (c : UInt8) (src dst : ℕ) : Copied :=
  let copies : Prop := c ≠ 0 ∧ c ≠ 10
  let mem := if copies then mem.set dst c else mem
  let src := if copies then src + 1 else src
  let dst := if copies then dst + 1 else dst
  match mem[src]? with
  | none => .overread
  | some d =>
    if d = 10 then .ends (mem.set dst 0) (src + 1)
    else if d = 0 then .ends mem src
    else .again mem src dst

/-- A pass of the loop over an entry. -/
def copyStep (src dst : ℕ) : Copied :=
  match mem[src]? with
  | none => .overread
  | some c =>
    if c = 92 then
      match mem[src + 1]? with
      | none => .overread
      | some d =>
        if d = 10 then
          match skipSpace mem (src + 2) with
          | none => .overread
          | some src => .again mem src dst
        else copyByte mem c src dst
    else copyByte mem c src dst

end Code

theorem lt_of_skipComment {mem : List UInt8} {src src' : ℕ} (h : skipComment mem src = some src') :
    src < src' ∧ src < mem.length := by
  induction src using skipComment.induct mem with
  | case1 src hlt hskip ih =>
    rw [skipComment, dif_pos hlt, if_pos hskip] at h
    exact ⟨Nat.lt_of_succ_lt (ih h).1, hlt⟩
  | case2 src hlt hskip =>
    rw [skipComment, dif_pos hlt, if_neg hskip] at h
    cases h
    exact ⟨Nat.lt_succ_self _, hlt⟩
  | case3 src hlt =>
    rw [skipComment, dif_neg hlt] at h
    cases h

theorem le_of_skipSpace {mem : List UInt8} {src src' : ℕ} (h : skipSpace mem src = some src') :
    src ≤ src' := by
  induction src using skipSpace.induct mem with
  | case1 src hlt hskip ih =>
    rw [skipSpace, dif_pos hlt, if_pos hskip] at h
    exact Nat.le_of_succ_le (ih h)
  | case2 src hlt hskip =>
    rw [skipSpace, dif_pos hlt, if_neg hskip] at h
    cases h
    exact Nat.le_refl _
  | case3 src hlt =>
    rw [skipSpace, dif_neg hlt] at h
    cases h

/-- The pass takes at least one byte, unless it ends the entry at a nul. -/
def Copied.Takes (mem : List UInt8) (src : ℕ) : Copied → Prop
  | .overread => True
  | .again mem' src' _ => mem'.length = mem.length ∧ src < src'
  | .ends mem' src' => mem'.length = mem.length ∧ src ≤ src' ∧ (mem[src]? ≠ some 0 → src < src')

theorem copyByte_takes {mem : List UInt8} {c : UInt8} {src : ℕ} (hc : mem[src]? = some c)
    (dst : ℕ) : (copyByte mem c src dst).Takes mem src := by
  by_cases hcopies : c ≠ 0 ∧ c ≠ 10
  · simp only [copyByte, if_pos hcopies]
    split
    · trivial
    · split_ifs
      · exact ⟨by rw [List.length_set, List.length_set], by omega, fun _ => by omega⟩
      · exact ⟨List.length_set, by omega, fun _ => by omega⟩
      · exact ⟨List.length_set, Nat.lt_succ_self _⟩
  · simp only [copyByte, if_neg hcopies, hc]
    split_ifs with h10 h0
    · exact ⟨List.length_set, by omega, fun _ => by omega⟩
    · refine ⟨rfl, Nat.le_refl _, fun hne => absurd hc ?_⟩
      rwa [← h0] at hne
    · exact absurd ⟨h0, h10⟩ hcopies

theorem copyStep_takes (mem : List UInt8) (src dst : ℕ) :
    (copyStep mem src dst).Takes mem src := by
  rw [copyStep]
  split
  · trivial
  · rename_i c hc
    split
    · split
      · trivial
      · split
        · split
          · trivial
          · rename_i hskip
            have := le_of_skipSpace hskip
            exact ⟨rfl, by omega⟩
        · exact copyByte_takes hc dst
    · exact copyByte_takes hc dst

theorem lt_length_of_copyStep {mem mem' : List UInt8} {src dst src' dst' : ℕ}
    (h : copyStep mem src dst = .again mem' src' dst') : src < mem.length := by
  by_contra hlt
  rw [copyStep, List.getElem?_eq_none (Nat.le_of_not_lt hlt)] at h
  cases h

theorem copyStep_again {mem mem' : List UInt8} {src dst src' dst' : ℕ}
    (h : copyStep mem src dst = .again mem' src' dst') :
    mem'.length - src' < mem.length - src := by
  have htakes := copyStep_takes mem src dst
  have hlt := lt_length_of_copyStep h
  rw [h] at htakes
  obtain ⟨hlen, hsrc⟩ := htakes
  omega

/-- The loop over an entry: the memory, and where it goes on. -/
def copyEntry (mem : List UInt8) (src dst : ℕ) : Option (List UInt8 × ℕ) :=
  match h : copyStep mem src dst with
  | .overread => none
  | .ends mem src => some (mem, src)
  | .again mem' src' dst' =>
    have := copyStep_again h
    copyEntry mem' src' dst'
termination_by mem.length - src

theorem copyEntry_takes {mem mem' : List UInt8} {src dst src' : ℕ}
    (h : copyEntry mem src dst = some (mem', src')) :
    mem'.length = mem.length ∧ src ≤ src' ∧ (mem[src]? ≠ some 0 → src < src') := by
  induction mem, src, dst using copyEntry.induct with
  | case1 mem src dst hstep =>
    rw [copyEntry] at h
    split at h <;> simp_all
  | case2 mem src dst mem₁ src₁ hstep =>
    have htakes := copyStep_takes mem src dst
    rw [copyEntry] at h
    split at h <;> simp_all [Copied.Takes]
  | case3 mem src dst mem₁ src₁ dst₁ hstep hlt ih =>
    have htakes := copyStep_takes mem src dst
    rw [hstep] at htakes
    rw [copyEntry] at h
    split at h
    · cases h
    · simp_all
    · rename_i heq
      obtain ⟨rfl, rfl, rfl⟩ := Copied.again.inj (hstep.symm.trans heq)
      obtain ⟨hlen, hle, -⟩ := ih h
      exact ⟨hlen.trans htakes.1, by have := htakes.2; omega, fun _ => by have := htakes.2; omega⟩

/-- The loop over the text: the memory, and where the entries start (`ctab`). -/
def readFrom (mem : List UInt8) (src : ℕ) : Option (List UInt8 × List ℕ) :=
  if hlt : src < mem.length then
    if h0 : mem[src] = 0 then some (mem, [])
    else if mem[src] = 35 then
      match h : skipComment mem src with
      | none => none
      | some src' =>
        have := lt_of_skipComment h
        readFrom mem src'
    else if mem[src] = 10 then readFrom mem (src + 1)
    else
      match h : copyEntry mem src src with
      | none => none
      | some (mem', src') =>
        have := copyEntry_takes h
        have := this.2.2 (by rw [List.getElem?_eq_getElem hlt]; simpa using h0)
        (readFrom mem' src').map fun (mem, ctab) => (mem, src :: ctab)
  else none
termination_by mem.length - src

/-- The string that starts at a place. -/
def stringAt (mem : List UInt8) (p : ℕ) : List UInt8 := (mem.drop p).takeWhile (· ≠ 0)

/-- What `CNFSread_config` and `ovbuffread_config` make of the text of their file: the strings
in `ctab`. -/
def readLines (content : List UInt8) : Option (List (List UInt8)) :=
  (readFrom (content ++ [0]) 0).map fun (mem, ctab) => ctab.map (stringAt mem)

/-! ## Lines -/

/-- A logical line up to its newline, without what continues it: the text, and what follows the
newline if there is one. -/
def takeLine : List UInt8 → List UInt8 × Option (List UInt8)
  | [] => ([], none)
  | c :: l =>
    if c = 10 then ([], some l)
    else if c = 92 ∧ l.head? = some 10 then takeLine (l.tail.dropWhile isspace)
    else (c :: (takeLine l).1, (takeLine l).2)
termination_by l => l.length
decreasing_by
  all_goals simp_wf
  have := (List.dropWhile_sublist isspace (l := l.tail)).length_le
  have := List.length_tail (l := l)
  omega

/-- The lines of a text. A comment line is not continued. The text of an entry is what it has
without the continuations; the last comment or entry may not be closed by a newline. -/
inductive Line where
  | blank
  | comment (closed : Bool)
  | entry (raw text : List UInt8) (closed : Bool)
deriving DecidableEq

theorem takeLine_rest {l text rest : List UInt8} (h : takeLine l = (text, some rest)) :
    rest.length < l.length := by
  induction l using takeLine.induct generalizing text with
  | case1 => simp [takeLine] at h
  | case2 l =>
    simp [takeLine] at h
    rw [← h.2]
    exact Nat.lt_succ_self _
  | case3 c l h10 hcont ih =>
    rw [takeLine, if_neg h10, if_pos hcont] at h
    have := ih h
    have := (List.dropWhile_sublist isspace (l := l.tail)).length_le
    have := List.length_tail (l := l)
    rw [List.length_cons]
    omega
  | case4 c l h10 hcont ih =>
    rw [takeLine, if_neg h10, if_neg hcont] at h
    obtain ⟨-, h⟩ := Prod.mk.inj h
    exact Nat.lt_succ_of_lt (ih (Prod.ext rfl h))

theorem comment_rest {l rest : List UInt8} {c : UInt8}
    (h : l.dropWhile (· ≠ 10) = c :: rest) : rest.length < l.length := by
  have hle := (List.dropWhile_sublist (· ≠ (10 : UInt8)) (l := l)).length_le
  rw [h, List.length_cons] at hle
  exact hle

def lines : List UInt8 → List Line
  | [] => []
  | c :: l =>
    if c = 35 then
      match h : l.dropWhile (· ≠ 10) with
      | [] => [.comment false]
      | _ :: rest =>
        have : rest.length < l.length := comment_rest h
        .comment true :: lines rest
    else if c = 10 then .blank :: lines l
    else
      match h : takeLine (c :: l) with
      | (text, none) => [.entry (c :: l) text false]
      | (text, some rest) =>
        have : rest.length < l.length + 1 := takeLine_rest h
        .entry ((c :: l).take (l.length - rest.length)) text true :: lines rest
termination_by l => l.length
decreasing_by
  · exact Nat.lt_succ_of_lt this
  · exact Nat.lt_succ_self l.length
  · exact this

/-! ## What is in memory -/

section Memory

variable {mem : List UInt8} {l text rest : List UInt8} {c d : UInt8} {src dst : ℕ}

/-- `w` written over the memory from `dst` on. -/
def overwrite (mem : List UInt8) (dst : ℕ) (w : List UInt8) : List UInt8 :=
  mem.take dst ++ w ++ mem.drop (dst + w.length)

theorem overwrite_nil (mem : List UInt8) (dst : ℕ) : overwrite mem dst [] = mem := by
  rw [overwrite, List.append_nil, List.length_nil, Nat.add_zero, List.take_append_drop]

theorem overwrite_set (h : dst < mem.length) (c : UInt8) (w : List UInt8) :
    overwrite (mem.set dst c) (dst + 1) w = overwrite mem dst (c :: w) := by
  have htake : (mem.set dst c).take (dst + 1) = mem.take dst ++ [c] := by
    rw [List.take_set, List.take_succ_eq_append_getElem h, List.set_append_right _ _ (by simp)]
    simp [Nat.min_eq_left (Nat.le_of_lt h)]
  rw [overwrite, overwrite, htake, List.drop_set_of_lt (by omega), List.length_cons,
    List.append_assoc, List.append_assoc, List.append_assoc, Nat.add_assoc, Nat.add_comm 1]
  rfl

theorem set_eq_overwrite (h : dst < mem.length) (c : UInt8) :
    mem.set dst c = overwrite mem dst [c] := by
  rw [← overwrite_set h, overwrite_nil]

theorem read_of_drop (h : mem.drop src = c :: l) :
    mem[src]? = some c ∧ mem.drop (src + 1) = l ∧ src < mem.length := by
  have hlt : src < mem.length := by
    by_contra hle
    rw [List.drop_eq_nil_of_le (Nat.le_of_not_lt hle)] at h
    cases h
  refine ⟨?_, ?_, hlt⟩
  · rw [← List.head?_drop, h, List.head?_cons]
  · rw [← List.tail_drop, h, List.tail_cons]

theorem drop_set (hle : dst ≤ src) : (mem.set dst c).drop (src + 1) = mem.drop (src + 1) :=
  List.drop_set_of_lt (Nat.lt_succ_of_le hle)

/-- A comment that a newline closes. -/
theorem skipComment_closed (h : mem.drop src = l ++ [0]) (h0 : 0 ∉ l)
    (hrest : l.dropWhile (· ≠ 10) = c :: rest) :
    ∃ src', skipComment mem src = some src' ∧ mem.drop src' = rest ++ [0] := by
  induction l generalizing src with
  | nil => cases hrest
  | cons d l ih =>
    obtain ⟨hread, hdrop, hlt⟩ := read_of_drop h
    have hd := List.getElem_of_getElem? hread
    obtain ⟨_, hd⟩ := hd
    have hne : d ≠ 0 := fun h => h0 (h ▸ List.mem_cons_self)
    by_cases h10 : d = 10
    · rw [List.dropWhile_cons_of_neg (by simpa using h10)] at hrest
      obtain ⟨rfl, rfl⟩ := List.cons.inj hrest
      refine ⟨src + 1, ?_, hdrop⟩
      rw [skipComment, dif_pos hlt, hd, if_neg (fun h => h.2 h10)]
    · rw [List.dropWhile_cons_of_pos (by simpa using h10)] at hrest
      obtain ⟨src', hskip, hend⟩ := ih hdrop (fun h => h0 (List.mem_cons_of_mem _ h)) hrest
      refine ⟨src', ?_, hend⟩
      rw [skipComment, dif_pos hlt, hd, if_pos ⟨hne, h10⟩, hskip]

/-- The step past the end of one that none closes goes past the nul. -/
theorem skipComment_open (h : mem.drop src = l ++ [0]) (h0 : 0 ∉ l)
    (hrest : l.dropWhile (· ≠ 10) = []) : skipComment mem src = some mem.length := by
  induction l generalizing src with
  | nil =>
    obtain ⟨hread, hdrop, hlt⟩ := read_of_drop h
    obtain ⟨_, hd⟩ := List.getElem_of_getElem? hread
    have hle := List.drop_eq_nil_iff.mp hdrop
    rw [skipComment, dif_pos hlt, hd, if_neg (fun h => h.1 rfl)]
    exact congrArg some (by omega)
  | cons d l ih =>
    obtain ⟨hread, hdrop, hlt⟩ := read_of_drop h
    obtain ⟨_, hd⟩ := List.getElem_of_getElem? hread
    have hne : d ≠ 0 := fun h => h0 (h ▸ List.mem_cons_self)
    have h10 : d ≠ 10 := by
      intro h10
      rw [List.dropWhile_cons_of_neg (by simpa using h10)] at hrest
      cases hrest
    rw [List.dropWhile_cons_of_pos (by simpa using h10)] at hrest
    rw [skipComment, dif_pos hlt, hd, if_pos ⟨hne, h10⟩]
    exact ih hdrop (fun h => h0 (List.mem_cons_of_mem _ h)) hrest

theorem skipSpace_spec (h : mem.drop src = l ++ [0]) (h0 : 0 ∉ l) :
    ∃ src', skipSpace mem src = some src' ∧ mem.drop src' = l.dropWhile isspace ++ [0] := by
  induction l generalizing src with
  | nil =>
    obtain ⟨hread, hdrop, hlt⟩ := read_of_drop h
    obtain ⟨_, hd⟩ := List.getElem_of_getElem? hread
    refine ⟨src, ?_, h⟩
    rw [skipSpace, dif_pos hlt, hd, if_neg (fun h => h.1 rfl)]
  | cons d l ih =>
    obtain ⟨hread, hdrop, hlt⟩ := read_of_drop h
    obtain ⟨_, hd⟩ := List.getElem_of_getElem? hread
    have hne : d ≠ 0 := fun h => h0 (h ▸ List.mem_cons_self)
    by_cases hspace : isspace d = true
    · obtain ⟨src', hskip, hend⟩ := ih hdrop (fun h => h0 (List.mem_cons_of_mem _ h))
      refine ⟨src', ?_, ?_⟩
      · rw [skipSpace, dif_pos hlt, hd, if_pos ⟨hne, hspace⟩, hskip]
      · rw [List.dropWhile_cons_of_pos hspace, hend]
    · refine ⟨src, ?_, ?_⟩
      · rw [skipSpace, dif_pos hlt, hd, if_neg (fun h => hspace h.2)]
      · rw [List.dropWhile_cons_of_neg hspace, h]

theorem copyEntry_ends {mem' : List UInt8} {src' : ℕ}
    (h : copyStep mem src dst = .ends mem' src') : copyEntry mem src dst = some (mem', src') := by
  rw [copyEntry]
  split <;> simp_all

theorem copyEntry_again {mem' : List UInt8} {src' dst' : ℕ}
    (h : copyStep mem src dst = .again mem' src' dst') :
    copyEntry mem src dst = copyEntry mem' src' dst' := by
  rw [copyEntry]
  split <;> simp_all

/-- At a nul the entry ends. -/
theorem copyEntry_nul (h : mem.drop src = 0 :: l) : copyEntry mem src dst = some (mem, src) := by
  have hno : ¬ ((0 : UInt8) ≠ 0 ∧ (0 : UInt8) ≠ 10) := by decide
  have h92 : (0 : UInt8) ≠ 92 := by decide
  have h10 : (0 : UInt8) ≠ 10 := by decide
  obtain ⟨hread, -, -⟩ := read_of_drop h
  apply copyEntry_ends
  simp only [copyStep, hread, if_neg h92, copyByte, if_neg hno, if_neg h10, if_true]

/-- At a newline it ends with a nul. -/
theorem copyEntry_newline (h : mem.drop src = 10 :: l) :
    copyEntry mem src dst = some (mem.set dst 0, src + 1) := by
  have hno : ¬ ((10 : UInt8) ≠ 0 ∧ (10 : UInt8) ≠ 10) := by decide
  have h92 : (10 : UInt8) ≠ 92 := by decide
  obtain ⟨hread, -, -⟩ := read_of_drop h
  apply copyEntry_ends
  simp only [copyStep, hread, if_neg h92, copyByte, if_neg hno, if_true]

/-- A continued line. -/
theorem copyEntry_continued (h : mem.drop src = 92 :: 10 :: (l ++ [0])) (h0 : 0 ∉ l) :
    ∃ src', copyEntry mem src dst = copyEntry mem src' dst ∧
      mem.drop src' = l.dropWhile isspace ++ [0] ∧ src + 2 ≤ src' := by
  obtain ⟨hread, hdrop, -⟩ := read_of_drop h
  obtain ⟨hread', hdrop', -⟩ := read_of_drop hdrop
  obtain ⟨src', hskip, hend⟩ := skipSpace_spec hdrop' h0
  refine ⟨src', copyEntry_again ?_, hend, le_of_skipSpace hskip⟩
  simp only [copyStep, hread, hread', hskip, if_true]

/-- Any other byte is copied. -/
theorem copyEntry_copy (h : mem.drop src = c :: d :: l) (h0 : c ≠ 0) (h10 : c ≠ 10)
    (hcont : ¬ (c = 92 ∧ d = 10)) (hdst : dst ≤ src) :
    copyEntry mem src dst = copyEntry (mem.set dst c) (src + 1) (dst + 1) := by
  obtain ⟨hread, hdrop, -⟩ := read_of_drop h
  obtain ⟨hread', -, -⟩ := read_of_drop hdrop
  have hnext : (mem.set dst c).drop (src + 1) = d :: l := (drop_set hdst).trans hdrop
  obtain ⟨hread'', -, -⟩ := read_of_drop hnext
  have hstep : copyStep mem src dst = copyByte mem c src dst := by
    by_cases h92 : c = 92
    · simp only [copyStep, hread, hread', if_pos h92, if_neg (fun h => hcont ⟨h92, h⟩)]
    · simp only [copyStep, hread, if_neg h92]
  simp only [copyByte, if_pos (And.intro h0 h10), hread''] at hstep
  by_cases hd10 : d = 10
  · rw [if_pos hd10] at hstep
    rw [copyEntry_ends hstep, copyEntry_newline (hd10 ▸ hnext)]
  · rw [if_neg hd10] at hstep
    by_cases hd0 : d = 0
    · rw [if_pos hd0] at hstep
      rw [copyEntry_ends hstep, copyEntry_nul (hd0 ▸ hnext)]
    · rw [if_neg hd0] at hstep
      exact copyEntry_again hstep

/-- What the loop over an entry leaves in memory, and where it goes on. -/
theorem copyEntry_spec (h : mem.drop src = l ++ [0]) (h0 : 0 ∉ l) (hdst : dst ≤ src) :
    (∀ text rest, takeLine l = (text, some rest) → ∃ src', dst + text.length < src' ∧
      mem.drop src' = rest ++ [0] ∧
      copyEntry mem src dst = some (overwrite mem dst (text ++ [0]), src')) ∧
    (∀ text, takeLine l = (text, none) → dst + text.length < mem.length ∧
      copyEntry mem src dst = some (overwrite mem dst text, mem.length - 1)) := by
  induction l using takeLine.induct generalizing mem src dst with
  | case1 =>
    obtain ⟨-, hdrop, hlt⟩ := read_of_drop h
    have hle := List.drop_eq_nil_iff.mp hdrop
    refine ⟨fun text rest heq => ?_, fun text heq => ?_⟩
    · rw [takeLine] at heq
      cases heq
    · rw [takeLine] at heq
      cases heq
      rw [overwrite_nil, copyEntry_nul h, List.length_nil]
      exact ⟨by omega, congrArg some (Prod.ext rfl (by dsimp only; omega))⟩
  | case2 l =>
    obtain ⟨-, hdrop, hlt⟩ := read_of_drop h
    refine ⟨fun text rest heq => ?_, fun text heq => ?_⟩
    · rw [takeLine, if_pos rfl] at heq
      cases heq
      refine ⟨src + 1, by rw [List.length_nil]; omega, hdrop, ?_⟩
      rw [copyEntry_newline h, set_eq_overwrite (by omega)]
      rfl
    · rw [takeLine, if_pos rfl] at heq
      cases heq
  | case3 c l h10 hcont ih =>
    obtain ⟨rfl, hhead⟩ := hcont
    obtain ⟨l, rfl⟩ : ∃ l', l = 10 :: l' := by
      cases l with
      | nil => cases hhead
      | cons d l => exact ⟨l, by rw [Option.some_inj.mp hhead]⟩
    have h0' : 0 ∉ l := fun h => h0 (List.mem_cons_of_mem _ (List.mem_cons_of_mem _ h))
    obtain ⟨src', heq, hdrop, hle⟩ := @copyEntry_continued mem l src dst h h0'
    have hspace : 0 ∉ l.dropWhile isspace := fun h =>
      h0' ((List.dropWhile_sublist isspace).subset h)
    rw [heq, takeLine, if_neg h10, if_pos ⟨rfl, rfl⟩]
    exact ih hdrop hspace (by omega)
  | case4 c l h10 hcont ih =>
    obtain ⟨-, hdrop, hlt⟩ := read_of_drop h
    have hc0 : c ≠ 0 := fun h => h0 (h ▸ List.mem_cons_self)
    have h0' : 0 ∉ l := fun h => h0 (List.mem_cons_of_mem _ h)
    obtain ⟨d, l', hd⟩ : ∃ d l', l ++ [0] = d :: l' := by
      cases l with
      | nil => exact ⟨0, [], rfl⟩
      | cons d l => exact ⟨d, l ++ [0], rfl⟩
    have hcont' : ¬ (c = 92 ∧ d = 10) := by
      rintro ⟨rfl, rfl⟩
      cases l with
      | nil => cases hd
      | cons d l => exact hcont ⟨rfl, by rw [(List.cons.inj hd).1]; rfl⟩
    have hcopy := copyEntry_copy (h.trans (congrArg (c :: ·) hd)) hc0 h10 hcont' hdst
    have hnext : (mem.set dst c).drop (src + 1) = l ++ [0] := (drop_set hdst).trans hdrop
    obtain ⟨hclosed, hopen⟩ := ih hnext h0' (Nat.succ_le_succ hdst)
    rw [takeLine, if_neg h10, if_neg hcont, hcopy]
    refine ⟨fun text rest heq => ?_, fun text heq => ?_⟩
    · obtain ⟨rfl, hrest⟩ := Prod.mk.inj heq
      obtain ⟨src', hlt', hend, hrun⟩ := hclosed (takeLine l).1 rest (Prod.ext rfl hrest)
      have hsrc : src + 1 ≤ src' := (copyEntry_takes hrun).2.1
      refine ⟨src', by rw [List.length_cons]; omega, ?_, ?_⟩
      · rw [← hend, List.drop_set_of_lt (by omega)]
      · rw [hrun, overwrite_set (by omega), List.cons_append]
    · obtain ⟨rfl, hrest⟩ := Prod.mk.inj heq
      obtain ⟨hlt', hrun⟩ := hopen (takeLine l).1 (Prod.ext rfl hrest)
      rw [List.length_set] at hlt' hrun
      refine ⟨by rw [List.length_cons]; omega, ?_⟩
      rw [hrun, overwrite_set (by omega)]

theorem length_front (hle : dst ≤ mem.length) (w : List UInt8) :
    (mem.take dst ++ w).length = dst + w.length := by
  rw [List.length_append, List.length_take, Nat.min_eq_left hle]

theorem drop_overwrite {w : List UInt8} (hle : dst ≤ mem.length) (h : dst + w.length ≤ src) :
    (overwrite mem dst w).drop src = mem.drop src := by
  obtain ⟨k, rfl⟩ := Nat.exists_eq_add_of_le h
  rw [overwrite, ← List.drop_drop, List.drop_left' (length_front hle w), List.drop_drop]

theorem take_overwrite {w : List UInt8} (hle : dst ≤ mem.length) :
    (overwrite mem dst w).take dst = mem.take dst := by
  rw [overwrite, List.append_assoc, List.take_left' (by rw [List.length_take, Nat.min_eq_left hle])]

theorem takeWhile_ne_zero (h0 : 0 ∉ text) (tail : List UInt8) :
    (text ++ 0 :: tail).takeWhile (· ≠ 0) = text := by
  rw [List.takeWhile_append_of_pos, List.takeWhile_cons_of_neg (by decide), List.append_nil]
  intro c hc
  simpa using fun h : c = 0 => h0 (h ▸ hc)

/-- The string of an entry stays when what follows it is written. -/
theorem stringAt_closed {mem' : List UInt8} {k : ℕ}
    (hw : mem'.take k = (overwrite mem dst (text ++ [0])).take k) (hdst : dst ≤ mem.length)
    (hk : dst + text.length < k) (h0 : 0 ∉ text) : stringAt mem' dst = text := by
  have hlen := length_front hdst (text ++ [0])
  have hlen' : (text ++ [0]).length = text.length + 1 := List.length_append
  have htake : mem'.take (dst + (text.length + 1)) = mem.take dst ++ (text ++ [0]) := by
    have hmin : min (dst + (text.length + 1)) k = dst + (text.length + 1) := by omega
    rw [← hmin, ← List.take_take, hw, List.take_take, hmin, overwrite,
      List.take_left' (hlen.trans (congrArg _ hlen'))]
  have hdrop : mem'.drop dst = text ++ 0 :: mem'.drop (dst + (text.length + 1)) := by
    nth_rewrite 1 [← List.take_append_drop (dst + (text.length + 1)) mem']
    rw [htake, List.append_assoc, List.drop_left' (by rw [List.length_take, Nat.min_eq_left hdst]),
      List.append_assoc]
    rfl
  rw [stringAt, hdrop, takeWhile_ne_zero h0]

/-- The string of one that nothing closes goes on with the end of the memory. -/
theorem stringAt_open (h : mem.drop dst = l ++ [0]) (h0 : 0 ∉ l) (h0' : 0 ∉ text)
    (hdst : dst ≤ mem.length) (hlen : text.length ≤ l.length) :
    stringAt (overwrite mem dst text) dst = text ++ l.drop text.length := by
  have hdrop : (overwrite mem dst text).drop dst = text ++ (l.drop text.length ++ [0]) := by
    rw [overwrite, List.append_assoc,
      List.drop_left' (by rw [List.length_take, Nat.min_eq_left hdst]), ← List.drop_drop, h,
      List.drop_append_of_le_length hlen]
  have hzero : 0 ∉ text ++ l.drop text.length := by
    rw [List.mem_append, not_or]
    exact ⟨h0', fun h => h0 (List.mem_of_mem_drop h)⟩
  rw [stringAt, hdrop, ← List.append_assoc, takeWhile_ne_zero hzero]

end Memory

/-- What is at the place of a line in `ctab`. What an entry that nothing closes leaves behind
its text is the end of the file. -/
def Line.stored : Line → Option (List UInt8)
  | .entry raw text closed => some (if closed then text else text ++ raw.drop text.length)
  | _ => none

/-- A logical line has no other bytes. -/
theorem takeLine_subset (l : List UInt8) :
    (takeLine l).1 ⊆ l ∧ ∀ rest, (takeLine l).2 = some rest → rest ⊆ l := by
  induction l using takeLine.induct with
  | case1 => simp [takeLine]
  | case2 l =>
    rw [takeLine, if_pos rfl]
    refine ⟨List.nil_subset _, fun rest h => ?_⟩
    rw [Option.some_inj] at h
    exact h ▸ List.subset_cons_self _ _
  | case3 c l h10 hcont ih =>
    have hsub : l.tail.dropWhile isspace ⊆ c :: l := fun d hd =>
      List.mem_cons_of_mem _ (List.mem_of_mem_tail ((List.dropWhile_sublist isspace).subset hd))
    rw [takeLine, if_neg h10, if_pos hcont]
    exact ⟨List.Subset.trans ih.1 hsub, fun rest h => List.Subset.trans (ih.2 rest h) hsub⟩
  | case4 c l h10 hcont ih =>
    rw [takeLine, if_neg h10, if_neg hcont]
    exact ⟨List.cons_subset_cons c ih.1,
      fun rest h => List.Subset.trans (ih.2 rest h) (List.subset_cons_self _ _)⟩

section Run

variable {mem mem' l rest : List UInt8} {c : UInt8} {src src' : ℕ}

theorem readFrom_nul (h : mem[src]? = some 0) : readFrom mem src = some (mem, []) := by
  obtain ⟨hlt, hc⟩ := List.getElem?_eq_some_iff.mp h
  rw [readFrom, dif_pos hlt, dif_pos hc]

theorem readFrom_comment (h : mem[src]? = some 35) (hskip : skipComment mem src = some src') :
    readFrom mem src = readFrom mem src' := by
  obtain ⟨hlt, hc⟩ := List.getElem?_eq_some_iff.mp h
  rw [readFrom, dif_pos hlt, dif_neg (by rw [hc]; decide), if_pos hc]
  split <;> simp_all

theorem readFrom_blank (h : mem[src]? = some 10) : readFrom mem src = readFrom mem (src + 1) := by
  obtain ⟨hlt, hc⟩ := List.getElem?_eq_some_iff.mp h
  rw [readFrom, dif_pos hlt, dif_neg (by rw [hc]; decide), if_neg (by rw [hc]; decide), if_pos hc]

theorem readFrom_entry (h : mem[src]? = some c) (h0 : c ≠ 0) (h35 : c ≠ 35) (h10 : c ≠ 10)
    (hcopy : copyEntry mem src src = some (mem', src')) :
    readFrom mem src = (readFrom mem' src').map fun (mem, ctab) => (mem, src :: ctab) := by
  obtain ⟨hlt, hc⟩ := List.getElem?_eq_some_iff.mp h
  rw [readFrom, dif_pos hlt, dif_neg (by rwa [hc]), if_neg (by rwa [hc]), if_neg (by rwa [hc])]
  split <;> simp_all

theorem readFrom_end (h : mem.length ≤ src) : readFrom mem src = none := by
  rw [readFrom, dif_neg (Nat.not_lt.mpr h)]

theorem lines_comment_open (h : l.dropWhile (· ≠ 10) = []) :
    lines (35 :: l) = [.comment false] := by
  rw [lines, if_pos rfl]
  split
  · rfl
  · rename_i heq
    exact nomatch h.symm.trans heq

theorem lines_comment (h : l.dropWhile (· ≠ 10) = c :: rest) :
    lines (35 :: l) = .comment true :: lines rest := by
  rw [lines, if_pos rfl]
  split
  · rename_i heq
    exact nomatch h.symm.trans heq
  · rename_i heq
    rw [(List.cons.inj (h.symm.trans heq)).2]

theorem lines_blank (l : List UInt8) : lines (10 :: l) = .blank :: lines l := by
  rw [lines, if_neg (by decide), if_pos rfl]

theorem lines_open {text : List UInt8} (h35 : c ≠ 35) (h10 : c ≠ 10)
    (h : takeLine (c :: l) = (text, none)) : lines (c :: l) = [.entry (c :: l) text false] := by
  rw [lines, if_neg h35, if_neg h10]
  split <;> simp_all

theorem lines_closed {text : List UInt8} (h35 : c ≠ 35) (h10 : c ≠ 10)
    (h : takeLine (c :: l) = (text, some rest)) :
    lines (c :: l) =
      .entry ((c :: l).take (l.length - rest.length)) text true :: lines rest := by
  rw [lines, if_neg h35, if_neg h10]
  split <;> simp_all

/-- What is in memory for each line; a comment that no newline closes leads out of it. -/
theorem readFrom_spec (h : mem.drop src = l ++ [0]) (h0 : 0 ∉ l) :
    (.comment false ∈ lines l → readFrom mem src = none) ∧
    (.comment false ∉ lines l → ∃ mem' ctab, readFrom mem src = some (mem', ctab) ∧
      mem'.take src = mem.take src ∧
      ctab.map (stringAt mem') = (lines l).filterMap Line.stored) := by
  induction hn : l.length using Nat.strongRecOn generalizing mem l src with
  | _ n ih =>
  subst hn
  cases l with
  | nil =>
    obtain ⟨hread, -, -⟩ := read_of_drop h
    rw [lines]
    exact ⟨nofun, fun _ => ⟨mem, [], readFrom_nul hread, rfl, rfl⟩⟩
  | cons c l =>
    obtain ⟨hread, hdrop, hlt⟩ := read_of_drop h
    have hc0 : c ≠ 0 := fun h => h0 (h ▸ List.mem_cons_self)
    have h0' : 0 ∉ l := fun h => h0 (List.mem_cons_of_mem _ h)
    by_cases h35 : c = 35
    · subst h35
      cases hrest : l.dropWhile (· ≠ 10) with
      | nil =>
        rw [lines_comment_open hrest, readFrom_comment hread (skipComment_open h h0 (by
          rwa [List.dropWhile_cons_of_pos (by decide)])), readFrom_end (Nat.le_refl _)]
        exact ⟨fun _ => rfl, fun h => absurd List.mem_cons_self h⟩
      | cons d rest =>
        have hsub := List.dropWhile_sublist (· ≠ (10 : UInt8)) (l := l)
        rw [hrest] at hsub
        have hlen := hsub.length_le
        rw [List.length_cons] at hlen
        obtain ⟨src', hskip, hend⟩ := skipComment_closed h h0 (by
          rwa [List.dropWhile_cons_of_pos (by decide)])
        have hzero : 0 ∉ rest := fun h => h0' (hsub.subset (List.mem_cons_of_mem _ h))
        obtain ⟨hnone, hsome⟩ := ih rest.length (by rw [List.length_cons]; omega) hend hzero rfl
        rw [lines_comment hrest, readFrom_comment hread hskip]
        refine ⟨fun hmem => hnone (by simpa using hmem), fun hmem => ?_⟩
        obtain ⟨mem', ctab, hrun, htake, hstrings⟩ := hsome (by simpa using hmem)
        refine ⟨mem', ctab, hrun, ?_, hstrings⟩
        have hle := Nat.le_of_lt (lt_of_skipComment hskip).1
        rw [← Nat.min_eq_left hle, ← List.take_take, htake, List.take_take]
    · by_cases h10 : c = 10
      · subst h10
        obtain ⟨hnone, hsome⟩ := ih l.length (Nat.lt_succ_self _) hdrop h0' rfl
        rw [lines_blank, readFrom_blank hread]
        refine ⟨fun hmem => hnone (by simpa using hmem), fun hmem => ?_⟩
        obtain ⟨mem', ctab, hrun, htake, hstrings⟩ := hsome (by simpa using hmem)
        refine ⟨mem', ctab, hrun, ?_, hstrings⟩
        rw [← Nat.min_eq_left (Nat.le_succ src), ← List.take_take, htake, List.take_take]
      · obtain ⟨hclosed, hopen⟩ := copyEntry_spec h h0 (Nat.le_refl src)
        obtain ⟨htext, hsub⟩ := takeLine_subset (c :: l)
        obtain ⟨text, rest, hline⟩ : ∃ text rest, takeLine (c :: l) = (text, rest) := ⟨_, _, rfl⟩
        rw [hline] at htext hsub
        have htext0 : 0 ∉ text := fun h => h0 (htext h)
        have hmemlen : mem.length = src + l.length + 2 := by
          have := congrArg List.length h
          rw [List.length_drop, List.length_append, List.length_cons, List.length_singleton] at this
          omega
        cases rest with
        | none =>
          obtain ⟨hlen, hcopy⟩ := hopen text hline
          have hnul : (overwrite mem src text)[mem.length - 1]? = some 0 := by
            have hlast : mem.length - 1 = src + (c :: l).length := by
              rw [List.length_cons]
              omega
            rw [← List.head?_drop, drop_overwrite (Nat.le_of_lt hlt) (by omega), List.head?_drop,
              hlast, ← List.getElem?_drop, h, List.getElem?_append_right (Nat.le_refl _),
              Nat.sub_self]
            rfl
          rw [lines_open h35 h10 hline, readFrom_entry hread hc0 h35 h10 hcopy, readFrom_nul hnul]
          refine ⟨nofun, fun _ => ⟨overwrite mem src text, [src], rfl, ?_, ?_⟩⟩
          · exact take_overwrite (Nat.le_of_lt hlt)
          · have hle : text.length ≤ (c :: l).length := by
              rw [List.length_cons]
              omega
            rw [List.map_singleton, stringAt_open h h0 htext0 (Nat.le_of_lt hlt) hle]
            rfl
        | some rest =>
          obtain ⟨src', hsrc, hend, hcopy⟩ := hclosed text rest hline
          have hend' : (overwrite mem src (text ++ [0])).drop src' = rest ++ [0] := by
            rw [drop_overwrite (Nat.le_of_lt hlt), hend]
            rw [List.length_append, List.length_singleton]
            omega
          have hzero : 0 ∉ rest := fun h => h0 (hsub rest rfl h)
          obtain ⟨hnone, hsome⟩ := ih rest.length (takeLine_rest hline) hend' hzero rfl
          rw [lines_closed h35 h10 hline, readFrom_entry hread hc0 h35 h10 hcopy]
          refine ⟨fun hmem => ?_, fun hmem => ?_⟩
          · rw [hnone (by simpa using hmem)]
            rfl
          · obtain ⟨mem', ctab, hrun, htake, hstrings⟩ := hsome (by simpa using hmem)
            refine ⟨mem', src :: ctab, by rw [hrun]; rfl, ?_, ?_⟩
            · have hle : src ≤ src' := by omega
              rw [← Nat.min_eq_left hle, ← List.take_take, htake, List.take_take,
                Nat.min_eq_left hle, take_overwrite (Nat.le_of_lt hlt)]
            · rw [List.map_cons, hstrings,
                stringAt_closed htake (Nat.le_of_lt hlt) (by omega) htext0]
              rfl

end Run

/-! ## The logical lines -/

/-- A text that is not empty and does not start with `#`. -/
def Proper (text : List UInt8) : Prop := text ≠ [] ∧ text.head? ≠ some 35

instance (text : List UInt8) : Decidable (Proper text) := inferInstanceAs (Decidable (_ ∧ _))

/-- The logical line that a reader shall get. -/
def Line.logical : Line → Option (List UInt8)
  | .entry _ text _ => if Proper text then some text else none
  | _ => none

def logicalLines (content : List UInt8) : List (List UInt8) :=
  (lines content).filterMap Line.logical

/-- A comment is closed; the text of an entry is proper, and is all of it where no newline
closes it. -/
def Line.Safe : Line → Prop
  | .blank => True
  | .comment closed => closed = true
  | .entry raw text closed => Proper text ∧ (closed = false → raw.length ≤ text.length)

/-- The entries, line by line. -/
theorem readLines_eq {content : List UInt8} (h0 : 0 ∉ content) :
    readLines content = if .comment false ∈ lines content then none
      else some ((lines content).filterMap Line.stored) := by
  obtain ⟨hnone, hsome⟩ := @readFrom_spec (content ++ [0]) content 0 rfl h0
  rw [readLines]
  split
  · rename_i hmem
    rw [hnone hmem]
    rfl
  · rename_i hmem
    obtain ⟨mem', ctab, hrun, -, hstrings⟩ := hsome hmem
    rw [hrun, Option.map_some]
    exact congrArg some hstrings

/-- Two choices from a list, where one makes a pick wherever the other does. -/
theorem filterMap_eq_iff {α β : Type*} {f g : α → Option β} {l : List α}
    (h : ∀ a ∈ l, (g a).isSome → (f a).isSome) :
    l.filterMap f = l.filterMap g ↔ ∀ a ∈ l, f a = g a := by
  have hlen : ∀ l : List α, (∀ a ∈ l, (g a).isSome → (f a).isSome) →
      (l.filterMap g).length ≤ (l.filterMap f).length := by
    intro l
    induction l with
    | nil => exact fun _ => Nat.le_refl _
    | cons a l ih =>
      intro h
      have hle := ih fun a ha => h a (List.mem_cons_of_mem _ ha)
      have ha := h a List.mem_cons_self
      cases hg : g a with
      | none =>
        rw [List.filterMap_cons_none hg]
        exact Nat.le_trans hle ((List.sublist_cons_self a l).filterMap f).length_le
      | some b =>
        obtain ⟨b', hf⟩ := Option.isSome_iff_exists.mp (ha (by rw [hg]; rfl))
        rw [List.filterMap_cons_some hg, List.filterMap_cons_some hf]
        exact Nat.succ_le_succ hle
  induction l with
  | nil => simp
  | cons a l ih =>
    have hrest := fun a ha => h a (List.mem_cons_of_mem _ ha)
    have ha := h a List.mem_cons_self
    have hall := ih hrest
    rw [List.forall_mem_cons]
    cases hf : f a with
    | none =>
      have hg : g a = none := by
        rw [hf] at ha
        simpa using ha
      rw [List.filterMap_cons_none hf, List.filterMap_cons_none hg, hg]
      exact hall.trans (and_iff_right rfl).symm
    | some b =>
      cases hg : g a with
      | none =>
        rw [List.filterMap_cons_some hf, List.filterMap_cons_none hg]
        refine iff_of_false (fun heq => ?_) (fun h => nomatch h.1)
        have := hlen l hrest
        rw [← heq, List.length_cons] at this
        omega
      | some b' =>
        rw [List.filterMap_cons_some hf, List.filterMap_cons_some hg, List.cons.injEq,
          Option.some_inj]
        exact and_congr_right' hall

theorem Line.stored_eq_logical_iff (line : Line) (h : line ≠ .comment false) :
    line.stored = line.logical ↔ line.Safe := by
  cases line with
  | blank => exact iff_of_true rfl trivial
  | comment closed =>
    refine iff_of_true rfl ?_
    cases closed with
    | false => exact absurd rfl h
    | true => rfl
  | entry raw text closed =>
    rw [Line.stored, Line.logical, Line.Safe]
    by_cases hproper : Proper text
    · rw [if_pos hproper, and_iff_right hproper, Option.some_inj]
      cases closed with
      | true => simp
      | false =>
        rw [if_neg Bool.false_ne_true, List.append_right_eq_self, List.drop_eq_nil_iff]
        simp
    · rw [if_neg hproper]
      exact iff_of_false (fun h => nomatch h) fun h => hproper h.1

/-- The reader gives the logical lines where every comment is closed, no continuation is in an
entry that nothing closes, and none brings a `#` to the start of an entry. -/
theorem readLines_iff {content : List UInt8} (h0 : 0 ∉ content) :
    readLines content = some (logicalLines content) ↔ ∀ line ∈ lines content, line.Safe := by
  rw [readLines_eq h0, logicalLines]
  by_cases hopen : .comment false ∈ lines content
  · rw [if_pos hopen]
    exact iff_of_false (fun h => nomatch h) fun h => nomatch h _ hopen
  · have hpick : ∀ line ∈ lines content, line.logical.isSome → line.stored.isSome := by
      intro line _ hsome
      cases line with
      | blank => exact hsome
      | comment closed => exact hsome
      | entry raw text closed => rfl
    rw [if_neg hopen, Option.some_inj, filterMap_eq_iff hpick]
    refine forall_congr' fun line => forall_congr' fun hmem => ?_
    exact line.stored_eq_logical_iff fun h => hopen (h ▸ hmem)

/-- The lines that `CNFSread_config` parses. -/
def CNFSread_config (content : List UInt8) : Option (List (List UInt8)) := readLines content

/-- The lines that `ovbuffread_config` parses, with the same loop. -/
def ovbuffread_config (content : List UInt8) : Option (List (List UInt8)) := readLines content

theorem config_lines_iff {content : List UInt8} (h0 : 0 ∉ content) :
    (CNFSread_config content = some (logicalLines content) ↔ ∀ line ∈ lines content, line.Safe) ∧
      (ovbuffread_config content = some (logicalLines content) ↔
        ∀ line ∈ lines content, line.Safe) :=
  ⟨readLines_iff h0, readLines_iff h0⟩

/-- An entry of one letter, closed. -/
theorem config_lines_letter : (0 : UInt8) ∉ [97, 10] ∧
    (CNFSread_config [97, 10] = some (logicalLines [97, 10]) ↔
      ∀ line ∈ lines [97, 10], line.Safe) :=
  ⟨by decide, (config_lines_iff (by decide)).1⟩

/-- A comment at the end of the file that no newline closes: the reader goes past the nul. -/
theorem open_comment_overread :
    (0 : UInt8) ∉ [35] ∧ CNFSread_config [35] = none ∧ ovbuffread_config [35] = none := by
  have hlines : lines [35] = [.comment false] := lines_comment_open rfl
  have hread : readLines [35] = none := by
    rw [readLines_eq (by decide), hlines, if_pos List.mem_cons_self]
  exact ⟨by decide, hread, hread⟩

end Inn.Storage
