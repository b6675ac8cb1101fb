import Inn.Confparse.Parse

/-!
# Inn.Confparse.Find — walking the tree of a configuration

`config_find_group` goes from a group to the next one of a type with nothing but the links
of the groups.

* `findAbove_spec` — the climb to the siblings of what is above;
* `config_find_group_spec` — the next group of a type is the first of what comes after;
* `traversal_complete` — the walk over a tree that was parsed.
-/

namespace Inn.Confparse

/-! ## The code -/

section Code

variable (mem : Memory) (type : List UInt8)

mutual

/-- `config_find_group`; the result is the pointer it returns. -/
def config_find_group : ℕ → ℕ → Option (Option ℕ)
  | 0, _ => none
  | fuel + 1, group =>
    match (mem.get group).child with
    | some child =>
      if (mem.get child).type = type then some (some child) else config_find_group fuel child
    | none => findAbove fuel (some group)

/-- The outer loop of `config_find_group`. -/
def findAbove : ℕ → Option ℕ → Option (Option ℕ)
  | 0, _ => none
  | _ + 1, none => some none
  | fuel + 1, some group => findSibling fuel group (mem.get group).next

/-- The inner loop of `config_find_group`. -/
def findSibling : ℕ → ℕ → Option ℕ → Option (Option ℕ)
  | 0, _, _ => none
  | fuel + 1, group, none => findAbove fuel (mem.get group).parent
  | fuel + 1, group, some sib =>
    if (mem.get sib).type = type then some (some sib)
    else match (mem.get sib).child with
      | some child =>
        if (mem.get child).type = type then some (some child) else config_find_group fuel child
      | none => findSibling fuel group (mem.get sib).next

end

/-- `config_next_group`. -/
def config_next_group (fuel group : ℕ) : Option (Option ℕ) :=
  config_find_group mem (mem.get group).type fuel group

/-- The groups that are found one after the other from `group` on, until there is none: each next
one by `config_next_group` or by `config_find_group`, as `useNext` has it. -/
def walk (useNext : ℕ → Bool) (fuel : ℕ) : ℕ → ℕ → Bool → Option (List ℕ)
  | 0, _, _ => none
  | steps + 1, group, first =>
    let found := if first = false ∧ useNext group = true then config_next_group mem fuel group
      else config_find_group mem type fuel group
    match found with
    | none => none
    | some none => some []
    | some (some next) => (walk useNext fuel steps next false).map (next :: ·)

end Code

/-! ## The next group -/

section Next

variable {mem : Memory} {type : List UInt8} {group : ℕ} {up : Option ℕ} {l rest : List ℕ}

/-- From some fuel on a function returns a value. -/
def Returns {β : Type} (f : ℕ → Option β) (b : β) : Prop := ∃ bound, ∀ n ≥ bound, f n = some b

/-- A function that is another one with more fuel. -/
theorem Returns.succ {β : Type} {f f' : ℕ → Option β} {b : β} (h : Returns f b)
    (hsucc : ∀ n, f' (n + 1) = f n) : Returns f' b := by
  obtain ⟨bound, hbound⟩ := h
  refine ⟨bound + 1, fun n hn => ?_⟩
  obtain ⟨n, rfl⟩ : ∃ k, n = k + 1 := ⟨n - 1, by omega⟩
  rw [hsucc, hbound n (by omega)]

theorem Returns.now {β : Type} {f : ℕ → Option β} {b : β} (h : ∀ n, f (n + 1) = some b) :
    Returns f b := by
  refine ⟨1, fun n hn => ?_⟩
  obtain ⟨n, rfl⟩ : ∃ k, n = k + 1 := ⟨n - 1, by omega⟩
  exact h n

/-- The groups of a type. -/
def ofType (mem : Memory) (type : List UInt8) (p : ℕ) : Bool := decide ((mem.get p).type = type)

theorem ofType_iff {p : ℕ} : ofType mem type p = true ↔ (mem.get p).type = type :=
  decide_eq_true_iff

/-- What is claimed of `config_find_group`, for what comes after the group. -/
def Finds (mem : Memory) (type : List UInt8) (group : ℕ) (l : List ℕ) : Prop :=
  Returns (config_find_group mem type · group) (l.find? (ofType mem type))

/-- The first child is tested, and if it is not it, the search goes on from there. -/
theorem child_spec {c : ℕ} (h : Finds mem type c l) :
    Returns (fun n => if (mem.get c).type = type then some (some c)
      else config_find_group mem type n c) ((c :: l).find? (ofType mem type)) := by
  by_cases hc : (mem.get c).type = type
  · rw [List.find?_cons_of_pos (ofType_iff.mpr hc)]
    exact ⟨0, fun n _ => if_pos hc⟩
  · rw [List.find?_cons_of_neg (mt ofType_iff.mp hc)]
    obtain ⟨bound, hbound⟩ := h
    exact ⟨bound, fun n hn => (if_neg hc).trans (hbound n hn)⟩

/-- The loop over the siblings, and the climb when there are no more. -/
theorem findSibling_spec {f : Forest ℕ} {sib : Option ℕ}
    (hfind : ∀ x l', l'.length < (f.preorder ++ rest).length → mem.links.After x l' →
      Finds mem type x l')
    (hrest : mem.links.Above (mem.get group).parent rest)
    (hclimb : Returns (findAbove mem type · (mem.get group).parent)
      (rest.find? (ofType mem type)))
    (his : mem.links.Is (mem.get group).parent sib f) :
    Returns (findSibling mem type · group sib)
      ((f.preorder ++ rest).find? (ofType mem type)) := by
  induction f generalizing sib with
  | nil =>
    obtain rfl : sib = none := his
    exact hclimb.succ fun n => by rw [findSibling]
  | cons s below beside _ ih =>
    obtain ⟨rfl, hparent, hbelow, hbeside⟩ := his
    by_cases hs : (mem.get s).type = type
    · rw [Forest.preorder, List.cons_append, List.find?_cons_of_pos (ofType_iff.mpr hs)]
      exact .now fun n => by rw [findSibling, if_pos hs]
    rw [Forest.preorder, List.cons_append,
      List.find?_cons_of_neg (mt ofType_iff.mp hs)]
    cases below with
    | nil =>
      have hchild : (mem.get s).child = none := hbelow
      refine (ih (fun x l' hl' => hfind x l' ?_) hbeside).succ fun n => ?_
      · rw [Forest.preorder, List.cons_append, List.length_cons]
        exact Nat.lt_succ_of_lt hl'
      · rw [findSibling, if_neg hs, hchild]
        rfl
    | cons c cs ss =>
      have hchild : (mem.get s).child = some c := hbelow.1
      have habove : mem.links.Above (some s) (beside.preorder ++ rest) := by
        refine .node ?_ ?_
        · rwa [hparent]
        · rwa [hparent]
      have hafter := hbelow.after habove
      have hlist : (Forest.cons c cs ss).preorder ++ beside.preorder ++ rest =
          c :: (cs.preorder ++ (ss.preorder ++ (beside.preorder ++ rest))) := by
        simp only [Forest.preorder, List.cons_append, List.append_assoc]
      rw [hlist]
      refine (child_spec (hfind c _ ?_ hafter)).succ fun n => ?_
      · rw [Forest.preorder, List.cons_append, hlist]
        simp only [List.length_cons]
        omega
      · rw [findSibling, if_neg hs, hchild]

/-- The climb to the siblings of what is above. -/
theorem findAbove_spec (h : mem.links.Above up l)
    (hfind : ∀ x l', l'.length < l.length → mem.links.After x l' → Finds mem type x l') :
    Returns (findAbove mem type · up) (l.find? (ofType mem type)) := by
  induction h with
  | root => exact .now fun n => by rw [findAbove]; rfl
  | @node a beside rest hbeside hrest ih =>
    have hclimb := ih fun x l' hl' => hfind x l' (by rw [List.length_append]; omega)
    exact (findSibling_spec hfind hrest hclimb hbeside).succ fun n => by rw [findAbove]; rfl

/-- The next group of a type is the first of what comes after. -/
theorem config_find_group_spec (h : mem.links.After group l) : Finds mem type group l := by
  induction hn : l.length using Nat.strong_induction_on generalizing group l with
  | _ n ih =>
    have hfind : ∀ x l', l'.length < l.length → mem.links.After x l' → Finds mem type x l' :=
      fun x l' hl' hafter => ih _ (hn ▸ hl') hafter rfl
    obtain ⟨below, rest, hbelow, hrest, hl⟩ := id h
    cases below with
    | nil =>
      have hchild : (mem.get group).child = none := hbelow
      rw [Forest.preorder, List.nil_append] at hl
      subst hl
      exact (findAbove_spec hrest hfind).succ fun n => by rw [config_find_group, hchild]
    | cons c cs ss =>
      have hchild : (mem.get group).child = some c := hbelow.1
      rw [Forest.preorder, List.cons_append] at hl
      subst hl
      refine (child_spec (hfind c _ (Nat.lt_succ_self _) h.tail)).succ fun n => ?_
      rw [config_find_group, hchild]

/-- The walk comes to what comes after, as far as it is of the type. -/
theorem walk_spec (useNext : ℕ → Bool) {first : Bool} (h : mem.links.After group l)
    (hfirst : first = true ∨ (mem.get group).type = type) :
    ∃ bound, ∀ fuel ≥ bound, ∀ steps ≥ bound,
      walk mem type useNext fuel steps group first = some (l.filter (ofType mem type)) := by
  induction hn : l.length using Nat.strong_induction_on generalizing group l first with
  | _ n ih =>
    obtain ⟨bound, hbound⟩ := @config_find_group_spec mem type group l h
    have hfound : ∀ fuel ≥ bound, (if first = false ∧ useNext group = true then
        config_next_group mem fuel group else config_find_group mem type fuel group) =
          some (l.find? (ofType mem type)) := by
      intro fuel hfuel
      split
      · rename_i hnext
        rw [config_next_group, hfirst.resolve_left (by simp [hnext.1])]
        exact hbound fuel hfuel
      · exact hbound fuel hfuel
    cases hfind : l.find? (ofType mem type) with
    | none =>
      have hnil : l.filter (ofType mem type) = [] :=
        List.filter_eq_nil_iff.mpr (List.find?_eq_none.mp hfind)
      refine ⟨bound + 1, fun fuel hfuel steps hsteps => ?_⟩
      obtain ⟨steps, rfl⟩ : ∃ k, steps = k + 1 := ⟨steps - 1, by omega⟩
      simp only [walk, hfound fuel (by omega), hfind, hnil]
    | some x =>
      obtain ⟨hx, before, after, rfl, hbefore⟩ := List.find?_eq_some_iff_append.mp hfind
      have hskip : before.filter (ofType mem type) = [] :=
        List.filter_eq_nil_iff.mpr fun p hp => by simpa using hbefore p hp
      obtain ⟨bound', hbound'⟩ := @ih after.length
        (by simp only [List.length_append, List.length_cons] at hn; omega) x after false
        h.split (.inr (ofType_iff.mp hx)) rfl
      refine ⟨bound + bound' + 1, fun fuel hfuel steps hsteps => ?_⟩
      obtain ⟨steps, rfl⟩ : ∃ k, steps = k + 1 := ⟨steps - 1, by omega⟩
      simp only [walk, hfound fuel (by omega), hfind, hbound' fuel (by omega) steps (by omega),
        Option.map_some, List.filter_append, hskip, List.nil_append, List.filter_cons_of_pos hx]

end Next

/-- In a tree that was parsed, the walk from the root returns the groups of a type that are below
it, each once and in pre-order, and the walk from another group those that come after it. -/
theorem traversal_complete {files : List UInt8 → Option (List (Token × Bool))} {fuel : ℕ}
    {filename : List UInt8} {mem : Memory}
    (h : config_parse_file files fuel filename = some (some mem)) :
    ∃ f : Forest ℕ, mem.links.Is (some 0) (mem.get 0).child f ∧
      f.preorder = List.range' 1 (mem.length - 1) ∧
      ∀ (type : List UInt8) (useNext : ℕ → Bool),
        Returns (fun n => walk mem type useNext n n 0 true)
          (f.preorder.filter (ofType mem type)) ∧
        ∀ before g after, f.preorder = before ++ g :: after →
          Returns (fun n => walk mem type useNext n n g true) (after.filter (ofType mem type)) := by
  obtain ⟨f, hready, hparent, hnext⟩ := config_parse_file_spec h
  have hroot : mem.links.After 0 f.preorder := Links.after_root hparent hnext hready.is
  refine ⟨f, hready.is, by rw [hready.order], fun type useNext => ⟨?_, ?_⟩⟩
  · obtain ⟨bound, hbound⟩ := @walk_spec mem type 0 _ useNext true hroot (.inl rfl)
    exact ⟨bound, fun n hn => hbound n hn n hn⟩
  · intro before g after hsplit
    obtain ⟨bound, hbound⟩ :=
      @walk_spec mem type g _ useNext true (hsplit ▸ hroot).split (.inl rfl)
    exact ⟨bound, fun n hn => hbound n hn n hn⟩

/-- `a x { b y { } }` and `b z { }`, in a file `f`. -/
def nestedTokens : List (Token × Bool) :=
  [(⟨.TOKEN_STRING, [97]⟩, false), (⟨.TOKEN_STRING, [120]⟩, false), (⟨.TOKEN_LBRACE, []⟩, false),
    (⟨.TOKEN_STRING, [98]⟩, false), (⟨.TOKEN_STRING, [121]⟩, false), (⟨.TOKEN_LBRACE, []⟩, false),
    (⟨.TOKEN_RBRACE, []⟩, false), (⟨.TOKEN_RBRACE, []⟩, false), (⟨.TOKEN_CRLF, []⟩, false),
    (⟨.TOKEN_STRING, [98]⟩, false), (⟨.TOKEN_STRING, [122]⟩, false), (⟨.TOKEN_LBRACE, []⟩, false),
    (⟨.TOKEN_RBRACE, []⟩, false)]

/-- Its tree. -/
def nestedTree : Memory :=
  [{ group_new [102] GLOBAL none with child := some 1 },
    { group_new [102] [97] (some [120]) with parent := some 0, child := some 2, next := some 3 },
    { group_new [102] [98] (some [121]) with parent := some 1 },
    { group_new [102] [98] (some [122]) with parent := some 0 }]

theorem nestedTree_walk :
    Returns (fun n => walk nestedTree [98] (fun _ => true) n n 0 true) [2, 3] := by
  have hparsed : config_parse_file (fun _ => some nestedTokens) 20 [102] =
      some (some nestedTree) := by
    simp [config_parse_file, source_open, nestedTokens, parse_group_contents, contentsLoop,
      token_next, parse_group, linkGroup, lastSibling, Memory.get, group_new, nestedTree]
  obtain ⟨f, -, horder, hwalk⟩ := traversal_complete hparsed
  obtain ⟨hroot, -⟩ := hwalk [98] fun _ => true
  rw [horder] at hroot
  exact hroot

end Inn.Confparse
