import Inn.Threaded
import Inn.Confparse.Quoted

/-!
# Inn.Confparse.Parse — the tree of a configuration file

The parser takes the tokens of a file, and of the files it includes, and links a
`config_group` into the tree for each group it comes to.

* `parse_parameter_same` — a parameter changes no links;
* `linkGroup_spec` — a new group is the last below its parent;
* `parse_group_contents_spec` — what is below a group is below it in the order of the file;
* `config_parse_file_spec` — the links of a tree that was parsed.
-/

namespace Inn.Confparse

/-- `enum value_type`. -/
inductive value_type where
  | VALUE_UNKNOWN
  | VALUE_BOOL
  | VALUE_NUMBER
  | VALUE_UNUMBER
  | VALUE_REAL
  | VALUE_STRING
  | VALUE_LIST
  | VALUE_INVALID
deriving DecidableEq

/-- The `union` in a `struct config_parameter`, by the member that was written to it last. A
`double` is here as its bits. -/
inductive Value where
  | none
  | boolean (b : Bool)
  | signed_number (n : ℤ)
  | unsigned_number (n : ℕ)
  | real (r : UInt64)
  | string (s : List UInt8)
  | list (l : List (List UInt8))
deriving DecidableEq

/-- `struct config_parameter`. -/
structure config_parameter where
  key : List UInt8
  raw_value : Option (List UInt8)
  type : value_type
  value : Value
deriving DecidableEq

/-- `struct config_group`. A pointer is a place in the memory of the groups. -/
structure config_group where
  type : List UInt8
  tag : Option (List UInt8)
  file : List UInt8
  included : Option (List UInt8)
  params : List config_parameter
  parent : Option ℕ
  child : Option ℕ
  next : Option ℕ
deriving DecidableEq, Inhabited

/-- The groups that have been allocated. -/
abbrev Memory := List config_group

namespace Memory

/-- `*p`. -/
def get (mem : Memory) (p : ℕ) : config_group := List.getD mem p default

/-- The links of the groups. -/
def links (mem : Memory) : Links ℕ where
  parent p := (mem.get p).parent
  child p := (mem.get p).child
  next p := (mem.get p).next

end Memory

/-- A `struct config_file` as the parser sees it: each token that is still to come is with
whether the lexer sets `error` for it. -/
structure Source where
  filename : List UInt8
  tokens : List (Token × Bool)
  token : Token
  error : Bool

/-! ## The code -/

/-- `token_next`. -/
def token_next (file : Source) : Source :=
  match file.tokens with
  | [] => { file with token := ⟨.TOKEN_EOF, []⟩ }
  | (token, error) :: tokens =>
    { file with tokens := tokens, token := token, error := file.error || error }

/-- `error_unexpected_token`. -/
def error_unexpected_token (file : Source) : Source :=
  { file with token.type := .TOKEN_ERROR, error := true }

/-- `hash_insert` into the parameters of a group: a key that is there already stays. -/
def insertParameter (mem : Memory) (group : ℕ) (param : config_parameter) : Memory :=
  mem.modify group fun g =>
    if g.params.any (·.key = param.key) then g else { g with params := g.params ++ [param] }

/-- The loop of `parse_list`, at a token: the list, up to the token that ends it. `none` is a
string that cannot be decoded. -/
def listLoop : ℕ → Source → List (List UInt8) → Option (List (List UInt8)) × Source
  | 0, file, vector => (some vector, file)
  | fuel + 1, file, vector =>
    match file.token.type with
    | .TOKEN_CRLF => listLoop fuel (token_next file) vector
    | .TOKEN_QSTRING =>
      match (token_unquote_string file.token.string).1 with
      | .string string => listLoop fuel (token_next file) (vector ++ [string])
      | _ => (none, file)
    | .TOKEN_STRING => listLoop fuel (token_next file) (vector ++ [file.token.string])
    | _ => (some vector, file)

/-- `parse_list`. -/
def parse_list (mem : Memory) (file : Source) (group : ℕ) (key : List UInt8) :
    token_type × Memory × Source :=
  match listLoop (file.tokens.length + 1) (token_next file) [] with
  | (none, file) => (.TOKEN_ERROR, mem, file)
  | (some vector, file) =>
    if file.token.type = .TOKEN_RBRACKET then
      let mem := insertParameter mem group
        { key := key, raw_value := none, type := .VALUE_LIST, value := .list vector }
      let file := token_next file
      (file.token.type, mem, file)
    else (.TOKEN_ERROR, mem, error_unexpected_token file)

/-- `parse_parameter`. -/
def parse_parameter (mem : Memory) (file : Source) (group : ℕ) (key : List UInt8) :
    token_type × Memory × Source :=
  let file := token_next file
  if file.token.type = .TOKEN_LBRACKET then parse_list mem file group key
  else if file.token.type = .TOKEN_STRING ∨ file.token.type = .TOKEN_QSTRING then
    let value := file.token.string
    let file := token_next file
    if file.token.type ∈ [.TOKEN_CRLF, .TOKEN_SEMICOLON, .TOKEN_EOF, .TOKEN_RBRACE] then
      (file.token.type, insertParameter mem group
        { key := key, raw_value := some value, type := .VALUE_UNKNOWN, value := .none }, file)
    else (.TOKEN_ERROR, mem, error_unexpected_token file)
  else (.TOKEN_ERROR, mem, error_unexpected_token file)

/-- The loop of `parse_group_contents` after a parameter: what separates it from what follows. -/
def skipSeparators : ℕ → token_type → Source → Bool → token_type × Source × Bool
  | 0, token, file, semicolon => (token, file, semicolon)
  | fuel + 1, token, file, semicolon =>
    if token = .TOKEN_CRLF ∨ token = .TOKEN_SEMICOLON then
      let file := token_next file
      skipSeparators fuel file.token.type file (decide (token = .TOKEN_SEMICOLON))
    else (token, file, semicolon)

/-- `group_new`. -/
def group_new (file type : List UInt8) (tag : Option (List UInt8)) : config_group where
  type := type
  tag := tag
  file := file
  included := none
  params := []
  parent := none
  child := none
  next := none

/-- The loop of `parse_group` to the last of the siblings. -/
def lastSibling (mem : Memory) : ℕ → ℕ → ℕ
  | 0, last => last
  | fuel + 1, last =>
    match (mem.get last).next with
    | none => last
    | some next => lastSibling mem fuel next

/-- A new group, linked in below `parent`: the memory, and where the group is. -/
def linkGroup (mem : Memory) (group : config_group) (parent : ℕ) : Memory × ℕ :=
  let new := mem.length
  let mem := mem ++ [{ group with parent := some parent }]
  match (mem.get parent).child with
  | none => (mem.modify parent fun g => { g with child := some new }, new)
  | some child =>
    (mem.modify (lastSibling mem mem.length child) fun g => { g with next := some new }, new)

/-- The part of a name before its last slash. -/
def dirname (file : List UInt8) : Option (List UInt8) :=
  if 47 ∈ file then some ((file.reverse.dropWhile (· ≠ 47)).tail.reverse) else none

/-- The path of a file to be included. -/
def includePath (file filename : List UInt8) : List UInt8 :=
  if filename.head? = some 47 then filename
  else match dirname file with
    | none => filename
    | some dir => dir ++ 47 :: filename

/-- The loop of `parse_include` over the enclosing groups: none of them is in the file, and there
are not too many. -/
def mayInclude (mem : Memory) (path : List UInt8) : ℕ → Option ℕ → ℕ → Bool
  | _, none, _ => true
  | 0, some _, _ => false
  | fuel + 1, some parent, levels =>
    if path = (mem.get parent).file then false
    else if 20 < levels then false
    else mayInclude mem path fuel (mem.get parent).parent (levels + 1)

section Parser

variable (files : List UInt8 → Option (List (Token × Bool)))

/-- `file_open`. -/
def source_open (filename : List UInt8) : Option Source :=
  (files filename).map fun tokens =>
    { filename := filename, tokens := tokens, token := ⟨.TOKEN_ERROR, []⟩, error := false }

mutual

/-- `parse_group_contents`. -/
def parse_group_contents : ℕ → Memory → Source → ℕ → Option (Bool × Memory × Source)
  | 0, _, _, _ => none
  | fuel + 1, mem, file, group =>
    let file := token_next file
    contentsLoop fuel mem file group file.token.type false

/-- The loop of `parse_group_contents`. -/
def contentsLoop : ℕ → Memory → Source → ℕ → token_type → Bool → Option (Bool × Memory × Source)
  | 0, _, _, _, _, _ => none
  | fuel + 1, mem, file, group, token, semicolon =>
    if file.error then some (false, mem, file)
    else match token with
      | .TOKEN_PARAM =>
        if (mem.get group).child ≠ none then some (false, mem, file)
        else
          let (token, mem, file) := parse_parameter mem file group file.token.string
          let (token, file, semicolon) :=
            skipSeparators (file.tokens.length + 2) token file semicolon
          contentsLoop fuel mem file group token semicolon
      | .TOKEN_CRLF =>
        let file := token_next file
        contentsLoop fuel mem file group file.token.type semicolon
      | .TOKEN_STRING =>
        if semicolon then
          contentsLoop fuel mem (error_unexpected_token file) group token semicolon
        else
          match parse_group fuel mem file group with
          | none => none
          | some (false, mem, file) => some (false, mem, file)
          | some (true, mem, file) =>
            let file := token_next file
            contentsLoop fuel mem file group file.token.type semicolon
      | .TOKEN_RBRACE => some (true, mem, file)
      | .TOKEN_EOF => some (true, mem, file)
      | .TOKEN_ERROR => some (false, mem, file)
      | _ => contentsLoop fuel mem (error_unexpected_token file) group token semicolon

/-- `parse_include`. -/
def parse_include : ℕ → Memory → Source → ℕ → Option (Bool × Memory × Source)
  | 0, _, _, _ => none
  | fuel + 1, mem, file, group =>
    let file := token_next file
    if file.token.type ≠ .TOKEN_STRING then some (false, mem, error_unexpected_token file)
    else
      let filename := file.token.string
      let file := token_next file
      if file.token.type ≠ .TOKEN_RANGLE then some (false, mem, error_unexpected_token file)
      else
        let path := includePath (mem.get group).file filename
        if mayInclude mem path (mem.length + 1) (some group) 1 then
          match source_open files path with
          | none => some (false, mem, file)
          | some included =>
            let mem := mem.modify group fun g => { g with included := some path }
            match parse_group_contents fuel mem included group with
            | none => none
            | some (status, mem, _) => some (status, mem, file)
        else some (false, mem, file)

/-- `parse_group`. -/
def parse_group : ℕ → Memory → Source → ℕ → Option (Bool × Memory × Source)
  | 0, _, _, _ => none
  | fuel + 1, mem, file, parent =>
    let type := file.token.string
    let file := token_next file
    let (tag, file) := if file.token.type = .TOKEN_STRING then
        (some file.token.string, token_next file) else (none, file)
    let token := file.token.type
    if token ≠ .TOKEN_LBRACE ∧ token ≠ .TOKEN_LANGLE then
      some (false, mem, error_unexpected_token file)
    else
      let (mem, group) := linkGroup mem (group_new file.filename type tag) parent
      let parsed := if token = .TOKEN_LANGLE then parse_include fuel mem file group
        else parse_group_contents fuel mem file group
      match parsed with
      | none => none
      | some (false, mem, file) => some (false, mem, file)
      | some (true, mem, file) =>
        if token ≠ .TOKEN_LANGLE ∧ file.token.type ≠ .TOKEN_RBRACE then
          some (false, mem, error_unexpected_token file)
        else some (true, mem, file)

end

/-- `GLOBAL`. -/
def GLOBAL : List UInt8 := "GLOBAL".toUTF8.toList

/-- `config_parse_file`: the memory of the tree, whose root is its first group. -/
def config_parse_file (fuel : ℕ) (filename : List UInt8) : Option (Option Memory) :=
  match source_open files filename with
  | none => some none
  | some file =>
    match parse_group_contents files fuel [group_new filename GLOBAL none] file 0 with
    | none => none
    | some (true, mem, _) => some (some mem)
    | some (false, _, _) => some none

end Parser

/-! ## The links -/

section Links

variable {mem mem' mem₁ mem₂ : Memory} {p group parent : ℕ} {g : config_group} {f : Forest ℕ}

/-- The links of a group are the same. -/
def SameLinks (mem mem' : Memory) (p : ℕ) : Prop :=
  (mem'.get p).parent = (mem.get p).parent ∧ (mem'.get p).child = (mem.get p).child ∧
    (mem'.get p).next = (mem.get p).next

theorem get_modify (mem : Memory) (h : config_group → config_group) {p : ℕ}
    (hp : p < mem.length) (q : ℕ) :
    Memory.get (mem.modify p h) q = if p = q then h (mem.get q) else mem.get q := by
  rw [Memory.get, Memory.get, List.getD_eq_getElem?_getD, List.getD_eq_getElem?_getD,
    List.getElem?_modify]
  by_cases heq : p = q
  · subst heq
    rw [List.getElem?_eq_getElem hp]
    simp
  · simp [heq]

theorem get_append (h : p < mem.length) (g : config_group) :
    Memory.get (mem ++ [g]) p = mem.get p := by
  rw [Memory.get, Memory.get, List.getD_append _ _ _ _ h]

theorem get_new (mem : Memory) (g : config_group) : Memory.get (mem ++ [g]) mem.length = g := by
  rw [Memory.get, List.getD_append_right _ _ _ _ (Nat.le_refl _)]
  simp

theorem sameLinks_modify {h : config_group → config_group} (hp : group < mem.length)
    (hsame : (h (mem.get group)).parent = (mem.get group).parent ∧
      (h (mem.get group)).child = (mem.get group).child ∧
      (h (mem.get group)).next = (mem.get group).next) (p : ℕ) :
    SameLinks mem (mem.modify group h) p := by
  rw [SameLinks, get_modify _ _ hp]
  split
  · rename_i heq
    exact heq ▸ hsame
  · exact ⟨rfl, rfl, rfl⟩

/-- The groups behind `group` are what is below it, in their order. -/
structure Ready (mem : Memory) (group : ℕ) (f : Forest ℕ) : Prop where
  lt : group < mem.length
  is : mem.links.Is (some group) (mem.get group).child f
  order : f.preorder = List.range' (group + 1) (mem.length - (group + 1))

/-- Nothing in front of `group` changes its links, and no more than what is below `group` comes
to be different. -/
structure Below (mem mem' : Memory) (group : ℕ) : Prop where
  length : mem.length ≤ mem'.length
  links : ∀ p < group, SameLinks mem mem' p
  parent : (mem'.get group).parent = (mem.get group).parent
  next : (mem'.get group).next = (mem.get group).next

theorem Below.refl (mem : Memory) (group : ℕ) : Below mem mem group :=
  ⟨Nat.le_refl _, fun _ _ => ⟨rfl, rfl, rfl⟩, rfl, rfl⟩

theorem Below.trans (h : Below mem mem₁ group) (h' : Below mem₁ mem₂ group) :
    Below mem mem₂ group where
  length := h.length.trans h'.length
  links p hp := by
    obtain ⟨hparent, hchild, hnext⟩ := h.links p hp
    obtain ⟨hparent', hchild', hnext'⟩ := h'.links p hp
    exact ⟨hparent'.trans hparent, hchild'.trans hchild, hnext'.trans hnext⟩
  parent := h'.parent.trans h.parent
  next := h'.next.trans h.next

/-- A change that leaves all links as they are. -/
theorem Ready.same (h : Ready mem group f) (hlen : mem'.length = mem.length)
    (hsame : ∀ p, SameLinks mem mem' p) : Ready mem' group f ∧ Below mem mem' group := by
  refine ⟨⟨hlen ▸ h.lt, ?_, by rw [hlen, h.order]⟩, hlen.ge, fun p _ => hsame p,
    (hsame group).1, (hsame group).2.2⟩
  rw [(hsame group).2.1]
  exact h.is.congr fun p _ => hsame p

theorem lastSibling_eq {c fuel : ℕ} {up : Option ℕ} (h : mem.links.Is up (some c) f)
    (hfuel : f.preorder.length ≤ fuel) : f.last = some (lastSibling mem fuel c) := by
  induction f generalizing c fuel with
  | nil => cases h
  | cons a below beside _ ih =>
    obtain ⟨hfirst, -, -, hbeside⟩ := h
    obtain rfl := Option.some.inj hfirst
    rw [Forest.preorder, List.length_cons, List.length_append] at hfuel
    obtain ⟨fuel, rfl⟩ : ∃ k, fuel = k + 1 := ⟨fuel - 1, by omega⟩
    rw [lastSibling]
    cases hnext : (mem.get c).next with
    | none =>
      have hbeside : mem.links.Is up (mem.get c).next beside := hbeside
      rw [hnext] at hbeside
      cases beside with
      | nil => rfl
      | cons => cases hbeside.1
    | some next =>
      have hbeside : mem.links.Is up (mem.get c).next beside := hbeside
      rw [hnext] at hbeside
      cases beside with
      | nil => cases hbeside
      | cons d cs ss => exact ih hbeside (by omega)

/-- The order of the groups, when what is below the last of them is there. -/
theorem order_append {f₂ : Forest ℕ} (h : Ready mem parent f) (h₂ : Ready mem₂ mem.length f₂) :
    (f.append (.cons mem.length f₂ .nil)).preorder =
      List.range' (parent + 1) (mem₂.length - (parent + 1)) := by
  have hlt := h.lt
  have hlt₂ := h₂.lt
  have hcons : mem.length :: List.range' (mem.length + 1) (mem₂.length - (mem.length + 1)) =
      List.range' mem.length (mem₂.length - mem.length) := by
    rw [show mem₂.length - mem.length = mem₂.length - (mem.length + 1) + 1 by omega,
      List.range'_succ]
  have hsplit := @List.range'_append_1 (parent + 1) (mem.length - (parent + 1))
    (mem₂.length - mem.length)
  rw [Nat.add_sub_cancel' hlt] at hsplit
  rw [Forest.preorder_append, Forest.preorder, Forest.preorder, List.append_nil, h.order, h₂.order,
    hcons, hsplit]
  congr 1
  omega

theorem Ready.mem_preorder (h : Ready mem parent f) (hp : p ∈ f.preorder) :
    parent < p ∧ p < mem.length := by
  have hlt := h.lt
  rw [h.order, List.mem_range'_1] at hp
  omega

/-- A new group is the last below its parent, with whatever comes below it then. -/
theorem linkGroup_spec (h : Ready mem parent f) (hchild : g.child = none) (hnext : g.next = none) :
    ∃ mem₁, linkGroup mem g parent = (mem₁, mem.length) ∧ Ready mem₁ mem.length .nil ∧
      ∀ mem₂ f₂, Ready mem₂ mem.length f₂ → Below mem₁ mem₂ mem.length →
        Ready mem₂ parent (f.append (.cons mem.length f₂ .nil)) ∧ Below mem mem₂ parent := by
  have hlt := h.lt
  have hlink : linkGroup mem g parent =
      match (Memory.get (mem ++ [{ g with parent := some parent }]) parent).child with
      | none => ((mem ++ [{ g with parent := some parent }]).modify parent fun g =>
          { g with child := some mem.length }, mem.length)
      | some child => ((mem ++ [{ g with parent := some parent }]).modify
          (lastSibling (mem ++ [{ g with parent := some parent }])
            (mem ++ [{ g with parent := some parent }]).length child) fun g =>
          { g with next := some mem.length }, mem.length) := rfl
  have hlen : (mem ++ [{ g with parent := some parent }]).length = mem.length + 1 := by simp
  have hold : ∀ p < mem.length,
      Memory.get (mem ++ [{ g with parent := some parent }]) p = mem.get p :=
    fun p hp => get_append hp _
  have hnew := get_new mem { g with parent := some parent }
  generalize mem ++ [{ g with parent := some parent }] = mem₀ at hlink hlen hold hnew
  -- the place of the new group is not that of the group whose link is set
  have hready : ∀ {mem₁ : Memory}, mem₁.length = mem.length + 1 →
      (mem₁.get mem.length).child = none → Ready mem₁ mem.length .nil := by
    intro mem₁ hlen₁ hchild₁
    refine ⟨by omega, hchild₁, ?_⟩
    rw [hlen₁, Nat.sub_self]
    rfl
  have hplaced : ∀ {mem₁ mem₂ : Memory} {f₂ : Forest ℕ}, mem₁.get mem.length =
      { g with parent := some parent } → Ready mem₂ mem.length f₂ →
      Below mem₁ mem₂ mem.length →
      mem₂.links.Is (some parent) (some mem.length) (.cons mem.length f₂ .nil) := by
    intro mem₁ mem₂ f₂ hget₁ hready₂ hbelow₂
    refine ⟨rfl, ?_, hready₂.is, ?_⟩
    · exact hbelow₂.parent.trans (by rw [hget₁])
    · exact hbelow₂.next.trans (by rw [hget₁, hnext])
  rw [hold parent hlt] at hlink
  cases hfirst : (mem.get parent).child with
  | none =>
    have hnil : f = .nil := by
      have his := h.is
      rw [hfirst] at his
      cases f with
      | nil => rfl
      | cons => cases his.1
    have hget : ∀ q,
        Memory.get (mem₀.modify parent fun g => { g with child := some mem.length }) q =
        if parent = q then { mem₀.get q with child := some mem.length } else mem₀.get q :=
      get_modify _ _ (by omega)
    simp only [hfirst] at hlink
    have hget_new := hget mem.length
    rw [if_neg (by omega), hnew] at hget_new
    have hget_parent := hget parent
    rw [if_pos rfl, hold parent hlt] at hget_parent
    refine ⟨_, hlink, hready (by rw [List.length_modify, hlen]) (by rw [hget_new, hchild]), ?_⟩
    intro mem₂ f₂ hready₂ hbelow₂
    obtain ⟨hparent₂, hchild₂, hnext₂⟩ := hbelow₂.links parent hlt
    rw [hget_parent] at hparent₂ hchild₂ hnext₂
    have hlen₂ := hbelow₂.length
    rw [List.length_modify, hlen] at hlen₂
    refine ⟨⟨by omega, ?_, order_append h hready₂⟩, ⟨by omega, fun p hp => ?_, hparent₂, hnext₂⟩⟩
    · rw [hchild₂, hnil]
      exact hplaced hget_new hready₂ hbelow₂
    · have hlinks := hbelow₂.links p (by omega)
      rw [SameLinks, hget, if_neg (by omega), hold p (by omega)] at hlinks
      exact hlinks
  | some c =>
    have his := h.is
    rw [hfirst] at his
    have his₀ : mem₀.links.Is (some parent) (some c) f := by
      refine his.congr fun p hp => ?_
      have hget := hold p (h.mem_preorder hp).2
      exact ⟨congrArg config_group.parent hget, congrArg config_group.child hget,
        congrArg config_group.next hget⟩
    have hfuel : f.preorder.length ≤ mem₀.length := by
      rw [h.order, List.length_range', hlen]
      omega
    have hlast := lastSibling_eq his₀ hfuel
    obtain ⟨hlow, hhigh⟩ := h.mem_preorder (Forest.mem_preorder_of_last hlast)
    simp only [hfirst] at hlink
    generalize lastSibling mem₀ mem₀.length c = last at hlink hlast hlow hhigh
    have hget : ∀ q, Memory.get (mem₀.modify last fun g => { g with next := some mem.length }) q =
        if last = q then { mem₀.get q with next := some mem.length } else mem₀.get q :=
      get_modify _ _ (by omega)
    have hget_new := hget mem.length
    rw [if_neg (by omega), hnew] at hget_new
    refine ⟨_, hlink, hready (by rw [List.length_modify, hlen]) (by rw [hget_new, hchild]), ?_⟩
    intro mem₂ f₂ hready₂ hbelow₂
    have hlen₂ := hbelow₂.length
    rw [List.length_modify, hlen] at hlen₂
    have hlinks : ∀ p < mem.length, (mem₂.get p).parent = (mem.get p).parent ∧
        (mem₂.get p).child = (mem.get p).child ∧
        (mem₂.get p).next = if last = p then some mem.length else (mem.get p).next := by
      intro p hp
      have hlinks := hbelow₂.links p hp
      rw [SameLinks, hget, hold p hp] at hlinks
      split_ifs at hlinks ⊢ <;> exact hlinks
    obtain ⟨hparent₂, hchild₂, hnext₂⟩ := hlinks parent hlt
    rw [if_neg (by omega)] at hnext₂
    refine ⟨⟨by omega, ?_, order_append h hready₂⟩, ⟨by omega, fun p hp => ?_, hparent₂, hnext₂⟩⟩
    · have hnodup : f.preorder.Nodup := by
        rw [h.order]
        exact List.nodup_range'
      rw [hchild₂, hfirst]
      refine his.append hlast hnodup (fun p hp => ?_) ?_
      · obtain ⟨hp, hc, hn⟩ := hlinks p (h.mem_preorder hp).2
        exact ⟨hp, hc, fun hne => hn.trans (if_neg (Ne.symm hne))⟩
      · have hnext_last := (hlinks last hhigh).2.2
        rw [if_pos rfl] at hnext_last
        have hplaced := hplaced hget_new hready₂ hbelow₂
        rwa [← hnext_last] at hplaced
    · obtain ⟨hp, hc, hn⟩ := hlinks p (by omega)
      exact ⟨hp, hc, hn.trans (if_neg (by omega))⟩

/-! ## The parser -/

theorem insertParameter_same (hp : group < mem.length) (param : config_parameter) :
    (insertParameter mem group param).length = mem.length ∧
      ∀ p, SameLinks mem (insertParameter mem group param) p := by
  refine ⟨List.length_modify .., sameLinks_modify hp ?_⟩
  split <;> exact ⟨rfl, rfl, rfl⟩

/-- A parameter changes no links. -/
theorem parse_parameter_same (hp : group < mem.length) (file : Source) (key : List UInt8) :
    (parse_parameter mem file group key).2.1.length = mem.length ∧
      ∀ p, SameLinks mem (parse_parameter mem file group key).2.1 p := by
  have hrefl : mem.length = mem.length ∧ ∀ p, SameLinks mem mem p :=
    ⟨rfl, fun p => ⟨rfl, rfl, rfl⟩⟩
  simp only [parse_parameter]
  split_ifs
  · simp only [parse_list]
    split
    · exact hrefl
    · split_ifs
      · exact insertParameter_same hp _
      · exact hrefl
  · exact insertParameter_same hp _
  · exact hrefl
  · exact hrefl

/-- Parsed with success, and what is below the group is still in order. -/
def Parsed (result : Option (Bool × Memory × Source)) (mem : Memory) (group : ℕ) : Prop :=
  ∀ mem' file', result = some (true, mem', file') →
    ∃ f, Ready mem' group f ∧ Below mem mem' group

variable {files : List UInt8 → Option (List (Token × Bool))}

theorem Parsed.below {result : Option (Bool × Memory × Source)} (h : Parsed result mem₁ group)
    (hbelow : Below mem mem₁ group) : Parsed result mem group := by
  intro mem' file' hresult
  obtain ⟨f, hready, hbelow'⟩ := h mem' file' hresult
  exact ⟨f, hready, hbelow.trans hbelow'⟩

/-- The parser keeps the groups in order. -/
theorem parse_group_contents_spec (fuel : ℕ) :
    (∀ mem file group f, Ready mem group f →
      Parsed (parse_group_contents files fuel mem file group) mem group) ∧
    (∀ mem file group token semicolon f, Ready mem group f →
      Parsed (contentsLoop files fuel mem file group token semicolon) mem group) ∧
    (∀ mem file group f, Ready mem group f →
      Parsed (parse_include files fuel mem file group) mem group) ∧
    (∀ mem file group f, Ready mem group f →
      Parsed (parse_group files fuel mem file group) mem group) := by
  have hfail : ∀ {mem mem' : Memory} {file : Source} {group : ℕ},
      Parsed (some (false, mem', file)) mem group := by
    intro _ _ _ _ _ _ h
    cases h
  induction fuel with
  | zero =>
    have hnone : ∀ {mem : Memory} {group : ℕ}, Parsed none mem group := by
      intro _ _ _ _ h
      cases h
    refine ⟨?_, ?_, ?_, ?_⟩ <;> intros
    · rw [parse_group_contents]
      exact hnone
    · rw [contentsLoop]
      exact hnone
    · rw [parse_include]
      exact hnone
    · rw [parse_group]
      exact hnone
  | succ fuel ih =>
    obtain ⟨ihcontents, ihloop, ihinclude, ihgroup⟩ := ih
    refine ⟨?_, ?_, ?_, ?_⟩
    · intro mem file group f h
      rw [parse_group_contents]
      exact ihloop _ _ _ _ _ _ h
    · intro mem file group token semicolon f h
      have hdone : Parsed (some (true, mem, file)) mem group := by
        intro mem' file' hresult
        obtain ⟨rfl, rfl⟩ := Prod.mk.inj (Prod.mk.inj (Option.some.inj hresult)).2
        exact ⟨f, h, .refl _ _⟩
      by_cases herror : file.error
      · rw [contentsLoop.eq_def]
        simp only [herror, if_true]
        exact hfail
      cases token with
      | TOKEN_PARAM =>
        obtain ⟨hlen, hsame⟩ := parse_parameter_same h.lt file file.token.string
        obtain ⟨hready, hbelow⟩ := h.same hlen hsame
        simp only [contentsLoop, herror]
        by_cases hchild : (mem.get group).child ≠ none
        · rw [if_pos hchild]
          exact hfail
        · rw [if_neg hchild]
          exact (ihloop _ _ _ _ _ _ hready).below hbelow
      | TOKEN_CRLF =>
        simp only [contentsLoop, herror]
        exact ihloop _ _ _ _ _ _ h
      | TOKEN_STRING =>
        simp only [contentsLoop, herror]
        split
        · exact hfail
        split
        · exact ihloop _ _ _ _ _ _ h
        have hgroup := ihgroup mem file group f h
        split
        · intro _ _ hnone
          cases hnone
        · exact hfail
        · rename_i mem₁ file₁ hparsed
          obtain ⟨f₁, hready, hbelow⟩ := hgroup _ _ hparsed
          exact (ihloop _ _ _ _ _ _ hready).below hbelow
      | TOKEN_RBRACE | TOKEN_EOF =>
        simp only [contentsLoop, herror]
        exact hdone
      | TOKEN_ERROR =>
        simp only [contentsLoop, herror]
        exact hfail
      | _ =>
        simp only [contentsLoop, herror]
        exact ihloop _ _ _ _ _ _ h
    · intro mem file group f h
      simp only [parse_include]
      split_ifs
      · exact hfail
      · exact hfail
      · split
        · exact hfail
        · obtain ⟨hready, hbelow⟩ := h.same (List.length_modify ..) (sameLinks_modify
            (h := fun g => { g with included := some (includePath (mem.get group).file
              (token_next file).token.string) }) h.lt ⟨rfl, rfl, rfl⟩)
          have hincluded := fun included => (ihcontents _ included _ _ hready).below hbelow
          split
          · intro _ _ hnone
            cases hnone
          · rename_i status mem₁ file₁ hparsed
            intro mem' file' hresult
            obtain ⟨rfl, rfl, -⟩ : status = true ∧ mem₁ = mem' ∧ _ := by simpa using hresult
            exact hincluded _ _ _ hparsed
      · exact hfail
    · intro mem file parent f h
      -- the group is linked in, and then its contents are parsed
      have hparsed : ∀ (type : List UInt8) (tag : Option (List UInt8)) (file : Source)
          (token : token_type), Parsed
            (match (if token = .TOKEN_LANGLE then
                parse_include files fuel (linkGroup mem (group_new file.filename type tag) parent).1
                  file (linkGroup mem (group_new file.filename type tag) parent).2
              else parse_group_contents files fuel
                (linkGroup mem (group_new file.filename type tag) parent).1 file
                (linkGroup mem (group_new file.filename type tag) parent).2) with
            | none => none
            | some (false, mem, file) => some (false, mem, file)
            | some (true, mem, file) =>
              if token ≠ .TOKEN_LANGLE ∧ file.token.type ≠ .TOKEN_RBRACE then
                some (false, mem, error_unexpected_token file)
              else some (true, mem, file)) mem parent := by
        intro type tag file token
        obtain ⟨mem₁, hlink, hready, hgrown⟩ :=
          linkGroup_spec (g := group_new file.filename type tag) h rfl rfl
        have hcontents : Parsed (if token = .TOKEN_LANGLE then
            parse_include files fuel mem₁ file mem.length
            else parse_group_contents files fuel mem₁ file mem.length) mem₁ mem.length := by
          split
          · exact ihinclude _ _ _ _ hready
          · exact ihcontents _ _ _ _ hready
        simp only [hlink]
        split
        · intro _ _ hnone
          cases hnone
        · exact hfail
        · rename_i mem₂ file₂ hdone
          obtain ⟨f₂, hready₂, hbelow₂⟩ := hcontents _ _ hdone
          split
          · exact hfail
          · intro mem' file' hresult
            obtain ⟨rfl, -⟩ : mem₂ = mem' ∧ _ := by simpa using hresult
            exact ⟨_, hgrown mem₂ f₂ hready₂ hbelow₂⟩
      simp only [parse_group]
      split
      · split
        · exact hfail
        · exact hparsed _ _ _ _
      · split
        · exact hfail
        · exact hparsed _ _ _ _

/-- The links of a tree that was parsed: all groups but the root are below it, in the order of
the files. -/
theorem config_parse_file_spec {fuel : ℕ} {filename : List UInt8}
    (h : config_parse_file files fuel filename = some (some mem)) :
    ∃ f, Ready mem 0 f ∧ (mem.get 0).parent = none ∧ (mem.get 0).next = none := by
  rw [config_parse_file] at h
  split at h
  · cases h
  · rename_i file _
    have hready : Ready [group_new filename GLOBAL none] 0 .nil := ⟨by simp, rfl, rfl⟩
    have hparsed := (@parse_group_contents_spec files fuel).1 _ file 0 _ hready
    split at h
    · cases h
    · rename_i mem' file' hdone
      obtain rfl := Option.some.inj (Option.some.inj h)
      obtain ⟨f, hready, hbelow⟩ := hparsed _ _ hdone
      exact ⟨f, hready, hbelow.parent, hbelow.next⟩
    · cases h

end Links

end Inn.Confparse
