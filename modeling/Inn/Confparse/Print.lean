import Inn.Quoting
import Inn.Confparse.Quoted

/-!
# Inn.Confparse.Print — settings for the shell, Perl and Tcl

`print_string` and `print_list` write a setting as a statement of another language. The
statements are read by the rules that language has for quotes.

* `perlElements_printed`, `tclElements_printed` — the elements of a list are read back;
* `braceWord_printed` — the braces around a list in Tcl are the outermost ones;
* `shellWord_printed` — what the shell makes of a value;
* `print_iff` — when a statement assigns the value it was written for.
-/

namespace Inn.Confparse

def APOSTROPHE : UInt8 := 39

def SPACE : UInt8 := 32

def SEMICOLON : UInt8 := 59

def EQUALS : UInt8 := 61

def COMMA : UInt8 := 44

def RPAREN : UInt8 := 41

def LBRACE : UInt8 := 123

def RBRACE : UInt8 := 125

/-- `enum confparse_quoting`. -/
inductive confparse_quoting where
  | CONFPARSE_QUOTE_NONE
  | CONFPARSE_QUOTE_SHELL
  | CONFPARSE_QUOTE_PERL
  | CONFPARSE_QUOTE_TCL

/-! ## The code -/

/-- `toupper`. -/
def toupper (c : UInt8) : UInt8 := if 97 ≤ c ∧ c ≤ 122 then c - 32 else c

/-- `tcl_unsafe`. -/
def tcl_unsafe : List UInt8 := "$[]\x7b\x7d\"\\".toUTF8.toList

/-- The loop over a string for the shell. -/
def shellLetters (value : List UInt8) : List UInt8 :=
  value.flatMap fun letter =>
    if letter = APOSTROPHE then [APOSTROPHE, BACKSLASH, APOSTROPHE, APOSTROPHE]
    else if letter = BACKSLASH then [BACKSLASH, BACKSLASH]
    else [letter]

/-- The loop over a string for Perl. -/
def perlLetters (value : List UInt8) : List UInt8 :=
  value.flatMap fun letter =>
    if letter = APOSTROPHE ∨ letter = BACKSLASH then [BACKSLASH, letter] else [letter]

/-- The loop over a string for Tcl. -/
def tclLetters (value : List UInt8) : List UInt8 :=
  value.flatMap fun letter => if letter ∈ tcl_unsafe then [BACKSLASH, letter] else [letter]

/-- `print_string`. -/
def print_string (key : List UInt8) (value : Option (List UInt8)) :
    confparse_quoting → List UInt8
  | .CONFPARSE_QUOTE_NONE =>
    match value with
    | none => []
    | some value => value ++ "\n".toUTF8.toList
  | .CONFPARSE_QUOTE_SHELL =>
    match value with
    | none => []
    | some value =>
      key.map toupper ++ "='".toUTF8.toList ++ shellLetters value ++
        "'; export ".toUTF8.toList ++ key.map toupper ++ ";\n".toUTF8.toList
  | .CONFPARSE_QUOTE_PERL =>
    match value with
    | none => "$".toUTF8.toList ++ key ++ " = undef;\n".toUTF8.toList
    | some value =>
      "$".toUTF8.toList ++ key ++ " = '".toUTF8.toList ++ perlLetters value ++
        "';\n".toUTF8.toList
  | .CONFPARSE_QUOTE_TCL =>
    match value with
    | none => []
    | some value =>
      "set inn_".toUTF8.toList ++ key ++ " \"".toUTF8.toList ++ tclLetters value ++
        "\"\n".toUTF8.toList

/-- The loop over a list without quoting. -/
def plainStrings (values : List (List UInt8)) : List UInt8 :=
  values.flatMap fun value => value ++ " ".toUTF8.toList

/-- The loop over an element of a list for the shell. -/
def shellElementLetters (value : List UInt8) : List UInt8 :=
  value.flatMap fun letter =>
    if letter = APOSTROPHE then [APOSTROPHE, BACKSLASH, APOSTROPHE, APOSTROPHE]
    else if letter = QUOTE then [BACKSLASH, QUOTE]
    else if letter = BACKSLASH then [BACKSLASH, BACKSLASH]
    else [letter]

/-- The loop over a list for the shell. -/
def shellStrings : List (List UInt8) → List UInt8
  | [] => []
  | [value] => "\"".toUTF8.toList ++ shellElementLetters value ++ "\"".toUTF8.toList
  | value :: values =>
    "\"".toUTF8.toList ++ shellElementLetters value ++ "\" ".toUTF8.toList ++ shellStrings values

/-- The loop over a list for Perl. -/
def perlStrings : List (List UInt8) → List UInt8
  | [] => []
  | [value] => "'".toUTF8.toList ++ perlLetters value ++ "' ".toUTF8.toList
  | value :: values =>
    "'".toUTF8.toList ++ perlLetters value ++ "', ".toUTF8.toList ++ perlStrings values

/-- The loop over a list for Tcl. -/
def tclStrings (values : List (List UInt8)) : List UInt8 :=
  values.flatMap fun value => "\"".toUTF8.toList ++ tclLetters value ++ "\" ".toUTF8.toList

/-- `print_list`. -/
def print_list (key : List UInt8) (value : Option (List (List UInt8))) :
    confparse_quoting → List UInt8
  | .CONFPARSE_QUOTE_NONE =>
    match value with
    | none => []
    | some values => "[ ".toUTF8.toList ++ plainStrings values ++ "]\n".toUTF8.toList
  | .CONFPARSE_QUOTE_SHELL =>
    match value with
    | none => []
    | some values =>
      key.map toupper ++ "='".toUTF8.toList ++ shellStrings values ++
        "'; export ".toUTF8.toList ++ key.map toupper ++ ";\n".toUTF8.toList
  | .CONFPARSE_QUOTE_PERL =>
    match value with
    | none => "@".toUTF8.toList ++ key ++ " = undef;\n".toUTF8.toList
    | some values =>
      "@".toUTF8.toList ++ key ++ " = ( ".toUTF8.toList ++ perlStrings values ++
        ");\n".toUTF8.toList
  | .CONFPARSE_QUOTE_TCL =>
    match value with
    | none => []
    | some values =>
      "set inn_".toUTF8.toList ++ key ++ " \x7b ".toUTF8.toList ++ tclStrings values ++
        "\x7d\n".toUTF8.toList

/-! ## How the languages read it -/

/-- White space. -/
def isBlank (c : UInt8) : Bool := c == 32 || (9 ≤ c && c ≤ 13)

/-- A character of a name. -/
def isWord (c : UInt8) : Bool :=
  (48 ≤ c && c ≤ 57) || (65 ≤ c && c ≤ 90) || (97 ≤ c && c ≤ 122) || c == 95

/-- What comes after a fixed text. -/
def after (pre : String) (text : List UInt8) : Option (List UInt8) :=
  if pre.toUTF8.toList.isPrefixOf text then some (text.drop pre.toUTF8.toList.length) else none

/-- Where the shell is in a word. -/
inductive ShellMode where
  | unquoted
  | escaped
  | single
  | double
  | doubleEscaped

/-- The characters that end a word of the shell. -/
def shellMeta : List UInt8 := " \t\n;&|<>()".toUTF8.toList

/-- A word of the shell by the quoting rules of POSIX, and what follows it. An expansion is not
for these rules. -/
def shellWord : ShellMode → List UInt8 → Option (List UInt8 × List UInt8)
  | .unquoted, [] => some ([], [])
  | .unquoted, c :: s =>
    if c ∈ shellMeta then some ([], c :: s)
    else if c = APOSTROPHE then shellWord .single s
    else if c = QUOTE then shellWord .double s
    else if c = BACKSLASH then shellWord .escaped s
    else if c ∈ "$`".toUTF8.toList then none
    else (shellWord .unquoted s).map fun (word, rest) => (c :: word, rest)
  | .single, c :: s =>
    if c = APOSTROPHE then shellWord .unquoted s
    else (shellWord .single s).map fun (word, rest) => (c :: word, rest)
  | .double, c :: s =>
    if c = QUOTE then shellWord .unquoted s
    else if c = BACKSLASH then shellWord .doubleEscaped s
    else if c ∈ "$`".toUTF8.toList then none
    else (shellWord .double s).map fun (word, rest) => (c :: word, rest)
  | .escaped, c :: s =>
    if c = LF then shellWord .unquoted s
    else (shellWord .unquoted s).map fun (word, rest) => (c :: word, rest)
  | .doubleEscaped, c :: s =>
    if c = LF then shellWord .double s
    else if c ∈ "$`\"\\".toUTF8.toList then
      (shellWord .double s).map fun (word, rest) => (c :: word, rest)
    else (shellWord .double s).map fun (word, rest) => (BACKSLASH :: c :: word, rest)
  | _, [] => none

/-- `NAME=word; export NAME;` in the shell: the name and the value. -/
def shellAssigned (text : List UInt8) : Option (List UInt8 × List UInt8) :=
  let name := text.takeWhile isWord
  (after "=" (text.dropWhile isWord)).bind fun text =>
    (shellWord .unquoted text).bind fun (value, rest) =>
      if rest = "; export ".toUTF8.toList ++ name ++ ";\n".toUTF8.toList then some (name, value)
      else none

/-- Text in single quotes in Perl. -/
def perlSingle : Quoting UInt8 where
  close := APOSTROPHE
  escape := BACKSLASH
  decode c := some (if c = APOSTROPHE ∨ c = BACKSLASH then [c] else [BACKSLASH, c])
  special _ := false

/-- `$name = 'value';` in Perl. -/
def perlAssigned (text : List UInt8) : Option (List UInt8 × List UInt8) :=
  (after "$" text).bind fun text =>
    let name := text.takeWhile isWord
    (after " = '" (text.dropWhile isWord)).bind fun text =>
      (perlSingle.read text).bind fun (value, rest) =>
        if rest = ";\n".toUTF8.toList then some (name, value) else none

/-- The elements of a list in Perl, up to the closing parenthesis, and what follows it. -/
def perlElements : ℕ → List UInt8 → Option (List (List UInt8) × List UInt8)
  | 0, _ => none
  | fuel + 1, text =>
    match text.dropWhile isBlank with
    | [] => none
    | c :: s =>
      if c = RPAREN then some ([], s)
      else if c = APOSTROPHE then
        (perlSingle.read s).bind fun (value, rest) =>
          match rest.dropWhile isBlank with
          | [] => none
          | d :: t =>
            if d = COMMA then
              (perlElements fuel t).map fun (values, rest) => (value :: values, rest)
            else if d = RPAREN then some ([value], t)
            else none
      else none

/-- `@name = ( 'element', 'element' );` in Perl. -/
def perlListAssigned (text : List UInt8) : Option (List UInt8 × List (List UInt8)) :=
  (after "@" text).bind fun text =>
    let name := text.takeWhile isWord
    (after " = (" (text.dropWhile isWord)).bind fun text =>
      (perlElements (text.length + 1) text).bind fun (values, rest) =>
        if rest = ";\n".toUTF8.toList then some (name, values) else none

/-- A backslash sequence of one character in Tcl. -/
def tclEscape (c : UInt8) : Option (List UInt8) :=
  if c = 97 then some [7]
  else if c = 98 then some [8]
  else if c = 102 then some [12]
  else if c = 110 then some [10]
  else if c = 114 then some [13]
  else if c = 116 then some [9]
  else if c = 118 then some [11]
  else if c ∈ "\n01234567xuU".toUTF8.toList then none
  else some [c]

/-- A word in double quotes in Tcl, where `$` and `[` start a substitution. -/
def tclDouble : Quoting UInt8 where
  close := QUOTE
  escape := BACKSLASH
  decode := tclEscape
  special c := decide (c ∈ "$[".toUTF8.toList)

/-- An element in double quotes of a list in Tcl. -/
def tclElement : Quoting UInt8 where
  close := QUOTE
  escape := BACKSLASH
  decode := tclEscape
  special _ := false

/-- `set name "value"` in Tcl. -/
def tclAssigned (text : List UInt8) : Option (List UInt8 × List UInt8) :=
  (after "set " text).bind fun text =>
    let name := text.takeWhile isWord
    (after " \"" (text.dropWhile isWord)).bind fun text =>
      (tclDouble.read text).bind fun (value, rest) =>
        if rest = "\n".toUTF8.toList then some (name, value) else none

/-- A word in braces in Tcl, behind the opening brace, and what follows it. Nothing in it is
substituted, and a brace behind a backslash is not counted. -/
def braceWord : Bool → ℕ → List UInt8 → Option (List UInt8 × List UInt8)
  | _, _, [] => none
  | true, depth, c :: s =>
    if c = LF then none else (braceWord false depth s).map fun (word, rest) => (c :: word, rest)
  | false, depth, c :: s =>
    if c = BACKSLASH then (braceWord true depth s).map fun (word, rest) => (c :: word, rest)
    else if c = LBRACE then
      (braceWord false (depth + 1) s).map fun (word, rest) => (c :: word, rest)
    else if c = RBRACE then
      match depth with
      | 0 => some ([], s)
      | depth + 1 => (braceWord false depth s).map fun (word, rest) => (c :: word, rest)
    else (braceWord false depth s).map fun (word, rest) => (c :: word, rest)

/-- The elements in double quotes of a list in Tcl. -/
def tclElements : ℕ → List UInt8 → Option (List (List UInt8))
  | 0, _ => none
  | fuel + 1, text =>
    match text.dropWhile isBlank with
    | [] => some []
    | c :: s =>
      if c = QUOTE then
        (tclElement.read s).bind fun (value, rest) =>
          match rest with
          | [] => some [value]
          | d :: t => if isBlank d then (tclElements fuel t).map (value :: ·) else none
      else none

/-- `set name { "element" "element" }` in Tcl. -/
def tclListAssigned (text : List UInt8) : Option (List UInt8 × List (List UInt8)) :=
  (after "set " text).bind fun text =>
    let name := text.takeWhile isWord
    (after " \x7b" (text.dropWhile isWord)).bind fun text =>
      (braceWord false 0 text).bind fun (word, rest) =>
        if rest = "\n".toUTF8.toList then
          (tclElements (word.length + 1) word).map fun values => (name, values)
        else none

/-! ## Names and fixed texts -/

/-- The name of a setting. -/
def Letters (key : List UInt8) : Prop := ∀ c ∈ key, (65 ≤ c ∧ c ≤ 90) ∨ (97 ≤ c ∧ c ≤ 122)

instance (key : List UInt8) : Decidable (Letters key) := List.decidableBAll _ key

/-- The fixed texts, as far as they have characters the readers look at. -/
theorem texts :
    ("='".toUTF8.toList = [EQUALS, APOSTROPHE] ∧ "=".toUTF8.toList = [EQUALS] ∧
    "'; export ".toUTF8.toList = APOSTROPHE :: SEMICOLON :: " export ".toUTF8.toList ∧
    "; export ".toUTF8.toList = SEMICOLON :: " export ".toUTF8.toList ∧
    shellMeta = [SPACE, TAB, LF, SEMICOLON, 38, 124, 60, 62, 40, 41] ∧
    tcl_unsafe = [36, 91, 93, LBRACE, RBRACE, QUOTE, BACKSLASH] ∧
    (∀ c ∈ "inn_".toUTF8.toList, isWord c = true)) ∧
    (" = '".toUTF8.toList = SPACE :: "= '".toUTF8.toList ∧
    " = (".toUTF8.toList = SPACE :: "= (".toUTF8.toList ∧
    "';\n".toUTF8.toList = APOSTROPHE :: ";\n".toUTF8.toList ∧
    " = ( ".toUTF8.toList = " = (".toUTF8.toList ++ [SPACE] ∧
    "'".toUTF8.toList = [APOSTROPHE] ∧ "' ".toUTF8.toList = [APOSTROPHE, SPACE] ∧
    "', ".toUTF8.toList = [APOSTROPHE, COMMA, SPACE] ∧
    ");\n".toUTF8.toList = RPAREN :: ";\n".toUTF8.toList) ∧
    "set inn_".toUTF8.toList = "set ".toUTF8.toList ++ "inn_".toUTF8.toList ∧
    " \"".toUTF8.toList = [SPACE, QUOTE] ∧
    "\"\n".toUTF8.toList = QUOTE :: "\n".toUTF8.toList ∧
    " \x7b".toUTF8.toList = [SPACE, LBRACE] ∧
    " \x7b ".toUTF8.toList = [SPACE, LBRACE, SPACE] ∧
    "\"".toUTF8.toList = [QUOTE] ∧ "\" ".toUTF8.toList = [QUOTE, SPACE] ∧
    "\x7d\n".toUTF8.toList = RBRACE :: "\n".toUTF8.toList ∧
    (∀ c ∈ tcl_unsafe, tclEscape c = some [c] ∧ c ≠ LF) ∧
    (∀ c ∈ "$[".toUTF8.toList, c ∈ tcl_unsafe) := by
  decide +kernel

theorem after_append (pre : String) (text : List UInt8) :
    after pre (pre.toUTF8.toList ++ text) = some text := by
  rw [after, if_pos (List.isPrefixOf_iff_prefix.mpr (List.prefix_append _ _)), List.drop_left]

/-- A name ends where the next character is not one of a name. -/
theorem takeWhile_word {name text : List UInt8} {c : UInt8} (h : ∀ c ∈ name, isWord c = true)
    (hc : isWord c = false) :
    (name ++ c :: text).takeWhile isWord = name ∧
      (name ++ c :: text).dropWhile isWord = c :: text := by
  rw [List.takeWhile_append_of_pos h, List.dropWhile_append_of_pos h]
  simp [hc]

theorem Letters.word {key : List UInt8} (h : Letters key) : ∀ c ∈ key, isWord c = true := by
  intro c hc
  have := h c hc
  simp only [isWord, Bool.or_eq_true, Bool.and_eq_true, decide_eq_true_eq]
  tauto

theorem toupper_letter {c : UInt8} (h : (65 ≤ c ∧ c ≤ 90) ∨ (97 ≤ c ∧ c ≤ 122)) :
    65 ≤ toupper c ∧ toupper c ≤ 90 := by
  rw [toupper]
  split_ifs with hlower
  · have hsub : (c - 32).toNat = c.toNat - 32 :=
      UInt8.toNat_sub_of_le c 32 (UInt8.le_trans (by decide) hlower.1)
    simp only [UInt8.le_iff_toNat_le, hsub] at hlower ⊢
    exact ⟨Nat.le_sub_of_add_le hlower.1, Nat.sub_le_of_le_add hlower.2⟩
  · exact h.resolve_right hlower

theorem Letters.upper {key : List UInt8} (h : Letters key) : Letters (key.map toupper) := by
  intro c hc
  obtain ⟨d, hd, rfl⟩ := List.mem_map.mp hc
  exact .inl (toupper_letter (h d hd))

theorem Letters.prefixed {key : List UInt8} (h : Letters key) :
    ∀ c ∈ "inn_".toUTF8.toList ++ key, isWord c = true := by
  intro c hc
  rcases List.mem_append.mp hc with hc | hc
  · exact texts.1.2.2.2.2.2.2 c hc
  · exact h.word c hc

/-! ## The shell -/

/-- What the shell makes of a value: its backslashes are there twice. -/
def doubled (value : List UInt8) : List UInt8 :=
  value.flatMap fun c => if c = BACKSLASH then [BACKSLASH, BACKSLASH] else [c]

theorem shellWord_printed (value : List UInt8) (rest : List UInt8) :
    shellWord .single (shellLetters value ++ APOSTROPHE :: SEMICOLON :: rest) =
      some (doubled value, SEMICOLON :: rest) := by
  have hmeta : shellMeta = [SPACE, TAB, LF, SEMICOLON, 38, 124, 60, 62, 40, 41] :=
    texts.1.2.2.2.2.1
  induction value with
  | nil =>
    have hend : SEMICOLON ∈ shellMeta := by rw [hmeta]; decide
    simp only [shellLetters, List.flatMap_nil, List.nil_append, shellWord, if_true, if_pos hend,
      doubled]
  | cons letter value ih =>
    rw [shellLetters, List.flatMap_cons, List.append_assoc, ← shellLetters, doubled,
      List.flatMap_cons, ← doubled]
    by_cases hquote : letter = APOSTROPHE
    · subst hquote
      have hword : APOSTROPHE ∉ shellMeta ∧ BACKSLASH ∉ shellMeta := by rw [hmeta]; decide
      have hne : BACKSLASH ≠ APOSTROPHE ∧ BACKSLASH ≠ QUOTE ∧ APOSTROPHE ≠ LF ∧
          APOSTROPHE ≠ BACKSLASH := by decide
      simp only [if_true, List.cons_append, List.nil_append, shellWord, if_neg hword.1,
        if_neg hword.2, if_neg hne.1, if_neg hne.2.1, if_neg hne.2.2.1, if_neg hne.2.2.2, ih,
        Option.map_some]
    · rw [if_neg hquote]
      by_cases hslash : letter = BACKSLASH
      · subst hslash
        simp only [if_true, List.cons_append, List.nil_append, shellWord, if_neg hquote, ih,
          Option.map_some]
      · simp only [if_neg hslash, List.cons_append, List.nil_append, shellWord, if_neg hquote, ih,
          Option.map_some]

theorem length_le_doubled (value : List UInt8) : value.length ≤ (doubled value).length := by
  induction value with
  | nil => exact Nat.le_refl _
  | cons c value ih =>
    rw [doubled, List.flatMap_cons, ← doubled, List.length_append]
    split <;> simp only [List.length_cons, List.length_nil] <;> omega

theorem doubled_eq_iff (value : List UInt8) : doubled value = value ↔ BACKSLASH ∉ value := by
  induction value with
  | nil => simp [doubled]
  | cons c value ih =>
    rw [doubled, List.flatMap_cons, ← doubled, List.mem_cons, not_or]
    by_cases hc : c = BACKSLASH
    · refine iff_of_false (fun heq => ?_) fun h => h.1 hc.symm
      have hcount := congrArg List.length heq
      rw [if_pos hc] at hcount
      simp only [List.length_append, List.length_cons, List.length_nil] at hcount
      have := length_le_doubled value
      omega
    · rw [if_neg hc, List.singleton_append, List.cons.injEq, ih]
      exact ⟨fun h => ⟨Ne.symm hc, h.2⟩, fun h => ⟨rfl, h.2⟩⟩

theorem shellAssigned_printed {key : List UInt8} (h : Letters key) (value : List UInt8) :
    shellAssigned (print_string key (some value) .CONFPARSE_QUOTE_SHELL) =
      some (key.map toupper, doubled value) := by
  obtain ⟨⟨hstart, hequals, hend, hexport, -⟩, -⟩ := texts
  have htext : print_string key (some value) .CONFPARSE_QUOTE_SHELL = key.map toupper ++
      EQUALS :: (APOSTROPHE :: (shellLetters value ++ APOSTROPHE :: SEMICOLON ::
        (" export ".toUTF8.toList ++ (key.map toupper ++ ";\n".toUTF8.toList)))) := by
    simp only [print_string, hstart, hend, List.append_assoc, List.cons_append, List.nil_append]
  obtain ⟨hname, hrest⟩ := @takeWhile_word _ (APOSTROPHE :: (shellLetters value ++
    APOSTROPHE :: SEMICOLON :: (" export ".toUTF8.toList ++ (key.map toupper ++
      ";\n".toUTF8.toList)))) EQUALS h.upper.word (by decide)
  have hafter := after_append "=" (APOSTROPHE :: (shellLetters value ++ APOSTROPHE :: SEMICOLON ::
    (" export ".toUTF8.toList ++ (key.map toupper ++ ";\n".toUTF8.toList))))
  rw [hequals, List.singleton_append] at hafter
  have hopen : APOSTROPHE ∉ shellMeta := by
    rw [texts.1.2.2.2.2.1]
    decide
  rw [shellAssigned, htext, hname, hrest, hafter, Option.bind_some, shellWord, if_neg hopen,
    if_pos rfl, shellWord_printed, Option.bind_some, hexport]
  simp

/-! ## Perl -/

theorem perlLetters_eq (value : List UInt8) : perlLetters value =
    perlSingle.quoted (fun c => decide (c = APOSTROPHE ∨ c = BACKSLASH)) value := by
  simp only [perlLetters, Quoting.quoted, decide_eq_true_eq]
  rfl

theorem perlSingle_suits :
    perlSingle.Suits fun c => decide (c = APOSTROPHE ∨ c = BACKSLASH) where
  escape_ne := by decide
  escaped c hc := congrArg some (if_pos (of_decide_eq_true hc))
  plain c hc := by
    have hne := of_decide_eq_false hc
    exact ⟨fun heq => hne (.inl heq), fun heq => hne (.inr heq), rfl⟩

theorem perlSingle_read (value rest : List UInt8) :
    perlSingle.read (perlLetters value ++ APOSTROPHE :: rest) = some (value, rest) := by
  rw [perlLetters_eq]
  exact Quoting.read_quoted perlSingle_suits

theorem perlAssigned_printed {key : List UInt8} (h : Letters key) (value : List UInt8) :
    perlAssigned (print_string key (some value) .CONFPARSE_QUOTE_PERL) = some (key, value) := by
  obtain ⟨hequals, -, hend, -⟩ := texts.2.1
  have htext : print_string key (some value) .CONFPARSE_QUOTE_PERL = "$".toUTF8.toList ++
      (key ++ (" = '".toUTF8.toList ++ (perlLetters value ++ APOSTROPHE ::
        ";\n".toUTF8.toList))) := by
    simp only [print_string, hend, List.append_assoc]
  obtain ⟨hname, hrest⟩ := @takeWhile_word _ ("= '".toUTF8.toList ++ (perlLetters value ++
    APOSTROPHE :: ";\n".toUTF8.toList)) SPACE h.word (by decide)
  rw [← List.cons_append, ← hequals] at hname hrest
  rw [perlAssigned, htext, after_append, Option.bind_some]
  simp only [hname, hrest, after_append, Option.bind_some, perlSingle_read, if_true]

/-- The elements of a list are read back. -/
theorem perlElements_printed (values : List (List UInt8)) {rest : List UInt8} {fuel : ℕ}
    (hfuel : values.length < fuel) :
    perlElements fuel (SPACE :: (perlStrings values ++ RPAREN :: rest)) = some (values, rest) := by
  obtain ⟨-, -, -, -, hopen, hlast, hnext, -⟩ := texts.2.1
  have hblank : isBlank SPACE = true ∧ isBlank RPAREN = false ∧ isBlank APOSTROPHE = false ∧
      isBlank COMMA = false := by decide
  have hne : APOSTROPHE ≠ RPAREN ∧ RPAREN ≠ COMMA := by decide
  induction values generalizing fuel with
  | nil =>
    obtain ⟨fuel, rfl⟩ : ∃ k, fuel = k + 1 := ⟨fuel - 1, by omega⟩
    simp [perlElements, perlStrings, hblank]
  | cons value values ih =>
    rw [List.length_cons] at hfuel
    obtain ⟨fuel, rfl⟩ : ∃ k, fuel = k + 1 := ⟨fuel - 1, by omega⟩
    cases values with
    | nil =>
      have htext : perlStrings [value] ++ RPAREN :: rest = APOSTROPHE :: (perlLetters value ++
          APOSTROPHE :: SPACE :: RPAREN :: rest) := by
        simp only [perlStrings, hopen, hlast, List.append_assoc, List.cons_append, List.nil_append]
      simp [perlElements, htext, hblank, hne, perlSingle_read]
    | cons next values =>
      have htext : perlStrings (value :: next :: values) ++ RPAREN :: rest =
          APOSTROPHE :: (perlLetters value ++ APOSTROPHE :: COMMA :: SPACE ::
            (perlStrings (next :: values) ++ RPAREN :: rest)) := by
        simp only [perlStrings, hopen, hnext, List.append_assoc, List.cons_append, List.nil_append]
      have hrest := @ih fuel (by omega)
      simp [perlElements, htext, hblank, hne, perlSingle_read, hrest]

theorem length_le_perlStrings (values : List (List UInt8)) :
    values.length ≤ (perlStrings values).length := by
  obtain ⟨-, -, -, -, hopen, -⟩ := texts.2.1
  induction values with
  | nil => exact Nat.le_refl _
  | cons value values ih =>
    cases values with
    | nil =>
      simp only [perlStrings, hopen, List.length_append, List.length_cons, List.length_nil]
      omega
    | cons next values =>
      rw [List.length_cons]
      simp only [perlStrings, hopen, List.length_append, List.length_cons, List.length_nil] at ih ⊢
      omega

theorem perlListAssigned_printed {key : List UInt8} (h : Letters key)
    (values : List (List UInt8)) :
    perlListAssigned (print_list key (some values) .CONFPARSE_QUOTE_PERL) =
      some (key, values) := by
  obtain ⟨-, hequals, -, hopen, -, -, -, hend⟩ := texts.2.1
  have htext : print_list key (some values) .CONFPARSE_QUOTE_PERL = "@".toUTF8.toList ++
      (key ++ (" = (".toUTF8.toList ++ (SPACE :: (perlStrings values ++ RPAREN ::
        ";\n".toUTF8.toList)))) := by
    simp only [print_list, hopen, hend, List.append_assoc, List.cons_append, List.nil_append]
  obtain ⟨hname, hrest⟩ := @takeWhile_word _ ("= (".toUTF8.toList ++ (SPACE ::
    (perlStrings values ++ RPAREN :: ";\n".toUTF8.toList))) SPACE h.word (by decide)
  rw [← List.cons_append, ← hequals] at hname hrest
  have hfuel : values.length < (SPACE :: (perlStrings values ++ RPAREN ::
      ";\n".toUTF8.toList)).length + 1 := by
    have := length_le_perlStrings values
    simp only [List.length_append, List.length_cons]
    omega
  rw [perlListAssigned, htext, after_append, Option.bind_some]
  simp only [hname, hrest, after_append, Option.bind_some, perlElements_printed values hfuel,
    if_true]

/-! ## Tcl -/

theorem tclLetters_eq (value : List UInt8) :
    tclLetters value = tclDouble.quoted (fun c => decide (c ∈ tcl_unsafe)) value ∧
      tclLetters value = tclElement.quoted (fun c => decide (c ∈ tcl_unsafe)) value := by
  simp only [tclLetters, Quoting.quoted, decide_eq_true_eq]
  exact ⟨rfl, rfl⟩

theorem ne_of_safe {c : UInt8} (h : c ∉ tcl_unsafe) :
    c ≠ QUOTE ∧ c ≠ BACKSLASH ∧ c ≠ LBRACE ∧ c ≠ RBRACE := by
  rw [texts.1.2.2.2.2.2.1] at h
  simp only [List.mem_cons, not_or] at h
  tauto

theorem tclDouble_suits : tclDouble.Suits fun c => decide (c ∈ tcl_unsafe) where
  escape_ne := by decide
  escaped c hc := (texts.2.2.2.2.2.2.2.2.2.2.1 c (of_decide_eq_true hc)).1
  plain c hc := by
    have hsafe := of_decide_eq_false hc
    obtain ⟨hquote, hslash, -⟩ := ne_of_safe hsafe
    exact ⟨hquote, hslash, decide_eq_false fun hmem =>
      hsafe (texts.2.2.2.2.2.2.2.2.2.2.2 c hmem)⟩

theorem tclElement_suits : tclElement.Suits fun c => decide (c ∈ tcl_unsafe) where
  escape_ne := tclDouble_suits.escape_ne
  escaped := tclDouble_suits.escaped
  plain c hc := ⟨(tclDouble_suits.plain c hc).1, (tclDouble_suits.plain c hc).2.1, rfl⟩

theorem tclDouble_read (value rest : List UInt8) :
    tclDouble.read (tclLetters value ++ QUOTE :: rest) = some (value, rest) := by
  rw [(tclLetters_eq value).1]
  exact Quoting.read_quoted tclDouble_suits

theorem tclElement_read (value rest : List UInt8) :
    tclElement.read (tclLetters value ++ QUOTE :: rest) = some (value, rest) := by
  rw [(tclLetters_eq value).2]
  exact Quoting.read_quoted tclElement_suits

theorem tclAssigned_printed {key : List UInt8} (h : Letters key) (value : List UInt8) :
    tclAssigned (print_string key (some value) .CONFPARSE_QUOTE_TCL) =
      some ("inn_".toUTF8.toList ++ key, value) := by
  obtain ⟨hset, hopen, hend, -⟩ := texts.2.2
  have htext : print_string key (some value) .CONFPARSE_QUOTE_TCL = "set ".toUTF8.toList ++
      (("inn_".toUTF8.toList ++ key) ++ (" \"".toUTF8.toList ++ (tclLetters value ++ QUOTE ::
        "\n".toUTF8.toList))) := by
    simp only [print_string, hset, hend, List.append_assoc]
  obtain ⟨hname, hrest⟩ := @takeWhile_word _ ([QUOTE] ++ (tclLetters value ++ QUOTE ::
    "\n".toUTF8.toList)) SPACE h.prefixed (by decide)
  rw [← List.cons_append, ← hopen] at hname hrest
  rw [tclAssigned, htext, after_append, Option.bind_some]
  simp only [hname, hrest, after_append, Option.bind_some, tclDouble_read, if_true]

theorem braceWord_letters (value s : List UInt8) :
    braceWord false 0 (tclLetters value ++ s) =
      (braceWord false 0 s).map fun (word, rest) => (tclLetters value ++ word, rest) := by
  induction value with
  | nil => simp [tclLetters]
  | cons c value ih =>
    rw [tclLetters, List.flatMap_cons, List.append_assoc, ← tclLetters]
    by_cases hc : c ∈ tcl_unsafe
    · have hLF := (texts.2.2.2.2.2.2.2.2.2.2.1 c hc).2
      simp only [if_pos hc, List.cons_append, List.nil_append, braceWord, if_true, if_neg hLF, ih,
        Option.map_map]
      rfl
    · obtain ⟨-, hslash, hopen, hclose⟩ := ne_of_safe hc
      simp only [if_neg hc, List.cons_append, List.nil_append, braceWord, if_neg hslash,
        if_neg hopen, if_neg hclose, ih, Option.map_map]
      rfl

/-- The braces around a list are the outermost ones. -/
theorem braceWord_printed (values : List (List UInt8)) (rest : List UInt8) :
    braceWord false 0 (tclStrings values ++ RBRACE :: rest) = some (tclStrings values, rest) := by
  obtain ⟨-, -, -, -, -, hopen, hclose, -⟩ := texts.2.2
  have hquote : QUOTE ≠ BACKSLASH ∧ QUOTE ≠ LBRACE ∧ QUOTE ≠ RBRACE := by decide
  have hspace : SPACE ≠ BACKSLASH ∧ SPACE ≠ LBRACE ∧ SPACE ≠ RBRACE := by decide
  induction values with
  | nil => simp [tclStrings, braceWord, show RBRACE ≠ BACKSLASH ∧ RBRACE ≠ LBRACE by decide]
  | cons value values ih =>
    have htext : tclStrings (value :: values) =
        QUOTE :: (tclLetters value ++ QUOTE :: SPACE :: tclStrings values) := by
      simp only [tclStrings, List.flatMap_cons, hopen, hclose, List.append_assoc, List.cons_append,
        List.nil_append]
    rw [htext, List.cons_append, List.append_assoc, List.cons_append, List.cons_append]
    simp only [braceWord, if_neg hquote.1, if_neg hquote.2.1, if_neg hquote.2.2,
      braceWord_letters, if_neg hspace.1, if_neg hspace.2.1, if_neg hspace.2.2, ih,
      Option.map_some]

/-- The elements of a list are read back, with or without white space in front. -/
theorem tclElements_printed (values : List (List UInt8)) {text : List UInt8} {fuel : ℕ}
    (htext : text = tclStrings values ∨ text = SPACE :: tclStrings values)
    (hfuel : values.length < fuel) : tclElements fuel text = some values := by
  obtain ⟨-, -, -, -, -, hopen, hclose, -⟩ := texts.2.2
  have hblank : isBlank SPACE = true ∧ isBlank QUOTE = false := by decide
  induction values generalizing fuel text with
  | nil =>
    obtain ⟨fuel, rfl⟩ : ∃ k, fuel = k + 1 := ⟨fuel - 1, by omega⟩
    rcases htext with rfl | rfl <;> simp [tclElements, tclStrings, hblank]
  | cons value values ih =>
    rw [List.length_cons] at hfuel
    obtain ⟨fuel, rfl⟩ : ∃ k, fuel = k + 1 := ⟨fuel - 1, by omega⟩
    have hlist : tclStrings (value :: values) =
        QUOTE :: (tclLetters value ++ QUOTE :: SPACE :: tclStrings values) := by
      simp only [tclStrings, List.flatMap_cons, hopen, hclose, List.append_assoc, List.cons_append,
        List.nil_append]
    have hskip : text.dropWhile isBlank = tclStrings (value :: values) := by
      rcases htext with rfl | rfl <;> simp [hlist, hblank]
    have hrest := @ih (tclStrings values) fuel (.inl rfl) (by omega)
    rw [tclElements, hskip, hlist]
    simp only [if_true, tclElement_read, Option.bind_some, hblank.1, hrest, Option.map_some]

theorem length_le_tclStrings (values : List (List UInt8)) :
    values.length ≤ (tclStrings values).length := by
  induction values with
  | nil => exact Nat.le_refl _
  | cons value values ih =>
    rw [tclStrings, List.flatMap_cons, ← tclStrings, List.length_append, texts.2.2.2.2.2.2.2.1]
    simp only [List.length_append, List.length_cons]
    omega

theorem tclListAssigned_printed {key : List UInt8} (h : Letters key)
    (values : List (List UInt8)) :
    tclListAssigned (print_list key (some values) .CONFPARSE_QUOTE_TCL) =
      some ("inn_".toUTF8.toList ++ key, values) := by
  obtain ⟨hset, -, -, hbrace, hopen, -, -, hend, -⟩ := texts.2.2
  have htext : print_list key (some values) .CONFPARSE_QUOTE_TCL = "set ".toUTF8.toList ++
      (("inn_".toUTF8.toList ++ key) ++ (" \x7b".toUTF8.toList ++ ((SPACE :: tclStrings values) ++
        RBRACE :: "\n".toUTF8.toList))) := by
    simp only [print_list, hset, hopen, hbrace, hend, List.append_assoc, List.cons_append,
      List.nil_append]
  obtain ⟨hname, hrest⟩ := @takeWhile_word _ ([LBRACE] ++ ((SPACE :: tclStrings values) ++
    RBRACE :: "\n".toUTF8.toList)) SPACE h.prefixed (by decide)
  rw [← List.cons_append, ← hbrace] at hname hrest
  have hword : braceWord false 0 ((SPACE :: tclStrings values) ++ RBRACE :: "\n".toUTF8.toList) =
      some (SPACE :: tclStrings values, "\n".toUTF8.toList) := by
    have hspace : SPACE ≠ BACKSLASH ∧ SPACE ≠ LBRACE ∧ SPACE ≠ RBRACE := by decide
    rw [List.cons_append, braceWord, if_neg hspace.1, if_neg hspace.2.1, if_neg hspace.2.2,
      braceWord_printed, Option.map_some]
  have hfuel : values.length < (SPACE :: tclStrings values).length + 1 := by
    have := length_le_tclStrings values
    rw [List.length_cons]
    omega
  rw [tclListAssigned, htext, after_append, Option.bind_some]
  simp only [hname, hrest, after_append, Option.bind_some, hword, if_true,
    tclElements_printed values (.inr rfl) hfuel, Option.map_some]

/-! ## Every statement -/

/-- A statement for Perl or Tcl assigns the value it was written for, whatever is in it; one for
the shell does if and only if there is no backslash in the value. -/
theorem print_iff {key : List UInt8} (h : Letters key) (value : List UInt8)
    (values : List (List UInt8)) :
    (shellAssigned (print_string key (some value) .CONFPARSE_QUOTE_SHELL) =
        some (key.map toupper, value) ↔ BACKSLASH ∉ value) ∧
    perlAssigned (print_string key (some value) .CONFPARSE_QUOTE_PERL) = some (key, value) ∧
    tclAssigned (print_string key (some value) .CONFPARSE_QUOTE_TCL) =
      some ("inn_".toUTF8.toList ++ key, value) ∧
    perlListAssigned (print_list key (some values) .CONFPARSE_QUOTE_PERL) = some (key, values) ∧
    tclListAssigned (print_list key (some values) .CONFPARSE_QUOTE_TCL) =
      some ("inn_".toUTF8.toList ++ key, values) := by
  refine ⟨?_, perlAssigned_printed h value, tclAssigned_printed h value,
    perlListAssigned_printed h values, tclListAssigned_printed h values⟩
  rw [shellAssigned_printed h, Option.some.injEq, Prod.mk.injEq, doubled_eq_iff]
  exact ⟨And.right, fun hvalue => ⟨rfl, hvalue⟩⟩

/-- A value in which there is something of everything but a backslash. -/
theorem print_quotes :
    shellAssigned (print_string [97] (some [APOSTROPHE, QUOTE, 36, LF]) .CONFPARSE_QUOTE_SHELL) =
        some ([65], [APOSTROPHE, QUOTE, 36, LF]) ∧
      tclListAssigned (print_list [97] (some [[LBRACE, BACKSLASH], []]) .CONFPARSE_QUOTE_TCL) =
        some ("inn_".toUTF8.toList ++ [97], [[LBRACE, BACKSLASH], []]) := by
  have hletters : Letters [97] := by decide
  have hprint := print_iff hletters [APOSTROPHE, QUOTE, 36, LF] [[LBRACE, BACKSLASH], []]
  exact ⟨hprint.1.mpr (by decide), hprint.2.2.2.2⟩

/-- A backslash comes back twice in the shell. -/
theorem print_backslash :
    shellAssigned (print_string [97] (some [BACKSLASH]) .CONFPARSE_QUOTE_SHELL) ≠
      some ([97].map toupper, [BACKSLASH]) := by
  rw [shellAssigned_printed (by decide)]
  decide

end Inn.Confparse
