import Inn.Base
import Inn.Confparse.Parse
import Inn.Decimal

/-!
# Inn.Confparse.Lookup — the value of a parameter

A parameter keeps its raw text. The lookup that first reads it as some type keeps the value
beside it, and marks the parameter with the type.

* `convert_fresh`, `convert_marked` — what a conversion comes to;
* `lookups_slot` — what each conversion keeps of a parameter, all lookups keep of it;
* `lookup_again` — a lookup that is made once more returns the same;
* `lookups_alike` — a number that was not to be had has changed nothing;
* `typed_lookup_iff` — a number is returned when its text is one, where the text has a digit.
-/

namespace Inn.Confparse

/-! ## The code -/

/-- `LONG_MAX`. -/
def LONG_MAX : ℤ := 2 ^ 63 - 1

/-- `LONG_MIN`. -/
def LONG_MIN : ℤ := -2 ^ 63

/-- `ULONG_MAX`. -/
def ULONG_MAX : ℕ := 2 ^ 64 - 1

/-- `isspace`. -/
def isspace (c : UInt8) : Bool := c = 32 ∨ (9 ≤ c ∧ c ≤ 13)

/-- The sign and the digits that `strtol` and `strtoul` read. -/
def strtoDigits (nptr : List UInt8) : Bool × ℕ :=
  let p := nptr.dropWhile isspace
  let q := if p.head? = some 43 ∨ p.head? = some 45 then p.tail else p
  (p.head? = some 45, decimalValue (q.takeWhile fun c => IsDigit c))

/-- `strtol` in base 10: the number, and whether `errno` is set. It is not when there is no
digit. -/
def strtol (nptr : List UInt8) : ℤ × Bool :=
  let (negative, digits) := strtoDigits nptr
  let value : ℤ := if negative then -digits else digits
  if LONG_MAX < value then (LONG_MAX, true)
  else if value < LONG_MIN then (LONG_MIN, true)
  else (value, false)

/-- `strtoul` in base 10. -/
def strtoul (nptr : List UInt8) : ℕ × Bool :=
  let (negative, digits) := strtoDigits nptr
  if ULONG_MAX < digits then (ULONG_MAX, true)
  else if negative then ((ULONG_MAX + 1 - digits) % (ULONG_MAX + 1), false)
  else (digits, false)

/-- `truevals`. -/
def truevals : List (List UInt8) := ["yes", "on", "true"].map (·.toUTF8.toList)

/-- `falsevals`. -/
def falsevals : List (List UInt8) := ["no", "off", "false"].map (·.toUTF8.toList)

/-- `param->raw_value`. -/
def config_parameter.raw (param : config_parameter) : List UInt8 := param.raw_value.getD []

/-- `convert_boolean`. -/
def convert_boolean (param : config_parameter) : Option Value × config_parameter :=
  if param.type = .VALUE_BOOL then (some param.value, param)
  else if param.type ≠ .VALUE_UNKNOWN then (none, param)
  else if param.raw ∈ truevals then
    (some (.boolean true), { param with type := .VALUE_BOOL, value := .boolean true })
  else if param.raw ∈ falsevals then
    (some (.boolean false), { param with type := .VALUE_BOOL, value := .boolean false })
  else (none, { param with type := .VALUE_INVALID })

/-- `convert_signed_number`. -/
def convert_signed_number (param : config_parameter) : Option Value × config_parameter :=
  if param.type = .VALUE_NUMBER then (some param.value, param)
  else if param.type ≠ .VALUE_UNKNOWN then (none, param)
  else
    let p := if param.raw.head? = some 45 then param.raw.tail else param.raw
    if p.dropWhile (fun c => IsDigit c) ≠ [] then (none, param)
    else
      let (number, errno) := strtol param.raw
      let param := { param with value := .signed_number number }
      if errno then (none, param)
      else (some (.signed_number number), { param with type := .VALUE_NUMBER })

/-- `convert_unsigned_number`. -/
def convert_unsigned_number (param : config_parameter) : Option Value × config_parameter :=
  if param.type = .VALUE_UNUMBER then (some param.value, param)
  else if param.type ≠ .VALUE_UNKNOWN then (none, param)
  else if param.raw.head? = some 45 then (none, param)
  else if param.raw.dropWhile (fun c => IsDigit c) ≠ [] then (none, param)
  else
    let (number, errno) := strtoul param.raw
    let param := { param with value := .unsigned_number number }
    if errno then (none, param)
    else (some (.unsigned_number number), { param with type := .VALUE_UNUMBER })

/-- What is behind one digit and all that follow it. -/
def skipDigits (p : List UInt8) : Option (List UInt8) :=
  if (p.head?.any fun c => IsDigit c) then some (p.dropWhile fun c => IsDigit c) else none

/-- The syntax check of `convert_real`. -/
def isReal (raw : List UInt8) : Bool :=
  let fraction (p : List UInt8) := if p.head? = some 46 then skipDigits p.tail else some p
  let exponent (p : List UInt8) :=
    if p.head? = some 101 then skipDigits (if p.tail.head? = some 45 then p.tail.tail else p.tail)
    else some p
  ((skipDigits (if raw.head? = some 45 then raw.tail else raw)).bind fraction).bind exponent
    = some []

/-- The string that a raw value stands for: one in quotes is decoded. -/
def rawString (raw : List UInt8) : Option (List UInt8) :=
  if raw.head? = some QUOTE then
    match (token_unquote_string raw).1 with
    | .string string => some string
    | _ => none
  else some raw

/-- `convert_string`. -/
def convert_string (param : config_parameter) : Option Value × config_parameter :=
  if param.type = .VALUE_STRING then (some param.value, param)
  else if param.type ≠ .VALUE_UNKNOWN then (none, param)
  else
    match rawString param.raw with
    | none => (none, param)
    | some string =>
      (some (.string string), { param with type := .VALUE_STRING, value := .string string })

/-- `convert_list`. -/
def convert_list (param : config_parameter) : Option Value × config_parameter :=
  if param.type = .VALUE_LIST then (some param.value, param)
  else if param.type ≠ .VALUE_UNKNOWN then (none, param)
  else
    match rawString param.raw with
    | none => (none, param)
    | some string =>
      (some (.list [string]), { param with type := .VALUE_LIST, value := .list [string] })

/-- `convert_real`. What `strtod` returns is with whether it sets `errno`. -/
def convert_real (strtod : List UInt8 → UInt64 × Bool) (param : config_parameter) :
    Option Value × config_parameter :=
  if param.type = .VALUE_REAL then (some param.value, param)
  else if param.type ≠ .VALUE_UNKNOWN then (none, param)
  else if !isReal param.raw then (none, param)
  else
    let (number, errno) := strtod param.raw
    let param := { param with value := .real number }
    if errno then (none, param)
    else (some (.real number), { param with type := .VALUE_REAL })

/-- `convert_func`. -/
abbrev convert_func := config_parameter → Option Value × config_parameter

/-- The parameter of a group that has been converted, stored in its place. -/
def Memory.store (mem : Memory) (current : ℕ) (param : config_parameter) : Memory :=
  mem.modify current fun g =>
    { g with params := g.params.map fun p => if p.key = param.key then param else p }

/-- `hash_lookup` in the parameters of a group. -/
def Memory.slot (mem : Memory) (current : ℕ) (key : List UInt8) : Option config_parameter :=
  (mem.get current).params.find? (·.key = key)

/-- The loop of `group_parameter_get`. -/
def parameterLoop (mem : Memory) (key : List UInt8) (convert : convert_func) :
    ℕ → Option ℕ → Option Value × Memory
  | _, none => (none, mem)
  | 0, some _ => (none, mem)
  | fuel + 1, some current =>
    match mem.slot current key with
    | none => parameterLoop mem key convert fuel (mem.get current).parent
    | some param =>
      if param.type = .VALUE_INVALID then (none, mem)
      else
        let (result, param) := convert param
        (result, mem.store current param)

/-- `group_parameter_get`. -/
def group_parameter_get (mem : Memory) (group : ℕ) (key : List UInt8) (convert : convert_func) :
    Option Value × Memory :=
  parameterLoop mem key convert mem.length (some group)

/-- `config_param_boolean`. -/
def config_param_boolean (mem : Memory) (group : ℕ) (key : List UInt8) : Option Value × Memory :=
  group_parameter_get mem group key convert_boolean

/-- `config_param_signed_number`. -/
def config_param_signed_number (mem : Memory) (group : ℕ) (key : List UInt8) :
    Option Value × Memory :=
  group_parameter_get mem group key convert_signed_number

/-- `config_param_unsigned_number`. -/
def config_param_unsigned_number (mem : Memory) (group : ℕ) (key : List UInt8) :
    Option Value × Memory :=
  group_parameter_get mem group key convert_unsigned_number

/-- `config_param_real`. -/
def config_param_real (strtod : List UInt8 → UInt64 × Bool) (mem : Memory) (group : ℕ)
    (key : List UInt8) : Option Value × Memory :=
  group_parameter_get mem group key (convert_real strtod)

/-- `config_param_string`. -/
def config_param_string (mem : Memory) (group : ℕ) (key : List UInt8) : Option Value × Memory :=
  group_parameter_get mem group key convert_string

/-- `config_param_list`. -/
def config_param_list (mem : Memory) (group : ℕ) (key : List UInt8) : Option Value × Memory :=
  group_parameter_get mem group key convert_list

/-! ## The lookups of a program -/

/-- The type that a lookup asks for. -/
inductive Kind where
  | boolean
  | signed_number
  | unsigned_number
  | real
  | string
  | list
deriving DecidableEq

/-- How a parameter is marked that has been read as this type. -/
def Kind.type : Kind → value_type
  | boolean => .VALUE_BOOL
  | signed_number => .VALUE_NUMBER
  | unsigned_number => .VALUE_UNUMBER
  | real => .VALUE_REAL
  | string => .VALUE_STRING
  | list => .VALUE_LIST

/-- A lookup. -/
structure Request where
  group : ℕ
  key : List UInt8
  kind : Kind

section Requests

variable (strtod : List UInt8 → UInt64 × Bool)

/-- The conversion to a type. -/
def Kind.convert : Kind → convert_func
  | boolean => convert_boolean
  | signed_number => convert_signed_number
  | unsigned_number => convert_unsigned_number
  | real => convert_real strtod
  | string => convert_string
  | list => convert_list

/-- The lookup of a type. -/
def lookup (mem : Memory) (request : Request) : Option Value × Memory :=
  match request.kind with
  | .boolean => config_param_boolean mem request.group request.key
  | .signed_number => config_param_signed_number mem request.group request.key
  | .unsigned_number => config_param_unsigned_number mem request.group request.key
  | .real => config_param_real strtod mem request.group request.key
  | .string => config_param_string mem request.group request.key
  | .list => config_param_list mem request.group request.key

/-- Lookups, one after the other. -/
def lookups (mem : Memory) (requests : List Request) : Memory :=
  requests.foldl (fun mem request => (lookup strtod mem request).2) mem

theorem lookup_eq (mem : Memory) (request : Request) : lookup strtod mem request =
    group_parameter_get mem request.group request.key (request.kind.convert strtod) := by
  obtain ⟨group, key, kind⟩ := request
  cases kind <;> rfl

end Requests

/-! ## One conversion -/

section Convert

variable {strtod : List UInt8 → UInt64 × Bool} {kind kind' : Kind} {param : config_parameter}
  {value : Value}

/-- What a raw value is as each type. -/
def reads (strtod : List UInt8 → UInt64 × Bool) : Kind → List UInt8 → Option Value
  | .boolean, raw =>
    if raw ∈ truevals then some (.boolean true)
    else if raw ∈ falsevals then some (.boolean false)
    else none
  | .signed_number, raw =>
    if (if raw.head? = some 45 then raw.tail else raw).dropWhile (fun c => IsDigit c) ≠ [] then none
    else if (strtol raw).2 then none
    else some (.signed_number (strtol raw).1)
  | .unsigned_number, raw =>
    if raw.head? = some 45 then none
    else if raw.dropWhile (fun c => IsDigit c) ≠ [] then none
    else if (strtoul raw).2 then none
    else some (.unsigned_number (strtoul raw).1)
  | .real, raw =>
    if !isReal raw then none
    else if (strtod raw).2 then none
    else some (.real (strtod raw).1)
  | .string, raw => (rawString raw).map .string
  | .list, raw => (rawString raw).map fun string => .list [string]

/-- A parameter that is marked is not changed. -/
theorem convert_marked (h : param.type ≠ .VALUE_UNKNOWN) : kind.convert strtod param =
    (if param.type = kind.type then some param.value else none, param) := by
  by_cases heq : param.type = kind.type
  · rw [if_pos heq]
    cases kind <;> exact if_pos heq
  · rw [if_neg heq]
    cases kind <;> exact (if_neg heq).trans (if_pos h)

/-- A parameter that is not marked is read, and marked with the type. Where it cannot be read it
is not marked, or marked as invalid. -/
theorem convert_fresh (h : param.type = .VALUE_UNKNOWN) :
    (kind.convert strtod param).1 = reads strtod kind param.raw ∧
      (∀ value, reads strtod kind param.raw = some value →
        (kind.convert strtod param).2 = { param with type := kind.type, value := value }) ∧
      (reads strtod kind param.raw = none → ∃ value, (kind.convert strtod param).2 =
        { param with
          type := if kind = .boolean then .VALUE_INVALID else .VALUE_UNKNOWN
          value := value }) := by
  obtain ⟨key, raw_value, type, was⟩ := param
  obtain rfl : type = .VALUE_UNKNOWN := h
  cases kind with
  | boolean =>
    simp only [Kind.convert, convert_boolean, reduceCtorEq, if_false, ne_eq,
      not_true_eq_false, reads]
    split_ifs
    · exact ⟨rfl, by simp [Kind.type], by simp⟩
    · exact ⟨rfl, by simp [Kind.type], by simp⟩
    · exact ⟨rfl, by simp, fun _ => ⟨was, rfl⟩⟩
  | signed_number =>
    simp only [Kind.convert, convert_signed_number, reduceCtorEq, if_false, ne_eq,
      not_true_eq_false, reads]
    generalize config_parameter.raw _ = raw
    generalize (if raw.head? = some 45 then raw.tail else raw) = p
    split_ifs
    · exact ⟨rfl, by simp, fun _ => ⟨_, rfl⟩⟩
    · exact ⟨rfl, by simp [Kind.type], by simp⟩
    · exact ⟨rfl, by simp, fun _ => ⟨was, rfl⟩⟩
  | unsigned_number =>
    simp only [Kind.convert, convert_unsigned_number, reduceCtorEq, if_false, ne_eq,
      not_true_eq_false, reads]
    split_ifs
    · exact ⟨rfl, by simp, fun _ => ⟨was, rfl⟩⟩
    · exact ⟨rfl, by simp, fun _ => ⟨_, rfl⟩⟩
    · exact ⟨rfl, by simp [Kind.type], by simp⟩
    · exact ⟨rfl, by simp, fun _ => ⟨was, rfl⟩⟩
  | real =>
    simp only [Kind.convert, convert_real, reduceCtorEq, if_false, ne_eq,
      not_true_eq_false, reads]
    split_ifs
    · exact ⟨rfl, by simp, fun _ => ⟨was, rfl⟩⟩
    · exact ⟨rfl, by simp, fun _ => ⟨_, rfl⟩⟩
    · exact ⟨rfl, by simp [Kind.type], by simp⟩
  | string =>
    simp only [Kind.convert, convert_string, reduceCtorEq, if_false, ne_eq,
      not_true_eq_false, reads]
    cases rawString (config_parameter.raw _) with
    | none => exact ⟨rfl, by simp, fun _ => ⟨was, rfl⟩⟩
    | some string => exact ⟨rfl, by simp [Kind.type], by simp⟩
  | list =>
    simp only [Kind.convert, convert_list, reduceCtorEq, if_false, ne_eq,
      not_true_eq_false, reads]
    cases rawString (config_parameter.raw _) with
    | none => exact ⟨rfl, by simp, fun _ => ⟨was, rfl⟩⟩
    | some string => exact ⟨rfl, by simp [Kind.type], by simp⟩

/-- What a conversion does not change. -/
theorem convert_keeps : (kind.convert strtod param).2.key = param.key ∧
    (kind.convert strtod param).2.raw_value = param.raw_value := by
  by_cases h : param.type = .VALUE_UNKNOWN
  · obtain ⟨-, hsome, hnone⟩ := @convert_fresh strtod kind param h
    cases hread : reads strtod kind param.raw with
    | some value => simp [hsome value hread]
    | none =>
      obtain ⟨value, hvalue⟩ := hnone hread
      simp [hvalue]
  · simp [convert_marked h]

end Convert

/-! ## The memory -/

section Lookups

variable {strtod : List UInt8 → UInt64 × Bool} {mem mem' : Memory} {kind : Kind}
  {param : config_parameter} {key key' : List UInt8} {group p q : ℕ} {path : List ℕ}
  {requests : List Request} {request : Request}

/-- The groups from one up to the root. -/
inductive Path (mem : Memory) : Option ℕ → List ℕ → Prop where
  | root : Path mem none []
  | up {group : ℕ} {path : List ℕ} (h : Path mem (mem.get group).parent path) :
      Path mem (some group) (group :: path)

/-- The parameter that a key is set to in the nearest of the groups. -/
def setting (mem : Memory) (path : List ℕ) (key : List UInt8) : Option config_parameter :=
  path.findSome? (mem.slot · key)

/-- A group comes behind its parent. -/
structure Tree (mem : Memory) : Prop where
  root : 0 < mem.length
  parent : ∀ p q, (mem.get p).parent = some q → q < p

theorem get_of_length_le (h : mem.length ≤ p) : mem.get p = default := by
  rw [Memory.get, List.getD_eq_default _ _ h]

theorem lt_of_slot (h : mem.slot p key = some param) : p < mem.length := by
  by_contra hle
  rw [Memory.slot, get_of_length_le (by omega)] at h
  cases h

theorem Path.congr (hparent : ∀ p, (mem'.get p).parent = (mem.get p).parent) {start : Option ℕ}
    (h : Path mem start path) : Path mem' start path := by
  induction h with
  | root => exact .root
  | up _ ih =>
    rw [← hparent] at ih
    exact .up ih

theorem Path.unique {path' : List ℕ} {start : Option ℕ} (h : Path mem start path)
    (h' : Path mem start path') : path = path' := by
  induction h generalizing path' with
  | root =>
    cases h'
    rfl
  | up _ ih =>
    cases h' with
    | up h' => rw [ih h']

theorem Tree.exists_path (h : Tree mem) (group : ℕ) :
    ∃ path, Path mem (some group) path ∧ path.length ≤ mem.length := by
  have hinside : ∀ group, ∃ path, Path mem (some group) path ∧ path.length ≤ group + 1 := by
    intro group
    induction group using Nat.strong_induction_on with
    | _ group ih =>
      cases hparent : (mem.get group).parent with
      | none => exact ⟨[group], .up (hparent ▸ .root), by simp⟩
      | some parent =>
        have hlt := h.parent _ _ hparent
        obtain ⟨path, hpath, hlen⟩ := ih parent hlt
        exact ⟨group :: path, .up (hparent ▸ hpath), by simpa using hlen.trans hlt⟩
  by_cases hgroup : group < mem.length
  · obtain ⟨path, hpath, hlen⟩ := hinside group
    exact ⟨path, hpath, by omega⟩
  · have hparent : (mem.get group).parent = none := by
      rw [get_of_length_le (by omega)]
      rfl
    exact ⟨[group], .up (hparent ▸ .root), h.root⟩

theorem length_store : (mem.store p param).length = mem.length := List.length_modify ..

theorem parent_store (hp : p < mem.length) (q : ℕ) :
    ((mem.store p param).get q).parent = (mem.get q).parent := by
  rw [Memory.store, get_modify _ _ hp]
  split <;> rfl

theorem find?_store (params : List config_parameter) (key : List UInt8) :
    (params.map fun p => if p.key = param.key then param else p).find? (·.key = key) =
      if key = param.key then (params.find? (·.key = key)).map fun _ => param
      else params.find? (·.key = key) := by
  induction params with
  | nil => simp
  | cons p params ih =>
    rw [List.map_cons, List.find?_cons, List.find?_cons, ih]
    by_cases hkey : key = param.key
    · subst hkey
      by_cases hp : p.key = param.key <;> simp [hp]
    · by_cases hp : p.key = param.key
      · have hne : ¬ param.key = key := fun heq => hkey heq.symm
        simp [hp, hkey, hne]
      · simp [hp, hkey]

/-- A parameter that is stored is found by its key, and no other is changed. -/
theorem slot_store (hp : p < mem.length) (q : ℕ) (key : List UInt8) :
    (mem.store p param).slot q key =
      if q = p ∧ key = param.key then (mem.slot q key).map fun _ => param else mem.slot q key := by
  rw [Memory.slot, Memory.store, get_modify _ _ hp]
  by_cases hq : q = p
  · subst hq
    simp only [if_true, true_and]
    exact find?_store _ _
  · rw [if_neg (Ne.symm hq), if_neg (by simp [hq])]
    rfl

theorem setting_eq (mem : Memory) (path : List ℕ) (key : List UInt8) : setting mem path key =
    (path.find? fun p => (mem.slot p key).isSome).bind (mem.slot · key) := by
  induction path with
  | nil => rfl
  | cons q path ih =>
    rw [setting, List.findSome?_cons, List.find?_cons]
    cases hslot : mem.slot q key with
    | none => exact ih
    | some param => exact hslot.symm

/-- A lookup: what it finds is converted, and nothing else is changed. -/
structure Found (strtod : List UInt8 → UInt64 × Bool) (mem : Memory) (path : List ℕ)
    (request : Request) (result : Option Value) (mem' : Memory) : Prop where
  result : result = (setting mem path request.key).bind fun param =>
    (request.kind.convert strtod param).1
  length : mem'.length = mem.length
  parent : ∀ p, (mem'.get p).parent = (mem.get p).parent
  slot : ∀ q key, mem'.slot q key =
    if path.find? (fun p => (mem.slot p request.key).isSome) = some q ∧ key = request.key then
      (mem.slot q key).map fun param => (request.kind.convert strtod param).2
    else mem.slot q key

/-- The parameter that is found stays the nearest. -/
theorem Found.setting {result : Option Value} (h : Found strtod mem path request result mem') :
    setting mem' path request.key = (setting mem path request.key).map fun param =>
      (request.kind.convert strtod param).2 := by
  have hisSome : ∀ q, (mem'.slot q request.key).isSome = (mem.slot q request.key).isSome := by
    intro q
    rw [h.slot]
    split <;> simp
  rw [setting_eq, setting_eq]
  simp only [hisSome]
  cases hplace : path.find? fun p => (mem.slot p request.key).isSome with
  | none => rfl
  | some q =>
    simp only [Option.bind_some]
    rw [h.slot, if_pos ⟨hplace, rfl⟩]

theorem parameterLoop_spec {start : Option ℕ} (h : Path mem start path) (key : List UInt8)
    (kind : Kind) {fuel : ℕ} (hfuel : path.length ≤ fuel) :
    Found strtod mem path ⟨group, key, kind⟩
      (parameterLoop mem key (kind.convert strtod) fuel start).1
      (parameterLoop mem key (kind.convert strtod) fuel start).2 := by
  induction h generalizing fuel with
  | root =>
    rw [parameterLoop]
    exact ⟨rfl, rfl, fun _ => rfl, by simp⟩
  | @up current path h ih =>
    obtain ⟨fuel, rfl⟩ : ∃ k, fuel = k + 1 := ⟨fuel - 1, by simp at hfuel; omega⟩
    rw [parameterLoop]
    cases hslot : mem.slot current key with
    | none =>
      obtain ⟨hresult, hlength, hparent, hslots⟩ := ih (by simpa using hfuel)
      refine ⟨?_, hlength, hparent, fun q key' => ?_⟩
      · rw [hresult]
        simp only [setting, List.findSome?_cons, hslot]
      · rw [hslots]
        simp only [List.find?_cons, hslot, Option.isSome_none]
    | some param =>
      have hkey : param.key = key := by simpa using List.find?_some hslot
      simp only
      split
      · rename_i hinvalid
        have hmarked := @convert_marked strtod kind param (by simp [hinvalid])
        have hkind : ¬ param.type = kind.type := by
          rw [hinvalid]
          cases kind <;> exact nofun
        rw [if_neg hkind] at hmarked
        refine ⟨?_, rfl, fun _ => rfl, fun q key' => ?_⟩
        · simp [setting, hslot, hmarked]
        · split
          · rename_i heq
            obtain ⟨hq, rfl⟩ := heq
            simp only [List.find?_cons, hslot, Option.isSome_some, Option.some.injEq] at hq
            subst hq
            simp [hslot, hmarked]
          · rfl
      · refine ⟨?_, length_store, parent_store (lt_of_slot hslot), fun q key' => ?_⟩
        · simp [setting, hslot]
        · rw [slot_store (lt_of_slot hslot), convert_keeps.1, hkey]
          simp only [List.find?_cons, hslot, Option.isSome_some, Option.some.injEq,
            eq_comm (a := q)]
          split
          · rename_i heq
            obtain ⟨rfl, rfl⟩ := heq
            simp [hslot]
          · rfl

theorem lookup_spec (h : Path mem (some request.group) path) (hlen : path.length ≤ mem.length) :
    Found strtod mem path request (lookup strtod mem request).1 (lookup strtod mem request).2 := by
  rw [lookup_eq]
  exact parameterLoop_spec h request.key request.kind hlen

/-- What a lookup does to the parameter of a key in a group: it is converted, or not changed. -/
theorem lookup_slot (h : Tree mem) (request : Request) (q : ℕ) (key : List UInt8) :
    (lookup strtod mem request).2.slot q key = mem.slot q key ∨
    ∃ kind : Kind, (lookup strtod mem request).2.slot q key =
      (mem.slot q key).map fun param => (kind.convert strtod param).2 := by
  obtain ⟨path, hpath, hlen⟩ := h.exists_path request.group
  have hslot := (@lookup_spec strtod _ _ request hpath hlen).slot q key
  split at hslot
  · exact .inr ⟨_, hslot⟩
  · exact .inl hslot

/-- The groups are where they were. -/
structure SameTree (mem mem' : Memory) : Prop where
  length : mem'.length = mem.length
  parent : ∀ p, (mem'.get p).parent = (mem.get p).parent

theorem SameTree.trans {mem'' : Memory} (h : SameTree mem mem') (h' : SameTree mem' mem'') :
    SameTree mem mem'' :=
  ⟨h'.length.trans h.length, fun p => (h'.parent p).trans (h.parent p)⟩

theorem SameTree.tree (hsame : SameTree mem mem') (h : Tree mem) : Tree mem' where
  root := by
    rw [hsame.length]
    exact h.root
  parent p q hpq := by
    rw [hsame.parent] at hpq
    exact h.parent p q hpq

theorem lookup_same (h : Tree mem) (request : Request) :
    SameTree mem (lookup strtod mem request).2 := by
  obtain ⟨path, hpath, hlen⟩ := h.exists_path request.group
  have hfound := @lookup_spec strtod _ _ request hpath hlen
  exact ⟨hfound.length, hfound.parent⟩

theorem lookups_cons : lookups strtod mem (request :: requests) =
    lookups strtod (lookup strtod mem request).2 requests := rfl

theorem lookups_same (h : Tree mem) (requests : List Request) :
    SameTree mem (lookups strtod mem requests) := by
  induction requests generalizing mem with
  | nil => exact ⟨rfl, fun _ => rfl⟩
  | cons request requests ih =>
    have hsame := @lookup_same strtod mem h request
    exact hsame.trans (ih (hsame.tree h))

/-- What each conversion keeps of a parameter, all lookups keep of it. -/
theorem lookups_slot {P : config_parameter → Prop}
    (hP : ∀ (kind : Kind) param, P param → P (kind.convert strtod param).2) (h : Tree mem)
    (requests : List Request) (hslot : mem.slot q key = some param) (hparam : P param) :
    ∃ param', (lookups strtod mem requests).slot q key = some param' ∧ P param' := by
  induction requests generalizing mem param with
  | nil => exact ⟨param, hslot, hparam⟩
  | cons request requests ih =>
    have htree := (@lookup_same strtod mem h request).tree h
    obtain hsame | ⟨kind, hconverted⟩ := @lookup_slot strtod mem h request q key
    · exact ih htree (hsame.trans hslot) hparam
    · rw [hslot] at hconverted
      exact ih htree hconverted (hP kind param hparam)

/-- No lookup sets a key. -/
theorem lookups_slot_none (h : Tree mem) (requests : List Request) (hslot : mem.slot q key = none) :
    (lookups strtod mem requests).slot q key = none := by
  induction requests generalizing mem with
  | nil => exact hslot
  | cons request requests ih =>
    refine ih ((@lookup_same strtod mem h request).tree h) ?_
    obtain hsame | ⟨kind, hconverted⟩ := @lookup_slot strtod mem h request q key
    · exact hsame.trans hslot
    · rw [hconverted, hslot]
      rfl

/-- The nearest group with a key stays the nearest. -/
theorem setting_lookups {P : config_parameter → Prop}
    (hP : ∀ (kind : Kind) param, P param → P (kind.convert strtod param).2) (h : Tree mem)
    (requests : List Request) :
    (setting mem path key = none → setting (lookups strtod mem requests) path key = none) ∧
      ∀ param, setting mem path key = some param → P param →
        ∃ param', setting (lookups strtod mem requests) path key = some param' ∧ P param' := by
  induction path with
  | nil => exact ⟨fun _ => rfl, nofun⟩
  | cons q path ih =>
    simp only [setting, List.findSome?_cons] at ih ⊢
    cases hslot : mem.slot q key with
    | none =>
      rw [lookups_slot_none h requests hslot]
      exact ih
    | some param =>
      refine ⟨nofun, fun nearest heq hparam => ?_⟩
      obtain rfl : param = nearest := Option.some.inj heq
      obtain ⟨param', hslot', hparam'⟩ := lookups_slot hP h requests hslot hparam
      exact ⟨param', by rw [hslot'], hparam'⟩

/-! ## A lookup that is made once more -/

/-- A lookup of a type has this result, and goes on to have it. -/
def Answers (strtod : List UInt8 → UInt64 × Bool) (kind : Kind) (result : Option Value)
    (param : config_parameter) : Prop :=
  (kind.convert strtod param).1 = result ∧ (param.type = .VALUE_UNKNOWN → result = none)

theorem kind_type_ne (kind : Kind) : kind.type ≠ .VALUE_UNKNOWN ∧ kind.type ≠ .VALUE_INVALID := by
  cases kind <;> exact ⟨nofun, nofun⟩

theorem kind_type_inj {kind kind' : Kind} (h : kind.type = kind'.type) : kind = kind' := by
  cases kind <;> cases kind' <;> first | rfl | exact nomatch h

theorem Answers.convert {result : Option Value} (h : Answers strtod kind result param)
    (kind' : Kind) : Answers strtod kind result (kind'.convert strtod param).2 := by
  obtain ⟨hresult, hunknown⟩ := h
  by_cases htype : param.type = .VALUE_UNKNOWN
  · obtain rfl := hunknown htype
    obtain ⟨hread, -, -⟩ := @convert_fresh strtod kind param htype
    obtain ⟨-, hsome, hnone⟩ := @convert_fresh strtod kind' param htype
    rw [hresult] at hread
    refine ⟨?_, fun _ => rfl⟩
    cases hread' : reads strtod kind' param.raw with
    | some value =>
      rw [hsome value hread', convert_marked (kind_type_ne kind').1]
      refine if_neg fun heq => ?_
      rw [kind_type_inj heq, ← hread] at hread'
      cases hread'
    | none =>
      obtain ⟨value, hvalue⟩ := hnone hread'
      rw [hvalue]
      by_cases hboolean : kind' = .boolean
      · rw [if_pos hboolean, convert_marked (by exact nofun)]
        exact if_neg (Ne.symm (kind_type_ne kind).2)
      · rw [if_neg hboolean, (convert_fresh rfl).1]
        exact hread.symm
  · rw [convert_marked htype]
    exact ⟨hresult, hunknown⟩

/-- What a lookup returns once. -/
theorem answers_convert (kind : Kind) (param : config_parameter) :
    Answers strtod kind (kind.convert strtod param).1 (kind.convert strtod param).2 := by
  by_cases htype : param.type = .VALUE_UNKNOWN
  · obtain ⟨hread, hsome, hnone⟩ := @convert_fresh strtod kind param htype
    cases hread' : reads strtod kind param.raw with
    | some value =>
      rw [hread, hread', hsome value hread']
      refine ⟨?_, fun heq => absurd heq (kind_type_ne kind).1⟩
      rw [convert_marked (kind_type_ne kind).1]
      exact if_pos rfl
    | none =>
      have hresult : Answers strtod kind (kind.convert strtod param).1 param :=
        ⟨rfl, fun _ => hread.trans hread'⟩
      exact hresult.convert kind
  · rw [convert_marked htype]
    exact ⟨by rw [convert_marked htype], fun heq => absurd heq htype⟩

/-- A lookup that is made once more returns the same, whatever is looked up in between. -/
theorem lookup_again (h : Tree mem) (request : Request) (between : List Request) :
    (lookup strtod (lookups strtod mem (request :: between)) request).1 =
      (lookup strtod mem request).1 := by
  obtain ⟨path, hpath, hlen⟩ := h.exists_path request.group
  have hfound := @lookup_spec strtod _ _ request hpath hlen
  have hsame := @lookup_same strtod mem h request
  have hsame' := hsame.trans (@lookups_same strtod _ (hsame.tree h) between)
  have hagain := @lookup_spec strtod _ _ request (hpath.congr hsame'.parent)
    (hlen.trans hsame'.length.ge)
  rw [lookups_cons, hagain.result, hfound.result]
  cases hsetting : setting mem path request.key with
  | none =>
    have hkept := (@setting_lookups strtod _ request.key path (fun _ => True)
      (fun _ _ _ => trivial) (hsame.tree h) between).1
    rw [hfound.setting, hsetting] at hkept
    rw [hkept rfl]
  | some param =>
    have hkept := (@setting_lookups strtod _ request.key path
      (Answers strtod request.kind (request.kind.convert strtod param).1)
      (fun kind _ hparam => hparam.convert kind) (hsame.tree h) between).2
    rw [hfound.setting, hsetting] at hkept
    obtain ⟨param', hsetting', hanswers⟩ := hkept _ rfl (answers_convert _ _)
    rw [hsetting']
    exact hanswers.1

/-! ## A number that is not to be had -/

/-- Parameters that only differ by what the union of one that is not read yet holds. -/
structure SameParameter (param param' : config_parameter) : Prop where
  key : param'.key = param.key
  raw_value : param'.raw_value = param.raw_value
  type : param'.type = param.type
  value : param'.value = param.value ∨ param.type = .VALUE_UNKNOWN ∨ param.type = .VALUE_INVALID

theorem SameParameter.convert {param' : config_parameter} (h : SameParameter param param')
    (kind : Kind) : (kind.convert strtod param').1 = (kind.convert strtod param).1 ∧
      SameParameter (kind.convert strtod param).2 (kind.convert strtod param').2 := by
  obtain ⟨hkey, hraw, htype, hvalue⟩ := h
  by_cases hunknown : param.type = .VALUE_UNKNOWN
  · obtain ⟨hread, hsome, hnone⟩ := @convert_fresh strtod kind param hunknown
    obtain ⟨hread', hsome', hnone'⟩ := @convert_fresh strtod kind param' (htype.trans hunknown)
    have hraw' : param'.raw = param.raw := by rw [config_parameter.raw, hraw, config_parameter.raw]
    rw [hraw'] at hread' hsome' hnone'
    refine ⟨hread'.trans hread.symm, ?_⟩
    cases hvalue : reads strtod kind param.raw with
    | some value =>
      rw [hsome value hvalue, hsome' value hvalue]
      exact ⟨hkey, hraw, rfl, .inl rfl⟩
    | none =>
      obtain ⟨value, hfail⟩ := hnone hvalue
      obtain ⟨value', hfail'⟩ := hnone' hvalue
      rw [hfail, hfail']
      refine ⟨hkey, hraw, rfl, .inr ?_⟩
      by_cases hboolean : kind = .boolean
      · exact .inr (if_pos hboolean)
      · exact .inl (if_neg hboolean)
  · rw [convert_marked hunknown, convert_marked (htype ▸ hunknown)]
    refine ⟨?_, hkey, hraw, htype, hvalue⟩
    rw [htype]
    split
    · rename_i heq
      obtain hvalue | hvalue | hvalue := hvalue
      · rw [hvalue]
      · exact absurd hvalue hunknown
      · exact absurd (heq.symm.trans hvalue) (kind_type_ne kind).2
    · rfl

section Rel

variable {α β : Type} {R : α → α → Prop} {a b : Option α}

theorem rel_isSome (h : Option.Rel R a b) : b.isSome = a.isSome := by
  cases h <;> rfl

theorem rel_map {f g : α → α} (hfg : ∀ x y, R x y → R (f x) (g y)) (h : Option.Rel R a b) :
    Option.Rel R (a.map f) (b.map g) := by
  cases h with
  | none => exact .none
  | some h => exact .some (hfg _ _ h)

theorem rel_bind {f g : α → Option β} (hfg : ∀ x y, R x y → g y = f x) (h : Option.Rel R a b) :
    b.bind g = a.bind f := by
  cases h with
  | none => rfl
  | some h => exact hfg _ _ h

end Rel

/-- Trees whose parameters only differ so. -/
structure Alike (mem mem' : Memory) : Prop extends SameTree mem mem' where
  slot : ∀ q key, Option.Rel SameParameter (mem.slot q key) (mem'.slot q key)

theorem Alike.setting (h : Alike mem mem') (path : List ℕ) (key : List UInt8) :
    Option.Rel SameParameter (setting mem path key) (setting mem' path key) := by
  rw [setting_eq, setting_eq]
  simp only [fun q => rel_isSome (h.slot q key)]
  cases path.find? fun p => (mem.slot p key).isSome with
  | none => exact .none
  | some q => exact h.slot q key

/-- A lookup returns the same in both, and keeps them so. -/
theorem Alike.lookup (halike : Alike mem mem') (h : Tree mem) (request : Request) :
    (lookup strtod mem' request).1 = (lookup strtod mem request).1 ∧
      Alike (lookup strtod mem request).2 (lookup strtod mem' request).2 := by
  obtain ⟨path, hpath, hlen⟩ := h.exists_path request.group
  have hfound := @lookup_spec strtod _ _ request hpath hlen
  have hfound' := @lookup_spec strtod _ _ request (hpath.congr halike.parent)
    (hlen.trans halike.length.ge)
  refine ⟨?_, ⟨?_, fun p => ?_⟩, fun q key => ?_⟩
  · rw [hfound.result, hfound'.result]
    exact rel_bind (fun _ _ hparam => (hparam.convert request.kind).1)
      (halike.setting path request.key)
  · rw [hfound.length, hfound'.length, halike.length]
  · rw [hfound.parent, hfound'.parent, halike.parent]
  · rw [hfound.slot, hfound'.slot]
    simp only [fun q => rel_isSome (halike.slot q request.key)]
    split
    · exact rel_map (fun _ _ hparam => (hparam.convert request.kind).2) (halike.slot q key)
    · exact halike.slot q key

theorem Alike.lookups (halike : Alike mem mem') (h : Tree mem) (requests : List Request) :
    Alike (lookups strtod mem requests) (lookups strtod mem' requests) := by
  induction requests generalizing mem mem' with
  | nil => exact halike
  | cons request requests ih =>
    exact ih (halike.lookup h request).2 ((lookup_same h request).tree h)

/-- A number that is not to be had has changed nothing. -/
theorem lookups_alike (h : Tree mem) (hkind : request.kind ≠ .boolean)
    (hfail : (lookup strtod mem request).1 = none) : Alike mem (lookup strtod mem request).2 := by
  obtain ⟨path, hpath, hlen⟩ := h.exists_path request.group
  have hfound := @lookup_spec strtod _ _ request hpath hlen
  refine ⟨lookup_same h request, fun q key => ?_⟩
  have hrefl : ∀ param, SameParameter param param := fun param => ⟨rfl, rfl, rfl, .inl rfl⟩
  rw [hfound.slot]
  split
  · rename_i heq
    obtain ⟨hplace, rfl⟩ := heq
    rw [hfound.result, setting_eq, hplace] at hfail
    simp only [Option.bind_some] at hfail
    cases hslot : mem.slot q request.key with
    | none => exact .none
    | some param =>
      rw [hslot] at hfail
      refine .some ?_
      beta_reduce
      by_cases htype : param.type = .VALUE_UNKNOWN
      · obtain ⟨hread, -, hnone⟩ := @convert_fresh strtod request.kind param htype
        obtain ⟨value, hvalue⟩ := hnone (hread.symm.trans hfail)
        rw [hvalue, if_neg hkind]
        exact ⟨rfl, rfl, htype.symm, .inr (.inl htype)⟩
      · rw [convert_marked htype]
        exact hrefl param
  · cases mem.slot q key with
    | none => exact .none
    | some param => exact .some (hrefl param)

end Lookups

/-! ## Numbers -/

section Numbers

variable {strtod : List UInt8 → UInt64 × Bool} {kind : Kind} {param : config_parameter}
  {text raw : List UInt8}

/-- `1*DIGIT`. -/
structure Digits (text : List UInt8) : Prop where
  ne_nil : text ≠ []
  digits : ∀ c ∈ text, IsDigit c

/-- `["-"] 1*DIGIT`, and the number it is. -/
inductive Integer : List UInt8 → ℤ → Prop where
  | plain {text : List UInt8} (h : Digits text) : Integer text (decimalValue text)
  | minus {text : List UInt8} (h : Digits text) : Integer (45 :: text) (-decimalValue text)

/-- The raw text is an integer that fits the type of the lookup. -/
inductive IsNumber : Kind → List UInt8 → Value → Prop where
  | signed {text : List UInt8} {n : ℤ} (h : Integer text n) (hmin : LONG_MIN ≤ n)
      (hmax : n ≤ LONG_MAX) : IsNumber .signed_number text (.signed_number n)
  | unsigned {text : List UInt8} (h : Digits text) (hmax : decimalValue text ≤ ULONG_MAX) :
      IsNumber .unsigned_number text (.unsigned_number (decimalValue text))

/-- The raw text is empty, or a sign alone. -/
def NoDigit (kind : Kind) (raw : List UInt8) : Prop :=
  raw = [] ∨ kind = .signed_number ∧ raw = [45]

theorem strtoDigits_digits (h : ∀ c ∈ text, IsDigit c) :
    strtoDigits text = (false, decimalValue text) := by
  have hhead : ∀ c, text.head? = some c → isspace c = false ∧ c ≠ 43 ∧ c ≠ 45 := by
    intro c hc
    obtain ⟨hmin, hmax⟩ := h c (List.mem_of_head? hc)
    have hne : ∀ b : UInt8, b.toNat < 48 → c ≠ b := by
      rintro b hb rfl
      omega
    refine ⟨?_, hne _ (by decide), hne _ (by decide)⟩
    have hspace : ¬ c ≤ 13 := by
      rw [UInt8.le_iff_toNat_le]
      exact fun hle => absurd (hmin.trans hle) (by decide)
    simp [isspace, hne 32 (by decide), hspace]
  have hspace : text.dropWhile isspace = text := by
    cases text with
    | nil => rfl
    | cons c text => rw [List.dropWhile_cons_of_neg (by simp [(hhead c rfl).1])]
  have hsign : ∀ b, (b = 43 ∨ b = 45) → text.head? ≠ some b := by
    rintro b (rfl | rfl) hc
    · exact (hhead _ hc).2.1 rfl
    · exact (hhead _ hc).2.2 rfl
  have hall : text.takeWhile (fun c => IsDigit c) = text := by
    rw [List.takeWhile_eq_self_iff]
    simpa using h
  simp [strtoDigits, hspace, hsign, hall]

theorem strtoDigits_minus (h : ∀ c ∈ text, IsDigit c) :
    strtoDigits (45 :: text) = (true, decimalValue text) := by
  have hspace : isspace 45 = false := by decide
  have hall : text.takeWhile (fun c => IsDigit c) = text := by
    rw [List.takeWhile_eq_self_iff]
    simpa using h
  simp [strtoDigits, hspace, hall]

theorem dropDigits_eq_nil : text.dropWhile (fun c => IsDigit c) = [] ↔ ∀ c ∈ text, IsDigit c := by
  simp [List.dropWhile_eq_nil_iff]

theorem Digits.head_ne_minus (h : Digits text) : text.head? ≠ some 45 := by
  intro hc
  exact absurd (h.digits 45 (List.mem_of_head? hc)) (by decide)

theorem strtol_digits (h : ∀ c ∈ text, IsDigit c) : strtol text =
    if LONG_MAX < decimalValue text then (LONG_MAX, true)
    else ((decimalValue text : ℤ), false) := by
  have hmin : ¬ (decimalValue text : ℤ) < LONG_MIN := by
    rw [LONG_MIN]
    omega
  simp [strtol, strtoDigits_digits h, hmin]

theorem strtol_minus (h : ∀ c ∈ text, IsDigit c) : strtol (45 :: text) =
    if -(decimalValue text : ℤ) < LONG_MIN then (LONG_MIN, true)
    else (-(decimalValue text : ℤ), false) := by
  have hmax : ¬ LONG_MAX < -(decimalValue text : ℤ) := by
    rw [LONG_MAX]
    omega
  simp [strtol, strtoDigits_minus h, hmax]

theorem strtoul_digits (h : ∀ c ∈ text, IsDigit c) : strtoul text =
    if ULONG_MAX < decimalValue text then (ULONG_MAX, true) else (decimalValue text, false) := by
  simp [strtoul, strtoDigits_digits h]

/-- An unsigned number is read as what it is. -/
theorem reads_unsigned (hraw : raw ≠ []) (value : Value) :
    reads strtod .unsigned_number raw = some value ↔ IsNumber .unsigned_number raw value := by
  have hnumber : IsNumber .unsigned_number raw value ↔ Digits raw ∧ decimalValue raw ≤ ULONG_MAX ∧
      value = .unsigned_number (decimalValue raw) := by
    constructor
    · rintro ⟨⟩
      exact ⟨‹_›, ‹_›, rfl⟩
    · rintro ⟨hdigits, hmax, rfl⟩
      exact .unsigned hdigits hmax
  rw [hnumber]
  simp only [reads, ne_eq, dropDigits_eq_nil]
  by_cases hdigits : ∀ c ∈ raw, IsDigit c
  · have hall : Digits raw := ⟨hraw, hdigits⟩
    rw [if_neg hall.head_ne_minus, if_neg (not_not.mpr hdigits), strtoul_digits hdigits]
    by_cases hmax : ULONG_MAX < decimalValue raw
    · rw [if_pos hmax, if_pos rfl]
      exact iff_of_false nofun fun h => absurd h.2.1 (by omega)
    · rw [if_neg hmax, if_neg nofun, Option.some.injEq, eq_comm]
      exact ⟨fun h => ⟨hall, by omega, h⟩, fun h => h.2.2⟩
  · rw [if_pos hdigits, ite_self]
    exact iff_of_false nofun fun h => hdigits h.1.digits

theorem isNumber_minus {value : Value} : IsNumber .signed_number (45 :: text) value ↔
    Digits text ∧ LONG_MIN ≤ -(decimalValue text : ℤ) ∧
      value = .signed_number (-decimalValue text) := by
  constructor
  · intro h
    cases h with
    | signed h hmin =>
      cases h with
      | plain h => exact absurd rfl h.head_ne_minus
      | minus h => exact ⟨h, hmin, rfl⟩
  · rintro ⟨hdigits, hmin, rfl⟩
    refine .signed (.minus hdigits) hmin ?_
    rw [LONG_MAX]
    omega

theorem isNumber_plain {value : Value} (hplain : raw.head? ≠ some 45) :
    IsNumber .signed_number raw value ↔ Digits raw ∧ (decimalValue raw : ℤ) ≤ LONG_MAX ∧
      value = .signed_number (decimalValue raw) := by
  constructor
  · intro h
    cases h with
    | signed h _ hmax =>
      cases h with
      | plain h => exact ⟨h, hmax, rfl⟩
      | minus h => exact absurd rfl hplain
  · rintro ⟨hdigits, hmax, rfl⟩
    refine .signed (.plain hdigits) ?_ hmax
    rw [LONG_MIN]
    omega

/-- A signed number is read as what it is. -/
theorem reads_signed (hraw : raw ≠ []) (hsign : raw ≠ [45]) (value : Value) :
    reads strtod .signed_number raw = some value ↔ IsNumber .signed_number raw value := by
  simp only [reads, ne_eq, dropDigits_eq_nil]
  by_cases hminus : raw.head? = some 45
  · obtain ⟨ds, rfl⟩ : ∃ ds, raw = 45 :: ds := ⟨raw.tail, List.eq_cons_of_mem_head? hminus⟩
    rw [isNumber_minus, if_pos hminus, List.tail_cons]
    by_cases hdigits : ∀ c ∈ ds, IsDigit c
    · have hall : Digits ds := ⟨fun h => hsign (by rw [h]), hdigits⟩
      rw [if_neg (not_not.mpr hdigits), strtol_minus hdigits]
      by_cases hmin : -(decimalValue ds : ℤ) < LONG_MIN
      · rw [if_pos hmin, if_pos rfl]
        exact iff_of_false nofun fun h => absurd h.2.1 (by omega)
      · rw [if_neg hmin, if_neg nofun, Option.some.injEq, eq_comm]
        exact ⟨fun h => ⟨hall, by omega, h⟩, fun h => h.2.2⟩
    · rw [if_pos hdigits]
      exact iff_of_false nofun fun h => hdigits h.1.digits
  · rw [isNumber_plain hminus, if_neg hminus]
    by_cases hdigits : ∀ c ∈ raw, IsDigit c
    · have hall : Digits raw := ⟨hraw, hdigits⟩
      rw [if_neg (not_not.mpr hdigits), strtol_digits hdigits]
      by_cases hmax : LONG_MAX < (decimalValue raw : ℤ)
      · rw [if_pos hmax, if_pos rfl]
        exact iff_of_false nofun fun h => absurd h.2.1 (by omega)
      · rw [if_neg hmax, if_neg nofun, Option.some.injEq, eq_comm]
        exact ⟨fun h => ⟨hall, by omega, h⟩, fun h => h.2.2⟩
    · rw [if_pos hdigits]
      exact iff_of_false nofun fun h => hdigits h.1.digits

/-- The text of a number has a digit. -/
theorem IsNumber.not_noDigit {value : Value} (h : IsNumber kind raw value) :
    ¬ NoDigit kind raw := by
  intro hno
  cases h with
  | signed h =>
    cases h with
    | plain h =>
      obtain hnil | ⟨-, hsign⟩ := hno
      · exact h.ne_nil hnil
      · exact h.head_ne_minus (by rw [hsign]; rfl)
    | minus h =>
      obtain hnil | ⟨-, hsign⟩ := hno
      · cases hnil
      · exact h.ne_nil (List.cons.inj hsign).2
  | unsigned h =>
    obtain hnil | ⟨hkind, -⟩ := hno
    · exact h.ne_nil hnil
    · cases hkind

/-- Where there is no digit, the number is 0. -/
theorem reads_noDigit (hkind : kind = .signed_number ∨ kind = .unsigned_number)
    (h : NoDigit kind raw) : ∃ value, reads strtod kind raw = some value := by
  obtain rfl | rfl := hkind
  · obtain rfl | ⟨-, rfl⟩ := h
    · exact ⟨.signed_number 0, rfl⟩
    · exact ⟨.signed_number 0, rfl⟩
  · obtain rfl | ⟨hkind, -⟩ := h
    · exact ⟨.unsigned_number 0, rfl⟩
    · cases hkind

/-- Where there is one, the text is read as what it is. -/
theorem reads_number (hkind : kind = .signed_number ∨ kind = .unsigned_number)
    (h : ¬ NoDigit kind raw) (value : Value) :
    reads strtod kind raw = some value ↔ IsNumber kind raw value := by
  have hraw : raw ≠ [] := fun hnil => h (.inl hnil)
  obtain rfl | rfl := hkind
  · exact reads_signed hraw (fun hsign => h (.inr ⟨rfl, hsign⟩)) value
  · exact reads_unsigned hraw value

end Numbers

/-! ## The parameters of a tree -/

section Sound

variable {strtod : List UInt8 → UInt64 × Bool} {mem mem' : Memory} {kind : Kind}
  {param : config_parameter} {group : ℕ} {path : List ℕ} {key : List UInt8}

/-- The mark of a parameter says what it has been read as. -/
inductive Sound (strtod : List UInt8 → UInt64 × Bool) (param : config_parameter) : Prop where
  | fresh (htype : param.type = .VALUE_UNKNOWN) (hraw : param.raw_value.isSome)
  | read {kind : Kind} (htype : param.type = kind.type) (hraw : param.raw_value.isSome)
      (hread : reads strtod kind param.raw = some param.value)
  | invalid (htype : param.type = .VALUE_INVALID)
  | list (htype : param.type = .VALUE_LIST) (hraw : param.raw_value = none)

theorem Sound.convert (h : Sound strtod param) (kind : Kind) :
    Sound strtod (kind.convert strtod param).2 := by
  by_cases htype : param.type = .VALUE_UNKNOWN
  · have hraw : param.raw_value.isSome := by
      cases h with
      | fresh _ hraw => exact hraw
      | read hread => exact absurd (hread.symm.trans htype) (kind_type_ne _).1
      | invalid hinvalid => exact nomatch hinvalid.symm.trans htype
      | list hlist => exact nomatch hlist.symm.trans htype
    obtain ⟨-, hsome, hnone⟩ := @convert_fresh strtod kind param htype
    cases hread : reads strtod kind param.raw with
    | some value =>
      rw [hsome value hread]
      exact .read rfl hraw hread
    | none =>
      obtain ⟨value, hvalue⟩ := hnone hread
      rw [hvalue]
      by_cases hboolean : kind = .boolean
      · exact .invalid (if_pos hboolean)
      · exact .fresh (if_neg hboolean) hraw
  · rw [convert_marked htype]
    exact h

/-- A number is read from a parameter that is not marked, or marked with its type. -/
theorem Sound.number (h : Sound strtod param)
    (hkind : kind = .signed_number ∨ kind = .unsigned_number) :
    (param.type = .VALUE_UNKNOWN ∨ param.type = kind.type → ∃ raw, param.raw_value = some raw ∧
      (kind.convert strtod param).1 = reads strtod kind raw) ∧
    (¬ (param.type = .VALUE_UNKNOWN ∨ param.type = kind.type) →
      (kind.convert strtod param).1 = none) := by
  have hraw_eq : ∀ raw, param.raw_value = some raw → param.raw = raw := by
    intro raw hraw
    rw [config_parameter.raw, hraw, Option.getD_some]
  by_cases htype : param.type = .VALUE_UNKNOWN
  · refine ⟨fun _ => ?_, fun hno => absurd (.inl htype) hno⟩
    cases h with
    | fresh _ hraw =>
      obtain ⟨raw, hraw⟩ := Option.isSome_iff_exists.mp hraw
      refine ⟨raw, hraw, ?_⟩
      rw [(convert_fresh htype).1, hraw_eq raw hraw]
    | read hread => exact absurd (hread.symm.trans htype) (kind_type_ne _).1
    | invalid hinvalid => exact nomatch hinvalid.symm.trans htype
    | list hlist => exact nomatch hlist.symm.trans htype
  · rw [convert_marked htype]
    refine ⟨fun hmark => ?_, fun hno => if_neg fun heq => hno (.inr heq)⟩
    obtain heq := hmark.resolve_left htype
    rw [if_pos heq]
    cases h with
    | fresh hfresh => exact absurd hfresh htype
    | read hread hraw hvalue =>
      obtain rfl := kind_type_inj (hread.symm.trans heq)
      obtain ⟨raw, hraw⟩ := Option.isSome_iff_exists.mp hraw
      exact ⟨raw, hraw, by rw [← hvalue, hraw_eq raw hraw]⟩
    | invalid hinvalid => exact absurd (heq.symm.trans hinvalid) (kind_type_ne kind).2
    | list hlist =>
      have hlist := heq.symm.trans hlist
      obtain rfl | rfl := hkind <;> cases hlist

/-- A number is to be had from the parameter: its text has a digit, where it is not marked or
marked with the type of the lookup, and is no number of the type where it is marked otherwise. -/
def Plain (kind : Kind) (param : config_parameter) (raw : List UInt8) : Prop :=
  (param.type = .VALUE_UNKNOWN ∨ param.type = kind.type → ¬ NoDigit kind raw) ∧
    (¬ (param.type = .VALUE_UNKNOWN ∨ param.type = kind.type) → ∀ value, ¬ IsNumber kind raw value)

theorem Sound.plain_iff (h : Sound strtod param)
    (hkind : kind = .signed_number ∨ kind = .unsigned_number) :
    (∀ value, (kind.convert strtod param).1 = some value ↔
      ∃ raw, param.raw_value = some raw ∧ IsNumber kind raw value) ↔
      ∀ raw, param.raw_value = some raw → Plain kind param raw := by
  obtain ⟨hread, hnone⟩ := h.number hkind
  by_cases hmark : param.type = .VALUE_UNKNOWN ∨ param.type = kind.type
  · obtain ⟨raw, hraw, hread⟩ := hread hmark
    rw [hread, hraw]
    constructor
    · rintro hvalues _ ⟨⟩
      refine ⟨fun _ hno => ?_, fun h => absurd hmark h⟩
      obtain ⟨value, hvalue⟩ := @reads_noDigit strtod _ _ hkind hno
      obtain ⟨_, ⟨⟩, hnumber⟩ := (hvalues value).mp hvalue
      exact hnumber.not_noDigit hno
    · intro hplain value
      rw [reads_number hkind ((hplain raw rfl).1 hmark)]
      exact ⟨fun hnumber => ⟨raw, rfl, hnumber⟩, fun ⟨_, hraw, hnumber⟩ =>
        Option.some.inj hraw ▸ hnumber⟩
  · rw [hnone hmark]
    constructor
    · intro hvalues raw hraw
      refine ⟨fun h => absurd h hmark, fun _ value hnumber => ?_⟩
      cases (hvalues value).mpr ⟨raw, hraw, hnumber⟩
    · intro hplain value
      refine iff_of_false nofun ?_
      rintro ⟨raw, hraw, hnumber⟩
      exact (hplain raw hraw).2 hmark value hnumber

end Sound

/-! ## The tree that was parsed -/

section Parsed

variable {files : List UInt8 → Option (List (Token × Bool))} {mem mem' mem₁ : Memory}
  {param : config_parameter} {group parent : ℕ} {g : config_group}

/-- A parameter as the parser leaves it. -/
def New (param : config_parameter) : Prop :=
  param.type = .VALUE_UNKNOWN ∧ param.raw_value.isSome ∨
    param.type = .VALUE_LIST ∧ param.raw_value = none

/-- A tree as the parser leaves it. -/
structure Whole (mem : Memory) : Prop extends Tree mem where
  params : ∀ p, ∀ param ∈ (mem.get p).params, New param

theorem Whole.modify (h : Whole mem) {f : config_group → config_group}
    (hparent : (f (mem.get group)).parent = (mem.get group).parent)
    (hparams : ∀ param ∈ (f (mem.get group)).params, New param) : Whole (mem.modify group f) := by
  by_cases hgroup : group < mem.length
  · refine ⟨⟨by rw [List.length_modify]; exact h.root, fun p q hpq => ?_⟩, fun p param hparam => ?_⟩
    · rw [get_modify _ _ hgroup] at hpq
      split at hpq
      · rename_i heq
        subst heq
        exact h.parent _ q (hparent ▸ hpq)
      · exact h.parent p q hpq
    · rw [get_modify _ _ hgroup] at hparam
      split at hparam
      · rename_i heq
        subst heq
        exact hparams param hparam
      · exact h.params p param hparam
  · rwa [List.modify_eq_self (by omega)]

theorem Whole.insertParameter (h : Whole mem) (hparam : New param) :
    Whole (insertParameter mem group param) := by
  refine h.modify ?_ ?_
  · split <;> rfl
  · split
    · exact h.params group
    · intro p hp
      obtain hp | rfl := (List.mem_append.mp hp).imp_right List.mem_singleton.mp
      · exact h.params group p hp
      · exact hparam

theorem Whole.append (h : Whole mem) (hparent : g.parent = some parent) (hlt : parent < mem.length)
    (hparams : g.params = []) : Whole (mem ++ [g]) := by
  have hget : ∀ p, Memory.get (mem ++ [g]) p = mem.get p ∨
      p = mem.length ∧ Memory.get (mem ++ [g]) p = g := by
    intro p
    rw [Memory.get, Memory.get, List.getD_eq_getElem?_getD, List.getD_eq_getElem?_getD]
    by_cases hp : p < mem.length
    · rw [List.getElem?_append_left hp]
      exact .inl rfl
    · by_cases heq : p = mem.length
      · subst heq
        exact .inr ⟨rfl, by simp⟩
      · refine .inl ?_
        rw [List.getElem?_eq_none (by simp; omega), List.getElem?_eq_none (by omega)]
  refine ⟨⟨by simp, fun p q hpq => ?_⟩, fun p param hparam => ?_⟩
  · obtain hold | ⟨rfl, hnew⟩ := hget p
    · exact h.parent p q (hold ▸ hpq)
    · rw [hnew, hparent] at hpq
      exact Option.some.inj hpq ▸ hlt
  · obtain hold | ⟨-, hnew⟩ := hget p
    · exact h.params p param (hold ▸ hparam)
    · rw [hnew, hparams] at hparam
      cases hparam

/-- What is parsed with success is whole, and no group is lost. -/
def KeepsWhole (result : Option (Bool × Memory × Source)) (mem : Memory) : Prop :=
  ∀ mem' file', result = some (true, mem', file') → Whole mem' ∧ mem.length ≤ mem'.length

theorem KeepsWhole.le {result : Option (Bool × Memory × Source)} (h : KeepsWhole result mem₁)
    (hle : mem.length ≤ mem₁.length) : KeepsWhole result mem := by
  intro mem' file' hresult
  obtain ⟨hwhole, hle'⟩ := h mem' file' hresult
  exact ⟨hwhole, hle.trans hle'⟩

theorem linkGroup_whole (h : Whole mem) (hlt : parent < mem.length) (hparams : g.params = []) :
    Whole (linkGroup mem g parent).1 ∧
      (linkGroup mem g parent).2 < (linkGroup mem g parent).1.length ∧
      mem.length ≤ (linkGroup mem g parent).1.length := by
  have hwhole := @Whole.append mem parent { g with parent := some parent } h rfl hlt hparams
  rw [linkGroup]
  split
  · refine ⟨hwhole.modify rfl (hwhole.params parent), ?_, ?_⟩ <;>
      simp only [List.length_modify, List.length_append, List.length_singleton] <;> omega
  · refine ⟨hwhole.modify rfl (hwhole.params _), ?_, ?_⟩ <;>
      simp only [List.length_modify, List.length_append, List.length_singleton] <;> omega

theorem parse_parameter_whole (h : Whole mem) (file : Source) (key : List UInt8) :
    Whole (parse_parameter mem file group key).2.1 := by
  simp only [parse_parameter]
  split_ifs
  · simp only [parse_list]
    split
    · exact h
    · split_ifs
      · exact h.insertParameter (.inr ⟨rfl, rfl⟩)
      · exact h
  · exact h.insertParameter (.inl ⟨rfl, rfl⟩)
  · exact h
  · exact h

/-- The parser keeps the tree whole. -/
theorem parse_group_contents_whole (fuel : ℕ) :
    (∀ mem file group, Whole mem → group < mem.length →
      KeepsWhole (parse_group_contents files fuel mem file group) mem) ∧
    (∀ mem file group token semicolon, Whole mem → group < mem.length →
      KeepsWhole (contentsLoop files fuel mem file group token semicolon) mem) ∧
    (∀ mem file group, Whole mem → group < mem.length →
      KeepsWhole (parse_include files fuel mem file group) mem) ∧
    (∀ mem file group, Whole mem → group < mem.length →
      KeepsWhole (parse_group files fuel mem file group) mem) := by
  have hfail : ∀ {mem mem' : Memory} {file : Source},
      KeepsWhole (some (false, mem', file)) mem := by
    intro _ _ _ _ _ h
    cases h
  have hnone : ∀ {mem : Memory}, KeepsWhole none mem := by
    intro _ _ _ h
    cases h
  induction fuel with
  | zero =>
    refine ⟨?_, ?_, ?_, ?_⟩ <;> intros
    · rw [parse_group_contents]
      exact hnone
    · rw [contentsLoop]
      exact hnone
    · rw [parse_include]
      exact hnone
    · rw [parse_group]
      exact hnone
  | succ fuel ih =>
    obtain ⟨ihcontents, ihloop, ihinclude, ihgroup⟩ := ih
    refine ⟨?_, ?_, ?_, ?_⟩
    · intro mem file group h hgroup
      rw [parse_group_contents]
      exact ihloop _ _ _ _ _ h hgroup
    · intro mem file group token semicolon h hgroup
      have hdone : KeepsWhole (some (true, mem, file)) mem := by
        intro mem' file' hresult
        obtain ⟨rfl, rfl⟩ := Prod.mk.inj (Prod.mk.inj (Option.some.inj hresult)).2
        exact ⟨h, le_rfl⟩
      by_cases herror : file.error
      · rw [contentsLoop.eq_def]
        simp only [herror, if_true]
        exact hfail
      cases token with
      | TOKEN_PARAM =>
        have hlen := (parse_parameter_same hgroup file file.token.string).1
        simp only [contentsLoop, herror]
        by_cases hchild : (mem.get group).child ≠ none
        · rw [if_pos hchild]
          exact hfail
        · rw [if_neg hchild]
          exact (ihloop _ _ _ _ _ (parse_parameter_whole h file _) (by rwa [hlen])).le hlen.ge
      | TOKEN_CRLF =>
        simp only [contentsLoop, herror]
        exact ihloop _ _ _ _ _ h hgroup
      | TOKEN_STRING =>
        simp only [contentsLoop, herror]
        split
        · exact hfail
        split
        · exact ihloop _ _ _ _ _ h hgroup
        have hparsed := ihgroup mem file group h hgroup
        split
        · exact hnone
        · exact hfail
        · rename_i mem₁ file₁ heq
          obtain ⟨hwhole, hle⟩ := hparsed _ _ heq
          exact (ihloop _ _ _ _ _ hwhole (by omega)).le hle
      | TOKEN_RBRACE | TOKEN_EOF =>
        simp only [contentsLoop, herror]
        exact hdone
      | TOKEN_ERROR =>
        simp only [contentsLoop, herror]
        exact hfail
      | _ =>
        simp only [contentsLoop, herror]
        exact ihloop _ _ _ _ _ h hgroup
    · intro mem file group h hgroup
      simp only [parse_include]
      split_ifs
      · exact hfail
      · exact hfail
      · split
        · exact hfail
        · have hwhole := @Whole.modify mem group h
            (fun g => { g with included := some (includePath (mem.get group).file
              (token_next file).token.string) }) rfl (h.params group)
          have hincluded := fun included => (ihcontents _ included group hwhole
            (by rwa [List.length_modify])).le (List.length_modify ..).ge
          split
          · exact hnone
          · rename_i status mem₁ file₁ hparsed
            intro mem' file' hresult
            obtain ⟨rfl, rfl, -⟩ : status = true ∧ mem₁ = mem' ∧ _ := by simpa using hresult
            exact hincluded _ _ _ hparsed
      · exact hfail
    · intro mem file parent h hparent mem' file' hresult
      have hcontents : ∀ (g : config_group) (file : Source) (token : token_type), g.params = [] →
          KeepsWhole (if token = .TOKEN_LANGLE then
            parse_include files fuel (linkGroup mem g parent).1 file (linkGroup mem g parent).2
            else parse_group_contents files fuel (linkGroup mem g parent).1 file
              (linkGroup mem g parent).2) mem := by
        intro g file token hparams
        obtain ⟨hwhole, hlt, hle⟩ := linkGroup_whole h hparent hparams
        split
        · exact (ihinclude _ _ _ hwhole hlt).le hle
        · exact (ihcontents _ _ _ hwhole hlt).le hle
      simp only [parse_group] at hresult
      split at hresult
      all_goals
        split at hresult
        · cases hresult
        split at hresult
        · cases hresult
        · cases hresult
        rename_i hparsed
        split at hresult
        · cases hresult
        obtain ⟨rfl, -⟩ : _ = mem' ∧ _ := by simpa using hresult
        exact hcontents _ _ _ rfl _ _ hparsed

theorem config_parse_file_whole {fuel : ℕ} {filename : List UInt8}
    (h : config_parse_file files fuel filename = some (some mem)) : Whole mem := by
  have hroot : Whole [group_new filename GLOBAL none] := by
    have hget : ∀ p, Memory.get [group_new filename GLOBAL none] p = default ∨
        Memory.get [group_new filename GLOBAL none] p = group_new filename GLOBAL none := by
      intro p
      cases p with
      | zero => exact .inr rfl
      | succ p => exact .inl rfl
    refine ⟨⟨by simp, fun p q hpq => ?_⟩, fun p param hparam => ?_⟩
    · obtain hp | hp := hget p <;> rw [hp] at hpq <;> cases hpq
    · obtain hp | hp := hget p <;> rw [hp] at hparam <;> cases hparam
  rw [config_parse_file] at h
  split at h
  · cases h
  · have hparsed := (@parse_group_contents_whole files fuel).1 _ ‹Source› 0 hroot (by simp)
    split at h
    · cases h
    · rename_i hdone
      obtain rfl := Option.some.inj (Option.some.inj h)
      exact (hparsed _ _ hdone).1
    · cases h

theorem New.sound {strtod : List UInt8 → UInt64 × Bool} (h : New param) : Sound strtod param := by
  obtain ⟨htype, hraw⟩ | ⟨htype, hraw⟩ := h
  · exact .fresh htype hraw
  · exact .list htype hraw

end Parsed

/-! ## Lookups as they are documented -/

section Documented

variable {strtod : List UInt8 → UInt64 × Bool} {mem : Memory} {key : List UInt8}
  {param : config_parameter} {path : List ℕ}

/-- The lookups of a key from a group, where `path` goes from the group to the root. -/
structure Documented (strtod : List UInt8 → UInt64 × Bool) (mem : Memory) (group : ℕ)
    (path : List ℕ) (key : List UInt8) : Prop where
  /-- The value in the nearest group is looked at. -/
  nearest : ∀ kind, (lookup strtod mem ⟨group, key, kind⟩).1 =
    (setting mem path key).bind fun param => (kind.convert strtod param).1
  /-- A number is returned when the raw text is one that fits. -/
  number : ∀ kind, kind = .signed_number ∨ kind = .unsigned_number → ∀ value,
    (lookup strtod mem ⟨group, key, kind⟩).1 = some value ↔
      ∃ param raw, setting mem path key = some param ∧ param.raw_value = some raw ∧
        IsNumber kind raw value
  /-- A lookup that is made once more returns the same. -/
  again : ∀ kind between,
    (lookup strtod (lookups strtod mem (⟨group, key, kind⟩ :: between)) ⟨group, key, kind⟩).1 =
      (lookup strtod mem ⟨group, key, kind⟩).1
  /-- After a number that was not to be had, all lookups return what they would have. -/
  failed : ∀ kind, kind = .signed_number ∨ kind = .unsigned_number →
    (lookup strtod mem ⟨group, key, kind⟩).1 = none → ∀ later request,
      (lookup strtod (lookups strtod mem (⟨group, key, kind⟩ :: later)) request).1 =
        (lookup strtod (lookups strtod mem later) request).1

/-- The parameters stay sound. -/
theorem setting_sound (h : Whole mem) (before : List Request)
    (hsetting : setting (lookups strtod mem before) path key = some param) :
    Sound strtod param := by
  obtain ⟨hnone, hsome⟩ := @setting_lookups strtod mem key path (Sound strtod)
    (fun kind _ hparam => hparam.convert kind) h.toTree before
  cases hfirst : setting mem path key with
  | none => exact nomatch hsetting.symm.trans (hnone hfirst)
  | some first =>
    obtain ⟨q, -, hslot⟩ := List.exists_of_findSome?_eq_some hfirst
    have hnew : New first := h.params q first (List.mem_of_find?_eq_some hslot)
    obtain ⟨param', hsetting', hsound⟩ := hsome first hfirst hnew.sound
    exact Option.some.inj (hsetting.symm.trans hsetting') ▸ hsound

/-- After any lookups, the next one is as documented when the text of the parameter has a digit,
and the parameter has not been read as another type if it is a number. -/
theorem typed_lookup_iff {files : List UInt8 → Option (List (Token × Bool))} {fuel : ℕ}
    {filename : List UInt8} (h : config_parse_file files fuel filename = some (some mem))
    (before : List Request) (group : ℕ) (key : List UInt8) :
    ∃ path, Path (lookups strtod mem before) (some group) path ∧
      (Documented strtod (lookups strtod mem before) group path key ↔
        ∀ param raw, setting (lookups strtod mem before) path key = some param →
          param.raw_value = some raw → ∀ kind, kind = .signed_number ∨ kind = .unsigned_number →
            Plain kind param raw) := by
  have hwhole := config_parse_file_whole h
  have htree := (@lookups_same strtod mem hwhole.toTree before).tree hwhole.toTree
  obtain ⟨path, hpath, hlen⟩ := htree.exists_path group
  refine ⟨path, hpath, ?_⟩
  have hsound : ∀ param, setting (lookups strtod mem before) path key = some param →
      Sound strtod param := fun _ => setting_sound hwhole before
  generalize lookups strtod mem before = mem at *
  have hnearest : ∀ kind, (lookup strtod mem ⟨group, key, kind⟩).1 =
      (setting mem path key).bind fun param => (kind.convert strtod param).1 :=
    fun kind => (@lookup_spec strtod _ _ ⟨group, key, kind⟩ hpath hlen).result
  have hnumber : ∀ kind, kind = .signed_number ∨ kind = .unsigned_number →
      ((∀ value, (lookup strtod mem ⟨group, key, kind⟩).1 = some value ↔
        ∃ param raw, setting mem path key = some param ∧ param.raw_value = some raw ∧
          IsNumber kind raw value) ↔
      ∀ param raw, setting mem path key = some param → param.raw_value = some raw →
        Plain kind param raw) := by
    intro kind hkind
    rw [hnearest]
    cases hsetting : setting mem path key with
    | none => simp
    | some param =>
      refine Iff.trans ?_ (((hsound param hsetting).plain_iff hkind).trans ?_)
      · simp
      · constructor
        · rintro hplain _ raw ⟨⟩
          exact hplain raw
        · exact fun hplain raw => hplain param raw rfl
  constructor
  · intro hdocumented param raw hsetting hraw kind hkind
    exact (hnumber kind hkind).mp (hdocumented.number kind hkind) param raw hsetting hraw
  · intro hplain
    refine ⟨hnearest, fun kind hkind => ?_, fun kind between => lookup_again htree _ between, ?_⟩
    · exact (hnumber kind hkind).mpr fun param raw hsetting hraw =>
        hplain param raw hsetting hraw kind hkind
    · intro kind hkind hfail later request
      have halike := lookups_alike htree (by rintro rfl; simp at hkind) hfail
      rw [lookups_cons]
      exact ((halike.lookups htree later).lookup
        ((lookups_same htree later).tree htree) request).1

/-- `a { key: 10 }`, with any value. -/
def valueTokens (value : List UInt8) : List (Token × Bool) :=
  [(⟨.TOKEN_STRING, [97]⟩, false), (⟨.TOKEN_LBRACE, []⟩, false),
    (⟨.TOKEN_PARAM, [107, 101, 121]⟩, false), (⟨.TOKEN_STRING, value⟩, false),
    (⟨.TOKEN_CRLF, []⟩, false), (⟨.TOKEN_RBRACE, []⟩, false)]

/-- Its tree. -/
def valueTree (value : List UInt8) : Memory :=
  [{ group_new [102] GLOBAL none with child := some 1 },
    { group_new [102] [97] none with
      parent := some 0
      params := [⟨[107, 101, 121], some value, .VALUE_UNKNOWN, .none⟩] }]

theorem config_parse_file_value (value : List UInt8) :
    config_parse_file (fun _ => some (valueTokens value)) 20 [102] =
      some (some (valueTree value)) := by
  simp [config_parse_file, source_open, valueTokens, parse_group_contents, contentsLoop,
    token_next, parse_group, parse_parameter, skipSeparators, linkGroup, Memory.get, group_new,
    insertParameter, valueTree]

theorem path_value (value : List UInt8) : Path (valueTree value) (some 1) [1, 0] :=
  .up (.up .root)

theorem number_lookup : ∃ path, Path (valueTree [49, 48]) (some 1) path ∧
    Documented (fun _ => (0, false)) (valueTree [49, 48]) 1 path [107, 101, 121] := by
  obtain ⟨path, hpath, hiff⟩ := @typed_lookup_iff (fun _ => (0, false)) _ _ _ _
    (config_parse_file_value [49, 48]) [] 1 [107, 101, 121]
  refine ⟨path, hpath, hiff.mpr ?_⟩
  rintro param raw hsetting hraw kind -
  obtain rfl := hpath.unique (path_value [49, 48])
  obtain rfl := Option.some.inj hsetting
  obtain rfl := Option.some.inj hraw
  exact ⟨fun _ => by simp [NoDigit], fun hno => absurd (.inl rfl) hno⟩

theorem sign_not_number : ¬ ∀ (strtod : List UInt8 → UInt64 × Bool)
    (files : List UInt8 → Option (List (Token × Bool))) (fuel : ℕ) (filename : List UInt8)
    (mem : Memory), config_parse_file files fuel filename = some (some mem) →
      ∀ (before : List Request) (group : ℕ) (path : List ℕ) (key : List UInt8),
        Path (lookups strtod mem before) (some group) path →
          Documented strtod (lookups strtod mem before) group path key := by
  intro h
  have hdocumented := h (fun _ => (0, false)) _ _ _ _ (config_parse_file_value [45]) [] 1 [1, 0]
    [107, 101, 121] (path_value [45])
  have hzero : (lookup (fun _ => (0, false)) (valueTree [45]) ⟨1, [107, 101, 121],
      .signed_number⟩).1 = some (.signed_number 0) := rfl
  obtain ⟨param, raw, hsetting, hraw, hnumber⟩ :=
    (hdocumented.number .signed_number (.inl rfl) (.signed_number 0)).mp hzero
  obtain rfl := Option.some.inj hsetting
  obtain rfl := Option.some.inj hraw
  exact hnumber.not_noDigit (.inr ⟨rfl, rfl⟩)

end Documented

end Inn.Confparse
