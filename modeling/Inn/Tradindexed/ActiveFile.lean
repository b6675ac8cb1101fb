import Inn.History.Qio
import Inn.History.Replace
import Inn.Lines
import Inn.Words
import Inn.Libinn.Hashtab

/-!
# Inn.Tradindexed.ActiveFile — the group names of the active file

`hashmap_load` reads the active file and puts an entry for every group into a hash table. A
line that has not four fields is reported and passed over, but the next line is not read.

* `load_good`, `load_bad` — what comes of the lines that `QIOread` returns;
* `tableOf_eq` — the table that the calls of `hash_insert` leave;
* `hashmap_load_iff` — when there is one entry for each group name.
-/

namespace Inn.Tradindexed.ActiveFile

open Inn.Libinn (Hashtab.Funcs Hashtab.Op Hashtab.mapRun Hashtab.mapStep)
open Inn.History

/-! ## Fields -/

def isSeparator (c : UInt8) : Bool := c == 32 || c == 9

/-- The loop of `cvector_split_multi`, where `start` is what it has of a string. -/
def splitLoop (start : List UInt8) : List UInt8 → List (List UInt8)
  | [] => if start = [] then [] else [start]
  | c :: cs =>
    if isSeparator c then
      if start = [] then splitLoop [] cs else start :: splitLoop [] cs
    else splitLoop (start ++ [c]) cs

/-- `cvector_split_space` of a C string. -/
def cvector_split_space (string : List UInt8) : List (List UInt8) := splitLoop [] string

/-- The C string that it leaves: the separator behind the first field is a NUL now. -/
def splitInPlace (string : List UInt8) : List UInt8 :=
  string.takeWhile isSeparator ++
    (string.dropWhile isSeparator).takeWhile fun c => !isSeparator c

/-- The fields of the C string in a line that was read. -/
def fieldsOf (line : List UInt8) : List (List UInt8) := cvector_split_space (cstring line)

/-! ## The loop of `hashmap_load` -/

/-- `struct hashmap`. -/
structure Hashmap where
  hash : HASH
  name : List UInt8
  flag : UInt8
deriving DecidableEq

section Load

variable (Hash : List UInt8 → HASH)

/-- The entry of a line with four fields. -/
def entryOf (data : List (List UInt8)) : Hashmap :=
  let name := data.getD 0 []
  ⟨Hash name, name, (data.getD 3 []).headD 0⟩

/-- The loop of `hashmap_load`, with the entries that it has passed to `hash_insert`. `none`:
it goes on for ever. -/
def loadLoop : ℕ → Option (List UInt8) × QIOSTATE → List Hashmap → Option (List Hashmap)
  | 0, _, _ => none
  | fuel + 1, active, inserted =>
    match active.1 with
    | none => some inserted
    | some line =>
      let data := fieldsOf line
      if data.length ≠ 4 then
        loadLoop fuel (some (splitInPlace (cstring line)), active.2) inserted
      else
        loadLoop fuel (QIOread (fun _ => false) active.2) (inserted ++ [entryOf Hash data])

/-- `hashmap_load` ends with these calls of `hash_insert`. -/
def Loads (file : List UInt8) (inserted : List Hashmap) : Prop :=
  ∃ fuel, loadLoop Hash fuel (QIOread (fun _ => false) (QIOopen file)) [] = some inserted

end Load

/-- `hashmap_hash`, `hashmap_key` and `hashmap_equal`. -/
def funcs : Hashtab.Funcs HASH Hashmap where
  hash key := ofBytes (key.toList.take 8)
  key group := group.hash
  equal key group := key == group.hash

/-- The call `hash_insert(hash, &group->hash, group)`. -/
def insertion (group : Hashmap) : Hashtab.Op funcs (id : HASH → HASH) :=
  .insert group.hash group rfl

/-- The table after these calls. -/
def tableOf (inserted : List Hashmap) : HASH → Option Hashmap :=
  (Hashtab.mapRun (fun _ => none) (inserted.map insertion)).2

/-! ## The lines of the file -/

/-- The lines of a file, without their newlines. -/
def linesOf (file : List UInt8) : List (List UInt8) :=
  (completeLines NEWLINE file).map List.dropLast

/-- The group names of the lines that have four fields. -/
def groupNames (lines : List (List UInt8)) : List (List UInt8) :=
  (lines.filter fun line => (fieldsOf line).length = 4).map fun line => (fieldsOf line).getD 0 []

/-- The lines before the first one that is too long for the buffer. -/
def readable (lines : List (List UInt8)) : List (List UInt8) := lines.takeWhile fun l => Short l

/-- The condition on the file: all lines that are read have four fields, no group name is only
on a line that is not read, and no two group names have the same hash. -/
structure WellFormed (Hash : List UInt8 → HASH) (lines : List (List UInt8)) : Prop where
  fields : ∀ line ∈ readable lines, (fieldsOf line).length = 4
  read : ∀ name ∈ groupNames lines, name ∈ groupNames (readable lines)
  distinct : ∀ a ∈ groupNames lines, ∀ b ∈ groupNames lines, Hash a = Hash b → a = b

/-- The table has one entry for each of these names, and no others. -/
structure OneEach (table : HASH → Option Hashmap) (names : List (List UInt8)) : Prop where
  one : ∀ name ∈ names, ∃! hash, (table hash).map Hashmap.name = some name
  only : ∀ hash group, table hash = some group → group.name ∈ names

theorem linesOf_cons {l rest : List UInt8} (hl : NEWLINE ∉ l) :
    linesOf (l ++ NEWLINE :: rest) = l :: linesOf rest := by
  rw [linesOf, completeLines, linesFrom_body hl, List.map_cons, List.nil_append,
    List.dropLast_concat]
  rfl

theorem linesOf_of_not_mem {file : List UInt8} (h : NEWLINE ∉ file) : linesOf file = [] := by
  rw [linesOf, completeLines, linesFrom_of_not_mem h]
  rfl

/-- A file without a newline, or one with a first line. -/
theorem linesOf_cases (file : List UInt8) :
    (NEWLINE ∉ file ∧ linesOf file = []) ∨
      ∃ l rest, file = l ++ NEWLINE :: rest ∧ NEWLINE ∉ l ∧
        linesOf file = l :: linesOf rest := by
  by_cases hmem : NEWLINE ∈ file
  · obtain ⟨rest, hrest⟩ := exists_eq_takeWhile_newline hmem
    have hl : NEWLINE ∉ file.takeWhile (· ≠ NEWLINE) := by
      intro h
      have hne := List.mem_takeWhile_imp (p := fun c => decide (c ≠ NEWLINE)) h
      exact of_decide_eq_true hne rfl
    refine .inr ⟨_, rest, hrest, hl, ?_⟩
    rw [← linesOf_cons hl, ← hrest]
  · exact .inl ⟨hmem, linesOf_of_not_mem hmem⟩

/-! ## Reading -/

section Read

variable {fails : ℕ → Bool} {q : QIOSTATE}

/-- Nothing is returned when no newline is left. -/
theorem readLoop_none {fuel : ℕ} (h : NEWLINE ∉ q.unread) : (readLoop fails fuel q).1 = none := by
  induction fuel generalizing q with
  | zero => rfl
  | succ fuel ih =>
    have hbuffer : NEWLINE ∉ q.buffer := fun hmem => h (List.mem_append_left _ hmem)
    rw [readLoop, if_neg hbuffer]
    dsimp only
    split
    · rfl
    · split
      · rfl
      · refine ih fun hmem => h ?_
        rw [QIOSTATE.unread, List.append_assoc, List.take_append_drop, makeRoom_file] at hmem
        rcases List.mem_append.mp hmem with hroom | hfile
        · rw [makeRoom] at hroom
          split at hroom
          · cases hroom
          · exact List.mem_append_left _ hroom
        · exact List.mem_append_right _ hfile

/-- What `QIOread` returns, by the lines that are left. -/
theorem QIOread_linesOf (hlen : q.buffer.length ≤ QIO_BUFFERSIZE) :
    (linesOf q.unread = [] ∧ (QIOread (fun _ => false) q).1 = none) ∨
      ∃ l ls, linesOf q.unread = l :: ls ∧
        (QIOread (fun _ => false) q).1 = (if Short l then some l else none) ∧
        linesOf (QIOread (fun _ => false) q).2.unread = ls ∧
        (QIOread (fun _ => false) q).2.buffer.length ≤ QIO_BUFFERSIZE := by
  rcases linesOf_cases q.unread with ⟨hno, hnil⟩ | ⟨l, rest, hq, hl, hlines⟩
  · exact .inl ⟨hnil, readLoop_none (q := { q with flag := .ok }) hno⟩
  · have hread := @QIOread_line (fun _ => false) q l rest hlen hq hl
    rcases hread with ⟨-, -, n, hn⟩ | ⟨hresult, hrest, hroom⟩
    · cases hn
    · refine .inr ⟨l, linesOf rest, hlines, ?_, by rw [hrest], hroom⟩
      have hfst := congrArg Prod.fst hresult
      dsimp only at hfst
      rw [hfst, lineResult]
      by_cases hshort : Short l
      · rw [if_pos hshort, if_neg (not_or.mpr ⟨by decide, not_not.mpr hshort⟩)]
      · rw [if_neg hshort, if_pos (.inr hshort)]

end Read

/-! ## The loop -/

section Loop

variable {Hash : List UInt8 → HASH} {q : QIOSTATE} {inserted : List Hashmap}

theorem splitLoop_separators {seps l : List UInt8} (h : ∀ c ∈ seps, isSeparator c = true) :
    splitLoop [] (seps ++ l) = splitLoop [] l := by
  induction seps with
  | nil => rfl
  | cons c seps ih =>
    rw [List.cons_append, splitLoop, if_pos (h c List.mem_cons_self), if_pos rfl]
    exact ih fun c' hc' => h c' (List.mem_cons_of_mem _ hc')

theorem length_splitLoop_field {start l : List UInt8} (h : ∀ c ∈ l, isSeparator c = false) :
    (splitLoop start l).length ≤ 1 := by
  induction l generalizing start with
  | nil =>
    rw [splitLoop]
    split <;> simp
  | cons c l ih =>
    rw [splitLoop, h c List.mem_cons_self, if_neg Bool.false_ne_true]
    exact ih fun c' hc' => h c' (List.mem_cons_of_mem _ hc')

/-- A string that was split has at most one field left. -/
theorem length_fieldsOf_splitInPlace (line : List UInt8) :
    (fieldsOf (splitInPlace (cstring line))).length ≤ 1 := by
  have hsep : ∀ c ∈ (cstring line).takeWhile isSeparator, isSeparator c = true :=
    fun c hc => List.mem_takeWhile_imp hc
  have hfield : ∀ c ∈ ((cstring line).dropWhile isSeparator).takeWhile fun c => !isSeparator c,
      isSeparator c = false := by
    intro c hc
    have := List.mem_takeWhile_imp (p := fun c => !isSeparator c) hc
    exact Bool.not_eq_true' _ ▸ this
  have hnul : ∀ c ∈ splitInPlace (cstring line), decide (c ≠ 0) = true := by
    intro c hc
    have hmem : c ∈ cstring line := by
      rcases List.mem_append.mp hc with hc | hc
      · exact (List.takeWhile_sublist _).subset hc
      · exact (List.dropWhile_sublist _).subset ((List.takeWhile_sublist _).subset hc)
    exact List.mem_takeWhile_imp (p := fun c => decide (c ≠ 0)) hmem
  rw [fieldsOf, cstring, List.takeWhile_eq_self_iff.mpr hnul, splitInPlace, cvector_split_space,
    splitLoop_separators hsep]
  exact length_splitLoop_field hfield

/-- A malformed line is looked at for ever. -/
theorem loadLoop_malformed {fuel : ℕ} {line : List UInt8} (h : (fieldsOf line).length ≠ 4) :
    loadLoop Hash fuel (some line, q) inserted = none := by
  induction fuel generalizing line with
  | zero => rfl
  | succ fuel ih =>
    have hshort := length_fieldsOf_splitInPlace line
    rw [loadLoop]
    dsimp only
    rw [if_pos h]
    exact ih (by omega)

theorem loadLoop_succ {fuel : ℕ} {active : Option (List UInt8) × QIOSTATE}
    {result : List Hashmap} (h : loadLoop Hash fuel active inserted = some result) :
    loadLoop Hash (fuel + 1) active inserted = some result := by
  induction fuel generalizing active inserted with
  | zero => cases h
  | succ fuel ih =>
    obtain ⟨line, q⟩ := active
    cases line with
    | none => exact h
    | some line =>
      rw [loadLoop] at h ⊢
      dsimp only at h ⊢
      split at h
      · rename_i hfields
        rw [if_pos hfields]
        exact ih h
      · rename_i hfields
        rw [if_neg hfields]
        exact ih h

/-- It ends in one way only. -/
theorem loadLoop_unique {fuel fuel' : ℕ} {active : Option (List UInt8) × QIOSTATE}
    {result result' : List Hashmap} (h : loadLoop Hash fuel active inserted = some result)
    (h' : loadLoop Hash fuel' active inserted = some result') : result = result' := by
  have hmore : ∀ {fuel : ℕ} {result : List Hashmap} (n : ℕ),
      loadLoop Hash fuel active inserted = some result →
        loadLoop Hash (fuel + n) active inserted = some result := by
    intro fuel result n hsome
    induction n with
    | zero => exact hsome
    | succ n ih => exact loadLoop_succ ih
  have hboth := hmore fuel' h
  rw [Nat.add_comm, hmore fuel h'] at hboth
  exact (Option.some.inj hboth).symm

/-- The loop comes to its end over lines that have four fields each. -/
theorem load_good {ls : List (List UInt8)} (hlen : q.buffer.length ≤ QIO_BUFFERSIZE)
    (hq : linesOf q.unread = ls) (hgood : ∀ line ∈ readable ls, (fieldsOf line).length = 4) :
    ∃ fuel, loadLoop Hash fuel (QIOread (fun _ => false) q) inserted =
      some (inserted ++ (readable ls).map fun line => entryOf Hash (fieldsOf line)) := by
  induction ls generalizing q inserted with
  | nil =>
    rcases QIOread_linesOf hlen with ⟨-, hnone⟩ | ⟨l, ls, hcons, -⟩
    · refine ⟨1, ?_⟩
      rw [loadLoop, hnone]
      exact congrArg some (List.append_nil _).symm
    · rw [hq] at hcons
      cases hcons
  | cons l ls ih =>
    rcases QIOread_linesOf hlen with ⟨hnil, -⟩ | ⟨l', ls', hcons, hread, hrest, hroom⟩
    · rw [hq] at hnil
      cases hnil
    · obtain ⟨rfl, rfl⟩ := List.cons.inj (hq.symm.trans hcons)
      by_cases hshort : Short l
      · have hreadable : readable (l :: ls) = l :: readable ls :=
          List.takeWhile_cons_of_pos (decide_eq_true hshort)
        rw [hreadable] at hgood
        obtain ⟨fuel, hfuel⟩ := @ih _ (inserted ++ [entryOf Hash (fieldsOf l)]) hroom
          hrest fun line hline => hgood line (List.mem_cons_of_mem _ hline)
        refine ⟨fuel + 1, ?_⟩
        rw [loadLoop, hread, if_pos hshort]
        dsimp only
        rw [if_neg (not_not.mpr (hgood l List.mem_cons_self))]
        refine hfuel.trans ?_
        rw [hreadable, List.map_cons, List.append_assoc]
        rfl
      · have hreadable : readable (l :: ls) = [] :=
          List.takeWhile_cons_of_neg fun h => hshort (of_decide_eq_true h)
        refine ⟨1, ?_⟩
        rw [loadLoop, hread, if_neg hshort, hreadable]
        exact congrArg some (List.append_nil _).symm

/-- It does not over others. -/
theorem load_bad {ls : List (List UInt8)} (hlen : q.buffer.length ≤ QIO_BUFFERSIZE)
    (hq : linesOf q.unread = ls) (hbad : ∃ line ∈ readable ls, (fieldsOf line).length ≠ 4)
    (fuel : ℕ) : loadLoop Hash fuel (QIOread (fun _ => false) q) inserted = none := by
  induction ls generalizing q inserted fuel with
  | nil =>
    obtain ⟨line, hline, -⟩ := hbad
    cases hline
  | cons l ls ih =>
    rcases QIOread_linesOf hlen with ⟨hnil, -⟩ | ⟨l', ls', hcons, hread, hrest, hroom⟩
    · rw [hq] at hnil
      cases hnil
    · obtain ⟨rfl, rfl⟩ := List.cons.inj (hq.symm.trans hcons)
      obtain ⟨line, hline, hfields⟩ := hbad
      by_cases hshort : Short l
      · have hreadable : readable (l :: ls) = l :: readable ls :=
          List.takeWhile_cons_of_pos (decide_eq_true hshort)
        rw [hreadable] at hline
        rw [if_pos hshort] at hread
        obtain - | fuel := fuel
        · rfl
        by_cases hl : (fieldsOf l).length = 4
        · rcases List.mem_cons.mp hline with rfl | hline
          · exact absurd hl hfields
          · rw [loadLoop, hread]
            dsimp only
            rw [if_neg (not_not.mpr hl)]
            exact ih hroom hrest ⟨line, hline, hfields⟩ fuel
        · rw [← Prod.eta (QIOread (fun _ => false) q), hread]
          exact loadLoop_malformed hl
      · have hreadable : readable (l :: ls) = [] :=
          List.takeWhile_cons_of_neg fun h => hshort (of_decide_eq_true h)
        rw [hreadable] at hline
        cases hline

end Loop

/-! ## The table -/

section Table

variable {Hash : List UInt8 → HASH}

theorem mapStep_insertion (m : HASH → Option Hashmap) (group : Hashmap) :
    (Hashtab.mapStep m (insertion group)).2 =
      if (m group.hash).isNone then Function.update m group.hash (some group) else m :=
  apply_ite Prod.snd ((m group.hash).isNone = true) _ _

/-- The first entry of a hash stays. -/
theorem mapRun_insertion (m : HASH → Option Hashmap) (groups : List Hashmap) (hash : HASH) :
    (Hashtab.mapRun m (groups.map insertion)).2 hash =
      (m hash).or (groups.find? fun group => group.hash == hash) := by
  induction groups generalizing m with
  | nil => exact (Option.or_none ..).symm
  | cons group groups ih =>
    rw [List.map_cons, Hashtab.mapRun]
    dsimp only
    rw [ih, mapStep_insertion, List.find?_cons]
    by_cases hhash : group.hash = hash
    · subst hhash
      cases hm : m group.hash with
      | none => simp
      | some e => simp [hm]
    · rw [beq_eq_false_iff_ne.mpr hhash]
      dsimp only
      congr 1
      split
      · exact Function.update_of_ne (Ne.symm hhash) ..
      · rfl

theorem tableOf_eq (groups : List Hashmap) (hash : HASH) :
    tableOf groups hash = groups.find? fun group => group.hash == hash := by
  rw [tableOf, mapRun_insertion]
  rfl

theorem groupNames_readable {lines : List (List UInt8)}
    (h : ∀ line ∈ readable lines, (fieldsOf line).length = 4) :
    groupNames (readable lines) = (readable lines).map fun line => (fieldsOf line).getD 0 [] := by
  rw [groupNames, List.filter_eq_self.mpr fun line hline => decide_eq_true (h line hline)]

theorem groupNames_subset {lines : List (List UInt8)} {name : List UInt8}
    (h : name ∈ groupNames (readable lines)) : name ∈ groupNames lines := by
  obtain ⟨line, hline, rfl⟩ := List.mem_map.mp h
  obtain ⟨hmem, hfour⟩ := List.mem_filter.mp hline
  exact List.mem_map.mpr
    ⟨line, List.mem_filter.mpr ⟨(List.takeWhile_sublist _).subset hmem, hfour⟩, rfl⟩

variable {lines : List (List UInt8)}

/-- An entry of the table, by the lines that were read. -/
theorem tableOf_some {hash : HASH} {group : Hashmap}
    (h : tableOf ((readable lines).map fun line => entryOf Hash (fieldsOf line)) hash =
      some group) :
    (∃ line ∈ readable lines, entryOf Hash (fieldsOf line) = group) ∧ group.hash = hash := by
  rw [tableOf_eq] at h
  have hhash := List.find?_some h
  obtain ⟨line, hline, heq⟩ := List.mem_map.mp (List.mem_of_find?_eq_some h)
  exact ⟨⟨line, hline, heq⟩, eq_of_beq hhash⟩

/-- The names in the table are names on the lines, each under its hash. -/
theorem tableOf_name (hfour : ∀ line ∈ readable lines, (fieldsOf line).length = 4) {hash : HASH}
    {name : List UInt8}
    (h : (tableOf ((readable lines).map fun line => entryOf Hash (fieldsOf line)) hash).map
      Hashmap.name = some name) :
    name ∈ groupNames (readable lines) ∧ hash = Hash name := by
  obtain ⟨group, hgroup, rfl⟩ := Option.map_eq_some_iff.mp h
  obtain ⟨⟨line, hline, rfl⟩, rfl⟩ := tableOf_some hgroup
  refine ⟨?_, rfl⟩
  rw [groupNames_readable hfour]
  exact List.mem_map.mpr ⟨line, hline, rfl⟩

/-- There is an entry under the hash of every name, of a name with that hash. -/
theorem exists_tableOf {line : List UInt8} (hline : line ∈ readable lines) :
    ∃ name, (tableOf ((readable lines).map fun line => entryOf Hash (fieldsOf line))
      (Hash ((fieldsOf line).getD 0 []))).map Hashmap.name = some name := by
  rw [tableOf_eq]
  cases hfind : ((readable lines).map fun line => entryOf Hash (fieldsOf line)).find?
    (fun group => group.hash == Hash ((fieldsOf line).getD 0 [])) with
  | some group => exact ⟨_, rfl⟩
  | none =>
    have := List.find?_eq_none.mp hfind _ (List.mem_map.mpr ⟨line, hline, rfl⟩)
    exact absurd (beq_self_eq_true _) this

/-- The table of the lines that were read has one entry for each group name on the lines of
the file if none is on unread lines only, and no two have one hash. -/
theorem oneEach_iff (hfour : ∀ line ∈ readable lines, (fieldsOf line).length = 4) :
    OneEach (tableOf ((readable lines).map fun line => entryOf Hash (fieldsOf line)))
        (groupNames lines) ↔
      WellFormed Hash lines := by
  constructor
  · intro h
    have hname : ∀ name ∈ groupNames lines, name ∈ groupNames (readable lines) ∧
        (tableOf ((readable lines).map fun line => entryOf Hash (fieldsOf line))
          (Hash name)).map Hashmap.name = some name := by
      intro name hmem
      obtain ⟨hash, hhash, -⟩ := h.one name hmem
      obtain ⟨hread, rfl⟩ := tableOf_name hfour hhash
      exact ⟨hread, hhash⟩
    refine ⟨hfour, fun name hmem => (hname name hmem).1, ?_⟩
    intro a ha b hb heq
    have hb' := (hname b hb).2
    rw [← heq, (hname a ha).2] at hb'
    exact Option.some.inj hb'
  · intro h
    refine ⟨?_, ?_⟩
    · intro name hmem
      have hread := h.read name hmem
      rw [groupNames_readable hfour] at hread
      obtain ⟨line, hline, rfl⟩ := List.mem_map.mp hread
      obtain ⟨name, hname⟩ := @exists_tableOf Hash _ _ hline
      obtain ⟨hmem', hhash⟩ := tableOf_name hfour hname
      have heq := h.distinct _ hmem _ (groupNames_subset hmem') hhash
      refine ⟨Hash ((fieldsOf line).getD 0 []), ?_, fun hash hhash' =>
        (tableOf_name hfour hhash').2⟩
      rw [heq] at hname ⊢
      exact hname
    · intro hash group hgroup
      refine groupNames_subset (@tableOf_name Hash _ hfour hash _ ?_).1
      rw [hgroup]
      rfl

/-- `hashmap_load` ends with one entry for each group name just for the files whose lines are
well formed as far as they are read. -/
theorem hashmap_load_iff (Hash : List UInt8 → HASH) (file : List UInt8) :
    (∃ inserted, Loads Hash file inserted ∧
        OneEach (tableOf inserted) (groupNames (linesOf file))) ↔
      WellFormed Hash (linesOf file) := by
  have hopen : (QIOopen file).buffer.length ≤ QIO_BUFFERSIZE := Nat.zero_le _
  have hlines : linesOf (QIOopen file).unread = linesOf file := rfl
  by_cases hfour : ∀ line ∈ readable (linesOf file), (fieldsOf line).length = 4
  · obtain ⟨fuel, hfuel⟩ := @load_good Hash _ [] _ hopen hlines hfour
    rw [List.nil_append] at hfuel
    rw [← oneEach_iff hfour]
    constructor
    · rintro ⟨inserted, ⟨fuel', hfuel'⟩, hone⟩
      obtain rfl := loadLoop_unique hfuel hfuel'
      exact hone
    · intro hone
      exact ⟨_, ⟨fuel, hfuel⟩, hone⟩
  · have hbad : ∃ line ∈ readable (linesOf file), (fieldsOf line).length ≠ 4 := by
      by_contra hno
      exact hfour fun line hline => not_not.mp fun hne => hno ⟨line, hline, hne⟩
    constructor
    · rintro ⟨inserted, ⟨fuel, hfuel⟩, -⟩
      rw [load_bad hopen hlines hbad] at hfuel
      cases hfuel
    · intro h
      exact absurd h.fields hfour

/-- One line with three fields, and `hashmap_load` does not return. -/
theorem short_line_never_ends :
    ¬ ∀ (Hash : List UInt8 → HASH) (file : List UInt8), ∃ inserted, Loads Hash file inserted ∧
      OneEach (tableOf inserted) (groupNames (linesOf file)) := by
  intro hall
  -- the line is "a 1 1"
  obtain ⟨inserted, ⟨fuel, hfuel⟩, -⟩ := hall (fun _ => HASH.clear) [97, 32, 49, 32, 49, 10]
  rw [@load_bad _ _ _ [[97, 32, 49, 32, 49]] (Nat.zero_le _) (by decide)
    ⟨[97, 32, 49, 32, 49], by decide, by decide⟩] at hfuel
  cases hfuel

end Table

end Inn.Tradindexed.ActiveFile
