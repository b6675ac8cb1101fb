import Inn.Innd.Channel
import Inn.Nnrpd.Line

/-!
# Inn.Nnrpd.Submit — how POST and IHAVE take an article

`CMDpost` collects the lines that come after its continuation reply in a static buffer,
up to the terminator, and gives the buffer to `ARTpost`. The buffer grows with the article
and is never made smaller or emptied, and `ARTpost` writes into it.

* `pass` — what the loop of `CMDpost` does with a line; the counters and the size of the
  buffer are machine integers, and a write outside the buffer is an outcome of its own;
* `CMDpost` — the command, with what is decided before its reply, and the calls of
  `line_read` on the connection;
* `Exact` — each command has taken the lines from its reply to the terminator, and has
  given the article they make to `ARTpost`, or nothing when there is no such article;
* `post_exact` — when that is so. It is not for an article without a line, where `ARTpost`
  is given what an earlier command left, and for lines with a NUL.
-/

namespace Inn.Nnrpd.Submit

open Inn.Innd

/-! ## Before the reply -/

/-- What is decided before the continuation reply: the arguments and the permissions, the
posting limiter (`none` is off, `some false` that a file name, lock or rate was not to be
had), and the history (`none` cannot be opened, `some true` has the article). -/
structure Asked where
  ihave : Bool
  badMessageID : Bool
  allowihave : Bool
  PERMcanpost : Bool
  PERMcanauthenticate : Bool
  PERMcanpostgreeting : Bool
  backoff : Option Bool
  HIScheck : Option Bool
deriving DecidableEq, Repr

/-- The code of a refusal that comes before the buffer is allocated. -/
def refusal (a : Asked) : Option ℕ :=
  if a.ihave && a.badMessageID then some 501
  else if a.ihave && (!a.allowihave || !a.PERMcanpost) then
    some (if a.PERMcanauthenticate then 480 else 502)
  else if !a.ihave && !a.PERMcanpost then
    some (if a.PERMcanauthenticate && a.PERMcanpostgreeting then 480 else 440)
  else if a.backoff = some false then some (if a.ihave then 436 else 440)
  else none

/-- The reply that comes after it: a continuation, a refusal, or the end of the process. -/
inductive Turn where
  | continues (code : ℕ)
  | refused (code : ℕ)
  | exits (code : ℕ)
deriving DecidableEq, Repr

/-- Is the article wanted? -/
def continuation (a : Asked) : Turn :=
  if !a.ihave then .continues 340
  else
    match a.HIScheck with
    | none => .exits 400
    | some true => .refused 435
    | some false => .continues 335

/-- The lines are read. -/
def Asked.Continues (a : Asked) : Prop :=
  refusal a = none ∧ ∃ code, continuation a = .continues code

/-! ## The loop -/

/-- A number stored in an `int`. -/
def toInt (n : ℕ) : ℤ :=
  if n % 2 ^ 32 < 2 ^ 31 then (n % 2 ^ 32 : ℕ) else (n % 2 ^ 32 : ℕ) - 2 ^ 32

/-- The variables of the loop; `size` is the length of `article`, and `p` a place in it. -/
structure Loop where
  article : List UInt8
  p : ℕ
  longline : ℤ
  missingdotstuffing : ℤ
  l : ℕ
deriving DecidableEq, Repr

/-- Make room for a line. `none`: there is no memory of the new size, a negative `int`. -/
def room (article : List UInt8) (p len : ℕ) : Option (List UInt8) :=
  if article.length < p + (len + 2) then
    let size := toInt (article.length + len + 4096)
    if size < 0 then none else some (xrealloc article size.toNat)
  else some article

/-- A line without its first dot. -/
def unstuff (line : List UInt8) : List UInt8 := if line.head? = some 46 then line.tail else line

/-- A line has a dot that is not doubled. -/
def Undotted (line : List UInt8) : Prop := line.head? = some 46 ∧ line.tail.head? ≠ some 46

instance (line : List UInt8) : Decidable (Undotted line) := inferInstanceAs (Decidable (_ ∧ _))

/-- How a pass of the loop ends. -/
inductive Pass where
  | next (loop : Loop)
  | terminator
  | exits
  | dies
  | outside
deriving DecidableEq, Repr

/-- A pass of the loop, for what `line_read` has returned. -/
def pass (loop : Loop) : READTYPE → Pass
  | .RTtimeout => .exits
  | .RTeof => .exits
  | .RTlong => .next { loop with
      longline := if loop.longline = 0 then toInt loop.l else loop.longline, l := loop.l + 1 }
  | .RTok line _ =>
    -- `strcmp` sees the line up to its first NUL
    if cString line = [46] then .terminator
    else if loop.longline ≠ 0 then .next { loop with l := loop.l + 1 }
    else
      match room loop.article loop.p line.length with
      | none => .dies
      | some article =>
        let missingdotstuffing :=
          if Undotted line ∧ loop.missingdotstuffing = 0 then toInt loop.l
          else loop.missingdotstuffing
        let line := unstuff line
        if article.length < loop.p + (line.length + 2) then .outside
        else .next { loop with
          article := store article loop.p (line ++ [10, 0])
          p := loop.p + (line.length + 1)
          missingdotstuffing := missingdotstuffing
          l := loop.l + 1 }

/-- How the loop ends. -/
inductive Ending where
  | terminator (loop : Loop)
  | exits
  | dies
  | outside
deriving DecidableEq, Repr

/-- The loop, over what `line_read` returns; `ended` says that the connection ends then.
`none`: the loop needs more lines, or ends before the last one. -/
def takeLines (ended : Bool) (loop : Loop) : List READTYPE → Option Ending
  | [] => if ended then some .exits else none
  | r :: rs =>
    match pass loop r with
    | .next loop => takeLines ended loop rs
    | .terminator => if rs = [] ∧ ended = false then some (.terminator loop) else none
    | .exits => if rs = [] ∧ ended = false then some .exits else none
    | .dies => if rs = [] ∧ ended = false then some .dies else none
    | .outside => if rs = [] ∧ ended = false then some .outside else none

/-! ## The command -/

/-- What `ARTpost` returns: NULL, or a response, and whether the error is permanent. -/
inductive Answer where
  | received
  | response (text : List UInt8) (permanent : Bool)
deriving DecidableEq, Repr

/-- A reply to the client, by its code and what it says of the article. -/
inductive Reply where
  | code (n : ℕ)
  | tooLong (n : ℕ) (line : ℤ)
  | undotted (n : ℕ) (line : ℤ)
  | response (n : Option ℕ) (text : List UInt8)
deriving DecidableEq, Repr

/-- An article that was taken up to its terminator: how many lines the connection had
given when the continuation reply was sent and when `CMDpost` returned, and the string
`ARTpost` was given, if it was called. -/
structure Submission where
  first : ℕ
  last : ℕ
  given : Option (List UInt8)
deriving DecidableEq, Repr

/-- A session: the connection, the static buffer (`none` is NULL), the articles taken and
the replies of `CMDpost`. -/
structure Poster where
  session : Session
  article : Option (List UInt8)
  submissions : List Submission
  replies : List Reply
  /-- There was an access outside the buffer. -/
  outside : Bool
  /-- There was no memory. -/
  died : Bool
deriving DecidableEq, Repr

/-- A new session. -/
def start : Poster := ⟨Nnrpd.start, none, [], [], false, false⟩

/-- One POST or IHAVE: what is decided before, what a new buffer holds, the deliveries of
each call of `line_read`, what `ARTpost` leaves in the buffer, and what it returns. -/
structure Post where
  asked : Asked
  fresh : List UInt8
  localmaxartsize : ℕ
  reads : List (List Delivery)
  left : List UInt8
  answer : Answer
deriving DecidableEq, Repr

/-- The calls of `line_read`. -/
def readAll (localmaxartsize : ℕ) : List (List Delivery) → Session → Option Session
  | [], s => some s
  | deliveries :: reads, s =>
    (step s (.read localmaxartsize deliveries)).bind (readAll localmaxartsize reads)

/-- The reply at the end. -/
def finalReply (ihave : Bool) : Answer → Reply
  | .received => .code (if ihave then 235 else 240)
  | .response text permanent =>
    let text := text.takeWhile fun c => c != 13 && c != 10
    if !ihave || permanent then .response (some (if ihave then 437 else 441)) text
    else .response none text

/-- After the terminator: `session` is the connection then, and `first` the number of lines
before the article. -/
def submit (s : Poster) (session : Session) (e : Post) (loop : Loop) : Option Poster :=
  let taken := fun given => s.submissions ++ [⟨s.session.results.length, session.results.length, given⟩]
  let code := if e.asked.ihave then 437 else 441
  if 0 < loop.longline then
    some { s with
      session := session, article := some loop.article, submissions := taken none
      replies := s.replies ++ [.tooLong code loop.longline] }
  else if 0 < loop.missingdotstuffing then
    some { s with
      session := session, article := some loop.article, submissions := taken none
      replies := s.replies ++ [.undotted code loop.missingdotstuffing] }
  else if 0 ∉ loop.article then
    -- `ARTpost` finds no end of the string
    some { s with
      session := { session with ended := true }, article := some loop.article
      submissions := taken (some (cString loop.article)), outside := true }
  else if e.left.length ≠ loop.article.length then none
  else
    some { s with
      session := session, article := some e.left
      submissions := taken (some (cString loop.article))
      replies := s.replies ++ [finalReply e.asked.ihave e.answer] }

/-- After the loop. -/
def finishLoop (s : Poster) (session : Session) (e : Post) : Ending → Option Poster
  | .terminator loop => submit s session e loop
  | .exits => some { s with session := session }
  | .dies => some { s with session := { session with ended := true }, died := true }
  | .outside => some { s with session := { session with ended := true }, outside := true }

/-- `CMDpost`, on a connection that is not over. -/
def CMDpost (s : Poster) (e : Post) : Option Poster :=
  match refusal e.asked with
  | some code => if e.reads ≠ [] then none else some { s with replies := s.replies ++ [.code code] }
  | none =>
    if s.article = none ∧ e.fresh.length ≠ 4096 then none
    else
      let article := s.article.getD e.fresh
      let s := { s with article := some article }
      match continuation e.asked with
      | .refused code =>
        if e.reads ≠ [] then none else some { s with replies := s.replies ++ [.code code] }
      | .exits code =>
        if e.reads ≠ [] then none
        else some { s with
          session := { s.session with ended := true }, replies := s.replies ++ [.code code] }
      | .continues code =>
        let s := { s with replies := s.replies ++ [.code code] }
        (readAll e.localmaxartsize e.reads s.session).bind fun session =>
          (takeLines session.ended ⟨article, 0, 0, 0, 1⟩
            (session.results.drop s.session.results.length)).bind (finishLoop s session e)

/-- What happens in a session: the main loop reads a command, the line buffer is reset, or
a command was POST or IHAVE. -/
inductive Event where
  | command (localmaxartsize : ℕ) (deliveries : List Delivery)
  | reset
  | post (e : Post)
deriving DecidableEq, Repr

/-- One event. -/
def happen (s : Poster) : Event → Option Poster
  | .command localmaxartsize deliveries =>
    (step s.session (.read localmaxartsize deliveries)).map fun session => { s with session := session }
  | .reset => (step s.session .reset).map fun session => { s with session := session }
  | .post e => if s.session.ended then none else CMDpost s e

/-- The events of a session. -/
def Happens (s : Poster) (event : Event) (s' : Poster) : Prop := happen s event = some s'

/-! ## What is taken -/

/-- A line that is a dot and nothing else. -/
def IsDot : READTYPE → Prop
  | .RTok line _ => line = [46]
  | _ => False

/-- A line that may stand in an article: it was not too long, its dot is doubled, and it has
no NUL. -/
def Proper : READTYPE → Prop
  | .RTok line _ => ¬ Undotted line ∧ 0 ∉ line
  | _ => False

instance (r : READTYPE) : Decidable (Proper r) := by
  cases r with
  | RTok line stripped => exact inferInstanceAs (Decidable (_ ∧ _))
  | RTlong | RTtimeout | RTeof => exact inferInstanceAs (Decidable False)

/-- A line as it stands in the article. -/
def articleLine : READTYPE → List UInt8
  | .RTok line _ => unstuff line ++ [10]
  | _ => []

/-- The article that some lines make, if they make one. -/
def articleOf (lines : List READTYPE) : Option (List UInt8) :=
  if ∀ r ∈ lines, Proper r then some (lines.flatMap articleLine) else none

/-- The command took the lines from its reply to the first line that is a dot and nothing
else, and gave the article they make. -/
def Submission.Right (results : List READTYPE) (x : Submission) : Prop :=
  ∃ before lines stripped after,
    results = before ++ (lines ++ .RTok [46] stripped :: after) ∧
    before.length = x.first ∧ (before ++ lines).length + 1 = x.last ∧
    (∀ r ∈ lines, ¬ IsDot r) ∧ x.given = articleOf lines

/-- POST and IHAVE have taken exactly the articles that were sent. -/
structure Exact (s : Poster) : Prop where
  /-- The lines are those of the stream. -/
  split : SplitAtLF s.session
  submissions : ∀ x ∈ s.submissions, x.Right s.session.results
  inside : s.outside = false
  alive : s.died = false

/-! ## When they do -/

/-- The size of the buffer after a line, if it had room for that. -/
def needed (size p len : ℕ) : ℕ := if size < p + (len + 2) then size + len + 4096 else size

/-- The buffer stays below 2 GiB, up to the terminator or the first line that is too long. -/
def Room (size p : ℕ) : List READTYPE → Prop
  | .RTok line _ :: rs =>
    cString line = [46] ∨
      needed size p line.length < 2 ^ 31 ∧
        Room (needed size p line.length) (p + ((unstuff line).length + 1)) rs
  | _ => True

/-- A line for which the article is refused. -/
def Refused : READTYPE → Prop
  | .RTok line _ => Undotted line
  | .RTlong => True
  | _ => False

/-- A line without a NUL. -/
def NoNUL : READTYPE → Prop
  | .RTok line _ => 0 ∉ line
  | _ => True

/-- There is room, and where the loop takes a line for the terminator, it is one; then the
lines before have no NUL, or one of them is refused; and if there is none, the buffer
begins with a NUL. -/
structure Plain (article : List UInt8) (lines : List READTYPE) : Prop where
  room : Room article.length 0 lines
  last : ∀ body line stripped, lines = body ++ [.RTok line stripped] → cString line = [46] →
    line = [46] ∧ (body = [] → article.head? = some 0) ∧
      ((∀ r ∈ body, NoNUL r) ∨ ∃ r ∈ body, Refused r)

/-- The lines the calls return. -/
def Post.lines (e : Post) (s : Session) : List READTYPE :=
  ((readAll e.localmaxartsize e.reads s).map fun s' => s'.results.drop s.results.length).getD []

/-- Each call is within the limit. -/
def WithinAll (localmaxartsize : ℕ) : List (List Delivery) → Session → Prop
  | [], _ => True
  | deliveries :: reads, s =>
    WithinLimit s (.read localmaxartsize deliveries) ∧
      ∀ s', step s (.read localmaxartsize deliveries) = some s' → WithinAll localmaxartsize reads s'

/-- The condition on a POST or IHAVE. -/
def Post.Meets (s : Poster) (e : Post) : Prop :=
  e.asked.Continues → Plain (s.article.getD e.fresh) (e.lines s.session)

/-- The condition on an event. -/
def Meets (s : Poster) : Event → Prop
  | .command localmaxartsize deliveries => WithinLimit s.session (.read localmaxartsize deliveries)
  | .reset => True
  | .post e => WithinAll e.localmaxartsize e.reads s.session ∧ e.Meets s

/-! ## The buffer -/

section Buffer

variable {a article : List UInt8} {p len n : ℕ}

theorem toInt_of_lt (h : n < 2 ^ 31) : toInt n = n := by
  rw [toInt, if_pos (by omega), Nat.mod_eq_of_lt (by omega)]

/-- What a size of 2 GiB or more becomes. -/
theorem toInt_of_le (h : 2 ^ 31 ≤ n) : toInt n < 0 ∨ (toInt n).toNat + 2 ^ 32 ≤ n := by
  rw [toInt]
  by_cases hsmall : n % 2 ^ 32 < 2 ^ 31
  · rw [if_pos hsmall, Int.toNat_natCast]
    omega
  · rw [if_neg hsmall]
    omega

theorem length_xrealloc : (xrealloc article n).length = n := by
  rw [xrealloc, List.length_append, List.length_take, List.length_replicate]
  omega

/-- The buffer grows. -/
theorem room_grows (hsize : article.length < 2 ^ 31) (h : needed article.length p len < 2 ^ 31)
    (hp : p < article.length) :
    ∃ article', room article p len = some article' ∧
      article'.length = needed article.length p len ∧ p + (len + 2) ≤ article'.length ∧
      article'.take p = article.take p := by
  rw [needed] at h ⊢
  rw [room]
  by_cases hfull : article.length < p + (len + 2)
  · rw [if_pos hfull] at h ⊢
    have hint := toInt_of_lt h
    rw [if_pos hfull, hint]
    dsimp only
    rw [if_neg (by omega), Int.toNat_natCast]
    refine ⟨_, rfl, length_xrealloc, by rw [length_xrealloc]; omega, ?_⟩
    rw [xrealloc, List.take_of_length_le (show article.length ≤ _ by omega),
      List.take_append_of_le_length (Nat.le_of_lt hp)]
  · rw [if_neg hfull] at h ⊢
    rw [if_neg hfull]
    exact ⟨article, rfl, rfl, by omega, rfl⟩

/-- The size overflows: there is no memory, or less than before. -/
theorem room_overflows (hsize : article.length < 2 ^ 31)
    (h : 2 ^ 31 ≤ needed article.length p len) :
    room article p len = none ∨
      ∃ article', room article p len = some article' ∧ article'.length < p + (len + 1) := by
  rw [needed] at h
  rw [room]
  by_cases hfull : article.length < p + (len + 2)
  · rw [if_pos hfull] at h ⊢
    dsimp only
    by_cases hneg : toInt (article.length + len + 4096) < 0
    · rw [if_pos hneg]
      exact .inl rfl
    · rw [if_neg hneg]
      have hwrapped := (toInt_of_le h).resolve_left hneg
      exact .inr ⟨_, rfl, by rw [length_xrealloc]; omega⟩
  · rw [if_neg hfull] at h
    omega

theorem length_unstuff {line : List UInt8} :
    (unstuff line).length ≤ line.length ∧ line.length ≤ (unstuff line).length + 1 := by
  rw [unstuff]
  split
  · rw [List.length_tail]
    omega
  · omega

/-- A line in the buffer, with the NUL behind it. -/
theorem take_line {line : List UInt8} (h : p + (line.length + 2) ≤ article.length) :
    (store article p (line ++ [10, 0])).take (p + (line.length + 1) + 1) =
      article.take p ++ (line ++ [10]) ++ [0] := by
  have hlen : (line ++ [10, 0]).length = line.length + 2 := by
    rw [List.length_append]
    rfl
  have h' := @take_store article p (line ++ [10, 0]) (by rw [hlen]; exact h)
  rw [hlen] at h'
  rw [show p + (line.length + 1) + 1 = p + (line.length + 2) by omega, h', List.append_assoc,
    List.append_assoc]
  rfl

end Buffer

/-! ## The loop -/

section Loops

variable {a : List UInt8} {lines rs : List READTYPE} {loop : Loop} {r : READTYPE} {ended : Bool}
  {ending : Ending}

/-- A line the loop takes for the terminator. -/
def Stops : READTYPE → Prop
  | .RTok line _ => cString line = [46]
  | _ => False

/-- A line that `line_read` returned. -/
def IsOk : READTYPE → Prop
  | .RTok _ _ => True
  | _ => False

/-- No line was too long: the lines are in the buffer, which held `a` before. -/
structure Filling (a : List UInt8) (lines : List READTYPE) (loop : Loop) : Prop where
  ok : ∀ r ∈ lines, IsOk r
  longline : loop.longline = 0
  missing : 0 ≤ loop.missingdotstuffing ∧
    (loop.missingdotstuffing = 0 ↔ ∀ r ∈ lines, ¬ Refused r)
  l : loop.l = lines.length + 1
  le : lines.length ≤ loop.p
  p : loop.p = (lines.flatMap articleLine).length
  empty : lines = [] → loop.article = a
  filled : lines ≠ [] → loop.article.take (loop.p + 1) = lines.flatMap articleLine ++ [0]
  inside : loop.p < loop.article.length
  size : loop.article.length < 2 ^ 31

/-- A line was too long. -/
structure Skipping (lines : List READTYPE) (loop : Loop) : Prop where
  longline : 0 < loop.longline
  long : .RTlong ∈ lines
  buffer : 0 < loop.article.length ∧ loop.article.length < 2 ^ 31

/-- Before the first line. -/
theorem filling_start (hpos : 0 < a.length) (hsize : a.length < 2 ^ 31) :
    Filling a [] ⟨a, 0, 0, 0, 1⟩ where
  ok _ hr := absurd hr List.not_mem_nil
  longline := rfl
  missing := ⟨Int.le_refl 0, ⟨fun _ _ hr => absurd hr List.not_mem_nil, fun _ => rfl⟩⟩
  l := rfl
  le := Nat.le_refl 0
  p := rfl
  empty _ := rfl
  filled hne := absurd rfl hne
  inside := hpos
  size := hsize

theorem Filling.take (h : Filling a lines loop) :
    loop.article.take loop.p = lines.flatMap articleLine := by
  by_cases hnil : lines = []
  · have hp := h.p
    rw [hnil] at hp ⊢
    rw [hp]
    rfl
  · have htake := h.filled hnil
    have htake' := congrArg (List.take loop.p) htake
    rw [List.take_take, Nat.min_eq_left (Nat.le_succ _), h.p, List.take_left] at htake'
    rw [h.p]
    exact htake'

/-- The counters stay small, as each line takes a byte of the buffer. -/
theorem Filling.counter (h : Filling a lines loop) : toInt loop.l = loop.l ∧ 0 < loop.l := by
  have hl := h.l
  have hle := h.le
  have hin := h.inside
  have hsize := h.size
  exact ⟨toInt_of_lt (by omega), by omega⟩

/-- A line that is too long. -/
theorem Filling.long (h : Filling a lines loop) :
    ∃ loop', pass loop .RTlong = .next loop' ∧ Skipping (lines ++ [.RTlong]) loop' := by
  obtain ⟨hint, hpos⟩ := h.counter
  refine ⟨_, rfl, ?_, List.mem_append_right _ (List.mem_singleton.mpr rfl),
    Nat.zero_lt_of_lt h.inside, h.size⟩
  show 0 < if loop.longline = 0 then toInt loop.l else loop.longline
  rw [if_pos h.longline, hint]
  omega

/-- A line that is not. -/
theorem Filling.line (h : Filling a lines loop) {line : List UInt8} {stripped : ℕ}
    (hstop : cString line ≠ [46]) (hroom : needed loop.article.length loop.p line.length < 2 ^ 31) :
    ∃ loop', pass loop (.RTok line stripped) = .next loop' ∧
      Filling a (lines ++ [.RTok line stripped]) loop' ∧
      loop'.article.length = needed loop.article.length loop.p line.length ∧
      loop'.p = loop.p + ((unstuff line).length + 1) := by
  obtain ⟨article, hgrown, hlen, hin, htake⟩ := room_grows h.size hroom h.inside
  obtain ⟨hint, hpos⟩ := h.counter
  obtain ⟨hle, -⟩ := @length_unstuff line
  have hfits : loop.p + ((unstuff line).length + 2) ≤ article.length := by omega
  have hstore : (store article loop.p (unstuff line ++ [10, 0])).length = article.length :=
    length_store (by rwa [List.length_append])
  have hflat : (lines ++ [READTYPE.RTok line stripped]).flatMap articleLine =
      lines.flatMap articleLine ++ (unstuff line ++ [10]) := by
    rw [List.flatMap_append, List.flatMap_singleton]
    rfl
  rw [pass, if_neg hstop, if_neg (not_not.mpr h.longline), hgrown]
  dsimp only
  rw [if_neg (by omega)]
  refine ⟨_, rfl, ?_, by rw [← hlen]; exact hstore, rfl⟩
  constructor
  · intro r hr
    rcases List.mem_append.mp hr with hr | hr
    · exact h.ok r hr
    · rw [List.mem_singleton.mp hr]
      exact trivial
  · exact h.longline
  · show 0 ≤ (if Undotted line ∧ loop.missingdotstuffing = 0 then toInt loop.l
        else loop.missingdotstuffing) ∧
      ((if Undotted line ∧ loop.missingdotstuffing = 0 then toInt loop.l
        else loop.missingdotstuffing) = 0 ↔ _)
    obtain ⟨hnonneg, hmissing⟩ := h.missing
    have hall : (∀ r ∈ lines ++ [READTYPE.RTok line stripped], ¬ Refused r) ↔
        (∀ r ∈ lines, ¬ Refused r) ∧ ¬ Undotted line := by
      constructor
      · exact fun hr => ⟨fun r hmem => hr r (List.mem_append_left _ hmem),
          hr _ (List.mem_append_right _ (List.mem_singleton.mpr rfl))⟩
      · rintro ⟨hr, hdot⟩ r hmem
        rcases List.mem_append.mp hmem with hmem | hmem
        · exact hr r hmem
        · rw [List.mem_singleton.mp hmem]
          exact hdot
    rw [hall, ← hmissing]
    by_cases hdot : Undotted line ∧ loop.missingdotstuffing = 0
    · rw [if_pos hdot, hint]
      exact ⟨by omega, ⟨fun hzero => absurd hzero (by omega), fun hzero => absurd hdot.1 hzero.2⟩⟩
    · rw [if_neg hdot]
      exact ⟨hnonneg, ⟨fun hzero => ⟨hzero, fun hu => hdot ⟨hu, hzero⟩⟩, fun hzero => hzero.1⟩⟩
  · show loop.l + 1 = _
    rw [h.l, List.length_append, List.length_singleton]
  · show _ ≤ loop.p + ((unstuff line).length + 1)
    have := h.le
    rw [List.length_append, List.length_singleton]
    omega
  · show loop.p + ((unstuff line).length + 1) = _
    rw [hflat, List.length_append, List.length_append, ← h.p]
    rfl
  · exact fun hnil => absurd hnil (List.append_ne_nil_of_right_ne_nil _ (List.cons_ne_nil _ []))
  · intro _
    show (store article loop.p (unstuff line ++ [10, 0])).take
      (loop.p + ((unstuff line).length + 1) + 1) = _
    rw [take_line hfits, htake, h.take, hflat]
  · show loop.p + ((unstuff line).length + 1) < (store article loop.p (unstuff line ++ [10, 0])).length
    omega
  · show (store article loop.p (unstuff line ++ [10, 0])).length < 2 ^ 31
    omega

/-- There is no room for a line. -/
theorem Filling.full (h : Filling a lines loop) {line : List UInt8} {stripped : ℕ}
    (hstop : cString line ≠ [46])
    (hroom : ¬ needed loop.article.length loop.p line.length < 2 ^ 31) :
    pass loop (.RTok line stripped) = .dies ∨ pass loop (.RTok line stripped) = .outside := by
  rw [pass, if_neg hstop, if_neg (not_not.mpr h.longline)]
  rcases room_overflows h.size (Nat.le_of_not_lt hroom) with hnone | ⟨article, hsome, hshort⟩
  · rw [hnone]
    exact .inl rfl
  · obtain ⟨-, hle⟩ := @length_unstuff line
    rw [hsome]
    dsimp only
    rw [if_pos (by omega)]
    exact .inr rfl

/-- Once a line was too long, the lines are not looked at. -/
theorem Skipping.pass (h : Skipping lines loop) (hstop : ¬ Stops r) :
    Submit.pass loop r = .exits ∨
      ∃ loop', Submit.pass loop r = .next loop' ∧ Skipping (lines ++ [r]) loop' := by
  have hlong : loop.longline ≠ 0 := Int.ne_of_gt h.longline
  cases r with
  | RTok line stripped =>
    rw [Submit.pass, if_neg (show ¬ cString line = [46] from hstop), if_pos hlong]
    exact .inr ⟨_, rfl, h.longline, List.mem_append_left _ h.long, h.buffer⟩
  | RTlong =>
    refine .inr ⟨_, rfl, ?_, List.mem_append_left _ h.long, h.buffer⟩
    show 0 < if loop.longline = 0 then toInt loop.l else loop.longline
    rw [if_neg hlong]
    exact h.longline
  | RTtimeout => exact .inl rfl
  | RTeof => exact .inl rfl

/-- The lines so far. -/
def Holds (a : List UInt8) (lines : List READTYPE) (loop : Loop) : Prop :=
  Filling a lines loop ∨ Skipping lines loop

theorem Holds.buffer (h : Holds a lines loop) :
    0 < loop.article.length ∧ loop.article.length < 2 ^ 31 := by
  rcases h with h | h
  · exact ⟨Nat.zero_lt_of_lt h.inside, h.size⟩
  · exact h.buffer

/-- There is room for what is to come. -/
def RoomFor (loop : Loop) (rs : List READTYPE) : Prop :=
  loop.longline ≠ 0 ∨ Room loop.article.length loop.p rs

/-- The end of the loop, which had taken `lines` and then got `rs`. -/
inductive Ran (a : List UInt8) (lines : List READTYPE) (loop : Loop) :
    List READTYPE → Ending → Prop where
  | exits {rs : List READTYPE} (hroom : RoomFor loop rs) (hlast : ∀ body r, rs = body ++ [r] → ¬ Stops r) :
      Ran a lines loop rs .exits
  | terminator {body : List READTYPE} {line : List UInt8} {stripped : ℕ} {loop' : Loop}
      (hroom : RoomFor loop (body ++ [.RTok line stripped]))
      (hbody : ∀ r ∈ body, ¬ Stops r) (hline : cString line = [46])
      (hholds : Holds a (lines ++ body) loop') :
      Ran a lines loop (body ++ [.RTok line stripped]) (.terminator loop')
  | fails {rs : List READTYPE} {ending : Ending} (hroom : ¬ RoomFor loop rs) (hending : ending = .dies ∨ ending = .outside) :
      Ran a lines loop rs ending

/-- One line more at the front. -/
theorem Ran.cons {loop' : Loop} (h : Ran a (lines ++ [r]) loop' rs ending) (hstop : ¬ Stops r)
    (hroom : RoomFor loop (r :: rs) ↔ RoomFor loop' rs) : Ran a lines loop (r :: rs) ending := by
  cases h with
  | exits hroom' hlast =>
    refine .exits (hroom.mpr hroom') fun body r' heq => ?_
    cases body with
    | nil =>
      cases heq
      exact hstop
    | cons r'' body =>
      cases heq
      exact hlast body r' rfl
  | @terminator body line stripped loop'' hroom' hbody hline hholds =>
    rw [List.append_assoc, List.singleton_append] at hholds
    refine @Ran.terminator a lines loop (r :: body) line stripped loop'' (hroom.mpr hroom') ?_
      hline hholds
    intro r' hr'
    rcases List.mem_cons.mp hr' with rfl | hr'
    · exact hstop
    · exact hbody r' hr'
  | fails hroom' hending => exact .fails (fun hr => hroom' (hroom.mp hr)) hending

/-- The loop, by induction on the lines that come. -/
theorem takeLines_ran (htake : takeLines ended loop rs = some ending) (h : Holds a lines loop) :
    Ran a lines loop rs ending := by
  induction rs generalizing loop lines with
  | nil =>
    rw [takeLines] at htake
    split at htake
    · cases htake
      exact .exits (.inr trivial) fun body r heq =>
        absurd heq.symm (List.append_ne_nil_of_right_ne_nil body (List.cons_ne_nil r []))
    · cases htake
  | cons r rs ih =>
    rw [takeLines] at htake
    by_cases hstop : Stops r
    · -- the terminator
      cases r with
      | RTok line stripped =>
        have hpass : pass loop (.RTok line stripped) = .terminator := if_pos hstop
        rw [hpass] at htake
        dsimp only at htake
        split at htake
        · rename_i hend
          cases htake
          rw [hend.1]
          exact @Ran.terminator a lines loop [] line stripped loop (.inr (.inl hstop))
            (fun _ hr => absurd hr List.not_mem_nil) hstop (by rwa [List.append_nil])
        · cases htake
      | RTlong | RTtimeout | RTeof => exact hstop.elim
    · have hexits : pass loop r = .exits → RoomFor loop (r :: rs) → Ran a lines loop (r :: rs) ending := by
        intro hpass hroom
        rw [hpass] at htake
        dsimp only at htake
        split at htake
        · rename_i hend
          cases htake
          refine .exits hroom fun body r' heq => ?_
          rw [hend.1] at heq
          obtain ⟨-, hr⟩ := @List.append_inj' _ [] _ _ _ heq rfl
          cases hr
          exact hstop
        · cases htake
      have hnext : ∀ loop', pass loop r = .next loop' → Holds a (lines ++ [r]) loop' →
          (RoomFor loop (r :: rs) ↔ RoomFor loop' rs) → Ran a lines loop (r :: rs) ending := by
        intro loop' hpass hholds hroom
        rw [hpass] at htake
        exact (ih htake hholds).cons hstop hroom
      rcases h with h | h
      · cases r with
        | RTok line stripped =>
          have hlong : ∀ rs, RoomFor loop rs ↔ Room loop.article.length loop.p rs := fun rs =>
            ⟨fun hr => hr.resolve_left (not_not.mpr h.longline), .inr⟩
          by_cases hroom : needed loop.article.length loop.p line.length < 2 ^ 31
          · obtain ⟨loop', hpass, hfilling, hsize, hp⟩ := h.line hstop hroom
            refine hnext loop' hpass (.inl hfilling) ?_
            have hlong' : RoomFor loop' rs ↔ Room loop'.article.length loop'.p rs :=
              ⟨fun hr => hr.resolve_left (not_not.mpr hfilling.longline), .inr⟩
            rw [hlong, hlong', hsize, hp, Room]
            exact ⟨fun hr => (hr.resolve_left hstop).2, fun hr => .inr ⟨hroom, hr⟩⟩
          · have hno : ¬ RoomFor loop (.RTok line stripped :: rs) := by
              rw [hlong, Room]
              rintro (hr | hr)
              · exact hstop hr
              · exact hroom hr.1
            rcases @Filling.full a lines loop h line stripped hstop hroom with hpass | hpass
            · rw [hpass] at htake
              dsimp only at htake
              split at htake
              · cases htake
                exact .fails hno (.inl rfl)
              · cases htake
            · rw [hpass] at htake
              dsimp only at htake
              split at htake
              · cases htake
                exact .fails hno (.inr rfl)
              · cases htake
        | RTlong =>
          obtain ⟨loop', hpass, hskip⟩ := h.long
          exact hnext loop' hpass (.inr hskip)
            ⟨fun _ => .inl (Int.ne_of_gt hskip.longline), fun _ => .inr trivial⟩
        | RTtimeout => exact hexits rfl (.inr trivial)
        | RTeof => exact hexits rfl (.inr trivial)
      · have hroom : ∀ rs, RoomFor loop rs := fun _ => .inl (Int.ne_of_gt h.longline)
        rcases h.pass hstop with hpass | ⟨loop', hpass, hskip⟩
        · exact hexits hpass (hroom _)
        · exact hnext loop' hpass (.inr hskip)
            ⟨fun _ => .inl (Int.ne_of_gt hskip.longline), fun _ => hroom _⟩

end Loops

/-! ## What `ARTpost` is given -/

section Given

variable {a : List UInt8} {lines : List READTYPE} {loop : Loop} {r : READTYPE}

theorem Refused.not_proper (h : Refused r) : ¬ Proper r := by
  cases r with
  | RTok line stripped => exact fun hp => hp.1 h
  | RTlong | RTtimeout | RTeof => exact fun hp => hp

/-- What `CMDpost` refuses. -/
theorem Holds.refused_iff (h : Holds a lines loop) :
    (0 < loop.longline ∨ 0 < loop.missingdotstuffing) ↔ ∃ r ∈ lines, Refused r := by
  rcases h with h | h
  · obtain ⟨hnonneg, hmissing⟩ := h.missing
    have hlong := h.longline
    have hiff : (∃ r ∈ lines, Refused r) ↔ ¬ ∀ r ∈ lines, ¬ Refused r := by
      rw [not_forall]
      exact ⟨fun ⟨r, hr, hrefused⟩ => ⟨r, fun hno => hno hr hrefused⟩,
        fun ⟨r, hno⟩ => ⟨r, (Classical.not_imp.mp hno).1, not_not.mp (Classical.not_imp.mp hno).2⟩⟩
    rw [hiff, ← hmissing]
    omega
  · exact ⟨fun _ => ⟨.RTlong, h.long, trivial⟩, fun _ => .inl h.longline⟩

theorem articleOf_refused (h : ∃ r ∈ lines, Refused r) : articleOf lines = none := by
  obtain ⟨r, hr, hrefused⟩ := h
  exact if_neg fun hall => hrefused.not_proper (hall r hr)

/-- Lines without a NUL make an article without one. -/
theorem not_mem_article (h : ∀ r ∈ lines, NoNUL r) : 0 ∉ lines.flatMap articleLine := by
  intro hmem
  obtain ⟨r, hr, hmem⟩ := List.mem_flatMap.mp hmem
  have hno := h r hr
  cases r with
  | RTok line stripped =>
    rcases List.mem_append.mp hmem with hmem | hmem
    · rw [unstuff] at hmem
      split at hmem
      · exact hno (List.mem_of_mem_tail hmem)
      · exact hno hmem
    · exact absurd (List.mem_singleton.mp hmem) (by decide)
  | RTlong | RTtimeout | RTeof => exact absurd hmem List.not_mem_nil

/-- The string at the beginning of the buffer. -/
theorem Filling.cString (h : Filling a lines loop) (hne : lines ≠ [])
    (hno : ∀ r ∈ lines, NoNUL r) :
    Innd.cString loop.article = lines.flatMap articleLine ∧ 0 ∈ loop.article := by
  have htake := h.filled hne
  have hsplit := List.take_append_drop (loop.p + 1) loop.article
  rw [htake] at hsplit
  have hzero := not_mem_article hno
  refine ⟨?_, ?_⟩
  · rw [← hsplit, Innd.cString, List.append_assoc, List.takeWhile_append_of_pos fun c hc =>
      bne_iff_ne.mpr fun heq => hzero (by rwa [heq] at hc)]
    exact List.append_nil _
  · rw [← hsplit]
    exact List.mem_append_left _ (List.mem_append_right _ (List.mem_singleton.mpr rfl))

/-- A string that is empty. -/
theorem cString_nil_iff : 0 ∈ a ∧ Innd.cString a = [] ↔ a.head? = some 0 := by
  cases a with
  | nil => exact ⟨fun h => absurd h.1 List.not_mem_nil, fun h => by cases h⟩
  | cons c a =>
    rw [List.head?_cons, Option.some_inj]
    constructor
    · rintro ⟨-, h⟩
      by_contra hc
      rw [Innd.cString, List.takeWhile_cons, if_pos (bne_iff_ne.mpr hc)] at h
      cases h
    · rintro rfl
      exact ⟨List.mem_cons_self, rfl⟩

/-- No line is refused: the buffer holds the article exactly in these cases. -/
theorem given_iff (h : Holds a lines loop) (hno : ¬ ∃ r ∈ lines, Refused r) :
    0 ∈ loop.article ∧ some (cString loop.article) = articleOf lines ↔
      (lines = [] → a.head? = some 0) ∧ ∀ r ∈ lines, NoNUL r := by
  have hfilling : Filling a lines loop :=
    h.resolve_right fun hskip => hno ⟨.RTlong, hskip.long, trivial⟩
  by_cases hnil : lines = []
  · have hbuffer := hfilling.empty hnil
    subst hnil
    have hempty : articleOf [] = some [] := if_pos fun _ hr => absurd hr List.not_mem_nil
    rw [hbuffer, hempty, Option.some_inj, cString_nil_iff]
    exact ⟨fun hhead => ⟨fun _ => hhead, fun _ hr => absurd hr List.not_mem_nil⟩,
      fun hall => hall.1 rfl⟩
  · have hproper : (∀ r ∈ lines, Proper r) ↔ ∀ r ∈ lines, NoNUL r := by
      refine ⟨fun hall r hr => ?_, fun hall r hr => ?_⟩
      · have := hall r hr
        cases r with
        | RTok line stripped => exact this.2
        | RTlong | RTtimeout | RTeof => exact this.elim
      · have hnul := hall r hr
        have hdot : ¬ Refused r := fun hrefused => hno ⟨r, hr, hrefused⟩
        cases r with
        | RTok line stripped => exact ⟨hdot, hnul⟩
        | RTlong => exact hdot trivial
        | RTtimeout => exact (hfilling.ok _ hr).elim
        | RTeof => exact (hfilling.ok _ hr).elim
    constructor
    · rintro ⟨-, hgiven⟩
      refine ⟨fun heq => absurd heq hnil, hproper.mp ?_⟩
      by_contra hbad
      rw [articleOf, if_neg hbad] at hgiven
      cases hgiven
    · rintro ⟨-, hnul⟩
      obtain ⟨hstring, hmem⟩ := hfilling.cString hnil hnul
      rw [articleOf, if_pos (hproper.mpr hnul), hstring]
      exact ⟨hmem, rfl⟩

end Given

/-! ## The connection -/

section Connection

variable {s s' : Session} {lines : List (List UInt8)} {rest : List UInt8} {results : List READTYPE}

/-- The results of earlier calls stay. -/
theorem step_results {call : Call} (h : step s call = some s') : s.results <+: s'.results := by
  cases call with
  | reset =>
    rw [step] at h
    split at h
    · cases h
    · cases h
      exact List.prefix_refl _
  | read cap deliveries =>
    rw [step] at h
    split at h
    · cases h
    · dsimp only at h
      split at h
      · cases h
      · cases h
        exact List.prefix_refl _
      · cases h
        exact List.prefix_refl _
      · cases h
        exact List.prefix_refl _
      · cases h
        exact List.prefix_append _ _

theorem readAll_results {cap : ℕ} {reads : List (List Delivery)} (h : readAll cap reads s = some s') :
    s.results <+: s'.results := by
  induction reads generalizing s with
  | nil =>
    cases h
    exact List.prefix_refl _
  | cons deliveries reads ih =>
    obtain ⟨s₁, hstep, hreads⟩ := Option.bind_eq_some_iff.mp h
    exact (step_results hstep).trans (ih hreads)

/-- The lines are cut as they should be. -/
def Cut (s : Session) : Prop := ∃ lines rest, Taken s lines rest

theorem Cut.step {call : Call} (h : Cut s) (hlimit : WithinLimit s call)
    (hstep : step s call = some s') : Cut s' := by
  obtain ⟨lines, rest, htaken⟩ := h
  exact next_taken ⟨hlimit, hstep⟩ htaken

theorem Cut.readAll {cap : ℕ} {reads : List (List Delivery)} (h : Cut s)
    (hlimit : WithinAll cap reads s) (hreads : readAll cap reads s = some s') : Cut s' := by
  induction reads generalizing s with
  | nil =>
    cases hreads
    exact h
  | cons deliveries reads ih =>
    obtain ⟨s₁, hstep, hreads⟩ := Option.bind_eq_some_iff.mp hreads
    exact ih (h.step hlimit.1 hstep) (hlimit.2 s₁ hstep) hreads

/-- The process ends. -/
theorem Cut.ended (h : Cut s) : Cut { s with ended := true } := by
  obtain ⟨lines, rest, htaken⟩ := h
  exact ⟨lines, rest, htaken.line, htaken.input, htaken.limits, htaken.results,
    (fun hover => by cases hover), htaken.kept, htaken.size, htaken.inside⟩

theorem Cut.split (h : Cut s) : SplitAtLF s := by
  obtain ⟨lines, rest, htaken⟩ := h
  exact htaken.split

/-- What was taken stays so when more lines come. -/
theorem Submission.Right.mono {results' : List READTYPE} {x : Submission} (h : x.Right results)
    (hle : results <+: results') : x.Right results' := by
  obtain ⟨more, rfl⟩ := hle
  obtain ⟨before, lines, stripped, after, hresults, hrest⟩ := h
  refine ⟨before, lines, stripped, after ++ more, ?_, hrest⟩
  rw [hresults, List.append_assoc, List.append_assoc, List.cons_append]

end Connection

/-! ## The command -/

section Command

variable {s s' : Poster} {session : Session} {e : Post} {loop : Loop} {body : List READTYPE}
  {line : List UInt8} {stripped : ℕ} {results : List READTYPE}

/-- The article that was taken last. -/
theorem right_last_iff {given : Option (List UInt8)} (hbody : ∀ r ∈ body, ¬ Stops r) :
    (Submission.mk results.length (results ++ (body ++ [READTYPE.RTok line stripped])).length given).Right
        (results ++ (body ++ [READTYPE.RTok line stripped])) ↔
      line = [46] ∧ given = articleOf body := by
  constructor
  · rintro ⟨before, lines, stripped', after, hresults, hfirst, hlast, -, hgiven⟩
    obtain ⟨rfl, htail⟩ := List.append_inj hresults.symm hfirst
    have hlen : body.length = lines.length := by
      change (before ++ lines).length + 1 = (before ++ (body ++ [_])).length at hlast
      rw [List.length_append, List.length_append, List.length_append, List.length_singleton] at hlast
      omega
    obtain ⟨rfl, hend⟩ := List.append_inj htail.symm hlen
    cases hend
    exact ⟨rfl, hgiven⟩
  · rintro ⟨rfl, hgiven⟩
    refine ⟨results, body, stripped, [], rfl, rfl, ?_, fun r hr hdot => hbody r hr ?_, hgiven⟩
    · show (results ++ body).length + 1 = (results ++ (body ++ [_])).length
      rw [List.length_append, List.length_append, List.length_append]
      rfl
    · cases r with
      | RTok line stripped =>
        cases hdot
        exact rfl
      | RTlong | RTtimeout | RTeof => exact hdot

/-- What happens after the terminator. -/
inductive Submitted (s : Poster) (session : Session) (loop : Loop) (s' : Poster) : Prop where
  | refused (hloop : 0 < loop.longline ∨ 0 < loop.missingdotstuffing)
      (hsession : s'.session = session) (houtside : s'.outside = s.outside)
      (hsubmissions : s'.submissions =
        s.submissions ++ [⟨s.session.results.length, session.results.length, none⟩])
  | endless (hloop : ¬ (0 < loop.longline ∨ 0 < loop.missingdotstuffing))
      (hsession : s'.session = { session with ended := true }) (hmem : 0 ∉ loop.article)
      (houtside : s'.outside = true)
  | given (hloop : ¬ (0 < loop.longline ∨ 0 < loop.missingdotstuffing))
      (hsession : s'.session = session) (hmem : 0 ∈ loop.article) (houtside : s'.outside = s.outside)
      (hsubmissions : s'.submissions = s.submissions ++
        [⟨s.session.results.length, session.results.length, some (cString loop.article)⟩])

theorem submit_submitted (h : submit s session e loop = some s') :
    Submitted s session loop s' ∧ s'.died = s.died ∧
      ∃ article, s'.article = some article ∧ article.length = loop.article.length := by
  rw [submit] at h
  dsimp only at h
  split at h
  · rename_i hlong
    cases h
    exact ⟨.refused (.inl hlong) rfl rfl rfl, rfl, _, rfl, rfl⟩
  · rename_i hlong
    split at h
    · rename_i hmissing
      cases h
      exact ⟨.refused (.inr hmissing) rfl rfl rfl, rfl, _, rfl, rfl⟩
    · rename_i hmissing
      have hloop : ¬ (0 < loop.longline ∨ 0 < loop.missingdotstuffing) := not_or.mpr ⟨hlong, hmissing⟩
      split at h
      · rename_i hmem
        cases h
        exact ⟨.endless hloop rfl hmem rfl, rfl, _, rfl, rfl⟩
      · rename_i hmem
        split at h
        · cases h
        · rename_i hlen
          cases h
          exact ⟨.given hloop rfl (not_not.mp hmem) rfl rfl, rfl, _, rfl, not_not.mp hlen⟩

/-- Between two commands. -/
structure Kept (s : Poster) : Prop where
  cut : Cut s.session
  article : ∀ article, s.article = some article → 0 < article.length ∧ article.length < 2 ^ 31

/-- An article was taken to its terminator. -/
theorem submit_exact (hexact : Exact s) (hcut : Cut session)
    (hresults : session.results = s.session.results ++ (body ++ [.RTok line stripped]))
    (hbody : ∀ r ∈ body, ¬ Stops r) {a : List UInt8} (hholds : Holds a body loop)
    (h : submit s session e loop = some s') :
    Exact s' ↔ line = [46] ∧ (body = [] → a.head? = some 0) ∧
      ((∀ r ∈ body, NoNUL r) ∨ ∃ r ∈ body, Refused r) := by
  have hold : ∀ x ∈ s.submissions, x.Right session.results := fun x hx =>
    (hexact.submissions x hx).mono (hresults ▸ List.prefix_append _ _)
  have hall : ∀ {given}, s'.session = session → s'.submissions = s.submissions ++
      [⟨s.session.results.length, session.results.length, given⟩] →
      ((∀ x ∈ s'.submissions, x.Right s'.session.results) ↔
        line = [46] ∧ given = articleOf body) := by
    intro given hsession hsubmissions
    rw [hsession, hsubmissions, ← @right_last_iff body line stripped s.session.results given hbody,
      ← hresults]
    constructor
    · exact fun hx => hx _ (List.mem_append_right _ (List.mem_singleton.mpr rfl))
    · intro hnew x hx
      rcases List.mem_append.mp hx with hx | hx
      · exact hold x hx
      · exact List.mem_singleton.mp hx ▸ hnew
  obtain ⟨hsubmitted, hdied, -⟩ := submit_submitted h
  have hrefused := hholds.refused_iff
  cases hsubmitted with
  | refused hloop hsession houtside hsubmissions =>
    have hsome := hrefused.mp hloop
    have hnone := articleOf_refused hsome
    have hright := hall hsession hsubmissions
    rw [hnone] at hright
    constructor
    · intro hexact'
      refine ⟨(hright.mp hexact'.submissions).1, fun hnil => ?_, .inr hsome⟩
      obtain ⟨r, hr, -⟩ := hsome
      rw [hnil] at hr
      exact absurd hr List.not_mem_nil
    · rintro ⟨hline, -, -⟩
      exact ⟨hsession ▸ hcut.split, hright.mpr ⟨hline, rfl⟩, houtside.trans hexact.inside,
        hdied.trans hexact.alive⟩
  | endless hloop hsession hmem houtside =>
    have hgiven := given_iff hholds fun hsome => hloop (hrefused.mpr hsome)
    constructor
    · intro hexact'
      rw [hexact'.inside] at houtside
      cases houtside
    · rintro ⟨-, hnil, hnul⟩
      have hnul' := hnul.resolve_right fun hsome => hloop (hrefused.mpr hsome)
      exact absurd (hgiven.mpr ⟨hnil, hnul'⟩).1 hmem
  | given hloop hsession hmem houtside hsubmissions =>
    have hno : ¬ ∃ r ∈ body, Refused r := fun hsome => hloop (hrefused.mpr hsome)
    have hgiven := given_iff hholds hno
    have hright := hall hsession hsubmissions
    constructor
    · intro hexact'
      obtain ⟨hline, heq⟩ := hright.mp hexact'.submissions
      obtain ⟨hnil, hnul⟩ := hgiven.mp ⟨hmem, heq⟩
      exact ⟨hline, hnil, .inl hnul⟩
    · rintro ⟨hline, hnil, hnul⟩
      obtain ⟨-, heq⟩ := hgiven.mpr ⟨hnil, hnul.resolve_right hno⟩
      exact ⟨hsession ▸ hcut.split, hright.mpr ⟨hline, heq⟩, houtside.trans hexact.inside,
        hdied.trans hexact.alive⟩

/-- A reply changes nothing of it. -/
theorem Exact.reply {session : Session} {article : Option (List UInt8)} {replies : List Reply}
    (h : Exact s) (hcut : Cut session) (hresults : s.session.results <+: session.results) :
    Exact { s with session := session, article := article, replies := replies } where
  split := hcut.split
  submissions x hx := (h.submissions x hx).mono hresults
  inside := h.inside
  alive := h.alive

/-- The lines are read, and there is a buffer. -/
theorem read_exact (hexact : Exact s) (hkept : Kept s)
    (hwithin : WithinAll e.localmaxartsize e.reads s.session)
    (hread : readAll e.localmaxartsize e.reads s.session = some session) {article : List UInt8}
    (hbuffer : s.article = some article) {ending : Ending}
    (htake : takeLines session.ended ⟨article, 0, 0, 0, 1⟩
      (session.results.drop s.session.results.length) = some ending)
    (h : finishLoop s session e ending = some s') :
    Kept s' ∧ (Exact s' ↔ Plain article (session.results.drop s.session.results.length)) := by
  have hcut := hkept.cut.readAll hwithin hread
  obtain ⟨lines, hresults⟩ := readAll_results hread
  have hlines : session.results.drop s.session.results.length = lines := by
    rw [← hresults, List.drop_left]
  rw [hlines] at htake ⊢
  obtain ⟨hpos, hsize⟩ := hkept.article article hbuffer
  have hran := takeLines_ran htake (.inl (filling_start hpos hsize))
  have hroom : ∀ rs, RoomFor ⟨article, 0, 0, 0, 1⟩ rs ↔ Room article.length 0 rs := fun rs =>
    ⟨fun hr => hr.resolve_left (not_not.mpr rfl), .inr⟩
  cases hran with
  | exits hfor hlast =>
    cases h
    refine ⟨⟨hcut, hkept.article⟩, fun _ => ⟨(hroom _).mp hfor, fun body line stripped heq hstop => ?_⟩,
      fun _ => hexact.reply hcut ⟨lines, hresults⟩⟩
    exact absurd hstop (hlast body _ heq)
  | @terminator body line stripped loop hfor hbody hline hholds =>
    obtain ⟨-, -, left, hleft, hlen⟩ := submit_submitted h
    have hsession : Cut s'.session := by
      obtain ⟨hsubmitted, -⟩ := submit_submitted h
      cases hsubmitted with
      | refused _ hsession => exact hsession ▸ hcut
      | endless _ hsession => exact hsession ▸ hcut.ended
      | given _ hsession => exact hsession ▸ hcut
    rw [List.nil_append] at hholds
    refine ⟨⟨hsession, fun article' harticle' => ?_⟩, ?_⟩
    · rw [hleft] at harticle'
      cases harticle'
      rw [hlen]
      exact hholds.buffer
    · rw [submit_exact hexact hcut hresults.symm hbody hholds h]
      constructor
      · intro hall
        refine ⟨(hroom _).mp hfor, fun body' line' stripped' heq hstop => ?_⟩
        obtain ⟨rfl, hend⟩ := List.append_inj' heq rfl
        cases hend
        exact hall
      · exact fun hplain => hplain.last body line stripped rfl hline
  | fails hfor hending =>
    have hno : ¬ Plain article lines := fun hplain => hfor ((hroom _).mpr hplain.room)
    rcases hending with rfl | rfl
    · cases h
      exact ⟨⟨hcut.ended, hkept.article⟩, fun hexact' => absurd hexact'.alive Bool.noConfusion,
        fun hplain => absurd hplain hno⟩
    · cases h
      exact ⟨⟨hcut.ended, hkept.article⟩, fun hexact' => absurd hexact'.inside Bool.noConfusion,
        fun hplain => absurd hplain hno⟩

/-- The continuation. -/
theorem not_continues {code : ℕ} (h : refusal e.asked = some code) : ¬ e.asked.Continues := by
  rintro ⟨hnone, -⟩
  rw [h] at hnone
  cases hnone

/-- One POST or IHAVE. -/
theorem CMDpost_exact (hexact : Exact s) (hkept : Kept s)
    (hwithin : WithinAll e.localmaxartsize e.reads s.session) (h : CMDpost s e = some s') :
    Kept s' ∧ (Exact s' ↔ e.Meets s) := by
  rw [CMDpost] at h
  cases hrefusal : refusal e.asked with
  | some code =>
    rw [hrefusal] at h
    dsimp only at h
    split at h
    · cases h
    · cases h
      exact ⟨⟨hkept.cut, hkept.article⟩,
        fun _ hcontinues => absurd hcontinues (not_continues hrefusal),
        fun _ => hexact.reply hkept.cut (List.prefix_refl _)⟩
  | none =>
    rw [hrefusal] at h
    dsimp only at h
    split at h
    · cases h
    · rename_i hfresh
      have hbuffer : 0 < (s.article.getD e.fresh).length ∧ (s.article.getD e.fresh).length < 2 ^ 31 := by
        cases harticle : s.article with
        | none =>
          rw [harticle] at hfresh
          have hlen : e.fresh.length = 4096 := by_contra fun hne => hfresh ⟨rfl, hne⟩
          rw [Option.getD_none, hlen]
          decide
        | some article => exact hkept.article article harticle
      have hall : ∀ article, some (s.article.getD e.fresh) = some article →
          0 < article.length ∧ article.length < 2 ^ 31 := fun article heq => by
        cases heq
        exact hbuffer
      cases hturn : continuation e.asked with
      | refused code =>
        rw [hturn] at h
        dsimp only at h
        split at h
        · cases h
        · cases h
          refine ⟨⟨hkept.cut, hall⟩, fun _ hcontinues => ?_,
            fun _ => hexact.reply hkept.cut (List.prefix_refl _)⟩
          obtain ⟨-, code, hcode⟩ := hcontinues
          rw [hturn] at hcode
          cases hcode
      | exits code =>
        rw [hturn] at h
        dsimp only at h
        split at h
        · cases h
        · cases h
          refine ⟨⟨hkept.cut.ended, hall⟩, fun _ hcontinues => ?_,
            fun _ => hexact.reply hkept.cut.ended (List.prefix_refl _)⟩
          obtain ⟨-, code, hcode⟩ := hcontinues
          rw [hturn] at hcode
          cases hcode
      | continues code =>
        rw [hturn] at h
        dsimp only at h
        obtain ⟨session, hread, h⟩ := Option.bind_eq_some_iff.mp h
        obtain ⟨ending, htake, h⟩ := Option.bind_eq_some_iff.mp h
        have hlines : e.lines s.session = session.results.drop s.session.results.length := by
          rw [Post.lines, hread]
          rfl
        have hexact' := @Exact.reply s s.session (some (s.article.getD e.fresh))
          (s.replies ++ [.code code]) hexact hkept.cut (List.prefix_refl _)
        obtain ⟨hkept', hiff⟩ := read_exact hexact' ⟨hkept.cut, hall⟩ hwithin hread rfl htake h
        refine ⟨hkept', hiff.trans ?_⟩
        rw [Post.Meets, hlines]
        exact ⟨fun hplain _ => hplain, fun hplain => hplain ⟨hrefusal, code, hturn⟩⟩

end Command

/-! ## A session -/

/-- One event that meets the condition, and how a POST or IHAVE ends that does not. -/
theorem happens_exact {s s' : Poster} {event : Event} (hstep : guarded Meets Happens s event s')
    (h : Exact s ∧ Kept s) : Exact s' ∧ Kept s' := by
  obtain ⟨hexact, hkept⟩ := h
  obtain ⟨hmeets, hhappens⟩ := hstep
  cases event with
  | command cap deliveries =>
    obtain ⟨session, hread, hs'⟩ := Option.map_eq_some_iff.mp hhappens
    subst hs'
    have hcut := @Cut.step _ _ (.read cap deliveries) hkept.cut hmeets hread
    exact ⟨hexact.reply hcut (step_results hread), hcut, hkept.article⟩
  | reset =>
    obtain ⟨session, hread, hs'⟩ := Option.map_eq_some_iff.mp hhappens
    subst hs'
    have hcut := @Cut.step _ _ .reset hkept.cut hmeets hread
    exact ⟨hexact.reply hcut (step_results hread), hcut, hkept.article⟩
  | post e =>
    rw [Happens, happen] at hhappens
    split at hhappens
    · cases hhappens
    · obtain ⟨hkept', hiff⟩ := CMDpost_exact hexact hkept hmeets.1 hhappens
      exact ⟨hiff.mpr hmeets.2, hkept'⟩

/-- After commands that meet the condition, all articles were taken as they were sent, and
the next POST or IHAVE takes its article exactly if it meets the condition as well. -/
theorem post_exact {s : Poster} {events : List Event}
    (h : Steps (guarded Meets Happens) start events s) :
    Exact s ∧ ∀ e s', WithinAll e.localmaxartsize e.reads s.session →
      Happens s (.post e) s' → (Exact s' ↔ e.Meets s) := by
  have hstart : Exact start ∧ Kept start := by
    have hcut : Cut start.session := ⟨[], [], taken_start⟩
    exact ⟨⟨hcut.split, fun _ hx => absurd hx List.not_mem_nil, rfl, rfl⟩, hcut,
      fun _ harticle => by cases harticle⟩
  obtain ⟨hexact, hkept⟩ := @Steps.invariant _ _ _ (fun s => Exact s ∧ Kept s) _ _ _
    (fun _ _ _ hstep => happens_exact hstep) h hstart
  refine ⟨hexact, fun e s' hwithin hhappens => ?_⟩
  rw [Happens, happen] at hhappens
  split at hhappens
  · cases hhappens
  · exact (CMDpost_exact hexact hkept hwithin hhappens).2

/-- An article without a NUL that has a line and fits meets the condition. -/
theorem plain_article {article : List UInt8} {body : List READTYPE} {stripped : ℕ}
    (hroom : Room article.length 0 (body ++ [.RTok [46] stripped])) (hne : body ≠ [])
    (hno : ∀ r ∈ body, NoNUL r) : Plain article (body ++ [.RTok [46] stripped]) where
  room := hroom
  last body' line stripped' heq hstop := by
    obtain ⟨rfl, hend⟩ := List.append_inj' heq rfl
    cases hend
    exact ⟨rfl, fun hnil => absurd hnil hne, .inl hno⟩

/-- A reader who may post. -/
def mayPost : Asked := ⟨false, false, false, true, false, false, none, none⟩

/-- A new buffer that happens to be empty. -/
def emptyBuffer : List UInt8 := List.replicate 4096 0

/-- An article of one line, `..x`, that comes with its terminator. -/
def dotted : Post :=
  ⟨mayPost, emptyBuffer, 0, [[.bytes [46, 46, 120, 13, 10, 46, 13, 10]], []], emptyBuffer, .received⟩

theorem post_dotted : ∃ s, Steps (guarded Meets Happens) start [.post dotted] s ∧
    (Exact s ∧ ∀ e s', WithinAll e.localmaxartsize e.reads s.session →
      Happens s (.post e) s' → (Exact s' ↔ e.Meets s)) ∧
    s.submissions = [⟨0, 2, some [46, 120, 10]⟩] := by
  have hlines : dotted.lines start.session = [.RTok [46, 46, 120] 2] ++ [.RTok [46] 2] := by
    decide +kernel
  have hno : ∀ r ∈ [READTYPE.RTok [46, 46, 120] 2], NoNUL r := fun r hr => by
    rw [List.mem_singleton.mp hr]
    exact fun hmem => absurd hmem (by decide)
  have hmeets : Meets start (.post dotted) := by
    refine ⟨⟨.inl (Nat.zero_le _), fun _ _ => ⟨.inl (Nat.zero_le _), fun _ _ => trivial⟩⟩, fun _ => ?_⟩
    rw [hlines]
    exact plain_article (.inr ⟨by decide +kernel, .inl rfl⟩) (List.cons_ne_nil _ _) hno
  have hsteps : Steps (guarded Meets Happens) start [.post dotted] _ :=
    .single ⟨hmeets, (Option.some_get (by decide +kernel)).symm⟩
  exact ⟨_, hsteps, post_exact hsteps, by decide +kernel⟩

/-! ## An article without a line -/

/-- An article of two lines, `.x` and `y`, is refused, as the dot is not doubled. -/
def undotted : Post :=
  ⟨mayPost, emptyBuffer, 0, [[.bytes [46, 120, 10, 121, 10, 46, 10]], [], []], emptyBuffer, .received⟩

/-- The next one is just a terminator. -/
def lineless : Post :=
  ⟨mayPost, [], 0, [[.bytes [46, 10]]], emptyBuffer, .received⟩

/-- The lines that were refused are given to `ARTpost`. -/
theorem refused_is_posted :
    ¬ ∀ events s, Steps Happens start events s → Exact s := by
  intro hall
  have hsteps : Steps Happens start [.post undotted, .post lineless] _ :=
    Steps.of_foldlM (Option.some_get (by decide +kernel)).symm
  have hright := (hall _ _ hsteps).submissions ⟨3, 4, some [120, 10, 121, 10]⟩ (by decide +kernel)
  obtain ⟨before, lines, stripped, after, hresults, hfirst, hlast, -, hgiven⟩ := hright
  have hnil : lines = [] := by
    change before.length = 3 at hfirst
    change (before ++ lines).length + 1 = 4 at hlast
    rw [List.length_append] at hlast
    exact List.eq_nil_of_length_eq_zero (by omega)
  rw [hnil] at hgiven
  exact absurd hgiven (by decide)

end Inn.Nnrpd.Submit
