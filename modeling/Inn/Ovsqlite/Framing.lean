import Inn.Ovsqlite.Requests
import Inn.Rules
import Mathlib.Data.List.GetD

/-!
# Inn.Ovsqlite.Framing — requests do not depend on how bytes arrive

`handle_read` is entered again with what earlier reads brought, and tells from the number
of bytes alone whether it knows the length of the request. It reads five bytes first, and
checks the length and grows the buffer when it has got these five in one go or in pieces;
but after four of them it takes the length as known, and the check is skipped.

* `Framed` — what the server should do with a stream of requests, however it is cut;
* `framed_of_known` — it does as long as no call of `handle_read` starts with exactly
  four bytes of a request in the buffer, unless their length is acceptable and fits;
* `oversized_accepted` — a client that sends four bytes first is never told that its
  request is too long, and the server reads past the end of the buffer.
-/

namespace Inn.Ovsqlite

/-- The length of a request, length and code included, comes first. -/
def requestFraming : Framing UInt8 where
  header := 5
  header_pos := by decide
  size := u32
  size_append := fun l m h => by
    have hget : ∀ i < 4, (l ++ m).getD i 0 = l.getD i 0 := fun i hi => by
      rw [List.getD_append _ _ _ _ (by omega)]
    rw [u32, hget 0 (by decide), hget 1 (by decide), hget 2 (by decide), hget 3 (by decide), u32]
  bound := 0x100000

/-! ## What a trace says -/

/-- The bytes read. -/
def input (trace : List Event) : List UInt8 :=
  trace.flatMap fun e => match e with | .received bytes => bytes | _ => []

/-- The requests that were dispatched. -/
def dispatched (trace : List Event) : List (List UInt8) :=
  trace.filterMap fun e => match e with | .dispatched request => some request | _ => none

/-- The responses, complete. -/
def answers (trace : List Event) : List (List UInt8) :=
  trace.filterMap fun e => match e with | .answered response => some response | _ => none

/-- The bytes written. -/
def output (trace : List Event) : List UInt8 :=
  trace.flatMap fun e => match e with | .wrote bytes => bytes | _ => []

/-- The code of a request. -/
def code (request : List UInt8) : UInt8 := request.getD 4 0

/-- A request the server dispatches: its code is known, and it is a hello just when it is
the first one. -/
def Proper (first : Bool) (request : List UInt8) : Prop :=
  code request < countRequestCodes ∧ (code request = requestHello ↔ first = true)

instance (first : Bool) (request : List UInt8) : Decidable (Proper first request) :=
  inferInstanceAs (Decidable (_ ∧ _))

/-- The requests of a client that are to be dispatched: all up to the first one that is
not proper. -/
def dispatchable : Bool → List (List UInt8) → List (List UInt8)
  | _, [] => []
  | first, r :: rs => if Proper first r then r :: dispatchable false rs else []

/-- The response that is a code alone. -/
def simpleAnswer (code : UInt8) : List UInt8 := u32Bytes 5 ++ [code]

/-- The response that refuses a length. -/
def refusal (requestSize : ℕ) : List UInt8 :=
  simpleAnswer (if requestSize < 5 then responseBadRequest else responseOversized)

/-- The server has treated the stream of a client as it should. -/
structure Framed (s : Session) : Prop where
  /-- The requests dispatched depend on the bytes alone. -/
  dispatched : dispatched s.trace = dispatchable true (requestFraming.frames (input s.trace))
  /-- One response for each request, and one for a length that is refused. -/
  answered : (answers s.trace).length = (requestFraming.frames (input s.trace)).length +
    if requestFraming.Refused (requestFraming.rest (input s.trace)) then 1 else 0
  /-- A length that is refused is answered so, and nothing is read or written after it. -/
  refused : requestFraming.Refused (requestFraming.rest (input s.trace)) →
    (answers s.trace).getLast? = some (refusal (u32 (requestFraming.rest (input s.trace)))) ∧
      s.client.readFd = false ∧
      (s.client.gone = true ∨ output s.trace ≠ (answers s.trace).flatten)
  /-- A read fits the buffer. -/
  fits : ∀ want room, .asked want room ∈ s.trace → want ≤ room
  /-- When something is read, all responses have been written. -/
  quiet : ∀ before after want room, s.trace = before ++ .asked want room :: after →
    output before = (answers before).flatten
  /-- The connection is closed when the peer is gone or after a fatal response. -/
  closed : s.client.gone = true → .hangup ∈ s.trace ∨
    s.client.term = true ∧ output s.trace = (answers s.trace).flatten

/-- Where `handle_read` starts with four bytes of a request, these say an acceptable
length, for which the buffer is large enough. -/
def KnownLength (s : Session) : Call → Prop
  | .read _ _ => s.client.request.data.length = 4 →
    requestFraming.Accepts (u32 s.client.request.data) ∧
      u32 s.client.request.data ≤ s.client.request.size
  | .write _ => True

instance (s : Session) (call : Call) : Decidable (KnownLength s call) := by
  cases call with
  | read results reply => exact inferInstanceAs (Decidable (_ → _ ∧ _))
  | write result => exact inferInstanceAs (Decidable True)

/-- The server and one client. -/
def Next (s : Session) (call : Call) (s' : Session) : Prop := step s call = some s'

/-! ## Traces grow -/

section Trace

variable (trace : List Event) (e : Event)

theorem input_concat : input (trace ++ [e]) =
    input trace ++ (match e with | .received bytes => bytes | _ => []) := by
  rw [input, List.flatMap_append, List.flatMap_singleton]
  rfl

theorem output_concat : output (trace ++ [e]) =
    output trace ++ (match e with | .wrote bytes => bytes | _ => []) := by
  rw [output, List.flatMap_append, List.flatMap_singleton]
  rfl

theorem answers_concat : answers (trace ++ [e]) =
    answers trace ++ (match e with | .answered response => [response] | _ => []) := by
  rw [answers, List.filterMap_append]
  cases e <;> rfl

theorem dispatched_concat : dispatched (trace ++ [e]) =
    dispatched trace ++ (match e with | .dispatched request => [request] | _ => []) := by
  rw [dispatched, List.filterMap_append]
  cases e <;> rfl

end Trace

/-- All responses before each read of a trace have been written, and each read fits. -/
structure Polite (trace : List Event) : Prop where
  fits : ∀ want room, .asked want room ∈ trace → want ≤ room
  quiet : ∀ before after want room, trace = before ++ .asked want room :: after →
    output before = (answers before).flatten

section Polite

variable {trace : List Event} {e : Event}

theorem Polite.concat (h : Polite trace)
    (he : ∀ want room, e = .asked want room → want ≤ room ∧ output trace = (answers trace).flatten) :
    Polite (trace ++ [e]) where
  fits want room hmem := by
    rcases List.mem_append.mp hmem with hmem | hmem
    · exact h.fits want room hmem
    · exact (he want room (List.mem_singleton.mp hmem).symm).1
  quiet before after want room heq := by
    rcases List.eq_nil_or_concat after with rfl | ⟨after, last, rfl⟩
    · obtain ⟨hbefore, hlast⟩ := List.append_inj' heq rfl
      rw [← hbefore]
      exact (he want room (List.singleton_inj.mp hlast)).2
    · rw [List.concat_eq_append, ← List.cons_append, ← List.append_assoc] at heq
      exact h.quiet before after want room (List.append_inj' heq rfl).1

theorem polite_nil : Polite [] where
  fits _ _ hmem := nomatch hmem
  quiet before _ _ _ heq := by
    have := congrArg List.length heq
    rw [List.length_append, List.length_cons, List.length_nil] at this
    omega

end Polite

/-! ## Responses -/

/-- `s'` is `s` with a response put before the client. -/
structure Answers (s s' : Session) (response : List UInt8) : Prop where
  trace : s'.trace = s.trace ++ [.answered response]
  data : s'.client.response.data = response
  used : s'.client.response.used = 0
  ne_nil : response ≠ []
  request : s'.client.request = s.client.request
  init : s'.client.init = s.client.init
  gone : s'.client.gone = s.client.gone
  writeFd : s'.client.writeFd = true
  readFd : s.client.readFd = false → s'.client.readFd = false
  term : s'.client.term = true ∨ s'.client.term = s.client.term

theorem Buffer.data_resize (b : Buffer) (size : ℕ) : (b.resize size).data = b.data := by
  rw [Buffer.resize]
  split <;> rfl

theorem Buffer.used_resize (b : Buffer) (size : ℕ) : (b.resize size).used = b.used := by
  rw [Buffer.resize]
  split <;> rfl

/-- A buffer that was resized is large enough. -/
theorem Buffer.le_size_resize (b : Buffer) (size : ℕ) : size ≤ (b.resize size).size := by
  rw [Buffer.resize]
  split
  · omega
  · show size ≤ (size + 1023) / 1024 * 1024
    omega

theorem Buffer.data_append (b : Buffer) (data : List UInt8) :
    (b.append data).data = b.data ++ data := by
  rw [Buffer.append]
  split
  · rename_i h
    rw [List.length_eq_zero_iff.mp h, List.append_nil]
  · show (b.resize _).data ++ data = _
    rw [Buffer.data_resize]

theorem Buffer.used_append (b : Buffer) (data : List UInt8) : (b.append data).used = b.used := by
  rw [Buffer.append]
  split
  · rfl
  · exact b.used_resize _

theorem startResponse_response (c : Client) (code : UInt8) :
    (startResponse c code).response.data = [0, 0, 0, 0, code] ∧
      (startResponse c code).response.used = 0 := by
  constructor
  · rw [startResponse, Buffer.packNow, Buffer.data_append, Buffer.packLater]
    dsimp only
    rw [Buffer.data_resize]
    rfl
  · rw [startResponse, Buffer.packNow, Buffer.used_append, Buffer.packLater]
    dsimp only
    rw [Buffer.used_resize]
    rfl

/-- What is packed behind the code of a response. -/
theorem finishResponse_answers {s : Session} {code : UInt8} {body : List UInt8}
    (hdata : s.client.response.data = [0, 0, 0, 0, code] ++ body)
    (hused : s.client.response.used = 0) :
    Answers s (finishResponse s) (u32Bytes (5 + body.length) ++ code :: body) := by
  have hleft : s.client.response.left = 5 + body.length := by
    rw [Buffer.left, hdata, hused, List.length_append]
    rfl
  refine ⟨?_, ?_, hused, List.cons_ne_nil _ _, rfl, rfl, rfl, rfl, id, .inr rfl⟩
  · rw [finishResponse, hleft, hdata]
    rfl
  · rw [finishResponse, hleft, hdata]
    rfl

theorem simpleResponse_answers (s : Session) (code : UInt8) :
    Answers s (simpleResponse s code) (simpleAnswer code) := by
  obtain ⟨hdata, hused⟩ := startResponse_response s.client code
  have h := @finishResponse_answers { s with client := startResponse s.client code } code []
    (by rw [List.append_nil]; exact hdata) hused
  rw [simpleResponse]
  split
  · exact ⟨h.trace, h.data, h.used, h.ne_nil, h.request, h.init, h.gone, h.writeFd, fun _ => rfl,
      .inl rfl⟩
  · exact ⟨h.trace, h.data, h.used, h.ne_nil, h.request, h.init, h.gone, h.writeFd, h.readFd, h.term⟩

/-- A fatal response is the last one. -/
theorem simpleResponse_term (s : Session) {code : UInt8} (h : responseFatal ≤ code) :
    (simpleResponse s code).client.term = true ∧
      (simpleResponse s code).client.readFd = false := by
  rw [simpleResponse, if_pos h]
  exact ⟨rfl, rfl⟩

theorem respond_answers (s : Session) (reply : Reply) :
    ∃ response, Answers s (respond s reply) response := by
  cases reply with
  | simple code => exact ⟨_, simpleResponse_answers s code⟩
  | packed code body =>
    obtain ⟨hdata, hused⟩ := startResponse_response s.client code
    have h := @finishResponse_answers
      { s with client := { startResponse s.client code with
        response := (startResponse s.client code).response.packNow body } } code body
      (by rw [← hdata]; exact Buffer.data_append _ _) (by rw [← hused]; exact Buffer.used_append _ _)
    exact ⟨_, h.trace, h.data, h.used, h.ne_nil, h.request, h.init, h.gone, h.writeFd, h.readFd,
      h.term⟩

/-! ## The state between two calls -/

/-- Requests that have been answered, and the first bytes of the next one in the buffer. -/
structure Filled (s : Session) (requests : List (List UInt8)) (data : List UInt8) : Prop where
  frame : ∀ r ∈ requests, requestFraming.Frame r
  input : input s.trace = requests.flatten ++ data
  dispatched : dispatched s.trace = requests
  proper : dispatchable true requests = requests
  answered : (answers s.trace).length = requests.length
  sent : output s.trace = (answers s.trace).flatten
  polite : Polite s.trace
  size : 5 ≤ s.client.request.size ∧ s.client.request.size ≤ 0x100000
  data : s.client.request.data = data
  used : s.client.request.used = 0
  init : s.client.init = requests.isEmpty
  readFd : s.client.readFd = true
  writeFd : s.client.writeFd = false
  term : s.client.term = false
  gone : s.client.gone = false

/-- What is awaited: the length, or the rest of a request that fits the buffer. -/
def Awaited (size : ℕ) (data : List UInt8) : Prop :=
  data.length ≤ 4 ∨ requestFraming.Accepts (u32 data) ∧ data.length < u32 data ∧ u32 data ≤ size

/-- What was read, as requests and `extra` behind them; and what became of them. -/
structure Account (s : Session) (requests : List (List UInt8)) (extra : List UInt8) : Prop where
  frame : ∀ r ∈ requests, requestFraming.Frame r
  input : input s.trace = requests.flatten ++ extra
  incomplete : ¬ requestFraming.Complete extra
  dispatched : dispatched s.trace = dispatchable true requests
  answered : (answers s.trace).length =
    requests.length + if requestFraming.Refused extra then 1 else 0
  refused : requestFraming.Refused extra → (answers s.trace).getLast? = some (refusal (u32 extra))
  polite : Polite s.trace
  size : 5 ≤ s.client.request.size ∧ s.client.request.size ≤ 0x100000

/-- A response is being written, and nothing has been read since its request. -/
structure Answering (s : Session) (requests : List (List UInt8)) (extra : List UInt8) : Prop where
  pending : output s.trace ++ s.client.response.data.drop s.client.response.used =
    (answers s.trace).flatten
  ne_nil : s.client.response.data.drop s.client.response.used ≠ []
  fatal : s.client.term = true ∨ s.client.term = false ∧ extra = [] ∧
    dispatchable true requests = requests ∧ s.client.init = requests.isEmpty
  readFd : s.client.readFd = false
  gone : s.client.gone = false

/-- The connection is closed. -/
structure Closed (s : Session) : Prop where
  gone : s.client.gone = true
  readFd : s.client.readFd = false
  writeFd : s.client.writeFd = false
  why : .hangup ∈ s.trace ∨ s.client.term = true ∧ output s.trace = (answers s.trace).flatten

/-- What holds between two calls. -/
inductive Inv (s : Session) : Prop where
  | reading (requests : List (List UInt8)) (data : List UInt8) :
      Filled s requests data → Awaited s.client.request.size data → Inv s
  | answering (requests : List (List UInt8)) (extra : List UInt8) :
      Account s requests extra → Answering s requests extra → Inv s
  | closed (requests : List (List UInt8)) (extra : List UInt8) :
      Account s requests extra → Closed s → Inv s

section Filled

variable {s : Session} {requests : List (List UInt8)} {data : List UInt8}

theorem u32_append {l : List UInt8} (m : List UInt8) (h : 4 ≤ l.length) :
    u32 (l ++ m) = u32 l := by
  have hget : ∀ i < 4, (l ++ m).getD i 0 = l.getD i 0 := fun i hi => by
    rw [List.getD_append _ _ _ _ (by omega)]
  rw [u32, hget 0 (by decide), hget 1 (by decide), hget 2 (by decide), hget 3 (by decide), u32]

theorem Awaited.not_complete {size : ℕ} (h : Awaited size data) :
    ¬ requestFraming.Complete data := by
  rintro ⟨hheader, -, hsize⟩
  replace hheader : 5 ≤ data.length := hheader
  replace hsize : u32 data ≤ data.length := hsize
  rcases h with h | ⟨-, h, -⟩
  · omega
  · omega

theorem Awaited.not_refused {size : ℕ} (h : Awaited size data) :
    ¬ requestFraming.Refused data := by
  rintro ⟨hheader, hno⟩
  replace hheader : 5 ≤ data.length := hheader
  rcases h with h | ⟨h, -, -⟩
  · omega
  · exact hno h

/-- While something is awaited, nothing is refused. -/
theorem Filled.account (h : Filled s requests data) (ha : Awaited s.client.request.size data) :
    Account s requests data where
  frame := h.frame
  input := h.input
  incomplete := ha.not_complete
  dispatched := by rw [h.dispatched, h.proper]
  answered := by rw [if_neg ha.not_refused, h.answered, Nat.add_zero]
  refused hr := absurd hr ha.not_refused
  polite := h.polite
  size := h.size

theorem Filled.left (h : Filled s requests data) : s.client.request.left = data.length := by
  rw [Buffer.left, h.data, h.used, Nat.sub_zero]

/-- A read asks for no more than the request, and that fits. -/
theorem Filled.wanted_le (h : Filled s requests data) (ha : Awaited s.client.request.size data)
    (hknown : data.length = 4 → requestFraming.Accepts (u32 data) ∧
      u32 data ≤ s.client.request.size) :
    0 < wanted s.client.request ∧
      wanted s.client.request ≤ s.client.request.size - s.client.request.left ∧
      (4 ≤ data.length → data.length + wanted s.client.request = u32 data ∧
        requestFraming.Accepts (u32 data)) ∧
      (data.length < 4 → data.length + wanted s.client.request = 5) := by
  have hsize := h.size
  rw [wanted, h.left, h.data]
  by_cases hlen : data.length < 4
  · rw [if_neg (by omega)]
    exact ⟨by omega, by omega, fun h4 => by omega, fun _ => by omega⟩
  · -- the length is known, so it is acceptable and fits
    have hfits : requestFraming.Accepts (u32 data) ∧ data.length < u32 data ∧
        u32 data ≤ s.client.request.size := by
      rcases ha with ha | ha
      · obtain ⟨hacc, hle⟩ := hknown (by omega)
        have : 5 ≤ u32 data := hacc.1
        exact ⟨hacc, by omega, hle⟩
      · exact ha
    obtain ⟨hacc, hlt, hle⟩ := hfits
    have hbound : u32 data < 0x100000 := hacc.2
    have hsub : sizeSub (u32 data) data.length = u32 data - data.length := by
      rw [sizeSub]
      omega
    rw [if_pos (by omega), hsub]
    exact ⟨by omega, by omega, fun _ => ⟨by omega, hacc⟩, fun h4 => by omega⟩

/-- A call of `read` is made. -/
theorem Filled.ask {want room : ℕ} (h : Filled s requests data) (hle : want ≤ room) :
    Filled (s.log (.asked want room)) requests data :=
  { h with
    input := by rw [← h.input]; exact (input_concat _ _).trans (List.append_nil _)
    dispatched := by
      rw [← h.dispatched]
      exact (dispatched_concat _ _).trans (List.append_nil _)
    answered := by
      rw [← h.answered]
      exact congrArg List.length ((answers_concat _ _).trans (List.append_nil _))
    sent := by
      show Ovsqlite.output (s.trace ++ [.asked want room]) =
        (answers (s.trace ++ [.asked want room])).flatten
      rw [output_concat, answers_concat, List.append_nil, List.append_nil, h.sent]
    polite := h.polite.concat fun want' room' heq => by
      cases heq
      exact ⟨hle, h.sent⟩ }

/-- The bytes of a read. -/
theorem Filled.fill (h : Filled s requests data) (bytes : List UInt8) :
    Filled (s.fill bytes) requests (data ++ bytes) :=
  { h with
    input := by
      show Ovsqlite.input (s.trace ++ [.received bytes]) = _
      rw [input_concat, h.input, List.append_assoc]
    dispatched := by
      rw [← h.dispatched]
      exact (dispatched_concat _ _).trans (List.append_nil _)
    answered := by
      rw [← h.answered]
      exact congrArg List.length ((answers_concat _ _).trans (List.append_nil _))
    sent := by
      show output (s.trace ++ [.received bytes]) = (answers (s.trace ++ [.received bytes])).flatten
      rw [output_concat, answers_concat, List.append_nil, List.append_nil, h.sent]
    polite := h.polite.concat fun _ _ heq => nomatch heq
    data := congrArg (· ++ bytes) h.data }

/-- The buffer grows. -/
theorem Filled.resize {size : ℕ} (h : Filled s requests data) (hsize : size ≤ 0x100000) :
    Filled { s with client := { s.client with request := s.client.request.resize size } }
      requests data :=
  { h with
    size := by
      have := h.size
      show 5 ≤ (s.client.request.resize size).size ∧ (s.client.request.resize size).size ≤ _
      rw [Buffer.resize]
      split
      · exact this
      · dsimp only
        omega
    data := (Buffer.data_resize _ _).trans h.data
    used := (Buffer.used_resize _ _).trans h.used }

end Filled

/-! ## A request is taken -/

section Take

variable {s s₁ s' : Session} {requests : List (List UInt8)} {data extra response : List UInt8}

/-- What is unsent after a response. -/
theorem Answers.pending (h : Answers s s' response)
    (hsent : output s.trace = (answers s.trace).flatten) :
    output s'.trace ++ s'.client.response.data.drop s'.client.response.used =
        (answers s'.trace).flatten ∧
      s'.client.response.data.drop s'.client.response.used ≠ [] := by
  rw [h.data, h.used, List.drop_zero, h.trace, output_concat, answers_concat, List.append_nil,
    List.flatten_append, hsent, List.flatten_singleton]
  exact ⟨rfl, h.ne_nil⟩

theorem Answers.polite (h : Answers s s' response) (hp : Polite s.trace) : Polite s'.trace := by
  rw [h.trace]
  exact hp.concat fun _ _ heq => nomatch heq

theorem dispatchable_concat {first : Bool} (h : dispatchable first requests = requests)
    (r : List UInt8) : dispatchable first (requests ++ [r]) =
      requests ++ if Proper (first && requests.isEmpty) r then [r] else [] := by
  induction requests generalizing first with
  | nil =>
    rw [List.nil_append, dispatchable, List.isEmpty_nil, Bool.and_true]
    rfl
  | cons r' rs ih =>
    rw [dispatchable] at h
    split at h
    · rename_i hproper
      have hrest : dispatchable false rs = rs := List.tail_eq_of_cons_eq h
      rw [List.cons_append, dispatchable, if_pos hproper, ih hrest, List.isEmpty_cons,
        Bool.and_false, Bool.false_and]
      rfl
    · cases h

theorem frame_nil_not : ¬ requestFraming.Complete [] := fun h => absurd h.1 (by decide)

theorem refused_nil_not : ¬ requestFraming.Refused [] := fun h => absurd h.1 (by decide)

/-- A request was taken from the buffer, dispatched if it is proper, and answered. -/
theorem Filled.answer (h : Filled s requests data) (hframe : requestFraming.Frame data)
    (htrace : s₁.trace = s.trace ++ if Proper s.client.init data then [.dispatched data] else [])
    (hans : Answers s₁ s' response) (hsize : s₁.client.request.size = s.client.request.size)
    (hread : s₁.client.readFd = false) (hgone : s₁.client.gone = false)
    (hfatal : s'.client.term = true ∨
      s'.client.term = false ∧ Proper s.client.init data ∧ s₁.client.init = false) : Inv s' := by
  have hdispatch : dispatchable true (requests ++ [data]) =
      requests ++ if Proper s.client.init data then [data] else [] := by
    rw [dispatchable_concat h.proper, Bool.true_and, h.init]
  have hnext : Ovsqlite.input s₁.trace = requests.flatten ++ data ∧
      Ovsqlite.dispatched s₁.trace = dispatchable true (requests ++ [data]) ∧
      answers s₁.trace = answers s.trace ∧ Polite s₁.trace ∧
      output s₁.trace = (answers s₁.trace).flatten := by
    rw [htrace, hdispatch]
    split
    · rw [input_concat, dispatched_concat, answers_concat, output_concat, List.append_nil,
        List.append_nil, List.append_nil, h.input, h.dispatched]
      exact ⟨rfl, rfl, rfl, h.polite.concat (fun _ _ heq => nomatch heq), h.sent⟩
    · rw [List.append_nil, List.append_nil]
      exact ⟨h.input, h.dispatched, rfl, h.polite, h.sent⟩
  obtain ⟨hin, hdis, hanswers, hpolite, hsent⟩ := hnext
  refine .answering (requests ++ [data]) [] ?_ ?_
  · refine ⟨fun r hr => ?_, ?_, frame_nil_not, ?_, ?_, fun hr => absurd hr refused_nil_not,
      hans.polite hpolite, ?_⟩
    · rcases List.mem_append.mp hr with hr | hr
      · exact h.frame r hr
      · exact List.mem_singleton.mp hr ▸ hframe
    · rw [hans.trace, input_concat, hin, List.flatten_append, List.flatten_singleton]
    · rw [hans.trace, dispatched_concat, List.append_nil, hdis]
    · rw [hans.trace, answers_concat, hanswers, List.length_append, h.answered,
        if_neg refused_nil_not, List.length_append]
      rfl
    · rw [hans.request, hsize]
      exact h.size
  · obtain ⟨hpending, hne⟩ := hans.pending hsent
    refine ⟨hpending, hne, ?_, hans.readFd hread, hans.gone.trans hgone⟩
    refine hfatal.imp_right fun ⟨hterm, hproper, hinit⟩ => ⟨hterm, rfl, ?_, ?_⟩
    · rw [hdispatch, if_pos hproper]
    · rw [hans.init, hinit]
      cases requests <;> rfl

/-- A length that is not acceptable is refused. -/
theorem Filled.refuse (h : Filled s requests data) (hlen : 5 ≤ data.length)
    (hno : ¬ requestFraming.Accepts (u32 data)) {code : UInt8}
    (hcode : code = if u32 data < 5 then responseBadRequest else responseOversized) :
    Inv (simpleResponse s code) := by
  have hans := simpleResponse_answers s code
  have hfatal : responseFatal ≤ code := by
    rw [hcode]
    split <;> decide
  obtain ⟨hterm, hread⟩ := simpleResponse_term s hfatal
  obtain ⟨hpending, hne⟩ := hans.pending h.sent
  have hrefused : requestFraming.Refused data := ⟨hlen, hno⟩
  refine .answering requests data ?_ ⟨hpending, hne, .inl hterm, hread, hans.gone.trans h.gone⟩
  refine ⟨h.frame, ?_, fun hc => hno hc.2.1, ?_, ?_, fun _ => ?_, hans.polite h.polite, ?_⟩
  · rw [hans.trace, input_concat, List.append_nil, h.input]
  · rw [hans.trace, dispatched_concat, List.append_nil, h.dispatched, h.proper]
  · rw [hans.trace, answers_concat, List.length_append, h.answered, if_pos hrefused]
    rfl
  · rw [hans.trace, answers_concat, List.getLast?_concat, hcode]
    rfl
  · rw [hans.request]
    exact h.size

/-- The code of a request in the buffer. -/
theorem startRequest_eq {b : Buffer} (hused : b.used = 0) (hlen : 5 ≤ b.data.length) :
    startRequest b = (code b.data, { b with used := 5 }) := by
  have hleft : ¬ b.left < 4 := by
    rw [Buffer.left]
    omega
  have hleft' : ¬ ({ b with used := 4 } : Buffer).left < 1 := by
    show ¬ b.data.length - 4 < 1
    omega
  have hcode : ((b.data.drop 4).take 1).getD 0 0 = code b.data := by
    rw [code, List.getD_eq_getElem?_getD, List.getElem?_take_of_lt Nat.one_pos, List.getElem?_drop,
      List.getD_eq_getElem?_getD]
  rw [startRequest, Buffer.unpackLater, if_neg hleft, hused]
  dsimp only
  rw [Buffer.unpackNow, Buffer.unpackLater, if_neg hleft']
  dsimp only
  rw [hcode]

/-- A hello only fails with a fatal code. -/
theorem doHello_fatal {request : Buffer} {err : UInt8} (h : doHello request = .error err) :
    responseFatal ≤ err := by
  rw [doHello] at h
  split at h
  · cases h
    decide
  · split at h
    · cases h
      decide
    · split at h
      · cases h
        decide
      · split at h
        · cases h
          decide
        · cases h

/-- What a handler answers. -/
theorem dispatch_inv (h : Filled s requests data) (hframe : requestFraming.Frame data)
    (reply : Reply) (hcode : code data < countRequestCodes)
    (hstate : decide (requestHello < code data) = !s.client.init) :
    Inv (dispatch reply (code data) { s with client :=
      { s.client with readFd := false, request := { s.client.request with used := 5 } } }) := by
  by_cases hello : code data = requestHello
  · have hinit : s.client.init = true := by
      rw [hello] at hstate
      rw [← Bool.not_eq_false', ← hstate]
      rfl
    have hproper : Proper s.client.init data := ⟨hcode, fun _ => hinit, fun _ => hello⟩
    rw [dispatch, if_pos hello]
    split
    · -- the hello fails
      rename_i err herr
      have hfatal : responseFatal ≤ err := doHello_fatal herr
      refine h.answer hframe ?_ (simpleResponse_answers _ _) rfl rfl h.gone
        (.inl (simpleResponse_term _ hfatal).1)
      rw [if_pos hproper]
      exact congrArg (fun r => s.trace ++ [Event.dispatched r]) h.data
    · refine h.answer hframe ?_ (simpleResponse_answers _ _) rfl rfl h.gone
        (.inr ⟨h.term, hproper, rfl⟩)
      rw [if_pos hproper]
      exact congrArg (fun r => s.trace ++ [Event.dispatched r]) h.data
  · have hinit : s.client.init = false := by
      have hpos : requestHello < code data := UInt8.pos_iff_ne_zero.mpr hello
      rw [decide_eq_true hpos] at hstate
      rw [← Bool.not_eq_true', ← hstate]
    have hproper : Proper s.client.init data :=
      ⟨hcode, fun hc => absurd hc hello, fun hi => absurd (hinit.symm.trans hi) Bool.false_ne_true⟩
    obtain ⟨response, hans⟩ := respond_answers
      (Session.log { s with client :=
        { s.client with readFd := false, request := { s.client.request with used := 5 } } }
        (.dispatched s.client.request.data)) reply
    rw [dispatch, if_neg hello]
    refine h.answer hframe ?_ hans rfl rfl h.gone
      (hans.term.imp_right fun ht => ⟨ht.trans h.term, hproper, hinit⟩)
    rw [if_pos hproper]
    exact congrArg (fun r => s.trace ++ [Event.dispatched r]) h.data

theorem takeRequest_inv (h : Filled s requests data) (hframe : requestFraming.Frame data)
    (reply : Reply) : Inv (takeRequest reply s) := by
  have hlen : 5 ≤ data.length := hframe.length ▸ hframe.accepts.1
  have hdispatch := dispatch_inv h hframe reply
  rw [takeRequest, startRequest_eq h.used (h.data ▸ hlen)]
  dsimp only
  rw [show code s.client.request.data = code data by rw [h.data]]
  split
  · -- the code is not known
    rename_i hcode
    have hno : ¬ Proper s.client.init data := fun hp => absurd hp.1 (UInt8.not_lt.mpr hcode)
    refine h.answer hframe ?_ (simpleResponse_answers _ _) rfl rfl h.gone
      (.inl (simpleResponse_term _ (by decide)).1)
    rw [if_neg hno, List.append_nil]
  · rename_i hcode
    split
    · -- the first request must be a hello, and no other
      rename_i hstate
      have hno : ¬ Proper s.client.init data := by
        rintro ⟨-, hfirst⟩
        by_cases hello : code data = requestHello
        · rw [hello, hfirst.mp hello] at hstate
          exact hstate rfl
        · have hinit : s.client.init = false := by
            rw [← Bool.not_eq_true]
            exact fun hi => hello (hfirst.mpr hi)
          refine hstate ?_
          have hpos : requestHello < code data := UInt8.pos_iff_ne_zero.mpr hello
          rw [hinit, decide_eq_true hpos]
          rfl
      refine h.answer hframe ?_ (simpleResponse_answers _ _) rfl rfl h.gone
        (.inl (simpleResponse_term _ (by decide)).1)
      rw [if_neg hno, List.append_nil]
    · rename_i hstate
      exact hdispatch (UInt8.not_le.mp hcode) (not_not.mp hstate)

end Take

/-! ## The calls -/

section Calls

variable {s s' : Session} {requests : List (List UInt8)} {data extra : List UInt8}

theorem Account.of_eq (h : Account s requests extra)
    (hin : Ovsqlite.input s'.trace = Ovsqlite.input s.trace)
    (hdis : Ovsqlite.dispatched s'.trace = Ovsqlite.dispatched s.trace)
    (hans : answers s'.trace = answers s.trace) (hpolite : Polite s'.trace)
    (hsize : s'.client.request.size = s.client.request.size) : Account s' requests extra where
  frame := h.frame
  input := hin.trans h.input
  incomplete := h.incomplete
  dispatched := hdis.trans h.dispatched
  answered := hans ▸ h.answered
  refused hr := hans ▸ h.refused hr
  polite := hpolite
  size := hsize ▸ h.size

/-- The peer is gone. -/
theorem Account.hangup (h : Account s requests extra) : Inv (s.log .hangup).delClient := by
  refine .closed requests extra (h.of_eq ?_ ?_ ?_ ?_ rfl) ⟨rfl, rfl, rfl, .inl ?_⟩
  · exact (input_concat _ _).trans (List.append_nil _)
  · exact (dispatched_concat _ _).trans (List.append_nil _)
  · exact (answers_concat _ _).trans (List.append_nil _)
  · exact h.polite.concat fun _ _ heq => nomatch heq
  · exact List.mem_append_right _ (List.mem_singleton.mpr rfl)

/-- One call of `handle_read`, by induction on what its reads return. -/
theorem handleRead_inv {reply : Reply} {results : List ReadResult}
    (hread : handleRead reply results s = some s') (h : Filled s requests data)
    (ha : Awaited s.client.request.size data)
    (hknown : data.length = 4 → requestFraming.Accepts (u32 data) ∧
      u32 data ≤ s.client.request.size) : Inv s' := by
  induction results generalizing s data with
  | nil => cases hread
  | cons result results ih =>
    obtain ⟨hpos, hle, hlong, hshort⟩ := h.wanted_le ha hknown
    have hask := h.ask hle
    unfold handleRead at hread
    cases result with
    | again =>
      cases hread
      exact .reading requests data hask ha
    | intr => exact ih hread hask ha hknown
    | fails | eof =>
      cases hread
      exact (hask.account ha).hangup
    | bytes bytes =>
      dsimp only at hread
      split at hread
      · cases hread
      · rename_i hresult
        have hbytes : bytes ≠ [] := fun hnil => hresult (.inr ⟨hnil, by omega⟩)
        have hmax : bytes.length ≤ wanted s.client.request :=
          Nat.le_of_not_lt fun hlt => hresult (.inl hlt)
        rw [if_neg hbytes] at hread
        have hfill := hask.fill bytes
        have hlen : (data ++ bytes).length = data.length + bytes.length := List.length_append
        have hu32 : 4 ≤ data.length → u32 (data ++ bytes) = u32 data := u32_append bytes
        split at hread
        · -- not all that was asked for
          rename_i hlt
          cases hread
          refine .reading requests (data ++ bytes) hfill ?_
          rw [Awaited]
          by_cases h4 : 4 ≤ data.length
          · obtain ⟨hsum, hacc⟩ := hlong h4
            refine .inr ?_
            rw [hu32 h4, hlen]
            refine ⟨hacc, by omega, ?_⟩
            show u32 data ≤ s.client.request.size
            rw [h.left] at hle
            omega
          · have := hshort (by omega)
            exact .inl (by omega)
        · rename_i hall
          split at hread
          · -- the whole request
            rename_i h4
            cases hread
            rw [decide_eq_true_eq, h.left] at h4
            obtain ⟨hsum, hacc⟩ := hlong h4
            refine takeRequest_inv hfill ⟨?_, ?_⟩ reply
            · show requestFraming.Accepts (u32 (data ++ bytes))
              rw [hu32 h4]
              exact hacc
            · exact hlen.trans (by rw [show requestFraming.size = u32 from rfl, hu32 h4]; omega)
          · -- the length and the code
            rename_i h4
            rw [decide_eq_true_eq, h.left] at h4
            have h5 : (data ++ bytes).length = 5 := by
              have := hshort (by omega)
              omega
            rw [hfill.data, hfill.left] at hread
            split at hread
            · rename_i hsmall
              cases hread
              refine hfill.refuse (Nat.le_of_eq h5.symm) (fun hacc => ?_) (if_pos hsmall).symm
              exact absurd hacc.1 (Nat.not_le.mpr hsmall)
            · rename_i hsmall
              split at hread
              · rename_i hlarge
                cases hread
                refine hfill.refuse (Nat.le_of_eq h5.symm) (fun hacc => ?_) (if_neg hsmall).symm
                exact absurd hacc.2 (Nat.not_lt.mpr hlarge)
              · rename_i hlarge
                have hacc : requestFraming.Accepts (u32 (data ++ bytes)) :=
                  ⟨Nat.le_of_not_lt hsmall, Nat.lt_of_not_le hlarge⟩
                split at hread
                · rename_i hwhole
                  cases hread
                  refine takeRequest_inv hfill ⟨hacc, ?_⟩ reply
                  exact Nat.le_antisymm (h5 ▸ Nat.le_of_not_lt hsmall) hwhole
                · rename_i hwhole
                  refine ih hread (hfill.resize (by omega)) (.inr ⟨hacc, by omega, ?_⟩) fun h4 => ?_
                  · exact Buffer.le_size_resize _ _
                  · omega

/-- One call of `handle_write`. -/
theorem handleWrite_inv {result : WriteResult} (hwrite : handleWrite s result = some s')
    (h : Account s requests extra) (ha : Answering s requests extra) : Inv s' := by
  cases result with
  | again =>
    cases hwrite
    exact .answering requests extra h ha
  | fails =>
    cases hwrite
    exact h.hangup
  | wrote n =>
    rw [handleWrite] at hwrite
    dsimp only at hwrite
    split at hwrite
    · cases hwrite
    · rename_i hn
      obtain ⟨pending, hpending⟩ :
        ∃ p, p = s.client.response.data.drop s.client.response.used := ⟨_, rfl⟩
      have hleft : s.client.response.left = pending.length := by
        rw [hpending, List.length_drop, Buffer.left]
      have htake : (output (s.trace ++ [.wrote (pending.take n)])) ++ pending.drop n =
          (answers (s.trace ++ [.wrote (pending.take n)])).flatten := by
        rw [output_concat, answers_concat, List.append_nil, List.append_assoc,
          List.take_append_drop, hpending, ha.pending]
      have haccount : ∀ c : Client, c.request.size = s.client.request.size →
          Account ⟨c, s.trace ++ [.wrote (pending.take n)]⟩ requests extra := fun c hc =>
        h.of_eq ((input_concat _ _).trans (List.append_nil _))
          ((dispatched_concat _ _).trans (List.append_nil _))
          ((answers_concat _ _).trans (List.append_nil _))
          (h.polite.concat (fun _ _ heq => nomatch heq)) hc
      rw [← hpending, hleft] at hwrite
      rw [hleft] at hn
      split at hwrite
      · -- a part of the response
        rename_i hlt
        cases hwrite
        refine .answering requests extra (haccount _ rfl) ⟨?_, ?_, ha.fatal, ha.readFd, ha.gone⟩
        · show _ ++ s.client.response.data.drop (s.client.response.used + n) = _
          rw [← List.drop_drop, ← hpending]
          exact htake
        · show s.client.response.data.drop (s.client.response.used + n) ≠ []
          rw [← List.drop_drop, ← hpending]
          exact fun hnil => by rw [List.drop_eq_nil_iff] at hnil; omega
      · rename_i hall
        have hsent : output (s.trace ++ [.wrote (pending.take n)]) =
            (answers (s.trace ++ [.wrote (pending.take n)])).flatten := by
          rw [← htake, List.drop_eq_nil_iff.mpr (by omega), List.append_nil]
        split at hwrite
        · -- after a fatal response
          rename_i hterm
          cases hwrite
          exact .closed requests extra (haccount _ rfl) ⟨rfl, rfl, rfl, .inr ⟨hterm, hsent⟩⟩
        · -- ready for the next request
          rename_i hterm
          cases hwrite
          rcases ha.fatal with hfatal | ⟨hfalse, rfl, hproper, hinit⟩
          · exact absurd hfatal hterm
          · have hacc := haccount { s.client with
              response := { s.client.response with used := s.client.response.used + n }
              request := s.client.request.set [], writeFd := false, readFd := true } rfl
            refine .reading requests [] ?_ (.inl (Nat.zero_le _))
            exact
              { frame := h.frame
                input := hacc.input
                dispatched := hacc.dispatched.trans hproper
                proper := hproper
                answered := hacc.answered.trans (by rw [if_neg refused_nil_not, Nat.add_zero])
                sent := hsent
                polite := hacc.polite
                size := h.size
                data := rfl
                used := rfl
                init := hinit
                readFd := rfl
                writeFd := rfl
                term := hfalse
                gone := ha.gone }

theorem addClient_inv : Inv addClient :=
  .reading [] []
    { frame := fun _ hr => nomatch hr
      input := rfl
      dispatched := rfl
      proper := rfl
      answered := rfl
      sent := rfl
      polite := polite_nil
      size := by decide
      data := rfl
      used := rfl
      init := rfl
      readFd := rfl
      writeFd := rfl
      term := rfl
      gone := rfl }
    (.inl (Nat.zero_le _))

/-- A call for a socket that is watched. -/
theorem next_inv {call : Call} (hnext : guarded KnownLength Next s call s') (h : Inv s) :
    Inv s' := by
  obtain ⟨hknown, hstep⟩ := hnext
  cases call with
  | read results reply =>
    rw [Next, step] at hstep
    split at hstep
    · rename_i hfd
      cases h with
      | reading requests data hf ha =>
        refine handleRead_inv hstep hf ha ?_
        rw [KnownLength, hf.data] at hknown
        exact hknown
      | answering _ _ _ ha => exact absurd (ha.readFd.symm.trans hfd) Bool.false_ne_true
      | closed _ _ _ hc => exact absurd (hc.readFd.symm.trans hfd) Bool.false_ne_true
    · cases hstep
  | write result =>
    rw [Next, step] at hstep
    split at hstep
    · rename_i hfd
      cases h with
      | reading _ _ hf _ => exact absurd (hf.writeFd.symm.trans hfd) Bool.false_ne_true
      | answering requests extra hacc ha => exact handleWrite_inv hstep hacc ha
      | closed _ _ _ hc => exact absurd (hc.writeFd.symm.trans hfd) Bool.false_ne_true
    · cases hstep

theorem Account.framed (h : Account s requests extra)
    (hrefused : requestFraming.Refused extra → s.client.readFd = false ∧
      (s.client.gone = true ∨ output s.trace ≠ (answers s.trace).flatten))
    (hclosed : s.client.gone = true → .hangup ∈ s.trace ∨
      s.client.term = true ∧ output s.trace = (answers s.trace).flatten) : Framed s := by
  have hframes : requestFraming.frames (Ovsqlite.input s.trace) = requests := by
    rw [h.input]
    exact Framing.frames_flatten h.frame h.incomplete
  have hrest : requestFraming.rest (Ovsqlite.input s.trace) = extra := by
    rw [h.input]
    exact Framing.rest_flatten h.frame h.incomplete
  constructor
  · rw [hframes]
    exact h.dispatched
  · rw [hframes, hrest]
    exact h.answered
  · rw [hrest]
    exact fun hr => ⟨h.refused hr, hrefused hr⟩
  · exact h.polite.fits
  · exact h.polite.quiet
  · exact hclosed

theorem Inv.framed (h : Inv s) : Framed s := by
  cases h with
  | reading requests data hf ha =>
    refine (hf.account ha).framed (fun hr => absurd hr ha.not_refused) fun hg => ?_
    exact absurd (hf.gone.symm.trans hg) Bool.false_ne_true
  | answering requests extra hacc ha =>
    refine hacc.framed (fun _ => ⟨ha.readFd, .inr fun heq => ha.ne_nil ?_⟩) fun hg => ?_
    · have := ha.pending
      rwa [← heq, List.append_right_eq_self] at this
    · exact absurd (ha.gone.symm.trans hg) Bool.false_ne_true
  | closed requests extra hacc hc =>
    exact hacc.framed (fun _ => ⟨hc.readFd, .inl hc.gone⟩) fun _ => hc.why

end Calls

/-- If no call of `handle_read` starts with four bytes whose length is not acceptable or
does not fit, the stream of a client is treated as it should be, however it arrives. -/
theorem framed_of_known {s : Session} {calls : List Call}
    (h : Steps (guarded KnownLength Next) addClient calls s) : Framed s :=
  (h.invariant (fun _ _ _ hnext hinv => next_inv hnext hinv) addClient_inv).framed

/-- A hello request. -/
def hello : List UInt8 := [13, 0, 0, 0, 0, 1, 0, 0, 0, 3, 0, 0, 0]

/-- It arrives in three pieces, none of which ends behind the length. -/
def helloCalls : List Call :=
  [.read [.bytes (hello.take 2)] (.simple 0), .read [.bytes ((hello.take 5).drop 2), .again] (.simple 0),
    .read [.bytes (hello.drop 5)] (.simple 0), .write (.wrote 5)]

theorem framed_hello : ∃ s, Steps (guarded KnownLength Next) addClient helloCalls s ∧ Framed s ∧
    dispatched s.trace = [hello] := by
  have hrun : ∀ {s}, helloCalls.foldlM (fun s call => if KnownLength s call then step s call else none)
      addClient = some s → Steps (guarded KnownLength Next) addClient helloCalls s := fun h =>
    (Steps.of_foldlM h).mono fun s call s' hstep => by
      by_cases hk : KnownLength s call
      · rw [if_pos hk] at hstep
        exact ⟨hk, hstep⟩
      · rw [if_neg hk] at hstep
        cases hstep
  have hsteps := hrun (Option.some_get (by decide)).symm
  exact ⟨_, hsteps, framed_of_known hsteps, by decide⟩

/-! ## A length that is not checked -/

/-- A client sends the length 0x100000, and waits. -/
def oversizedCalls : List Call :=
  [.read [.bytes (u32Bytes 0x100000)] (.simple 0), .read [.again] (.simple 0)]

/-- The server has asked for more than a megabyte to be put into a kilobyte. -/
theorem oversized_accepted :
    ¬ ∀ calls s, Steps Next addClient calls s → Framed s := by
  intro hall
  have hsteps : Steps Next addClient oversizedCalls _ :=
    Steps.of_foldlM (Option.some_get (by decide)).symm
  have hfits := (hall oversizedCalls _ hsteps).fits 0xffffc 0x3fc (by decide)
  exact absurd hfits (by decide)

end Inn.Ovsqlite
