import Inn.Frames
import Mathlib.Algebra.Ring.Nat
import Mathlib.Data.UInt

/-!
# Inn.Ovsqlite.Requests — how the overview server reads requests

`ovsqlite-server.c` serves each client over a stream socket. A request and a response
begin with their length in four bytes (least significant first here, the byte order being
the machine's) and a code.

* `Buffer` — the counted buffers of `lib/buffer.c`, with the packing and unpacking
  functions of `ovsqlite-private.c`;
* `Client` — `client_t`, with the two bits `select` watches for its socket;
* `handleRead`, `handleWrite` — what the server does when the socket is ready. The
  results of the system calls, and the reply of the handler a request is dispatched
  to, are given from outside.

A `Session` keeps, beside the client, the list of what has happened so far.
-/

namespace Inn.Ovsqlite

/-! ## Buffers -/

/-- `struct buffer`: an allocated block of `size` bytes, of which `data` holds those
written so far, the first `used` of them consumed. -/
structure Buffer where
  size : ℕ
  data : List UInt8
  used : ℕ
deriving DecidableEq, Repr

namespace Buffer

/-- `left`: the bytes not consumed. -/
def left (b : Buffer) : ℕ := b.data.length - b.used

/-- `buffer_resize`: sizes are multiples of 1024, and never shrink. -/
def resize (b : Buffer) (size : ℕ) : Buffer :=
  if size < b.size then b else { b with size := (size + 1023) / 1024 * 1024 }

/-- `buffer_set`. -/
def set (b : Buffer) (data : List UInt8) : Buffer :=
  { (if 0 < data.length then b.resize data.length else b) with data := data, used := 0 }

/-- `buffer_append`. -/
def append (b : Buffer) (data : List UInt8) : Buffer :=
  if data.length = 0 then b
  else
    let b := b.resize (b.used + b.left + data.length)
    { b with data := b.data ++ data }

/-- `unpack_later`: take `count` bytes, if there are as many. -/
def unpackLater (src : Buffer) (count : ℕ) : Option (List UInt8 × Buffer) :=
  if src.left < count then none
  else some ((src.data.drop src.used).take count, { src with used := src.used + count })

/-- `unpack_now`: the same, with the bytes copied. -/
def unpackNow (src : Buffer) (count : ℕ) : Option (List UInt8 × Buffer) := src.unpackLater count

/-- `pack_now`: append bytes. -/
def packNow (dst : Buffer) (bytes : List UInt8) : Buffer := dst.append bytes

/-- `pack_later`: room for `count` bytes to be filled in later. -/
def packLater (dst : Buffer) (count : ℕ) : Buffer :=
  let dst := dst.resize (dst.used + dst.left + count)
  { dst with data := dst.data ++ List.replicate count 0 }

end Buffer

/-- A `uint32_t` in memory. -/
def u32 (bytes : List UInt8) : ℕ :=
  (bytes.getD 0 0).toNat + 256 * ((bytes.getD 1 0).toNat +
    256 * ((bytes.getD 2 0).toNat + 256 * (bytes.getD 3 0).toNat))

/-- The four bytes of a `uint32_t`. -/
def u32Bytes (n : ℕ) : List UInt8 :=
  [UInt8.ofNat n, UInt8.ofNat (n / 256), UInt8.ofNat (n / 256 / 256),
    UInt8.ofNat (n / 256 / 256 / 256)]

/-! ## Clients -/

def requestHello : UInt8 := 0
def countRequestCodes : UInt8 := 13

def responseOk : UInt8 := 0
def responseFatal : UInt8 := 0xC0
def responseBadRequest : UInt8 := 0xC1
def responseOversized : UInt8 := 0xC2
def responseWrongState : UInt8 := 0xC3
def responseWrongVersion : UInt8 := 0xC4

/-- `OVSQLITE_PROTOCOL_VERSION`. -/
def protocolVersion : ℕ := 1

/-- `INITIAL_CAPACITY`. -/
def initialCapacity : ℕ := 0x400

/-- `client_t`: the flags, the buffers, whether the socket is in `read_fds` and in
`write_fds`, and whether the client is gone. -/
structure Client where
  init : Bool
  term : Bool
  request : Buffer
  response : Buffer
  readFd : Bool
  writeFd : Bool
  gone : Bool
deriving DecidableEq, Repr

/-- What happens between the server and one client. -/
inductive Event where
  /-- `read` is called for so many bytes, with so many bytes of the buffer free. -/
  | asked (want room : ℕ)
  | received (bytes : List UInt8)
  /-- The socket is at its end, or has failed. -/
  | hangup
  | dispatched (request : List UInt8)
  | answered (response : List UInt8)
  | wrote (bytes : List UInt8)
deriving DecidableEq, Repr

structure Session where
  client : Client
  trace : List Event
deriving DecidableEq, Repr

namespace Session

/-- One more event. -/
def log (s : Session) (e : Event) : Session := { s with trace := s.trace ++ [e] }

/-- `del_client`. -/
def delClient (s : Session) : Session :=
  { s with client := { s.client with readFd := false, writeFd := false, gone := true } }

end Session

/-- `add_client`. -/
def addClient : Session where
  client :=
    { init := true, term := false
      request := (⟨0, [], 0⟩ : Buffer).resize initialCapacity
      response := (⟨0, [], 0⟩ : Buffer).resize initialCapacity
      readFd := true, writeFd := false, gone := false }
  trace := []

/-- `start_response`. -/
def startResponse (c : Client) (code : UInt8) : Client :=
  { c with response := ((c.response.set []).packLater 4).packNow [code] }

/-- `finish_response`: the length goes into the first four bytes. -/
def finishResponse (s : Session) : Session :=
  let response := s.client.response
  let data := u32Bytes response.left ++ response.data.drop 4
  { client := { s.client with response := { response with data := data }, writeFd := true }
    trace := s.trace ++ [.answered data] }

/-- `simple_response`. -/
def simpleResponse (s : Session) (code : UInt8) : Session :=
  let s := finishResponse { s with client := startResponse s.client code }
  if responseFatal ≤ code then { s with client := { s.client with term := true, readFd := false } }
  else s

/-- How a handler answers: with a code alone, or with a code and more data. -/
inductive Reply where
  | simple (code : UInt8)
  | packed (code : UInt8) (body : List UInt8)
deriving DecidableEq, Repr

/-- The response of a handler. -/
def respond (s : Session) : Reply → Session
  | .simple code => simpleResponse s code
  | .packed code body =>
    let c := startResponse s.client code
    finishResponse { s with client := { c with response := c.response.packNow body } }

/-- `do_hello`, on a system with Unix-domain sockets: whether it succeeds, or the code
it fails with. The mode only matters to the requests that follow. -/
def doHello (request : Buffer) : Except UInt8 Unit :=
  match request.unpackNow 4 with
  | none => .error responseBadRequest
  | some (version, request) =>
    match request.unpackNow 4 with
    | none => .error responseBadRequest
    | some (_, request) =>
      if request.left ≠ 0 then .error responseBadRequest
      else if u32 version ≠ protocolVersion then .error responseWrongVersion
      else .ok ()

/-- `dispatch`: `do_hello` for the first request, and for the others a handler that
answers with `reply`. -/
def dispatch (reply : Reply) (code : UInt8) (s : Session) : Session :=
  let s := s.log (.dispatched s.client.request.data)
  if code = requestHello then
    match doHello s.client.request with
    | .error err => simpleResponse s err
    | .ok () => simpleResponse { s with client := { s.client with init := false } } responseOk
  else respond s reply

/-- `start_request`: the code, the length and the code being consumed. -/
def startRequest (b : Buffer) : UInt8 × Buffer :=
  match b.unpackLater 4 with
  | none => (0, b)
  | some (_, b) =>
    match b.unpackNow 1 with
    | none => (0, b)
    | some (code, b) => (code.getD 0 0, b)

/-- The end of `handle_read`, with a whole request in the buffer. -/
def takeRequest (reply : Reply) (s : Session) : Session :=
  let code := (startRequest s.client.request).1
  let s := { s with client :=
    { s.client with readFd := false, request := (startRequest s.client.request).2 } }
  if countRequestCodes ≤ code then simpleResponse s responseBadRequest
  else if decide (requestHello < code) ≠ !s.client.init then simpleResponse s responseWrongState
  else dispatch reply code s

/-- What `read` returns. -/
inductive ReadResult where
  | bytes (bytes : List UInt8)
  | again
  | intr
  | fails
  | eof
deriving DecidableEq, Repr

/-- `request_size - left`, in a `size_t`. -/
def sizeSub (requestSize left : ℕ) : ℕ := (requestSize + 2 ^ 64 - left) % 2 ^ 64

/-- The bytes `handle_read` asks for. -/
def wanted (request : Buffer) : ℕ :=
  if 4 ≤ request.left then sizeSub (u32 request.data) request.left else 5 - request.left

/-- The bytes a read brings go behind those in the buffer. -/
def Session.fill (s : Session) (bytes : List UInt8) : Session :=
  { client := { s.client with
      request := { s.client.request with data := s.client.request.data ++ bytes } }
    trace := s.trace ++ [.received bytes] }

/-- `handle_read`, given what each call of `read` returns. A read of nothing returns
nothing. `none`: a call of `read` has not returned, or not with this. -/
def handleRead (reply : Reply) : List ReadResult → Session → Option Session
  | [], _ => none
  | result :: results, s =>
    let haveSize : Bool := 4 ≤ s.client.request.left
    let want := wanted s.client.request
    let s := s.log (.asked want (s.client.request.size - s.client.request.left))
    match result with
    | .again => some s
    | .intr => handleRead reply results s
    | .fails | .eof => some (s.log .hangup).delClient
    | .bytes bytes =>
      if want < bytes.length ∨ (bytes = [] ∧ want ≠ 0) then none
      else if bytes = [] then some s.delClient
      else
        let s := s.fill bytes
        if bytes.length < want then some s
        else if haveSize then some (takeRequest reply s)
        else
          let requestSize := u32 s.client.request.data
          if requestSize < 5 then some (simpleResponse s responseBadRequest)
          else if 0x100000 ≤ requestSize then some (simpleResponse s responseOversized)
          else if requestSize ≤ s.client.request.left then some (takeRequest reply s)
          else handleRead reply results { s with client :=
            { s.client with request := s.client.request.resize requestSize } }

/-- What `write` returns in the end: a count, a socket that is not ready, or failure. -/
inductive WriteResult where
  | wrote (n : ℕ)
  | again
  | fails
deriving DecidableEq, Repr

/-- `handle_write`. -/
def handleWrite (s : Session) : WriteResult → Option Session
  | .again => some s
  | .fails => some (s.log .hangup).delClient
  | .wrote n =>
    let response := s.client.response
    if response.left < n then none
    else
      let s : Session :=
        { client := { s.client with response := { response with used := response.used + n } }
          trace := s.trace ++ [.wrote ((response.data.drop response.used).take n)] }
      if n < response.left then some s
      else if s.client.term then some s.delClient
      else some { s with client :=
        { s.client with request := s.client.request.set [], writeFd := false, readFd := true } }

/-- What `mainloop` calls when the socket is ready. -/
inductive Call where
  | read (results : List ReadResult) (reply : Reply)
  | write (result : WriteResult)
deriving DecidableEq, Repr

/-- One call, for a socket that `select` was asked to watch. -/
def step (s : Session) : Call → Option Session
  | .read results reply => if s.client.readFd then handleRead reply results s else none
  | .write result => if s.client.writeFd then handleWrite s result else none

end Inn.Ovsqlite
