import Inn.Resume
import Inn.Innd.Channel

/-!
# Inn.Innd.Parse — `ARTparse`

The parser of `art.c` is a pair of loops over the octets from `Next` on, one for the
headers and one for the body. A loop waits for more data when fewer than five octets
follow a CR, and leaves off there; `parseStep` is one round of the loop the channel
is in, with the loop variable `i` kept in `Next`, where it is stored when the loop ends.
-/

namespace Inn.Innd

open ChannelState HeaderType

/-- `NNTP_FAIL_IHAVE_REJECT` or `NNTP_FAIL_TAKETHIS_REJECT`; a response has been
prepared only for TAKETHIS. -/
def CHANNEL.rejectCode (cp : CHANNEL) : List UInt8 :=
  if 3 < cp.SendidSize then octets "439" else octets "437"

/-- `ARTerror`. -/
def ARTerror (cp : CHANNEL) (text : List UInt8) : CHANNEL :=
  { cp with Error := cp.rejectCode ++ octets " " ++ text }

/-- The article data before anything of an article that begins at `start` was seen. -/
def preparedData (start : ℕ) : ARTDATA where
  Body := start
  CurHeader := start
  Lines := 0
  HeaderLines := 0
  CRwithoutLF := 0
  LFwithoutCR := 0
  DotStuffedLines := 0
  BytesHeader := none
  HdrContent := fun _ => ⟨none, 0, 13⟩

/-- `ARTprepare`. -/
def ARTprepare (cp : CHANNEL) : CHANNEL := { cp with Error := [], Data := preparedData cp.Start }

/-! ## Header fields -/

/-- The last position before `colon`, but not the first of the field, with a white
character. -/
def whiteBefore (header : List UInt8) : ℕ → Option ℕ
  | 0 => none
  | 1 => none
  | p + 2 => if ISWHITE (header.getD (p + 1) 0) then some (p + 1) else whiteBefore header (p + 1)

/-- What `ARTcheckheader` complains about, if anything. -/
def headerError (header : List UInt8) : Option (List UInt8) :=
  match header.findIdx? (· == 58) with
  | none => some (octets "No colon-space in \"" ++ MaxLength (header.takeWhile (· != 13)) ++
      octets "\" header field")
  | some colon =>
    if ISWHITE (header.getD (colon + 1) 0) = false then
      some (octets "No colon-space in \"" ++ MaxLength (header.takeWhile (· != 13)) ++
        octets "\" header field")
    else if findHeader (cString (header.take colon)) = none then
      (whiteBefore header colon).map fun p =>
        octets "Space before colon in \"" ++ MaxLength (header.take p) ++ octets "\" header field"
    else none

/-- The system header field a header field without error is, if any, and where its
colon is. -/
def systemHeader (header : List UInt8) : Option (ℕ × ℕ) := do
  let colon ← header.findIdx? (· == 58)
  let i ← findHeader (cString (header.take colon))
  return (i, colon)

/-- `p` moved forward over white characters, up to `stop`. -/
def skipWhite (header : List UInt8) (stop : ℕ) : ℕ → ℕ → ℕ
  | 0, p => p
  | fuel + 1, p =>
    if p < stop ∧ ISWHITE (header.getD p 0) = true then skipWhite header stop fuel (p + 1) else p

/-- `p` moved back over white characters, down to `start`. -/
def skipWhiteBack (header : List UInt8) (start : ℕ) : ℕ → ℕ
  | 0 => 0
  | p + 1 =>
    if start < p + 1 ∧ ISWHITE (header.getD (p + 1) 0) = true then skipWhiteBack header start p
    else p + 1

/-- Leading and trailing white characters are not part of these field bodies. -/
def trimmed (conf : Innconf) (i : ℕ) : Bool :=
  i == HDR_MESSAGE_ID || i == HDR_SUPERSEDES || (conf.xrefslave && i == HDR_XREF)

/-- Where the field body begins and how long it is, for a field of `header.length` octets
with its line end. -/
def fieldBody (conf : Innconf) (i : ℕ) (header : List UInt8) (colon : ℕ) : ℕ × ℤ :=
  if trimmed conf i then
    let value := skipWhite header (header.length - 2) header.length (colon + 1)
    (value, (skipWhiteBack header value (header.length - 3) : ℤ) - value + 1)
  else (colon + 2, (header.length : ℤ) - (colon + 2) - 2)

/-- What `ARTcheckheader` records of the system header field `i`, which begins at `start`. -/
def recordHeader (conf : Innconf) (header : List UInt8) (start : ℤ) (i colon : ℕ)
    (hc : HDRCONTENT) : HDRCONTENT :=
  if hc.Length ≠ 0 then
    -- duplicated required header field
    if (ARTheaders[i]?.map (·.type)) = some HTreq then { hc with Length := -1 } else hc
  else
    { hc with
      Value := some (start + (fieldBody conf i header colon).1)
      Length := (fieldBody conf i header colon).2 }

/-- `ARTcheckheader`; `size` includes the line end. -/
def ARTcheckheader (conf : Innconf) (cp : CHANNEL) (size : ℕ) : CHANNEL :=
  let header := cp.slice cp.Data.CurHeader size
  let start : ℤ := cp.In.data + cp.Data.CurHeader
  match headerError header with
  | some text => ARTerror cp text
  | none =>
    match systemHeader header with
    | none => cp
    | some (i, colon) =>
      { cp with
        Data :=
          { cp.Data with
            BytesHeader := if i = HDR_BYTES then some start else cp.Data.BytesHeader
            HdrContent := Function.update cp.Data.HdrContent i
              (recordHeader conf header start i colon (cp.Data.HdrContent i)) } }

/-! ## The loops -/

/-- CR LF. -/
def CRLF : List UInt8 := [13, 10]

/-- The article terminator, CR LF `.` CR LF. -/
def TERMINATOR : List UInt8 := [13, 10, 46, 13, 10]

/-- The terminator at the start of the article or of the body. -/
def DOTCRLF : List UInt8 := [46, 13, 10]

/-- `memcmp(&bp->data[i], text, sizeof(text)) == 0`. -/
def CHANNEL.memcmp (cp : CHANNEL) (i : ℕ) (text : List UInt8) : Bool :=
  cp.slice i text.length == text

/-- `data->HeaderLines++`. -/
def CHANNEL.countHeaderLine (cp : CHANNEL) : CHANNEL :=
  { cp with Data := { cp.Data with HeaderLines := cp.Data.HeaderLines + 1 } }

/-- `data->Lines++`. -/
def CHANNEL.countLine (cp : CHANNEL) : CHANNEL :=
  { cp with Data := { cp.Data with Lines := cp.Data.Lines + 1 } }

/-- `data->CRwithoutLF++`. -/
def CHANNEL.countCR (cp : CHANNEL) : CHANNEL :=
  { cp with Data := { cp.Data with CRwithoutLF := cp.Data.CRwithoutLF + 1 } }

/-- `data->LFwithoutCR++`. -/
def CHANNEL.countLF (cp : CHANNEL) : CHANNEL :=
  { cp with Data := { cp.Data with LFwithoutCR := cp.Data.LFwithoutCR + 1 } }

/-- `data->DotStuffedLines++`. -/
def CHANNEL.countDotStuffed (cp : CHANNEL) : CHANNEL :=
  { cp with Data := { cp.Data with DotStuffedLines := cp.Data.DotStuffedLines + 1 } }

/-- The counting of octets that both loops begin with. -/
def countOctet (cp : CHANNEL) (c : UInt8) (text : String) : CHANNEL :=
  let cp := if c = 0 then ARTerror cp (octets text) else cp
  if c = 10 then cp.countLF else cp

/-- A new header field begins at `i`: check the one before it. -/
def newHeader (conf : Innconf) (cp : CHANNEL) (i : ℕ) : CHANNEL :=
  let cp := ARTcheckheader conf cp (i - cp.Data.CurHeader)
  { cp with Data := { cp.Data with CurHeader := i } }

/-- A header line that begins at `i`, after the line end of another one. -/
def headerLine (conf : Innconf) (cp : CHANNEL) (i : ℕ) : CHANNEL :=
  let c := cp.char i
  let cp := cp.countHeaderLine
  let cp := if ISWHITE c = false then newHeader conf cp i else cp
  -- remember that the line begins with a dot
  if c = 46 then cp.countDotStuffed else cp

/-- The body begins at `i`. -/
def startBody (cp : CHANNEL) (i : ℕ) : CHANNEL :=
  { cp with State := CSgetbody, Next := i, Data := { cp.Data with Body := i } }

/-- One round of the loop of `ARTparseheader`; `none` if it has to wait for data. When the
body begins, `ARTparsebody` goes on. -/
def headerStep (conf : Innconf) (cp : CHANNEL) : Option CHANNEL :=
  let i := cp.Next
  if cp.used ≤ i then none
  else if cp.char i ≠ 13 then
    some { countOctet cp (cp.char i) "Nul character in header" with Next := i + 1 }
  else if i = cp.Start + 1 ∧ 1 < cp.used - i ∧ cp.memcmp (i - 1) DOTCRLF = true then
    some { ARTerror cp (octets "Empty article") with State := CSnoarticle, Next := i + 2 }
  else if cp.used - i < 5 then none
  else if cp.memcmp i TERMINATOR = true then
    if i = cp.Start then
      some { ARTerror cp (octets "Empty headers and body") with
        State := CSnoarticle, Next := i + 5 }
    else
      some { ARTerror cp (octets "No body") with State := CSgotarticle, Next := i + 5 }
  else if cp.char (i + 1) = 10 then
    if i = cp.Start then
      -- do not advance, so that the end of the headers is seen
      some (startBody (ARTerror cp (octets "No headers")) (i + 2))
    else
      if cp.char (i + 2) = 13 ∧ cp.char (i + 3) = 10 then
        some (startBody (headerLine conf cp (i + 2)) (i + 4))
      else some { headerLine conf cp (i + 2) with Next := i + 3 }
  else some { cp.countCR with Next := i + 1 }

/-- The state after the terminator. -/
def gotState (cp : CHANNEL) : ChannelState :=
  if cp.State = CSeatarticle then CSgotlargearticle else CSgotarticle

/-- One round of the loop of `ARTparsebody`; `none` if it has to wait for data. -/
def bodyStep (cp : CHANNEL) : Option CHANNEL :=
  let i := cp.Next
  if cp.used ≤ i then none
  else if cp.char i ≠ 13 then
    some { countOctet cp (cp.char i) "Nul character in body" with Next := i + 1 }
  else if i = cp.Data.Body + 1 ∧ 1 < cp.used - i ∧ cp.memcmp (i - 1) DOTCRLF = true then
    some { cp with State := gotState cp, Next := i + 2 }
  else if cp.used - i < 5 then none
  else if cp.memcmp i TERMINATOR = true then
    some { cp.countLine with State := gotState cp, Next := i + 5 }
  else if cp.char (i + 1) = 10 then
    -- check whether the new line begins with a dot
    if cp.char (i + 2) = 46 then some { cp.countLine.countDotStuffed with Next := i + 2 }
    else some { cp.countLine with Next := i + 2 }
  else some { cp.countCR with Next := i + 1 }

/-- One round of the loop the channel is in. -/
def parseStep (conf : Innconf) (cp : CHANNEL) : Option CHANNEL :=
  match cp.State with
  | CSgetheader => headerStep conf cp
  | CSgetbody => bodyStep cp
  | CSeatarticle => bodyStep cp
  | _ => none

/-- The digits of a number. -/
def digits (n : ℕ) : List UInt8 := (Nat.toDigits 10 n).map fun c => UInt8.ofNat c.toNat

/-- `ARTchecksize`, without the local cancel entry for the article. -/
def ARTchecksize (conf : Innconf) (cp : CHANNEL) : CHANNEL :=
  let size := cp.Next - cp.Start
  let cp :=
    if conf.maxartsize ≠ 0 ∧ conf.maxartsize < size then
      if cp.State = CSgotarticle ∨ cp.State = CSgotlargearticle then
        { cp with State := CSgotlargearticle }
      else { cp with State := CSeatarticle }
    else cp
  if cp.State = CSgotlargearticle then
    ARTerror cp (octets "Article of " ++ digits size ++ octets " bytes exceeds local limit of " ++
      digits conf.maxartsize ++ octets " bytes")
  else cp

/-- `ARTparse`: rounds until one has to wait or the article is complete. A round advances
`Next`. -/
def ARTparse (conf : Innconf) (cp : CHANNEL) : CHANNEL :=
  ARTchecksize conf (runSteps (parseStep conf) (cp.used - cp.Next) cp)

end Inn.Innd
