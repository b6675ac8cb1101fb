import Mathlib.Data.List.Basic
import Mathlib.Algebra.Order.Ring.Int

/-!
# Inn.Innd.Channel — the input side of an NNTP channel

A channel reads octets into a growing buffer. The article that is being received
starts at the offset `Start`, and everything before `Next` has been looked at. The
parser also keeps raw pointers to header field bodies, so they have to follow
whenever the buffer moves:

* `CHANresize` reallocates the buffer at another address;
* `CHANNEL.moveData` moves what starts at `Start` to the beginning of the buffer.
-/

namespace Inn.Innd

/-! ## Octets -/

/-- The octets of a C string literal. -/
def octets (text : String) : List UInt8 := text.toList.map fun c => UInt8.ofNat c.toNat

/-- `ISWHITE`. -/
def ISWHITE (c : UInt8) : Bool := c == 32 || c == 9

/-- `tolower` in the C locale. -/
def tolower (c : UInt8) : UInt8 := if 65 ≤ c ∧ c ≤ 90 then c + 32 else c

/-- `strcasecmp(a, b) == 0`. -/
def strcaseEq (a b : List UInt8) : Bool := a.map tolower == b.map tolower

/-- The string at the beginning of an array: what is before its first NUL. -/
def cString (text : List UInt8) : List UInt8 := text.takeWhile (· != 0)

/-- `MaxLength(p, p)`: at most 79 octets, and no line ends. -/
def MaxLength (p : List UInt8) : List UInt8 :=
  (if (cString p).length < 79 then cString p else (cString p).take 76 ++ octets "...").map
    fun c => if c = 10 ∨ c = 13 then 32 else c

/-! ## System header fields -/

/-- `ARTHEADERTYPE`. -/
inductive HeaderType where
  | HTreq
  | HTobs
  | HTstd
  | HTsav
deriving DecidableEq

/-- `ARTHEADER`. -/
structure ARTHEADER where
  Name : String
  type : HeaderType
deriving DecidableEq

/-- `ARTheaders`. -/
def ARTheaders : List ARTHEADER :=
  [⟨"Approved", .HTstd⟩, ⟨"Control", .HTstd⟩, ⟨"Date", .HTreq⟩, ⟨"Distribution", .HTstd⟩,
   ⟨"Expires", .HTstd⟩, ⟨"From", .HTreq⟩, ⟨"Lines", .HTobs⟩, ⟨"Message-ID", .HTreq⟩,
   ⟨"Newsgroups", .HTreq⟩, ⟨"Path", .HTreq⟩, ⟨"Reply-To", .HTstd⟩, ⟨"Sender", .HTstd⟩,
   ⟨"Subject", .HTreq⟩, ⟨"Supersedes", .HTstd⟩, ⟨"Bytes", .HTobs⟩, ⟨"Also-Control", .HTobs⟩,
   ⟨"References", .HTstd⟩, ⟨"Xref", .HTsav⟩, ⟨"Keywords", .HTstd⟩, ⟨"X-Trace", .HTobs⟩,
   ⟨"Date-Received", .HTobs⟩, ⟨"Posted", .HTobs⟩, ⟨"Posting-Version", .HTobs⟩,
   ⟨"Received", .HTobs⟩, ⟨"Relay-Version", .HTobs⟩, ⟨"NNTP-Posting-Host", .HTobs⟩,
   ⟨"Followup-To", .HTstd⟩, ⟨"Organization", .HTstd⟩, ⟨"Content-Type", .HTstd⟩,
   ⟨"Content-Base", .HTstd⟩, ⟨"Content-Disposition", .HTstd⟩, ⟨"X-Newsreader", .HTstd⟩,
   ⟨"X-Mailer", .HTstd⟩, ⟨"X-Newsposter", .HTstd⟩, ⟨"X-Cancelled-By", .HTstd⟩,
   ⟨"X-Canceled-By", .HTstd⟩, ⟨"Cancel-Key", .HTstd⟩, ⟨"User-Agent", .HTstd⟩,
   ⟨"X-Original-Message-ID", .HTstd⟩, ⟨"Cancel-Lock", .HTstd⟩,
   ⟨"Content-Transfer-Encoding", .HTstd⟩, ⟨"Face", .HTstd⟩, ⟨"Injection-Info", .HTstd⟩,
   ⟨"List-ID", .HTstd⟩, ⟨"MIME-Version", .HTstd⟩, ⟨"Originator", .HTstd⟩, ⟨"X-Auth", .HTstd⟩,
   ⟨"X-Complaints-To", .HTobs⟩, ⟨"X-Face", .HTstd⟩, ⟨"X-HTTP-UserAgent", .HTstd⟩,
   ⟨"X-HTTP-Via", .HTstd⟩, ⟨"X-Modbot", .HTstd⟩, ⟨"X-Modtrace", .HTstd⟩, ⟨"X-No-Archive", .HTobs⟩,
   ⟨"X-Original-Trace", .HTstd⟩, ⟨"X-Originating-IP", .HTstd⟩, ⟨"X-PGP-Key", .HTstd⟩,
   ⟨"X-PGP-Sig", .HTstd⟩, ⟨"X-Poster-Trace", .HTstd⟩, ⟨"X-Postfilter", .HTstd⟩,
   ⟨"X-Proxy-User", .HTstd⟩, ⟨"X-Submissions-To", .HTstd⟩, ⟨"X-Usenet-Provider", .HTstd⟩,
   ⟨"In-Reply-To", .HTstd⟩, ⟨"Injection-Date", .HTstd⟩, ⟨"NNTP-Posting-Date", .HTobs⟩,
   ⟨"X-User-ID", .HTstd⟩, ⟨"X-Auth-Sender", .HTstd⟩, ⟨"X-Original-NNTP-Posting-Host", .HTstd⟩,
   ⟨"Original-Sender", .HTstd⟩, ⟨"NNTP-Posting-Path", .HTobs⟩, ⟨"Archive", .HTstd⟩,
   ⟨"Archived-At", .HTstd⟩, ⟨"Summary", .HTstd⟩, ⟨"Comments", .HTstd⟩, ⟨"Jabber-ID", .HTstd⟩]

/-- `MAX_ARTHEADER`. -/
def MAX_ARTHEADER : ℕ := 76

def HDR_MESSAGE_ID : ℕ := 7
def HDR_NEWSGROUPS : ℕ := 8
def HDR_PATH : ℕ := 9
def HDR_SUPERSEDES : ℕ := 13
def HDR_BYTES : ℕ := 14
def HDR_XREF : ℕ := 17

/-- The search in `ARTheadertree`, which holds the table sorted by name: the index of
the system header field with that name. -/
def findHeader (name : List UInt8) : Option ℕ :=
  ARTheaders.findIdx? fun hp => strcaseEq name (octets hp.Name)

/-! ## Channels -/

/-- `enum channel_state`, as far as a channel that is being read goes. -/
inductive ChannelState where
  | CSgetcmd
  | CSwritegoodbye
  | CSgetheader
  | CSgetbody
  | CSgotarticle
  | CSgotlargearticle
  | CSnoarticle
  | CSeatarticle
  | CSeatcommand
  | CSgetxbatch
deriving DecidableEq

/-- `struct buffer`: the address of the data, and its octets up to `used`. -/
structure Buffer where
  data : ℤ
  text : List UInt8
deriving DecidableEq

/-- `HDRCONTENT`; `Length` is -1 for a duplicate. -/
structure HDRCONTENT where
  Value : Option ℤ
  Length : ℤ
  LastChar : UInt8
deriving DecidableEq

/-- The part of `ARTDATA` that parsing fills in. `Body` and `CurHeader` are offsets into
the buffer, `BytesHeader` and the values are pointers into it. -/
structure ARTDATA where
  Body : ℕ
  Lines : ℕ
  HeaderLines : ℕ
  BytesHeader : Option ℤ
  CRwithoutLF : ℕ
  LFwithoutCR : ℕ
  DotStuffedLines : ℕ
  CurHeader : ℕ
  HdrContent : ℕ → HDRCONTENT

/-- `CHANNEL`; `Error` is the text in the error buffer. -/
structure CHANNEL where
  State : ChannelState
  In : Buffer
  SendidSize : ℕ
  Start : ℕ
  Next : ℕ
  Error : List UInt8
  Data : ARTDATA

/-- The settings of `inn.conf` that matter here. -/
structure Innconf where
  maxartsize : ℕ
  xrefslave : Bool

namespace CHANNEL

/-- `bp->used`. -/
def used (cp : CHANNEL) : ℕ := cp.In.text.length

/-- `bp->data[i]`. -/
def char (cp : CHANNEL) (i : ℕ) : UInt8 := cp.In.text.getD i 0

/-- `size` octets of the buffer from the offset `i`. -/
def slice (cp : CHANNEL) (i size : ℕ) : List UInt8 := (cp.In.text.drop i).take size

/-- The octets from the start of the article. -/
def stream (cp : CHANNEL) : List UInt8 := cp.In.text.drop cp.Start

/-- A channel with an article that has not been received completely. -/
def Receiving (cp : CHANNEL) : Prop :=
  cp.State = .CSgetheader ∨ cp.State = .CSgetbody ∨ cp.State = .CSeatarticle

instance (cp : CHANNEL) : Decidable cp.Receiving := inferInstanceAs (Decidable (_ ∨ _))

/-- `CHANreadtext`: more octets in the buffer. -/
def readtext (cp : CHANNEL) (text : List UInt8) : CHANNEL :=
  { cp with In := { cp.In with text := cp.In.text ++ text } }

/-- `HDR(i)` with `HDR_LEN(i)`: the octets of a field body. -/
def HDR (cp : CHANNEL) (i : ℕ) : Option (List UInt8) :=
  (cp.Data.HdrContent i).Value.map fun value =>
    cp.slice (value - cp.In.data).toNat (cp.Data.HdrContent i).Length.toNat

end CHANNEL

/-- Adjust the raw pointers by an offset. -/
def ARTDATA.adjust (data : ARTDATA) (offset : ℤ) : ARTDATA :=
  { data with
    BytesHeader := data.BytesHeader.map (· - offset)
    HdrContent := fun i =>
      { data.HdrContent i with Value := (data.HdrContent i).Value.map (· - offset) } }

/-- `CHANresize`, when `realloc` returns the address `address`. -/
def CHANresize (cp : CHANNEL) (address : ℤ) : CHANNEL :=
  let offset := cp.In.data - address
  { cp with
    In := { cp.In with data := address }
    Data := if offset ≠ 0 ∧ cp.Receiving then cp.Data.adjust offset else cp.Data }

/-- The data move of `NCproc`. -/
def CHANNEL.moveData (cp : CHANNEL) : CHANNEL :=
  { cp with
    In := { cp.In with text := cp.In.text.drop cp.Start }
    Next := cp.Next - cp.Start
    Start := 0
    Data :=
      if cp.Receiving then
        { cp.Data.adjust cp.Start with
          CurHeader := cp.Data.CurHeader - cp.Start
          Body := cp.Data.Body - cp.Start }
      else cp.Data }

end Inn.Innd
