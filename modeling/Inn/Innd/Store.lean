import Mathlib.Data.List.Sort
import Inn.Innd.Clean

/-!
# Inn.Innd.Store — `ARTstore`

The stored article is put together from pieces of the buffer and other octets, without
a copy: an iovec of pointers and lengths. Path, Xref and Bytes are the places where
something is put in, replaced or left out.
-/

namespace Inn.Innd

/-- `HEADERP`. -/
structure HEADERP where
  index : ℕ
  p : ℤ

/-- What `ARTstore` puts into the article; `Xref` is the generated field body with its
line end. -/
structure Edits where
  names : PathNames
  hops : PathHops
  Xref : List UInt8

/-- The iovec so far, and where the next data should be written from. -/
structure Writing where
  iov : List (List UInt8)
  p : ℤ

/-- The result of `ARTstore`. -/
structure StoredArticle where
  iov : List (List UInt8)
  BytesValue : ℤ

/-- The octets that are written. -/
def StoredArticle.octets (stored : StoredArticle) : List UInt8 := stored.iov.flatten

/-- The octets from the pointer `p` up to the pointer `q`. -/
def CHANNEL.between (cp : CHANNEL) (p q : ℤ) : List UInt8 :=
  cp.slice (p - cp.In.data).toNat (q - p).toNat

/-- Path, which is a required header field, and Xref and Bytes if they are there. -/
def CHANNEL.foundps (cp : CHANNEL) : List HEADERP :=
  [⟨HDR_PATH, cp.HDRptr HDR_PATH⟩] ++
    (if cp.HDR_FOUND HDR_XREF then [⟨HDR_XREF, cp.HDRptr HDR_XREF⟩] else []) ++
    (if cp.HDR_FOUND HDR_BYTES then [⟨HDR_BYTES, cp.HDRptr HDR_BYTES⟩] else [])

/-- The order of header fields appearance. -/
def CHANNEL.headerps (cp : CHANNEL) : List HEADERP :=
  cp.foundps.insertionSort fun a b => a.p ≤ b.p

/-- Something is put in front of the path. -/
def Edits.Prefixes (edits : Edits) : Prop :=
  edits.hops.Hassamepath = false ∨ edits.hops.AddAlias = true ∨ edits.names.Pathcluster ≠ []

instance (edits : Edits) : Decidable edits.Prefixes := inferInstanceAs (Decidable (_ ∨ _ ∨ _))

/-- One round of the loop of `ARTstore` over these fields. -/
def writeHeader (conf : Innconf) (edits : Edits) (cp : CHANNEL) (w : Writing) (hp : HEADERP) :
    Writing :=
  if hp.index = HDR_PATH then
    if edits.Prefixes then
      { iov := w.iov ++ [cp.between w.p (cp.HDRptr HDR_PATH)] ++
          (if edits.names.Pathcluster ≠ [] then [edits.names.Pathcluster] else []) ++
          [edits.names.Path] ++
          (if edits.hops.AddAlias then [edits.names.Pathalias] else [])
        p := cp.HDRptr HDR_PATH +
          (if edits.hops.Hassamecluster then edits.names.Pathcluster.length else 0 : ℕ) }
    else w
  else if hp.index = HDR_XREF then
    if conf.xrefslave = false then
      { iov := w.iov ++ [cp.between w.p (cp.HDRptr HDR_XREF),
          edits.Xref.take (edits.Xref.length - 2)]
        p := cp.HDRptr HDR_XREF + cp.HDR_LEN HDR_XREF }
    else w
  else
    -- ditch whole Bytes header field, with its line end
    { iov := w.iov ++ [cp.between w.p (cp.Data.BytesHeader.getD 0)]
      p := cp.HDRptr HDR_BYTES + cp.HDR_LEN HDR_BYTES + 2 }

/-- In case no Xref header field is included in original article. -/
def insertXref (edits : Edits) (cp : CHANNEL) (w : Writing) : Writing :=
  if cp.HDR_FOUND HDR_XREF then w
  else
    { iov := w.iov ++ [cp.between w.p (cp.In.data + cp.Data.Body - 2), octets "Xref: ", edits.Xref]
      p := cp.In.data + cp.Data.Body - 2 }

/-- `ARTstore`. The iovec points into the buffer, which is read when the field bodies
have their line ends again. -/
def ARTstore (conf : Innconf) (edits : Edits) (cp : CHANNEL) : StoredArticle :=
  let cp := cp.revertHeaders
  let w := cp.headerps.foldl (writeHeader conf edits cp) ⟨[], cp.In.data + cp.Start⟩
  let w := insertXref edits cp w
  let iov := w.iov ++ [cp.between w.p (cp.In.data + cp.Next)]
  { iov
    -- the final dot with its line end and the dots used for dot-stuffing do not count
    BytesValue := ((iov.map List.length).sum : ℕ) - (3 + (cp.Data.DotStuffedLines : ℤ)) }

theorem ARTstore_BytesValue (conf : Innconf) (edits : Edits) (cp : CHANNEL) :
    (ARTstore conf edits cp).BytesValue =
      (ARTstore conf edits cp).octets.length - (3 + (cp.revertHeaders.Data.DotStuffedLines : ℤ)) := by
  rw [StoredArticle.octets, List.length_flatten]
  rfl

end Inn.Innd
