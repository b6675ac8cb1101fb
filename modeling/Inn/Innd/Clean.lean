import Inn.Innd.Parse

/-!
# Inn.Innd.Clean — a complete article before it is stored

* `ARTclean` cuts every system header field body off with a NUL, so that it can be
  read as a C string, and checks the fields an article must have;
* `revertHeaders`, at the end of `ARTstore`, puts the octets back;
* `ARTparsepath` and `NGsplit` split the bodies of Path and Newsgroups;
* `PathHops` is what `ARTpost` finds out about the path.
-/

namespace Inn.Innd

open HeaderType

/-! ## Strings -/

/-- `NG_ISSEP`. -/
def NG_ISSEP (c : UInt8) : Bool := c == 44

/-- `isdigit`. -/
def isdigit (c : UInt8) : Bool := 48 ≤ c && c ≤ 57

/-- `isspace` in the C locale. -/
def isspace (c : UInt8) : Bool := c == 32 || (9 ≤ c && c ≤ 13)

/-- The value of the digits at the beginning of a string. -/
def leadingNumber (p : List UInt8) : ℤ :=
  (p.takeWhile isdigit).foldl (fun n c => 10 * n + (c.toNat - 48 : ℕ)) 0

/-- `atoi`, for a number that fits. -/
def atoi (p : List UInt8) : ℤ :=
  match p.dropWhile isspace with
  | 45 :: q => -leadingNumber q
  | 43 :: q => leadingNumber q
  | q => leadingNumber q

/-- `hostcclass`. -/
def ARThostchar (c : UInt8) : Bool :=
  (97 ≤ c && c ≤ 122) || (65 ≤ c && c ≤ 90) || isdigit c || c == 46 || c == 45 || c == 95

/-- The loop of `ARTparsepath`: white characters before a host are skipped, and one
character after it. -/
def pathLoop : ℕ → List UInt8 → List (List UInt8)
  | 0, _ => []
  | fuel + 1, p =>
    match p.dropWhile fun c => !ARThostchar c && ISWHITE c with
    | [] => []
    | c :: q =>
      let isHost := fun c => ARThostchar c && !ISWHITE c
      (c :: q).takeWhile isHost :: pathLoop fuel ((c :: q).dropWhile isHost).tail

/-- The loop of `NGsplit`; `none` if there is a colon. -/
def groupLoop : ℕ → List UInt8 → Option (List (List UInt8))
  | 0, _ => some []
  | fuel + 1, p =>
    match p.dropWhile fun c => NG_ISSEP c || ISWHITE c with
    | [] => some []
    | c :: q =>
      let inName := fun c => !NG_ISSEP c && !ISWHITE c
      let name := (c :: q).takeWhile inName
      if 58 ∈ name then none
      else (groupLoop fuel ((c :: q).dropWhile inName).tail).map (name :: ·)

/-- `NGsplit`; the list is empty when 0 is returned. -/
def NGsplit (p : List UInt8) : List (List UInt8) := (groupLoop p.length p).getD []

/-! ## System header fields as strings -/

namespace CHANNEL

/-- `HDR_FOUND`. -/
def HDR_FOUND (cp : CHANNEL) (i : ℕ) : Bool := 0 < (cp.Data.HdrContent i).Length

/-- `HDR_LEN`. -/
def HDR_LEN (cp : CHANNEL) (i : ℕ) : ℤ := (cp.Data.HdrContent i).Length

/-- The pointer `HDR(i)`; it is NULL for a field that was not seen. -/
def HDRptr (cp : CHANNEL) (i : ℕ) : ℤ := (cp.Data.HdrContent i).Value.getD 0

/-- The offset of the octet after a field body. -/
def bodyEnd (cp : CHANNEL) (i : ℕ) : ℕ := (cp.HDRptr i + cp.HDR_LEN i - cp.In.data).toNat

/-- `HDR(i)` as a string. -/
def HDRstring (cp : CHANNEL) (i : ℕ) : List UInt8 :=
  cString (cp.In.text.drop (cp.HDRptr i - cp.In.data).toNat)

/-- `HDR_LASTCHAR_SAVE(i)`, `HDR_PARSE_START(i)`. -/
def cutHeader (cp : CHANNEL) (i : ℕ) : CHANNEL :=
  if cp.HDR_FOUND i then
    { cp with
      In := { cp.In with text := cp.In.text.set (cp.bodyEnd i) 0 }
      Data :=
        { cp.Data with
          HdrContent := Function.update cp.Data.HdrContent i
            { cp.Data.HdrContent i with LastChar := cp.char (cp.bodyEnd i) } } }
  else cp

/-- `HDR_PARSE_END(i)`. -/
def revertHeader (cp : CHANNEL) (i : ℕ) : CHANNEL :=
  if cp.HDR_FOUND i then
    { cp with
      In :=
        { cp.In with text := cp.In.text.set (cp.bodyEnd i) (cp.Data.HdrContent i).LastChar } }
  else cp

/-- Replace the octet after every system header field body by a NUL. -/
def cutHeaders (cp : CHANNEL) : CHANNEL := (List.range MAX_ARTHEADER).foldl cutHeader cp

/-- Revert all of them. -/
def revertHeaders (cp : CHANNEL) : CHANNEL := (List.range MAX_ARTHEADER).foldl revertHeader cp

end CHANNEL

/-- The channels differ at most in octets of the buffer and in `LastChar`. -/
structure SameFields (c d : CHANNEL) : Prop where
  data : d.In.data = c.In.data
  Start : d.Start = c.Start
  Next : d.Next = c.Next
  Body : d.Data.Body = c.Data.Body
  BytesHeader : d.Data.BytesHeader = c.Data.BytesHeader
  DotStuffedLines : d.Data.DotStuffedLines = c.Data.DotStuffedLines
  Value : ∀ i, (d.Data.HdrContent i).Value = (c.Data.HdrContent i).Value
  Length : ∀ i, (d.Data.HdrContent i).Length = (c.Data.HdrContent i).Length

section Cutting

variable {c d e : CHANNEL} {i : ℕ}

theorem SameFields.refl : SameFields c c :=
  ⟨rfl, rfl, rfl, rfl, rfl, rfl, fun _ => rfl, fun _ => rfl⟩

theorem SameFields.trans (h : SameFields c d) (h' : SameFields d e) : SameFields c e :=
  ⟨h'.data.trans h.data, h'.Start.trans h.Start, h'.Next.trans h.Next, h'.Body.trans h.Body,
    h'.BytesHeader.trans h.BytesHeader, h'.DotStuffedLines.trans h.DotStuffedLines,
    fun i => (h'.Value i).trans (h.Value i), fun i => (h'.Length i).trans (h.Length i)⟩

theorem cutHeader_same : SameFields c (c.cutHeader i) := by
  unfold CHANNEL.cutHeader
  split
  · refine ⟨rfl, rfl, rfl, rfl, rfl, rfl, fun j => ?_, fun j => ?_⟩
    all_goals
      simp only [Function.update_apply]
      split
      · rename_i hj
        rw [hj]
      · rfl
  · exact .refl

theorem revertHeader_same : SameFields c (c.revertHeader i) := by
  unfold CHANNEL.revertHeader
  split
  · exact ⟨rfl, rfl, rfl, rfl, rfl, rfl, fun _ => rfl, fun _ => rfl⟩
  · exact .refl

theorem foldl_same {f : CHANNEL → ℕ → CHANNEL} (hf : ∀ c i, SameFields c (f c i)) (is : List ℕ) :
    SameFields c (is.foldl f c) := by
  induction is generalizing c with
  | nil => exact .refl
  | cons i is ih => exact (hf c i).trans ih

theorem cutHeaders_same : SameFields c c.cutHeaders := foldl_same (fun _ _ => cutHeader_same) _

theorem revertHeaders_same : SameFields c c.revertHeaders :=
  foldl_same (fun _ _ => revertHeader_same) _

end Cutting

/-! ## `ARTclean` -/

def HDR_DATE : ℕ := 2
def HDR_EXPIRES : ℕ := 4
def HDR_LINES : ℕ := 6
def HDR_INJECTION_DATE : ℕ := 64

/-- `DATE_FUZZ`. -/
def DATE_FUZZ : ℤ := 24 * 60 * 60

/-- The settings and functions `ARTclean` depends on; a bad date is `none`. -/
structure CleanEnv where
  linecountfuzz : ℕ
  artcutoff : ℕ
  Now : ℤ
  IsValidMessageID : List UInt8 → Bool
  parsedate_rfc5322_lax : List UInt8 → Option ℤ

/-- What `ARTclean` fills in. -/
structure Cleaned where
  Posted : ℤ
  Expires : ℤ
  Newsgroups : List (List UInt8)

/-- The complaint about the required system header field `i`, if it was not found. -/
def CHANNEL.missing (cp : CHANNEL) (i : ℕ) : Option (List UInt8) :=
  match ARTheaders[i]? with
  | some ⟨name, HTreq⟩ =>
    if cp.HDR_FOUND i then none
    else if cp.HDR_LEN i < 0 then some (octets ("Duplicate \"" ++ name ++ "\" header field"))
    else some (octets ("Missing \"" ++ name ++ "\" header field"))
  | _ => none

/-- The checks of `ARTclean`. -/
def cleanChecks (env : CleanEnv) (cp : CHANNEL) : Except (List UInt8) Cleaned := do
  let reject (text : List UInt8) : Except (List UInt8) Unit :=
    .error (cp.rejectCode ++ octets " " ++ text)
  match (List.range MAX_ARTHEADER).findSome? cp.missing with
  | some text => reject text
  | none => pure ()
  if env.IsValidMessageID (cp.HDRstring HDR_MESSAGE_ID) = false then
    reject (octets "Bad \"Message-ID\" header field")
  if env.linecountfuzz ≠ 0 ∧ cp.HDR_FOUND HDR_LINES = true then
    let p := cp.HDRstring HDR_LINES
    if env.linecountfuzz < ((cp.Data.Lines : ℤ) - atoi p).natAbs then
      reject (octets "Linecount " ++ MaxLength p ++ octets " != " ++ digits cp.Data.Lines ++
        octets " +- " ++ digits env.linecountfuzz)
  let date (name : String) (i : ℕ) : Except (List UInt8) ℤ :=
    match env.parsedate_rfc5322_lax (cp.HDRstring i) with
    | some posted => .ok posted
    | none => .error (cp.rejectCode ++ octets " " ++ octets ("Bad \"" ++ name ++ "\" header field -- \"") ++
        MaxLength (cp.HDRstring i) ++ octets "\"")
  let posted ← date "Date" HDR_DATE
  -- Injection-Date overrides Date
  let i := if cp.HDR_FOUND HDR_INJECTION_DATE = true then HDR_INJECTION_DATE else HDR_DATE
  let posted ← if cp.HDR_FOUND HDR_INJECTION_DATE = true then
      date "Injection-Date" HDR_INJECTION_DATE else .ok posted
  if env.artcutoff ≠ 0 ∧ posted < env.Now - env.artcutoff * 24 * 60 * 60 then
    reject (octets "Too old -- \"" ++ MaxLength (cp.HDRstring i) ++ octets "\"")
  if env.Now + DATE_FUZZ < posted then
    reject (octets "Article injected or posted in the future -- \"" ++
      MaxLength (cp.HDRstring i) ++ octets "\"")
  let expires :=
    if cp.HDR_FOUND HDR_EXPIRES = true then
      (env.parsedate_rfc5322_lax (cp.HDRstring HDR_EXPIRES)).getD 0
    else 0
  let groups := NGsplit (cp.HDRstring HDR_NEWSGROUPS)
  if groups = [] then reject (octets "Unwanted character in \"Newsgroups\" header field")
  return ⟨posted, expires, groups⟩

/-- `ARTclean`: the channel with its field bodies cut off, and the outcome of the checks. -/
def ARTclean (env : CleanEnv) (cp : CHANNEL) : CHANNEL × Except (List UInt8) Cleaned :=
  (cp.cutHeaders, cleanChecks env cp.cutHeaders)

theorem ARTclean_fst (env : CleanEnv) (cp : CHANNEL) : (ARTclean env cp).1 = cp.cutHeaders := by
  rw [ARTclean]

/-! ## The path -/

/-- `pathhost`, `pathalias` and `pathcluster` of `inn.conf`. -/
structure PathNames where
  pathhost : List UInt8
  pathalias : Option (List UInt8)
  pathcluster : Option (List UInt8)

namespace PathNames

/-- What is put in front of a path for a name. -/
def entry (name : List UInt8) : List UInt8 := name ++ octets "!"

/-- The buffer `Path`. -/
def Path (names : PathNames) : List UInt8 := entry names.pathhost

/-- The buffer `Pathalias`. -/
def Pathalias (names : PathNames) : List UInt8 := (names.pathalias.map entry).getD []

/-- The buffer `Pathcluster`. -/
def Pathcluster (names : PathNames) : List UInt8 := (names.pathcluster.map entry).getD []

end PathNames

/-- What `ARTpost` finds out about the path. -/
structure PathHops where
  Hassamepath : Bool
  Hassamecluster : Bool
  AddAlias : Bool
deriving DecidableEq

end Inn.Innd
