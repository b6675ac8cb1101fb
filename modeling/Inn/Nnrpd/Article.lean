import Inn.Nnrpd.Wire

/-!
# Inn.Nnrpd.Article — sending an article, its header or its body

`ARTsendmmap` finds the end of the header in a stored article by looking for two line
feeds with nothing but CRs between them, and sends pieces of the article. With virtual
hosting it sends other texts in place of the beginning of the Path field body and of the
first word of the Xref field body.

* `ARTsendmmap` — the function; what it sends is put in a queue of pieces;
* `Stored` — articles in wire format, with an empty line and a body or without;
* `Agree` — ARTICLE is HEAD, an empty line and BODY, and each ends with its terminator;
* `Stored.agree_iff` — this holds of the articles that have an empty line.
-/

namespace Inn.Nnrpd

open Inn.Innd

/-! ## The queue -/

/-- The pieces in `iov`, each a pointer and a length, and what was written before. -/
structure Out where
  sent : List UInt8
  iov : List (List UInt8 × ℕ)
deriving DecidableEq

/-- All that was written or is queued. -/
def Out.bytes (o : Out) : List UInt8 := o.sent ++ o.iov.flatMap fun v => v.1.take v.2

/-- The size of `iov`. -/
def iovMax : ℕ := 1024

/-- `PushIOv`. -/
def pushIOv (o : Out) : Out := ⟨o.bytes, []⟩

/-- `SendIOv`: a piece that goes on where the last one ends makes that longer. A negative
length is not sent at all. -/
def sendIOv (p : List UInt8) (len : ℤ) (o : Out) : Option Out :=
  if len < 0 then none
  else
    match o.iov.getLast? with
    | some (base, n) =>
      if base.drop n = p then some { o with iov := o.iov.dropLast ++ [(base, n + len.toNat)] }
      else
        let o := { o with iov := o.iov ++ [(p, len.toNat)] }
        some (if o.iov.length = iovMax then pushIOv o else o)
    | none =>
      let o := { o with iov := o.iov ++ [(p, len.toNat)] }
      some (if o.iov.length = iovMax then pushIOv o else o)

/-! ## ARTsendmmap -/

/-- `SENDTYPE`, less `STstat`. -/
inductive SENDTYPE where
  | STarticle
  | SThead
  | STbody
deriving DecidableEq, Repr

/-- The line feed of the first empty line, and the octet before it: the scan leaves CRs
out, and starts with `lastchar` neither. -/
def findBlank (lastchar before : UInt8) : List UInt8 → Option (UInt8 × List UInt8)
  | [] => none
  | c :: p =>
    if c = 13 then findBlank lastchar c p
    else if c = 10 ∧ lastchar = 10 then some (before, c :: p)
    else findBlank c c p

/-- `q` and `p`: where the part to be sent begins, and its end. -/
def part (data : List UInt8) : SENDTYPE → List UInt8 × List UInt8
  | .STarticle => (data, [])
  | .SThead =>
    match findBlank 255 0 data with
    | none => (data, [])
    | some (before, p) => (data, if before = 13 then 13 :: p else p)
  | .STbody =>
    match findBlank 255 0 data with
    | none => (data, [])
    | some (_, p) => (p.tail, [])

/-- `strncasecmp(s, t, n) == 0`, for strings without a NUL among these characters. -/
def strncaseEq (s t : List UInt8) (n : ℕ) : Bool :=
  (s.take n).map tolower == (t.take n).map tolower

/-- The virtual host stands at `s` as an element of the path. -/
def elementAt (VirtualPath s : List UInt8) (lastchar : UInt8) : Bool :=
  (lastchar == 0 || lastchar == 33) && s.head? == VirtualPath.head? &&
    strncaseEq s VirtualPath (VirtualPath.length - 1) &&
    (s[VirtualPath.length - 1]? == some 0 || s[VirtualPath.length - 1]? == some 33)

/-- The search in the Path field body, which ends `end` octets before the end. -/
def searchPath (VirtualPath : List UInt8) («end» : ℕ) : UInt8 → List UInt8 → List UInt8
  | _, [] => []
  | lastchar, c :: s =>
    if s.length + 1 ≤ «end» + VirtualPath.length + 1 then c :: s
    else if elementAt VirtualPath (c :: s) lastchar then c :: s
    else searchPath VirtualPath «end» c s

/-- The distance of two pointers. -/
def distance (p q : List UInt8) : ℤ := (q.length : ℤ) - p.length

/-- The pieces of an article with virtual hosting, or `none` if only a dot is sent. -/
def virtualPieces (VirtualPath data q p : List UInt8) : Option (List (List UInt8 × ℤ)) := do
  let len : ℤ := VirtualPath.length
  let path ← wireFindheader data (octets "Path") true
  let xref ← wireFindheader data (octets "Xref") true
  let endofpath ← wireEndheader path
  -- the first space of the Xref field body
  let r ← ((xref.take (xref.length - p.length)).findIdx? (· == 32)).map xref.drop
  let s := searchPath VirtualPath endofpath.length 0 path
  if endofpath.length + VirtualPath.length + 1 < s.length then
    if xref.length < path.length then
      some [(q, distance path q), (s, distance xref s), (VirtualPath, len - 1), (r, distance p r)]
    else
      some [(q, distance xref q), (VirtualPath, len - 1), (r, distance path r), (s, distance p s)]
  else if xref.length < path.length then
    some [(q, distance path q), (VirtualPath, len), (octets "!", 1), (path, distance xref path),
      (VirtualPath, len - 1), (r, distance p r)]
  else
    some [(q, distance xref q), (VirtualPath, len - 1), (r, distance path r), (VirtualPath, len),
      (octets "!", 1), (path, distance p path)]

/-- The end of the data block, according to what the stored data end with. -/
def terminator (data : List UInt8) : SENDTYPE → List UInt8
  | .SThead => octets ".\r\n"
  | _ =>
    if octets "\r\n.\r\n" <:+ data then []
    else if crlf <:+ data then octets ".\r\n"
    else octets "\r\n.\r\n"

/-- Some calls of `SendIOv`. -/
def sendAll (pieces : List (List UInt8 × ℤ)) (o : Out) : Option Out :=
  pieces.foldlM (fun o v => sendIOv v.1 v.2 o) o

/-- `ARTsendmmap`: what is sent of the article `data`. -/
def ARTsendmmap (VirtualPath data : List UInt8) (what : SENDTYPE) : Option (List UInt8) :=
  let q := (part data what).1
  let p := (part data what).2
  let pieces : Option (List (List UInt8 × ℤ)) :=
    if 0 < VirtualPath.length ∧ what ≠ .STbody then virtualPieces VirtualPath data q p
    else some [(q, distance p q)]
  let out :=
    match pieces with
    | none => sendAll [(octets ".\r\n", 3)] ⟨[], []⟩
    | some pieces =>
      let last := terminator data what
      sendAll (pieces ++ if last = [] then [] else [(last, (last.length : ℤ))]) ⟨[], []⟩
  out.map fun o => (pushIOv o).sent

/-! ## What is sent -/

section Send

variable {o : Out} {p : List UInt8}

/-- A call of `SendIOv` adds its bytes, whether the piece is joined to the last one, put
behind it, or completes the queue. -/
theorem sendIOv_bytes (p : List UInt8) (n : ℕ) (o : Out) :
    ∃ o', sendIOv p n o = some o' ∧ o'.bytes = o.bytes ++ p.take n := by
  have hnew : ∀ o' : Out, o' = { o with iov := o.iov ++ [(p, (n : ℤ).toNat)] } →
      (if o'.iov.length = iovMax then pushIOv o' else o').bytes = o.bytes ++ p.take n := by
    rintro o' rfl
    have hbytes : ({ o with iov := o.iov ++ [(p, (n : ℤ).toNat)] } : Out).bytes =
        o.bytes ++ p.take n := by
      rw [Out.bytes, List.flatMap_append, List.flatMap_singleton, Int.toNat_natCast,
        ← List.append_assoc]
      rfl
    split
    · exact (List.append_nil _).trans hbytes
    · exact hbytes
  rw [sendIOv, if_neg (by omega)]
  split
  · rename_i base m hlast
    split
    · rename_i hjoin
      refine ⟨_, rfl, ?_⟩
      obtain ⟨iov, hiov⟩ := List.getLast?_eq_some_iff.mp hlast
      rw [Out.bytes, Out.bytes, hiov, List.dropLast_concat, List.flatMap_append,
        List.flatMap_append, List.flatMap_singleton, List.flatMap_singleton, Int.toNat_natCast]
      dsimp only
      rw [← hjoin, List.take_add, List.append_assoc, List.append_assoc]
    · exact ⟨_, rfl, hnew _ rfl⟩
  · exact ⟨_, rfl, hnew _ rfl⟩

/-- The bytes of some pieces. -/
def piecesBytes (pieces : List (List UInt8 × ℤ)) : List UInt8 :=
  pieces.flatMap fun v => v.1.take v.2.toNat

theorem sendAll_bytes {pieces : List (List UInt8 × ℤ)} (h : ∀ v ∈ pieces, 0 ≤ v.2) (o : Out) :
    ∃ o', sendAll pieces o = some o' ∧ o'.bytes = o.bytes ++ piecesBytes pieces := by
  induction pieces generalizing o with
  | nil => exact ⟨o, rfl, (List.append_nil _).symm⟩
  | cons v pieces ih =>
    obtain ⟨n, hn⟩ := Int.eq_ofNat_of_zero_le (h v List.mem_cons_self)
    obtain ⟨o', hsend, hbytes⟩ := sendIOv_bytes v.1 n o
    obtain ⟨o'', hrest, hbytes'⟩ := ih (fun w hw => h w (List.mem_cons_of_mem v hw)) o'
    refine ⟨o'', ?_, ?_⟩
    · rw [sendAll, List.foldlM_cons, hn, hsend]
      exact hrest
    · have hcons : piecesBytes (v :: pieces) = v.1.take v.2.toNat ++ piecesBytes pieces := by
        rw [piecesBytes, List.flatMap_cons]
        rfl
      rw [hbytes', hbytes, hcons, hn, Int.toNat_natCast, List.append_assoc]

/-- A piece of negative length. -/
theorem sendAll_neg {pieces : List (List UInt8 × ℤ)} {v : List UInt8 × ℤ} (hv : v ∈ pieces)
    (hneg : v.2 < 0) (o : Out) : sendAll pieces o = none := by
  induction pieces generalizing o with
  | nil => cases hv
  | cons w pieces ih =>
    rw [sendAll, List.foldlM_cons]
    rcases List.mem_cons.mp hv with rfl | hv
    · rw [sendIOv, if_pos hneg]
      rfl
    · rcases sendIOv w.1 w.2 o with _ | o'
      · rfl
      · exact ih hv o'

end Send

/-! ## Articles -/

/-- No two line feeds with nothing but CRs between them. -/
def NoBlank (l : List UInt8) : Prop :=
  ∀ a n b, l ≠ a ++ 10 :: (List.replicate n 13 ++ 10 :: b)

/-- No line is a single dot. -/
def NoDot (l : List UInt8) : Prop := ¬ octets "\r\n.\r\n" <:+: crlf ++ l ++ crlf

/-- A stored article in wire format: header lines that end in CRLF, and behind an empty
line a body, if there is one; at the end the dot or not. -/
structure Stored where
  header : List UInt8
  body : Option (List UInt8)
  dotted : Bool
  header_ends : crlf <:+ header
  noBlank : NoBlank header
  noDot : NoDot (header ++ (body.map (crlf ++ ·)).getD [])
  dotted_ends : dotted = true → ∀ t, body = some t → t = [] ∨ crlf <:+ t

namespace Stored

/-- The article without its final dot. -/
def text (a : Stored) : List UInt8 := a.header ++ (a.body.map (crlf ++ ·)).getD []

/-- The final dot. -/
def dot (a : Stored) : List UInt8 := if a.dotted then octets ".\r\n" else []

/-- What the storage manager returns. -/
def data (a : Stored) : List UInt8 := a.text ++ a.dot

end Stored

/-- A data block that ends with its terminator, behind the line that announces it, and has
it nowhere else. -/
structure Terminated (out : List UInt8) : Prop where
  ends : octets "\r\n.\r\n" <:+ crlf ++ out
  once : ∀ a c, crlf ++ out = a ++ octets "\r\n.\r\n" ++ c → c = []

/-- Without virtual hosting, ARTICLE is HEAD, an empty line and BODY, and each of them is
terminated once. -/
def Agree (data : List UInt8) : Prop :=
  ∃ article head body,
    ARTsendmmap [] data .STarticle = some (article ++ octets ".\r\n") ∧
    ARTsendmmap [] data .SThead = some (head ++ octets ".\r\n") ∧
    ARTsendmmap [] data .STbody = some (body ++ octets ".\r\n") ∧
    article = head ++ crlf ++ body ∧
    Terminated (article ++ octets ".\r\n") ∧ Terminated (head ++ octets ".\r\n") ∧
    Terminated (body ++ octets ".\r\n")

section Plain

/-- Where the data have no line that is a dot. -/
theorem terminated_of_noDot {text : List UInt8} (hno : ¬ octets "\r\n.\r\n" <:+: crlf ++ text)
    (hends : crlf <:+ crlf ++ text) : Terminated (text ++ octets ".\r\n") where
  ends := by
    obtain ⟨t, ht⟩ := hends
    rw [← List.append_assoc, ← ht, List.append_assoc]
    exact List.suffix_append t _
  once a c heq := by
    have hlast : ∀ t x, a ++ octets "\r\n.\r\n" = t ++ [x] → x = 10 := fun t x h => by
      have : (a ++ octets "\r\n.\r\n").getLast? = some 10 := by
        rw [List.getLast?_append]
        rfl
      rw [h, List.getLast?_concat] at this
      exact Option.some.inj this
    rw [← List.append_assoc] at heq
    rcases List.append_eq_append_iff.mp heq with ⟨a', ha', hdot⟩ | ⟨c', hx, -⟩
    · -- the dot found reaches into the terminator
      rcases a' with _ | ⟨x, _ | ⟨y, _ | ⟨z, l⟩⟩⟩
      · rw [List.append_nil] at ha'
        exact absurd ⟨a, [], (List.append_nil _).trans ha'⟩ hno
      · cases hdot
        exact absurd (hlast _ _ ha') (by decide)
      · cases hdot
        exact absurd (hlast _ _ (ha'.trans (List.append_assoc _ [46] [13]).symm)) (by decide)
      · have hlen := congrArg List.length hdot
        rw [List.length_append, List.length_cons, List.length_cons, List.length_cons,
          show (octets ".\r\n").length = 3 from rfl] at hlen
        exact List.length_eq_zero_iff.mp (by omega)
    · exact absurd ⟨a, c', hx.symm⟩ hno

/-- A header without an empty line is skipped by the scan. -/
theorem findBlank_append {before : UInt8} (rest h : List UInt8) {seen : List UInt8} {lastchar : UInt8}
    (hlast : lastchar = 10 → ∃ a n, seen = a ++ 10 :: List.replicate n 13)
    (hno : NoBlank (seen ++ h)) :
    ∃ lastchar' before', findBlank lastchar before (h ++ rest) = findBlank lastchar' before' rest ∧
      (h.getLast? = some 10 → lastchar' = 10 ∧ before' = 10) := by
  induction h generalizing seen lastchar before with
  | nil => exact ⟨lastchar, before, rfl, fun h => nomatch h⟩
  | cons c h ih =>
    have hnext : ∀ lastchar', (lastchar' = 10 → ∃ a n, seen ++ [c] = a ++ 10 :: List.replicate n 13) →
        (h = [] → c = 10 → lastchar' = 10) →
        ∃ l' b', findBlank lastchar' c (h ++ rest) = findBlank l' b' rest ∧
          ((c :: h).getLast? = some 10 → l' = 10 ∧ b' = 10) := by
      intro lastchar' hlast' hend
      rcases List.eq_nil_or_concat h with rfl | ⟨h', d, rfl⟩
      · refine ⟨lastchar', c, rfl, fun hc => ?_⟩
        have hc : c = 10 := Option.some.inj hc
        exact ⟨hend rfl hc, hc⟩
      · have happ : seen ++ [c] ++ h'.concat d = seen ++ c :: h'.concat d :=
          List.append_assoc seen [c] _
        obtain ⟨l', b', heq, hl⟩ := @ih c (seen ++ [c]) lastchar' hlast' (happ ▸ hno)
        refine ⟨l', b', heq, fun hc => hl ?_⟩
        rw [List.concat_eq_append] at hc ⊢
        rw [← List.cons_append, List.getLast?_concat] at hc
        rwa [List.getLast?_concat]
    rw [List.cons_append, findBlank]
    split
    · -- a CR is left out
      rename_i hcr
      subst hcr
      refine hnext lastchar (fun h10 => ?_) (fun _ h => absurd h (by decide))
      obtain ⟨a, n, ha⟩ := hlast h10
      refine ⟨a, n + 1, ?_⟩
      rw [ha, List.replicate_succ', List.append_assoc, List.cons_append]
    · split
      · -- a line feed and the one before it
        rename_i hblank
        obtain ⟨rfl, h10⟩ := hblank
        obtain ⟨a, n, ha⟩ := hlast h10
        refine absurd ?_ (hno a n h)
        rw [ha, List.append_assoc, List.cons_append]
      · refine hnext c (fun h10 => ⟨seen, 0, ?_⟩) (fun _ h => h)
        rw [h10]
        rfl

namespace Stored

variable (a : Stored)

/-- The scan reaches the end of the header. -/
theorem findBlank_header (rest : List UInt8) :
    findBlank 255 0 (a.header ++ rest) = findBlank 10 10 rest := by
  obtain ⟨l, b, heq, hl⟩ := @findBlank_append 0 rest a.header [] 255 (fun h => absurd h (by decide))
    a.noBlank
  have hlast : a.header.getLast? = some 10 := by
    obtain ⟨t, ht⟩ := a.header_ends
    rw [← ht, List.getLast?_append]
    rfl
  obtain ⟨rfl, rfl⟩ := hl hlast
  exact heq

/-- Without an empty line, the header and the body are the whole article. -/
theorem part_of_no_body (h : a.body = none) (what : SENDTYPE) : part a.data what = (a.data, []) := by
  have hblank : findBlank 255 0 a.data = none := by
    rw [data, text, h, dot, List.append_assoc, a.findBlank_header]
    cases a.dotted <;> rfl
  cases what with
  | STarticle => rfl
  | SThead => rw [part, hblank]
  | STbody => rw [part, hblank]

theorem data_of_body {t : List UInt8} (h : a.body = some t) :
    a.data = a.header ++ (crlf ++ (t ++ a.dot)) := by
  rw [data, text, h, List.append_assoc, ← List.append_assoc crlf]
  rfl

theorem part_of_body {t : List UInt8} (h : a.body = some t) :
    part a.data .SThead = (a.data, crlf ++ (t ++ a.dot)) ∧
      part a.data .STbody = (t ++ a.dot, []) := by
  have hblank : findBlank 255 0 a.data = some (13, 10 :: (t ++ a.dot)) := by
    rw [a.data_of_body h, a.findBlank_header]
    rfl
  rw [part, part, hblank]
  exact ⟨rfl, rfl⟩

end Stored

/-- What is sent of an article in one piece, and the terminator. -/
theorem ARTsendmmap_plain {VirtualPath data q p : List UInt8} {what : SENDTYPE}
    (hplain : VirtualPath = [] ∨ what = .STbody) (hpart : part data what = (q, p))
    (hle : p.length ≤ q.length) : ARTsendmmap VirtualPath data what =
      some (q.take (q.length - p.length) ++ terminator data what) := by
  have hno : ¬ (0 < VirtualPath.length ∧ what ≠ .STbody) := by
    rintro ⟨hpos, hwhat⟩
    rcases hplain with rfl | h
    · exact absurd hpos (Nat.lt_irrefl 0)
    · exact hwhat h
  have hdist : distance p q = ((q.length - p.length : ℕ) : ℤ) := by
    rw [distance]
    omega
  rw [ARTsendmmap, hpart]
  dsimp only
  rw [if_neg hno]
  dsimp only
  have hpos : ∀ v ∈ [(q, distance p q)] ++ (if terminator data what = [] then []
      else [(terminator data what, ((terminator data what).length : ℤ))]), 0 ≤ v.2 := by
    intro v hv
    rcases List.mem_append.mp hv with hv | hv
    · rw [List.mem_singleton.mp hv, hdist]
      exact Int.natCast_nonneg _
    · split at hv
      · cases hv
      · rw [List.mem_singleton.mp hv]
        exact Int.natCast_nonneg _
  obtain ⟨o, hsend, hbytes⟩ := sendAll_bytes hpos ⟨[], []⟩
  rw [hsend, Option.map_some, pushIOv, hbytes, piecesBytes, List.flatMap_append,
    List.flatMap_singleton, hdist, Int.toNat_natCast]
  split
  · rename_i hnil
    rw [hnil]
    rfl
  · rw [List.flatMap_singleton, Int.toNat_natCast, List.take_length]
    rfl

section Agree

variable (a : Stored)

/-- The line end that is missing at the end of the text. -/
def Stored.closing : List UInt8 := if crlf <:+ a.text then [] else crlf

theorem Stored.closed_ends : crlf <:+ a.text ++ a.closing := by
  rw [closing]
  split
  · rwa [List.append_nil]
  · exact List.suffix_append _ _

theorem Stored.dotted_text (h : a.dotted = true) : crlf <:+ a.text := by
  have hends := a.dotted_ends h
  rw [text]
  rcases hbody : a.body with _ | t
  · exact (List.append_nil a.header).symm ▸ a.header_ends
  · rcases hends t hbody with rfl | ht
    · exact List.suffix_append _ _
    · exact ht.trans ((List.suffix_append crlf t).trans (List.suffix_append _ _))

/-- The text has no dot, also when it is closed. -/
theorem Stored.not_dot_closed : ¬ octets "\r\n.\r\n" <:+: crlf ++ (a.text ++ a.closing) := by
  intro hdot
  refine a.noDot (hdot.trans (List.IsPrefix.isInfix ?_))
  rw [closing]
  split
  · rw [List.append_nil]
    exact List.prefix_append _ _
  · rw [← List.append_assoc]
    exact List.prefix_refl _

/-- The final dot is there, or it is added. -/
theorem Stored.dot_terminator {what : SENDTYPE} (h : what ≠ .SThead) :
    a.dot ++ terminator a.data what = a.closing ++ octets ".\r\n" := by
  have hterm : terminator a.data what =
      if octets "\r\n.\r\n" <:+ a.data then []
      else if crlf <:+ a.data then octets ".\r\n" else octets "\r\n.\r\n" := by
    cases what with
    | SThead => exact absurd rfl h
    | STarticle | STbody => rfl
  rw [hterm]
  by_cases hdotted : a.dotted = true
  · have hends := a.dotted_text hdotted
    have hdot : a.dot = octets ".\r\n" := if_pos hdotted
    rw [if_pos, closing, if_pos hends, List.append_nil, hdot, List.nil_append]
    obtain ⟨t, ht⟩ := hends
    rw [data, hdot, ← ht, List.append_assoc]
    exact List.suffix_append _ _
  · have hdot : a.dot = [] := if_neg hdotted
    have hdata : a.data = a.text := by rw [data, hdot, List.append_nil]
    have hno : ¬ octets "\r\n.\r\n" <:+ a.data := by
      rw [hdata]
      intro hdot'
      refine a.not_dot_closed (hdot'.isInfix.trans ⟨crlf, a.closing, ?_⟩)
      rw [List.append_assoc]
    rw [hdot, List.nil_append, if_neg hno, hdata, closing]
    split <;> rfl

/-- What is sent of an article with a body. -/
theorem Stored.send_of_body {t : List UInt8} (h : a.body = some t) :
    ARTsendmmap [] a.data .STarticle = some (a.header ++ crlf ++ (t ++ a.closing) ++ octets ".\r\n") ∧
      ARTsendmmap [] a.data .SThead = some (a.header ++ octets ".\r\n") ∧
      ARTsendmmap [] a.data .STbody = some (t ++ a.closing ++ octets ".\r\n") := by
  obtain ⟨hhead, hbody⟩ := a.part_of_body h
  refine ⟨?_, ?_, ?_⟩
  · rw [ARTsendmmap_plain (.inl rfl) rfl (Nat.zero_le _), List.length_nil, Nat.sub_zero,
      List.take_length]
    have hdot := @Stored.dot_terminator a .STarticle (by decide)
    rw [a.data_of_body h] at hdot ⊢
    rw [List.append_assoc, List.append_assoc, List.append_assoc, hdot, List.append_assoc,
      List.append_assoc, List.append_assoc]
  · rw [ARTsendmmap_plain (.inl rfl) hhead]
    · rw [a.data_of_body h, List.length_append, Nat.add_sub_cancel, List.take_left]
      rfl
    · rw [a.data_of_body h]
      exact (List.suffix_append _ _).length_le
  · rw [ARTsendmmap_plain (.inl rfl) hbody (Nat.zero_le _), List.length_nil, Nat.sub_zero,
      List.take_length, List.append_assoc, a.dot_terminator (by decide), List.append_assoc]

/-- An article with a body agrees with its parts. -/
theorem Stored.agree_of_body {t : List UInt8} (h : a.body = some t) : Agree a.data := by
  obtain ⟨harticle, hhead, hbody⟩ := a.send_of_body h
  have htext : a.text = a.header ++ crlf ++ t := by
    rw [text, h, List.append_assoc]
    rfl
  have hno := a.not_dot_closed
  have hends := a.closed_ends
  refine ⟨_, _, _, harticle, hhead, hbody, rfl, ?_, ?_, ?_⟩
  · rw [htext, List.append_assoc] at hno hends
    exact terminated_of_noDot hno (hends.trans (List.suffix_append _ _))
  · refine terminated_of_noDot (fun hdot => hno (hdot.trans ?_))
      (a.header_ends.trans (List.suffix_append _ _))
    rw [htext, List.append_assoc, List.append_assoc, ← List.append_assoc crlf a.header]
    exact (List.prefix_append _ _).isInfix
  · have hsuffix : crlf ++ (t ++ a.closing) <:+ a.text ++ a.closing := by
      rw [htext, List.append_assoc, List.append_assoc]
      exact List.suffix_append _ _
    refine terminated_of_noDot (fun hdot => hno ?_) ?_
    · exact hdot.trans (hsuffix.trans (List.suffix_append _ _)).isInfix
    · refine List.suffix_of_suffix_length_le hends hsuffix ?_
      rw [List.length_append]
      exact Nat.le_add_right _ _

/-- An article without an empty line is sent as its own body. -/
theorem Stored.not_agree_of_no_body (h : a.body = none) : ¬ Agree a.data := by
  rintro ⟨article, head, body, harticle, -, hbody, heq, -⟩
  have hsame : ARTsendmmap [] a.data .STbody = ARTsendmmap [] a.data .STarticle := by
    rw [ARTsendmmap_plain (.inl rfl) (a.part_of_no_body h _) (Nat.zero_le _),
      ARTsendmmap_plain (.inl rfl) (a.part_of_no_body h _) (Nat.zero_le _)]
    rfl
  rw [hsame, harticle, Option.some.injEq, List.append_left_inj, heq] at hbody
  have hlen := congrArg List.length hbody
  rw [List.length_append, List.length_append, show crlf.length = 2 from rfl] at hlen
  omega

theorem Stored.agree_iff : Agree a.data ↔ a.body.isSome := by
  rcases h : a.body with _ | t
  · exact ⟨fun hagree => absurd hagree (a.not_agree_of_no_body h), fun hsome => nomatch hsome⟩
  · exact ⟨fun _ => rfl, fun _ => a.agree_of_body h⟩

end Agree

end Plain

end Inn.Nnrpd
