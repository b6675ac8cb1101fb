import Inn.Nnrpd.Article
import Mathlib.Data.List.TakeWhile

/-!
# Inn.Nnrpd.Virtual — articles sent under the name of a virtual host

With virtual hosting `VirtualPath` is the name of the host and a `!`. The Path field body is
sent from an element on that is this name, or with the name and two `!` before it; and the
first word of the Xref field body, up to the first space, is sent as the name.

* `Hosted` — an article with a Path and an Xref field, in either order;
* `VirtualAgree` — what is sent differs from the plain article in the two bodies only;
* `virtualAgree_iff` — it does just when a space follows the first word of Xref;
* `responses_iff` — this, and what holds of plain articles;
* `header_sent_as_body` — an article that is only a header is sent as its own body.
-/

namespace Inn.Nnrpd

open Inn.Innd

/-- Header fields, each with its CRLF. -/
def fields (ls : List (List UInt8)) : List UInt8 := ls.flatMap (· ++ crlf)

/-- A stored article whose header has a Path and an Xref field. -/
structure Hosted where
  stored : Stored
  before : List (List UInt8)
  between : List (List UInt8)
  after : List (List UInt8)
  path : Field (octets "Path")
  xref : Field (octets "Xref")
  pathFirst : Bool
  header_eq : stored.header = fields before ++
    ((if pathFirst then path.text ++ crlf ++ (fields between ++ (xref.text ++ crlf))
      else xref.text ++ crlf ++ (fields between ++ (path.text ++ crlf))) ++ fields after)
  others : ∀ l ∈ before ++ between ++ after, Block (octets "Path") l ∧ Block (octets "Xref") l

/-- What a word consists of. -/
def wordChar (c : UInt8) : Bool := !ISWHITE c && c != 13

namespace Hosted

variable (h : Hosted)

/-- The first word of the Xref field body, and the rest of that. -/
def word : List UInt8 := h.xref.body.takeWhile wordChar

def locations : List UInt8 := h.xref.body.dropWhile wordChar

/-- The header with other field bodies. -/
def headerWith (pathBody xrefBody : List UInt8) : List UInt8 :=
  fields h.before ++
    ((if h.pathFirst then h.path.intro ++ pathBody ++ crlf ++
        (fields h.between ++ (h.xref.intro ++ xrefBody ++ crlf))
      else h.xref.intro ++ xrefBody ++ crlf ++
        (fields h.between ++ (h.path.intro ++ pathBody ++ crlf))) ++ fields h.after)

end Hosted

/-- The path from the first element on that is the host, if there is one with more behind
it. -/
def searchElement (host : List UInt8) : UInt8 → List UInt8 → Option (List UInt8)
  | _, [] => none
  | lastchar, c :: s =>
    if s.length + 1 ≤ host.length + 1 then none
    else if elementAt (host ++ octets "!") (c :: s) lastchar then some (c :: s)
    else searchElement host c s

/-- The Path field body that is sent. -/
def virtualBody (host body : List UInt8) : List UInt8 :=
  (searchElement host 0 body).getD (host ++ octets "!!" ++ body)

/-- `k` octets into the path an element begins that is the host, but for upper and lower
case. -/
structure HostAt (host body : List UInt8) (k : ℕ) : Prop where
  begins : k = 0 ∨ body[k - 1]? = some 33 ∨ body[k - 1]? = some 0
  same : ((body.drop k).take host.length).map tolower = host.map tolower
  ends : body[k + host.length]? = some 33 ∨ body[k + host.length]? = some 0

/-- The body that is sent starts at the host: what was before an element is dropped, or the
host is added with two `!`. -/
def StartsAtHost (host body body' : List UInt8) : Prop :=
  (∃ k, body' = body.drop k ∧ HostAt host body k) ∨ body' = host ++ octets "!!" ++ body

/-- With virtual hosting, ARTICLE and HEAD differ from what is sent without only in the two
field bodies, and BODY does not differ. -/
structure VirtualAgree (host : List UInt8) (h : Hosted) : Prop where
  path : StartsAtHost host h.path.body (virtualBody host h.path.body)
  sent : ∀ what, what ≠ .STbody → ∃ tail,
    ARTsendmmap [] h.stored.data what =
      some (h.headerWith h.path.body (h.word ++ h.locations) ++ tail) ∧
    ARTsendmmap (host ++ octets "!") h.stored.data what =
      some (h.headerWith (virtualBody host h.path.body) (host ++ h.locations) ++ tail)
  body : ARTsendmmap (host ++ octets "!") h.stored.data .STbody =
    ARTsendmmap [] h.stored.data .STbody

/-! ## The search in the path -/

section Search

variable {host body rest s : List UInt8} {lastchar : UInt8}

/-- What is behind the path does not matter. -/
theorem elementAt_append (hlong : host.length + 1 < s.length) :
    elementAt (host ++ octets "!") (s ++ rest) lastchar =
      elementAt (host ++ octets "!") s lastchar := by
  have hlen : (host ++ octets "!").length - 1 = host.length := by
    rw [List.length_append]
    rfl
  have hne : s ≠ [] := List.ne_nil_of_length_pos (by omega)
  rw [elementAt, elementAt, hlen, strncaseEq, strncaseEq, List.head?_append_of_ne_nil s hne,
    List.take_append_of_le_length (by omega), List.getElem?_append_left (by omega)]

theorem searchPath_some (h : searchElement host lastchar body = some s) :
    searchPath (host ++ octets "!") (rest.length + 1) lastchar (body ++ 13 :: 10 :: rest) =
        s ++ 13 :: 10 :: rest ∧ host.length + 1 < s.length := by
  induction body generalizing lastchar with
  | nil => cases h
  | cons c body ih =>
    rw [searchElement] at h
    split at h
    · cases h
    · rename_i hlong
      have hlen : (host ++ octets "!").length = host.length + 1 := List.length_append
      have hgo : ¬ (body ++ 13 :: 10 :: rest).length + 1 ≤
          rest.length + 1 + (host ++ octets "!").length + 1 := by
        rw [hlen, List.length_append, List.length_cons, List.length_cons]
        omega
      have hlong' : host.length + 1 < (c :: body).length := by
        rw [List.length_cons]
        omega
      have helem := @elementAt_append host (13 :: 10 :: rest) (c :: body) lastchar hlong'
      rw [List.cons_append] at helem ⊢
      rw [searchPath, if_neg hgo, helem]
      split at h
      · rename_i hat
        cases h
        rw [if_pos hat]
        exact ⟨rfl, hlong'⟩
      · rename_i hat
        rw [if_neg hat]
        exact ih h

theorem searchPath_none (h : searchElement host lastchar body = none) :
    (searchPath (host ++ octets "!") (rest.length + 1) lastchar (body ++ 13 :: 10 :: rest)).length ≤
      rest.length + 1 + (host ++ octets "!").length + 1 := by
  have hlen : (host ++ octets "!").length = host.length + 1 := List.length_append
  induction body generalizing lastchar with
  | nil =>
    rw [List.nil_append, searchPath, if_pos]
    · rw [List.length_cons, List.length_cons]
      omega
    · rw [List.length_cons]
      omega
  | cons c body ih =>
    rw [searchElement] at h
    rw [List.cons_append, searchPath]
    split
    · rename_i hstop
      exact hstop
    · rename_i hgo
      rw [hlen, List.length_append, List.length_cons, List.length_cons] at hgo
      have hlong : host.length + 1 < (c :: body).length := by
        rw [List.length_cons]
        omega
      have helem := @elementAt_append host (13 :: 10 :: rest) (c :: body) lastchar hlong
      rw [List.cons_append] at helem
      rw [List.length_cons] at hlong
      rw [if_neg (by omega)] at h
      rw [helem]
      split at h
      · cases h
      · rename_i hat
        rw [if_neg hat]
        exact ih h

/-- An element that was found, in a path whose part before `body` ends in `lastchar`. -/
theorem searchElement_hostAt {seen : List UInt8} (h : searchElement host lastchar body = some s)
    (hlast : seen = [] ∧ lastchar = 0 ∨ ∃ l, seen = l ++ [lastchar]) :
    ∃ k, s = (seen ++ body).drop k ∧ HostAt host (seen ++ body) k := by
  induction body generalizing lastchar seen with
  | nil => cases h
  | cons c body ih =>
    rw [searchElement] at h
    split at h
    · cases h
    · split at h
      · rename_i hat
        cases h
        refine ⟨seen.length, List.drop_left.symm, ?_⟩
        have hlen : (host ++ octets "!").length - 1 = host.length := by
          rw [List.length_append]
          rfl
        rw [elementAt, hlen, Bool.and_eq_true, Bool.and_eq_true, Bool.and_eq_true] at hat
        obtain ⟨⟨⟨hbegin, -⟩, hhost⟩, hend⟩ := hat
        refine ⟨?_, ?_, ?_⟩
        · rcases hlast with ⟨rfl, -⟩ | ⟨l, rfl⟩
          · exact .inl rfl
          · have hget : (l ++ [lastchar] ++ c :: body)[(l ++ [lastchar]).length - 1]? =
                some lastchar := by
              rw [List.length_append, List.length_singleton, Nat.add_sub_cancel, List.append_assoc,
                List.getElem?_append_right (Nat.le_refl _), Nat.sub_self]
              rfl
            rw [hget]
            rcases (Bool.or_eq_true _ _).mp hbegin with hb | hb
            · exact .inr (.inr (congrArg some (beq_iff_eq.mp hb)))
            · exact .inr (.inl (congrArg some (beq_iff_eq.mp hb)))
        · rw [List.drop_left]
          rw [strncaseEq, beq_iff_eq, List.take_left] at hhost
          exact hhost
        · rw [List.getElem?_append_right (Nat.le_add_right _ _), Nat.add_sub_cancel_left]
          rcases (Bool.or_eq_true _ _).mp hend with hb | hb
          · exact .inr (beq_iff_eq.mp hb)
          · exact .inl (beq_iff_eq.mp hb)
      · obtain ⟨k, hs, hk⟩ := @ih c (seen ++ [c]) h (.inr ⟨seen, rfl⟩)
        rw [List.append_assoc] at hs hk
        exact ⟨k, hs, hk⟩

theorem startsAtHost (host body : List UInt8) :
    StartsAtHost host body (virtualBody host body) := by
  rw [virtualBody]
  rcases hs : searchElement host 0 body with _ | s
  · exact .inr rfl
  · obtain ⟨k, hk⟩ := @searchElement_hostAt host body s 0 [] hs (.inl ⟨rfl, rfl⟩)
    exact .inl ⟨k, hk⟩

end Search

/-! ## What is sent -/

/-- What follows the header. -/
def Stored.behind (a : Stored) : List UInt8 := (a.body.map (crlf ++ ·)).getD [] ++ a.dot

theorem Stored.data_eq (a : Stored) : a.data = a.header ++ a.behind := List.append_assoc _ _ _

theorem Stored.behind_white (a : Stored) : a.behind.head?.any ISWHITE = false := by
  rw [behind, dot]
  rcases a.body with _ | t
  · cases a.dotted <;> rfl
  · rfl

/-- The part that is sent as article or header ends behind the header. -/
theorem Stored.part_header (a : Stored) {what : SENDTYPE} (hwhat : what ≠ .STbody) :
    ∃ p mid, part a.data what = (a.data, p) ∧ a.behind = mid ++ p := by
  rcases hbody : a.body with _ | t
  · exact ⟨[], a.behind, a.part_of_no_body hbody what, (List.append_nil _).symm⟩
  · cases what with
    | STarticle => exact ⟨[], a.behind, rfl, (List.append_nil _).symm⟩
    | SThead =>
      refine ⟨crlf ++ (t ++ a.dot), [], (a.part_of_body hbody).1, ?_⟩
      rw [behind, hbody]
      exact List.append_assoc crlf t a.dot
    | STbody => exact absurd rfl hwhat

/-- Pieces of no negative length, and the terminator. -/
theorem ARTsendmmap_virtual {VirtualPath data q p : List UInt8} {what : SENDTYPE}
    (hpos : 0 < VirtualPath.length) (hwhat : what ≠ .STbody) (hpart : part data what = (q, p))
    {pieces : List (List UInt8 × ℤ)} (hpieces : virtualPieces VirtualPath data q p = some pieces)
    (hlen : ∀ v ∈ pieces, 0 ≤ v.2) :
    ARTsendmmap VirtualPath data what = some (piecesBytes pieces ++ terminator data what) := by
  rw [ARTsendmmap, hpart]
  dsimp only
  rw [if_pos ⟨hpos, hwhat⟩, hpieces]
  dsimp only
  have hall : ∀ v ∈ pieces ++ (if terminator data what = [] then []
      else [(terminator data what, ((terminator data what).length : ℤ))]), 0 ≤ v.2 := by
    intro v hv
    rcases List.mem_append.mp hv with hv | hv
    · exact hlen v hv
    · split at hv
      · cases hv
      · rw [List.mem_singleton.mp hv]
        exact Int.natCast_nonneg _
  obtain ⟨o, hsend, hbytes⟩ := sendAll_bytes hall ⟨[], []⟩
  rw [hsend, Option.map_some, pushIOv, hbytes, piecesBytes, List.flatMap_append]
  split
  · rename_i hnil
    rw [hnil]
    rfl
  · rw [List.flatMap_singleton, Int.toNat_natCast, List.take_length]
    rfl

theorem ARTsendmmap_virtual_neg {VirtualPath data q p : List UInt8} {what : SENDTYPE}
    (hpos : 0 < VirtualPath.length) (hwhat : what ≠ .STbody) (hpart : part data what = (q, p))
    {pieces : List (List UInt8 × ℤ)} (hpieces : virtualPieces VirtualPath data q p = some pieces)
    {v : List UInt8 × ℤ} (hv : v ∈ pieces) (hneg : v.2 < 0) :
    ARTsendmmap VirtualPath data what = none := by
  rw [ARTsendmmap, hpart]
  dsimp only
  rw [if_pos ⟨hpos, hwhat⟩, hpieces]
  dsimp only
  rw [sendAll_neg (List.mem_append_left _ hv) hneg]
  rfl

theorem ARTsendmmap_virtual_none {VirtualPath data q p : List UInt8} {what : SENDTYPE}
    (hpos : 0 < VirtualPath.length) (hwhat : what ≠ .STbody) (hpart : part data what = (q, p))
    (hpieces : virtualPieces VirtualPath data q p = none) :
    ARTsendmmap VirtualPath data what = some (octets ".\r\n") := by
  rw [ARTsendmmap, hpart]
  dsimp only
  rw [if_pos ⟨hpos, hwhat⟩, hpieces]
  rfl

/-- A piece that is sent as these bytes. -/
structure Piece (v : List UInt8 × ℤ) (bytes : List UInt8) : Prop where
  nonneg : 0 ≤ v.2
  bytes : v.1.take v.2.toNat = bytes

theorem pieces_bytes {pieces : List (List UInt8 × ℤ)} {bytes : List (List UInt8)}
    (h : List.Forall₂ Piece pieces bytes) :
    (∀ v ∈ pieces, 0 ≤ v.2) ∧ piecesBytes pieces = bytes.flatten := by
  induction h with
  | nil => exact ⟨fun v hv => (by cases hv), rfl⟩
  | cons hp _ ih =>
    refine ⟨fun v hv => ?_, ?_⟩
    · rcases List.mem_cons.mp hv with rfl | hv
      · exact hp.nonneg
      · exact ih.1 v hv
    · rw [piecesBytes, List.flatMap_cons, hp.bytes, List.flatten_cons]
      exact congrArg _ ih.2

theorem distance_append (a p : List UInt8) : distance p (a ++ p) = (a.length : ℤ) := by
  rw [distance, List.length_append]
  omega

/-- From one pointer to the next. -/
theorem piece_between {l a p : List UInt8} (h : l = a ++ p) : Piece (l, distance p l) a := by
  subst h
  refine ⟨?_, ?_⟩
  · rw [distance_append]
    exact Int.natCast_nonneg _
  · rw [distance_append, Int.toNat_natCast, List.take_left]

theorem piece_whole (l : List UInt8) : Piece (l, (l.length : ℤ)) l :=
  ⟨Int.natCast_nonneg _, by rw [Int.toNat_natCast, List.take_length]⟩

/-- The virtual host, without the `!`. -/
theorem piece_host (host : List UInt8) :
    Piece (host ++ octets "!", ((host ++ octets "!").length : ℤ) - 1) host := by
  have : ((host ++ octets "!").length : ℤ) - 1 = host.length := by
    rw [List.length_append, show (octets "!").length = 1 from rfl]
    omega
  refine ⟨?_, ?_⟩
  · rw [this]
    exact Int.natCast_nonneg _
  · rw [this, Int.toNat_natCast, List.take_left]

section Order

variable {host data p P M Y Z N A : List UInt8} {j : ℕ}

/-- Where the search in the path stops: at an element, or too near the end. -/
theorem searchPath_path (host P rest : List UInt8) :
    (∃ s, searchElement host 0 P = some s ∧
      searchPath (host ++ octets "!") (10 :: rest).length 0 (P ++ (crlf ++ rest)) =
        s ++ (crlf ++ rest) ∧
      (10 :: rest).length + (host ++ octets "!").length + 1 <
        (searchPath (host ++ octets "!") (10 :: rest).length 0 (P ++ (crlf ++ rest))).length) ∨
    searchElement host 0 P = none ∧
      ¬ (10 :: rest).length + (host ++ octets "!").length + 1 <
        (searchPath (host ++ octets "!") (10 :: rest).length 0 (P ++ (crlf ++ rest))).length := by
  rcases hs : searchElement host 0 P with _ | s
  · exact .inr ⟨rfl, Nat.not_lt.mpr (searchPath_none hs)⟩
  · obtain ⟨hsearch, hlong⟩ := @searchPath_some host P rest s 0 hs
    refine .inl ⟨s, rfl, hsearch, ?_⟩
    have hlen : (searchPath (host ++ octets "!") (10 :: rest).length 0 (P ++ (crlf ++ rest))).length =
        s.length + (rest.length + 2) := by
      rw [show searchPath (host ++ octets "!") (10 :: rest).length 0 (P ++ (crlf ++ rest)) = _ from
        hsearch, List.length_append]
      rfl
    rw [hlen, List.length_append, List.length_cons, show (octets "!").length = 1 from rfl]
    omega

/-- The path that is sent, as one piece or behind the host. -/
theorem virtualBody_some {s : List UInt8} (h : searchElement host 0 P = some s) :
    virtualBody host P = s := by
  rw [virtualBody, h]
  rfl

theorem virtualBody_none (h : searchElement host 0 P = none) :
    virtualBody host P = host ++ octets "!" ++ octets "!" ++ P := by
  rw [virtualBody, h]
  simp only [Option.getD_none, List.append_assoc]
  rfl

/-- The pieces of an article whose Path comes first. -/
theorem virtualPieces_pathFirst
    (hdata : data = A ++ (P ++ (crlf ++ (M ++ (Y ++ p)))))
    (hpath : wireFindheader data (octets "Path") true = some (P ++ (crlf ++ (M ++ (Y ++ p)))))
    (hxref : wireFindheader data (octets "Xref") true = some (Y ++ p))
    (hend : wireEndheader (P ++ (crlf ++ (M ++ (Y ++ p)))) = some (10 :: (M ++ (Y ++ p))))
    (hj : Y.findIdx? (· == 32) = some j) :
    ∃ pieces, virtualPieces (host ++ octets "!") data data p = some pieces ∧
      (∀ v ∈ pieces, 0 ≤ v.2) ∧
      piecesBytes pieces = A ++ (virtualBody host P ++ (crlf ++ (M ++ (host ++ Y.drop j)))) := by
  have htake : (Y ++ p).take ((Y ++ p).length - p.length) = Y := by
    rw [List.length_append, Nat.add_sub_cancel, List.take_left]
  have hlt : (Y ++ p).length < (P ++ (crlf ++ (M ++ (Y ++ p)))).length := by
    have : crlf.length = 2 := rfl
    simp only [List.length_append]
    omega
  have hjlt : j < Y.length := (List.findIdx?_eq_some_iff_getElem.mp hj).1
  have hr : Piece ((Y ++ p).drop j, distance p ((Y ++ p).drop j)) (Y.drop j) :=
    piece_between (List.drop_append_of_le_length hjlt.le)
  simp only [virtualPieces, hpath, hxref, hend, htake, hj, Option.bind_eq_bind, Option.bind_some,
    Option.map_some, hlt, if_true]
  rcases searchPath_path host P (M ++ (Y ++ p)) with ⟨s, hs, hsearch, hgo⟩ | ⟨hs, hgo⟩
  · rw [if_pos hgo, hsearch, virtualBody_some hs]
    have hbytes := pieces_bytes <| .cons (piece_between hdata) <|
      .cons (@piece_between (s ++ (crlf ++ (M ++ (Y ++ p)))) (s ++ (crlf ++ M)) (Y ++ p)
        (by simp only [List.append_assoc])) <|
      .cons (piece_host host) <| .cons hr .nil
    refine ⟨_, rfl, hbytes.1, hbytes.2.trans ?_⟩
    simp only [List.flatten_cons, List.flatten_nil, List.append_nil, List.append_assoc]
  · rw [if_neg hgo, virtualBody_none hs]
    have hbytes := pieces_bytes <| .cons (piece_between hdata) <|
      .cons (piece_whole (host ++ octets "!")) <| .cons (piece_whole (octets "!")) <|
      .cons (@piece_between (P ++ (crlf ++ (M ++ (Y ++ p)))) (P ++ (crlf ++ M)) (Y ++ p)
        (by simp only [List.append_assoc])) <|
      .cons (piece_host host) <| .cons hr .nil
    refine ⟨_, rfl, hbytes.1, hbytes.2.trans ?_⟩
    simp only [List.flatten_cons, List.flatten_nil, List.append_nil, List.append_assoc]

/-- The pieces of an article whose Xref comes first, where `r` is before the path. -/
theorem virtualPieces_xrefFirst
    (hdata : data = A ++ (Z ++ (P ++ (crlf ++ (N ++ p)))))
    (hpath : wireFindheader data (octets "Path") true = some (P ++ (crlf ++ (N ++ p))))
    (hxref : wireFindheader data (octets "Xref") true = some (Z ++ (P ++ (crlf ++ (N ++ p)))))
    (hend : wireEndheader (P ++ (crlf ++ (N ++ p))) = some (10 :: (N ++ p)))
    (hj : (Z ++ (P ++ (crlf ++ N))).findIdx? (· == 32) = some j) :
    ∃ pieces, virtualPieces (host ++ octets "!") data data p = some pieces ∧
      (j ≤ Z.length → (∀ v ∈ pieces, 0 ≤ v.2) ∧
        piecesBytes pieces = A ++ (host ++ (Z.drop j ++ (virtualBody host P ++ (crlf ++ N))))) ∧
      (Z.length < j → ∃ v ∈ pieces, v.2 < 0) := by
  have hsplit : Z ++ (P ++ (crlf ++ (N ++ p))) = (Z ++ (P ++ (crlf ++ N))) ++ p := by
    simp only [List.append_assoc]
  have htake : (Z ++ (P ++ (crlf ++ (N ++ p)))).take
      ((Z ++ (P ++ (crlf ++ (N ++ p)))).length - p.length) = Z ++ (P ++ (crlf ++ N)) := by
    rw [hsplit, List.length_append, Nat.add_sub_cancel, List.take_left]
  have hlt : ¬ (Z ++ (P ++ (crlf ++ (N ++ p)))).length < (P ++ (crlf ++ (N ++ p))).length := by
    rw [List.length_append]
    omega
  have hneg : Z.length < j → distance (P ++ (crlf ++ (N ++ p)))
      ((Z ++ (P ++ (crlf ++ (N ++ p)))).drop j) < 0 := fun hlt => by
    have : 0 < crlf.length := by decide
    rw [distance, List.length_drop, List.length_append]
    simp only [List.length_append]
    omega
  have hr : j ≤ Z.length → Piece ((Z ++ (P ++ (crlf ++ (N ++ p)))).drop j,
      distance (P ++ (crlf ++ (N ++ p))) ((Z ++ (P ++ (crlf ++ (N ++ p)))).drop j)) (Z.drop j) :=
    fun hle => piece_between (List.drop_append_of_le_length hle)
  simp only [virtualPieces, hpath, hxref, hend, htake, hj, Option.bind_eq_bind, Option.bind_some,
    Option.map_some, hlt, if_false]
  rcases searchPath_path host P (N ++ p) with ⟨s, hs, hsearch, hgo⟩ | ⟨hs, hgo⟩
  · rw [if_pos hgo, hsearch, virtualBody_some hs]
    refine ⟨_, rfl, fun hle => ?_, fun hlt => ⟨((Z ++ (P ++ (crlf ++ (N ++ p)))).drop j,
      distance (P ++ (crlf ++ (N ++ p))) ((Z ++ (P ++ (crlf ++ (N ++ p)))).drop j)), ?_, hneg hlt⟩⟩
    · have hbytes := pieces_bytes <| .cons (piece_between hdata) <| .cons (piece_host host) <|
        .cons (hr hle) <|
        .cons (@piece_between (s ++ (crlf ++ (N ++ p))) (s ++ (crlf ++ N)) p
          (by simp only [List.append_assoc])) .nil
      refine ⟨hbytes.1, hbytes.2.trans ?_⟩
      simp only [List.flatten_cons, List.flatten_nil, List.append_nil]
    · exact List.mem_cons_of_mem _ (List.mem_cons_of_mem _ List.mem_cons_self)
  · rw [if_neg hgo, virtualBody_none hs]
    refine ⟨_, rfl, fun hle => ?_, fun hlt => ⟨((Z ++ (P ++ (crlf ++ (N ++ p)))).drop j,
      distance (P ++ (crlf ++ (N ++ p))) ((Z ++ (P ++ (crlf ++ (N ++ p)))).drop j)), ?_, hneg hlt⟩⟩
    · have hbytes := pieces_bytes <| .cons (piece_between hdata) <| .cons (piece_host host) <|
        .cons (hr hle) <| .cons (piece_whole (host ++ octets "!")) <|
        .cons (piece_whole (octets "!")) <|
        .cons (@piece_between (P ++ (crlf ++ (N ++ p))) (P ++ (crlf ++ N)) p
          (by simp only [List.append_assoc])) .nil
      refine ⟨hbytes.1, hbytes.2.trans ?_⟩
      simp only [List.flatten_cons, List.flatten_nil, List.append_nil, List.append_assoc]
    · exact List.mem_cons_of_mem _ (List.mem_cons_of_mem _ List.mem_cons_self)

/-- Without a space behind the first word, nothing but the dot is sent. -/
theorem virtualPieces_none {xref VirtualPath q : List UInt8}
    (hxref : wireFindheader data (octets "Xref") true = some xref)
    (hj : (xref.take (xref.length - p.length)).findIdx? (· == 32) = none) :
    virtualPieces VirtualPath data q p = none := by
  rw [virtualPieces]
  rcases wireFindheader data (octets "Path") true with _ | path
  · rfl
  · rcases hend : wireEndheader path with _ | endofpath
    · simp only [hxref, hend, Option.bind_eq_bind, Option.bind_some, Option.bind_none]
    · simp only [hxref, hend, hj, Option.bind_eq_bind, Option.bind_some, Option.map_none,
        Option.bind_none]

end Order

/-! ## Both bodies -/

theorem isName_path : IsName (octets "Path") := ⟨80, [97, 116, 104], rfl, by decide⟩

theorem isName_xref : IsName (octets "Xref") := ⟨88, [114, 101, 102], rfl, by decide⟩

namespace Hosted

variable (h : Hosted) (host : List UInt8)

theorem word_locations : h.word ++ h.locations = h.xref.body := List.takeWhile_append_dropWhile

theorem header_with : h.headerWith h.path.body (h.word ++ h.locations) = h.stored.header := by
  rw [headerWith, word_locations, h.header_eq]
  rfl

theorem path_block : Block (octets "Xref") h.path.text :=
  h.path.isBlock isName_path isName_xref rfl (by decide)

theorem xref_block : Block (octets "Path") h.xref.text :=
  h.xref.isBlock isName_xref isName_path rfl (by decide)

/-- What is sent depends on where the first space behind the Xref field name is: between
`before` and `behind` it cuts off the beginning of `cut`. -/
structure Cut (what : SENDTYPE) (before cut search behind tail : List UInt8) : Prop where
  long : 3 < before.length
  cut_eq : ∃ l, cut = h.xref.body ++ (crlf ++ l)
  search_eq : ∃ l, search = cut ++ l
  plain : ARTsendmmap [] h.stored.data what = some (h.stored.header ++ tail)
  expected : h.headerWith (virtualBody host h.path.body) (host ++ h.locations) ++ tail =
    before ++ (host ++ (cut.drop h.word.length ++ behind))
  absent : search.findIdx? (· == 32) = none →
    ARTsendmmap (host ++ octets "!") h.stored.data what = some (octets ".\r\n")
  found : ∀ j, search.findIdx? (· == 32) = some j → j ≤ cut.length →
    ARTsendmmap (host ++ octets "!") h.stored.data what =
      some (before ++ (host ++ (cut.drop j ++ behind)))
  beyond : ∀ j, search.findIdx? (· == 32) = some j → cut.length < j →
    ARTsendmmap (host ++ octets "!") h.stored.data what = none

theorem drop_word (l : List UInt8) : (h.xref.body ++ l).drop h.word.length = h.locations ++ l := by
  rw [← h.word_locations, List.append_assoc, List.drop_left]

theorem exists_cut {what : SENDTYPE} (hwhat : what ≠ .STbody) :
    ∃ before cut search behind tail, h.Cut host what before cut search behind tail := by
  obtain ⟨p, mid, hpart, hbehind⟩ := h.stored.part_header hwhat
  have hdata : h.stored.data = h.stored.header ++ (mid ++ p) := by rw [h.stored.data_eq, hbehind]
  have hpos : 0 < (host ++ octets "!").length := by
    rw [List.length_append]
    exact Nat.lt_of_lt_of_le Nat.one_pos (Nat.le_add_left 1 _)
  have hplain : ARTsendmmap [] h.stored.data what =
      some (h.stored.header ++ (mid ++ terminator h.stored.data what)) := by
    have hsplit : h.stored.data = (h.stored.header ++ mid) ++ p := by
      rw [hdata, List.append_assoc]
    rw [ARTsendmmap_plain (.inl rfl) hpart (by rw [hsplit, List.length_append]; omega)]
    rw [← List.append_assoc]
    congr 2
    rw [hsplit, List.length_append, Nat.add_sub_cancel, List.take_left]
  have hbefore : ∀ l ∈ h.before, Block (octets "Path") l ∧ Block (octets "Xref") l := fun l hl =>
    h.others l (List.mem_append_left _ (List.mem_append_left _ hl))
  have hbetween : ∀ l ∈ h.between, Block (octets "Path") l ∧ Block (octets "Xref") l := fun l hl =>
    h.others l (List.mem_append_left _ (List.mem_append_right _ hl))
  have hafter : ∀ l ∈ h.after, Block (octets "Path") l := fun l hl =>
    (h.others l (List.mem_append_right _ hl)).1
  rcases hfirst : h.pathFirst with _ | _
  · -- Xref first
    have hheader : h.stored.header = fields h.before ++ (h.xref.intro ++ (h.xref.body ++ (crlf ++
        (fields h.between ++ (h.path.intro ++ (h.path.body ++ (crlf ++ fields h.after))))))) := by
      rw [h.header_eq, hfirst, if_neg Bool.false_ne_true, Field.text, Field.text]
      simp only [List.append_assoc]
    obtain ⟨Z, hZ⟩ : ∃ Z, Z = h.xref.body ++ (crlf ++ (fields h.between ++ h.path.intro)) :=
      ⟨_, rfl⟩
    obtain ⟨N, hN⟩ : ∃ N, N = fields h.after ++ mid := ⟨_, rfl⟩
    obtain ⟨A, hA⟩ : ∃ A, A = fields h.before ++ h.xref.intro := ⟨_, rfl⟩
    have hdata' : h.stored.data = A ++ (Z ++ (h.path.body ++ (crlf ++ (N ++ p)))) := by
      rw [hdata, hheader, hA, hZ, hN]
      simp only [List.append_assoc]
    have hxref : wireFindheader h.stored.data (octets "Xref") true =
        some (Z ++ (h.path.body ++ (crlf ++ (N ++ p)))) := by
      have hfind := wireFindheader_behind isName_xref h.xref (fun b hb => (hbefore b hb).2)
        (fields h.between ++ (h.path.intro ++ (h.path.body ++ (crlf ++ (N ++ p)))))
      rw [hZ]
      simp only [List.append_assoc]
      rw [← hfind, hdata', hA, hZ]
      congr 1
      simp only [Field.text, fields, List.append_assoc]
    have hpath : wireFindheader h.stored.data (octets "Path") true =
        some (h.path.body ++ (crlf ++ (N ++ p))) := by
      have hblocks : ∀ b ∈ h.before ++ [h.xref.text] ++ h.between, Block (octets "Path") b := by
        intro b hb
        rcases List.mem_append.mp hb with hb | hb
        · rcases List.mem_append.mp hb with hb | hb
          · exact (hbefore b hb).1
          · exact List.mem_singleton.mp hb ▸ h.xref_block
        · exact (hbetween b hb).1
      have hfind := wireFindheader_behind isName_path h.path hblocks (N ++ p)
      rw [← hfind, hdata', hA, hZ]
      congr 1
      simp only [Field.text, fields, List.flatMap_append, List.flatMap_singleton, List.append_assoc]
    have hend : wireEndheader (h.path.body ++ (crlf ++ (N ++ p))) = some (10 :: (N ++ p)) := by
      have hwhite : (N ++ p).head?.any ISWHITE = false := by
        rw [hN, List.append_assoc, ← hbehind]
        exact head_blocks hafter h.stored.behind_white
      have := wireEndheader_field h.path.folded_body hwhite
      rwa [List.append_assoc] at this
    refine ⟨A, Z, Z ++ (h.path.body ++ (crlf ++ N)),
      virtualBody host h.path.body ++ (crlf ++ (N ++ terminator h.stored.data what)),
      mid ++ terminator h.stored.data what, ?_, ⟨_, hZ⟩, ⟨_, rfl⟩, hplain, ?_, ?_, ?_, ?_⟩
    · rw [hA, Field.intro]
      simp only [List.length_append, h.xref.length_label, List.length_cons]
      have : (octets "Xref").length = 4 := rfl
      omega
    · rw [headerWith, hfirst, if_neg Bool.false_ne_true, hZ, drop_word, hA, hN]
      simp only [List.append_assoc]
    · intro hnone
      refine ARTsendmmap_virtual_none hpos hwhat hpart (virtualPieces_none hxref ?_)
      have hsplit : Z ++ (h.path.body ++ (crlf ++ (N ++ p))) =
          (Z ++ (h.path.body ++ (crlf ++ N))) ++ p := by
        simp only [List.append_assoc]
      rw [hsplit, List.length_append, Nat.add_sub_cancel, List.take_left]
      exact hnone
    · intro j hj hle
      obtain ⟨pieces, hpieces, hin, -⟩ :=
        @virtualPieces_xrefFirst host _ _ _ _ _ _ _ hdata' hpath hxref hend hj
      obtain ⟨hnonneg, hbytes⟩ := hin hle
      rw [ARTsendmmap_virtual hpos hwhat hpart hpieces hnonneg, hbytes]
      simp only [List.append_assoc]
    · intro j hj hlt
      obtain ⟨pieces, hpieces, -, hout⟩ :=
        @virtualPieces_xrefFirst host _ _ _ _ _ _ _ hdata' hpath hxref hend hj
      obtain ⟨v, hv, hneg⟩ := hout hlt
      exact ARTsendmmap_virtual_neg hpos hwhat hpart hpieces hv hneg
  · -- Path first
    have hheader : h.stored.header = fields h.before ++ (h.path.intro ++ (h.path.body ++ (crlf ++
        (fields h.between ++ (h.xref.intro ++ (h.xref.body ++ (crlf ++ fields h.after))))))) := by
      rw [h.header_eq, hfirst, if_pos rfl, Field.text, Field.text]
      simp only [List.append_assoc]
    obtain ⟨Y, hY⟩ : ∃ Y, Y = h.xref.body ++ (crlf ++ (fields h.after ++ mid)) := ⟨_, rfl⟩
    obtain ⟨M, hM⟩ : ∃ M, M = fields h.between ++ h.xref.intro := ⟨_, rfl⟩
    obtain ⟨A, hA⟩ : ∃ A, A = fields h.before ++ h.path.intro := ⟨_, rfl⟩
    have hdata' : h.stored.data = A ++ (h.path.body ++ (crlf ++ (M ++ (Y ++ p)))) := by
      rw [hdata, hheader, hA, hM, hY]
      simp only [List.append_assoc]
    have hpath : wireFindheader h.stored.data (octets "Path") true =
        some (h.path.body ++ (crlf ++ (M ++ (Y ++ p)))) := by
      rw [← wireFindheader_behind isName_path h.path (fun b hb => (hbefore b hb).1), hdata', hA]
      congr 1
      simp only [Field.text, fields, List.append_assoc]
    have hxref : wireFindheader h.stored.data (octets "Xref") true = some (Y ++ p) := by
      have hblocks : ∀ b ∈ h.before ++ [h.path.text] ++ h.between, Block (octets "Xref") b := by
        intro b hb
        rcases List.mem_append.mp hb with hb | hb
        · rcases List.mem_append.mp hb with hb | hb
          · exact (hbefore b hb).2
          · exact List.mem_singleton.mp hb ▸ h.path_block
        · exact (hbetween b hb).2
      have hfind := wireFindheader_behind isName_xref h.xref hblocks (fields h.after ++ (mid ++ p))
      rw [hY]
      simp only [List.append_assoc]
      rw [← hfind, hdata', hA, hM, hY]
      congr 1
      simp only [Field.text, fields, List.flatMap_append, List.flatMap_singleton, List.append_assoc]
    have hend : wireEndheader (h.path.body ++ (crlf ++ (M ++ (Y ++ p)))) =
        some (10 :: (M ++ (Y ++ p))) := by
      have hwhite : (M ++ (Y ++ p)).head?.any ISWHITE = false := by
        have hhead := h.xref.head_text isName_xref (crlf ++ (fields h.after ++ mid) ++ p)
        have := head_blocks (fun b hb => (hbetween b hb).1) hhead
        rw [hM, hY]
        simpa only [Field.text, fields, List.append_assoc] using this
      have := wireEndheader_field h.path.folded_body hwhite
      rwa [List.append_assoc] at this
    refine ⟨A ++ (virtualBody host h.path.body ++ (crlf ++ M)), Y, Y, terminator h.stored.data what,
      mid ++ terminator h.stored.data what, ?_, ⟨_, hY⟩, ⟨[], (List.append_nil _).symm⟩, hplain,
      ?_, ?_, ?_, ?_⟩
    · rw [hA, Field.intro]
      simp only [List.length_append, h.path.length_label, List.length_cons]
      have : (octets "Path").length = 4 := rfl
      omega
    · rw [headerWith, hfirst, if_pos rfl, hY, drop_word, hA, hM]
      simp only [List.append_assoc]
    · intro hnone
      refine ARTsendmmap_virtual_none hpos hwhat hpart (virtualPieces_none hxref ?_)
      rw [List.length_append, Nat.add_sub_cancel, List.take_left]
      exact hnone
    · intro j hj _
      obtain ⟨pieces, hpieces, hnonneg, hbytes⟩ := virtualPieces_pathFirst hdata' hpath hxref hend hj
      rw [ARTsendmmap_virtual hpos hwhat hpart hpieces hnonneg, hbytes]
      simp only [List.append_assoc]
    · intro j hj hlt
      have := (List.findIdx?_eq_some_iff_getElem.mp hj).1
      omega

/-- A space follows the first word of the Xref field body. -/
def Spaced : Prop := h.locations.head? = some 32

instance : Decidable h.Spaced := inferInstanceAs (Decidable (_ = _))

theorem not_mem_word : 32 ∉ h.word := fun hmem =>
  absurd (List.mem_takeWhile_imp hmem) (by decide)

/-- The first space is behind the first word, or later. -/
theorem first_space {l : List UInt8} :
    (h.Spaced → (h.xref.body ++ l).findIdx? (· == 32) = some h.word.length) ∧
    (¬ h.Spaced → ∀ j, (h.xref.body ++ (crlf ++ l)).findIdx? (· == 32) = some j →
      h.word.length < j) := by
  have hword : h.word.findIdx? (· == 32) = none :=
    List.findIdx?_eq_none_iff.mpr fun c hc => beq_eq_false_iff_ne.mpr fun heq =>
      h.not_mem_word (heq ▸ hc)
  constructor
  · intro hspaced
    obtain ⟨l', hl'⟩ := List.head?_eq_some_iff.mp hspaced
    rw [← h.word_locations, hl', List.append_assoc, List.findIdx?_append, hword]
    rw [List.cons_append, List.findIdx?_cons, if_pos (by decide)]
    exact congrArg some (Nat.zero_add _)
  · intro hspaced j hj
    rw [← h.word_locations, List.append_assoc, List.findIdx?_append, hword] at hj
    rcases hloc : h.locations with _ | ⟨c, l'⟩
    · rw [hloc, List.nil_append, crlf_eq, List.cons_append, List.findIdx?_cons,
        if_neg (by decide)] at hj
      obtain ⟨i, hi, rfl⟩ := Option.map_eq_some_iff.mp hj
      obtain ⟨i', -, rfl⟩ := Option.map_eq_some_iff.mp hi
      omega
    · have hc : (c == 32) = false := beq_eq_false_iff_ne.mpr fun h32 => by
        rw [Spaced, hloc, h32] at hspaced
        exact hspaced rfl
      rw [hloc, List.cons_append, List.findIdx?_cons, hc, if_neg Bool.false_ne_true] at hj
      obtain ⟨i, hi, rfl⟩ := Option.map_eq_some_iff.mp hj
      obtain ⟨i', -, rfl⟩ := Option.map_eq_some_iff.mp hi
      omega

end Hosted

/-- With virtual hosting, an article is sent as it should be just when a space follows the
first word of its Xref field body. -/
theorem virtualAgree_iff (host : List UInt8) (h : Hosted) : VirtualAgree host h ↔ h.Spaced := by
  have hbody : ARTsendmmap (host ++ octets "!") h.stored.data .STbody =
      ARTsendmmap [] h.stored.data .STbody := by
    have hpart : ∃ q p, part h.stored.data .STbody = (q, p) ∧ p.length ≤ q.length := by
      rcases hb : h.stored.body with _ | t
      · exact ⟨_, _, h.stored.part_of_no_body hb _, Nat.zero_le _⟩
      · exact ⟨_, _, (h.stored.part_of_body hb).2, Nat.zero_le _⟩
    obtain ⟨q, p, hpart, hle⟩ := hpart
    rw [ARTsendmmap_plain (.inr rfl) hpart hle, ARTsendmmap_plain (.inl rfl) hpart hle]
  constructor
  · intro hagree
    by_contra hspaced
    obtain ⟨before, cut, search, behind, tail, hcut⟩ :=
      @Hosted.exists_cut h host .STarticle (by decide)
    obtain ⟨tail', hplain, hsent⟩ := hagree.sent .STarticle (by decide)
    rw [h.header_with, hcut.plain, Option.some.injEq, List.append_cancel_left_eq] at hplain
    subst hplain
    rw [hcut.expected] at hsent
    obtain ⟨l, hl⟩ := hcut.cut_eq
    obtain ⟨l', hl'⟩ := hcut.search_eq
    rcases hj : search.findIdx? (· == 32) with _ | j
    · -- only the dot is sent
      rw [hcut.absent hj, Option.some.injEq] at hsent
      have := hcut.long
      have := congrArg List.length hsent
      rw [List.length_append, show (octets ".\r\n").length = 3 from rfl] at this
      omega
    · have hlt : h.word.length < j := by
        refine (@Hosted.first_space h (l ++ l')).2 hspaced j ?_
        rw [hl', hl] at hj
        simpa only [List.append_assoc] using hj
      by_cases hle : j ≤ cut.length
      · -- something behind the first word is lost
        rw [hcut.found j hj hle, Option.some.injEq, List.append_cancel_left_eq,
          List.append_cancel_left_eq, List.append_cancel_right_eq] at hsent
        have := congrArg List.length hsent
        rw [List.length_drop, List.length_drop] at this
        omega
      · rw [hcut.beyond j hj (Nat.lt_of_not_le hle)] at hsent
        cases hsent
  · intro hspaced
    refine ⟨startsAtHost host h.path.body, fun what hwhat => ?_, hbody⟩
    obtain ⟨before, cut, search, behind, tail, hcut⟩ := @Hosted.exists_cut h host what hwhat
    obtain ⟨l, hl⟩ := hcut.cut_eq
    obtain ⟨l', hl'⟩ := hcut.search_eq
    refine ⟨tail, h.header_with.symm ▸ hcut.plain, ?_⟩
    rw [hcut.expected]
    refine hcut.found h.word.length ?_ ?_
    · rw [hl', hl, List.append_assoc]
      exact h.first_space.1 hspaced
    · rw [hl, ← h.word_locations, List.length_append, List.length_append]
      omega

/-- What is sent of articles is as it should be: without virtual hosting just for those
with an empty line behind the header, and with it, for those where a space follows the first
word of Xref. -/
theorem responses_iff (a : Stored) (host : List UInt8) (h : Hosted) :
    (Agree a.data ↔ a.body.isSome) ∧ (VirtualAgree host h ↔ h.Spaced) :=
  ⟨a.agree_iff, virtualAgree_iff host h⟩

/-- An article of one header field, without an empty line. -/
def headerOnly : Stored where
  header := octets "A: b\r\n"
  body := none
  dotted := false
  header_ends := ⟨octets "A: b", rfl⟩
  noBlank a n b h := by
    have hcount := congrArg (List.count 10) h
    rw [show (octets "A: b\r\n").count 10 = 1 from rfl, List.count_append, List.count_cons_self,
      List.count_append, List.count_cons_self] at hcount
    omega
  noDot := by
    rw [NoDot]
    decide
  dotted_ends h := by cases h

/-- Its header is sent as its body. -/
theorem header_sent_as_body :
    ARTsendmmap [] headerOnly.data .STbody = some (octets "A: b\r\n.\r\n") ∧
      ¬ ∀ a : Stored, Agree a.data := by
  refine ⟨by decide +kernel, fun hall => ?_⟩
  exact absurd (headerOnly.agree_iff.mp (hall headerOnly)) Bool.false_ne_true

end Inn.Nnrpd
