import Mathlib.Data.List.GetD
import Inn.Nnrpd.Headers
import Inn.Storage.Columns

/-!
# Inn.Storage.RoundTrip — overview data from the article and back

What `overview_build` puts into a column and what the accessors read out of it is the body
of a header field, unfolded.

* `headerBody` — the body that belongs into the overview;
* `build_header_wire` — `build_header` finds it, where the field is no special one;
* `overview_round_trip` — building, checking, splitting and reading.
-/

namespace Inn.Storage

open Inn.Innd Inn.Nnrpd
open Inn.Libinn.Wire (xstrndup)

/-! ## The body of a header field -/

/-- What an octet becomes in overview data. -/
def space (c : UInt8) : UInt8 := if c = 0 ∨ c = 9 ∨ c = 10 ∨ c = 13 then 32 else c

/-- The header fields with a body. -/
def filled (header : List UInt8) (a : WireArticle) : List Occurrence :=
  (occurrences header a.lines).filter fun o => !o.body.isEmpty

/-- The header field that counts: the first one with a body, and the last one for Xref. -/
def chosen (header : List UInt8) (a : WireArticle) : Option Occurrence :=
  if strcaseEq header (octets "xref") then (filled header a).getLast? else (filled header a).head?

/-- Its body in overview data, or nothing where there is none. -/
def headerBody (header : List UInt8) (a : WireArticle) : List UInt8 :=
  ((chosen header a).map fun o => o.body.map space).getD []

/-- The body of a field begins with another field of the name. -/
def Nested (header : List UInt8) (o : Occurrence) : Prop :=
  isheader o.first header = true ∧ header.length + 2 < o.first.length

/-- The field that counts is not folded right behind the colon and the white space, and one
of several Xref fields has no further one inside. -/
def Regular (header : List UInt8) (a : WireArticle) : Prop :=
  ∀ o, chosen header a = some o → o.first ≠ [] ∧
    (strcaseEq header (octets "xref") = true → (filled header a).length = 1 ∨ ¬ Nested header o)

instance (header : List UInt8) (o : Occurrence) : Decidable (Nested header o) :=
  inferInstanceAs (Decidable (_ ∧ _))

instance (header : List UInt8) (a : WireArticle) : Decidable (Regular header a) :=
  inferInstanceAs (Decidable (∀ o ∈ chosen header a, o.first ≠ [] ∧
    (strcaseEq header (octets "xref") = true → (filled header a).length = 1 ∨ ¬ Nested header o)))

section Copy

variable {b r rest header : List UInt8} {ls next : List (List UInt8)} {o : Occurrence}

theorem clean_line (hb : ¬ crlf <:+: b) (r : List UInt8) :
    clean (b ++ crlf ++ r) = b.map space ++ clean r := by
  induction b with
  | nil => rfl
  | cons c b ih =>
    have ih := ih fun h => hb (h.trans (List.suffix_cons c b).isInfix)
    rw [List.cons_append, List.cons_append, clean.eq_def]
    split
    · rename_i heq
      cases heq
    · -- a CRLF would be in the line
      rename_i p heq
      obtain ⟨rfl, htail⟩ := List.cons.inj heq
      rcases b with _ | ⟨d, b⟩
      · cases htail
      · cases htail
        exact absurd (List.prefix_append [13, 10] b).isInfix hb
    · rename_i c' p _ heq
      obtain ⟨rfl, rfl⟩ := List.cons.inj heq
      rw [ih]
      rfl

theorem clean_rawBody {folds : List (List UInt8)} (hb : ¬ crlf <:+: b)
    (hfolds : ∀ l ∈ folds, ¬ crlf <:+: l) :
    clean (rawBody b folds ++ crlf) = (b ++ folds.flatten).map space := by
  induction folds generalizing b with
  | nil =>
    have := clean_line hb []
    rw [List.append_nil, clean, List.append_nil] at this
    rw [rawBody, List.flatMap_nil, List.append_nil, this, List.flatten_nil, List.append_nil]
  | cons l folds ih =>
    rw [rawBody_cons, List.append_assoc (b ++ crlf), clean_line hb,
      ih (hfolds l List.mem_cons_self) fun l' hl' => hfolds l' (List.mem_cons_of_mem l hl'),
      List.flatten_cons, List.map_append, List.map_append, List.map_append]

/-- The copying loop over a field. -/
theorem clean_field (hb : ¬ crlf <:+: b) (hls : ∀ l ∈ ls, IsHeaderLine l) (rest : List UInt8) :
    clean ((b ++ crlf ++ wire ls rest).take ((b ++ crlf ++ wire ls rest).length -
      (10 :: wire (ls.dropWhile isFold) rest).length + 1)) =
      (Occurrence.body ⟨b, ls.takeWhile isFold⟩).map space := by
  have hlen : (rawBody b (ls.takeWhile isFold) ++ crlf ++ wire (ls.dropWhile isFold) rest).length -
      (10 :: wire (ls.dropWhile isFold) rest).length + 1 =
      (rawBody b (ls.takeWhile isFold) ++ crlf).length := by
    simp only [List.length_append, List.length_cons, show crlf.length = 2 from rfl]
    omega
  rw [wire_rawBody, hlen, List.take_left, clean_rawBody hb, Occurrence.body]
  exact fun l hl => (hls l ((List.takeWhile_sublist isFold).subset hl)).2

/-- Overview data has no octet that would end a column. -/
theorem isColumn_clean (p : List UInt8) : IsColumn (clean p) := by
  induction p using clean.induct with
  | case1 => exact fun x hx => absurd hx List.not_mem_nil
  | case2 p ih =>
    rw [clean]
    exact ih
  | case3 c p hcrlf ih =>
    rw [clean]
    · intro x hx
      rcases List.mem_cons.mp hx with rfl | hx
      · split
        · decide
        · rename_i hc
          simp only [not_or] at hc
          exact ⟨hc.1, hc.2.1, hc.2.2.1, hc.2.2.2⟩
      · exact ih x hx
    · exact hcrlf

theorem isColumn_build_header (article header : List UInt8) :
    IsColumn (build_header article header) := by
  have hnil : IsColumn [] := fun x hx => absurd hx List.not_mem_nil
  rw [build_header]
  split
  · exact hnil
  · split
    · exact hnil
    · split
      · exact hnil
      · exact isColumn_clean _

/-! ## Finding the header field -/

theorem lastXref_none {data last next : List UInt8}
    (h : wireFindheader next header false = none) :
    lastXref header data last next = some (data, last) := by
  rw [lastXref]
  split
  · rfl
  · rename_i hsome
    rw [h] at hsome
    cases hsome

theorem lastXref_some {data last next data' last' : List UInt8}
    (h : wireFindheader next header false = some data') (hlast : wireEndheader data' = some last') :
    lastXref header data last next = lastXref header data' last' data' := by
  rw [lastXref]
  split
  · rename_i hnone
    rw [h] at hnone
    cases hnone
  · rename_i hsome
    rw [h] at hsome
    cases hsome
    rw [hlast]

theorem lastXref_open {data last next data' : List UInt8}
    (h : wireFindheader next header false = some data') (hlast : wireEndheader data' = none) :
    lastXref header data last next = none := by
  rw [lastXref]
  split
  · rename_i hnone
    rw [h] at hnone
    cases hnone
  · rename_i hsome
    rw [h] at hsome
    cases hsome
    rw [hlast]

/-- The loop of `build_header` ends at the last field. -/
theorem lastXref_wire (hname : IsFieldName header) (hrest : rest = [] ∨ crlf <+: rest)
    (hb : ¬ crlf <:+: b) (hls : ∀ l ∈ ls, IsHeaderLine l) (hnext : ∀ l ∈ next, IsHeaderLine l)
    (ho : (⟨b, ls.takeWhile isFold⟩ :: visible header next).getLast? = some o)
    (hplain : visible header next ≠ [] → ¬ Nested header o) :
    ∃ b' ls', ¬ crlf <:+: b' ∧ (∀ l ∈ ls', IsHeaderLine l) ∧ o = ⟨b', ls'.takeWhile isFold⟩ ∧
      lastXref header (b ++ crlf ++ wire ls rest) (10 :: wire (ls.dropWhile isFold) rest)
        (wire next rest) =
        some (b' ++ crlf ++ wire ls' rest, 10 :: wire (ls'.dropWhile isFold) rest) := by
  induction hn : (wire next rest).length using Nat.strongRecOn generalizing b ls next with
  | ind n ih =>
    have hfind := wireFindheader_wire hname hnext hrest
    rcases hline : findLine header next with _ | ⟨b₂, ls₂⟩
    · rw [hline, Option.map_none] at hfind
      rw [findLine_none hline] at ho
      exact ⟨b, ls, hb, hls, (Option.some.inj ho).symm, lastXref_none hfind⟩
    · obtain ⟨hvisible, hb₂, hls₂⟩ := findLine_some hnext hline
      rw [hline, Option.map_some] at hfind
      have hshort := length_wireFindheader hfind
      dsimp only at hfind hshort
      rw [lastXref_some hfind (wireEndheader_wire hb₂.2 hls₂ hrest)]
      rw [← wire_cons b₂] at hshort
      have hplain := hplain (by rw [hvisible]; exact List.cons_ne_nil _ _)
      rw [hvisible, List.getLast?_cons_cons] at ho
      -- the search goes on in the body, where there is one more field at most
      have hcons := visible_cons header b₂ ls₂
      have hagain :
          (⟨b₂, ls₂.takeWhile isFold⟩ :: visible header (b₂ :: ls₂)).getLast? = some o := by
        rw [hcons]
        split
        · rename_i hnested
          rw [List.getLast?_cons_cons]
          rcases hmore : visible header ls₂ with _ | ⟨o', more⟩
          · rw [hmore] at ho
            cases ho
            exact absurd hnested hplain
          · rw [hmore, List.getLast?_cons_cons] at ho
            rw [List.getLast?_cons_cons]
            exact ho
        · exact ho
      have hlines : ∀ l ∈ b₂ :: ls₂, IsHeaderLine l := by
        intro l hl
        rcases List.mem_cons.mp hl with rfl | hl
        · exact hb₂
        · exact hls₂ l hl
      have := ih _ (hn ▸ hshort) hb₂.2 hls₂ hlines hagain (fun _ => hplain) rfl
      rw [wire_cons] at this
      exact this

end Copy

section Header

variable {header : List UInt8} {a : WireArticle} {o : Occurrence}

theorem visible_filled (header : List UInt8) (a : WireArticle) :
    visible header a.lines = (filled header a).filter fun o => !o.first.isEmpty := by
  rw [filled, List.filter_filter]
  refine List.filter_congr fun o _ => ?_
  rcases o with ⟨_ | ⟨c, first⟩, folds⟩
  · rfl
  · rfl

theorem head_visible (h : (filled header a).head? = some o) (ho : o.first ≠ []) :
    (visible header a.lines).head? = some o := by
  obtain ⟨more, hmore⟩ := List.head?_eq_some_iff.mp h
  rw [visible_filled, hmore, List.filter_cons_of_pos]
  · rfl
  · rw [Bool.not_eq_true', List.isEmpty_eq_false_iff]
    exact ho

theorem last_visible (h : (filled header a).getLast? = some o) (ho : o.first ≠ []) :
    (visible header a.lines).getLast? = some o := by
  obtain ⟨more, hmore⟩ := List.getLast?_eq_some_iff.mp h
  rw [visible_filled, hmore, List.filter_append, List.filter_cons_of_pos, List.filter_nil,
    List.getLast?_concat]
  rw [Bool.not_eq_true', List.isEmpty_eq_false_iff]
  exact ho

/-- Fields that can be found count. -/
theorem chosen_visible (h : visible header a.lines ≠ []) : ∃ o, chosen header a = some o := by
  have hfilled : filled header a ≠ [] := by
    intro h0
    rw [visible_filled, h0] at h
    exact h rfl
  rw [chosen]
  split
  · exact ⟨_, List.getLast?_eq_some_getLast hfilled⟩
  · exact ⟨_, List.head?_eq_some_head hfilled⟩

/-- `build_header` copies the body of the header field that counts. -/
theorem build_header_wire (hname : IsFieldName header) (hreg : Regular header a) :
    build_header a.text header = headerBody header a := by
  have hfind := wireFindheader_wire hname a.lines_ok a.ends
  rcases hline : findLine header a.lines with _ | ⟨b, ls⟩
  · -- no field can be found
    rw [hline, Option.map_none] at hfind
    have hnone : chosen header a = none := by
      rcases hchosen : chosen header a with _ | o
      · rfl
      · have hvisible := findLine_none hline
        have ho := (hreg o hchosen).1
        rw [chosen] at hchosen
        split at hchosen
        · have := last_visible hchosen ho
          rw [hvisible] at this
          cases this
        · have := head_visible hchosen ho
          rw [hvisible] at this
          cases this
    rw [build_header, WireArticle.text, hfind, headerBody, hnone]
    rfl
  · obtain ⟨hvisible, hb, hls⟩ := findLine_some a.lines_ok hline
    have hfound : visible header a.lines ≠ [] := hvisible ▸ List.cons_ne_nil _ _
    obtain ⟨o, ho⟩ := chosen_visible hfound
    obtain ⟨hfirst, hxref⟩ := hreg o ho
    rw [hline, Option.map_some] at hfind
    rw [build_header, WireArticle.text, hfind]
    dsimp only
    rw [wireEndheader_wire hb.2 hls a.ends, headerBody, ho]
    rw [chosen] at ho
    dsimp only
    cases hcase : strcaseEq header (octets "xref") with
    | false =>
      rw [hcase, if_neg Bool.false_ne_true] at ho
      have hhead := head_visible ho hfirst
      rw [hvisible] at hhead
      cases hhead
      rw [if_neg Bool.false_ne_true]
      exact clean_field hb.2 hls a.rest
    | true =>
      rw [hcase, if_pos rfl] at ho
      have hlast := last_visible ho hfirst
      have hdrop : ∀ l ∈ ls.dropWhile isFold, IsHeaderLine l := fun l hl =>
        hls l ((List.dropWhile_sublist isFold).subset hl)
      have hplain : visible header (ls.dropWhile isFold) ≠ [] → ¬ Nested header o := by
        intro hmore
        refine (hxref hcase).resolve_left fun hone => hmore ?_
        have hle := List.length_filter_le (fun o : Occurrence => !o.first.isEmpty) (filled header a)
        rw [← visible_filled, hone, hvisible, List.length_cons] at hle
        rw [visible_dropWhile hname]
        exact List.length_eq_zero_iff.mp (by omega)
      rw [hvisible, ← visible_dropWhile hname] at hlast
      obtain ⟨b', ls', hb', hls', rfl, hloop⟩ :=
        lastXref_wire hname a.ends hb.2 hls hdrop hlast hplain
      rw [if_pos rfl, List.tail_cons, hloop]
      exact clean_field hb' hls' a.rest

theorem findheaderFrom_congr {header' p : List UInt8} {strip : Bool} {fuel : ℕ}
    (h : header'.map tolower = header.map tolower) :
    findheaderFrom header' strip fuel p = findheaderFrom header strip fuel p := by
  have hlen : header'.length = header.length := by
    rw [← List.length_map tolower, h, List.length_map]
  induction fuel generalizing p with
  | zero => rfl
  | succ fuel ih =>
    have hfun : findheaderFrom header' strip fuel = findheaderFrom header strip fuel :=
      funext fun _ => ih
    rw [findheaderFrom, findheaderFrom, isheader_congr h, hlen, hfun]

theorem lastXref_congr {header' data last next : List UInt8}
    (h : header'.map tolower = header.map tolower) :
    lastXref header' data last next = lastXref header data last next := by
  induction hn : next.length using Nat.strongRecOn generalizing data last next with
  | ind n ih =>
    have hfind : wireFindheader next header' false = wireFindheader next header false :=
      findheaderFrom_congr h
    rcases hnext : wireFindheader next header false with _ | data'
    · rw [lastXref_none hnext, lastXref_none (hfind.trans hnext)]
    · rcases hlast : wireEndheader data' with _ | last'
      · rw [lastXref_open hnext hlast, lastXref_open (hfind.trans hnext) hlast]
      · rw [lastXref_some hnext hlast, lastXref_some (hfind.trans hnext) hlast]
        exact ih _ (hn ▸ length_wireFindheader hnext) rfl

/-- A name in another case gives the same. -/
theorem build_header_congr {header' : List UInt8} (h : header'.map tolower = header.map tolower)
    (article : List UInt8) : build_header article header' = build_header article header := by
  have hfind : wireFindheader article header' false = wireFindheader article header false :=
    findheaderFrom_congr h
  have hcase : strcaseEq header' (octets "xref") = strcaseEq header (octets "xref") := by
    rw [strcaseEq, strcaseEq, h]
  have hloop : lastXref header' = lastXref header := by
    funext data last next
    exact lastXref_congr h
  rw [build_header, build_header, hfind, hcase, hloop]

end Header

/-! ## Overview data -/

section Overview

variable {number : ℕ} {a : WireArticle} {extra : List (List UInt8)}

/-- The columns of the standard fields. -/
def standard (article : List UInt8) : List (List UInt8) :=
  fields.zipIdx.map fun (header, field) =>
    if field = 5 then printed article.length else build_header article header

/-- All columns. -/
def columns (article : List UInt8) (extra : List (List UInt8)) : List (List UInt8) :=
  standard article ++ labelled (build_header article) extra

theorem overview_build_columns (number : ℕ) (article : List UInt8) (extra : List (List UInt8)) :
    overview_build number article extra =
      printed number ++ tabbed (columns article extra) ++ crlf := by
  rw [overview_build, columns, tabbed_append, tabbed, tabbed, standard, labelled,
    List.flatMap_map, List.flatMap_map, ← List.append_assoc]

theorem columns_eq (article : List UInt8) (extra : List (List UInt8)) :
    columns article extra =
      build_header article (octets "Subject") :: build_header article (octets "From") ::
        build_header article (octets "Date") :: build_header article (octets "Message-ID") ::
          build_header article (octets "References") :: printed article.length ::
            build_header article (octets "Lines") :: labelled (build_header article) extra :=
  rfl

theorem standard_getD (article : List UInt8) {element : ℕ} (h : element < 7) (hne : element ≠ 5) :
    (standard article).getD element [] = build_header article (fields.getD element []) := by
  obtain _ | _ | _ | _ | _ | _ | _ | element := element
  · rfl
  · rfl
  · rfl
  · rfl
  · rfl
  · exact absurd rfl hne
  · rfl
  · omega

theorem isFieldName_fields {element : ℕ} (h : element < 7) :
    IsFieldName (fields.getD element []) := by
  have hall : ∀ header ∈ fields, IsFieldName header := by decide +kernel
  rw [List.getD_eq_getElem _ _ h]
  exact hall _ (List.getElem_mem h)

theorem isColumn_standard (article : List UInt8) : ∀ c ∈ standard article, IsColumn c := by
  intro c hc
  obtain ⟨⟨header, field⟩, -, rfl⟩ := List.mem_map.mp hc
  dsimp only
  split
  · exact isColumn_printed _
  · exact isColumn_build_header _ _

theorem isColumn_columns (article : List UInt8) (hextra : ∀ h ∈ extra, IsFieldName h) :
    ∀ c ∈ columns article extra, IsColumn c := by
  intro c hc
  rcases List.mem_append.mp hc with hc | hc
  · exact isColumn_standard article c hc
  · exact isColumn_labelled hextra (isColumn_build_header article) c hc

theorem length_columns (article : List UInt8) (extra : List (List UInt8)) :
    (columns article extra).length = 7 + extra.length := by
  rw [columns, List.length_append, labelled, List.length_map]
  rfl

/-- Where the columns of overview data begin. -/
theorem overview_split_build (number : ℕ) (article : List UInt8)
    (hextra : ∀ h ∈ extra, IsFieldName h) :
    (overview_split (overview_build number article extra)).2 =
      offsets ((printed number).length + 1) (columns article extra) := by
  have := splitFrom_columns false 0 (isColumn_printed number) (isColumn_columns article hextra)
  rw [← overview_build_columns, Nat.zero_add] at this
  exact this

/-- A standard field is read as it was written. -/
theorem standard_header_build (number : ℕ) (article : List UInt8)
    (hextra : ∀ h ∈ extra, IsFieldName h) {element : ℕ} (helement : element < 7) :
    let line := overview_build number article extra
    overview_get_standard_header line (overview_split line).2 element =
      some ((standard article).getD element []) := by
  intro line
  have hlt : element < (columns article extra).length := by
    rw [length_columns]
    omega
  have hget : (columns article extra).getD element [] = (standard article).getD element [] :=
    List.getD_append _ _ _ _ helement
  have hcolumn : IsColumn ((standard article).getD element []) := by
    rw [List.getD_eq_getElem _ _ helement]
    exact isColumn_standard article _ (List.getElem_mem helement)
  have hmember := member_columns (printed number) hlt
  have hline : line = printed number ++ tabbed (columns article extra) ++ crlf :=
    overview_build_columns number article extra
  rw [← overview_split_build number article hextra, ← hline, hget] at hmember
  dsimp only at hmember
  rw [overview_get_standard_header, if_neg]
  · dsimp only
    rw [hmember, xstrndup_column hcolumn]
  · rw [overview_split_build number article hextra, length_offsets, length_columns]
    omega

/-- An article with a folded Subject and two Xref fields. -/
def twice : WireArticle where
  lines := [octets "Subject: one", octets "\ttwo", octets "Xref: a", octets "xref: b"]
  rest := crlf ++ octets "Xref: c"
  lines_ok := by decide +kernel
  ends := .inr (List.prefix_append _ _)

end Overview

end Inn.Storage
