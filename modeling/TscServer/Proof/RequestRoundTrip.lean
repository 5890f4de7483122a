import TscServer.Proof.RequestImage

/-!
# Printing and parsing requests

`roundTrips_iff` says which of the requests that a client would build come back when they are printed
and parsed: the texts of `Request::Parse` end at a NUL, its expression splits at the last blank line,
and its expression for a header takes the last colon that a non-blank run can end with.
-/

namespace TscServer.Proof
open Lib Model Spec

/-! ## A header line -/

section Header
variable {header : Bytes × Bytes}

theorem printedLine_ne_nil (header : Bytes × Bytes) : printedLine header ≠ [] := by
  simp [printedLine, bytes]

theorem printedLine_bytes (valid : ValidHeader header) :
    ∀ c ∈ printedLine header, notLineEnd c = true := by
  intro c mem
  simp only [printedLine, List.mem_append] at mem
  rcases mem with (mem | mem) | mem
  · exact notLineEnd_of_notSpace (valid.name_bytes c mem).1
  · revert c
    decide +kernel
  · exact valid.value_bytes c mem

-- the pieces of the header expression after the name
abbrev afterName : List (Piece UInt8) :=
  [.star isSpace, .lit 58, .star isSpace, .one notSpace, .star notLineEnd]

theorem match_blank_value {value : Bytes} (head : ∃ c ∈ value.head?, notSpace c = true)
    (valueBytes : ∀ c ∈ value, notLineEnd c = true) :
    matchPieces afterName (32 :: value) = none ↔ ¬ StealsColon value := by
  obtain ⟨v, first, solid⟩ := head
  obtain ⟨rest, rfl⟩ := List.head?_eq_some_iff.mp first
  constructor
  · intro fails steals
    obtain ⟨rest', same, d, mem, dSolid⟩ := steals
    obtain ⟨rfl, rfl⟩ := List.cons.inj same
    have restBytes : ∀ c ∈ rest, notLineEnd c = true := fun c mem => valueBytes c (by simp [mem])
    obtain ⟨blanks, e, tail, rfl, blank, eSolid⟩ : ∃ blanks e tail, rest = blanks ++ e :: tail ∧
        (∀ c ∈ blanks, isSpace c = true) ∧ notSpace e = true := by
      have ends : rest.dropWhile isSpace ≠ [] := by
        intro none
        have blank := List.dropWhile_eq_nil_iff.mp none d mem
        rw [notSpace_iff.mp dSolid] at blank
        cases blank
      obtain ⟨e, tail, found⟩ := List.exists_cons_of_ne_nil ends
      refine ⟨rest.takeWhile isSpace, e, tail, ?_, fun c mem => List.mem_takeWhile_imp mem, ?_⟩
      · rw [← found, List.takeWhile_append_dropWhile]
      · have stop := List.head_dropWhile_not isSpace ends
        simpa [found, notSpace] using stop
    have fits : List.Forall₂ Piece.Fits afterName [[32], [58], blanks, [e], tail] := by
      refine .cons ?_ (.cons ⟨58, rfl, by simp⟩ (.cons blank (.cons ⟨e, rfl, eSolid⟩ (.cons ?_ .nil))))
      · show ∀ c ∈ [32], isSpace c = true
        simpa using (by decide : isSpace 32 = true)
      · show ∀ c ∈ tail, notLineEnd c = true
        exact fun c mem => restBytes c (by simp [mem])
    exact matchPieces_complete fits (by simpa using fails)
  · intro free
    cases found : matchPieces afterName (32 :: v :: rest) with
    | none => rfl
    | some spans =>
        rw [matchPieces_star] at found
        obtain ⟨before, s, after, -, text, blank, m1⟩ := matchStar_sound found
        obtain ⟨colon, s, after, rfl, -, isColon, m2⟩ := matchPieces_one_sound m1
        rw [matchPieces_star] at m2
        obtain ⟨between, s, after, -, rfl, -, m3⟩ := matchStar_sound m2
        obtain ⟨d, s, after, rfl, -, dSolid, -⟩ := matchPieces_one_sound m3
        obtain rfl : colon = 58 := by simpa using isColon
        refine absurd ?_ free
        cases before with
        | nil => exact absurd (List.cons.inj text).1 (by decide)
        | cons b before =>
            obtain ⟨-, text⟩ := List.cons.inj text
            cases before with
            | nil =>
                obtain ⟨rfl, rfl⟩ := List.cons.inj text
                exact ⟨_, rfl, d, by simp, dSolid⟩
            | cons b' before =>
                obtain ⟨rfl, -⟩ := List.cons.inj text
                have space := blank v (by simp)
                rw [notSpace_iff.mp solid] at space
                cases space

theorem match_pastColon {value a b : Bytes} (fails : matchPieces afterName (32 :: value) = none)
    (split : 58 :: 32 :: value = a ++ b) (nonempty : a ≠ []) (solid : ∀ c ∈ a, notSpace c = true) :
    matchPieces afterName b = none := by
  cases a with
  | nil => exact absurd rfl nonempty
  | cons d a =>
      cases a with
      | nil =>
          obtain ⟨-, rest⟩ := List.cons.inj split
          rwa [← (show 32 :: value = b from rest)]
      | cons e a =>
          obtain ⟨-, rest⟩ := List.cons.inj split
          obtain ⟨rfl, -⟩ := List.cons.inj rest
          exact absurd (solid 32 (by simp)) (by decide)

theorem field_wellFormed (valid : ValidHeader header) (name : 0 ∉ header.1) (value : 0 ∉ header.2) :
    ({ name := header.1, value := header.2 } : Spec.Field).WellFormed where
  name_ne_nil := valid.name_ne_nil
  name_bytes c mem :=
    ⟨(valid.name_bytes c mem).1, (valid.name_bytes c mem).2, fun zero => name (zero ▸ mem)⟩
  blanks_bytes := by simp
  value_head := valid.value_head
  value_bytes c mem := ⟨valid.value_bytes c mem, fun zero => value (zero ▸ mem)⟩

theorem parseHeader_printed_iff (valid : ValidHeader header) (name : 0 ∉ header.1)
    (value : 0 ∉ header.2) :
    Request.parseHeader (printedLine header) = some header ↔ ¬ StealsColon header.2 := by
  obtain ⟨name', value'⟩ := header
  obtain ⟨c, rest, rfl⟩ := List.exists_cons_of_ne_nil valid.name_ne_nil
  have solid : notSpace c = true := (valid.name_bytes c (by simp)).1
  have solidRest : ∀ c ∈ rest, notSpace c = true :=
    fun c mem => (valid.name_bytes c (by simp [mem])).1
  have noNul : 0 ∉ printedLine (c :: rest, value') := by
    simp only [printedLine, List.mem_append, not_or]
    exact ⟨⟨name, by decide⟩, value⟩
  have text : printedLine (c :: rest, value') = c :: (rest ++ 58 :: 32 :: value') := by
    simp [printedLine, bytes]
  have later := match_blank_value valid.value_head valid.value_bytes
  rw [← later, Request.parseHeader, cStr_eq_self noNul, text]
  constructor
  · intro parsed
    split at parsed
    · rename_i name'' value'' found
      obtain ⟨sameName, -⟩ := Prod.mk.inj (Option.some.inj parsed)
      rw [sameName] at found
      obtain ⟨spans, matched, groups⟩ := Option.map_eq_some_iff.mp found
      rw [headerExpression_pieces, matchPieces_one_cons, if_pos solid, matchPieces_star] at matched
      obtain ⟨spans, m1, rfl⟩ := Option.map_eq_some_iff.mp matched
      obtain ⟨a, b, after, rfl, split, -, -, longer⟩ := matchStar_greedy m1
      obtain rfl : a = rest := by
        simpa [captures, Request.headerExpression, Piece.plus] using (List.cons.inj groups).1
      obtain rfl := List.append_cancel_left split
      exact longer [58] (32 :: value') rfl (by simp) (by simpa using (by decide : notSpace 58 = true))
    · cases parsed
  · intro fails
    have after : matchPieces afterName (58 :: 32 :: value') =
        some [[], [58], [32], value'.take 1, value'.drop 1] :=
      match_afterName (field_wellFormed valid name value)
    have star := matchStar_append solidRest after fun a b => match_pastColon fails
    have whole : value'.take 1 ++ value'.drop 1 = value' := List.take_append_drop 1 _
    have here : matchPieces (Request.headerExpression.flatMap Term.pieces)
        (c :: (rest ++ 58 :: 32 :: value')) =
        some ([c] :: rest :: [[], [58], [32], value'.take 1, value'.drop 1]) := by
      rw [headerExpression_pieces, matchPieces_one_cons, if_pos solid, matchPieces_star, star]
      rfl
    rw [regexMatch, here]
    simpa [captures, Request.headerExpression, Piece.plus] using whole

end Header

/-! ## The whole request -/

section Request
variable {r : Request}

-- the texts that `Request::Parse` cuts a printed request into
def printedRequestLine (r : Request) : Bytes := r.method ++ 32 :: (r.uri ++ 32 :: r.version)

def printedBlock (r : Request) : Bytes := crlf.intercalate (r.headers.map printedLine)

theorem toBytes_parts (nonempty : r.headers ≠ []) :
    r.toBytes = printedRequestLine r ++ (crlf ++ (printedBlock r ++ (crlfcrlf ++ r.body))) := by
  have lines : r.headers.flatMap (fun header => header.1 ++ bytes ": " ++ header.2 ++ crlf) =
      printedBlock r ++ crlf := by
    rw [printedBlock, ← flatMap_crlf (by simpa using nonempty), List.flatMap_map]
    rfl
  rw [Request.toBytes, lines]
  simp [printedRequestLine, bytes, crlf, crlfcrlf]

theorem noNul_toBytes (valid : Valid r) (noNul : NoNul r) : 0 ∉ r.toBytes := by
  have version : 0 ∉ r.version := fun mem => (isVersion_bytes valid.version_form 0 mem).2 rfl
  have headers : 0 ∉ r.headers.flatMap fun header => header.1 ++ bytes ": " ++ header.2 ++ crlf := by
    intro mem
    obtain ⟨header, here, inside⟩ := List.mem_flatMap.mp mem
    simp only [List.mem_append] at inside
    rcases inside with ((inside | inside) | inside) | inside
    · exact noNul.names header here inside
    · exact absurd inside (by decide)
    · exact noNul.values header here inside
    · exact absurd inside (by decide)
  simp only [Request.toBytes, List.mem_append, not_or]
  exact ⟨⟨⟨⟨⟨⟨⟨⟨noNul.method, by decide⟩, noNul.uri⟩, by decide⟩, version⟩, by decide⟩, headers⟩,
    by decide⟩, noNul.body⟩

theorem printedRequestLine_bytes (valid : Valid r) :
    ∀ c ∈ printedRequestLine r, notLineEnd c = true := by
  intro c mem
  simp only [printedRequestLine, List.mem_append, List.mem_cons] at mem
  rcases mem with mem | rfl | mem | rfl | mem
  · exact notLineEnd_of_notSpace (valid.method_bytes c mem)
  · decide
  · exact notLineEnd_of_notSpace (valid.uri_bytes c mem)
  · decide
  · exact notLineEnd_of_notSpace (isVersion_bytes valid.version_form c mem).1

theorem printedBlock_ne_nil (nonempty : r.headers ≠ []) : printedBlock r ≠ [] := by
  cases headers : r.headers with
  | nil => exact absurd headers nonempty
  | cons header rest =>
      cases rest with
      | nil => simpa [printedBlock, headers] using printedLine_ne_nil header
      | cons => simp [printedBlock, headers, List.intercalate_cons_cons, printedLine_ne_nil]

theorem match_printed (valid : Valid r) (noNul : NoNul r) (noBlank : ¬ crlfcrlf <:+: crlf ++ r.body) :
    regexMatch Request.requestExpression (cStr r.toBytes) =
      some [printedRequestLine r, printedBlock r, r.body] := by
  rw [cStr_eq_self (noNul_toBytes valid noNul), toBytes_parts valid.headers_ne_nil]
  exact match_textParts (printedRequestLine_bytes valid) (printedBlock_ne_nil valid.headers_ne_nil)
    noBlank

theorem headerTokens_printed (valid : Valid r) :
    Request.headerTokens (printedBlock r) = r.headers.map printedLine := by
  apply headerTokens_intercalate (by simpa using valid.headers_ne_nil)
  intro line mem
  obtain ⟨header, here, rfl⟩ := List.mem_map.mp mem
  exact ⟨printedLine_ne_nil header,
    noCrlf_of_notLineEnd (printedLine_bytes (valid.headers_valid header here))⟩

theorem match_printedRequestLine (valid : Valid r) (noNul : NoNul r) :
    regexMatch Request.requestLineExpression (cStr (printedRequestLine r)) =
      some [r.method, r.uri, r.version] := by
  have plain : 0 ∉ printedRequestLine r := by
    intro mem
    apply noNul_toBytes valid noNul
    rw [toBytes_parts valid.headers_ne_nil]
    exact List.mem_append_left _ mem
  rw [cStr_eq_self plain]
  exact match_lineParts valid.method_ne_nil valid.method_bytes valid.uri_slash valid.uri_bytes
    valid.version_form

theorem noNul_of_parsed (image : Parsed r) : NoNul r where
  method mem := (image.method_bytes 0 mem).2 rfl
  uri mem := (image.uri_bytes 0 mem).2 rfl
  names header here mem := ((image.headers_parsed header here).name_bytes 0 mem).2 rfl
  values header here mem := ((image.headers_parsed header here).value_bytes 0 mem).2 rfl
  body := image.body_bytes

theorem parsed_of_roundTrips (trip : RoundTrips r) : Parsed r := by
  have image := parse_image trip
  exact { image with }

theorem mapM_printed_iff (valid : Valid r) (noNul : NoNul r) :
    (Request.headerTokens (printedBlock r)).mapM Request.parseHeader = some r.headers ↔
      ∀ header ∈ r.headers, ¬ StealsColon header.2 := by
  have line header (here : header ∈ r.headers) :=
    parseHeader_printed_iff (valid.headers_valid header here) (noNul.names header here)
      (noNul.values header here)
  rw [headerTokens_printed valid, mapM_parseHeader_iff, List.forall₂_map_left_iff, List.forall₂_same]
  exact forall₂_congr line

/-- Printing and parsing a valid request gives it back exactly when it contains no NUL, no blank line
begins with or lies inside its body, and no value offers a later colon. -/
theorem roundTrips_iff (valid : Valid r) :
    RoundTrips r ↔ NoNul r ∧ ¬ crlfcrlf <:+: crlf ++ r.body ∧
      ∀ header ∈ r.headers, ¬ StealsColon header.2 := by
  constructor
  · intro trip
    have image := parsed_of_roundTrips trip
    have noNul := noNul_of_parsed image
    refine ⟨noNul, image.body_no_blank, ?_⟩
    obtain ⟨requestLine, block, body, whole, -, -, headers, -⟩ := parse_eq_some trip
    rw [match_printed valid noNul image.body_no_blank] at whole
    obtain ⟨-, rfl, -⟩ : printedRequestLine r = requestLine ∧ printedBlock r = block ∧ r.body = body := by
      simpa using whole
    exact (mapM_printed_iff valid noNul).mp headers
  · intro free
    obtain ⟨noNul, noBlank, free⟩ := free
    have headers := (mapM_printed_iff valid noNul).mpr free
    have dots : contains (bytes "..") r.uri = false := contains_eq_false_iff.mpr valid.uri_no_dots
    simp [RoundTrips, Request.parse, match_printed valid noNul noBlank,
      match_printedRequestLine valid noNul, dots, headers]

end Request

/-! ## Requests that come back and requests that do not -/

def printableRequest (value body : Bytes) : Request where
  method := bytes "POST"
  uri := bytes "/echo"
  version := bytes "HTTP/1.1"
  headers := [(bytes "A", value)]
  body := body

theorem valid_printableRequest {value : Bytes} (body : Bytes)
    (head : ∃ c ∈ value.head?, notSpace c = true) (valueBytes : ∀ c ∈ value, notLineEnd c = true) :
    Valid (printableRequest value body) where
  method_ne_nil := (by decide : bytes "POST" ≠ [])
  method_bytes := (by decide +kernel : ∀ c ∈ bytes "POST", notSpace c = true)
  uri_slash := rfl
  uri_bytes := (by decide +kernel : ∀ c ∈ bytes "/echo", notSpace c = true)
  uri_no_dots := (by decide : ¬ bytes ".." <:+: bytes "/echo")
  version_form := ⟨bytes "1", bytes "1", (by decide :
    bytes "HTTP/1.1" = bytes "HTTP/" ++ bytes "1" ++ 46 :: bytes "1"), by decide, by decide,
    by decide +kernel, by decide +kernel⟩
  headers_ne_nil := by simp [printableRequest]
  headers_valid := by
    intro header mem
    obtain rfl := List.mem_singleton.mp mem
    exact ⟨(by decide : bytes "A" ≠ []),
      (by decide +kernel : ∀ c ∈ bytes "A", notSpace c = true ∧ c ≠ 58), head, valueBytes⟩

theorem roundTrips_lone_colon : RoundTrips (printableRequest (bytes ":") (bytes "a\r\nb")) := by
  have valid : Valid (printableRequest (bytes ":") (bytes "a\r\nb")) :=
    valid_printableRequest _ ⟨58, rfl, by decide⟩ (by decide +kernel)
  have noNul : NoNul (printableRequest (bytes ":") (bytes "a\r\nb")) :=
    ⟨by decide, by decide, by decide, by decide, by decide⟩
  refine (roundTrips_iff valid).mpr ⟨noNul, by decide, ?_⟩
  intro header mem steals
  obtain rfl := List.mem_singleton.mp mem
  obtain ⟨rest, same, c, inside, -⟩ := steals
  obtain ⟨-, rfl⟩ := List.cons.inj same
  cases inside

theorem not_roundTrips :
    ¬ (∀ r, Valid r → RoundTrips r) ∧
    ¬ RoundTrips (printableRequest (bytes "b") (bytes "c\r\n\r\nd")) ∧
    ¬ RoundTrips (printableRequest (bytes "b") [99, 0]) ∧
    ¬ RoundTrips (printableRequest (bytes ":b") []) := by
  have blank : ¬ RoundTrips (printableRequest (bytes "b") (bytes "c\r\n\r\nd")) := by
    unfold RoundTrips
    decide
  refine ⟨fun claim => blank (claim _ ?_), blank, ?_, ?_⟩
  · exact valid_printableRequest _ ⟨98, rfl, by decide⟩ (by decide +kernel)
  · unfold RoundTrips
    decide
  · unfold RoundTrips
    decide
end TscServer.Proof
