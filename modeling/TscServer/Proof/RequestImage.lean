import TscServer.Proof.RequestParse

/-!
# What a parsed request is like

The three expressions of `Request::Parse` say what they let into the parts of a request. `parse_image`
gathers this for every byte string that can be parsed.
-/

namespace TscServer.Proof
open Lib Model Spec

theorem request_parts {s : Bytes} {groups : List Bytes}
    (found : regexMatch Request.requestExpression s = some groups) :
    ∃ line block body, groups = [line, block, body] ∧
      s = line ++ crlf ++ block ++ crlfcrlf ++ body ∧ (∀ c ∈ line, notLineEnd c = true) ∧
      block ≠ [] ∧ ¬ crlfcrlf <:+: crlf ++ body := by
  obtain ⟨spans, matched, rfl⟩ := Option.map_eq_some_iff.mp found
  rw [requestExpression_pieces, matchPieces_star] at matched
  obtain ⟨line, b, rest, rfl, rfl, lineBytes, m1⟩ := matchStar_sound matched
  obtain ⟨b, rest, rfl, rfl, m2⟩ := matchPieces_lits_sound m1
  obtain ⟨c, b, rest, rfl, rfl, -, m3⟩ := matchPieces_one_sound m2
  obtain ⟨block, b, rest, rfl, rfl, -, m4, longer⟩ := matchStar_greedy m3
  obtain ⟨body, rest, rfl, rfl, m5⟩ := matchPieces_lits_sound m4
  have last : matchPieces [.star anyByte] body = some [body] := matchPieces_star_end fun _ _ => rfl
  obtain rfl := Option.some.inj (last.symm.trans m5)
  refine ⟨line, c :: block, body, ?_, by simp, lineBytes, by simp, fun blank => ?_⟩
  · simp [captures, Request.requestExpression, Piece.plus, crlf, crlfcrlf]
  · obtain ⟨p, q, split⟩ := blank
    have later : crlfcrlf ++ body = (crlf ++ p) ++ (crlfcrlf ++ q) := by
      rw [List.append_assoc, ← List.append_assoc p, split]
      rfl
    have fails := longer (crlf ++ p) (crlfcrlf ++ q) later (by simp [crlf]) fun _ _ => rfl
    rw [matchPieces_lits_append, matchPieces_star_end (p := anyByte) fun _ _ => rfl] at fails
    cases fails

/-- The spans of a header line. No longer run of non-blanks from its start is followed by a colon and a
value as well. -/
theorem header_spans {s : Bytes} {groups : List Bytes}
    (found : regexMatch Request.headerExpression s = some groups) :
    ∃ name before after value, groups = [name, value] ∧
      s = name ++ (before ++ 58 :: (after ++ value)) ∧
      name ≠ [] ∧ (∀ c ∈ name, notSpace c = true) ∧ (∀ c ∈ before, isSpace c = true) ∧
      (∀ c ∈ after, isSpace c = true) ∧ (∃ c ∈ value.head?, notSpace c = true) ∧
      (∀ c ∈ value, notLineEnd c = true) ∧
      ∀ a b, before ++ 58 :: (after ++ value) = a ++ b → a ≠ [] → (∀ c ∈ a, notSpace c = true) →
        matchPieces [.star isSpace, .lit 58, .star isSpace, .one notSpace, .star notLineEnd] b =
          none := by
  obtain ⟨spans, matched, rfl⟩ := Option.map_eq_some_iff.mp found
  rw [headerExpression_pieces] at matched
  obtain ⟨a, s, rest, rfl, rfl, solid, m1⟩ := matchPieces_one_sound matched
  rw [matchPieces_star] at m1
  obtain ⟨name, s, rest, rfl, rfl, nameSolid, m2, longer⟩ := matchStar_greedy m1
  rw [matchPieces_star] at m2
  obtain ⟨before, s, rest, rfl, rfl, beforeBlank, m3⟩ := matchStar_sound m2
  obtain ⟨colon, s, rest, rfl, rfl, isColon, m4⟩ := matchPieces_one_sound m3
  rw [matchPieces_star] at m4
  obtain ⟨after, s, rest, rfl, rfl, afterBlank, m5⟩ := matchStar_sound m4
  obtain ⟨b, value, rest, rfl, rfl, valueSolid, m6⟩ := matchPieces_one_sound m5
  rw [matchPieces_star] at m6
  obtain ⟨value, end_, rest, rfl, rfl, valueBytes, m7⟩ := matchStar_sound m6
  cases end_ with
  | cons => cases m7
  | nil =>
      obtain rfl := Option.some.inj m7
      obtain rfl : colon = 58 := by simpa using isColon
      refine ⟨a :: name, before, after, b :: value, ?_, by simp, by simp, ?_, beforeBlank, afterBlank,
        ⟨b, rfl, valueSolid⟩, ?_, by simpa using longer⟩
      · simp [captures, Request.headerExpression, Piece.plus]
      · simpa [solid] using nameSolid
      · simpa [notLineEnd_of_notSpace valueSolid] using valueBytes

theorem requestLine_parts {s : Bytes} {groups : List Bytes}
    (found : regexMatch Request.requestLineExpression s = some groups) :
    ∃ method uri version b b', groups = [method, uri, version] ∧
      s = method ++ b :: (uri ++ b' :: version) ∧ method ≠ [] ∧
      (∀ c ∈ method, notSpace c = true) ∧ uri.head? = some 47 ∧ (∀ c ∈ uri, notSpace c = true) ∧
      IsVersion version := by
  obtain ⟨spans, matched, rfl⟩ := Option.map_eq_some_iff.mp found
  rw [requestLineExpression_pieces, versionPieces] at matched
  obtain ⟨a, s, rest, rfl, rfl, solid, m1⟩ := matchPieces_one_sound matched
  rw [matchPieces_star] at m1
  obtain ⟨method, s, rest, rfl, rfl, methodSolid, m2⟩ := matchStar_sound m1
  obtain ⟨b, s, rest, rfl, rfl, -, m3⟩ := matchPieces_one_sound m2
  obtain ⟨slash, s, rest, rfl, rfl, isSlash, m4⟩ := matchPieces_one_sound m3
  rw [matchPieces_star] at m4
  obtain ⟨uri, s, rest, rfl, rfl, uriSolid, m5⟩ := matchStar_sound m4
  obtain ⟨b', s, rest, rfl, rfl, -, m6⟩ := matchPieces_one_sound m5
  obtain ⟨s, rest, rfl, rfl, m7⟩ := matchPieces_lits_sound m6
  obtain ⟨d, s, rest, rfl, rfl, digit, m8⟩ := matchPieces_one_sound m7
  rw [matchPieces_star] at m8
  obtain ⟨major, s, rest, rfl, rfl, majorDigits, m9⟩ := matchStar_sound m8
  obtain ⟨dot, s, rest, rfl, rfl, isDot, m10⟩ := matchPieces_one_sound m9
  obtain ⟨d', s, rest, rfl, rfl, digit', m11⟩ := matchPieces_one_sound m10
  rw [matchPieces_star] at m11
  obtain ⟨minor, end_, rest, rfl, rfl, minorDigits, m12⟩ := matchStar_sound m11
  cases end_ with
  | cons => cases m12
  | nil =>
      obtain rfl := Option.some.inj m12
      obtain rfl : slash = 47 := by simpa using isSlash
      obtain rfl : dot = 46 := by simpa using isDot
      have version : IsVersion (bytes "HTTP/" ++ (d :: major) ++ 46 :: d' :: minor) := by
        refine ⟨d :: major, d' :: minor, rfl, by simp, by simp, ?_, ?_⟩
        · simpa [digit] using majorDigits
        · simpa [digit'] using minorDigits
      refine ⟨a :: method, 47 :: uri, _, b, b', ?_, ?_, by simp, ?_, rfl, ?_, version⟩
      · simp [captures, Request.requestLineExpression, Piece.plus, bytes]
      · simp
      · simpa [solid] using methodSolid
      · simpa [show notSpace 47 = true by decide] using uriSolid

/-! ## Every request that is returned -/

theorem ne_zero_of_mem_cStr {s : Bytes} {c : UInt8} (mem : c ∈ cStr s) : c ≠ 0 := by
  rintro rfl
  exact zero_notMem_cStr s mem

theorem parseHeader_spans {line : Bytes} {header : Bytes × Bytes}
    (parsed : Request.parseHeader line = some header) :
    ∃ before after, cStr line = header.1 ++ (before ++ 58 :: (after ++ header.2)) ∧
      header.1 ≠ [] ∧ (∀ c ∈ header.1, notSpace c = true) ∧ (∀ c ∈ before, isSpace c = true) ∧
      (∀ c ∈ after, isSpace c = true) ∧ (∃ c ∈ header.2.head?, notSpace c = true) ∧
      (∀ c ∈ header.2, notLineEnd c = true) ∧
      ∀ a b, before ++ 58 :: (after ++ header.2) = a ++ b → a ≠ [] → (∀ c ∈ a, notSpace c = true) →
        matchPieces [.star isSpace, .lit 58, .star isSpace, .one notSpace, .star notLineEnd] b =
          none := by
  unfold Request.parseHeader at parsed
  split at parsed
  · rename_i name' value' found
    obtain rfl := Option.some.inj parsed
    obtain ⟨name, before, after, value, same, spans⟩ := header_spans found
    obtain ⟨rfl, rfl⟩ : name' = name ∧ value' = value := by simpa using same
    exact ⟨before, after, spans⟩
  · cases parsed

theorem parseHeader_image {line : Bytes} {header : Bytes × Bytes}
    (parsed : Request.parseHeader line = some header) : ParsedHeader header := by
  obtain ⟨before, after, text, nonempty, solid, -, -, head, valueBytes, -⟩ := parseHeader_spans parsed
  have noNul {c : UInt8} (mem : c ∈ header.1 ++ (before ++ 58 :: (after ++ header.2))) : c ≠ 0 := by
    rw [← text] at mem
    exact ne_zero_of_mem_cStr mem
  refine ⟨nonempty, fun c mem => ⟨solid c mem, noNul (by simp [mem])⟩, head, fun c mem => ?_⟩
  exact ⟨valueBytes c mem, noNul (by simp [mem])⟩

theorem mapM_parseHeader_iff {lines : List Bytes} {headers : List (Bytes × Bytes)} :
    lines.mapM Request.parseHeader = some headers ↔
      List.Forall₂ (fun line header => Request.parseHeader line = some header) lines headers := by
  induction lines generalizing headers with
  | nil => simp [eq_comm]
  | cons line lines ih =>
      rw [List.forall₂_cons_left_iff]
      simp only [List.mapM_cons, Option.bind_eq_bind, Option.pure_def, Option.bind_eq_some_iff, ih]
      constructor
      · intro parsed
        obtain ⟨header, first, headers', rest, same⟩ := parsed
        exact ⟨header, headers', first, rest, (Option.some.inj same).symm⟩
      · intro parsed
        obtain ⟨header, headers', first, rest, rfl⟩ := parsed
        exact ⟨header, first, headers', rest, rfl⟩

theorem headers_image {lines : List Bytes} {headers : List (Bytes × Bytes)}
    (parsed : lines.mapM Request.parseHeader = some headers) (nonempty : lines ≠ []) :
    headers ≠ [] ∧ ∀ header ∈ headers, ParsedHeader header := by
  have pairs := mapM_parseHeader_iff.mp parsed
  refine ⟨?_, fun header mem => ?_⟩
  · rintro rfl
    cases pairs
    exact nonempty rfl
  · obtain ⟨line, -, here⟩ := exists_left_of_forall₂ pairs mem
    exact parseHeader_image here

theorem parse_image {raw : Bytes} {r : Request} (parsed : Request.parse raw = some r) : Parsed r := by
  obtain ⟨requestLine, block, body, whole, line, dots, headers, sameBody, -⟩ := parse_eq_some parsed
  obtain ⟨requestLine', block', body', same, text, -, nonempty, noBlank⟩ := request_parts whole
  obtain ⟨rfl, rfl, rfl⟩ : requestLine = requestLine' ∧ block = block' ∧ body = body' := by
    simpa using same
  obtain ⟨method, uri, version, b, b', parts, lineText, methodNe, methodSolid, slash, uriSolid, form⟩ :=
    requestLine_parts line
  obtain ⟨rfl, rfl, rfl⟩ : r.method = method ∧ r.uri = uri ∧ r.version = version := by
    simpa using parts
  have noNul {c : UInt8} (mem : c ∈ r.method ++ b :: (r.uri ++ b' :: r.version)) : c ≠ 0 := by
    rw [← lineText] at mem
    exact ne_zero_of_mem_cStr mem
  obtain ⟨headersNe, headersParsed⟩ := headers_image headers (headerTokens_ne_nil nonempty)
  exact
    { method_ne_nil := methodNe
      method_bytes := fun c mem => ⟨methodSolid c mem, noNul (by simp [mem])⟩
      uri_slash := slash
      uri_bytes := fun c mem => ⟨uriSolid c mem, noNul (by simp [mem])⟩
      uri_no_dots := dots
      version_form := form
      headers_ne_nil := headersNe
      headers_parsed := headersParsed
      body_bytes := by
        intro mem
        have inText : 0 ∈ cStr raw := by
          rw [text, ← sameBody]
          simp [mem]
        exact zero_notMem_cStr raw inText
      body_no_blank := by rwa [sameBody] }

end TscServer.Proof
