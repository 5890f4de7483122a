import TscServer.Lib.CrlfLines
import TscServer.Spec.RequestText

/-!
# What `Request::Parse` makes of a message

The three expressions of `Request::Parse` on the pieces of a well-formed message, and from them the
parse of a message head followed by the part of its body that a read delivered with it.
-/

namespace TscServer.Proof
open Lib Model Spec

theorem notSpace_iff {c : UInt8} : notSpace c = true ↔ isSpace c = false := by
  simp [notSpace]

theorem notSpace_of_isDigit {c : UInt8} (h : isDigit c = true) : notSpace c = true :=
  notSpace_iff.mpr (isSpace_of_isDigit_false h)

theorem notLineEnd_of_notSpace {c : UInt8} (h : notSpace c = true) : notLineEnd c = true := by
  have ne13 : c ≠ 13 := by rintro rfl; exact absurd h (by decide)
  have ne10 : c ≠ 10 := by rintro rfl; exact absurd h (by decide)
  simp [notLineEnd, ne13, ne10]

/-! ## Header lines -/

theorem headerExpression_pieces : Request.headerExpression.flatMap Term.pieces =
    [.one notSpace, .star notSpace, .star isSpace, .lit 58, .star isSpace, .one notSpace,
      .star notLineEnd] := rfl

theorem match_afterName {f : Field} (wf : f.WellFormed) :
    matchPieces [.star isSpace, .lit 58, .star isSpace, .one notSpace, .star notLineEnd]
      (58 :: (f.blanks ++ f.value)) =
      some [[], [58], f.blanks, f.value.take 1, f.value.drop 1] := by
  obtain ⟨c, head, solid⟩ := wf.value_head
  cases value : f.value with
  | nil => simp [value] at head
  | cons d rest =>
      obtain rfl : d = c := by simpa [value] using head
      have blank : ∀ c ∈ f.blanks, isSpace c = true := by
        intro c hc
        rcases wf.blanks_bytes c hc with rfl | rfl <;> decide
      have tail : ∀ c ∈ rest, notLineEnd c = true :=
        fun c hc => (wf.value_bytes c (by simp [value, hc])).1
      have afterBlanks : matchPieces [.one notSpace, .star notLineEnd] (d :: rest) =
          some [[d], rest] := by
        simp [solid, matchPieces_star_end tail]
      have afterColon : matchPieces [.star isSpace, .one notSpace, .star notLineEnd]
          (f.blanks ++ d :: rest) = some [f.blanks, [d], rest] := by
        rw [matchPieces_star]
        exact matchStar_longest blank (by simpa [notSpace] using solid) afterBlanks
      have noBlank := matchStar_longest (p := isSpace) (a := [])
        (k := matchPieces [.lit 58, .star isSpace, .one notSpace, .star notLineEnd])
        (b := 58 :: (f.blanks ++ d :: rest)) (r := [[58], f.blanks, [d], rest])
        (by simp) (by simpa using (by decide : isSpace 58 = false)) (by simp [Piece.lit, afterColon])
      simpa [matchPieces_star] using noBlank

theorem match_colon_eq_none {s : Bytes} {ps : List (Piece UInt8)}
    (h : (s.dropWhile isSpace).head? ≠ some 58) :
    matchPieces (.star isSpace :: .lit 58 :: ps) s = none := by
  rw [matchPieces_star, matchStar_eq_none_iff]
  intro a b split all
  cases b with
  | nil => rfl
  | cons c b =>
      by_cases colon : c = 58
      · subst colon
        refine absurd ?_ h
        rw [split, List.dropWhile_append_of_pos all]
        rfl
      · simp [Piece.lit, colon]

theorem match_pastName_eq_none {f : Field} (one : f.OneColon) {a b : Bytes} {ps : List (Piece UInt8)}
    (split : 58 :: (f.blanks ++ f.value) = a ++ b) (nonempty : a ≠ [])
    (solid : ∀ c ∈ a, notSpace c = true) :
    matchPieces (.star isSpace :: .lit 58 :: ps) b = none := by
  apply match_colon_eq_none
  obtain ⟨run, after⟩ := one
  cases a with
  | nil => exact absurd rfl nonempty
  | cons c a =>
      simp only [List.cons_append, List.cons.injEq] at split
      obtain ⟨rfl, split⟩ := split
      rw [split] at run after
      have solid' : ∀ c ∈ a, notSpace c = true := fun c hc => solid c (by simp [hc])
      rw [List.takeWhile_append_of_pos solid'] at run
      rw [List.dropWhile_append_of_pos solid'] at after
      cases b with
      | nil => simp
      | cons d b =>
          by_cases space : isSpace d = true
          · have stop : notSpace d = false := by simp [notSpace, space]
            rwa [List.dropWhile_cons_of_neg (by simp [stop])] at after
          · have here : notSpace d = true := by simp [notSpace, space]
            rw [List.dropWhile_cons_of_neg space]
            rw [List.takeWhile_cons_of_pos here] at run
            simp only [List.mem_append, List.mem_cons, not_or] at run
            simpa using Ne.symm run.2.1

theorem parseHeader_line {f : Field} (wf : f.WellFormed) (one : f.OneColon) :
    Request.parseHeader f.line = some (f.name, f.value) := by
  have noNul : 0 ∉ f.line := by
    simp only [Field.line, List.mem_append, List.mem_cons, not_or]
    refine ⟨fun h => (wf.name_bytes 0 h).2.2 rfl, by decide, fun h => ?_,
      fun h => (wf.value_bytes 0 h).2 rfl⟩
    rcases wf.blanks_bytes 0 h with h | h <;> exact absurd h (by decide)
  cases name : f.name with
  | nil => exact absurd name wf.name_ne_nil
  | cons c rest =>
      have solid : notSpace c = true := (wf.name_bytes c (by simp [name])).1
      have solidRest : ∀ c ∈ rest, notSpace c = true :=
        fun c hc => (wf.name_bytes c (by simp [name, hc])).1
      have star := matchStar_append solidRest (match_afterName wf)
        (fun a b split nonempty solid => match_pastName_eq_none one split nonempty solid)
      have value : f.value.take 1 ++ f.value.drop 1 = f.value := List.take_append_drop 1 _
      rw [Request.parseHeader, cStr_eq_self noNul, regexMatch, headerExpression_pieces, Field.line,
        name, List.cons_append, matchPieces_one_cons, solid, if_pos rfl, matchPieces_star, star]
      simpa [captures, Request.headerExpression, Piece.plus] using value

/-! ## Splitting the header block -/

theorem headerTokens_ne_nil {block : Bytes} (nonempty : block ≠ []) : Request.headerTokens block ≠ [] := by
  fun_cases Request.headerTokens block <;> simp_all

theorem crlfLines_tokens (s : Bytes) :
    crlfLines s = Request.headerTokens s ++ [[]] ∨
      crlfLines s = Request.headerTokens s ∧ (Request.headerTokens s).getLast? ≠ some [] := by
  induction s using Request.headerTokens.induct with
  | case1 => exact .inl rfl
  | case2 s ih =>
      rw [crlfLines, Request.headerTokens]
      rcases ih with lines | ⟨lines, last⟩
      · exact .inl (by rw [lines]; rfl)
      · refine .inr ⟨by rw [lines], ?_⟩
        obtain ⟨token, tokens, some_⟩ := List.exists_cons_of_ne_nil (lines ▸ crlfLines_ne_nil s)
        rw [some_] at last ⊢
        exact last
  | case3 c s noEnd noTokens ih =>
      obtain rfl : s = [] := by
        by_contra nonempty
        exact headerTokens_ne_nil nonempty noTokens
      have tokens : Request.headerTokens [c] = [[c]] := by
        rw [Request.headerTokens]
        · rfl
        · exact noEnd
      exact .inr ⟨by rw [tokens]; exact crlfLines_cons noEnd rfl, by simp [tokens]⟩
  | case4 c s noEnd token tokens found ih =>
      have here : Request.headerTokens (c :: s) = (c :: token) :: tokens := by
        rw [Request.headerTokens, found]
        exact noEnd
      rw [found] at ih
      rcases ih with lines | ⟨lines, last⟩
      · exact .inl (by rw [here, crlfLines_cons noEnd lines]; rfl)
      · refine .inr ⟨by rw [here, crlfLines_cons noEnd lines], ?_⟩
        rw [here]
        cases tokens with
        | nil => simp
        | cons next tokens => exact last

theorem headerTokens_of_crlfLines {s : Bytes} {lines : List Bytes} (same : crlfLines s = lines)
    (last : lines.getLast? ≠ some []) : Request.headerTokens s = lines := by
  rcases crlfLines_tokens s with cut | ⟨whole, -⟩
  · rw [← same, cut] at last
    exact absurd (by simp) last
  · rw [← whole, same]

theorem headerTokens_of_crlfLines_blank {s : Bytes} {lines : List Bytes}
    (same : crlfLines s = lines ++ [[]]) : Request.headerTokens s = lines := by
  rcases crlfLines_tokens s with cut | ⟨whole, last⟩
  · exact List.append_cancel_right (cut.symm.trans same)
  · rw [← whole, same] at last
    exact absurd (by simp) last

def headerBlock (fields : List Field) : Bytes := crlf.intercalate (fields.map Field.line)

theorem flatMap_line_crlf {fields : List Field} (nonempty : fields ≠ []) :
    fields.flatMap (fun f => f.line ++ crlf) = headerBlock fields ++ crlf := by
  rw [headerBlock, ← flatMap_crlf (by simpa using nonempty), List.flatMap_map]

theorem line_ne_nil (f : Field) : f.line ≠ [] := by simp [Field.line]

theorem line_bytes {f : Field} (wf : f.WellFormed) : ∀ c ∈ f.line, notLineEnd c = true ∧ c ≠ 0 := by
  intro c hc
  simp only [Field.line, List.mem_append, List.mem_cons] at hc
  rcases hc with h | rfl | h | h
  · exact ⟨notLineEnd_of_notSpace (wf.name_bytes c h).1, (wf.name_bytes c h).2.2⟩
  · decide
  · rcases wf.blanks_bytes c h with rfl | rfl <;> decide
  · exact wf.value_bytes c h

theorem headerBlock_ne_nil {fields : List Field} (nonempty : fields ≠ []) : headerBlock fields ≠ [] := by
  cases fields with
  | nil => exact absurd rfl nonempty
  | cons f fields =>
      cases fields with
      | nil => simpa [headerBlock] using line_ne_nil f
      | cons g fields => simp [headerBlock, List.intercalate_cons_cons, line_ne_nil]

theorem headerTokens_intercalate {lines : List Bytes} (nonempty : lines ≠ [])
    (plain : ∀ line ∈ lines, line ≠ [] ∧ ¬ crlf <:+: line) :
    Request.headerTokens (crlf.intercalate lines) = lines := by
  apply headerTokens_of_crlfLines (crlfLines_intercalate nonempty fun line mem => (plain line mem).2)
  intro last
  exact (plain [] (List.mem_of_getLast? last)).1 rfl

theorem noCrlf_of_notLineEnd {line : Bytes} (bytes : ∀ c ∈ line, notLineEnd c = true) :
    ¬ crlf <:+: line := by
  intro inside
  exact absurd (bytes 13 (inside.subset (by simp [crlf]))) (by decide)

theorem headerTokens_block {fields : List Field} (nonempty : fields ≠ [])
    (wf : ∀ f ∈ fields, f.WellFormed) :
    Request.headerTokens (headerBlock fields) = fields.map Field.line := by
  apply headerTokens_intercalate (by simpa using nonempty)
  intro line mem
  obtain ⟨f, here, rfl⟩ := List.mem_map.mp mem
  exact ⟨line_ne_nil f, noCrlf_of_notLineEnd fun c hc => (line_bytes (wf f here) c hc).1⟩

theorem mapM_parseHeader {fields : List Field} (wf : ∀ f ∈ fields, f.WellFormed)
    (one : ∀ f ∈ fields, f.OneColon) :
    (fields.map Field.line).mapM Request.parseHeader =
      some (fields.map fun f => (f.name, f.value)) := by
  induction fields with
  | nil => rfl
  | cons f fields ih =>
      have rest := ih (fun g hg => wf g (by simp [hg])) fun g hg => one g (by simp [hg])
      rw [List.map_cons, List.mapM_cons, parseHeader_line (wf f (by simp)) (one f (by simp)), rest]
      rfl

/-! ## The request line -/

-- the end of the expression, which the version is matched by
def versionPieces : List (Piece UInt8) :=
  (bytes "HTTP/").map Piece.lit ++ [.one isDigit, .star isDigit, .lit 46, .one isDigit, .star isDigit]

def versionSpans (a : UInt8) (major : Bytes) (b : UInt8) (minor : Bytes) : List Bytes :=
  (bytes "HTTP/").map ([·]) ++ [[a], major, [46], [b], minor]

theorem requestLineExpression_pieces : Request.requestLineExpression.flatMap Term.pieces =
    .one notSpace :: .star notSpace :: .one isSpace :: .lit 47 :: .star notSpace :: .one isSpace ::
      versionPieces := by
  simp [Request.requestLineExpression, Term.pieces, Piece.plus, versionPieces]

theorem match_version {major minor : Bytes} {a b : UInt8}
    (dmajor : ∀ c ∈ a :: major, isDigit c = true) (dminor : ∀ c ∈ b :: minor, isDigit c = true) :
    matchPieces versionPieces (bytes "HTTP/" ++ (a :: major) ++ 46 :: b :: minor) =
      some (versionSpans a major b minor) := by
  have da := dmajor a (by simp)
  have db := dminor b (by simp)
  have minorMatch : matchPieces [.star isDigit] minor = some [minor] :=
    matchPieces_star_end fun c hc => dminor c (by simp [hc])
  have afterMajor := matchStar_longest (p := isDigit) (a := major)
    (k := matchPieces [.lit 46, .one isDigit, .star isDigit]) (b := 46 :: b :: minor)
    (r := [[46], [b], minor]) (fun c hc => dmajor c (by simp [hc]))
    (by simpa using (by decide : isDigit 46 = false)) (by simp [db, minorMatch])
  rw [List.append_assoc, versionPieces, matchPieces_lits_append]
  simp [da, matchPieces_star, afterMajor, versionSpans]

theorem isVersion_bytes {version : Bytes} (form : IsVersion version) :
    ∀ c ∈ version, notSpace c = true ∧ c ≠ 0 := by
  obtain ⟨major, minor, rfl, -, -, majorDigits, minorDigits⟩ := form
  have digit {c : UInt8} (h : isDigit c = true) : notSpace c = true ∧ c ≠ 0 :=
    ⟨notSpace_of_isDigit h, by rintro rfl; exact absurd h (by decide)⟩
  intro c mem
  simp only [List.mem_append, List.mem_cons] at mem
  rcases mem with (mem | mem) | rfl | mem
  · revert c
    decide +kernel
  · exact digit (majorDigits c mem)
  · decide
  · exact digit (minorDigits c mem)

theorem match_lineParts {method uri version : Bytes} (methodNe : method ≠ [])
    (methodSolid : ∀ c ∈ method, notSpace c = true) (slash : uri.head? = some 47)
    (uriSolid : ∀ c ∈ uri, notSpace c = true) (form : IsVersion version) :
    regexMatch Request.requestLineExpression (method ++ 32 :: (uri ++ 32 :: version)) =
      some [method, uri, version] := by
  obtain ⟨major, minor, rfl, majorNe, minorNe, dmajor, dminor⟩ := form
  obtain ⟨a, major, rfl⟩ := List.exists_cons_of_ne_nil majorNe
  obtain ⟨b, minor, rfl⟩ := List.exists_cons_of_ne_nil minorNe
  obtain ⟨c, method, rfl⟩ := List.exists_cons_of_ne_nil methodNe
  obtain ⟨uri, rfl⟩ := List.head?_eq_some_iff.mp slash
  have space : isSpace 32 = true := by decide
  have versionMatch := match_version dmajor dminor
  have uriMatch := matchStar_longest (p := notSpace) (a := uri)
    (k := matchPieces (.one isSpace :: versionPieces))
    (b := 32 :: (bytes "HTTP/" ++ (a :: major) ++ 46 :: b :: minor)) (r := [32] :: versionSpans a major b minor)
    (fun d hd => uriSolid d (by simp [hd])) (by simp [notSpace, space])
    (by rw [matchPieces_one_cons, if_pos space, versionMatch]; rfl)
  have methodMatch := matchStar_longest (p := notSpace) (a := method)
    (k := matchPieces (.one isSpace :: .lit 47 :: .star notSpace :: .one isSpace :: versionPieces))
    (b := 32 :: (47 :: uri ++ 32 :: (bytes "HTTP/" ++ (a :: major) ++ 46 :: b :: minor)))
    (r := [32] :: [47] :: uri :: [32] :: versionSpans a major b minor)
    (fun d hd => methodSolid d (by simp [hd]))
    (by simp [notSpace, space])
    (by simp only [List.cons_append, matchPieces_one_cons, space, if_true, matchPieces_lit_cons,
          matchPieces_star, uriMatch, Option.map_some])
  have solid : notSpace c = true := methodSolid c (by simp)
  have split : c :: method ++
      32 :: (47 :: uri ++ 32 :: (bytes "HTTP/" ++ (a :: major) ++ 46 :: b :: minor)) =
      c :: (method ++ 32 :: (47 :: uri ++ 32 :: (bytes "HTTP/" ++ (a :: major) ++ 46 :: b :: minor))) :=
    rfl
  rw [regexMatch, requestLineExpression_pieces, split, matchPieces_one_cons, if_pos solid,
    matchPieces_star, methodMatch]
  simp [captures, Request.requestLineExpression, Piece.plus, bytes, versionSpans]

theorem version_solid {m : Message} (wf : m.WellFormed) : ∀ c ∈ m.version, notSpace c = true :=
  fun c mem => (isVersion_bytes wf.version_form c mem).1

theorem requestLine_bytes {m : Message} (wf : m.WellFormed) : 0 ∉ m.requestLine := by
  simp only [Message.requestLine, List.mem_append, List.mem_cons, not_or]
  exact ⟨⟨fun h => (wf.method_bytes 0 h).2 rfl, by decide, fun h => (wf.uri_bytes 0 h).2 rfl⟩,
    by decide, fun h => (isVersion_bytes wf.version_form 0 h).2 rfl⟩

theorem match_requestLine {m : Message} (wf : m.WellFormed) :
    regexMatch Request.requestLineExpression (cStr m.requestLine) =
      some [m.method, m.uri, m.version] := by
  have parts := match_lineParts wf.method_ne_nil (fun c mem => (wf.method_bytes c mem).1) wf.uri_slash
    (fun c mem => (wf.uri_bytes c mem).1) wf.version_form
  rw [cStr_eq_self (requestLine_bytes wf)]
  simpa [Message.requestLine] using parts

/-! ## The whole message -/

theorem requestExpression_pieces : Request.requestExpression.flatMap Term.pieces =
    .star notLineEnd :: (crlf.map Piece.lit ++
      (.one anyByte :: .star anyByte :: (crlfcrlf.map Piece.lit ++ [.star anyByte]))) := rfl

theorem crlfcrlf_not_start {x : Bytes} (noBlank : ¬ crlfcrlf <:+: crlf ++ x) {a b : Bytes}
    (split : crlfcrlf ++ x = a ++ b) (nonempty : a ≠ []) : ¬ crlfcrlf <+: b := by
  intro pre
  cases a with
  | nil => exact absurd rfl nonempty
  | cons c a =>
      have inside : crlfcrlf <:+: 10 :: (crlf ++ x) := by
        simp only [crlfcrlf, List.cons_append, List.cons.injEq] at split
        have tail : 10 :: (crlf ++ x) = a ++ b := by simpa [crlf] using split.2
        rw [tail]
        exact pre.isInfix.trans (List.suffix_append a b).isInfix
      rcases List.infix_cons_iff.mp inside with front | rest
      · simp [crlfcrlf] at front
      · exact noBlank rest

theorem match_textParts {line block x : Bytes} (lineBytes : ∀ c ∈ line, notLineEnd c = true)
    (nonempty : block ≠ []) (noBlank : ¬ crlfcrlf <:+: crlf ++ x) :
    regexMatch Request.requestExpression (line ++ (crlf ++ (block ++ (crlfcrlf ++ x)))) =
      some [line, block, x] := by
  obtain ⟨c, block, rfl⟩ := List.exists_cons_of_ne_nil nonempty
  have blockMatch := matchStar_append (p := anyByte) (a := block) (b := crlfcrlf ++ x)
    (k := matchPieces (crlfcrlf.map Piece.lit ++ [.star anyByte]))
    (r := crlfcrlf.map ([·]) ++ [x]) (fun _ _ => rfl)
    (by rw [matchPieces_lits_append, matchPieces_star_end (p := anyByte) fun _ _ => rfl]; rfl)
    (fun a' b' split nonempty _ => matchPieces_lits_eq_none (crlfcrlf_not_start noBlank split nonempty))
  have lineMatch := matchStar_longest (p := notLineEnd) (a := line)
    (k := matchPieces (crlf.map Piece.lit ++
      (.one anyByte :: .star anyByte :: (crlfcrlf.map Piece.lit ++ [.star anyByte]))))
    (b := crlf ++ (c :: (block ++ (crlfcrlf ++ x)))) lineBytes
    (by simpa [crlf] using (by decide : notLineEnd 13 = false))
    (by rw [matchPieces_lits_append, matchPieces_one_cons, matchPieces_star, blockMatch]; rfl)
  rw [List.cons_append, regexMatch, requestExpression_pieces, matchPieces_star, lineMatch]
  simp [captures, Request.requestExpression, Piece.plus, crlf, crlfcrlf]

theorem match_request {m : Message} (wf : m.WellFormed) {x : Bytes} (noNul : 0 ∉ x)
    (noBlank : ¬ crlfcrlf <:+: crlf ++ x) :
    regexMatch Request.requestExpression (cStr (m.head ++ x)) =
      some [m.requestLine, headerBlock m.fields, x] := by
  have lineBytes : ∀ c ∈ m.requestLine, notLineEnd c = true := by
    intro c hc
    simp only [Message.requestLine, List.mem_append, List.mem_cons] at hc
    rcases hc with (h | rfl | h) | rfl | h
    · exact notLineEnd_of_notSpace (wf.method_bytes c h).1
    · decide
    · exact notLineEnd_of_notSpace (wf.uri_bytes c h).1
    · decide
    · exact notLineEnd_of_notSpace (version_solid wf c h)
  have split : m.head ++ x =
      m.requestLine ++ (crlf ++ (headerBlock m.fields ++ (crlfcrlf ++ x))) := by
    rw [Message.head, flatMap_line_crlf wf.fields_ne_nil]
    simp [crlf, crlfcrlf]
  have headNoNul : 0 ∉ m.head ++ x := by
    simp only [Message.head, List.mem_append, List.mem_flatMap, not_or, not_exists, not_and]
    exact ⟨⟨⟨⟨requestLine_bytes wf, by decide⟩, fun f hf =>
      ⟨fun h => (line_bytes (wf.fields_wellFormed f hf) 0 h).2 rfl, by decide⟩⟩, by decide⟩, noNul⟩
  rw [cStr_eq_self headNoNul, split]
  exact match_textParts lineBytes (headerBlock_ne_nil wf.fields_ne_nil) noBlank

/-- Parsing a head followed by part of the body: the request line and the headers are those of the
message, and the body is that part. -/
theorem parse_message {m : Message} (wf : m.WellFormed) (one : m.OneColon) {x : Bytes}
    (noNul : 0 ∉ x) (noBlank : ¬ crlfcrlf <:+: crlf ++ x) :
    Request.parse (m.head ++ x) =
      some { m.request with rawRequest := m.head ++ x, body := x } := by
  have dots : contains (bytes "..") m.uri = false := contains_eq_false_iff.mpr wf.uri_no_dots
  have headers := mapM_parseHeader wf.fields_wellFormed one
  rw [← headerTokens_block wf.fields_ne_nil wf.fields_wellFormed] at headers
  simp [Request.parse, match_request wf noNul noBlank, match_requestLine wf, dots, headers,
    Message.request]

/-! ## What a parsed request is like -/

theorem parse_eq_some {raw : Bytes} {r : Request} (h : Request.parse raw = some r) :
    ∃ requestLine headersStr bodyStr,
      regexMatch Request.requestExpression (cStr raw) = some [requestLine, headersStr, bodyStr] ∧
      regexMatch Request.requestLineExpression (cStr requestLine) =
        some [r.method, r.uri, r.version] ∧
      ¬ bytes ".." <:+: r.uri ∧
      (Request.headerTokens headersStr).mapM Request.parseHeader = some r.headers ∧
      r.body = bodyStr ∧ r.rawRequest = raw := by
  unfold Request.parse at h
  split at h
  · rename_i requestLine headersStr bodyStr split
    split at h
    · rename_i method uri version line
      split at h
      · cases h
      · rename_i dots
        obtain ⟨headers, parsed, rfl⟩ := Option.map_eq_some_iff.mp h
        exact ⟨requestLine, headersStr, bodyStr, split, line,
          contains_eq_false_iff.mp (by simpa using dots), parsed, rfl, rfl⟩
    · cases h
  · cases h

end TscServer.Proof
