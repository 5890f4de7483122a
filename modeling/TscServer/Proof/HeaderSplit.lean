import TscServer.Proof.RequestImage

/-!
# Where a header line is split

The name of a header is matched greedily, so a line is split at the last colon that can end it.
`recordedAt_iff` says for which lines that is the first one.
-/

namespace TscServer.Proof
open Lib Model Spec

/-! ## The lines of a message -/

theorem subset_of_mem_headerTokens {s token : Bytes} (mem : token ∈ Request.headerTokens s) :
    token ⊆ s := by
  induction s using Request.headerTokens.induct generalizing token with
  | case1 => cases mem
  | case2 s ih =>
      rw [Request.headerTokens] at mem
      rcases List.mem_cons.mp mem with rfl | mem
      · exact List.nil_subset _
      · exact List.Subset.trans (ih mem) (by simp)
  | case3 c s noEnd noTokens ih =>
      rw [Request.headerTokens, noTokens] at mem
      · obtain rfl : token = [c] := by simpa using mem
        simp
      · exact noEnd
  | case4 c s noEnd first tokens found ih =>
      rw [Request.headerTokens, found] at mem
      · rcases List.mem_cons.mp mem with rfl | mem
        · exact List.cons_subset_cons c (ih (by simp [found]))
        · exact List.Subset.trans (ih (by simp [found, mem])) (List.subset_cons_self c s)
      · exact noEnd

/-- A message by its lines: a request line, the header lines, at most one more empty line before the
blank one, and the body up to the first NUL. -/
structure LaidOut (raw : Bytes) (r : Request) (first : Bytes) (lines pad : List Bytes) (tail : Bytes) :
    Prop where
  text : crlfLines raw = first :: (lines ++ pad ++ [] :: crlfLines (r.body ++ tail))
  pad : pad = [] ∨ pad = [[]]
  tail : cStr tail = []
  first_bytes : ∀ c ∈ first, notLineEnd c = true ∧ c ≠ 0
  requestLine : regexMatch Request.requestLineExpression first = some [r.method, r.uri, r.version]
  uri_no_dots : ¬ bytes ".." <:+: r.uri
  lines_ne_nil : lines ≠ []
  lines_bytes : ∀ line ∈ lines, 0 ∉ line
  headers : List.Forall₂ (fun line header => Request.parseHeader line = some header) lines r.headers
  body_bytes : 0 ∉ r.body
  body_no_blank : ¬ crlfcrlf <:+: crlf ++ r.body
  rawRequest : r.rawRequest = raw

theorem line_ne_nil_of_parsed {lines : List Bytes} {headers : List (Bytes × Bytes)}
    (parsed : List.Forall₂ (fun line header => Request.parseHeader line = some header) lines headers) :
    ∀ line ∈ lines, line ≠ [] := by
  intro line mem empty
  obtain ⟨header, -, here⟩ := exists_right_of_forall₂ parsed mem
  rw [empty] at here
  cases here

theorem laidOut_of_parsed {raw : Bytes} {r : Request} (parsed : Request.parse raw = some r) :
    ∃ first lines pad tail, LaidOut raw r first lines pad tail := by
  obtain ⟨first, block, body, whole, line, dots, headers, sameBody, rawRequest⟩ := parse_eq_some parsed
  obtain ⟨first', block', body', same, text, lineBytes, blockNe, noBlank⟩ := request_parts whole
  obtain ⟨rfl, rfl, rfl⟩ : first = first' ∧ block = block' ∧ body = body' := by simpa using same
  have noNul {c : UInt8} (mem : c ∈ first ++ crlf ++ block ++ crlfcrlf ++ body) : c ≠ 0 :=
    ne_zero_of_mem_cStr (text ▸ mem)
  have firstNoNul : 0 ∉ first := fun mem => noNul (by simp [mem]) rfl
  have split : raw = first ++ crlf ++ (block ++ crlf ++ ([] ++ crlf ++
      (body ++ raw.dropWhile (· != 0)))) := by
    have parts : cStr raw ++ raw.dropWhile (· != 0) = raw := List.takeWhile_append_dropWhile
    rw [text] at parts
    simpa [crlf, crlfcrlf] using parts.symm
  have whole : crlfLines raw = first :: (crlfLines block ++
      [] :: crlfLines (body ++ raw.dropWhile (· != 0))) := by
    conv_lhs => rw [split]
    rw [crlfLines_cut, crlfLines_line (noCrlf_of_notLineEnd lineBytes), crlfLines_cut, crlfLines_cut]
    rfl
  have tail : cStr (raw.dropWhile (· != 0)) = [] := by
    cases rest : raw.dropWhile (· != 0) with
    | nil => rfl
    | cons c tail =>
        have stops := List.head?_dropWhile_not (· != 0) raw
        rw [rest] at stops
        simp only [List.head?_cons, bne_eq_false_iff_eq] at stops
        simp [cStr, stops]
  obtain ⟨pad, form, lines⟩ : ∃ pad, (pad = [] ∨ pad = [[]]) ∧
      crlfLines block = Request.headerTokens block ++ pad := by
    rcases crlfLines_tokens block with cut | ⟨cut, -⟩
    · exact ⟨[[]], .inr rfl, cut⟩
    · exact ⟨[], .inl rfl, by rw [cut, List.append_nil]⟩
  rw [lines, ← sameBody] at whole
  rw [cStr_eq_self firstNoNul] at line
  refine ⟨first, Request.headerTokens block, pad, raw.dropWhile (· != 0), ?_⟩
  exact
    { text := whole
      pad := form
      tail := tail
      first_bytes := fun c mem => ⟨lineBytes c mem, noNul (by simp [mem])⟩
      requestLine := line
      uri_no_dots := dots
      lines_ne_nil := headerTokens_ne_nil blockNe
      lines_bytes := fun token mem nul => noNul (by simp [subset_of_mem_headerTokens mem nul]) rfl
      headers := mapM_parseHeader_iff.mp headers
      body_bytes := fun mem => noNul (by simp [← sameBody, mem]) rfl
      body_no_blank := sameBody ▸ noBlank
      rawRequest := rawRequest }

theorem mem_intercalate_crlf {c : UInt8} {lines : List Bytes} (mem : c ∈ crlf.intercalate lines) :
    c = 13 ∨ c = 10 ∨ ∃ line ∈ lines, c ∈ line := by
  induction lines with
  | nil => cases mem
  | cons line lines ih =>
      cases lines with
      | nil => exact .inr (.inr ⟨line, by simp, by simpa using mem⟩)
      | cons next lines =>
          rw [List.intercalate_cons_cons, List.mem_append, List.mem_append] at mem
          rcases mem with (mem | mem) | mem
          · exact .inr (.inr ⟨line, by simp, mem⟩)
          · simp only [crlf, List.mem_cons, List.not_mem_nil, or_false] at mem
            exact mem.imp_right .inl
          · rcases ih mem with return_ | feed | ⟨other, inside, mem⟩
            · exact .inl return_
            · exact .inr (.inl feed)
            · exact .inr (.inr ⟨other, List.mem_cons_of_mem line inside, mem⟩)

theorem parsed_of_laidOut {raw : Bytes} {r : Request} {first : Bytes} {lines pad : List Bytes}
    {tail : Bytes} (out : LaidOut raw r first lines pad tail) : Request.parse raw = some r := by
  let block := crlf.intercalate (lines ++ pad)
  have some_ : lines ++ pad ≠ [] := by simp [out.lines_ne_nil]
  have noCrlf : ∀ line ∈ lines ++ pad, ¬ crlf <:+: line := by
    intro line mem
    apply noCrlf_of_mem_crlfLines (s := raw)
    rw [out.text]
    exact List.mem_cons_of_mem first (List.mem_append_left _ mem)
  have tokens : Request.headerTokens block = lines := by
    have back : crlfLines block = lines ++ pad := crlfLines_intercalate some_ noCrlf
    rcases out.pad with rfl | rfl
    · apply headerTokens_of_crlfLines (by simpa using back)
      exact fun last => line_ne_nil_of_parsed out.headers [] (List.mem_of_getLast? last) rfl
    · exact headerTokens_of_crlfLines_blank back
  have blockNe : block ≠ [] := by
    intro empty
    rw [empty] at tokens
    exact out.lines_ne_nil tokens.symm
  have split : raw = first ++ (crlf ++ (block ++ (crlfcrlf ++ r.body))) ++ tail := by
    have joined := intercalate_crlfLines raw
    rw [out.text, List.intercalate_cons_of_ne_nil (by simp),
      intercalate_crlf_append some_ (by simp),
      List.intercalate_cons_of_ne_nil (crlfLines_ne_nil _), intercalate_crlfLines] at joined
    rw [← joined]
    simp [block, crlf, crlfcrlf]
  have blockNoNul : 0 ∉ block := by
    intro mem
    rcases mem_intercalate_crlf mem with nul | nul | ⟨line, inside, mem⟩
    · cases nul
    · cases nul
    · rcases List.mem_append.mp inside with inside | inside
      · exact out.lines_bytes line inside mem
      · rcases out.pad with rfl | rfl
        · cases inside
        · obtain rfl := List.mem_singleton.mp inside
          cases mem
  have noNul : 0 ∉ first ++ (crlf ++ (block ++ (crlfcrlf ++ r.body))) := by
    simp only [List.mem_append, not_or]
    exact ⟨fun mem => (out.first_bytes 0 mem).2 rfl, by decide, blockNoNul, by decide, out.body_bytes⟩
  have text : cStr raw = first ++ (crlf ++ (block ++ (crlfcrlf ++ r.body))) := by
    rw [split, cStr_append noNul, out.tail, List.append_nil]
  have whole := match_textParts (fun c mem => (out.first_bytes c mem).1) blockNe out.body_no_blank
  have firstNoNul : 0 ∉ first := fun mem => (out.first_bytes 0 mem).2 rfl
  have headers := mapM_parseHeader_iff.mpr out.headers
  rw [← tokens] at headers
  have dots : contains (bytes "..") r.uri = false := contains_eq_false_iff.mpr out.uri_no_dots
  have same : { r with rawRequest := raw } = r := by rw [← out.rawRequest]
  rw [← same]
  simp [Request.parse, text, whole, cStr_eq_self firstNoNul, out.requestLine, dots, headers]

theorem headers_lines {raw : Bytes} {r : Request} (parsed : Request.parse raw = some r) :
    List.Forall₂ (fun line header => Request.parseHeader line = some header) (headerLines raw)
      r.headers ∧ ∀ line ∈ headerLines raw, 0 ∉ line := by
  obtain ⟨first, lines, pad, tail, out⟩ := laidOut_of_parsed parsed
  have read : headerLines raw = lines := by
    rw [headerLines, out.text, List.tail_cons, List.append_assoc, List.takeWhile_append_of_pos]
    · rcases out.pad with rfl | rfl <;> simp
    · simpa using line_ne_nil_of_parsed out.headers
  rw [read]
  exact ⟨out.headers, out.lines_bytes⟩

/-! ## The colon -/

theorem match_colon_ne_none {gap rest : Bytes} (blank : ∀ c ∈ gap, isSpace c = true)
    (value : ∃ c ∈ rest, notSpace c = true) (bytes : ∀ c ∈ rest, notLineEnd c = true) :
    matchPieces [.star isSpace, .lit 58, .star isSpace, .one notSpace, .star notLineEnd]
      (gap ++ 58 :: rest) ≠ none := by
  obtain ⟨c, mem, solid⟩ := value
  cases tail : rest.dropWhile isSpace with
  | nil =>
      have all := List.dropWhile_eq_nil_iff.mp tail c mem
      rw [notSpace_iff, all] at solid
      cases solid
  | cons d tail' =>
      have parts : rest.takeWhile isSpace ++ d :: tail' = rest := by
        rw [← tail, List.takeWhile_append_dropWhile]
      have first : isSpace d = false := by
        have stops := List.head?_dropWhile_not isSpace rest
        rw [tail] at stops
        exact stops
      have fits : List.Forall₂ Piece.Fits
          [.star isSpace, .lit 58, .star isSpace, .one notSpace, .star notLineEnd]
          [gap, [58], rest.takeWhile isSpace, [d], tail'] := by
        refine .cons blank (.cons ⟨58, rfl, by simp⟩ (.cons ?_ (.cons ⟨d, rfl, ?_⟩ (.cons ?_ .nil))))
        · intro c mem
          exact List.mem_takeWhile_imp mem
        · exact notSpace_iff.mpr first
        · intro c mem
          exact bytes c (by rw [← parts]; simp [mem])
      simpa [parts] using matchPieces_complete fits

theorem blanks_isSpace {name blanks value : Bytes} (form : HeaderForm name blanks value) :
    ∀ c ∈ blanks, isSpace c = true := by
  intro c mem
  rcases form.blanks_bytes c mem with rfl | rfl <;> decide

theorem splitsAtFirst_of_parsed {name blanks value : Bytes} (form : HeaderForm name blanks value)
    (noNul : 0 ∉ name ++ 58 :: (blanks ++ value))
    (parsed : Request.parseHeader (name ++ 58 :: (blanks ++ value)) = some (name, value)) :
    SplitsAtFirst blanks value := by
  obtain ⟨before, after, text, -, -, blank, -, head, valueBytes, longer⟩ := parseHeader_spans parsed
  rw [cStr_eq_self noNul, List.append_cancel_left_eq] at text
  rw [← text] at longer
  refine ⟨head, fun diverts => ?_⟩
  obtain ⟨run, gap, rest, split, solid, gapBlank, follows⟩ := diverts
  have restBytes : ∀ c ∈ rest, notLineEnd c = true := by
    intro c mem
    have inside : c ∈ blanks ++ value := by simp [split, mem]
    rcases List.mem_append.mp inside with inside | inside
    · rcases form.blanks_bytes c inside with rfl | rfl <;> decide
    · exact valueBytes c inside
  apply match_colon_ne_none gapBlank follows restBytes
  apply longer (58 :: run) (gap ++ 58 :: rest)
  · simp [split]
  · simp
  · intro c mem
    rcases List.mem_cons.mp mem with rfl | mem
    · decide
    · exact solid c mem

theorem value_unique {blanks value before after value' : Bytes}
    (same : 58 :: (blanks ++ value) = before ++ 58 :: (after ++ value'))
    (blank : ∀ c ∈ blanks, isSpace c = true) (solid : ∃ c ∈ value.head?, notSpace c = true)
    (blank_before : ∀ c ∈ before, isSpace c = true) (blank_after : ∀ c ∈ after, isSpace c = true)
    (solid' : ∃ c ∈ value'.head?, notSpace c = true) : value' = value := by
  have stops {v : Bytes} (solid : ∃ c ∈ v.head?, notSpace c = true) :
      ∀ c ∈ v.head?, isSpace c = false := by
    obtain ⟨d, head, solid⟩ := solid
    intro c mem
    obtain rfl : d = c := Option.some.inj (head.symm.trans mem)
    exact notSpace_iff.mp solid
  cases before with
  | nil =>
      have tails := congrArg (List.dropWhile isSpace) (List.cons.inj same).2
      rwa [dropWhile_append_stop blank (stops solid), dropWhile_append_stop blank_after (stops solid'),
        eq_comm] at tails
  | cons c before =>
      obtain ⟨rfl, -⟩ := List.cons.inj same
      exact absurd (blank_before 58 (by simp)) (by decide)

theorem parsed_of_splitsAtFirst {name blanks value : Bytes} {header : Bytes × Bytes}
    (form : HeaderForm name blanks value) (noNul : 0 ∉ name ++ 58 :: (blanks ++ value))
    (splits : SplitsAtFirst blanks value)
    (parsed : Request.parseHeader (name ++ 58 :: (blanks ++ value)) = some header) :
    header = (name, value) := by
  obtain ⟨name', value'⟩ := header
  obtain ⟨before, after, text, -, solid, blank, blank', head, -, -⟩ := parseHeader_spans parsed
  rw [cStr_eq_self noNul] at text
  dsimp only at text solid head
  rcases List.append_eq_append_iff.mp text with ⟨run, rfl, rest⟩ | ⟨run, rfl, rest⟩
  · cases run with
    | nil =>
        rw [value_unique rest (blanks_isSpace form) splits.value_head blank blank' head,
          List.append_nil]
    | cons c run =>
        -- the recorded name goes on after the colon that ends the name of the line
        obtain ⟨rfl, later⟩ := List.cons.inj rest
        obtain ⟨d, first, solidFirst⟩ := head
        refine absurd ⟨run, before, after ++ value', ?_, ?_, blank, d, ?_, solidFirst⟩ splits.first_colon
        · rw [later, List.append_assoc]
          rfl
        · intro c mem
          exact solid c (by simp [mem])
        · exact List.mem_append_right after (List.mem_of_head? first)
  · cases run with
    | nil =>
        rw [value_unique rest.symm (blanks_isSpace form) splits.value_head blank blank' head,
          List.append_nil]
    | cons c run =>
        -- the recorded name would stop inside the name of the line
        obtain ⟨solidName, noColon⟩ := form.name_bytes c (by simp)
        cases before with
        | nil => exact absurd (List.cons.inj rest).1.symm noColon
        | cons d before =>
            have space := blank d (by simp)
            rw [(List.cons.inj rest).1, notSpace_iff.mp solidName] at space
            cases space

/-! ## Headers of a request -/

theorem getHeaderValueByName_of_first {r : Request} {i : Nat} {name value : Bytes}
    (here : r.headers[i]? = some (name, value))
    (first : ∀ j header, j < i → r.headers[j]? = some header → header.1 ≠ name) :
    r.getHeaderValueByName name = value := by
  have found : r.headers.find? (fun header => header.1 = name) = some (name, value) := by
    obtain ⟨lt, at_⟩ := List.getElem?_eq_some_iff.mp here
    rw [List.find?_eq_some_iff_getElem]
    refine ⟨by simp, i, lt, at_, fun j earlier => ?_⟩
    have other := first j _ earlier (List.getElem?_eq_getElem (earlier.trans lt))
    simpa using other
  rw [Request.getHeaderValueByName, found]
  rfl

theorem recordedAt_iff {raw : Bytes} {r : Request} (parsed : Request.parse raw = some r) {i : Nat}
    {name blanks value : Bytes} (form : HeaderForm name blanks value)
    (line : (headerLines raw)[i]? = some (name ++ 58 :: (blanks ++ value))) :
    RecordedAt r i name value ↔ SplitsAtFirst blanks value := by
  obtain ⟨pairs, noNul⟩ := headers_lines parsed
  obtain ⟨lt, here⟩ := List.getElem?_eq_some_iff.mp line
  have lt' : i < r.headers.length := pairs.length_eq ▸ lt
  have read := pairs.get lt lt'
  rw [List.get_eq_getElem, List.get_eq_getElem, here] at read
  have clean : 0 ∉ name ++ 58 :: (blanks ++ value) := noNul _ (List.mem_of_getElem? line)
  constructor
  · intro recorded
    obtain ⟨_, same⟩ := List.getElem?_eq_some_iff.mp recorded.recorded
    rw [same] at read
    exact splitsAtFirst_of_parsed form clean read
  · intro splits
    have header := parsed_of_splitsAtFirst form clean splits read
    have recorded : r.headers[i]? = some (name, value) :=
      List.getElem?_eq_some_iff.mpr ⟨lt', header⟩
    exact ⟨recorded, getHeaderValueByName_of_first recorded⟩

theorem not_divertsColon {f : Field} (one : f.OneColon) : ¬ DivertsColon (f.blanks ++ f.value) := by
  intro diverts
  obtain ⟨run, gap, rest, text, solid, blank, -⟩ := diverts
  obtain ⟨inRun, afterRun⟩ := one
  rw [text, List.append_assoc] at inRun afterRun
  rw [List.takeWhile_append_of_pos solid] at inRun
  rw [List.dropWhile_append_of_pos solid] at afterRun
  cases gap with
  | nil => simp [show notSpace 58 = true by decide] at inRun
  | cons c gap =>
      have stop : notSpace c = false := by simp [notSpace, blank c]
      rw [List.cons_append, List.dropWhile_cons_of_neg (by simp [stop]), ← List.cons_append,
        List.dropWhile_append_of_pos blank] at afterRun
      exact afterRun rfl

-- the request of the unit test, with a port after the host
def hostWithPort (blanks : Bytes) : Bytes :=
  bytes "GET / HTTP/1.1" ++ crlf ++ bytes "Host:" ++ blanks ++ bytes "localhost:80" ++ crlfcrlf

theorem headerForm_host {blanks : Bytes} (bytes_ : ∀ c ∈ blanks, c = 32 ∨ c = 9) :
    HeaderForm (bytes "Host") blanks (bytes "localhost:80") where
  name_ne_nil := by decide
  name_bytes := by decide +kernel
  blanks_bytes := bytes_
  value_head := ⟨108, rfl, by decide⟩

theorem recordedAt_port : ∃ r, Request.parse (hostWithPort [32]) = some r ∧
    RecordedAt r 0 (bytes "Host") (bytes "localhost:80") := by
  have accepted : (Request.parse (hostWithPort [32])).isSome := by decide
  obtain ⟨r, parsed⟩ := Option.isSome_iff_exists.mp accepted
  have one : Field.OneColon { name := bytes "Host", value := bytes "localhost:80" } := by
    unfold Field.OneColon
    decide
  have line : (headerLines (hostWithPort [32]))[0]? =
      some (bytes "Host" ++ 58 :: ([32] ++ bytes "localhost:80")) := by decide
  have form : HeaderForm (bytes "Host") [32] (bytes "localhost:80") := headerForm_host (by simp)
  exact ⟨r, parsed,
    (recordedAt_iff parsed form line).mpr ⟨⟨108, rfl, by decide⟩, not_divertsColon one⟩⟩

theorem not_recordedAt : ¬ ∀ raw r, Request.parse raw = some r → ∀ i name blanks value,
    HeaderForm name blanks value →
      (headerLines raw)[i]? = some (name ++ 58 :: (blanks ++ value)) → RecordedAt r i name value := by
  intro recorded
  have accepted : (Request.parse (hostWithPort [])).map (fun r => r.headers) =
      some [(bytes "Host:localhost", bytes "80")] := by decide
  obtain ⟨r, parsed, headers⟩ := Option.map_eq_some_iff.mp accepted
  have here := (recorded _ r parsed 0 _ [] _ (headerForm_host (by simp)) (by decide)).recorded
  rw [headers] at here
  exact absurd here (by decide)

end TscServer.Proof
