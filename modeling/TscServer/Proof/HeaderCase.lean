import TscServer.Proof.HeaderSplit
import TscServer.Proof.Routing
import TscServer.Proof.UpstreamRequest
import TscServer.Spec.HeaderCase

/-!
# The letter case of header names

`Request::Parse` keeps the case of a name and every lookup compares names byte by byte, so a header counts
in one spelling only. `sameTreatment_iff` says for which requests no spelling makes a difference.
-/

namespace TscServer.Proof
open Lib Model Spec Connection ProxyHandler

/-! ## Recased lines -/

theorem keeps_headerExpression :
    ∀ piece ∈ Request.headerExpression.flatMap Term.pieces, Keeps lowerByte piece := by
  have solid (c : UInt8) : notSpace (lowerByte c) = notSpace c := by
    rw [notSpace, isSpace_lowerByte, notSpace]
  have colon (c : UInt8) : (lowerByte c == 58) = (c == 58) := by
    simp [beq_eq_decide, lowerByte_eq_iff (d := 58) (by decide)]
  have lineEnd (c : UInt8) : notLineEnd (lowerByte c) = notLineEnd c := by
    simp [notLineEnd, bne, beq_eq_decide, lowerByte_eq_iff (d := 13) (by decide),
      lowerByte_eq_iff (d := 10) (by decide)]
  rw [headerExpression_pieces]
  simp only [List.mem_cons, List.not_mem_nil, or_false, forall_eq_or_imp, forall_eq]
  exact ⟨solid, solid, isSpace_lowerByte, colon, isSpace_lowerByte, solid, lineEnd⟩

theorem lower_of_recasedLine {line line' : Bytes} (recased : RecasedLine line line') :
    lower line' = lower line := by
  obtain ⟨name, name', rest, -, same, rfl, rfl⟩ := recased
  rw [lower_append, lower_append, same]

theorem suffix_of_colon {name rest before value : Bytes} (noColon : 58 ∉ name)
    (same : name ++ 58 :: rest = before ++ 58 :: value) : value <:+ rest := by
  rcases List.append_eq_append_iff.mp same with ⟨run, -, tail⟩ | ⟨run, rfl, tail⟩
  · cases run with
    | nil =>
        obtain ⟨-, rfl⟩ := List.cons.inj tail
        exact List.suffix_rfl
    | cons c run =>
        obtain ⟨-, rfl⟩ := List.cons.inj tail
        exact ⟨run ++ [58], by simp⟩
  · cases run with
    | nil =>
        obtain ⟨-, rfl⟩ := List.cons.inj tail
        exact List.suffix_rfl
    | cons c run =>
        obtain ⟨rfl, -⟩ := List.cons.inj tail
        exact absurd (by simp) noColon

theorem parseHeader_iff {line : Bytes} (noNul : 0 ∉ line) {header : Bytes × Bytes} :
    Request.parseHeader line = some header ↔
      regexMatch Request.headerExpression line = some [header.1, header.2] := by
  rw [Request.parseHeader, cStr_eq_self noNul]
  constructor
  · intro parsed
    split at parsed
    · rename_i name value found
      obtain rfl := Option.some.inj parsed
      exact found
    · cases parsed
  · intro found
    rw [found]

theorem parseHeader_recased {line line' : Bytes} (recased : RecasedLine line line') (noNul : 0 ∉ line)
    {header : Bytes × Bytes} (parsed : Request.parseHeader line = some header) :
    Request.parseHeader line' = some (line'.take header.1.length, header.2) := by
  have lowered := lower_of_recasedLine recased
  have noNul' : 0 ∉ line' := by rwa [mem_iff_of_lower_eq (by decide) lowered]
  rw [parseHeader_iff noNul] at parsed
  obtain ⟨name', value', found, sameName, sameValue⟩ : ∃ name' value',
      regexMatch Request.headerExpression line' = some [name', value'] ∧
        lower name' = lower header.1 ∧ lower value' = lower header.2 := by
    have image := regexMatch_map keeps_headerExpression line'
    rw [← lower_eq_map, lowered, lower_eq_map, regexMatch_map keeps_headerExpression, parsed] at image
    obtain ⟨groups, found, same⟩ := Option.map_eq_some_iff.mp image.symm
    obtain ⟨name', tail, rfl, sameName, rest⟩ := List.map_eq_cons_iff.mp same
    obtain ⟨value', tail, rfl, sameValue, rest⟩ := List.map_eq_cons_iff.mp rest
    obtain rfl := List.map_eq_nil_iff.mp rest
    exact ⟨name', value', found, sameName, sameValue⟩
  obtain ⟨name, before, after, value, groups, text, -⟩ := header_spans parsed
  obtain ⟨rfl, rfl⟩ : header.1 = name ∧ header.2 = value := by simpa using groups
  obtain ⟨name, before', after', value, groups, text', -⟩ := header_spans found
  obtain ⟨rfl, rfl⟩ : name' = name ∧ value' = value := by simpa using groups
  have nameLength : name'.length = header.1.length := by simpa using congrArg List.length sameName
  have valueLength : value'.length = header.2.length := by simpa using congrArg List.length sameValue
  have value : value' = header.2 := by
    obtain ⟨name, recasedName, rest, noColon, same, rfl, rfl⟩ := recased
    have noColon' : 58 ∉ recasedName := by rwa [mem_iff_of_lower_eq (by decide) same]
    rw [← List.append_assoc] at text text'
    have ends : header.2 <:+ rest := (List.suffix_append after _).trans (suffix_of_colon noColon text)
    have ends' : value' <:+ rest :=
      (List.suffix_append after' _).trans (suffix_of_colon noColon' text')
    exact (List.suffix_of_suffix_length_le ends' ends valueLength.le).eq_of_length valueLength
  rw [parseHeader_iff noNul', found, value, text', ← nameLength, List.take_left]

/-! ## Recased messages -/

theorem nonempty_of_recased {lines lines' : List Bytes} (pairs : List.Forall₂ RecasedLine lines lines') :
    ∀ line ∈ lines, line ≠ [] := by
  intro line mem
  obtain ⟨line', -, name, name', rest, -, -, rfl, -⟩ := exists_right_of_forall₂ pairs mem
  simp

theorem blank_first {raw : Bytes} {r : Request} {first : Bytes} {lines pad : List Bytes} {tail : Bytes}
    (out : LaidOut raw r first lines pad tail) :
    ∃ rest, pad ++ [] :: crlfLines (r.body ++ tail) = [] :: rest := by
  rcases out.pad with rfl | rfl
  · exact ⟨_, rfl⟩
  · exact ⟨_, rfl⟩

theorem recased_lines {raw raw' : Bytes} {r : Request} {first : Bytes} {lines pad : List Bytes}
    {tail : Bytes} (out : LaidOut raw r first lines pad tail) (recased : Recased raw raw') :
    ∃ lines', List.Forall₂ RecasedLine lines lines' ∧
      crlfLines raw' = first :: (lines' ++ pad ++ [] :: crlfLines (r.body ++ tail)) := by
  obtain ⟨first', lines₀, lines', rest, text, text', pairs⟩ := recased
  obtain ⟨rfl, split⟩ := List.cons.inj (out.text.symm.trans text)
  have head (s rest : List Bytes) (solid : ∀ line ∈ s, line ≠ []) :
      (s ++ [] :: rest).takeWhile (· ≠ []) = s ∧ (s ++ [] :: rest).dropWhile (· ≠ []) = [] :: rest := by
    constructor
    · rw [List.takeWhile_append_of_pos (by simpa using solid)]
      simp
    · rw [List.dropWhile_append_of_pos (by simpa using solid)]
      simp
  obtain ⟨blank, after⟩ := blank_first out
  rw [List.append_assoc, after] at split
  obtain ⟨take, drop⟩ := head lines blank (line_ne_nil_of_parsed out.headers)
  obtain ⟨take', drop'⟩ := head lines₀ rest (nonempty_of_recased pairs)
  rw [split] at take drop
  obtain rfl := take.symm.trans take'
  refine ⟨lines', pairs, ?_⟩
  rw [text', List.append_assoc, after, drop.symm.trans drop']

theorem laidOut_exchange {raw : Bytes} {r : Request} {first : Bytes} {lines pad : List Bytes}
    {tail : Bytes} (out : LaidOut raw r first lines pad tail) {raw' : Bytes} {lines' : List Bytes}
    {headers : List (Bytes × Bytes)}
    (text : crlfLines raw' = first :: (lines' ++ pad ++ [] :: crlfLines (r.body ++ tail)))
    (nonempty : lines' ≠ []) (noNul : ∀ line ∈ lines', 0 ∉ line)
    (parsed : List.Forall₂ (fun line header => Request.parseHeader line = some header) lines' headers) :
    LaidOut raw' { r with rawRequest := raw', headers } first lines' pad tail :=
  { out with
    text := text
    lines_ne_nil := nonempty
    lines_bytes := noNul
    headers := parsed
    rawRequest := rfl }

def renamed (line : Bytes) (header : Bytes × Bytes) : Bytes × Bytes :=
  (line.take header.1.length, header.2)

theorem noNul_recased {lines lines' : List Bytes} (pairs : List.Forall₂ RecasedLine lines lines')
    (noNul : ∀ line ∈ lines, 0 ∉ line) : ∀ line ∈ lines', 0 ∉ line := by
  intro line' mem
  obtain ⟨line, origin, recased⟩ := exists_left_of_forall₂ pairs mem
  rw [mem_iff_of_lower_eq (by decide) (lower_of_recasedLine recased)]
  exact noNul line origin

theorem parseHeader_renamed {lines lines' : List Bytes} {headers : List (Bytes × Bytes)}
    (pairs : List.Forall₂ RecasedLine lines lines') (noNul : ∀ line ∈ lines, 0 ∉ line)
    (parsed : List.Forall₂ (fun line header => Request.parseHeader line = some header) lines headers) :
    List.Forall₂ (fun line header => Request.parseHeader line = some header) lines'
      (List.zipWith renamed lines' headers) := by
  induction pairs generalizing headers with
  | nil =>
      cases parsed
      exact .nil
  | @cons line line' lines lines' here _ ih =>
      cases parsed with
      | @cons _ header _ headers read rest =>
          have clean := noNul line (by simp)
          have later := ih (fun other mem => noNul other (by simp [mem])) rest
          exact .cons (parseHeader_recased here clean read) later

theorem take_name {line : Bytes} (noNul : 0 ∉ line) {header : Bytes × Bytes}
    (parsed : Request.parseHeader line = some header) : line.take header.1.length = header.1 := by
  obtain ⟨before, after, text, -⟩ := parseHeader_spans parsed
  rw [cStr_eq_self noNul] at text
  rw [text, List.take_left]

def SameHeader (header header' : Bytes × Bytes) : Prop :=
  lower header'.1 = lower header.1 ∧ header'.2 = header.2

theorem sameHeader_renamed {lines lines' : List Bytes} {headers : List (Bytes × Bytes)}
    (pairs : List.Forall₂ RecasedLine lines lines') (noNul : ∀ line ∈ lines, 0 ∉ line)
    (parsed : List.Forall₂ (fun line header => Request.parseHeader line = some header) lines headers) :
    List.Forall₂ SameHeader headers (List.zipWith renamed lines' headers) := by
  induction pairs generalizing headers with
  | nil =>
      cases parsed
      exact .nil
  | @cons line line' lines lines' here _ ih =>
      cases parsed with
      | @cons _ header _ headers read rest =>
          refine .cons ⟨?_, rfl⟩ (ih (fun other mem => noNul other (by simp [mem])) rest)
          rw [renamed, lower_take, lower_of_recasedLine here, ← lower_take,
            take_name (noNul line (by simp)) read]

structure Respelled (r r' : Request) : Prop where
  uri : r'.uri = r.uri
  body : r'.body = r.body
  headers : List.Forall₂ SameHeader r.headers r'.headers

theorem parse_recased {raw raw' : Bytes} {r : Request} (parsed : Request.parse raw = some r)
    (recased : Recased raw raw') : ∃ r', Request.parse raw' = some r' ∧ Respelled r r' := by
  obtain ⟨first, lines, pad, tail, out⟩ := laidOut_of_parsed parsed
  obtain ⟨lines', pairs, text⟩ := recased_lines out recased
  have read := parseHeader_renamed pairs out.lines_bytes out.headers
  have noNul := noNul_recased pairs out.lines_bytes
  have nonempty : lines' ≠ [] := by
    rintro rfl
    cases pairs
    exact out.lines_ne_nil rfl
  exact ⟨_, parsed_of_laidOut (laidOut_exchange out text nonempty noNul read), rfl, rfl,
    sameHeader_renamed pairs out.lines_bytes out.headers⟩

theorem noCrlf_recased {lines lines' : List Bytes} (pairs : List.Forall₂ RecasedLine lines lines')
    (noCrlf : ∀ line ∈ lines, ¬ crlf <:+: line) : ∀ line ∈ lines', ¬ crlf <:+: line := by
  intro line' mem inside
  obtain ⟨line, origin, recased⟩ := exists_left_of_forall₂ pairs mem
  have lowered := lower_of_recasedLine recased
  exact noCrlf line origin (infix_of_lower_eq lowered (by simp [crlf]) inside)

theorem exists_recased {raw : Bytes} {r : Request} {first : Bytes} {lines pad : List Bytes}
    {tail : Bytes} (out : LaidOut raw r first lines pad tail) {lines' : List Bytes}
    (pairs : List.Forall₂ RecasedLine lines lines') :
    ∃ raw', Recased raw raw' ∧ Request.parse raw' =
      some { r with rawRequest := raw', headers := List.zipWith renamed lines' r.headers } := by
  have noCrlf : ∀ line ∈ first :: (lines ++ pad ++ [] :: crlfLines (r.body ++ tail)),
      ¬ crlf <:+: line := by
    intro line mem
    rw [← out.text] at mem
    exact noCrlf_of_mem_crlfLines mem
  have noCrlf' : ∀ line ∈ first :: (lines' ++ pad ++ [] :: crlfLines (r.body ++ tail)),
      ¬ crlf <:+: line := by
    have changed := noCrlf_recased pairs fun line mem => noCrlf line (by simp [mem])
    intro line mem
    simp only [List.mem_cons, List.mem_append] at mem noCrlf
    rcases mem with here | (here | here) | here
    · exact noCrlf line (.inl here)
    · exact changed line here
    · exact noCrlf line (.inr (.inl (.inr here)))
    · exact noCrlf line (.inr (.inr here))
  have text := crlfLines_intercalate (by simp) noCrlf'
  have read := parseHeader_renamed pairs out.lines_bytes out.headers
  have noNul := noNul_recased pairs out.lines_bytes
  have nonempty : lines' ≠ [] := by
    rintro rfl
    cases pairs
    exact out.lines_ne_nil rfl
  obtain ⟨rest, blank⟩ := blank_first out
  refine ⟨_, ⟨first, lines, lines', rest, ?_, ?_, pairs⟩,
    parsed_of_laidOut (laidOut_exchange out text nonempty noNul read)⟩
  · rw [out.text, List.append_assoc, blank]
  · rw [text, List.append_assoc, blank]

/-! ## Chosen spellings -/

def loweredLine (line : Bytes) : Bytes := lower (line.takeWhile (· != 58)) ++ line.dropWhile (· != 58)

def spelledLine (key line : Bytes) : Bytes := key ++ line.drop key.length

section Spelling
variable {key line : Bytes} {header : Bytes × Bytes} (noNul : 0 ∉ line)
  (parsed : Request.parseHeader line = some header)
include noNul parsed

theorem recasedLine_lowered : RecasedLine line (loweredLine line) := by
  obtain ⟨before, after, text, -⟩ := parseHeader_spans parsed
  rw [cStr_eq_self noNul] at text
  have colon : 58 ∈ line := by simp [text]
  have span : 58 ∉ line.takeWhile (· != 58) := fun mem =>
    absurd (List.mem_takeWhile_imp mem) (by decide)
  have parts := (List.takeWhile_append_dropWhile (p := (· != 58)) (l := line)).symm
  cases rest : line.dropWhile (· != 58) with
  | nil =>
      have all := List.dropWhile_eq_nil_iff.mp rest 58 colon
      cases all
  | cons c rest' =>
      have stops := List.head?_dropWhile_not (· != 58) line
      rw [rest] at stops parts
      obtain rfl : c = 58 := by simpa using stops
      exact ⟨_, _, rest', span, lower_lower _, parts, by rw [loweredLine, rest]⟩

theorem recasedLine_spelled (noColon : 58 ∉ key) (same : lower header.1 = lower key) :
    RecasedLine line (spelledLine key line) := by
  obtain ⟨before, after, text, -, -, blank, -⟩ := parseHeader_spans parsed
  rw [cStr_eq_self noNul] at text
  have length : key.length = header.1.length := by simpa using (congrArg List.length same).symm
  have nameNoColon : 58 ∉ header.1 := by rwa [mem_iff_of_lower_eq (by decide) same]
  have gapNoColon : 58 ∉ before := fun mem => absurd (blank 58 mem) (by decide)
  refine ⟨header.1 ++ before, key ++ before, after ++ header.2, ?_, ?_, ?_, ?_⟩
  · simp [nameNoColon, gapNoColon]
  · rw [lower_append, lower_append, same]
  · rw [text, List.append_assoc]
  · rw [spelledLine, text, length, List.drop_left, List.append_assoc]

omit noNul parsed

theorem renamed_spelled (same : lower header.1 = lower key) :
    renamed (spelledLine key line) header = (key, header.2) := by
  have length : header.1.length = key.length := by simpa using congrArg List.length same
  rw [renamed, spelledLine, length, List.take_left]

def Lowered (name : Bytes) : Prop := 58 ∉ name → lower name = name

theorem lowered_renamed (line : Bytes) (header : Bytes × Bytes) :
    Lowered (renamed (loweredLine line) header).1 := by
  let name := lower (line.takeWhile (· != 58))
  intro noColon
  change lower ((name ++ line.dropWhile (· != 58)).take header.1.length) = _
  change 58 ∉ (name ++ line.dropWhile (· != 58)).take header.1.length at noColon
  cases rest : line.dropWhile (· != 58) with
  | nil => rw [renamed, loweredLine, rest, List.append_nil, lower_take, lower_lower]
  | cons c rest' =>
      have head := List.head?_dropWhile_not (· != 58) line
      rw [rest] at head noColon
      obtain rfl : c = 58 := by simpa using head
      have short : header.1.length ≤ name.length := by
        -- beyond the name, the first byte is the colon
        by_contra long
        apply noColon
        rw [List.take_append, List.take_cons (by omega)]
        simp
      rw [renamed, loweredLine, rest, List.take_append_of_le_length short, lower_take, lower_lower]

theorem headers_spelled (choose : Bytes × Bytes → Bool) (noColon : 58 ∉ key)
    {lines : List Bytes} {headers : List (Bytes × Bytes)} (noNul : ∀ line ∈ lines, 0 ∉ line)
    (parsed : List.Forall₂ (fun line header => Request.parseHeader line = some header) lines headers)
    (chosen : ∀ header ∈ headers, choose header = true → lower header.1 = lower key) :
    ∃ lines', List.Forall₂ RecasedLine lines lines' ∧
      (∀ header ∈ headers, choose header = true →
        (key, header.2) ∈ List.zipWith renamed lines' headers) ∧
      ∀ header' ∈ List.zipWith renamed lines' headers,
        (header'.1 = key ∧ ∃ header ∈ headers, choose header = true ∧ header.2 = header'.2) ∨
          Lowered header'.1 := by
  induction parsed with
  | nil => exact ⟨[], .nil, by simp, by simp⟩
  | @cons line header lines headers read _ ih =>
      obtain ⟨lines', pairs, spelled, others⟩ := ih (fun other mem => noNul other (by simp [mem]))
        fun other mem => chosen other (by simp [mem])
      have clean := noNul line (by simp)
      by_cases this_ : choose header = true
      · have same := chosen header (by simp) this_
        refine ⟨spelledLine key line :: lines',
          .cons (recasedLine_spelled clean read noColon same) pairs, ?_, ?_⟩
        · intro other mem isChosen
          rw [List.zipWith_cons_cons, renamed_spelled same]
          rcases List.mem_cons.mp mem with rfl | mem
          · exact List.mem_cons_self
          · exact List.mem_cons_of_mem _ (spelled other mem isChosen)
        · intro other mem
          rw [List.zipWith_cons_cons, renamed_spelled same] at mem
          rcases List.mem_cons.mp mem with rfl | mem
          · exact .inl ⟨rfl, header, by simp, this_, rfl⟩
          · rcases others other mem with ⟨named, origin, here, isChosen, value⟩ | small
            · exact .inl ⟨named, origin, by simp [here], isChosen, value⟩
            · exact .inr small
      · refine ⟨loweredLine line :: lines', .cons (recasedLine_lowered clean read) pairs, ?_, ?_⟩
        · intro other mem isChosen
          rw [List.zipWith_cons_cons]
          rcases List.mem_cons.mp mem with rfl | mem
          · exact absurd isChosen this_
          · exact List.mem_cons_of_mem _ (spelled other mem isChosen)
        · intro other mem
          rw [List.zipWith_cons_cons] at mem
          rcases List.mem_cons.mp mem with rfl | mem
          · exact .inr (lowered_renamed line header)
          · rcases others other mem with ⟨named, origin, here, isChosen, value⟩ | small
            · exact .inl ⟨named, origin, by simp [here], isChosen, value⟩
            · exact .inr small

end Spelling

/-! ## Lookups -/

theorem lookup_cases (r : Request) (key : Bytes) :
    (r.getHeaderValueByName key = [] ∧ ∀ header ∈ r.headers, header.1 ≠ key) ∨
      ∃ header ∈ r.headers, header.1 = key ∧ r.getHeaderValueByName key = header.2 := by
  cases found : r.headers.find? fun header => header.1 = key with
  | none =>
      have others := List.find?_eq_none.mp found
      exact .inl ⟨by rw [Request.getHeaderValueByName, found]; rfl, by simpa using others⟩
  | some header =>
      have named := List.find?_some found
      exact .inr ⟨header, List.mem_of_find?_eq_some found, by simpa using named,
        by rw [Request.getHeaderValueByName, found]; rfl⟩

theorem mem_valuesUnder {key value : Bytes} {r : Request} :
    value ∈ valuesUnder key r ↔
      ∃ header ∈ r.headers, lower header.1 = lower key ∧ header.2 = value := by
  simp [valuesUnder]

theorem lookup_mem_valuesUnder (r : Request) (key : Bytes) :
    r.getHeaderValueByName key = [] ∨ r.getHeaderValueByName key ∈ valuesUnder key r := by
  rcases lookup_cases r key with ⟨absent, -⟩ | ⟨header, mem, rfl, value⟩
  · exact .inl absent
  · exact .inr (mem_valuesUnder.mpr ⟨header, mem, rfl, value.symm⟩)

theorem valuesUnder_sameHeader {headers headers' : List (Bytes × Bytes)}
    (pairs : List.Forall₂ SameHeader headers headers') (key : Bytes) :
    (headers'.filter fun header => lower header.1 = lower key).map Prod.snd =
      (headers.filter fun header => lower header.1 = lower key).map Prod.snd := by
  induction pairs with
  | nil => rfl
  | cons here _ ih =>
      obtain ⟨name, value⟩ := here
      simp only [List.filter_cons, name]
      split
      · rw [List.map_cons, List.map_cons, value, ih]
      · exact ih

/-- The name of a header that the server looks up is not in small letters. -/
structure KnownName (key : Bytes) : Prop where
  noColon : 58 ∉ key
  capital : lower key ≠ key

theorem ne_of_lowered {key name : Bytes} (known : KnownName key) (small : Lowered name) : name ≠ key := by
  rintro rfl
  exact known.capital (small known.noColon)

section Choice
variable {raw : Bytes} {r : Request} (parsed : Request.parse raw = some r)
include parsed

theorem exists_lowered : ∃ raw' r', Recased raw raw' ∧ Request.parse raw' = some r' ∧
    ∀ key, KnownName key → ∀ header ∈ r'.headers, header.1 ≠ key := by
  obtain ⟨first, lines, pad, tail, out⟩ := laidOut_of_parsed parsed
  have noColon : (58 : UInt8) ∉ ([] : Bytes) := List.not_mem_nil
  obtain ⟨lines', pairs, -, others⟩ := headers_spelled (fun _ => false) noColon out.lines_bytes
    out.headers (by simp)
  obtain ⟨raw', recased, read⟩ := exists_recased out pairs
  refine ⟨raw', _, recased, read, fun key known header mem => ?_⟩
  rcases others header mem with ⟨-, origin, -, chosen, -⟩ | small
  · cases chosen
  · exact ne_of_lowered known small

theorem exists_spelled {key value : Bytes} (known : KnownName key) (mem : value ∈ valuesUnder key r) :
    ∃ raw' r', Recased raw raw' ∧ Request.parse raw' = some r' ∧
      (∃ header ∈ r'.headers, header.1 = key) ∧ r'.getHeaderValueByName key = value ∧
      ∀ other, KnownName other → other ≠ key → r'.getHeaderValueByName other = [] := by
  obtain ⟨header, inside, same, rfl⟩ := mem_valuesUnder.mp mem
  obtain ⟨first, lines, pad, tail, out⟩ := laidOut_of_parsed parsed
  obtain ⟨lines', pairs, spelled, others⟩ := headers_spelled (fun other => other = header)
    known.noColon out.lines_bytes out.headers fun _ _ chosen => of_decide_eq_true chosen ▸ same
  obtain ⟨raw', recased, read⟩ := exists_recased out pairs
  have here := spelled header inside (by simp)
  refine ⟨raw', _, recased, read, ⟨_, here, rfl⟩, ?_, fun other known' ne => ?_⟩
  · rcases lookup_cases { r with
      rawRequest := raw', headers := List.zipWith renamed lines' r.headers } key with
      ⟨-, absent⟩ | ⟨found, mem, named, value⟩
    · exact absurd rfl (absent _ here)
    · rw [value]
      rcases others found mem with ⟨-, origin, -, chosen, same⟩ | small
      · rw [← same, of_decide_eq_true chosen]
      · exact absurd named (ne_of_lowered known small)
  · rcases lookup_cases { r with
      rawRequest := raw', headers := List.zipWith renamed lines' r.headers } other with
      ⟨absent, -⟩ | ⟨found, mem, named, -⟩
    · exact absent
    · rcases others found mem with ⟨named', -⟩ | small
      · exact absurd (named.symm.trans named') ne
      · exact absurd named (ne_of_lowered known' small)

end Choice

/-! ## The headers of the request to an upstream -/

section Upstream
variable {r : Request} {uri host port : Bytes}

theorem headerValue?_isSome (key name rest : Bytes) :
    (headerValue? key (name ++ 58 :: rest)).isSome =
      decide (lower (name.takeWhile (· != 58)) = lower key) := by
  unfold headerValue?
  rw [takeWhile_colon]
  split
  · rename_i none
    have all := List.dropWhile_eq_nil_iff.mp none 58 (by simp)
    cases all
  · split
    · rename_i same
      simp [same]
    · rename_i other
      simp [other]

theorem forwarded_isSome (header : Bytes × Bytes) (key : Bytes) :
    (headerValue? key (forwardedLine host port header)).isSome =
      decide (lower (header.1.takeWhile (· != 58)) = lower key) := by
  unfold forwardedLine
  split
  · rename_i named
    have text : hostLine host port = header.1 ++ 58 :: (bytes " " ++ host ++ bytes ":" ++ port) := by
      rw [named]
      rfl
    rw [text, headerValue?_isSome]
  · split
    · rename_i named
      have text : closeLine = header.1 ++ 58 :: bytes " close" := by
        rw [named]
        decide
      rw [text, headerValue?_isSome]
    · have text : header.1 ++ bytes ": " ++ header.2 = header.1 ++ 58 :: (bytes " " ++ header.2) := by
        rw [List.append_assoc]
        rfl
      rw [text, headerValue?_isSome]

theorem added_count (headers : List (Bytes × Bytes)) {key : Bytes}
    (known : key = bytes "Host" ∨ key = bytes "Connection") :
    (addedLines host port headers).countP (fun line => (headerValue? key line).isSome) =
      if headers.any (fun header => header.1 = key) then 0 else 1 := by
  have host_isSome (key : Bytes) :
      (headerValue? key (hostLine host port)).isSome = decide (lower (bytes "Host") = lower key) := by
    have text : hostLine host port = bytes "Host" ++ 58 :: (bytes " " ++ host ++ bytes ":" ++ port) := rfl
    rw [text, headerValue?_isSome]
    rfl
  have close_isSome (key : Bytes) :
      (headerValue? key closeLine).isSome = decide (lower (bytes "Connection") = lower key) := by
    have text : closeLine = bytes "Connection" ++ 58 :: bytes " close" := by decide
    rw [text, headerValue?_isSome]
    rfl
  have differ : lower (bytes "Host") ≠ lower (bytes "Connection") := by decide
  rw [addedLines, List.countP_append]
  rcases known with rfl | rfl
  · cases headers.any (fun header => header.1 = bytes "Host") <;>
      cases headers.any (fun header => header.1 = bytes "Connection") <;>
      simp [host_isSome, close_isSome, differ.symm]
  · cases headers.any (fun header => header.1 = bytes "Host") <;>
      cases headers.any (fun header => header.1 = bytes "Connection") <;>
      simp [host_isSome, close_isSome, differ]

theorem upstreamCount_eq (image : Parsed r) (uriSolid : ∀ c ∈ uri, notSpace c = true)
    (hostOne : OneLine host) (portOne : OneLine port) {key : Bytes}
    (known : key = bytes "Host" ∨ key = bytes "Connection") :
    upstreamCount key r uri host port =
      r.headers.countP (fun header => lower (header.1.takeWhile (· != 58)) = lower key) +
        if r.headers.any (fun header => header.1 = key) then 0 else 1 := by
  have lines := upstreamLines_oneLine image uriSolid hostOne portOne
  have text : makeRequest r uri host port =
      (upstreamLines r uri host port).flatMap (· ++ crlf) ++ crlf ++ r.body := by
    rw [makeRequest_eq, flatMap_crlf (by simp [upstreamLines])]
    simp [crlf, crlfcrlf]
  rw [upstreamCount, text, messageHead_lines lines, upstreamLines, List.tail_cons, headerValues,
    List.length_filterMap_eq_countP, List.countP_append, added_count _ known, List.countP_map]
  congr 2
  funext header
  exact forwarded_isSome header key

theorem countP_sameHeader {headers headers' : List (Bytes × Bytes)}
    (pairs : List.Forall₂ SameHeader headers headers') (key : Bytes) :
    headers'.countP (fun header => lower (header.1.takeWhile (· != 58)) = lower key) =
      headers.countP (fun header => lower (header.1.takeWhile (· != 58)) = lower key) := by
  induction pairs with
  | nil => rfl
  | cons here _ ih =>
      rw [List.countP_cons, List.countP_cons, ih, lower_takeWhile (d := 58) (by decide), here.1,
        ← lower_takeWhile (d := 58) (by decide)]

end Upstream

/-! ## Requests without such headers -/

section Blind
variable {ω : Type} {handlers : Handlers ω} {response : Response} {r r' : Request}

theorem caseBlind_respelled (blind : CaseBlind handlers response r) (same : Respelled r r') :
    CaseBlind handlers response r' := by
  have values (key : Bytes) : valuesUnder key r' = valuesUnder key r :=
    valuesUnder_sameHeader same.headers key
  exact
    { content_length := by rw [values, same.body]; exact blind.content_length
      referer := by rw [values, same.uri]; exact blind.referer
      accept_encoding := by rw [values]; exact blind.accept_encoding
      host := by rw [values]; exact blind.host
      connection := by rw [values]; exact blind.connection }

theorem lookup_eq_nil {key : Bytes} (absent : valuesUnder key r = []) :
    r.getHeaderValueByName key = [] := by
  rcases lookup_mem_valuesUnder r key with nothing | mem
  · exact nothing
  · rw [absent] at mem
    cases mem

theorem awaited_of_lookup_nil (absent : r.getHeaderValueByName (bytes "Content-Length") = []) :
    awaited r = some 0 := by
  rw [awaited, contentLength, if_pos absent, Option.map_some, Nat.zero_sub]

theorem awaited_of_blind (blind : CaseBlind handlers response r) : awaited r = some 0 := by
  rcases lookup_mem_valuesUnder r (bytes "Content-Length") with nothing | mem
  · exact awaited_of_lookup_nil nothing
  · obtain ⟨length, number, short⟩ := blind.content_length _ mem
    rw [awaited, contentLength, number]
    split
    · simp
    · simpa using Nat.sub_eq_zero_of_le short

theorem coded_of_lookup (compression : Compression)
    (uncoded : response.isImage ∨ ¬ WantsCoding (r.getHeaderValueByName (bytes "Accept-Encoding"))) :
    coded compression r response = response := by
  unfold coded compressPayload
  split
  · rfl
  · rename_i notImage
    have unwanted := uncoded.resolve_left notImage
    have absent (coding : Bytes) (known : coding = bytes "gzip" ∨ coding = bytes "deflate") :
        coding ∉ ((r.getHeaderValueByName (bytes "Accept-Encoding")).filter (· != 32)).splitOn 44 :=
      fun mem => unwanted ⟨coding, mem, known⟩
    simp [absent (bytes "gzip") (.inl rfl), absent (bytes "deflate") (.inr rfl)]

theorem not_wantsCoding_nil : ¬ WantsCoding [] := by
  rintro ⟨coding, mem, known⟩
  obtain rfl : coding = [] := by simpa using mem
  rcases known with known | known
  · exact absurd known (by decide)
  · exact absurd known (by decide)

theorem coded_of_blind (blind : CaseBlind handlers response r) (compression : Compression) :
    coded compression r response = response := by
  apply coded_of_lookup
  refine blind.accept_encoding.imp_right fun unwanted => ?_
  rcases lookup_mem_valuesUnder r (bytes "Accept-Encoding") with nothing | mem
  · rw [nothing]
    exact not_wantsCoding_nil
  · exact unwanted _ mem

theorem selectPrefix_of_lookup (absent : r.getHeaderValueByName (bytes "Referer") = []) :
    selectPrefix handlers r = longestPrefix handlers (r.uri.length + 1) r.uri := by
  rw [selectPrefix]
  simp only [absent]
  cases longestPrefix handlers (r.uri.length + 1) r.uri with
  | none => rfl
  | some longest => by_cases empty : longest = [] <;> simp [empty]

theorem selectPrefix_of_blind (blind : CaseBlind handlers response r) (slash : r.uri.head? = some 47) :
    selectPrefix handlers r = longestPrefix handlers (r.uri.length + 1) r.uri := by
  rcases blind.referer with absent | noRoot | ⟨key, solid, isKey, boundary⟩
  · exact selectPrefix_of_lookup (lookup_eq_nil absent)
  · rw [selectPrefix]
    simp only [noRoot]
    cases longestPrefix handlers (r.uri.length + 1) r.uri with
    | none => rfl
    | some longest => by_cases empty : longest = [] <;> simp [empty]
  · rcases longestPrefix_spec _ (.inr slash) (Nat.lt_succ_self _) with
      ⟨longest, solid', -, found⟩ | ⟨none, -⟩
    · rw [selectPrefix, found, Option.map_some, if_neg solid']
    · exact absurd boundary (none key solid isKey)

theorem asksClose_of_blind (blind : CaseBlind handlers response r) : asksClose r = false := by
  rw [asksClose, lookup_eq_nil blind.connection]
  decide

theorem upstreamCount_of_blind (blind : CaseBlind handlers response r) (image : Parsed r)
    {key : Bytes} (known : key = bytes "Host" ∨ key = bytes "Connection") {uri host port : Bytes}
    (uriSolid : ∀ c ∈ uri, notSpace c = true) (hostOne : OneLine host) (portOne : OneLine port) :
    upstreamCount key r uri host port =
      r.headers.countP (fun header => lower (header.1.takeWhile (· != 58)) = lower key) + 1 := by
  have absent : valuesUnder key r = [] := by
    rcases known with rfl | rfl
    · exact blind.host
    · exact blind.connection
  have others : r.headers.any (fun header => header.1 = key) = false := by
    rw [List.any_eq_false]
    intro header mem named
    have inside : header.2 ∈ valuesUnder key r :=
      mem_valuesUnder.mpr ⟨header, mem, by rw [of_decide_eq_true named], rfl⟩
    rw [absent] at inside
    cases inside
  rw [upstreamCount_eq image uriSolid hostOne portOne known, others]
  rfl

theorem sameTreatment_of_blind (blind : CaseBlind handlers response r) (image : Parsed r)
    (image' : Parsed r') (same : Respelled r r') : SameTreatment handlers response r r' := by
  have blind' := caseBlind_respelled blind same
  exact
    { awaited := by rw [awaited_of_blind blind', awaited_of_blind blind]
      handler := by
        rw [selectPrefix_of_blind blind' image'.uri_slash, selectPrefix_of_blind blind image.uri_slash,
          same.uri]
      coding := by
        intro compression
        rw [coded_of_blind blind', coded_of_blind blind]
      closes := by rw [asksClose_of_blind blind', asksClose_of_blind blind]
      upstream := by
        intro name known uri host port uriSolid hostOne portOne
        have known : name = bytes "Host" ∨ name = bytes "Connection" := by simpa using known
        rw [upstreamCount_of_blind blind' image' known uriSolid hostOne portOne,
          upstreamCount_of_blind blind image known uriSolid hostOne portOne,
          countP_sameHeader same.headers] }

end Blind

/-! ## Requests with such headers -/

section Necessary
variable {ω : Type} {handlers : Handlers ω} {response : Response}
  {raw : Bytes} {r r₀ r₁ : Request}

theorem lookup_of_absent {key : Bytes} (absent : ∀ header ∈ r.headers, header.1 ≠ key) :
    r.getHeaderValueByName key = [] := by
  rcases lookup_cases r key with ⟨nothing, -⟩ | ⟨header, mem, named, -⟩
  · exact nothing
  · exact absurd named (absent header mem)

theorem value_ne_nil (image : Parsed r) {key value : Bytes} (mem : value ∈ valuesUnder key r) :
    value ≠ [] := by
  obtain ⟨header, inside, -, rfl⟩ := mem_valuesUnder.mp mem
  obtain ⟨c, head, -⟩ := (image.headers_parsed header inside).value_head
  intro empty
  rw [empty] at head
  cases head

def marking : Compression := ⟨fun body => 0 :: body, fun body => 0 :: body⟩

theorem coded_marking (notImage : ¬ response.isImage = true) {value : Bytes} (nonempty : value ≠ [])
    (found : r.getHeaderValueByName (bytes "Accept-Encoding") = value) (wants : WantsCoding value) :
    coded marking r response ≠ response := by
  have longer (name : Bytes) (size : Bytes) : (((response.addHeader (bytes "Content-Encoding") name).setBody
      (0 :: response.body)).addHeader (bytes "Content-Length") size) ≠ response := by
    intro same
    have bodies := congrArg (fun r => r.body.length) same
    simp [Response.setBody] at bodies
  obtain ⟨coding, mem, known⟩ := wants
  unfold coded compressPayload
  rw [if_neg notImage, found]
  simp only [if_neg nonempty]
  split
  · exact longer _ _
  · split
    · exact longer _ _
    · rcases known with rfl | rfl
      · contradiction
      · contradiction

theorem selectPrefix_followed (unmatched : longestPrefix handlers (r.uri.length + 1) r.uri = some [])
    (referer : r.getHeaderValueByName (bytes "Referer") ≠ [])
    (host : r.getHeaderValueByName (bytes "Host") = []) (root : (handlers.find (bytes "/")).isSome) :
    selectPrefix handlers r = some (bytes "/") := by
  have inside : contains [] (r.getHeaderValueByName (bytes "Referer")) = true :=
    contains_iff.mpr (List.nil_infix)
  rw [selectPrefix, unmatched, Option.map_some, if_pos rfl, host, if_pos ⟨referer, inside, root⟩]

theorem sameTreatment_between (left : SameTreatment handlers response r r₀)
    (right : SameTreatment handlers response r r₁) : SameTreatment handlers response r₀ r₁ where
  awaited := right.awaited.trans left.awaited.symm
  handler := right.handler.trans left.handler.symm
  coding compression := (right.coding compression).trans (left.coding compression).symm
  closes := right.closes.trans left.closes.symm
  upstream name known uri host port uriSolid hostOne portOne :=
    (right.upstream name known uri host port uriSolid hostOne portOne).trans
      (left.upstream name known uri host port uriSolid hostOne portOne).symm

section Treated
variable (treated : SameTreatment handlers response r₀ r₁)
include treated

theorem short_of_treated (absent : r₀.getHeaderValueByName (bytes "Content-Length") = [])
    (present : r₁.getHeaderValueByName (bytes "Content-Length") ≠ []) :
    ∃ length, lexicalCast (r₁.getHeaderValueByName (bytes "Content-Length")) = some length ∧
      length ≤ r₁.body.length := by
  have waits : awaited r₁ = some 0 := treated.awaited.trans (awaited_of_lookup_nil absent)
  rw [awaited, contentLength, if_neg present] at waits
  obtain ⟨length, number, short⟩ := Option.map_eq_some_iff.mp waits
  exact ⟨length, number, Nat.sub_eq_zero_iff_le.mp short⟩

theorem unfollowed_of_treated (slash : r₁.uri.head? = some 47) (uri : r₀.uri = r₁.uri)
    (absent : r₀.getHeaderValueByName (bytes "Referer") = [])
    (present : r₁.getHeaderValueByName (bytes "Referer") ≠ [])
    (host : r₁.getHeaderValueByName (bytes "Host") = []) :
    handlers.find (bytes "/") = none ∨
      ∃ key, key ≠ [] ∧ (handlers.find key).isSome ∧ AtBoundary key r₁.uri := by
  rcases longestPrefix_spec handlers (.inr slash) (Nat.lt_succ_self _) with
    ⟨key, solid, longest, -⟩ | ⟨-, ends⟩
  · exact .inr ⟨key, solid, longest.isKey, longest.atBoundary⟩
  · left
    by_contra root
    have reached := selectPrefix_followed ends present host (Option.isSome_iff_ne_none.mpr root)
    rw [treated.handler, selectPrefix_of_lookup absent, uri, ends] at reached
    exact absurd reached (by decide)

theorem uncoded_of_treated (absent : r₀.getHeaderValueByName (bytes "Accept-Encoding") = [])
    (present : r₁.getHeaderValueByName (bytes "Accept-Encoding") ≠ []) :
    response.isImage ∨ ¬ WantsCoding (r₁.getHeaderValueByName (bytes "Accept-Encoding")) := by
  by_contra coded_
  push Not at coded_
  obtain ⟨notImage, wants⟩ := coded_
  apply coded_marking notImage present rfl wants
  rw [treated.coding]
  apply coded_of_lookup
  rw [absent]
  exact .inr not_wantsCoding_nil

theorem absent_of_treated (image₀ : Parsed r₀) (image₁ : Parsed r₁) {key : Bytes}
    (known : key = bytes "Host" ∨ key = bytes "Connection")
    (same : r₁.headers.countP (fun header => lower (header.1.takeWhile (· != 58)) = lower key) =
      r₀.headers.countP fun header => lower (header.1.takeWhile (· != 58)) = lower key)
    (absent : ∀ header ∈ r₀.headers, header.1 ≠ key) : ∀ header ∈ r₁.headers, header.1 ≠ key := by
  intro header mem named
  have none_ : r₀.headers.any (fun header => header.1 = key) = false := by
    simpa using absent
  have one : r₁.headers.any (fun header => header.1 = key) = true :=
    List.any_eq_true.mpr ⟨header, mem, by simpa using named⟩
  have counts := treated.upstream key (by simpa using known) [] [] [] (by simp) (by simp [OneLine])
    (by simp [OneLine])
  rw [upstreamCount_eq image₁ (by simp) (by simp [OneLine]) (by simp [OneLine]) known,
    upstreamCount_eq image₀ (by simp) (by simp [OneLine]) (by simp [OneLine]) known, one, none_,
    same] at counts
  simp at counts

end Treated

theorem caseBlind_of_sameTreatment (parsed : Request.parse raw = some r)
    (all : ∀ raw', Recased raw raw' →
      ∃ r', Request.parse raw' = some r' ∧ SameTreatment handlers response r r') :
    CaseBlind handlers response r := by
  have image := parse_image parsed
  have same {raw' : Bytes} {r' : Request} (recased : Recased raw raw')
      (parsed' : Request.parse raw' = some r') :
      SameTreatment handlers response r r' ∧ Respelled r r' := by
    obtain ⟨other, read, treated⟩ := all raw' recased
    obtain ⟨other', read', spelled⟩ := parse_recased parsed recased
    obtain rfl := Option.some.inj (parsed'.symm.trans read)
    obtain rfl := Option.some.inj (parsed'.symm.trans read')
    exact ⟨treated, spelled⟩
  -- the spelling in which nothing counts, against the one in which a single header does
  obtain ⟨raw₀, r₀, recased₀, parsed₀, absent⟩ := exists_lowered parsed
  obtain ⟨treated₀, spelled₀⟩ := same recased₀ parsed₀
  have counted {key value : Bytes} (known : KnownName key) (mem : value ∈ valuesUnder key r) :
      ∃ r₁, SameTreatment handlers response r₀ r₁ ∧ Respelled r r₁ ∧ Parsed r₁ ∧
        (∃ header ∈ r₁.headers, header.1 = key) ∧ r₁.getHeaderValueByName key = value ∧
        ∀ other, KnownName other → other ≠ key → r₁.getHeaderValueByName other = [] := by
    obtain ⟨raw₁, r₁, recased₁, parsed₁, counts⟩ := exists_spelled parsed known mem
    obtain ⟨treated₁, spelled₁⟩ := same recased₁ parsed₁
    exact ⟨r₁, sameTreatment_between treated₀ treated₁, spelled₁, parse_image parsed₁, counts⟩
  have unsent {key : Bytes} (name : KnownName key)
      (known : key = bytes "Host" ∨ key = bytes "Connection") : valuesUnder key r = [] := by
    refine List.eq_nil_iff_forall_not_mem.mpr fun value mem => ?_
    obtain ⟨r₁, treated, spelled, image₁, ⟨header, inside, named⟩, -⟩ := counted name mem
    refine absent_of_treated treated (parse_image parsed₀) image₁ known ?_ (absent key name) header
      inside named
    rw [countP_sameHeader spelled.headers, countP_sameHeader spelled₀.headers]
  have length : KnownName (bytes "Content-Length") := ⟨by decide, by decide⟩
  have referer : KnownName (bytes "Referer") := ⟨by decide, by decide⟩
  have encoding : KnownName (bytes "Accept-Encoding") := ⟨by decide, by decide⟩
  have host : KnownName (bytes "Host") := ⟨by decide, by decide⟩
  have connection : KnownName (bytes "Connection") := ⟨by decide, by decide⟩
  refine ⟨fun value mem => ?_, ?_, ?_, unsent host (.inl rfl), unsent connection (.inr rfl)⟩
  · obtain ⟨r₁, treated, spelled, -, -, rfl, -⟩ := counted length mem
    rw [← spelled.body]
    exact short_of_treated treated (lookup_of_absent (absent _ length)) (value_ne_nil image mem)
  · rw [or_iff_not_imp_left]
    intro some_
    obtain ⟨value, mem⟩ := List.exists_mem_of_ne_nil _ some_
    obtain ⟨r₁, treated, spelled, image₁, -, rfl, others⟩ := counted referer mem
    rw [← spelled.uri]
    exact unfollowed_of_treated treated image₁.uri_slash (spelled₀.uri.trans spelled.uri.symm)
      (lookup_of_absent (absent _ referer)) (value_ne_nil image mem) (others _ host (by decide))
  · rw [or_iff_not_imp_left]
    intro notImage value mem
    obtain ⟨r₁, treated, -, -, -, rfl, -⟩ := counted encoding mem
    exact (uncoded_of_treated treated (lookup_of_absent (absent _ encoding))
      (value_ne_nil image mem)).resolve_left notImage

theorem sameTreatment_iff (parsed : Request.parse raw = some r) :
    (∀ raw', Recased raw raw' →
      ∃ r', Request.parse raw' = some r' ∧ SameTreatment handlers response r r') ↔
      CaseBlind handlers response r := by
  constructor
  · exact caseBlind_of_sameTreatment parsed
  · intro blind raw' recased
    obtain ⟨r', parsed', spelled⟩ := parse_recased parsed recased
    exact ⟨r', parsed', sameTreatment_of_blind blind (parse_image parsed) (parse_image parsed') spelled⟩

end Necessary

def acceptRequest : Bytes := bytes "GET / HTTP/1.1\r\nAccept: text/html\r\n\r\n"

theorem sameTreatment_accept : ∃ r, Request.parse acceptRequest = some r ∧
    ∀ raw', Recased acceptRequest raw' →
      ∃ r', Request.parse raw' = some r' ∧ SameTreatment nestedHandlers {} r r' := by
  have accepted : (Request.parse acceptRequest).any (fun r =>
      [bytes "Content-Length", bytes "Referer", bytes "Accept-Encoding", bytes "Host", bytes "Connection"].all
        fun name => valuesUnder name r = []) = true := by decide
  obtain ⟨r, parsed, unnamed⟩ := Option.any_eq_true _ _ |>.mp accepted
  have none_ (name : Bytes) (mem : name ∈ [bytes "Content-Length", bytes "Referer", bytes "Accept-Encoding",
      bytes "Host", bytes "Connection"]) : valuesUnder name r = [] :=
    of_decide_eq_true (List.all_eq_true.mp unnamed name mem)
  have blind : CaseBlind nestedHandlers {} r := by
    refine ⟨?_, .inl (none_ _ (by simp)), .inr ?_, none_ _ (by simp), none_ _ (by simp)⟩
    · rw [none_ _ (by simp)]
      simp
    · rw [none_ _ (by simp)]
      simp
  exact ⟨r, parsed, (sameTreatment_iff parsed).mpr blind⟩

def announcing (name : String) : Bytes :=
  bytes "POST / HTTP/1.1" ++ crlf ++ bytes name ++ bytes ": 5" ++ crlfcrlf

theorem recased_announcing : Recased (announcing "Content-Length") (announcing "content-length") := by
  refine ⟨bytes "POST / HTTP/1.1", [bytes "Content-Length: 5"], [bytes "content-length: 5"], [[]],
    by decide, by decide, .cons ?_ .nil⟩
  exact ⟨bytes "Content-Length", bytes "content-length", bytes " 5", by decide, by decide,
    by decide, by decide⟩

theorem not_sameTreatment : ¬ ∀ raw r, Request.parse raw = some r → ∀ raw', Recased raw raw' →
    ∃ r', Request.parse raw' = some r' ∧ SameTreatment nestedHandlers {} r r' := by
  intro treated
  have waits : (Request.parse (announcing "Content-Length")).map awaited = some (some 5) := by
    decide
  have waitsNot : (Request.parse (announcing "content-length")).map awaited = some (some 0) := by
    decide
  obtain ⟨r, parsed, five⟩ := Option.map_eq_some_iff.mp waits
  obtain ⟨r', parsed', same⟩ := treated _ r parsed _ recased_announcing
  rw [parsed', Option.map_some, same.awaited, five] at waitsNot
  exact absurd waitsNot (by decide)

end TscServer.Proof
