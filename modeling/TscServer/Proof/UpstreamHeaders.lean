import TscServer.Proof.UpstreamRequest

/-!
# Host and Connection of the request to an upstream

`MakeRequest` rewrites every header that is spelled `Host` or `Connection` and adds those it has not
seen, so a header that the client repeats, or spells otherwise, is sent more than once.
-/

namespace TscServer.Proof
open Lib Model Spec ProxyHandler

/-! ## Which header a line belongs to -/

theorem named_append (key name rest : Bytes) : named key (name ++ 58 :: rest) = named key name := by
  rw [named, takeWhile_colon, named]

theorem named_hostLine (key host port : Bytes) :
    named key (hostLine host port) = named key (bytes "Host") :=
  named_append key (bytes "Host") (bytes " " ++ host ++ bytes ":" ++ port)

theorem named_closeLine (key : Bytes) : named key closeLine = named key (bytes "Connection") :=
  named_append key (bytes "Connection") (bytes " close")

theorem named_forwardedLine (key host port : Bytes) (header : Bytes × Bytes) :
    named key (forwardedLine host port header) = named key header.1 := by
  unfold forwardedLine
  split
  · rename_i spelled
    rw [spelled, named_hostLine]
  · split
    · rename_i spelled
      rw [spelled, named_closeLine]
    · have text : header.1 ++ bytes ": " ++ header.2 = header.1 ++ 58 :: (bytes " " ++ header.2) := by
        simp [bytes]
      rw [text, named_append]

theorem forwardedLine_other {host port : Bytes} {header : Bytes × Bytes}
    (other : isRewritten header.1 = false) :
    forwardedLine host port header = header.1 ++ bytes ": " ++ header.2 := by
  rw [forwardedLine, if_neg, if_neg]
  · intro spelled
    rw [spelled] at other
    exact absurd other (by decide)
  · intro spelled
    rw [spelled] at other
    exact absurd other (by decide)

/-! ## The lines -/

section Lines
variable {headers : List (Bytes × Bytes)} {host port : Bytes}

theorem filter_forwarded (key : Bytes) :
    (headers.map (forwardedLine host port)).filter (named key) =
      (headers.filter fun header => named key header.1).map (forwardedLine host port) := by
  rw [List.filter_map]
  congr 2
  funext header
  exact named_forwardedLine key host port header

theorem filter_eq_singleton_iff {key line : Bytes} {added : List Bytes}
    (rewrites : ∀ header : Bytes × Bytes, header.1 = key → forwardedLine host port header = line)
    (self : named key key = true)
    (adds : added.filter (named key) = if headers.any (fun header => header.1 = key) then [] else [line]) :
    (headers.map (forwardedLine host port) ++ added).filter (named key) = [line] ↔
      (headers.map Prod.fst).filter (named key) = [] ∨
        (headers.map Prod.fst).filter (named key) = [key] := by
  have names : (headers.map Prod.fst).filter (named key) =
      (headers.filter fun header => named key header.1).map Prod.fst := by
    rw [List.filter_map]
    rfl
  rw [List.filter_append, filter_forwarded, adds, names]
  have seen : (headers.any fun header => header.1 = key) = true ↔
      ∃ header ∈ headers.filter (fun header => named key header.1), header.1 = key := by
    simp only [List.any_eq_true, decide_eq_true_eq, List.mem_filter]
    constructor
    · rintro ⟨header, mem, spelled⟩
      exact ⟨header, ⟨mem, by rw [spelled, self]⟩, spelled⟩
    · rintro ⟨header, ⟨mem, -⟩, spelled⟩
      exact ⟨header, mem, spelled⟩
  generalize headers.filter (fun header => named key header.1) = found at seen
  split
  · rename_i any
    obtain ⟨header, mem, spelled⟩ := seen.mp any
    constructor
    · intro one
      have single : found.length = 1 := by simpa using congrArg List.length one
      obtain ⟨other, rfl⟩ := List.length_eq_one_iff.mp single
      obtain rfl := List.mem_singleton.mp mem
      exact .inr (by rw [List.map_singleton, spelled])
    · rintro (none | one)
      · rw [List.map_eq_nil_iff] at none
        rw [none] at mem
        cases mem
      · obtain ⟨other, rfl, -⟩ := List.map_eq_singleton_iff.mp one
        obtain rfl := List.mem_singleton.mp mem
        rw [List.append_nil, List.map_singleton, rewrites header spelled]
  · rename_i unseen
    have absent : ∀ header ∈ found, header.1 ≠ key := fun header mem spelled =>
      unseen (seen.mpr ⟨header, mem, spelled⟩)
    constructor
    · intro one
      have none : found.length = 0 := by simpa using congrArg List.length one
      exact .inl (by rw [List.eq_nil_of_length_eq_zero none, List.map_nil])
    · rintro (none | one)
      · rw [List.map_eq_nil_iff] at none
        rw [none, List.map_nil, List.nil_append]
      · obtain ⟨header, rfl, spelled⟩ := List.map_eq_singleton_iff.mp one
        exact absurd spelled (absent header (by simp))

theorem host_once_iff :
    (headers.map (forwardedLine host port) ++ addedLines host port headers).filter
        (named (bytes "Host")) = [hostLine host port] ↔
      (headers.map Prod.fst).filter (named (bytes "Host")) = [] ∨
        (headers.map Prod.fst).filter (named (bytes "Host")) = [bytes "Host"] := by
  apply filter_eq_singleton_iff
  · intro header spelled
    rw [forwardedLine, if_pos spelled]
  · decide
  · have own : named (bytes "Host") (hostLine host port) = true := by
      rw [named_hostLine]
      decide
    have other : named (bytes "Host") closeLine = false := by decide
    rw [addedLines, List.filter_append]
    split <;> split <;> simp [own, other]

theorem close_once_iff :
    (headers.map (forwardedLine host port) ++ addedLines host port headers).filter
        (named (bytes "Connection")) = [closeLine] ↔
      (headers.map Prod.fst).filter (named (bytes "Connection")) = [] ∨
        (headers.map Prod.fst).filter (named (bytes "Connection")) = [bytes "Connection"] := by
  apply filter_eq_singleton_iff
  · intro header spelled
    rw [forwardedLine, if_neg, if_pos spelled]
    rw [spelled]
    decide
  · decide
  · have own : named (bytes "Connection") closeLine = true := by decide
    have other : named (bytes "Connection") (hostLine host port) = false := by
      rw [named_hostLine]
      decide
    rw [addedLines, List.filter_append]
    split <;> split <;> simp [own, other]

theorem others_unchanged :
    (headers.map (forwardedLine host port) ++ addedLines host port headers).filter
        (fun line => !isRewritten line) =
      (headers.filter fun header => !isRewritten header.1).map fun header =>
        header.1 ++ bytes ": " ++ header.2 := by
  have hostOwn : isRewritten (hostLine host port) = true := by
    rw [isRewritten, named_hostLine, named_hostLine]
    decide
  have closeOwn : isRewritten closeLine = true := by decide
  have none_ : (addedLines host port headers).filter (fun line => !isRewritten line) = [] := by
    rw [addedLines, List.filter_append]
    split <;> split <;> simp [hostOwn, closeOwn]
  have same (header : Bytes × Bytes) :
      isRewritten (forwardedLine host port header) = isRewritten header.1 := by
    rw [isRewritten, named_forwardedLine, named_forwardedLine, isRewritten]
  rw [List.filter_append, none_, List.append_nil, List.filter_map]
  have pred : (fun line => !isRewritten line) ∘ forwardedLine host port =
      fun header : Bytes × Bytes => !isRewritten header.1 := by
    funext header
    simp [same]
  rw [pred]
  apply List.map_congr_left
  intro header mem
  exact forwardedLine_other (by simpa using (List.mem_filter.mp mem).2)

end Lines

/-! ## The whole request -/

section Request
variable {raw : Bytes} {r : Request} {uri host port : Bytes}

theorem crlf_infix_hostLine : crlf <:+: hostLine host port ↔ crlf <:+: host ∨ crlf <:+: port := by
  have text : hostLine host port = bytes "Host:" ++ 32 :: (host ++ 58 :: port) := by
    simp [hostLine, bytes]
  have name : ¬ crlf <:+: bytes "Host:" := contains_eq_false_iff.mp (by decide)
  rw [text, crlf_infix_append_cons (by decide), crlf_infix_append_cons (by decide), or_iff_right name]

theorem crlf_infix_requestLine (image : Parsed r) :
    crlf <:+: r.method ++ bytes " " ++ uri ++ bytes " " ++ r.version ↔ crlf <:+: uri := by
  have text : r.method ++ bytes " " ++ uri ++ bytes " " ++ r.version =
      r.method ++ 32 :: (uri ++ 32 :: r.version) := by
    simp [bytes]
  have method : ¬ crlf <:+: r.method :=
    (oneLine_of_notSpace fun c mem => (image.method_bytes c mem).1).noCrlf
  have version : ¬ crlf <:+: r.version :=
    (oneLine_of_notSpace fun c mem => (isVersion_bytes image.version_form c mem).1).noCrlf
  rw [text, crlf_infix_append_cons (by decide), crlf_infix_append_cons (by decide),
    or_iff_right method, or_iff_left version]

theorem noCrlf_headerLines (image : Parsed r) (hostPlain : ¬ crlf <:+: host) (portPlain : ¬ crlf <:+: port) :
    ∀ line ∈ r.headers.map (forwardedLine host port) ++ addedLines host port r.headers,
      ¬ crlf <:+: line := by
  have hostLine_noCrlf : ¬ crlf <:+: hostLine host port := by
    rw [crlf_infix_hostLine, not_or]
    exact ⟨hostPlain, portPlain⟩
  have closeLine_noCrlf : ¬ crlf <:+: closeLine := contains_eq_false_iff.mp (by decide)
  intro line mem
  rcases List.mem_append.mp mem with mem | mem
  · obtain ⟨header, here, rfl⟩ := List.mem_map.mp mem
    have parsed := image.headers_parsed header here
    unfold forwardedLine
    split
    · exact hostLine_noCrlf
    · split
      · exact closeLine_noCrlf
      · have name : OneLine header.1 := oneLine_of_notSpace fun c mem => (parsed.name_bytes c mem).1
        have value : OneLine header.2 :=
          oneLine_of_notLineEnd fun c mem => (parsed.value_bytes c mem).1
        have colon : OneLine (bytes ": ") := by simp [OneLine, bytes]
        exact ((name.append colon).append value).noCrlf
  · rcases List.mem_append.mp mem with mem | mem
    · split at mem
      · cases mem
      · rwa [List.mem_singleton.mp mem]
    · split at mem
      · cases mem
      · rwa [List.mem_singleton.mp mem]

theorem crlfLines_makeRequest (image : Parsed r) (uriPlain : ¬ crlf <:+: uri)
    (hostPlain : ¬ crlf <:+: host) (portPlain : ¬ crlf <:+: port) :
    crlfLines (makeRequest r uri host port) =
      (r.method ++ bytes " " ++ uri ++ bytes " " ++ r.version) ::
        ((r.headers.map (forwardedLine host port) ++ addedLines host port r.headers) ++
          [] :: crlfLines r.body) := by
  have lines : ∀ line ∈ upstreamLines r uri host port, ¬ crlf <:+: line := by
    intro line mem
    rcases List.mem_cons.mp mem with rfl | mem
    · rwa [crlf_infix_requestLine image]
    · exact noCrlf_headerLines image hostPlain portPlain line mem
  have text : makeRequest r uri host port =
      crlf.intercalate (upstreamLines r uri host port) ++ crlf ++ ([] ++ crlf ++ r.body) := by
    rw [makeRequest_eq, List.append_assoc, List.append_assoc]
    rfl
  have blank : crlfLines [] = [[]] := rfl
  rw [text, crlfLines_cut, crlfLines_intercalate (by simp [upstreamLines]) lines, crlfLines_cut, blank,
    upstreamLines]
  simp

theorem headersRewritten_iff (parsed : Request.parse raw = some r) (uri host port : Bytes) :
    HeadersRewritten r uri host port ↔
      ¬ crlf <:+: uri ∧ ¬ crlf <:+: host ∧ ¬ crlf <:+: port ∧
        SpelledOnce (bytes "Host") r ∧ SpelledOnce (bytes "Connection") r := by
  have image := parse_image parsed
  constructor
  · rintro ⟨lines, text, hostOnce, closeOnce, -⟩
    have plain : ∀ line ∈ (r.method ++ bytes " " ++ uri ++ bytes " " ++ r.version) ::
        (lines ++ [] :: crlfLines r.body), ¬ crlf <:+: line := by
      intro line mem
      rw [← text] at mem
      exact noCrlf_of_mem_crlfLines mem
    have uriPlain : ¬ crlf <:+: uri := by
      rw [← crlf_infix_requestLine image]
      exact plain _ (by simp)
    have hostMem : hostLine host port ∈ lines := by
      have mem : hostLine host port ∈ lines.filter (named (bytes "Host")) := by simp [hostOnce]
      exact (List.mem_filter.mp mem).1
    have hostLinePlain : ¬ crlf <:+: hostLine host port := plain _ (by simp [hostMem])
    rw [crlf_infix_hostLine, not_or] at hostLinePlain
    obtain ⟨hostPlain, portPlain⟩ := hostLinePlain
    rw [crlfLines_makeRequest image uriPlain hostPlain portPlain] at text
    obtain rfl := List.append_cancel_right (List.cons.inj text).2
    exact ⟨uriPlain, hostPlain, portPlain, host_once_iff.mp hostOnce, close_once_iff.mp closeOnce⟩
  · rintro ⟨uriPlain, hostPlain, portPlain, hostOnce, closeOnce⟩
    exact ⟨_, crlfLines_makeRequest image uriPlain hostPlain portPlain, host_once_iff.mpr hostOnce,
      close_once_iff.mpr closeOnce, others_unchanged⟩

end Request

theorem headersRewritten_post : HeadersRewritten postedRequest (bytes "/x") (bytes "up") (bytes "80") := by
  have parsed : Request.parse postedRequest.rawRequest = some postedRequest := by decide
  exact (headersRewritten_iff parsed _ _ _).mpr
    ⟨contains_eq_false_iff.mp (by decide), contains_eq_false_iff.mp (by decide),
      contains_eq_false_iff.mp (by decide), .inr (by decide), .inl (by decide)⟩

def twoHosts : Request where
  rawRequest := bytes "GET / HTTP/1.1\r\nHost: a\r\nHost: b\r\n\r\n"
  method := bytes "GET"
  uri := bytes "/"
  version := bytes "HTTP/1.1"
  headers := [(bytes "Host", bytes "a"), (bytes "Host", bytes "b")]

theorem not_headersRewritten : ¬ ∀ raw r, Request.parse raw = some r →
    ∀ uri host port, HeadersRewritten r uri host port := by
  intro rewritten
  have parsed : Request.parse twoHosts.rawRequest = some twoHosts := by decide
  obtain ⟨lines, text, once, -⟩ := rewritten _ _ parsed (bytes "/") (bytes "up") (bytes "80")
  have twice : (crlfLines (makeRequest twoHosts (bytes "/") (bytes "up") (bytes "80"))).count
      (bytes "Host: up:80") = 2 := by decide
  have single : lines.count (bytes "Host: up:80") = 1 := by
    have own : named (bytes "Host") (bytes "Host: up:80") = true := by decide
    rw [← List.count_filter own, once]
    decide
  have first : (twoHosts.method ++ bytes " " ++ bytes "/" ++ bytes " " ++ twoHosts.version) ≠
      bytes "Host: up:80" := by decide
  have rest : ([] :: crlfLines twoHosts.body).count (bytes "Host: up:80") = 0 := by decide
  rw [text, List.count_cons_of_ne first, List.count_append, single, rest] at twice
  cases twice

end TscServer.Proof
