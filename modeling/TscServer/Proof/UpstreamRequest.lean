import TscServer.Lib.CrlfLines
import TscServer.Model.ProxyExchange
import TscServer.Proof.RequestImage

/-!
# The lines of the request to an upstream

What `Request::Parse` lets into a request has no line ends, so `MakeRequest` puts exactly one line for
each header between the request line and the first blank line, and the body behind it.
-/

namespace TscServer.Proof
open Lib Model Spec ProxyHandler

theorem oneLine_of_notLineEnd {s : Bytes} (all : ∀ c ∈ s, notLineEnd c = true) : OneLine s := by
  intro c mem
  have here := all c mem
  simpa [notLineEnd] using here

theorem oneLine_of_notSpace {s : Bytes} (all : ∀ c ∈ s, notSpace c = true) : OneLine s :=
  oneLine_of_notLineEnd fun c mem => notLineEnd_of_notSpace (all c mem)

theorem makeRequest_eq (r : Request) (uri host port : Bytes) :
    makeRequest r uri host port =
      crlf.intercalate (upstreamLines r uri host port) ++ crlfcrlf ++ r.body := by
  have forwarded : (fun header : Bytes × Bytes =>
      if header.1 = bytes "Host" then bytes "Host: " ++ host ++ bytes ":" ++ port ++ crlf
      else if header.1 = bytes "Connection" then bytes "Connection: close" ++ crlf
      else header.1 ++ bytes ": " ++ header.2 ++ crlf) =
        fun header => forwardedLine host port header ++ crlf := by
    funext header
    unfold forwardedLine
    split
    · rfl
    · split <;> rfl
  have text : crlf.intercalate (upstreamLines r uri host port) ++ crlfcrlf =
      (upstreamLines r uri host port).flatMap (· ++ crlf) ++ crlf := by
    rw [flatMap_crlf (by simp [upstreamLines]), List.append_assoc]
    rfl
  rw [text, makeRequest]
  simp only [forwarded, upstreamLines, addedLines]
  split <;> split <;> simp [hostLine, closeLine, List.flatMap_map]

theorem upstreamLines_oneLine {r : Request} (image : Parsed r) {uri host port : Bytes}
    (uriSolid : ∀ c ∈ uri, notSpace c = true) (hostOne : OneLine host) (portOne : OneLine port) :
    ∀ line ∈ upstreamLines r uri host port, line ≠ [] ∧ OneLine line := by
  have text {s : String} (plain : (bytes s).all notLineEnd = true) : OneLine (bytes s) :=
    oneLine_of_notLineEnd (List.all_eq_true.mp plain)
  have hostLine_one : OneLine (hostLine host port) :=
    (((text (by decide)).append hostOne).append (text (by decide))).append portOne
  have closeLine_one : OneLine closeLine := text (by decide)
  have hostLine_ne : hostLine host port ≠ [] := by simp [hostLine, bytes]
  have closeLine_ne : closeLine ≠ [] := by simp [closeLine, bytes]
  have space : OneLine (bytes " ") := text (by decide)
  intro line mem
  rcases List.mem_cons.mp mem with rfl | mem
  · have method : OneLine r.method := oneLine_of_notSpace fun c mem => (image.method_bytes c mem).1
    have version : OneLine r.version :=
      oneLine_of_notSpace fun c mem => (isVersion_bytes image.version_form c mem).1
    refine ⟨by simp [bytes], ?_⟩
    exact (((method.append space).append (oneLine_of_notSpace uriSolid)).append space).append version
  · rcases List.mem_append.mp mem with mem | mem
    · obtain ⟨header, here, rfl⟩ := List.mem_map.mp mem
      have parsed := image.headers_parsed header here
      unfold forwardedLine
      split
      · exact ⟨hostLine_ne, hostLine_one⟩
      · split
        · exact ⟨closeLine_ne, closeLine_one⟩
        · have name : OneLine header.1 := oneLine_of_notSpace fun c mem => (parsed.name_bytes c mem).1
          have value : OneLine header.2 :=
            oneLine_of_notLineEnd fun c mem => (parsed.value_bytes c mem).1
          refine ⟨by simp [bytes], ?_⟩
          exact (name.append (text (by decide))).append value
    · rcases List.mem_append.mp mem with mem | mem
      · split at mem
        · cases mem
        · obtain rfl := List.mem_singleton.mp mem
          exact ⟨hostLine_ne, hostLine_one⟩
      · split at mem
        · cases mem
        · obtain rfl := List.mem_singleton.mp mem
          exact ⟨closeLine_ne, closeLine_one⟩

theorem foldl_appendBody (left : List Bytes) (r : Request) :
    left.foldl Request.appendBody r =
      { r with body := r.body ++ left.flatten, rawRequest := r.rawRequest ++ left.flatten } := by
  induction left generalizing r with
  | nil => simp
  | cons bytes left ih => simp [ih, Request.appendBody]

/-- No header injection: whatever was parsed, the head that the upstream reads has one line for the
request line and one for each header, and the rest is the body. -/
theorem upstream_request_lines {s : Bytes} {r : Request} (parsed : Request.parse s = some r)
    (left : List Bytes) {uri host port : Bytes} (uriSolid : ∀ c ∈ uri, notSpace c = true)
    (hostOne : OneLine host) (portOne : OneLine port) :
    ∃ head, cutHead (makeRequest (left.foldl Request.appendBody r) uri host port) =
        some (head, r.body ++ left.flatten) ∧
      crlfLines head = upstreamLines r uri host port := by
  have lines := upstreamLines_oneLine (parse_image parsed) uriSolid hostOne portOne
  have nonempty : upstreamLines r uri host port ≠ [] := by simp [upstreamLines]
  refine ⟨crlf.intercalate (upstreamLines r uri host port), ?_, ?_⟩
  · rw [foldl_appendBody, makeRequest_eq]
    exact cutHead_intercalate nonempty lines _
  · exact crlfLines_intercalate nonempty fun line mem => (lines line mem).2.noCrlf

def postedRequest : Request where
  rawRequest := bytes "POST /p/x HTTP/1.1\r\nHost: h\r\nA :b\r\n\r\na"
  method := bytes "POST"
  uri := bytes "/p/x"
  version := bytes "HTTP/1.1"
  headers := [(bytes "Host", bytes "h"), (bytes "A", bytes "b")]
  body := bytes "a"

theorem upstream_request_lines_post :
    ∃ head, cutHead (makeRequest ([bytes "b\r\n\r\nc"].foldl Request.appendBody postedRequest)
        (bytes "/x") (bytes "up") (bytes "80")) =
        some (head, postedRequest.body ++ [bytes "b\r\n\r\nc"].flatten) ∧
      crlfLines head = upstreamLines postedRequest (bytes "/x") (bytes "up") (bytes "80") := by
  have parsed : Request.parse postedRequest.rawRequest = some postedRequest := by decide
  exact upstream_request_lines parsed _ (by decide +kernel) (by decide) (by decide)

end TscServer.Proof
