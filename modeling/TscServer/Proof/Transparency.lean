import TscServer.Proof.Calls

/-!
# What the proxy hands over

A request that is not in the cache is answered with the response of the upstream, put together
again from its parts. `handsOver_iff` says when the parts give the same bytes.
-/

namespace TscServer.Proof
open Lib Model Spec ProxyHandler

section Uncached
variable {env : Environment} {handler : ProxyHandler} {s : ProxyState} {request : Request}

def LoopHands (env : Environment) (request : Request) (requestUri host port uri : Bytes)
    (s : ProxyState) (raw : Bytes) : Prop :=
  ∃ fuel response s', (exchangeLoop env request requestUri fuel host port uri).run s =
    .done (.ok, response) s' ∧ response.rawResponse = raw

def HandsOver (env : Environment) (handler : ProxyHandler) (request : Request) (response : Response)
    (s : ProxyState) (raw : Bytes) : Prop :=
  ∃ fuel response' s', (handleRequest env handler fuel request response).run s =
    .done (.ok, response') s' ∧ response'.rawResponse = raw

theorem handsOver_iff_loopHands (absent : Uncached handler s request) {response : Response}
    {raw : Bytes} : HandsOver env handler request response s raw ↔
      LoopHands env request (stripPrefix handler.uriPrefix request.uri) handler.serverHost
        handler.serverPort (stripPrefix handler.uriPrefix request.uri) s raw := by
  constructor
  · rintro ⟨fuel, response', s', ran, rfl⟩
    cases fuel with
    | zero => cases ran
    | succ fuel => exact ⟨_, response', s', handleRequest_uncached absent _ _ ▸ ran, rfl⟩
  · rintro ⟨fuel, response', s', ran, rfl⟩
    cases fuel with
    | zero => cases ran
    | succ fuel => exact ⟨fuel + 1, response', s', by rwa [handleRequest_uncached absent], rfl⟩

end Uncached

theorem length_flatMap_crlf (lines : List Bytes) :
    (lines.flatMap (· ++ crlf)).length = (lines.flatMap (· ++ [10])).length + lines.length := by
  induction lines with
  | nil => rfl
  | cons line lines ih =>
      have two : crlf.length = 2 := rfl
      simp only [List.flatMap_cons, List.length_append, List.length_cons, ih, two, List.length_nil]
      omega

theorem lines_eq_nil_of_raw {m : UpstreamResponse}
    (raw : m.status.toBytes ++ crlf ++ m.lines.flatMap (· ++ [10]) ++ crlf ++ m.body = m.toBytes) :
    m.lines = [] := by
  have lengths := congrArg List.length raw
  simp only [UpstreamResponse.toBytes, List.length_append, length_flatMap_crlf] at lengths
  apply List.eq_nil_of_length_eq_zero
  omega

section Iff
variable {env : Environment} {handler : ProxyHandler} {s : ProxyState} {request : Request}
  {response : Response} {m : UpstreamResponse} {chunks : List Bytes}
  {requestUri host port uri : Bytes}

theorem final_of_text {eof : Bool} (wf : m.WellFormed) (final : m.status.code ≠ 302)
    (text : chunks.flatten = m.toBytes) : Final (.stream chunks eof) := by
  intro d arrived
  rw [toBytes_eq_block m] at text
  by_cases blank : crlfcrlf <:+: block m.rawLines ++ crlf ++ m.body
  · obtain ⟨d', arrived', -, code, -⟩ := delivery_text wf.status text blank eof
    rwa [delivered_unique arrived arrived', code]
  · cases (delivery_failed wf.status text blank eof).symm.trans arrived

/-- Only a response without header lines comes out as it was, and only if both reads end. -/
theorem parts_of_delivered (wf : m.WellFormed) (final : m.status.code ≠ 302)
    (text : chunks.flatten = m.toBytes) {d : Delivered}
    (arrived : delivery (.stream chunks true) = .response d) (raw : d.raw = m.toBytes) :
    m.lines = [] ∧ crlfcrlf <:+: crlf ++ m.body := by
  rw [toBytes_eq_block m] at text
  obtain ⟨rawLines, rawBody⟩ := headLines_message wf final
  by_cases blank : crlfcrlf <:+: block m.rawLines ++ crlf ++ m.body
  · obtain ⟨d', arrived', line, code, -, lines, body⟩ := delivery_text wf.status text blank true
    obtain rfl := delivered_unique arrived arrived'
    rw [Delivered.raw, line, lines, rawLines, rawLines_dropLast, body, rawBody] at raw
    have noLines := lines_eq_nil_of_raw raw
    refine ⟨noLines, ?_⟩
    simpa [UpstreamResponse.rawLines, noLines, block] using blank
  · cases (delivery_failed wf.status text blank true).symm.trans arrived

theorem delivered_of_parts (wf : m.WellFormed) (final : m.status.code ≠ 302)
    (text : chunks.flatten = m.toBytes) (noLines : m.lines = [])
    (blank : crlfcrlf <:+: crlf ++ m.body) :
    ∃ d, delivery (.stream chunks true) = .response d ∧ d.code ≠ 302 ∧ d.eof = true ∧
      d.lines = [] ∧ d.raw = m.toBytes := by
  have noRaw : m.rawLines = [] := by rw [UpstreamResponse.rawLines, noLines, List.map_nil]
  obtain ⟨rawLines, rawBody⟩ := headLines_message wf final
  rw [toBytes_eq_block m] at text
  obtain ⟨d, arrived, line, code, complete, lines, body⟩ :=
    delivery_text wf.status text (by simpa [noRaw, block] using blank) true
  rw [rawLines, noRaw] at lines
  refine ⟨d, arrived, by rwa [code], complete, lines, ?_⟩
  rw [Delivered.raw, line, lines, body, rawBody, UpstreamResponse.toBytes, noLines]
  rfl

theorem loopHands_iff {redirects : List Answer} (wf : m.WellFormed) (final : m.status.code ≠ 302)
    (text : chunks.flatten = m.toBytes) (all : ∀ answer ∈ redirects, Redirects answer)
    (script : Scripted env s.contacts.length (redirects ++ [.stream chunks true])) :
    LoopHands env request requestUri host port uri s m.toBytes ↔
      m.lines = [] ∧ crlfcrlf <:+: crlf ++ m.body := by
  have last : Final (.stream chunks true) := final_of_text wf final text
  constructor
  · rintro ⟨fuel, response, s', ran, raw⟩
    have done := Proc.wp_done (exchangeLoop_wp fuel) ran
    obtain ⟨mid, outs, out, -, -, done⟩ := loopDone_script all last script done
    obtain ⟨d, arrived, -, -, rfl⟩ := roundDone_ok done
    exact parts_of_delivered wf final text arrived raw
  · rintro ⟨noLines, blank⟩
    obtain ⟨d, arrived, code, complete, lines, raw⟩ := delivered_of_parts wf final text noLines blank
    have at_last out : Final (env.upstream (s.contacts.length + redirects.length) out) := by
      rwa [script redirects.length (.stream chunks true) (by simp) out]
    have returns : (exchangeLoop env request requestUri (redirects.length + 1) host port uri).twp
        (fun result _ => result = (.ok, Response.setRawResponse {} d.raw)) (fun _ _ => False) s := by
      apply Proc.twp_of_wp (exchangeLoop_returns at_last (Nat.lt_succ_self _))
      apply Proc.wp_mono (exchangeLoop_wp _)
      · intro result s' done
        obtain ⟨mid, outs, out, -, -, round⟩ := loopDone_script all last script done
        obtain ⟨-, same, -⟩ := roundDone_delivered arrived round
        rw [Delivered.round, if_neg code, complete] at same
        obtain ⟨status, response⟩ := Round.finished.inj same
        exact Prod.ext status response
      · intro f s' threw
        obtain ⟨mid, outs, out, -, round⟩ := loopThrew_script all last script threw
        rcases roundThrew_delivered arrived round with ⟨-, ⟨line, mem, -⟩, -⟩ | ⟨-, -, caches, -⟩
        · simp [lines] at mem
        · simp [Caches, lines] at caches
    obtain ⟨_, s', ran, rfl⟩ := Proc.done_of_twp returns
    exact ⟨_, _, s', ran, raw⟩

-- the redirects as a list
theorem exists_script {n redirects : Nat} {last : Answer}
    (before : ∀ i < redirects, ∃ answer, Redirects answer ∧ ∀ out, env.upstream (n + i) out = answer)
    (answers : ∀ out, env.upstream (n + redirects) out = last) :
    ∃ script : List Answer, (∀ answer ∈ script, Redirects answer) ∧
      Scripted env n (script ++ [last]) := by
  have : Nonempty Answer := ⟨last⟩
  choose! answer isRedirect same using before
  refine ⟨(List.range redirects).map answer, ?_, fun i answer' here out => ?_⟩
  · intro answer' mem
    obtain ⟨i, less, rfl⟩ := List.mem_map.mp mem
    exact isRedirect i (List.mem_range.mp less)
  · rcases Nat.lt_trichotomy i redirects with less | rfl | more
    · rw [List.getElem?_append_left (by simpa using less)] at here
      simp only [List.getElem?_map, List.getElem?_range less, Option.map_some,
        Option.some.injEq] at here
      rw [← here]
      exact same i less out
    · simp only [List.getElem?_append, List.length_map, List.length_range, Nat.lt_irrefl,
        if_false, Nat.sub_self, List.getElem?_cons_zero, Option.some.injEq] at here
      rw [← here]
      exact answers out
    · rw [List.getElem?_eq_none (by simpa using Nat.succ_le_of_lt more)] at here
      cases here

/-- Taking a response apart and putting it together again keeps its bytes exactly when it has no
header line and, so that the second read ends, another blank line follows the first. The response
may come after any number of redirects. -/
theorem handsOver_iff {redirects : Nat} (wf : m.WellFormed) (final : m.status.code ≠ 302)
    (text : chunks.flatten = m.toBytes) (absent : Uncached handler s request)
    (before : ∀ i < redirects, ∃ answer, Redirects answer ∧
      ∀ out, env.upstream (s.contacts.length + i) out = answer)
    (answers : ∀ out, env.upstream (s.contacts.length + redirects) out = .stream chunks true) :
    HandsOver env handler request response s m.toBytes ↔
      m.lines = [] ∧ crlfcrlf <:+: crlf ++ m.body := by
  obtain ⟨script, all, scripted⟩ := exists_script before answers
  rw [handsOver_iff_loopHands absent]
  exact loopHands_iff wf final text all scripted

end Iff

/-! ## A response without header lines, and one with -/

-- answers in the order of the contacts, and a clock that counts
def scripted (answers : List Answer) : Environment where
  upstream k _ := (answers[k]?).getD (.error (bytes "connect"))
  clock k := k
  date _ := bytes "Thu, 01, Jan, 1970, 00:00:00 GMT"
  date_oneLine _ := by decide
  cacheDir := [.name (bytes "proxy_cache")]

theorem scripted_scripted (answers : List Answer) : Scripted (scripted answers) 0 answers := by
  intro i answer here out
  simp [scripted, here]

def responseOf : Delivery → Option Delivered
  | .response d => some d
  | _ => none

theorem delivery_eq {delivered : Delivery} {d : Delivered} (same : responseOf delivered = some d) :
    delivered = .response d := by
  cases delivered with
  | failed => cases same
  | indeterminate => cases same
  | response d' => rw [Option.some.inj same]

def emptyDisk : FileTree Bytes Bytes := fun location =>
  if location = [] ∨ location = [bytes "proxy_cache"] then some .dir else none

-- a response that may be kept for so many seconds
def agedAnswer (maxAge : Bytes) : Answer :=
  .stream [bytes "HTTP/1.1 200 OK\r\nCache-Control: max-age=" ++ maxAge ++ bytes "\r\n\r\na"] true

def demoProxy : ProxyHandler where
  uriPrefix := bytes "/proxy1"
  serverHost := bytes "a"
  serverPort := bytes "80"

def getProxy (uri : Bytes) : Request where
  method := bytes "GET"
  uri := uri
  version := bytes "HTTP/1.1"

def okStatus : StatusText := { version := bytes "HTTP/1.1", code := 200, reason := bytes " OK" }

theorem wellFormed_okStatus : okStatus.WellFormed where
  version_ne_nil := by decide
  version_bytes := by decide +kernel
  code_range := by decide
  reason_head := by decide +kernel
  reason_bytes := by decide +kernel

theorem uncached_empty (handler : ProxyHandler) (request : Request) (files : FileTree Bytes Bytes) :
    Uncached handler { files } request := AList.lookup_empty _

theorem handsOver_no_lines : HandsOver (scripted [.stream [bytes "HTTP/1.1 200 OK\r\n\r\n\r\na"] true])
    demoProxy (getProxy (bytes "/proxy1/x")) {} { files := emptyDisk }
    (bytes "HTTP/1.1 200 OK\r\n\r\n\r\na") := by
  have wf : (UpstreamResponse.mk okStatus [] (bytes "\r\na")).WellFormed :=
    ⟨wellFormed_okStatus, by simp, by simp⟩
  exact (handsOver_iff wf (by decide) (by decide) (uncached_empty _ _ _)
    (fun i none => absurd none (Nat.not_lt_zero i)) (fun _ => rfl)).mpr ⟨rfl, by decide⟩

theorem header_line_not_handed_over : ¬ ∀ (m : UpstreamResponse) (chunks : List Bytes),
    m.WellFormed → m.status.code ≠ 302 → chunks.flatten = m.toBytes →
    HandsOver (scripted [.stream chunks true]) demoProxy (getProxy (bytes "/proxy1/x")) {}
      { files := emptyDisk } m.toBytes := by
  intro claim
  have wf : (UpstreamResponse.mk okStatus [bytes "A: b"] []).WellFormed :=
    ⟨wellFormed_okStatus, by decide, by decide +kernel⟩
  have hands := claim _ [(UpstreamResponse.mk okStatus [bytes "A: b"] []).toBytes] wf (by decide)
    (by simp)
  rw [handsOver_iff_loopHands (uncached_empty _ _ _)] at hands
  have noRedirects : ∀ answer ∈ ([] : List Answer), Redirects answer := by simp
  have parts := (loopHands_iff wf (by decide) (by simp) noRedirects (scripted_scripted _)).mp hands
  exact absurd parts.1 (by simp)

end TscServer.Proof
