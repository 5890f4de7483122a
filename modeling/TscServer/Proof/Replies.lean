import TscServer.Proof.Framing
import TscServer.Proof.SentResponses
import TscServer.Spec.Replies

/-!
# Replies and the requests before them

Between two messages a connection keeps nothing but the last request that parsed. A message that parses
replaces it; the error page of one that does not is still compressed as that request asks.
-/

namespace TscServer.Proof
open Lib Model Spec Connection

/-! ## The error page -/

section ErrorPage
variable (compression : Compression) {request : Request}

theorem compressPayload_plain (plain : ¬ AsksCoding request) (response : Response) :
    compressPayload compression request response = response := by
  obtain ⟨noGzip, noDeflate⟩ := not_or.mp plain
  simp only [compressPayload]
  rw [if_neg noGzip, if_neg noDeflate, ite_self]

theorem compressPayload_coded (asks : AsksCoding request) (response : Response) :
    ∃ encoding compressed, compressPayload compression request response =
      ((response.addHeader (bytes "Content-Encoding") encoding).setBody compressed).addHeader
        (bytes "Content-Length") (toDecimal compressed.length) := by
  have given : request.getHeaderValueByName (bytes "Accept-Encoding") ≠ [] := by
    intro none_
    rw [AsksCoding, none_] at asks
    exact absurd asks (by decide)
  simp only [compressPayload]
  rw [if_neg given]
  by_cases gzip : bytes "gzip" ∈ ((request.getHeaderValueByName (bytes "Accept-Encoding")).filter
      (· != 32)).splitOn 44
  · rw [if_pos gzip]
    exact ⟨_, _, rfl⟩
  · rw [if_neg gzip, if_pos (asks.resolve_left gzip)]
    exact ⟨_, _, rfl⟩

theorem not_asksCoding_empty : ¬ AsksCoding {} := by
  unfold AsksCoding
  decide

def errorPage : Response := (ErrorHandler.handleRequest (Response.setStatus {} .badRequest)).2

def keptAlive : Response := errorPage.addHeader (bytes "Connection") (bytes "keep-alive")

theorem page_errorPage : Page errorPage := page_errorHandler (bare_empty.setStatus _)

theorem headers_keptAlive : keptAlive.headers =
    [(bytes "Content-Length", toDecimal errorPage.body.length), (bytes "Content-Type", bytes "text/html"),
      (bytes "Connection", bytes "keep-alive")] := by decide

theorem sent_errorPage (alive : asksClose request = false) :
    sent compression request errorPage = compressPayload compression request keptAlive := by
  have notImage : keptAlive.isImage = false := by decide
  rw [sent, alive]
  show (if keptAlive.isImage = true then keptAlive else _) = _
  rw [notImage]
  rfl

theorem sent_errorPage_iff (alive : asksClose request = false) :
    (sent compression request errorPage).toBytes = (sent compression {} errorPage).toBytes ↔
      ¬ AsksCoding request := by
  have fresh : sent compression {} errorPage = keptAlive := by
    rw [sent_errorPage compression (by decide), compressPayload_plain compression not_asksCoding_empty]
  constructor
  · intro same asks
    obtain ⟨encoding, compressed, coded⟩ := compressPayload_coded compression asks keptAlive
    have page : SentPage request errorPage (sent compression request errorPage) :=
      sentPage compression page_errorPage
    have freshPage : SentPage {} errorPage (sent compression {} errorPage) :=
      sentPage compression page_errorPage
    have heads := congrArg (fun data => (messageHead data).length) same
    simp only [page.head, freshPage.head, List.length_cons, List.length_map] at heads
    rw [sent_errorPage compression alive, coded, encoded_headers headers_keptAlive, fresh,
      headers_keptAlive] at heads
    simp at heads
  · intro plain
    rw [fresh, sent_errorPage compression alive, compressPayload_plain compression plain]

end ErrorPage

/-! ## One message -/

section Message
variable {ω : Type} {handlers : Handlers ω} (compression : Compression)

structure Ready (s : Session ω) : Prop extends Idle s where
  response : s.conn.response = {}
  closed : s.conn.closed = false
  alive : asksClose s.conn.request = false

theorem processRequest_answers (byRequest : AnswersByRequest handlers) {request : Request}
    (rooted : Rooted request.uri) : ∃ b response, ∀ c : Connection ω, c.response = {} → ∃ globals,
      (processRequest handlers request).run c =
        .done b { c with processed := c.processed ++ [request], response, globals } := by
  obtain ⟨route, routes⟩ := routed_isSome handlers rooted
  cases route with
  | none =>
      refine ⟨false, Response.setStatus {} .badRequest, ?_⟩
      intro c empty
      exact ⟨c.globals, empty ▸ run_processRequest_unrouted routes c⟩
  | some handler =>
      obtain ⟨key, found⟩ := find_of_routed handlers routes
      obtain ⟨answer, answers⟩ := byRequest.answers key handler found
      refine ⟨(answer request).1 == .ok, (answer request).2, ?_⟩
      intro c empty
      obtain ⟨globals, called⟩ := answers request c.globals
      refine ⟨globals, ?_⟩
      rw [run_processRequest_handled routes, empty, called]

theorem run_handleError_page (byRequest : AnswersByRequest handlers) (c : Connection ω) :
    ∃ globals, (handleError handlers).run c =
      .done () { c with response := (ErrorHandler.handleRequest c.response).2, globals } := by
  obtain ⟨globals, called⟩ := byRequest.errorHandler c.request c.response c.globals
  refine ⟨globals, ?_⟩
  simp only [handleError, Proc.run_get_bind, run_runHandler_bind, called]
  rfl

theorem run_doWrite (c : Connection ω) : ∃ globals, (doWrite compression).run c =
    .done () { c with
      response := sent compression c.request c.response, globals
      started := c.started ++ [.write (sent compression c.request c.response).toBytes] } :=
  ⟨_, rfl⟩

theorem respond_answers (byRequest : AnswersByRequest handlers) {request : Request}
    (rooted : Rooted request.uri) : ∃ response, ∀ c : Connection ω, c.response = {} →
      c.request = request → ∃ processed globals, (respond handlers compression request).run c =
        .done true { c with
          processed, response, globals, started := c.started ++ [.write response.toBytes] } := by
  obtain ⟨b, answer, routed⟩ := processRequest_answers byRequest rooted
  cases b with
  | true =>
      refine ⟨sent compression request answer, ?_⟩
      intro c empty same
      obtain ⟨globals, called⟩ := routed c empty
      refine ⟨c.processed ++ [request], ?_⟩
      obtain ⟨globals', written⟩ := run_doWrite compression
        { c with processed := c.processed ++ [request], response := answer, globals }
      refine ⟨globals', ?_⟩
      rw [run_respond_handled handlers compression called, Proc.run_bind_of_done written]
      dsimp only
      rw [same]
      rfl
  | false =>
      refine ⟨sent compression request (ErrorHandler.handleRequest answer).2, ?_⟩
      intro c empty same
      obtain ⟨globals, called⟩ := routed c empty
      refine ⟨c.processed ++ [request], ?_⟩
      obtain ⟨globals', erred⟩ := run_handleError_page byRequest
        { c with processed := c.processed ++ [request], response := answer, globals }
      obtain ⟨globals'', written⟩ := run_doWrite compression
        { c with
          processed := c.processed ++ [request], response := (ErrorHandler.handleRequest answer).2
          globals := globals' }
      refine ⟨globals'', ?_⟩
      rw [run_respond_failed handlers compression called, Proc.run_bind_of_done erred,
        Proc.run_bind_of_done written]
      dsimp only
      rw [same]
      rfl

theorem run_handleReadPartial_none (byRequest : AnswersByRequest handlers) {c : Connection ω}
    (empty : c.response = {}) (invalid : Request.parse c.buffer = none) :
    ∃ globals, (handleReadPartial handlers compression .success).run c =
      .done true { c with
        buffer := [], rawRequest := c.buffer, globals
        response := sent compression c.request errorPage
        started := c.started ++ [.write (sent compression c.request errorPage).toBytes] } := by
  obtain ⟨globals, erred⟩ := run_handleError_page byRequest
    { c with buffer := [], rawRequest := c.buffer, response := c.response.setStatus .badRequest }
  obtain ⟨globals', written⟩ := run_doWrite compression
    { c with buffer := [], rawRequest := c.buffer, response := errorPage, globals }
  refine ⟨globals', ?_⟩
  simp only [handleReadPartial, run_consumeBuffer_bind, Proc.run_modify_bind, invalid]
  rw [Proc.run_bind_of_done erred]
  dsimp only
  rw [empty]
  exact Proc.run_bind_of_done written

/-! ## One reply -/

section Session
variable {compression}

theorem reply_of_answered {s t : Session ω} {data : Bytes}
    (served : answered handlers compression s = some t) (pending : t.pending = some (.write data))
    (isOpen : t.conn.closed = false) :
    reply handlers compression s = some { data, closes := asksClose t.conn.request } := by
  obtain ⟨after, stepped, -, follows⟩ := step_written handlers compression pending
  have closes : after.conn.closed = asksClose t.conn.request := by
    cases asks : asksClose t.conn.request with
    | true =>
        rw [if_pos asks] at follows
        rw [follows.2]
    | false =>
        rw [if_neg (by simp [asks])] at follows
        rw [follows.2]
        exact isOpen
  rw [reply, served, Option.bind_some, pending]
  dsimp only
  rw [stepped, Option.map_some, closes]

theorem answered_of_written {s t : Session ω} {data : Bytes}
    (stepped : Session.step handlers compression s = some t) (pending : t.pending = some (.write data)) :
    answered handlers compression s = some t := by
  rw [answered, stepped, Option.bind_some, pending]

theorem reply_malformed (byRequest : AnswersByRequest handlers) {chunks rest : List Bytes} {message : Bytes}
    (read : readUntil crlfcrlf chunks [] = some (message, rest)) (invalid : Request.parse message = none)
    {s : Session ω} (ready : Ready s) (same : s.chunks = chunks) :
    reply handlers compression s =
      some { data := (sent compression s.conn.request errorPage).toBytes, closes := false } := by
  obtain ⟨globals, ran⟩ := run_handleReadPartial_none compression byRequest
    (c := { s.conn with buffer := message, started := [] }) ready.response invalid
  have stepped := (step_reads ready.toIdle (same ▸ read)).trans (complete_of_done ran rest)
  rw [reply_of_answered (answered_of_written stepped rfl) rfl ready.closed]
  exact congrArg (fun closes => some (Observed.mk _ closes)) ready.alive

variable (handlers compression) in
theorem run_handleReadBody (c : Connection ω) :
    (handleReadBody handlers compression .success).run c =
      (respond handlers compression (c.request.appendBody c.buffer)).run
        { c with buffer := [], request := c.request.appendBody c.buffer } := rfl

variable (compression) in
/-- While a connection waits for the rest of a body it has all that the reply depends on. -/
theorem reply_of_readBody (byRequest : AnswersByRequest handlers) {request : Request}
    (rooted : Rooted request.uri) (chunks : List Bytes) (n : Nat) :
    ∃ answer, ∀ s t : Session ω, Session.step handlers compression s = some t →
      t.pending = some (.readBody n) → t.chunks = chunks → t.conn.request = request →
      t.conn.buffer = [] → t.conn.response = {} → t.conn.closed = false →
      reply handlers compression s = answer := by
  have waits {s t : Session ω} (stepped : Session.step handlers compression s = some t)
      (pending : t.pending = some (.readBody n)) (same : t.chunks = chunks) (buffer : t.conn.buffer = []) :
      answered handlers compression s = (readExactly chunks n).bind fun read =>
        Session.complete (handleReadBody handlers compression .success) { t.conn with buffer := read.1 }
          read.2 := by
    rw [answered, stepped, Option.bind_some, pending]
    dsimp only
    rw [Session.step, pending]
    dsimp only
    rw [same, buffer]
    rfl
  cases body : readExactly chunks n with
  | none =>
      refine ⟨none, ?_⟩
      intro s t stepped pending same _ buffer _ _
      rw [reply, waits stepped pending same buffer, body]
      rfl
  | some read =>
      obtain ⟨data, rest⟩ := read
      have rooted : Rooted (request.appendBody data).uri := rooted
      obtain ⟨response, responds⟩ := respond_answers compression byRequest rooted
      refine ⟨some { data := response.toBytes, closes := asksClose (request.appendBody data) }, ?_⟩
      intro s t stepped pending same here buffer empty isOpen
      obtain ⟨processed, globals, ran⟩ := responds
        { t.conn with buffer := [], request := request.appendBody data, started := [] } empty rfl
      have handled := run_handleReadBody handlers compression
        { t.conn with buffer := data, started := [] }
      rw [here] at handled
      have served := waits stepped pending same buffer
      rw [body, Option.bind_some] at served
      have completed := complete_of_done (c := { t.conn with buffer := data }) (handled.trans ran) rest
      exact reply_of_answered (served.trans completed) rfl isOpen

theorem reply_parsed (byRequest : AnswersByRequest handlers) {chunks rest : List Bytes} {message : Bytes}
    {request : Request} (read : readUntil crlfcrlf chunks [] = some (message, rest))
    (parsed : Request.parse message = some request) :
    ∃ answer, ∀ s : Session ω, Ready s → s.chunks = chunks → reply handlers compression s = answer := by
  have rooted : Rooted request.uri := .inr (parse_image parsed).uri_slash
  cases length : contentLength request with
  | none =>
      refine ⟨none, ?_⟩
      intro s ready same
      rw [reply, answered, step_throws ready.toIdle (same ▸ read) parsed length]
      rfl
  | some n =>
      by_cases more : request.body.length < n
      · obtain ⟨answer, answers⟩ := reply_of_readBody compression byRequest rooted rest
          (n - request.body.length)
        refine ⟨answer, ?_⟩
        intro s ready same
        have stepped := step_asksBody handlers compression ready.toIdle (same ▸ read) parsed length more
        exact answers s _ stepped rfl rfl rfl rfl ready.response ready.closed
      · obtain ⟨response, responds⟩ := respond_answers compression byRequest rooted
        refine ⟨some { data := response.toBytes, closes := asksClose request }, ?_⟩
        intro s ready same
        obtain ⟨processed, globals, ran⟩ := responds
          { s.conn with buffer := [], rawRequest := message, request, started := [] } ready.response rfl
        have stepped := step_responds ready.toIdle (same ▸ read) parsed length more ran
        exact reply_of_answered (answered_of_written stepped rfl) rfl ready.closed

/-- In a session that is ready the next reply is that of a new connection, exactly when the request before
it leaves no mark on it. -/
theorem reply_iff_unmarked (byRequest : AnswersByRequest handlers) {s t : Session ω} (ready : Ready s)
    (fresh : Ready t) (same : s.chunks = t.chunks) (empty : t.conn.request = {}) :
    reply handlers compression s = reply handlers compression t ↔ Unmarked s.conn.request t.chunks := by
  cases read : readUntil crlfcrlf t.chunks [] with
  | none =>
      have waits {u : Session ω} (ready : Ready u) (same : u.chunks = t.chunks) :
          reply handlers compression u = none := by
        rw [reply, answered, step_waits ready.toIdle (same ▸ read)]
        rfl
      rw [waits ready same, waits fresh rfl, Unmarked, read]
      simp
  | some arrived =>
      obtain ⟨message, rest⟩ := arrived
      rw [Unmarked, read]
      simp only [Option.some.injEq, Prod.mk.injEq, and_imp, forall_apply_eq_imp_iff]
      cases parsed : Request.parse message with
      | some request =>
          obtain ⟨answer, answers⟩ := reply_parsed byRequest read parsed
          rw [answers s ready same, answers t fresh rfl]
          simp [parsed]
      | none =>
          rw [reply_malformed byRequest read parsed ready same, reply_malformed byRequest read parsed fresh rfl,
            empty]
          simpa [parsed] using sent_errorPage_iff compression ready.alive

end Session
end Message

/-! ## Histories -/

section History
variable {ω : Type} {handlers : Handlers ω} {compression : Compression}

/-- The response is empty unless it is being written, and reading goes on only after a request that
keeps the connection alive. -/
structure Orderly (s : Session ω) : Prop where
  buffer : s.conn.buffer = []
  rooted : Rooted s.conn.request.uri
  isOpen : ∀ op ∈ s.pending, s.conn.closed = false
  response : ∀ op ∈ s.pending, (∀ data, op ≠ .write data) → s.conn.response = {}
  alive : .readPartial ∈ s.pending → asksClose s.conn.request = false

theorem Orderly.ready {s : Session ω} (orderly : Orderly s) (pending : s.pending = some .readPartial) :
    Ready s where
  pending := pending
  buffer := orderly.buffer
  response := orderly.response _ pending (by simp)
  closed := orderly.isOpen _ pending
  alive := orderly.alive pending

theorem orderly_start (globals : Globals ω) (chunks : List Bytes) :
    Orderly (Session.start globals chunks) where
  buffer := rfl
  rooted := .inl rfl
  isOpen _ _ := rfl
  response _ _ _ := rfl
  alive _ := by
    show asksClose {} = false
    decide

theorem orderly_of_writing {s : Session ω} {data : Bytes} (pending : s.pending = some (.write data))
    (buffer : s.conn.buffer = []) (rooted : Rooted s.conn.request.uri) (isOpen : s.conn.closed = false) :
    Orderly s where
  buffer := buffer
  rooted := rooted
  isOpen _ _ := isOpen
  response op mem reads := by
    rw [pending, Option.mem_some_iff] at mem
    exact absurd mem.symm (reads data)
  alive mem := by
    rw [pending] at mem
    cases mem

theorem orderly_of_responded {request : Request} {c after : Connection ω}
    (responded : Responded request c after) (fresh : c.started = []) (buffer : c.buffer = [])
    (rooted : Rooted c.request.uri) (isOpen : c.closed = false) (chunks : List Bytes) :
    Orderly { conn := after, pending := after.started.head?, chunks } := by
  obtain ⟨data, started⟩ := responded.started
  have pending : after.started.head? = some (.write data) := by rw [started, fresh]; rfl
  apply orderly_of_writing pending
  · exact responded.buffer.trans buffer
  · exact responded.request_eq ▸ rooted
  · exact responded.closed.trans isOpen

theorem orderly_readPartial (byRequest : AnswersByRequest handlers) {s s' : Session ω} (ready : Ready s)
    (rooted : Rooted s.conn.request.uri) (stepped : Session.step handlers compression s = some s') :
    Orderly s' := by
  cases read : readUntil crlfcrlf s.chunks [] with
  | none =>
      rw [step_waits ready.toIdle read] at stepped
      cases stepped
  | some arrived =>
      obtain ⟨message, rest⟩ := arrived
      cases parsed : Request.parse message with
      | none =>
          obtain ⟨globals, ran⟩ := run_handleReadPartial_none compression byRequest
            (c := { s.conn with buffer := message, started := [] }) ready.response parsed
          cases ((step_reads ready.toIdle read).trans (complete_of_done ran rest)).symm.trans stepped
          exact orderly_of_writing rfl rfl rooted ready.closed
      | some request =>
          have slash : Rooted request.uri := .inr (parse_image parsed).uri_slash
          cases length : contentLength request with
          | none =>
              rw [step_throws ready.toIdle read parsed length] at stepped
              cases stepped
          | some n =>
              by_cases more : request.body.length < n
              · cases (step_asksBody handlers compression ready.toIdle read parsed length more).symm.trans stepped
                exact
                  { buffer := rfl
                    rooted := slash
                    isOpen := fun _ _ => ready.closed
                    response := fun _ _ _ => ready.response
                    alive := fun mem => by cases mem }
              · obtain ⟨after, returned, responded⟩ := respond_done handlers compression slash
                  { s.conn with buffer := [], rawRequest := message, request, started := [] }
                cases (step_responds ready.toIdle read parsed length more returned).symm.trans stepped
                exact orderly_of_responded responded rfl rfl slash ready.closed rest

theorem orderly_step (byRequest : AnswersByRequest handlers) {s s' : Session ω} (orderly : Orderly s)
    (stepped : Session.step handlers compression s = some s') : Orderly s' := by
  cases pending : s.pending with
  | none =>
      rw [Session.step, pending] at stepped
      cases stepped
  | some op =>
      have isOpen := orderly.isOpen op pending
      cases op with
      | readPartial => exact orderly_readPartial byRequest (orderly.ready pending) orderly.rooted stepped
      | readBody n =>
          rw [Session.step, pending] at stepped
          dsimp only at stepped
          obtain ⟨read, -, stepped⟩ := Option.bind_eq_some_iff.mp stepped
          obtain ⟨after, returned, responded⟩ := handleReadBody_done handlers compression
            (c := { s.conn with buffer := s.conn.buffer ++ read.1, started := [] }) orderly.rooted
          have completed := complete_of_done (c := { s.conn with buffer := s.conn.buffer ++ read.1 })
            returned read.2
          cases completed.symm.trans stepped
          exact orderly_of_responded responded rfl rfl orderly.rooted isOpen read.2
      | write data =>
          obtain ⟨after, stepped', -, follows⟩ := step_written handlers compression pending
          cases stepped.symm.trans stepped'
          cases asks : asksClose s.conn.request with
          | true =>
              rw [if_pos asks] at follows
              obtain ⟨none_, conn⟩ := follows
              exact
                { buffer := conn ▸ orderly.buffer
                  rooted := conn ▸ orderly.rooted
                  isOpen := fun op mem => by simp [none_] at mem
                  response := fun op mem => by simp [none_] at mem
                  alive := fun mem => by simp [none_] at mem }
          | false =>
              rw [if_neg (by simp [asks])] at follows
              obtain ⟨-, conn⟩ := follows
              exact
                { buffer := conn ▸ orderly.buffer
                  rooted := conn ▸ orderly.rooted
                  isOpen := fun _ _ => conn ▸ isOpen
                  response := fun _ _ _ => conn ▸ rfl
                  alive := fun _ => conn ▸ asks }

theorem orderly_run (byRequest : AnswersByRequest handlers) (n : Nat) {s : Session ω} (orderly : Orderly s) :
    Orderly (Session.run handlers compression n s) := by
  induction n generalizing s with
  | zero => exact orderly
  | succ n ih =>
      cases stepped : Session.step handlers compression s with
      | none =>
          rw [Session.run_of_stuck _ _ stepped]
          exact orderly
      | some s' =>
          rw [Session.run_of_step _ _ stepped]
          exact ih (orderly_step byRequest orderly stepped)

/-- After any history the reply to the next message is that of a new connection, exactly when the last
request of the history leaves no mark on it. -/
theorem reply_fresh_iff (byRequest : AnswersByRequest handlers) {globals globals' : Globals ω}
    {history next : List Bytes} {n : Nat} {s : Session ω}
    (reached : Session.run handlers compression n (Session.start globals (history ++ next)) = s)
    (waits : s.pending = some .readPartial) (left : s.chunks = next) :
    reply handlers compression s = reply handlers compression (Session.start globals' next) ↔
      Unmarked s.conn.request next := by
  have orderly : Orderly s := reached ▸ orderly_run byRequest n (orderly_start globals (history ++ next))
  have fresh := (orderly_start globals' next).ready rfl
  exact reply_iff_unmarked byRequest (orderly.ready waits) fresh left rfl

end History

/-! ## An error page after a plain request, and after one that accepts gzip -/

def echoHandlers : Handlers Unit where
  find key :=
    if key = bytes "ErrorHandler" then
      some fun _ response globals =>
        ((ErrorHandler.handleRequest response).1, (ErrorHandler.handleRequest response).2, globals)
    else if key = bytes "/" then
      some fun request response globals =>
        ((EchoHandler.handleRequest request response).1, (EchoHandler.handleRequest request response).2,
          globals)
    else none
  errorHandler := fun _ response globals =>
    ((ErrorHandler.handleRequest response).1, (ErrorHandler.handleRequest response).2, globals)
  find_errorHandler := if_pos rfl

theorem answersByRequest_echoHandlers : AnswersByRequest echoHandlers where
  answers := by
    intro key handler found
    dsimp only [echoHandlers] at found
    split_ifs at found
    · cases found
      exact ⟨fun _ => ErrorHandler.handleRequest {}, fun _ globals => ⟨globals, rfl⟩⟩
    · cases found
      exact ⟨fun request => EchoHandler.handleRequest request {}, fun _ globals => ⟨globals, rfl⟩⟩
  errorHandler _ _ globals := ⟨globals, rfl⟩

def malformed : List Bytes := [bytes "x\r\n\r\n"]

-- an echo was read and written, and the malformed message is next
def echoed (headers : String) : Session Unit :=
  Session.run echoHandlers noCompression 2
    (Session.start { world := () } ([bytes "GET / HTTP/1.1\r\n" ++ bytes headers ++ crlfcrlf] ++ malformed))

theorem reply_fresh_plain : reply echoHandlers noCompression (echoed "Host: a") =
    reply echoHandlers noCompression (Session.start { world := () } malformed) := by
  have plain : ¬ AsksCoding (echoed "Host: a").conn.request := by
    unfold AsksCoding
    decide
  have waits : (echoed "Host: a").pending = some .readPartial := by decide
  have left : (echoed "Host: a").chunks = malformed := by decide
  apply (reply_fresh_iff answersByRequest_echoHandlers (n := 2) rfl waits left).mpr
  intro _ _ _
  exact .inr plain

theorem reply_not_fresh_gzip : (echoed "Accept-Encoding: gzip").pending = some .readPartial ∧
    (echoed "Accept-Encoding: gzip").chunks = malformed ∧
    reply echoHandlers noCompression (echoed "Accept-Encoding: gzip") ≠
      reply echoHandlers noCompression (Session.start { world := () } malformed) := by
  refine ⟨?_, ?_, ?_⟩
  · decide
  · decide
  · decide +kernel

end TscServer.Proof
