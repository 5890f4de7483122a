import TscServer.Proof.Clients
import TscServer.Proof.Counters

/-!
# Where responses come from

Every response of a run is written by the step that completes the reading of a message. It is the answer of
the handler that the request is routed to, called with the statistics of exactly the responses before it, or an
error page.
-/

namespace TscServer.Proof
open Lib Model Spec Connection ServerState

def recordOf (w : Written) : Bytes × ResponseCode := (w.request.uri, w.response.status)

def statisticsAfter (handlerToUri : AList fun _ : Bytes => List Bytes) (written : List Written) : ServerStatus :=
  insertRecords { handlerToUri } (written.map recordOf)

/-! ## What was read for a client -/

/-- The latest message that was read for a client up to its blank line. The latest completion comes first. -/
def messageOf : List Completion → Option Bytes
  | [] => none
  | { op := .readPartial, ec := .success, data } :: _ => some data
  | _ :: earlier => messageOf earlier

def requestOf : List Completion → Request
  | [] => {}
  | { op := .readPartial, ec := .success, data } :: earlier =>
      (Request.parse data).getD (requestOf earlier)
  | { op := .readBody _, ec := .success, data } :: earlier => (requestOf earlier).appendBody data
  | _ :: earlier => requestOf earlier

section Reading
variable {ω : Type} {compression : Compression} {completions : List Completion} {client : Client ω}

variable (completions client) in
structure Remembers : Prop where
  buffer : client.outstanding ≠ [] → client.conn.buffer = []
  request : client.conn.request = requestOf completions
  parsed : ∀ n, .readBody n ∈ client.outstanding →
    ∃ message, messageOf completions = some message ∧ (Request.parse message).isSome

theorem remembers_of_wrote {before conn : Connection ω} {answer : Response}
    (wrote : Wrote compression before answer conn) (fresh : before.started = []) (empty : before.buffer = [])
    (request : before.request = requestOf completions) :
    Remembers completions { conn, outstanding := conn.started } where
  buffer _ := wrote.buffer.trans empty
  request := wrote.request.trans request
  parsed n mem := by
    have single : conn.started = [.write conn.response.toBytes] := by
      rw [wrote.started, fresh, List.nil_append]
    rw [single, List.mem_singleton] at mem
    cases mem

theorem requestOf_failed {op : AsyncOp} {ec : ErrorCode} (failed : ec ≠ .success) (data : Bytes) :
    requestOf ({ op, ec, data } :: completions) = requestOf completions := by
  cases ec with
  | success => exact absurd rfl failed
  | operationAborted => cases op <;> rfl
  | other code => cases op <;> rfl

theorem remembers_of_rest {done_ : Completion} {conn : Connection ω}
    (request : conn.request = requestOf (done_ :: completions)) (rests : conn.started = []) :
    Remembers (done_ :: completions) { conn, outstanding := conn.started } := by
  rw [rests]
  exact ⟨fun some_ => absurd rfl some_, request, fun n mem => absurd mem List.not_mem_nil⟩

theorem remembers_of_finishes {s : ServerState ω} {op : AsyncOp} {ec : ErrorCode} {data : Bytes} {conn : Connection ω}
    (remembers : Remembers completions client) (single : client.outstanding = [op])
    (delivered : delivers client.conn.buffer data op ec = true)
    (finishes : Finishes compression (filled s client data) op ec conn) :
    Remembers ({ op, ec, data } :: completions) { conn, outstanding := conn.started } := by
  have empty : client.conn.buffer = [] := remembers.buffer (by simp [single])
  have buffer : (filled s client data).buffer = data := by simp [filled, empty]
  have request : (filled s client data).request = requestOf completions := remembers.request
  cases finishes with
  | aborted => exact remembers_of_rest (request.trans (requestOf_failed (by simp) data).symm) rfl
  | broken => exact remembers_of_rest (request.trans (requestOf_failed (by simp) data).symm) rfl
  | closes => exact remembers_of_rest request rfl
  | readsOn =>
      have nothing : data = [] := of_decide_eq_true delivered
      exact ⟨fun _ => buffer.trans nothing, request, fun n mem => by simp [filled] at mem⟩
  | invalid parsed wrote =>
      rw [buffer] at parsed
      apply remembers_of_wrote wrote rfl rfl
      rw [requestOf, parsed]
      exact request
  | readsBody parsed =>
      rw [buffer] at parsed
      exact ⟨fun _ => rfl, by rw [requestOf, parsed]; rfl, fun n _ => ⟨data, rfl, by rw [parsed]; rfl⟩⟩
  | answered parsed wrote =>
      rw [buffer] at parsed
      apply remembers_of_wrote wrote rfl rfl
      rw [requestOf, parsed]
      rfl
  | completed wrote =>
      apply remembers_of_wrote wrote rfl rfl
      rw [requestOf, buffer, request]

variable (compression) in
inductive Progresses (done_ : Completion) (client : Client ω) : Client ω → Prop
  | intro {s : ServerState ω} {conn : Connection ω} : client.outstanding = [done_.op] →
      delivers client.conn.buffer done_.data done_.op done_.ec = true →
      Finishes compression (filled s client done_.data) done_.op done_.ec conn →
      Progresses done_ client { conn, outstanding := conn.started }

variable {deployment : Deployment ω} {world : ω} {handlerToUri : AList fun _ : Bytes => List Bytes}
  {log : List Event} {s s' : ServerState ω} {i : Nat}

theorem progresses_of_step {op : AsyncOp} {ec : ErrorCode} {data : Bytes} {client' : Client ω} (sound : Sound s)
    (stepped : step deployment compression s (.complete i op ec data) = some s')
    (here : s.clients[i]? = some client) (there : s'.clients[i]? = some client') :
    Progresses compression { op, ec, data } client client' := by
  have delivered : delivers client.conn.buffer data op ec = true := by
    cases advances_of_step deployment compression stepped with
    | complete here' _ delivered =>
        cases here.symm.trans here'
        exact delivered
  cases steps_of_step deployment compression sound stepped with
  | completed here' single finishes =>
      cases here.symm.trans here'
      rw [finished, List.getElem?_set_self (List.getElem?_eq_some_iff.mp here).1] at there
      obtain rfl := Option.some.inj there
      exact .intro single delivered finishes

theorem remembers_of_progress {accepted : Client ω} (fresh : Accepted accepted)
    (own : LoggedRun (fun _ => Progresses compression) accepted completions client) : Remembers completions client := by
  induction own with
  | start =>
      obtain ⟨globals, rfl⟩ := fresh
      exact ⟨fun _ => rfl, rfl, fun n mem => by simp at mem⟩
  | next _ progressed ih =>
      cases progressed with
      | intro single delivered finishes => exact remembers_of_finishes ih single delivered finishes

theorem remembers_of_run (run : Run deployment compression (ServerState.start world handlerToUri) log s)
    (here : s.clients[i]? = some client) : Remembers (log.filterMap (completionOf i)) client := by
  have steps (log : List Event) (event : Event) (s s' : ServerState ω)
      (before : Run deployment compression (ServerState.start world handlerToUri) log s)
      (stepped : step deployment compression s event = some s') :
      PartStep (fun _ => Progresses compression) (fun s => s.clients[i]?) (completionOf i) Accepted log event s s' := by
    apply partStep_of_moves i log (advances_of_step deployment compression stepped)
    intro op ec data client client' same here there
    subst same
    exact progresses_of_step (sound_of_run before) stepped here there
  obtain ⟨accepted, fresh, own⟩ := (LoggedRun.part rfl steps run).2 client here
  exact remembers_of_progress fresh own

end Reading

section Origins
variable {ω : Type} (deployment : Deployment ω) (compression : Compression)

def ActsAs (handler : Handler ω) (r : RegisteredHandler) : Prop :=
  ∀ request response globals, deployment.running (handler request response globals).2.2.world = true →
    r.Returns request response globals.serverStatus (handler request response globals).1
      (handler request response globals).2.1

/-- The answer to a request that was read whole, with the call that made it. -/
inductive AnswersTo (request : Request) (status : ServerStatus) : Response → Prop
  | unrouted : routed deployment.handlers request = some none → AnswersTo request status errorPage
  | handled {handler : Handler ω} {globals : Globals ω} :
      routed deployment.handlers request = some (some handler) → globals.serverStatus = status →
      deployment.running (handler request {} globals).2.2.world = true →
      (handler request {} globals).1 = .ok → AnswersTo request status (handler request {} globals).2.1
  | failed {handler : Handler ω} {globals : Globals ω} :
      routed deployment.handlers request = some (some handler) → globals.serverStatus = status →
      deployment.running (handler request {} globals).2.2.world = true →
      (handler request {} globals).1 ≠ .ok →
      AnswersTo request status (ErrorHandler.handleRequest (handler request {} globals).2.1).2

/-- A response to a message that was written when the statistics were these: an answer to the request, or
the error page if the message does not parse. -/
inductive Originates (message : Bytes) (status : ServerStatus) (w : Written) : Prop
  | answered {answer : Response} : (Request.parse message).isSome →
      AnswersTo deployment w.request status answer → w.response = sent compression w.request answer →
      Originates message status w
  | malformed : Request.parse message = none → w.response = sent compression w.request errorPage →
      Originates message status w

/-- A step of the run wrote the response: it completed the reading of this message of a client, or of its
body. -/
inductive WrittenFor (init : ServerState ω) (log : List Event) (before : List Written) (w : Written)
    (message : Bytes) : Prop
  | intro {i : Nat} {op : AsyncOp} {data : Bytes} {older : List Event} {s s' : ServerState ω} :
      .complete i op .success data :: older <:+ log → Run deployment compression init older s →
      s.written = before → step deployment compression s (.complete i op .success data) = some s' →
      s'.written = before ++ [w] →
      messageOf ((.complete i op .success data :: older).filterMap (completionOf i)) = some message →
      w.request = requestOf ((.complete i op .success data :: older).filterMap (completionOf i)) →
      WrittenFor init log before w message

/-! ## One completion -/

theorem sent_status (request : Request) (answer : Response) :
    (sent compression request answer).status = answer.status := by
  simp only [sent, compressPayload]
  split_ifs <;> simp [Response.setBody]

theorem answersTo_of_processRequest {request : Request} {c c' : Connection ω} {b : Bool} (empty : c.response = {})
    (ran : (processRequest deployment.handlers request).run c = .done b c')
    (running : deployment.running c'.globals.world = true) :
    AnswersTo deployment request c.globals.serverStatus
      (if b then c'.response else (ErrorHandler.handleRequest c'.response).2) := by
  cases routes : routed deployment.handlers request with
  | none =>
      rw [run_processRequest_spins routes] at ran
      cases ran
  | some route =>
      cases route with
      | none =>
          rw [run_processRequest_unrouted routes, empty] at ran
          cases ran
          exact .unrouted routes
      | some handler =>
          rw [run_processRequest_handled routes, empty] at ran
          cases ran
          by_cases ok : (handler request {} c.globals).1 = .ok
          · rw [ok]
            exact .handled routes rfl running ok
          · rw [if_neg (by simpa using ok)]
            exact .failed routes rfl running ok

variable {deployment compression}

theorem response_of_respond {request : Request} {c c' : Connection ω} {b : Bool}
    (ran : (respond deployment.handlers compression request).run c = .done b c') :
    ∃ handled mid, (processRequest deployment.handlers request).run c = .done handled mid ∧
      c'.request = mid.request ∧ c'.globals.world = mid.globals.world ∧
      c'.response = sent compression c'.request
        (if handled then mid.response else (ErrorHandler.handleRequest mid.response).2) := by
  obtain ⟨handled, mid, called, -⟩ := Proc.run_bind_eq_done.mp ran
  refine ⟨handled, mid, called, ?_⟩
  cases handled with
  | true =>
      rw [run_respond_handled _ compression called] at ran
      cases ran
      exact ⟨rfl, rfl, rfl⟩
  | false =>
      rw [run_respond_failed _ compression called, Proc.run_bind_of_done (run_handleError deployment mid)] at ran
      cases ran
      exact ⟨rfl, rfl, rfl⟩

theorem originates_of_respond {message : Bytes} {request : Request} {c c' : Connection ω} {b : Bool}
    (parsed : (Request.parse message).isSome)
    (ran : (respond deployment.handlers compression request).run c = .done b c') (same : c.request = request)
    (empty : c.response = {}) (running : deployment.running c'.globals.world = true) {w : Written}
    (written : w.request = c'.request) (response : w.response = c'.response) :
    Originates deployment compression message c.globals.serverStatus w := by
  obtain ⟨handled, mid, called, request_, world, sent_⟩ := response_of_respond ran
  have alive : deployment.running mid.globals.world = true := world ▸ running
  have answers := answersTo_of_processRequest deployment empty called alive
  obtain ⟨answer, globals, rfl, -, -⟩ := processRequest_leaves deployment empty called alive
  have own : w.request = request := written.trans (request_.trans same)
  refine .answered parsed (own ▸ answers) ?_
  rw [response, sent_, written]

theorem originates_of_readPartial {c c' : Connection ω} {b : Bool} (empty : c.response = {}) (fresh : c.started = [])
    (ran : (handleReadPartial deployment.handlers compression .success).run c = .done b c')
    (running : deployment.running c'.globals.world = true) {w : Written}
    (mem : w ∈ c'.started.filterMap (writtenBy c')) (written : w.request = c'.request)
    (response : w.response = c'.response) :
    Originates deployment compression c.buffer c.globals.serverStatus w := by
  cases parsed : Request.parse c.buffer with
  | none =>
      simp only [handleReadPartial, run_consumeBuffer_bind, Proc.run_modify_bind, parsed] at ran
      rw [Proc.run_bind_of_done (run_handleError deployment _), empty] at ran
      refine .malformed parsed (response.trans ?_)
      cases ran
      rw [written]
      rfl
  | some request =>
      rw [handleReadPartial_some deployment.handlers compression parsed] at ran
      cases length : contentLength request with
      | none =>
          rw [length] at ran
          cases ran
      | some n =>
          rw [length, Proc.ofOption_some, Proc.pure_bind] at ran
          split at ran
          · cases ran
            have none_ : w ∈ (c.started ++ [AsyncOp.readBody (n - request.body.length)]).filterMap (writtenBy _) :=
              mem
            simp [fresh, writtenBy] at none_
          · have parses : (Request.parse c.buffer).isSome := by
              rw [parsed]
              rfl
            exact originates_of_respond parses ran rfl empty running written response

/-! ## Runs -/

theorem statisticsAfter_concat (handlerToUri : AList fun _ : Bytes => List Bytes) (written : List Written)
    (w : Written) : statisticsAfter handlerToUri (written ++ [w]) =
      (statisticsAfter handlerToUri written).insertRecord w.request.uri w.response.status := by
  rw [statisticsAfter, List.map_append, insertRecords, List.foldl_append]
  rfl

variable {world : ω} {handlerToUri : AList fun _ : Bytes => List Bytes} {log : List Event} {s s' : ServerState ω}

theorem statistics_of_run (run : Run deployment compression (ServerState.start world handlerToUri) log s) :
    s.globals.serverStatus = statisticsAfter handlerToUri s.written := by
  apply (run_induction deployment compression
    (P := fun s => s.globals.serverStatus = statisticsAfter handlerToUri s.written) rfl
    (sound_start world handlerToUri) _ run).1
  intro s event s' before _ steps
  rcases written_of_steps deployment compression steps with ⟨same, kept⟩ | ⟨w, answer, writes⟩
  · rw [same, kept, before]
  · rw [writes.written, statisticsAfter_concat, writes.serverStatus, before, writes.composed.response, sent_status]

theorem reads_of_writes {op : AsyncOp} {ec : ErrorCode} {client : Client ω} {data : Bytes} {conn : Connection ω}
    (finishes : Finishes compression (filled s client data) op ec conn)
    (some_ : conn.started.filterMap (writtenBy conn) ≠ []) :
    ec = .success ∧ (op = .readPartial ∨ ∃ n, op = .readBody n) := by
  cases finishes with
  | aborted => exact absurd rfl some_
  | broken => exact absurd rfl some_
  | closes => exact absurd rfl some_
  | readsOn => exact absurd rfl some_
  | invalid => exact ⟨rfl, .inl rfl⟩
  | readsBody => exact ⟨rfl, .inl rfl⟩
  | answered => exact ⟨rfl, .inl rfl⟩
  | completed => exact ⟨rfl, .inr ⟨_, rfl⟩⟩

-- the message whose reading a completed operation was part of
theorem exists_messageOf {op : AsyncOp} {client : Client ω} {completions : List Completion} {data : Bytes}
    (remembers : Remembers completions client) (mem : op ∈ client.outstanding)
    (reads : op = .readPartial ∨ ∃ n, op = .readBody n) :
    ∃ message, messageOf ({ op, ec := .success, data } :: completions) = some message ∧
      (op = .readPartial → client.conn.buffer ++ data = message) ∧
      ∀ n, op = .readBody n → (Request.parse message).isSome := by
  rcases reads with rfl | ⟨n, rfl⟩
  · have empty : client.conn.buffer = [] := remembers.buffer (List.ne_nil_of_mem mem)
    exact ⟨data, rfl, fun _ => by rw [empty, List.nil_append], fun _ never => (by cases never)⟩
  · obtain ⟨message, latest, parses⟩ := remembers.parsed n mem
    exact ⟨message, latest, fun never => (by cases never), fun _ _ => parses⟩

theorem running_of_complete {i : Nat} {op : AsyncOp} {ec : ErrorCode} {data : Bytes} (sound : Sound s)
    (stepped : step deployment compression s (.complete i op ec data) = some s') :
    deployment.running s'.globals.world = true := by
  cases steps_of_step deployment compression sound stepped with
  | completed here single finishes running => exact running

theorem request_of_writtenBy {conn : Connection ω} {w : Written} (mem : w ∈ conn.started.filterMap (writtenBy conn)) :
    w.request = conn.request ∧ w.response = conn.response := by
  obtain ⟨op, -, wrote⟩ := List.mem_filterMap.mp mem
  cases op with
  | write data =>
      cases wrote
      exact ⟨rfl, rfl⟩
  | readPartial => cases wrote
  | readBody n => cases wrote

theorem originates_of_step {event : Event}
    (run : Run deployment compression (ServerState.start world handlerToUri) log s)
    (stepped : step deployment compression s event = some s') :
    s'.written = s.written ∨ ∃ i op data w message, event = .complete i op .success data ∧
      s'.written = s.written ++ [w] ∧
      messageOf ((.complete i op .success data :: log).filterMap (completionOf i)) = some message ∧
      w.request = requestOf ((.complete i op .success data :: log).filterMap (completionOf i)) ∧
      Originates deployment compression message s.globals.serverStatus w := by
  have sound := sound_of_run run
  have after := run.next stepped
  rcases written_of_steps deployment compression (steps_of_step deployment compression sound stepped) with
    ⟨same, -⟩ | ⟨w, answer, writes⟩
  · exact .inl same
  · cases advances_of_step deployment compression stepped with
    | @accept ec waiting =>
        have same : (handleAccept { s with accepting := s.accepting - 1 } ec).written = s.written := by
          cases ec <;> rfl
        have grown := writes.written
        rw [same] at grown
        simp at grown
    | @complete i op ec data client conn b here mem delivered ran =>
        have running : deployment.running conn.globals.world = true := running_of_complete sound stepped
        obtain ⟨-, -, empty⟩ := waits_single (sound client (List.mem_of_getElem? here)) mem
        have new : conn.started.filterMap (writtenBy conn) = [w] := List.append_cancel_left writes.written
        have finishes := finishes_of_completion deployment compression (c := filled s client data) empty ran running
        obtain ⟨rfl, reads⟩ := reads_of_writes finishes (by rw [new]; simp)
        have own : (Event.complete i op .success data :: log).filterMap (completionOf i) =
            { op, ec := .success, data } :: log.filterMap (completionOf i) := List.filterMap_cons_some (if_pos rfl)
        obtain ⟨message, latest, head, body⟩ := exists_messageOf (remembers_of_run run here) mem reads
        have written : w ∈ conn.started.filterMap (writtenBy conn) := new ▸ List.mem_singleton_self w
        obtain ⟨request, response⟩ := request_of_writtenBy written
        have kept := (remembers_of_run after
          (List.getElem?_set_self (List.getElem?_eq_some_iff.mp here).1)).request
        refine .inr ⟨i, op, data, w, message, rfl, writes.written, own ▸ latest, request.trans kept, ?_⟩
        rcases reads with rfl | ⟨n, rfl⟩
        · rw [← head rfl]
          exact originates_of_readPartial (c := filled s client data) (empty (by simp)) rfl ran running written
            request response
        · have parsed := body n rfl
          have ran : (handleReadBody deployment.handlers compression .success).run (filled s client data) = _ := ran
          rw [run_handleReadBody] at ran
          exact originates_of_respond parsed ran rfl (empty (by simp)) running request response

variable (deployment compression) in
/-- Every response of the list was written for a message, at the statistics of those before it. -/
def Explained (init : ServerState ω) (log : List Event) (handlerToUri : AList fun _ : Bytes => List Bytes)
    (written : List Written) : Prop :=
  ∀ before w behind, written = before ++ w :: behind → ∃ message,
    WrittenFor deployment compression init log before w message ∧
      Originates deployment compression message (statisticsAfter handlerToUri before) w

theorem WrittenFor.later {init : ServerState ω} {before : List Written} {w : Written} {message : Bytes}
    (writes : WrittenFor deployment compression init log before w message) (event : Event) :
    WrittenFor deployment compression init (event :: log) before w message := by
  cases writes with
  | intro within run empty stepped written latest request =>
      exact .intro (within.trans (List.suffix_cons event log)) run empty stepped written latest request

theorem WrittenFor.composed {before : List Written} {w : Written} {message : Bytes}
    (writes : WrittenFor deployment compression (ServerState.start world handlerToUri) log before w message) :
    ∃ answer, Composed compression w answer := by
  cases writes with
  | intro within run empty stepped written =>
      exact composed_of_run (run.next stepped) w (written ▸ List.mem_append_right _ (List.mem_singleton_self w))

theorem WrittenFor.originates {before : List Written} {w : Written} {message : Bytes}
    (writes : WrittenFor deployment compression (ServerState.start world handlerToUri) log before w message) :
    Originates deployment compression message (statisticsAfter handlerToUri before) w := by
  cases writes with
  | intro within run empty stepped written latest request =>
      rcases originates_of_step run stepped with same | ⟨i, op, data, w', message', same, grown, latest', -, originates⟩
      · rw [written, empty] at same
        simp at same
      · cases same
        cases latest.symm.trans latest'
        rw [written, empty] at grown
        cases List.append_cancel_left grown
        rwa [statistics_of_run run, empty] at originates

theorem explained_of_run (run : Run deployment compression (ServerState.start world handlerToUri) log s) :
    Explained deployment compression (ServerState.start world handlerToUri) log handlerToUri s.written := by
  induction run with
  | start =>
      intro before w behind split_
      have none_ : before ++ w :: behind = [] := split_.symm
      simp at none_
  | next run stepped ih =>
      intro before w behind split_
      rcases originates_of_step run stepped with
        same | ⟨i, op, data, w', message, rfl, grown, latest, request, -⟩
      · obtain ⟨message, writes, originates⟩ := ih before w behind (same ▸ split_)
        exact ⟨message, writes.later _, originates⟩
      · rw [grown] at split_
        cases behind using List.reverseRecOn with
        | nil =>
            obtain ⟨earlier, last⟩ := List.append_inj' split_ rfl
            cases last
            have writes : WrittenFor deployment compression (ServerState.start world handlerToUri) _ before w message :=
              .intro List.suffix_rfl run earlier stepped (earlier ▸ grown) latest request
            exact ⟨message, writes, writes.originates⟩
        | append_singleton behind last _ =>
            rw [← List.cons_append, ← List.append_assoc] at split_
            obtain ⟨message, writes, originates⟩ := ih before w behind (List.append_inj' split_ rfl).1
            exact ⟨message, writes.later _, originates⟩

/-- Every response was written for a message, and has its origin at the statistics of the responses before
it. -/
theorem originates_of_run (run : Run deployment compression (ServerState.start world handlerToUri) log s)
    {before behind : List Written} {w : Written} (split_ : s.written = before ++ w :: behind) :
    ∃ message, WrittenFor deployment compression (ServerState.start world handlerToUri) log before w message ∧
      Originates deployment compression message (statisticsAfter handlerToUri before) w :=
  explained_of_run run before w behind split_

/-! ## The status page -/

theorem status_errorPage : errorPage.status = .badRequest := rfl

theorem parsed_of_ok {message : Bytes} {status : ServerStatus} {w : Written}
    (originates : Originates deployment compression message status w) (ok : w.response.status = .ok) :
    (Request.parse message).isSome := by
  cases originates with
  | answered parsed => exact parsed
  | malformed _ response =>
      rw [response, sent_status, status_errorPage] at ok
      cases ok

theorem page_of_returns {uriPrefix : Bytes} {request : Request} {response answer : Response} {status : ServerStatus}
    {result : Status} (returned : (RegisteredHandler.status uriPrefix).Returns request response status result answer) :
    result = .ok ∧ answer = (StatusHandler.handleRequest status response).2 := by
  cases returned with
  | status => exact ⟨rfl, rfl⟩

section Page
variable {message : Bytes} {status : ServerStatus} {w : Written}
  (originates : Originates deployment compression message status w)
include originates

theorem status_of_unrouted (unrouted : routed deployment.handlers w.request = some none) :
    w.response.status = .badRequest := by
  cases originates with
  | malformed _ response => rw [response, sent_status, status_errorPage]
  | answered _ answers response =>
      rw [response, sent_status]
      cases answers with
      | unrouted => rfl
      | handled routes => cases routes.symm.trans unrouted
      | failed routes => cases routes.symm.trans unrouted

theorem statusPage_of_originates {handler : Handler ω} {uriPrefix : Bytes}
    (routes : routed deployment.handlers w.request = some (some handler))
    (acts : ActsAs deployment handler (.status uriPrefix)) (ok : w.response.status = .ok) :
    w.response = sent compression w.request (StatusHandler.handleRequest status {}).2 := by
  have failed : errorPage.status ≠ .ok := by decide
  cases originates with
  | malformed _ response =>
      rw [response, sent_status] at ok
      exact absurd ok failed
  | answered _ answers response =>
      cases answers with
      | unrouted none_ =>
          rw [response, sent_status] at ok
          exact absurd ok failed
      | handled routes' same running =>
          cases routes.symm.trans routes'
          obtain ⟨-, page⟩ := page_of_returns (acts w.request {} _ running)
          rw [response, page, same]
      | failed routes' same running bad =>
          cases routes.symm.trans routes'
          obtain ⟨isOk, -⟩ := page_of_returns (acts w.request {} _ running)
          exact absurd isOk bad

end Page

/-- A page of the status handler shows the responses that were written before it, all of them and no other. -/
theorem status_page_of_run (run : Run deployment compression (ServerState.start world handlerToUri) log s)
    {before behind : List Written} {w : Written} (split_ : s.written = before ++ w :: behind)
    {handler : Handler ω} {uriPrefix : Bytes} (routes : routed deployment.handlers w.request = some (some handler))
    (acts : ActsAs deployment handler (.status uriPrefix)) (ok : w.response.status = .ok) :
    w.response = sent compression w.request
      (StatusHandler.handleRequest (statisticsAfter handlerToUri before) {}).2 := by
  obtain ⟨message, -, originates⟩ := explained_of_run run before w behind split_
  exact statusPage_of_originates originates routes acts ok

end Origins

/-! ## Deployed handlers -/

section Deployed
variable {around : Surroundings} {table : AList fun _ : Bytes => RegisteredHandler} {compression : Compression}
  {w : Written} {message : Bytes} {status : ServerStatus} {key : Bytes} {handler : RegisteredHandler}

theorem nonempty_of_ok (originates : Originates (deploy around table) compression message status w)
    (selected : selectPrefix (deploy around table).handlers w.request = some key) (ok : w.response.status = .ok) :
    key ≠ [] := by
  intro none_
  have unrouted : routed (deploy around table).handlers w.request = some none := by
    rw [routed, selected, none_]
    rfl
  rw [status_of_unrouted originates unrouted] at ok
  cases ok

theorem routed_deploy (selected : selectPrefix (deploy around table).handlers w.request = some key)
    (nonempty : key ≠ []) (own : key ≠ bytes "ErrorHandler") (found : table.lookup key = some handler) :
    routed (deploy around table).handlers w.request = some (some (handler.call around)) := by
  rw [routed, selected, Option.map_some, if_neg nonempty]
  show some (if key = bytes "ErrorHandler" then _ else _) = _
  rw [if_neg own, found]
  rfl

theorem routed_deploy_of_ok (originates : Originates (deploy around table) compression message status w)
    (selected : selectPrefix (deploy around table).handlers w.request = some key)
    (own : key ≠ bytes "ErrorHandler") (found : table.lookup key = some handler) (ok : w.response.status = .ok) :
    routed (deploy around table).handlers w.request = some (some (handler.call around)) :=
  routed_deploy selected (nonempty_of_ok originates selected ok) own found

/-- What a handler returned for a response, and what became of it. -/
inductive Returned (around : Surroundings) (compression : Compression) (handler : RegisteredHandler)
    (status : ServerStatus) (w : Written) : Prop
  | ok {states states' : Bytes → ProxyState} {response : Response} :
      handler.answer around w.request {} status states = some (.ok, response, states') →
      w.response = sent compression w.request response → Returned around compression handler status w
  | failed {states states' : Bytes → ProxyState} {result : Status} {response : Response} : result ≠ .ok →
      handler.answer around w.request {} status states = some (result, response, states') →
      w.response = sent compression w.request (ErrorHandler.handleRequest response).2 →
      Returned around compression handler status w

theorem answer_of_running {request : Request} {globals : Globals World}
    (running : (handler.call around request {} globals).2.2.world.isSome = true) :
    ∃ states states', handler.answer around request {} globals.serverStatus states =
      some ((handler.call around request {} globals).1, (handler.call around request {} globals).2.1, states') := by
  unfold RegisteredHandler.call at running ⊢
  split
  · rename_i result response states' answered
    obtain ⟨states, -, answered⟩ := Option.bind_eq_some_iff.mp answered
    exact ⟨states, states', answered⟩
  · rename_i stopped
    rw [stopped] at running
    cases running

theorem returned_of_answers {answer : Response}
    (routes : routed (deploy around table).handlers w.request = some (some (handler.call around)))
    (answers : AnswersTo (deploy around table) w.request status answer)
    (response : w.response = sent compression w.request answer) : Returned around compression handler status w := by
  cases answers with
  | unrouted none_ => cases routes.symm.trans none_
  | handled routes' same running isOk =>
      cases routes.symm.trans routes'
      obtain ⟨states, states', answered⟩ := answer_of_running running
      rw [isOk, same] at answered
      exact .ok answered response
  | failed routes' same running bad =>
      cases routes.symm.trans routes'
      obtain ⟨states, states', answered⟩ := answer_of_running running
      rw [same] at answered
      exact .failed bad answered response

theorem returned_of_parsed (originates : Originates (deploy around table) compression message status w)
    (parsed : (Request.parse message).isSome)
    (selected : selectPrefix (deploy around table).handlers w.request = some key) (nonempty : key ≠ [])
    (own : key ≠ bytes "ErrorHandler") (found : table.lookup key = some handler) :
    Returned around compression handler status w := by
  cases originates with
  | malformed none_ =>
      rw [none_] at parsed
      cases parsed
  | answered _ answers response =>
      exact returned_of_answers (routed_deploy selected nonempty own found) answers response

theorem returned_of_originates (originates : Originates (deploy around table) compression message status w)
    (selected : selectPrefix (deploy around table).handlers w.request = some key)
    (own : key ≠ bytes "ErrorHandler") (found : table.lookup key = some handler) (ok : w.response.status = .ok) :
    Returned around compression handler status w :=
  returned_of_parsed originates (parsed_of_ok originates ok) selected (nonempty_of_ok originates selected ok) own found

end Deployed

/-! ## An echo, and the page that counts it -/

def statusDeployment : Deployment World :=
  deploy (surroundings [])
    ((AList.singleton (bytes "/status") (.status (bytes "/status"))).insert (bytes "/") (.echo (bytes "/")))

def echoThenStatus : List Event :=
  [.accept .success, .accept .success,
    .complete 0 .readPartial .success (bytes "GET /a HTTP/1.1\r\nHost: a\r\n\r\n"),
    .complete 1 .readPartial .success (bytes "GET /status HTTP/1.1\r\nHost: a\r\n\r\n")]

theorem echo_originates : ∃ s echoed message,
    Run statusDeployment noCompression (ServerState.start freshWorld ∅) (echoThenStatus.take 3).reverse s ∧
      s.written = [] ++ echoed :: [] ∧
      WrittenFor statusDeployment noCompression (ServerState.start freshWorld ∅) (echoThenStatus.take 3).reverse
        [] echoed message ∧
      Originates statusDeployment noCompression message (statisticsAfter ∅ []) echoed := by
  have reached : (after statusDeployment noCompression (ServerState.start freshWorld ∅) (echoThenStatus.take 3)).any
      (fun s => s.written.length = 1) = true := by decide
  obtain ⟨s, reached, one_⟩ := Option.any_eq_true _ _ |>.mp reached
  obtain ⟨echoed, written⟩ := List.length_eq_one_iff.mp (of_decide_eq_true one_)
  have run := run_of_after reached
  have split_ : s.written = [] ++ echoed :: [] := written
  obtain ⟨message, writes, originates⟩ := originates_of_run run split_
  exact ⟨s, echoed, message, run, split_, writes, originates⟩

theorem exists_page_after_echo : ∃ s echoed page,
    Run statusDeployment noCompression (ServerState.start freshWorld ∅) echoThenStatus.reverse s ∧
      s.written = [echoed] ++ page :: [] ∧
      routed statusDeployment.handlers page.request =
        some (some (RegisteredHandler.call (surroundings []) (.status (bytes "/status")))) ∧
      page.response.status = .ok ∧ page.request.getHeaderValueByName (bytes "Accept-Encoding") = [] := by
  have reached : (after statusDeployment noCompression (ServerState.start freshWorld ∅) echoThenStatus).any
      (fun s => s.written.length = 2 ∧ (s.written.drop 1).all (fun page =>
        selectPrefix statusDeployment.handlers page.request = some (bytes "/status") ∧
          page.response.status = .ok ∧
          page.request.getHeaderValueByName (bytes "Accept-Encoding") = []) = true) = true := by decide
  obtain ⟨s, reached, pages⟩ := Option.any_eq_true _ _ |>.mp reached
  obtain ⟨two, pages⟩ := of_decide_eq_true pages
  obtain ⟨echoed, page, written⟩ := List.length_eq_two.mp two
  rw [written] at pages
  obtain ⟨selected, ok, plain⟩ := of_decide_eq_true (List.all_eq_true.mp pages page (List.mem_singleton_self page))
  refine ⟨s, echoed, page, run_of_after reached, written, ?_, ok, plain⟩
  rw [routed, selected]
  rfl

theorem status_page_after_echo : ∃ s echoed page,
    Run statusDeployment noCompression (ServerState.start freshWorld ∅) echoThenStatus.reverse s ∧
      s.written = [echoed] ++ page :: [] ∧
      page.response = sent noCompression page.request
        (StatusHandler.handleRequest (statisticsAfter ∅ [echoed]) {}).2 := by
  obtain ⟨s, echoed, page, run, written, routes, ok, -⟩ := exists_page_after_echo
  have page_ := status_page_of_run run written routes
    (fun _ _ _ running => (RegisteredHandler.call_returns running).2.1) ok
  exact ⟨s, echoed, page, run, written, page_⟩

end TscServer.Proof
