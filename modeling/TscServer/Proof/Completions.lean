import TscServer.Model.ServerRun
import TscServer.Proof.ConnectionSafety
import TscServer.Proof.HandlerAnswers

/-!
# What a completion does

`Finishes` lists what a completion handler that returns can have done. Whatever is written was a page
or a raw response when `do_write` was called.
-/

namespace TscServer.Proof
open Lib Model Connection

section Writing
variable {ω : Type} (compression : Compression)

def sent (request : Request) (response : Response) : Response :=
  let response := response.addHeader (bytes "Connection")
    (if asksClose request then bytes "close" else bytes "keep-alive")
  if response.isImage then response else compressPayload compression request response

structure Wrote (before : Connection ω) (answer : Response) (after : Connection ω) : Prop where
  answered : Page answer ∨ Raw answer
  request : after.request = before.request
  response : after.response = sent compression before.request answer
  started : after.started = before.started ++ [.write after.response.toBytes]
  buffer : after.buffer = before.buffer
  closed : after.closed = before.closed
  serverStatus : after.globals.serverStatus =
    before.globals.serverStatus.insertRecord before.request.uri answer.status

theorem wrote_doWrite {c : Connection ω} (answered : Page c.response ∨ Raw c.response) :
    ∃ after, (doWrite compression).run c = .done () after ∧ Wrote compression c c.response after := by
  refine ⟨_, rfl, answered, rfl, rfl, rfl, rfl, rfl, ?_⟩
  show c.globals.serverStatus.insertRecord c.request.uri (c.response.addHeader _ _).status = _
  rw [Response.addHeader_status]

end Writing

section Completions
variable {ω : Type} (deployment : Deployment ω) (compression : Compression)

theorem processRequest_leaves {request : Request} {c c' : Connection ω} {b : Bool}
    (empty : c.response = {})
    (ran : (processRequest deployment.handlers request).run c = .done b c')
    (running : deployment.running c'.globals.world = true) :
    ∃ response globals, c' = { c with processed := c.processed ++ [request], response, globals } ∧
      globals.serverStatus = c.globals.serverStatus ∧
      if b then Page response ∨ Raw response else Bare response := by
  cases routes : routed deployment.handlers request with
  | none =>
      rw [run_processRequest_spins routes] at ran
      cases ran
  | some route =>
      cases route with
      | none =>
          rw [run_processRequest_unrouted routes] at ran
          cases ran
          exact ⟨_, _, rfl, rfl, empty ▸ bare_empty.setStatus _⟩
      | some handler =>
          rw [run_processRequest_handled routes] at ran
          cases ran
          obtain ⟨key, found⟩ := find_of_routed deployment.handlers routes
          obtain ⟨r, calls⟩ := deployment.registered key handler found
          obtain ⟨-, returned, same⟩ := calls request c.response c.globals running
          refine ⟨_, _, rfl, same, ?_⟩
          have leaves := returns_leaves (empty ▸ returned)
          simpa [Leaves, empty] using leaves

theorem run_handleError (c : Connection ω) :
    (handleError deployment.handlers).run c =
      .done () { c with response := (ErrorHandler.handleRequest c.response).2 } := by
  simp only [handleError, Proc.run_get_bind, run_runHandler_bind, deployment.errorHandler]
  rfl

theorem doWrite_wrote {c c' : Connection ω} {b : Bool} (answered : Page c.response ∨ Raw c.response)
    (ran : (doWrite compression >>= fun _ => pure true).run c = .done b c') :
    Wrote compression c c.response c' := by
  obtain ⟨after, written, wrote⟩ := wrote_doWrite compression answered
  rw [Proc.run_bind_of_done written] at ran
  cases ran
  exact wrote

theorem respond_wrote {request : Request} {c c' : Connection ω} {b : Bool} (empty : c.response = {})
    (ran : (respond deployment.handlers compression request).run c = .done b c')
    (running : deployment.running c'.globals.world = true) :
    ∃ answer, Wrote compression c answer c' := by
  obtain ⟨routed, mid, called, -⟩ := Proc.run_bind_eq_done.mp ran
  cases routed with
  | true =>
      rw [run_respond_handled _ compression called] at ran
      have world : c'.globals.world = mid.globals.world := by
        cases ran
        rfl
      obtain ⟨response, globals, rfl, same, leaves⟩ :=
        processRequest_leaves deployment empty called (world ▸ running)
      rw [if_pos rfl] at leaves
      have wrote := doWrite_wrote compression leaves ran
      refine ⟨response, wrote.answered, wrote.request, wrote.response, wrote.started, wrote.buffer,
        wrote.closed, ?_⟩
      rw [wrote.serverStatus, same]
  | false =>
      rw [run_respond_failed _ compression called, Proc.run_bind_of_done (run_handleError deployment mid)]
        at ran
      have world : c'.globals.world = mid.globals.world := by
        cases ran
        rfl
      obtain ⟨response, globals, rfl, same, bare⟩ :=
        processRequest_leaves deployment empty called (world ▸ running)
      have wrote := doWrite_wrote compression (.inl (page_errorHandler bare)) ran
      refine ⟨(ErrorHandler.handleRequest response).2, wrote.answered, wrote.request, wrote.response,
        wrote.started, wrote.buffer, wrote.closed, ?_⟩
      rw [wrote.serverStatus, same]

inductive Finishes (c : Connection ω) : AsyncOp → ErrorCode → Connection ω → Prop
  | aborted {op : AsyncOp} : Finishes c op .operationAborted c
  | broken {op : AsyncOp} {code : Nat} : Finishes c op (.other code) { c with closed := true }
  | closes {data : Bytes} : asksClose c.request = true →
      Finishes c (.write data) .success { c with closed := true }
  | readsOn {data : Bytes} : asksClose c.request = false →
      Finishes c (.write data) .success
        { c with response := {}, started := c.started ++ [.readPartial] }
  | invalid {answer : Response} {c' : Connection ω} : Request.parse c.buffer = none →
      Wrote compression { c with buffer := [], rawRequest := c.buffer } answer c' →
      Finishes c .readPartial .success c'
  | readsBody {request : Request} {n : Nat} : Request.parse c.buffer = some request →
      Finishes c .readPartial .success
        { c with
          buffer := [], rawRequest := c.buffer, request, started := c.started ++ [.readBody n] }
  | answered {request : Request} {answer : Response} {c' : Connection ω} :
      Request.parse c.buffer = some request →
      Wrote compression { c with buffer := [], rawRequest := c.buffer, request } answer c' →
      Finishes c .readPartial .success c'
  | completed {n : Nat} {answer : Response} {c' : Connection ω} :
      Wrote compression { c with buffer := [], request := c.request.appendBody c.buffer } answer c' →
      Finishes c (.readBody n) .success c'

theorem finishes_write {data : Bytes} {ec : ErrorCode} {c c' : Connection ω} {b : Bool}
    (ran : (handleWrite ec).run c = .done b c') : Finishes compression c (.write data) ec c' := by
  cases ec with
  | success =>
      simp only [handleWrite, Proc.run_get_bind] at ran
      cases asks : asksClose c.request with
      | true =>
          rw [asks] at ran
          cases ran
          exact .closes asks
      | false =>
          rw [asks] at ran
          cases ran
          exact .readsOn asks
  | operationAborted =>
      cases ran
      exact .aborted
  | other code =>
      cases ran
      exact .broken

theorem finishes_readBody {n : Nat} {ec : ErrorCode} {c c' : Connection ω} {b : Bool}
    (empty : c.response = {})
    (ran : (handleReadBody deployment.handlers compression ec).run c = .done b c')
    (running : deployment.running c'.globals.world = true) :
    Finishes compression c (.readBody n) ec c' := by
  cases ec with
  | success =>
      simp only [handleReadBody, run_consumeBuffer_bind, Proc.run_modify_bind, Proc.run_get_bind] at ran
      obtain ⟨answer, wrote⟩ := respond_wrote deployment compression (by exact empty) ran running
      exact .completed wrote
  | operationAborted =>
      cases ran
      exact .aborted
  | other code =>
      cases ran
      exact .broken

theorem finishes_readPartial {ec : ErrorCode} {c c' : Connection ω} {b : Bool}
    (empty : c.response = {})
    (ran : (handleReadPartial deployment.handlers compression ec).run c = .done b c')
    (running : deployment.running c'.globals.world = true) :
    Finishes compression c .readPartial ec c' := by
  cases ec with
  | success =>
      cases parsed : Request.parse c.buffer with
      | none =>
          simp only [handleReadPartial, run_consumeBuffer_bind, Proc.run_modify_bind, parsed] at ran
          rw [Proc.run_bind_of_done (run_handleError deployment _), empty] at ran
          have page : Page (ErrorHandler.handleRequest (Response.setStatus {} .badRequest)).2 :=
            page_errorHandler (bare_empty.setStatus _)
          obtain ⟨h₁, h₂, h₃, h₄, h₅, h₆, h₇⟩ := doWrite_wrote compression (.inl page) ran
          exact .invalid parsed ⟨h₁, h₂, h₃, h₄, h₅, h₆, h₇⟩
      | some request =>
          rw [handleReadPartial_some deployment.handlers compression parsed] at ran
          cases length : contentLength request with
          | none =>
              rw [length] at ran
              cases ran
          | some n =>
              rw [length, Proc.ofOption_some, Proc.pure_bind] at ran
              split at ran
              · cases ran
                exact .readsBody parsed
              · obtain ⟨answer, wrote⟩ := respond_wrote deployment compression (by exact empty) ran running
                exact .answered parsed wrote
  | operationAborted =>
      cases ran
      exact .aborted
  | other code =>
      cases ran
      exact .broken

end Completions
end TscServer.Proof
