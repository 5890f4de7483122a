import TscServer.Lib.LoggedRun
import TscServer.Model.Connection
import TscServer.Model.Deployment

/-!
# Runs of the server

The acceptor of `server.cc` and any number of connections, which share the handlers and the
statistics. A step completes one outstanding operation, with any error and with any bytes that it can
have read, and runs its completion handler.
-/

namespace TscServer.Model
open Lib Connection

structure Client (ω : Type) where
  conn : Connection ω
  outstanding : List AsyncOp

/-- A response given to `async_write`, with the bytes that it is written as. -/
structure Written where
  request : Request
  response : Response
  data : Bytes

structure ServerState (ω : Type) where
  globals : Globals ω
  accepting : Nat
  clients : List (Client ω)
  written : List Written

inductive Event where
  | accept (ec : ErrorCode)
  | complete (client : Nat) (op : AsyncOp) (ec : ErrorCode) (data : Bytes)

namespace ServerState
variable {ω : Type} (deployment : Deployment ω) (compression : Compression)

def start (world : ω) (handlerToUri : AList fun _ : Bytes => List Bytes) : ServerState ω where
  globals := { world, serverStatus := { handlerToUri } }
  accepting := 1
  clients := []
  written := []

def handleAccept (s : ServerState ω) : ErrorCode → ServerState ω
  | .success =>
      { s with
        clients := s.clients ++ [{ conn := { globals := s.globals }, outstanding := [.readPartial] }]
        accepting := s.accepting + 1 }
  | _ => s

/-- The bytes that an operation can have put into the buffer when it completes. -/
def delivers (buffer data : Bytes) : AsyncOp → ErrorCode → Bool
  | .readPartial, .success => contains crlfcrlf (buffer ++ data)
  | .readBody leftContentLength, .success => data.length = leftContentLength
  | .write _, _ => data = []
  | _, _ => true

def completion (handlers : Handlers ω) (ec : ErrorCode) : AsyncOp → Proc Fault (Connection ω) Bool
  | .readPartial => handleReadPartial handlers compression ec
  | .readBody _ => handleReadBody handlers compression ec
  | .write _ => handleWrite ec

def writtenBy (conn : Connection ω) : AsyncOp → Option Written
  | .write data => some { request := conn.request, response := conn.response, data }
  | _ => none

/-- One completion; `none` when it cannot happen or ends the process. -/
def step (s : ServerState ω) : Event → Option (ServerState ω)
  | .accept ec =>
      if s.accepting = 0 then none else some (handleAccept { s with accepting := s.accepting - 1 } ec)
  | .complete i op ec data =>
      s.clients[i]?.bind fun client =>
        let conn := { client.conn with
          globals := s.globals, buffer := client.conn.buffer ++ data, started := [] }
        if client.outstanding.any (· = op) ∧ delivers client.conn.buffer data op ec then
          match (completion compression deployment.handlers ec op).run conn with
          | .done _ conn =>
              if deployment.running conn.globals.world then
                some
                  { s with
                    globals := conn.globals
                    clients := s.clients.set i
                      { conn, outstanding := client.outstanding.eraseP (· = op) ++ conn.started }
                    written := s.written ++ conn.started.filterMap (writtenBy conn) }
              else none
          | _ => none
        else none

inductive Advances (handlers : Handlers ω) (s : ServerState ω) : Event → ServerState ω → Prop
  | accept {ec : ErrorCode} : s.accepting ≠ 0 →
      Advances handlers s (.accept ec) (handleAccept { s with accepting := s.accepting - 1 } ec)
  | complete {i : Nat} {op : AsyncOp} {ec : ErrorCode} {data : Bytes} {client : Client ω}
      {conn : Connection ω} {b : Bool} : s.clients[i]? = some client → op ∈ client.outstanding →
      delivers client.conn.buffer data op ec = true →
      (completion compression handlers ec op).run
        { client.conn with
          globals := s.globals, buffer := client.conn.buffer ++ data, started := [] } =
            .done b conn →
      Advances handlers s (.complete i op ec data)
        { s with
          globals := conn.globals
          clients := s.clients.set i
            { conn, outstanding := client.outstanding.eraseP (· = op) ++ conn.started }
          written := s.written ++ conn.started.filterMap (writtenBy conn) }

theorem advances_of_step {s s' : ServerState ω} {event : Event}
    (stepped : step deployment compression s event = some s') :
    Advances compression deployment.handlers s event s' := by
  cases event with
  | accept ec =>
      rw [step] at stepped
      split at stepped
      · cases stepped
      · rename_i waiting
        cases stepped
        exact .accept waiting
  | complete i op ec data =>
      rw [step] at stepped
      obtain ⟨client, here, stepped⟩ := Option.bind_eq_some_iff.mp stepped
      dsimp only at stepped
      split at stepped
      · rename_i enabled
        obtain ⟨waiting, delivered⟩ := enabled
        split at stepped
        · rename_i b conn ran
          split at stepped
          · cases stepped
            exact .complete here (by simpa using waiting) delivered ran
          · cases stepped
        · cases stepped
      · cases stepped

abbrev Run (init : ServerState ω) : List Event → ServerState ω → Prop :=
  LoggedRun (fun _ event s s' => step deployment compression s event = some s') init

abbrev Throughout (init : ServerState ω) (P : ServerState ω → Prop) : List Event → ServerState ω → Prop :=
  RunAlways (fun _ event s s' => step deployment compression s event = some s') init P

def after (s : ServerState ω) : List Event → Option (ServerState ω)
  | [] => some s
  | event :: events => (step deployment compression s event).bind fun s => after s events

variable {deployment compression}

theorem run_append {init s s' : ServerState ω} {log events : List Event}
    (run : Run deployment compression init log s)
    (more : after deployment compression s events = some s') :
    Run deployment compression init (events.reverse ++ log) s' := by
  induction events generalizing s log with
  | nil =>
      obtain rfl := Option.some.inj more
      exact run
  | cons event events ih =>
      obtain ⟨t, first, rest⟩ := Option.bind_eq_some_iff.mp more
      have later := ih (run.next first) rest
      rwa [List.reverse_cons, List.append_assoc]

theorem run_of_after {init s : ServerState ω} {events : List Event}
    (reached : after deployment compression init events = some s) :
    Run deployment compression init events.reverse s := by
  simpa using run_append .start reached

end ServerState
end TscServer.Model
