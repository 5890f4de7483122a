import TscServer.Model.ServerRun

/-!
# Outstanding operations

What the acceptor and the connections wait for while the server runs, with any handlers that return.
-/

namespace TscServer.Spec
open Lib Model ServerState

section Operations
variable {ω : Type}

abbrev ServingRun (handlers : Handlers ω) (compression : Compression) (init : ServerState ω) :
    List Event → ServerState ω → Prop :=
  LoggedRun (fun _ event s s' => Advances compression handlers s event s') init

def completedOp (i : Nat) : Event → Option AsyncOp
  | .accept _ => none
  | .complete j op _ _ => if j = i then some op else none

/-- The operations of a connection in the order of their starts: those that completed, and those that it
waits for. -/
def operations (log : List Event) (i : Nat) (client : Client ω) : List AsyncOp :=
  log.reverse.filterMap (completedOp i) ++ client.outstanding

def isBodyRead : AsyncOp → Bool
  | .readBody _ => true
  | _ => false

def isWrite : AsyncOp → Bool
  | .write _ => true
  | _ => false

def Alternate (ops : List AsyncOp) : Prop :=
  (ops.filter fun op => !isBodyRead op).IsChain fun op next => isWrite op ≠ isWrite next

def Aborted (log : List Event) (i : Nat) : Prop :=
  ∃ op data, Event.complete i op .operationAborted data ∈ log

structure Attends (log : List Event) (s : ServerState ω) : Prop where
  accepting : s.accepting = 1
  waits : ∀ i client, s.clients[i]? = some client → (∃ op, client.outstanding = [op]) ∨
    client.outstanding = [] ∧ (client.conn.closed = true ∨ Aborted log i)
  alternate : ∀ i client, s.clients[i]? = some client → Alternate (operations log i client)

end Operations
end TscServer.Spec
