import TscServer.Spec.Operations

/-!
# One client among others

What an interleaved run of the server shows of one client: the completions of its own operations, and a
connection of which only the shared part may come from elsewhere.
-/

namespace TscServer.Spec
open Lib Model Connection ServerState

structure Completion where
  op : AsyncOp
  ec : ErrorCode
  data : Bytes

namespace Completion

def arrives (done_ : Completion) : ErrorCode × Bytes := (done_.ec, done_.data)

def delivers (done_ : Completion) : Option Bytes :=
  match done_.op with
  | .write _ => none
  | _ => some done_.data

end Completion

def completionOf (i : Nat) : Event → Option Completion
  | .accept _ => none
  | .complete j op ec data => if j = i then some { op, ec, data } else none

def servedAlone (completions : List Completion) : List Event :=
  completions.map (fun done_ => .complete 0 done_.op done_.ec done_.data) ++ [.accept .success]

section Clients
variable {ω : Type}

/-- One completion of a client, whatever has become of what all clients share. -/
inductive Completes (handlers : Handlers ω) (compression : Compression) (done_ : Completion)
    (client : Client ω) : Client ω → Prop
  | intro {globals : Globals ω} {conn : Connection ω} {b : Bool} : done_.op ∈ client.outstanding →
      ServerState.delivers client.conn.buffer done_.data done_.op done_.ec = true →
      (completion compression handlers done_.ec done_.op).run
        { client.conn with globals, buffer := client.conn.buffer ++ done_.data, started := [] } = .done b conn →
      Completes handlers compression done_ client
        { conn, outstanding := client.outstanding.eraseP (· = done_.op) ++ conn.started }

abbrev ClientRun (handlers : Handlers ω) (compression : Compression) : Client ω → List Completion →
    Client ω → Prop :=
  LoggedRun fun _ => Completes handlers compression

def Accepted (client : Client ω) : Prop :=
  ∃ globals, client = { conn := { globals }, outstanding := [.readPartial] }

def SameClient (client other : Client ω) : Prop :=
  ∃ globals, other = { client with conn := { client.conn with globals } }

end Clients
end TscServer.Spec
