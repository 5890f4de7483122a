import TscServer.Model.Connection

/-!
# A client session

One connection served from the chunks of bytes that its client's stream is cut into. Each step
completes the operation that the connection is waiting for, without an error, and runs its
completion handler.
-/

namespace TscServer.Model
open Lib Connection

structure Session (ω : Type) where
  conn : Connection ω
  pending : Option AsyncOp
  chunks : List Bytes

namespace Session
variable {ω : Type} (handlers : Handlers ω) (compression : Compression)

def start (globals : Globals ω) (chunks : List Bytes) : Session ω :=
  { conn := { globals }, pending := some .readPartial, chunks }

def complete (handler : Proc Fault (Connection ω) Bool) (conn : Connection ω) (chunks : List Bytes) :
    Option (Session ω) :=
  match handler.run { conn with started := [] } with
  | .done _ conn => some { conn, pending := conn.started.head?, chunks }
  | _ => none

def step (s : Session ω) : Option (Session ω) :=
  match s.pending with
  | none => none
  | some .readPartial =>
      (readUntil crlfcrlf s.chunks s.conn.buffer).bind fun (buffer, chunks) =>
        complete (handleReadPartial handlers compression .success) { s.conn with buffer } chunks
  | some (.readBody n) =>
      (readExactly s.chunks n).bind fun (data, chunks) =>
        complete (handleReadBody handlers compression .success)
          { s.conn with buffer := s.conn.buffer ++ data } chunks
  | some (.write _) => complete (handleWrite .success) s.conn s.chunks

def run : Nat → Session ω → Session ω
  | 0, s => s
  | n + 1, s =>
      match step handlers compression s with
      | some s' => run n s'
      | none => s

theorem run_of_step {s s' : Session ω} (h : step handlers compression s = some s') (n : Nat) :
    run handlers compression (n + 1) s = run handlers compression n s' := by
  rw [run, h]

theorem run_of_stuck {s : Session ω} (h : step handlers compression s = none) (n : Nat) :
    run handlers compression n s = s := by
  cases n with
  | zero => rfl
  | succ n => rw [run, h]

theorem run_add (m n : Nat) (s : Session ω) :
    run handlers compression (m + n) s =
      run handlers compression n (run handlers compression m s) := by
  induction m generalizing s with
  | zero => rw [Nat.zero_add, run]
  | succ m ih =>
      rw [Nat.succ_add, run, run]
      cases h : step handlers compression s with
      | some s' => exact ih s'
      | none => exact (run_of_stuck handlers compression h n).symm

end Session
end TscServer.Model
