import TscServer.Model.Server

/-!
# Registered handlers at work

The handlers that connections call are those that the server registered. What surrounds them, such as
the file system and the upstreams, decides what a call returns; a call that does not return ends the
process.
-/

namespace TscServer.Model
open Lib

/-- What a connection calls. An exception that a handler throws ends the process; whether one was
thrown shows in the state of the handlers. -/
structure Deployment (ω : Type) where
  handlers : Handlers ω
  running : ω → Bool
  registered : ∀ key handler, handlers.find key = some handler → ∃ r : RegisteredHandler,
    ∀ request response globals,
      running (handler request response globals).2.2.world = true →
      running globals.world = true ∧
        r.Returns request response globals.serverStatus (handler request response globals).1
          (handler request response globals).2.1 ∧
        (handler request response globals).2.2.serverStatus = globals.serverStatus
  errorHandler : ∀ request response globals,
    handlers.errorHandler request response globals =
      ((ErrorHandler.handleRequest response).1, (ErrorHandler.handleRequest response).2, globals)

/-! ## A deployment for given surroundings -/

structure Surroundings where
  fs : FileSystem
  markdown : Bytes → Bytes
  python : Interpreter
  database : Database
  env : Bytes → Environment
  fuel : Nat

/-- The state of the proxy handler under each prefix, unless the process has ended. -/
abbrev World := Option (Bytes → ProxyState)

namespace RegisteredHandler

def answer (around : Surroundings) (request : Request) (response : Response)
    (serverStatus : ServerStatus) (states : Bytes → ProxyState) :
    RegisteredHandler → Option (Status × Response × (Bytes → ProxyState))
  | .echo _ =>
      let (result, response) := EchoHandler.handleRequest request response
      some (result, response, states)
  | .status _ =>
      let (result, response) := StatusHandler.handleRequest serverStatus response
      some (result, response, states)
  | .static handler =>
      match (handler.handleRequest around.fs around.markdown request).run { response } with
      | .done result s => some (result, s.response, states)
      | _ => none
  | .python handler =>
      match handler.handleRequest around.python request response with
      | .ok (result, response) => some (result, response, states)
      | .error _ => none
  | .proxy handler =>
      match (ProxyHandler.handleRequest (around.env handler.uriPrefix) handler around.fuel request
          response).run (states handler.uriPrefix) with
      | .done (result, response) s =>
          some (result, response, Function.update states handler.uriPrefix s)
      | _ => none
  | .error =>
      let (result, response) := ErrorHandler.handleRequest response
      some (result, response, states)
  | .db _ =>
      match DbHandler.handleRequest around.database request response with
      | .ok (result, response) => some (result, response, states)
      | .error _ => none

theorem returns_of_answer {around : Surroundings} {handler : RegisteredHandler} {request : Request}
    {response response' : Response} {serverStatus : ServerStatus} {states states' : Bytes → ProxyState}
    {result : Status}
    (answered : answer around request response serverStatus states handler =
      some (result, response', states')) :
    handler.Returns request response serverStatus result response' := by
  cases handler with
  | echo uriPrefix =>
      cases answered
      exact .echo
  | status uriPrefix =>
      cases answered
      exact .status
  | static handler =>
      rw [answer] at answered
      split at answered
      · rename_i ran
        cases answered
        exact .static ran
      · cases answered
  | python handler =>
      rw [answer] at answered
      split at answered
      · rename_i ran
        cases answered
        exact .python ran
      · cases answered
  | proxy handler =>
      rw [answer] at answered
      split at answered
      · rename_i ran
        cases answered
        exact .proxy ran
      · cases answered
  | error =>
      cases answered
      exact .error
  | db uriPrefix =>
      rw [answer] at answered
      split at answered
      · rename_i ran
        cases answered
        exact .db ran
      · cases answered

/-- A call ends the process when it does not return. -/
def call (around : Surroundings) (handler : RegisteredHandler) : Handler World :=
  fun request response globals =>
    match globals.world.bind fun states =>
        answer around request response globals.serverStatus states handler with
    | some (result, response, states) => (result, response, { globals with world := some states })
    | none => (.handleFail, response, { globals with world := none })

theorem call_returns {around : Surroundings} {handler : RegisteredHandler} {request : Request}
    {response : Response} {globals : Globals World}
    (running : (call around handler request response globals).2.2.world.isSome = true) :
    globals.world.isSome = true ∧
      handler.Returns request response globals.serverStatus
        (call around handler request response globals).1
        (call around handler request response globals).2.1 ∧
      (call around handler request response globals).2.2.serverStatus = globals.serverStatus := by
  unfold call at running ⊢
  split
  · rename_i result response' states' answered
    obtain ⟨states, alive, answered⟩ := Option.bind_eq_some_iff.mp answered
    exact ⟨by rw [alive]; rfl, returns_of_answer answered, rfl⟩
  · rename_i stopped
    rw [stopped] at running
    cases running

end RegisteredHandler

def deploy (around : Surroundings) (table : AList fun _ : Bytes => RegisteredHandler) :
    Deployment World where
  handlers :=
    { find := fun key =>
        if key = bytes "ErrorHandler" then
          some fun _ response globals =>
            ((ErrorHandler.handleRequest response).1, (ErrorHandler.handleRequest response).2, globals)
        else (table.lookup key).map (RegisteredHandler.call around)
      errorHandler := fun _ response globals =>
        ((ErrorHandler.handleRequest response).1, (ErrorHandler.handleRequest response).2, globals)
      find_errorHandler := if_pos rfl }
  running := Option.isSome
  registered := by
    intro key handler found
    dsimp only at found
    split at found
    · obtain rfl := Option.some.inj found
      exact ⟨.error, fun _ _ _ running => ⟨running, .error, rfl⟩⟩
    · obtain ⟨r, -, rfl⟩ := Option.map_eq_some_iff.mp found
      exact ⟨r, fun _ _ _ running => RegisteredHandler.call_returns running⟩
  errorHandler _ _ _ := rfl

end TscServer.Model
