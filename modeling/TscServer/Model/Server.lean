import TscServer.Model.ConfigHandler
import TscServer.Model.FormHandlers
import TscServer.Model.ProxyHandler
import TscServer.Model.StaticFileHandler

/-!
# The server

`Server::init` of `server.cc` up to the acceptor: the handlers of a configuration are created and
initialised, and recorded in the statistics. What a call of such a handler returns is a relation,
since the file system, the interpreter, the database and the upstreams are not fixed.
-/

namespace TscServer.Model
open Lib

inductive RegisteredHandler where
  | echo (uriPrefix : Bytes)
  | status (uriPrefix : Bytes)
  | static (handler : StaticFileHandler)
  | python (handler : PythonHandler)
  | proxy (handler : ProxyHandler)
  | error
  | db (uriPrefix : Bytes)
deriving DecidableEq

/-- A call of `HandleRequest` returns this status and this response. -/
inductive RegisteredHandler.Returns (request : Request) (response : Response)
    (serverStatus : ServerStatus) : RegisteredHandler → Status → Response → Prop
  | echo {uriPrefix : Bytes} :
      Returns request response serverStatus (.echo uriPrefix)
        (EchoHandler.handleRequest request response).1 (EchoHandler.handleRequest request response).2
  | status {uriPrefix : Bytes} :
      Returns request response serverStatus (.status uriPrefix)
        (StatusHandler.handleRequest serverStatus response).1
        (StatusHandler.handleRequest serverStatus response).2
  | static {handler : StaticFileHandler} {fs : FileSystem} {markdown : Bytes → Bytes} {status : Status}
      {s : StaticFileState} :
      (handler.handleRequest fs markdown request).run { response } = .done status s →
      Returns request response serverStatus (.static handler) status s.response
  | python {handler : PythonHandler} {python : Interpreter} {status : Status} {response' : Response} :
      handler.handleRequest python request response = .ok (status, response') →
      Returns request response serverStatus (.python handler) status response'
  | proxy {handler : ProxyHandler} {env : Environment} {fuel : Nat} {status : Status}
      {response' : Response} {s s' : ProxyState} :
      (ProxyHandler.handleRequest env handler fuel request response).run s =
        .done (status, response') s' →
      Returns request response serverStatus (.proxy handler) status response'
  | error :
      Returns request response serverStatus .error
        (ErrorHandler.handleRequest response).1 (ErrorHandler.handleRequest response).2
  | db {uriPrefix : Bytes} {database : Database} {status : Status} {response' : Response} :
      DbHandler.handleRequest database request response = .ok (status, response') →
      Returns request response serverStatus (.db uriPrefix) status response'

structure Server where
  totalThreadNum : Int
  handlers : AList fun _ : Bytes => RegisteredHandler := ∅
  serverStatus : ServerStatus := {}

namespace Server

abbrev Init := Bytes → NginxConfig → Option (Status × RegisteredHandler)

def initEcho : Init := fun uriPrefix _ => some (.ok, .echo uriPrefix)

def initStatus : Init := fun uriPrefix _ => some (.ok, .status uriPrefix)

def initStatic : Init := fun uriPrefix config =>
  (StaticFileHandler.init uriPrefix config).map fun (status, handler) => (status, .static handler)

def initPython : Init := fun uriPrefix config =>
  (PythonHandler.init uriPrefix config).map fun (status, handler) => (status, .python handler)

def initProxy : Init := fun uriPrefix config =>
  (ProxyHandler.init uriPrefix config).map fun (status, handler) => (status, .proxy handler)

def initError : Init := fun _ _ => some (.ok, .error)

def initDb : Init := fun uriPrefix _ => some (.ok, .db uriPrefix)

def registerEach (name : Bytes) (init : Init) :
    List Bytes → List NginxConfig → Server → Except Refusal Server
  | [], _, server => .ok server
  | _ :: _, [], _ => .error (.fault .indeterminateValue)
  | uriPrefix :: uriPrefixes, config :: configs, server =>
      match init uriPrefix config with
      | none => .error (.fault .indeterminateValue)
      | some (status, handler) =>
          if status ≠ .ok then .error .invalid
          else
            registerEach name init uriPrefixes configs
              { server with
                handlers := server.handlers.insert uriPrefix handler
                serverStatus := server.serverStatus.addHandlerToUri name uriPrefix }

/-- A handler under a key of its own. Only one of the two statuses is checked, and both are ok. -/
def registerFixed (key : Bytes) (init : Init) (uriPrefix : Bytes) (server : Server) :
    Except Refusal Server :=
  match init uriPrefix { statements := [] } with
  | none => .error (.fault .indeterminateValue)
  | some (_, handler) => .ok { server with handlers := server.handlers.insert key handler }

def registerHandlers (opts : ConfigOpts) : Except Refusal Server := do
  let empty (uriPrefixes : List Bytes) : List NginxConfig :=
    uriPrefixes.map fun _ => { statements := [] }
  let server : Server := { totalThreadNum := opts.threadCount }
  let server ← registerEach (bytes "EchoHandler") initEcho opts.echoUriPrefixes
    (empty opts.echoUriPrefixes) server
  let server ← registerEach (bytes "StatusHandler") initStatus opts.statusUriPrefixes
    (empty opts.statusUriPrefixes) server
  let server ← registerEach (bytes "StaticHandler") initStatic opts.staticFileUriPrefixes
    opts.staticFileConfig server
  let server ← registerEach (bytes "PythonHandler") initPython opts.pythonUriPrefixes
    opts.pythonConfig server
  let server ← registerEach (bytes "ProxyHandler") initProxy opts.proxyUriPrefixes opts.proxyConfig
    server
  let server ← registerFixed (bytes "ErrorHandler") initError (bytes "ErrorHandler") server
  registerFixed (bytes "/DbHandler") initDb (bytes "DbHandler") server

def init (text : Bytes) : Except Refusal Server := do
  let configHandler ← ConfigHandler.handleConfig text
  registerHandlers configHandler.configOpt

end Server
end TscServer.Model
