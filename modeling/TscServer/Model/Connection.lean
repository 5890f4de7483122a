import TscServer.Lib.Chunks
import TscServer.Model.RequestHandler

/-!
# Connections

`Connection` of `connection.cc`. Starting an asynchronous operation is recorded in `started`, and
the requests given to `ProcessRequest` in `processed`.
-/

namespace TscServer.Model
open Lib

inductive ErrorCode where
  | success
  | operationAborted
  | other (code : Nat)
deriving DecidableEq, Repr

inductive AsyncOp where
  | readPartial
  | readBody (leftContentLength : Nat)
  | write (data : Bytes)
deriving DecidableEq, Repr

/-- The two compressors of `body_compression.cc`, on a body that zlib can compress. -/
structure Compression where
  compressGzip : Bytes → Bytes
  compressDeflate : Bytes → Bytes

structure Connection (ω : Type) where
  globals : Globals ω
  buffer : Bytes := []
  response : Response := {}
  request : Request := {}
  rawRequest : Bytes := []
  closed : Bool := false
  started : List AsyncOp := []
  processed : List Request := []

namespace Connection
variable {ω : Type}

def start (op : AsyncOp) : Proc Fault (Connection ω) Unit :=
  .modify fun c => { c with started := c.started ++ [op] }

def closeSocket : Proc Fault (Connection ω) Unit := .modify fun c => { c with closed := true }

def doReadPartial : Proc Fault (Connection ω) Unit := do
  Proc.modify fun c => { c with response := c.response.clear }
  start .readPartial

def doReadBody (leftContentLength : Nat) : Proc Fault (Connection ω) Unit :=
  start (.readBody leftContentLength)

/-- The loop of `ProcessRequest` that cuts the URI at its last slash until it is a key. A string
without a slash is never cut, so the loop ends within one round for each byte or not at all. -/
def longestPrefix (handlers : Handlers ω) : Nat → Bytes → Option Bytes
  | 0, _ => none
  | fuel + 1, longest =>
      if longest = [] then some []
      else if (handlers.find longest).isSome then some longest
      else
        longestPrefix handlers fuel
          (match findLast 47 longest with
          | some pos => longest.take pos
          | none => longest)

/-- The key that `ProcessRequest` selects, empty when there is none; `none` when the loop never
ends. -/
def selectPrefix (handlers : Handlers ω) (request : Request) : Option Bytes :=
  (longestPrefix handlers (request.uri.length + 1) request.uri).map fun longest =>
    if longest = [] then
      let referer := request.getHeaderValueByName (bytes "Referer")
      let host := request.getHeaderValueByName (bytes "Host")
      if referer ≠ [] ∧ contains host referer ∧ (handlers.find (bytes "/")).isSome then bytes "/"
      else []
    else longest

def runHandler (handler : Handler ω) (request : Request) : Proc Fault (Connection ω) Status where
  run c :=
    let (status, response, globals) := handler request c.response c.globals
    .done status { c with response, globals }

def processRequest (handlers : Handlers ω) (request : Request) :
    Proc Fault (Connection ω) Bool := do
  Proc.modify fun c => { c with processed := c.processed ++ [request] }
  match selectPrefix handlers request with
  | none => Proc.spin
  | some longest =>
      match if longest = [] then none else handlers.find longest with
      | none =>
          Proc.modify fun c => { c with response := c.response.setStatus .badRequest }
          return false
      | some handler => return (← runHandler handler request) == .ok

def handleError (handlers : Handlers ω) : Proc Fault (Connection ω) Unit := do
  let c ← Proc.get
  let _ ← runHandler handlers.errorHandler c.request
  return ()

def compressPayload (compression : Compression) (request : Request) (response : Response) : Response :=
  let encodings := (request.getHeaderValueByName (bytes "Accept-Encoding")).filter (· != 32)
  let encodeFormat := encodings.splitOn 44
  let replaceBody (encoding : String) (compressed : Bytes) :=
    ((response.addHeader (bytes "Content-Encoding") (bytes encoding)).setBody compressed).addHeader
      (bytes "Content-Length") (toDecimal compressed.length)
  if request.getHeaderValueByName (bytes "Accept-Encoding") = [] then response
  else if bytes "gzip" ∈ encodeFormat then
    replaceBody "gzip" (compression.compressGzip response.body)
  else if bytes "deflate" ∈ encodeFormat then
    replaceBody "deflate" (compression.compressDeflate response.body)
  else response

def asksClose (request : Request) : Bool :=
  request.getHeaderValueByName (bytes "Connection") = bytes "close"

def doWrite (compression : Compression) : Proc Fault (Connection ω) Unit := do
  Proc.modify fun c =>
    let response := c.response.addHeader (bytes "Connection")
      (if asksClose c.request then bytes "close" else bytes "keep-alive")
    { c with
      globals := { c.globals with
        serverStatus := c.globals.serverStatus.insertRecord c.request.uri response.status }
      response :=
        if response.isImage then response else compressPayload compression c.request response }
  let c ← Proc.get
  start (.write c.response.toBytes)

@[simp] theorem run_runHandler_bind {α : Type} (handler : Handler ω) (request : Request)
    (f : Status → Proc Fault (Connection ω) α) (c : Connection ω) :
    (runHandler handler request >>= f).run c =
      (f (handler request c.response c.globals).1).run
        { c with
          response := (handler request c.response c.globals).2.1
          globals := (handler request c.response c.globals).2.2 } := rfl

def consumeBuffer : Proc Fault (Connection ω) Bytes where
  run c := .done c.buffer { c with buffer := [] }

@[simp] theorem run_consumeBuffer_bind {α : Type} (f : Bytes → Proc Fault (Connection ω) α)
    (c : Connection ω) : (consumeBuffer >>= f).run c = (f c.buffer).run { c with buffer := [] } := rfl

def contentLength (request : Request) : Option Nat :=
  let value := request.getHeaderValueByName (bytes "Content-Length")
  if value = [] then some 0 else lexicalCast value

def respond (handlers : Handlers ω) (compression : Compression) (request : Request) :
    Proc Fault (Connection ω) Bool := do
  if ← processRequest handlers request then pure () else handleError handlers
  doWrite compression
  return true

def handleReadPartial (handlers : Handlers ω) (compression : Compression) :
    ErrorCode → Proc Fault (Connection ω) Bool
  | .success => do
      let rawRequest ← consumeBuffer
      Proc.modify fun c => { c with rawRequest }
      match Request.parse rawRequest with
      | none =>
          Proc.modify fun c => { c with response := c.response.setStatus .badRequest }
          handleError handlers
          doWrite compression
          return true
      | some request =>
          Proc.modify fun c => { c with request }
          let contentLength ← Proc.ofOption .badLexicalCast (contentLength request)
          if request.body.length < contentLength then
            doReadBody (contentLength - request.body.length)
            return true
          else respond handlers compression request
  | .operationAborted => return false
  | .other _ => do
      closeSocket
      return false

def handleReadBody (handlers : Handlers ω) (compression : Compression) :
    ErrorCode → Proc Fault (Connection ω) Bool
  | .success => do
      let leftRequest ← consumeBuffer
      Proc.modify fun c => { c with request := c.request.appendBody leftRequest }
      let c ← Proc.get
      respond handlers compression c.request
  | .operationAborted => return false
  | .other _ => do
      closeSocket
      return false

def handleWrite : ErrorCode → Proc Fault (Connection ω) Bool
  | .success => do
      let c ← Proc.get
      if asksClose c.request then closeSocket else doReadPartial
      return true
  | .operationAborted => return false
  | .other _ => do
      closeSocket
      return false

end Connection
end TscServer.Model
