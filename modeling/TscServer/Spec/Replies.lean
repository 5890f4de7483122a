import TscServer.Model.PageHandlers
import TscServer.Model.Session

/-!
# Replies

What a client sees of its next message: the bytes that are written for it, and whether the connection
is closed after them.
-/

namespace TscServer.Spec
open Lib Model Connection

structure Observed where
  data : Bytes
  closes : Bool
deriving DecidableEq

section Replies
variable {ω : Type} (handlers : Handlers ω) (compression : Compression)

def answered (s : Session ω) : Option (Session ω) :=
  (Session.step handlers compression s).bind fun s =>
    match s.pending with
    | some (.readBody _) => Session.step handlers compression s
    | _ => some s

def reply (s : Session ω) : Option Observed :=
  (answered handlers compression s).bind fun s =>
    match s.pending with
    | some (.write data) =>
        (Session.step handlers compression s).map fun after => { data, closes := after.conn.closed }
    | _ => none

structure AnswersByRequest : Prop where
  answers : ∀ key handler, handlers.find key = some handler → ∃ answer : Request → Status × Response,
    ∀ request globals, ∃ globals',
      handler request {} globals = ((answer request).1, (answer request).2, globals')
  errorHandler : ∀ request response globals, ∃ globals',
    handlers.errorHandler request response globals =
      ((ErrorHandler.handleRequest response).1, (ErrorHandler.handleRequest response).2, globals')

end Replies

def AsksCoding (request : Request) : Prop :=
  let encodings := (request.getHeaderValueByName (bytes "Accept-Encoding")).filter (· != 32)
  bytes "gzip" ∈ encodings.splitOn 44 ∨ bytes "deflate" ∈ encodings.splitOn 44

def Unmarked (last : Request) (chunks : List Bytes) : Prop :=
  ∀ message rest, readUntil crlfcrlf chunks [] = some (message, rest) →
    (Request.parse message).isSome ∨ ¬ AsksCoding last

end TscServer.Spec
