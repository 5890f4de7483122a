import TscServer.Lib.Proc
import TscServer.Model.Request
import TscServer.Model.Response
import TscServer.Model.ServerStatus

/-!
# Request handlers

The interface of `request_handler.h`, the configuration a handler is initialised with, and the ways
in which the code can leave a function other than by returning.
-/

namespace TscServer.Model
open Lib

inductive Status where
  | ok
  | handleFail
  | invalidRootFormat
  | invalidConfig
deriving DecidableEq, Repr

/-- Exceptions that no caller catches, and operations without a defined result. -/
inductive Fault where
  | outOfRange
  | invalidArgument
  | badLexicalCast
  | filesystemError
  | popBackEmpty
  | logicError
  | indeterminateValue
deriving DecidableEq, Repr

def Fault.ofNumber : NumberError → Fault
  | .invalidArgument => .invalidArgument
  | .outOfRange => .outOfRange

inductive NginxConfigStatement where
  | mk (tokens : List Bytes) (childBlock : Option (List NginxConfigStatement))

namespace NginxConfigStatement

def tokens : NginxConfigStatement → List Bytes
  | .mk tokens _ => tokens

end NginxConfigStatement

structure NginxConfig where
  statements : List NginxConfigStatement

structure Globals (ω : Type) where
  world : ω
  serverStatus : ServerStatus := {}

abbrev Handler (ω : Type) :=
  Request → Response → Globals ω → Status × Response × Globals ω

structure Handlers (ω : Type) where
  find : Bytes → Option (Handler ω)
  errorHandler : Handler ω
  find_errorHandler : find (bytes "ErrorHandler") = some errorHandler

end TscServer.Model
