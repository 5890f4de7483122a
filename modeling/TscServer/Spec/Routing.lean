import TscServer.Model.Connection

/-!
# Routes

Which key of the handlers a request is to go to: the longest one that ends at a segment boundary of
the URI, or the root when there is none and the request follows a page of this host.
-/

namespace TscServer.Spec
open Lib Model

def AtBoundary (key uri : Bytes) : Prop := key = uri ∨ key ++ [47] <+: uri

def FollowsHost (request : Request) : Prop :=
  request.getHeaderValueByName (bytes "Referer") ≠ [] ∧
    request.getHeaderValueByName (bytes "Host") <:+: request.getHeaderValueByName (bytes "Referer")

section Routing
variable {ω : Type} (handlers : Handlers ω)

structure LongestMatch (uri key : Bytes) : Prop where
  isKey : (handlers.find key).isSome
  atBoundary : AtBoundary key uri
  longest : ∀ other, (handlers.find other).isSome → AtBoundary other uri → other.length ≤ key.length

def NoMatch (uri : Bytes) : Prop := ∀ key, (handlers.find key).isSome → ¬ AtBoundary key uri

/-- The key that a request goes to; `none` when it is to be refused. -/
inductive Route (request : Request) : Option Bytes → Prop
  | longest {key : Bytes} : LongestMatch handlers request.uri key → Route request (some key)
  | followed : NoMatch handlers request.uri → (handlers.find (bytes "/")).isSome →
      FollowsHost request → Route request (some (bytes "/"))
  | refused : NoMatch handlers request.uri →
      ¬ ((handlers.find (bytes "/")).isSome ∧ FollowsHost request) → Route request none

end Routing
end TscServer.Spec
