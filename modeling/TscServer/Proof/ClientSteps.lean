import TscServer.Lib.Agreement
import TscServer.Spec.Clients
import TscServer.Spec.Replies

/-!
# Completion handlers and what is shared

Where the answers of the handlers are settled by the requests, a completion handler does the same to two
connections that differ in what they share with others.
-/

namespace TscServer.Proof
open Lib Model Spec Connection

section Alike
variable {ω : Type} {handlers : Handlers ω} {compression : Compression} {P : Connection ω → Connection ω → Prop}

def Alike (c d : Connection ω) : Prop := ∃ globals, d = { c with globals }

def AlikeUnanswered (c d : Connection ω) : Prop := Alike c d ∧ c.response = {}

theorem Alike.refl (c : Connection ω) : Alike c c := ⟨c.globals, rfl⟩

theorem agrees_start (op : AsyncOp) : Proc.Agrees Alike Alike (start (ω := ω) op) (start op) := by
  apply Proc.agrees_modify
  intro c _ ⟨globals, same⟩
  subst same
  exact ⟨globals, rfl⟩

theorem agrees_closeSocket : Proc.Agrees Alike Alike (closeSocket (ω := ω)) closeSocket := by
  apply Proc.agrees_modify
  intro c _ ⟨globals, same⟩
  subst same
  exact ⟨globals, rfl⟩

theorem agrees_consumeBuffer : Proc.Agrees AlikeUnanswered AlikeUnanswered (consumeBuffer (ω := ω)) consumeBuffer := by
  intro c _ ⟨⟨globals, same⟩, empty⟩
  subst same
  exact .done ⟨⟨globals, rfl⟩, empty⟩

theorem agrees_runHandler {handler : Handler ω} {answer : Request → Status × Response} {request : Request}
    (answers : ∀ globals, ∃ globals', handler request {} globals = ((answer request).1, (answer request).2, globals')) :
    Proc.Agrees AlikeUnanswered Alike (runHandler handler request) (runHandler handler request) := by
  intro c _ ⟨⟨globals, same⟩, empty⟩
  subst same
  obtain ⟨after, called⟩ := answers c.globals
  obtain ⟨after', called'⟩ := answers globals
  simp only [runHandler, empty, called, called']
  exact .done ⟨after', rfl⟩

theorem agrees_handleError (byRequest : AnswersByRequest handlers) :
    Proc.Agrees Alike Alike (handleError handlers) (handleError handlers) := by
  apply Proc.agrees_get_bind
  intro c _ ⟨globals, same⟩
  subst same
  apply Proc.Agrees.bind (Q := Alike) _ fun _ => Proc.agrees_pure ()
  intro _ _ ⟨left, right⟩
  subst left right
  obtain ⟨after, called⟩ := byRequest.errorHandler c.request c.response c.globals
  obtain ⟨after', called'⟩ := byRequest.errorHandler c.request c.response globals
  simp only [runHandler, called, called']
  exact .done ⟨after', rfl⟩

theorem agrees_processRequest (byRequest : AnswersByRequest handlers) (request : Request) :
    Proc.Agrees AlikeUnanswered Alike (processRequest handlers request) (processRequest handlers request) := by
  apply Proc.Agrees.bind (Q := AlikeUnanswered)
  · apply Proc.agrees_modify
    intro c _ ⟨⟨globals, same⟩, empty⟩
    subst same
    exact ⟨⟨globals, rfl⟩, empty⟩
  intro _
  cases selectPrefix handlers request with
  | none => exact Proc.agrees_spin
  | some longest =>
      dsimp only
      cases found : (if longest = [] then none else handlers.find longest) with
      | none =>
          apply Proc.Agrees.bind (Q := Alike) _ fun _ => Proc.agrees_pure false
          apply Proc.agrees_modify
          intro c _ ⟨⟨globals, same⟩, _⟩
          subst same
          exact ⟨globals, rfl⟩
      | some handler =>
          split at found
          · cases found
          · obtain ⟨answer, answers⟩ := byRequest.answers longest handler found
            exact (agrees_runHandler (answers request)).bind fun _ => Proc.agrees_pure _

theorem agrees_doWrite : Proc.Agrees Alike Alike (doWrite (ω := ω) compression) (doWrite compression) := by
  apply Proc.Agrees.bind (Q := Alike)
  · apply Proc.agrees_modify
    intro c _ ⟨globals, same⟩
    subst same
    exact ⟨_, rfl⟩
  intro _
  apply Proc.agrees_get_bind
  intro c _ ⟨globals, same⟩
  subst same
  apply (agrees_start _).mono _ fun _ _ related => related
  intro _ _ ⟨left, right⟩
  subst left right
  exact ⟨globals, rfl⟩

theorem agrees_respond (byRequest : AnswersByRequest handlers) (request : Request) :
    Proc.Agrees AlikeUnanswered Alike (respond handlers compression request) (respond handlers compression request) := by
  apply (agrees_processRequest byRequest request).bind
  intro handled
  have writes : Proc.Agrees Alike Alike (doWrite (ω := ω) compression >>= fun _ => pure true)
      (doWrite compression >>= fun _ => pure true) := agrees_doWrite.bind fun _ => Proc.agrees_pure true
  cases handled with
  | true => exact writes
  | false => exact (agrees_handleError byRequest).bind fun _ => writes

theorem agrees_fails (ec : ErrorCode) (failed : ec ≠ .success) (op : AsyncOp) :
    Proc.Agrees Alike Alike (ServerState.completion compression handlers ec op)
      (ServerState.completion compression handlers ec op) := by
  have breaks : Proc.Agrees Alike Alike (closeSocket (ω := ω) >>= fun _ => pure false)
      (closeSocket >>= fun _ => pure false) := agrees_closeSocket.bind fun _ => Proc.agrees_pure false
  cases ec with
  | success => exact absurd rfl failed
  | operationAborted => cases op <;> exact Proc.agrees_pure false
  | other code => cases op <;> exact breaks

theorem agrees_handleReadPartial (byRequest : AnswersByRequest handlers) :
    Proc.Agrees AlikeUnanswered Alike (handleReadPartial handlers compression .success)
      (handleReadPartial handlers compression .success) := by
  apply agrees_consumeBuffer.bind
  intro rawRequest
  apply Proc.Agrees.bind (Q := AlikeUnanswered)
  · apply Proc.agrees_modify
    intro c _ ⟨⟨globals, same⟩, empty⟩
    subst same
    exact ⟨⟨globals, rfl⟩, empty⟩
  intro _
  cases Request.parse rawRequest with
  | none =>
      apply Proc.Agrees.bind (Q := Alike)
      · apply Proc.agrees_modify
        intro c _ ⟨⟨globals, same⟩, _⟩
        subst same
        exact ⟨globals, rfl⟩
      intro _
      exact (agrees_handleError byRequest).bind fun _ => agrees_doWrite.bind fun _ => Proc.agrees_pure true
  | some request =>
      apply Proc.Agrees.bind (Q := AlikeUnanswered)
      · apply Proc.agrees_modify
        intro c _ ⟨⟨globals, same⟩, empty⟩
        subst same
        exact ⟨⟨globals, rfl⟩, empty⟩
      intro _
      apply (Proc.agrees_ofOption _ _).bind
      intro contentLength
      split
      · apply Proc.Agrees.bind (Q := Alike) _ fun _ => Proc.agrees_pure true
        exact (agrees_start _).mono (fun _ _ related => related.1) fun _ _ related => related
      · exact agrees_respond byRequest request

theorem agrees_handleReadBody (byRequest : AnswersByRequest handlers) :
    Proc.Agrees AlikeUnanswered Alike (handleReadBody handlers compression .success)
      (handleReadBody handlers compression .success) := by
  apply agrees_consumeBuffer.bind
  intro leftRequest
  apply Proc.Agrees.bind (Q := AlikeUnanswered)
  · apply Proc.agrees_modify
    intro c _ ⟨⟨globals, same⟩, empty⟩
    subst same
    exact ⟨⟨globals, rfl⟩, empty⟩
  intro _
  apply Proc.agrees_get_bind
  intro c _ ⟨⟨globals, same⟩, empty⟩
  subst same
  apply (agrees_respond byRequest c.request).mono _ fun _ _ related => related
  intro _ _ ⟨left, right⟩
  subst left right
  exact ⟨⟨globals, rfl⟩, empty⟩

theorem agrees_handleWrite : Proc.Agrees Alike Alike (handleWrite (ω := ω) .success) (handleWrite .success) := by
  apply Proc.agrees_get_bind
  intro c _ ⟨globals, same⟩
  subst same
  have related : ∀ s t, c = s ∧ { c with globals } = t → Alike s t := by
    intro _ _ ⟨left, right⟩
    subst left right
    exact ⟨globals, rfl⟩
  apply Proc.Agrees.mono (P := Alike) (Q := Alike) _ related fun _ _ after => after
  dsimp only
  split
  · exact agrees_closeSocket.bind fun _ => Proc.agrees_pure true
  · apply Proc.Agrees.bind (Q := Alike) _ fun _ => Proc.agrees_pure true
    apply Proc.Agrees.bind (Q := Alike) _ fun _ => agrees_start _
    apply Proc.agrees_modify
    intro d _ ⟨globals', same⟩
    subst same
    exact ⟨globals', rfl⟩

/-- What a completion does to a connection does not depend on what all connections share. -/
theorem agrees_completion (byRequest : AnswersByRequest handlers) (ec : ErrorCode) (op : AsyncOp) :
    Proc.Agrees (fun c d => Alike c d ∧ ((∀ data, op ≠ .write data) → c.response = {})) Alike
      (ServerState.completion compression handlers ec op) (ServerState.completion compression handlers ec op) := by
  by_cases failed : ec = .success
  · subst failed
    cases op with
    | readPartial =>
        apply (agrees_handleReadPartial byRequest).mono _ fun _ _ after => after
        exact fun c d ⟨alike, empty⟩ => ⟨alike, empty (by simp)⟩
    | readBody n =>
        apply (agrees_handleReadBody byRequest).mono _ fun _ _ after => after
        exact fun c d ⟨alike, empty⟩ => ⟨alike, empty (by simp)⟩
    | write data => exact agrees_handleWrite.mono (fun _ _ related => related.1) fun _ _ after => after
  · exact (agrees_fails ec failed op).mono (fun _ _ related => related.1) fun _ _ after => after

end Alike
end TscServer.Proof
