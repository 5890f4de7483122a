import TscServer.Proof.SentResponses
import TscServer.Proof.Transparency

/-!
# The length of every page

Whatever the events, every response that is written without a raw response announces the length of its
body once.
-/

namespace TscServer.Proof
open Lib Model Spec ServerState

section Run
variable {ω : Type} {deployment : Deployment ω} {compression : Compression} {world : ω}
  {handlerToUri : AList fun _ : Bytes => List Bytes} {log : List Event} {s : ServerState ω}

theorem composed_of_run
    (run : Run deployment compression (ServerState.start world handlerToUri) log s) :
    ∀ w ∈ s.written, ∃ answer, Composed compression w answer := by
  refine written_of_run ?_ run
  intro log s s' w answer _ writes
  exact ⟨answer, writes.composed⟩

theorem sentPage_of_composed {w : Written} {answer : Response} (composed : Composed compression w answer)
    (raw : w.response.rawResponse = []) : SentPage w.request answer w.response := by
  obtain ⟨page | ⟨nonempty, -⟩, response, -⟩ := composed
  · exact response ▸ sentPage compression page
  · rw [response, sent_raw] at raw
    exact absurd raw nonempty

/-- A response that is not a raw one announces its length. -/
theorem written_framed
    (run : Run deployment compression (ServerState.start world handlerToUri) log s) :
    ∀ w ∈ s.written, w.response.rawResponse = [] → Framed w.data := by
  intro w mem raw
  obtain ⟨answer, composed⟩ := composed_of_run run w mem
  rw [composed.data]
  exact (sentPage_of_composed composed raw).framed

end Run

/-! ## A request for a compressed echo -/

def surroundings (answers : List Answer) : Surroundings where
  fs := ⟨fun _ => some false, fun _ => none⟩
  markdown := id
  python _ _ _ _ := .failed
  database := ⟨fun _ => .ok [], fun _ => .ok ()⟩
  env _ := scripted answers
  fuel := 1

def echoDeployment : Deployment World :=
  deploy (surroundings []) (AList.singleton (bytes "/") (.echo (bytes "/")))

def compressedEcho : List Event :=
  [.accept .success,
    .complete 0 .readPartial .success (bytes "GET / HTTP/1.1\r\nAccept-Encoding: gzip\r\n\r\n")]

def freshWorld : World := some fun _ => { files := fun _ => none }

theorem written_framed_echo : ∃ s,
    Run echoDeployment noCompression (ServerState.start freshWorld ∅) compressedEcho.reverse s ∧
      ∃ w ∈ s.written, w.response.rawResponse = [] ∧ Framed w.data := by
  have reached : (after echoDeployment noCompression (ServerState.start freshWorld ∅) compressedEcho).any
      (fun s => s.written.any fun w => w.response.rawResponse = []) = true := by
    decide
  obtain ⟨s, reached, some_⟩ := Option.any_eq_true _ _ |>.mp reached
  obtain ⟨w, mem, raw⟩ := List.any_eq_true.mp some_
  have run := run_of_after reached
  have raw : w.response.rawResponse = [] := by simpa using raw
  exact ⟨s, run, w, mem, raw, written_framed run w mem raw⟩

end TscServer.Proof
