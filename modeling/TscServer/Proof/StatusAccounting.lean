import TscServer.Proof.ContentLength
import TscServer.Proof.Counters
import TscServer.Proof.RequestImage

/-!
# The statistics and the bytes

`do_write` counts a response under its status, and what it sends may be a raw response, which has a
status line of its own. The two agree exactly when no raw response has one of the codes that are
counted by themselves.
-/

namespace TscServer.Proof
open Lib Model Spec ServerState

/-! ## One response -/

def CountedRight (w : Written) : Prop :=
  w.response.rawResponse = [] ∨ countedCode w.response.rawResponse = bytes "500"

section Counting

theorem countedCode_page {status : ResponseCode} {data : Bytes} (code : statusCode data = codeText status) :
    countedCode data = ServerStatus.responseToString status ∧
      (statusCode data = bytes "200" ↔ status = .ok) := by
  rw [countedCode, code]
  cases status <;> decide

theorem ok_of_countedCode {data : Bytes} (other : countedCode data = bytes "500") :
    statusCode data ≠ bytes "200" := by
  intro ok
  rw [countedCode, if_pos (.inl ok), ok] at other
  exact absurd other (by decide)

variable {compression : Compression} {w : Written} {answer : Response}

theorem toBytes_raw {response : Response} (raw : response.rawResponse ≠ []) :
    response.toBytes = response.rawResponse := if_pos raw

theorem recorded_iff (composed : Composed compression w answer) :
    ServerStatus.responseToString answer.status = countedCode w.data ↔ CountedRight w := by
  rcases composed.answered with page | raw
  · have sent : SentPage w.request answer w.response :=
      composed.response ▸ sentPage compression page
    have code := (countedCode_page sent.code).1
    rw [← composed.data, sent.status] at code
    exact ⟨fun _ => .inl sent.raw, fun _ => code.symm⟩
  · have same : w.response.rawResponse = answer.rawResponse := by
      rw [composed.response, sent_raw]
    have nonempty : w.response.rawResponse ≠ [] := same ▸ raw.raw
    rw [composed.data, toBytes_raw nonempty, raw.status]
    constructor
    · intro counted
      exact .inr counted.symm
    · intro right
      exact (right.resolve_left nonempty).symm

theorem visited_iff (composed : Composed compression w answer) (right : CountedRight w) :
    answer.status = .ok ↔ statusCode w.data = bytes "200" := by
  rcases composed.answered with page | raw
  · have sent : SentPage w.request answer w.response :=
      composed.response ▸ sentPage compression page
    rw [composed.data, (countedCode_page sent.code).2, sent.status]
  · have same : w.response.rawResponse = answer.rawResponse := by
      rw [composed.response, sent_raw]
    have nonempty : w.response.rawResponse ≠ [] := same ▸ raw.raw
    have other : statusCode w.data ≠ bytes "200" := by
      rw [composed.data, toBytes_raw nonempty]
      exact ok_of_countedCode (right.resolve_left nonempty)
    rw [raw.status]
    exact ⟨nofun, fun ok => absurd ok other⟩

theorem accounts_snoc {status : ServerStatus} {written : List Written} (accounts : Accounts status written)
    (composed : Composed compression w answer) :
    Accounts (status.insertRecord w.request.uri answer.status) (written ++ [w]) ↔ CountedRight w := by
  constructor
  · intro after
    have counted := after.codes (countedCode w.data)
    rw [filter_snoc_length, ← accounts.codes, if_pos rfl] at counted
    have grown : count (status.insertRecord w.request.uri answer.status).statusCodeCount
        (countedCode w.data) = _ := count_increment _ _ _
    rw [counted] at grown
    apply (recorded_iff composed).mp
    by_contra other
    rw [if_neg (Ne.symm other)] at grown
    omega
  · intro right
    have recorded := (recorded_iff composed).mpr right
    have visited := visited_iff composed right
    constructor
    · intro code
      rw [filter_snoc_length, ← accounts.codes]
      show count (status.statusCodeCount.increment _) code = _
      rw [count_increment, recorded]
      simp only [eq_comm]
    · intro uri other
      rw [filter_snoc_length, ← accounts.uris uri other]
      show count (status.uriVisitCount.increment _) uri = _
      rw [count_increment]
      by_cases ok : answer.status = .ok
      · rw [if_pos ok]
        simp only [visited.mp ok, true_and, eq_comm]
      · rw [if_neg ok, ← sharedKey, if_neg other, if_neg fun both => ok (visited.mpr both.1)]

end Counting

/-! ## Runs -/

section Run
variable {ω : Type} {deployment : Deployment ω} {compression : Compression} {world : ω}
  {handlerToUri : AList fun _ : Bytes => List Bytes} {log : List Event} {s : ServerState ω}

theorem truthful_start : Truthful (ServerState.start world handlerToUri) :=
  ⟨fun _ => rfl, fun _ _ => rfl⟩

/-- The statistics are true throughout a run exactly when every raw response that was written has a
code that belongs under 500. -/
theorem throughout_truthful_iff
    (run : Run deployment compression (ServerState.start world handlerToUri) log s) :
    Throughout deployment compression (ServerState.start world handlerToUri) Truthful log s ↔
      ∀ w ∈ s.written, CountedRight w := by
  apply RunAlways.iff_of_entries truthful_start (by rfl) _ run
  intro log event s s' before stepped
  have steps := steps_of_step deployment compression (sound_of_run before) stepped
  rcases written_of_steps deployment compression steps with ⟨same, kept⟩ | ⟨w, answer, writes⟩
  · refine ⟨[], by rw [same, List.append_nil], by simp, ?_⟩
    intro accounts _
    unfold Truthful
    rw [same, kept]
    exact accounts
  · have counts (accounts : Truthful s) : Truthful s' ↔ CountedRight w := by
      unfold Truthful
      rw [writes.written, writes.serverStatus]
      exact accounts_snoc accounts writes.composed
    refine ⟨[w], writes.written, ?_, ?_⟩
    · intro accounts after w' mem
      obtain rfl := List.mem_singleton.mp mem
      exact (counts accounts).mp after
    · intro accounts all
      exact (counts accounts).mpr (all w (by simp [writes.written]))

/-! ## URIs of requests -/

section Uris
variable {P : Bytes → Prop} (empty : P [])
  (parsed : ∀ {raw : Bytes} {request : Request}, Request.parse raw = some request → P request.uri)
include parsed

theorem finishes_uri_of_parsed {op : AsyncOp} {ec : ErrorCode} {c c' : Connection ω}
    (finishes : Finishes compression c op ec c') (before : P c.request.uri) : P c'.request.uri := by
  cases finishes with
  | aborted => exact before
  | broken => exact before
  | closes => exact before
  | readsOn => exact before
  | invalid _ wrote => exact wrote.request ▸ before
  | readsBody read => exact parsed read
  | answered read wrote => exact wrote.request ▸ parsed read
  | completed wrote => exact wrote.request ▸ before

include empty

theorem clients_uri_of_parsed (run : Run deployment compression (ServerState.start world handlerToUri) log s) :
    ∀ client ∈ s.clients, P client.conn.request.uri := by
  have none_ : ∀ client ∈ (ServerState.start world handlerToUri).clients, P client.conn.request.uri := by
    intro client mem
    cases mem
  apply (run_induction deployment compression none_ (sound_start world handlerToUri) _ run).1
  intro s event s' before _ steps client mem
  cases steps with
  | accepted =>
      rcases List.mem_append.mp mem with mem | new
      · exact before client mem
      · obtain rfl := List.mem_singleton.mp new
        exact empty
  | refused => exact before client mem
  | @completed i op ec data old conn here single finishes running =>
      rcases List.mem_or_eq_of_mem_set mem with mem | rfl
      · exact before client mem
      · exact finishes_uri_of_parsed parsed (c := filled s old data) finishes
          (before old (List.mem_of_getElem? here))

theorem written_uri_of_parsed (run : Run deployment compression (ServerState.start world handlerToUri) log s) :
    ∀ w ∈ s.written, P w.request.uri := by
  refine written_of_run ?_ run
  intro log s s' w answer run writes
  obtain ⟨i, conn, here, request⟩ := writes.waits
  exact request ▸ clients_uri_of_parsed empty parsed run _ (List.mem_of_getElem? here)

end Uris

/-! ## The key that unsuccessful responses share -/

theorem uri_ne_sharedKey {raw : Bytes} {request : Request} (parsed : Request.parse raw = some request) :
    request.uri ≠ sharedKey := by
  intro same
  have slash := (parse_image parsed).uri_slash
  rw [same] at slash
  cases slash

theorem uri_of_written (run : Run deployment compression (ServerState.start world handlerToUri) log s) :
    ∀ w ∈ s.written, w.request.uri ≠ sharedKey :=
  written_uri_of_parsed (P := fun uri => uri ≠ sharedKey) (by decide) uri_ne_sharedKey run

theorem conserved_of_run
    (run : Run deployment compression (ServerState.start world handlerToUri) log s) :
    Conserved s.globals.serverStatus := by
  induction run with
  | start => exact conserved_empty handlerToUri
  | next before stepped ih =>
      have steps := steps_of_step deployment compression (sound_of_run before) stepped
      rcases written_of_steps deployment compression steps with ⟨-, kept⟩ | ⟨w, answer, writes⟩
      · rwa [kept]
      · have other := uri_of_written (before.next stepped) w (by simp [writes.written])
        rw [writes.serverStatus]
        exact conserved_insertRecord ih other answer.status

end Run

/-! ## An echo, and a response of an upstream -/

theorem echo_reached : ∃ s, after echoDeployment noCompression (ServerState.start freshWorld ∅)
    compressedEcho = some s ∧ s.written ≠ [] ∧ ∀ w ∈ s.written, w.response.rawResponse = [] := by
  have reached : (after echoDeployment noCompression (ServerState.start freshWorld ∅) compressedEcho).any
      (fun s => s.written ≠ [] ∧ s.written.all fun w => w.response.rawResponse = []) = true := by
    decide
  obtain ⟨s, reached, pages⟩ := Option.any_eq_true _ _ |>.mp reached
  obtain ⟨some_, pages⟩ := of_decide_eq_true pages
  exact ⟨s, reached, some_, fun w mem => by simpa using List.all_eq_true.mp pages w mem⟩

theorem echo_truthful : ∃ s, Throughout echoDeployment noCompression (ServerState.start freshWorld ∅)
    Truthful compressedEcho.reverse s ∧ s.written ≠ [] := by
  obtain ⟨s, reached, some_, pages⟩ := echo_reached
  have right : ∀ w ∈ s.written, CountedRight w := fun w mem => .inl (pages w mem)
  exact ⟨s, (throughout_truthful_iff (run_of_after reached)).mpr right, some_⟩

def proxyDeployment (answers : List Answer) : Deployment World :=
  deploy (surroundings answers) (AList.singleton (bytes "/proxy1") (.proxy demoProxy))

def proxiedGet : List Event :=
  [.accept .success, .complete 0 .readPartial .success (bytes "GET /proxy1/x HTTP/1.1\r\nHost: a\r\n\r\n")]

theorem proxied_not_truthful : ∃ s,
    Run (proxyDeployment [.stream [bytes "HTTP/1.1 200 OK\r\n\r\n\r\na"] true]) noCompression
      (ServerState.start freshWorld ∅) proxiedGet.reverse s ∧ ¬ Truthful s := by
  have reached : (after (proxyDeployment [.stream [bytes "HTTP/1.1 200 OK\r\n\r\n\r\na"] true])
      noCompression (ServerState.start freshWorld ∅) proxiedGet).any
      (fun s => count s.globals.serverStatus.statusCodeCount (bytes "200") = 0 ∧
        (s.written.filter fun w => countedCode w.data = bytes "200").length = 1) = true := by
    decide
  obtain ⟨s, reached, counts⟩ := Option.any_eq_true _ _ |>.mp reached
  obtain ⟨none_, one⟩ := of_decide_eq_true counts
  refine ⟨s, run_of_after reached, ?_⟩
  intro accounts
  have codes := accounts.codes (bytes "200")
  rw [none_, one] at codes
  cases codes

end TscServer.Proof
