import TscServer.Proof.StatusAccounting

/-!
# Announced and done

`do_write` puts a Connection header into the response and `handle_write` asks the request again. A raw
response brings its own header, and the two agree exactly when it says what the request asks for.
-/

namespace TscServer.Proof
open Lib Model Spec Connection ServerState

/-- The response is sent as it stands, or its raw response announces what the request asks for. -/
def AnnouncedRight (w : Written) : Prop :=
  w.response.rawResponse = [] ∨ (AnnouncesClose w.response.rawResponse ↔ asksClose w.request = true)

section Announcing
variable {ω : Type} {deployment : Deployment ω} {compression : Compression}

theorem announces_iff {w : Written} {answer : Response} (composed : Composed compression w answer) :
    (AnnouncesClose w.data ↔ asksClose w.request = true) ↔ AnnouncedRight w := by
  by_cases raw : w.response.rawResponse = []
  · have page := sentPage_of_composed composed raw
    rw [composed.data]
    exact ⟨fun _ => .inl raw, fun _ => page.announcesClose⟩
  · rw [composed.data, toBytes_raw raw]
    constructor
    · intro agree
      exact .inr agree
    · intro right
      exact right.resolve_left raw

def afterWrite (c : Connection ω) : Connection ω :=
  if asksClose c.request then { c with closed := true }
  else { c with response := {}, started := [.readPartial] }

theorem run_handleWrite {c : Connection ω} (fresh : c.started = []) :
    (handleWrite .success).run c = .done true (afterWrite c) := by
  simp only [handleWrite, Proc.run_get_bind, afterWrite]
  cases asks : asksClose c.request with
  | true => rfl
  | false =>
      show Outcome.done true { c with response := {}, started := c.started ++ [AsyncOp.readPartial] } = _
      rw [fresh]
      rfl

variable (compression) in
theorem step_succeeded {s : ServerState ω} {i : Nat} {client : Client ω} {data : Bytes}
    (running : deployment.running s.globals.world = true) (here : s.clients[i]? = some client)
    (single : client.outstanding = [.write data]) :
    step deployment compression s (.complete i (.write data) .success []) =
      some (finished s i (afterWrite (filled s client []))) := by
  have ran : (completion compression deployment.handlers .success (.write data)).run (filled s client []) =
      .done true (afterWrite (filled s client [])) := run_handleWrite rfl
  have world : deployment.running (afterWrite (filled s client [])).globals.world = true := by
    unfold afterWrite
    split
    · exact running
    · exact running
  have enabled : client.outstanding.any (· = .write data) = true ∧
      delivers client.conn.buffer [] (.write data) .success = true := by simp [single, delivers]
  have gone : client.outstanding.eraseP (· = .write data) = [] := by simp [single]
  rw [step, here, Option.bind_some]
  dsimp only
  rw [if_pos enabled]
  split
  · rename_i b conn done
    cases ran.symm.trans done
    rw [if_pos world, gone]
    rfl
  · rename_i other
    exact absurd ran (other true _)

theorem keepsWord_iff {s : ServerState ω} {i : Nat} {client : Client ω} {data : Bytes}
    (running : deployment.running s.globals.world = true) (here : s.clients[i]? = some client)
    (single : client.outstanding = [.write data]) (isOpen : client.conn.closed = false) :
    KeepsWord deployment compression s i data ↔
      (AnnouncesClose data ↔ asksClose client.conn.request = true) := by
  have stepped := step_succeeded compression running here single
  have found : (finished s i (afterWrite (filled s client []))).clients[i]? =
      some ⟨afterWrite (filled s client []), (afterWrite (filled s client [])).started⟩ :=
    List.getElem?_set_self (List.getElem?_eq_some_iff.mp here).1
  have word : KeepsWord deployment compression s i data ↔
      ((afterWrite (filled s client [])).closed = true ↔ AnnouncesClose data) ∧
        ((afterWrite (filled s client [])).started = [.readPartial] ↔ ¬ AnnouncesClose data) := by
    constructor
    · intro keeps
      obtain ⟨s', client', stepped', found', keeps⟩ := keeps
      cases stepped.symm.trans stepped'
      cases found.symm.trans found'
      exact keeps
    · intro keeps
      exact ⟨_, _, stepped, found, keeps⟩
  rw [word, afterWrite]
  cases asks : asksClose client.conn.request with
  | true => simp [filled, asks]
  | false => simp [filled, asks, isOpen]

/-! ## Runs -/

variable {world : ω} {handlerToUri : AList fun _ : Bytes => List Bytes} {log : List Event}
  {s : ServerState ω}

theorem running_of_written (run : Run deployment compression (ServerState.start world handlerToUri) log s)
    (some_ : s.written ≠ []) : deployment.running s.globals.world = true := by
  have none_ : (ServerState.start world handlerToUri).written ≠ [] →
      deployment.running (ServerState.start world handlerToUri).globals.world = true :=
    fun some_ => absurd rfl some_
  apply (run_induction deployment compression (P := fun s => s.written ≠ [] →
    deployment.running s.globals.world = true) none_ (sound_start world handlerToUri) _ run).1 some_
  intro s event s' before _ steps
  cases steps with
  | accepted => exact before
  | refused => exact before
  | completed _ _ _ running => exact fun _ => running

theorem keepsWord_of_run (run : Run deployment compression (ServerState.start world handlerToUri) log s)
    {i : Nat} {client : Client ω} {data : Bytes} (here : s.clients[i]? = some client)
    (waits : .write data ∈ client.outstanding) :
    ∃ w ∈ s.written, w.data = data ∧ w.request = client.conn.request ∧
      (KeepsWord deployment compression s i data ↔
        (AnnouncesClose data ↔ asksClose client.conn.request = true)) := by
  have sound := sound_of_run run client (List.mem_of_getElem? here)
  obtain ⟨single, isOpen, -⟩ := waits_single sound waits
  rw [single] at sound
  cases sound with
  | @write w mem request _ _ _ =>
      have running := running_of_written run (List.ne_nil_of_mem mem)
      exact ⟨w, mem, rfl, request, keepsWord_iff running here single isOpen⟩

theorem wordKept_of_announcedRight
    (run : Run deployment compression (ServerState.start world handlerToUri) log s)
    (all : ∀ w ∈ s.written, AnnouncedRight w) : WordKept deployment compression s := by
  intro i client data here waits
  obtain ⟨w, mem, rfl, request, keeps⟩ := keepsWord_of_run run here waits
  obtain ⟨answer, composed⟩ := composed_of_run run w mem
  rw [keeps, ← request, announces_iff composed]
  exact all w mem

/-- Throughout a run every response announces what the connection does after it, exactly when every raw
response that was written announces what its request asks for. -/
theorem throughout_wordKept_iff
    (run : Run deployment compression (ServerState.start world handlerToUri) log s) :
    Throughout deployment compression (ServerState.start world handlerToUri)
        (WordKept deployment compression) log s ↔
      ∀ w ∈ s.written, AnnouncedRight w := by
  have wordKept_start : WordKept deployment compression (ServerState.start world handlerToUri) := by
    intro i client data here
    cases here
  apply RunAlways.iff_of_entries wordKept_start (by rfl) _ run
  intro log event s s' before stepped
  have after := before.next stepped
  have steps := steps_of_step deployment compression (sound_of_run before) stepped
  rcases written_of_steps deployment compression steps with ⟨same, -⟩ | ⟨w, answer, writes⟩
  · exact ⟨[], by rw [same, List.append_nil], by simp, fun _ => wordKept_of_announcedRight after⟩
  · refine ⟨[w], writes.written, ?_, fun _ => wordKept_of_announcedRight after⟩
    intro _ kept w' mem
    obtain rfl := List.mem_singleton.mp mem
    obtain ⟨i, conn, here, request⟩ := writes.waits
    have waits : AsyncOp.write w'.data ∈ [AsyncOp.write w'.data] := List.mem_singleton_self _
    obtain ⟨-, -, -, -, keeps⟩ := keepsWord_of_run after here waits
    rw [← announces_iff writes.composed, ← request]
    exact keeps.mp (kept i _ _ here waits)

end Announcing

/-! ## An echo, and an upstream that closes -/

theorem echo_wordKept : ∃ s, Throughout echoDeployment noCompression (ServerState.start freshWorld ∅)
    (WordKept echoDeployment noCompression) compressedEcho.reverse s ∧ s.written ≠ [] := by
  obtain ⟨s, reached, some_, pages⟩ := echo_reached
  have right : ∀ w ∈ s.written, AnnouncedRight w := fun w mem => .inl (pages w mem)
  exact ⟨s, (throughout_wordKept_iff (run_of_after reached)).mpr right, some_⟩

theorem proxied_not_wordKept : ∃ s,
    Run (proxyDeployment [.stream [bytes "HTTP/1.1 200 OK\r\nConnection: close\r\n\r\na"] true])
      noCompression (ServerState.start freshWorld ∅) proxiedGet.reverse s ∧
    ¬ WordKept (proxyDeployment [.stream [bytes "HTTP/1.1 200 OK\r\nConnection: close\r\n\r\na"] true])
      noCompression s := by
  have announces : AnnouncesClose (bytes "HTTP/1.1 200 OK\r\nConnection: close\n\r\na") := by
    unfold AnnouncesClose
    decide
  have reached : (after
      (proxyDeployment [.stream [bytes "HTTP/1.1 200 OK\r\nConnection: close\r\n\r\na"] true])
      noCompression (ServerState.start freshWorld ∅) proxiedGet).any (fun s => s.clients[0]?.any fun client =>
        asksClose client.conn.request = false ∧
          client.outstanding = [.write (bytes "HTTP/1.1 200 OK\r\nConnection: close\n\r\na")]) = true := by
    decide
  obtain ⟨s, reached, writing⟩ := Option.any_eq_true _ _ |>.mp reached
  obtain ⟨client, here, writing⟩ := Option.any_eq_true _ _ |>.mp writing
  obtain ⟨asks, single⟩ := of_decide_eq_true writing
  have run := run_of_after reached
  refine ⟨s, run, ?_⟩
  intro kept
  have waits := single ▸ List.mem_singleton_self _
  obtain ⟨-, -, -, -, keeps⟩ := keepsWord_of_run run here waits
  have agree := (keeps.mp (kept 0 client _ here waits)).mp announces
  rw [asks] at agree
  cases agree

end TscServer.Proof
