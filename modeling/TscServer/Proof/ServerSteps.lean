import TscServer.Proof.Completions

/-!
# Invariants of the server

Each connection waits for at most one operation. While it reads its response is empty, and while it
writes it still has the request and the response that the bytes were made from.
-/

namespace TscServer.Proof
open Lib Model Connection ServerState

section Steps
variable {ω : Type} (deployment : Deployment ω) (compression : Compression)

inductive Waits (written : List Written) (conn : Connection ω) : List AsyncOp → Prop
  | nothing : Waits written conn []
  | readPartial : conn.response = {} → conn.closed = false → Waits written conn [.readPartial]
  | readBody {n : Nat} : conn.response = {} → conn.closed = false → Waits written conn [.readBody n]
  | write {w : Written} : w ∈ written → w.request = conn.request → w.response = conn.response →
      w.data = conn.response.toBytes → conn.closed = false → Waits written conn [.write w.data]

def Sound (s : ServerState ω) : Prop :=
  ∀ client ∈ s.clients, Waits s.written client.conn client.outstanding

-- the connection that a completion handler sees
def filled (s : ServerState ω) (client : Client ω) (data : Bytes) : Connection ω :=
  { client.conn with globals := s.globals, buffer := client.conn.buffer ++ data, started := [] }

-- the state after it returned
def finished (s : ServerState ω) (i : Nat) (conn : Connection ω) : ServerState ω :=
  { s with
    globals := conn.globals
    clients := s.clients.set i { conn, outstanding := conn.started }
    written := s.written ++ conn.started.filterMap (writtenBy conn) }

inductive Steps (s : ServerState ω) : Event → ServerState ω → Prop
  | accepted : s.accepting ≠ 0 →
      Steps s (.accept .success) (handleAccept { s with accepting := s.accepting - 1 } .success)
  | refused {ec : ErrorCode} : s.accepting ≠ 0 → ec ≠ .success →
      Steps s (.accept ec) { s with accepting := s.accepting - 1 }
  | completed {i : Nat} {op : AsyncOp} {ec : ErrorCode} {data : Bytes} {client : Client ω}
      {conn : Connection ω} : s.clients[i]? = some client → client.outstanding = [op] →
      Finishes compression (filled s client data) op ec conn →
      deployment.running conn.globals.world = true →
      Steps s (.complete i op ec data) (finished s i conn)

theorem finishes_of_completion {op : AsyncOp} {ec : ErrorCode} {c c' : Connection ω} {b : Bool}
    (empty : (∀ data, op ≠ .write data) → c.response = {})
    (ran : (completion compression deployment.handlers ec op).run c = .done b c')
    (running : deployment.running c'.globals.world = true) : Finishes compression c op ec c' := by
  cases op with
  | readPartial => exact finishes_readPartial deployment compression (empty (by simp)) ran running
  | readBody n => exact finishes_readBody deployment compression (empty (by simp)) ran running
  | write data => exact finishes_write compression ran

theorem waits_single {written : List Written} {conn : Connection ω} {ops : List AsyncOp} {op : AsyncOp}
    (waits : Waits written conn ops) (mem : op ∈ ops) :
    ops = [op] ∧ conn.closed = false ∧ ((∀ data, op ≠ .write data) → conn.response = {}) := by
  cases waits with
  | nothing => cases mem
  | readPartial empty isOpen =>
      obtain rfl := List.mem_singleton.mp mem
      exact ⟨rfl, isOpen, fun _ => empty⟩
  | readBody empty isOpen =>
      obtain rfl := List.mem_singleton.mp mem
      exact ⟨rfl, isOpen, fun _ => empty⟩
  | @write w _ _ _ _ isOpen =>
      obtain rfl := List.mem_singleton.mp mem
      exact ⟨rfl, isOpen, fun other => absurd rfl (other w.data)⟩

theorem steps_of_step {s s' : ServerState ω} {event : Event} (sound : Sound s)
    (stepped : step deployment compression s event = some s') : Steps deployment compression s event s' := by
  cases event with
  | accept ec =>
      rw [step] at stepped
      split at stepped
      · cases stepped
      · rename_i waiting
        cases ec with
        | success =>
            cases stepped
            exact .accepted waiting
        | operationAborted =>
            cases stepped
            exact .refused waiting (by simp)
        | other code =>
            cases stepped
            exact .refused waiting (by simp)
  | complete i op ec data =>
      rw [step] at stepped
      obtain ⟨client, here, stepped⟩ := Option.bind_eq_some_iff.mp stepped
      split at stepped
      · rename_i enabled
        obtain ⟨other, mem, same⟩ := List.any_eq_true.mp enabled.1
        obtain rfl : other = op := by simpa using same
        obtain ⟨single, isOpen, empty⟩ :=
          waits_single (sound client (List.mem_of_getElem? here)) mem
        dsimp only at stepped
        split at stepped
        · rename_i b conn ran
          split at stepped
          · rename_i running
            cases stepped
            have finishes := finishes_of_completion deployment compression (c := filled s client data)
              empty ran running
            have gone : client.outstanding.eraseP (· = other) = [] := by simp [single]
            rw [gone]
            exact .completed here single finishes running
          · cases stepped
        · cases stepped
      · cases stepped

/-! ## Keeping the invariant -/

theorem Waits.mono {written more : List Written} {conn : Connection ω} {ops : List AsyncOp}
    (waits : Waits written conn ops) : Waits (written ++ more) conn ops := by
  cases waits with
  | nothing => exact .nothing
  | readPartial empty isOpen => exact .readPartial empty isOpen
  | readBody empty isOpen => exact .readBody empty isOpen
  | write mem request response data isOpen =>
      exact .write (List.mem_append_left more mem) request response data isOpen

theorem waits_of_finishes {written : List Written} {c c' : Connection ω} {op : AsyncOp} {ec : ErrorCode}
    (isOpen : c.closed = false) (fresh : c.started = [])
    (empty : (∀ data, op ≠ .write data) → c.response = {})
    (finishes : Finishes compression c op ec c') :
    Waits (written ++ c'.started.filterMap (writtenBy c')) c' c'.started := by
  have writes {before : Connection ω} {answer : Response} (wrote : Wrote compression before answer c')
      (closed : before.closed = false) (nothing : before.started = []) :
      Waits (written ++ c'.started.filterMap (writtenBy c')) c' c'.started := by
    have started : c'.started = [.write c'.response.toBytes] := by rw [wrote.started, nothing]; rfl
    let w : Written := { request := c'.request, response := c'.response, data := c'.response.toBytes }
    have mem : w ∈ written ++ c'.started.filterMap (writtenBy c') := by
      rw [started]
      exact List.mem_append_right _ (List.mem_singleton.mpr rfl)
    have waits := Waits.write mem rfl rfl rfl (wrote.closed.trans closed)
    rwa [started] at waits ⊢
  cases finishes with
  | aborted =>
      rw [fresh]
      exact .nothing
  | broken =>
      show Waits (written ++ c.started.filterMap _) _ c.started
      rw [fresh]
      exact .nothing
  | closes =>
      show Waits (written ++ c.started.filterMap _) _ c.started
      rw [fresh]
      exact .nothing
  | readsOn =>
      show Waits (written ++ (c.started ++ [AsyncOp.readPartial]).filterMap _) _
        (c.started ++ [AsyncOp.readPartial])
      rw [fresh]
      exact .readPartial rfl isOpen
  | invalid _ wrote => exact writes wrote isOpen fresh
  | @readsBody request n =>
      show Waits (written ++ (c.started ++ [AsyncOp.readBody n]).filterMap _) _
        (c.started ++ [AsyncOp.readBody n])
      rw [fresh]
      exact .readBody (empty (by simp)) isOpen
  | answered _ wrote => exact writes wrote isOpen fresh
  | completed wrote => exact writes wrote isOpen fresh

theorem sound_start (world : ω) (handlerToUri : AList fun _ : Bytes => List Bytes) :
    Sound (ServerState.start world handlerToUri) := by
  intro client mem
  cases mem

theorem sound_step {s s' : ServerState ω} {event : Event} (sound : Sound s)
    (steps : Steps deployment compression s event s') : Sound s' := by
  cases steps with
  | accepted =>
      intro client mem
      rcases List.mem_append.mp mem with mem | new
      · exact sound client mem
      · obtain rfl := List.mem_singleton.mp new
        exact .readPartial rfl rfl
  | refused => exact sound
  | @completed i op ec data client conn here single finishes running =>
      intro other mem
      obtain ⟨-, isOpen, empty⟩ := waits_single (sound client (List.mem_of_getElem? here))
        (single ▸ List.mem_singleton_self op)
      rcases List.mem_or_eq_of_mem_set mem with mem | rfl
      · exact (sound other mem).mono
      · exact waits_of_finishes compression (c := filled s client data) isOpen rfl empty finishes

theorem run_induction {P : ServerState ω → Prop} {init s : ServerState ω} {log : List Event}
    (start : P init) (sound : Sound init)
    (next : ∀ s event s', P s → Sound s → Steps deployment compression s event s' → P s')
    (run : Run deployment compression init log s) : P s ∧ Sound s := by
  induction run with
  | start => exact ⟨start, sound⟩
  | next _ stepped ih =>
      have steps := steps_of_step deployment compression ih.2 stepped
      exact ⟨next _ _ _ ih.1 ih.2 steps, sound_step deployment compression ih.2 steps⟩

/-! ## What is written -/

structure Composed (w : Written) (answer : Response) : Prop where
  answered : Page answer ∨ Raw answer
  response : w.response = sent compression w.request answer
  data : w.data = w.response.toBytes

/-- What a step that writes leaves: one more response, counted, that a connection waits to send. -/
structure Writes (s s' : ServerState ω) (w : Written) (answer : Response) : Prop where
  written : s'.written = s.written ++ [w]
  composed : Composed compression w answer
  serverStatus : s'.globals.serverStatus =
    s.globals.serverStatus.insertRecord w.request.uri answer.status
  waits : ∃ (i : Nat) (conn : Connection ω),
    s'.clients[i]? = some { conn, outstanding := [.write w.data] } ∧ conn.request = w.request

theorem writes_of_wrote {s : ServerState ω} {i : Nat} {client : Client ω} {before conn : Connection ω}
    {answer : Response} (here : s.clients[i]? = some client) (wrote : Wrote compression before answer conn)
    (nothing : before.started = []) (same : before.globals = s.globals) :
    ∃ w answer, Writes compression s (finished s i conn) w answer := by
  have started : conn.started = [.write conn.response.toBytes] := by rw [wrote.started, nothing]; rfl
  refine ⟨{ request := conn.request, response := conn.response, data := conn.response.toBytes },
    answer, ?_, ⟨wrote.answered, ?_, rfl⟩, ?_, i, conn, ?_, rfl⟩
  · show s.written ++ conn.started.filterMap _ = _
    rw [started]
    rfl
  · rw [wrote.request]
    exact wrote.response
  · show conn.globals.serverStatus = _
    rw [wrote.serverStatus, same, wrote.request]
  · show (s.clients.set i { conn, outstanding := conn.started })[i]? = _
    rw [started, List.getElem?_set_self (List.getElem?_eq_some_iff.mp here).1]

theorem written_of_steps {s s' : ServerState ω} {event : Event}
    (steps : Steps deployment compression s event s') :
    (s'.written = s.written ∧ s'.globals.serverStatus = s.globals.serverStatus) ∨
      ∃ w answer, Writes compression s s' w answer := by
  cases steps with
  | accepted => exact .inl ⟨rfl, rfl⟩
  | refused => exact .inl ⟨rfl, rfl⟩
  | completed here single finishes running =>
      cases finishes with
      | aborted => exact .inl ⟨List.append_nil _, rfl⟩
      | broken => exact .inl ⟨List.append_nil _, rfl⟩
      | closes => exact .inl ⟨List.append_nil _, rfl⟩
      | readsOn => exact .inl ⟨List.append_nil _, rfl⟩
      | invalid _ wrote => exact .inr (writes_of_wrote compression here wrote rfl rfl)
      | readsBody => exact .inl ⟨List.append_nil _, rfl⟩
      | answered _ wrote => exact .inr (writes_of_wrote compression here wrote rfl rfl)
      | completed wrote => exact .inr (writes_of_wrote compression here wrote rfl rfl)

variable {deployment compression} {world : ω} {handlerToUri : AList fun _ : Bytes => List Bytes}
  {log : List Event} {s : ServerState ω}

theorem sound_of_run (run : Run deployment compression (ServerState.start world handlerToUri) log s) :
    Sound s :=
  (run_induction deployment compression trivial (sound_start world handlerToUri)
    (P := fun _ => True) (fun _ _ _ _ _ _ => trivial) run).2

theorem written_of_run {Q : Written → Prop}
    (new : ∀ {log s s' w answer}, Run deployment compression (ServerState.start world handlerToUri) log s' →
      Writes compression s s' w answer → Q w)
    (run : Run deployment compression (ServerState.start world handlerToUri) log s) :
    ∀ w ∈ s.written, Q w := by
  induction run with
  | start =>
      intro w mem
      cases mem
  | next before stepped ih =>
      have steps := steps_of_step deployment compression (sound_of_run before) stepped
      intro w mem
      rcases written_of_steps deployment compression steps with ⟨same, -⟩ | ⟨w', answer, writes⟩
      · exact ih w (same ▸ mem)
      · rw [writes.written, List.mem_append, List.mem_singleton] at mem
        rcases mem with mem | rfl
        · exact ih w mem
        · exact new (before.next stepped) writes

end Steps
end TscServer.Proof
