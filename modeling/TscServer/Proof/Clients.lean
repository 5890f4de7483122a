import TscServer.Lib.Components
import TscServer.Proof.ClientSteps
import TscServer.Proof.Operations
import TscServer.Proof.Replies

/-!
# Clients do not interfere

Each client of an interleaved run has a run of its own. Where the answers of the handlers are settled by the
requests, it depends on nothing but what arrives from the client, and it is also that of a server which serves
the client alone.
-/

namespace TscServer.Proof
open Lib Model Spec Connection ServerState

section Clients
variable {ω : Type} {handlers : Handlers ω} {compression : Compression} {client client' other other' : Client ω}
  {done_ done' : Completion}

/-! ## One client -/

def asSession (client : Client ω) (chunks : List Bytes) : Session ω :=
  { conn := client.conn, pending := client.outstanding.head?, chunks }

theorem Orderly.sent {chunks : List Bytes} (orderly : Orderly (asSession client chunks)) (more : List Bytes) :
    Orderly (asSession client more) := { orderly with }

/-- The client waits for nothing, or for one operation in good order. -/
inductive Poised (client : Client ω) : Prop
  | rests : client.outstanding = [] → Poised client
  | waits {op : AsyncOp} : client.outstanding = [op] → Orderly (asSession client []) → Poised client

theorem poised_of_accepted (accepted : Accepted client) : Poised client := by
  obtain ⟨globals, same⟩ := accepted
  subst same
  exact .waits rfl (orderly_start globals [])

theorem outstanding_of_poised (poised : Poised client) {op : AsyncOp} (mem : op ∈ client.outstanding) :
    client.outstanding = [op] ∧ Orderly (asSession client []) := by
  cases poised with
  | rests none_ =>
      rw [none_] at mem
      cases mem
  | waits single orderly =>
      rw [single, List.mem_singleton] at mem
      exact ⟨mem ▸ single, orderly⟩

theorem poised_of_same (same : SameClient client other) (poised : Poised client) : Poised other := by
  obtain ⟨globals, same⟩ := same
  subst same
  cases poised with
  | rests none_ => exact .rests none_
  | waits single orderly => exact .waits single { orderly with }

/-- A completion without an error is a step of a session to which the bytes were sent that it delivers. -/
theorem step_of_done {op : AsyncOp} {data : Bytes} {conn : Connection ω} {b : Bool} (poised : Poised client)
    (mem : op ∈ client.outstanding) (enabled : ServerState.delivers client.conn.buffer data op .success = true)
    (ran : (ServerState.completion compression handlers .success op).run
      { client.conn with buffer := client.conn.buffer ++ data, started := [] } = .done b conn)
    (k : Nat) (chunks : List Bytes) :
    ∃ n, Session.step handlers compression
      (asSession client (List.replicate k [] ++ ((Completion.mk op .success data).delivers.toList ++ chunks))) =
        some (asSession { conn, outstanding := client.outstanding.eraseP (· = op) ++ conn.started }
          (List.replicate n [] ++ chunks)) := by
  obtain ⟨single, orderly⟩ := outstanding_of_poised poised mem
  have buffer : client.conn.buffer = [] := orderly.buffer
  have gone : client.outstanding.eraseP (· = op) = [] := by simp [single]
  rw [buffer] at enabled
  rw [buffer, List.nil_append] at ran
  rw [gone, asSession, single, List.head?_cons]
  cases op with
  | readPartial =>
      have found : contains crlfcrlf data = true := enabled
      have read := readUntil_replicate (by decide) found k chunks
      refine ⟨0, ?_⟩
      rw [Session.step]
      dsimp only [Completion.delivers, Option.toList]
      rw [buffer, List.singleton_append, read, Option.bind_some]
      exact complete_of_done ran chunks
  | readBody m =>
      obtain rfl := of_decide_eq_true enabled
      obtain ⟨n, read⟩ := readExactly_replicate data k chunks
      refine ⟨n, ?_⟩
      rw [Session.step]
      dsimp only [Completion.delivers, Option.toList]
      rw [List.singleton_append, read, Option.bind_some, buffer, List.nil_append]
      exact complete_of_done ran _
  | write sent_ =>
      obtain rfl := of_decide_eq_true enabled
      refine ⟨k, ?_⟩
      rw [← buffer] at ran
      exact complete_of_done ran _

theorem poised_of_completes (byRequest : AnswersByRequest handlers) (poised : Poised client)
    (completes : Completes handlers compression done_ client client') : Poised client' := by
  obtain ⟨op, ec, data⟩ := done_
  cases completes with
  | @intro globals conn b mem enabled ran =>
      obtain ⟨single, -⟩ := outstanding_of_poised poised mem
      dsimp only at mem enabled ran ⊢
      have gone : client.outstanding.eraseP (· = op) = [] := by simp [single]
      cases ec with
      | success =>
          have poised' : Poised { client with conn := { client.conn with globals } } :=
            poised_of_same ⟨globals, rfl⟩ poised
          obtain ⟨n, stepped⟩ := step_of_done poised' mem enabled ran 0 []
          obtain ⟨-, orderly'⟩ := outstanding_of_poised poised' mem
          have after := orderly_step byRequest (orderly'.sent _) stepped
          rw [gone, List.nil_append] at after ⊢
          cases continues_of_completion ran with
          | goesOn _ started => exact .waits started (after.sent [])
          | ends started _ => exact .rests started
      | operationAborted =>
          rw [gone]
          cases op <;> cases ran <;> exact .rests rfl
      | other code =>
          rw [gone]
          cases op <;> cases ran <;> exact .rests rfl

theorem waits_of_completes (same : SameClient client other)
    (completes : Completes handlers compression done_ client client') : done_.op ∈ other.outstanding ∧
      ServerState.delivers other.conn.buffer done_.data done_.op done_.ec = true := by
  obtain ⟨globals, same⟩ := same
  subst same
  cases completes with
  | intro mem enabled _ => exact ⟨mem, enabled⟩

theorem sameClient_of_completes (byRequest : AnswersByRequest handlers) (poised : Poised client)
    (same : SameClient client other) (completes : Completes handlers compression done_ client client')
    (globals : Globals ω) : ∃ conn b,
      (ServerState.completion compression handlers done_.ec done_.op).run
          { other.conn with globals, buffer := other.conn.buffer ++ done_.data, started := [] } = .done b conn ∧
        SameClient client' { conn, outstanding := other.outstanding.eraseP (· = done_.op) ++ conn.started } := by
  obtain ⟨globals', same⟩ := same
  subst same
  cases completes with
  | @intro globals₀ conn b mem enabled ran =>
      obtain ⟨single, orderly⟩ := outstanding_of_poised poised mem
      have empty : (∀ data, done_.op ≠ .write data) → client.conn.response = {} := by
        apply orderly.response done_.op
        show done_.op ∈ client.outstanding.head?
        rw [single]
        rfl
      have related : Alike
          { client.conn with globals := globals₀, buffer := client.conn.buffer ++ done_.data, started := [] }
          { client.conn with globals, buffer := client.conn.buffer ++ done_.data, started := [] } := ⟨globals, rfl⟩
      obtain ⟨conn', ran', after, same⟩ := (agrees_completion byRequest done_.ec done_.op).done ⟨related, empty⟩ ran
      subst same
      exact ⟨_, b, ran', after, rfl⟩

theorem sameClient_step (byRequest : AnswersByRequest handlers) (poised : Poised client)
    (same : SameClient client other) (completes : Completes handlers compression done_ client client')
    (completes' : Completes handlers compression done' other other') (arrives : done_.arrives = done'.arrives) :
    done_ = done' ∧ SameClient client' other' := by
  obtain ⟨op, ec, data⟩ := done_
  obtain ⟨op', ec', data'⟩ := done'
  cases arrives
  have goesOn := sameClient_of_completes byRequest poised same completes
  obtain ⟨globals, same⟩ := same
  subst same
  cases completes with
  | intro mem _ _ =>
      obtain ⟨single, -⟩ := outstanding_of_poised poised mem
      cases completes' with
      | @intro globals' conn' b mem' enabled' ran' =>
          have ops : op' ∈ client.outstanding := mem'
          obtain rfl : op' = op := by simpa [single] using ops
          obtain ⟨conn, b', ran, after⟩ := goesOn globals'
          cases ran.symm.trans ran'
          exact ⟨rfl, after⟩

/-! ## A client of a run -/

section Run
variable {world : ω} {handlerToUri : AList fun _ : Bytes => List Bytes} {log : List Event} {s s' : ServerState ω}
  {i : Nat}

/-- What a step of the server does to one client, with the steps of the client as one likes. -/
theorem partStep_of_moves {own : List Completion → Completion → Client ω → Client ω → Prop} {event : Event}
    (i : Nat) (log : List Event) (advances : Advances compression handlers s event s')
    (moves : ∀ op ec data client client', event = .complete i op ec data → s.clients[i]? = some client →
      s'.clients[i]? = some client' → own (log.filterMap (completionOf i)) { op, ec, data } client client') :
    PartStep own (fun s => s.clients[i]?) (completionOf i) Accepted log event s s' := by
  cases advances with
  | @accept ec waiting =>
      cases ec with
      | operationAborted => exact .still rfl rfl
      | other code => exact .still rfl rfl
      | success =>
          rcases Nat.lt_trichotomy i s.clients.length with before | same | beyond
          · exact .still rfl (List.getElem?_append_left before)
          · subst same
            exact .appears rfl (List.getElem?_eq_none (Nat.le_refl _)) List.getElem?_concat_length ⟨_, rfl⟩
          · apply PartStep.still rfl
            show (s.clients ++ [_])[i]? = s.clients[i]?
            rw [List.getElem?_eq_none (by simp; omega), List.getElem?_eq_none (by omega)]
  | @complete j op ec data client conn b here mem enabled ran =>
      by_cases mine : j = i
      · subst mine
        have own_ : completionOf j (.complete j op ec data) = some { op, ec, data } := if_pos rfl
        have inside := (List.getElem?_eq_some_iff.mp here).1
        exact .moves own_ here (List.getElem?_set_self inside)
          (moves op ec data client _ rfl here (List.getElem?_set_self inside))
      · exact .still (if_neg mine) (List.getElem?_set_ne mine)

theorem partStep_advance {event : Event} (i : Nat) (log : List Event)
    (advances : Advances compression handlers s event s') :
    PartStep (fun _ => Completes handlers compression) (fun s => s.clients[i]?) (completionOf i) Accepted log event s s' := by
  apply partStep_of_moves i log advances
  intro op ec data client client' same here there
  subst same
  cases advances with
  | complete here' mem enabled ran =>
      cases here.symm.trans here'
      rw [List.getElem?_set_self (List.getElem?_eq_some_iff.mp here).1] at there
      obtain rfl := Option.some.inj there
      exact .intro mem enabled ran

theorem clientRun_of_run
    (run : ServingRun handlers compression (ServerState.start world handlerToUri) log s)
    (here : s.clients[i]? = some client) :
    ∃ accepted, Accepted accepted ∧ ClientRun handlers compression accepted (log.filterMap (completionOf i)) client :=
  (LoggedRun.part rfl (fun log _ _ _ _ advances => partStep_advance i log advances) run).2 client here

theorem poised_of_run (byRequest : AnswersByRequest handlers) {completions : List Completion}
    (accepted : Accepted client) (run : ClientRun handlers compression client completions client') : Poised client' := by
  induction run with
  | start => exact poised_of_accepted accepted
  | next _ completes ih => exact poised_of_completes byRequest ih completes

/-- What a client is served depends on nothing but what arrives from it: not on the other clients, not on the
order in which they are served, and not on the state that the server was in before. -/
theorem clients_apart (byRequest : AnswersByRequest handlers) {world' : ω}
    {handlerToUri' : AList fun _ : Bytes => List Bytes} {log' : List Event} {j : Nat}
    (run : ServingRun handlers compression (ServerState.start world handlerToUri) log s)
    (run' : ServingRun handlers compression (ServerState.start world' handlerToUri') log' s')
    (here : s.clients[i]? = some client) (here' : s'.clients[j]? = some other)
    (arrives : (log.filterMap (completionOf i)).map Completion.arrives =
      (log'.filterMap (completionOf j)).map Completion.arrives) :
    log.filterMap (completionOf i) = log'.filterMap (completionOf j) ∧ SameClient client other := by
  obtain ⟨first, accepted, own⟩ := clientRun_of_run run here
  obtain ⟨second, accepted', own'⟩ := clientRun_of_run run' here'
  have start : SameClient first second ∧ Poised first := by
    refine ⟨?_, poised_of_accepted accepted⟩
    obtain ⟨globals, same⟩ := accepted
    obtain ⟨globals', same'⟩ := accepted'
    subst same same'
    exact ⟨globals', rfl⟩
  have next : ∀ k l v v' w w', SameClient v w ∧ Poised v → Completes handlers compression k v v' →
      Completes handlers compression l w w' → k.arrives = l.arrives → k = l ∧ SameClient v' w' ∧ Poised v' := by
    intro k l v v' w w' ⟨related, poised⟩ completes completes' sees
    obtain ⟨same, after⟩ := sameClient_step byRequest poised related completes completes' sees
    exact ⟨same, after, poised_of_completes byRequest poised completes⟩
  obtain ⟨same, related, -⟩ :=
    LoggedRun.alike (R := fun client other => SameClient client other ∧ Poised client) start next own own' arrives
  exact ⟨same, related⟩

/-- A server that accepts nobody else serves the client in the same way. -/
theorem served_alone (byRequest : AnswersByRequest handlers)
    (run : ServingRun handlers compression (ServerState.start world handlerToUri) log s)
    (here : s.clients[i]? = some client) (world' : ω) (handlerToUri' : AList fun _ : Bytes => List Bytes) :
    ∃ s' alone, ServingRun handlers compression (ServerState.start world' handlerToUri')
        (servedAlone (log.filterMap (completionOf i))) s' ∧ s'.clients = [alone] ∧ SameClient client alone := by
  obtain ⟨first, accepted, own⟩ := clientRun_of_run run here
  generalize log.filterMap (completionOf i) = completions at own
  clear run here
  induction own with
  | start =>
      obtain ⟨globals, same⟩ := accepted
      subst same
      exact ⟨_, _, .next .start (.accept Nat.one_ne_zero), rfl, _, rfl⟩
  | @next log done_ v v' before completes ih =>
      obtain ⟨s', alone, served, only, same⟩ := ih
      have poised := poised_of_run byRequest accepted before
      obtain ⟨conn, b, ran, after⟩ := sameClient_of_completes byRequest poised same completes s'.globals
      obtain ⟨mem, enabled⟩ := waits_of_completes same completes
      refine ⟨_, _, .next served (.complete (by rw [only]; rfl) mem enabled ran), ?_, after⟩
      show s'.clients.set 0 _ = _
      rw [only]
      rfl

theorem session_of_clientRun (byRequest : AnswersByRequest handlers) {completions : List Completion}
    (accepted : Accepted client) (run : ClientRun handlers compression client completions client')
    (succeeds : ∀ done_ ∈ completions, done_.ec = .success) (globals : Globals ω) (chunks : List Bytes) :
    ∃ n other, Session.run handlers compression completions.length
        (Session.start globals (completions.reverse.filterMap Completion.delivers ++ chunks)) =
          asSession other (List.replicate n [] ++ chunks) ∧ SameClient client' other := by
  induction run generalizing chunks with
  | start =>
      obtain ⟨globals', same⟩ := accepted
      subst same
      exact ⟨0, { conn := { globals }, outstanding := [.readPartial] }, rfl, globals, rfl⟩
  | @next log done_ v v' before completes ih =>
      obtain ⟨success, others⟩ := List.forall_mem_cons.mp succeeds
      obtain ⟨n, other, served, same⟩ := ih others (done_.delivers.toList ++ chunks)
      have poised := poised_of_run byRequest accepted before
      obtain ⟨conn, b, ran, after⟩ := sameClient_of_completes byRequest poised same completes other.conn.globals
      obtain ⟨mem, enabled⟩ := waits_of_completes same completes
      obtain ⟨op, ec, data⟩ := done_
      obtain rfl := success
      obtain ⟨m, stepped⟩ := step_of_done (poised_of_same same poised) mem enabled ran n chunks
      refine ⟨m, _, ?_, after⟩
      rw [List.reverse_cons, List.filterMap_append, List.append_assoc, List.length_cons, Session.run_add]
      have sent_ : [Completion.mk op .success data].filterMap Completion.delivers =
          (Completion.mk op .success data).delivers.toList := by cases op <;> rfl
      rw [sent_, served]
      exact Session.run_of_step _ _ stepped 0

/-- As long as no operation fails, the connection of a client is that of a session on the bytes that it sent. -/
theorem session_of_run (byRequest : AnswersByRequest handlers)
    (run : ServingRun handlers compression (ServerState.start world handlerToUri) log s)
    (here : s.clients[i]? = some client)
    (succeeds : ∀ done_ ∈ log.filterMap (completionOf i), done_.ec = .success) (globals : Globals ω) :
    ∃ session, Session.run handlers compression (log.filterMap (completionOf i)).length
        (Session.start globals ((log.filterMap (completionOf i)).reverse.filterMap Completion.delivers)) = session ∧
      session.pending = client.outstanding.head? ∧ session.chunks.flatten = [] ∧
      SameClient client { client with conn := session.conn } := by
  obtain ⟨first, accepted, own⟩ := clientRun_of_run run here
  obtain ⟨n, other, served, same⟩ := session_of_clientRun byRequest accepted own succeeds globals []
  rw [List.append_nil] at served
  obtain ⟨globals', same⟩ := same
  subst same
  exact ⟨_, served, rfl, by simp [asSession], globals', rfl⟩

end Run
end Clients

/-! ## Echoes -/

def plainEcho : Deployment Unit where
  handlers := echoHandlers
  running _ := true
  registered := by
    intro key handler found
    dsimp only [echoHandlers] at found
    split_ifs at found
    · cases found
      exact ⟨.error, fun _ _ _ _ => ⟨rfl, .error, rfl⟩⟩
    · cases found
      exact ⟨.echo (bytes "/"), fun _ _ _ _ => ⟨rfl, .echo, rfl⟩⟩
  errorHandler _ _ _ := rfl

def getOf (path : String) : Bytes := bytes "GET " ++ bytes path ++ bytes " HTTP/1.1\r\nHost: a\r\n\r\n"

def oneEcho : List Event := [.accept .success, .complete 0 .readPartial .success (getOf "/a")]

def twoEchoes : List Event :=
  [.accept .success, .accept .success, .complete 0 .readPartial .success (getOf "/b"),
    .complete 1 .readPartial .success (getOf "/a")]

theorem exists_echo (events : List Event) (i : Nat)
    (reached : (after plainEcho noCompression (ServerState.start () ∅) events).any
      (fun s => s.clients[i]?.isSome) = true) :
    ∃ s client, ServingRun echoHandlers noCompression (ServerState.start () ∅) events.reverse s ∧
      s.clients[i]? = some client := by
  obtain ⟨s, reached, some_⟩ := Option.any_eq_true _ _ |>.mp reached
  obtain ⟨client, here⟩ := Option.isSome_iff_exists.mp some_
  exact ⟨s, client, serving_of_run (run_of_after reached), here⟩

theorem echoes_apart : ∃ s s' client other,
    ServingRun echoHandlers noCompression (ServerState.start () ∅) oneEcho.reverse s ∧
      ServingRun echoHandlers noCompression (ServerState.start () ∅) twoEchoes.reverse s' ∧
      s.clients[0]? = some client ∧ s'.clients[1]? = some other ∧ SameClient client other := by
  obtain ⟨s, client, run, here⟩ := exists_echo oneEcho 0 (by decide)
  obtain ⟨s', other, run', here'⟩ := exists_echo twoEchoes 1 (by decide)
  exact ⟨s, s', client, other, run, run', here, here',
    (clients_apart answersByRequest_echoHandlers run run' here here' rfl).2⟩

theorem echo_served_alone : ∃ s client s' alone,
    ServingRun echoHandlers noCompression (ServerState.start () ∅) twoEchoes.reverse s ∧
      s.clients[1]? = some client ∧
      ServingRun echoHandlers noCompression (ServerState.start () ∅)
        (servedAlone (twoEchoes.reverse.filterMap (completionOf 1))) s' ∧
      s'.clients = [alone] ∧ SameClient client alone := by
  obtain ⟨s, client, run, here⟩ := exists_echo twoEchoes 1 (by decide)
  obtain ⟨s', alone, run', only, same⟩ := served_alone answersByRequest_echoHandlers run here () ∅
  exact ⟨s, client, s', alone, run, here, run', only, same⟩

theorem echo_session : ∃ s client session,
    ServingRun echoHandlers noCompression (ServerState.start () ∅) twoEchoes.reverse s ∧
      s.clients[1]? = some client ∧
      Session.run echoHandlers noCompression 1 (Session.start { world := () } [getOf "/a"]) = session ∧
      session.pending = client.outstanding.head? ∧ SameClient client { client with conn := session.conn } := by
  obtain ⟨s, client, run, here⟩ := exists_echo twoEchoes 1 (by decide)
  obtain ⟨session, served, pending, -, same⟩ := session_of_run answersByRequest_echoHandlers run here
    (List.forall_mem_singleton.mpr rfl) { world := () }
  exact ⟨s, client, session, run, here, served, pending, same⟩

end TscServer.Proof
