import Mathlib.Data.List.Chain
import TscServer.Proof.ContentLength
import TscServer.Spec.Operations

/-!
# The server that stops listening

Each completion handler of a connection starts one operation or ends the connection, but the acceptor
is not armed again after an error. `attends_iff` says in which runs this matters.
-/

namespace TscServer.Proof
open Lib Model Spec Connection ServerState

/-! ## What a completion starts -/

/-- The operation that a connection starts when one completes. -/
inductive Follows : AsyncOp → AsyncOp → Prop
  | readBody {n : Nat} : Follows .readPartial (.readBody n)
  | answered {data : Bytes} : Follows .readPartial (.write data)
  | completed {n : Nat} {data : Bytes} : Follows (.readBody n) (.write data)
  | readsOn {data : Bytes} : Follows (.write data) .readPartial

section Completion
variable {ω : Type} {handlers : Handlers ω} {compression : Compression}

/-- A write is started, and nothing else that concerns the socket happens. -/
structure StartsWrite (c c' : Connection ω) : Prop where
  started : ∃ data, c'.started = c.started ++ [.write data]
  closed : c'.closed = c.closed

theorem startsWrite_doWrite {c c' : Connection ω} {b : Bool}
    (ran : (doWrite compression >>= fun _ => pure true).run c = .done b c') : StartsWrite c c' := by
  cases ran
  exact ⟨⟨_, rfl⟩, rfl⟩

theorem startsWrite_handleError {c c' : Connection ω} {b : Bool}
    (ran : (handleError handlers >>= fun _ => doWrite compression >>= fun _ => pure true).run c =
      .done b c') : StartsWrite c c' := by
  cases ran
  exact ⟨⟨_, rfl⟩, rfl⟩

theorem startsWrite_respond {request : Request} {c c' : Connection ω} {b : Bool}
    (ran : (respond handlers compression request).run c = .done b c') : StartsWrite c c' := by
  obtain ⟨routed_, mid, called, -⟩ := Proc.run_bind_eq_done.mp ran
  have same : mid.started = c.started ∧ mid.closed = c.closed := by
    cases routes : routed handlers request with
    | none =>
        rw [run_processRequest_spins routes] at called
        cases called
    | some route =>
        cases route with
        | none =>
            rw [run_processRequest_unrouted routes] at called
            cases called
            exact ⟨rfl, rfl⟩
        | some handler =>
            rw [run_processRequest_handled routes] at called
            cases called
            exact ⟨rfl, rfl⟩
  have wrote : StartsWrite mid c' := by
    cases routed_ with
    | true =>
        rw [run_respond_handled _ compression called] at ran
        exact startsWrite_doWrite ran
    | false =>
        rw [run_respond_failed _ compression called] at ran
        exact startsWrite_handleError ran
  obtain ⟨⟨data, started⟩, closed⟩ := wrote
  exact ⟨⟨data, by rw [started, same.1]⟩, closed.trans same.2⟩

/-- What a completion handler leaves: one more operation, or none because the connection ends. -/
inductive Continues (c : Connection ω) (op : AsyncOp) (ec : ErrorCode) (c' : Connection ω) : Prop
  | goesOn {next : AsyncOp} : Follows op next → c'.started = c.started ++ [next] → Continues c op ec c'
  | ends : c'.started = c.started → c'.closed = true ∨ ec = .operationAborted → Continues c op ec c'

theorem continues_of_handleReadPartial {c c' : Connection ω} {b : Bool}
    (ran : (handleReadPartial handlers compression .success).run c = .done b c') :
    Continues c .readPartial .success c' := by
  simp only [handleReadPartial, run_consumeBuffer_bind, Proc.run_modify_bind] at ran
  cases parsed : Request.parse c.buffer with
  | none =>
      rw [parsed] at ran
      obtain ⟨data, started⟩ := (startsWrite_handleError ran).started
      exact .goesOn .answered started
  | some request =>
      rw [parsed] at ran
      simp only [Proc.run_modify_bind] at ran
      cases length : contentLength request with
      | none =>
          rw [length] at ran
          cases ran
      | some n =>
          rw [length] at ran
          simp only [Proc.ofOption_some, Proc.pure_bind] at ran
          split at ran
          · cases ran
            exact .goesOn .readBody rfl
          · obtain ⟨data, started⟩ := (startsWrite_respond ran).started
            exact .goesOn .answered started

theorem continues_of_completion {op : AsyncOp} {ec : ErrorCode} {c c' : Connection ω} {b : Bool}
    (ran : (completion compression handlers ec op).run c = .done b c') : Continues c op ec c' := by
  have fails (x : AsyncOp) :
      (completion compression handlers .operationAborted x).run c = .done false c := by
    cases x <;> rfl
  have breaks (x : AsyncOp) (code : Nat) : (completion compression handlers (.other code) x).run c =
      .done false { c with closed := true } := by
    cases x <;> rfl
  cases ec with
  | operationAborted =>
      rw [fails] at ran
      cases ran
      exact .ends rfl (.inr rfl)
  | other code =>
      rw [breaks] at ran
      cases ran
      exact .ends rfl (.inl rfl)
  | success =>
      cases op with
      | readPartial => exact continues_of_handleReadPartial ran
      | readBody n =>
          change (handleReadBody handlers compression .success).run c = _ at ran
          simp only [handleReadBody, run_consumeBuffer_bind, Proc.run_modify_bind, Proc.run_get_bind]
            at ran
          obtain ⟨data, started⟩ := (startsWrite_respond ran).started
          exact .goesOn .completed started
      | write data =>
          change (handleWrite .success).run c = _ at ran
          simp only [handleWrite, Proc.run_get_bind] at ran
          cases asks : asksClose c.request with
          | true =>
              rw [asks] at ran
              cases ran
              exact .ends rfl (.inl rfl)
          | false =>
              rw [asks] at ran
              cases ran
              exact .goesOn .readsOn rfl

end Completion

/-! ## Turns -/

theorem alternate_cons {op : AsyncOp} {ops : List AsyncOp} (shown : isBodyRead op = false) :
    Alternate (op :: ops) ↔ (∀ next ∈ (ops.filter fun op => !isBodyRead op).head?,
      isWrite op ≠ isWrite next) ∧ Alternate ops := by
  rw [Alternate, List.filter_cons_of_pos (by simp [shown]), List.isChain_cons]
  rfl

theorem alternate_readBody {n : Nat} {ops : List AsyncOp} :
    Alternate (.readBody n :: ops) ↔ Alternate ops := by
  rw [Alternate, List.filter_cons_of_neg (by simp [isBodyRead])]
  rfl

theorem alternate_of_chain {ops : List AsyncOp} (chain : ops.IsChain Follows) :
    Alternate ops ∧ ∀ n rest, ops = .readBody n :: rest →
      ∀ next ∈ (rest.filter fun op => !isBodyRead op).head?, isWrite next = true := by
  induction ops with
  | nil => exact ⟨.nil, nofun⟩
  | cons op ops ih =>
      rw [List.isChain_cons] at chain
      obtain ⟨follows, chain⟩ := chain
      obtain ⟨turns, afterBody⟩ := ih chain
      cases op with
      | readPartial =>
          refine ⟨(alternate_cons rfl).mpr ⟨fun next head => ?_, turns⟩, nofun⟩
          have write : isWrite next = true := by
            cases ops with
            | nil => cases head
            | cons op' ops =>
                cases follows op' rfl with
                | readBody => exact afterBody _ _ rfl next head
                | answered =>
                    cases head
                    rfl
          rw [write]
          decide
      | readBody n =>
          refine ⟨alternate_readBody.mpr turns, fun n' rest same next head => ?_⟩
          obtain ⟨-, rfl⟩ := List.cons.inj same
          cases ops with
          | nil => cases head
          | cons op' ops =>
              cases follows op' rfl
              cases head
              rfl
      | write data =>
          refine ⟨(alternate_cons rfl).mpr ⟨fun next head => ?_, turns⟩, nofun⟩
          cases ops with
          | nil => cases head
          | cons op' ops =>
              cases follows op' rfl
              cases head
              simp [isWrite]

/-! ## Runs -/

section Run
variable {ω : Type} {handlers : Handlers ω} {compression : Compression} {world : ω}
  {handlerToUri : AList fun _ : Bytes => List Bytes} {log : List Event} {s s' : ServerState ω}

structure Turns (log : List Event) (s : ServerState ω) : Prop where
  unknown : ∀ i, s.clients.length ≤ i → log.filterMap (completedOp i) = []
  waits : ∀ i client, s.clients[i]? = some client → (∃ op, client.outstanding = [op]) ∨
    client.outstanding = [] ∧ (client.conn.closed = true ∨ Aborted log i)
  chain : ∀ i client, s.clients[i]? = some client → (operations log i client).IsChain Follows

theorem operations_other {event : Event} {i : Nat} (other : completedOp i event = none)
    (client : Client ω) : operations (event :: log) i client = operations log i client := by
  simp [operations, List.filterMap_append, other]

theorem operations_completed {i : Nat} {op : AsyncOp} {ec : ErrorCode} {data : Bytes}
    (client : Client ω) : operations (.complete i op ec data :: log) i client =
      log.reverse.filterMap (completedOp i) ++ [op] ++ client.outstanding := by
  simp [operations, List.filterMap_append, completedOp]

theorem turns_start : Turns [] (ServerState.start world handlerToUri) := by
  refine ⟨fun _ _ => rfl, fun i client here => ?_, fun i client here => ?_⟩
  · cases here
  · cases here

theorem Aborted.later {event : Event} {i : Nat} (aborted : Aborted log i) : Aborted (event :: log) i := by
  obtain ⟨op, data, mem⟩ := aborted
  exact ⟨op, data, List.mem_cons_of_mem event mem⟩

theorem turns_other {event : Event} {i : Nat} {client : Client ω} (turns : Turns log s)
    (here : s.clients[i]? = some client) (other : completedOp i event = none) :
    ((∃ op, client.outstanding = [op]) ∨
      client.outstanding = [] ∧ (client.conn.closed = true ∨ Aborted (event :: log) i)) ∧
      (operations (event :: log) i client).IsChain Follows := by
  refine ⟨?_, ?_⟩
  · refine (turns.waits i client here).imp_right fun ended => ⟨ended.1, ended.2.imp_right ?_⟩
    exact Aborted.later
  · rw [operations_other other]
    exact turns.chain i client here

theorem turns_accept {ec : ErrorCode} (turns : Turns log s) :
    Turns (.accept ec :: log) (handleAccept { s with accepting := s.accepting - 1 } ec) := by
  have refused : Turns (.accept ec :: log) { s with accepting := s.accepting - 1 } := by
    refine ⟨turns.unknown, fun i client here => ?_, fun i client here => ?_⟩
    · exact (turns_other turns here rfl).1
    · exact (turns_other turns here rfl).2
  cases ec with
  | operationAborted => exact refused
  | other code => exact refused
  | success =>
      let new : Client ω := { conn := { globals := s.globals }, outstanding := [.readPartial] }
      have place {i : Nat} {client : Client ω} (here : (s.clients ++ [new])[i]? = some client) :
          s.clients[i]? = some client ∨ i = s.clients.length ∧ client = new := by
        rcases Nat.lt_trichotomy i s.clients.length with before | rfl | after
        · rw [List.getElem?_append_left before] at here
          exact .inl here
        · rw [List.getElem?_concat_length] at here
          exact .inr ⟨rfl, (Option.some.inj here).symm⟩
        · rw [List.getElem?_eq_none (by simp; omega)] at here
          cases here
      refine ⟨fun i beyond => ?_, fun i client here => ?_, fun i client here => ?_⟩
      · apply turns.unknown
        have longer : (s.clients ++ [new]).length ≤ i := beyond
        simp at longer
        omega
      · rcases place here with old | ⟨rfl, rfl⟩
        · exact (turns_other turns old rfl).1
        · exact .inl ⟨.readPartial, rfl⟩
      · rcases place here with old | ⟨rfl, rfl⟩
        · exact (turns_other turns old rfl).2
        · have fresh := turns.unknown _ (Nat.le_refl _)
          rw [operations_other rfl, operations, List.filterMap_reverse, fresh]
          exact List.isChain_singleton _

theorem Turns.single {i : Nat} {op : AsyncOp} {client : Client ω} (turns : Turns log s)
    (here : s.clients[i]? = some client) (mem : op ∈ client.outstanding) : client.outstanding = [op] := by
  rcases turns.waits i client here with ⟨other, single⟩ | ⟨nothing, -⟩
  · rw [single, List.mem_singleton] at mem
    rw [single, mem]
  · rw [nothing] at mem
    cases mem

theorem turns_complete {i : Nat} {op : AsyncOp} {ec : ErrorCode} {data : Bytes} {client : Client ω}
    {conn : Connection ω} (turns : Turns log s) (here : s.clients[i]? = some client)
    (mem : op ∈ client.outstanding) (goes : Continues { client.conn with
      globals := s.globals, buffer := client.conn.buffer ++ data, started := [] } op ec conn) :
    Turns (.complete i op ec data :: log)
      { s with
        globals := conn.globals
        clients := s.clients.set i
          { conn, outstanding := client.outstanding.eraseP (· = op) ++ conn.started }
        written := s.written ++ conn.started.filterMap (writtenBy conn) } := by
  have single := turns.single here mem
  have gone : client.outstanding.eraseP (· = op) = [] := by simp [single]
  have lt := (List.getElem?_eq_some_iff.mp here).1
  have before := turns.chain i client here
  rw [operations, single] at before
  have place {j : Nat} {other : Client ω}
      (there : (s.clients.set i { conn, outstanding := [] ++ conn.started })[j]? = some other) :
      (s.clients[j]? = some other ∧ completedOp j (.complete i op ec data) = none) ∨
        j = i ∧ other = { conn, outstanding := conn.started } := by
    by_cases same : i = j
    · subst same
      rw [List.getElem?_set_self lt] at there
      exact .inr ⟨rfl, (Option.some.inj there).symm⟩
    · rw [List.getElem?_set_ne same] at there
      exact .inl ⟨there, by simp [completedOp, same]⟩
  rw [gone]
  refine ⟨fun j beyond => ?_, fun j other there => ?_, fun j other there => ?_⟩
  · rw [List.length_set] at beyond
    have other : i ≠ j := by omega
    rw [List.filterMap_cons_none (by simp [completedOp, other])]
    exact turns.unknown j beyond
  · rcases place there with ⟨old, none_⟩ | ⟨rfl, rfl⟩
    · exact (turns_other turns old none_).1
    · cases goes with
      | goesOn _ started => exact .inl ⟨_, started⟩
      | ends started why =>
          refine .inr ⟨started, why.imp_right fun aborted => ?_⟩
          exact ⟨op, data, by rw [aborted]; exact List.mem_cons_self⟩
  · rcases place there with ⟨old, none_⟩ | ⟨rfl, rfl⟩
    · exact (turns_other turns old none_).2
    · rw [operations_completed]
      cases goes with
      | goesOn follows started =>
          rw [started]
          refine before.append (List.isChain_singleton _) fun last isLast next isNext => ?_
          obtain rfl : op = last := by simpa using isLast
          obtain rfl := Option.some.inj isNext
          exact follows
      | ends started _ =>
          rw [started, List.append_nil]
          exact before

theorem turns_of_run
    (run : ServingRun handlers compression (ServerState.start world handlerToUri) log s) :
    Turns log s := by
  induction run with
  | start => exact turns_start
  | next _ advances ih =>
      cases advances with
      | accept _ => exact turns_accept ih
      | complete here mem _ ran => exact turns_complete ih here mem (continues_of_completion ran)

/-! ## The acceptor -/

theorem accepting_of_run
    (run : ServingRun handlers compression (ServerState.start world handlerToUri) log s)
    (accepted : ∀ ec, Event.accept ec ∈ log → ec = .success) : s.accepting = 1 := by
  induction run with
  | start => rfl
  | next _ advances ih =>
      have armed := ih fun ec mem => accepted ec (List.mem_cons_of_mem _ mem)
      cases advances with
      | @accept ec waiting =>
          obtain rfl := accepted ec List.mem_cons_self
          show _ - 1 + 1 = 1
          rw [armed]
      | complete => exact armed

theorem earlier_run {later : List Event}
    (run : ServingRun handlers compression (ServerState.start world handlerToUri) (later ++ log) s) :
    ∃ s', ServingRun handlers compression (ServerState.start world handlerToUri) log s' := by
  induction later generalizing s with
  | nil => exact ⟨s, run⟩
  | cons event later ih =>
      cases run with
      | next before _ => exact ih before

theorem attends_iff
    (run : ServingRun handlers compression (ServerState.start world handlerToUri) log s) :
    (∀ log' s', log' <:+ log →
      ServingRun handlers compression (ServerState.start world handlerToUri) log' s' →
        Attends log' s') ↔ ∀ ec, Event.accept ec ∈ log → ec = .success := by
  constructor
  · intro attends ec mem
    obtain ⟨later, earlier, rfl⟩ := List.append_of_mem mem
    obtain ⟨s', after⟩ := earlier_run run
    have armed := (attends _ s' (List.suffix_append later _) after).accepting
    cases after with
    | next before advances =>
        have armedBefore := (attends earlier _
          ((List.suffix_cons _ earlier).trans (List.suffix_append later _)) before).accepting
        cases advances with
        | accept _ =>
            cases ec with
            | success => rfl
            | operationAborted => exact absurd armed (by simp [handleAccept, armedBefore])
            | other code => exact absurd armed (by simp [handleAccept, armedBefore])
  · intro accepted log' s' earlier run'
    have turns := turns_of_run run'
    exact
      { accepting := accepting_of_run run' fun ec mem => accepted ec (earlier.subset mem)
        waits := turns.waits
        alternate := fun i client here => (alternate_of_chain (turns.chain i client here)).1 }

end Run

theorem serving_of_run {ω : Type} {deployment : Deployment ω} {compression : Compression}
    {init s : ServerState ω} {log : List Event} (run : Run deployment compression init log s) :
    ServingRun deployment.handlers compression init log s := by
  induction run with
  | start => exact .start
  | next _ stepped ih => exact ih.next (advances_of_step deployment compression stepped)

theorem attends_echo : ∃ s, ServingRun echoDeployment.handlers noCompression
    (ServerState.start freshWorld ∅) compressedEcho.reverse s ∧ Attends compressedEcho.reverse s := by
  have reached : (after echoDeployment noCompression (ServerState.start freshWorld ∅)
      compressedEcho).isSome := by decide
  obtain ⟨s, reached⟩ := Option.isSome_iff_exists.mp reached
  have run := serving_of_run (run_of_after reached)
  have accepted : ∀ ec, Event.accept ec ∈ compressedEcho.reverse → ec = .success := by
    intro ec mem
    simpa [compressedEcho] using mem
  exact ⟨s, run, (attends_iff run).mpr accepted _ s List.suffix_rfl run⟩

-- too many open files
theorem not_attends : ¬ ∀ log s, ServingRun echoDeployment.handlers noCompression
    (ServerState.start freshWorld ∅) log s → Attends log s := by
  intro attends
  have run : ServingRun echoDeployment.handlers noCompression (ServerState.start freshWorld ∅)
      [.accept (.other 24)] _ := .next .start (.accept (by decide))
  have armed := (attends _ _ run).accepting
  exact absurd armed (by decide)

end TscServer.Proof
