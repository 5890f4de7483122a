import TscServer.Model.Session
import TscServer.Proof.ConnectionSafety

/-!
# Framing of a keep-alive stream

The requests that a connection passes to `ProcessRequest` when the bytes of a sequence of messages
arrive in chunks. They are the requests of the messages when every partial read ends inside the
message whose head completed it, and the part of the body that it delivered neither has a NUL nor
continues the blank line of the head or has another one.
-/

namespace TscServer.Proof
open Lib Model Spec Connection

def FramesExactly {ω : Type} (handlers : Handlers ω) (compression : Compression) (globals : Globals ω)
    (messages : List Message) (chunks : List Bytes) : Prop :=
  ∃ enough, ∀ n ≥ enough,
    (Session.run handlers compression n (Session.start globals chunks)).conn.processed =
      messages.map Message.request

/-- The chunks deliver the messages so that each partial read yields the head of the next message
and a part of its body that the request expression leaves together. -/
def CleanlyCut : List Message → List Bytes → Prop
  | [], chunks => chunks.flatten = []
  | m :: messages, chunks =>
      ∃ received rest data rest',
        readUntil crlfcrlf chunks [] = some (m.head ++ received, rest) ∧
        0 ∉ received ∧ ¬ crlfcrlf <:+: crlf ++ received ∧
        readExactly rest (m.body.length - received.length) = some (data, rest') ∧
        received ++ data = m.body ∧ CleanlyCut messages rest'

section Step
variable {ω : Type} (handlers : Handlers ω) (compression : Compression)

/-- Between two messages: waiting for a head with nothing in the buffer. -/
structure Idle (s : Session ω) : Prop where
  pending : s.pending = some .readPartial
  buffer : s.conn.buffer = []

theorem contentLength_message {m : Message} (wf : m.WellFormed) {r : Request}
    (headers : r.headers = m.request.headers) : contentLength r = some m.body.length := by
  have same : r.getHeaderValueByName (bytes "Content-Length") =
      m.request.getHeaderValueByName (bytes "Content-Length") := by
    rw [Request.getHeaderValueByName, headers]
    rfl
  rw [contentLength, same]
  rcases wf.content_length with ⟨absent, empty⟩ | ⟨present, digits, value⟩
  · simp [absent, empty]
  · simp only [present, if_false]
    rw [lexicalCast_of_digits present digits (value ▸ wf.body_size), value]

theorem step_written {s : Session ω} {data : Bytes} (pending : s.pending = some (.write data)) :
    ∃ after, Session.step handlers compression s = some after ∧ after.chunks = s.chunks ∧
      if asksClose s.conn.request then after.pending = none ∧
        after.conn = { s.conn with closed := true, started := [] }
      else after.pending = some .readPartial ∧
        after.conn = { s.conn with response := {}, started := [.readPartial] } := by
  cases asks : asksClose s.conn.request with
  | true =>
      simp only [Session.step, pending, Session.complete, handleWrite, Proc.run_get_bind, asks]
      exact ⟨_, rfl, rfl, rfl, rfl⟩
  | false =>
      simp only [Session.step, pending, Session.complete, handleWrite, Proc.run_get_bind, asks]
      exact ⟨_, rfl, rfl, rfl, rfl⟩

theorem step_write {s : Session ω} {data : Bytes} (pending : s.pending = some (.write data))
    (open_ : asksClose s.conn.request = false) :
    ∃ s', Session.step handlers compression s = some s' ∧ s'.pending = some .readPartial ∧
      s'.conn.buffer = s.conn.buffer ∧ s'.conn.processed = s.conn.processed ∧
      s'.chunks = s.chunks := by
  obtain ⟨after, stepped, chunks, follows⟩ := step_written handlers compression pending
  rw [if_neg (by simp [open_])] at follows
  obtain ⟨pending', conn⟩ := follows
  exact ⟨after, stepped, pending', by rw [conn], by rw [conn], chunks⟩

theorem complete_of_done {handler : Proc Fault (Connection ω) Bool} {c c' : Connection ω} {b : Bool}
    (ran : handler.run { c with started := [] } = .done b c') (chunks : List Bytes) :
    Session.complete handler c chunks = some { conn := c', pending := c'.started.head?, chunks } := by
  rw [Session.complete, ran]

section Reading
variable {handlers compression} {s : Session ω} {message : Bytes} {rest : List Bytes} (idle : Idle s)
include idle

theorem step_waits (none_ : readUntil crlfcrlf s.chunks [] = none) :
    Session.step handlers compression s = none := by
  rw [Session.step, idle.pending]
  dsimp only
  rw [idle.buffer, none_]
  rfl

theorem step_reads (read : readUntil crlfcrlf s.chunks [] = some (message, rest)) :
    Session.step handlers compression s =
      Session.complete (handleReadPartial handlers compression .success) { s.conn with buffer := message }
        rest := by
  rw [Session.step, idle.pending]
  dsimp only
  rw [idle.buffer, read, Option.bind_some]

variable {request : Request} (read : readUntil crlfcrlf s.chunks [] = some (message, rest))
  (parsed : Request.parse message = some request)
include read parsed

theorem step_throws (length : contentLength request = none) :
    Session.step handlers compression s = none := by
  rw [step_reads idle read, Session.complete, handleReadPartial_some handlers compression parsed, length]
  rfl

variable (handlers compression) in
theorem step_asksBody {n : Nat} (length : contentLength request = some n) (more : request.body.length < n) :
    Session.step handlers compression s = some
      { conn := { s.conn with
          buffer := [], rawRequest := message, request, started := [.readBody (n - request.body.length)] }
        pending := some (.readBody (n - request.body.length)), chunks := rest } := by
  have handled := handleReadPartial_some handlers compression
    (c := { s.conn with buffer := message, started := [] }) parsed
  rw [length, Proc.ofOption_some, Proc.pure_bind, if_pos more] at handled
  exact (step_reads idle read).trans (complete_of_done handled rest)

theorem step_responds {n : Nat} (length : contentLength request = some n)
    (whole : ¬ request.body.length < n) {b : Bool} {c' : Connection ω}
    (ran : (respond handlers compression request).run
      { s.conn with buffer := [], rawRequest := message, request, started := [] } = .done b c') :
    Session.step handlers compression s = some { conn := c', pending := c'.started.head?, chunks := rest } := by
  have handled := handleReadPartial_some handlers compression
    (c := { s.conn with buffer := message, started := [] }) parsed
  rw [length, Proc.ofOption_some, Proc.pure_bind, if_neg whole] at handled
  exact (step_reads idle read).trans (complete_of_done (handled.trans ran) rest)

end Reading

/-- The bytes of a head and a part of the body make the connection serve the message at once when
that part is the whole body, and wait for the rest of it otherwise. -/
theorem step_readPartial {s : Session ω} (idle : Idle s) {m : Message} (wf : m.WellFormed)
    (one : m.OneColon) {received : Bytes} {rest : List Bytes}
    (read : readUntil crlfcrlf s.chunks [] = some (m.head ++ received, rest)) (noNul : 0 ∉ received)
    (noBlank : ¬ crlfcrlf <:+: crlf ++ received) :
    ∃ s', Session.step handlers compression s = some s' ∧ s'.conn.buffer = [] ∧ s'.chunks = rest ∧
      if received.length < m.body.length then
        s'.pending = some (.readBody (m.body.length - received.length)) ∧
          s'.conn.request = { m.request with rawRequest := m.head ++ received, body := received } ∧
          s'.conn.processed = s.conn.processed
      else
        (∃ data, s'.pending = some (.write data)) ∧
          s'.conn.request = { m.request with rawRequest := m.head ++ received, body := received } ∧
          s'.conn.processed = s.conn.processed ++
            [{ m.request with rawRequest := m.head ++ received, body := received }] := by
  have parsed := parse_message wf one noNul noBlank
  have length := contentLength_message wf
    (r := { m.request with rawRequest := m.head ++ received, body := received }) rfl
  have rooted : Rooted ({ m.request with rawRequest := m.head ++ received, body := received } :
    Request).uri := .inr wf.uri_slash
  by_cases more : received.length < m.body.length
  · simp only [more, if_true]
    exact ⟨_, step_asksBody handlers compression idle read parsed length more, rfl, rfl, rfl, rfl, rfl⟩
  · simp only [more, if_false]
    obtain ⟨after, returned, responded⟩ := respond_done handlers compression rooted
      { s.conn with
        buffer := [], started := [], rawRequest := m.head ++ received
        request := { m.request with rawRequest := m.head ++ received, body := received } }
    obtain ⟨data, started⟩ := responded.started
    exact ⟨_, step_responds idle read parsed length more returned, responded.buffer, rfl,
      ⟨data, by simp [started]⟩, responded.request_eq, responded.processed⟩

theorem step_readBody {s : Session ω} {n : Nat} {data : Bytes} {rest : List Bytes}
    (pending : s.pending = some (.readBody n)) (buffer : s.conn.buffer = [])
    (rooted : Rooted s.conn.request.uri) (read : readExactly s.chunks n = some (data, rest)) :
    ∃ s', Session.step handlers compression s = some s' ∧ s'.conn.buffer = [] ∧ s'.chunks = rest ∧
      (∃ data, s'.pending = some (.write data)) ∧
      s'.conn.request = s.conn.request.appendBody data ∧
      s'.conn.processed = s.conn.processed ++ [s.conn.request.appendBody data] := by
  simp only [Session.step, pending, read, buffer, Option.bind_some, List.nil_append, Session.complete]
  obtain ⟨after, returned, responded⟩ := handleReadBody_done handlers compression
    (c := { s.conn with buffer := data, started := [] }) rooted
  obtain ⟨written, started⟩ := responded.started
  simp only [returned]
  exact ⟨_, rfl, responded.buffer, rfl, ⟨written, by simp [started]⟩, responded.request_eq,
    responded.processed⟩

theorem asksClose_headers {r r' : Request} (same : r.headers = r'.headers) :
    asksClose r = asksClose r' := by
  rw [asksClose, asksClose, Request.getHeaderValueByName, Request.getHeaderValueByName, same]

theorem serve_message {s : Session ω} (idle : Idle s) {m : Message} {messages : List Message}
    (wf : m.WellFormed) (one : m.OneColon) (cut : CleanlyCut (m :: messages) s.chunks) :
    ∃ k, Idle (Session.run handlers compression k s) ∧
      (Session.run handlers compression k s).conn.processed = s.conn.processed ++ [m.request] ∧
      CleanlyCut messages (Session.run handlers compression k s).chunks := by
  obtain ⟨received, rest, data, rest', read, noNul, noBlank, readRest, body, cut⟩ := cut
  obtain ⟨s₁, step₁, buffer₁, chunks₁, outcome⟩ :=
    step_readPartial handlers compression idle wf one read noNul noBlank
  have keepsAlive {r : Request} (same : r.headers = m.request.headers) : asksClose r = false := by
    rw [asksClose_headers same, wf.keeps_alive]
  split at outcome
  · -- the rest of the body is read by an operation of its own
    obtain ⟨pending₁, request₁, processed₁⟩ := outcome
    obtain ⟨s₂, step₂, buffer₂, chunks₂, ⟨written, pending₂⟩, request₂, processed₂⟩ :=
      step_readBody handlers compression pending₁ buffer₁
        (by rw [request₁]; exact .inr wf.uri_slash) (by rw [chunks₁]; exact readRest)
    have whole : s₁.conn.request.appendBody data = m.request := by
      rw [request₁, Request.appendBody]
      simp [Message.request, Message.toBytes, body]
    obtain ⟨s₃, step₃, pending₃, buffer₃, processed₃, chunks₃⟩ := step_write handlers compression
      pending₂ (keepsAlive (by rw [request₂, whole]))
    refine ⟨3, ?_⟩
    rw [Session.run_of_step _ _ step₁, Session.run_of_step _ _ step₂, Session.run_of_step _ _ step₃,
      Session.run]
    exact ⟨⟨pending₃, by rw [buffer₃, buffer₂]⟩,
      by rw [processed₃, processed₂, processed₁, whole], by rw [chunks₃, chunks₂]; exact cut⟩
  · -- the read that completed the head delivered the whole body
    rename_i done
    obtain ⟨⟨written, pending₁⟩, request₁, processed₁⟩ := outcome
    have none_left : m.body.length - received.length = 0 := by omega
    rw [none_left, readExactly_zero, Option.some.injEq, Prod.mk.injEq] at readRest
    obtain ⟨rfl, rfl⟩ := readRest
    rw [List.append_nil] at body
    subst body
    obtain ⟨s₂, step₂, pending₂, buffer₂, processed₂, chunks₂⟩ := step_write handlers compression
      pending₁ (keepsAlive (by rw [request₁]))
    refine ⟨2, ?_⟩
    rw [Session.run_of_step _ _ step₁, Session.run_of_step _ _ step₂, Session.run]
    exact ⟨⟨pending₂, by rw [buffer₂, buffer₁]⟩, by rw [processed₂, processed₁]; rfl,
      by rw [chunks₂, chunks₁]; exact cut⟩

/-- Induction on the messages: each leaves the session idle before the next one. -/
theorem serve_messages {messages : List Message} {s : Session ω} (idle : Idle s)
    (wf : ∀ m ∈ messages, m.WellFormed) (one : ∀ m ∈ messages, m.OneColon)
    (cut : CleanlyCut messages s.chunks) :
    ∃ k, Session.step handlers compression (Session.run handlers compression k s) = none ∧
      (Session.run handlers compression k s).conn.processed =
        s.conn.processed ++ messages.map Message.request := by
  induction messages generalizing s with
  | nil =>
      refine ⟨0, ?_, by simp [Session.run]⟩
      have waits : readUntil crlfcrlf s.chunks [] = none := by
        rw [readUntil_eq_none_iff, cut]
        decide
      simp [Session.run, Session.step, idle.pending, idle.buffer, waits]
  | cons m messages ih =>
      obtain ⟨k, idle', processed, cut'⟩ :=
        serve_message handlers compression idle (wf m (by simp)) (one m (by simp)) cut
      obtain ⟨n, stuck, all⟩ := ih idle' (fun m hm => wf m (by simp [hm]))
        (fun m hm => one m (by simp [hm])) cut'
      refine ⟨k + n, ?_, ?_⟩
      · rw [Session.run_add]
        exact stuck
      · rw [Session.run_add, all, processed]
        simp

end Step

theorem flatten_of_cleanlyCut {messages : List Message} {chunks : List Bytes}
    (cut : CleanlyCut messages chunks) : chunks.flatten = messages.flatMap Message.toBytes := by
  induction messages generalizing chunks with
  | nil => exact cut
  | cons m messages ih =>
      obtain ⟨received, rest, data, rest', read, -, -, readRest, body, cut⟩ := cut
      have front := readUntil_append read
      have back := (readExactly_append readRest).1
      rw [List.nil_append] at front
      rw [List.flatMap_cons, ← ih cut, ← front, ← back, Message.toBytes, ← body]
      simp

theorem framesExactly_of_cleanlyCut {ω : Type} (handlers : Handlers ω) (compression : Compression)
    (globals : Globals ω) {messages : List Message} {chunks : List Bytes}
    (wf : ∀ m ∈ messages, m.WellFormed) (one : ∀ m ∈ messages, m.OneColon)
    (cut : CleanlyCut messages chunks) :
    FramesExactly handlers compression globals messages chunks := by
  obtain ⟨k, stuck, processed⟩ := serve_messages handlers compression
    (s := Session.start globals chunks) ⟨rfl, rfl⟩ wf one cut
  refine ⟨k, fun n le => ?_⟩
  obtain ⟨d, rfl⟩ := Nat.exists_eq_add_of_le le
  rw [Session.run_add, Session.run_of_stuck _ _ stuck, processed]
  rfl

/-! ## One cut that works, and one that does not -/

def postMessage : Message where
  method := bytes "POST"
  uri := bytes "/"
  version := bytes "HTTP/1.1"
  fields := [{ name := bytes "Content-Length", value := bytes "3" }]
  body := bytes "xyz"

def getMessage : Message where
  method := bytes "GET"
  uri := bytes "/"
  version := bytes "HTTP/1.1"
  fields := [{ name := bytes "Host", value := bytes "a:80" }]

theorem wellFormed_postMessage : postMessage.WellFormed where
  method_ne_nil := by decide
  method_bytes := by decide +kernel
  uri_slash := by decide
  uri_bytes := by decide +kernel
  uri_no_dots := by decide
  version_form := ⟨bytes "1", bytes "1", by decide +kernel⟩
  fields_ne_nil := by decide
  fields_wellFormed := by
    intro f hf
    obtain rfl := List.mem_singleton.mp hf
    exact ⟨by decide, by decide +kernel, by decide +kernel, ⟨51, by decide⟩, by decide +kernel⟩
  content_length := .inr (by decide +kernel)
  body_size := by decide
  keeps_alive := by decide

theorem wellFormed_getMessage : getMessage.WellFormed where
  method_ne_nil := by decide
  method_bytes := by decide +kernel
  uri_slash := by decide
  uri_bytes := by decide +kernel
  uri_no_dots := by decide
  version_form := ⟨bytes "1", bytes "1", by decide +kernel⟩
  fields_ne_nil := by decide
  fields_wellFormed := by
    intro f hf
    obtain rfl := List.mem_singleton.mp hf
    exact ⟨by decide, by decide +kernel, by decide +kernel, ⟨97, by decide⟩, by decide +kernel⟩
  content_length := .inl (by decide)
  body_size := by decide
  keeps_alive := by decide

theorem oneColon_postMessage : postMessage.OneColon := by
  intro f hf
  obtain rfl := List.mem_singleton.mp hf
  constructor <;> decide

theorem oneColon_getMessage : getMessage.OneColon := by
  intro f hf
  obtain rfl := List.mem_singleton.mp hf
  constructor <;> decide

theorem framesExactly_post_get : FramesExactly emptyHandlers noCompression { world := () }
    [postMessage, getMessage]
    [bytes "POST / HTTP/1.1\r\nContent-Le", bytes "ngth: 3\r\n\r\nx", bytes "yz",
      bytes "GET / HTTP/1.1\r\nHost: a:80\r\n\r\n"] := by
  apply framesExactly_of_cleanlyCut
  · simp [wellFormed_postMessage, wellFormed_getMessage]
  · simp [oneColon_postMessage, oneColon_getMessage]
  · exact ⟨bytes "x", _, bytes "yz", _, rfl, by decide, by decide, rfl, rfl,
      [], _, [], _, rfl, by decide, by decide, rfl, rfl, rfl⟩

theorem pipelined_not_framed :
    ¬ ∀ (messages : List Message) (chunks : List Bytes), (∀ m ∈ messages, m.WellFormed) →
      chunks.flatten = messages.flatMap Message.toBytes →
      FramesExactly emptyHandlers noCompression { world := () } messages chunks := by
  intro claim
  obtain ⟨enough, framed⟩ := claim [getMessage, getMessage] [getMessage.toBytes ++ getMessage.toBytes]
    (by simp [wellFormed_getMessage]) (by simp)
  have stuck : Session.step emptyHandlers noCompression
      (Session.run emptyHandlers noCompression 2
        (Session.start { world := () } [getMessage.toBytes ++ getMessage.toBytes])) = none :=
    Option.isNone_iff_eq_none.mp (by decide)
  have framed := framed (2 + enough) (by omega)
  rw [Session.run_add, Session.run_of_stuck _ _ stuck] at framed
  revert framed
  decide

end TscServer.Proof
