import TscServer.Proof.RequestImage

/-!
# No exception escapes a completion handler

The completion handlers of a connection return, except where the conversion of a Content-Length
throws. `handleReadPartial_survives_iff` says for which bytes that is.
-/

namespace TscServer.Proof
open Lib Model Spec Connection

section Returns
variable {ω : Type} (handlers : Handlers ω) (compression : Compression)

def Rooted (uri : Bytes) : Prop := uri = [] ∨ uri.head? = some 47

theorem rooted_take {uri : Bytes} (rooted : Rooted uri) (pos : Nat) : Rooted (uri.take pos) := by
  cases pos with
  | zero => exact .inl rfl
  | succ pos =>
      rcases rooted with rfl | slash
      · exact .inl rfl
      · obtain ⟨rest, rfl⟩ := List.head?_eq_some_iff.mp slash
        exact .inr rfl

theorem longestPrefix_isSome {uri : Bytes} (rooted : Rooted uri) {fuel : Nat}
    (enough : uri.length < fuel) : (longestPrefix handlers fuel uri).isSome := by
  induction fuel generalizing uri with
  | zero => omega
  | succ fuel ih =>
      rw [longestPrefix]
      split
      · rfl
      · rename_i nonempty
        split
        · rfl
        · cases cut : findLast 47 uri with
          | none =>
              rcases rooted with rfl | slash
              · exact absurd rfl nonempty
              · exact absurd (List.mem_of_head? slash) (findLast_eq_none_iff.mp cut)
          | some pos =>
              have lt := findLast_lt cut
              exact ih (rooted_take rooted pos) (by simp; omega)

theorem selectPrefix_isSome {request : Request} (rooted : Rooted request.uri) :
    ∃ longest, selectPrefix handlers request = some longest := by
  obtain ⟨longest, found⟩ := Option.isSome_iff_exists.mp
    (longestPrefix_isSome handlers rooted (Nat.lt_succ_self _))
  exact ⟨_, by rw [selectPrefix, found]; rfl⟩

/-- What serving a request leaves: one write was started, and the connection keeps its request. -/
structure Responded (request : Request) (before after : Connection ω) : Prop where
  started : ∃ data, after.started = before.started ++ [.write data]
  processed : after.processed = before.processed ++ [request]
  buffer : after.buffer = before.buffer
  request_eq : after.request = before.request
  closed : after.closed = before.closed

/-- The handler that a request is routed to, if there is one; `none` when routing never ends. -/
def routed (request : Request) : Option (Option (Handler ω)) :=
  (selectPrefix handlers request).map fun longest =>
    if longest = [] then none else handlers.find longest

theorem routed_isSome {request : Request} (rooted : Rooted request.uri) :
    ∃ route, routed handlers request = some route := by
  obtain ⟨longest, selected⟩ := selectPrefix_isSome handlers rooted
  exact ⟨_, by rw [routed, selected]; rfl⟩

theorem find_of_routed {request : Request} {handler : Handler ω}
    (routes : routed handlers request = some (some handler)) :
    ∃ key, handlers.find key = some handler := by
  obtain ⟨longest, -, found⟩ := Option.map_eq_some_iff.mp routes
  split at found
  · cases found
  · exact ⟨longest, found⟩

variable {handlers}

theorem run_processRequest_spins {request : Request} (routes : routed handlers request = none)
    (c : Connection ω) : (processRequest handlers request).run c = .running := by
  have selected := Option.map_eq_none_iff.mp routes
  simp only [processRequest, Proc.run_modify_bind, selected]
  rfl

theorem run_processRequest_unrouted {request : Request} (routes : routed handlers request = some none)
    (c : Connection ω) : (processRequest handlers request).run c = .done false
      { c with processed := c.processed ++ [request], response := c.response.setStatus .badRequest } := by
  obtain ⟨longest, selected, found⟩ := Option.map_eq_some_iff.mp routes
  simp only [processRequest, Proc.run_modify_bind, selected, found]
  rfl

theorem run_processRequest_handled {request : Request} {handler : Handler ω}
    (routes : routed handlers request = some (some handler)) (c : Connection ω) :
    (processRequest handlers request).run c = .done ((handler request c.response c.globals).1 == .ok)
      { c with
        processed := c.processed ++ [request]
        response := (handler request c.response c.globals).2.1
        globals := (handler request c.response c.globals).2.2 } := by
  obtain ⟨longest, selected, found⟩ := Option.map_eq_some_iff.mp routes
  simp only [processRequest, Proc.run_modify_bind, selected, found]
  rfl

variable (handlers)

theorem processRequest_done {request : Request} (rooted : Rooted request.uri) (c : Connection ω) :
    ∃ b response globals, (processRequest handlers request).run c =
      .done b { c with processed := c.processed ++ [request], response, globals } := by
  obtain ⟨route, routes⟩ := routed_isSome handlers rooted
  cases route with
  | none => exact ⟨_, _, _, run_processRequest_unrouted routes c⟩
  | some handler => exact ⟨_, _, _, run_processRequest_handled routes c⟩

theorem run_respond_handled {request : Request} {c mid : Connection ω}
    (called : (processRequest handlers request).run c = .done true mid) :
    (respond handlers compression request).run c =
      (doWrite compression >>= fun _ => pure true).run mid := Proc.run_bind_of_done called

theorem run_respond_failed {request : Request} {c mid : Connection ω}
    (called : (processRequest handlers request).run c = .done false mid) :
    (respond handlers compression request).run c =
      (handleError handlers >>= fun _ => doWrite compression >>= fun _ => pure true).run mid :=
  Proc.run_bind_of_done called

theorem respond_done {request : Request} (rooted : Rooted request.uri) (c : Connection ω) :
    ∃ after, (respond handlers compression request).run c = .done true after ∧
      Responded request c after := by
  obtain ⟨b, response, globals, routed⟩ := processRequest_done handlers rooted c
  cases b with
  | true =>
      rw [run_respond_handled handlers compression routed]
      exact ⟨_, rfl, ⟨_, rfl⟩, rfl, rfl, rfl, rfl⟩
  | false =>
      rw [run_respond_failed handlers compression routed]
      exact ⟨_, rfl, ⟨_, rfl⟩, rfl, rfl, rfl, rfl⟩

end Returns

/-! ## The conversion of the Content-Length -/

def ContentLengthValid (request : Request) : Prop :=
  let value := request.getHeaderValueByName (bytes "Content-Length")
  value = [] ∨ ∃ sign digits, value = sign ++ digits ∧ (sign = [] ∨ sign = [43] ∨ sign = [45]) ∧
    digits ≠ [] ∧ (∀ c ∈ digits, isDigit c = true) ∧ decimal digits < 2 ^ 64

theorem splitSign_append {sign digits : Bytes} (signs : sign = [] ∨ sign = [43] ∨ sign = [45])
    (nonempty : digits ≠ []) (all : ∀ c ∈ digits, isDigit c = true) :
    (splitSign (sign ++ digits)).2 = digits := by
  rcases signs with rfl | rfl | rfl
  · obtain ⟨c, digits, rfl⟩ := List.exists_cons_of_ne_nil nonempty
    rw [List.nil_append, splitSign_of_digit (all c (by simp))]
  · rfl
  · rfl

theorem splitSign_eq (s : Bytes) :
    ∃ sign, s = sign ++ (splitSign s).2 ∧ (sign = [] ∨ sign = [43] ∨ sign = [45]) := by
  unfold splitSign
  split
  · exact ⟨[45], rfl, .inr (.inr rfl)⟩
  · exact ⟨[43], rfl, .inr (.inl rfl)⟩
  · exact ⟨[], rfl, .inl rfl⟩

theorem lexicalCast_isSome_iff {s : Bytes} : (lexicalCast s).isSome ↔
    ∃ sign digits, s = sign ++ digits ∧ (sign = [] ∨ sign = [43] ∨ sign = [45]) ∧
      digits ≠ [] ∧ (∀ c ∈ digits, isDigit c = true) ∧ decimal digits < 2 ^ 64 := by
  constructor
  · intro h
    obtain ⟨sign, split, signs⟩ := splitSign_eq s
    unfold lexicalCast at h
    simp only at h
    split at h
    · rename_i valid
      exact ⟨sign, _, split, signs, valid.1, List.all_eq_true.mp valid.2.1, valid.2.2⟩
    · cases h
  · rintro ⟨sign, digits, rfl, signs, nonempty, all, range⟩
    have valid : digits ≠ [] ∧ digits.all isDigit ∧ decimal digits < 2 ^ 64 :=
      ⟨nonempty, List.all_eq_true.mpr all, range⟩
    simp only [lexicalCast, splitSign_append signs nonempty all, if_pos valid, Option.isSome_some]

theorem contentLength_isSome_iff {request : Request} :
    (contentLength request).isSome ↔ ContentLengthValid request := by
  unfold contentLength ContentLengthValid
  by_cases empty : request.getHeaderValueByName (bytes "Content-Length") = []
  · simp [empty]
  · simp only [empty, if_false, false_or, lexicalCast_isSome_iff]

/-! ## Client bytes -/

section Survival
variable {ω : Type} (handlers : Handlers ω) (compression : Compression)

/-- The completion of a partial read returns and starts one write or one body read, and after the
body read, whatever bytes it delivered, its completion returns and starts one write. -/
def Survives (c : Connection ω) : Prop :=
  ∃ after, (handleReadPartial handlers compression .success).run c = .done true after ∧
    ((∃ data, after.started = c.started ++ [.write data]) ∨
      ∃ n, after.started = c.started ++ [.readBody n] ∧
        ∀ leftRequest, ∃ last data,
          (handleReadBody handlers compression .success).run { after with buffer := leftRequest } =
            .done true last ∧
          last.started = after.started ++ [.write data])

theorem handleReadPartial_none {c : Connection ω} (invalid : Request.parse c.buffer = none) :
    ∃ after data, (handleReadPartial handlers compression .success).run c = .done true after ∧
      after.started = c.started ++ [.write data] := by
  simp only [handleReadPartial, run_consumeBuffer_bind, Proc.run_modify_bind, invalid]
  exact ⟨_, _, rfl, rfl⟩

theorem handleReadPartial_some {c : Connection ω} {request : Request}
    (parsed : Request.parse c.buffer = some request) :
    (handleReadPartial handlers compression .success).run c =
      (Proc.ofOption .badLexicalCast (contentLength request) >>= fun n =>
        if request.body.length < n then do
          doReadBody (n - request.body.length)
          return true
        else respond handlers compression request).run
        { c with buffer := [], rawRequest := c.buffer, request } := by
  simp only [handleReadPartial, run_consumeBuffer_bind, Proc.run_modify_bind, parsed]

theorem handleReadBody_done {c : Connection ω} (rooted : Rooted c.request.uri) :
    ∃ after, (handleReadBody handlers compression .success).run c = .done true after ∧
      Responded (c.request.appendBody c.buffer)
        { c with buffer := [], request := c.request.appendBody c.buffer } after := by
  have rooted : Rooted (c.request.appendBody c.buffer).uri := rooted
  exact respond_done handlers compression rooted _

/-- Client bytes are survived exactly when they do not parse or the Content-Length converts. -/
theorem handleReadPartial_survives_iff (c : Connection ω) :
    Survives handlers compression c ↔
      ∀ request, Request.parse c.buffer = some request → ContentLengthValid request := by
  constructor
  · rintro ⟨after, returned, -⟩ request parsed
    rw [← contentLength_isSome_iff]
    rw [handleReadPartial_some handlers compression parsed] at returned
    cases length : contentLength request with
    | none =>
        rw [length, Proc.ofOption_none, Proc.run_throw_bind] at returned
        cases returned
    | some n => rfl
  · intro valid
    cases parsed : Request.parse c.buffer with
    | none =>
        obtain ⟨after, data, returned, started⟩ :=
          handleReadPartial_none handlers compression parsed
        exact ⟨after, returned, .inl ⟨data, started⟩⟩
    | some request =>
        have rooted : Rooted request.uri := .inr (parse_image parsed).uri_slash
        obtain ⟨n, length⟩ := Option.isSome_iff_exists.mp
          (contentLength_isSome_iff.mpr (valid request parsed))
        rw [Survives, handleReadPartial_some handlers compression parsed, length,
          Proc.ofOption_some, Proc.pure_bind]
        by_cases more : request.body.length < n
        · rw [if_pos more]
          refine ⟨_, rfl, .inr ⟨_, rfl, fun leftRequest => ?_⟩⟩
          obtain ⟨last, returned, responded⟩ := handleReadBody_done handlers compression
            (c := { c with
              buffer := leftRequest, rawRequest := c.buffer, request
              started := c.started ++ [.readBody (n - request.body.length)] }) rooted
          obtain ⟨data, started⟩ := responded.started
          exact ⟨last, data, returned, started⟩
        · rw [if_neg more]
          obtain ⟨after, returned, responded⟩ := respond_done handlers compression rooted
            { c with buffer := [], rawRequest := c.buffer, request }
          exact ⟨after, returned, .inl responded.started⟩

end Survival

/-! ## A Content-Length that is no number -/

def emptyHandler : Handler Unit := fun _ response globals =>
  (.ok, response.setStatus .ok, globals)

def emptyHandlers : Handlers Unit where
  find key := if key = bytes "ErrorHandler" ∨ key = bytes "/" then some emptyHandler else none
  errorHandler := emptyHandler
  find_errorHandler := by simp

def noCompression : Compression := ⟨id, id⟩

theorem contentLength_letters_escapes : ¬ Survives emptyHandlers noCompression
    { globals := { world := () },
      buffer := bytes "GET / HTTP/1.1\r\nContent-Length: abc\r\n\r\n" } := by
  rintro ⟨after, returned, -⟩
  have threw : ((handleReadPartial emptyHandlers noCompression .success).run
      { globals := { world := () },
        buffer := bytes "GET / HTTP/1.1\r\nContent-Length: abc\r\n\r\n" }).error? =
        some .badLexicalCast := by
    decide
  rw [returned] at threw
  cases threw

end TscServer.Proof
