import TscServer.Proof.Exchange

/-!
# The loop of contacts

`exchangeLoop_wp` says what the loop leaves behind, whatever the redirects: contacts that forward the
request, and the last round. `exchangeLoop_returns` says that it ends once an answer is no redirect.
-/

namespace TscServer.Proof
open Lib Model Spec ProxyHandler

def IsGet (method : Bytes) : Prop := method = bytes "GET"

instance (method : Bytes) : Decidable (IsGet method) :=
  inferInstanceAs (Decidable (method = bytes "GET"))

-- what the loop sends for a request
def outgoing (request : Request) (host port uri : Bytes) : Outgoing where
  host := host
  port := port
  method := request.method
  uri := uri
  raw := makeRequest request uri host port

def Forwards (request : Request) (out : Outgoing) : Prop :=
  ∃ host port uri, out = outgoing request host port uri

/-- Nothing was forgotten: the contacts and the entries put into the cache are still known. -/
structure Extends (s s' : ProxyState) : Prop where
  contacts : s.contacts <+: s'.contacts
  installs : s.installs <+: s'.installs
  readings : s.readings ≤ s'.readings

theorem Extends.refl (s : ProxyState) : Extends s s :=
  ⟨List.prefix_rfl, List.prefix_rfl, le_rfl⟩

theorem Extends.trans {s s' s'' : ProxyState} (first : Extends s s') (second : Extends s' s'') :
    Extends s s'' :=
  ⟨first.contacts.trans second.contacts, first.installs.trans second.installs,
    first.readings.trans second.readings⟩

theorem Extends.contact {s s' : ProxyState} (grown : Extends s s') {n : Nat} {out : Outgoing}
    (sent : s.contacts[n]? = some out) : s'.contacts[n]? = some out := by
  obtain ⟨less, same⟩ := List.getElem?_eq_some_iff.mp sent
  rw [List.prefix_iff_getElem?.mp grown.contacts n less, same]

def CallResponse (env : Environment) (s s' : ProxyState) (d : Delivered) : Prop :=
  ∃ n out, s.contacts.length ≤ n ∧ s'.contacts[n]? = some out ∧
    delivery (env.upstream n out) = .response d ∧ d.code ≠ 302

theorem CallResponse.mono {env : Environment} {s s' t t' : ProxyState} {d : Delivered}
    (given : CallResponse env t t' d) (before : Extends s t) (after : Extends t' s') :
    CallResponse env s s' d := by
  obtain ⟨n, out, low, sent, arrived, final⟩ := given
  exact ⟨n, out, before.contacts.length_le.trans low, after.contact sent, arrived, final⟩

theorem Touched.extends {s s' : ProxyState} (touched : Touched s s') : Extends s s' :=
  ⟨by rw [touched.contacts], by rw [touched.installs], touched.readings⟩

theorem roundDone_extends {env : Environment} {requestUri host port uri : Bytes} {answer : Answer}
    {s s' : ProxyState} {round : Round}
    (done : RoundDone env requestUri host port uri answer s s' round) :
    Extends s s' ∧ s'.contacts = s.contacts := by
  cases done with
  | failed failed same =>
      rw [same]
      exact ⟨Extends.refl s, rfl⟩
  | plain arrived safe notCached ticked same => exact ⟨ticked.touched.extends, ticked.touched.contacts⟩
  | cached arrived safe caches ticked granted stored =>
      have contacts := stored.contacts.trans ticked.touched.contacts
      refine ⟨ticked.touched.extends.trans ⟨by rw [stored.contacts], ?_, by rw [stored.readings]⟩, contacts⟩
      rw [stored.installs]
      exact List.prefix_append _ _

def IsRedirect (answer : Answer) : Prop := ∃ d, delivery answer = .response d ∧ d.code = 302

structure Approach (env : Environment) (request : Request) (s mid : ProxyState)
    (outs : List Outgoing) : Prop where
  cache : mid.cache = s.cache
  files : mid.files = s.files
  installs : mid.installs = s.installs
  readings : s.readings ≤ mid.readings
  contacts : mid.contacts = s.contacts ++ outs
  forwards : ∀ out ∈ outs, Forwards request out
  redirects : ∀ i out, outs[i]? = some out → IsRedirect (env.upstream (s.contacts.length + i) out)

theorem Approach.extends {env : Environment} {request : Request} {s mid : ProxyState}
    {outs : List Outgoing} (approach : Approach env request s mid outs) : Extends s mid where
  contacts := by
    rw [approach.contacts]
    exact List.prefix_append _ _
  installs := by rw [approach.installs]
  readings := approach.readings

-- the state after a contact
def contacted (s : ProxyState) (out : Outgoing) : ProxyState :=
  { s with contacts := s.contacts ++ [out] }

/-- How the loop ends: a way over redirects, and a last contact. -/
structure LoopEnds (env : Environment) (request : Request) (host port uri : Bytes)
    (s mid : ProxyState) (outs : List Outgoing) (out : Outgoing) : Prop where
  approach : Approach env request s mid outs
  forwards : Forwards request out
  first : (outs ++ [out]).head? = some (outgoing request host port uri)

def LoopDone (env : Environment) (request : Request) (requestUri host port uri : Bytes)
    (s : ProxyState) (status : Status) (response : Response) (s' : ProxyState) : Prop :=
  ∃ mid outs out, LoopEnds env request host port uri s mid outs out ∧
    RoundDone env requestUri out.host out.port out.uri (env.upstream mid.contacts.length out)
      (contacted mid out) s' (.finished status response)

def LoopThrew (env : Environment) (request : Request) (requestUri host port uri : Bytes)
    (s : ProxyState) (f : Fault) (s' : ProxyState) : Prop :=
  ∃ mid outs out, LoopEnds env request host port uri s mid outs out ∧
    RoundThrew env requestUri (env.upstream mid.contacts.length out) (contacted mid out) s' f

-- what the loop makes of its last answer
def Answers (answer : Answer) (status : Status) (response : Response) : Prop :=
  (delivery answer = .failed ∧ status = .handleFail ∧ response = {}) ∨
    ∃ d host port uri, delivery answer = .response d ∧ d.round host port uri = .finished status response

theorem answers_of_roundDone {env : Environment} {requestUri host port uri : Bytes} {answer : Answer}
    {s s' : ProxyState} {status : Status} {response : Response}
    (done : RoundDone env requestUri host port uri answer s s' (.finished status response)) :
    Answers answer status response := by
  cases done with
  | failed failed same => exact .inl ⟨failed, rfl, rfl⟩
  | plain arrived safe notCached ticked same => exact .inr ⟨_, _, _, _, arrived, same.symm⟩
  | @cached d k mid sign arrived safe caches ticked granted stored =>
      exact .inr ⟨d, host, port, uri, arrived, round_of_caches caches host port uri⟩

section Loop
variable {env : Environment} {request : Request} {requestUri host port uri : Bytes} {s : ProxyState}

theorem loopEnds_first : LoopEnds env request host port uri s s [] (outgoing request host port uri) where
  approach := ⟨rfl, rfl, rfl, le_rfl, by simp, by simp, by simp⟩
  forwards := ⟨host, port, uri, rfl⟩
  first := rfl

theorem LoopEnds.cons {host' port' uri' : Bytes} {s' mid : ProxyState} {outs : List Outgoing}
    {out : Outgoing} {k : Nat} (ticked : Ticked k (contacted s (outgoing request host port uri)) s')
    (redirect : IsRedirect (env.upstream s.contacts.length (outgoing request host port uri)))
    (ends : LoopEnds env request host' port' uri' s' mid outs out) :
    LoopEnds env request host port uri s mid (outgoing request host port uri :: outs) out := by
  obtain rfl := ticked
  obtain ⟨⟨cache, files, installs, readings, contacts, forwards, redirects⟩, last, -⟩ := ends
  refine ⟨⟨cache, files, installs, le_trans (Nat.le_add_right _ _) readings, ?_, ?_, ?_⟩, last, rfl⟩
  · rw [contacts]
    simp [contacted]
  · intro other mem
    rcases List.mem_cons.mp mem with rfl | mem
    · exact ⟨host, port, uri, rfl⟩
    · exact forwards other mem
  · intro i other sent
    cases i with
    | zero =>
        obtain rfl := Option.some.inj sent
        exact redirect
    | succ i =>
        have later := redirects i other sent
        simp only [contacted, List.length_append, List.length_singleton] at later
        rwa [Nat.add_assoc, Nat.add_comm 1 i] at later

theorem redirected_of_roundDone {answer : Answer} {host' port' uri' : Bytes} {s' : ProxyState}
    (done : RoundDone env requestUri host port uri answer s s' (.redirected host' port' uri')) :
    IsRedirect answer ∧ ∃ k, Ticked k s s' := by
  cases done with
  | @plain d k round arrived safe notCached ticked same =>
      refine ⟨⟨d, arrived, ?_⟩, k, ticked⟩
      by_contra final
      obtain ⟨status, response, finished, -⟩ := round_final final host port uri
      cases same.trans finished

theorem exchangeLoop_wp (fuel : Nat) :
    (exchangeLoop env request requestUri fuel host port uri).wp
      (fun result s' => LoopDone env request requestUri host port uri s result.1 result.2 s')
      (fun f s' => LoopThrew env request requestUri host port uri s f s') s := by
  induction fuel generalizing s host port uri with
  | zero => trivial
  | succ fuel ih =>
      rw [exchangeLoop, Proc.wp_bind]
      apply Proc.wp_mono (exchange_wp request requestUri host port uri rfl rfl)
      · intro round s' done
        cases round with
        | finished status response => exact ⟨s, [], _, loopEnds_first, done⟩
        | redirected host' port' uri' =>
            obtain ⟨redirect, k, ticked⟩ := redirected_of_roundDone done
            apply Proc.wp_mono ih
            · intro result s'' ended
              obtain ⟨mid, outs, out, ends, done⟩ := ended
              exact ⟨mid, _, out, ends.cons ticked redirect, done⟩
            · intro f s'' ended
              obtain ⟨mid, outs, out, ends, threw⟩ := ended
              exact ⟨mid, _, out, ends.cons ticked redirect, threw⟩
      · exact fun f s' threw => ⟨s, [], _, loopEnds_first, threw⟩

theorem loopDone_extends {status : Status} {response : Response} {s' : ProxyState}
    (done : LoopDone env request requestUri host port uri s status response s') :
    Extends s s' ∧ s.contacts.length < s'.contacts.length := by
  obtain ⟨mid, outs, out, ends, done⟩ := done
  obtain ⟨grown, contacts⟩ := roundDone_extends done
  have sent : Extends mid (contacted mid out) := ⟨List.prefix_append _ _, List.prefix_rfl, le_rfl⟩
  refine ⟨(ends.approach.extends.trans sent).trans grown, ?_⟩
  have before := ends.approach.extends.contacts.length_le
  rw [contacts, contacted, List.length_append, List.length_singleton]
  exact Nat.lt_succ_of_le before

theorem loopThrew_extends {f : Fault} {s' : ProxyState}
    (threw : LoopThrew env request requestUri host port uri s f s') : Extends s s' := by
  obtain ⟨mid, outs, out, ends, threw⟩ := threw
  have sent : Extends mid (contacted mid out) := ⟨List.prefix_append _ _, List.prefix_rfl, le_rfl⟩
  refine (ends.approach.extends.trans sent).trans ?_
  cases threw with
  | indeterminate failed same =>
      rw [same]
      exact Extends.refl _
  | header arrived fault bad ticked =>
      obtain ⟨k, ticked⟩ := ticked
      exact ticked.touched.extends
  | directory arrived safe caches blocked touched => exact touched.extends

-- an answer that does not lead to a further contact
def Final (answer : Answer) : Prop := ∀ d, delivery answer = .response d → d.code ≠ 302

theorem exchangeLoop_ends_of_round {fuel : Nat}
    (round : (exchange env request requestUri host port uri).wp (fun round s' =>
      ∀ host port uri, round = .redirected host port uri →
        (exchangeLoop env request requestUri fuel host port uri).run s' ≠ .running) (fun _ _ => True) s) :
    (exchangeLoop env request requestUri (fuel + 1) host port uri).run s ≠ .running := by
  apply Proc.not_running_of_twp (Q := fun _ _ => True) (E := fun _ _ => True)
  rw [exchangeLoop, Proc.twp_bind]
  apply Proc.twp_of_wp (exchange_halts _ _ _ _ _ s)
  apply Proc.wp_mono round _ (fun _ _ _ => trivial)
  intro round s' ends
  cases round with
  | finished status response => trivial
  | redirected host port uri =>
      apply Proc.twp_of_wp (ends host port uri rfl)
      exact Proc.wp_mono (exchangeLoop_wp fuel) (fun _ _ _ => trivial) (fun _ _ _ => trivial)

theorem exchangeLoop_returns {k fuel : Nat}
    (final : ∀ out, Final (env.upstream (s.contacts.length + k) out)) (enough : k < fuel) :
    (exchangeLoop env request requestUri fuel host port uri).run s ≠ .running := by
  induction k generalizing s host port uri fuel with
  | zero =>
      obtain ⟨fuel, rfl⟩ := Nat.exists_eq_succ_of_ne_zero (Nat.ne_of_gt enough)
      apply exchangeLoop_ends_of_round
      apply Proc.wp_mono (exchange_wp request requestUri host port uri rfl rfl) _ (fun _ _ _ => trivial)
      intro round s' done host' port' uri' redirected
      cases done with
      | failed => cases redirected
      | plain arrived safe notCached ticked same =>
          obtain ⟨status, response, finished, -⟩ := round_final (final _ _ arrived) host port uri
          cases redirected.symm.trans (same.trans finished)
      | cached => cases redirected
  | succ k ih =>
      obtain ⟨fuel, rfl⟩ := Nat.exists_eq_succ_of_ne_zero (Nat.ne_of_gt (Nat.zero_lt_of_lt enough))
      apply exchangeLoop_ends_of_round
      apply Proc.wp_mono (exchange_wp request requestUri host port uri rfl rfl) _ (fun _ _ _ => trivial)
      intro round s' done host' port' uri' redirected
      subst redirected
      obtain ⟨-, l, ticked⟩ := redirected_of_roundDone done
      have later : s'.contacts.length + k = s.contacts.length + (k + 1) := by
        rw [ticked, List.length_append, List.length_singleton]
        omega
      apply ih _ (Nat.lt_of_succ_lt_succ enough)
      rw [later]
      exact final

theorem LoopEnds.within {mid : ProxyState} {outs : List Outgoing} {out : Outgoing}
    (ends : LoopEnds env request host port uri s mid outs out) {k : Nat}
    (final : ∀ out, Final (env.upstream (s.contacts.length + k) out)) :
    outs.length ≤ k ∧ mid.contacts.length = s.contacts.length + outs.length := by
  refine ⟨?_, by rw [ends.approach.contacts, List.length_append]⟩
  by_contra more
  have less : k < outs.length := Nat.lt_of_not_le more
  obtain ⟨d, arrived, code⟩ := ends.approach.redirects k outs[k] (List.getElem?_eq_getElem less)
  exact final _ d arrived code

end Loop

/-! ## Known answers -/

def Redirects (answer : Answer) : Prop :=
  ∃ d, delivery answer = .response d ∧ d.code = 302 ∧ ∀ line ∈ d.lines, SafeLine 302 line

-- the answers to the next contacts
def Scripted (env : Environment) (n : Nat) (answers : List Answer) : Prop :=
  ∀ i answer, answers[i]? = some answer → ∀ out, env.upstream (n + i) out = answer

section Script
variable {env : Environment} {request : Request} {requestUri host port uri : Bytes} {s : ProxyState}
  {redirects : List Answer} {last : Answer}

theorem redirects_not_done {answer : Answer} {s' : ProxyState} {status : Status} {response : Response}
    (redirects : Redirects answer)
    (done : RoundDone env requestUri host port uri answer s s' (.finished status response)) : False := by
  obtain ⟨d, arrived, code, -⟩ := redirects
  obtain ⟨-, same, -⟩ := roundDone_delivered arrived done
  exact round_not_redirect same.symm code

theorem redirects_not_threw {answer : Answer} {s' : ProxyState} {f : Fault}
    (redirects : Redirects answer) (threw : RoundThrew env requestUri answer s s' f) : False := by
  obtain ⟨d, arrived, code, safe⟩ := redirects
  rcases roundThrew_delivered arrived threw with ⟨-, ⟨line, mem, bad⟩, -⟩ | ⟨-, -, caches, -⟩
  · rw [code] at bad
    exact bad (safe line mem)
  · exact code_of_caches caches code

theorem script_answer (final : Final last)
    (script : Scripted env s.contacts.length (redirects ++ [last])) {mid : ProxyState}
    {outs : List Outgoing} {out : Outgoing} (ends : LoopEnds env request host port uri s mid outs out) :
    env.upstream mid.contacts.length out ∈ redirects ∨
      outs.length = redirects.length ∧ env.upstream mid.contacts.length out = last := by
  have at_last out : env.upstream (s.contacts.length + redirects.length) out = last :=
    script _ _ (by simp) out
  obtain ⟨within, length⟩ := ends.within (k := redirects.length) fun out => by rwa [at_last]
  rw [length]
  rcases Nat.lt_or_eq_of_le within with less | same
  · have here : (redirects ++ [last])[outs.length]? = some redirects[outs.length] := by
      rw [List.getElem?_append_left less, List.getElem?_eq_getElem less]
    rw [script _ _ here]
    exact .inl (List.getElem_mem less)
  · rw [same, at_last]
    exact .inr ⟨rfl, rfl⟩

theorem loopDone_script (all : ∀ answer ∈ redirects, Redirects answer) (final : Final last)
    (script : Scripted env s.contacts.length (redirects ++ [last])) {status : Status}
    {response : Response} {s' : ProxyState}
    (done : LoopDone env request requestUri host port uri s status response s') :
    ∃ mid outs out, LoopEnds env request host port uri s mid outs out ∧
      outs.length = redirects.length ∧
      RoundDone env requestUri out.host out.port out.uri last (contacted mid out) s'
        (.finished status response) := by
  obtain ⟨mid, outs, out, ends, done⟩ := done
  rcases script_answer final script ends with redirect | ⟨length, same⟩
  · exact (redirects_not_done (all _ redirect) done).elim
  · exact ⟨mid, outs, out, ends, length, same ▸ done⟩

theorem loopThrew_script (all : ∀ answer ∈ redirects, Redirects answer) (final : Final last)
    (script : Scripted env s.contacts.length (redirects ++ [last])) {f : Fault} {s' : ProxyState}
    (threw : LoopThrew env request requestUri host port uri s f s') :
    ∃ mid outs out, LoopEnds env request host port uri s mid outs out ∧
      RoundThrew env requestUri last (contacted mid out) s' f := by
  obtain ⟨mid, outs, out, ends, threw⟩ := threw
  rcases script_answer final script ends with redirect | ⟨-, same⟩
  · exact (redirects_not_threw (all _ redirect) threw).elim
  · exact ⟨mid, outs, out, ends, same ▸ threw⟩

end Script
end TscServer.Proof
