import TscServer.Proof.FixedUpstream
import TscServer.Proof.Transparency

/-!
# How far redirects are followed

Nothing counts the redirects of the loop of `HandleRequest`. `Leads` is the way they take, over an
upstream that may answer each contact as it likes: the loop returns exactly when this way comes to
an answer that is no redirect.
-/

namespace TscServer.Proof
open Lib Model Spec ProxyHandler

section Way
variable (env : Environment) (request : Request)

def answerAt (n : Nat) (place : Place) : Answer :=
  env.upstream n (outgoing request place.host place.port place.uri)

/-- The redirects lead from a place, as contact number `n`, to a target as contact number `m`. -/
inductive Leads : Nat → Place → Nat → Place → Prop
  | here {n : Nat} {place : Place} : Leads n place n place
  | redirected {n m : Nat} {place target : Place} {d : Delivered} {host port uri : Bytes} :
      delivery (answerAt env request n place) = .response d →
      (∀ line ∈ d.lines, SafeLine d.code line) →
      d.round place.host place.port place.uri = .redirected host port uri →
      Leads (n + 1) ⟨host, port, uri⟩ m target → Leads n place m target

/-- An answer with which the loop returns: a failure, or a response other than a redirect that can be
taken apart and, if it is to be stored, has room on the disk. -/
def Concludes (requestUri : Bytes) (files : FileTree Bytes Bytes) (answer : Answer) : Prop :=
  delivery answer = .failed ∨
    ∃ d, delivery answer = .response d ∧ d.code ≠ 302 ∧ (∀ line ∈ d.lines, SafeLine d.code line) ∧
      (Caches d → (makeDirectories env (directories (cacheKey requestUri)) files).isSome)

end Way

section Loop
variable {env : Environment} {request : Request} {s : ProxyState}

theorem count_of_ticked {s' : ProxyState} {k : Nat} {out : Outgoing}
    (ticked : Ticked k (contacted s out) s') : s'.contacts.length = s.contacts.length + 1 := by
  rw [ticked, contacted, List.length_append, List.length_singleton]

/-- A last contact, before which the files stayed as they were. -/
structure LastContact (env : Environment) (request : Request) (place : Place) (s : ProxyState)
    (target : Place) (mid : ProxyState) : Prop where
  leads : Leads env request s.contacts.length place mid.contacts.length target
  grown : Extends s mid
  files : mid.files = s.files

theorem LastContact.redirected {place target : Place} {mid s' : ProxyState} {d : Delivered}
    {host port uri : Bytes} {k : Nat} {out : Outgoing}
    (arrived : delivery (answerAt env request s.contacts.length place) = .response d)
    (safe : ∀ line ∈ d.lines, SafeLine d.code line)
    (redirected : d.round place.host place.port place.uri = .redirected host port uri)
    (ticked : Ticked k (contacted s out) s')
    (last : LastContact env request ⟨host, port, uri⟩ s' target mid) :
    LastContact env request place s target mid where
  leads := by
    have later := last.leads
    rw [count_of_ticked ticked] at later
    exact .redirected arrived safe redirected later
  grown := by
    have sent : Extends s (contacted s out) := ⟨List.prefix_append _ _, List.prefix_rfl, le_rfl⟩
    exact (sent.trans ticked.touched.extends).trans last.grown
  files := by rw [last.files, ticked, contacted]

def LastDone (env : Environment) (request : Request) (requestUri : Bytes) (place : Place)
    (s : ProxyState) (status : Status) (response : Response) (s' : ProxyState) : Prop :=
  ∃ target mid out, LastContact env request place s target mid ∧
    RoundDone env requestUri target.host target.port target.uri
      (answerAt env request mid.contacts.length target) (contacted mid out) s'
      (.finished status response)

def LastThrew (env : Environment) (request : Request) (requestUri : Bytes) (place : Place)
    (s : ProxyState) (f : Fault) (s' : ProxyState) : Prop :=
  ∃ target mid out, LastContact env request place s target mid ∧
    RoundThrew env requestUri (answerAt env request mid.contacts.length target) (contacted mid out) s' f

theorem exchange_place (requestUri : Bytes) (place : Place) :
    (exchange env request requestUri place.host place.port place.uri).wp
      (fun round s' => ∃ out, RoundDone env requestUri place.host place.port place.uri
        (answerAt env request s.contacts.length place) (contacted s out) s' round)
      (fun f s' => ∃ out, RoundThrew env requestUri
        (answerAt env request s.contacts.length place) (contacted s out) s' f) s := by
  apply Proc.wp_mono (exchange_wp request requestUri _ _ _ rfl rfl)
  · exact fun round s' done => ⟨_, done⟩
  · exact fun f s' threw => ⟨_, threw⟩

/-- The loop takes the way of the redirects, by induction on its rounds. -/
theorem exchangeLoop_leads (requestUri : Bytes) (place : Place) (fuel : Nat) :
    (exchangeLoop env request requestUri fuel place.host place.port place.uri).wp
      (fun result s' => LastDone env request requestUri place s result.1 result.2 s')
      (fun f s' => LastThrew env request requestUri place s f s') s := by
  induction fuel generalizing s place with
  | zero => trivial
  | succ fuel ih =>
      rw [exchangeLoop, Proc.wp_bind]
      apply Proc.wp_mono (exchange_place requestUri place)
      · intro round s' ended
        obtain ⟨out, done⟩ := ended
        cases round with
        | finished status response => exact ⟨place, s, out, ⟨.here, .refl s, rfl⟩, done⟩
        | redirected host port uri =>
            cases done with
            | plain arrived safe notCached ticked same =>
                have next := ih ⟨host, port, uri⟩ (s := s')
                apply Proc.wp_mono next
                · intro result s'' ended
                  obtain ⟨target, mid, out', last, done⟩ := ended
                  exact ⟨target, mid, out', last.redirected arrived safe same.symm ticked, done⟩
                · intro f s'' ended
                  obtain ⟨target, mid, out', last, threw⟩ := ended
                  exact ⟨target, mid, out', last.redirected arrived safe same.symm ticked, threw⟩
      · intro f s' ended
        obtain ⟨out, threw⟩ := ended
        exact ⟨place, s, out, ⟨.here, .refl s, rfl⟩, threw⟩

/-- The loop ends where the way comes to an answer that is no redirect, by induction on the way. -/
theorem exchangeLoop_ends_of_leads (requestUri : Bytes) {n m : Nat} {place target : Place}
    (leads : Leads env request n place m target)
    (last : ¬ Redirects (answerAt env request m target)) :
    ∃ bound, ∀ fuel s, bound < fuel → s.contacts.length = n →
      (exchangeLoop env request requestUri fuel place.host place.port place.uri).run s ≠ .running := by
  induction leads with
  | here =>
      refine ⟨0, fun fuel s enough count => ?_⟩
      obtain ⟨fuel, rfl⟩ := Nat.exists_eq_succ_of_ne_zero (Nat.ne_of_gt enough)
      subst count
      apply exchangeLoop_ends_of_round
      apply Proc.wp_mono (exchange_place requestUri _) _ (fun _ _ _ => trivial)
      intro round s' ended host port uri redirected
      subst redirected
      obtain ⟨out, done⟩ := ended
      cases done with
      | plain arrived safe notCached ticked same =>
          exact absurd (redirects_of_redirected arrived safe same.symm) last
  | redirected arrived safe redirected _ ih =>
      obtain ⟨bound, ends⟩ := ih last
      refine ⟨bound + 1, fun fuel s enough count => ?_⟩
      obtain ⟨fuel, rfl⟩ := Nat.exists_eq_succ_of_ne_zero (Nat.ne_of_gt (Nat.zero_lt_of_lt enough))
      subst count
      apply exchangeLoop_ends_of_round
      apply Proc.wp_mono (exchange_place requestUri _) _ (fun _ _ _ => trivial)
      intro round s' ended host' port' uri' again
      subst again
      obtain ⟨out, done⟩ := ended
      cases done with
      | plain arrived' safe' notCached ticked same =>
          obtain rfl := delivered_unique arrived arrived'
          obtain ⟨rfl, rfl, rfl⟩ := Round.redirected.inj (redirected.symm.trans same.symm)
          exact ends fuel s' (Nat.lt_of_succ_lt_succ enough) (count_of_ticked ticked)

theorem leads_unique {n m m' : Nat} {place target target' : Place}
    (leads : Leads env request n place m target) (leads' : Leads env request n place m' target')
    (last : ¬ Redirects (answerAt env request m target))
    (last' : ¬ Redirects (answerAt env request m' target')) : m = m' ∧ target = target' := by
  induction leads with
  | here =>
      cases leads' with
      | here => exact ⟨rfl, rfl⟩
      | redirected arrived safe redirected =>
          exact absurd (redirects_of_redirected arrived safe redirected) last
  | redirected arrived safe redirected _ ih =>
      cases leads' with
      | here => exact absurd (redirects_of_redirected arrived safe redirected) last'
      | redirected arrived' safe' redirected' rest' =>
          obtain rfl := delivered_unique arrived arrived'
          obtain ⟨rfl, rfl, rfl⟩ := Round.redirected.inj (redirected.symm.trans redirected')
          exact ih rest' last

theorem not_redirects_of_concludes {requestUri : Bytes} {files : FileTree Bytes Bytes}
    {answer : Answer} (concludes : Concludes env requestUri files answer) : ¬ Redirects answer := by
  intro redirects
  obtain ⟨d, arrived, code, -⟩ := redirects
  rcases concludes with failed | ⟨d', arrived', final, -⟩
  · cases failed.symm.trans arrived
  · obtain rfl := delivered_unique arrived arrived'
    exact final code

theorem concludes_of_roundDone {requestUri host port uri : Bytes} {answer : Answer}
    {s' : ProxyState} {status : Status} {response : Response}
    (done : RoundDone env requestUri host port uri answer s s' (.finished status response)) :
    Concludes env requestUri s.files answer := by
  cases done with
  | failed failed => exact .inl failed
  | plain arrived safe notCached ticked same =>
      have final := round_not_redirect same.symm
      exact .inr ⟨_, arrived, final, safe, fun caches => absurd caches notCached⟩
  | cached arrived safe caches ticked granted stored =>
      obtain ⟨made, directories, -⟩ := stored.files
      rw [ticked] at directories
      exact .inr ⟨_, arrived, code_of_caches caches, safe, fun _ => by rw [directories]; rfl⟩

theorem not_threw_of_concludes {requestUri : Bytes} {answer : Answer} {s' : ProxyState} {f : Fault}
    (concludes : Concludes env requestUri s.files answer) :
    ¬ RoundThrew env requestUri answer s s' f := by
  intro threw
  rcases concludes with failed | ⟨d, arrived, -, safe, room⟩
  · exact not_roundThrew_of_failed failed threw
  · rcases roundThrew_delivered arrived threw with ⟨-, ⟨line, mem, bad⟩, -⟩ | ⟨-, -, caches, full, -⟩
    · exact bad (safe line mem)
    · have made := room caches
      rw [full] at made
      cases made

end Loop

/-! ## The loop of a request -/

section Request
variable (env : Environment) (handler : ProxyHandler) (request : Request) (s : ProxyState)

def loop (fuel : Nat) : Outcome Fault ProxyState (Status × Response) :=
  (exchangeLoop env request (requestUri handler request) fuel handler.serverHost handler.serverPort
    (requestUri handler request)).run s

def LoopReturns : Prop :=
  ∃ bound, ∀ fuel, bound < fuel →
    ∃ status response s', loop env handler request s fuel = .done (status, response) s'

def LoopHalts : Prop := ∃ bound, ∀ fuel, bound < fuel → loop env handler request s fuel ≠ .running

def LeadsTo (answer : Answer) : Prop :=
  ∃ m target, Leads env request s.contacts.length (firstPlace handler request) m target ∧
    answer = answerAt env request m target

variable {env handler request s} {answer : Answer}

theorem loop_wp (fuel : Nat) :
    (exchangeLoop env request (requestUri handler request) fuel handler.serverHost handler.serverPort
      (requestUri handler request)).wp
      (fun result s' => LastDone env request (requestUri handler request) (firstPlace handler request)
        s result.1 result.2 s')
      (fun f s' => LastThrew env request (requestUri handler request) (firstPlace handler request)
        s f s') s :=
  exchangeLoop_leads (requestUri handler request) (firstPlace handler request) fuel

theorem leadsTo_of_done {fuel : Nat} {status : Status} {response : Response} {s' : ProxyState}
    (ran : loop env handler request s fuel = .done (status, response) s') :
    ∃ answer, LeadsTo env handler request s answer ∧
      Concludes env (requestUri handler request) s.files answer := by
  have done := Proc.wp_done (loop_wp fuel) ran
  obtain ⟨target, mid, out, last, done⟩ := done
  have concludes := concludes_of_roundDone done
  rw [contacted, last.files] at concludes
  exact ⟨_, ⟨_, target, last.leads, rfl⟩, concludes⟩

theorem leadsTo_of_ended {fuel : Nat} (ended : loop env handler request s fuel ≠ .running) :
    ∃ answer, LeadsTo env handler request s answer ∧ ¬ Redirects answer := by
  cases ran : loop env handler request s fuel with
  | done result s' =>
      obtain ⟨answer, leadsTo, concludes⟩ := leadsTo_of_done ran
      exact ⟨answer, leadsTo, not_redirects_of_concludes concludes⟩
  | threw f s' =>
      have threw := Proc.wp_threw (loop_wp fuel) ran
      obtain ⟨target, mid, out, last, threw⟩ := threw
      exact ⟨_, ⟨_, target, last.leads, rfl⟩, fun redirects => redirects_not_threw redirects threw⟩
  | running => exact absurd ran ended

theorem halts_of_leadsTo (leadsTo : LeadsTo env handler request s answer)
    (final : ¬ Redirects answer) : LoopHalts env handler request s := by
  obtain ⟨m, target, leads, rfl⟩ := leadsTo
  obtain ⟨bound, ends⟩ := exchangeLoop_ends_of_leads (requestUri handler request) leads final
  exact ⟨bound, fun fuel enough => ends fuel s enough rfl⟩

theorem returns_of_leadsTo (leadsTo : LeadsTo env handler request s answer)
    (concludes : Concludes env (requestUri handler request) s.files answer) :
    LoopReturns env handler request s := by
  have final := not_redirects_of_concludes concludes
  obtain ⟨bound, halts⟩ := halts_of_leadsTo leadsTo final
  obtain ⟨m, target, leads, rfl⟩ := leadsTo
  refine ⟨bound, fun fuel enough => ?_⟩
  cases ran : loop env handler request s fuel with
  | done result s' => exact ⟨result.1, result.2, s', rfl⟩
  | threw f s' =>
      have threw := Proc.wp_threw (loop_wp fuel) ran
      obtain ⟨target', mid, out, last, threw⟩ := threw
      have final' : ¬ Redirects (answerAt env request mid.contacts.length target') :=
        fun redirects => redirects_not_threw redirects threw
      obtain ⟨rfl, rfl⟩ := leads_unique leads last.leads final final'
      rw [← last.files] at concludes
      exact absurd threw (not_threw_of_concludes (s := contacted mid out) concludes)
  | running => exact absurd ran (halts fuel enough)

variable (env handler request s)

/-- The loop returns exactly when the redirects come to an answer that it can finish with, and ends
exactly when they come to an answer that is no redirect. -/
theorem loopReturns_iff :
    (LoopReturns env handler request s ↔
      ∃ answer, LeadsTo env handler request s answer ∧
        Concludes env (requestUri handler request) s.files answer) ∧
    (LoopHalts env handler request s ↔
      ∃ answer, LeadsTo env handler request s answer ∧ ¬ Redirects answer) := by
  refine ⟨⟨?_, ?_⟩, ?_, ?_⟩
  · intro returns
    obtain ⟨bound, returns⟩ := returns
    obtain ⟨status, response, s', ran⟩ := returns (bound + 1) (Nat.lt_succ_self bound)
    exact leadsTo_of_done ran
  · intro way
    obtain ⟨answer, leadsTo, concludes⟩ := way
    exact returns_of_leadsTo leadsTo concludes
  · intro halts
    obtain ⟨bound, halts⟩ := halts
    exact leadsTo_of_ended (halts (bound + 1) (Nat.lt_succ_self bound))
  · intro way
    obtain ⟨answer, leadsTo, final⟩ := way
    exact halts_of_leadsTo leadsTo final

end Request

/-! ## Redirects without end -/

-- every contact is answered alike
def always (answer : Answer) : Environment := { scripted [] with upstream := fun _ _ => answer }

def isRedirect (answer : Answer) : Bool :=
  match delivery answer with
  | .response d => d.code == 302
  | _ => false

theorem not_returns_of_always (answer : Answer) (redirect : isRedirect answer = true)
    (handler : ProxyHandler) (request : Request) (s : ProxyState) :
    ¬ LoopReturns (always answer) handler request s := by
  intro returns
  obtain ⟨bound, returns⟩ := returns
  obtain ⟨status, response, s', ran⟩ := returns (bound + 1) (Nat.lt_succ_self bound)
  obtain ⟨last, ⟨m, target, -, same⟩, concludes⟩ := leadsTo_of_done ran
  have constant : last = answer := same
  rw [constant] at concludes
  unfold isRedirect at redirect
  rcases concludes with failed | ⟨d, arrived, final, -⟩
  · rw [failed] at redirect
    cases redirect
  · rw [arrived] at redirect
    exact final (by simpa using redirect)

/-- Neither a redirect without a Location nor one that leads back to its own place is left. -/
theorem redirects_without_end :
    ¬ (∀ env handler request s, LoopReturns env handler request s) ∧
    ¬ LoopReturns (always (.stream [bytes "HTTP/1.1 302 Found\r\n\r\n\r\n"] true)) demoProxy
      (getProxy (bytes "/proxy1/x")) { files := emptyDisk } ∧
    ¬ LoopReturns (always (.stream [bytes "HTTP/1.1 302 Found\r\nLocation: /x\r\n\r\n"] true))
      demoProxy (getProxy (bytes "/proxy1/x")) { files := emptyDisk } := by
  have back := not_returns_of_always
    (.stream [bytes "HTTP/1.1 302 Found\r\nLocation: /x\r\n\r\n"] true) (by decide)
    demoProxy (getProxy (bytes "/proxy1/x")) { files := emptyDisk }
  have without := not_returns_of_always
    (.stream [bytes "HTTP/1.1 302 Found\r\n\r\n\r\n"] true) (by decide)
    demoProxy (getProxy (bytes "/proxy1/x")) { files := emptyDisk }
  exact ⟨fun claim => back (claim _ _ _ _), without, back⟩

end TscServer.Proof
