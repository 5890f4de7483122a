import Mathlib.Logic.Relation
import TscServer.Proof.ExchangeLoop
import TscServer.Proof.Serving

/-!
# Calls of the proxy handler

`CallDone` and `CallThrew` say how a call of `HandleRequest` ends, with a constructor for each way
through `HandleCache` and `UpdateCache`; `handleRequest_wp` is that every call ends so. Invariants of
the cache are proved by induction on them.
-/

namespace TscServer.Proof
open Lib Model Spec ProxyHandler

/-! ## After the revalidation request -/

-- the entry that `UpdateCache` puts back
def rearm (s : ProxyState) (path : Bytes) (sign : CacheSign) : ProxyState :=
  { s with
    cache := s.cache.insert path sign
    installs := s.installs ++
      [{ key := path, sign, contacts := s.contacts.length, revalidated := true }] }

inductive EntryUpdate (env : Environment) (path : Bytes) (status : Status) (response : Response)
    (s : ProxyState) : Bool → ProxyState → Prop
  | failed : status ≠ .ok → EntryUpdate env path status response s false s
  | other : status = .ok → contains (bytes "304") (statusLineOf response.toBytes) = false →
      EntryUpdate env path status response s
        (contains (bytes "200") (statusLineOf response.toBytes)) s
  | unusable {s' : ProxyState} : status = .ok →
      contains (bytes "304") (statusLineOf response.toBytes) = true →
      RearmRead env (getlines response.toBytes).tail {} s none s' →
      EntryUpdate env path status response s false s'
  | rearmed {s' : ProxyState} {sign : CacheSign} : status = .ok →
      contains (bytes "304") (statusLineOf response.toBytes) = true →
      RearmRead env (getlines response.toBytes).tail {} s (some sign) s' →
      EntryUpdate env path status response s true (rearm s' path sign)

structure EntryThrew (status : Status) (response : Response) (s : ProxyState) (f : Fault)
    (s' : ProxyState) : Prop where
  ok : status = .ok
  counts : contains (bytes "304") (statusLineOf response.toBytes) = true
  fault : HeaderFault f
  ticked : ∃ k, Ticked k s s'
  harmful : ¬ RearmSafe ((getlines response.toBytes).tail.map Prod.fst)

theorem headersOf_block {lines : List Bytes} (noFeed : ∀ line ∈ lines, 10 ∉ line) (after : Bytes) :
    headersOf (getlines (block lines ++ crlf ++ after)) = lines.takeWhile (· != [13]) := by
  induction lines with
  | nil =>
      rw [getlines_blank]
      rfl
  | cons line lines ih =>
      have others := ih fun other mem => noFeed other (List.mem_cons_of_mem line mem)
      rw [getlines_block (noFeed line (by simp))]
      by_cases blank : line = [13]
      · rw [headersOf, List.map_cons, List.takeWhile_cons_of_neg (by simpa using blank),
          List.takeWhile_cons_of_neg (by simpa using blank)]
      · rw [headersOf_cons blank, others, List.takeWhile_cons_of_pos (by simpa using blank)]

theorem headersOf_block_subset {lines : List Bytes} (noFeed : ∀ line ∈ lines, 10 ∉ line)
    (after : Bytes) : headersOf (getlines (block lines ++ crlf ++ after)) ⊆ lines := by
  rw [headersOf_block noFeed]
  exact (List.takeWhile_sublist _).subset

section Update
variable {env : Environment} {path : Bytes} {status : Status} {response : Response} {s : ProxyState}

theorem updateEntry_wp : (updateEntry env path status response).wp
    (fun usable s' => EntryUpdate env path status response s usable s')
    (fun f s' => EntryThrew status response s f s') s := by
  rw [updateEntry]
  by_cases ok : status = .ok
  · rw [if_neg (not_not.mpr ok)]
    cases counts : contains (bytes "304") (statusLineOf response.toBytes) with
    | false =>
        rw [statusLineOf] at counts
        simp only [counts, Bool.false_eq_true, if_false, Proc.wp_pure]
        exact .other ok counts
    | true =>
        rw [statusLineOf] at counts
        simp only [counts, if_true, Proc.wp_bind]
        apply Proc.wp_mono (rearmLoop_wp _)
        · intro result s' read
          cases result with
          | none => exact .unusable ok counts read
          | some sign => exact .rearmed ok counts read
        · intro f s' ended
          obtain ⟨fault, ticked, harmful⟩ := ended
          exact ⟨ok, counts, fault, ticked, harmful⟩
  · rw [if_pos ok]
    exact .failed ok

theorem updateEntry_halts : (updateEntry env path status response).Halts := by
  refine Proc.Halts.ite (Proc.halts_pure _) (Proc.Halts.ite ?_ (Proc.halts_pure _))
  refine (rearmLoop_halts _ _).bind fun result => ?_
  cases result with
  | none => exact Proc.halts_pure _
  | some sign => exact (Proc.halts_modify _).bind fun _ => Proc.halts_pure _

end Update

/-! ## Calls -/

section Call
variable (env : Environment) (handler : ProxyHandler)

def requestUri (request : Request) : Bytes := stripPrefix handler.uriPrefix request.uri

def requestKey (request : Request) : Bytes := cacheKey (requestUri handler request)

-- the state in which `UpdateCache` sends its request
def withoutEntry (s : ProxyState) (path : Bytes) : ProxyState :=
  { s with cache := s.cache.erase path, readings := s.readings + 1 }

def clockRead (s : ProxyState) : ProxyState := { s with readings := s.readings + 1 }

-- the request that a call sends first, unless it is answered from the cache
def SendsDone (request : Request) : ProxyState → Status → Response → ProxyState → Prop :=
  LoopDone env request (requestUri handler request) handler.serverHost handler.serverPort
    (requestUri handler request)

def SendsThrew (request : Request) : ProxyState → Fault → ProxyState → Prop :=
  LoopThrew env request (requestUri handler request) handler.serverHost handler.serverPort
    (requestUri handler request)

/-- The entry of a request, and whether it has expired at the next reading of the clock. -/
structure Hit (request : Request) (s : ProxyState) (sign : CacheSign) (expired : Bool) : Prop where
  present : s.cache.lookup (requestKey handler request) = some sign
  expired : sign.expiration.expired (env.clock s.readings) = expired

inductive CallDone : Request → ProxyState → Status → Response → ProxyState → Prop
  | miss {request : Request} {s s' : ProxyState} {status : Status} {response : Response} :
      s.cache.lookup (requestKey handler request) = none →
      SendsDone env handler request s status response s' →
      CallDone request s status response s'
  | hit {request : Request} {s s' : ProxyState} {response : Response} {sign : CacheSign}
      {content : Bytes} : Hit env handler request s sign false →
      s.files.read (cachePath env (requestKey handler request)) = some content →
      Serves (requestKey handler request) content (clockRead s) s' response →
      CallDone request s .ok response s'
  | revalidated {request : Request} {s mid mid' s' : ProxyState} {status : Status}
      {answer response : Response} {sign : CacheSign} {content eTag : Bytes} :
      Hit env handler request s sign true →
      CallDone (handler.revalidation (requestUri handler request) eTag)
        (withoutEntry s (requestKey handler request)) status answer mid →
      EntryUpdate env (requestKey handler request) status answer mid true mid' →
      mid'.files.read (cachePath env (requestKey handler request)) = some content →
      Serves (requestKey handler request) content mid' s' response →
      CallDone request s .ok response s'
  | refetched {request : Request} {s mid mid' s' : ProxyState} {status status' : Status}
      {answer response : Response} {sign : CacheSign} {eTag : Bytes} :
      Hit env handler request s sign true →
      CallDone (handler.revalidation (requestUri handler request) eTag)
        (withoutEntry s (requestKey handler request)) status answer mid →
      EntryUpdate env (requestKey handler request) status answer mid false mid' →
      SendsDone env handler request mid' status' response s' →
      CallDone request s status' response s'

inductive CallThrew : Request → ProxyState → Fault → ProxyState → Prop
  | miss {request : Request} {s s' : ProxyState} {f : Fault} :
      s.cache.lookup (requestKey handler request) = none →
      SendsThrew env handler request s f s' → CallThrew request s f s'
  | revalidating {request : Request} {s s' : ProxyState} {f : Fault} {sign : CacheSign}
      {eTag : Bytes} : Hit env handler request s sign true →
      CallThrew (handler.revalidation (requestUri handler request) eTag)
        (withoutEntry s (requestKey handler request)) f s' → CallThrew request s f s'
  | updating {request : Request} {s mid s' : ProxyState} {status : Status} {answer : Response}
      {f : Fault} {sign : CacheSign} {eTag : Bytes} : Hit env handler request s sign true →
      CallDone env handler (handler.revalidation (requestUri handler request) eTag)
        (withoutEntry s (requestKey handler request)) status answer mid →
      EntryThrew status answer mid f s' → CallThrew request s f s'
  | refetching {request : Request} {s mid mid' s' : ProxyState} {status : Status}
      {answer : Response} {f : Fault} {sign : CacheSign} {eTag : Bytes} :
      Hit env handler request s sign true →
      CallDone env handler (handler.revalidation (requestUri handler request) eTag)
        (withoutEntry s (requestKey handler request)) status answer mid →
      EntryUpdate env (requestKey handler request) status answer mid false mid' →
      SendsThrew env handler request mid' f s' → CallThrew request s f s'

def Call (request : Request) (s s' : ProxyState) : Prop :=
  ∃ fuel response, ((handleRequest env handler fuel request response).run s).state? = some s'

end Call

def Uncached (handler : ProxyHandler) (s : ProxyState) (request : Request) : Prop :=
  s.cache.lookup (cacheKey (stripPrefix handler.uriPrefix request.uri)) = none

section Ways
variable {env : Environment} {handler : ProxyHandler} {request : Request} {s : ProxyState}

-- what a call does with the answer from the cache, if there is one
def answerOr (send : ProxyProc (Status × Response)) : Option Response → ProxyProc (Status × Response)
  | some response => return (.ok, response)
  | none => send

section Through
variable (env handler) in
def callThrough (rounds : Nat) (inner : Inner) (request : Request) (response : Response) :
    ProxyProc (Status × Response) :=
  handleCache env handler inner (requestUri handler request) response >>= answerOr
    (exchangeLoop env request (requestUri handler request) rounds handler.serverHost handler.serverPort
      (requestUri handler request))

variable (env handler) in
theorem handleRequest_succ (fuel : Nat) :
    handleRequest env handler (fuel + 1) =
      callThrough env handler (fuel + 1) (handleRequest env handler fuel) := by
  funext request response
  rw [handleRequest, callThrough]
  rfl

variable {inner : Inner}

theorem callThrough_uncached (absent : Uncached handler s request) (rounds : Nat)
    (response : Response) :
    (callThrough env handler rounds inner request response).run s =
      (exchangeLoop env request (requestUri handler request) rounds handler.serverHost
        handler.serverPort (requestUri handler request)).run s := by
  have noEntry : s.cache.lookup (cacheKey (requestUri handler request)) = none := absent
  rw [callThrough]
  simp only [handleCache, Proc.run_bind, Proc.run_get, noEntry]
  rfl

theorem callThrough_hit {sign : CacheSign} {expired : Bool}
    (hit : Hit env handler request s sign expired) (rounds : Nat) (response : Response) :
    (callThrough env handler rounds inner request response).run s =
      ((if expired then updateCache env handler inner (requestUri handler request)
            (requestKey handler request) else pure true) >>= fun usable =>
        if usable then serveFile env (requestKey handler request) response >>= fun served =>
          pure (.ok, served)
        else exchangeLoop env request (requestUri handler request) rounds handler.serverHost
          handler.serverPort (requestUri handler request)).run (clockRead s) := by
  have present : s.cache.lookup (cacheKey (requestUri handler request)) = some sign := hit.present
  let send := exchangeLoop env request (requestUri handler request) rounds handler.serverHost
    handler.serverPort (requestUri handler request)
  have step (usable : Bool) :
      ((if usable then do return some (← serveFile env (requestKey handler request) response)
          else return none : ProxyProc (Option Response)) >>= answerOr send) =
        if usable then serveFile env (requestKey handler request) response >>= fun served =>
          pure (.ok, served)
        else send := by
    cases usable with
    | false => rfl
    | true =>
        simp only [if_true, Proc.bind_assoc]
        rfl
  rw [callThrough]
  simp only [handleCache, localTime, Proc.bind_assoc, Proc.run_get_bind, present,
    Proc.run_modify_bind, Proc.pure_bind, hit.expired]
  rw [← funext step]
  cases expired with
  | true =>
      simp only [if_true, Proc.bind_assoc]
      rfl
  | false => rfl

end Through

theorem handleRequest_uncached (absent : Uncached handler s request) (fuel : Nat)
    (response : Response) :
    (handleRequest env handler (fuel + 1) request response).run s =
      (exchangeLoop env request (stripPrefix handler.uriPrefix request.uri) (fuel + 1)
        handler.serverHost handler.serverPort (stripPrefix handler.uriPrefix request.uri)).run s := by
  rw [handleRequest_succ]
  exact callThrough_uncached absent (fuel + 1) response

theorem handleRequest_hit {sign : CacheSign} {expired : Bool}
    (hit : Hit env handler request s sign expired) (fuel : Nat) (response : Response) :
    (handleRequest env handler (fuel + 1) request response).run s =
      ((if expired then updateCache env handler (handleRequest env handler fuel)
            (requestUri handler request) (requestKey handler request) else pure true) >>= fun usable =>
        if usable then serveFile env (requestKey handler request) response >>= fun served =>
          pure (.ok, served)
        else exchangeLoop env request (requestUri handler request) (fuel + 1) handler.serverHost
          handler.serverPort (requestUri handler request)).run (clockRead s) := by
  rw [handleRequest_succ]
  exact callThrough_hit hit (fuel + 1) response

theorem handleRequest_wp (fuel : Nat) (response : Response) :
    (handleRequest env handler fuel request response).wp
      (fun result s' => CallDone env handler request s result.1 result.2 s')
      (fun f s' => CallThrew env handler request s f s') s := by
  induction fuel generalizing request response s with
  | zero => trivial
  | succ fuel ih =>
      have sends (s : ProxyState) : (exchangeLoop env request (requestUri handler request) (fuel + 1)
          handler.serverHost handler.serverPort (requestUri handler request)).wp
          (fun result s' => SendsDone env handler request s result.1 result.2 s')
          (fun f s' => SendsThrew env handler request s f s') s := exchangeLoop_wp _
      cases present : s.cache.lookup (requestKey handler request) with
      | none =>
          rw [Proc.wp_congr (handleRequest_uncached present fuel response)]
          exact Proc.wp_mono (sends s) (fun _ _ done => .miss present done)
            (fun _ _ threw => .miss present threw)
      | some sign =>
          cases expired : sign.expiration.expired (env.clock s.readings) with
          | false =>
              have hit : Hit env handler request s sign false := ⟨present, expired⟩
              rw [Proc.wp_congr (handleRequest_hit hit fuel response), Proc.wp_bind]
              simp only [Bool.false_eq_true, if_false, if_true, Proc.wp_pure, Proc.wp_bind]
              apply Proc.wp_mono (serveFile_wp response) _ (fun _ _ never => never.elim)
              intro served s' ended
              obtain ⟨content, readable, serves⟩ := ended
              exact .hit hit readable serves
          | true =>
              have hit : Hit env handler request s sign true := ⟨present, expired⟩
              obtain ⟨eTag, ran⟩ := updateCache_run env (s := clockRead s) handler
                (handleRequest env handler fuel) (requestUri handler request) (requestKey handler request)
              rw [Proc.wp_congr (handleRequest_hit hit fuel response), Proc.wp_bind, if_pos rfl,
                Proc.wp_congr ran, Proc.wp_bind]
              apply Proc.wp_mono (ih {}) _ (fun _ _ threw => .revalidating hit threw)
              intro result mid inner
              apply Proc.wp_mono updateEntry_wp _ (fun _ _ threw => .updating hit inner threw)
              intro usable mid' update
              cases usable with
              | false =>
                  simp only [Bool.false_eq_true, if_false]
                  exact Proc.wp_mono (sends mid') (fun _ _ done => .refetched hit inner update done)
                    (fun _ _ threw => .refetching hit inner update threw)
              | true =>
                  simp only [if_true, Proc.wp_bind, Proc.wp_pure]
                  apply Proc.wp_mono (serveFile_wp response) _ (fun _ _ never => never.elim)
                  intro served s' ended
                  obtain ⟨content, readable, serves⟩ := ended
                  exact .revalidated hit inner update readable serves

theorem Looked.extends {path : Bytes} {s s' : ProxyState} (looked : Looked path s s') : Extends s s' :=
  ⟨by rw [looked.contacts], by rw [looked.installs], looked.readings⟩

theorem clockRead_extends (s : ProxyState) : Extends s (clockRead s) :=
  ⟨List.prefix_rfl, List.prefix_rfl, Nat.le_succ _⟩

theorem withoutEntry_extends (s : ProxyState) (path : Bytes) : Extends s (withoutEntry s path) :=
  ⟨List.prefix_rfl, List.prefix_rfl, Nat.le_succ _⟩

theorem entryUpdate_extends {path : Bytes} {status : Status} {answer : Response} {usable : Bool}
    {s s' : ProxyState} (update : EntryUpdate env path status answer s usable s') : Extends s s' := by
  cases update with
  | failed => exact Extends.refl s
  | other => exact Extends.refl s
  | unusable ok counts read =>
      obtain ⟨k, ticked⟩ := read.ticked
      exact ticked.touched.extends
  | rearmed ok counts read =>
      obtain ⟨k, ticked⟩ := read.ticked
      exact ticked.touched.extends.trans ⟨List.prefix_rfl, List.prefix_append _ _, le_rfl⟩

theorem entryUpdate_files {path : Bytes} {status : Status} {answer : Response} {usable : Bool}
    (update : EntryUpdate env path status answer s usable s') : s'.files = s.files := by
  cases update with
  | failed => rfl
  | other => rfl
  | unusable ok counts read =>
      obtain ⟨k, ticked⟩ := read.ticked
      rw [ticked]
  | rearmed ok counts read =>
      obtain ⟨k, ticked⟩ := read.ticked
      rw [ticked, rearm]

theorem callDone_uncached (absent : Uncached handler s request) {status : Status}
    {response : Response} {s' : ProxyState}
    (done : CallDone env handler request s status response s') :
    SendsDone env handler request s status response s' := by
  have not_hit {sign : CacheSign} {expired : Bool} : ¬ Hit env handler request s sign expired := by
    intro hit
    cases absent.symm.trans hit.present
  cases done with
  | miss _ sends => exact sends
  | hit hit => exact absurd hit not_hit
  | revalidated hit => exact absurd hit not_hit
  | refetched hit => exact absurd hit not_hit

theorem callThrew_uncached (absent : Uncached handler s request) {f : Fault} {s' : ProxyState}
    (threw : CallThrew env handler request s f s') : SendsThrew env handler request s f s' := by
  have not_hit {sign : CacheSign} {expired : Bool} : ¬ Hit env handler request s sign expired := by
    intro hit
    cases absent.symm.trans hit.present
  cases threw with
  | miss _ sends => exact sends
  | revalidating hit => exact absurd hit not_hit
  | updating hit => exact absurd hit not_hit
  | refetching hit => exact absurd hit not_hit

theorem revalidation_done {uri eTag : Bytes} {status : Status} {answer : Response} {s' : ProxyState}
    (absent : Uncached handler s (handler.revalidation uri []))
    (done : CallDone env handler (handler.revalidation uri eTag) s status answer s') :
    SendsDone env handler (handler.revalidation uri eTag) s status answer s' :=
  callDone_uncached (by exact absent) done

theorem revalidation_threw {uri eTag : Bytes} {f : Fault} {s' : ProxyState}
    (absent : Uncached handler s (handler.revalidation uri []))
    (threw : CallThrew env handler (handler.revalidation uri eTag) s f s') :
    SendsThrew env handler (handler.revalidation uri eTag) s f s' :=
  callThrew_uncached (by exact absent) threw

theorem call_cases {s' : ProxyState} (call : Call env handler request s s') :
    (∃ status response, CallDone env handler request s status response s') ∨
      ∃ f, CallThrew env handler request s f s' := by
  obtain ⟨fuel, response, ended⟩ := call
  rcases Proc.wp_state (handleRequest_wp fuel response) ended with ⟨result, done⟩ | threw
  · exact .inl ⟨result.1, result.2, done⟩
  · exact .inr threw

theorem call_of_done {fuel : Nat} {response : Response} {result : Status × Response} {s' : ProxyState}
    (ran : (handleRequest env handler fuel request response).run s = .done result s') :
    ∃ request, Call env handler request s s' := ⟨request, fuel, response, by rw [ran]; rfl⟩

/-! ## Successive calls -/

def afterCalls (env : Environment) (handler : ProxyHandler) (fuel : Nat) :
    List Request → ProxyState → Option ProxyState
  | [], s => some s
  | request :: requests, s =>
      ((handleRequest env handler fuel request {}).run s).state?.bind
        (afterCalls env handler fuel requests)

theorem afterCalls_run {fuel : Nat} {requests : List Request} {s' : ProxyState}
    (ended : afterCalls env handler fuel requests s = some s') :
    Relation.ReflTransGen (fun s s' => ∃ request, Call env handler request s s') s s' := by
  induction requests generalizing s with
  | nil =>
      cases ended
      exact .refl
  | cons request requests ih =>
      obtain ⟨mid, first, rest⟩ := Option.bind_eq_some_iff.mp ended
      exact .head ⟨request, fuel, {}, first⟩ (ih rest)

end Ways

-- the request is answered with status ok and without a contact
def answersSilently (env : Environment) (handler : ProxyHandler) (request : Request)
    (s : ProxyState) : Bool :=
  match (handleRequest env handler 3 request {}).run s with
  | .done (status, _) s' => status == .ok && s'.contacts.length == s.contacts.length
  | _ => false

theorem exists_of_answersSilently {env : Environment} {handler : ProxyHandler} {request : Request}
    {s : ProxyState} (silent : answersSilently env handler request s = true) :
    ∃ response' s', (handleRequest env handler 3 request {}).run s = .done (.ok, response') s' ∧
      s'.contacts.length = s.contacts.length := by
  rw [answersSilently] at silent
  cases ran : (handleRequest env handler 3 request {}).run s with
  | done result s' =>
      obtain ⟨status, response'⟩ := result
      rw [ran] at silent
      simp only [Bool.and_eq_true, beq_iff_eq] at silent
      obtain ⟨rfl, contacts⟩ := silent
      exact ⟨response', s', rfl, contacts⟩
  | threw f s' =>
      rw [ran] at silent
      cases silent
  | running =>
      rw [ran] at silent
      cases silent

end TscServer.Proof
