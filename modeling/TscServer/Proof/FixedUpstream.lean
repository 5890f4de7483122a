import TscServer.Proof.CacheFiles
import TscServer.Proof.Calls

/-!
# An upstream that answers each URI in one way

`Reaches` follows the redirects of such an upstream to the answer that a request comes to. This answer
decides how a call ends that finds nothing in the cache, and what it stores.
-/

namespace TscServer.Proof
open Lib Model Spec ProxyHandler

structure Place where
  host : Bytes
  port : Bytes
  uri : Bytes

def Fixed (env : Environment) (f : Place → Answer) : Prop :=
  ∀ n out, IsGet out.method → env.upstream n out = f ⟨out.host, out.port, out.uri⟩

inductive Reaches (f : Place → Answer) : Place → Place → Prop
  | here {place : Place} : ¬ Redirects (f place) → Reaches f place place
  | redirected {place target : Place} {d : Delivered} {host port uri : Bytes} :
      delivery (f place) = .response d → (∀ line ∈ d.lines, SafeLine d.code line) →
      d.round place.host place.port place.uri = .redirected host port uri →
      Reaches f ⟨host, port, uri⟩ target → Reaches f place target

theorem code_of_redirected {d : Delivered} {host port uri host' port' uri' : Bytes}
    (redirected : d.round host port uri = .redirected host' port' uri') : d.code = 302 := by
  by_contra final
  obtain ⟨status, response, finished, -⟩ := round_final final host port uri
  cases redirected.symm.trans finished

theorem redirects_of_redirected {answer : Answer} {d : Delivered}
    {host port uri host' port' uri' : Bytes} (arrived : delivery answer = .response d)
    (safe : ∀ line ∈ d.lines, SafeLine d.code line)
    (redirected : d.round host port uri = .redirected host' port' uri') : Redirects answer := by
  have code := code_of_redirected redirected
  rw [code] at safe
  exact ⟨d, arrived, code, safe⟩

theorem reaches_unique {f : Place → Answer} {place target target' : Place}
    (reaches : Reaches f place target) (reaches' : Reaches f place target') : target = target' := by
  induction reaches with
  | here last =>
      cases reaches' with
      | here => rfl
      | redirected arrived safe redirected =>
          exact absurd (redirects_of_redirected arrived safe redirected) last
  | redirected arrived safe redirected _ ih =>
      cases reaches' with
      | here last => exact absurd (redirects_of_redirected arrived safe redirected) last
      | redirected arrived' safe' redirected' rest' =>
          obtain rfl := delivered_unique arrived arrived'
          obtain ⟨rfl, rfl, rfl⟩ := Round.redirected.inj (redirected.symm.trans redirected')
          exact ih rest'

/-! ## The loop -/

structure SameStore (s mid : ProxyState) : Prop where
  cache : mid.cache = s.cache
  files : mid.files = s.files

theorem SameStore.trans {s mid s' : ProxyState} (first : SameStore s mid) (second : SameStore mid s') :
    SameStore s s' :=
  ⟨second.cache.trans first.cache, second.files.trans first.files⟩

theorem Ticked.sameStore {s mid s' : ProxyState} {k : Nat} (ticked : Ticked k mid s')
    (store : SameStore s mid) : SameStore s s' := by
  obtain rfl := ticked
  exact ⟨store.cache, store.files⟩

def ReachesDone (env : Environment) (f : Place → Answer) (requestUri : Bytes) (place : Place)
    (s : ProxyState) (status : Status) (response : Response) (s' : ProxyState) : Prop :=
  ∃ target mid, Reaches f place target ∧ SameStore s mid ∧
    RoundDone env requestUri target.host target.port target.uri (f target) mid s'
      (.finished status response)

def ReachesThrew (env : Environment) (f : Place → Answer) (requestUri : Bytes) (place : Place)
    (s : ProxyState) (fault : Fault) (s' : ProxyState) : Prop :=
  ∃ target mid, Reaches f place target ∧ SameStore s mid ∧
    RoundThrew env requestUri (f target) mid s' fault

section Loop
variable {env : Environment} {f : Place → Answer} {request : Request} {s : ProxyState}

theorem exchange_fixed (fixed : Fixed env f) (get : IsGet request.method) (requestUri : Bytes)
    (place : Place) :
    (exchange env request requestUri place.host place.port place.uri).wp
      (fun round s' => ∃ out, RoundDone env requestUri place.host place.port place.uri (f place)
        (contacted s out) s' round)
      (fun fault s' => ∃ out, RoundThrew env requestUri (f place) (contacted s out) s' fault) s := by
  have answers : env.upstream s.contacts.length
      (outgoing request place.host place.port place.uri) = f place := fixed _ _ get
  apply Proc.wp_mono (exchange_wp request requestUri _ _ _ rfl answers)
  · exact fun round s' done => ⟨_, done⟩
  · exact fun fault s' threw => ⟨_, threw⟩

/-- The loop follows the redirects, by induction on its rounds. -/
theorem exchangeLoop_reaches (fixed : Fixed env f) (get : IsGet request.method) (requestUri : Bytes)
    (place : Place) (fuel : Nat) :
    (exchangeLoop env request requestUri fuel place.host place.port place.uri).wp
      (fun result s' => ReachesDone env f requestUri place s result.1 result.2 s')
      (fun fault s' => ReachesThrew env f requestUri place s fault s') s := by
  induction fuel generalizing s place with
  | zero => trivial
  | succ fuel ih =>
      rw [exchangeLoop, Proc.wp_bind]
      apply Proc.wp_mono (exchange_fixed fixed get requestUri place)
      · intro round s' ended
        obtain ⟨out, done⟩ := ended
        cases round with
        | finished status response =>
            have last : Reaches f place place :=
              .here fun redirects => redirects_not_done redirects done
            exact ⟨place, contacted s out, last, ⟨rfl, rfl⟩, done⟩
        | redirected host port uri =>
            cases done with
            | plain arrived safe notCached ticked same =>
                have first : SameStore s s' := ticked.sameStore ⟨rfl, rfl⟩
                have further {target : Place} (reaches : Reaches f ⟨host, port, uri⟩ target) :
                    Reaches f place target := .redirected arrived safe same.symm reaches
                have next := ih ⟨host, port, uri⟩ (s := s')
                apply Proc.wp_mono next
                · intro result s'' ended
                  obtain ⟨target, mid, reaches, store, done⟩ := ended
                  exact ⟨target, mid, further reaches, first.trans store, done⟩
                · intro fault s'' ended
                  obtain ⟨target, mid, reaches, store, threw⟩ := ended
                  exact ⟨target, mid, further reaches, first.trans store, threw⟩
      · intro fault s' ended
        obtain ⟨out, threw⟩ := ended
        have last : Reaches f place place :=
          .here fun redirects => redirects_not_threw redirects threw
        exact ⟨place, contacted s out, last, ⟨rfl, rfl⟩, threw⟩

theorem exchangeLoop_ends (fixed : Fixed env f) (get : IsGet request.method) (requestUri : Bytes)
    {place target : Place} (reaches : Reaches f place target) :
    ∃ k, ∀ fuel s, k < fuel →
      (exchangeLoop env request requestUri fuel place.host place.port place.uri).run s ≠ .running := by
  induction reaches with
  | here last =>
      refine ⟨0, fun fuel s enough => ?_⟩
      obtain ⟨fuel, rfl⟩ := Nat.exists_eq_succ_of_ne_zero (Nat.ne_of_gt enough)
      apply exchangeLoop_ends_of_round
      apply Proc.wp_mono (exchange_fixed fixed get requestUri _) _ (fun _ _ _ => trivial)
      intro round s' ended host port uri redirected
      subst redirected
      obtain ⟨out, done⟩ := ended
      cases done with
      | plain arrived safe notCached ticked same =>
          exact absurd (redirects_of_redirected arrived safe same.symm) last
  | redirected arrived safe redirected _ ih =>
      obtain ⟨k, ends⟩ := ih
      refine ⟨k + 1, fun fuel s enough => ?_⟩
      obtain ⟨fuel, rfl⟩ := Nat.exists_eq_succ_of_ne_zero (Nat.ne_of_gt (Nat.zero_lt_of_lt enough))
      apply exchangeLoop_ends_of_round
      apply Proc.wp_mono (exchange_fixed fixed get requestUri _) _ (fun _ _ _ => trivial)
      intro round s' ended host' port' uri' again
      subst again
      obtain ⟨out, done⟩ := ended
      cases done with
      | plain arrived' safe' notCached ticked same =>
          obtain rfl := delivered_unique arrived arrived'
          obtain ⟨rfl, rfl, rfl⟩ := Round.redirected.inj (redirected.symm.trans same.symm)
          exact ends fuel s' (Nat.lt_of_succ_lt_succ enough)

end Loop

/-! ## Calls -/

section Call
variable (f : Place → Answer) (handler : ProxyHandler) (request : Request)

def firstPlace : Place := ⟨handler.serverHost, handler.serverPort, requestUri handler request⟩

-- the loop takes every line apart
def Readable (answer : Answer) : Prop :=
  ∀ d, delivery answer = .response d → ∀ line ∈ d.lines, SafeLine d.code line

def Gives (status : Status) (response : Response) : Prop :=
  ∃ target, Reaches f (firstPlace handler request) target ∧ Readable (f target) ∧
    Answers (f target) status response

def Kept (d : Delivered) : Prop :=
  ∃ target, Reaches f (firstPlace handler request) target ∧ delivery (f target) = .response d ∧
    Readable (f target) ∧ Caches d

inductive Sent (env : Environment) (s s' : ProxyState) : Prop
  | unstored : (∀ d, ¬ Kept f handler request d) → SameStore s s' → Sent env s s'
  | stored {d : Delivered} {sign : CacheSign} : Kept f handler request d →
      s'.cache = s.cache.insert (requestKey handler request) sign →
      StoresFile env (requestKey handler request) d.raw s.files s'.files → Sent env s s'

def Room (env : Environment) (files : FileTree Bytes Bytes) : Prop :=
  ∀ d, Kept f handler request d →
    ∃ after, StoresFile env (requestKey handler request) d.raw files after

end Call

section Ends
variable {env : Environment} {f : Place → Answer} {handler : ProxyHandler} {request : Request}
  {s s' : ProxyState} {status status' : Status} {response response' : Response}

theorem answers_unique {answer : Answer} (answers : Answers answer status response)
    (answers' : Answers answer status' response') : status = status' ∧ response = response' := by
  rcases answers with ⟨failed, rfl, rfl⟩ | ⟨d, host, port, uri, arrived, round⟩
  · rcases answers' with ⟨-, rfl, rfl⟩ | ⟨d', host', port', uri', arrived', -⟩
    · exact ⟨rfl, rfl⟩
    · cases failed.symm.trans arrived'
  · rcases answers' with ⟨failed, -, -⟩ | ⟨d', host', port', uri', arrived', round'⟩
    · cases failed.symm.trans arrived
    · obtain rfl := delivered_unique arrived arrived'
      have final := round_not_redirect round
      rw [Delivered.round, if_neg final] at round round'
      exact Round.finished.inj (round.symm.trans round')

theorem readable_of_safe {answer : Answer} {d : Delivered} (arrived : delivery answer = .response d)
    (safe : ∀ line ∈ d.lines, SafeLine d.code line) : Readable answer := by
  intro d' arrived'
  rwa [← delivered_unique arrived arrived']

section Target
variable {target : Place} (reaches : Reaches f (firstPlace handler request) target)
include reaches

theorem gives_iff : Gives f handler request status response ↔
    Readable (f target) ∧ Answers (f target) status response := by
  constructor
  · rintro ⟨target', reaches', given⟩
    rwa [reaches_unique reaches reaches']
  · exact fun given => ⟨target, reaches, given⟩

theorem kept_iff {d : Delivered} : Kept f handler request d ↔
    delivery (f target) = .response d ∧ Readable (f target) ∧ Caches d := by
  constructor
  · rintro ⟨target', reaches', kept⟩
    rwa [reaches_unique reaches reaches']
  · exact fun kept => ⟨target, reaches, kept⟩

end Target

theorem gives_unique (gives : Gives f handler request status response)
    (gives' : Gives f handler request status' response') : status = status' ∧ response = response' := by
  obtain ⟨target, reaches, -, answers⟩ := gives
  exact answers_unique answers ((gives_iff reaches).mp gives').2

theorem kept_unique {d d' : Delivered} (kept : Kept f handler request d)
    (kept' : Kept f handler request d') : d = d' := by
  obtain ⟨target, reaches, arrived, -⟩ := kept
  exact delivered_unique arrived ((kept_iff reaches).mp kept').1

theorem gives_of_kept {d : Delivered} (kept : Kept f handler request d) :
    Gives f handler request .ok (Response.setRawResponse {} d.raw) := by
  obtain ⟨target, reaches, arrived, readable, caches⟩ := kept
  exact ⟨target, reaches, readable, .inr ⟨d, [], [], [], arrived, round_of_caches caches [] [] []⟩⟩

theorem gives_of_done
    (done : ReachesDone env f (requestUri handler request) (firstPlace handler request) s status
      response s') :
    Gives f handler request status response := by
  obtain ⟨target, mid, reaches, -, done⟩ := done
  refine ⟨target, reaches, ?_, answers_of_roundDone done⟩
  exact fun d arrived => (roundDone_delivered arrived done).1

theorem sent_of_done (room : Room f handler request env s.files)
    (done : ReachesDone env f (requestUri handler request) (firstPlace handler request) s status
      response s') :
    Sent f handler request env s s' := by
  obtain ⟨target, mid, reaches, store, done⟩ := done
  cases done with
  | failed failed same =>
      rw [same]
      refine .unstored (fun d kept => ?_) store
      cases failed.symm.trans ((kept_iff reaches).mp kept).1
  | plain arrived safe notCached ticked same =>
      refine .unstored (fun d kept => ?_) (ticked.sameStore store)
      obtain ⟨arrived', -, caches⟩ := (kept_iff reaches).mp kept
      obtain rfl := delivered_unique arrived arrived'
      exact notCached caches
  | @cached d k before sign arrived safe caches ticked granted stored =>
      have kept := (kept_iff reaches).mpr ⟨arrived, readable_of_safe arrived safe, caches⟩
      have same := ticked.sameStore store
      obtain ⟨after, made, directories, written⟩ := room d kept
      obtain ⟨made', directories', written'⟩ := stored.files
      rw [same.files] at directories'
      obtain rfl := Option.some.inj (directories.symm.trans directories')
      have stores : StoresFile env (requestKey handler request) d.raw s.files s'.files := by
        refine ⟨made, directories, ?_⟩
        rw [written, written']
        exact congrArg some (by rw [← requestKey, written, Option.getD_some])
      exact .stored kept (stored.cache.trans (congrArg _ same.cache)) stores

theorem sent_of_threw {fault : Fault} (room : Room f handler request env s.files)
    (threw : ReachesThrew env f (requestUri handler request) (firstPlace handler request) s fault
      s') :
    Sent f handler request env s s' ∧ ∀ status response, ¬ Gives f handler request status response := by
  obtain ⟨target, mid, reaches, store, threw⟩ := threw
  cases threw with
  | indeterminate failed same =>
      rw [same]
      refine ⟨.unstored (fun d kept => ?_) store, fun status response gives => ?_⟩
      · cases failed.symm.trans ((kept_iff reaches).mp kept).1
      · rcases ((gives_iff reaches).mp gives).2 with ⟨failed', -⟩ | ⟨d, _, _, _, arrived, -⟩
        · cases failed.symm.trans failed'
        · cases failed.symm.trans arrived
  | header arrived fault bad ticked =>
      obtain ⟨k, ticked⟩ := ticked
      obtain ⟨line, mem, bad⟩ := bad
      have unreadable : ¬ Readable (f target) := fun readable => bad (readable _ arrived line mem)
      refine ⟨.unstored (fun d kept => ?_) (ticked.sameStore store), fun status response gives => ?_⟩
      · exact unreadable ((kept_iff reaches).mp kept).2.1
      · exact unreadable ((gives_iff reaches).mp gives).1
  | directory arrived safe caches blocked touched =>
      have kept := (kept_iff reaches).mpr ⟨arrived, readable_of_safe arrived safe, caches⟩
      obtain ⟨after, made, directories, -⟩ := room _ kept
      rw [store.files] at blocked
      cases directories.symm.trans blocked

end Ends
end TscServer.Proof
