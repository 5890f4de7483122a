import TscServer.Lib.LoggedRun
import TscServer.Proof.FixedUpstream
import TscServer.Proof.RevalidatedBody

/-!
# One cache for all URIs

The handler beside the same handler with an always-empty cache, on the same requests: the disks stay
equal, and every entry of the cache holds what the upstream gives for the URI that it is found for.
`cache_transparent` says under which conditions this makes the cache invisible.
-/

namespace TscServer.Proof
open Lib Model Spec ProxyHandler

structure Reply where
  status : Status
  statusLine : Bytes
  body : Bytes
deriving DecidableEq

def replyOf (status : Status) (response : Response) : Reply where
  status := status
  statusLine := statusLineOf response.toBytes
  body := bodyOf response.toBytes

def Replies (env : Environment) (handler : ProxyHandler) (request : Request) (response : Response)
    (s : ProxyState) (reply : Reply) : Prop :=
  ∃ fuel status response' s', (handleRequest env handler fuel request response).run s =
    .done (status, response') s' ∧ replyOf status response' = reply

-- the upstream's own answer
def GivesReply (f : Place → Answer) (handler : ProxyHandler) (request : Request) (reply : Reply) :
    Prop :=
  ∃ status response, Gives f handler request status response ∧ replyOf status response = reply

def emptied (s : ProxyState) : ProxyState := { s with cache := ∅ }

structure FreshGet (env : Environment) (handler : ProxyHandler) (s : ProxyState) (request : Request) :
    Prop where
  get : IsGet request.method
  fresh : ∀ sign, ¬ Hit env handler request s sign true

section Conditions
variable (env : Environment) (f : Place → Answer) (handler : ProxyHandler)

def IsKept (request : Request) : Prop := ∃ d, Kept f handler request d

/-- Neither the key of the request nor its file belongs to another URI whose response was stored, the
file can be written, and the status line of an entry has nothing that serving it rewrites. -/
structure Undisturbed (log : List Request) (s : ProxyState) (request : Request) : Prop
    extends FreshGet env handler s request where
  ownKey : ∀ earlier ∈ log, IsKept f handler earlier →
    requestKey handler earlier = requestKey handler request →
    requestUri handler earlier = requestUri handler request
  ownFile : Uncached handler s request → IsKept f handler request →
    ∀ earlier ∈ log, IsKept f handler earlier →
      requestUri handler earlier ≠ requestUri handler request →
      fileLocation env (requestKey handler earlier) ≠ fileLocation env (requestKey handler request)
  room : Uncached handler s request → Room f handler request env s.files
  inert : ¬ Uncached handler s request → ∀ d, Kept f handler request d → Inert d.statusLine

def undisturbedStep (log : List Request) (request : Request) (s s' : ProxyState) : Prop :=
  Undisturbed env f handler log s request ∧ Call env handler request s s'

-- a call of the handler whose cache is always empty
def emptiedStep (_ : List Request) (request : Request) (s s' : ProxyState) : Prop :=
  Call env handler request (emptied s) s'

/-- The invariant: the disks are equal, and an entry comes from an earlier request, whose response is
in its file. -/
structure Mirrors (log : List Request) (s s₀ : ProxyState) : Prop where
  files : s₀.files = s.files
  entries : ∀ key sign, s.cache.lookup key = some sign → ∃ earlier ∈ log,
    requestKey handler earlier = key ∧
      ∃ d, Kept f handler earlier d ∧ HoldsFile env key d.raw s.files

end Conditions

section Calls
variable {env : Environment} {f : Place → Answer} {handler : ProxyHandler} {request : Request}
  {s s' : ProxyState}

theorem kept_congr {earlier : Request} {d : Delivered}
    (same : requestUri handler earlier = requestUri handler request)
    (kept : Kept f handler earlier d) : Kept f handler request d := by
  rwa [Kept, firstPlace, ← same]

/-! ## Calls that are sent on -/

theorem sent_of_call (fixed : Fixed env f) (get : IsGet request.method)
    (absent : Uncached handler s request) (room : Room f handler request env s.files)
    (call : Call env handler request s s') :
    Sent f handler request env s s' ∧ ∃ target, Reaches f (firstPlace handler request) target := by
  obtain ⟨fuel, response, ended⟩ := call
  cases fuel with
  | zero => cases ended
  | succ fuel =>
      rw [handleRequest_uncached absent] at ended
      have loop := exchangeLoop_reaches (s := s) fixed get (requestUri handler request)
        (firstPlace handler request) (fuel + 1)
      rcases Proc.wp_state loop ended with ⟨result, done⟩ | ⟨fault, threw⟩
      · obtain ⟨target, _, reaches, -⟩ := id done
        exact ⟨sent_of_done room done, target, reaches⟩
      · obtain ⟨target, _, reaches, -⟩ := id threw
        exact ⟨(sent_of_threw room threw).1, target, reaches⟩

theorem call_of_reaches (fixed : Fixed env f) (get : IsGet request.method)
    (absent : Uncached handler s request) {target : Place}
    (reaches : Reaches f (firstPlace handler request) target) :
    ∃ s', Call env handler request s s' := by
  obtain ⟨k, ends⟩ := exchangeLoop_ends fixed get (requestUri handler request) reaches
  have ended := ends (k + 1) s (Nat.lt_succ_self k)
  obtain ⟨s', final⟩ := Outcome.exists_state_of_ne_running ended
  refine ⟨s', k + 1, {}, ?_⟩
  rw [handleRequest_uncached absent]
  exact final

theorem sent_files {t t' : ProxyState} (same : t.files = s.files)
    (sent : Sent f handler request env s s') (sent' : Sent f handler request env t t') :
    t'.files = s'.files := by
  cases sent with
  | unstored never store =>
      cases sent' with
      | unstored _ store' => rw [store.files, store'.files, same]
      | stored kept => exact absurd kept (never _)
  | stored kept _ stores =>
      cases sent' with
      | unstored never => exact absurd kept (never _)
      | stored kept' _ stores' =>
          obtain rfl := kept_unique kept kept'
          rw [same] at stores'
          exact stores'.unique stores

theorem replies_sent_iff (fixed : Fixed env f) (get : IsGet request.method)
    (absent : Uncached handler s request) (room : Room f handler request env s.files)
    (response : Response) (reply : Reply) :
    Replies env handler request response s reply ↔ GivesReply f handler request reply := by
  have loop (fuel : Nat) := exchangeLoop_reaches (s := s) fixed get (requestUri handler request)
    (firstPlace handler request) fuel
  constructor
  · rintro ⟨fuel, status, response', s', ran, rfl⟩
    cases fuel with
    | zero => cases ran
    | succ fuel =>
        rw [handleRequest_uncached absent] at ran
        have done := Proc.wp_done (loop (fuel + 1)) ran
        exact ⟨status, response', gives_of_done done, rfl⟩
  · rintro ⟨status, response', gives, rfl⟩
    obtain ⟨target, reaches, -⟩ := id gives
    obtain ⟨k, ends⟩ := exchangeLoop_ends fixed get (requestUri handler request) reaches
    have returns : (exchangeLoop env request (requestUri handler request) (k + 1) handler.serverHost
        handler.serverPort (requestUri handler request)).twp
        (fun result _ => result = (status, response')) (fun _ _ => False) s := by
      refine Proc.twp_of_wp (ends (k + 1) s (Nat.lt_succ_self k)) (Proc.wp_mono (loop (k + 1)) ?_ ?_)
      · intro result s' done
        obtain ⟨same, same'⟩ := gives_unique (gives_of_done done) gives
        exact Prod.ext same same'
      · intro fault s' threw
        exact (sent_of_threw room threw).2 _ _ gives
    obtain ⟨_, s', ran, rfl⟩ := Proc.done_of_twp returns
    refine ⟨k + 1, status, response', s', ?_, rfl⟩
    rw [handleRequest_uncached absent]
    exact ran

/-! ## Calls that are answered from the cache -/

theorem sameStore_of_hit {sign : CacheSign} (hit : Hit env handler request s sign false)
    (call : Call env handler request s s') : SameStore s s' := by
  have not_expired {sign' : CacheSign} (expired : Hit env handler request s sign' true) : False := by
    obtain rfl := Option.some.inj (hit.present.symm.trans expired.present)
    cases hit.expired.symm.trans expired.expired
  rcases call_cases call with ⟨status, response, done⟩ | ⟨fault, threw⟩
  · cases done with
    | miss absent => cases hit.present.symm.trans absent
    | hit _ readable serves =>
        refine ⟨?_, serves.1.files⟩
        rcases serves.1.cache with same | ⟨absent, -⟩
        · exact same
        · cases hit.present.symm.trans absent
    | revalidated expired => exact (not_expired expired).elim
    | refetched expired => exact (not_expired expired).elim
  · cases threw with
    | miss absent => cases hit.present.symm.trans absent
    | revalidating expired => exact (not_expired expired).elim
    | updating expired => exact (not_expired expired).elim
    | refetching expired => exact (not_expired expired).elim

theorem blank_mem_statusLine (d : Delivered) : 32 ∈ d.statusLine := by
  simp [Delivered.statusLine, bytes]

theorem replyOf_rewritten {answer : Answer} {d : Delivered} {response : Response}
    (arrived : delivery answer = .response d) (inert : Inert d.statusLine)
    (rewritten : Rewritten d.raw response.rawResponse) :
    replyOf .ok response = replyOf .ok (Response.setRawResponse {} d.raw) := by
  have line := statusLineOf_raw arrived
  have blank := blank_mem_statusLine d
  have solid : d.statusLine ≠ [13] := by
    intro same
    rw [same] at blank
    exact absurd blank (by decide)
  rw [← line] at inert solid
  have same := rewritten.statusLine inert solid (raw_ne_nil d)
  have nonempty : response.rawResponse ≠ [] := by
    intro empty
    rw [empty, line] at same
    rw [← same] at blank
    exact absurd blank (by decide)
  have whole : response.toBytes = response.rawResponse := by
    rw [Response.toBytes, if_pos nonempty]
  rw [replyOf, replyOf, toBytes_setRawResponse (raw_ne_nil d), whole, same, rewritten.body]

theorem replies_hit_iff {sign : CacheSign} (hit : Hit env handler request s sign false) {d : Delivered}
    (kept : Kept f handler request d) (holds : HoldsFile env (requestKey handler request) d.raw s.files)
    (inert : Inert d.statusLine) (response : Response) (reply : Reply) :
    Replies env handler request response s reply ↔ GivesReply f handler request reply := by
  obtain ⟨target, _, arrived, -⟩ := id kept
  have serves (fuel : Nat) : (handleRequest env handler (fuel + 1) request response).twp
      (fun result _ => replyOf result.1 result.2 = replyOf .ok (Response.setRawResponse {} d.raw))
      (fun _ _ => False) s := by
    rw [Proc.twp_congr (handleRequest_hit hit fuel response)]
    simp only [Bool.false_eq_true, if_false, Proc.pure_bind, if_true, Proc.twp_bind, Proc.twp_pure]
    apply Proc.twp_mono (serveFile_twp (s := clockRead s) holds.file response) _
      (fun _ _ never => never)
    intro served s' serves
    exact replyOf_rewritten arrived inert serves.2
  constructor
  · rintro ⟨fuel, status, response', s', ran, rfl⟩
    cases fuel with
    | zero => cases ran
    | succ fuel =>
        have same := Proc.wp_done (Proc.wp_of_twp (serves fuel)) ran
        exact ⟨_, _, gives_of_kept kept, same.symm⟩
  · rintro ⟨status, response', gives, rfl⟩
    obtain ⟨rfl, rfl⟩ := gives_unique gives (gives_of_kept kept)
    obtain ⟨⟨status, response'⟩, s', ran, same⟩ := Proc.done_of_twp (serves 0)
    exact ⟨1, status, response', s', ran, same⟩

/-! ## Side by side -/

section Run
variable {log : List Request} {s₀ : ProxyState} {files : FileTree Bytes Bytes}

theorem emptied_uncached (s : ProxyState) : Uncached handler (emptied s) request := AList.lookup_empty _

theorem Mirrors.found (mirrors : Mirrors env f handler log s s₀)
    (here : Undisturbed env f handler log s request) {sign : CacheSign}
    (present : s.cache.lookup (requestKey handler request) = some sign) :
    ∃ d, Kept f handler request d ∧ HoldsFile env (requestKey handler request) d.raw s.files := by
  obtain ⟨earlier, mem, key, d, kept, holds⟩ := mirrors.entries _ _ present
  have same := here.ownKey earlier mem ⟨d, kept⟩ key
  exact ⟨d, kept_congr same kept, holds⟩

theorem Undisturbed.hit (here : Undisturbed env f handler log s request) {sign : CacheSign}
    (present : s.cache.lookup (requestKey handler request) = some sign) :
    Hit env handler request s sign false := by
  refine ⟨present, ?_⟩
  cases expired : sign.expiration.expired (env.clock s.readings) with
  | false => rfl
  | true => exact absurd ⟨present, expired⟩ (here.fresh sign)

-- the file of an entry can be stored once more
theorem room_of_holds {d : Delivered} (kept : Kept f handler request d)
    (holds : HoldsFile env (requestKey handler request) d.raw files) :
    Room f handler request env files := by
  intro d' kept'
  obtain rfl := kept_unique kept kept'
  exact ⟨files, storesFile_of_holdsFile holds⟩

theorem entries_sent (mirrors : Mirrors env f handler log s s₀)
    (here : Undisturbed env f handler log s request) (absent : Uncached handler s request)
    (sent : Sent f handler request env s s') {key : Bytes} {sign : CacheSign}
    (present : s'.cache.lookup key = some sign) :
    ∃ earlier ∈ request :: log, requestKey handler earlier = key ∧
      ∃ d, Kept f handler earlier d ∧ HoldsFile env key d.raw s'.files := by
  cases sent with
  | unstored never store =>
      rw [store.cache] at present
      obtain ⟨earlier, mem, entry⟩ := mirrors.entries key sign present
      rw [store.files]
      exact ⟨earlier, List.mem_cons_of_mem request mem, entry⟩
  | @stored d new kept inserted stores =>
      rw [inserted] at present
      by_cases same : key = requestKey handler request
      · subst same
        exact ⟨request, List.mem_cons_self, rfl, d, kept, holdsFile_of_storesFile stores⟩
      · rw [AList.lookup_insert_ne same] at present
        obtain ⟨earlier, mem, rfl, d', kept', holds⟩ := mirrors.entries key sign present
        have other : requestUri handler earlier ≠ requestUri handler request := by
          intro uri
          rw [requestKey, requestKey, uri] at same
          exact same rfl
        have apart := here.ownFile absent ⟨d, kept⟩ earlier mem ⟨d', kept'⟩ other
        exact ⟨earlier, List.mem_cons_of_mem request mem, rfl, d', kept', holds.other apart stores⟩

theorem mirrors_step (fixed : Fixed env f) (mirrors : Mirrors env f handler log s s₀)
    (step : undisturbedStep env f handler log request s s') :
    ∃ s₀', emptiedStep env handler log request s₀ s₀' ∧
      Mirrors env f handler (request :: log) s' s₀' := by
  obtain ⟨here, call⟩ := step
  have absent₀ : Uncached handler (emptied s₀) request := emptied_uncached s₀
  have files₀ : (emptied s₀).files = s.files := mirrors.files
  cases present : s.cache.lookup (requestKey handler request) with
  | none =>
      have room := here.room present
      have room₀ : Room f handler request env (emptied s₀).files := by rwa [files₀]
      obtain ⟨sent, target, reaches⟩ := sent_of_call fixed here.get present room call
      obtain ⟨s₀', call₀⟩ := call_of_reaches fixed here.get absent₀ reaches
      have sent₀ := (sent_of_call fixed here.get absent₀ room₀ call₀).1
      refine ⟨s₀', call₀, sent_files files₀ sent sent₀, ?_⟩
      exact fun key sign => entries_sent mirrors here present sent
  | some sign =>
      obtain ⟨d, kept, holds⟩ := mirrors.found here present
      have store := sameStore_of_hit (here.hit present) call
      have room₀ : Room f handler request env (emptied s₀).files := by
        rw [files₀]
        exact room_of_holds kept holds
      obtain ⟨target, reaches, -⟩ := id kept
      obtain ⟨s₀', call₀⟩ := call_of_reaches fixed here.get absent₀ reaches
      have sent₀ := (sent_of_call fixed here.get absent₀ room₀ call₀).1
      refine ⟨s₀', call₀, ?_, fun key sign' present' => ?_⟩
      · -- the same response is stored once more
        rw [store.files, ← files₀]
        cases sent₀ with
        | unstored never => exact absurd kept (never d)
        | stored kept' _ stores =>
            obtain rfl := kept_unique kept kept'
            rw [← files₀] at holds
            exact stores.unique (storesFile_of_holdsFile holds)
      · rw [store.cache] at present'
        obtain ⟨earlier, mem, entry⟩ := mirrors.entries key sign' present'
        rw [store.files]
        exact ⟨earlier, List.mem_cons_of_mem request mem, entry⟩

theorem mirrors_run (fixed : Fixed env f)
    (run : LoggedRun (undisturbedStep env f handler) { files } log s) :
    ∃ s₀, LoggedRun (emptiedStep env handler) { files } log s₀ ∧ Mirrors env f handler log s s₀ := by
  refine run.simulates (R := Mirrors env f handler) ⟨rfl, fun key sign present => ?_⟩ ?_
  · cases (AList.lookup_empty key).symm.trans present
  · exact fun log request s s' s₀ mirrors step => mirrors_step fixed mirrors step

variable (env f handler files log s request) in
/-- The handler with the empty cache can follow the run, and then both answer the request alike, with
what the upstream gives for it. An entry that is found was stored for the same URI. -/
structure Transparent (response : Response) : Prop where
  replies : ∃ s₀, LoggedRun (emptiedStep env handler) { files } log s₀ ∧ ∀ reply,
    (Replies env handler request response s reply ↔
      Replies env handler request response (emptied s₀) reply) ∧
    (Replies env handler request response s reply ↔ GivesReply f handler request reply)
  ownEntry : ∀ sign, s.cache.lookup (requestKey handler request) = some sign → ∃ earlier ∈ log,
    requestUri handler earlier = requestUri handler request ∧
      ∃ d, Kept f handler earlier d ∧ HoldsFile env (requestKey handler request) d.raw s.files

/-- In a run that nothing disturbs, the cache is transparent. -/
theorem cache_transparent (fixed : Fixed env f)
    (run : LoggedRun (undisturbedStep env f handler) { files } log s)
    (here : Undisturbed env f handler log s request) (response : Response) :
    Transparent env f handler request s log files response := by
  obtain ⟨s₀, run₀, mirrors⟩ := mirrors_run fixed run
  have absent₀ : Uncached handler (emptied s₀) request := emptied_uncached s₀
  have files₀ : (emptied s₀).files = s.files := mirrors.files
  refine ⟨⟨s₀, run₀, fun reply => ?_⟩, fun sign present => ?_⟩
  · cases present : s.cache.lookup (requestKey handler request) with
    | none =>
        have room := here.room present
        have room₀ : Room f handler request env (emptied s₀).files := by rwa [files₀]
        have cached := replies_sent_iff fixed here.get present room response reply
        have sent := replies_sent_iff fixed here.get absent₀ room₀ response reply
        exact ⟨cached.trans sent.symm, cached⟩
    | some sign =>
        obtain ⟨d, kept, holds⟩ := mirrors.found here present
        have room₀ : Room f handler request env (emptied s₀).files := by
          rw [files₀]
          exact room_of_holds kept holds
        have inert : Inert d.statusLine := by
          refine here.inert (fun absent => ?_) d kept
          cases present.symm.trans absent
        have cached := replies_hit_iff (here.hit present) kept holds inert response reply
        have sent := replies_sent_iff fixed here.get absent₀ room₀ response reply
        exact ⟨cached.trans sent.symm, cached⟩
  · obtain ⟨earlier, mem, key, d, kept, holds⟩ := mirrors.entries _ _ present
    exact ⟨earlier, mem, here.ownKey earlier mem ⟨d, kept⟩ key, d, kept, holds⟩

end Run
end Calls

/-! ## A URI that is requested twice, and a directory and its index -/

-- an upstream that answers each place in one way
def fixedWorld (f : Place → Answer) : Environment :=
  { scripted [] with upstream := fun _ out => f ⟨out.host, out.port, out.uri⟩ }

theorem fixed_fixedWorld (f : Place → Answer) : Fixed (fixedWorld f) f := fun _ _ _ => rfl

def newAnswer : Answer := .stream [(newResponse (bytes "max-age=60")).toBytes] true

theorem wellFormed_newResponse : (newResponse (bytes "max-age=60")).WellFormed :=
  ⟨wellFormed_okStatus, by decide, by decide +kernel⟩

theorem arrived_newAnswer : ∃ d, Arrived (newResponse (bytes "max-age=60")) newAnswer d :=
  arrived_of_complete wellFormed_newResponse (by decide) (by simp) (blank_of_lines (by simp [newResponse]))

theorem body_of_gives {f : Place → Answer} {handler : ProxyHandler} {request : Request}
    {m : UpstreamResponse} {d : Delivered} {reply : Reply}
    (arrived : Arrived m (f (firstPlace handler request)) d) (wf : m.WellFormed)
    (final : m.status.code ≠ 302) (gives : GivesReply f handler request reply) :
    reply.body = m.body := by
  have last : Reaches f (firstPlace handler request) (firstPlace handler request) := by
    refine .here ?_
    rintro ⟨d', arrived', code, -⟩
    obtain rfl := Delivery.response.inj (arrived'.symm.trans arrived.delivered)
    rw [arrived.code] at code
    exact final code
  obtain ⟨status, response, ⟨target, reaches, -, answers⟩, rfl⟩ := gives
  obtain rfl := reaches_unique last reaches
  rcases answers with ⟨failed, -, -⟩ | ⟨d', host, port, uri, arrived', round⟩
  · cases failed.symm.trans arrived.delivered
  · obtain rfl := Delivery.response.inj (arrived'.symm.trans arrived.delivered)
    rw [Delivered.round, if_neg (by rwa [arrived.code]), arrived.eof] at round
    cases round
    rw [replyOf, toBytes_setRawResponse (raw_ne_nil d'), arrived.bodyOf_raw wf]

theorem cache_transparent_again : ∃ s, s.contacts.length = 1 ∧
    Transparent (fixedWorld fun _ => newAnswer) (fun _ => newAnswer) demoProxy
      (getProxy (bytes "/proxy1/x")) s [getProxy (bytes "/proxy1/x")] emptyDisk {} := by
  let f : Place → Answer := fun _ => newAnswer
  let env := fixedWorld f
  let again := getProxy (bytes "/proxy1/x")
  have computed : (afterCalls env demoProxy 3 [again] { files := emptyDisk }).any (fun s =>
      s.contacts.length == 1 && (s.cache.lookup (requestKey demoProxy again)).any
        (!·.expiration.expired (env.clock s.readings))) = true := by
    decide
  obtain ⟨s, after, test⟩ := Option.any_eq_true _ _ |>.mp computed
  simp only [Bool.and_eq_true, beq_iff_eq] at test
  obtain ⟨once, test⟩ := test
  obtain ⟨sign, present, unexpired⟩ := Option.any_eq_true _ _ |>.mp test
  have key : requestKey demoProxy again = bytes "/x" := by decide
  have noDirectories : directories (bytes "/x") = [] := by decide
  have open_ : emptyDisk.writable (cachePath env (bytes "/x")) = true := by decide
  have first : Undisturbed env f demoProxy [] { files := emptyDisk } again := by
    refine ⟨⟨rfl, fun sign hit => ?_⟩, by simp, by simp, fun _ d _ => ?_, fun cached => ?_⟩
    · cases (AList.lookup_empty _).symm.trans hit.present
    · rw [← FileTree.write_isSome emptyDisk _ d.raw] at open_
      obtain ⟨after, written⟩ := Option.isSome_iff_exists.mp open_
      rw [key]
      exact ⟨after, emptyDisk, by rw [noDirectories]; rfl, written⟩
    · exact absurd (uncached_empty _ _ _) cached
  have second : Undisturbed env f demoProxy [again] s again := by
    have found : ¬ Uncached demoProxy s again := fun absent => by cases present.symm.trans absent
    refine ⟨⟨rfl, fun other hit => ?_⟩, fun earlier mem _ _ => ?_, fun absent => absurd absent found,
      fun absent => absurd absent found, fun _ d kept => ?_⟩
    · obtain rfl := Option.some.inj (present.symm.trans hit.present)
      rw [hit.expired] at unexpired
      cases unexpired
    · rw [List.mem_singleton.mp mem]
    · obtain ⟨target, -, arrived, -⟩ := kept
      obtain ⟨d', arrived'⟩ := arrived_newAnswer
      obtain rfl := Delivery.response.inj (arrived.symm.trans arrived'.delivered)
      rw [Inert, arrived'.statusLine]
      decide
  obtain ⟨s₁, call, rest⟩ := Option.bind_eq_some_iff.mp after
  cases rest
  have run : LoggedRun (undisturbedStep env f demoProxy) { files := emptyDisk } [again] s :=
    .next .start ⟨first, 3, {}, call⟩
  exact ⟨s, once, cache_transparent (fixed_fixedWorld f) run second {}⟩

theorem index_answered_for_directory : ¬ ∀ (env : Environment) (f : Place → Answer)
    (handler : ProxyHandler) (files : FileTree Bytes Bytes) (log : List Request) (s : ProxyState)
    (request : Request) (response : Response), Fixed env f →
    LoggedRun (fun _ request s s' => FreshGet env handler s request ∧ Call env handler request s s')
      { files } log s →
    FreshGet env handler s request → Transparent env f handler request s log files response := by
  intro claim
  let f : Place → Answer := fun place =>
    if place.uri = bytes "/a/" then agedAnswer (bytes "1000") else newAnswer
  let env := fixedWorld f
  let directory := getProxy (bytes "/proxy1/a/")
  let index := getProxy (bytes "/proxy1/a/index")
  let key := requestKey demoProxy index
  have computed : (afterCalls env demoProxy 3 [directory] { files := emptyDisk }).any (fun s =>
      (s.cache.lookup (requestKey demoProxy index)).any
          (!·.expiration.expired (env.clock s.readings)) &&
        ((handleRequest env demoProxy 3 index {}).run s).value?.any (fun result =>
          bodyOf result.2.toBytes == bytes "a")) = true := by
    decide
  obtain ⟨s, after, test⟩ := Option.any_eq_true _ _ |>.mp computed
  rw [Bool.and_eq_true] at test
  obtain ⟨sign, present, unexpired⟩ := Option.any_eq_true _ _ |>.mp test.1
  obtain ⟨⟨status, response⟩, returned, body⟩ := Option.any_eq_true _ _ |>.mp test.2
  obtain ⟨s', ran⟩ := Outcome.exists_done_of_value returned
  obtain ⟨s₁, call, rest⟩ := Option.bind_eq_some_iff.mp after
  cases rest
  have first : FreshGet env demoProxy { files := emptyDisk } directory :=
    ⟨rfl, fun sign hit => by cases (AList.lookup_empty _).symm.trans hit.present⟩
  have second : FreshGet env demoProxy s index := by
    refine ⟨rfl, fun other hit => ?_⟩
    obtain rfl := Option.some.inj (present.symm.trans hit.present)
    rw [hit.expired] at unexpired
    cases unexpired
  have replies : Replies env demoProxy index {} s (replyOf status response) :=
    ⟨3, status, response, s', ran, rfl⟩
  have transparent := claim env f demoProxy emptyDisk [directory] s index {} (fixed_fixedWorld f)
    (.next .start ⟨first, 3, {}, call⟩) second
  obtain ⟨s₀, -, same⟩ := transparent.replies
  have gives := (same (replyOf status response)).2.mp replies
  have newPlace : f (firstPlace demoProxy index) = newAnswer := if_neg (by decide)
  obtain ⟨d, arrived⟩ := arrived_newAnswer
  rw [← newPlace] at arrived
  have new := body_of_gives arrived wellFormed_newResponse (by decide) gives
  have wrong : bytes "a" = bytes "b" := (beq_iff_eq.mp body).symm.trans new
  exact absurd wrong (by decide)

end TscServer.Proof
