import TscServer.Proof.RedirectBound
import TscServer.Proof.SameResource

/-!
# Nested calls

`UpdateCache` removes an entry before it calls `HandleRequest`, so the calls nest at most one deeper than
there are entries, whatever stands in the place of the next call. They come to an end as long as the
redirects do and the file of every entry can be opened.
-/

namespace TscServer.Proof
open Lib Model Spec ProxyHandler

/-! ## One call -/

section Through
variable {env : Environment} {handler : ProxyHandler} {request : Request} {s : ProxyState}
  {inner : Inner} {sign : CacheSign}

theorem callThrough_fresh (hit : Hit env handler request s sign false) (rounds : Nat)
    (response : Response) :
    (callThrough env handler rounds inner request response).run s =
      (serveFile env (requestKey handler request) response >>= fun served =>
        pure (.ok, served)).run (clockRead s) := by
  rw [callThrough_hit hit rounds response]
  rfl

-- what is left to do after the nested call
def afterNested (env : Environment) (handler : ProxyHandler) (rounds : Nat) (request : Request)
    (response : Response) (answer : Status × Response) : ProxyProc (Status × Response) :=
  updateEntry env (requestKey handler request) answer.1 answer.2 >>= fun usable =>
    if usable then serveFile env (requestKey handler request) response >>= fun served =>
      pure (.ok, served)
    else exchangeLoop env request (requestUri handler request) rounds handler.serverHost
      handler.serverPort (requestUri handler request)

theorem callThrough_expired (hit : Hit env handler request s sign true) (rounds : Nat)
    (response : Response) :
    (callThrough env handler rounds inner request response).run s =
      (inner (handler.revalidation (requestUri handler request) sign.eTag) {} >>=
        afterNested env handler rounds request response).run
        (withoutEntry s (requestKey handler request)) := by
  have present : (clockRead s).cache.lookup (requestKey handler request) = some sign := hit.present
  have update := updateCache_present env present handler inner (requestUri handler request)
  rw [callThrough_hit hit rounds response, if_pos rfl, Proc.run_bind, update, ← Proc.run_bind,
    Proc.bind_assoc]
  rfl

theorem length_withoutEntry (hit : Hit env handler request s sign true) :
    (withoutEntry s (requestKey handler request)).cache.keys.length + 1 = s.cache.keys.length := by
  have mem : requestKey handler request ∈ s.cache.keys := by
    rw [← AList.mem_keys, ← AList.lookup_isSome, hit.present]
    rfl
  have some_ := List.length_pos_of_mem mem
  have fewer := @List.length_erase_of_mem _ instBEqOfDecidableEq _ _ _ mem
  rw [withoutEntry, AList.keys_erase, fewer]
  omega

end Through

/-! ## The depth of the calls -/

section Depth
variable (env : Environment) (handler : ProxyHandler)

def nestedCalls (rounds : Nat → Nat) : Nat → Inner → Inner
  | 0, bottom => bottom
  | depth + 1, bottom => callThrough env handler (rounds depth) (nestedCalls rounds depth bottom)

theorem handleRequest_eq_nestedCalls (fuel depth : Nat) :
    handleRequest env handler (fuel + depth) =
      nestedCalls env handler (fun level => fuel + level + 1) depth (handleRequest env handler fuel) := by
  induction depth with
  | zero => rfl
  | succ depth ih =>
      rw [← Nat.add_assoc, handleRequest_succ, ih]
      rfl

def NestsWithin (depth : Nat) (request : Request) (response : Response) (s : ProxyState) : Prop :=
  ∀ fuel bottom, (handleRequest env handler (fuel + depth) request response).run s =
    (nestedCalls env handler (fun level => fuel + level + 1) depth bottom request response).run s

variable {env handler}

/-- With fewer entries than calls the bottom is not reached, by induction on the calls. -/
theorem nestedCalls_bottom {depth : Nat} {request : Request} {response : Response} {s : ProxyState}
    (few : s.cache.keys.length < depth) (rounds : Nat → Nat) (bottom bottom' : Inner) :
    (nestedCalls env handler rounds depth bottom request response).run s =
      (nestedCalls env handler rounds depth bottom' request response).run s := by
  induction depth generalizing request response s with
  | zero => exact absurd few (Nat.not_lt_zero _)
  | succ depth ih =>
      rw [nestedCalls, nestedCalls]
      cases present : s.cache.lookup (requestKey handler request) with
      | none => rw [callThrough_uncached present, callThrough_uncached present]
      | some sign =>
          cases expired : sign.expiration.expired (env.clock s.readings) with
          | false =>
              have hit : Hit env handler request s sign false := ⟨present, expired⟩
              rw [callThrough_fresh hit, callThrough_fresh hit]
          | true =>
              have hit : Hit env handler request s sign true := ⟨present, expired⟩
              have fewer := length_withoutEntry hit
              rw [callThrough_expired hit, callThrough_expired hit, Proc.run_bind, Proc.run_bind,
                ih (by omega)]

theorem nestsWithin (request : Request) (response : Response) (s : ProxyState) :
    NestsWithin env handler (s.cache.keys.length + 1) request response s := by
  intro fuel bottom
  rw [handleRequest_eq_nestedCalls]
  exact nestedCalls_bottom (Nat.lt_succ_self _) _ _ _

end Depth

/-! ## Enough fuel -/

section Fuel
variable {env : Environment} {handler : ProxyHandler} {request : Request} {s : ProxyState}

def Stabilises {α : Type} (run : Nat → Outcome Fault ProxyState α) : Prop :=
  ∃ outcome bound, outcome ≠ .running ∧ ∀ fuel, bound < fuel → run fuel = outcome

theorem exchangeLoop_succ {requestUri host port uri : Bytes} {fuel : Nat}
    (ended : (exchangeLoop env request requestUri fuel host port uri).run s ≠ .running) :
    (exchangeLoop env request requestUri (fuel + 1) host port uri).run s =
      (exchangeLoop env request requestUri fuel host port uri).run s := by
  induction fuel generalizing host port uri s with
  | zero => exact absurd rfl ended
  | succ fuel ih =>
      rw [exchangeLoop, Proc.run_bind] at ended
      rw [exchangeLoop, Proc.run_bind]
      conv_rhs => rw [exchangeLoop, Proc.run_bind]
      cases ran : (exchange env request requestUri host port uri).run s with
      | running => rfl
      | threw f s' => rfl
      | done round s' =>
          rw [ran] at ended
          cases round with
          | finished status response => rfl
          | redirected host' port' uri' => exact ih ended

theorem Stabilises.const {α : Type} {outcome : Outcome Fault ProxyState α} (ended : outcome ≠ .running) :
    Stabilises fun _ => outcome := ⟨outcome, 0, ended, fun _ _ => rfl⟩

theorem Stabilises.of_succ {α : Type} {run : Nat → Outcome Fault ProxyState α}
    (ends : Stabilises fun fuel => run (fuel + 1)) : Stabilises run := by
  obtain ⟨outcome, bound, ended, same⟩ := ends
  refine ⟨outcome, bound + 1, ended, fun fuel enough => ?_⟩
  obtain ⟨fuel, rfl⟩ := Nat.exists_eq_succ_of_ne_zero (Nat.ne_of_gt (Nat.zero_lt_of_lt enough))
  exact same fuel (Nat.lt_of_succ_lt_succ enough)

theorem Stabilises.succ {α : Type} {run : Nat → Outcome Fault ProxyState α} (ends : Stabilises run) :
    Stabilises fun fuel => run (fuel + 1) := by
  obtain ⟨outcome, bound, ended, same⟩ := ends
  exact ⟨outcome, bound, ended, fun fuel enough => same (fuel + 1) (Nat.lt_succ_of_lt enough)⟩

theorem Stabilises.bind {α β : Type} {x : Nat → ProxyProc α} {f : Nat → α → ProxyProc β}
    (first : Stabilises fun fuel => (x fuel).run s)
    (second : ∀ a s', (∃ fuel, (x fuel).run s = .done a s') → Stabilises fun fuel => (f fuel a).run s') :
    Stabilises fun fuel => (x fuel >>= f fuel).run s := by
  obtain ⟨outcome, bound, ended, same⟩ := first
  cases outcome with
  | running => exact absurd rfl ended
  | threw e s' =>
      refine ⟨.threw e s', bound, by simp, fun fuel enough => ?_⟩
      exact Proc.run_bind_of_threw (same fuel enough)
  | done a s' =>
      obtain ⟨outcome', bound', ended', same'⟩ := second a s' ⟨_, same _ (Nat.lt_succ_self bound)⟩
      refine ⟨outcome', max bound bound', ended', fun fuel enough => ?_⟩
      have first := same fuel (lt_of_le_of_lt (le_max_left _ _) enough)
      exact (Proc.run_bind_of_done first).trans (same' fuel (lt_of_le_of_lt (le_max_right _ _) enough))

theorem loop_ends (halts : LoopHalts env handler request s) :
    Stabilises fun fuel => (exchangeLoop env request (requestUri handler request) fuel handler.serverHost
      handler.serverPort (requestUri handler request)).run s := by
  obtain ⟨bound, halts⟩ := halts
  refine ⟨_, bound, halts (bound + 1) (Nat.lt_succ_self bound), fun fuel enough => ?_⟩
  obtain ⟨more, rfl⟩ := Nat.exists_eq_add_of_lt enough
  induction more with
  | zero => rfl
  | succ more ih =>
      rw [← ih (by omega)]
      exact exchangeLoop_succ (halts _ (by omega))

end Fuel

/-! ## Files that can be opened -/

def KeepsFiles (before after : FileTree Bytes Bytes) : Prop :=
  ∀ path, (before.read path).isSome → (after.read path).isSome

theorem KeepsFiles.refl (files : FileTree Bytes Bytes) : KeepsFiles files files := fun _ opens => opens

theorem KeepsFiles.of_same {before after : FileTree Bytes Bytes} (same : after = before) :
    KeepsFiles before after := same ▸ KeepsFiles.refl before

theorem KeepsFiles.trans {a b c : FileTree Bytes Bytes} (first : KeepsFiles a b) (second : KeepsFiles b c) :
    KeepsFiles a c := fun path opens => second path (first path opens)

section Keeps
variable {env : Environment} {handler : ProxyHandler} {request : Request} {s s' : ProxyState}

theorem keepsFiles_write {before after : FileTree Bytes Bytes} {path : List (Component Bytes)}
    {content : Bytes} (written : before.write path content = some after) : KeepsFiles before after := by
  intro other opens
  rw [FileTree.read_write written]
  split
  · rfl
  · exact opens

theorem keepsFiles_stored {uri : Bytes} {sign : CacheSign} {content : Bytes}
    (stored : Stored env uri sign content s s') : KeepsFiles s.files s'.files := by
  obtain ⟨made, directories, files⟩ := stored.files
  have first : KeepsFiles s.files made := by
    intro path opens
    obtain ⟨content, present⟩ := Option.isSome_iff_exists.mp opens
    rw [read_makeDirectories directories present]
    rfl
  rw [files]
  cases written : made.write (cachePath env (cacheKey uri)) content with
  | none => exact first
  | some after => exact first.trans (keepsFiles_write written)

theorem keepsFiles_sends {status : Status} {response : Response}
    (sends : SendsDone env handler request s status response s') : KeepsFiles s.files s'.files := by
  obtain ⟨mid, outs, out, ends, done⟩ := sends
  have approach : KeepsFiles s.files (contacted mid out).files := .of_same ends.approach.files
  apply approach.trans
  cases done with
  | failed failed same => exact .of_same (by rw [same])
  | plain arrived safe notCached ticked same => exact .of_same (by rw [ticked])
  | cached arrived safe caches ticked granted stored =>
      exact (KeepsFiles.of_same (by rw [ticked])).trans (keepsFiles_stored stored)

/-- By induction on the nested calls. -/
theorem keepsFiles_callDone {status : Status} {response : Response}
    (done : CallDone env handler request s status response s') : KeepsFiles s.files s'.files := by
  induction done with
  | miss _ sends => exact keepsFiles_sends sends
  | hit _ _ serves => exact .of_same serves.1.files
  | revalidated _ _ update _ serves ih =>
      exact ih.trans (.of_same (serves.1.files.trans (entryUpdate_files update)))
  | refetched _ _ update sends ih =>
      exact (ih.trans (.of_same (entryUpdate_files update))).trans (keepsFiles_sends sends)

end Keeps

/-! ## The end of the calls -/

def FiniteRedirects (env : Environment) : Prop :=
  ∀ request n place, ∃ m target, Leads env request n place m target ∧
    ¬ Redirects (answerAt env request m target)

def EntriesOpen (env : Environment) (s : ProxyState) : Prop :=
  ∀ uri, uri.head? = some 47 → cacheKey uri ∈ s.cache →
    (s.files.read (cachePath env (cacheKey uri))).isSome

theorem head_requestUri (handler : ProxyHandler) (request : Request) :
    (requestUri handler request).head? = some 47 := by
  have slash (rest : Bytes) : (withSlash rest).head? = some 47 := by
    obtain ⟨tail, split⟩ := withSlash_eq_cons rest
    rw [split, List.head?_cons]
  rw [requestUri]
  cases found : find handler.uriPrefix request.uri with
  | none =>
      have whole : stripPrefix handler.uriPrefix request.uri = withSlash request.uri := by
        rw [stripPrefix, found]
        rfl
      rw [whole, slash]
  | some i => rw [stripPrefix_of_occurs found, slash]

section Stabilises
variable {env : Environment} {handler : ProxyHandler}

theorem loopHalts_of_finite (finite : FiniteRedirects env) (request : Request) (s : ProxyState) :
    LoopHalts env handler request s := by
  obtain ⟨m, target, leads, final⟩ := finite request s.contacts.length (firstPlace handler request)
  exact halts_of_leadsTo ⟨m, target, leads, rfl⟩ final

theorem serveFile_ends {path : Bytes} {s : ProxyState} (opens : (s.files.read (cachePath env path)).isSome)
    (response : Response) :
    (serveFile env path response >>= fun served => pure (Status.ok, served)).run s ≠ .running := by
  obtain ⟨content, readable⟩ := Option.isSome_iff_exists.mp opens
  obtain ⟨served, s', ran, -⟩ := Proc.done_of_twp (serveFile_twp readable response)
  rw [Proc.run_bind_of_done ran]
  exact fun running => by cases running

theorem afterNested_ends (finite : FiniteRedirects env) {request : Request} {s : ProxyState}
    (opens : (s.files.read (cachePath env (requestKey handler request))).isSome) (response : Response)
    (answer : Status × Response) :
    Stabilises fun fuel => (afterNested env handler fuel request response answer).run s := by
  refine Stabilises.bind (.const (updateEntry_halts s)) fun usable s' ran => ?_
  obtain ⟨-, ran⟩ := ran
  cases usable with
  | true =>
      have files := entryUpdate_files (Proc.wp_done updateEntry_wp ran)
      exact .const (serveFile_ends (files ▸ opens) response)
  | false => exact loop_ends (loopHalts_of_finite finite request s')

/-- By induction on the number of entries. -/
theorem handleRequest_ends (finite : FiniteRedirects env) {n : Nat} {request : Request}
    {response : Response} {s : ProxyState} (few : s.cache.keys.length ≤ n) (opens : EntriesOpen env s) :
    Stabilises fun fuel => (handleRequest env handler fuel request response).run s := by
  apply Stabilises.of_succ
  simp only [handleRequest_succ]
  cases present : s.cache.lookup (requestKey handler request) with
  | none =>
      simp only [callThrough_uncached present]
      exact (loop_ends (loopHalts_of_finite finite request s)).succ
  | some sign =>
      have own : (s.files.read (cachePath env (requestKey handler request))).isSome := by
        apply opens _ (head_requestUri handler request)
        rw [← AList.lookup_isSome]
        exact Option.isSome_of_eq_some present
      cases expired : sign.expiration.expired (env.clock s.readings) with
      | false =>
          have hit : Hit env handler request s sign false := ⟨present, expired⟩
          simp only [callThrough_fresh hit]
          exact .const (serveFile_ends (s := clockRead s) own response)
      | true =>
          have hit : Hit env handler request s sign true := ⟨present, expired⟩
          have fewer := length_withoutEntry hit
          simp only [callThrough_expired hit]
          cases n with
          | zero => omega
          | succ n =>
              have others : EntriesOpen env (withoutEntry s (requestKey handler request)) := by
                intro uri slash mem
                exact opens uri slash (AList.mem_erase.mp mem).2
              refine Stabilises.bind (handleRequest_ends finite (n := n) (by omega) others) fun answer mid ran => ?_
              obtain ⟨fuel, ran⟩ := ran
              have done := Proc.wp_done (handleRequest_wp fuel {}) ran
              have keeps := keepsFiles_callDone done
              exact (afterNested_ends finite (keeps _ own) response answer).succ

end Stabilises

/-! ## A file that cannot be opened -/

def okAnswer : Answer := .stream [bytes "HTTP/1.1 200 OK\r\nA: b\r\n\r\n"] true

structure Confirming (d : Delivered) : Prop where
  final : d.code ≠ 302
  safe : ∀ line ∈ d.lines, SafeLine d.code line
  notCached : ¬ Caches d
  complete : d.eof = true
  not304 : contains (bytes "304") (statusLineOf d.raw) = false
  is200 : contains (bytes "200") (statusLineOf d.raw) = true

theorem exists_okAnswer : ∃ d, delivery okAnswer = .response d ∧ Confirming d := by
  have computed : (responseOf (delivery okAnswer)).any (fun d => d.code != 302 && d.eof &&
      (d.lines.all fun line => line != [] && (headerValue line.dropLast).isSome &&
        (ageValue d.code line.dropLast).isNone) &&
      !contains (bytes "304") (statusLineOf d.raw) && contains (bytes "200") (statusLineOf d.raw)) = true := by
    decide
  obtain ⟨d, arrived, test⟩ := Option.any_eq_true _ _ |>.mp computed
  simp only [Bool.and_eq_true, bne_iff_ne, List.all_eq_true, Option.isNone_iff_eq_none,
    Bool.not_eq_true'] at test
  obtain ⟨⟨⟨⟨final, complete⟩, lines⟩, not304⟩, is200⟩ := test
  have noAge {line value : Bytes} (mem : line ∈ d.lines) : value ∉ ageValue d.code line.dropLast := by
    rw [(lines line mem).2]
    exact fun never => by cases never
  refine ⟨d, delivery_eq arrived, final, fun line mem => ?_, ?_, complete, not304, is200⟩
  · exact ⟨(lines line mem).1.1, (lines line mem).1.2, fun value age => absurd age (noAge mem)⟩
  · rintro ⟨-, line, mem, life, -, value, age, -⟩
    exact noAge mem age

section Unreadable
variable {env : Environment} {handler : ProxyHandler} {request : Request} {s s' : ProxyState}
  {d : Delivered}

theorem sends_confirming (answers : ∀ n out, delivery (env.upstream n out) = .response d)
    (confirms : Confirming d) {status : Status} {response : Response}
    (sends : SendsDone env handler request s status response s') :
    status = .ok ∧ response = Response.setRawResponse {} d.raw ∧ s'.files = s.files := by
  obtain ⟨mid, outs, out, ends, done⟩ := sends
  obtain ⟨-, same, stored⟩ := roundDone_delivered (answers _ out) done
  rw [Delivered.round, if_neg confirms.final, confirms.complete] at same
  obtain ⟨rfl, rfl⟩ := Round.finished.inj same
  rcases stored with ⟨-, k, ticked⟩ | ⟨caches, -⟩
  · refine ⟨rfl, rfl, ?_⟩
    rw [ticked]
    exact ends.approach.files
  · exact absurd caches confirms.notCached

theorem not_sendsThrew (answers : ∀ n out, delivery (env.upstream n out) = .response d)
    (confirms : Confirming d) {f : Fault} : ¬ SendsThrew env handler request s f s' := by
  rintro ⟨mid, outs, out, ends, threw⟩
  rcases roundThrew_delivered (answers _ out) threw with ⟨-, ⟨line, mem, bad⟩, -⟩ | ⟨-, -, caches, -⟩
  · exact bad (confirms.safe line mem)
  · exact confirms.notCached caches

theorem confirms_entry (confirms : Confirming d) {path : Bytes} {usable : Bool}
    (update : EntryUpdate env path .ok (Response.setRawResponse {} d.raw) s usable s') : usable = true := by
  have text : (Response.setRawResponse {} d.raw).toBytes = d.raw := toBytes_setRawResponse (raw_ne_nil d)
  cases update with
  | failed bad => exact absurd rfl bad
  | other =>
      rw [text]
      exact confirms.is200
  | unusable _ counts =>
      rw [text, confirms.not304] at counts
      cases counts
  | rearmed => rfl

theorem not_call_of_unreadable (answers : ∀ n out, delivery (env.upstream n out) = .response d)
    (confirms : Confirming d)
    (fixed : stripPrefix handler.uriPrefix (requestUri handler request) = requestUri handler request)
    (present : requestKey handler request ∈ s.cache)
    (unreadable : s.files.read (cachePath env (requestKey handler request)) = none) :
    ¬ Call env handler request s s' := by
  have found : ¬ s.cache.lookup (requestKey handler request) = none := by
    rw [AList.lookup_eq_none]
    exact not_not.mpr present
  have absent (eTag : Bytes) : Uncached handler (withoutEntry s (requestKey handler request))
      (handler.revalidation (requestUri handler request) eTag) := uncached_again fixed
  intro call
  rcases call_cases call with ⟨status, response, done⟩ | ⟨f, threw⟩
  · cases done with
    | miss none => exact found none
    | hit _ readable => cases unreadable.symm.trans readable
    | revalidated _ inner update readable =>
        obtain ⟨-, -, files⟩ := sends_confirming answers confirms (callDone_uncached (absent _) inner)
        rw [entryUpdate_files update, files] at readable
        cases unreadable.symm.trans readable
    | refetched _ inner update =>
        obtain ⟨rfl, rfl, -⟩ := sends_confirming answers confirms (callDone_uncached (absent _) inner)
        cases confirms_entry confirms update
  · cases threw with
    | miss none => exact found none
    | revalidating _ inner => exact not_sendsThrew answers confirms (callThrew_uncached (absent _) inner)
    | updating _ inner threw =>
        obtain ⟨rfl, rfl, -⟩ := sends_confirming answers confirms (callDone_uncached (absent _) inner)
        have counts := threw.counts
        rw [toBytes_setRawResponse (raw_ne_nil d), confirms.not304] at counts
        cases counts
    | refetching _ inner update =>
        obtain ⟨rfl, rfl, -⟩ := sends_confirming answers confirms (callDone_uncached (absent _) inner)
        cases confirms_entry confirms update

end Unreadable

/-! ## All calls -/

def Terminates (env : Environment) (handler : ProxyHandler) (request : Request) (response : Response)
    (s : ProxyState) : Prop :=
  ∃ bound, ∀ fuel, bound < fuel → (handleRequest env handler fuel request response).run s ≠ .running

-- the calls end, and no more of them are nested than there are entries and one
def Bounded (env : Environment) (handler : ProxyHandler) (request : Request) (response : Response)
    (s : ProxyState) : Prop :=
  NestsWithin env handler (s.cache.keys.length + 1) request response s ∧
    Terminates env handler request response s

theorem finiteRedirects_of_constant {env : Environment} {d : Delivered}
    (answers : ∀ n out, delivery (env.upstream n out) = .response d) (final : d.code ≠ 302) :
    FiniteRedirects env := by
  intro request n place
  refine ⟨n, place, .here, ?_⟩
  rintro ⟨other, arrived, redirect, -⟩
  rw [answerAt] at arrived
  obtain rfl := delivered_unique (answers _ _) arrived
  exact final redirect

theorem not_terminates_of_closed (env : Environment) {s : ProxyState} {uri : Bytes}
    (slash : uri.head? = some 47) (mem : cacheKey uri ∈ s.cache)
    (unreadable : s.files.read (cachePath env (cacheKey uri)) = none) :
    ∃ env' handler request, env'.cacheDir = env.cacheDir ∧ FiniteRedirects env' ∧
      ¬ Terminates env' handler request {} s := by
  obtain ⟨d, arrived, confirms⟩ := exists_okAnswer
  let env' : Environment := { always okAnswer with cacheDir := env.cacheDir }
  have answers (n : Nat) (out : Outgoing) : delivery (env'.upstream n out) = .response d := arrived
  let handler : ProxyHandler := { uriPrefix := [], serverHost := bytes "a", serverPort := bytes "80" }
  have asked : requestUri handler (getProxy uri) = uri := by
    have own : withSlash uri = uri := if_pos slash
    have whole : stripPrefix [] ([] ++ uri) = withSlash uri := stripPrefix_append [] uri
    exact whole.trans own
  have fixed : stripPrefix handler.uriPrefix (requestUri handler (getProxy uri)) =
      requestUri handler (getProxy uri) := by
    rw [asked]
    exact asked
  have key : requestKey handler (getProxy uri) = cacheKey uri := congrArg cacheKey asked
  have places : cachePath env' = cachePath env := cachePath_congr rfl
  refine ⟨env', handler, getProxy uri, rfl, finiteRedirects_of_constant answers confirms.final, ?_⟩
  rintro ⟨bound, ends⟩
  obtain ⟨s', ended⟩ := Outcome.exists_state_of_ne_running (ends (bound + 1) (Nat.lt_succ_self bound))
  refine not_call_of_unreadable answers confirms fixed (key ▸ mem) ?_ ⟨bound + 1, {}, ended⟩
  rw [key, places]
  exact unreadable

/-- Whatever the clock, the prefix, the request and the upstream, as long as redirects come to an end:
the calls end exactly when every entry that can be asked for has its file. -/
theorem bounded_iff (env : Environment) (s : ProxyState) :
    (∀ env' handler request response, env'.cacheDir = env.cacheDir → FiniteRedirects env' →
      Bounded env' handler request response s) ↔ EntriesOpen env s := by
  constructor
  · intro bounded uri slash mem
    by_contra closed
    have unreadable : s.files.read (cachePath env (cacheKey uri)) = none := by simpa using closed
    obtain ⟨env', handler, request, sameDir, finite, endless⟩ :=
      not_terminates_of_closed env slash mem unreadable
    exact endless (bounded env' handler request {} sameDir finite).2
  · intro opens env' handler request response sameDir finite
    have opens' : EntriesOpen env' s := by
      rw [EntriesOpen, cachePath_congr sameDir]
      exact opens
    have ends : Stabilises fun fuel => (handleRequest env' handler fuel request response).run s :=
      handleRequest_ends finite le_rfl opens'
    obtain ⟨outcome, bound, ended, same⟩ := ends
    refine ⟨nestsWithin request response s, bound, fun fuel enough running => ended ?_⟩
    exact (same fuel enough).symm.trans running

theorem not_bounded : ¬ ∀ env handler request response s, FiniteRedirects env →
    Bounded env handler request response s := by
  intro claim
  have unreadable : (expiredEntry (bytes "/a")).files.read
      (cachePath (scripted []) (cacheKey (bytes "/a"))) = none := by decide
  have mem : cacheKey (bytes "/a") ∈ (expiredEntry (bytes "/a")).cache := by
    rw [expiredEntry, AList.mem_insert]
    exact .inl rfl
  obtain ⟨env, handler, request, -, finite, endless⟩ := not_terminates_of_closed (scripted []) rfl mem unreadable
  exact endless (claim env handler request {} _ finite).2

end TscServer.Proof
