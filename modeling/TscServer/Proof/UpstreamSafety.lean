import TscServer.Proof.ExchangeLoop
import TscServer.Proof.Revalidation
import TscServer.Proof.Storing

/-!
# No upstream bytes take the proxy down

A response makes `HandleRequest` throw when one of its header lines cannot be taken apart, and it
makes `UpdateCache` throw when it counts as a 304 and the second header loop fails on a line.
`survived_iff` says that these are the only ways.
-/

namespace TscServer.Proof
open Lib Model Spec ProxyHandler

-- the bytes of a whole answer, in any chunks and with any end
def Delivers (answer : Answer) (text : Bytes) : Prop :=
  ∃ chunks eof, answer = .stream chunks eof ∧ chunks.flatten = text

def plainText : Bytes := okStatus.toBytes ++ crlf ++ bytes "Content-Length: 0\r\n\r\n"

/-- Every contact is answered with the text or with a plain response, from some contact on with the
plain one. -/
structure Sends (env : Environment) (text : Bytes) : Prop where
  texts : ∀ n out, Delivers (env.upstream n out) text ∨ Delivers (env.upstream n out) plainText
  finally_plain : ∃ N, ∀ n ≥ N, ∀ out, Delivers (env.upstream n out) plainText

def Returns {α : Type} (x : ProxyProc α) (s : ProxyState) : Prop :=
  x.twp (fun _ _ => True) (fun f _ => f = .filesystemError) s

/-- The text does not take the proxy down: a request that goes to the upstream returns, and so does
a revalidation whose request goes to the upstream. -/
def Survived (text : Bytes) : Prop :=
  ∀ (env : Environment) (handler : ProxyHandler) (s : ProxyState), Sends env text →
    (∀ request response, Uncached handler s request →
      ∃ fuel, Returns (handleRequest env handler fuel request response) s) ∧
    ∀ uri path, Uncached handler { s with cache := s.cache.erase path } (handler.revalidation uri []) →
      ∃ fuel, Returns (updateCache env handler (handleRequest env handler fuel) uri path) s

/-- If the header block is complete, its lines can be taken apart, and where the status line contains
304 the second loop gets through them, too. -/
def SafeResponse (t : StatusText) (rest : Bytes) : Prop :=
  crlfcrlf <:+: rest →
    (∀ line ∈ headLines t.code rest, SafeLine t.code line) ∧
    (t.code ≠ 302 → contains (bytes "304") (t.toBytes ++ [13]) = true →
      RearmSafe ((headLines t.code rest).map List.dropLast))

/-! ## The lines of a response that was put together again -/

theorem rearmSafe_block {lines : List Bytes} (noFeed : ∀ line ∈ lines, 10 ∉ line) (after : Bytes) :
    RearmSafe ((getlines (block lines ++ crlf ++ after)).map Prod.fst) ↔ RearmSafe lines := by
  induction lines with
  | nil =>
      rw [getlines_blank]
      simp [RearmSafe]
  | cons line lines ih =>
      have others := ih fun other mem => noFeed other (List.mem_cons_of_mem line mem)
      rw [getlines_block (noFeed line (by simp)), List.map_cons, RearmSafe, RearmSafe, others]

def Quiet (response : Response) : Prop :=
  contains (bytes "304") (((getlines response.toBytes).head?.map Prod.fst).getD []) = true →
    RearmSafe ((getlines response.toBytes).tail.map Prod.fst)

theorem quiet_iff {d : Delivered} (oneLine : OneLine d) :
    Quiet (Response.setRawResponse {} d.raw) ↔
      (contains (bytes "304") d.statusLine = true → RearmSafe (d.lines.map List.dropLast)) := by
  rw [Quiet, toBytes_setRawResponse (raw_ne_nil d), getlines_raw oneLine]
  simp only [List.head?_cons, Option.map_some, Option.getD_some, List.tail_cons]
  rw [rearmSafe_block oneLine.dropLast]

/-! ## Safe answers -/

def Harmless (answer : Answer) : Prop :=
  delivery answer = .failed ∨
    ∃ d, delivery answer = .response d ∧ (∀ line ∈ d.lines, SafeLine d.code line) ∧
      (d.code ≠ 302 → Quiet (Response.setRawResponse {} d.raw))

theorem harmless_of_safe {t : StatusText} {rest : Bytes} (wf : t.WellFormed)
    (safe : SafeResponse t rest) {answer : Answer}
    (delivers : Delivers answer (t.toBytes ++ crlf ++ rest)) : Harmless answer := by
  obtain ⟨chunks, eof, rfl, text⟩ := delivers
  by_cases blank : crlfcrlf <:+: rest
  · obtain ⟨d, arrived, line, code, -, lines, -⟩ := delivery_text wf text blank eof
    obtain ⟨safeLines, rearm⟩ := safe blank
    refine .inr ⟨d, arrived, by rwa [lines, code], ?_⟩
    rw [quiet_iff (delivery_oneLine arrived), statusLine_of_toBytes line, code, lines]
    exact rearm
  · exact .inl (delivery_failed wf text blank eof)

theorem safeResponse_plain : SafeResponse okStatus (bytes "Content-Length: 0\r\n\r\n") := by
  have lines : headLines 200 (bytes "Content-Length: 0\r\n\r\n") = [bytes "Content-Length: 0\r"] := by
    decide
  refine fun _ => ⟨?_, fun _ counts => absurd counts (by decide)⟩
  rw [show okStatus.code = 200 from rfl, lines]
  intro line mem
  obtain rfl := List.mem_singleton.mp mem
  have noAge : ageValue 200 (bytes "Content-Length: 0") = none := by decide
  refine ⟨by decide, by decide, fun value age => ?_⟩
  cases noAge.symm.trans age

theorem plain_delivered {answer : Answer} (plain : Delivers answer plainText) :
    Harmless answer ∧ Final answer := by
  refine ⟨harmless_of_safe wellFormed_okStatus safeResponse_plain plain, fun d arrived => ?_⟩
  obtain ⟨chunks, eof, rfl, text⟩ := plain
  obtain ⟨d', arrived', -, code, -⟩ :=
    delivery_text wellFormed_okStatus text (by decide) eof
  obtain rfl := delivered_unique arrived arrived'
  rw [code]
  decide

/-! ## Runs on harmless answers -/

section Runs
variable {env : Environment} {handler : ProxyHandler} {request : Request} {s : ProxyState}
  {requestUri host port uri : Bytes}

-- the last response of the loop is one that `UpdateCache` can read
theorem roundDone_quiet {answer : Answer} (harmless : Harmless answer) {status : Status}
    {response : Response} {s' : ProxyState}
    (done : RoundDone env requestUri host port uri answer s s' (.finished status response))
    (ok : status = .ok) : Quiet response := by
  subst ok
  obtain ⟨d, arrived, final, -, rfl⟩ := roundDone_ok done
  rcases harmless with failed | ⟨d', arrived', -, quiet⟩
  · cases arrived.symm.trans failed
  · obtain rfl := delivered_unique arrived arrived'
    exact quiet final

theorem roundThrew_directory {answer : Answer} (harmless : Harmless answer) {f : Fault}
    {s' : ProxyState} (threw : RoundThrew env requestUri answer s s' f) : f = .filesystemError := by
  rcases harmless with failed | ⟨d, arrived, safe, -⟩
  · exact absurd threw (not_roundThrew_of_failed failed)
  · rcases roundThrew_delivered arrived threw with ⟨-, ⟨line, mem, bad⟩, -⟩ | ⟨directory, -⟩
    · exact absurd (safe line mem) bad
    · exact directory

theorem exchangeLoop_harmless {k fuel : Nat} (harmless : ∀ n out, Harmless (env.upstream n out))
    (final : ∀ out, Final (env.upstream (s.contacts.length + k) out)) (enough : k < fuel) :
    (exchangeLoop env request requestUri fuel host port uri).twp
      (fun result _ => result.1 = .ok → Quiet result.2) (fun f _ => f = .filesystemError) s := by
  refine Proc.twp_of_wp (exchangeLoop_returns final enough) (Proc.wp_mono (exchangeLoop_wp fuel) ?_ ?_)
  · intro result s' ended
    obtain ⟨mid, outs, out, -, done⟩ := ended
    exact roundDone_quiet (harmless _ _) done
  · intro f s' ended
    obtain ⟨mid, outs, out, -, threw⟩ := ended
    exact roundThrew_directory (harmless _ _) threw

theorem updateEntry_quiet (path : Bytes) {status : Status} {response : Response}
    (quiet : status = .ok → Quiet response) :
    Returns (updateEntry env path status response) s := by
  refine Proc.twp_of_wp (updateEntry_halts s) (Proc.wp_mono updateEntry_wp (fun _ _ _ => trivial) ?_)
  intro f s' threw
  exact absurd (quiet threw.ok threw.counts) threw.harmful

theorem updateEntry_loud {path : Bytes} {response : Response} (loud : ¬ Quiet response) :
    (updateEntry env path .ok response).wp (fun _ _ => False) (fun f _ => HeaderFault f) s := by
  obtain ⟨counts, harmful⟩ := Classical.not_imp.mp loud
  apply Proc.wp_mono updateEntry_wp _ (fun f s' threw => threw.fault)
  intro usable s' update
  cases update with
  | failed never => exact never rfl
  | other _ never => cases counts.symm.trans never
  | unusable _ _ read => exact harmful read.safe
  | rearmed _ _ read => exact harmful read.safe

end Runs

theorem survived_of_safe {t : StatusText} {rest : Bytes} (wf : t.WellFormed)
    (safe : SafeResponse t rest) : Survived (t.toBytes ++ crlf ++ rest) := by
  intro env handler s sends
  have harmless n out : Harmless (env.upstream n out) := by
    rcases sends.texts n out with text | plain
    · exact harmless_of_safe wf safe text
    · exact (plain_delivered plain).1
  obtain ⟨N, plain⟩ := sends.finally_plain
  have final n (late : N ≤ n) out : Final (env.upstream n out) :=
    (plain_delivered (plain n late out)).2
  have request_returns {s : ProxyState} {request : Request} (absent : Uncached handler s request)
      (response : Response) : (handleRequest env handler (N + 1) request response).twp
        (fun result _ => result.1 = .ok → Quiet result.2) (fun f _ => f = .filesystemError) s := by
    rw [Proc.twp_congr (handleRequest_uncached absent N response)]
    exact exchangeLoop_harmless harmless (final _ (Nat.le_add_left _ _)) (Nat.lt_succ_self N)
  constructor
  · intro request response absent
    refine ⟨N + 1, Proc.twp_mono (request_returns absent response) ?_ (fun _ _ directory => directory)⟩
    exact fun _ _ _ => trivial
  · intro uri path absent
    obtain ⟨eTag, ran⟩ := 
      updateCache_run env (s := s) handler (handleRequest env handler (N + 1)) uri path
    refine ⟨N + 1, ?_⟩
    rw [Returns, Proc.twp_congr ran, Proc.twp_bind]
    have absent' : Uncached handler { s with cache := s.cache.erase path }
        (handler.revalidation uri eTag) := absent
    apply Proc.twp_mono (request_returns absent' {}) _ (fun _ _ directory => directory)
    exact fun result s' quiet => updateEntry_quiet path quiet

/-! ## Texts that do harm -/

-- the text is the answer to the first contact
def onceThenPlain (text : Bytes) : Environment :=
  { scripted [] with
    upstream := fun n _ => if n = 0 then .stream [text] true else .stream [plainText] true }

theorem sends_onceThenPlain (text : Bytes) : Sends (onceThenPlain text) text where
  texts n out := by
    by_cases first : n = 0
    · exact .inl ⟨_, _, if_pos first, by simp⟩
    · exact .inr ⟨_, _, if_neg first, by simp⟩
  finally_plain := ⟨1, fun n late out => ⟨_, _, if_neg (by omega), by simp⟩⟩

theorem not_returns_of_fault {α : Type} {x : ProxyProc α} {s : ProxyState}
    (faulty : x.wp (fun _ _ => False) (fun f _ => HeaderFault f) s) : ¬ Returns x s := by
  intro returns
  have both := Proc.twp_and_wp returns faulty
  unfold Proc.twp at both
  cases ran : x.run s with
  | done a s' =>
      rw [ran] at both
      exact both.2
  | threw f s' =>
      rw [ran] at both
      obtain ⟨rfl, fault⟩ := both
      exact absurd fault (by simp [HeaderFault])
  | running => rwa [ran] at both

section Harm
variable {t : StatusText} {rest : Bytes}

-- the first round on a disk where no directory is missing
theorem onceThenPlain_round (wf : t.WellFormed) (blank : crlfcrlf <:+: rest) {s : ProxyState}
    (first : s.contacts = []) (disk : s.files = fullDisk) (request : Request)
    (requestUri host port uri : Bytes) :
    ∃ d : Delivered, OneLine d ∧ d.statusLine = t.toBytes ++ [13] ∧ d.code = t.code ∧
      d.eof = true ∧ d.lines = headLines t.code rest ∧
      (exchange (onceThenPlain (t.toBytes ++ crlf ++ rest)) request requestUri host port uri).wp
        (fun round _ => (∀ line ∈ d.lines, SafeLine d.code line) ∧ round = d.round host port uri)
        (fun f _ => HeaderFault f ∧ ∃ line ∈ d.lines, ¬ SafeLine d.code line) s := by
  have text : [t.toBytes ++ crlf ++ rest].flatten = t.toBytes ++ crlf ++ rest := by simp
  obtain ⟨d, arrived, line, code, eof, lines, -⟩ := delivery_text wf text blank true
  refine ⟨d, delivery_oneLine arrived, statusLine_of_toBytes line, code, eof, lines, ?_⟩
  have answers out : (onceThenPlain (t.toBytes ++ crlf ++ rest)).upstream s.contacts.length out =
      .stream [t.toBytes ++ crlf ++ rest] true := by
    rw [first]
    rfl
  apply Proc.wp_mono (exchange_wp request requestUri host port uri rfl (answers _))
  · intro round s' done
    obtain ⟨safe, same, -⟩ := roundDone_delivered arrived done
    exact ⟨safe, same⟩
  · intro f s' threw
    rcases roundThrew_delivered arrived threw with ⟨fault, bad, -⟩ | ⟨-, -, -, blocked, -⟩
    · exact ⟨fault, bad⟩
    · rw [disk, makeDirectories_fullDisk] at blocked
      cases blocked

theorem safe_of_survived (wf : t.WellFormed) (survived : Survived (t.toBytes ++ crlf ++ rest)) :
    SafeResponse t rest := by
  intro blank
  let env := onceThenPlain (t.toBytes ++ crlf ++ rest)
  let start : ProxyState := { files := fullDisk }
  obtain ⟨requests, updates⟩ := survived env demoProxy start (sends_onceThenPlain _)
  have round {s : ProxyState} (first : s.contacts = []) (disk : s.files = fullDisk)
      (request : Request) (uri : Bytes) :=
    onceThenPlain_round wf blank first disk request uri demoProxy.serverHost demoProxy.serverPort uri
  have safeLines : ∀ line ∈ headLines t.code rest, SafeLine t.code line := by
    by_contra harmful
    obtain ⟨fuel, returns⟩ := requests {} {} (uncached_empty _ _ _)
    cases fuel with
    | zero => exact returns
    | succ fuel =>
        rw [Returns, Proc.twp_congr (handleRequest_uncached (uncached_empty _ _ _) fuel {})] at returns
        apply not_returns_of_fault _ returns
        obtain ⟨d, -, -, code, -, lines, round⟩ := round (s := start) rfl rfl {}
          (stripPrefix demoProxy.uriPrefix [])
        rw [exchangeLoop, Proc.wp_bind]
        apply Proc.wp_mono round _ (fun f s' threw => threw.1)
        intro result s' ended
        obtain ⟨safe, -⟩ := ended
        rw [lines, code] at safe
        exact absurd safe harmful
  refine ⟨safeLines, fun final counts => ?_⟩
  by_contra harmful
  obtain ⟨fuel, returns⟩ := updates (bytes "/") (bytes "/index") (uncached_empty _ _ _)
  obtain ⟨eTag, ran⟩ := updateCache_run env (s := start) demoProxy (handleRequest env demoProxy fuel)
    (bytes "/") (bytes "/index")
  rw [Returns, Proc.twp_congr ran] at returns
  apply not_returns_of_fault _ returns
  rw [Proc.wp_bind]
  cases fuel with
  | zero => trivial
  | succ fuel =>
      have absent : Uncached demoProxy { start with cache := start.cache.erase (bytes "/index") }
          (demoProxy.revalidation (bytes "/") eTag) := AList.lookup_empty _
      rw [Proc.wp_congr (handleRequest_uncached absent fuel {}), exchangeLoop, Proc.wp_bind]
      obtain ⟨d, oneLine, line, code, eof, lines, round⟩ := round
        (s := { start with cache := start.cache.erase (bytes "/index") }) rfl rfl
        (demoProxy.revalidation (bytes "/") eTag) (bytes "/")
      apply Proc.wp_mono round _ (fun f s' threw => threw.1)
      intro result s' ended
      obtain ⟨-, rfl⟩ := ended
      rw [Delivered.round, if_neg (by rwa [code]), eof]
      refine updateEntry_loud fun quiet => ?_
      rw [quiet_iff oneLine, line, lines] at quiet
      exact harmful (quiet counts)

end Harm

/-- A response does no harm exactly when its lines can be taken apart, by both loops. -/
theorem survived_iff {t : StatusText} {rest : Bytes} (wf : t.WellFormed) :
    Survived (t.toBytes ++ crlf ++ rest) ↔ SafeResponse t rest :=
  ⟨safe_of_survived wf, survived_of_safe wf⟩

theorem survived_plain : Survived (okStatus.toBytes ++ crlf ++ bytes "Content-Length: 0\r\n\r\n") :=
  (survived_iff wellFormed_okStatus).mpr safeResponse_plain

theorem empty_value_not_survived : ¬ ∀ (t : StatusText) (rest : Bytes), t.WellFormed →
    crlfcrlf <:+: t.toBytes ++ crlf ++ rest → Survived (t.toBytes ++ crlf ++ rest) := by
  intro claim
  have complete : crlfcrlf <:+: bytes "Foo:\r\n\r\n" := by decide
  have safe := safe_of_survived wellFormed_okStatus
    (claim okStatus (bytes "Foo:\r\n\r\n") wellFormed_okStatus (by decide))
  have line := (safe complete).1 (bytes "Foo:\r") (by decide)
  exact absurd line.2.1 (by decide)

end TscServer.Proof
