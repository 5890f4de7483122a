import TscServer.Proof.UpstreamSafety

/-!
# The body after a revalidation

`UpdateCache` takes it for granted that a response with status 200 is in the cache file already, but
the file is written only if the response grants an age. `newBody_iff` says when the body of the new
response is returned.
-/

namespace TscServer.Proof
open Lib Model Spec ProxyHandler

/-! ## The new response -/

theorem rearms_block {lines : List Bytes} (noFeed : ∀ line ∈ lines, 10 ∉ line) (after : Bytes) :
    Rearms ((getlines (block lines ++ crlf ++ after)).map Prod.fst) ↔ Rearms lines := by
  induction lines with
  | nil =>
      rw [getlines_blank]
      simp [Rearms]
  | cons line lines ih =>
      have others := ih fun other mem => noFeed other (List.mem_cons_of_mem line mem)
      rw [getlines_block (noFeed line (by simp)), List.map_cons, Rearms, Rearms, others]

theorem rearmSafe_of_rearms {lines : List Bytes} (rearms : Rearms lines) : RearmSafe lines := by
  induction lines with
  | nil => trivial
  | cons header headers ih =>
      rcases rearms with blank | ⟨age, rest⟩
      · exact .inl blank
      · refine .inr ?_
        cases control : contains (bytes "Cache-Control") header with
        | false => exact ih rest
        | true =>
            obtain ⟨maxAge, parses⟩ := age control
            rw [maxAge]
            exact ⟨parses, ih rest⟩

structure Arrived (m : UpstreamResponse) (answer : Answer) (d : Delivered) : Prop where
  delivered : delivery answer = .response d
  statusLine : d.statusLine = m.status.toBytes ++ [13]
  code : d.code = m.status.code
  eof : d.eof = true
  lines : d.lines = m.rawLines
  body : d.body = m.body

-- the second read ends
def Complete (m : UpstreamResponse) : Prop := crlfcrlf <:+: block m.rawLines ++ crlf ++ m.body

section Message
variable {m : UpstreamResponse} {chunks : List Bytes}

theorem arrived_of_complete (wf : m.WellFormed) (final : m.status.code ≠ 302)
    (text : chunks.flatten = m.toBytes) (complete : Complete m) :
    ∃ d, Arrived m (.stream chunks true) d := by
  rw [toBytes_eq_block m] at text
  obtain ⟨rawLines, rawBody⟩ := headLines_message wf final
  obtain ⟨d, arrived, line, code, eof, lines, body⟩ := delivery_text wf.status text complete true
  exact ⟨d, arrived, statusLine_of_toBytes line, code, eof, lines.trans rawLines, body.trans rawBody⟩

theorem complete_of_delivered (wf : m.WellFormed) (text : chunks.flatten = m.toBytes)
    {d : Delivered} (arrived : delivery (.stream chunks true) = .response d) : Complete m := by
  rw [toBytes_eq_block m] at text
  by_contra incomplete
  cases (delivery_failed wf.status text incomplete true).symm.trans arrived

variable {answer : Answer} {d : Delivered} (arrived : Arrived m answer d)
include arrived

theorem Arrived.headers : d.lines.map List.dropLast = m.lines := by
  simp [arrived.lines, UpstreamResponse.rawLines, Function.comp_def]

theorem Arrived.firstLine : statusLineOf d.raw = m.status.toBytes ++ [13] := by
  rw [statusLineOf_raw arrived.delivered, arrived.statusLine]

theorem Arrived.rearms : Rearms ((getlines d.raw).tail.map Prod.fst) ↔ Rearms m.lines := by
  have oneLine := delivery_oneLine arrived.delivered
  rw [getlines_raw oneLine, List.tail_cons, rearms_block oneLine.dropLast, arrived.headers]

theorem Arrived.bodyOf_raw (wf : m.WellFormed) : bodyOf d.raw = m.body := by
  have oneLine := delivery_oneLine arrived.delivered
  have nonempty : m.status.toBytes ++ [13] ≠ [13] := by
    have version := List.length_pos_iff.mpr wf.status.version_ne_nil
    intro same
    have lengths := congrArg List.length same
    simp only [StatusText.toBytes, List.length_append, List.length_cons] at lengths
    omega
  have solid : Solid m.lines := by
    intro line mem
    have bytes_ := wf.lines_bytes line mem
    refine ⟨notLineEnd_ne bytes_, ?_⟩
    rintro rfl
    exact absurd (bytes_ 13 (by simp)) (by decide)
  rw [bodyOf, getlines_raw oneLine, restAfter, arrived.statusLine, if_neg nonempty, arrived.headers,
    arrived.body]
  exact restAfter_block solid _ _

end Message

/-! ## The condition -/

-- some line grants an age
def HasAge (m : UpstreamResponse) : Prop :=
  ∃ line ∈ m.rawLines, ∃ life, 0 < life ∧ Grants m.status.code line life

def HoldsBody (env : Environment) (key : Bytes) (files : FileTree Bytes Bytes) (body : Bytes) : Prop :=
  ∃ content, files.read (cachePath env key) = some content ∧ bodyOf content = body

def Overwrites (env : Environment) (storeKey key : Bytes) (files : FileTree Bytes Bytes) : Prop :=
  files.writable (cachePath env storeKey) = true ∧
    files.resolve (cachePath env key) = files.resolve (cachePath env storeKey)

/-- The response can be taken apart by both loops, and if it is stored, it replaces the file of the
entry, unless that file has the same body already. -/
structure BodyArrives (env : Environment) (storeKey key : Bytes) (files : FileTree Bytes Bytes)
    (m : UpstreamResponse) : Prop where
  complete : Complete m
  safe : ∀ line ∈ m.rawLines, SafeLine m.status.code line
  rearms : contains (bytes "304") (m.status.toBytes ++ [13]) = true → Rearms m.lines
  stored : HasAge m → ∃ made, makeDirectories env (directories storeKey) files = some made ∧
    (Overwrites env storeKey key made ∨ HoldsBody env key made m.body)
  unstored : ¬ HasAge m → HoldsBody env key files m.body

def ReturnsBody (env : Environment) (handler : ProxyHandler) (request : Request) (s : ProxyState)
    (body : Bytes) : Prop :=
  ∃ fuel response response' s', (handleRequest env handler fuel request response).run s =
    .done (.ok, response') s' ∧ bodyOf response'.rawResponse = body

section Condition
variable {env : Environment} {handler : ProxyHandler} {request : Request} {s : ProxyState}
  {sign : CacheSign} {m : UpstreamResponse} {redirects : List Answer} {chunks : List Bytes}

theorem read_stored {storeKey key content : Bytes} {made : FileTree Bytes Bytes} (raw : Bytes) :
    ((made.write (cachePath env storeKey) raw).getD made).read (cachePath env key) = some content ↔
      Overwrites env storeKey key made ∧ content = raw ∨
        ¬ Overwrites env storeKey key made ∧ made.read (cachePath env key) = some content := by
  have writes := FileTree.write_isSome made (cachePath env storeKey) raw
  cases wrote : made.write (cachePath env storeKey) raw with
  | none =>
      rw [wrote] at writes
      simp [Overwrites, ← writes]
  | some after =>
      rw [wrote] at writes
      rw [Option.getD_some, FileTree.read_write wrote, Overwrites, ← writes]
      by_cases same : made.resolve (cachePath env key) = made.resolve (cachePath env storeKey)
      · simp [same, eq_comm]
      · simp [same]

variable {requestUri host port uri key : Bytes} {answer : Answer} {d : Delivered} {s' : ProxyState}

theorem caches_iff_hasAge (arrived : Arrived m answer d) : Caches d ↔ HasAge m := by
  simp only [Caches, HasAge, arrived.eof, arrived.lines, arrived.code, true_and]

/-- What the last round of the revalidation request shows if the file has the body after it. -/
theorem stored_of_round (arrived : Arrived m answer d) {response : Response}
    (done : RoundDone env requestUri host port uri answer s s' (.finished .ok response))
    (holds : HoldsBody env key s'.files m.body) :
    (∀ line ∈ m.rawLines, SafeLine m.status.code line) ∧
      (HasAge m → ∃ made, makeDirectories env (directories (cacheKey requestUri)) s.files = some made ∧
        (Overwrites env (cacheKey requestUri) key made ∨ HoldsBody env key made m.body)) ∧
      (¬ HasAge m → HoldsBody env key s.files m.body) := by
  obtain ⟨safe, -, stores⟩ := roundDone_delivered arrived.delivered done
  rw [arrived.lines, arrived.code] at safe
  rcases stores with ⟨notCached, k, ticked⟩ | ⟨caches, k, mid, sign, ticked, -, stored⟩
  · rw [ticked.files] at holds
    exact ⟨safe, fun age => absurd ((caches_iff_hasAge arrived).mpr age) notCached, fun _ => holds⟩
  · refine ⟨safe, fun _ => ?_, fun none => absurd ((caches_iff_hasAge arrived).mp caches) none⟩
    obtain ⟨made, directories, written⟩ := stored.files
    rw [ticked.files] at directories
    refine ⟨made, directories, ?_⟩
    obtain ⟨content, readable, body⟩ := holds
    rw [written, read_stored] at readable
    rcases readable with ⟨overwrites, -⟩ | ⟨-, older⟩
    · exact .inl overwrites
    · exact .inr ⟨content, older, body⟩

theorem round_of_arrives (wf : m.WellFormed) (final : m.status.code ≠ 302)
    (arrived : Arrived m answer d) (holds : BodyArrives env (cacheKey requestUri) key s.files m)
    {status : Status} {response : Response}
    (done : RoundDone env requestUri host port uri answer s s' (.finished status response)) :
    status = .ok ∧ response = Response.setRawResponse {} d.raw ∧ HoldsBody env key s'.files m.body := by
  obtain ⟨-, same, stores⟩ := roundDone_delivered arrived.delivered done
  rw [Delivered.round, if_neg (by rwa [arrived.code]), arrived.eof] at same
  obtain ⟨rfl, rfl⟩ := Round.finished.inj same
  rcases stores with ⟨notCached, k, ticked⟩ | ⟨caches, k, mid, sign, ticked, -, stored⟩
  · rw [ticked.files]
    exact ⟨rfl, rfl, holds.unstored (mt (caches_iff_hasAge arrived).mpr notCached)⟩
  · obtain ⟨made, directories, file⟩ := holds.stored ((caches_iff_hasAge arrived).mp caches)
    obtain ⟨made', directories', written⟩ := stored.files
    rw [ticked.files] at directories'
    obtain rfl := Option.some.inj (directories.symm.trans directories')
    refine ⟨rfl, rfl, ?_⟩
    rw [written]
    by_cases overwrites : Overwrites env (cacheKey requestUri) key made
    · exact ⟨d.raw, (read_stored d.raw).mpr (.inl ⟨overwrites, rfl⟩), arrived.bodyOf_raw wf⟩
    · obtain ⟨content, older, body⟩ := file.resolve_left overwrites
      exact ⟨content, (read_stored d.raw).mpr (.inr ⟨overwrites, older⟩), body⟩

theorem threw_of_arrives (arrived : Arrived m answer d)
    (holds : BodyArrives env (cacheKey requestUri) key s.files m) {f : Fault}
    (threw : RoundThrew env requestUri answer s s' f) : False := by
  rcases roundThrew_delivered arrived.delivered threw with
    ⟨-, ⟨line, mem, bad⟩, -⟩ | ⟨-, -, caches, blocked, -⟩
  · rw [arrived.lines] at mem
    rw [arrived.code] at bad
    exact bad (holds.safe line mem)
  · obtain ⟨made, directories, -⟩ := holds.stored ((caches_iff_hasAge arrived).mp caches)
    cases directories.symm.trans blocked

theorem updateEntry_usable {answer : Answer} {d : Delivered} (code : m.status.code = 200)
    (arrived : Arrived m answer d)
    (rearms : contains (bytes "304") (m.status.toBytes ++ [13]) = true → Rearms m.lines) (path : Bytes) :
    (updateEntry env path .ok (Response.setRawResponse {} d.raw)).twp
      (fun usable s' => usable = true ∧ s'.files = s.files) (fun _ _ => False) s := by
  have raw := toBytes_setRawResponse (raw_ne_nil d)
  refine Proc.twp_of_wp (updateEntry_halts s) (Proc.wp_mono updateEntry_wp ?_ ?_)
  · intro usable s' update
    refine ⟨?_, entryUpdate_files update⟩
    cases update with
    | failed never => exact absurd rfl never
    | other ok counts =>
        rw [raw, arrived.firstLine, contains_iff]
        refine ⟨m.status.version ++ [32], m.status.reason ++ [13], ?_⟩
        simp only [StatusText.toBytes, code, List.append_assoc, List.singleton_append]
        rfl
    | unusable ok counts read =>
        rw [raw] at counts read
        rw [arrived.firstLine] at counts
        exact read.isSome.mpr (arrived.rearms.mpr (rearms counts))
    | rearmed => rfl
  · intro f s' ended
    obtain ⟨-, counts, -, -, harmful⟩ := ended
    rw [raw] at counts harmful
    rw [arrived.firstLine] at counts
    exact harmful (rearmSafe_of_rearms (arrived.rearms.mpr (rearms counts)))

theorem entryUpdate_ok {path : Bytes} {status : Status} {response : Response}
    (update : EntryUpdate env path status response s true s') : status = .ok := by
  generalize usable : true = b at update
  cases update with
  | failed => cases usable
  | other ok => exact ok
  | unusable => cases usable
  | rearmed ok => exact ok

theorem rearms_of_usable (arrived : Arrived m answer d) {path : Bytes}
    (update : EntryUpdate env path .ok (Response.setRawResponse {} d.raw) s true s')
    (counts : contains (bytes "304") (m.status.toBytes ++ [13]) = true) : Rearms m.lines := by
  have raw := toBytes_setRawResponse (raw_ne_nil d)
  generalize usable : true = b at update
  cases update with
  | failed => cases usable
  | other ok never =>
      rw [raw, arrived.firstLine, counts] at never
      cases never
  | unusable => cases usable
  | rearmed ok _ read =>
      rw [raw] at read
      exact arrived.rearms.mp (read.isSome.mp rfl)

end Condition

section Iff
variable {env : Environment} {handler : ProxyHandler} {request : Request} {s : ProxyState}
  {sign : CacheSign} {m : UpstreamResponse} {redirects : List Answer} {chunks : List Bytes}

variable (env handler request s m) in
/-- The condition for an entry of a request, whose revalidation request stores under its own key. -/
def NewBodyArrives : Prop :=
  BodyArrives env (requestKey handler (handler.revalidation (requestUri handler request) []))
    (requestKey handler request) s.files m

variable (handler request s) in
-- the revalidation request is sent, and not answered from another entry
def RevalidationSent : Prop :=
  Uncached handler (withoutEntry s (requestKey handler request))
    (handler.revalidation (requestUri handler request) [])

/-- The call for the revalidation, which finds no entry, leaves the new body in the file. -/
theorem inner_of_arrives (wf : m.WellFormed) (code : m.status.code = 200)
    (text : chunks.flatten = m.toBytes) (all : ∀ answer ∈ redirects, Redirects answer)
    (script : Scripted env s.contacts.length (redirects ++ [.stream chunks true]))
    (holds : NewBodyArrives env handler request s m) {d : Delivered}
    (arrived : Arrived m (.stream chunks true) d) {eTag : Bytes}
    (absent : Uncached handler (withoutEntry s (requestKey handler request))
      (handler.revalidation (requestUri handler request) eTag)) :
    (handleRequest env handler (redirects.length + 1)
      (handler.revalidation (requestUri handler request) eTag) {}).twp
      (fun result mid => result = (.ok, Response.setRawResponse {} d.raw) ∧
        HoldsBody env (requestKey handler request) mid.files m.body) (fun _ _ => False)
      (withoutEntry s (requestKey handler request)) := by
  have other : m.status.code ≠ 302 := by
    rw [code]
    decide
  have final : Final (.stream chunks true) := final_of_text wf other text
  have last out : Final (env.upstream (s.contacts.length + redirects.length) out) := by
    rwa [script redirects.length (.stream chunks true) (by simp) out]
  rw [Proc.twp_congr (handleRequest_uncached absent redirects.length {})]
  refine Proc.twp_of_wp (exchangeLoop_returns last (Nat.lt_succ_self redirects.length))
    (Proc.wp_mono (exchangeLoop_wp _) ?_ ?_)
  · rintro ⟨status, response⟩ mid' done
    obtain ⟨mid, outs, out, ends, -, done⟩ :=
      loopDone_script (s := withoutEntry s (requestKey handler request)) all final script done
    have files : (contacted mid out).files = s.files := ends.approach.files
    have there := holds
    rw [NewBodyArrives, ← files] at there
    obtain ⟨rfl, rfl, file⟩ := round_of_arrives wf other arrived there done
    exact ⟨rfl, file⟩
  · rintro f mid' threw
    obtain ⟨mid, outs, out, ends, threw⟩ :=
      loopThrew_script (s := withoutEntry s (requestKey handler request)) all final script threw
    have files : (contacted mid out).files = s.files := ends.approach.files
    have there := holds
    rw [NewBodyArrives, ← files] at there
    exact threw_of_arrives arrived there threw

theorem returnsBody_of_arrives (wf : m.WellFormed) (code : m.status.code = 200)
    (text : chunks.flatten = m.toBytes) (hit : Hit env handler request s sign true)
    (sent : RevalidationSent handler request s) (all : ∀ answer ∈ redirects, Redirects answer)
    (script : Scripted env s.contacts.length (redirects ++ [.stream chunks true]))
    (holds : NewBodyArrives env handler request s m) : ReturnsBody env handler request s m.body := by
  have other : m.status.code ≠ 302 := by
    rw [code]
    decide
  obtain ⟨d, arrived⟩ := arrived_of_complete wf other text holds.complete
  let k := redirects.length
  obtain ⟨eTag, ran⟩ := updateCache_run env (s := clockRead s) handler (handleRequest env handler (k + 1))
    (requestUri handler request) (requestKey handler request)
  have absent : Uncached handler (withoutEntry s (requestKey handler request))
      (handler.revalidation (requestUri handler request) eTag) := sent
  have inner := inner_of_arrives wf code text all script holds arrived absent
  have whole : (handleRequest env handler (k + 2) request {}).twp
      (fun result _ => result.1 = .ok ∧ bodyOf result.2.rawResponse = m.body) (fun _ _ => False) s := by
    rw [Proc.twp_congr (handleRequest_hit hit (k + 1) {}), Proc.twp_bind, if_pos rfl,
      Proc.twp_congr ran, Proc.twp_bind]
    apply Proc.twp_mono inner _ (fun _ _ never => never)
    intro result mid ended
    obtain ⟨rfl, content, readable, body⟩ := ended
    apply Proc.twp_mono (updateEntry_usable code arrived holds.rearms _) _ (fun _ _ never => never)
    intro usable mid' ended
    obtain ⟨rfl, files⟩ := ended
    rw [← files] at readable
    simp only [if_true, Proc.twp_bind, Proc.twp_pure]
    apply Proc.twp_mono (serveFile_twp readable {}) _ (fun _ _ never => never)
    intro served s' ended
    obtain ⟨-, rewritten⟩ := ended
    exact ⟨trivial, rewritten.body.trans body⟩
  obtain ⟨⟨status, response'⟩, s', ran, rfl, body⟩ := Proc.done_of_twp whole
  exact ⟨k + 2, {}, response', s', ran, body⟩

theorem arrives_of_returnsBody (wf : m.WellFormed) (code : m.status.code = 200)
    (text : chunks.flatten = m.toBytes) (hit : Hit env handler request s sign true)
    (sent : RevalidationSent handler request s) (all : ∀ answer ∈ redirects, Redirects answer)
    (script : Scripted env s.contacts.length (redirects ++ [.stream chunks true]))
    (silence : ∀ n out, s.contacts.length + redirects.length < n →
      delivery (env.upstream n out) = .failed)
    (returns : ReturnsBody env handler request s m.body) : NewBodyArrives env handler request s m := by
  have other : m.status.code ≠ 302 := by
    rw [code]
    decide
  have final : Final (.stream chunks true) := final_of_text wf other text
  obtain ⟨fuel, response, response', s', ran, body⟩ := returns
  have done := Proc.wp_done (handleRequest_wp fuel response) ran
  cases done with
  | miss absent => cases absent.symm.trans hit.present
  | hit fresh =>
      obtain rfl := Option.some.inj (hit.present.symm.trans fresh.present)
      cases hit.expired.symm.trans fresh.expired
  | revalidated _ inner update readable serves =>
      have ok := entryUpdate_ok update
      subst ok
      obtain ⟨mid, outs, out, ends, -, round⟩ :=
        loopDone_script (s := withoutEntry s (requestKey handler request)) all final script
          (revalidation_done sent inner)
      obtain ⟨d', delivered, -, -, rfl⟩ := roundDone_ok round
      have complete := complete_of_delivered wf text delivered
      obtain ⟨d, arrived⟩ := arrived_of_complete wf other text complete
      obtain rfl := delivered_unique delivered arrived.delivered
      have files : (contacted mid out).files = s.files := ends.approach.files
      have holds : HoldsBody env (requestKey handler request) _ m.body :=
        ⟨_, readable, serves.2.body.symm.trans body⟩
      rw [entryUpdate_files update] at holds
      obtain ⟨safe, stored, unstored⟩ := stored_of_round arrived round holds
      rw [files] at stored unstored
      exact ⟨complete, safe, rearms_of_usable arrived update, stored, unstored⟩
  | refetched _ inner update sends =>
      -- the request is sent once more, and not answered
      obtain ⟨mid, outs, out, ends, length, round⟩ :=
        loopDone_script (s := withoutEntry s (requestKey handler request)) all final script
          (revalidation_done sent inner)
      obtain ⟨mid₂, outs₂, out₂, ends₂, round₂⟩ := sends
      obtain ⟨d, arrived, -⟩ := roundDone_ok round₂
      have before := (entryUpdate_extends update).contacts.length_le
      have after := ends₂.approach.extends.contacts.length_le
      rw [(roundDone_extends round).2, contacted, ends.approach.contacts] at before
      simp only [List.length_append, List.length_singleton, length, withoutEntry] at before
      cases (silence _ out₂ (by omega)).symm.trans arrived

variable (env) in
theorem newBodyArrives_congr (env' : Environment) (same : env'.cacheDir = env.cacheDir) :
    NewBodyArrives env' handler request s m ↔ NewBodyArrives env handler request s m := by
  have directories := makeDirectories_congr same
  have paths := cachePath_congr same
  constructor
  · rintro ⟨complete, safe, rearms, stored, unstored⟩
    simp only [HoldsBody, Overwrites, directories, paths] at stored unstored
    exact ⟨complete, safe, rearms, stored, unstored⟩
  · rintro ⟨complete, safe, rearms, stored, unstored⟩
    rw [NewBodyArrives]
    refine ⟨complete, safe, rearms, ?_, ?_⟩
    · simpa only [HoldsBody, Overwrites, directories, paths] using stored
    · simpa only [HoldsBody, paths] using unstored

-- the script, and nothing after it
def thenSilence (n : Nat) (answers : List Answer) : Nat → Outgoing → Answer := fun i _ =>
  (answers[i - n]?).getD (.error (bytes "connect"))

/-- Whatever the clock and the later answers: an expired entry is answered with the body of the 200
response to its revalidation exactly when the response can be taken apart and either replaces the
file of the entry or has the body that is in it. -/
theorem newBody_iff (wf : m.WellFormed) (code : m.status.code = 200)
    (text : chunks.flatten = m.toBytes)
    (present : s.cache.lookup (requestKey handler request) = some sign)
    (sent : RevalidationSent handler request s) (all : ∀ answer ∈ redirects, Redirects answer) :
    (∀ upstream clock, Hit { env with upstream, clock } handler request s sign true →
      Scripted { env with upstream, clock } s.contacts.length (redirects ++ [.stream chunks true]) →
      ReturnsBody { env with upstream, clock } handler request s m.body) ↔
      NewBodyArrives env handler request s m := by
  constructor
  · intro returns
    obtain ⟨now, expired⟩ : ∃ now, sign.expiration.expired now = true := by
      cases sign.expiration with
      | notADateTime => exact ⟨0, rfl⟩
      | «at» expires => exact ⟨expires, decide_eq_true (Int.le_refl expires)⟩
    let upstream := thenSilence s.contacts.length (redirects ++ [.stream chunks true])
    let world : Environment := { env with upstream, clock := fun _ => now }
    have hit : Hit world handler request s sign true := ⟨present, expired⟩
    have script : Scripted world s.contacts.length (redirects ++ [.stream chunks true]) := by
      intro i answer here out
      simp only [world, upstream, thenSilence, Nat.add_sub_cancel_left, here, Option.getD_some]
    have silence : ∀ n out, s.contacts.length + redirects.length < n →
        delivery (world.upstream n out) = .failed := by
      intro n out later
      have none_left : (redirects ++ [.stream chunks true])[n - s.contacts.length]? = none := by
        rw [List.getElem?_eq_none_iff, List.length_append, List.length_singleton]
        omega
      simp only [world, upstream, thenSilence, none_left, Option.getD_none, delivery]
    have arrives := arrives_of_returnsBody wf code text hit sent all script silence
      (returns upstream (fun _ => now) hit script)
    exact (newBodyArrives_congr env world rfl).mp arrives
  · intro arrives upstream clock hit script
    have there := (newBodyArrives_congr env { env with upstream, clock } rfl).mpr arrives
    exact returnsBody_of_arrives wf code text hit sent all script there

end Iff

/-! ## A new response that is stored, and one that must not be -/

def newResponse (cacheControl : Bytes) : UpstreamResponse where
  status := okStatus
  lines := [bytes "Cache-Control: " ++ cacheControl]
  body := bytes "b"

-- an entry that expired at the start of the clock
def expiredState : ProxyState where
  cache := (∅ : AList fun _ : Bytes => CacheSign).insert (bytes "/x") { expiration := .at 0 }
  files := emptyDisk

theorem safe_maxAge : ∀ line ∈ (newResponse (bytes "max-age=60")).rawLines, SafeLine 200 line ∧
    Grants 200 line 60 := by
  have age : ageValue 200 (bytes "Cache-Control: max-age=60") = some (bytes "max-age=60") := by
    decide
  have life : cacheLife (bytes "max-age=60") = .ok 60 := by decide
  intro line mem
  obtain rfl := List.mem_singleton.mp mem
  rw [SafeLine, Grants, List.dropLast_concat]
  refine ⟨⟨by simp, by decide, fun value found => ⟨60, ?_⟩⟩, _, age, life⟩
  obtain rfl := Option.some.inj (age.symm.trans found)
  exact life

theorem newBody_stored : ReturnsBody
    { scripted [] with
      upstream := thenSilence 0 [.stream [(newResponse (bytes "max-age=60")).toBytes] true] }
    demoProxy (getProxy (bytes "/proxy1/x")) expiredState (bytes "b") := by
  have wf : (newResponse (bytes "max-age=60")).WellFormed :=
    ⟨wellFormed_okStatus, by decide, by decide +kernel⟩
  have hasAge : HasAge (newResponse (bytes "max-age=60")) :=
    ⟨_, List.mem_cons_self, 60, by decide, (safe_maxAge _ List.mem_cons_self).2⟩
  have inner : requestKey demoProxy (demoProxy.revalidation
      (requestUri demoProxy (getProxy (bytes "/proxy1/x"))) []) = bytes "/x" := by decide
  have outer : requestKey demoProxy (getProxy (bytes "/proxy1/x")) = bytes "/x" := by decide
  have noDirectories : directories (bytes "/x") = [] := by decide
  have arrives : NewBodyArrives (scripted []) demoProxy (getProxy (bytes "/proxy1/x")) expiredState
      (newResponse (bytes "max-age=60")) := by
    rw [NewBodyArrives, inner, outer]
    refine ⟨blank_of_lines (by simp [newResponse]), fun line mem => (safe_maxAge line mem).1,
      fun counts => absurd counts (by decide), fun _ => ⟨emptyDisk, ?_, .inl ⟨by decide, rfl⟩⟩,
      fun none => absurd hasAge none⟩
    rw [noDirectories]
    rfl
  have text : [(newResponse (bytes "max-age=60")).toBytes].flatten =
      (newResponse (bytes "max-age=60")).toBytes := by simp
  have noRedirects : ∀ answer ∈ ([] : List Answer), Redirects answer := by simp
  have present : expiredState.cache.lookup (requestKey demoProxy (getProxy (bytes "/proxy1/x"))) =
      some { expiration := .at 0 } := by
    rw [outer]
    exact AList.lookup_insert _
  have sent : RevalidationSent demoProxy (getProxy (bytes "/proxy1/x")) expiredState := by
    rw [RevalidationSent, outer]
    exact AList.lookup_erase _ _
  refine (newBody_iff wf rfl text present sent noRedirects).mpr arrives _ (fun k => k) ⟨present, rfl⟩ ?_
  intro i answer here out
  simpa [thenSilence, expiredState] using congrArg (·.getD (.error (bytes "connect"))) here

/-- A response with no-store is not written to the cache file, and the old file is served. -/
theorem old_body_served : ¬ ∀ (env : Environment) (handler : ProxyHandler)
    (files : FileTree Bytes Bytes) (request : Request) (s : ProxyState) (sign : CacheSign)
    (m : UpstreamResponse) (chunks : List Bytes),
    Relation.ReflTransGen (fun s s' => ∃ request, Call env handler request s s') { files } s →
    m.WellFormed → m.status.code = 200 → chunks.flatten = m.toBytes →
    Hit env handler request s sign true → RevalidationSent handler request s →
    (∀ out, env.upstream s.contacts.length out = .stream chunks true) →
    ReturnsBody env handler request s m.body := by
  intro claim
  let env := scripted [agedAnswer (bytes "1"), .stream [(newResponse (bytes "no-store")).toBytes] true]
  let again := getProxy (bytes "/proxy1/x")
  let key := requestKey demoProxy again
  have computed : (afterCalls env demoProxy 3 [again] { files := emptyDisk }).any (fun s =>
      s.contacts.length == 1 &&
        (s.cache.lookup key).any (·.expiration.expired (env.clock s.readings)) &&
        ((withoutEntry s key).cache.lookup (cacheKey (stripPrefix demoProxy.uriPrefix
          (requestUri demoProxy again)))).isNone &&
        (s.files.read (cachePath env key)).all (bodyOf · != bytes "b")) = true := by
    decide
  obtain ⟨s, after, test⟩ := Option.any_eq_true _ _ |>.mp computed
  simp only [Bool.and_eq_true, beq_iff_eq, Option.isNone_iff_eq_none] at test
  obtain ⟨⟨⟨once, expired⟩, sent⟩, older⟩ := test
  obtain ⟨sign, present, expired⟩ := Option.any_eq_true _ _ |>.mp expired
  have wf : (newResponse (bytes "no-store")).WellFormed :=
    ⟨wellFormed_okStatus, by decide, by decide +kernel⟩
  have text : [(newResponse (bytes "no-store")).toBytes].flatten =
      (newResponse (bytes "no-store")).toBytes := by simp
  have answers out : env.upstream s.contacts.length out =
      .stream [(newResponse (bytes "no-store")).toBytes] true := by
    rw [once]
    rfl
  have returns := claim env demoProxy emptyDisk again s sign _ _ (afterCalls_run after) wf rfl text
    ⟨present, expired⟩ sent answers
  have noRedirects : ∀ answer ∈ ([] : List Answer), Redirects answer := by simp
  have arrives := arrives_of_returnsBody wf rfl text ⟨present, expired⟩ sent noRedirects ?_ ?_ returns
  · have noAge : ¬ HasAge (newResponse (bytes "no-store")) := by
      rintro ⟨line, mem, life, -, value, age, -⟩
      obtain rfl := List.mem_singleton.mp mem
      have none_read : ageValue 200 (bytes "Cache-Control: no-store") = none := by decide
      rw [List.dropLast_concat] at age
      cases none_read.symm.trans age
    obtain ⟨content, readable, body⟩ := arrives.unstored noAge
    rw [readable, Option.all_some] at older
    simp [body, newResponse] at older
  · intro i answer here out
    cases i with
    | zero =>
        obtain rfl := Option.some.inj here
        exact answers out
    | succ i => simp at here
  · intro n out later
    rw [once, List.length_nil] at later
    obtain ⟨n, rfl⟩ := Nat.exists_eq_add_of_le' (Nat.succ_le_of_lt later)
    rfl

end TscServer.Proof
