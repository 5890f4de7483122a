import TscServer.Proof.HeaderLoop

/-!
# One round of the proxy's loop

`exchange_wp` says what a contact with an upstream leaves behind: the round that the answer stands
for, and a new entry in the cache when a line of the response grants an age.
-/

namespace TscServer.Proof
open Lib Model Spec ProxyHandler

section Store
variable {env : Environment} {s : ProxyState}

-- the files after the missing directories were made
def makeDirectories (env : Environment) : List Bytes → FileTree Bytes Bytes →
    Option (FileTree Bytes Bytes)
  | [], files => some files
  | directory :: rest, files =>
      if files.exists (cachePath env directory) then makeDirectories env rest files
      else (files.createDirectory (cachePath env directory)).bind (makeDirectories env rest)

theorem cachePath_congr {env' : Environment} (same : env'.cacheDir = env.cacheDir) :
    cachePath env' = cachePath env := by
  funext path
  rw [cachePath, cachePath, same]

theorem makeDirectories_congr {env' : Environment} (same : env'.cacheDir = env.cacheDir) :
    makeDirectories env' = makeDirectories env := by
  funext directories files
  induction directories generalizing files with
  | nil => rfl
  | cons directory directories ih =>
      rw [makeDirectories, makeDirectories, cachePath_congr same, funext ih]

-- directories come and go, files stay
def SameFiles (before after : FileTree Bytes Bytes) : Prop :=
  ∀ location content, after location = some (.file content) ↔ before location = some (.file content)

theorem SameFiles.refl (files : FileTree Bytes Bytes) : SameFiles files files := fun _ _ => Iff.rfl

theorem SameFiles.trans {a b c : FileTree Bytes Bytes} (first : SameFiles a b)
    (second : SameFiles b c) : SameFiles a c := fun location content =>
  (second location content).trans (first location content)

theorem sameFiles_createDirectory {before after : FileTree Bytes Bytes}
    {path : List (Component Bytes)} (made : before.createDirectory path = some after) :
    SameFiles before after := by
  obtain ⟨-, ⟨absent, rfl⟩ | ⟨-, rfl⟩⟩ := FileTree.createDirectory_eq_some made
  · intro location content
    by_cases here : location = FileTree.location path
    · simp [here, absent]
    · rw [Function.update_of_ne here]
  · exact SameFiles.refl _

theorem sameFiles_makeDirectories {directories : List Bytes} {before after : FileTree Bytes Bytes}
    (made : makeDirectories env directories before = some after) : SameFiles before after := by
  induction directories generalizing before with
  | nil =>
      cases made
      exact SameFiles.refl _
  | cons directory directories ih =>
      rw [makeDirectories] at made
      split at made
      · exact ih made
      · obtain ⟨files, here, rest⟩ := Option.bind_eq_some_iff.mp made
        exact (sameFiles_createDirectory here).trans (ih rest)

structure Touched (s s' : ProxyState) : Prop where
  cache : s'.cache = s.cache
  files : SameFiles s.files s'.files
  contacts : s'.contacts = s.contacts
  installs : s'.installs = s.installs
  readings : s.readings ≤ s'.readings

theorem Touched.refl (s : ProxyState) : Touched s s := ⟨rfl, SameFiles.refl _, rfl, rfl, le_rfl⟩

theorem Touched.trans {s s' s'' : ProxyState} (first : Touched s s') (second : Touched s' s'') :
    Touched s s'' :=
  ⟨second.cache.trans first.cache, first.files.trans second.files,
    second.contacts.trans first.contacts, second.installs.trans first.installs,
    first.readings.trans second.readings⟩

theorem Ticked.touched {k : Nat} {s s' : ProxyState} (ticked : Ticked k s s') : Touched s s' := by
  obtain rfl := ticked
  exact ⟨rfl, SameFiles.refl _, rfl, rfl, Nat.le_add_right _ k⟩

theorem createDirectories_wp (directories : List Bytes) :
    Proc.wp (createDirectories env directories)
      (fun _ s' => ∃ files, makeDirectories env directories s.files = some files ∧
        s' = { s with files })
      (fun f s' => f = .filesystemError ∧ makeDirectories env directories s.files = none ∧
        Touched s s') s := by
  induction directories generalizing s with
  | nil => exact ⟨s.files, rfl, rfl⟩
  | cons directory directories ih =>
      rw [createDirectories, makeDirectories]
      simp only [Proc.wp_bind, Proc.wp_get, Proc.wp_ite]
      split
      · exact ih
      · rw [Proc.wp_ofOption]
        cases made : s.files.createDirectory (cachePath env directory) with
        | none => exact ⟨rfl, rfl, Touched.refl s⟩
        | some files =>
            apply Proc.wp_mono ih (fun _ _ done => done)
            intro f s' ended
            obtain ⟨fault, blocked, touched⟩ := ended
            have here : Touched s { s with files } :=
              ⟨rfl, sameFiles_createDirectory made, rfl, rfl, le_rfl⟩
            exact ⟨fault, blocked, here.trans touched⟩

structure Stored (env : Environment) (uri : Bytes) (sign : CacheSign) (content : Bytes)
    (s s' : ProxyState) : Prop where
  cache : s'.cache = s.cache.insert (cacheKey uri) sign
  files : ∃ made, makeDirectories env (directories (cacheKey uri)) s.files = some made ∧
    s'.files = (made.write (cachePath env (cacheKey uri)) content).getD made
  readings : s'.readings = s.readings
  contacts : s'.contacts = s.contacts
  installs : s'.installs = s.installs ++
    [{ key := cacheKey uri, sign, contacts := s.contacts.length, revalidated := false }]

theorem makeCache_wp (uri : Bytes) (expiration : Ptime) (eTag : Bytes) (response : Response) :
    Proc.wp (makeCache env uri expiration eTag response)
      (fun _ s' => Stored env uri { expiration, eTag } response.toBytes s s')
      (fun f s' => f = .filesystemError ∧
        makeDirectories env (directories (cacheKey uri)) s.files = none ∧ Touched s s') s := by
  rw [makeCache]
  simp only [Proc.wp_bind]
  apply Proc.wp_mono (createDirectories_wp _)
  · rintro - s' ⟨made, directories, rfl⟩
    exact ⟨rfl, ⟨made, directories, rfl⟩, rfl, rfl, rfl⟩
  · exact fun f _ failed => failed

end Store

/-! ## A round -/

def Caches (d : Delivered) : Prop :=
  d.eof = true ∧ ∃ line ∈ d.lines, ∃ life, 0 < life ∧ Grants d.code line life

def Granted (env : Environment) (d : Delivered) (first last : Nat) (expire : Ptime) : Prop :=
  ∃ line ∈ d.lines, ∃ life, 0 < life ∧ Grants d.code line life ∧
    ∃ j, first ≤ j ∧ j < last ∧ expire = .at (env.clock j + life)

-- the ETag that the loop leaves
def tagStored (d : Delivered) : Bytes :=
  (d.lines.filterMap fun line => tagValue d.code line.dropLast).getLast?.getD []

inductive RoundDone (env : Environment) (requestUri host port uri : Bytes) (answer : Answer)
    (s s' : ProxyState) : Round → Prop
  | failed : delivery answer = .failed → s' = s →
      RoundDone env requestUri host port uri answer s s' (.finished .handleFail {})
  | plain {d : Delivered} {k : Nat} {round : Round} : delivery answer = .response d →
      (∀ line ∈ d.lines, SafeLine d.code line) → ¬ Caches d → Ticked k s s' →
      round = d.round host port uri → RoundDone env requestUri host port uri answer s s' round
  | cached {d : Delivered} {k : Nat} {mid : ProxyState} {sign : CacheSign} :
      delivery answer = .response d → (∀ line ∈ d.lines, SafeLine d.code line) → Caches d →
      Ticked k s mid → Granted env d s.readings mid.readings sign.expiration →
      Stored env requestUri sign d.raw mid s' → sign.eTag = tagStored d →
      RoundDone env requestUri host port uri answer s s' (.finished .ok (Response.setRawResponse {} d.raw))

inductive RoundThrew (env : Environment) (requestUri : Bytes) (answer : Answer)
    (s s' : ProxyState) : Fault → Prop
  | indeterminate : delivery answer = .indeterminate → s' = s →
      RoundThrew env requestUri answer s s' .indeterminateValue
  | header {d : Delivered} {f : Fault} : delivery answer = .response d → HeaderFault f →
      (∃ line ∈ d.lines, ¬ SafeLine d.code line) → (∃ k, Ticked k s s') →
      RoundThrew env requestUri answer s s' f
  | directory {d : Delivered} : delivery answer = .response d →
      (∀ line ∈ d.lines, SafeLine d.code line) → Caches d →
      makeDirectories env (directories (cacheKey requestUri)) s.files = none → Touched s s' →
      RoundThrew env requestUri answer s s' .filesystemError

section Round
variable {env : Environment} {s : ProxyState}

-- a granted age needs a status other than 302 and 304
theorem cacheable_of_grants {code : Nat} {line : Bytes} {life : Int} (grants : Grants code line life) :
    cacheable code = true := by
  obtain ⟨value, age, -⟩ := grants
  obtain ⟨-, control⟩ := Option.filter_eq_some_iff.mp age
  simp only [Bool.and_eq_true] at control
  exact control.1.1.1

theorem cacheable_of_caches {d : Delivered} (caches : Caches d) : cacheable d.code = true := by
  obtain ⟨-, line, -, life, -, grants⟩ := caches
  exact cacheable_of_grants grants

theorem code_of_caches {d : Delivered} (caches : Caches d) : d.code ≠ 302 := by
  obtain ⟨-, line, -, life, -, grants⟩ := caches
  intro redirect
  have cacheable := cacheable_of_grants grants
  rw [redirect] at cacheable
  exact absurd cacheable (by decide)

theorem round_final {d : Delivered} (final : d.code ≠ 302) (host port uri : Bytes) :
    ∃ status response, d.round host port uri = .finished status response ∧
      (status = .ok → response = Response.setRawResponse {} d.raw) := by
  rw [Delivered.round, if_neg final]
  split
  · exact ⟨_, _, rfl, fun ok => by cases ok⟩
  · exact ⟨_, _, rfl, fun _ => rfl⟩

theorem round_not_redirect {d : Delivered} {host port uri : Bytes} {status : Status}
    {response : Response} (finished : d.round host port uri = .finished status response) :
    d.code ≠ 302 := by
  intro redirect
  rw [Delivered.round, if_pos redirect] at finished
  cases location : locationRead d.code d.entries with
  | none =>
      rw [location] at finished
      cases finished
  | some target =>
      rw [location] at finished
      cases finished

theorem round_ok {d : Delivered} {host port uri : Bytes} {response : Response}
    (finished : d.round host port uri = .finished .ok response) :
    d.code ≠ 302 ∧ d.eof = true ∧ response = Response.setRawResponse {} d.raw := by
  have final := round_not_redirect finished
  rw [Delivered.round, if_neg final] at finished
  cases complete : d.eof with
  | false => simp [complete] at finished
  | true =>
      refine ⟨final, rfl, ?_⟩
      simpa [complete, eq_comm] using finished

theorem roundDone_ok {env : Environment} {requestUri host port uri : Bytes} {answer : Answer}
    {s s' : ProxyState} {response : Response}
    (done : RoundDone env requestUri host port uri answer s s' (.finished .ok response)) :
    ∃ d, delivery answer = .response d ∧ d.code ≠ 302 ∧ d.eof = true ∧
      response = Response.setRawResponse {} d.raw := by
  cases done with
  | plain arrived safe notCached ticked same => exact ⟨_, arrived, round_ok same.symm⟩
  | cached arrived safe caches ticked granted stored =>
      exact ⟨_, arrived, code_of_caches caches, caches.1, rfl⟩

theorem round_of_caches {d : Delivered} (caches : Caches d) (host port uri : Bytes) :
    d.round host port uri = .finished .ok (Response.setRawResponse {} d.raw) := by
  rw [Delivered.round, if_neg (code_of_caches caches), caches.1]
  rfl

/-! ## Rounds with a known response -/

theorem delivered_unique {answer : Answer} {d d' : Delivered} (arrived : delivery answer = .response d)
    (arrived' : delivery answer = .response d') : d = d' :=
  Delivery.response.inj (arrived.symm.trans arrived')

theorem roundDone_delivered {env : Environment} {requestUri host port uri : Bytes} {answer : Answer}
    {d : Delivered} {s s' : ProxyState} {round : Round} (arrived : delivery answer = .response d)
    (done : RoundDone env requestUri host port uri answer s s' round) :
    (∀ line ∈ d.lines, SafeLine d.code line) ∧ round = d.round host port uri ∧
      (¬ Caches d ∧ (∃ k, Ticked k s s') ∨
        Caches d ∧ ∃ k mid sign, Ticked k s mid ∧
          Granted env d s.readings mid.readings sign.expiration ∧
          Stored env requestUri sign d.raw mid s') := by
  cases done with
  | failed failed => cases arrived.symm.trans failed
  | plain arrived' safe notCached ticked same =>
      obtain rfl := delivered_unique arrived arrived'
      exact ⟨safe, same, .inl ⟨notCached, _, ticked⟩⟩
  | cached arrived' safe caches ticked granted stored =>
      obtain rfl := delivered_unique arrived arrived'
      exact ⟨safe, (round_of_caches caches host port uri).symm,
        .inr ⟨caches, _, _, _, ticked, granted, stored⟩⟩

theorem roundThrew_delivered {env : Environment} {requestUri : Bytes} {answer : Answer} {d : Delivered}
    {s s' : ProxyState} {f : Fault} (arrived : delivery answer = .response d)
    (threw : RoundThrew env requestUri answer s s' f) :
    HeaderFault f ∧ (∃ line ∈ d.lines, ¬ SafeLine d.code line) ∧ (∃ k, Ticked k s s') ∨
      f = .filesystemError ∧ (∀ line ∈ d.lines, SafeLine d.code line) ∧ Caches d ∧
        makeDirectories env (directories (cacheKey requestUri)) s.files = none ∧ Touched s s' := by
  cases threw with
  | indeterminate failed => cases arrived.symm.trans failed
  | header arrived' fault bad ticked =>
      obtain rfl := delivered_unique arrived arrived'
      exact .inl ⟨fault, bad, ticked⟩
  | directory arrived' safe caches blocked touched =>
      obtain rfl := delivered_unique arrived arrived'
      exact .inr ⟨rfl, safe, caches, blocked, touched⟩

theorem not_roundThrew_of_failed {env : Environment} {requestUri : Bytes} {answer : Answer}
    {s s' : ProxyState} {f : Fault} (failed : delivery answer = .failed) :
    ¬ RoundThrew env requestUri answer s s' f := by
  intro threw
  cases threw with
  | indeterminate failed' => cases failed.symm.trans failed'
  | header arrived => cases failed.symm.trans arrived
  | directory arrived => cases failed.symm.trans arrived

/-! ## The round itself -/

theorem raw_ne_nil (d : Delivered) : d.raw ≠ [] := by
  simp [Delivered.raw, crlf]

theorem toBytes_setRawResponse {raw : Bytes} (nonempty : raw ≠ []) :
    (Response.setRawResponse {} raw).toBytes = raw := by
  simp [Response.toBytes, Response.setRawResponse, nonempty]

theorem readResponse_wp (requestUri host port uri : Bytes) {answer : Answer} {d : Delivered}
    (arrived : delivery answer = .response d) (stream : IStream) (chunks : List Bytes)
    (entries : d.entries = if stream.good then getlines d.buf else [])
    (read : readUntil crlfcrlf chunks stream.buf = some (d.buf, d.chunks)) :
    Proc.wp (readResponse env requestUri host port uri d.line stream d.code chunks d.eof)
      (fun round s' => RoundDone env requestUri host port uri answer s s' round)
      (fun f s' => RoundThrew env requestUri answer s s' f) s := by
  rw [readResponse, read]
  simp only [Proc.wp_bind, ← entries]
  apply Proc.wp_mono (headerLoop_wp _)
  · intro head mid ended
    obtain ⟨k, ticked, gathered⟩ := ended
    have plain (notCached : ¬ Caches d) :
        RoundDone env requestUri host port uri answer s mid (d.round host port uri) :=
      .plain arrived gathered.safe notCached ticked rfl
    have made : head.makeCache = true ↔
        ∃ line ∈ d.lines, ∃ life, 0 < life ∧ Grants d.code line life := by
      rw [gathered.grants]
      simp [Delivered.lines]
    by_cases redirect : d.code = 302
    · have round := plain fun caches => code_of_caches caches redirect
      have location : head.location = locationRead d.code d.entries := by
        simpa using gathered.location
      rw [Delivered.round, if_pos redirect, ← location] at round
      rw [if_pos redirect]
      cases found : head.location with
      | none =>
          rw [found] at round
          exact round
      | some location =>
          rw [found] at round
          exact round
    · have whole : head.raw ++ crlf ++ head.rest ++ d.chunks.flatten = d.raw := by
        simp [Delivered.raw, Delivered.body, Delivered.lines, gathered.raw, gathered.rest redirect]
      rw [if_neg redirect, whole]
      rw [Delivered.round, if_neg redirect] at plain
      cases complete : d.eof with
      | false =>
          rw [complete] at plain
          exact plain fun caches => by simp [Caches, complete] at caches
      | true =>
          rw [complete] at plain
          cases decision : head.makeCache with
          | false => exact plain fun caches => by simp [made.mpr caches.2] at decision
          | true =>
              have caches : Caches d := ⟨complete, made.mp decision⟩
              have granted : Granted env d s.readings mid.readings head.expire := by
                rcases gathered.granted decision with ⟨never, -⟩ | granted
                · cases never
                · rwa [ticked]
              simp only [Bool.not_true, Bool.false_eq_true, if_false, if_true, Proc.wp_bind]
              apply Proc.wp_mono (makeCache_wp _ _ _ _)
              · rintro - s' stored
                rw [toBytes_setRawResponse (raw_ne_nil d)] at stored
                exact .cached arrived gathered.safe caches ticked granted stored gathered.eTag
              · intro f s' ended
                obtain ⟨rfl, blocked, touched⟩ := ended
                rw [show mid.files = s.files by rw [ticked]] at blocked
                exact .directory arrived gathered.safe caches blocked (ticked.touched.trans touched)
  · intro f s' ended
    obtain ⟨fault, ticked, bad⟩ := ended
    exact .header arrived fault bad ticked

theorem exchange_wp (request : Request) (requestUri host port uri : Bytes) {answer : Answer}
    {out : Outgoing} (sent : out = ⟨host, port, request.method, uri, makeRequest request uri host port⟩)
    (answers : env.upstream s.contacts.length out = answer) :
    Proc.wp (exchange env request requestUri host port uri)
      (fun round s' => RoundDone env requestUri host port uri answer
        { s with contacts := s.contacts ++ [out] } s' round)
      (fun f s' => RoundThrew env requestUri answer { s with contacts := s.contacts ++ [out] } s' f)
      s := by
  subst sent
  rw [exchange]
  simp only [contact, Proc.wp_bind, Proc.wp_get, Proc.wp_modify, Proc.wp_pure, answers]
  cases answer with
  | error errorInfo => exact RoundDone.failed rfl rfl
  | stream chunks eof =>
      cases first : readUntil crlf chunks [] with
      | none =>
          simp only [first]
          exact RoundDone.failed (by simp [delivery, first]) rfl
      | some read =>
          obtain ⟨buf, chunks'⟩ := read
          simp only [first, Proc.wp_bind, Proc.wp_ofOption]
          cases number : (readStatusLine buf).1.code with
          | none =>
              exact RoundThrew.indeterminate (by simp [delivery, first, number]) rfl
          | some code =>
              simp only [Option.elim_some]
              cases second : readUntil crlfcrlf chunks' (readStatusLine buf).2.buf with
              | none =>
                  rw [readResponse, second]
                  exact RoundDone.failed (by simp [delivery, first, number, second]) rfl
              | some read =>
                  obtain ⟨buf', chunks''⟩ := read
                  have arrived : delivery (.stream chunks eof) = .response
                      { line := (readStatusLine buf).1, code
                        entries := if (readStatusLine buf).2.good then getlines buf' else []
                        buf := buf', chunks := chunks'', eof } := by
                    simp [delivery, first, number, second]
                  exact readResponse_wp requestUri host port uri arrived _ chunks' rfl second

theorem createDirectories_halts (directories : List Bytes) :
    (createDirectories env directories).Halts := by
  induction directories with
  | nil => exact Proc.halts_pure _
  | cons directory directories ih =>
      refine Proc.halts_get.bind fun s => Proc.Halts.ite ih ?_
      exact (Proc.halts_ofOption _ _).bind fun files => (Proc.halts_modify _).bind fun _ => ih

theorem exchange_halts (request : Request) (requestUri host port uri : Bytes) :
    (exchange env request requestUri host port uri).Halts := by
  refine (Proc.halts_get.bind fun s => (Proc.halts_modify _).bind fun _ => Proc.halts_pure _).bind
    fun answer => ?_
  cases answer with
  | error errorInfo => exact Proc.halts_pure _
  | stream chunks eof =>
      dsimp only
      cases readUntil crlf chunks [] with
      | none => exact Proc.halts_pure _
      | some read =>
          refine (Proc.halts_ofOption _ _).bind fun code => ?_
          unfold readResponse
          cases readUntil crlfcrlf read.2 (readStatusLine read.1).2.buf with
          | none => exact Proc.halts_pure _
          | some read' =>
              refine (headerLoop_halts _ _).bind fun head => Proc.Halts.ite ?_ ?_
              · cases head.location with
                | none => exact Proc.halts_pure _
                | some location => exact Proc.halts_pure _
              · refine Proc.Halts.ite (Proc.halts_pure _) (Proc.Halts.ite ?_ (Proc.halts_pure _))
                refine Proc.Halts.bind ?_ fun _ => Proc.halts_pure _
                exact (createDirectories_halts _).bind fun _ => Proc.halts_modify _

end Round
end TscServer.Proof
