import TscServer.Proof.DeclaredAges

/-!
# Freshness

Every entry of the cache that can be used without asking the upstream goes back to a `max-age` of the
response it was installed for. `freshEntries_call` is the step, `served_fresh` the result for runs.
-/

namespace TscServer.Proof
open Lib Model Spec ProxyHandler

/-- The expiration is a `max-age` that the response before the install declares, counted from a
reading of the clock. A revalidated entry goes back to a 304. -/
def FromMaxAge (env : Environment) (s : ProxyState) (install : Install) (expires : Int) : Prop :=
  ∃ n out d, install.contacts = n + 1 ∧ s.contacts[n]? = some out ∧
    delivery (env.upstream n out) = .response d ∧
    (if install.revalidated then d.code = 304 else d.code ≠ 302 ∧ d.code ≠ 304) ∧
    ∃ maxAge > 0, Declares d maxAge ∧ ∃ j < s.readings, expires = env.clock j + maxAge

-- what makes an expiration of an entry legitimate
def Justified (env : Environment) (s : ProxyState) (key : Bytes) (expires : Int) : Prop :=
  ∃ install ∈ s.installs, install.key = key ∧ install.sign.expiration = .at expires ∧
    FromMaxAge env s install expires

/-- The invariant. -/
def FreshEntries (env : Environment) (s : ProxyState) : Prop :=
  ∀ key sign expires, s.cache.lookup key = some sign → sign.expiration = .at expires →
    Justified env s key expires

section Invariant
variable {env : Environment} {s s' : ProxyState}

theorem Justified.mono {key : Bytes} {expires : Int} (justified : Justified env s key expires)
    (grown : Extends s s') : Justified env s' key expires := by
  obtain ⟨install, mem, same, expiration, n, out, d, contacts, sent, arrived, kind, maxAge, positive,
    declared, j, less, from_now⟩ := justified
  exact ⟨install, grown.installs.subset mem, same, expiration, n, out, d, contacts, grown.contact sent,
    arrived, kind, maxAge, positive, declared, j, lt_of_lt_of_le less grown.readings, from_now⟩

theorem FreshEntries.mono (fresh : FreshEntries env s) (grown : Extends s s')
    (entries : ∀ key sign, s'.cache.lookup key = some sign →
      s.cache.lookup key = some sign ∨ sign.expiration = .notADateTime) : FreshEntries env s' := by
  intro key sign expires present expiration
  rcases entries key sign present with before | never
  · exact (fresh key sign expires before expiration).mono grown
  · rw [never] at expiration
    cases expiration

theorem FreshEntries.insert (fresh : FreshEntries env s) (grown : Extends s s') {key : Bytes}
    {sign : CacheSign} (inserted : s'.cache = s.cache.insert key sign)
    (new : ∀ expires, sign.expiration = .at expires → Justified env s' key expires) :
    FreshEntries env s' := by
  intro key' sign' expires present expiration
  rw [inserted] at present
  by_cases same : key' = key
  · subst same
    rw [AList.lookup_insert] at present
    obtain rfl := Option.some.inj present
    exact new expires expiration
  · rw [AList.lookup_insert_ne same] at present
    exact (fresh key' sign' expires present expiration).mono grown

theorem freshEntries_touched (fresh : FreshEntries env s) (touched : Touched s s') :
    FreshEntries env s' :=
  fresh.mono touched.extends fun _ _ present => .inl (touched.cache ▸ present)

theorem freshEntries_looked {path : Bytes} (fresh : FreshEntries env s) (looked : Looked path s s') :
    FreshEntries env s' := by
  refine fresh.mono looked.extends fun key _ present => ?_
  rcases looked.cache with same | ⟨-, inserted⟩
  · exact .inl (same ▸ present)
  · rw [inserted] at present
    by_cases here : key = path
    · subst here
      rw [AList.lookup_insert] at present
      obtain rfl := Option.some.inj present
      exact .inr rfl
    · exact .inl (by rwa [AList.lookup_insert_ne here] at present)

theorem freshEntries_withoutEntry (fresh : FreshEntries env s) (path : Bytes) :
    FreshEntries env (withoutEntry s path) := by
  refine fresh.mono (withoutEntry_extends s path) fun key _ present => .inl ?_
  by_cases here : key = path
  · subst here
    rw [withoutEntry, AList.lookup_erase] at present
    cases present
  · rwa [withoutEntry, AList.lookup_erase_ne here] at present

end Invariant

section Rounds
variable {env : Environment} {request : Request} {requestUri host port uri : Bytes} {s s' : ProxyState}

/-- A stored response is the one just received, and its entry expires with an age that it grants. -/
theorem freshEntries_stored {out : Outgoing} {d : Delivered} {k : Nat} {mid : ProxyState}
    {sign : CacheSign} (fresh : FreshEntries env (contacted s out))
    (arrived : delivery (env.upstream s.contacts.length out) = .response d)
    (ticked : Ticked k (contacted s out) mid)
    (granted : Granted env d (contacted s out).readings mid.readings sign.expiration)
    (reads : ReadsAges d) (stored : Stored env requestUri sign d.raw mid s') : FreshEntries env s' := by
  have middle : FreshEntries env mid := freshEntries_touched fresh ticked.touched
  have further : Extends mid s' := by
    refine ⟨by rw [stored.contacts], ?_, by rw [stored.readings]⟩
    rw [stored.installs]
    exact List.prefix_append _ _
  refine middle.insert further stored.cache fun expires expiration => ?_
  obtain ⟨line, member, life, positive, grants, j, -, less, same⟩ := granted
  have contacts : mid.contacts = s.contacts ++ [out] := by rw [ticked, contacted]
  have code : d.code ≠ 302 ∧ d.code ≠ 304 := by
    simpa [cacheable] using cacheable_of_grants grants
  refine ⟨_, by rw [stored.installs]; exact List.mem_append_right _ (List.mem_singleton_self _),
    rfl, expiration, s.contacts.length, out, d, ?_, ?_, arrived, ?_, life, positive,
    declares_of_grants reads member positive grants, j, by rwa [stored.readings], ?_⟩
  · simp [contacts]
  · rw [stored.contacts, contacts]
    simp
  · exact code
  · rw [expiration] at same
    exact Ptime.at.inj same

theorem freshEntries_contacted (fresh : FreshEntries env s) {outs : List Outgoing} {mid : ProxyState}
    (approach : Approach env request s mid outs) (out : Outgoing) :
    FreshEntries env (contacted mid out) := by
  refine fresh.mono (approach.extends.trans ⟨List.prefix_append _ _, List.prefix_rfl, le_rfl⟩) ?_
  exact fun _ _ present => .inl (approach.cache ▸ present)

theorem freshEntries_loopDone {status : Status} {response : Response} (fresh : FreshEntries env s)
    (reads : ∀ d, CallResponse env s s' d → Caches d → ReadsAges d)
    (done : LoopDone env request requestUri host port uri s status response s') :
    FreshEntries env s' := by
  obtain ⟨mid, outs, out, ends, done⟩ := done
  have sent := freshEntries_contacted fresh ends.approach out
  cases done with
  | failed failed same =>
      rw [same]
      exact sent
  | plain arrived safe notCached ticked same => exact freshEntries_touched sent ticked.touched
  | cached arrived safe caches ticked granted stored =>
      have contacts : s'.contacts = mid.contacts ++ [out] := by
        rw [stored.contacts, ticked, contacted]
      have final := (Bool.and_eq_true _ _ |>.mp (cacheable_of_caches caches)).1
      have given : CallResponse env s s' _ :=
        ⟨_, out, ends.approach.extends.contacts.length_le, by simp [contacts], arrived, by simpa using final⟩
      exact freshEntries_stored sent arrived ticked granted (reads _ given caches) stored

theorem freshEntries_loopThrew {f : Fault} (fresh : FreshEntries env s)
    (threw : LoopThrew env request requestUri host port uri s f s') : FreshEntries env s' := by
  obtain ⟨mid, outs, out, ends, threw⟩ := threw
  have sent := freshEntries_contacted fresh ends.approach out
  cases threw with
  | indeterminate failed same =>
      rw [same]
      exact sent
  | header arrived fault bad ticked =>
      obtain ⟨k, ticked⟩ := ticked
      exact freshEntries_touched sent ticked.touched
  | directory arrived safe caches blocked touched => exact freshEntries_touched sent touched

end Rounds

/-! ## Calls -/

section Calls
variable {env : Environment} {handler : ProxyHandler} {request : Request} {s s' : ProxyState}

variable (env handler request s s') in
/-- The ages of a response that is stored are read from `max-age` directives. If the call revalidates
an entry, its revalidation request is not in the cache itself, and what is taken for a 304 is one, with
ages that are read from such directives. -/
structure HonestCall : Prop where
  ages : ∀ d, CallResponse env s s' d → Caches d → ReadsAges d
  alone : ∀ sign, Hit env handler request s sign true →
    Uncached handler (withoutEntry s (requestKey handler request))
      (handler.revalidation (requestUri handler request) [])
  renewals : ∀ sign d, Hit env handler request s sign true → CallResponse env s s' d →
    contains (bytes "304") d.statusLine = true → d.code = 304 ∧ ReadsRenewals d

theorem freshEntries_entryUpdate {requestUri host port uri path : Bytes} {status : Status}
    {answer : Response} {usable : Bool} {mid : ProxyState} (fresh : FreshEntries env mid)
    (done : LoopDone env request requestUri host port uri s status answer mid)
    (honest : usable = true → ∀ d, CallResponse env s mid d →
      contains (bytes "304") d.statusLine = true → d.code = 304 ∧ ReadsRenewals d)
    (update : EntryUpdate env path status answer mid usable s') : FreshEntries env s' := by
  cases update with
  | failed => exact fresh
  | other => exact fresh
  | unusable ok counts read =>
      obtain ⟨k, ticked⟩ := read.ticked
      exact freshEntries_touched fresh ticked.touched
  | @rearmed after sign ok counts read =>
      obtain ⟨k, ticked⟩ := read.ticked
      have middle := freshEntries_touched fresh ticked.touched
      subst ok
      obtain ⟨before, outs, out, ends, round⟩ := done
      obtain ⟨d, arrived, final, -, rfl⟩ := roundDone_ok round
      have oneLine := delivery_oneLine arrived
      rw [toBytes_setRawResponse (raw_ne_nil d)] at counts read
      rw [statusLineOf_raw arrived] at counts
      rw [getlines_raw oneLine, List.tail_cons] at read
      have contacts : after.contacts = before.contacts ++ [out] := by
        rw [ticked.touched.contacts, (roundDone_extends round).2, contacted]
      have sent : mid.contacts[before.contacts.length]? = some out := by
        rw [← ticked.touched.contacts, contacts]
        simp
      obtain ⟨code, reads⟩ := honest rfl d
        ⟨_, out, ends.approach.extends.contacts.length_le, sent, arrived, final⟩ counts
      refine middle.insert ⟨List.prefix_rfl, List.prefix_append _ _, le_rfl⟩ rfl ?_
      intro expires expiration
      rcases read.expiration sign rfl with same | rearmed
      · rw [expiration] at same
        cases same
      · obtain ⟨header, member, control, age, life, positive, parses, j, -, less, same⟩ := rearmed
        obtain ⟨line, mem, rfl⟩ := List.mem_map.mp (headersOf_block_subset oneLine.dropLast _ member)
        refine ⟨_, List.mem_append_right _ (List.mem_singleton_self _), rfl, expiration,
          before.contacts.length, out, d, ?_, ?_, arrived, code, life, positive,
          declares_of_renews reads mem ⟨control, age, positive, parses⟩, j, less, ?_⟩
        · simp [contacts]
        · simp [rearm, contacts]
        · rw [expiration] at same
          exact Ptime.at.inj same

-- a response to the revalidation is one to the call
theorem CallResponse.ofRevalidation {path : Bytes} {mid : ProxyState} {d : Delivered}
    (given : CallResponse env (withoutEntry s path) mid d) (later : Extends mid s') :
    CallResponse env s s' d := given.mono (withoutEntry_extends s path) later

theorem freshEntries_callDone {status : Status} {response : Response} (fresh : FreshEntries env s)
    (honest : HonestCall env handler request s s')
    (done : CallDone env handler request s status response s') : FreshEntries env s' := by
  cases done with
  | miss absent sends => exact freshEntries_loopDone fresh honest.ages sends
  | hit hit readable serves =>
      exact freshEntries_looked (freshEntries_touched fresh (Ticked.touched (k := 1) rfl)) serves.1
  | revalidated hit inner update readable serves =>
      have sends := revalidation_done (honest.alone _ hit) inner
      have later := (entryUpdate_extends update).trans serves.1.extends
      have before := freshEntries_loopDone (freshEntries_withoutEntry fresh _)
        (fun d given => honest.ages d (given.ofRevalidation later)) sends
      exact freshEntries_looked (freshEntries_entryUpdate before sends
        (fun _ d given => honest.renewals _ d hit (given.ofRevalidation later)) update) serves.1
  | refetched hit inner update sends' =>
      have sends := revalidation_done (honest.alone _ hit) inner
      have updated := entryUpdate_extends update
      have later := updated.trans (loopDone_extends sends').1
      have before := freshEntries_loopDone (freshEntries_withoutEntry fresh _)
        (fun d given => honest.ages d (given.ofRevalidation later)) sends
      have grown := (withoutEntry_extends s _).trans ((loopDone_extends sends).1.trans updated)
      exact freshEntries_loopDone (freshEntries_entryUpdate before sends (fun never => by cases never) update)
        (fun d given => honest.ages d (given.mono grown (Extends.refl _))) sends'

theorem freshEntries_callThrew {f : Fault} (fresh : FreshEntries env s)
    (honest : HonestCall env handler request s s')
    (threw : CallThrew env handler request s f s') : FreshEntries env s' := by
  cases threw with
  | miss absent sends => exact freshEntries_loopThrew fresh sends
  | revalidating hit inner =>
      have sends := revalidation_threw (honest.alone _ hit) inner
      exact freshEntries_loopThrew (freshEntries_withoutEntry fresh _) sends
  | updating hit inner update =>
      have sends := revalidation_done (honest.alone _ hit) inner
      obtain ⟨k, ticked⟩ := update.ticked
      have before := freshEntries_loopDone (freshEntries_withoutEntry fresh _)
        (fun d given => honest.ages d (given.ofRevalidation ticked.touched.extends)) sends
      exact freshEntries_touched before ticked.touched
  | refetching hit inner update sends' =>
      have sends := revalidation_done (honest.alone _ hit) inner
      have later := (entryUpdate_extends update).trans (loopThrew_extends sends')
      have before := freshEntries_loopDone (freshEntries_withoutEntry fresh _)
        (fun d given => honest.ages d (given.ofRevalidation later)) sends
      exact freshEntries_loopThrew
        (freshEntries_entryUpdate before sends (fun never => by cases never) update) sends'

variable (env handler) in
def HonestStep (s s' : ProxyState) : Prop :=
  ∃ request, Call env handler request s s' ∧ HonestCall env handler request s s'

theorem freshEntries_run {files : FileTree Bytes Bytes}
    (run : Relation.ReflTransGen (HonestStep env handler) { files } s) : FreshEntries env s := by
  induction run with
  | refl =>
      intro key sign expires present
      cases (AList.lookup_empty key).symm.trans present
  | tail _ step ih =>
      obtain ⟨request, call, honest⟩ := step
      rcases call_cases call with ⟨status, response, done⟩ | ⟨f, threw⟩
      · exact freshEntries_callDone ih honest done
      · exact freshEntries_callThrew ih honest threw

variable (env handler request s) in
/-- The entry of the request has not expired, and its expiration goes back to a `max-age`. -/
def UsesFreshEntry : Prop :=
  ∃ sign expires, s.cache.lookup (requestKey handler request) = some sign ∧
    sign.expiration = .at expires ∧ env.clock s.readings < expires ∧
    Justified env s (requestKey handler request) expires

/-- A call that sends nothing and is no revalidation uses an entry that has not expired. -/
theorem hit_of_silent {status : Status} {response : Response} (honest : HonestCall env handler request s s')
    (done : CallDone env handler request s status response s') (silent : s'.contacts.length = s.contacts.length) :
    ∃ sign, Hit env handler request s sign false := by
  have not_silent {t : ProxyState} (grown : Extends t s')
      (more : s.contacts.length < t.contacts.length) : False := by
    have length := grown.contacts.length_le
    rw [silent] at length
    omega
  cases done with
  | miss absent sends => exact (not_silent (Extends.refl _) (loopDone_extends sends).2).elim
  | hit hit readable serves => exact ⟨_, hit⟩
  | revalidated hit inner update readable serves =>
      have sends := revalidation_done (honest.alone _ hit) inner
      exact (not_silent ((entryUpdate_extends update).trans serves.1.extends)
        (loopDone_extends sends).2).elim
  | refetched hit inner update sends' =>
      have sends := revalidation_done (honest.alone _ hit) inner
      exact (not_silent ((entryUpdate_extends update).trans (loopDone_extends sends').1)
        (loopDone_extends sends).2).elim

/-- In a run of honest calls, what is answered without a contact is answered from an entry that has
not expired, and that expires with a `max-age` of the response it was installed for. -/
theorem served_fresh {files : FileTree Bytes Bytes} {fuel : Nat} {response response' : Response}
    (run : Relation.ReflTransGen (HonestStep env handler) { files } s)
    (honest : HonestCall env handler request s s')
    (ran : (handleRequest env handler fuel request response).run s = .done (.ok, response') s')
    (silent : s'.contacts.length = s.contacts.length) : UsesFreshEntry env handler request s := by
  have done := Proc.wp_done (handleRequest_wp fuel response) ran
  obtain ⟨sign, hit⟩ := hit_of_silent honest done silent
  cases expiration : sign.expiration with
  | notADateTime =>
      have expired := hit.expired
      rw [expiration] at expired
      cases expired
  | «at» expires =>
      have expired := hit.expired
      rw [expiration] at expired
      have unexpired : ¬ expires ≤ env.clock s.readings := of_decide_eq_false expired
      exact ⟨sign, expires, hit.present, expiration, Int.not_le.mp unexpired,
        freshEntries_run run _ _ _ hit.present expiration⟩

end Calls

/-! ## A second request, and a prefix that occurs twice -/

theorem served_fresh_again : ∃ s, s.contacts.length = 1 ∧
    UsesFreshEntry (scripted [agedAnswer (bytes "1000")]) demoProxy (getProxy (bytes "/proxy1/x")) s := by
  let env := scripted [agedAnswer (bytes "1000")]
  let again := getProxy (bytes "/proxy1/x")
  have computed : (afterCalls env demoProxy 3 [again] { files := emptyDisk }).any (fun s =>
      s.contacts.length == 1 && answersSilently env demoProxy again s &&
        (s.cache.lookup (requestKey demoProxy again)).all
          (!·.expiration.expired (env.clock s.readings))) = true := by
    decide
  obtain ⟨s, after, test⟩ := Option.any_eq_true _ _ |>.mp computed
  simp only [Bool.and_eq_true, beq_iff_eq] at test
  obtain ⟨⟨once, silent⟩, unexpired⟩ := test
  obtain ⟨response', s', ran, silent⟩ := exists_of_answersSilently silent
  have unexpired_hit (sign : CacheSign) : ¬ Hit env demoProxy again s sign true := by
    intro hit
    rw [hit.present, Option.all_some, hit.expired] at unexpired
    cases unexpired
  have first : HonestStep env demoProxy { files := emptyDisk } s := by
    obtain ⟨s₁, call, rest⟩ := Option.bind_eq_some_iff.mp after
    cases rest
    have absent (sign : CacheSign) : ¬ Hit env demoProxy again { files := emptyDisk } sign true := by
      intro hit
      cases (AList.lookup_empty _).symm.trans hit.present
    exact ⟨again, ⟨3, {}, call⟩, fun d ⟨_, _, _, _, arrived, _⟩ _ => readsAges_aged arrived,
      fun sign hit => absurd hit (absent sign), fun sign d hit => absurd hit (absent sign)⟩
  exact ⟨s, once, served_fresh (.single first) ⟨fun d ⟨_, _, _, _, arrived, _⟩ _ => readsAges_aged arrived,
    fun sign hit => absurd hit (unexpired_hit sign),
    fun sign d hit => absurd hit (unexpired_hit sign)⟩ ran silent⟩

/-- After the entry of the longer URI has expired, its revalidation is answered from the entry of the
shorter one, and the call from a file whose entry is gone. -/
theorem expired_entry_served : ¬ ∀ (env : Environment) (handler : ProxyHandler)
    (files : FileTree Bytes Bytes) (request : Request) (fuel : Nat) (response response' : Response)
    (s s' : ProxyState),
    Relation.ReflTransGen (fun s s' => ∃ request, Call env handler request s s') { files } s →
    (handleRequest env handler fuel request response).run s = .done (.ok, response') s' →
    s'.contacts.length = s.contacts.length → UsesFreshEntry env handler request s := by
  intro claim
  let env := scripted [agedAnswer (bytes "1000"), agedAnswer (bytes "1")]
  let twice := getProxy (bytes "/proxy1/proxy1/x")
  have computed : (afterCalls env demoProxy 3 [getProxy (bytes "/proxy1/x"), twice]
      { files := emptyDisk }).any (fun s => answersSilently env demoProxy twice s &&
        (s.cache.lookup (requestKey demoProxy twice)).all
          (·.expiration.expired (env.clock s.readings))) = true := by
    decide
  obtain ⟨s, after, test⟩ := Option.any_eq_true _ _ |>.mp computed
  simp only [Bool.and_eq_true] at test
  obtain ⟨response', s', ran, silent⟩ := exists_of_answersSilently test.1
  obtain ⟨sign, expires, present, expiration, unexpired, -⟩ :=
    claim env demoProxy emptyDisk twice 3 {} response' s s' (afterCalls_run after) ran silent
  have expired := test.2
  rw [present, Option.all_some, expiration] at expired
  exact absurd (of_decide_eq_true expired) (Int.not_le.mpr unexpired)

end TscServer.Proof
