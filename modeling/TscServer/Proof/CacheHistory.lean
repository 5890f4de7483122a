import TscServer.Proof.Calls
import TscServer.Spec.CacheHistory

/-!
# Where the entries of a cache come from

Every call has a history of what it put into the cache, and so has every run. The entry of a key is
the one of its latest event, and an event says from which response its ETag and its expiration were
read.
-/

namespace TscServer.Proof
open Lib Model Spec ProxyHandler

/-! ## Histories of calls -/

def responseTo (answer : Answer) : Option Delivered :=
  match delivery answer with
  | .response d => some d
  | _ => none

-- the response to the last contact
def lastResponse (env : Environment) (s : ProxyState) : Option Delivered :=
  s.contacts.getLast?.bind fun out => responseTo (env.upstream (s.contacts.length - 1) out)

/-- How a call ends; `source` is the response that the upstream gave for it. -/
inductive Ending where
  | returned (status : Status) (answer : Response) (source : Option Delivered)
  | threw

section History
variable (env : Environment) (handler : ProxyHandler)

inductive ForwardHistory (request : Request) (s : ProxyState) : CacheHistory → Ending → ProxyState → Prop
  | unstored {status : Status} {answer : Response} {s' : ProxyState} :
      SendsDone env handler request s status answer s' → (∀ d ∈ lastResponse env s', ¬ Caches d) →
      s'.cache = s.cache → ForwardHistory request s [] (.returned status answer (lastResponse env s')) s'
  | stored {status : Status} {answer : Response} {s' : ProxyState} {d : Delivered}
      {sign : CacheSign} : SendsDone env handler request s status answer s' →
      lastResponse env s' = some d → Caches d → sign.eTag = tagStored d →
      Granted env d s.readings s'.readings sign.expiration →
      s'.cache = s.cache.insert (requestKey handler request) sign →
      ForwardHistory request s [.stored (requestKey handler request) sign d]
        (.returned status answer (some d)) s'
  | threw {f : Fault} {s' : ProxyState} : SendsThrew env handler request s f s' →
      s'.cache = s.cache → ForwardHistory request s [] .threw s'

-- what `operator[]` does on the way from one state to another
def lookedUp (key : Bytes) (s s' : ProxyState) : CacheHistory :=
  if (s.cache.lookup key).isNone && (s'.cache.lookup key).isSome then [.defaulted key] else []

/-- What a call puts into the cache. A call that finds an expired entry takes it out, and calls the
handler again. -/
inductive CallHistory : Request → ProxyState → CacheHistory → Ending → ProxyState → Prop
  | sent {request : Request} {s s' : ProxyState} {history : CacheHistory} {ending : Ending} :
      s.cache.lookup (requestKey handler request) = none →
      ForwardHistory env handler request s history ending s' → CallHistory request s history ending s'
  | hit {request : Request} {s s' : ProxyState} {sign : CacheSign} {response : Response} :
      Hit env handler request s sign false → Looked (requestKey handler request) (clockRead s) s' →
      CallHistory request s [] (.returned .ok response none) s'
  | broken {request : Request} {s s' : ProxyState} {sign : CacheSign} {eTag : Bytes}
      {history : CacheHistory} : Hit env handler request s sign true →
      CallHistory (handler.revalidation (requestUri handler request) eTag)
        (withoutEntry s (requestKey handler request)) history .threw s' →
      CallHistory request s history .threw s'
  | unread {request : Request} {s mid s' : ProxyState} {sign : CacheSign} {eTag : Bytes}
      {history : CacheHistory} {status : Status} {answer : Response} {source : Option Delivered}
      {f : Fault} : Hit env handler request s sign true →
      CallHistory (handler.revalidation (requestUri handler request) eTag)
        (withoutEntry s (requestKey handler request)) history (.returned status answer source) mid →
      EntryThrew status answer mid f s' → CallHistory request s history .threw s'
  | replaced {request : Request} {s mid s' : ProxyState} {sign : CacheSign} {eTag : Bytes}
      {history : CacheHistory} {status : Status} {answer response : Response}
      {source : Option Delivered} : Hit env handler request s sign true →
      CallHistory (handler.revalidation (requestUri handler request) eTag)
        (withoutEntry s (requestKey handler request)) history (.returned status answer source) mid →
      EntryUpdate env (requestKey handler request) status answer mid true mid →
      Looked (requestKey handler request) mid s' →
      CallHistory request s (lookedUp (requestKey handler request) mid s' ++ history)
        (.returned .ok response none) s'
  | renewed {request : Request} {s mid after s' : ProxyState} {sign sign' : CacheSign} {eTag : Bytes}
      {history : CacheHistory} {answer response : Response} {source : Option Delivered} :
      Hit env handler request s sign true →
      CallHistory (handler.revalidation (requestUri handler request) eTag)
        (withoutEntry s (requestKey handler request)) history (.returned .ok answer source) mid →
      contains (bytes "304") (statusLineOf answer.toBytes) = true →
      RearmRead env (getlines answer.toBytes).tail {} mid (some sign') after →
      Looked (requestKey handler request) (rearm after (requestKey handler request) sign') s' →
      CallHistory request s (.rearmed (requestKey handler request) sign' source :: history)
        (.returned .ok response none) s'
  | refetched {request : Request} {s mid mid' s' : ProxyState} {sign : CacheSign} {eTag : Bytes}
      {history later : CacheHistory} {status : Status} {answer : Response}
      {source : Option Delivered} {ending : Ending} : Hit env handler request s sign true →
      CallHistory (handler.revalidation (requestUri handler request) eTag)
        (withoutEntry s (requestKey handler request)) history (.returned status answer source) mid →
      EntryUpdate env (requestKey handler request) status answer mid false mid' →
      ForwardHistory env handler request mid' later ending s' →
      CallHistory request s (later ++ history) ending s'

/-- What a run of calls put into the cache, from a handler whose cache is empty. -/
inductive RunHistory (files : FileTree Bytes Bytes) : ProxyState → CacheHistory → Prop
  | start : RunHistory files { files } []
  | call {s s' : ProxyState} {request : Request} {earlier history : CacheHistory} {ending : Ending} :
      RunHistory files s earlier → CallHistory env handler request s history ending s' →
      RunHistory files s' (history ++ earlier)

end History

/-! ## Every call has one -/

section Exists
variable {env : Environment} {handler : ProxyHandler} {request : Request} {s s' : ProxyState}

theorem Granted.mono {d : Delivered} {first first' last last' : Nat} {expire : Ptime}
    (granted : Granted env d first last expire) (low : first' ≤ first) (high : last ≤ last') :
    Granted env d first' last' expire := by
  obtain ⟨line, mem, life, positive, grants, j, above, below, same⟩ := granted
  exact ⟨line, mem, life, positive, grants, j, low.trans above, lt_of_lt_of_le below high, same⟩

theorem lastResponse_contacted (env : Environment) {mid : ProxyState} {out : Outgoing}
    (contacts : s'.contacts = (contacted mid out).contacts) :
    lastResponse env s' = responseTo (env.upstream mid.contacts.length out) := by
  simp [lastResponse, contacts, contacted]

theorem lastResponse_of_ok {answer : Response} (sends : SendsDone env handler request s .ok answer s') :
    ∃ d, lastResponse env s' = some d ∧ answer = Response.setRawResponse {} d.raw ∧
      CallResponse env s s' d := by
  obtain ⟨mid, outs, out, ends, round⟩ := sends
  obtain ⟨d, arrived, final, -, text⟩ := roundDone_ok round
  have contacts := (roundDone_extends round).2
  have low := ends.approach.extends.contacts.length_le
  refine ⟨d, ?_, text, mid.contacts.length, out, low, ?_, arrived, final⟩
  · rw [lastResponse_contacted env contacts, responseTo, arrived]
  · rw [contacts]
    simp [contacted]

theorem usable_cases {key : Bytes} {status : Status} {answer : Response} {usable : Bool}
    {mid mid' : ProxyState} (update : EntryUpdate env key status answer mid usable mid')
    (used : usable = true) : status = .ok ∧
      (mid' = mid ∧ contains (bytes "304") (statusLineOf answer.toBytes) = false ∨
        contains (bytes "304") (statusLineOf answer.toBytes) = true ∧
          ∃ sign after, RearmRead env (getlines answer.toBytes).tail {} mid (some sign) after ∧
            mid' = rearm after key sign) := by
  cases update with
  | failed => cases used
  | other ok counts => exact ⟨ok, .inl ⟨rfl, counts⟩⟩
  | unusable => cases used
  | rearmed ok counts read => exact ⟨ok, .inr ⟨counts, _, _, read, rfl⟩⟩

theorem unusable_cache {key : Bytes} {status : Status} {answer : Response} {usable : Bool}
    {mid mid' : ProxyState} (update : EntryUpdate env key status answer mid usable mid')
    (unused : usable = false) : mid'.cache = mid.cache := by
  cases update with
  | failed => rfl
  | other => rfl
  | unusable ok counts read =>
      obtain ⟨k, ticked⟩ := read.ticked
      exact ticked.touched.cache
  | rearmed => cases unused

theorem exists_forwardHistory_done {status : Status} {response : Response}
    (done : SendsDone env handler request s status response s') :
    ∃ history source,
      ForwardHistory env handler request s history (.returned status response source) s' := by
  obtain ⟨mid, outs, out, ends, round⟩ := id done
  have last := lastResponse_contacted env (roundDone_extends round).2
  have before : s.cache = mid.cache := ends.approach.cache.symm
  cases round with
  | failed failed same =>
      refine ⟨[], _, .unstored done ?_ (by rw [same, before]; rfl)⟩
      simp [last, responseTo, failed]
  | plain arrived safe notCached ticked same =>
      refine ⟨[], _, .unstored done ?_ (by rw [ticked, before]; rfl)⟩
      simpa [last, responseTo, arrived] using notCached
  | @cached d k mid' sign arrived safe caches ticked granted stored tag =>
      refine ⟨_, _, .stored done (by rw [last, responseTo, arrived]) caches tag ?_ ?_⟩
      · exact granted.mono ends.approach.readings (by rw [stored.readings])
      · rw [stored.cache, ticked, before]
        rfl

theorem exists_forwardHistory_threw {f : Fault} (threw : SendsThrew env handler request s f s') :
    ∃ history, ForwardHistory env handler request s history .threw s' := by
  obtain ⟨mid, outs, out, ends, round⟩ := id threw
  have before : s.cache = mid.cache := ends.approach.cache.symm
  refine ⟨[], .threw threw ?_⟩
  cases round with
  | indeterminate failed same => rw [same, before]; rfl
  | header arrived fault bad ticked =>
      obtain ⟨k, ticked⟩ := ticked
      rw [ticked, before]
      rfl
  | directory arrived safe caches blocked touched => rw [touched.cache, before]; rfl

theorem exists_callHistory_done {status : Status} {response : Response}
    (done : CallDone env handler request s status response s') :
    ∃ history source,
      CallHistory env handler request s history (.returned status response source) s' := by
  induction done with
  | miss absent sends =>
      obtain ⟨history, source, forwarded⟩ := exists_forwardHistory_done sends
      exact ⟨history, source, .sent absent forwarded⟩
  | hit hit readable serves => exact ⟨[], none, .hit hit serves.1⟩
  | revalidated hit inner update readable serves ih =>
      obtain ⟨history, source, called⟩ := ih
      obtain ⟨rfl, ⟨rfl, -⟩ | ⟨counts, sign, after, read, rfl⟩⟩ := usable_cases update rfl
      · exact ⟨_, none, .replaced hit called update serves.1⟩
      · exact ⟨_, none, .renewed hit called counts read serves.1⟩
  | refetched hit inner update sends ih =>
      obtain ⟨history, source, called⟩ := ih
      obtain ⟨later, source', forwarded⟩ := exists_forwardHistory_done sends
      exact ⟨_, source', .refetched hit called update forwarded⟩

theorem exists_callHistory_threw {f : Fault} (threw : CallThrew env handler request s f s') :
    ∃ history, CallHistory env handler request s history .threw s' := by
  induction threw with
  | miss absent sends =>
      obtain ⟨history, forwarded⟩ := exists_forwardHistory_threw sends
      exact ⟨history, .sent absent forwarded⟩
  | revalidating hit inner ih =>
      obtain ⟨history, called⟩ := ih
      exact ⟨history, .broken hit called⟩
  | updating hit inner update =>
      obtain ⟨history, source, called⟩ := exists_callHistory_done inner
      exact ⟨history, .unread hit called update⟩
  | refetching hit inner update sends =>
      obtain ⟨history, source, called⟩ := exists_callHistory_done inner
      obtain ⟨later, forwarded⟩ := exists_forwardHistory_threw sends
      exact ⟨_, .refetched hit called update forwarded⟩

theorem exists_runHistory {files : FileTree Bytes Bytes}
    (run : Relation.ReflTransGen (fun s s' => ∃ request, Call env handler request s s') { files } s) :
    ∃ history, RunHistory env handler files s history := by
  induction run with
  | refl => exact ⟨[], .start⟩
  | tail _ step ih =>
      obtain ⟨request, call⟩ := step
      obtain ⟨earlier, before⟩ := ih
      rcases call_cases call with ⟨status, response, done⟩ | ⟨f, threw⟩
      · obtain ⟨history, source, called⟩ := exists_callHistory_done done
        exact ⟨_, before.call called⟩
      · obtain ⟨history, called⟩ := exists_callHistory_threw threw
        exact ⟨_, before.call called⟩

end Exists

/-! ## What the entries were read from -/

def tagRenewed (d : Delivered) : Bytes := ((renewalLines d).filterMap renewedTag).getLast?.getD []

def FromResponse (env : Environment) (readings : Nat) : CacheEvent → Prop
  | .stored _ sign d =>
      Caches d ∧ sign.eTag = tagStored d ∧ Granted env d 0 readings sign.expiration
  | .rearmed _ sign (some d) => contains (bytes "304") d.statusLine = true ∧
      sign.eTag = tagRenewed d ∧ (sign.expiration = .notADateTime ∨
        Rearmed env (renewalLines d) 0 readings sign.expiration)
  | .rearmed _ _ none => True
  | .defaulted _ => True

/-- The invariant. -/
structure Recorded (env : Environment) (history : CacheHistory) (s : ProxyState) : Prop where
  latest : ∀ key sign, s.cache.lookup key = some sign → latestSign key history = some sign
  sources : ∀ event ∈ history, FromResponse env s.readings event

section Recorded
variable {env : Environment} {handler : ProxyHandler} {request : Request} {s s' : ProxyState}
  {earlier history : CacheHistory} {ending : Ending}

theorem Rearmed.mono {headers : List Bytes} {first first' last last' : Nat} {expire : Ptime}
    (rearmed : Rearmed env headers first last expire) (low : first' ≤ first) (high : last ≤ last') :
    Rearmed env headers first' last' expire := by
  obtain ⟨header, mem, control, age, life, positive, parses, j, above, below, same⟩ := rearmed
  exact ⟨header, mem, control, age, life, positive, parses, j, low.trans above,
    lt_of_lt_of_le below high, same⟩

theorem FromResponse.mono {event : CacheEvent} {readings readings' : Nat}
    (source : FromResponse env readings event) (le : readings ≤ readings') :
    FromResponse env readings' event := by
  cases event with
  | stored key sign d => exact ⟨source.1, source.2.1, source.2.2.mono le_rfl le⟩
  | rearmed key sign answer =>
      cases answer with
      | none => trivial
      | some d =>
          exact ⟨source.1, source.2.1, source.2.2.imp_right fun rearmed => rearmed.mono le_rfl le⟩
  | defaulted key => trivial

theorem latestSign_cons_self (event : CacheEvent) (earlier : CacheHistory) :
    latestSign event.key (event :: earlier) = some event.sign := by
  simp [latestSign]

theorem latestSign_cons_ne {key : Bytes} {event : CacheEvent} (other : event.key ≠ key)
    (earlier : CacheHistory) : latestSign key (event :: earlier) = latestSign key earlier := by
  simp [latestSign, other]

@[simp] theorem lineage_stored (key : Bytes) (sign : CacheSign) (d : Delivered)
    (earlier : CacheHistory) : lineage key (.stored key sign d :: earlier) = some [d] := by
  simp [lineage, CacheEvent.key]

@[simp] theorem lineage_rearmed (key : Bytes) (sign : CacheSign) (source : Option Delivered)
    (earlier : CacheHistory) : lineage key (.rearmed key sign source :: earlier) =
      (source.filter (·.code = 304)).bind fun d => (lineage key earlier).map (d :: ·) := by
  simp [lineage, CacheEvent.key]

@[simp] theorem lineage_defaulted (key : Bytes) (earlier : CacheHistory) :
    lineage key (.defaulted key :: earlier) = none := by
  simp [lineage, CacheEvent.key]

theorem lineage_cons_ne {key : Bytes} {event : CacheEvent} (other : event.key ≠ key)
    (earlier : CacheHistory) : lineage key (event :: earlier) = lineage key earlier := by
  cases event with
  | stored key' sign d => exact if_neg other
  | rearmed key' sign source => exact if_neg other
  | defaulted key' => exact if_neg other

theorem Recorded.mono (recorded : Recorded env earlier s)
    (kept : ∀ key sign, s'.cache.lookup key = some sign → s.cache.lookup key = some sign)
    (le : s.readings ≤ s'.readings) : Recorded env earlier s' :=
  ⟨fun key sign present => recorded.latest key sign (kept key sign present),
    fun event mem => (recorded.sources event mem).mono le⟩

theorem Recorded.same (recorded : Recorded env earlier s) (same : s'.cache = s.cache)
    (le : s.readings ≤ s'.readings) : Recorded env earlier s' :=
  recorded.mono (fun _ _ present => same ▸ present) le

theorem Recorded.cons (recorded : Recorded env earlier s) (event : CacheEvent)
    (inserted : s'.cache = s.cache.insert event.key event.sign) (le : s.readings ≤ s'.readings)
    (source : FromResponse env s'.readings event) : Recorded env (event :: earlier) s' := by
  constructor
  · intro key sign present
    rw [inserted] at present
    by_cases here : event.key = key
    · subst here
      rw [AList.lookup_insert] at present
      rw [latestSign_cons_self, present]
    · rw [AList.lookup_insert_ne (Ne.symm here)] at present
      rw [latestSign_cons_ne here]
      exact recorded.latest key sign present
  · exact List.forall_mem_cons.mpr ⟨source, fun other mem => (recorded.sources other mem).mono le⟩

theorem recorded_withoutEntry (recorded : Recorded env earlier s) (key : Bytes) :
    Recorded env earlier (withoutEntry s key) := by
  refine recorded.mono (fun key' sign present => ?_) (Nat.le_succ _)
  by_cases here : key' = key
  · rw [here, withoutEntry, AList.lookup_erase] at present
    cases present
  · rwa [withoutEntry, AList.lookup_erase_ne here] at present

theorem recorded_lookedUp {key : Bytes} (recorded : Recorded env earlier s)
    (looked : Looked key s s') : Recorded env (lookedUp key s s' ++ earlier) s' := by
  rcases looked.cache with same | ⟨absent, inserted⟩
  · have nothing : lookedUp key s s' = [] := by
      rw [lookedUp, same, if_neg]
      cases s.cache.lookup key <;> simp
    rw [nothing]
    exact recorded.same same looked.readings
  · have made : lookedUp key s s' = [.defaulted key] := by
      rw [lookedUp, absent, inserted, AList.lookup_insert]
      rfl
    rw [made]
    exact recorded.cons (.defaulted key) inserted looked.readings trivial

theorem forwardHistory_extends (forwarded : ForwardHistory env handler request s history ending s') :
    Extends s s' := by
  cases forwarded with
  | unstored sends => exact (loopDone_extends sends).1
  | stored sends => exact (loopDone_extends sends).1
  | threw sends => exact loopThrew_extends sends

theorem recorded_forwardHistory (recorded : Recorded env earlier s)
    (forwarded : ForwardHistory env handler request s history ending s') :
    Recorded env (history ++ earlier) s' := by
  have later := (forwardHistory_extends forwarded).readings
  cases forwarded with
  | unstored sends never same => exact recorded.same same later
  | stored sends last caches tag granted inserted =>
      exact recorded.cons (.stored _ _ _) inserted later
        ⟨caches, tag, granted.mono (Nat.zero_le _) le_rfl⟩
  | threw sends same => exact recorded.same same later

theorem keys_forwardHistory (forwarded : ForwardHistory env handler request s history ending s')
    {key : Bytes} (present : (s'.cache.lookup key).isSome) :
    (s.cache.lookup key).isSome ∨ key = requestKey handler request := by
  cases forwarded with
  | unstored sends never same => exact .inl (same ▸ present)
  | stored sends last caches tag granted inserted =>
      by_cases here : key = requestKey handler request
      · exact .inr here
      · rw [inserted, AList.lookup_insert_ne here] at present
        exact .inl present
  | threw sends same => exact .inl (same ▸ present)

/-- The response that a call returns with status ok, unless it was answered from a cache file, is the
one that the upstream gave last. -/
theorem forwardHistory_source {answer : Response} {d : Delivered}
    (forwarded : ForwardHistory env handler request s history (.returned .ok answer (some d)) s') :
    (∃ given, delivery given = .response d) ∧ answer = Response.setRawResponse {} d.raw := by
  have returned (sends : SendsDone env handler request s .ok answer s')
      (last : lastResponse env s' = some d) :
      (∃ given, delivery given = .response d) ∧ answer = Response.setRawResponse {} d.raw := by
    obtain ⟨d', last', text, n, out, -, -, arrived, -⟩ := lastResponse_of_ok sends
    obtain rfl := Option.some.inj (last'.symm.trans last)
    exact ⟨⟨_, arrived⟩, text⟩
  generalize source : some d = given at forwarded
  generalize ended : Ending.returned .ok answer given = ending at forwarded
  cases forwarded with
  | unstored sends never same =>
      cases ended
      exact returned sends source.symm
  | stored sends last caches tag granted inserted =>
      cases ended
      cases source
      exact returned sends last
  | threw sends same => cases ended

theorem callHistory_source {answer : Response} {d : Delivered}
    (called : CallHistory env handler request s history (.returned .ok answer (some d)) s') :
    (∃ given, delivery given = .response d) ∧ answer = Response.setRawResponse {} d.raw := by
  cases called with
  | sent absent forwarded => exact forwardHistory_source forwarded
  | refetched hit called update forwarded => exact forwardHistory_source forwarded

theorem headersOf_raw {given : Answer} {d : Delivered} (arrived : delivery given = .response d) :
    headersOf (getlines d.raw).tail = renewalLines d := by
  have oneLine := delivery_oneLine arrived
  rw [getlines_raw oneLine, List.tail_cons, headersOf_block oneLine.dropLast, renewalLines]

theorem fromResponse_rearmed {key : Bytes} {sign : CacheSign} {answer : Response}
    {source : Option Delivered} {mid : ProxyState}
    (text : ∀ d ∈ source, (∃ given, delivery given = .response d) ∧
      answer = Response.setRawResponse {} d.raw)
    (counts : contains (bytes "304") (statusLineOf answer.toBytes) = true)
    (read : RearmRead env (getlines answer.toBytes).tail {} mid (some sign) s) :
    FromResponse env s.readings (.rearmed key sign source) := by
  cases source with
  | none => trivial
  | some d =>
      obtain ⟨⟨given, arrived⟩, rfl⟩ := text d rfl
      rw [toBytes_setRawResponse (raw_ne_nil d)] at counts read
      rw [statusLineOf_raw arrived] at counts
      refine ⟨counts, ?_, ?_⟩
      · rw [read.eTag sign rfl, headersOf_raw arrived]
        rfl
      · rcases read.expiration sign rfl with never | rearmed
        · exact .inl never
        · rw [headersOf_raw arrived] at rearmed
          exact .inr (rearmed.mono (Nat.zero_le _) le_rfl)

theorem recorded_callHistory (recorded : Recorded env earlier s)
    (called : CallHistory env handler request s history ending s') :
    Recorded env (history ++ earlier) s' := by
  induction called with
  | sent absent forwarded => exact recorded_forwardHistory recorded forwarded
  | hit hit looked =>
      have before : Recorded env _ (clockRead _) := recorded.same rfl (Nat.le_succ _)
      refine before.same (looked.cache.resolve_right fun made => ?_) looked.readings
      cases hit.present.symm.trans made.1
  | broken hit inner ih => exact ih (recorded_withoutEntry recorded _)
  | unread hit inner threw ih =>
      obtain ⟨k, ticked⟩ := threw.ticked
      exact (ih (recorded_withoutEntry recorded _)).same ticked.touched.cache ticked.touched.readings
  | replaced hit inner update looked ih =>
      rw [List.append_assoc]
      exact recorded_lookedUp (ih (recorded_withoutEntry recorded _)) looked
  | @renewed request s mid after s' sign sign' eTag history answer response source hit inner counts
      read looked ih =>
      obtain ⟨k, ticked⟩ := read.ticked
      have middle := (ih (recorded_withoutEntry recorded _)).same ticked.touched.cache
        ticked.touched.readings
      have text : ∀ d ∈ source, (∃ given, delivery given = .response d) ∧
          answer = Response.setRawResponse {} d.raw :=
        fun d given => callHistory_source (given ▸ inner)
      have inserted : (rearm after (requestKey handler request) sign').cache =
          after.cache.insert (requestKey handler request) sign' := rfl
      have event : FromResponse env after.readings (.rearmed (requestKey handler request) sign' source) :=
        fromResponse_rearmed text counts read
      have renewed := middle.cons (.rearmed _ sign' source) inserted le_rfl event
      refine renewed.same (looked.cache.resolve_right fun made => ?_) looked.readings
      rw [rearm, AList.lookup_insert] at made
      cases made.1
  | refetched hit inner update forwarded ih =>
      rw [List.append_assoc]
      refine recorded_forwardHistory ?_ forwarded
      have before := ih (recorded_withoutEntry recorded _)
      exact before.same (unusable_cache update rfl) (entryUpdate_extends update).readings

theorem recorded_run {files : FileTree Bytes Bytes}
    (run : RunHistory env handler files s history) : Recorded env history s := by
  induction run with
  | start =>
      refine ⟨fun key sign present => ?_, nofun⟩
      cases (AList.lookup_empty key).symm.trans present
  | call _ called ih => exact recorded_callHistory ih called

end Recorded

/-! ## Single calls -/

section Single
variable {env : Environment} {handler : ProxyHandler} {request : Request} {s s' : ProxyState}
  {status : Status} {response : Response} {sign sign' : CacheSign} {d : Delivered}

theorem lastResponse_congr (env : Environment) (same : s'.contacts = s.contacts) :
    lastResponse env s' = lastResponse env s := by
  rw [lastResponse, same, lastResponse]

theorem unstored_of_last {history : CacheHistory} {source : Option Delivered}
    (forward : ForwardHistory env handler request s history (.returned status response source) s')
    (last : lastResponse env s' = some d) (never : ¬ Caches d) :
    history = [] ∧ source = some d ∧ s'.cache = s.cache := by
  cases forward with
  | unstored sends _ same => exact ⟨rfl, last, same⟩
  | stored sends last' caches =>
      obtain rfl := Option.some.inj (last'.symm.trans last)
      exact absurd caches never

theorem callHistory_stored (absent : Uncached handler s request)
    (done : CallDone env handler request s status response s')
    (present : s'.cache.lookup (requestKey handler request) = some sign)
    (last : lastResponse env s' = some d) :
    CallHistory env handler request s [.stored (requestKey handler request) sign d]
      (.returned status response (some d)) s' := by
  obtain ⟨history, source, forward⟩ := exists_forwardHistory_done (callDone_uncached absent done)
  cases id forward with
  | unstored sends never same =>
      rw [same] at present
      cases absent.symm.trans present
  | stored sends last' caches tag granted inserted =>
      rw [inserted, AList.lookup_insert] at present
      obtain rfl := Option.some.inj present
      obtain rfl := Option.some.inj (last'.symm.trans last)
      exact .sent absent forward

theorem callHistory_renewed (hit : Hit env handler request s sign true)
    (alone : Uncached handler (withoutEntry s (requestKey handler request))
      (handler.revalidation (requestUri handler request) []))
    (done : CallDone env handler request s status response s')
    (once : s'.contacts.length = s.contacts.length + 1) (last : lastResponse env s' = some d)
    (code : d.code = 304) (present : s'.cache.lookup (requestKey handler request) = some sign')
    (real : sign' ≠ {}) :
    ∃ response', CallHistory env handler request s [.rearmed (requestKey handler request) sign' (some d)]
      (.returned .ok response' none) s' := by
  cases done with
  | miss absent sends => cases absent.symm.trans hit.present
  | hit other readable serves =>
      obtain rfl := Option.some.inj (hit.present.symm.trans other.present)
      cases hit.expired.symm.trans other.expired
  | refetched other inner update sends =>
      have first := (loopDone_extends (revalidation_done alone inner)).2
      have second := (entryUpdate_extends update).contacts.length_le.trans_lt (loopDone_extends sends).2
      rw [once] at second
      exact absurd (first.trans_le (Nat.lt_succ_iff.mp second)) (lt_irrefl _)
  | @revalidated request s mid mid' s' status answer response other content eTag hit' inner update
      readable serves =>
      have looked := serves.1
      obtain ⟨history, source, forward⟩ := exists_forwardHistory_done (revalidation_done alone inner)
      have absent : (withoutEntry s (requestKey handler request)).cache.lookup
          (requestKey handler request) = none := AList.lookup_erase _ _
      have notStored : ¬ Caches d := fun caches => by
        have kept := cacheable_of_caches caches
        rw [code] at kept
        cases kept
      obtain ⟨rfl, ⟨rfl, -⟩ | ⟨counts, renewal, after, read, rfl⟩⟩ := usable_cases update rfl
      · rw [lastResponse_congr env looked.contacts] at last
        obtain ⟨-, -, same⟩ := unstored_of_last forward last notStored
        rw [← same] at absent
        rcases looked.cache with kept | ⟨-, inserted⟩
        · rw [kept, absent] at present
          cases present
        · rw [inserted, AList.lookup_insert] at present
          exact absurd (Option.some.inj present).symm real
      · obtain ⟨k, ticked⟩ := read.ticked
        have contacts : s'.contacts = after.contacts := looked.contacts
        rw [lastResponse_congr env (contacts.trans ticked.touched.contacts)] at last
        obtain ⟨rfl, rfl, -⟩ := unstored_of_last forward last notStored
        have inserted : (rearm after (requestKey handler request) renewal).cache.lookup
            (requestKey handler request) = some renewal := AList.lookup_insert _
        have kept := looked.cache.resolve_right fun made => by cases inserted.symm.trans made.1
        rw [kept, inserted] at present
        obtain rfl := Option.some.inj present
        exact ⟨response, .renewed hit (.sent (by exact alone) forward) counts read looked⟩

end Single
end TscServer.Proof
