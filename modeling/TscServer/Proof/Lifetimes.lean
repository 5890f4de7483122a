import TscServer.Proof.DeclaredAges
import TscServer.Proof.Validators
import TscServer.Spec.Lifetimes

/-!
# Lifetimes

The `max-age` values in answers from a cache file. `lifetime_right` says when they are what the entry
has left.
-/

namespace TscServer.Proof
open Lib Model Spec ProxyHandler

/-! ## What a file is served as -/

section Serving
variable {env : Environment} {path : Bytes} {s s' : ProxyState}

/-- The values are what the entry that was looked up has left. -/
structure ShownFrom (env : Environment) (path : Bytes) (s s' : ProxyState) (shown : List Shown) :
    Prop where
  looked : Looked path s s'
  values : ∀ value ∈ shown, s.readings ≤ value.reading ∧ value.reading < s'.readings ∧
    value.seconds = secondsLeft (env.clock value.reading) (usedSign path s).expiration

theorem ShownFrom.append {s'' : ProxyState} {shown later : List Shown}
    (first : ShownFrom env path s s' shown) (second : ShownFrom env path s' s'' later) :
    ShownFrom env path s s'' (shown ++ later) where
  looked := first.looked.trans second.looked
  values := by
    intro value mem
    rcases List.mem_append.mp mem with mem | mem
    · obtain ⟨low, high, seconds⟩ := first.values value mem
      exact ⟨low, high.trans_le second.looked.readings, seconds⟩
    · obtain ⟨low, high, seconds⟩ := second.values value mem
      rw [first.looked.usedSign] at seconds
      exact ⟨first.looked.readings.trans low, high, seconds⟩

theorem afterDate_le (n : Nat) (line : Bytes) : n ≤ afterDate n line := by
  rw [afterDate]
  split
  · exact Nat.le_succ n
  · exact le_rfl

theorem rewriteLine_shows (line : Bytes) : (rewriteLine env path line).twp
    (fun written s' => ∃ shown, LineShows (afterDate s.readings line) (datedLine env s.readings line)
      written shown s'.readings ∧ ShownFrom env path s s' shown) (fun _ _ => False) s := by
  apply Proc.twp_mono (rewriteLine_exact line) _ (fun _ _ never => never)
  rintro written s' ⟨looked, rewritten⟩
  generalize ended : s'.readings = n' at rewritten ⊢
  cases rewritten with
  | same free => exact ⟨[], .plain free, looked, nofun⟩
  | control control =>
      refine ⟨_, .control _ control, looked, fun value mem => ?_⟩
      split at mem
      · obtain rfl := List.mem_singleton.mp mem
        exact ⟨afterDate_le _ _, ended ▸ Nat.lt_succ_self _, rfl⟩
      · cases mem

theorem serveLines_shows (lines : List (Bytes × Option Bytes)) : (serveLines env path lines).twp
    (fun raw s' => ∃ shown, Shows env s.readings lines raw shown s'.readings ∧
      ShownFrom env path s s' shown) (fun _ _ => False) s := by
  induction lines generalizing s with
  | nil => exact ⟨[], .ended, Looked.refl path s, nofun⟩
  | cons entry lines ih =>
      obtain ⟨line, after⟩ := entry
      rw [serveLines]
      by_cases blank : line = [13]
      · rw [if_pos blank, blank]
        exact ⟨[], .blank, Looked.refl path s, nofun⟩
      · rw [if_neg blank, Proc.twp_bind]
        apply Proc.twp_mono (rewriteLine_shows line) _ (fun _ _ never => never)
        rintro written s' ⟨shown, here, from_entry⟩
        cases after with
        | none => exact ⟨shown, .last blank here, from_entry⟩
        | some rest =>
            rw [Proc.twp_bind]
            apply Proc.twp_mono ih _ (fun _ _ never => never)
            rintro following s'' ⟨later, there, from_entry'⟩
            exact ⟨shown ++ later, .line blank here there, from_entry.append from_entry'⟩

def ServesShown (env : Environment) (path : Bytes) (s s' : ProxyState) (response : Response) : Prop :=
  ∃ content shown, s.files.read (cachePath env path) = some content ∧
    Shows env s.readings (getlines content) response.rawResponse shown s'.readings ∧
    ShownFrom env path s s' shown

theorem serveFile_shows (response : Response) : (serveFile env path response).wp
    (fun response' s' => ServesShown env path s s' response') (fun _ _ => False) s := by
  cases readable : s.files.read (cachePath env path) with
  | none =>
      simp only [serveFile, Proc.wp_bind, Proc.wp_get, readable]
      trivial
  | some content =>
      simp only [serveFile, Proc.wp_bind, Proc.wp_get, readable]
      apply Proc.wp_mono (Proc.wp_of_twp (serveLines_shows (getlines content))) _
        (fun _ _ never => never)
      rintro raw s' ⟨shown, shows_, from_entry⟩
      exact ⟨content, shown, readable, shows_, from_entry⟩

end Serving

/-! ## Answers from the cache -/

section Answers
variable {env : Environment} {handler : ProxyHandler} {request : Request} {s s' : ProxyState}

variable (env handler request s) in
inductive ServesAfter : ProxyState → Prop
  | hit {sign : CacheSign} : Hit env handler request s sign false → ServesAfter (clockRead s)
  | revalidated {sign : CacheSign} {eTag : Bytes} {status : Status} {answer : Response}
      {mid mid' : ProxyState} : Hit env handler request s sign true →
      CallDone env handler (handler.revalidation (requestUri handler request) eTag)
        (withoutEntry s (requestKey handler request)) status answer mid →
      EntryUpdate env (requestKey handler request) status answer mid true mid' → ServesAfter mid'

theorem handleCache_wp (fuel : Nat) (response : Response) :
    (handleCache env handler (handleRequest env handler fuel) (requestUri handler request) response).wp
      (fun result s' => ∀ response' ∈ result, ∃ m, ServesAfter env handler request s m ∧
        ServesShown env (requestKey handler request) m s' response') (fun _ _ => True) s := by
  cases present : s.cache.lookup (requestKey handler request) with
  | none =>
      have absent : s.cache.lookup (cacheKey (requestUri handler request)) = none := present
      simp only [handleCache, Proc.wp_bind, Proc.wp_get, absent, Proc.wp_pure]
      exact fun _ mem => absurd mem (Option.not_mem_none _)
  | some sign =>
      have present' : s.cache.lookup (cacheKey (requestUri handler request)) = some sign := present
      have serves (m : ProxyState) (after : ServesAfter env handler request s m) :
          (serveFile env (requestKey handler request) response >>= fun served =>
            pure (some served)).wp (fun result s' => ∀ response' ∈ result, ∃ m,
              ServesAfter env handler request s m ∧
                ServesShown env (requestKey handler request) m s' response') (fun _ _ => True) m := by
        rw [Proc.wp_bind]
        apply Proc.wp_mono (serveFile_shows response) _ (fun _ _ never => never.elim)
        rintro served s' shown response' mem
        obtain rfl := Option.some.inj mem
        exact ⟨m, after, shown⟩
      simp only [handleCache, localTime, Proc.wp_bind, Proc.wp_get, present', Proc.wp_modify,
        Proc.wp_pure]
      cases expired : sign.expiration.expired (env.clock s.readings) with
      | false =>
          simp only [Bool.false_eq_true, if_false]
          exact serves _ (.hit ⟨present, expired⟩)
      | true =>
          have hit : Hit env handler request s sign true := ⟨present, expired⟩
          obtain ⟨eTag, ran⟩ := updateCache_run env (s := clockRead s) handler
            (handleRequest env handler fuel) (requestUri handler request) (requestKey handler request)
          rw [if_pos rfl, Proc.wp_bind]
          show Proc.wp (updateCache env handler (handleRequest env handler fuel)
            (requestUri handler request) (requestKey handler request)) _ _ (clockRead s)
          rw [Proc.wp_congr ran, Proc.wp_bind]
          apply Proc.wp_mono (handleRequest_wp fuel {}) _ (fun _ _ _ => trivial)
          intro result mid inner
          apply Proc.wp_mono updateEntry_wp _ (fun _ _ _ => trivial)
          intro usable mid' update
          cases usable with
          | false =>
              simp only [Bool.false_eq_true, if_false, Proc.wp_pure]
              exact fun _ mem => absurd mem (Option.not_mem_none _)
          | true =>
              simp only [if_true]
              exact serves mid' (.revalidated hit inner update)

/-! ## Where the value comes from -/

variable (env handler request s s') in
/-- A call whose revalidation, if it needs one, leaves the entry with an age, and during which the
clock does not pass the expiration. -/
structure TimelyCall : Prop where
  sameKey : ∀ sign, Hit env handler request s sign true →
    requestKey handler (handler.revalidation (requestUri handler request) []) = requestKey handler request
  renewed : ∀ sign d, Hit env handler request s sign true → CallResponse env s s' d →
    contains (bytes "304") d.statusLine = true → RenewsAge d
  stored : ∀ sign d, Hit env handler request s sign true → CallResponse env s s' d →
    contains (bytes "304") d.statusLine = false → Caches d ∧ ReadsAges d
  unexpired : ∀ sign expires, Hit env handler request s sign false →
    sign.expiration = .at expires → ∀ i, s.readings ≤ i → i < s'.readings → env.clock i ≤ expires
  brief : ∀ sign d age, Hit env handler request s sign true → CallResponse env s s' d →
    Declares d age → 0 < age → ∀ j i, s.readings < j → j ≤ i → i < s'.readings →
      env.clock i ≤ env.clock j + age

variable (env) in
/-- The entry that is used, and the response that it comes from. -/
structure Living (key : Bytes) (m : ProxyState) (d : Delivered) (sign : CacheSign) (age : Int)
    (j : Nat) : Prop where
  present : m.cache.lookup key = some sign
  expiration : sign.expiration = .at (env.clock j + age)
  declared : Declares d age
  counted : j < m.readings

theorem declares_of_renewal {d : Delivered} {header : Bytes} {life : Int} (reads : ReadsRenewals d)
    (mem : header ∈ renewalLines d) (renews : Renews header life) : Declares d life := by
  obtain ⟨line, member, rfl⟩ := List.mem_map.mp ((List.takeWhile_sublist _).subset mem)
  exact declares_of_renews reads member renews

theorem exists_latest {key : Bytes} {history : CacheHistory} {sign : CacheSign}
    (latest : latestSign key history = some sign) : ∃ event ∈ history, event.sign = sign ∧
      latestResponse key history = event.response := by
  obtain ⟨event, found, rfl⟩ := Option.map_eq_some_iff.mp latest
  exact ⟨event, List.mem_of_find?_eq_some found, rfl, by rw [latestResponse, found]; rfl⟩

theorem living_of_recorded {history : CacheHistory} {key : Bytes} {sign : CacheSign} {expires : Int}
    (recorded : Recorded env history s) (ages : RightAges history)
    (present : s.cache.lookup key = some sign) (expiration : sign.expiration = .at expires) :
    ∃ d age j, latestResponse key history = some d ∧ Living env key s d sign age j := by
  obtain ⟨event, mem, rfl, response⟩ := exists_latest (recorded.latest key sign present)
  have source := recorded.sources event mem
  rw [response]
  cases event with
  | stored key' sign d =>
      obtain ⟨line, member, life, positive, grants, j, -, below, same⟩ := source.2.2
      have reads := ages.stored key' sign d mem
      exact ⟨d, life, j, rfl, present, same, declares_of_grants reads member positive grants, below⟩
  | rearmed key' sign given =>
      obtain ⟨d, rfl, right⟩ := ages.renewed key' sign given mem
      rcases source.2.2 with never | rearmed
      · cases expiration.symm.trans never
      · obtain ⟨header, member, control, maxAge, life, positive, parses, j, -, below, same⟩ := rearmed
        have declared := declares_of_renewal right.reads member ⟨control, maxAge, positive, parses⟩
        exact ⟨d, life, j, rfl, present, same, declared, below⟩
  | defaulted key' => cases expiration

variable (env handler request s s') in
/-- The values in an answer from the cache file are right, and no key was added on the way. -/
structure RightAnswer (files : FileTree Bytes Bytes) (response : Response) : Prop where
  keys : ∀ key, (s'.cache.lookup key).isSome → (s.cache.lookup key).isSome
  values : ∃ content n shown, s'.files.read (cachePath env (requestKey handler request)) = some content ∧
    Shows env n (getlines content) response.rawResponse shown s'.readings ∧
    ∀ value ∈ shown, ∃ history d, RunHistory env handler files s' history ∧
      latestResponse (requestKey handler request) history = some d ∧
      RightLifetime env (requestKey handler request) s' d value

theorem rightAnswer_of_living {files : FileTree Bytes Bytes} {response : Response} {m : ProxyState}
    {history : CacheHistory} {d : Delivered} {sign : CacheSign} {age : Int} {j : Nat}
    (served : ServesShown env (requestKey handler request) m s' response)
    (living : Living env (requestKey handler request) m d sign age j)
    (keys : ∀ key, (m.cache.lookup key).isSome → (s.cache.lookup key).isSome)
    (forward : ∀ i < s'.readings, j ≤ i → env.clock j ≤ env.clock i)
    (inTime : ∀ i < s'.readings, m.readings ≤ i → env.clock i ≤ env.clock j + age)
    (run : RunHistory env handler files s' history)
    (latest : latestResponse (requestKey handler request) history = some d) :
    RightAnswer env handler request s s' files response := by
  obtain ⟨content, shown, readable, shows_, looked, values⟩ := served
  have same : s'.cache = m.cache := looked.cache.resolve_right fun made => by
    cases living.present.symm.trans made.1
  have used : usedSign (requestKey handler request) m = sign := by
    rw [usedSign, living.present, Option.getD_some]
  refine ⟨same ▸ keys, content, m.readings, shown, looked.files ▸ readable, shows_, ?_⟩
  intro value mem
  obtain ⟨low, high, seconds⟩ := values value mem
  rw [used, living.expiration, secondsLeft] at seconds
  have before := forward value.reading high (living.counted.le.trans low)
  have after := inTime value.reading high low
  refine ⟨history, d, run, latest, ⟨sign, _, same ▸ living.present, living.expiration, seconds⟩, ?_, ?_⟩
  · rw [seconds]
    omega
  · exact ⟨age, living.declared, by rw [seconds]; omega⟩

theorem keys_withoutEntry {sign : CacheSign} {expired : Bool} {key : Bytes}
    (hit : Hit env handler request s sign expired)
    (present : ((withoutEntry s (requestKey handler request)).cache.lookup key).isSome ∨
      key = requestKey handler request) : (s.cache.lookup key).isSome := by
  by_cases here : key = requestKey handler request
  · rw [here, hit.present, Option.isSome_some]
  · have kept := present.resolve_right here
    rwa [withoutEntry, AList.lookup_erase_ne here] at kept

variable (env handler request s) in
/-- The entry that a revalidation leaves, and what it adds to the history. -/
structure Revived (m : ProxyState) (d : Delivered) (sign : CacheSign) (age : Int) (j : Nat)
    (history : CacheHistory) : Prop where
  living : Living env (requestKey handler request) m d sign age j
  later : s.readings < j
  positive : 0 < age
  keys : ∀ key, (m.cache.lookup key).isSome → (s.cache.lookup key).isSome
  latest : ∀ earlier, latestResponse (requestKey handler request) (history ++ earlier) = some d
  called : ∀ s', Looked (requestKey handler request) m s' →
    ∃ ending, CallHistory env handler request s history ending s'

section Revival
variable {sign : CacheSign} {eTag : Bytes} {answer : Response} {source : Option Delivered}
  {history : CacheHistory} {d : Delivered} {mid : ProxyState}

theorem revived_of_stored (hit : Hit env handler request s sign true)
    (same : requestKey handler (handler.revalidation (requestUri handler request) eTag) =
      requestKey handler request)
    (alone : Uncached handler (withoutEntry s (requestKey handler request))
      (handler.revalidation (requestUri handler request) eTag))
    (forward : ForwardHistory env handler (handler.revalidation (requestUri handler request) eTag)
      (withoutEntry s (requestKey handler request)) history (.returned .ok answer source) mid)
    (update : EntryUpdate env (requestKey handler request) .ok answer mid true mid)
    (last : lastResponse env mid = some d) (caches : Caches d) (reads : ReadsAges d) :
    ∃ sign' age j, Revived env handler request s mid d sign' age j history := by
  have keys {key : Bytes} (present : (mid.cache.lookup key).isSome) : (s.cache.lookup key).isSome :=
    keys_withoutEntry hit (same ▸ keys_forwardHistory forward present)
  have called : CallHistory env handler _ _ _ _ _ := .sent alone forward
  cases forward with
  | unstored sends never kept => exact absurd caches (never d last)
  | @stored _ _ _ d' sign' sends last' _ tag granted inserted =>
      obtain rfl := Option.some.inj (last'.symm.trans last)
      rw [same] at inserted
      obtain ⟨line, member, life, positive, grants, j, above, below, expiration⟩ := granted
      have present : mid.cache.lookup (requestKey handler request) = some sign' := by
        rw [inserted, AList.lookup_insert]
      have declared := declares_of_grants reads member positive grants
      refine ⟨sign', life, j, ⟨present, expiration, declared, below⟩, above, positive, fun key => keys,
        fun earlier => ?_, fun s' looked => ?_⟩
      · simp [latestResponse, CacheEvent.key, CacheEvent.response, same]
      · have nothing : lookedUp (requestKey handler request) mid s' = [] := by simp [lookedUp, present]
        have served : CallHistory env handler request s _ (.returned .ok answer none) s' :=
          .replaced hit called update looked
        rw [nothing, List.nil_append] at served
        exact ⟨_, served⟩

theorem revived_of_renewed {after : ProxyState} {renewal : CacheSign}
    (hit : Hit env handler request s sign true)
    (same : requestKey handler (handler.revalidation (requestUri handler request) eTag) =
      requestKey handler request)
    (alone : Uncached handler (withoutEntry s (requestKey handler request))
      (handler.revalidation (requestUri handler request) eTag))
    (forward : ForwardHistory env handler (handler.revalidation (requestUri handler request) eTag)
      (withoutEntry s (requestKey handler request)) history (.returned .ok answer (some d)) mid)
    (counts : contains (bytes "304") (statusLineOf answer.toBytes) = true)
    (read : RearmRead env (getlines answer.toBytes).tail {} mid (some renewal) after)
    (headers : headersOf (getlines answer.toBytes).tail = renewalLines d) (right : RenewsAge d) :
    ∃ age j, Revived env handler request s (rearm after (requestKey handler request) renewal) d renewal
      age j (.rearmed (requestKey handler request) renewal (some d) :: history) := by
  obtain ⟨header, mem, life, renews⟩ := right.renews
  have rearmed := read.renewed renewal rfl ⟨header, headers ▸ mem, life, renews⟩
  rw [headers] at rearmed
  obtain ⟨line, member, control, maxAge, age, positive, parses, j, above, below, expiration⟩ := rearmed
  obtain ⟨k, ticked⟩ := read.ticked
  have earlier : s.readings + 1 ≤ mid.readings := (forwardHistory_extends forward).readings
  have declared := declares_of_renewal right.reads member ⟨control, maxAge, positive, parses⟩
  refine ⟨age, j, ⟨AList.lookup_insert _, expiration, declared, below⟩,
    earlier.trans above, positive, fun key present => ?_, fun earlier => ?_, fun s' looked => ?_⟩
  · rw [rearm, ticked.touched.cache] at present
    by_cases here : key = requestKey handler request
    · exact keys_withoutEntry hit (.inr here)
    · rw [AList.lookup_insert_ne here] at present
      exact keys_withoutEntry hit (same ▸ keys_forwardHistory forward present)
  · simp [latestResponse, CacheEvent.key, CacheEvent.response]
  · exact ⟨.returned .ok answer none, .renewed hit (.sent alone forward) counts read looked⟩

end Revival

theorem exists_revived {sign : CacheSign} {eTag : Bytes} {status : Status} {answer : Response}
    {mid m : ProxyState} (timely : TimelyCall env handler request s s')
    (hit : Hit env handler request s sign true)
    (inner : CallDone env handler (handler.revalidation (requestUri handler request) eTag)
      (withoutEntry s (requestKey handler request)) status answer mid)
    (update : EntryUpdate env (requestKey handler request) status answer mid true m)
    (contacts : s'.contacts = m.contacts) :
    ∃ d sign' age j history, CallResponse env s s' d ∧
      Revived env handler request s m d sign' age j history := by
  have same : requestKey handler (handler.revalidation (requestUri handler request) eTag) =
      requestKey handler request := timely.sameKey sign hit
  have alone : Uncached handler (withoutEntry s (requestKey handler request))
      (handler.revalidation (requestUri handler request) eTag) := by
    show (withoutEntry s (requestKey handler request)).cache.lookup
      (requestKey handler (handler.revalidation (requestUri handler request) eTag)) = none
    rw [same]
    exact AList.lookup_erase _ _
  have sends := callDone_uncached alone inner
  obtain ⟨rfl, changed⟩ := usable_cases update rfl
  obtain ⟨d, last, text, n, out, low, sent, arrived, final⟩ := lastResponse_of_ok sends
  obtain ⟨history, source, forward⟩ := exists_forwardHistory_done sends
  have raw : answer.toBytes = d.raw := by rw [text, toBytes_setRawResponse (raw_ne_nil d)]
  rcases changed with ⟨rfl, counts⟩ | ⟨counts, renewal, after, read, rfl⟩
  · rw [raw, statusLineOf_raw arrived] at counts
    have response : CallResponse env s s' d := ⟨n, out, low, contacts ▸ sent, arrived, final⟩
    obtain ⟨caches, reads⟩ := timely.stored sign d hit response counts
    obtain ⟨sign', age, j, revived⟩ := revived_of_stored hit same alone forward update last caches reads
    exact ⟨d, sign', age, j, history, response, revived⟩
  · obtain ⟨k, ticked⟩ := read.ticked
    have kept : s'.contacts = mid.contacts := contacts.trans ticked.touched.contacts
    have response : CallResponse env s s' d := ⟨n, out, low, kept ▸ sent, arrived, final⟩
    have right : RenewsAge d := timely.renewed sign d hit response (by
      rwa [raw, statusLineOf_raw arrived] at counts)
    obtain rfl : source = some d := by
      cases forward with
      | unstored => exact last
      | stored sends last' => rw [← last, last']
    obtain ⟨age, j, revived⟩ := revived_of_renewed hit same alone forward counts read
      (by rw [raw, headersOf_raw arrived]) right
    exact ⟨d, renewal, age, j, _, response, revived⟩

/-- In every run: the values are right in an answer to a timely call, if the clock does not go back,
every 304 that renewed an entry gave it an age, and all ages were read from directives. -/
theorem lifetime_right {files : FileTree Bytes Bytes} {fuel : Nat} {response response' : Response}
    (run : Relation.ReflTransGen (fun s s' => ∃ request, Call env handler request s s') { files } s)
    (ran : (handleCache env handler (handleRequest env handler fuel) (requestUri handler request)
      response).run s = .done (some response') s') :
    (∃ history, RunHistory env handler files s history) ∧
      ∀ history, RunHistory env handler files s history → RightAges history →
        TimelyCall env handler request s s' →
        (∀ i j, i ≤ j → j < s'.readings → env.clock i ≤ env.clock j) →
        RightAnswer env handler request s s' files response' := by
  refine ⟨exists_runHistory run, fun history recorded ages timely forward => ?_⟩
  obtain ⟨m, after, served⟩ := Proc.wp_done (handleCache_wp fuel response) ran response' rfl
  have looked : Looked (requestKey handler request) m s' := by
    obtain ⟨content, shown, readable, shows_, from_entry⟩ := served
    exact from_entry.looked
  cases after with
  | @hit sign hit =>
      cases expiration : sign.expiration with
      | notADateTime =>
          have never := hit.expired
          rw [expiration] at never
          cases never
      | «at» expires =>
          obtain ⟨d, age, j, latest, living⟩ :=
            living_of_recorded (recorded_run recorded) ages hit.present expiration
          have within : j < s.readings := living.counted
          have called : CallHistory env handler request s [] (.returned .ok response' none) s' :=
            .hit hit looked
          refine rightAnswer_of_living served ⟨living.present, living.expiration,
            living.declared, within.trans (Nat.lt_succ_self _)⟩ (fun _ present => present)
            (fun i high low => forward j i low high) (fun i high low => ?_)
            (recorded.call called) latest
          exact timely.unexpired sign _ hit living.expiration i ((Nat.le_succ _).trans low) high
  | revalidated hit inner update =>
      obtain ⟨d, sign, age, j, later, given, revived⟩ :=
        exists_revived timely hit inner update looked.contacts
      obtain ⟨ending, called⟩ := revived.called s' looked
      refine rightAnswer_of_living served revived.living revived.keys
        (fun i high low => forward j i low high) (fun i high low => ?_)
        (recorded.call called) (revived.latest history)
      exact timely.brief _ d age hit given revived.living.declared revived.positive j i revived.later
        (revived.living.counted.le.trans low) high

end Answers

/-! ## A stored answer, and a 304 without an age -/

theorem exists_shown {env : Environment} {n n' : Nat} {first line raw a b : Bytes}
    {lines : List (Bytes × Option Bytes)} {shown : List Shown}
    (shows_ : Shows env n ((first, some a) :: (line, some b) :: lines) raw shown n')
    (solid : first ≠ [13]) (solid' : line ≠ [13]) (undated : contains (bytes "Date:") line = false)
    (control : contains (bytes "Cache-Control") line = true)
    (mentions : ((takenValue line).splitOn 44).any (contains (bytes "max-age")) = true) :
    ∃ value, value ∈ shown := by
  cases shows_ with
  | blank => exact absurd rfl solid
  | line _ here there =>
      cases there with
      | blank => exact absurd rfl solid'
      | line _ here' there' =>
          simp only [datedLine, undated, Bool.false_eq_true, if_false] at here'
          cases here' with
          | plain free => cases free.symm.trans control
          | control seconds _ =>
              rw [if_pos mentions]
              exact ⟨_, List.mem_append_right _ (List.mem_append_left _ (List.mem_singleton_self _))⟩

def agelessRenewal : Answer :=
  .stream [bytes "HTTP/1.1 304 Not Modified\r\nServer: x\r\n\r\n"] true

theorem not_lifetime_right : ¬ ∀ (env : Environment) (handler : ProxyHandler)
    (files : FileTree Bytes Bytes) (request : Request) (fuel : Nat) (response response' : Response)
    (s s' : ProxyState),
    Relation.ReflTransGen (fun s s' => ∃ request, Call env handler request s s') { files } s →
    (handleCache env handler (handleRequest env handler fuel) (requestUri handler request)
      response).run s = .done (some response') s' →
    RightAnswer env handler request s s' files response' := by
  intro claim
  let env := scripted [agedAnswer (bytes "1"), agelessRenewal]
  let stored := bytes "HTTP/1.1 200 OK\r\nCache-Control: max-age=1\n\r\na"
  have computed : ((handleRequest env demoProxy 3 renewedRequest {}).run { files := emptyDisk }).any
      (fun _ s => ((handleCache env demoProxy (handleRequest env demoProxy 3)
        (requestUri demoProxy renewedRequest) {}).run s).any fun answer s' => answer.isSome &&
          s'.files.read (cachePath env renewedKey) == some stored &&
          (s'.cache.lookup renewedKey).all (·.expiration == .notADateTime)) = true := by
    decide
  obtain ⟨result, s, ran, computed⟩ := Outcome.exists_done_of_any computed
  obtain ⟨answer, s', ran', test⟩ := Outcome.exists_done_of_any computed
  simp only [Bool.and_eq_true, beq_iff_eq] at test
  obtain ⟨⟨answered, readable⟩, never⟩ := test
  obtain ⟨response', rfl⟩ := Option.isSome_iff_exists.mp answered
  have run : Relation.ReflTransGen (fun s s' => ∃ request, Call env demoProxy request s s')
      { files := emptyDisk } s := .single (call_of_done ran)
  obtain ⟨-, content, n, shown, readable', shows_, right⟩ := claim env demoProxy emptyDisk renewedRequest
    3 {} response' s s' run ran'
  obtain rfl : stored = content := Option.some.inj (readable.symm.trans readable')
  have lines : getlines stored =
      (bytes "HTTP/1.1 200 OK\r", some (bytes "Cache-Control: max-age=1\n\r\na")) ::
      (bytes "Cache-Control: max-age=1", some (bytes "\r\na")) ::
      [([13], some (bytes "a")), (bytes "a", none)] := by decide
  rw [lines] at shows_
  obtain ⟨value, mem⟩ := exists_shown shows_ (by decide) (by decide) (by decide)
    (by decide) (by decide)
  obtain ⟨history, d, -, -, ⟨sign, expires, present, expiration, -⟩, -, -⟩ := right value mem
  have present' : s'.cache.lookup renewedKey = some sign := present
  rw [present', Option.all_some, expiration] at never
  cases never

theorem lifetime_right_hit : ∃ s s' response', (handleCache (scripted [agedAnswer (bytes "1000")])
    demoProxy (handleRequest (scripted [agedAnswer (bytes "1000")]) demoProxy 3)
      (requestUri demoProxy renewedRequest) {}).run s = .done (some response') s' ∧
    RightAnswer (scripted [agedAnswer (bytes "1000")]) demoProxy renewedRequest s s' emptyDisk
      response' := by
  let env := scripted [agedAnswer (bytes "1000")]
  have computed : ((handleRequest env demoProxy 3 renewedRequest {}).run { files := emptyDisk }).any
      (fun _ s => (lastResponse env s).isSome &&
        (s.cache.lookup renewedKey).any (fun sign => sign.expiration == .at 1000 &&
          !sign.expiration.expired (env.clock s.readings)) &&
        ((handleCache env demoProxy (handleRequest env demoProxy 3)
          (requestUri demoProxy renewedRequest) {}).run s).any fun answer s' =>
            answer.isSome && s'.readings == 3) = true := by
    decide
  obtain ⟨result, s, ran, test⟩ := Outcome.exists_done_of_any computed
  simp only [Bool.and_eq_true] at test
  obtain ⟨⟨last, entry⟩, served⟩ := test
  obtain ⟨d, last⟩ := Option.isSome_iff_exists.mp last
  obtain ⟨sign, present, entry⟩ := Option.any_eq_true _ _ |>.mp entry
  simp only [Bool.and_eq_true, beq_iff_eq, Bool.not_eq_true'] at entry
  obtain ⟨expiration, unexpired⟩ := entry
  obtain ⟨answer, s', ran', test⟩ := Outcome.exists_done_of_any served
  simp only [Bool.and_eq_true, beq_iff_eq] at test
  obtain ⟨answered, readings⟩ := test
  obtain ⟨response', rfl⟩ := Option.isSome_iff_exists.mp answered
  have done := Proc.wp_done (handleRequest_wp 3 {}) ran
  have absent : Uncached demoProxy { files := emptyDisk } renewedRequest := AList.lookup_empty _
  have history := RunHistory.start.call (callHistory_stored absent done present last)
  have not_expired (other : CacheSign) : ¬ Hit env demoProxy renewedRequest s other true := by
    intro hit
    obtain rfl := Option.some.inj (hit.present.symm.trans present)
    cases hit.expired.symm.trans unexpired
  have run : Relation.ReflTransGen (fun s s' => ∃ request, Call env demoProxy request s s')
      { files := emptyDisk } s := .single (call_of_done ran)
  obtain ⟨out, -, given⟩ := Option.bind_eq_some_iff.mp last
  have reads : ReadsAges d := readsAges_aged (delivery_eq given)
  refine ⟨s, s', response', ran', (lifetime_right run ran').2 _ history ⟨?_, ?_⟩ ⟨?_, ?_, ?_, ?_, ?_⟩ ?_⟩
  · intro key sign d' mem
    cases List.mem_singleton.mp mem
    exact reads
  · intro key sign source mem
    cases List.mem_singleton.mp mem
  · exact fun other hit => absurd hit (not_expired other)
  · exact fun other d hit => absurd hit (not_expired other)
  · exact fun other d hit => absurd hit (not_expired other)
  · intro other expires hit same i low high
    obtain rfl := Option.some.inj (hit.present.symm.trans present)
    obtain rfl := Ptime.at.inj (same.symm.trans expiration)
    rw [readings] at high
    show (i : Int) ≤ 1000
    omega
  · exact fun other d age hit => absurd hit (not_expired other)
  · intro i j le _
    show (i : Int) ≤ (j : Int)
    exact_mod_cast le

end TscServer.Proof
