import TscServer.Proof.Calls
import TscServer.Proof.Redirects

/-!
# The resource that is revalidated

The request of `UpdateCache` passes the removal of the prefix a second time. `stripPrefix_withSlash_iff`
says which URIs survive it, and `asksAgain_iff` that these are the ones that are asked for again.
-/

namespace TscServer.Proof
open Lib Model Spec ProxyHandler

/-! ## Removing the prefix twice -/

theorem withSlash_eq_cons (rest : Bytes) : ∃ tail, withSlash rest = 47 :: tail := by
  unfold withSlash
  split
  · rename_i slash
    cases rest with
    | nil => cases slash
    | cons c tail =>
        obtain rfl := Option.some.inj slash
        exact ⟨tail, rfl⟩
  · exact ⟨rest, rfl⟩

theorem stripPrefix_append (uriPrefix rest : Bytes) :
    stripPrefix uriPrefix (uriPrefix ++ rest) = withSlash rest := by
  have found : find uriPrefix (uriPrefix ++ rest) = some 0 :=
    find_eq_some_iff.mpr ⟨by simp, Nat.zero_le _, by simp⟩
  rw [stripPrefix, found]
  simp [withSlash]

theorem stripPrefix_of_occurs {uriPrefix uri : Bytes} {i : Nat} (found : find uriPrefix uri = some i) :
    stripPrefix uriPrefix uri = withSlash (uri.take i ++ uri.drop (i + uriPrefix.length)) := by
  rw [stripPrefix, found]
  rfl

theorem length_withSlash_le (rest : Bytes) : (withSlash rest).length ≤ rest.length + 1 := by
  unfold withSlash
  split
  · exact Nat.le_succ _
  · exact le_rfl

/-- Where the prefix occurs, only its removal as a lone slash at the start is made good again. -/
theorem stripPrefix_eq_iff_of_occurs {uriPrefix tail : Bytes} {i : Nat} (nonempty : uriPrefix ≠ [])
    (found : find uriPrefix (47 :: tail) = some i) :
    stripPrefix uriPrefix (47 :: tail) = 47 :: tail ↔ uriPrefix = bytes "/" ∧ tail.head? ≠ some 47 := by
  obtain ⟨occurs, -, first⟩ := find_eq_some_iff.mp found
  have within := find_le found
  have solid := List.length_pos_iff.mpr nonempty
  rw [stripPrefix_of_occurs found]
  cases i with
  | succ i =>
      -- the slash stays, and the prefix is missing
      have other : uriPrefix ≠ bytes "/" := by
        rintro rfl
        exact first 0 (Nat.succ_pos i) ⟨tail, rfl⟩
      have shorter : withSlash ((47 :: tail).take (i + 1) ++ (47 :: tail).drop (i + 1 + uriPrefix.length)) ≠
          47 :: tail := by
        intro same
        have lengths := congrArg List.length same
        rw [withSlash, if_pos (by simp)] at lengths
        rw [List.length_append, List.length_take, List.length_drop] at lengths
        omega
      exact iff_of_false shorter fun same => other same.1
  | zero =>
      rw [List.take_zero, List.nil_append, Nat.zero_add]
      by_cases single : uriPrefix.length = 1
      · obtain ⟨c, rfl⟩ := List.length_eq_one_iff.mp single
        obtain ⟨rfl, -⟩ := List.cons_prefix_cons.mp occurs
        have longer : tail ≠ 47 :: tail := (List.cons_ne_self 47 tail).symm
        have slash : bytes "/" = [47] := rfl
        by_cases twice : tail.head? = some 47
        · simp [withSlash, twice, longer]
        · simp [withSlash, twice, slash]
      · have other : uriPrefix ≠ bytes "/" := by
          rintro rfl
          exact single rfl
        have shorter : withSlash ((47 :: tail).drop uriPrefix.length) ≠ 47 :: tail := by
          intro same
          have lengths := congrArg List.length same
          have bound := length_withSlash_le ((47 :: tail).drop uriPrefix.length)
          rw [lengths, List.length_drop] at bound
          omega
        exact iff_of_false shorter fun same => other same.1

/-- A URI survives if it does not contain the prefix, or if the slash that is put in front stands for the
one that was removed. -/
theorem stripPrefix_withSlash_iff (uriPrefix rest : Bytes) :
    stripPrefix uriPrefix (withSlash rest) = withSlash rest ↔
      uriPrefix = [] ∨ ¬ uriPrefix <:+: withSlash rest ∨
        uriPrefix = bytes "/" ∧ (withSlash rest).tail.head? ≠ some 47 := by
  obtain ⟨tail, uri⟩ := withSlash_eq_cons rest
  rw [uri, List.tail_cons]
  by_cases empty : uriPrefix = []
  · subst empty
    have found : find [] (47 :: tail) = some 0 := find_eq_some_iff.mpr ⟨by simp, Nat.zero_le _, by simp⟩
    rw [stripPrefix_of_occurs found]
    simp [withSlash]
  · cases found : find uriPrefix (47 :: tail) with
    | none =>
        have absent := find_eq_none_iff.mp found
        simp [stripPrefix, found, absent]
    | some i =>
        have inside : uriPrefix <:+: 47 :: tail := by
          by_contra absent
          cases found.symm.trans (find_eq_none_iff.mpr absent)
        rw [stripPrefix_eq_iff_of_occurs empty found]
        simp [empty, inside]

/-! ## What a call puts into the cache -/

def OnlyUnder (key : Bytes) (s s' : ProxyState) : Prop :=
  ∃ installs, s'.installs = s.installs ++ installs ∧ ∀ install ∈ installs, install.key = key

theorem OnlyUnder.of_same {key : Bytes} {s s' : ProxyState} (same : s'.installs = s.installs) :
    OnlyUnder key s s' := ⟨[], by simpa using same, by simp⟩

theorem OnlyUnder.trans {key : Bytes} {s s' s'' : ProxyState} (first : OnlyUnder key s s')
    (second : OnlyUnder key s' s'') : OnlyUnder key s s'' := by
  obtain ⟨installs, same, all⟩ := first
  obtain ⟨installs', same', all'⟩ := second
  refine ⟨installs ++ installs', by rw [same', same, List.append_assoc], fun install mem => ?_⟩
  rcases List.mem_append.mp mem with mem | mem
  · exact all install mem
  · exact all' install mem

section Loop
variable {env : Environment} {request : Request} {requestUri host port uri : Bytes} {s s' : ProxyState}

theorem LoopEnds.contacts {mid : ProxyState} {outs : List Outgoing} {out : Outgoing}
    (ends : LoopEnds env request host port uri s mid outs out) :
    s.contacts ++ [outgoing request host port uri] <+: (contacted mid out).contacts := by
  have sent : (contacted mid out).contacts = s.contacts ++ (outs ++ [out]) := by
    rw [contacted, ends.approach.contacts, List.append_assoc]
  have first := ends.first
  cases split : outs ++ [out] with
  | nil => simp at split
  | cons next more =>
      rw [split, List.head?_cons] at first
      obtain rfl := Option.some.inj first
      rw [sent, split]
      exact (List.prefix_append_right_inj _).mpr ⟨more, rfl⟩

theorem roundDone_onlyUnder {answer : Answer} {round : Round}
    (done : RoundDone env requestUri host port uri answer s s' round) :
    OnlyUnder (cacheKey requestUri) s s' := by
  cases done with
  | failed failed same => exact .of_same (by rw [same])
  | plain arrived safe notCached ticked same => exact .of_same ticked.touched.installs
  | cached arrived safe caches ticked granted stored =>
      refine (OnlyUnder.of_same ticked.touched.installs).trans ⟨_, stored.installs, ?_⟩
      intro install mem
      rw [List.mem_singleton.mp mem]

theorem loopDone_first {status : Status} {response : Response}
    (done : LoopDone env request requestUri host port uri s status response s') :
    s.contacts ++ [outgoing request host port uri] <+: s'.contacts ∧
      OnlyUnder (cacheKey requestUri) s s' := by
  obtain ⟨mid, outs, out, ends, done⟩ := done
  have approach : OnlyUnder (cacheKey requestUri) s (contacted mid out) :=
    .of_same ends.approach.installs
  exact ⟨ends.contacts.trans (roundDone_extends done).1.contacts,
    approach.trans (roundDone_onlyUnder done)⟩

theorem loopThrew_first {f : Fault} (threw : LoopThrew env request requestUri host port uri s f s') :
    s.contacts ++ [outgoing request host port uri] <+: s'.contacts ∧
      OnlyUnder (cacheKey requestUri) s s' := by
  obtain ⟨mid, outs, out, ends, threw⟩ := threw
  have approach : OnlyUnder (cacheKey requestUri) s (contacted mid out) :=
    .of_same ends.approach.installs
  have last : Touched (contacted mid out) s' := by
    cases threw with
    | indeterminate failed same =>
        rw [same]
        exact Touched.refl _
    | header arrived fault bad ticked =>
        obtain ⟨k, ticked⟩ := ticked
        exact ticked.touched
    | directory arrived safe caches blocked touched => exact touched
  exact ⟨ends.contacts.trans last.extends.contacts, approach.trans (.of_same last.installs)⟩

end Loop

theorem entryUpdate_onlyUnder {env : Environment} {path : Bytes} {status : Status} {answer : Response}
    {usable : Bool} {s s' : ProxyState} (update : EntryUpdate env path status answer s usable s') :
    OnlyUnder path s s' := by
  cases update with
  | failed => exact .of_same rfl
  | other => exact .of_same rfl
  | unusable ok counts read =>
      obtain ⟨k, ticked⟩ := read.ticked
      exact .of_same ticked.touched.installs
  | rearmed ok counts read =>
      obtain ⟨k, ticked⟩ := read.ticked
      refine (OnlyUnder.of_same ticked.touched.installs).trans ⟨_, rfl, ?_⟩
      intro install mem
      rw [List.mem_singleton.mp mem]

/-! ## Asking again -/

/-- The first contact asks for the URI, and what comes of it is put under its key. -/
structure AsksAgain (handler : ProxyHandler) (uri : Bytes) (s s' : ProxyState) : Prop where
  first : ∃ eTag, s.contacts ++ [outgoing (handler.revalidation uri eTag) handler.serverHost
    handler.serverPort uri] <+: s'.contacts
  onlyUnder : OnlyUnder (cacheKey uri) s s'

def Revalidates (handler : ProxyHandler) (uri : Bytes) : Prop :=
  ∀ env request s s' sign, requestUri handler request = uri → Hit env handler request s sign true →
    Call env handler request s s' → AsksAgain handler uri s s'

theorem AsksAgain.extends {handler : ProxyHandler} {uri : Bytes} {s s' s'' : ProxyState}
    (asks : AsksAgain handler uri s s') (grown : Extends s' s'')
    (onlyUnder : OnlyUnder (cacheKey uri) s' s'') : AsksAgain handler uri s s'' := by
  obtain ⟨⟨eTag, first⟩, under⟩ := asks
  exact ⟨⟨eTag, first.trans grown.contacts⟩, under.trans onlyUnder⟩

section Again
variable {env : Environment} {handler : ProxyHandler} {request : Request} {s s' : ProxyState}
  {sign : CacheSign} {eTag uri : Bytes}

theorem uncached_again (fixed : stripPrefix handler.uriPrefix uri = uri) :
    Uncached handler (withoutEntry s (cacheKey uri)) (handler.revalidation uri eTag) := by
  have again : stripPrefix handler.uriPrefix (handler.revalidation uri eTag).uri = uri := fixed
  rw [Uncached, again, withoutEntry]
  exact AList.lookup_erase _ _

theorem revalidates_of_fixed (fixed : stripPrefix handler.uriPrefix uri = uri) :
    Revalidates handler uri := by
  intro env request s s' sign asked hit call
  subst asked
  have absent : ¬ s.cache.lookup (requestKey handler request) = none := by
    rw [hit.present]
    exact Option.some_ne_none sign
  have fresh {sign' : CacheSign} : ¬ Hit env handler request s sign' false := by
    intro other
    obtain rfl := Option.some.inj (hit.present.symm.trans other.present)
    cases hit.expired.symm.trans other.expired
  have again {eTag : Bytes} : Proof.requestUri handler
      (handler.revalidation (requestUri handler request) eTag) = requestUri handler request := fixed
  have asked_done {eTag : Bytes} {status : Status} {answer : Response} {mid : ProxyState}
      (inner : CallDone env handler (handler.revalidation (requestUri handler request) eTag)
        (withoutEntry s (requestKey handler request)) status answer mid) :
      AsksAgain handler (requestUri handler request) s mid := by
    have sends := callDone_uncached (uncached_again fixed) inner
    rw [SendsDone, again] at sends
    obtain ⟨first, under⟩ := loopDone_first sends
    exact ⟨⟨eTag, first⟩, under⟩
  have asked_threw {eTag : Bytes} {f : Fault} {mid : ProxyState}
      (inner : CallThrew env handler (handler.revalidation (requestUri handler request) eTag)
        (withoutEntry s (requestKey handler request)) f mid) :
      AsksAgain handler (requestUri handler request) s mid := by
    have sends := callThrew_uncached (uncached_again fixed) inner
    rw [SendsThrew, again] at sends
    obtain ⟨first, under⟩ := loopThrew_first sends
    exact ⟨⟨eTag, first⟩, under⟩
  rcases call_cases call with ⟨status, response, done⟩ | ⟨f, threw⟩
  · cases done with
    | miss none => exact absurd none absent
    | hit other => exact absurd other fresh
    | revalidated _ inner update _ serves =>
        refine ((asked_done inner).extends (entryUpdate_extends update) (entryUpdate_onlyUnder update)).extends
          serves.1.extends (.of_same serves.1.installs)
    | refetched _ inner update sends =>
        exact ((asked_done inner).extends (entryUpdate_extends update) (entryUpdate_onlyUnder update)).extends
          (loopDone_extends sends).1 (loopDone_first sends).2
  · cases threw with
    | miss none => exact absurd none absent
    | revalidating _ inner => exact asked_threw inner
    | updating _ inner threw =>
        obtain ⟨k, ticked⟩ := threw.ticked
        exact (asked_done inner).extends ticked.touched.extends (.of_same ticked.touched.installs)
    | refetching _ inner update sends =>
        exact ((asked_done inner).extends (entryUpdate_extends update) (entryUpdate_onlyUnder update)).extends
          (loopThrew_extends sends) (loopThrew_first sends).2

end Again

/-! ## Asking for something else -/

theorem exchangeLoop_refused {env : Environment} {request : Request} {host port uri : Bytes}
    {s : ProxyState} {errorInfo : Bytes}
    (refused : env.upstream s.contacts.length (outgoing request host port uri) = .error errorInfo)
    (requestUri : Bytes) (fuel : Nat) :
    (exchangeLoop env request requestUri (fuel + 1) host port uri).run s =
      .done (.handleFail, {}) (contacted s (outgoing request host port uri)) := by
  rw [outgoing] at refused
  simp only [exchangeLoop, exchange, contact, Proc.bind_assoc, Proc.run_get_bind, Proc.run_modify_bind,
    Proc.pure_bind, refused]
  rfl

-- a cache with an entry that has expired
def expiredEntry (uri : Bytes) : ProxyState :=
  { cache := (∅ : AList fun _ : Bytes => CacheSign).insert (cacheKey uri) {}, files := emptyDisk }

theorem expiredEntry_uncached (handler : ProxyHandler) (uri : Bytes) (request : Request) :
    Uncached handler (withoutEntry (expiredEntry uri) (cacheKey uri)) request := by
  rw [Uncached, withoutEntry, expiredEntry, erase_insert]
  by_cases same : cacheKey (stripPrefix handler.uriPrefix request.uri) = cacheKey uri
  · rw [same]
    exact AList.lookup_erase _ _
  · rw [AList.lookup_erase_ne same]
    rfl

/-- When no upstream can be reached, the first contact is the one that the second removal leaves. -/
theorem call_refused (handler : ProxyHandler) {request : Request} {uri : Bytes}
    (asked : requestUri handler request = uri) :
    Hit (scripted []) handler request (expiredEntry uri) {} true ∧
      ∃ s' eTag more, Call (scripted []) handler request (expiredEntry uri) s' ∧
        s'.contacts = outgoing (handler.revalidation uri eTag) handler.serverHost handler.serverPort
          (stripPrefix handler.uriPrefix uri) :: more := by
  subst asked
  have hit : Hit (scripted []) handler request (expiredEntry (requestUri handler request)) {} true :=
    ⟨AList.lookup_insert _, rfl⟩
  obtain ⟨eTag, ran⟩ := updateCache_run (scripted []) (s := clockRead (expiredEntry (requestUri handler request)))
    handler (handleRequest (scripted []) handler 1) (requestUri handler request) (requestKey handler request)
  refine ⟨hit, ?_⟩
  have inner := @handleRequest_uncached (scripted []) _ _ _ (expiredEntry_uncached handler
    (requestUri handler request) (handler.revalidation (requestUri handler request) eTag)) 0 {}
  rw [exchangeLoop_refused rfl] at inner
  have update := ran.trans (Proc.run_bind_of_done inner)
  have whole := handleRequest_hit hit 1 {}
  rw [if_pos rfl, Proc.run_bind_of_done update, if_neg Bool.false_ne_true, exchangeLoop_refused rfl] at whole
  refine ⟨_, eTag, _, ⟨2, {}, congrArg Outcome.state? whole⟩, rfl⟩

/-- The URIs for which every call asks again are those that the prefix is not removed from once more. -/
theorem revalidates_iff_fixed (handler : ProxyHandler) (rest : Bytes) :
    Revalidates handler (stripPrefix handler.uriPrefix (handler.uriPrefix ++ rest)) ↔
      stripPrefix handler.uriPrefix (withSlash rest) = withSlash rest := by
  rw [stripPrefix_append]
  constructor
  · intro again
    let request := getProxy (handler.uriPrefix ++ rest)
    have asked : requestUri handler request = withSlash rest := stripPrefix_append handler.uriPrefix rest
    obtain ⟨hit, s', eTag, more, call, contacts⟩ := call_refused handler asked
    obtain ⟨⟨eTag', first⟩, -⟩ := again _ _ _ _ _ asked hit call
    rw [contacts] at first
    obtain ⟨same, -⟩ := List.cons_prefix_cons.mp first
    exact (congrArg Outgoing.uri same).symm
  · exact fun fixed => revalidates_of_fixed fixed

/-- A resource is asked for again unless what is left of its URI contains the prefix, which may be a lone
slash at the start. -/
theorem revalidates_iff (handler : ProxyHandler) (rest : Bytes) :
    Revalidates handler (stripPrefix handler.uriPrefix (handler.uriPrefix ++ rest)) ↔
      handler.uriPrefix = [] ∨ ¬ handler.uriPrefix <:+: withSlash rest ∨
        handler.uriPrefix = bytes "/" ∧ (withSlash rest).tail.head? ≠ some 47 := by
  rw [revalidates_iff_fixed, stripPrefix_withSlash_iff]

theorem not_revalidates : ¬ ∀ (handler : ProxyHandler) (rest : Bytes),
    Revalidates handler (stripPrefix handler.uriPrefix (handler.uriPrefix ++ rest)) := by
  intro claim
  have again := (revalidates_iff_fixed demoProxy (bytes "/proxy1/x")).mp (claim demoProxy _)
  exact absurd again (by decide)

end TscServer.Proof
