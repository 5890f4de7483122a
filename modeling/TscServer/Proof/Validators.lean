import TscServer.Proof.CacheHistory
import TscServer.Proof.Transparency

/-!
# Validators

The ETag of an entry against the ETag headers of the responses that the entry goes back to.
`validators_current` says which responses keep the two equal in every run.
-/

namespace TscServer.Proof
open Lib Model Spec ProxyHandler

/-! ## One response -/

section Lines
variable {value line : Bytes}

theorem spelled_dropLast {name : Bytes} : (name ++ bytes ": " ++ value ++ [13]).dropLast =
    name ++ bytes ": " ++ value := List.dropLast_concat

theorem headerValue?_spelled {name : Bytes} (noColon : 58 ∉ name)
    (named : lower name = lower (bytes "ETag")) (trimmed : trimBlanks value = value) :
    headerValue? (bytes "ETag") (name ++ bytes ": " ++ value) = some value := by
  rw [headerValue?_printed _ noColon, if_pos named, trimmed]

theorem tagValue_spelled {code : Nat} (kept : cacheable code = true) :
    tagValue code (bytes "ETag" ++ bytes ": " ++ value) = some value := by
  have found : find [58] (bytes "ETag" ++ bytes ": " ++ value) = some 4 := rfl
  have name : headerName (bytes "ETag" ++ bytes ": " ++ value) = bytes "ETag" := by
    rw [headerName, found]
    rfl
  have cut : headerValue (bytes "ETag" ++ bytes ": " ++ value) = some value := by
    rw [headerValue, found]
    simp [substrFrom, bytes]
  rw [tagValue, cut, Option.filter_some, kept, name]
  rfl

theorem renewedTag_spelled : renewedTag (bytes "Etag" ++ bytes ": " ++ value) = some value := by
  have found : find (bytes ": ") (bytes "Etag" ++ bytes ": " ++ value) = some 4 := rfl
  have named : contains (bytes "Etag") (bytes "Etag" ++ bytes ": " ++ value) = true :=
    contains_iff.mpr ⟨[], bytes ": " ++ value, rfl⟩
  rw [renewedTag, if_pos named, takenValue, found]
  simp [substrFrom, bytes]

end Lines

section Responses
variable {d : Delivered}

theorem eTagOf_eq : eTagOf d =
    (d.lines.filterMap fun line => headerValue? (bytes "ETag") (dropReturn line)).getLast? := by
  rw [eTagOf, headerValues, List.filterMap_map]
  rfl

theorem tagStored_eq (reads : ReadsTag d) (kept : cacheable d.code = true) :
    tagStored d = (eTagOf d).getD [] := by
  have same : ∀ line ∈ d.lines, tagValue d.code line.dropLast =
      headerValue? (bytes "ETag") (dropReturn line) := by
    intro line mem
    by_cases tag : isTagLine line ∨ headerName line.dropLast = bytes "ETag"
    · obtain ⟨value, rfl, trimmed⟩ := reads line mem tag
      rw [spelled_dropLast, dropReturn_append, tagValue_spelled kept,
        headerValue?_spelled (by decide) rfl trimmed]
    · obtain ⟨noTag, other⟩ := not_or.mp tag
      have absent : headerValue? (bytes "ETag") (dropReturn line) = none := by
        simpa [isTagLine] using noTag
      rw [absent, tagValue]
      simp [other]
  rw [tagStored, eTagOf_eq, List.filterMap_congr same]

theorem tagRenewed_eq {before : Bytes} (renews : RenewsTag before d) :
    tagRenewed d = (eTagOf d).getD before := by
  have whole : renewalLines d = d.lines.map List.dropLast := by
    rw [renewalLines, List.takeWhile_eq_self_iff]
    intro header mem
    obtain ⟨line, member, rfl⟩ := List.mem_map.mp mem
    simpa using renews.solid line member
  have spelling : lower (bytes "Etag") = lower (bytes "ETag") := by simp [lower, bytes]
  have same : ∀ line ∈ d.lines, renewedTag line.dropLast =
      headerValue? (bytes "ETag") (dropReturn line) := by
    intro line mem
    by_cases tag : isTagLine line ∨ contains (bytes "Etag") line.dropLast = true
    · obtain ⟨value, rfl, trimmed⟩ := renews.spelled line mem tag
      rw [spelled_dropLast, dropReturn_append, renewedTag_spelled,
        headerValue?_spelled (by decide) spelling trimmed]
    · obtain ⟨noTag, other⟩ := not_or.mp tag
      have absent : headerValue? (bytes "ETag") (dropReturn line) = none := by
        simpa [isTagLine] using noTag
      rw [absent, renewedTag, if_neg other]
  have read : tagRenewed d = (eTagOf d).getD [] := by
    rw [tagRenewed, whole, eTagOf_eq, List.filterMap_map]
    exact congrArg (fun tags : List Bytes => tags.getLast?.getD []) (List.filterMap_congr same)
  rw [read]
  rcases renews.carries with rfl | ⟨line, mem, tag⟩
  · rfl
  · obtain ⟨value, carried⟩ := Option.isSome_iff_exists.mp tag
    have nonempty : d.lines.filterMap (fun line => headerValue? (bytes "ETag") (dropReturn line)) ≠ [] :=
      List.ne_nil_of_mem (List.mem_filterMap.mpr ⟨line, mem, carried⟩)
    rw [eTagOf_eq, List.getLast?_eq_getLast_of_ne_nil nonempty]
    rfl

end Responses

/-! ## Runs -/

theorem latest_tag {env : Environment} {readings : Nat} {history : CacheHistory} {key : Bytes}
    {sign : CacheSign} {responses : List Delivered}
    (sources : ∀ event ∈ history, FromResponse env readings event) (keeps : KeepsTags history)
    (latest : latestSign key history = some sign) (goes_back : lineage key history = some responses) :
    sign.eTag = validator responses := by
  induction history with
  | nil => cases latest
  | cons event earlier ih =>
      obtain ⟨source, others⟩ := List.forall_mem_cons.mp sources
      have rest : KeepsTags earlier := by
        cases event with
        | stored key sign d => exact keeps.2
        | rearmed key sign answer => exact keeps.2
        | defaulted key => exact keeps
      by_cases here : event.key = key
      · subst here
        rw [latestSign_cons_self] at latest
        obtain rfl := Option.some.inj latest
        cases event with
        | stored key sign d =>
            rw [CacheEvent.key, lineage_stored] at goes_back
            obtain rfl := Option.some.inj goes_back
            exact source.2.1.trans (tagStored_eq keeps.1 (cacheable_of_caches source.1))
        | rearmed key sign answer =>
            rw [CacheEvent.key, lineage_rearmed] at goes_back
            obtain ⟨d, given, renewed⟩ := Option.bind_eq_some_iff.mp goes_back
            obtain ⟨rfl, code⟩ := Option.filter_eq_some_iff.mp given
            obtain ⟨before, known, rfl⟩ := Option.map_eq_some_iff.mp renewed
            have renews := keeps.1 d rfl (of_decide_eq_true code) before known
            exact source.2.1.trans (tagRenewed_eq renews)
        | defaulted key =>
            rw [CacheEvent.key, lineage_defaulted] at goes_back
            cases goes_back
      · rw [latestSign_cons_ne here] at latest
        rw [lineage_cons_ne here] at goes_back
        exact ih others rest latest goes_back

theorem validators_current {env : Environment} {handler : ProxyHandler}
    {files : FileTree Bytes Bytes} {s : ProxyState}
    (run : Relation.ReflTransGen (fun s s' => ∃ request, Call env handler request s s') { files } s) :
    (∃ history, RunHistory env handler files s history) ∧
      ∀ history, RunHistory env handler files s history → KeepsTags history → TagsCurrent s history := by
  refine ⟨exists_runHistory run, fun history recorded keeps key sign responses present goes_back => ?_⟩
  have recorded := recorded_run recorded
  exact latest_tag recorded.sources keeps (recorded.latest key sign present) goes_back

/-! ## A stored response and a 304 -/

def validatedAnswer (status tagLine maxAge : Bytes) : Answer :=
  .stream [bytes "HTTP/1.1 " ++ status ++ crlf ++ tagLine ++ crlf ++ bytes "Cache-Control: max-age=" ++
    maxAge ++ crlfcrlf] true

-- the ETag of the 304 is in this line
def renewingEnv (tagLine : Bytes) : Environment :=
  scripted [validatedAnswer (bytes "200 OK") (bytes "ETag: a") (bytes "1"),
    validatedAnswer (bytes "304 Not Modified") tagLine (bytes "1000")]

def renewedRequest : Request := getProxy (bytes "/proxy1/x")

def renewedKey : Bytes := requestKey demoProxy renewedRequest

def Renewal (tagLine tag : Bytes) (s s' : ProxyState) : Bool :=
  (s.cache.lookup renewedKey).any (·.expiration.expired ((renewingEnv tagLine).clock s.readings)) &&
    ((lastResponse (renewingEnv tagLine) s).map (·.lines) ==
      some [bytes "ETag: a\r", bytes "Cache-Control: max-age=1\r"]) &&
    ((withoutEntry s renewedKey).cache.lookup (cacheKey (stripPrefix demoProxy.uriPrefix
      (requestUri demoProxy renewedRequest)))).isNone &&
    s'.contacts.length == s.contacts.length + 1 &&
    ((lastResponse (renewingEnv tagLine) s').map (fun d => (d.code, d.lines)) ==
      some (304, [tagLine ++ [13], bytes "Cache-Control: max-age=1000\r"])) &&
    (s'.cache.lookup renewedKey).any fun sign => sign.expiration != .notADateTime && sign.eTag == tag

structure Renewed (tagLine tag : Bytes) (s : ProxyState) (first last : Delivered)
    (sign sign' : CacheSign) : Prop where
  run : Relation.ReflTransGen (fun s s' => ∃ request, Call (renewingEnv tagLine) demoProxy request s s')
    { files := emptyDisk } s
  history : RunHistory (renewingEnv tagLine) demoProxy emptyDisk s
    [.rearmed renewedKey sign' (some last), .stored renewedKey sign first]
  lines : first.lines = [bytes "ETag: a\r", bytes "Cache-Control: max-age=1\r"]
  code : last.code = 304
  lines' : last.lines = [tagLine ++ [13], bytes "Cache-Control: max-age=1000\r"]
  present : s.cache.lookup renewedKey = some sign'
  tag : sign'.eTag = tag

theorem exists_renewed (tagLine tag : Bytes)
    (computed : ((handleRequest (renewingEnv tagLine) demoProxy 3 renewedRequest {}).run
      { files := emptyDisk }).any (fun _ s =>
        ((handleRequest (renewingEnv tagLine) demoProxy 3 renewedRequest {}).run s).any fun _ s' =>
          Renewal tagLine tag s s') = true) :
    ∃ s first last sign sign', Renewed tagLine tag s first last sign sign' := by
  obtain ⟨result, s, ran, computed⟩ := Outcome.exists_done_of_any computed
  obtain ⟨result', s', ran', test⟩ := Outcome.exists_done_of_any computed
  have done := Proc.wp_done (handleRequest_wp 3 {}) ran
  have done' := Proc.wp_done (handleRequest_wp 3 {}) ran'
  have run : Relation.ReflTransGen
      (fun s s' => ∃ request, Call (renewingEnv tagLine) demoProxy request s s') { files := emptyDisk } s' :=
    (Relation.ReflTransGen.single (call_of_done ran)).tail (call_of_done ran')
  simp only [Renewal, Bool.and_eq_true, beq_iff_eq, Option.isNone_iff_eq_none] at test
  obtain ⟨⟨⟨⟨⟨expired, answered⟩, alone⟩, once⟩, answered'⟩, renewed⟩ := test
  obtain ⟨sign, present, expired⟩ := Option.any_eq_true _ _ |>.mp expired
  obtain ⟨first, given, lines⟩ := Option.map_eq_some_iff.mp answered
  obtain ⟨last, given', read⟩ := Option.map_eq_some_iff.mp answered'
  obtain ⟨code, lines'⟩ := Prod.mk.inj read
  obtain ⟨sign', present', renewed⟩ := Option.any_eq_true _ _ |>.mp renewed
  simp only [Bool.and_eq_true, bne_iff_ne, beq_iff_eq] at renewed
  have real : sign' ≠ {} := by
    rintro rfl
    exact renewed.1 rfl
  have absent : Uncached demoProxy { files := emptyDisk } renewedRequest := AList.lookup_empty _
  have stored := callHistory_stored absent done present given
  obtain ⟨answer, renewal⟩ :=
    callHistory_renewed ⟨present, expired⟩ alone done' once given' code present' real
  exact ⟨s', first, last, sign, sign', run, (RunHistory.start.call stored).call renewal, lines, code,
    lines', present', renewed.2⟩

theorem lineage_renewed {key : Bytes} {sign sign' : CacheSign} {first last : Delivered}
    (code : last.code = 304) :
    lineage key [.rearmed key sign' (some last), .stored key sign first] = some [last, first] := by
  simp [Option.filter_some, code]

theorem not_validators_current : ¬ ∀ (env : Environment) (handler : ProxyHandler)
    (files : FileTree Bytes Bytes) (s : ProxyState) (history : CacheHistory),
    Relation.ReflTransGen (fun s s' => ∃ request, Call env handler request s s') { files } s →
    RunHistory env handler files s history → TagsCurrent s history := by
  intro claim
  obtain ⟨s, first, last, sign, sign', renewed⟩ := exists_renewed (bytes "ETag: b") []
    (by decide)
  have carried : eTagOf last = some (bytes "b") := by
    rw [eTagOf, renewed.lines']
    decide
  have current := claim _ _ _ s _ renewed.run renewed.history renewedKey sign' _ renewed.present
    (lineage_renewed renewed.code)
  rw [renewed.tag, validator, carried] at current
  cases current

theorem validators_current_renewed : ∃ s history,
    RunHistory (renewingEnv (bytes "Etag: b")) demoProxy emptyDisk s history ∧
      (lineage renewedKey history).isSome ∧ KeepsTags history ∧ TagsCurrent s history := by
  obtain ⟨s, first, last, sign, sign', renewed⟩ := exists_renewed (bytes "Etag: b")
    (bytes "b") (by decide)
  have reads : ReadsTag first := by
    rw [ReadsTag, renewed.lines]
    refine List.forall_mem_cons.mpr ⟨fun _ => ⟨bytes "a", rfl, rfl⟩, List.forall_mem_singleton.mpr ?_⟩
    exact fun tag => absurd tag (by decide)
  have renews before : RenewsTag before last := by
    refine ⟨?_, ?_, .inr ⟨bytes "Etag: b\r", ?_, by decide⟩⟩
    · rw [renewed.lines']
      decide
    · rw [renewed.lines']
      refine List.forall_mem_cons.mpr ⟨fun _ => ⟨bytes "b", rfl, rfl⟩, List.forall_mem_singleton.mpr ?_⟩
      exact fun tag => absurd tag (by decide)
    · rw [renewed.lines']
      exact List.mem_cons_self
  have keeps : KeepsTags [.rearmed renewedKey sign' (some last), .stored renewedKey sign first] := by
    refine ⟨fun d given _ responses _ => ?_, reads, trivial⟩
    obtain rfl := Option.some.inj given
    exact renews _
  refine ⟨s, _, renewed.history, ?_, keeps, (validators_current renewed.run).2 _ renewed.history keeps⟩
  rw [lineage_renewed renewed.code, Option.isSome_some]

end TscServer.Proof
