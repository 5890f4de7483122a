import TscServer.Proof.RedirectBound
import TscServer.Proof.UpstreamSafety

/-!
# Methods

Neither the lookup nor the storing of responses looks at the method. `method_respected` says when a
request other than GET reaches the upstream all the same, and when no response to it is kept for a
later GET.
-/

namespace TscServer.Proof
open Lib Model Spec ProxyHandler

/-! ## Requests that reach the upstream -/

/-- A failed contact, or a response, no redirect, that can be taken apart and is not stored. -/
def Tame (answer : Answer) : Prop :=
  delivery answer = .failed ∨
    ∃ d, delivery answer = .response d ∧ d.code ≠ 302 ∧ (∀ line ∈ d.lines, SafeLine d.code line) ∧
      ¬ Caches d

def Settles (env : Environment) (handler : ProxyHandler) (request : Request) (s : ProxyState) : Prop :=
  ∃ answer, LeadsTo env handler request s answer ∧ Tame answer

def Forwarded (env : Environment) (handler : ProxyHandler) (request : Request) (s : ProxyState)
    (status : Status) (response : Response) (s' : ProxyState) : Prop :=
  ∃ outs out, s'.contacts = s.contacts ++ outs ++ [out] ∧
    (outs ++ [out]).head? = some (outgoing request handler.serverHost handler.serverPort
      (requestUri handler request)) ∧
    (∀ sent ∈ outs ++ [out], Forwards request sent) ∧
    (∀ i sent, outs[i]? = some sent → IsRedirect (env.upstream (s.contacts.length + i) sent)) ∧
    Answers (env.upstream (s.contacts.length + outs.length) out) status response

section Forward
variable {env : Environment} {handler : ProxyHandler} {request : Request} {s s' : ProxyState}

theorem forwarded_of_sends {status : Status} {response : Response}
    (sends : SendsDone env handler request s status response s') :
    Forwarded env handler request s status response s' := by
  obtain ⟨mid, outs, out, ends, done⟩ := sends
  have contacts := ends.approach.contacts
  refine ⟨outs, out, ?_, ends.first, fun sent mem => ?_, ends.approach.redirects, ?_⟩
  · rw [(roundDone_extends done).2, contacted, contacts]
  · rcases List.mem_append.mp mem with mem | mem
    · exact ends.approach.forwards sent mem
    · obtain rfl := List.mem_singleton.mp mem
      exact ends.forwards
  · have last := answers_of_roundDone done
    rwa [contacts, List.length_append] at last

theorem concludes_of_tame {requestUri : Bytes} {files : FileTree Bytes Bytes} {answer : Answer}
    (tame : Tame answer) : Concludes env requestUri files answer := by
  rcases tame with failed | ⟨d, arrived, final, safe, notCached⟩
  · exact .inl failed
  · exact .inr ⟨d, arrived, final, safe, fun caches => absurd caches notCached⟩

theorem not_redirects_of_tame {answer : Answer} (tame : Tame answer) : ¬ Redirects answer := by
  intro redirects
  obtain ⟨d, arrived, code, -⟩ := redirects
  rcases tame with failed | ⟨d', arrived', final, -⟩
  · cases failed.symm.trans arrived
  · obtain rfl := delivered_unique arrived arrived'
    exact final code

theorem forwarded_uncached (absent : Uncached handler s request)
    (settles : Settles env handler request s) (response : Response) :
    ∃ fuel, (handleRequest env handler fuel request response).twp
      (fun result s' => Forwarded env handler request s result.1 result.2 s')
      (fun _ _ => False) s := by
  obtain ⟨answer, leadsTo, tame⟩ := settles
  obtain ⟨bound, returns⟩ := returns_of_leadsTo leadsTo (concludes_of_tame tame)
  obtain ⟨status, answered, s', ran⟩ := returns (bound + 1) (Nat.lt_succ_self bound)
  refine ⟨bound + 1, ?_⟩
  rw [loop] at ran
  have sends := Proc.wp_done (exchangeLoop_wp (bound + 1)) ran
  rw [Proc.twp_congr (handleRequest_uncached absent bound response)]
  exact Proc.twp_of_done ran (forwarded_of_sends sends)

end Forward

/-! ## Responses that are kept -/

def FromGet (env : Environment) (s : ProxyState) (content : Bytes) : Prop :=
  ∃ n out d, s.contacts[n]? = some out ∧ IsGet out.method ∧
    delivery (env.upstream n out) = .response d ∧ content = d.raw

-- a file that was there before the handler
def Older (files : FileTree Bytes Bytes) (content : Bytes) : Prop :=
  ∃ location, files location = some (.file content)

/-- The invariant: what the handler has written since it started are responses to GETs. -/
def FilesFromGets (env : Environment) (files : FileTree Bytes Bytes) (s : ProxyState) : Prop :=
  ∀ location content, s.files location = some (.file content) →
    Older files content ∨ FromGet env s content

section Kept
variable {env : Environment} {handler : ProxyHandler} {request : Request} {s s' : ProxyState}
  {files : FileTree Bytes Bytes}

theorem FromGet.mono {content : Bytes} (fromGet : FromGet env s content) (grown : Extends s s') :
    FromGet env s' content := by
  obtain ⟨n, out, d, sent, get, arrived, same⟩ := fromGet
  exact ⟨n, out, d, grown.contact sent, get, arrived, same⟩

theorem FilesFromGets.mono (inv : FilesFromGets env files s) (grown : Extends s s')
    (same : SameFiles s.files s'.files) : FilesFromGets env files s' := by
  intro location content node
  exact (inv location content ((same location content).mp node)).imp_right fun get => get.mono grown

theorem filesFromGets_stored {uri : Bytes} {sign : CacheSign} {content : Bytes}
    (inv : FilesFromGets env files s) (stored : Stored env uri sign content s s')
    (get : FromGet env s content) : FilesFromGets env files s' := by
  obtain ⟨made, directories, written⟩ := stored.files
  have grown : Extends s s' := by
    refine ⟨by rw [stored.contacts], ?_, by rw [stored.readings]⟩
    rw [stored.installs]
    exact List.prefix_append _ _
  have older location content' (node : made location = some (.file content')) :
      Older files content' ∨ FromGet env s' content' := by
    have before := (sameFiles_makeDirectories directories location content').mp node
    exact (inv location content' before).imp_right fun get => get.mono grown
  intro location content' node
  rw [written] at node
  cases wrote : made.write (cachePath env (cacheKey uri)) content with
  | none =>
      rw [wrote] at node
      exact older location content' node
  | some after =>
      obtain ⟨-, -, rfl⟩ := FileTree.write_eq_some wrote
      rw [wrote, Option.getD_some] at node
      by_cases here : location = FileTree.location (cachePath env (cacheKey uri))
      · rw [here, Function.update_self] at node
        cases node
        exact .inr (get.mono grown)
      · rw [Function.update_of_ne here] at node
        exact older location content' node

theorem filesFromGets_contacted {outs : List Outgoing} {mid : ProxyState}
    (inv : FilesFromGets env files s) (approach : Approach env request s mid outs) (out : Outgoing) :
    FilesFromGets env files (contacted mid out) := by
  refine inv.mono (approach.extends.trans ⟨List.prefix_append _ _, List.prefix_rfl, le_rfl⟩) ?_
  rw [contacted, approach.files]
  exact SameFiles.refl _

theorem filesFromGets_loopDone {requestUri host port uri : Bytes} {status : Status}
    {response : Response} (inv : FilesFromGets env files s) (get : IsGet request.method)
    (done : LoopDone env request requestUri host port uri s status response s') :
    FilesFromGets env files s' := by
  obtain ⟨mid, outs, out, ends, done⟩ := done
  have sent := filesFromGets_contacted inv ends.approach out
  cases done with
  | failed failed same =>
      rw [same]
      exact sent
  | plain arrived safe notCached ticked same =>
      exact sent.mono ticked.touched.extends ticked.touched.files
  | @cached d k before sign arrived safe caches ticked granted stored =>
      have read := sent.mono ticked.touched.extends ticked.touched.files
      apply filesFromGets_stored read stored
      obtain ⟨host', port', uri', rfl⟩ := ends.forwards
      refine ⟨mid.contacts.length, _, d, ?_, get, arrived, rfl⟩
      rw [ticked.touched.contacts, contacted]
      simp

theorem filesFromGets_loopThrew {requestUri host port uri : Bytes} {f : Fault}
    (inv : FilesFromGets env files s)
    (threw : LoopThrew env request requestUri host port uri s f s') : FilesFromGets env files s' := by
  obtain ⟨mid, outs, out, ends, threw⟩ := threw
  have sent := filesFromGets_contacted inv ends.approach out
  cases threw with
  | indeterminate failed same =>
      rw [same]
      exact sent
  | header arrived fault bad ticked =>
      obtain ⟨k, ticked⟩ := ticked
      exact sent.mono ticked.touched.extends ticked.touched.files
  | directory arrived safe caches blocked touched => exact sent.mono touched.extends touched.files

theorem FilesFromGets.same (inv : FilesFromGets env files s) (grown : Extends s s')
    (same : s'.files = s.files) : FilesFromGets env files s' :=
  inv.mono grown (same ▸ SameFiles.refl _)

/-- A GET keeps the invariant, and so do the revalidations that it causes, by induction on how the
call goes. -/
theorem filesFromGets_getDone {status : Status} {response : Response}
    (inv : FilesFromGets env files s) (get : IsGet request.method)
    (done : CallDone env handler request s status response s') : FilesFromGets env files s' := by
  induction done with
  | miss absent sends => exact filesFromGets_loopDone inv get sends
  | hit hit readable serves =>
      exact (inv.same (clockRead_extends _) rfl).same serves.1.extends serves.1.files
  | revalidated hit inner update readable serves ih =>
      have before := ih (inv.same (withoutEntry_extends _ _) rfl) rfl
      exact (before.same (entryUpdate_extends update) (entryUpdate_files update)).same
        serves.1.extends serves.1.files
  | refetched hit inner update sends ih =>
      have before := ih (inv.same (withoutEntry_extends _ _) rfl) rfl
      exact filesFromGets_loopDone
        (before.same (entryUpdate_extends update) (entryUpdate_files update))
        get sends

theorem filesFromGets_getThrew {f : Fault} (inv : FilesFromGets env files s)
    (get : IsGet request.method) (threw : CallThrew env handler request s f s') :
    FilesFromGets env files s' := by
  induction threw with
  | miss absent sends => exact filesFromGets_loopThrew inv sends
  | revalidating hit inner ih => exact ih (inv.same (withoutEntry_extends _ _) rfl) rfl
  | updating hit inner update =>
      obtain ⟨k, ticked⟩ := update.ticked
      exact (filesFromGets_getDone (inv.same (withoutEntry_extends _ _) rfl) (by rfl) inner).mono
        ticked.touched.extends ticked.touched.files
  | refetching hit inner update sends =>
      have before := filesFromGets_getDone (inv.same (withoutEntry_extends _ _) rfl) (by rfl) inner
      exact filesFromGets_loopThrew
        (before.same (entryUpdate_extends update) (entryUpdate_files update)) sends

/-- The loop keeps the invariant when its redirects come to a tame answer: the last one. -/
theorem filesFromGets_tame (inv : FilesFromGets env files s)
    (settles : Settles env handler request s) (fuel : Nat) :
    (exchangeLoop env request (requestUri handler request) fuel handler.serverHost handler.serverPort
      (requestUri handler request)).wp (fun _ s' => FilesFromGets env files s')
      (fun _ s' => FilesFromGets env files s') s := by
  obtain ⟨answer, ⟨m, target, leads, rfl⟩, tame⟩ := settles
  have final := not_redirects_of_tame tame
  have sent {mid : ProxyState} (grown : Extends s mid) (same : mid.files = s.files) (out : Outgoing) :
      FilesFromGets env files (contacted mid out) :=
    (inv.same grown same).same ⟨List.prefix_append _ _, List.prefix_rfl, le_rfl⟩ rfl
  apply Proc.wp_mono (loop_wp fuel)
  · intro result s' ended
    obtain ⟨status, answered⟩ := result
    obtain ⟨target', mid, out, last, done⟩ := ended
    have read := sent last.grown last.files out
    cases done with
    | failed failed same =>
        rw [same]
        exact read
    | plain arrived safe notCached ticked same =>
        exact read.mono ticked.touched.extends ticked.touched.files
    | cached arrived safe caches ticked granted stored =>
        have final' : ¬ Redirects (answerAt env request mid.contacts.length target') := by
          intro redirects
          obtain ⟨d', arrived', code, -⟩ := redirects
          obtain rfl := delivered_unique arrived arrived'
          exact code_of_caches caches code
        obtain ⟨rfl, rfl⟩ := leads_unique leads last.leads final final'
        rcases tame with failed | ⟨d', arrived', -, -, notCached⟩
        · cases failed.symm.trans arrived
        · obtain rfl := delivered_unique arrived arrived'
          exact absurd caches notCached
  · intro f s' ended
    obtain ⟨target', mid, out, last, threw⟩ := ended
    have read := sent last.grown last.files out
    cases threw with
    | indeterminate failed same =>
        rw [same]
        exact read
    | header arrived fault bad ticked =>
        obtain ⟨k, ticked⟩ := ticked
        exact read.mono ticked.touched.extends ticked.touched.files
    | directory arrived safe caches blocked touched => exact read.mono touched.extends touched.files

/-! ## Runs -/

variable (env handler request s) in
/-- A request other than GET is not in the cache, and its redirects come to an answer that is not
stored. -/
def RespectfulCall : Prop :=
  ¬ IsGet request.method → Uncached handler s request ∧ Settles env handler request s

variable (env handler) in
def RespectfulStep (s s' : ProxyState) : Prop :=
  ∃ request, Call env handler request s s' ∧ RespectfulCall env handler request s

theorem filesFromGets_call (inv : FilesFromGets env files s)
    (call : Call env handler request s s') (respectful : RespectfulCall env handler request s) :
    FilesFromGets env files s' := by
  by_cases get : IsGet request.method
  · rcases call_cases call with ⟨status, response, done⟩ | ⟨f, threw⟩
    · exact filesFromGets_getDone inv get done
    · exact filesFromGets_getThrew inv get threw
  · obtain ⟨absent, settles⟩ := respectful get
    obtain ⟨fuel, response, ended⟩ := call
    cases fuel with
    | zero => cases ended
    | succ fuel =>
        rw [handleRequest_uncached absent fuel response] at ended
        rcases Proc.wp_state (filesFromGets_tame inv settles _) ended with ⟨-, kept⟩ | ⟨-, kept⟩
        · exact kept
        · exact kept

theorem filesFromGets_run
    (run : Relation.ReflTransGen (RespectfulStep env handler) { files } s) :
    FilesFromGets env files s := by
  induction run with
  | refl => exact fun location content node => .inl ⟨location, node⟩
  | tail _ step ih =>
      obtain ⟨request, call, respectful⟩ := step
      exact filesFromGets_call ih call respectful

/-- The answer to a GET is the answer of the upstream to some GET of the run, or it is made from a
file that is one or that is older than the run. -/
def AnsweredByGet (env : Environment) (files : FileTree Bytes Bytes) (s' : ProxyState)
    (status : Status) (response : Response) : Prop :=
  (∃ n out, s'.contacts[n]? = some out ∧ IsGet out.method ∧
    Answers (env.upstream n out) status response) ∨
  ∃ content, Rewritten content response.rawResponse ∧ (Older files content ∨ FromGet env s' content)

theorem answeredByGet_sends {status : Status} {response : Response} (get : IsGet request.method)
    (sends : SendsDone env handler request s status response s') :
    AnsweredByGet env files s' status response := by
  obtain ⟨outs, out, contacts, -, forwards, -, answers⟩ := forwarded_of_sends sends
  obtain ⟨host, port, uri, rfl⟩ := forwards out (by simp)
  refine .inl ⟨s.contacts.length + outs.length, _, ?_, get, answers⟩
  rw [contacts, ← List.length_append]
  simp

theorem answeredByGet_file {path content : Bytes} {response : Response} {t : ProxyState}
    (inv : FilesFromGets env files t) (readable : t.files.read (cachePath env path) = some content)
    (serves : Serves path content s s' response) (grown : Extends t s') (status : Status) :
    AnsweredByGet env files s' status response := by
  obtain ⟨-, node⟩ := FileTree.read_eq_some_iff.mp readable
  exact .inr ⟨content, serves.2, (inv _ content node).imp_right fun get => get.mono grown⟩

theorem answeredByGet_call {status : Status} {response : Response} (inv : FilesFromGets env files s)
    (get : IsGet request.method) (done : CallDone env handler request s status response s') :
    AnsweredByGet env files s' status response := by
  cases done with
  | miss absent sends => exact answeredByGet_sends get sends
  | hit hit readable serves =>
      exact answeredByGet_file inv readable serves
        ((clockRead_extends s).trans serves.1.extends) _
  | revalidated hit inner update readable serves =>
      have before := filesFromGets_getDone (inv.same (withoutEntry_extends _ _) rfl) (by rfl) inner
      exact answeredByGet_file (before.same (entryUpdate_extends update) (entryUpdate_files update))
        readable serves serves.1.extends _
  | refetched hit inner update sends => exact answeredByGet_sends get sends

/-- In a run in which no other request than GET finds an entry or gets an answer that may be stored,
every such request is forwarded, and no response to one comes back as the answer to a GET. -/
theorem method_respected (run : Relation.ReflTransGen (RespectfulStep env handler) { files } s) :
    (∀ request response, ¬ IsGet request.method → RespectfulCall env handler request s →
      ∃ fuel, (handleRequest env handler fuel request response).twp
        (fun result s' => Forwarded env handler request s result.1 result.2 s') (fun _ _ => False) s) ∧
    ∀ request fuel response result s', IsGet request.method →
      (handleRequest env handler fuel request response).run s = .done result s' →
      AnsweredByGet env files s' result.1 result.2 := by
  constructor
  · intro request response other respectful
    obtain ⟨absent, settles⟩ := respectful other
    exact forwarded_uncached absent settles response
  · intro request fuel response result s' get ran
    have done := Proc.wp_done (handleRequest_wp fuel response) ran
    exact answeredByGet_call (filesFromGets_run run) get done

end Kept

/-! ## A POST that is sent, and one that is answered from the cache -/

def postProxy (uri : Bytes) : Request := { getProxy uri with method := bytes "POST" }

theorem tame_plain {answer : Answer} (plain : Delivers answer plainText) : Tame answer := by
  have lines : headLines 200 (bytes "Content-Length: 0\r\n\r\n") = [bytes "Content-Length: 0\r"] := by
    decide
  have noAge : ageValue 200 (bytes "Content-Length: 0") = none := by decide
  obtain ⟨chunks, eof, rfl, text⟩ := plain
  obtain ⟨d, arrived, -, code, -, read, -⟩ :=
    delivery_text wellFormed_okStatus text (by decide) eof
  have safe := (safeResponse_plain (by decide)).1
  refine .inr ⟨d, arrived, by rw [code]; decide, by rwa [read, code], ?_⟩
  rintro ⟨-, line, mem, life, -, value, age, -⟩
  rw [read, show okStatus.code = 200 from rfl, lines] at mem
  obtain rfl := List.mem_singleton.mp mem
  rw [code] at age
  cases noAge.symm.trans age

-- responses to GETs may be kept, others may not
def keptGets : Environment :=
  { scripted [] with
    upstream := fun _ out =>
      if IsGet out.method then agedAnswer (bytes "1000") else .stream [plainText] true }

theorem respectful_keptGets {s : ProxyState} {uri : Bytes}
    (absent : Uncached demoProxy s (postProxy uri)) :
    RespectfulCall keptGets demoProxy (postProxy uri) s := by
  intro other
  have plain : answerAt keptGets (postProxy uri) s.contacts.length
      (firstPlace demoProxy (postProxy uri)) = .stream [plainText] true := by
    show (if IsGet (postProxy uri).method then agedAnswer (bytes "1000")
      else .stream [plainText] true) = _
    rw [if_neg other]
  exact ⟨absent, _, ⟨_, _, .here, rfl⟩, tame_plain ⟨[plainText], true, plain, by simp⟩⟩

/-- After a GET that is kept and a POST, a POST to another URI is sent, and the GET is answered from
its file. -/
theorem method_respected_kept : ∃ s result s', s.contacts.length = 2 ∧
    (∃ fuel, (handleRequest keptGets demoProxy fuel (postProxy (bytes "/proxy1/z")) {}).twp
      (fun result s' => Forwarded keptGets demoProxy (postProxy (bytes "/proxy1/z")) s
        result.1 result.2 s') (fun _ _ => False) s) ∧
    (handleRequest keptGets demoProxy 3 (getProxy (bytes "/proxy1/x")) {}).run s = .done result s' ∧
    s'.contacts.length = s.contacts.length ∧
    AnsweredByGet keptGets emptyDisk s' result.1 result.2 := by
  let get := getProxy (bytes "/proxy1/x")
  let post := postProxy (bytes "/proxy1/y")
  let post' := postProxy (bytes "/proxy1/z")
  have computed : (afterCalls keptGets demoProxy 3 [get] { files := emptyDisk }).any (fun s₁ =>
      (s₁.cache.lookup (requestKey demoProxy post)).isNone &&
        (afterCalls keptGets demoProxy 3 [post] s₁).any fun s => s.contacts.length == 2 &&
          (s.cache.lookup (requestKey demoProxy post')).isNone &&
          answersSilently keptGets demoProxy get s) = true := by
    decide
  obtain ⟨s₁, after, test⟩ := Option.any_eq_true _ _ |>.mp computed
  simp only [Bool.and_eq_true, Option.isNone_iff_eq_none] at test
  obtain ⟨absent, rest⟩ := test
  obtain ⟨s, after', test⟩ := Option.any_eq_true _ _ |>.mp rest
  simp only [Bool.and_eq_true, beq_iff_eq, Option.isNone_iff_eq_none] at test
  obtain ⟨⟨count, absent'⟩, silent⟩ := test
  obtain ⟨response', s', ran, silent⟩ := exists_of_answersSilently silent
  have first : RespectfulStep keptGets demoProxy { files := emptyDisk } s₁ := by
    obtain ⟨t, call, rest⟩ := Option.bind_eq_some_iff.mp after
    cases rest
    exact ⟨get, ⟨3, {}, call⟩, fun other => absurd rfl other⟩
  have second : RespectfulStep keptGets demoProxy s₁ s := by
    obtain ⟨t, call, rest⟩ := Option.bind_eq_some_iff.mp after'
    cases rest
    exact ⟨post, ⟨3, {}, call⟩, respectful_keptGets absent⟩
  obtain ⟨forwards, answers⟩ := method_respected (.tail (.single first) second)
  exact ⟨s, _, s', count, forwards post' {} (by decide) (respectful_keptGets absent'), ran, silent,
    answers get 3 {} _ s' rfl ran⟩

theorem post_answered_from_cache : ¬ ∀ (env : Environment) (handler : ProxyHandler)
    (files : FileTree Bytes Bytes) (request : Request) (fuel : Nat) (response : Response)
    (result : Status × Response) (s s' : ProxyState),
    Relation.ReflTransGen (fun s s' => ∃ request, Call env handler request s s') { files } s →
    ¬ IsGet request.method →
    (handleRequest env handler fuel request response).run s = .done result s' →
    Forwarded env handler request s result.1 result.2 s' := by
  intro claim
  let env := scripted [agedAnswer (bytes "1000")]
  let post := postProxy (bytes "/proxy1/x")
  have computed : (afterCalls env demoProxy 3 [getProxy (bytes "/proxy1/x")] { files := emptyDisk }).any
      (answersSilently env demoProxy post) = true := by
    decide
  obtain ⟨s, after, silent⟩ := Option.any_eq_true _ _ |>.mp computed
  obtain ⟨response', s', ran, silent⟩ := exists_of_answersSilently silent
  obtain ⟨outs, out, contacts, -⟩ :=
    claim env demoProxy emptyDisk post 3 {} _ s s' (afterCalls_run after) (by decide) ran
  rw [contacts] at silent
  simp at silent

end TscServer.Proof
