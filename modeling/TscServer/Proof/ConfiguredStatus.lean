import TscServer.Proof.ConfiguredHandlers
import TscServer.Proof.StatusReport

/-!
# The status page of a configured server

The section of handlers on the status page lists what the configuration asked for.
-/

namespace TscServer.Proof
open Lib Model Spec Connection ServerState Server

/-! ## Registering a class -/

section Listing
variable {paths : List PathStatement} {opts : ConfigOpts} {done : List HandlerClass} {server server' : Server}

theorem lookup_addHandlerToUri (status : ServerStatus) (name uri other : Bytes) :
    (status.addHandlerToUri name uri).handlerToUri.lookup other =
      if other = name then some ((status.handlerToUri.lookup name).getD [] ++ [uri])
      else status.handlerToUri.lookup other := by
  unfold ServerStatus.addHandlerToUri
  split
  · rename_i same
    rw [same, AList.lookup_insert]
  · rename_i different
    rw [AList.lookup_insert_ne different]

theorem lookup_registerEach {name : Bytes} {init : Init} {uris : List Bytes} {configs : List NginxConfig}
    (ok : registerEach name init uris configs server = .ok server') (other : Bytes) :
    server'.serverStatus.handlerToUri.lookup other =
      if other = name ∧ uris ≠ [] then some ((server.serverStatus.handlerToUri.lookup name).getD [] ++ uris)
      else server.serverStatus.handlerToUri.lookup other := by
  induction uris generalizing configs server with
  | nil =>
      cases ok
      simp
  | cons uri uris ih =>
      cases configs with
      | nil => cases ok
      | cons config configs =>
          rw [registerEach] at ok
          split at ok
          · cases ok
          · rename_i status handler made
            split at ok
            · cases ok
            · rw [ih ok, lookup_addHandlerToUri, lookup_addHandlerToUri, if_pos rfl]
              by_cases same : other = name
              · by_cases last : uris = [] <;> simp [same, last]
              · simp [same]

theorem handlerClass_inj {name other : Bytes} {kind : HandlerClass} (named : handlerClass name = some kind)
    (named' : handlerClass other = some kind) : name = other := by
  unfold handlerClass at named named'
  split_ifs at named named' <;> cases named <;> cases named' <;> simp_all

def Listed (paths : List PathStatement) (done : List HandlerClass) (status : ServerStatus) : Prop :=
  ∀ name uris, status.handlerToUri.lookup name = some uris ↔
    (∃ kind ∈ done, handlerClass name = some kind) ∧ uris ≠ [] ∧ uris = prefixesNaming paths name

theorem Listed.nextClass {name : Bytes} {init : Init} (kind : HandlerClass) (tabulates : Tabulates paths opts)
    (new : kind ∉ done) (named : handlerClass name = some kind) (listed : Listed paths done server.serverStatus)
    (ok : registerEach name init (tableOf opts kind) (configsOf opts kind) server = .ok server') :
    Listed paths (done ++ [kind]) server'.serverStatus := by
  have prefixes : tableOf opts kind = prefixesNaming paths name := by
    rw [tabulates.uriPrefixes kind, prefixesNaming, ofClass]
    congr 1
    apply List.filter_congr
    intro path _
    rw [decide_eq_decide]
    constructor
    · exact fun here => handlerClass_inj here named
    · intro here
      rw [PathStatement.handlerClass, here, named]
  intro other uris
  rw [lookup_registerEach ok, prefixes]
  by_cases same : other = name
  · subst same
    have absent : server.serverStatus.handlerToUri.lookup other = none := by
      apply Option.eq_none_iff_forall_ne_some.mpr
      intro uris found
      obtain ⟨⟨kind', isDone, named'⟩, -⟩ := (listed other uris).mp found
      cases named.symm.trans named'
      exact new isDone
    by_cases none_ : prefixesNaming paths other = []
    · simp only [absent, none_, ne_eq, not_true, and_false, if_false, reduceCtorEq, false_iff, not_and]
      exact fun _ some_ => some_
    · rw [absent, if_pos ⟨rfl, none_⟩]
      simp only [Option.getD_none, List.nil_append, Option.some_inj, List.mem_append, List.mem_singleton]
      constructor
      · intro is
        exact ⟨⟨kind, .inr rfl, named⟩, is ▸ none_, is.symm⟩
      · intro is
        exact is.2.2.symm
  · rw [if_neg (fun both => same both.1), listed]
    apply and_congr_left
    intro _
    constructor
    · intro found
      obtain ⟨kind', isDone, named'⟩ := found
      exact ⟨kind', List.mem_append_left _ isDone, named'⟩
    · intro found
      obtain ⟨kind', mem, named'⟩ := found
      rcases List.mem_append.mp mem with isDone | isNew
      · exact ⟨kind', isDone, named'⟩
      · obtain rfl := List.mem_singleton.mp isNew
        exact absurd (handlerClass_inj named' named) same

end Listing

/-! ## The whole configuration -/

section Configured
variable {text : Bytes} {config : NginxConfig} {server : Server}

theorem listed_of_init (parsed : NginxConfig.parse text = some config) (started : Server.init text = .ok server) :
    Listed (pathStatements config.statements) [.echo, .status, .static, .python, .proxy] server.serverStatus := by
  rw [Server.init, except_bind_eq_ok] at started
  obtain ⟨handler, ok, started⟩ := started
  obtain ⟨tabulates, -, -⟩ := collected_of_handleConfig parsed ok
  simp only [registerHandlers, except_bind_eq_ok] at started
  obtain ⟨s₁, ok₁, s₂, ok₂, s₃, ok₃, s₄, ok₄, s₅, ok₅, s₆, ok₆, ok₇⟩ := started
  have l₀ : Listed (pathStatements config.statements) []
      ({ totalThreadNum := handler.configOpt.threadCount } : Server).serverStatus := by
    intro name uris
    constructor
    · intro found
      cases found
    · intro found
      obtain ⟨⟨kind, mem, -⟩, -⟩ := found
      cases mem
  have l₁ := l₀.nextClass .echo tabulates (by simp) (by decide) ok₁
  have l₂ := l₁.nextClass .status tabulates (by simp) (by decide) ok₂
  have l₃ := l₂.nextClass .static tabulates (by simp) (by decide) ok₃
  have l₄ := l₃.nextClass .python tabulates (by simp) (by decide) ok₄
  have l₅ := l₄.nextClass .proxy tabulates (by simp) (by decide) ok₅
  cases ok₆
  cases ok₇
  exact l₅

theorem lookup_handlerToUri_of_init (parsed : NginxConfig.parse text = some config)
    (started : Server.init text = .ok server) (name : Bytes) (uris : List Bytes) :
    server.serverStatus.handlerToUri.lookup name = some uris ↔
      handlerClass name ≠ none ∧ uris ≠ [] ∧ uris = prefixesNaming (pathStatements config.statements) name := by
  rw [listed_of_init parsed started]
  apply and_congr_left
  intro _
  cases named : handlerClass name with
  | none => simp
  | some kind => cases kind <;> simp

theorem colon_notMem_of_class {name : Bytes} (named : handlerClass name ≠ none) : 10 ∉ name ∧ 58 ∉ name := by
  unfold handlerClass at named
  split_ifs at named with echo status static python proxy
  · exact echo ▸ by decide
  · exact status ▸ by decide
  · exact static ▸ by decide
  · exact python ▸ by decide
  · exact proxy ▸ by decide
  · exact absurd rfl named

theorem printable_of_init (parsed : NginxConfig.parse text = some config) (started : Server.init text = .ok server)
    (solid : ∀ path ∈ pathStatements config.statements, 10 ∉ path.uriPrefix ∧ 32 ∉ path.uriPrefix) :
    PrintableHandlers server.serverStatus.handlerToUri := by
  intro handler mem
  obtain ⟨name, uris⟩ := handler
  obtain ⟨named, -, listed⟩ := (lookup_handlerToUri_of_init parsed started name uris).mp (mem_sorted.mp mem)
  obtain ⟨noFeed, noColon⟩ := colon_notMem_of_class named
  refine ⟨noFeed, noColon, ?_⟩
  intro uri inside
  rw [listed] at inside
  obtain ⟨path, here, rfl⟩ := List.mem_map.mp inside
  exact solid path (List.mem_of_mem_filter here)

theorem lookup_of_init {path : PathStatement} (parsed : NginxConfig.parse text = some config)
    (started : Server.init text = .ok server) (mem : path ∈ pathStatements config.statements)
    (named : path.handlerClass ≠ none) (notError : path.uriPrefix ≠ bytes "ErrorHandler")
    (notDb : path.uriPrefix ≠ bytes "/DbHandler") :
    ∃ handler, server.handlers.lookup path.uriPrefix = some handler ∧ Initialised path handler := by
  obtain ⟨handlers, registered, same⟩ := registered_of_init parsed started
  obtain ⟨handler, found, initialised⟩ := registered.served path ⟨mem, named⟩
  exact ⟨handler, by rw [same, AList.lookup_insert_ne notDb, AList.lookup_insert_ne notError, found], initialised⟩

/-- The status page of a configured server lists the paths of its configuration, and counts its responses. -/
theorem configured_status_page (parsed : NginxConfig.parse text = some config)
    (started : Server.init text = .ok server)
    (solid : ∀ path ∈ pathStatements config.statements, 10 ∉ path.uriPrefix ∧ 32 ∉ path.uriPrefix)
    {around : Surroundings} {compression : Compression} {world : World} {log : List Event} {s : ServerState World}
    (run : Run (deploy around server.handlers) compression
      (ServerState.start world server.serverStatus.handlerToUri) log s)
    {before behind : List Written} {w : Written} (split_ : s.written = before ++ w :: behind)
    {path : PathStatement} (mem : path ∈ pathStatements config.statements)
    (named : path.handlerClass = some .status) (notError : path.uriPrefix ≠ bytes "ErrorHandler")
    (notDb : path.uriPrefix ≠ bytes "/DbHandler")
    (selected : selectPrefix (deploy around server.handlers).handlers w.request = some path.uriPrefix)
    (ok : w.response.status = .ok) (plain : ¬ AsksCoding w.request) :
    ∃ head body, cutHead w.data = some (head, body) ∧ Reports (readReport body) before ∧
      ListsPaths (readReport body) (pathStatements config.statements) := by
  obtain ⟨message, -, originates⟩ := explained_of_run run before w behind split_
  obtain ⟨handler, lookup, initialised⟩ := lookup_of_init parsed started mem (by simp [named]) notError notDb
  have isStatus : handler = .status path.uriPrefix := by
    cases initialised with
    | status => rfl
    | echo other => cases named.symm.trans other
    | static other => cases named.symm.trans other
    | python other => cases named.symm.trans other
    | proxy other => cases named.symm.trans other
  subst isStatus
  have routes := routed_deploy_of_ok originates selected notError lookup ok
  have page := statusPage_of_originates originates routes
    (fun _ _ _ running => (RegisteredHandler.call_returns running).2.1) ok
  obtain ⟨head, body, cut, reports, listed⟩ := reports_of_page run (printable_of_init parsed started solid) split_
    page plain
  refine ⟨head, body, cut, reports, ?_⟩
  intro name uris
  rw [listed, mem_sorted, lookup_handlerToUri_of_init parsed started]

end Configured

def statusPaths : Bytes := bytes "path /status StatusHandler; path / EchoHandler;"

theorem configured_status_page_echo : ∃ config server s echoed page,
    NginxConfig.parse statusPaths = some config ∧ Server.init statusPaths = .ok server ∧
      Run (deploy (surroundings []) server.handlers) noCompression
        (ServerState.start freshWorld server.serverStatus.handlerToUri) echoThenStatus.reverse s ∧
      s.written = [echoed] ++ page :: [] ∧ ∃ head body, cutHead page.data = some (head, body) ∧
        Reports (readReport body) [echoed] ∧ ListsPaths (readReport body) (pathStatements config.statements) := by
  have accepted : (NginxConfig.parse statusPaths).any (fun config =>
      (pathStatements config.statements).all (fun path => 10 ∉ path.uriPrefix ∧ 32 ∉ path.uriPrefix) ∧
        (pathStatements config.statements).any (fun path =>
          path.handlerClass = some .status ∧ path.uriPrefix = bytes "/status")) = true := by decide +kernel
  have served : (Server.init statusPaths).toOption.any (fun server =>
      (after (deploy (surroundings []) server.handlers) noCompression
        (ServerState.start freshWorld server.serverStatus.handlerToUri) echoThenStatus).any fun s =>
          s.written.length = 2 ∧ (s.written.drop 1).all (fun page =>
            selectPrefix (deploy (surroundings []) server.handlers).handlers page.request =
                some (bytes "/status") ∧ page.response.status = .ok ∧
              page.request.getHeaderValueByName (bytes "Accept-Encoding") = []) = true) = true := by decide +kernel
  obtain ⟨config, parsed, paths⟩ := Option.any_eq_true _ _ |>.mp accepted
  obtain ⟨solid, isStatus⟩ := of_decide_eq_true paths
  obtain ⟨path, mem, isStatus⟩ := List.any_eq_true.mp isStatus
  obtain ⟨named, key⟩ := of_decide_eq_true isStatus
  obtain ⟨server, started, served⟩ := Option.any_eq_true _ _ |>.mp served
  obtain ⟨s, reached, pages⟩ := Option.any_eq_true _ _ |>.mp served
  obtain ⟨two, pages⟩ := of_decide_eq_true pages
  obtain ⟨echoed, page, written⟩ := List.length_eq_two.mp two
  rw [written] at pages
  obtain ⟨selected, ok, plain⟩ := of_decide_eq_true (List.all_eq_true.mp pages page (List.mem_singleton_self page))
  have started := ok_of_toOption started
  have run := run_of_after reached
  have split_ : s.written = [echoed] ++ page :: [] := written
  have page_ := configured_status_page parsed started
    (fun path mem => of_decide_eq_true (List.all_eq_true.mp solid path mem)) run split_ mem named
    (by rw [key]; decide) (by rw [key]; decide) (key ▸ selected) ok (not_asksCoding_of_none plain)
  exact ⟨config, server, s, echoed, page, parsed, started, run, written, page_⟩

end TscServer.Proof
