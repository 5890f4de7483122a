import TscServer.Proof.ConfigTables

/-!
# From tables to handlers

Each loop of `Server::init` registers the paths of one class. The paths of a configuration have
different prefixes, so no loop replaces what an earlier one registered, and only the two handlers with
a fixed key can.
-/

namespace TscServer.Proof
open Lib Model Spec Server

abbrev HandlerMap := AList fun _ : Bytes => RegisteredHandler

/-- The paths of `S` have their handlers, and nothing else has. -/
structure Registered (S : PathStatement → Prop) (handlers : HandlerMap) : Prop where
  served : ∀ path, S path →
    ∃ handler, handlers.lookup path.uriPrefix = some handler ∧ Initialised path handler
  keys : ∀ key ∈ handlers, ∃ path, S path ∧ path.uriPrefix = key

section Loops
variable {S : PathStatement → Prop} {path : PathStatement} {handlers : HandlerMap}

theorem registered_empty : Registered (fun _ => False) ∅ where
  served _ none_ := none_.elim
  keys key mem := absurd mem (AList.notMem_empty key)

theorem Registered.congr {T : PathStatement → Prop} (registered : Registered S handlers)
    (same : ∀ path, T path ↔ S path) : Registered T handlers where
  served path mem := registered.served path ((same path).mp mem)
  keys key mem := by
    obtain ⟨path, of_S, isKey⟩ := registered.keys key mem
    exact ⟨path, (same path).mpr of_S, isKey⟩

theorem Registered.insert {handler : RegisteredHandler} (registered : Registered S handlers)
    (unused : ∀ other, S other → other.uriPrefix ≠ path.uriPrefix)
    (initialised : Initialised path handler) :
    Registered (fun other => S other ∨ other = path) (handlers.insert path.uriPrefix handler) where
  served other mem := by
    rcases mem with mem | rfl
    · rw [AList.lookup_insert_ne (unused other mem)]
      exact registered.served other mem
    · exact ⟨handler, AList.lookup_insert handlers, initialised⟩
  keys key mem := by
    rw [AList.mem_insert] at mem
    rcases mem with rfl | mem
    · exact ⟨path, .inr rfl, rfl⟩
    · obtain ⟨other, of_S, isKey⟩ := registered.keys key mem
      exact ⟨other, .inl of_S, isKey⟩

theorem Registered.registerEach {paths : List PathStatement} {configs : List NginxConfig}
    {name : Bytes} {init : Init} {kind : HandlerClass} {server server' : Server}
    (registered : Registered S server.handlers)
    (initialises : ∀ path config handler, path.handlerClass = some kind → HasBlock kind path config →
      init path.uriPrefix config = some (.ok, handler) → Initialised path handler)
    (named : ∀ path ∈ paths, path.handlerClass = some kind)
    (pairs : List.Forall₂ (HasBlock kind) paths configs)
    (unused : ∀ other path, S other → path ∈ paths → other.uriPrefix ≠ path.uriPrefix)
    (distinct : (paths.map PathStatement.uriPrefix).Nodup)
    (ok : Server.registerEach name init (paths.map PathStatement.uriPrefix) configs server = .ok server') :
    Registered (fun path => S path ∨ path ∈ paths) server'.handlers := by
  induction pairs generalizing S server with
  | nil =>
      cases ok
      exact registered.congr fun path => by simp
  | @cons path config paths configs hasBlock pairs ih =>
      rw [List.map_cons, List.nodup_cons] at distinct
      obtain ⟨first, distinct⟩ := distinct
      rw [List.map_cons, Server.registerEach] at ok
      split at ok
      · cases ok
      · rename_i status handler made
        split at ok
        · cases ok
        · rename_i isOk
          obtain rfl := not_not.mp isOk
          have initialised := initialises path config handler (named path (by simp)) hasBlock made
          have here := registered.insert (fun other mem => unused other path mem (by simp)) initialised
          have later := ih here (fun other mem => named other (by simp [mem]))
            (by
              intro other next mem nextMem
              rcases mem with mem | rfl
              · exact unused other next mem (by simp [nextMem])
              · intro same
                exact first (same ▸ List.mem_map_of_mem nextMem))
            distinct ok
          exact later.congr fun other => by simp [or_assoc]

end Loops

/-! ## All loops -/

section Classes
variable {paths : List PathStatement} {opts : ConfigOpts} {done : List HandlerClass}

def OfClasses (paths : List PathStatement) (done : List HandlerClass) (path : PathStatement) : Prop :=
  path ∈ paths ∧ ∃ kind ∈ done, path.handlerClass = some kind

theorem mem_ofClass {kind : HandlerClass} {path : PathStatement} :
    path ∈ ofClass kind paths ↔ path ∈ paths ∧ path.handlerClass = some kind := by
  simp [ofClass]

theorem distinct_paths (distinct : (paths.map PathStatement.uriPrefix).Nodup) {path other : PathStatement}
    (mem : path ∈ paths) (mem' : other ∈ paths) (same : path.uriPrefix = other.uriPrefix) :
    path = other :=
  List.inj_on_of_nodup_map distinct mem mem' same

theorem Registered.nextClass {name : Bytes} {init : Init} {server server' : Server} (kind : HandlerClass)
    (tabulates : Tabulates paths opts) (distinct : (paths.map PathStatement.uriPrefix).Nodup)
    (new : kind ∉ done)
    (initialises : ∀ path config handler, path.handlerClass = some kind → HasBlock kind path config →
      init path.uriPrefix config = some (.ok, handler) → Initialised path handler)
    (registered : Registered (OfClasses paths done) server.handlers)
    (ok : Server.registerEach name init (tableOf opts kind) (configsOf opts kind) server = .ok server') :
    Registered (OfClasses paths (done ++ [kind])) server'.handlers := by
  rw [tabulates.uriPrefixes kind] at ok
  have unused (other path : PathStatement) (before : OfClasses paths done other)
      (mem : path ∈ ofClass kind paths) : other.uriPrefix ≠ path.uriPrefix := by
    intro same
    obtain ⟨mem, named⟩ := mem_ofClass.mp mem
    obtain ⟨mem', kind', isDone, named'⟩ := before
    obtain rfl := distinct_paths distinct mem' mem same
    obtain rfl := Option.some.inj (named'.symm.trans named)
    exact new isDone
  have sublist : List.Sublist (ofClass kind paths) paths := List.filter_sublist
  have later := registered.registerEach initialises (fun path mem => (mem_ofClass.mp mem).2)
    (tabulates.configs kind) unused (distinct.sublist (sublist.map _)) ok
  apply later.congr
  intro path
  rw [mem_ofClass]
  simp only [OfClasses, List.mem_append, List.mem_singleton]
  constructor
  · intro ⟨mem, other, either, named⟩
    rcases either with isDone | rfl
    · exact .inl ⟨mem, other, isDone, named⟩
    · exact .inr ⟨mem, named⟩
  · intro either
    rcases either with ⟨mem, other, isDone, named⟩ | ⟨mem, named⟩
    · exact ⟨mem, other, .inl isDone, named⟩
    · exact ⟨mem, kind, .inr rfl, named⟩

end Classes

section Initialises
variable {path : PathStatement} {config : NginxConfig} {handler : RegisteredHandler}

theorem initialised_echo (named : path.handlerClass = some .echo)
    (made : initEcho path.uriPrefix config = some (.ok, handler)) : Initialised path handler := by
  cases made
  exact .echo named

theorem initialised_status (named : path.handlerClass = some .status)
    (made : initStatus path.uriPrefix config = some (.ok, handler)) : Initialised path handler := by
  cases made
  exact .status named

theorem initialised_static (named : path.handlerClass = some .static)
    (block : path.childBlock = some config.statements)
    (made : initStatic path.uriPrefix config = some (.ok, handler)) : Initialised path handler := by
  rw [initStatic, Option.map_eq_some_iff] at made
  obtain ⟨⟨status, own⟩, made, same⟩ := made
  cases same
  exact .static named block made

theorem initialised_python (named : path.handlerClass = some .python)
    (block : path.childBlock = some config.statements)
    (made : initPython path.uriPrefix config = some (.ok, handler)) : Initialised path handler := by
  rw [initPython, Option.map_eq_some_iff] at made
  obtain ⟨⟨status, own⟩, made, same⟩ := made
  cases same
  exact .python named block made

theorem initialised_proxy (named : path.handlerClass = some .proxy)
    (block : path.childBlock = some config.statements)
    (made : initProxy path.uriPrefix config = some (.ok, handler)) : Initialised path handler := by
  rw [initProxy, Option.map_eq_some_iff] at made
  obtain ⟨⟨status, own⟩, made, same⟩ := made
  cases same
  exact .proxy named block made

end Initialises

theorem registered_of_registerHandlers {paths : List PathStatement} {opts : ConfigOpts} {server : Server}
    (tabulates : Tabulates paths opts) (distinct : (paths.map PathStatement.uriPrefix).Nodup)
    (ok : registerHandlers opts = .ok server) :
    ∃ handlers, Registered (fun path => path ∈ paths ∧ path.handlerClass ≠ none) handlers ∧
      server.handlers =
        (handlers.insert (bytes "ErrorHandler") .error).insert (bytes "/DbHandler")
          (.db (bytes "DbHandler")) := by
  simp only [registerHandlers, except_bind_eq_ok] at ok
  obtain ⟨s₁, ok₁, s₂, ok₂, s₃, ok₃, s₄, ok₄, s₅, ok₅, s₆, ok₆, ok₇⟩ := ok
  have r₀ : Registered (OfClasses paths []) (∅ : HandlerMap) :=
    registered_empty.congr fun path => by simp [OfClasses]
  have r₁ : Registered (OfClasses paths [.echo]) s₁.handlers :=
    r₀.nextClass .echo tabulates distinct (by simp)
      (fun _ _ _ named _ => initialised_echo named) ok₁
  have r₂ := r₁.nextClass .status tabulates distinct (by simp)
    (fun _ _ _ named _ => initialised_status named) ok₂
  have r₃ := r₂.nextClass .static tabulates distinct (by simp)
    (fun _ _ _ named block => initialised_static named (block rfl)) ok₃
  have r₄ := r₃.nextClass .python tabulates distinct (by simp)
    (fun _ _ _ named block => initialised_python named (block rfl)) ok₄
  have r₅ := r₄.nextClass .proxy tabulates distinct (by simp)
    (fun _ _ _ named block => initialised_proxy named (block rfl)) ok₅
  refine ⟨s₅.handlers, r₅.congr fun path => ?_, ?_⟩
  · cases named : path.handlerClass with
    | none => simp [OfClasses, named]
    | some kind => cases kind <;> simp [OfClasses, named]
  · cases ok₆
    cases ok₇
    rfl

/-! ## Serving a configuration -/

theorem registered_of_init {text : Bytes} {config : NginxConfig} {server : Server}
    (parsed : NginxConfig.parse text = some config) (started : Server.init text = .ok server) :
    ∃ handlers, Registered
        (fun path => path ∈ pathStatements config.statements ∧ path.handlerClass ≠ none) handlers ∧
      server.handlers =
        (handlers.insert (bytes "ErrorHandler") .error).insert (bytes "/DbHandler")
          (.db (bytes "DbHandler")) := by
  rw [Server.init, except_bind_eq_ok] at started
  obtain ⟨handler, ok, started⟩ := started
  obtain ⟨tabulates, used, distinct⟩ := collected_of_handleConfig parsed ok
  exact registered_of_registerHandlers tabulates (used ▸ distinct) started

theorem not_initialised_fixed {path : PathStatement} {handler : RegisteredHandler}
    (initialised : Initialised path handler) :
    handler ≠ .error ∧ ∀ uriPrefix, handler ≠ .db uriPrefix := by
  cases initialised <;> simp

theorem class_of_initialised {path : PathStatement} {handler : RegisteredHandler}
    (initialised : Initialised path handler) : path.handlerClass ≠ none := by
  cases initialised <;> simp [*]

/-- A configuration is served unless one of its paths names no class or has a fixed key for its
prefix. -/
theorem serves_iff {text : Bytes} {config : NginxConfig} {server : Server}
    (parsed : NginxConfig.parse text = some config) (started : Server.init text = .ok server) :
    Serves config.statements server.handlers ↔
      ∀ path ∈ pathStatements config.statements, path.handlerClass ≠ none ∧
        path.uriPrefix ≠ bytes "ErrorHandler" ∧ path.uriPrefix ≠ bytes "/DbHandler" := by
  obtain ⟨handlers, registered, same⟩ := registered_of_init parsed started
  rw [same]
  constructor
  · intro serves path mem
    obtain ⟨handler, found, initialised⟩ := serves.served path mem
    obtain ⟨notError, notDb⟩ := not_initialised_fixed initialised
    refine ⟨class_of_initialised initialised, fun isError => ?_, fun isDb => ?_⟩
    · rw [isError, AList.lookup_insert_ne (by decide), AList.lookup_insert] at found
      exact notError (Option.some.inj found).symm
    · rw [isDb, AList.lookup_insert] at found
      exact notDb _ (Option.some.inj found).symm
  · intro own
    constructor
    · intro path mem
      obtain ⟨named, notError, notDb⟩ := own path mem
      rw [AList.lookup_insert_ne notDb, AList.lookup_insert_ne notError]
      exact registered.served path ⟨mem, named⟩
    · intro key mem
      rw [AList.mem_insert, AList.mem_insert] at mem
      rcases mem with isDb | isError | mem
      · exact .inr (.inl isDb)
      · exact .inl isError
      · obtain ⟨path, ⟨listed, -⟩, isKey⟩ := registered.keys key mem
        exact .inr (.inr ⟨path, listed, isKey⟩)

def nestedPaths : Bytes :=
  bytes "server \x7bpath /s StaticHandler \x7broot a;\x7d\x7d path / EchoHandler;"

theorem serves_nested_paths : ∃ config server,
    NginxConfig.parse nestedPaths = some config ∧ Server.init nestedPaths = .ok server ∧
      Serves config.statements server.handlers := by
  have accepted : (NginxConfig.parse nestedPaths).any (fun config =>
        (pathStatements config.statements).all fun path => path.handlerClass ≠ none ∧
          path.uriPrefix ≠ bytes "ErrorHandler" ∧ path.uriPrefix ≠ bytes "/DbHandler") = true := by
    decide +kernel
  have built : (Server.init nestedPaths).isOk = true := by decide +kernel
  obtain ⟨config, parsed, own⟩ := Option.any_eq_true _ _ |>.mp accepted
  obtain ⟨server, started⟩ := except_isOk_iff.mp built
  refine ⟨config, server, parsed, started, (serves_iff parsed started).mpr ?_⟩
  simpa using own

theorem drops_unknown_handler : ∃ config server,
    NginxConfig.parse (bytes "path /x ApiHandler;") = some config ∧
      Server.init (bytes "path /x ApiHandler;") = .ok server ∧
      ¬ Serves config.statements server.handlers := by
  have accepted : (NginxConfig.parse (bytes "path /x ApiHandler;")).any (fun config =>
      (pathStatements config.statements).any fun path => path.handlerClass = none) = true := by
    decide +kernel
  have built : (Server.init (bytes "path /x ApiHandler;")).isOk = true := by decide +kernel
  obtain ⟨config, parsed, unknown⟩ := Option.any_eq_true _ _ |>.mp accepted
  obtain ⟨server, started⟩ := except_isOk_iff.mp built
  refine ⟨config, server, parsed, started, fun serves => ?_⟩
  obtain ⟨path, mem, none_⟩ := List.any_eq_true.mp unknown
  obtain ⟨handler, -, initialised⟩ := serves.served path mem
  exact class_of_initialised initialised (by simpa using none_)

end TscServer.Proof
