import TscServer.Lib.ExceptFold
import TscServer.Spec.Configuration

/-!
# The tables of the config handler

`handle_statements` is a fold over the leaves of its statements. A leaf that is accepted sets the port
or the thread count or adds one path, so after the fold each table holds the paths of its class, in
their order and with their blocks.
-/

namespace TscServer.Proof
open Lib Model Spec ConfigHandler

/-! ## Reading through server blocks -/

theorem leavesOf_none (tokens : List Bytes) : leavesOf (.mk tokens none) = [.mk tokens none] := by
  cases tokens <;> rfl

def IsServerBlock (statement : NginxConfigStatement) : Prop :=
  ∃ arguments block, statement = .mk (bytes "server" :: arguments) (some block)

theorem not_isServerBlock_singleton {statement leaf : NginxConfigStatement}
    (plain : ¬ IsServerBlock statement) (mem : leaf ∈ [statement]) : ¬ IsServerBlock leaf := by
  rw [List.mem_singleton] at mem
  exact mem ▸ plain

mutual

theorem not_isServerBlock_of_leafOf : ∀ (statement : NginxConfigStatement),
    ∀ leaf ∈ leavesOf statement, ¬ IsServerBlock leaf
  | .mk (tokenStart :: arguments) (some block) => by
      intro leaf mem
      rw [leavesOf] at mem
      split at mem
      · exact not_isServerBlock_of_leaf block leaf mem
      · rename_i other
        apply not_isServerBlock_singleton _ mem
        intro ⟨_, _, same⟩
        obtain ⟨tokens, -⟩ := NginxConfigStatement.mk.inj same
        exact other (List.cons.inj tokens).1
  | .mk [] (some block) => by
      intro leaf mem
      apply not_isServerBlock_singleton _ mem
      intro ⟨_, _, same⟩
      cases same
  | .mk tokens none => by
      intro leaf mem
      rw [leavesOf_none] at mem
      apply not_isServerBlock_singleton _ mem
      intro ⟨_, _, same⟩
      cases same

theorem not_isServerBlock_of_leaf : ∀ (statements : List NginxConfigStatement),
    ∀ leaf ∈ leaves statements, ¬ IsServerBlock leaf
  | [] => by
      intro leaf mem
      cases mem
  | statement :: statements => by
      intro leaf mem
      rw [leaves, List.mem_append] at mem
      rcases mem with mem | mem
      · exact not_isServerBlock_of_leafOf statement leaf mem
      · exact not_isServerBlock_of_leaf statements leaf mem

end

def handleLeaf (handler : ConfigHandler) (leaf : NginxConfigStatement) :
    Except Refusal ConfigHandler :=
  handleStatement leaf handler

theorem foldlM_handleLeaf_singleton (leaf : NginxConfigStatement) (handler : ConfigHandler) :
    [leaf].foldlM handleLeaf handler = handleStatement leaf handler := by
  rw [List.foldlM_cons]
  show (handleStatement leaf handler >>= pure) = _
  exact bind_pure _

mutual

theorem foldlM_leavesOf : ∀ (statement : NginxConfigStatement) (handler : ConfigHandler),
    (leavesOf statement).foldlM handleLeaf handler = handleStatement statement handler
  | .mk (tokenStart :: arguments) (some block), handler => by
      rw [leavesOf]
      split
      · rename_i server
        subst server
        rw [foldlM_leaves block handler]
        rfl
      · exact foldlM_handleLeaf_singleton _ handler
  | .mk [] (some block), handler => foldlM_handleLeaf_singleton _ handler
  | .mk tokens none, handler => by
      rw [leavesOf_none]
      exact foldlM_handleLeaf_singleton _ handler

theorem foldlM_leaves : ∀ (statements : List NginxConfigStatement) (handler : ConfigHandler),
    (leaves statements).foldlM handleLeaf handler = handleStatements statements handler
  | [], _ => rfl
  | statement :: statements, handler => by
      rw [leaves, List.foldlM_append, foldlM_leavesOf statement handler, handleStatements]
      cases handleStatement statement handler with
      | error refusal => rfl
      | ok handler => exact foldlM_leaves statements handler

end

/-! ## What a leaf does -/

inductive Accepts (handler : ConfigHandler) : NginxConfigStatement → ConfigHandler → Prop
  | port {port : Bytes} {portNum : Int} {childBlock : Option (List NginxConfigStatement)} :
      stoi port = .ok portNum → 0 ≤ portNum → portNum ≤ maxPort →
      Accepts handler (.mk [bytes "port", port] childBlock)
        { handler with configOpt := { handler.configOpt with port } }
  | thread {count : Bytes} {threadCount : Int} {childBlock : Option (List NginxConfigStatement)} :
      lexicalCastInt count = some threadCount → 0 < threadCount →
      Accepts handler (.mk [bytes "thread", count] childBlock)
        { handler with configOpt := { handler.configOpt with threadCount } }
  | path {path : PathStatement} {configOpt : ConfigOpts} :
      path.uriPrefix ∉ handler.checkDuplicatePath → path.uriPrefix ≠ [] →
      (path.uriPrefix.getLast? = some 47 → path.uriPrefix = bytes "/") →
      addPath path.uriPrefix path.handlerName path.childBlock handler.configOpt = .ok configOpt →
      Accepts handler (.mk [bytes "path", path.uriPrefix, path.handlerName] path.childBlock)
        { configOpt, checkDuplicatePath := handler.checkDuplicatePath ++ [path.uriPrefix] }

def tokenText : StartTokenType → Bytes
  | .port => bytes "port"
  | .path => bytes "path"
  | .server => bytes "server"
  | .root => bytes "root"
  | .default => bytes "default"
  | .thread => bytes "thread"
  | .invalid => []

theorem eq_tokenText {token : Bytes} {type : StartTokenType} (known : type ≠ .invalid)
    (same : toTokenType token = type) : token = tokenText type := by
  subst same
  unfold toTokenType at known ⊢
  split_ifs at known ⊢
  all_goals first
    | assumption
    | exact absurd rfl known

theorem accepts_of_handlePort {arguments : List Bytes}
    {childBlock : Option (List NginxConfigStatement)} {handler handler' : ConfigHandler}
    (ok : handlePort (bytes "port" :: arguments) handler = .ok handler') :
    Accepts handler (.mk (bytes "port" :: arguments) childBlock) handler' := by
  unfold handlePort at ok
  split at ok
  · rename_i port same
    obtain ⟨-, rfl⟩ := List.cons.inj same
    split at ok
    · cases ok
    · cases ok
    · rename_i portNum number
      split at ok
      · rename_i range
        cases ok
        exact .port number range.2 range.1
      · cases ok
  · cases ok

theorem accepts_of_handleThread {arguments : List Bytes}
    {childBlock : Option (List NginxConfigStatement)} {handler handler' : ConfigHandler}
    (ok : handleThread (bytes "thread" :: arguments) handler = .ok handler') :
    Accepts handler (.mk (bytes "thread" :: arguments) childBlock) handler' := by
  unfold handleThread at ok
  split at ok
  · rename_i count same
    obtain ⟨-, rfl⟩ := List.cons.inj same
    split at ok
    · cases ok
    · rename_i threadCount number
      split at ok
      · rename_i positive
        cases ok
        exact .thread number positive
      · cases ok
  · cases ok

theorem accepts_of_handlePath {arguments : List Bytes}
    {childBlock : Option (List NginxConfigStatement)} {handler handler' : ConfigHandler}
    (ok : handlePath (bytes "path" :: arguments) childBlock handler = .ok handler') :
    Accepts handler (.mk (bytes "path" :: arguments) childBlock) handler' := by
  unfold handlePath at ok
  split at ok
  · rename_i uriPrefix handlerName same
    obtain ⟨-, rfl⟩ := List.cons.inj same
    split at ok
    · cases ok
    · rename_i unused
      split at ok
      · cases ok
      · rename_i back last
        split at ok
        · cases ok
        · rename_i plain
          cases added : addPath uriPrefix handlerName childBlock handler.configOpt with
          | error refusal =>
              rw [added] at ok
              cases ok
          | ok configOpt =>
              rw [added] at ok
              cases ok
              apply @Accepts.path handler { uriPrefix, handlerName, childBlock } configOpt _ _ _ added
              · simpa using unused
              · intro empty
                subst empty
                cases last
              · intro slash
                obtain rfl := Option.some.inj (last.symm.trans slash)
                by_contra other
                exact plain ⟨rfl, other⟩
  · cases ok

theorem accepts_of_handleLeaf {leaf : NginxConfigStatement} {handler handler' : ConfigHandler}
    (plain : ¬ IsServerBlock leaf) (ok : handleLeaf handler leaf = .ok handler') :
    Accepts handler leaf handler' := by
  obtain ⟨tokens, childBlock⟩ := leaf
  cases tokens with
  | nil => cases ok
  | cons tokenStart arguments =>
      unfold handleLeaf handleStatement at ok
      split at ok
      · rename_i isPort
        obtain rfl := eq_tokenText (by decide) isPort
        exact accepts_of_handlePort ok
      · rename_i isPath
        obtain rfl := eq_tokenText (by decide) isPath
        exact accepts_of_handlePath ok
      · cases ok
      · rename_i statements isServer
        obtain rfl := eq_tokenText (by decide) isServer
        exact absurd ⟨arguments, statements, rfl⟩ plain
      · rename_i isThread
        obtain rfl := eq_tokenText (by decide) isThread
        exact accepts_of_handleThread ok
      · cases ok

/-! ## The tables -/

structure Tabulates (paths : List PathStatement) (opts : ConfigOpts) : Prop where
  uriPrefixes : ∀ kind, tableOf opts kind = (ofClass kind paths).map PathStatement.uriPrefix
  configs : ∀ kind, List.Forall₂ (HasBlock kind) (ofClass kind paths) (configsOf opts kind)

structure Adds (path : PathStatement) (config : NginxConfig) (opts opts' : ConfigOpts) : Prop where
  hasBlock : ∀ kind, path.handlerClass = some kind → HasBlock kind path config
  own : ∀ kind, path.handlerClass = some kind →
    tableOf opts' kind = tableOf opts kind ++ [path.uriPrefix] ∧
      configsOf opts' kind = configsOf opts kind ++ [config]
  others : ∀ kind, path.handlerClass ≠ some kind →
    tableOf opts' kind = tableOf opts kind ∧ configsOf opts' kind = configsOf opts kind

section Tables
variable {paths : List PathStatement} {path : PathStatement} {opts opts' : ConfigOpts}

theorem Adds.of_class {kind : HandlerClass} {config : NginxConfig}
    (named : path.handlerClass = some kind) (hasBlock : HasBlock kind path config)
    (table : tableOf opts' kind = tableOf opts kind ++ [path.uriPrefix])
    (configs : configsOf opts' kind = configsOf opts kind ++ [config])
    (others : ∀ other ≠ kind,
      tableOf opts' other = tableOf opts other ∧ configsOf opts' other = configsOf opts other) :
    Adds path config opts opts' where
  hasBlock other here := by
    obtain rfl := Option.some.inj (named.symm.trans here)
    exact hasBlock
  own other here := by
    obtain rfl := Option.some.inj (named.symm.trans here)
    exact ⟨table, configs⟩
  others other different := others other fun same => different (same ▸ named)

theorem Adds.of_none {config : NginxConfig} (named : path.handlerClass = none) :
    Adds path config opts opts where
  hasBlock _ here := by simp [named] at here
  own _ here := by simp [named] at here
  others _ _ := ⟨rfl, rfl⟩

theorem adds_of_addPath
    (added : addPath path.uriPrefix path.handlerName path.childBlock opts = .ok opts') :
    ∃ config, Adds path config opts opts' := by
  have named : path.handlerClass = Spec.handlerClass path.handlerName := rfl
  have noBlock {kind : HandlerClass} (none_ : takesBlock kind = false) :
      HasBlock kind path { statements := [] } := fun takes => by simp [none_] at takes
  unfold Spec.handlerClass at named
  unfold addPath at added
  split_ifs at named added
  · split at added <;> cases added
    refine ⟨{ statements := [] }, .of_class named (noBlock rfl) rfl (by simp [configsOf]) ?_⟩
    intro other different
    cases other <;> first | exact absurd rfl different | exact ⟨rfl, rfl⟩
  · cases added
    refine ⟨{ statements := [] }, .of_class named (noBlock rfl) rfl (by simp [configsOf]) ?_⟩
    intro other different
    cases other <;> first | exact absurd rfl different | exact ⟨rfl, rfl⟩
  · split at added <;> cases added
    rename_i statements block
    refine ⟨{ statements }, .of_class named (fun _ => block) rfl rfl ?_⟩
    intro other different
    cases other <;> first | exact absurd rfl different | exact ⟨rfl, rfl⟩
  · split at added <;> cases added
    rename_i statements block
    refine ⟨{ statements }, .of_class named (fun _ => block) rfl rfl ?_⟩
    intro other different
    cases other <;> first | exact absurd rfl different | exact ⟨rfl, rfl⟩
  · split at added <;> cases added
    rename_i statements block
    refine ⟨{ statements }, .of_class named (fun _ => block) rfl rfl ?_⟩
    intro other different
    cases other <;> first | exact absurd rfl different | exact ⟨rfl, rfl⟩
  · cases added
    exact ⟨{ statements := [] }, .of_none named⟩

theorem tabulates_nil : Tabulates [] {} where
  uriPrefixes kind := by cases kind <;> rfl
  configs kind := by cases kind <;> exact .nil

theorem Tabulates.append {config : NginxConfig} (tabulates : Tabulates paths opts)
    (adds : Adds path config opts opts') : Tabulates (paths ++ [path]) opts' := by
  have filtered (kind : HandlerClass) : ofClass kind (paths ++ [path]) =
      ofClass kind paths ++ if path.handlerClass = some kind then [path] else [] := by
    by_cases here : path.handlerClass = some kind
    · simp [ofClass, here]
    · simp [ofClass, here]
  constructor
  · intro kind
    rw [filtered kind]
    split
    · rename_i here
      rw [(adds.own kind here).1, tabulates.uriPrefixes kind, List.map_append]
      rfl
    · rename_i other
      rw [(adds.others kind other).1, tabulates.uriPrefixes kind, List.append_nil]
  · intro kind
    rw [filtered kind]
    split
    · rename_i here
      rw [(adds.own kind here).2]
      exact List.rel_append (tabulates.configs kind) (.cons (adds.hasBlock kind here) .nil)
    · rename_i other
      rw [(adds.others kind other).2, List.append_nil]
      exact tabulates.configs kind

end Tables

/-! ## The whole configuration -/

structure Collected (seen : List NginxConfigStatement) (handler : ConfigHandler) : Prop where
  tabulates : Tabulates (seen.filterMap pathStatement) handler.configOpt
  used : handler.checkDuplicatePath = (seen.filterMap pathStatement).map PathStatement.uriPrefix
  distinct : handler.checkDuplicatePath.Nodup

theorem Collected.next {seen : List NginxConfigStatement} {leaf : NginxConfigStatement}
    {handler handler' : ConfigHandler} (collected : Collected seen handler)
    (accepts : Accepts handler leaf handler') : Collected (seen ++ [leaf]) handler' := by
  obtain ⟨tabulates, used, distinct⟩ := collected
  cases accepts with
  | @port port _ childBlock =>
      have none_ : [.mk [bytes "port", port] childBlock].filterMap pathStatement = [] := rfl
      constructor
      · rw [List.filterMap_append, none_, List.append_nil]
        exact ⟨tabulates.uriPrefixes, tabulates.configs⟩
      · rw [List.filterMap_append, none_, List.append_nil]
        exact used
      · exact distinct
  | @thread count _ childBlock =>
      have none_ : [.mk [bytes "thread", count] childBlock].filterMap pathStatement = [] := rfl
      constructor
      · rw [List.filterMap_append, none_, List.append_nil]
        exact ⟨tabulates.uriPrefixes, tabulates.configs⟩
      · rw [List.filterMap_append, none_, List.append_nil]
        exact used
      · exact distinct
  | @path path configOpt unused _ _ added =>
      have one : [.mk [bytes "path", path.uriPrefix, path.handlerName] path.childBlock].filterMap
          pathStatement = [path] := rfl
      obtain ⟨config, adds⟩ := adds_of_addPath added
      constructor
      · rw [List.filterMap_append, one]
        exact tabulates.append adds
      · rw [List.filterMap_append, one, List.map_append, used]
        rfl
      · apply List.nodup_append.mpr ⟨distinct, by simp, _⟩
        intro used mem new one same
        rw [List.mem_singleton] at one
        exact unused (one ▸ same ▸ mem)

/-- What holds of a new handler, and after every leaf that is accepted, holds after the run. -/
theorem handleStatements_induction {P : List NginxConfigStatement → ConfigHandler → Prop}
    {statements : List NginxConfigStatement} {handler : ConfigHandler} (start : P [] {})
    (next : ∀ seen leaf handler handler', P seen handler → Accepts handler leaf handler' →
      P (seen ++ [leaf]) handler')
    (ok : handleStatements statements {} = .ok handler) : P (leaves statements) handler := by
  rw [← foldlM_leaves] at ok
  apply foldlM_induction start _ ok
  intro seen leaf handler handler' mem here accepted
  have plain := not_isServerBlock_of_leaf statements leaf mem
  exact next seen leaf handler handler' here (accepts_of_handleLeaf plain accepted)

theorem collected_of_handleStatements {statements : List NginxConfigStatement} {handler : ConfigHandler}
    (ok : handleStatements statements {} = .ok handler) : Collected (leaves statements) handler :=
  handleStatements_induction ⟨tabulates_nil, rfl, .nil⟩
    (fun _ _ _ _ collected accepts => collected.next accepts) ok

theorem collected_of_handleConfig {text : Bytes} {config : NginxConfig} {handler : ConfigHandler}
    (parsed : NginxConfig.parse text = some config) (ok : handleConfig text = .ok handler) :
    Collected (leaves config.statements) handler := by
  rw [handleConfig, parsed] at ok
  exact collected_of_handleStatements ok

/-! ## Well-formed tables -/

/-- What every accepted path has been tested for, and every accepted thread count. -/
structure Tested (handler : ConfigHandler) : Prop where
  slash : ∀ uriPrefix ∈ handler.checkDuplicatePath,
    uriPrefix.getLast? = some 47 → uriPrefix = bytes "/"
  threads : 0 < handler.configOpt.threadCount

theorem threadCount_addPath {uriPrefix handlerName : Bytes}
    {childBlock : Option (List NginxConfigStatement)} {opts opts' : ConfigOpts}
    (added : addPath uriPrefix handlerName childBlock opts = .ok opts') :
    opts'.port = opts.port ∧ opts'.threadCount = opts.threadCount := by
  unfold addPath at added
  split_ifs at added
  all_goals first
    | split at added <;> cases added <;> exact ⟨rfl, rfl⟩
    | cases added; exact ⟨rfl, rfl⟩

theorem Tested.next {leaf : NginxConfigStatement} {handler handler' : ConfigHandler}
    (tested : Tested handler) (accepts : Accepts handler leaf handler') : Tested handler' := by
  cases accepts with
  | port => exact ⟨tested.slash, tested.threads⟩
  | thread _ positive => exact ⟨tested.slash, positive⟩
  | @path path _ _ _ slash added =>
      constructor
      · intro uriPrefix mem
        rcases List.mem_append.mp mem with mem | mem
        · exact tested.slash uriPrefix mem
        · exact List.mem_singleton.mp mem ▸ slash
      · rw [(threadCount_addPath added).2]
        exact tested.threads

section Collected
variable {statements : List NginxConfigStatement} {handler : ConfigHandler}
  (collected : Collected (leaves statements) handler)
include collected

theorem prefixes_nodup : ((pathStatements statements).map PathStatement.uriPrefix).Nodup := by
  rw [pathStatements, ← collected.used]
  exact collected.distinct

theorem mem_tableOf {kind : HandlerClass} {uriPrefix : Bytes} :
    uriPrefix ∈ tableOf handler.configOpt kind ↔
      ∃ path ∈ pathStatements statements, path.handlerClass = some kind ∧ path.uriPrefix = uriPrefix := by
  rw [collected.tabulates.uriPrefixes kind]
  simp [ofClass, pathStatements, and_assoc]

theorem tableOf_nodup (kind : HandlerClass) : (tableOf handler.configOpt kind).Nodup := by
  rw [collected.tabulates.uriPrefixes kind]
  exact (prefixes_nodup collected).sublist ((List.filter_sublist).map _)

theorem tableOf_disjoint {kind kind' : HandlerClass} (different : kind ≠ kind') :
    (tableOf handler.configOpt kind).Disjoint (tableOf handler.configOpt kind') := by
  intro uriPrefix mem mem'
  obtain ⟨path, here, named, rfl⟩ := (mem_tableOf collected).mp mem
  obtain ⟨path', here', named', same⟩ := (mem_tableOf collected).mp mem'
  obtain rfl := List.inj_on_of_nodup_map (prefixes_nodup collected) here' here same
  exact different (Option.some.inj (named.symm.trans named'))

end Collected

theorem wellFormedTables_of_handleStatements {statements : List NginxConfigStatement}
    {handler : ConfigHandler} (ok : handleStatements statements {} = .ok handler) :
    WellFormedTables statements handler.configOpt := by
  have collected := collected_of_handleStatements ok
  have tested : Tested handler :=
    handleStatements_induction (P := fun _ handler => Tested handler)
      ⟨by simp, by decide⟩ (fun _ _ _ _ tested accepts => tested.next accepts) ok
  have used {kind : HandlerClass} {uriPrefix : Bytes} (mem : uriPrefix ∈ tableOf handler.configOpt kind) :
      uriPrefix ∈ handler.checkDuplicatePath := by
    obtain ⟨path, here, -, rfl⟩ := (mem_tableOf collected).mp mem
    rw [collected.used]
    exact List.mem_map_of_mem here
  exact
    { nodup := tableOf_nodup collected
      disjoint := fun kind kind' => tableOf_disjoint collected
      slash := fun kind uriPrefix mem => tested.slash uriPrefix (used mem)
      threads := tested.threads
      aligned := by
        intro kind _
        rw [collected.tabulates.uriPrefixes kind, List.length_map]
        exact (collected.tabulates.configs kind).length_eq.symm
      own_block := by
        intro kind takes i uriPrefix here
        rw [collected.tabulates.uriPrefixes kind, List.getElem?_map, Option.map_eq_some_iff] at here
        obtain ⟨path, at_, rfl⟩ := here
        obtain ⟨inside, rfl⟩ := List.getElem?_eq_some_iff.mp at_
        have pairs := collected.tabulates.configs kind
        have inside' : i < (configsOf handler.configOpt kind).length := pairs.length_eq ▸ inside
        have block : HasBlock kind _ _ := pairs.get inside inside'
        exact ⟨_, _, at_, rfl, List.getElem?_eq_getElem inside', block takes⟩ }

def nestedStatements : List NginxConfigStatement :=
  [.mk [bytes "path", bytes "/", bytes "EchoHandler"] none,
    .mk [bytes "server"] (some
      [.mk [bytes "path", bytes "/s", bytes "StaticHandler"] (some [.mk [bytes "root", bytes "d"] none]),
        .mk [bytes "thread", bytes "4"] none])]

theorem wellFormedTables_nested : ∃ handler, handleStatements nestedStatements {} = .ok handler ∧
    WellFormedTables nestedStatements handler.configOpt := by
  have accepted : (handleStatements nestedStatements {}).isOk = true := by decide
  obtain ⟨handler, ok⟩ := except_isOk_iff.mp accepted
  exact ⟨handler, ok, wellFormedTables_of_handleStatements ok⟩

end TscServer.Proof
