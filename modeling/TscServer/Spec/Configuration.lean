import TscServer.Model.Server
import TscServer.Spec.ConfigText

/-!
# What a configuration asks for

The path statements of a configuration, at any depth of server blocks, and the handlers that they ask
for. A map of handlers serves a configuration when each of its paths has its own handler.
-/

namespace TscServer.Spec
open Lib Model

/-! ## Statements through server blocks -/

mutual

def leavesOf : NginxConfigStatement → List NginxConfigStatement
  | .mk (tokenStart :: arguments) (some block) =>
      if tokenStart = bytes "server" then leaves block
      else [.mk (tokenStart :: arguments) (some block)]
  | statement => [statement]

def leaves : List NginxConfigStatement → List NginxConfigStatement
  | [] => []
  | statement :: statements => leavesOf statement ++ leaves statements

end

structure PathStatement where
  uriPrefix : Bytes
  handlerName : Bytes
  childBlock : Option (List NginxConfigStatement)

def pathStatement : NginxConfigStatement → Option PathStatement
  | .mk [tokenStart, uriPrefix, handlerName] childBlock =>
      if tokenStart = bytes "path" then some { uriPrefix, handlerName, childBlock } else none
  | _ => none

def pathStatements (statements : List NginxConfigStatement) : List PathStatement :=
  (leaves statements).filterMap pathStatement

/-! ## Handlers -/

inductive HandlerClass where
  | echo
  | status
  | static
  | python
  | proxy
deriving DecidableEq, Repr

def handlerClass (handlerName : Bytes) : Option HandlerClass :=
  if handlerName = bytes "EchoHandler" then some .echo
  else if handlerName = bytes "StatusHandler" then some .status
  else if handlerName = bytes "StaticHandler" then some .static
  else if handlerName = bytes "PythonHandler" then some .python
  else if handlerName = bytes "ProxyHandler" then some .proxy
  else none

def PathStatement.handlerClass (path : PathStatement) : Option HandlerClass :=
  Spec.handlerClass path.handlerName

inductive Initialised (path : PathStatement) : RegisteredHandler → Prop
  | echo : path.handlerClass = some .echo → Initialised path (.echo path.uriPrefix)
  | status : path.handlerClass = some .status → Initialised path (.status path.uriPrefix)
  | static {statements : List NginxConfigStatement} {handler : StaticFileHandler} :
      path.handlerClass = some .static → path.childBlock = some statements →
      StaticFileHandler.init path.uriPrefix { statements } = some (.ok, handler) →
      Initialised path (.static handler)
  | python {statements : List NginxConfigStatement} {handler : PythonHandler} :
      path.handlerClass = some .python → path.childBlock = some statements →
      PythonHandler.init path.uriPrefix { statements } = some (.ok, handler) →
      Initialised path (.python handler)
  | proxy {statements : List NginxConfigStatement} {handler : ProxyHandler} :
      path.handlerClass = some .proxy → path.childBlock = some statements →
      ProxyHandler.init path.uriPrefix { statements } = some (.ok, handler) →
      Initialised path (.proxy handler)

structure Serves (statements : List NginxConfigStatement)
    (handlers : AList fun _ : Bytes => RegisteredHandler) : Prop where
  served : ∀ path ∈ pathStatements statements,
    ∃ handler, handlers.lookup path.uriPrefix = some handler ∧ Initialised path handler
  keys : ∀ key ∈ handlers,
    key = bytes "ErrorHandler" ∨ key = bytes "/DbHandler" ∨
      ∃ path ∈ pathStatements statements, path.uriPrefix = key

/-! ## Accesses -/

/-- Neither `handle_statements` nor `Init` of a handler, on any block of the tree, takes a token that is
not there or the last character of an empty one. -/
structure InRange (statements : List NginxConfigStatement) : Prop where
  handleStatements : ∀ handler,
    ConfigHandler.handleStatements statements handler ≠ .error (.fault .indeterminateValue)
  static : ∀ tokens block uriPrefix, Inside (.mk tokens (some block)) statements →
    StaticFileHandler.init uriPrefix { statements := block } ≠ none
  python : ∀ tokens block uriPrefix, Inside (.mk tokens (some block)) statements →
    PythonHandler.init uriPrefix { statements := block } ≠ none
  proxy : ∀ tokens block uriPrefix, Inside (.mk tokens (some block)) statements →
    ProxyHandler.init uriPrefix { statements := block } ≠ none

/-! ## Numeric settings -/

def HasResult (statement : NginxConfigStatement) (result : ConfigHandler → Except Refusal ConfigHandler) :
    Prop :=
  ∀ before after handler, ConfigHandler.handleStatements (before ++ statement :: after) handler =
    (ConfigHandler.handleStatements before handler).bind fun handler =>
      (result handler).bind (ConfigHandler.handleStatements after)

structure PortChecked (t : Bytes) : Prop where
  accepts : IsNumeral t → decimal t ≤ 65535 → ∀ childBlock, HasResult (.mk [bytes "port", t] childBlock)
    fun handler => .ok { handler with configOpt := { handler.configOpt with port := t } }
  refuses : ¬ (IsNumeral t ∧ decimal t ≤ 65535) →
    ∀ childBlock, HasResult (.mk [bytes "port", t] childBlock) fun _ => .error .invalid

structure ThreadChecked (t : Bytes) : Prop where
  accepts : ∀ threadCount, Denotes t threadCount → 0 < threadCount → threadCount < 2 ^ 31 →
    ∀ childBlock, HasResult (.mk [bytes "thread", t] childBlock)
      fun handler => .ok { handler with configOpt := { handler.configOpt with threadCount } }
  refuses : (∀ n, Denotes t n → ¬ (0 < n ∧ n < 2 ^ 31)) →
    ∀ childBlock, HasResult (.mk [bytes "thread", t] childBlock) fun _ => .error .invalid

/-- The number that the text begins with, if there is one, is an `int`, and the text is just its digits
when it is in the range of ports. -/
def PlainlyNumbered (t : Bytes) : Prop :=
  ∀ n, leadingNumber t = some n → -2 ^ 31 ≤ n ∧ n < 2 ^ 31 ∧ (0 ≤ n → n ≤ 65535 → IsNumeral t)

/-! ## Tables -/

def takesBlock : HandlerClass → Bool
  | .echo | .status => false
  | .static | .python | .proxy => true

def tableOf (opts : ConfigOpts) : HandlerClass → List Bytes
  | .echo => opts.echoUriPrefixes
  | .status => opts.statusUriPrefixes
  | .static => opts.staticFileUriPrefixes
  | .python => opts.pythonUriPrefixes
  | .proxy => opts.proxyUriPrefixes

def configsOf (opts : ConfigOpts) : HandlerClass → List NginxConfig
  | .echo => opts.echoUriPrefixes.map fun _ => { statements := [] }
  | .status => opts.statusUriPrefixes.map fun _ => { statements := [] }
  | .static => opts.staticFileConfig
  | .python => opts.pythonConfig
  | .proxy => opts.proxyConfig

def HasBlock (kind : HandlerClass) (path : PathStatement) (config : NginxConfig) : Prop :=
  takesBlock kind = true → path.childBlock = some config.statements

def ofClass (kind : HandlerClass) (paths : List PathStatement) : List PathStatement :=
  paths.filter fun path => path.handlerClass = some kind

/-- The tables as the server reads them: a handler for each index, which gets the config at that index. -/
structure WellFormedTables (statements : List NginxConfigStatement) (opts : ConfigOpts) : Prop where
  nodup : ∀ kind, (tableOf opts kind).Nodup
  disjoint : ∀ kind kind', kind ≠ kind' → (tableOf opts kind).Disjoint (tableOf opts kind')
  slash : ∀ kind, ∀ uriPrefix ∈ tableOf opts kind, uriPrefix.getLast? = some 47 → uriPrefix = bytes "/"
  threads : 0 < opts.threadCount
  aligned : ∀ kind, takesBlock kind = true → (configsOf opts kind).length = (tableOf opts kind).length
  own_block : ∀ kind, takesBlock kind = true → ∀ (i : Nat) uriPrefix, (tableOf opts kind)[i]? = some uriPrefix →
    ∃ (path : PathStatement) (config : NginxConfig),
      (ofClass kind (pathStatements statements))[i]? = some path ∧ path.uriPrefix = uriPrefix ∧
        (configsOf opts kind)[i]? = some config ∧ path.childBlock = some config.statements

def handlerTable (opts : ConfigOpts) : List (Sigma fun _ : Bytes => HandlerClass × NginxConfig) :=
  [HandlerClass.echo, .status, .static, .python, .proxy].flatMap fun kind =>
    List.zipWith (fun uriPrefix config => ⟨uriPrefix, kind, config⟩) (tableOf opts kind) (configsOf opts kind)

def handlerMap (opts : ConfigOpts) (uriPrefix : Bytes) : Option (HandlerClass × NginxConfig) :=
  (handlerTable opts).dlookup uriPrefix

end TscServer.Spec
