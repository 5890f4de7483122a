import TscServer.Proof.ConfigGrammar
import TscServer.Proof.ConfigPointers
import TscServer.Spec.Configuration

/-!
# Unchecked accesses

A tree that the parser returns has words in every statement and statements in every block, and no word is
empty. This is all that the readers of the tree rely on.
-/

namespace TscServer.Proof
open Lib Model Spec ConfigHandler ParserMemory

/-! ## The shape of a parsed tree -/

section Shape
variable {statement : NginxConfigStatement} {statements : List NginxConfigStatement}

theorem properStatement_of_mem (proper : ProperBlock statements) (mem : statement ∈ statements) :
    ProperStatement statement := by
  induction statements with
  | nil => cases mem
  | cons first statements ih =>
      rcases List.mem_cons.mp mem with rfl | mem
      · exact proper.1
      · exact ih proper.2 mem

theorem properStatement_of_inside (inside : Inside statement statements) (proper : ProperBlock statements) :
    ProperStatement statement := by
  induction inside with
  | here mem => exact properStatement_of_mem proper mem
  | deeper mem _ ih => exact ih (properStatement_of_mem proper mem).2.2

theorem statementTokens_subset_of_mem (mem : statement ∈ statements) :
    statementTokens statement ⊆ blockTokens statements := by
  induction statements with
  | nil => cases mem
  | cons first statements ih =>
      rw [blockTokens]
      rcases List.mem_cons.mp mem with rfl | mem
      · exact List.subset_append_left _ _
      · exact List.Subset.trans (ih mem) (List.subset_append_right _ _)

theorem statementTokens_subset (inside : Inside statement statements) :
    statementTokens statement ⊆ blockTokens statements := by
  induction inside with
  | here mem => exact statementTokens_subset_of_mem mem
  | deeper mem _ ih =>
      intro token here
      apply statementTokens_subset_of_mem mem
      simp [statementTokens, ih here]

theorem word_mem_statementTokens {token : Bytes} (mem : token ∈ statement.tokens) :
    .word token ∈ statementTokens statement := by
  obtain ⟨tokens, childBlock⟩ := statement
  have listed : token ∈ tokens := mem
  cases childBlock with
  | none => simp [statementTokens, listed]
  | some block => simp [statementTokens, listed]

theorem word_ne_nil_of_front {s rest text : Bytes} (here : codeFront s = .token (.word text) rest) :
    text ≠ [] := by
  rintro rfl
  cases s with
  | nil => cases here
  | cons c s =>
      rw [codeFront, front] at here
      split_ifs at here
      · cases here
      · cases here
      · cases here
      · split at here
        · cases here
        · cases here
      · cases here

theorem word_ne_nil_of_cuts {s text : Bytes} {ts : List ConfigToken} (cuts : Cuts s ts)
    (mem : .word text ∈ ts) : text ≠ [] := by
  induction cuts with
  | done => cases mem
  | skip _ _ ih => exact ih mem
  | @token s rest t ts here _ ih =>
      rcases List.mem_cons.mp mem with rfl | mem
      · exact word_ne_nil_of_front here
      · exact ih mem

theorem shaped_of_parse {s : Bytes} {config : NginxConfig} (parsed : NginxConfig.parse s = some config) :
    Shaped config.statements := by
  obtain ⟨ts, cuts, -, proper, rfl⟩ := parse_iff.mp parsed
  constructor
  · intro statement inside
    constructor
    · have words := properStatement_of_inside inside proper
      obtain ⟨tokens, childBlock⟩ := statement
      cases childBlock with
      | none => exact words
      | some block => exact words.1
    · intro token mem
      exact word_ne_nil_of_cuts cuts (statementTokens_subset inside (word_mem_statementTokens mem))
  · intro tokens block inside
    exact (properStatement_of_inside inside proper).2.1

end Shape

/-! ## The readers of the tree -/

theorem inside_head {inner statement : NginxConfigStatement} (statements : List NginxConfigStatement)
    (inside : Inside inner [statement]) : Inside inner (statement :: statements) := by
  cases inside with
  | here mem =>
      obtain rfl := List.mem_singleton.mp mem
      exact .here List.mem_cons_self
  | deeper mem inside =>
      obtain rfl := List.mem_singleton.mp mem
      exact .deeper List.mem_cons_self inside

theorem inside_tail {inner : NginxConfigStatement} {statements : List NginxConfigStatement}
    (statement : NginxConfigStatement) (inside : Inside inner statements) :
    Inside inner (statement :: statements) := by
  cases inside with
  | here mem => exact .here (List.mem_cons_of_mem statement mem)
  | deeper mem inside => exact .deeper (List.mem_cons_of_mem statement mem) inside

def HasTokens (statement : NginxConfigStatement) : Prop :=
  statement.tokens ≠ [] ∧ ∀ token ∈ statement.tokens, token ≠ []

section Handler

theorem handlePort_inRange (tokens : List Bytes) (handler : ConfigHandler) :
    handlePort tokens handler ≠ .error (.fault .indeterminateValue) := by
  unfold handlePort
  split
  · split
    · simp
    · simp
    · split <;> simp
  · simp

theorem handleThread_inRange (tokens : List Bytes) (handler : ConfigHandler) :
    handleThread tokens handler ≠ .error (.fault .indeterminateValue) := by
  unfold handleThread
  split
  · split
    · simp
    · split <;> simp
  · simp

theorem addPath_inRange (uriPrefix handlerName : Bytes) (childBlock : Option (List NginxConfigStatement))
    (opts : ConfigOpts) :
    addPath uriPrefix handlerName childBlock opts ≠ .error (.fault .indeterminateValue) := by
  unfold addPath
  split_ifs
  all_goals cases childBlock <;> simp

theorem handlePath_inRange {tokens : List Bytes} (solid : ∀ token ∈ tokens, token ≠ [])
    (childBlock : Option (List NginxConfigStatement)) (handler : ConfigHandler) :
    handlePath tokens childBlock handler ≠ .error (.fault .indeterminateValue) := by
  unfold handlePath
  split
  · rename_i tokenStart uriPrefix handlerName
    split
    · simp
    split
    · rename_i none_
      exact absurd (List.getLast?_eq_none_iff.mp none_) (solid uriPrefix (by simp))
    split
    · simp
    · have added := addPath_inRange uriPrefix handlerName childBlock handler.configOpt
      cases result : addPath uriPrefix handlerName childBlock handler.configOpt with
      | error refusal =>
          intro same
          rw [result] at added
          exact added (congrArg Except.error (Except.error.inj same))
      | ok configOpt => nofun
  · simp

mutual

theorem handleStatement_inRange : ∀ (statement : NginxConfigStatement),
    (∀ inner, Inside inner [statement] → HasTokens inner) → ∀ handler,
      handleStatement statement handler ≠ .error (.fault .indeterminateValue)
  | .mk [] childBlock, good, handler => absurd rfl (good _ (.here (List.mem_singleton_self _))).1
  | .mk (tokenStart :: arguments) none, good, handler => by
      obtain ⟨-, solid⟩ := good _ (.here (List.mem_singleton_self _))
      unfold handleStatement
      split
      · exact handlePort_inRange _ handler
      · exact handlePath_inRange solid _ handler
      · simp
      · rename_i same
        cases same
      · exact handleThread_inRange _ handler
      · simp
  | .mk (tokenStart :: arguments) (some block), good, handler => by
      obtain ⟨-, solid⟩ := good _ (.here (List.mem_singleton_self _))
      have inner := handleStatements_inRange block
        (fun _ inside => good _ (.deeper (List.mem_singleton_self _) inside)) handler
      unfold handleStatement
      split
      · exact handlePort_inRange _ handler
      · exact handlePath_inRange solid _ handler
      · simp
      · rename_i same
        cases same
        exact inner
      · exact handleThread_inRange _ handler
      · simp

theorem handleStatements_inRange : ∀ (statements : List NginxConfigStatement),
    (∀ inner, Inside inner statements → HasTokens inner) → ∀ handler,
      handleStatements statements handler ≠ .error (.fault .indeterminateValue)
  | [], _, handler => nofun
  | statement :: statements, good, handler => by
      have first := handleStatement_inRange statement (fun _ inside => good _ (inside_head statements inside)) handler
      have rest := handleStatements_inRange statements (fun _ inside => good _ (inside_tail statement inside))
      rw [handleStatements]
      split
      · exact rest _
      · rename_i refusal refused
        rw [refused] at first
        exact fun same => first (congrArg Except.error (Except.error.inj same))

end

end Handler

section Init
variable {statements : List NginxConfigStatement}

theorem back_isSome {startToken : Bytes} {arguments : List Bytes}
    (solid : ∀ token ∈ startToken :: arguments, token ≠ []) (two : (startToken :: arguments).length = 2) :
    ∃ back, arguments.head?.bind List.getLast? = some back := by
  cases arguments with
  | nil => cases two
  | cons argument arguments =>
      cases last : argument.getLast? with
      | none => exact absurd (List.getLast?_eq_none_iff.mp last) (solid argument (by simp))
      | some back => exact ⟨back, last⟩

theorem static_initLoop (good : ∀ statement ∈ statements, HasTokens statement) (baseDir : Bytes)
    (rootNum : Nat) : StaticFileHandler.initLoop statements baseDir rootNum ≠ none := by
  induction statements generalizing baseDir rootNum with
  | nil => nofun
  | cons statement statements ih =>
      have further := ih fun statement mem => good statement (List.mem_cons_of_mem _ mem)
      obtain ⟨some_, solid⟩ := good statement List.mem_cons_self
      rw [StaticFileHandler.initLoop]
      split
      · rename_i empty
        exact absurd empty some_
      rename_i startToken arguments tokens
      rw [tokens] at solid ⊢
      split
      · split
        · nofun
        · rename_i two
          obtain ⟨back, last⟩ := back_isSome solid (not_not.mp (not_or.mp two).2)
          rw [last]
          dsimp only
          split
          · nofun
          · exact further _ _
      · exact further _ _

theorem python_initLoop (good : ∀ statement ∈ statements, HasTokens statement) (handler : PythonHandler)
    (rootNum funcNum : Nat) : PythonHandler.initLoop statements handler rootNum funcNum ≠ none := by
  induction statements generalizing handler rootNum funcNum with
  | nil => nofun
  | cons statement statements ih =>
      have further := ih fun statement mem => good statement (List.mem_cons_of_mem _ mem)
      obtain ⟨some_, solid⟩ := good statement List.mem_cons_self
      rw [PythonHandler.initLoop]
      split
      · rename_i empty
        exact absurd empty some_
      rename_i startToken arguments tokens
      rw [tokens] at solid ⊢
      split
      · split
        · nofun
        · rename_i two
          obtain ⟨back, last⟩ := back_isSome solid (not_not.mp (not_or.mp two).2)
          rw [last]
          dsimp only
          split
          · nofun
          · exact further _ _ _
      · split
        · split
          · nofun
          · exact further _ _ _
        · exact further _ _ _

theorem proxy_initLoop (good : ∀ statement ∈ statements, HasTokens statement) (handler : ProxyHandler) :
    ProxyHandler.initLoop statements handler ≠ none := by
  induction statements generalizing handler with
  | nil => nofun
  | cons statement statements ih =>
      have further := ih fun statement mem => good statement (List.mem_cons_of_mem _ mem)
      obtain ⟨some_, -⟩ := good statement List.mem_cons_self
      rw [ProxyHandler.initLoop]
      split
      · rename_i empty
        exact absurd empty some_
      split
      · split
        · nofun
        · exact further _
      · split
        · split
          · nofun
          · dsimp only
            split
            · exact further _
            · nofun
        · exact further _

end Init

theorem inside_block {tokens : List Bytes} {statement : NginxConfigStatement}
    {statements block : List NginxConfigStatement} (inside : Inside (.mk tokens (some block)) statements)
    (mem : statement ∈ block) : Inside statement statements := by
  induction inside with
  | here outer => exact .deeper outer (.here mem)
  | deeper outer _ ih => exact .deeper outer ih

theorem inRange_of_shaped {statements : List NginxConfigStatement} (shaped : Shaped statements) :
    InRange statements where
  handleStatements := handleStatements_inRange statements shaped.tokens
  static tokens block uriPrefix inside := by
    have good : ∀ statement ∈ block, HasTokens statement :=
      fun statement mem => shaped.tokens statement (inside_block inside mem)
    simpa [StaticFileHandler.init] using static_initLoop good [] 0
  python tokens block uriPrefix inside :=
    python_initLoop (fun statement mem => shaped.tokens statement (inside_block inside mem)) _ 0 0
  proxy tokens block uriPrefix inside :=
    proxy_initLoop (fun statement mem => shaped.tokens statement (inside_block inside mem)) _

/-! ## The parser and its readers -/

/-- No access of the parser fails, on any input, and none of its readers does on a tree that it returns. -/
theorem accesses_inRange (input : Bytes) :
    (∀ m rest, LoopHead input m rest → (m.configStack.length : Int) = m.blockNum + 1) ∧
    (∀ failure, ParserMemory.parse input = .error failure → failure = .badTransition) ∧
    ∀ config, ParserMemory.parse input = .ok config → Shaped config.statements ∧ InRange config.statements := by
  rw [memory_parse_eq]
  refine ⟨fun m rest head => length_configStack head, fun failure failed => ?_, fun config returned => ?_⟩
  · cases parsed : NginxConfig.parse input with
    | none =>
        rw [parsed] at failed
        exact (Except.error.inj failed).symm
    | some config =>
        rw [parsed] at failed
        cases failed
  · cases parsed : NginxConfig.parse input with
    | none =>
        rw [parsed] at returned
        cases returned
    | some tree =>
        rw [parsed] at returned
        obtain rfl := Except.ok.inj returned
        have shaped := shaped_of_parse parsed
        exact ⟨shaped, inRange_of_shaped shaped⟩

end TscServer.Proof
