import TscServer.Model.ConfigPointers

/-!
# The pointers of the config parser

The pointers on `config_stack` lead to the configs whose blocks are open, so that the parser that works
through them does what the one with the open configs does, and no access fails.
-/

namespace TscServer.Proof
open Lib Model ParserMemory

/-! ## Following pointers -/

section Pointers
variable {config top block statements : List NginxConfigStatement}
  {outer : List (List NginxConfigStatement)} {pointer : ConfigPointer} {pointers : List ConfigPointer}

/-- The pointers to the innermost open config and to those around it, in the config filled so far. -/
inductive Open (config : List NginxConfigStatement) : List NginxConfigStatement →
    List (List NginxConfigStatement) → ConfigPointer → List ConfigPointer → Prop
  | root : Open config config [] [] []
  | block {statements block : List NginxConfigStatement} {words : List Bytes}
      {childBlock : Option (List NginxConfigStatement)} {outer : List (List NginxConfigStatement)}
      {pointer : ConfigPointer} {pointers : List ConfigPointer} :
      Open config (statements ++ [.mk words (some block)]) outer pointer pointers →
      Open config block ((statements ++ [.mk words childBlock]) :: outer)
        (pointer ++ [statements.length]) (pointer :: pointers)

theorem Open.length_eq (here : Open config top outer pointer pointers) :
    pointers.length = outer.length := by
  induction here with
  | root => rfl
  | block _ ih => rw [List.length_cons, List.length_cons, ih]

theorem Open.outermost (here : Open config top [] pointer pointers) : config = top := by
  cases here
  rfl

theorem modifyAt_append (f : List NginxConfigStatement → Except ParseFailure (List NginxConfigStatement))
    (pointer rest : ConfigPointer) (config : List NginxConfigStatement) :
    modifyAt f (pointer ++ rest) config = modifyAt (modifyAt f rest) pointer config := by
  induction pointer generalizing config with
  | nil => rfl
  | cons i pointer ih =>
      rw [List.cons_append, modifyAt, modifyAt]
      simp only [ih]

theorem statementsAt_append (pointer rest : ConfigPointer) (config : List NginxConfigStatement) :
    statementsAt (pointer ++ rest) config =
      (statementsAt pointer config).bind (statementsAt rest) := by
  induction pointer generalizing config with
  | nil => rfl
  | cons i pointer ih =>
      rw [List.cons_append, statementsAt, statementsAt]
      split
      · exact ih _
      · rfl

theorem Open.modifyAt {f : List NginxConfigStatement → Except ParseFailure (List NginxConfigStatement)}
    (here : Open config top outer pointer pointers) {top' : List NginxConfigStatement}
    (change : f top = .ok top') :
    ∃ config', ParserMemory.modifyAt f pointer config = .ok config' ∧
      Open config' top' outer pointer pointers := by
  induction here generalizing f top' with
  | root => exact ⟨top', change, .root⟩
  | @block statements block words childBlock outer pointer pointers _ ih =>
      have inner : ParserMemory.modifyAt f [statements.length] (statements ++ [.mk words (some block)]) =
          .ok (statements ++ [.mk words (some top')]) := by
        simp [ParserMemory.modifyAt, change, Except.map]
      obtain ⟨config', changed, opened⟩ := ih inner
      exact ⟨config', by rw [modifyAt_append, changed], opened.block⟩

theorem Open.statementsAt (here : Open config top outer pointer pointers) :
    ParserMemory.statementsAt pointer config = .ok top := by
  induction here with
  | root => rfl
  | @block statements block words childBlock outer pointer pointers _ ih =>
      rw [statementsAt_append, ih]
      simp [Except.bind, ParserMemory.statementsAt]

theorem Open.pop {parent : List NginxConfigStatement}
    (here : Open config block (parent :: outer) pointer pointers) :
    ∃ top pointer' pointers', pointers = pointer' :: pointers' ∧ setChildBlock block parent = some top ∧
      Open config top outer pointer' pointers' := by
  cases here with
  | @block statements _ words _ _ pointer' pointers' opened =>
      refine ⟨_, pointer', pointers', rfl, ?_, opened⟩
      simp [setChildBlock]

end Pointers

/-! ## The transitions -/

/-- The memory holds the open configs of the state, and a word is only added to a statement. -/
structure Represents (m : ParserMemory) (p : ParserState) : Prop where
  opened : ∃ pointer pointers, m.configStack = pointer :: pointers ∧
    Open m.config p.configStack.top p.configStack.outer pointer pointers
  last : m.lastTokenType = p.lastTokenType
  blockNum : m.blockNum = p.blockNum
  depth : p.blockNum = p.configStack.outer.length
  words : p.lastTokenType = .normal → p.configStack.top ≠ []

theorem represents_start : Represents {} {} where
  opened := ⟨[], [], rfl, .root⟩
  last := rfl
  blockNum := rfl
  depth := rfl
  words word := by cases word

inductive SameStep : Except ParseFailure ParserMemory → Option ParserState → Prop
  | bad : SameStep (.error .badTransition) none
  | goes {m : ParserMemory} {p : ParserState} : Represents m p → SameStep (.ok m) (some p)

section Step
variable {m : ParserMemory} {p : ParserState}

theorem modifyBack_concat (f : NginxConfigStatement → NginxConfigStatement)
    (statements : List NginxConfigStatement) (statement : NginxConfigStatement) :
    modifyBack f (statements ++ [statement]) = .ok (statements ++ [f statement]) := by
  simp [modifyBack]

theorem pushToken_pushBack (token : Bytes) {statements : List NginxConfigStatement}
    (some_ : statements ≠ []) : ∃ statements', modifyBack (pushBack token) statements = .ok statements' ∧
      pushToken token statements = some statements' ∧ statements' ≠ [] := by
  obtain ⟨front, statement, rfl⟩ := List.eq_nil_or_concat statements |>.resolve_left some_
  rw [List.concat_eq_append]
  obtain ⟨words, childBlock⟩ := statement
  refine ⟨_, modifyBack_concat _ _ _, ?_, by simp⟩
  simp [pushToken, pushBack]

theorem Represents.emplaced (here : Represents m p) {pointer : ConfigPointer} {pointers : List ConfigPointer}
    (stack : m.configStack = pointer :: pointers)
    (opened : Open m.config p.configStack.top p.configStack.outer pointer pointers) :
    ∃ config top', m.withStatement = .ok config ∧
      (if p.lastTokenType ≠ .normal then p.configStack.top ++ [.mk [] none] else p.configStack.top) = top' ∧
      Open config top' p.configStack.outer pointer pointers ∧ top' ≠ [] := by
  rw [withStatement, here.last, stack]
  by_cases word : p.lastTokenType = .normal
  · exact ⟨m.config, _, if_neg (not_not.mpr word), if_neg (not_not.mpr word), opened, here.words word⟩
  · have added : emplaceBack p.configStack.top = .ok (p.configStack.top ++ [.mk [] none]) := rfl
    obtain ⟨config, changed, opened⟩ := opened.modifyAt added
    exact ⟨config, _, (if_pos word).trans changed, if_pos word, opened, by simp⟩

theorem step_word (here : Represents m p) (token : Bytes) :
    SameStep (m.step .normal token) (transition p .normal token) := by
  obtain ⟨pointer, pointers, stack, opened⟩ := here.opened
  obtain ⟨config, top', emplaced, same, opened, some_⟩ := here.emplaced stack opened
  obtain ⟨statements, back, push, some_⟩ := pushToken_pushBack token some_
  obtain ⟨config', changed, opened⟩ := opened.modifyAt back
  rw [step, transition, here.last]
  split
  · rw [emplaced, stack]
    simp only [same, push, Option.map_some]
    show SameStep (modifyAt (modifyBack (pushBack token)) pointer config >>= _) _
    rw [changed]
    exact .goes ⟨⟨pointer, pointers, rfl, opened⟩, rfl, here.blockNum, here.depth, fun _ => some_⟩
  · exact .bad

theorem step_startBlock (here : Represents m p) (token : Bytes) :
    SameStep (m.step .startBlock token) (transition p .startBlock token) := by
  obtain ⟨pointer, pointers, stack, opened⟩ := here.opened
  rw [step, transition, here.last]
  by_cases word : p.lastTokenType = .normal
  · rw [if_neg (not_not.mpr word), if_neg (not_not.mpr word), stack]
    obtain ⟨statements, ⟨words, childBlock⟩, same⟩ :=
      List.eq_nil_or_concat _ |>.resolve_left (here.words word)
    rw [List.concat_eq_append] at same
    rw [same] at opened
    obtain ⟨config, changed, opened⟩ := opened.modifyAt (modifyBack_concat resetBlock _ _)
    show SameStep (modifyAt (modifyBack resetBlock) pointer m.config >>= _) _
    rw [changed]
    show SameStep (statementsAt pointer config >>= _) _
    rw [opened.statementsAt, same]
    refine .goes ⟨⟨_, _, rfl, ?_⟩, rfl, ?_, ?_, fun word => by cases word⟩
    · rw [List.length_append, List.length_singleton, Nat.add_sub_cancel]
      exact opened.block
    · simp [here.blockNum]
    · simp [here.depth]
  · rw [if_pos word, if_pos word]
    exact .bad

theorem step_endBlock (here : Represents m p) (token : Bytes) :
    SameStep (m.step .endBlock token) (transition p .endBlock token) := by
  obtain ⟨pointer, pointers, stack, opened⟩ := here.opened
  have zero : m.blockNum = 0 ↔ p.blockNum = 0 := by rw [here.blockNum, Int.natCast_eq_zero]
  rw [step, transition, here.last]
  simp only [zero]
  split
  · exact .bad
  rename_i open_
  split
  · exact .bad
  have depth := here.depth
  cases parents : p.configStack.outer with
  | nil =>
      rw [parents] at depth
      exact absurd depth open_
  | cons parent outer =>
      rw [parents] at opened depth
      obtain ⟨top, pointer', pointers', rfl, filled, opened⟩ := opened.pop
      rw [stack, ConfigStack.pop, parents]
      simp only [filled, Option.map_some]
      refine .goes ⟨⟨pointer', pointers', rfl, opened⟩, rfl, ?_, ?_, fun word => by cases word⟩
      · show m.blockNum - 1 = ((p.blockNum - 1 : Nat) : Int)
        rw [here.blockNum, depth]
        simp
      · show p.blockNum - 1 = outer.length
        rw [depth]
        rfl

theorem step_represents (here : Represents m p) (tokenType : TokenType) (token : Bytes) :
    SameStep (m.step tokenType token) (transition p tokenType token) := by
  cases tokenType with
  | normal => exact step_word here token
  | startBlock => exact step_startBlock here token
  | endBlock => exact step_endBlock here token
  | statementEnd =>
      rw [step, transition, here.last]
      split
      · exact .bad
      · exact .goes ⟨here.opened, rfl, here.blockNum, here.depth, fun word => by cases word⟩
  | start => exact .bad
  | comment => exact .bad
  | eof => exact .bad
  | error => exact .bad

theorem finish_represents (here : Represents m p) :
    m.finish = (Model.finish p).elim (.error .badTransition) .ok := by
  obtain ⟨pointer, pointers, stack, opened⟩ := here.opened
  have zero : m.blockNum ≠ 0 ↔ p.blockNum ≠ 0 := by rw [here.blockNum, ne_eq, Int.natCast_eq_zero]
  rw [ParserMemory.finish, Model.finish, here.last]
  simp only [zero]
  split
  · rfl
  split
  · rfl
  rename_i closed
  have outermost : p.configStack.outer = [] := by
    have depth := here.depth
    rw [not_not.mp closed] at depth
    exact List.length_eq_zero_iff.mp depth.symm
  rw [outermost] at opened
  rw [opened.outermost]
  rfl

end Step

/-! ## The loop -/

section Loop

theorem length_parseToken_le (state : TokenParserState) (value input : Bytes) :
    (parseToken state value input).2.2.length ≤ input.length := by
  fun_induction parseToken state value input
  all_goals simp
  all_goals omega

theorem length_parseToken_lt (value input : Bytes)
    (more : (parseToken .initialWhitespace value input).1 ≠ .eof)
    (fine : (parseToken .initialWhitespace value input).1 ≠ .error) :
    (parseToken .initialWhitespace value input).2.2.length < input.length := by
  cases input with
  | nil => exact absurd rfl more
  | cons c input =>
      apply Nat.lt_succ_of_le
      rw [parseToken]
      split_ifs
      all_goals first | exact Nat.le_refl _ | exact length_parseToken_le _ _ _

variable {m : ParserMemory} {p : ParserState} {input rest token : Bytes} {tokenType : TokenType}

theorem length_of_read (read : parseToken .initialWhitespace [] input = (tokenType, token, rest))
    (more : tokenType ≠ .eof) (fine : tokenType ≠ .error) : rest.length < input.length := by
  have taken := length_parseToken_lt [] input (by rwa [read]) (by rwa [read])
  rwa [read] at taken

theorem parseLoop_memory (read : parseToken .initialWhitespace [] input = (tokenType, token, rest))
    (more : tokenType ≠ .eof) (code : tokenType ≠ .comment) (fuel : Nat) (m : ParserMemory) :
    ParserMemory.parseLoop (fuel + 1) m input =
      (m.step tokenType token).bind fun m => ParserMemory.parseLoop fuel m rest := by
  rw [ParserMemory.parseLoop, read]
  cases tokenType with
  | eof => exact absurd rfl more
  | comment => exact absurd rfl code
  | _ => rfl

theorem parseLoop_state (read : parseToken .initialWhitespace [] input = (tokenType, token, rest))
    (more : tokenType ≠ .eof) (code : tokenType ≠ .comment) (fuel : Nat) (p : ParserState) :
    Model.parseLoop (fuel + 1) p input =
      (transition p tokenType token).bind fun p => Model.parseLoop fuel p rest := by
  rw [Model.parseLoop, read]
  cases tokenType with
  | eof => exact absurd rfl more
  | comment => exact absurd rfl code
  | _ => rfl

/-- The two loops come to the same end. By induction on the rounds, each of which takes a byte. -/
theorem parseLoop_represents (here : Represents m p) {fuel : Nat} (enough : input.length < fuel) :
    ParserMemory.parseLoop fuel m input =
      (Model.parseLoop fuel p input).elim (.error .badTransition) .ok := by
  induction fuel generalizing m p input with
  | zero => exact absurd enough (Nat.not_lt_zero _)
  | succ fuel ih =>
      obtain ⟨tokenType, token, rest, read⟩ : ∃ tokenType token rest,
          parseToken .initialWhitespace [] input = (tokenType, token, rest) := ⟨_, _, _, rfl⟩
      have shorter (more : tokenType ≠ .eof) (fine : tokenType ≠ .error) : rest.length < fuel :=
        Nat.lt_of_lt_of_le (length_of_read read more fine) (Nat.le_of_lt_succ enough)
      by_cases ends : tokenType = .eof
      · subst ends
        rw [ParserMemory.parseLoop, Model.parseLoop, read]
        exact finish_represents here
      by_cases skips : tokenType = .comment
      · subst skips
        rw [ParserMemory.parseLoop, Model.parseLoop, read]
        exact ih here (shorter nofun nofun)
      rw [parseLoop_memory read ends skips, parseLoop_state read ends skips]
      by_cases fails : tokenType = .error
      · subst fails
        rfl
      have same := step_represents here tokenType token
      generalize m.step tokenType token = stepped, transition p tokenType token = next at same ⊢
      cases same with
      | bad => rfl
      | goes here => exact ih here (shorter ends fails)

theorem memory_parse_eq (input : Bytes) :
    ParserMemory.parse input = (NginxConfig.parse input).elim (.error .badTransition) .ok :=
  parseLoop_represents represents_start (Nat.lt_succ_self input.length)

theorem goes_of_step {m' : ParserMemory} (stepped : m.step tokenType token = .ok m') :
    tokenType ≠ .eof ∧ tokenType ≠ .comment ∧ tokenType ≠ .error := by
  refine ⟨?_, ?_, ?_⟩ <;> rintro rfl <;> cases stepped

/-- A loop head is one that the parser comes to, with a round left for each byte and one more. -/
theorem parse_of_loopHead (head : LoopHead input m rest) : ∃ fuel, rest.length < fuel ∧
    ParserMemory.parse input = ParserMemory.parseLoop fuel m rest := by
  induction head with
  | start => exact ⟨input.length + 1, Nat.lt_succ_self _, rfl⟩
  | comment _ read ih =>
      obtain ⟨fuel, enough, same⟩ := ih
      obtain ⟨fuel, rfl⟩ := Nat.exists_eq_succ_of_ne_zero (Nat.ne_of_gt (Nat.zero_lt_of_lt enough))
      have taken := length_of_read read nofun nofun
      refine ⟨fuel, Nat.lt_of_lt_of_le taken (Nat.le_of_lt_succ enough), ?_⟩
      rw [same, ParserMemory.parseLoop, read]
  | token _ read stepped ih =>
      obtain ⟨fuel, enough, same⟩ := ih
      obtain ⟨fuel, rfl⟩ := Nat.exists_eq_succ_of_ne_zero (Nat.ne_of_gt (Nat.zero_lt_of_lt enough))
      obtain ⟨more, code, fine⟩ := goes_of_step stepped
      have taken := length_of_read read more fine
      refine ⟨fuel, Nat.lt_of_lt_of_le taken (Nat.le_of_lt_succ enough), ?_⟩
      rw [same, parseLoop_memory read more code, stepped]
      rfl

theorem blockNum_transition {p p' : ParserState} (goes : transition p tokenType token = some p') :
    p'.blockNum ≤ p.blockNum + 1 := by
  unfold transition at goes
  split at goes
  · split at goes
    · obtain ⟨top, -, rfl⟩ := Option.map_eq_some_iff.mp goes
      exact Nat.le_succ _
    · cases goes
  · split at goes
    · cases goes
    · cases goes
      exact Nat.le_succ _
  · split at goes
    · cases goes
    · cases goes
      exact Nat.le_refl _
  · split at goes
    · cases goes
    split at goes
    · cases goes
    · obtain ⟨configStack, -, rfl⟩ := Option.map_eq_some_iff.mp goes
      exact Nat.le_trans (Nat.sub_le _ _) (Nat.le_succ _)
  · cases goes

/-- The memory represents a state of the parser, in which each open block has taken a byte. -/
theorem represents_loopHead (head : LoopHead input m rest) :
    ∃ p, Represents m p ∧ p.blockNum + rest.length ≤ input.length := by
  induction head with
  | start => exact ⟨{}, represents_start, by simp⟩
  | comment _ read ih =>
      obtain ⟨p, here, bound⟩ := ih
      have taken := length_of_read read nofun nofun
      exact ⟨p, here, by omega⟩
  | @token m m' rest token rest' tokenType _ read stepped ih =>
      obtain ⟨p, here, bound⟩ := ih
      obtain ⟨more, -, fine⟩ := goes_of_step stepped
      have taken := length_of_read read more fine
      have same := step_represents here tokenType token
      rw [stepped] at same
      cases next : transition p tokenType token with
      | none =>
          rw [next] at same
          cases same
      | some p' =>
          rw [next] at same
          have grown := blockNum_transition next
          cases same with
          | goes here' => exact ⟨p', here', by omega⟩

/-- The counter stays below the number of bytes, so that an `int` holds it in any file below two
gigabytes. -/
theorem blockNum_le (head : LoopHead input m rest) : m.blockNum + rest.length ≤ input.length := by
  obtain ⟨p, here, bound⟩ := represents_loopHead head
  rw [here.blockNum]
  omega

theorem length_configStack (head : LoopHead input m rest) : (m.configStack.length : Int) = m.blockNum + 1 := by
  obtain ⟨p, here, -⟩ := represents_loopHead head
  obtain ⟨pointer, pointers, stack, opened⟩ := here.opened
  rw [stack, here.blockNum, here.depth, List.length_cons, opened.length_eq]
  rfl

end Loop

end TscServer.Proof
