import TscServer.Model.ConfigParser

/-!
# The config parser with its pointers

`NginxConfigParser::Parse` as it fills a config through the pointers on `config_stack`. What the code
accesses without a check is here an access that can fail. `memory_parse_eq` connects this with
`NginxConfig.parse`.
-/

namespace TscServer.Model
open Lib

/-- The statements, from the outermost config, whose child blocks lead to a config. -/
abbrev ConfigPointer := List Nat

inductive ParseFailure where
  | badTransition
  | emptyStack  -- at `top()` or `pop()`
  | emptyVector  -- at `back()`
  | badPointer
  | running  -- not at all, as far as the fuel goes
deriving DecidableEq, Repr

structure ParserMemory where
  config : List NginxConfigStatement := []
  configStack : List ConfigPointer := [[]]
  lastTokenType : TokenType := .start
  blockNum : Int := 0

namespace ParserMemory

def top : List ConfigPointer → Except ParseFailure ConfigPointer
  | [] => .error .emptyStack
  | pointer :: _ => .ok pointer

def pop : List ConfigPointer → Except ParseFailure (List ConfigPointer)
  | [] => .error .emptyStack
  | _ :: pointers => .ok pointers

def statementsAt : ConfigPointer → List NginxConfigStatement →
    Except ParseFailure (List NginxConfigStatement)
  | [], statements => .ok statements
  | i :: pointer, statements =>
      match statements[i]? with
      | some (.mk _ (some block)) => statementsAt pointer block
      | _ => .error .badPointer

def modifyAt (f : List NginxConfigStatement → Except ParseFailure (List NginxConfigStatement)) :
    ConfigPointer → List NginxConfigStatement → Except ParseFailure (List NginxConfigStatement)
  | [], statements => f statements
  | i :: pointer, statements =>
      match statements[i]? with
      | some (.mk tokens (some block)) =>
          (modifyAt f pointer block).map fun block => statements.set i (.mk tokens (some block))
      | _ => .error .badPointer

-- a change of `*statements_.back()`
def modifyBack (f : NginxConfigStatement → NginxConfigStatement)
    (statements : List NginxConfigStatement) : Except ParseFailure (List NginxConfigStatement) :=
  match statements.getLast? with
  | none => .error .emptyVector
  | some statement => .ok (statements.dropLast ++ [f statement])

-- `statements_.emplace_back(new NginxConfigStatement)`
def emplaceBack (statements : List NginxConfigStatement) :
    Except ParseFailure (List NginxConfigStatement) := .ok (statements ++ [.mk [] none])

-- `tokens_.push_back(token)`
def pushBack (token : Bytes) : NginxConfigStatement → NginxConfigStatement
  | .mk tokens childBlock => .mk (tokens ++ [token]) childBlock

-- `child_block_.reset(new NginxConfig)`
def resetBlock : NginxConfigStatement → NginxConfigStatement
  | .mk tokens _ => .mk tokens (some [])

-- the first word of a statement adds the statement
def withStatement (m : ParserMemory) : Except ParseFailure (List NginxConfigStatement) :=
  if m.lastTokenType ≠ .normal then do modifyAt emplaceBack (← top m.configStack) m.config
  else .ok m.config

def step (m : ParserMemory) (tokenType : TokenType) (token : Bytes) : Except ParseFailure ParserMemory :=
  match tokenType with
  | .normal =>
      if m.lastTokenType = .start ∨ m.lastTokenType = .statementEnd ∨ m.lastTokenType = .startBlock ∨
          m.lastTokenType = .endBlock ∨ m.lastTokenType = .normal then do
        let config ← m.withStatement
        let config ← modifyAt (modifyBack (pushBack token)) (← top m.configStack) config
        return { m with config, lastTokenType := .normal }
      else .error .badTransition
  | .statementEnd =>
      if m.lastTokenType ≠ .normal then .error .badTransition
      else .ok { m with lastTokenType := .statementEnd }
  | .startBlock =>
      if m.lastTokenType ≠ .normal then .error .badTransition
      else do
        let pointer ← top m.configStack
        let config ← modifyAt (modifyBack resetBlock) pointer m.config
        let statements ← statementsAt pointer config
        let configStack := (pointer ++ [statements.length - 1]) :: m.configStack
        return { config, configStack, lastTokenType := .startBlock, blockNum := m.blockNum + 1 }
  | .endBlock =>
      if m.blockNum = 0 then .error .badTransition
      -- `block_num` has been decremented here, and is not read again
      else if m.lastTokenType ≠ .statementEnd ∧ m.lastTokenType ≠ .endBlock then .error .badTransition
      else do
        let configStack ← pop m.configStack
        return { m with configStack, lastTokenType := .endBlock, blockNum := m.blockNum - 1 }
  | _ => .error .badTransition

-- the branch for the end of the file
def finish (m : ParserMemory) : Except ParseFailure NginxConfig :=
  if m.lastTokenType ≠ .statementEnd ∧ m.lastTokenType ≠ .endBlock then .error .badTransition
  else if m.blockNum ≠ 0 then .error .badTransition
  else .ok { statements := m.config }

def parseLoop : Nat → ParserMemory → Bytes → Except ParseFailure NginxConfig
  | 0, _, _ => .error .running
  | fuel + 1, m, input =>
      match parseToken .initialWhitespace [] input with
      | (.comment, _, input) => parseLoop fuel m input
      | (.eof, _, _) => m.finish
      | (tokenType, token, input) => do parseLoop fuel (← m.step tokenType token) input

def parse (input : Bytes) : Except ParseFailure NginxConfig := parseLoop (input.length + 1) {} input

inductive LoopHead (input : Bytes) : ParserMemory → Bytes → Prop
  | start : LoopHead input {} input
  | comment {m : ParserMemory} {rest value rest' : Bytes} : LoopHead input m rest →
      parseToken .initialWhitespace [] rest = (.comment, value, rest') → LoopHead input m rest'
  | token {m m' : ParserMemory} {rest token rest' : Bytes} {tokenType : TokenType} :
      LoopHead input m rest → parseToken .initialWhitespace [] rest = (tokenType, token, rest') →
      m.step tokenType token = .ok m' → LoopHead input m' rest'

end ParserMemory
end TscServer.Model
