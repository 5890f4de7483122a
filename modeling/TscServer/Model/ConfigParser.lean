import TscServer.Model.RequestHandler

/-!
# The config parser

`NginxConfigParser` of `config_parser.cc` on the bytes of a file, and the serializer `ToString`.
-/

namespace TscServer.Model
open Lib

/-! ## Tokens -/

inductive TokenType where
  | start
  | normal
  | startBlock
  | endBlock
  | comment
  | statementEnd
  | eof
  | error
deriving DecidableEq, Repr

inductive TokenParserState where
  | initialWhitespace
  | singleQuote
  | doubleQuote
  | comment
  | normal
deriving DecidableEq, Repr

def parseToken : TokenParserState → Bytes → Bytes → TokenType × Bytes × Bytes
  | .singleQuote, value, [] => (.error, value, [])
  | .doubleQuote, value, [] => (.error, value, [])
  | _, value, [] => (.eof, value, [])
  | .initialWhitespace, value, c :: input =>
      if c = 123 then (.startBlock, [c], input)
      else if c = 125 then (.endBlock, [c], input)
      else if c = 35 then parseToken .comment [c] input
      else if c = 34 then parseToken .doubleQuote [c] input
      else if c = 39 then parseToken .singleQuote [c] input
      else if c = 59 then (.statementEnd, [c], input)
      else if c = 32 ∨ c = 9 ∨ c = 10 ∨ c = 13 then parseToken .initialWhitespace value input
      else parseToken .normal (value ++ [c]) input
  | .singleQuote, value, c :: input =>
      if c = 39 then (.normal, value ++ [c], input) else parseToken .singleQuote (value ++ [c]) input
  | .doubleQuote, value, c :: input =>
      if c = 34 then (.normal, value ++ [c], input) else parseToken .doubleQuote (value ++ [c]) input
  | .comment, value, c :: input =>
      if c = 10 ∨ c = 13 then (.comment, value, input) else parseToken .comment (value ++ [c]) input
  | .normal, value, c :: input =>
      -- the source tests for the tab twice and not for the carriage return
      if c = 32 ∨ c = 9 ∨ c = 10 ∨ c = 9 ∨ c = 59 ∨ c = 123 ∨ c = 125 then (.normal, value, c :: input)
      else parseToken .normal (value ++ [c]) input

/-! ## Statements -/

/-- The stack holds the statements of the configs whose block is open, the innermost first; the last
statement of an outer one gets its block when this ends. -/
structure ConfigStack where
  top : List NginxConfigStatement
  outer : List (List NginxConfigStatement)

structure ParserState where
  configStack : ConfigStack := { top := [], outer := [] }
  lastTokenType : TokenType := .start
  blockNum : Nat := 0

-- `statements_.back()->tokens_.push_back(token)`
def pushToken (token : Bytes) (statements : List NginxConfigStatement) :
    Option (List NginxConfigStatement) :=
  statements.getLast?.map fun
    | .mk tokens childBlock => statements.dropLast ++ [.mk (tokens ++ [token]) childBlock]

-- `statements_.back()->child_block_` is the block that ends
def setChildBlock (block : List NginxConfigStatement) (statements : List NginxConfigStatement) :
    Option (List NginxConfigStatement) :=
  statements.getLast?.map fun
    | .mk tokens _ => statements.dropLast ++ [.mk tokens (some block)]

def ConfigStack.pop (stack : ConfigStack) : Option ConfigStack :=
  match stack.outer with
  | [] => none
  | statements :: outer => (setChildBlock stack.top statements).map fun top => { top, outer }

def transition (p : ParserState) (tokenType : TokenType) (token : Bytes) : Option ParserState :=
  match tokenType with
  | .normal =>
      if p.lastTokenType = .start ∨ p.lastTokenType = .statementEnd ∨ p.lastTokenType = .startBlock ∨
          p.lastTokenType = .endBlock ∨ p.lastTokenType = .normal then
        let top :=
          if p.lastTokenType ≠ .normal then p.configStack.top ++ [.mk [] none] else p.configStack.top
        (pushToken token top).map fun top =>
          { p with configStack := { p.configStack with top }, lastTokenType := .normal }
      else none
  | .statementEnd =>
      if p.lastTokenType ≠ .normal then none else some { p with lastTokenType := .statementEnd }
  | .startBlock =>
      if p.lastTokenType ≠ .normal then none
      else
        some
          { configStack := { top := [], outer := p.configStack.top :: p.configStack.outer }
            lastTokenType := .startBlock
            blockNum := p.blockNum + 1 }
  | .endBlock =>
      if p.blockNum = 0 then none
      else if p.lastTokenType ≠ .statementEnd ∧ p.lastTokenType ≠ .endBlock then none
      else
        p.configStack.pop.map fun configStack =>
          { configStack, lastTokenType := .endBlock, blockNum := p.blockNum - 1 }
  | _ => none

def finish (p : ParserState) : Option NginxConfig :=
  if p.lastTokenType ≠ .statementEnd ∧ p.lastTokenType ≠ .endBlock then none
  else if p.blockNum ≠ 0 then none
  else some { statements := p.configStack.top }

def parseLoop : Nat → ParserState → Bytes → Option NginxConfig
  | 0, _, _ => none
  | fuel + 1, p, input =>
      match parseToken .initialWhitespace [] input with
      | (.comment, _, input) => parseLoop fuel p input
      | (.eof, _, _) => finish p
      | (tokenType, token, input) => (transition p tokenType token).bind fun p => parseLoop fuel p input

/-- `Parse` on a fresh config; `none` is `false`. Every round but the last takes a byte. -/
def NginxConfig.parse (input : Bytes) : Option NginxConfig :=
  parseLoop (input.length + 1) {} input

/-! ## The serializer -/

def indentation (depth : Nat) : Bytes := (List.replicate depth (bytes "  ")).flatten

mutual

def NginxConfigStatement.toBytes : NginxConfigStatement → Nat → Bytes
  | .mk tokens none, depth => indentation depth ++ (bytes " ").intercalate tokens ++ bytes ";\n"
  | .mk tokens (some block), depth =>
      indentation depth ++ (bytes " ").intercalate tokens ++ bytes " \x7b\n" ++
        statementsToBytes block (depth + 1) ++ indentation depth ++ bytes "\x7d\n"

def statementsToBytes : List NginxConfigStatement → Nat → Bytes
  | [], _ => []
  | statement :: statements, depth => statement.toBytes depth ++ statementsToBytes statements depth

end

def NginxConfig.toBytes (config : NginxConfig) (depth : Nat) : Bytes :=
  statementsToBytes config.statements depth

end TscServer.Model
