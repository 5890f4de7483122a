import TscServer.Lib.Scan
import TscServer.Model.ConfigParser

/-!
# The grammar of configurations

A text is cut into words and punctuation, and a configuration is a sequence of statements, each of
them words that end in a semicolon or in a block. What a word is depends on the bytes that end it, and
on what becomes of one that the text ends in.
-/

namespace TscServer.Spec
open Lib Model

inductive ConfigToken where
  | word (text : Bytes)
  | statementEnd
  | startBlock
  | endBlock
deriving DecidableEq, Repr

/-! ## Cutting a text -/

def isBlank (c : UInt8) : Bool := c == 32 || c == 9 || c == 10 || c == 13

def isQuote (c : UInt8) : Bool := c == 34 || c == 39

def isWordByte (returnEnds : Bool) (c : UInt8) : Bool :=
  !(c == 32 || c == 9 || c == 10 || (returnEnds && c == 13) || c == 59 || c == 123 || c == 125)

def front (returnEnds : Bool) (run : Bytes → Bytes → Front UInt8 ConfigToken) :
    Bytes → Front UInt8 ConfigToken
  | [] => .done
  | c :: s =>
      if isBlank c then .skip s
      else if c = 35 then .skip ((s.dropWhile notLineEnd).drop 1)
      else if c = 59 then .token .statementEnd s
      else if c = 123 then .token .startBlock s
      else if c = 125 then .token .endBlock s
      else if isQuote c then
        match s.dropWhile (· != c) with
        | [] => .stuck
        | _ :: rest => .token (.word (c :: s.takeWhile (· != c) ++ [c])) rest
      else run (c :: s.takeWhile (isWordByte returnEnds)) (s.dropWhile (isWordByte returnEnds))

def Lexes (returnEnds : Bool) : Bytes → List ConfigToken → Prop :=
  Scans (front returnEnds fun word rest => .token (.word word) rest)

/-- Cutting as the parser does: a carriage return does not end a word, and a word that the text ends
in is lost. -/
def Cuts : Bytes → List ConfigToken → Prop :=
  Scans (front false fun word rest => if rest = [] then .done else .token (.word word) rest)

def Regular (returnEnds : Bool) (s : Bytes) : Prop :=
  ∃ ts, Scans (front false fun word rest =>
    if rest = [] ∨ (returnEnds = true ∧ 13 ∈ word) then .stuck else .token (.word word) rest) s ts

/-! ## Line endings -/

def withCrlf (s : Bytes) : Bytes := s.flatMap fun c => if c = 10 then [13, 10] else [c]

def QuotesInLines (ts : List ConfigToken) : Prop :=
  ∀ text, .word text ∈ ts → text.head?.any isQuote = true → 10 ∉ text

def WordsInLines (s : Bytes) : Prop :=
  ∃ ts, Scans (front false fun word rest =>
    if rest = [] then .done else if rest.head? = some 10 then .stuck else .token (.word word) rest) s ts

/-! ## Statements -/

mutual

def statementTokens : NginxConfigStatement → List ConfigToken
  | .mk tokens none => tokens.map .word ++ [.statementEnd]
  | .mk tokens (some block) =>
      tokens.map .word ++ .startBlock :: (blockTokens block ++ [.endBlock])

def blockTokens : List NginxConfigStatement → List ConfigToken
  | [] => []
  | statement :: statements => statementTokens statement ++ blockTokens statements

end

mutual

def ProperStatement : NginxConfigStatement → Prop
  | .mk tokens none => tokens ≠ []
  | .mk tokens (some block) => tokens ≠ [] ∧ block ≠ [] ∧ ProperBlock block

def ProperBlock : List NginxConfigStatement → Prop
  | [] => True
  | statement :: statements => ProperStatement statement ∧ ProperBlock statements

end

inductive Inside (statement : NginxConfigStatement) : List NginxConfigStatement → Prop
  | here {statements : List NginxConfigStatement} : statement ∈ statements → Inside statement statements
  | deeper {statements block : List NginxConfigStatement} {tokens : List Bytes} :
      .mk tokens (some block) ∈ statements → Inside statement block → Inside statement statements

structure Shaped (statements : List NginxConfigStatement) : Prop where
  tokens : ∀ statement, Inside statement statements →
    statement.tokens ≠ [] ∧ ∀ token ∈ statement.tokens, token ≠ []
  blocks : ∀ tokens block, Inside (.mk tokens (some block)) statements → block ≠ []

structure ParseTree (ts : List ConfigToken) (config : NginxConfig) : Prop where
  nonempty : config.statements ≠ []
  proper : ProperBlock config.statements
  tokens : ts = blockTokens config.statements

/-- The whole text is a configuration, and this is its tree. -/
def Grammar (returnEnds : Bool) (s : Bytes) (config : NginxConfig) : Prop :=
  ∃ ts, Lexes returnEnds s ts ∧ ParseTree ts config

end TscServer.Spec
