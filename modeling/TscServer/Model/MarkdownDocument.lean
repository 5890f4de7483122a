import TscServer.Model.MarkdownBlocks

/-!
# Markdown documents

`markdown::Document`: reading a text into lines, the passes over the tokens, and writing them as HTML. The
fuel bounds the recursion of the passes and the splitting of bold and italic markers.
-/

namespace TscServer.Model.Markdown
open Lib Pattern

/-! ## Reading -/

def expandTab (line : Bytes) : Bytes := line ++ List.replicate (4 - line.length % 4) 32

/-- `_getline`, the characters of the line so far first; `none` at the end of the text. The characters of a
line end may come in either order, and one alone is a line end too. -/
def getLine : Bytes → Bytes → Option (Bytes × Bytes)
  | line, [] => if line = [] then none else some (line, [])
  | line, c :: text =>
      if c = 13 then some (line, if text.head? = some 10 then text.tail else text)
      else if c = 10 then some (line, if text.head? = some 13 then text.tail else text)
      else if c = 9 then getLine (expandTab line) text
      else getLine (line ++ [c]) text

def readLines : Nat → Bytes → List Bytes
  | 0, _ => []
  | fuel + 1, text =>
      match getLine [] text with
      | none => []
      | some (line, rest) => line :: readLines fuel rest

def lineToken (line : Bytes) : Token :=
  if isBlankLine line then .text .blankLine line else .rawText line

def readDocument (text : Bytes) : List Token := (readLines text.length text).map lineToken

/-! ## Passes -/

def cHtmlTokenStart : Pattern UInt8 :=
  all [chr '<', .group 1 (all [.group 2 (opt (chr '/')), .group 3 (plus (.one isalnum)),
    lazyStar (tagAttribute 4), tagEnd]), lineEnd]

def cHtmlTokenEnd : Pattern UInt8 :=
  all [lineStart, spaces, .group 1 (all [lazyStar (tagAttribute 2), tagEnd]), chr '>']

def mergedTag (line next : Token) : Option Token :=
  line.text?.bind fun start =>
    next.text?.bind fun rest =>
      if matches? cHtmlTokenStart start ∧ matches? cHtmlTokenEnd rest then
        some (.rawText (start ++ [32] ++ rest))
      else none

def mergeMultilineHtmlTags : List Token → List Token
  | [] => []
  | [token] => [token]
  | token :: next :: tokens =>
      match mergedTag token next with
      | some merged => merged :: mergeMultilineHtmlTags tokens
      | none => token :: mergeMultilineHtmlTags (next :: tokens)

def processInlineHtmlAndReferences : Nat → List Token → LinkIds → List Token →
    Except Failure (List Token × LinkIds)
  | _, processed, idTable, [] => return (processed, idTable)
  | 0, _, _, _ => .error .endless
  | fuel + 1, processed, idTable, token :: after => do
      let inlineHtml ← if processed.getLast?.all Token.isBlankLine then parseInlineHtml (token :: after)
        else .ok none
      match inlineHtml with
      | some (block, rest) =>
          processInlineHtmlAndReferences fuel (processed ++ [block]) idTable rest.tail
      | none =>
          match parseReference idTable (token :: after) with
          | some (idTable, rest) => processInlineHtmlAndReferences fuel processed idTable rest.tail
          | none => processInlineHtmlAndReferences fuel (processed ++ [token]) idTable after

def parseBlock (fuel : Nat) (tokens : List Token) : Except Failure ParsedBlock :=
  match parseHeader tokens with
  | some block => return some block
  | none =>
      match parseHorizontalRule tokens with
      | some block => return some block
      | none => do
          match ← parseListBlock fuel false tokens with
          | some block => return some block
          | none =>
              match ← parseBlockQuote tokens with
              | some block => return some block
              | none => return parseCodeBlock tokens

def processBlocksItems : Nat → List Token → Except Failure (List Token)
  | _, [] => return []
  | 0, _ => .error .endless
  | fuel + 1, .container kind subTokens :: after => do
      let subTokens ← processBlocksItems fuel subTokens
      let processed ← processBlocksItems fuel after
      return .container kind subTokens :: processed
  | fuel + 1, .text kind text :: after => do
      match ← parseBlock (fuel + 1) (.text kind text :: after) with
      | some (.container kind subTokens, rest) =>
          let subTokens ← processBlocksItems fuel subTokens
          let processed ← processBlocksItems fuel rest.tail
          return .container kind subTokens :: processed
      | some (subitem, rest) =>
          let processed ← processBlocksItems fuel rest.tail
          return subitem :: processed
      | none =>
          let processed ← processBlocksItems fuel after
          return .text kind text :: processed
  | fuel + 1, _ :: after => processBlocksItems fuel after

def flushParagraph (noParagraphs : Bool) (paragraphText : Bytes) : List Token :=
  if paragraphText = [] then []
  else if noParagraphs then [.rawText paragraphText]
  else [.container .paragraph [.rawText paragraphText]]

def cLineBreak : Pattern UInt8 := all [lineStart, .group 1 (star any), str "  ", lineEnd]

def paragraphLine (token : Token) : Option Bytes :=
  if token.canContainMarkup ∧ ¬ token.inhibitParagraphs then token.text? else none

def joinParagraphLines (noParagraphs : Bool) : Bytes → List Token → List Token
  | paragraphText, [] => flushParagraph noParagraphs paragraphText
  | paragraphText, token :: tokens =>
      match paragraphLine token with
      | some line =>
          let paragraphText := if paragraphText = [] then [] else paragraphText ++ [32]
          match cLineBreak.fullMatch line with
          | some m =>
              flushParagraph noParagraphs (paragraphText ++ m.group 1) ++
                .text .htmlTag (bytes "br/") :: joinParagraphLines noParagraphs [] tokens
          | none => joinParagraphLines noParagraphs (paragraphText ++ line) tokens
      | none =>
          flushParagraph noParagraphs paragraphText ++ token :: joinParagraphLines noParagraphs [] tokens

namespace Token

mutual

def processParagraphLines : Token → Token
  | .container kind subTokens =>
      .container kind (joinParagraphLines kind.inhibitParagraphs [] (processAllParagraphLines subTokens))
  | token => token

def processAllParagraphLines : List Token → List Token
  | [] => []
  | token :: tokens => processParagraphLines token :: processAllParagraphLines tokens

end

end Token

def process (fuel : Nat) (tokens : List Token) : Except Failure (Option Token) := do
  let (tokens, idTable) ←
    processInlineHtmlAndReferences fuel [] ∅ (mergeMultilineHtmlTags tokens)
  let tokens ← processBlocksItems fuel tokens
  (Token.container .container tokens).processParagraphLines.processSpanElements fuel idTable

/-- What `read` and `write` make of a text. -/
def render (fuel : Nat) (text : Bytes) : Except Failure Bytes := do
  let document ← process fuel (readDocument text)
  return document.elim [] Token.writeAsHtml

end TscServer.Model.Markdown
