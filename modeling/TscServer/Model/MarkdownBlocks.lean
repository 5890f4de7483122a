import TscServer.Model.MarkdownSpans

/-!
# Markdown blocks

The functions of `markdown.cpp` that take a block off the front of the tokens. A block comes with the tokens
from the place where the source leaves its iterator, which the caller advances once more.
-/

namespace TscServer.Model.Markdown
open Lib Pattern

abbrev ParsedBlock := Option (Token × List Token)

def Token.value (token : Token) : Except Failure Bytes := token.text?.elim (.error .noValue) .ok

def matches? (p : Pattern UInt8) (line : Bytes) : Bool := (p.fullMatch line).isSome

/-! ## Inline HTML -/

def cHtmlTokenExpression : Pattern UInt8 := htmlToken lazyStar

def cStartHtmlTokenExpression : Pattern UInt8 := all [lineStart, cHtmlTokenExpression]

def cOneHtmlTokenExpression : Pattern UInt8 := all [lineStart, cHtmlTokenExpression, lineEnd]

def parseInlineHtmlText (src : Bytes) : Except Failure (List Token) := do
  let (ms, rest) ← searchEach cHtmlTokenExpression src
  return ms.flatMap (fun m =>
    (if m.pre = [] then [] else [.text .inlineHtmlContents m.pre]) ++ [.text .htmlTag (m.group 1)]) ++
      [.text .inlineHtmlContents (rest ++ [10])]

def isHtmlCommentStart (line : Bytes) : Bool := ((all [lineStart, str "<!--"]).search line).isSome

def isHtmlCommentEnd (line : Bytes) : Bool :=
  matches? (all [star any, str "--", spaces, chr '>', lineEnd]) line

def cBlankLine : Pattern UInt8 :=
  all [between 0 3 blank,
    star (.group 1 (all [str "<--", .group 2 (star any), str "--", spaces, chr '>', spaces])), spaces]

def isBlankLine (line : Bytes) : Bool := matches? cBlankLine line

/-- The lines of an inline HTML block: their tokens, their number, and the tokens from the last line on. A
line that is followed by a blank one is the last when it is the first or such a line. -/
def inlineHtmlLines (encode : Bytes → Except Failure (List Token)) (isLast : Bytes → Bool) :
    Bool → List Token → Except Failure (List Token × Nat × List Token)
  | _, [] => return ([], 0, [])
  | isFirst, token :: after => do
      let here ← token.text?.elim (.ok [token]) encode
      if after.isEmpty ∨ after.head?.any Token.isBlankLine ∧
          token.text?.any (fun text => isFirst || isLast text) then
        return (here, 1, token :: after)
      else
        let (contents, lines, prevLine) ← inlineHtmlLines encode isLast false after
        return (here ++ contents, lines + 1, prevLine)

def parseInlineHtml (tokens : List Token) : Except Failure ParsedBlock :=
  match tokens.head?.bind Token.text? with
  | none => return none
  | some line =>
      let tag := (cStartHtmlTokenExpression.search line).bind fun m =>
        if isValidTag (m.group 3) false > 1 then some (m.group 3) else none
      match tag with
      | some tagName => do
          let (contents, lines, prevLine) ← inlineHtmlLines parseInlineHtmlText
            (fun text => (cOneHtmlTokenExpression.search text).isSome) true tokens
          -- a single line that starts with the tag of a span is no block
          if lines > 1 ∨ isValidTag tagName true > 1 then
            return some (.container .inlineHtmlBlock contents, prevLine)
          else return none
      | none =>
          if isHtmlCommentStart line then do
            let (contents, _, prevLine) ← inlineHtmlLines
              (fun text => .ok [.text .inlineHtmlComment (text ++ [10])]) isHtmlCommentEnd true tokens
            return some (.container .inlineHtmlBlock contents, prevLine)
          else return none

/-! ## Code blocks -/

def isCodeBlockLine : List Token → Option (Bytes × List Token)
  | [] => none
  | token :: after =>
      if token.isBlankLine then (isCodeBlockLine after).map fun (line, rest) => (10 :: line, rest)
      else if token.canContainMarkup then
        match token.text? with
        | some (32 :: 32 :: 32 :: 32 :: line) => some (line, after)
        | _ => none
      else none

def codeBlockLines : Nat → List Token → Bytes × List Token
  | 0, tokens => ([], tokens)
  | fuel + 1, tokens =>
      match isCodeBlockLine tokens with
      | some (line, after) =>
          let (out, rest) := codeBlockLines fuel after
          (line ++ [10] ++ out, rest)
      | none => ([], tokens)

def parseCodeBlock (tokens : List Token) : ParsedBlock :=
  if tokens.head?.any Token.isBlankLine then none
  else
    match isCodeBlockLine tokens with
    | some _ =>
        let (out, rest) := codeBlockLines tokens.length tokens
        some (.text .codeBlock out, rest)
    | none => none

/-! ## Block quotes -/

def quotePrefix : Pattern UInt8 := all [between 0 3 blank, chr '>']

def cBlockQuoteExpression : Pattern UInt8 :=
  all [lineStart, .group 1 (plus quotePrefix), blank, .group 2 (star any), lineEnd]

def countQuoteLevel (prefixString : Bytes) : Nat := prefixString.count 62

def continuationExpression (quoteLevel : Nat) : Pattern UInt8 :=
  all [lineStart, .group 1 (exactly quoteLevel quotePrefix), opt blank, .group 2 (star any), lineEnd]

def quoteLines (quoteLevel : Nat) : List Token → Except Failure (List Token × List Token)
  | [] => return ([], [])
  | token :: after =>
      if token.isBlankLine then
        match after with
        | [] => return ([], [])
        | next :: later => do
            let line ← next.value
            match (continuationExpression quoteLevel).fullMatch line with
            | some m =>
                if m.group 1 = [] then return ([], token :: after)
                else
                  let (subTokens, rest) ← quoteLines quoteLevel later
                  return (.text .blankLine [] :: .rawText (m.group 2) :: subTokens, rest)
            | none => return ([], token :: after)
      else do
        let line ← token.value
        match (continuationExpression quoteLevel).fullMatch line with
        | some m =>
            let (subTokens, rest) ← quoteLines quoteLevel after
            return ((if isBlankLine (m.group 2) then .text .blankLine (m.group 2)
              else .rawText (m.group 2)) :: subTokens, rest)
        | none => return ([], token :: after)

def markupLine (token : Token) : Option Bytes :=
  if token.isBlankLine ∨ ¬ token.canContainMarkup then none else token.text?

def parseBlockQuote : List Token → Except Failure ParsedBlock
  | [] => return none
  | token :: after =>
      match (markupLine token).bind cBlockQuoteExpression.fullMatch with
      | some m => do
          let (subTokens, rest) ← quoteLines (countQuoteLevel (m.group 1)) after
          return some (.container .blockQuote (.rawText (m.group 2) :: subTokens), rest)
      | none => return none

/-! ## Lists -/

def cUnorderedListExpression : Pattern UInt8 :=
  all [lineStart, .group 1 spaces, .group 2 (oneOf "*+-"), plus blank,
    .group 3 (all [noneOf "*-", star any]), lineEnd]

def cOrderedListExpression : Pattern UInt8 :=
  all [lineStart, .group 1 spaces, .group 2 (plus (.one isDigit)), chr '.', plus blank,
    .group 3 (star any), lineEnd]

def indented (n : Nat) : Pattern UInt8 := lit (List.replicate n 32)

structure ListStart where
  type : ContainerKind
  indent : Nat
  item : Bytes
  nextItemExpression : Pattern UInt8

def listStart (sub : Bool) (line : Bytes) : Option ListStart :=
  match cUnorderedListExpression.fullMatch line with
  | some m =>
      let indent := (m.group 1).length
      if sub ∨ indent < 4 then
        some
          { type := .unorderedList, indent, item := m.group 3
            nextItemExpression := all [lineStart, indented indent, lit (m.group 2), plus blank,
              .group 1 (all [noneOf "*-", star any]), lineEnd] }
      else none
  | none =>
      (cOrderedListExpression.fullMatch line).bind fun m =>
        let indent := (m.group 1).length
        if sub ∨ indent < 4 then
          some
            { type := .orderedList, indent, item := m.group 3
              nextItemExpression := all [lineStart, indented indent, plus (.one isDigit), chr '.',
                plus blank, .group 1 (star any), lineEnd] }
        else none

def startSublistExpression (indent : Nat) : Pattern UInt8 :=
  all [lineStart, indented indent, plus blank,
    .group 1 (.alt (.group 2 (oneOf "*+-")) (.group 3 (all [plus (.one isDigit), chr '.']))),
    plus blank, star any, lineEnd]

def cContinuedItemExpression : Pattern UInt8 :=
  all [lineStart, spaces, .group 1 (all [noneOf " ", star any]), lineEnd]

def continuedAfterBlankLineExpression (indent : Nat) : Pattern UInt8 :=
  all [lineStart, exactly (indent + 4) blank, .group 1 (all [noneOf " ", star any]), lineEnd]

def codeBlockAfterBlankLineExpression (indent : Nat) : Pattern UInt8 :=
  all [lineStart, exactly (indent + 8) blank, .group 1 (star any), lineEnd]

def listCodeLines (indent : Nat) : List Token → Except Failure (Bytes × List Token)
  | [] => return ([], [])
  | token :: after =>
      if token.isBlankLine then
        match after with
        | [] => .error .pastEnd
        | next :: later => do
            let nextLine ← next.value
            match (codeBlockAfterBlankLineExpression indent).fullMatch nextLine with
            | some m =>
                let (codeBlock, rest) ← listCodeLines indent later
                return ([10] ++ m.group 1 ++ [10] ++ codeBlock, rest)
            | none => return ([], token :: after)
      else
        match token.text?.bind (codeBlockAfterBlankLineExpression indent).fullMatch with
        | some m => do
            let (codeBlock, rest) ← listCodeLines indent after
            return (m.group 1 ++ [10] ++ codeBlock, rest)
        | none => return ([], token :: after)

structure ListState where
  subTokens : List Token := []
  subItemTokens : List Token
  itemCount : Nat := 1
  setParagraphMode : Bool := false

namespace ListState

def addToItem (l : ListState) (tokens : List Token) : ListState :=
  { l with subItemTokens := l.subItemTokens ++ tokens }

def finishItem (l : ListState) : ListState :=
  if l.subItemTokens = [] then l
  else
    { l with
      subTokens := l.subTokens ++ [.container (.listItem true) l.subItemTokens]
      subItemTokens := [] }

def anotherItem (l : ListState) (item : Bytes) : ListState :=
  { l.finishItem with subItemTokens := [.rawText item], itemCount := l.itemCount + 1 }

def countItem (l : ListState) : ListState := { l with itemCount := l.itemCount + 1 }

def paragraphMode (l : ListState) : ListState := { l with setParagraphMode := true }

end ListState

def allowParagraphs : Token → Token
  | .container (.listItem _) subTokens => .container (.listItem false) subTokens
  | token => token

def ListStart.finish (start : ListStart) (l : ListState) : Token :=
  let subTokens := l.finishItem.subTokens
  .container start.type (if l.setParagraphMode then subTokens.map allowParagraphs else subTokens)

mutual

def parseListBlock : Nat → Bool → List Token → Except Failure ParsedBlock
  | 0, _, _ => .error .endless
  | _, _, [] => return none
  | fuel + 1, sub, token :: after =>
      match (markupLine token).bind (listStart sub) with
      | none => return none
      | some start => do
          let (l, rest) ← listLoop fuel start { subItemTokens := [.rawText start.item] } after
          if l.itemCount > 1 ∨ start.indent ≠ 0 then return some (start.finish l, rest)
          -- it looked like a list, but was none
          else return none

def listLoop : Nat → ListStart → ListState → List Token → Except Failure (ListState × List Token)
  | 0, _, _, _ => .error .endless
  | _, _, l, [] => return (l, [])
  | fuel + 1, start, l, token :: after =>
      if token.isBlankLine then
        match after with
        | [] => return (l, [])
        | next :: later =>
            match next.text? with
            | none => return (l, token :: after)
            | some line =>
                if matches? (startSublistExpression start.indent) line then do
                  let some (sublist, rest) ← parseListBlock fuel true after | .error .assertion
                  listLoop fuel start (l.paragraphMode.countItem.addToItem [sublist]) rest
                else
                  match start.nextItemExpression.fullMatch line with
                  | some m => listLoop fuel start (l.paragraphMode.anotherItem (m.group 1)) later
                  | none =>
                      match (continuedAfterBlankLineExpression start.indent).fullMatch line with
                      | some m =>
                          listLoop fuel start
                            (l.addToItem [.text .blankLine [], .rawText (m.group 1)]) later
                      | none =>
                          match (codeBlockAfterBlankLineExpression start.indent).fullMatch line with
                          | some m => do
                              let (codeBlock, rest) ← listCodeLines start.indent later
                              listLoop fuel start (l.paragraphMode.countItem.addToItem
                                [.text .blankLine [],
                                  .text .codeBlock (m.group 1 ++ [10] ++ codeBlock)]) rest
                          | none => return (l, token :: after)
      else
        match token.text? with
        | none => return (l, token :: after)
        | some line =>
            if matches? (startSublistExpression start.indent) line then do
              let some (sublist, rest) ← parseListBlock fuel true (token :: after) | .error .assertion
              listLoop fuel start (l.countItem.addToItem [sublist]) rest
            else
              match start.nextItemExpression.fullMatch line with
              | some m => listLoop fuel start (l.anotherItem (m.group 1)) after
              | none =>
                  -- a line of the list around this one
                  if matches? cUnorderedListExpression line ∨ matches? cOrderedListExpression line then
                    return (l, token :: after)
                  else
                    match cContinuedItemExpression.fullMatch line with
                    | some m => listLoop fuel start (l.addToItem [.rawText (m.group 1)]) after
                    | none => .error .assertion

end

/-! ## References, headers and rules -/

def cReference : Pattern UInt8 :=
  all [lineStart, between 0 3 blank, chr '[', .group 1 (plus any), str "]:", plus blank,
    opt (chr '<'), .group 2 (plus (noneOf " >")), opt (chr '>'), title 3, lineEnd]

def cSeparateTitle : Pattern UInt8 :=
  all [lineStart, spaces,
    .alt (all [.group 1 quote, .group 2 (star any), .backref 1])
      (all [chr '(', .group 3 (star any), chr ')']), spaces, lineEnd]

def parseReference (idTable : LinkIds) (tokens : List Token) : Option (LinkIds × List Token) :=
  (tokens.head?.bind Token.text?).bind fun line1 =>
    (cReference.fullMatch line1).map fun m =>
      if (m.groups 4).isSome then (idTable.add (m.group 1) (m.group 2) (m.group 4), tokens)
      else if (m.groups 5).isSome then (idTable.add (m.group 1) (m.group 2) (m.group 5), tokens)
      else
        match (tokens.tail.head?.bind Token.text?).bind cSeparateTitle.fullMatch with
        | some t =>
            (idTable.add (m.group 1) (m.group 2) (if (t.groups 2).isSome then t.group 2 else t.group 3),
              tokens.tail)
        | none => (idTable.add (m.group 1) (m.group 2) [], tokens)

def cHashHeaders : Pattern UInt8 :=
  all [lineStart, .group 1 (between 1 6 (chr '#')), plus blank, .group 2 (lazyStar any), spaces,
    star (chr '#'), lineEnd]

def cUnderlinedHeaders : Pattern UInt8 :=
  all [lineStart, .group 1 (oneOf "-="), star (.backref 1), lineEnd]

def parseHeader : List Token → ParsedBlock
  | [] => none
  | token :: after =>
      (markupLine token).bind fun line =>
        match cHashHeaders.fullMatch line with
        | some m => some (.text (.header (m.group 1).length) (m.group 2), token :: after)
        | none =>
            ((after.head?.bind markupLine).bind cUnderlinedHeaders.fullMatch).map fun m =>
              (.text (.header (if (m.group 1).head? = some 61 then 1 else 2)) line, after)

def cHorizontalRules : Pattern UInt8 :=
  all [lineStart, between 0 3 blank,
    .rep true 3 none (.group 1 (all [oneOf "-*_", spaces])), lineEnd]

def parseHorizontalRule (tokens : List Token) : ParsedBlock :=
  (tokens.head?.bind markupLine).bind fun line =>
    if matches? cHorizontalRules line then some (.text .htmlTag (bytes "hr/"), tokens) else none

end TscServer.Model.Markdown
