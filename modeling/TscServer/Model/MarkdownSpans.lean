import Mathlib.Data.List.AList
import TscServer.Model.MarkdownTokens

/-!
# Markdown spans

`RawText::processSpanElements`: attributes of tags, code spans, escaped characters, links and images are
put aside in a table and stand in the text as references to it, until the bold and italic markers have been
found.
-/

namespace TscServer.Model.Markdown
open Lib Pattern

abbrev ReplacementTable := List Token

structure Target where
  url : Bytes
  title : Bytes

abbrev LinkIds := AList fun _ : Bytes => Target

namespace LinkIds

def scrubKey (id : Bytes) : Bytes := id.map fun c => if 65 ≤ c && c ≤ 90 then c + 32 else c

def find (idTable : LinkIds) (id : Bytes) : Option Target := idTable.lookup (scrubKey id)

def add (idTable : LinkIds) (id url title : Bytes) : LinkIds :=
  if (idTable.lookup (scrubKey id)).isSome then idTable else idTable.insert (scrubKey id) { url, title }

end LinkIds

def reference (n : Bytes) (comment : String) : Bytes :=
  [1] ++ bytes "@" ++ n ++ bytes "@" ++ bytes comment ++ [1]

def cEscapedCharacters : Bytes := bytes "\\`*_\x7b\x7d[]()#+-.!>"

def isEscapedCharacter (c : UInt8) : Option Nat :=
  let n := (cEscapedCharacters.takeWhile (· != c)).length
  if n < cEscapedCharacters.length then some n else none

/-- Indexing may reach the terminating NUL, but nothing after it. -/
def escapedCharacter (n : Nat) : Except Failure UInt8 :=
  if n ≤ cEscapedCharacters.length then .ok (cEscapedCharacters.getD n 0) else .error .outOfRange

/-! ## References -/

def cReplaced : Pattern UInt8 :=
  all [.one (· = 1), chr '@', .group 1 (all [opt (chr '#'), star (.one isDigit)]), chr '@', lazyPlus any,
    .one (· = 1)]

def toIndex (digits : Bytes) : Except Failure Nat :=
  (lexicalCast digits).elim (.error .badLexicalCast) .ok

def replacement (replacements : ReplacementTable) (n : Nat) : Except Failure Token :=
  replacements[n]?.elim (.error .assertion) .ok

def encodeReference (replacements : ReplacementTable) : Bytes → Except Failure (List Token)
  | 35 :: digits => do
      let n ← toIndex digits
      let c ← escapedCharacter n
      return [.escapedCharacter c]
  | [] => return []
  | ref => do
      let n ← toIndex ref
      let token ← replacement replacements n
      return [token]

def rawTextUnlessEmpty (text : Bytes) : List Token := if text = [] then [] else [.rawText text]

def encodeProcessedItems (src : Bytes) (replacements : ReplacementTable) : Except Failure (List Token) := do
  let (ms, rest) ← searchEach cReplaced src
  let parts ← ms.mapM fun m => do
    let items ← encodeReference replacements (m.group 1)
    return rawTextUnlessEmpty m.pre ++ items
  return parts.flatten ++ rawTextUnlessEmpty rest

def restoreReference (replacements : ReplacementTable) : Bytes → Except Failure Bytes
  | 35 :: digits => do
      let n ← toIndex digits
      let c ← escapedCharacter n
      return [92, c]
  | [] => return []
  | ref => do
      let n ← toIndex ref
      let token ← replacement replacements n
      return token.writeAsOriginal

def restoreProcessedItems (src : Bytes) (replacements : ReplacementTable) : Except Failure Bytes := do
  let (ms, rest) ← searchEach cReplaced src
  let parts ← ms.mapM fun m => do
    let item ← restoreReference replacements (m.group 1)
    return m.pre ++ item
  return parts.flatten ++ rest

/-! ## Attributes of tags -/

def quote : Pattern UInt8 := .one fun c => c = 34 || c = 39

def tagAttribute (n : Nat) : Pattern UInt8 :=
  .group n (all [plus blank, lazyPlus (.one isalnum), opt blank, chr '=', opt blank,
    .group (n + 1) quote, lazyStar any, .backref (n + 1)])

def tagEnd : Pattern UInt8 := all [spaces, opt (chr '/'), spaces]

/-- A tag. Groups: 1 the contents, 2 the slash, 3 the name, 4 the last attribute. -/
def htmlToken (repeated : Pattern UInt8 → Pattern UInt8) : Pattern UInt8 :=
  all [chr '<', .group 1 (all [.group 2 (opt (chr '/')), .group 3 (plus (.one isalnum)),
    repeated (tagAttribute 4), tagEnd]), chr '>']

-- here, a tag with attributes
def cHtmlToken : Pattern UInt8 := htmlToken lazyPlus

def cAttributeStrings : Pattern UInt8 :=
  all [chr '=', opt blank, .group 1 quote, lazyStar any, .backref 1]

def replaceAttributes (fulltag : Bytes) (replacements : ReplacementTable) :
    Except Failure (Bytes × ReplacementTable) := do
  let (ms, rest) ← searchEach cAttributeStrings fulltag
  let (tgttag, replacements) := ms.foldl (fun (tgttag, replacements) m =>
    (tgttag ++ m.pre ++ reference (toDecimal replacements.length) "htmlTagAttr",
      replacements ++ [.text .textHolder m.span])) ([], replacements)
  return (tgttag ++ rest, replacements)

def processHtmlTagAttributes (src : Bytes) (replacements : ReplacementTable) :
    Except Failure (Bytes × ReplacementTable) := do
  let (ms, rest) ← searchEach cHtmlToken src
  let (tgt, replacements) ← ms.foldlM (fun (tgt, replacements) m =>
    if isValidTag (m.group 3) false ≠ 0 then do
      let (tgttag, replacements) ← replaceAttributes m.span replacements
      return (tgt ++ m.pre ++ tgttag, replacements)
    else return (tgt ++ m.pre ++ m.span, replacements)) ([], replacements)
  return (tgt ++ rest, replacements)

/-! ## Code spans and escaped characters -/

def unescaped : Pattern UInt8 := .alt lineStart (behind (· != 92))

def cCodeSpan : List (Pattern UInt8) :=
  [all [unescaped, str "`` ", .group 1 (lazyPlus any), str " ``"],
    all [unescaped, chr '`', .group 1 (lazyPlus any), chr '`']]

def replaceCodeSpans (src : Bytes) (replacements : ReplacementTable) (codeSpan : Pattern UInt8) :
    Except Failure (Bytes × ReplacementTable) := do
  let (ms, rest) ← searchEach codeSpan src
  let (tgt, replacements) ← ms.foldlM (fun (tgt, replacements) m => do
    let code ← restoreProcessedItems (m.group 1) replacements
    return (tgt ++ m.pre ++ reference (toDecimal replacements.length) "codeSpan",
      replacements ++ [.text .codeSpan code])) ([], replacements)
  return (tgt ++ rest, replacements)

def processCodeSpans (src : Bytes) (replacements : ReplacementTable) :
    Except Failure (Bytes × ReplacementTable) :=
  cCodeSpan.foldlM (fun (src, replacements) codeSpan => replaceCodeSpans src replacements codeSpan)
    (src, replacements)

def processEscapedCharacters : Bytes → Bytes
  | [] => []
  | [92] => [92]
  | 92 :: c :: src =>
      (match isEscapedCharacter c with
      | some e => reference (35 :: toDecimal e) "escaped"
      | none => [92, c]) ++ processEscapedCharacters src
  | c :: src => c :: processEscapedCharacters src

/-! ## Links, images and tags -/

/-- Groups: 1 and 4 the mark of an image, 2 and 5 the contents, 3 the URL with the title, 6 the id, 7 what
stands between angle brackets, 8 the name of a tag there. -/
def cLinkExpression : Pattern UInt8 :=
  .alt
    (all [.group 1 (opt (chr '!')), chr '[', .group 2 (lazyPlus (noneOf "]")), chr ']', spaces, chr '(',
      .group 3 (all [star (noneOf "("), lazyStar (all [chr '(', lazyStar any, chr ')', lazyStar any])]),
      chr ')'])
    (.alt
      (all [.group 4 (opt (chr '!')), chr '[',
        .group 5 (.alt
          (all [lazyStar (noneOf "]"), chr '[', lazyStar any, chr ']', lazyStar any]) (lazyPlus any)),
        chr ']', opt (all [spaces, chr '[', .group 6 (lazyStar any), chr ']'])])
      (all [chr '<', .group 7 (all [opt (chr '/'), .group 8 (plus (.one isalnum)), lazyStar any]),
        chr '>']))

def title (n : Nat) : Pattern UInt8 :=
  opt (.alt (all [spaces, .group n quote, .group (n + 1) (star any), .backref n])
    (all [chr '(', .group (n + 2) (star any), chr ')']))

def cLinkTarget : Pattern UInt8 :=
  all [lineStart, opt (chr '<'), .group 1 (star (noneOf " >")), opt (chr '>'), title 2, spaces, lineEnd]

def linkTarget (urlAndTitle : Bytes) : Option Target :=
  (cLinkTarget.fullMatch urlAndTitle).map fun m =>
    { url := m.group 1, title := if (m.groups 3).isSome then m.group 3 else m.group 4 }

def angleToken (m : Match UInt8) (replacements : ReplacementTable) : Except Failure Token :=
  let contents := m.group 7
  if looksLikeUrl contents then
    return .container .container
      [.htmlAnchorTag contents [], .text (.rawText false) contents, .text .htmlTag (bytes "/a")]
  else if looksLikeEmailAddress contents then
    return .container .container
      [.htmlAnchorTag (emailEncode false (bytes "mailto:" ++ contents)) [],
        .text (.rawText false) (emailEncode false contents), .text .htmlTag (bytes "/a")]
  else if isValidTag (m.group 8) false ≠ 0 then do
    let tag ← restoreProcessedItems contents replacements
    return .text .htmlTag tag
  else return .rawText m.span

def matchedNonempty (m : Match UInt8) (n : Nat) : Bool := m.group n ≠ []

def processLink (idTable : LinkIds) (m : Match UInt8) (replacements : ReplacementTable) :
    Except Failure (Bytes × ReplacementTable × Bytes) :=
  let here := reference (toDecimal replacements.length) "links&Images1"
  let isReference := matchedNonempty m 4 || !matchedNonempty m 1 && (m.groups 5).isSome
  let isImage := matchedNonempty m 4 || matchedNonempty m 1
  let isLink := !isImage && ((m.groups 5).isSome || (m.groups 2).isSome)
  if isImage || isLink then
    let contentsOrAlttext := if isReference then m.group 5 else m.group 2
    let target :=
      if isReference then
        idTable.find (if m.group 6 = [] then cleanTextLinkRef contentsOrAlttext else m.group 6)
      else linkTarget (m.group 3)
    match target with
    -- the first character as it is, and the search goes on after it
    | none => return (here, replacements ++ [.rawText (m.span.take 1)], m.span.drop 1 ++ m.post)
    | some target =>
        if isImage then
          return (here, replacements ++ [.image contentsOrAlttext target.url target.title], m.post)
        else
          let replacements := replacements ++ [.htmlAnchorTag target.url target.title]
          return (here ++ contentsOrAlttext ++ reference (toDecimal replacements.length) "links&Images2",
            replacements ++ [.text .htmlTag (bytes "/a")], m.post)
  else do
    let token ← angleToken m replacements
    return (here, replacements ++ [token], m.post)

def linksLoop (idTable : LinkIds) : Nat → Bytes → Bytes → ReplacementTable →
    Except Failure (Bytes × ReplacementTable)
  | 0, _, _, _ => .error .endless
  | fuel + 1, tgt, src, replacements =>
      match cLinkExpression.search src with
      | none => return (tgt ++ src, replacements)
      | some m => do
          let (text, replacements, rest) ← processLink idTable m replacements
          linksLoop idTable fuel (tgt ++ m.pre ++ text) rest replacements

def processLinksImagesAndTags (src : Bytes) (replacements : ReplacementTable) (idTable : LinkIds) :
    Except Failure (Bytes × ReplacementTable) :=
  linksLoop idTable (src.length + 1) [] src replacements

/-! ## Bold and italic -/

def isMarkerChar (c : UInt8) : Bool := c == 42 || c == 95

/-- Groups: 1 and 2 the marker and the contents of an emphasis inside a word, 3 an open marker, 4 a close
marker. -/
def cEmphasisExpression : Pattern UInt8 :=
  let markers (c : UInt8) := between 1 3 (.one (· = c))
  let alone (c : UInt8) := all [notBehind (· = c), markers c, .notAhead (.one (· = c))]
  let ends (c : UInt8) :=
    all [notBehind fun d => d = c || d = 32, markers c, .notAhead (.one (· = c))]
  .alt
    (all [notBehind isMarkerChar, .group 1 (between 1 3 (.one isMarkerChar)),
      .group 2 (lazyPlus (noneOf "*_ ")), .backref 1, .notAhead (.one isMarkerChar)])
    (.alt
      (.group 3 (all [.alt (alone 42) (alone 95), .ahead any, .notAhead blank,
        .notAhead (all [oneOf ".,:;", blank]), .notAhead (all [oneOf ".,:;", lineEnd])]))
      (.group 4 (.alt (ends 42) (ends 95))))

def newMarker (isOpen : Bool) (token : Bytes) : Token :=
  .marker { isOpen, tokenCharacter := token.headD 0, size := token.length }

def emphasisTokens (m : Match UInt8) : List Token :=
  if (m.groups 3).isSome then [newMarker true (m.group 3)]
  else if (m.groups 4).isSome then [newMarker false (m.group 4)]
  else [newMarker true (m.group 1), .rawText (m.group 2), newMarker false (m.group 1)]

def emphasisScan (src : Bytes) : Except Failure (List Token) := do
  let (ms, rest) ← searchEach cEmphasisExpression src
  return ms.flatMap (fun m => rawTextUnlessEmpty m.pre ++ emphasisTokens m) ++ rawTextUnlessEmpty rest

inductive Pairing where
  | unmatched (after : List Token)
  | matched (after : List Token)
  | split (first second : Marker) (after : List Token)

namespace Pairing

def map (f : List Token → List Token) : Pairing → Pairing
  | .unmatched after => .unmatched (f after)
  | .matched after => .matched (f after)
  | .split first second after => .split first second (f after)

end Pairing

/-- The inner loop. A close marker of size three is split for an open one of another size, and an open
marker of size three for a close one; `none` when the splitting never ends. -/
def tryCloseMarkers (openToken : Marker) (id : Nat) : Nat → List Token → Option Pairing
  | 0, _ => none
  | _, [] => some (.unmatched [])
  | fuel + 1, .marker closeToken :: after =>
      if closeToken.isUnmatchedCloseMarker then
        if closeToken.size = 3 ∧ openToken.size ≠ 3 then
          let split size : Marker := { isOpen := false, tokenCharacter := closeToken.tokenCharacter, size }
          (tryCloseMarkers openToken id fuel (.marker (split (closeToken.size - openToken.size)) ::
              .marker (split openToken.size) :: after)).map
            (.map (.marker closeToken.disable :: ·))
        else if closeToken.tokenCharacter = openToken.tokenCharacter ∧ closeToken.size = openToken.size then
          some (.matched (.marker { closeToken with matchId := some id } :: after))
        else if openToken.size = 3 then
          let split size : Marker := { isOpen := true, tokenCharacter := openToken.tokenCharacter, size }
          some (.split (split (openToken.size - closeToken.size)) (split closeToken.size)
            (.marker closeToken :: after))
        else (tryCloseMarkers openToken id fuel after).map (.map (.marker closeToken :: ·))
      else (tryCloseMarkers openToken id fuel after).map (.map (.marker closeToken :: ·))
  | fuel + 1, token :: after => (tryCloseMarkers openToken id fuel after).map (.map (token :: ·))

def matchMarkers : Nat → Nat → List Token → Option (List Token)
  | 0, _, _ => none
  | _, _, [] => some []
  | fuel + 1, id, .marker m :: after =>
      if m.isUnmatchedOpenMarker then
        match tryCloseMarkers m id fuel after with
        | none => none
        | some (.unmatched after) => (matchMarkers fuel id after).map (.marker m :: ·)
        | some (.matched after) =>
            (matchMarkers fuel (id + 1) after).map (.marker { m with matchId := some id } :: ·)
        | some (.split first second after) =>
            (matchMarkers fuel id (.marker first :: .marker second :: after)).map
              (.marker m.disable :: ·)
      else (matchMarkers fuel id after).map (.marker m :: ·)
  | fuel + 1, id, token :: after => (matchMarkers fuel id after).map (token :: ·)

def Token.unmatch (id : Nat) : Token → Token
  | .marker m => Token.marker (if m.matchId = some id then { m with matchId := none } else m)
  | token => token

/-- The loop that takes back matches that are not nested: the tokens before, the ids on the stack of open
markers, `none` for one whose match was taken back, and the tokens that are left. -/
def unmatchLoop : List Token → List (Option Nat) → List Token → Except Failure (List Token)
  | done, _, [] => .ok done
  | done, openMatches, .marker m :: after =>
      match m.matchId with
      | none => unmatchLoop (done ++ [.marker m]) openMatches after
      | some id =>
          if m.isOpen then unmatchLoop (done ++ [.marker m]) (some id :: openMatches) after
          else
            match openMatches with
            | [] => .error .noValue
            | top :: below =>
                if top = some id then
                  unmatchLoop (done ++ [.marker m]) (below.dropWhile Option.isNone) after
                else
                  unmatchLoop ((done ++ [Token.marker m]).map (Token.unmatch id))
                    (openMatches.map fun x => if x = some id then none else x) after
  | done, openMatches, token :: after => unmatchLoop (done ++ [token]) openMatches after

def emphasise (fuel : Nat) (src : Bytes) : Except Failure (List Token) := do
  let tgt ← emphasisScan src
  let tgt ← (matchMarkers fuel 0 tgt).elim (.error .endless) .ok
  unmatchLoop [] [] tgt

def processBoldAndItalicSpans (fuel : Nat) (src : Bytes) (replacements : ReplacementTable) :
    Except Failure (List Token) := do
  let tgt ← emphasise fuel src
  let parts ← tgt.mapM fun token =>
    match token with
    | .text (.rawText true) text => encodeProcessedItems text replacements
    | token => return [token]
  return parts.flatten

/-! ## Span elements -/

def processRawText (fuel : Nat) (idTable : LinkIds) (text : Bytes) : Except Failure (List Token) := do
  let (str, replacements) ← processHtmlTagAttributes text []
  let (str, replacements) ← processCodeSpans str replacements
  let (str, replacements) ← processLinksImagesAndTags (processEscapedCharacters str) replacements idTable
  processBoldAndItalicSpans fuel str replacements

namespace Token

mutual

def processSpanElements (fuel : Nat) (idTable : LinkIds) : Token → Except Failure (Option Token)
  | .text (.rawText true) contents => do
      match ← processRawText fuel idTable contents with
      | [] => return none
      | [token] => return some token
      | tokens => return some (.container .container tokens)
  | .container kind subTokens => do
      let subTokens ← processAllSpanElements fuel idTable subTokens
      return some (.container kind subTokens)
  | token => return some token

def processAllSpanElements (fuel : Nat) (idTable : LinkIds) : List Token → Except Failure (List Token)
  | [] => return []
  | token :: tokens => do
      let token ← processSpanElements fuel idTable token
      let tokens ← processAllSpanElements fuel idTable tokens
      return token.toList ++ tokens

end

end Token
end TscServer.Model.Markdown
