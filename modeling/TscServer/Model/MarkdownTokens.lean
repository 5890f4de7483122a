import TscServer.Lib.ByteString
import TscServer.Lib.Numeral
import TscServer.Lib.Pattern

/-!
# Markdown tokens

The tokens of `markdown-tokens.h`, and how they are written as HTML. The expressions are those of the
source, in the Perl syntax of Boost.Regex.
-/

namespace TscServer.Model.Markdown
open Lib Pattern

inductive Failure where
  | assertion
  | badLexicalCast
  | outOfRange
  | noValue
  | pastEnd
  | endless
deriving DecidableEq, Repr

/-! ## Expressions -/

def isSeparator (c : UInt8) : Bool := c == 10 || c == 13 || c == 12

def lineStart : Pattern UInt8 :=
  .edge fun before after =>
    match before with
    | none => true
    | some c => isSeparator c && !(c == 13 && after == some 10)

def lineEnd : Pattern UInt8 :=
  .edge fun before after =>
    match after with
    | none => true
    | some c => isSeparator c && !(before == some 13 && c == 10)

def chr (c : Char) : Pattern UInt8 := .one (· = UInt8.ofNat c.toNat)

def str (s : String) : Pattern UInt8 := lit (bytes s)

def blank : Pattern UInt8 := .one (· = 32)

def spaces : Pattern UInt8 := star blank

def isalpha (c : UInt8) : Bool := (65 ≤ c && c ≤ 90) || (97 ≤ c && c ≤ 122)

def isalnum (c : UInt8) : Bool := isalpha c || isDigit c

def oneOf (s : String) : Pattern UInt8 := .one fun c => (bytes s).contains c

def noneOf (s : String) : Pattern UInt8 := .one fun c => !(bytes s).contains c

def searchEach (p : Pattern UInt8) (text : Bytes) : Except Failure (List (Match UInt8) × Bytes) :=
  (searchAll p (text.length + 1) text).elim (.error .endless) .ok

/-! ## Tokens -/

structure EncodingFlags where
  amps : Bool := false
  doubleAmps : Bool := false
  angles : Bool := false
  quotes : Bool := false

inductive TextKind where
  | textHolder
  | rawText (canContainMarkup : Bool)
  | htmlTag
  | htmlAnchorTag
  | inlineHtmlContents
  | inlineHtmlComment
  | codeBlock
  | codeSpan
  | header (level : Nat)
  | blankLine
deriving DecidableEq, Repr

/-- A `BoldOrItalicMarker`; `matchId` is the id that it shares with the marker it is matched to. -/
structure Marker where
  isOpen : Bool
  tokenCharacter : UInt8
  size : Nat
  matchId : Option Nat := none
  cannotMatch : Bool := false
  disabled : Bool := false
deriving DecidableEq, Repr

inductive ContainerKind where
  | container
  | inlineHtmlBlock
  | listItem (inhibitParagraphs : Bool)
  | unorderedList
  | orderedList
  | blockQuote
  | paragraph
deriving DecidableEq, Repr

inductive Token where
  | text (kind : TextKind) (contents : Bytes)
  | escapedCharacter (char : UInt8)
  | marker (marker : Marker)
  | image (altText url title : Bytes)
  | container (kind : ContainerKind) (subTokens : List Token)

namespace TextKind

def canContainMarkup : TextKind → Bool
  | .rawText canContainMarkup => canContainMarkup
  | .header _ => true
  | _ => false

def encodingFlags : TextKind → EncodingFlags
  | .textHolder => { amps := true, angles := true }
  | .rawText _ => { amps := true, angles := true, quotes := true }
  | .htmlTag => { amps := true, angles := true }
  | .htmlAnchorTag => {}
  | .inlineHtmlContents => { amps := true, angles := true }
  | .inlineHtmlComment => {}
  | .codeBlock => { doubleAmps := true, angles := true, quotes := true }
  | .codeSpan => { doubleAmps := true, angles := true, quotes := true }
  | .header _ => { amps := true, angles := true, quotes := true }
  | .blankLine => {}

def preWrite : TextKind → Bytes
  | .htmlTag => bytes "<"
  | .codeBlock => bytes "<pre><code>"
  | .codeSpan => bytes "<code>"
  | .header level => bytes "<h" ++ toDecimal level ++ bytes ">"
  | _ => []

def postWrite : TextKind → Bytes
  | .htmlTag => bytes ">"
  | .codeBlock => bytes "</code></pre>\n\n"
  | .codeSpan => bytes "</code>"
  | .header level => bytes "</h" ++ toDecimal level ++ bytes ">\n"
  | _ => []

end TextKind

namespace Marker

def isUnmatchedOpenMarker (m : Marker) : Bool := m.isOpen && m.matchId.isNone && !m.cannotMatch

def isUnmatchedCloseMarker (m : Marker) : Bool := !m.isOpen && m.matchId.isNone && !m.cannotMatch

def disable (m : Marker) : Marker := { m with cannotMatch := true, disabled := true }

end Marker

namespace ContainerKind

def inhibitParagraphs : ContainerKind → Bool
  | .inlineHtmlBlock => true
  | .listItem inhibitParagraphs => inhibitParagraphs
  | _ => false

def preWrite : ContainerKind → Bytes
  | .listItem _ => bytes "<li>"
  | .unorderedList => bytes "\n<ul>\n"
  | .orderedList => bytes "<ol>\n"
  | .blockQuote => bytes "<blockquote>\n"
  | .paragraph => bytes "<p>"
  | _ => []

def postWrite : ContainerKind → Bytes
  | .listItem _ => bytes "</li>\n"
  | .unorderedList => bytes "</ul>\n\n"
  | .orderedList => bytes "</ol>\n\n"
  | .blockQuote => bytes "\n</blockquote>\n"
  | .paragraph => bytes "</p>\n\n"
  | _ => []

end ContainerKind

namespace Token

def text? : Token → Option Bytes
  | .text _ contents => some contents
  | _ => none

def canContainMarkup : Token → Bool
  | .text kind _ => kind.canContainMarkup
  | _ => false

-- an inline HTML block always ends with a blank line, and counts as one
def isBlankLine : Token → Bool
  | .text kind _ => kind == .blankLine
  | .container kind _ => kind == .inlineHtmlBlock
  | _ => false

def inhibitParagraphs : Token → Bool
  | .text (.header _) _ => true
  | .container kind _ => kind.inhibitParagraphs
  | _ => false

def rawText (contents : Bytes) : Token := .text (.rawText true) contents

end Token

/-! ## Encoding -/

/-- What follows an ampersand that is kept. The anchor is part of the first alternative only. -/
def cIgnore : Pattern UInt8 :=
  .alt (.seq lineStart (str "&amp;"))
    (.alt (all [str "&#", between 1 3 (.one isDigit), chr ';'])
      (all [str "&#", oneOf "xX",
        between 1 2 (.one fun c => isDigit c || (97 ≤ c && c ≤ 102) || (65 ≤ c && c ≤ 70)), chr ';']))

def encodeString (flags : EncodingFlags) : Bytes → Bytes
  | [] => []
  | c :: src =>
      (if c = 38 ∧ flags.amps = true then
        if (cIgnore.search (c :: src)).isSome then [c] else bytes "&amp;"
      else if c = 38 ∧ flags.doubleAmps = true then bytes "&amp;"
      else if c = 60 ∧ flags.angles = true then bytes "&lt;"
      else if c = 62 ∧ flags.angles = true then bytes "&gt;"
      else if c = 34 ∧ flags.quotes = true then bytes "&quot;"
      else [c]) ++ encodeString flags src

def schemes : List Bytes :=
  ["http://", "https://", "ftp://", "ftps://", "file://", "www.", "ftp."].map bytes

def looksLikeUrl (s : Bytes) : Bool := schemes.any fun scheme => scheme.isPrefixOf s

def notValidNameCharacter (c : UInt8) : Bool := !(isalnum c || (bytes "._%-+").contains c)

def notValidSiteCharacter (c : UInt8) : Bool := !(isalnum c || (bytes "._%-").contains c || 128 ≤ c)

def isNotAlpha (c : UInt8) : Bool := !isalpha c

def emailEncode : Bool → Bytes → Bytes
  | _, [] => []
  | inHex, c :: src =>
      (if 128 ≤ c then [c]
      else if inHex then
        bytes "&#x" ++ (Nat.toDigits 16 c.toNat).map (fun d => UInt8.ofNat d.toNat) ++ bytes ";"
      else bytes "&#" ++ toDecimal c.toNat ++ bytes ";") ++ emailEncode (!inHex) src

def looksLikeEmailAddress (s : Bytes) : Bool :=
  let name := s.takeWhile fun c => !notValidNameCharacter c
  match s.dropWhile fun c => !notValidNameCharacter c with
  | 64 :: site =>
      !name.isEmpty && !site.any notValidSiteCharacter &&
        match s.reverse.dropWhile fun c => !isNotAlpha c with
        | 46 :: _ =>
            let d := (s.reverse.takeWhile fun c => !isNotAlpha c).length
            2 ≤ d && d ≤ 4
        | _ => false
  | _ => false

/-! ## Tags -/

def otherTags : List Bytes :=
  ["title", "base", "link", "basefont", "script", "style", "object", "meta",
    "em", "strong", "q", "cite", "dfn", "abbr", "acronym",
    "code", "samp", "kbd", "var", "sub", "sup", "del", "ins",
    "isindex", "a", "img", "br", "map", "area", "object", "param",
    "applet", "span"].map bytes

def blockTags : List Bytes :=
  ["p", "blockquote", "hr", "h1", "h2",
    "h3", "h4", "h5", "h6", "dl", "dt", "dd", "ol", "ul",
    "li", "dir", "menu", "table", "tr", "th", "td", "col",
    "colgroup", "caption", "thead", "tbody", "tfoot", "form",
    "select", "option", "input", "label", "textarea", "div", "pre",
    "address", "iframe", "frame", "frameset", "noframes",
    "center", "b", "i", "big", "small", "strike", "tt",
    "u", "font", "ins", "del"].map bytes

def isValidTag (tag : Bytes) (nonBlockFirst : Bool) : Nat :=
  if nonBlockFirst then
    if otherTags.contains tag then 1 else if blockTags.contains tag then 2 else 0
  else if blockTags.contains tag then 2
  else if otherTags.contains tag then 1
  else 0

def cleanTextLinkRef (ref : Bytes) : Bytes :=
  ref.foldl (fun r c => if c = 32 then (if r.getLast? = some 32 then r else r ++ [c]) else r ++ [c]) []

/-! ## Writing -/

namespace Marker

def writeAsHtml (m : Marker) : Bytes :=
  if m.disabled then []
  else if m.matchId.isSome then
    if m.isOpen then
      if m.size = 1 then bytes "<em>" else if m.size = 2 then bytes "<strong>" else bytes "<strong><em>"
    else if m.size = 1 then bytes "</em>"
    else if m.size = 2 then bytes "</strong>"
    else bytes "</em></strong>"
  else List.replicate m.size m.tokenCharacter

end Marker

namespace Token

mutual

def writeAsHtml : Token → Bytes
  | .text kind contents => kind.preWrite ++ encodeString kind.encodingFlags contents ++ kind.postWrite
  | .escapedCharacter char => [char]
  | .marker m => m.writeAsHtml
  | .image altText url title =>
      bytes "<img src=\"" ++ url ++ bytes "\" alt=\"" ++ altText ++ bytes "\"" ++
        (if title = [] then [] else bytes " title=\"" ++ title ++ bytes "\"") ++ bytes "/>"
  | .container kind subTokens => kind.preWrite ++ writeAllAsHtml subTokens ++ kind.postWrite

def writeAllAsHtml : List Token → Bytes
  | [] => []
  | token :: tokens => writeAsHtml token ++ writeAllAsHtml tokens

end

def writeAsOriginal : Token → Bytes
  | .text .codeSpan contents => bytes "`" ++ contents ++ bytes "`"
  | .escapedCharacter char => [92, char]
  | token => writeAsHtml token

def htmlAnchorTag (url title : Bytes) : Token :=
  let encode := encodeString { quotes := true, amps := true }
  .text .htmlAnchorTag
    (bytes "<a href=\"" ++ encode url ++ bytes "\"" ++
      (if title = [] then [] else bytes " title=\"" ++ encode title ++ bytes "\"") ++ bytes ">")

end Token
end TscServer.Model.Markdown
