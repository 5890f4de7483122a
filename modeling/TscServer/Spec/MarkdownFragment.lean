import TscServer.Model.MarkdownDocument

/-!
# Plain documents

Documents of paragraphs, headers and code blocks whose text has no other marks in it, how they are written in
Markdown, and the HTML that they are to come to.
-/

namespace TscServer.Spec
open Lib Model Markdown

def isOrdinary (c : UInt8) : Bool := 32 ≤ c && !(bytes "<>&\"*_`\\[").contains c

structure TextLine where
  text : Bytes
  first : text.head?.any isalpha = true
  ordinary : ∀ c ∈ text, isOrdinary c = true
  last : ¬ [32, 32] <:+ text

structure HeaderText where
  text : Bytes
  first : text.head?.any isalpha = true
  ordinary : ∀ c ∈ text, isOrdinary c = true
  last : text.getLast?.any (fun c => c = 32 || c = 35) = false

structure CodeLine where
  text : Bytes
  inLine : ∀ c ∈ text, c ≠ 9 ∧ c ≠ 10 ∧ c ≠ 12 ∧ c ≠ 13
  shown : ∃ c ∈ text, c ≠ 32

inductive Block where
  | paragraph (first : TextLine) (more : List TextLine)
  | header (level : Nat) (least : 1 ≤ level) (most : level ≤ 6) (text : HeaderText)
  | code (first : CodeLine) (more : List CodeLine)

namespace Block

def isCode : Block → Bool
  | .code _ _ => true
  | _ => false

def lines : Block → List Bytes
  | .paragraph first more => (first :: more).map TextLine.text
  | .header level _ _ text => [List.replicate level 35 ++ 32 :: text.text]
  | .code first more => (first :: more).map fun line => [32, 32, 32, 32] ++ line.text

def escape (c : UInt8) : Bytes :=
  if c = 38 then bytes "&amp;"
  else if c = 60 then bytes "&lt;"
  else if c = 62 then bytes "&gt;"
  else if c = 34 then bytes "&quot;"
  else [c]

def html : Block → Bytes
  | .paragraph first more =>
      bytes "<p>" ++ (first.text ++ more.flatMap fun line => 32 :: line.text) ++ bytes "</p>\n\n"
  | .header level _ _ text =>
      bytes "<h" ++ toDecimal level ++ bytes ">" ++ text.text ++ bytes "</h" ++ toDecimal level ++ bytes ">\n"
  | .code first more =>
      bytes "<pre><code>" ++ ((first :: more).flatMap fun line => line.text.flatMap escape ++ [10]) ++
        bytes "</code></pre>\n\n"

end Block

/-- Blocks with an empty line after each of them; two code blocks would be one. -/
structure PlainDocument where
  blocks : List Block
  apart : blocks.IsChain fun a b => ¬ (a.isCode = true ∧ b.isCode = true)

namespace PlainDocument

def lines (document : PlainDocument) : List Bytes := document.blocks.flatMap fun block => block.lines ++ [[]]

def text (document : PlainDocument) : Bytes := document.lines.flatMap (· ++ [10])

def html (document : PlainDocument) : Bytes := document.blocks.flatMap Block.html

end PlainDocument
end TscServer.Spec
