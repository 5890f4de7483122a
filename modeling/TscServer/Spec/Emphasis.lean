import TscServer.Lib.Nested
import TscServer.Model.MarkdownSpans

/-!
# Emphasis

What the bold and italic markers of a text are to come to: tags that nest, and markers that are written as
they were.
-/

namespace TscServer.Spec
open Lib Model Markdown

def Unmatched : Token → Prop
  | .marker m => m.matchId = none
  | _ => True

structure Closes (open_ close : Marker) : Prop where
  opens : open_.isOpen = true
  closes : close.isOpen = false
  matched : open_.matchId.isSome = true
  sameMatch : open_.matchId = close.matchId
  size : open_.size = close.size
  char : open_.tokenCharacter = close.tokenCharacter

def PairOfMarkers (a b : Token) : Prop :=
  ∃ open_ close, a = .marker open_ ∧ b = .marker close ∧ Closes open_ close

abbrev WellNested (tokens : List Token) : Prop := Nested Unmatched PairOfMarkers tokens

/-! ## Tags -/

structure Tag where
  starts : Bool
  name : Bytes

def Tag.toBytes (tag : Tag) : Bytes :=
  (if tag.starts then bytes "<" else bytes "</") ++ tag.name ++ bytes ">"

def elements (size : Nat) : List Bytes :=
  if size = 1 then [bytes "em"] else if size = 2 then [bytes "strong"] else [bytes "strong", bytes "em"]

def tags : Token → List Tag
  | .marker m =>
      if m.disabled = true ∨ m.matchId = none then []
      else if m.isOpen then (elements m.size).map (Tag.mk true)
      else (elements m.size).reverse.map (Tag.mk false)
  | _ => []

abbrev Balanced (tags : List Tag) : Prop :=
  Nested (fun _ => False) (fun a b => a.starts = true ∧ b.starts = false ∧ a.name = b.name) tags

/-! ## Text -/

/-- What a token stands for in the text; a marker that was split stands for nothing more. -/
def spell : Token → Bytes
  | .marker m => if m.disabled then [] else List.replicate m.size m.tokenCharacter
  | .text _ contents => contents
  | _ => []

/-- Asterisks and underscores are taken for the same. -/
def oneMarker (text : Bytes) : Bytes := text.map fun c => if isMarkerChar c then 42 else c

def ClashFree (tokens : List Token) : Prop :=
  tokens.Pairwise fun a b => ∀ m n : Marker, a = .marker m → b = .marker n → m.isOpen = true →
    n.isOpen = false → m.size = 3 → n.size = 3 → m.tokenCharacter = n.tokenCharacter

end TscServer.Spec
