import TscServer.Lib.PatternSearch
import TscServer.Proof.EmphasisText

/-!
# Emphasis

What becomes of the bold and italic markers of a text: they nest, and none is lost.
-/

namespace TscServer.Proof
open Lib Pattern Model Markdown Spec

section Results
variable {fuel : Nat} {src : Bytes} {token : Token} {tokens : List Token}

theorem unmatched_of_fresh (fresh : Fresh token) : Unmatched token := by
  cases token with
  | marker m => exact fresh.2.2.1
  | text kind contents => trivial
  | escapedCharacter char => trivial
  | image altText url title => trivial
  | container kind subTokens => trivial

theorem sane_of_fresh (fresh : Fresh token) : Sane token := by
  cases token with
  | marker m => exact ⟨fresh.2.1, fun disabled => by simp [fresh.2.2.2] at disabled⟩
  | text kind contents => trivial
  | escapedCharacter char => trivial
  | image altText url title => trivial
  | container kind subTokens => trivial

theorem awaits_of_unmatched (unmatched : ∀ token ∈ tokens, Unmatched token) : Awaits [] tokens := by
  induction tokens with
  | nil => exact .nil
  | cons token tokens ih =>
      obtain ⟨first, rest⟩ := List.forall_mem_cons.mp unmatched
      exact .other first (ih rest)

theorem emphasise_eq {scanned : List Token} (scan : emphasisScan src = .ok scanned) (fuel : Nat) :
    emphasise fuel src = (matchMarkers fuel 0 scanned).elim (.error .endless) (unmatchLoop [] []) := by
  rw [emphasise, scan]
  change ((matchMarkers fuel 0 scanned).elim (.error .endless) .ok >>= unmatchLoop [] []) = _
  cases matchMarkers fuel 0 scanned <;> rfl

theorem emphasise_of_matchMarkers {scanned out : List Token} (scan : emphasisScan src = .ok scanned)
    (run : matchMarkers fuel 0 scanned = some out) :
    ∃ tokens, emphasise fuel src = .ok tokens ∧ WellNested tokens ∧ (∀ token ∈ tokens, Sane token) ∧
      oneMarker (tokens.flatMap spell) = oneMarker src := by
  obtain ⟨scanned', scan', fresh, same⟩ := emphasisScan_eq_ok src
  obtain rfl := Except.ok.inj (scan.symm.trans scan')
  rw [emphasise_eq scan fuel, run]
  have unmatched := awaits_of_unmatched fun token mem => unmatched_of_fresh (fresh token mem)
  obtain ⟨tokens, unmatching, nested⟩ := wellNested_of_paired (paired_of_matchMarkers run unmatched)
    (unwinding_start : Unwinding 0 [] [] [])
  have spells := spells_of_matchMarkers run fun token mem => sane_of_fresh (fresh token mem)
  have spells' := spells_of_unmatchLoop unmatching (by simpa using spells.sane)
  refine ⟨tokens, unmatching, nested, spells'.sane, ?_⟩
  rw [spells'.same, List.nil_append, spells.same, same]

theorem emphasise_cases (fuel : Nat) (src : Bytes) :
    emphasise fuel src = .error .endless ∨
      ∃ tokens, emphasise fuel src = .ok tokens ∧ WellNested tokens ∧ (∀ token ∈ tokens, Sane token) ∧
        oneMarker (tokens.flatMap spell) = oneMarker src := by
  obtain ⟨scanned, scan, -⟩ := emphasisScan_eq_ok src
  cases run : matchMarkers fuel 0 scanned with
  | none =>
      rw [emphasise_eq scan fuel, run]
      exact .inl rfl
  | some out => exact .inr (emphasise_of_matchMarkers scan run)

/-! ### Tags -/

theorem tags_of_unmatched (unmatched : Unmatched token) : tags token = [] := by
  cases token with
  | marker m => rw [tags, if_pos (.inr unmatched)]
  | text kind contents => rfl
  | escapedCharacter char => rfl
  | image altText url title => rfl
  | container kind subTokens => rfl

theorem shown_of_matched {m : Marker} (sane : Sane (.marker m)) (matched : m.matchId.isSome = true) :
    ¬ (m.disabled = true ∨ m.matchId = none) := by
  rintro (disabled | none_)
  · rw [(sane.2 disabled).2] at matched
    cases matched
  · rw [none_] at matched
    cases matched

theorem balanced_elements {inner : List Tag} (nested : Balanced inner) (names : List Bytes) :
    Balanced (names.map (Tag.mk true) ++ inner ++ names.reverse.map (Tag.mk false)) := by
  induction names with
  | nil => simpa using nested
  | cons name names ih =>
      have pair : Balanced (Tag.mk true name :: (names.map (Tag.mk true) ++ inner ++ names.reverse.map (Tag.mk false) ++
          [Tag.mk false name])) := .pair ⟨rfl, rfl, rfl⟩ ih .nil
      simpa [List.append_assoc] using pair

theorem balanced_of_wellNested (nested : WellNested tokens) (sane : ∀ token ∈ tokens, Sane token) :
    Balanced (tokens.flatMap tags) := by
  refine nested.flatMap ?_ ?_
  · intro token _ unmatched
    rw [tags_of_unmatched unmatched]
    exact .nil
  · rintro _ memo _ memc ⟨o, c, rfl, rfl, closes⟩ inner balanced
    have matched := closes.matched
    rw [closes.sameMatch] at matched
    have tagsOpen : tags (.marker o) = (elements o.size).map (Tag.mk true) := by
      rw [tags, if_neg (shown_of_matched (sane _ memo) closes.matched), if_pos closes.opens]
    have tagsClose : tags (.marker c) = (elements o.size).reverse.map (Tag.mk false) := by
      rw [tags, if_neg (shown_of_matched (sane _ memc) matched), if_neg (by simp [closes.closes]), closes.size]
    rw [tagsOpen, tagsClose]
    exact balanced_elements balanced (elements o.size)

/-! ### Writing -/

theorem writeAsHtml_matched {m : Marker} (shown : ¬ (m.disabled = true ∨ m.matchId = none)) :
    m.writeAsHtml = (tags (.marker m)).flatMap Tag.toBytes := by
  obtain ⟨enabled, matched⟩ := not_or.mp shown
  rw [Marker.writeAsHtml, if_neg enabled, if_pos (Option.isSome_iff_ne_none.mpr matched), tags, if_neg shown]
  by_cases single : m.size = 1
  · rw [single]
    cases m.isOpen <;> rfl
  by_cases double : m.size = 2
  · rw [double]
    cases m.isOpen <;> rfl
  · rw [if_neg single, if_neg double, if_neg single, if_neg double, elements, if_neg single, if_neg double]
    cases m.isOpen <;> rfl

theorem writeAsHtml_unmatched {m : Marker} (unmatched : m.matchId = none) :
    m.writeAsHtml = spell (.marker m) := by
  rw [Marker.writeAsHtml, spell, unmatched]
  rfl

theorem writeAsHtml_marker {m : Marker} (sane : Sane (.marker m)) : (Token.marker m).writeAsHtml =
    if m.matchId.isSome then (tags (.marker m)).flatMap Tag.toBytes else spell (.marker m) := by
  rw [Token.writeAsHtml]
  split
  · rename_i matched
    exact writeAsHtml_matched (shown_of_matched sane matched)
  · rename_i unmatched
    exact writeAsHtml_unmatched (Option.not_isSome_iff_eq_none.mp unmatched)

/-- Bold and italic come out as elements that nest, whatever the text, and nothing of it is lost. -/
theorem balanced_emphasise (fuel : Nat) (src : Bytes) :
    emphasise fuel src = .error .endless ∨
      ∃ tokens, emphasise fuel src = .ok tokens ∧ WellNested tokens ∧ Balanced (tokens.flatMap tags) ∧
        oneMarker (tokens.flatMap spell) = oneMarker src ∧
        ∀ m, Token.marker m ∈ tokens → (Token.marker m).writeAsHtml =
          if m.matchId.isSome then (tags (.marker m)).flatMap Tag.toBytes else spell (.marker m) := by
  rcases emphasise_cases fuel src with endless | ⟨tokens, ok, nested, sane, same⟩
  · exact .inl endless
  · exact .inr ⟨tokens, ok, nested, balanced_of_wellNested nested sane, same, fun m mem =>
      writeAsHtml_marker (sane _ mem)⟩

end Results

end TscServer.Proof
