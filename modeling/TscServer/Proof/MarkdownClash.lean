import TscServer.Proof.EmphasisClash
import TscServer.Proof.MarkdownFragment

/-!
# A document without end

A document of one word between two clashing markers reaches the matching as it is, so that it is never
converted.
-/

namespace TscServer.Proof
open Lib Pattern Model Markdown Spec

section Clash
variable {a b : UInt8} {w : Bytes} {fuel : Nat}

abbrev clashLine (a b : UInt8) (w : Bytes) : Bytes := [a, a, a] ++ w ++ [b, b, b]

theorem chars_clashLine {P : UInt8 → Prop} (onA : P a) (onB : P b) (word : Letters w)
    (letters : ∀ c, isalpha c = true → P c) : ∀ c ∈ clashLine a b w, P c := by
  intro c mem
  simp only [clashLine, List.mem_append, List.mem_cons, List.not_mem_nil, or_false, or_self] at mem
  rcases mem with (rfl | mem) | rfl
  · exact onA
  · exact letters c (word c mem)
  · exact onB

theorem marker_cases (marker : isMarkerChar a = true) : a = 42 ∨ a = 95 := by
  simpa [isMarkerChar] using marker

theorem cUnorderedListExpression_clashLine (marker : isMarkerChar a = true) :
    cUnorderedListExpression.fullMatch (clashLine a b w) = none := by
  apply fullMatch_eq_none_of_ends
  rw [List.eq_nil_iff_forall_not_mem]
  intro t mem
  obtain ⟨s, here, mem₁⟩ := mem_ends_seq.mp mem
  obtain ⟨rfl, -⟩ := mem_ends_edge.mp here
  obtain ⟨u, group, mem₂⟩ := mem_ends_seq.mp mem₁
  obtain ⟨v, blanks, rfl⟩ := mem_ends_group.mp group
  obtain ⟨n, -, le, rfl⟩ := mem_ends_rep_one.mp blanks
  have notBlank : a ≠ 32 := by rcases marker_cases marker with rfl | rfl <;> decide
  obtain rfl : n = 0 := by
    change n ≤ runLength _ none (a :: a :: a :: (w ++ [b, b, b])) at le
    rw [runLength, Option.elim_none, List.takeWhile_cons_of_neg (by simpa using notBlank)] at le
    simpa using le
  obtain ⟨x, bullet, mem₃⟩ := mem_ends_seq.mp mem₂
  obtain ⟨y, one_, rfl⟩ := mem_ends_group.mp bullet
  obtain ⟨c, -, -, rfl⟩ := mem_ends_one.mp one_
  obtain ⟨z, more, -⟩ := mem_ends_seq.mp mem₃
  obtain ⟨k, some_, le', -⟩ := mem_ends_rep_one.mp more
  change k ≤ runLength _ none (a :: a :: (w ++ [b, b, b])) at le'
  rw [runLength, Option.elim_none, List.takeWhile_cons_of_neg (by simpa using notBlank), List.length_nil] at le'
  omega

theorem parseBlock_clashLine (markerA : isMarkerChar a = true) (word : Letters w) (some_ : w ≠ []) :
    parseBlock (fuel + 1) [.rawText (clashLine a b w)] = .ok none := by
  have head : (clashLine a b w).head? = some a := rfl
  have apart : ∀ d, isMarkerChar d = false → a ≠ d := by
    rintro d other rfl
    rw [markerA] at other
    cases other
  obtain ⟨c, rest, rfl⟩ := List.exists_cons_of_ne_nil some_
  have letter := word c List.mem_cons_self
  have rule : cHorizontalRules.fullMatch (clashLine a b (c :: rest)) = none := by
    have takes : TakesOnly (fun d => d = 32 || (bytes "-*_").contains d) cHorizontalRules := by
      have blank_ : TakesOnly (fun d => decide (d = 32) || (bytes "-*_").contains d) blank :=
        .mono takesOnly_one fun d same => by rw [same, Bool.true_or]
      have mark : TakesOnly (fun d => decide (d = 32) || (bytes "-*_").contains d) (oneOf "-*_") :=
        .mono takesOnly_one fun d mem => by rw [mem, Bool.or_true]
      exact .seq takesOnly_edge (.seq (.rep blank_) (.seq (.rep (.group (.seq mark (.seq (.rep blank_) takesOnly_nil))))
        (.seq takesOnly_edge takesOnly_nil)))
    refine fullMatch_eq_none_of_takesOnly takes (c := c) (by simp) ?_
    rw [not_contains_of_alpha letter rfl, decide_eq_false (not_blank_of_alpha letter), Bool.or_false]
  have shallow : (clashLine a b (c :: rest)).head? ≠ some 32 := by
    rw [head]
    simpa using apart 32 rfl
  rw [← parseCodeBlock_shallow [] shallow]
  refine parseBlock_of_none (not_matches begins_cHashHeaders head ?_) ?_ rule
    (listStart_none (cUnorderedListExpression_clashLine markerA) (not_matches begins_cOrderedListExpression head ?_) false)
    (not_matches begins_cBlockQuoteExpression head ?_)
  · simpa using apart 35 rfl
  · intro line same
    cases same
  · rcases marker_cases markerA with rfl | rfl <;> decide
  · rw [decide_eq_false (apart 32 rfl), decide_eq_false (apart 62 rfl), Bool.or_false]

theorem inert_clashLine (markerA : isMarkerChar a = true) (markerB : isMarkerChar b = true) (word : Letters w) :
    InertToken (.rawText (clashLine a b w)) := by
  have apart : ∀ d, isMarkerChar d = false → a ≠ d := by
    rintro d other rfl
    rw [markerA] at other
    cases other
  have onMarker : ∀ c, isMarkerChar c = true → isSeparator c = false := by
    intro c marker
    rcases marker_cases marker with rfl | rfl <;> decide
  have onLetter : ∀ c, isalpha c = true → isSeparator c = false := by
    intro c alpha
    simp [isSeparator, ne_of_alpha alpha (d := 10) rfl, ne_of_alpha alpha (d := 13) rfl, ne_of_alpha alpha (d := 12) rfl]
  refine inert_rawText (chars_clashLine (onMarker a markerA) (onMarker b markerB) word onLetter) ?_
    (not_matches begins_cReference (c := a) rfl ?_)
  · simpa using apart 60 rfl
  · rw [decide_eq_false (apart 32 rfl), decide_eq_false (apart 91 rfl), Bool.or_false]

theorem processRawText_clashLine (markerA : isMarkerChar a = true) (markerB : isMarkerChar b = true) (ne : a ≠ b)
    (word : Letters w) (some_ : w ≠ []) (idTable : LinkIds) :
    processRawText fuel idTable (clashLine a b w) = .error .endless := by
  have onMarker : ∀ c, isMarkerChar c = true → c ≠ 1 ∧ c ≠ 60 ∧ c ≠ 96 ∧ c ≠ 92 ∧ c ≠ 91 := by
    intro c marker
    rcases marker_cases marker with rfl | rfl <;> decide
  have noSpans : NoSpans (clashLine a b w) :=
    chars_clashLine (onMarker a markerA) (onMarker b markerB) word fun c alpha =>
      ⟨ne_of_alpha alpha rfl, ne_of_alpha alpha rfl, ne_of_alpha alpha rfl, ne_of_alpha alpha rfl, ne_of_alpha alpha rfl⟩
  rw [processRawText_noSpans noSpans, processBoldAndItalicSpans, emphasise_clash markerA markerB ne word some_]
  rfl

/-- No number of steps is enough for a line with a word between clashing markers. -/
theorem render_clash (markerA : isMarkerChar a = true) (markerB : isMarkerChar b = true) (ne : a ≠ b)
    (word : Letters w) (some_ : w ≠ []) (fuel : Nat) :
    render fuel (clashLine a b w ++ [10]) = .error .endless := by
  have onMarker : ∀ c, isMarkerChar c = true → c ≠ 9 ∧ c ≠ 10 ∧ c ≠ 13 := by
    intro c marker
    rcases marker_cases marker with rfl | rfl <;> decide
  have verbatim : ∀ line ∈ [clashLine a b w], ReadVerbatim line :=
    List.forall_mem_singleton.mpr (chars_clashLine (onMarker a markerA) (onMarker b markerB) word fun c alpha =>
      ⟨ne_of_alpha alpha rfl, ne_of_alpha alpha rfl, ne_of_alpha alpha rfl⟩)
  have shown : isBlankLine (clashLine a b w) = false := by
    have apart : a ≠ 32 ∧ a ≠ 60 := by rcases marker_cases markerA with rfl | rfl <;> decide
    exact isBlankLine_of_head (c := a) rfl apart.1 apart.2
  have read : readDocument (clashLine a b w ++ [10]) = [.rawText (clashLine a b w)] := by
    have lines := readDocument_verbatim verbatim
    rw [List.flatMap_singleton, List.map_singleton, lineToken, shown] at lines
    exact lines
  have inert : ∀ token ∈ [Token.rawText (clashLine a b w)], InertToken token :=
    List.forall_mem_singleton.mpr (inert_clashLine markerA markerB word)
  cases fuel with
  | zero =>
      rw [render, read, process, mergeMultilineHtmlTags_inert inert, processInlineHtmlAndReferences]
      · rfl
      · simp
  | succ fuel =>
      have references : processInlineHtmlAndReferences (fuel + 1) [] ∅ [.rawText (clashLine a b w)] = _ :=
        processInlineHtmlAndReferences_inert inert (by simp)
      have blocks : processBlocksItems (fuel + 1) [.rawText (clashLine a b w)] = .ok [.rawText (clashLine a b w)] := by
        refine processBlocksItems_keep (parseBlock_clashLine markerA word some_) ?_
        rw [processBlocksItems]
        rfl
      have last : ¬ [32, 32] <:+ clashLine a b w := by
        rintro ⟨front, same⟩
        have ends := congrArg List.getLast? same
        rw [List.getLast?_append_of_ne_nil _ (by simp), List.getLast?_append_of_ne_nil _ (by simp)] at ends
        have notBlank : b ≠ 32 := by rcases marker_cases markerB with rfl | rfl <;> decide
        exact notBlank (by simpa using ends.symm)
      have joined : (Token.container .container [.rawText (clashLine a b w)]).processParagraphLines =
          .container .container [.container .paragraph [.rawText (clashLine a b w)]] := by
        have line := joinParagraphLines_line [] [] last
        have flush : joinParagraphLines false (clashLine a b w) [] =
            [.container .paragraph [.rawText (clashLine a b w)]] := by
          rw [joinParagraphLines]
          rfl
        rw [if_pos rfl, List.nil_append, flush] at line
        rw [Token.processParagraphLines, Token.processAllParagraphLines, Token.processAllParagraphLines]
        exact congrArg _ line
      have endless : (Token.container .container [.container .paragraph [.rawText (clashLine a b w)]]).processSpanElements
          (fuel + 1) ∅ = .error .endless := by
        have text_ : (Token.rawText (clashLine a b w)).processSpanElements (fuel + 1) ∅ = .error .endless := by
          rw [Token.rawText, Token.processSpanElements,
            processRawText_clashLine markerA markerB ne word some_]
          rfl
        have paragraph : (Token.container .paragraph [.rawText (clashLine a b w)]).processSpanElements (fuel + 1) ∅ =
            .error .endless := by
          rw [Token.processSpanElements, Token.processAllSpanElements, text_]
          rfl
        rw [Token.processSpanElements, Token.processAllSpanElements, paragraph]
        rfl
      rw [render, read, process, mergeMultilineHtmlTags_inert inert, references]
      change (processBlocksItems (fuel + 1) [.rawText (clashLine a b w)] >>= _) >>= _ = _
      rw [blocks]
      change (Token.container .container [.rawText (clashLine a b w)]).processParagraphLines.processSpanElements
        (fuel + 1) ∅ >>= _ = _
      rw [joined, endless]
      rfl

end Clash

theorem render_clash_word : render 100 (clashLine 42 95 (bytes "word") ++ [10]) = .error .endless :=
  render_clash rfl rfl (by decide) (List.all_eq_true.mp rfl) (by decide) 100

end TscServer.Proof
