import Mathlib.Data.List.Chain
import TscServer.Lib.ExceptFold
import TscServer.Proof.Emphasis
import TscServer.Proof.MarkdownPlain

/-!
# Plain documents converted

The passes of the converter over a plain document: its lines, its blocks, its paragraphs and their text, and
the HTML that they are written as.
-/

namespace TscServer.Proof
open Lib Pattern Model Markdown Spec

/-! ## Reading -/

section Reading
variable {line text : Bytes} {lines : List Bytes}

def ReadVerbatim (line : Bytes) : Prop := ∀ c ∈ line, c ≠ 9 ∧ c ≠ 10 ∧ c ≠ 13

theorem getLine_verbatim (verbatim : ReadVerbatim line) (next : text.head? ≠ some 13) (before : Bytes) :
    getLine before (line ++ 10 :: text) = some (before ++ line, text) := by
  induction line generalizing before with
  | nil =>
      rw [List.nil_append, getLine, if_neg (by decide), if_pos rfl, if_neg next, List.append_nil]
  | cons c line ih =>
      obtain ⟨⟨tab, feed, return_⟩, others⟩ := List.forall_mem_cons.mp verbatim
      rw [List.cons_append, getLine, if_neg return_, if_neg feed, if_neg tab, ih others, List.append_assoc]
      rfl

theorem readLines_verbatim (verbatim : ∀ line ∈ lines, ReadVerbatim line) {fuel : Nat} (enough : lines.length ≤ fuel) :
    readLines fuel (lines.flatMap (· ++ [10])) = lines := by
  induction lines generalizing fuel with
  | nil =>
      cases fuel <;> rfl
  | cons line lines ih =>
      obtain ⟨here, others⟩ := List.forall_mem_cons.mp verbatim
      obtain ⟨fuel, rfl⟩ : ∃ n, fuel = n + 1 := ⟨fuel - 1, by rw [List.length_cons] at enough; omega⟩
      have next : (lines.flatMap (· ++ [10])).head? ≠ some 13 := by
        cases lines with
        | nil => simp
        | cons line' lines =>
            rw [List.flatMap_cons, List.append_assoc]
            cases line' with
            | nil => simp
            | cons c line' =>
                have := (others (c :: line') List.mem_cons_self c List.mem_cons_self).2.2
                simpa using this
      rw [List.flatMap_cons, List.append_assoc, List.singleton_append, readLines, getLine_verbatim here next]
      simp only [List.nil_append]
      rw [ih others (by rw [List.length_cons] at enough; omega)]

theorem readDocument_verbatim (verbatim : ∀ line ∈ lines, ReadVerbatim line) :
    readDocument (lines.flatMap (· ++ [10])) = lines.map lineToken := by
  rw [readDocument, readLines_verbatim verbatim]
  clear verbatim
  induction lines with
  | nil => exact Nat.le_refl 0
  | cons line lines ih =>
      rw [List.flatMap_cons, List.length_cons, List.length_append, List.length_append, List.length_singleton]
      omega

end Reading

/-! ## Inline HTML and references -/

section InertToken
variable {token : Token} {tokens processed : List Token} {idTable : LinkIds} {fuel : Nat}

structure InertToken (token : Token) : Prop where
  noTag : ∀ line, token.text? = some line → line.head? ≠ some 60
  noHtml : ∀ after, parseInlineHtml (token :: after) = .ok none
  noReference : ∀ idTable after, parseReference idTable (token :: after) = none

theorem mergeMultilineHtmlTags_inert (inert : ∀ token ∈ tokens, InertToken token) :
    mergeMultilineHtmlTags tokens = tokens := by
  induction tokens with
  | nil => rfl
  | cons token tokens ih =>
      obtain ⟨here, others⟩ := List.forall_mem_cons.mp inert
      cases tokens with
      | nil => rfl
      | cons next tokens =>
          have apart : mergedTag token next = none := by
            rw [mergedTag, Option.bind_eq_none_iff]
            intro line text_
            rw [Option.bind_eq_none_iff]
            intro rest _
            have other : line.head?.any (fun c => decide (c = 60)) = false := by
              have noTag := here.noTag line text_
              cases head : line.head? with
              | none => rfl
              | some c =>
                  rw [Option.any_some, decide_eq_false_iff_not]
                  rintro rfl
                  exact noTag head
            rw [if_neg]
            rw [matches?, fullMatch_eq_none_of_begins begins_cHtmlTokenStart other]
            simp
          rw [mergeMultilineHtmlTags, apart]
          simp only
          rw [ih others]

theorem processInlineHtmlAndReferences_inert (inert : ∀ token ∈ tokens, InertToken token) (enough : tokens.length ≤ fuel) :
    processInlineHtmlAndReferences fuel processed idTable tokens = .ok (processed ++ tokens, idTable) := by
  induction tokens generalizing fuel processed with
  | nil =>
      rw [processInlineHtmlAndReferences, List.append_nil]
      rfl
  | cons token tokens ih =>
      obtain ⟨here, others⟩ := List.forall_mem_cons.mp inert
      obtain ⟨fuel, rfl⟩ : ∃ n, fuel = n + 1 := ⟨fuel - 1, by rw [List.length_cons] at enough; omega⟩
      rw [processInlineHtmlAndReferences, here.noHtml, ite_self]
      simp only [here.noReference]
      rw [ih others (by rw [List.length_cons] at enough; omega), List.append_assoc]
      rfl

end InertToken
/-! ## Lines of the blocks -/

section Lines
variable {line text : Bytes} {c : UInt8} {block : Block}

theorem ordinary_ne {d : UInt8} (ordinary : isOrdinary c = true) (other : isOrdinary d = false) : c ≠ d := by
  rintro rfl
  rw [ordinary] at other
  cases other

theorem verbatim_of_ordinary (ordinary : ∀ c ∈ line, isOrdinary c = true) : ReadVerbatim line := fun c mem =>
  ⟨ordinary_ne (ordinary c mem) rfl, ordinary_ne (ordinary c mem) rfl, ordinary_ne (ordinary c mem) rfl⟩

theorem inLine_of_ordinary (ordinary : ∀ c ∈ line, isOrdinary c = true) : InLine line := by
  intro c mem
  have ne : ∀ d, isOrdinary d = false → c ≠ d := fun d other => ordinary_ne (ordinary c mem) other
  simp [isSeparator, ne 10 rfl, ne 13 rfl, ne 12 rfl]

theorem head?_of_any {f : UInt8 → Bool} (first : line.head?.any f = true) : ∃ c, line.head? = some c ∧ f c = true := by
  cases head : line.head? with
  | none =>
      rw [head] at first
      cases first
  | some c => exact ⟨c, rfl, by rwa [head] at first⟩

theorem inert_rawText (inLine : InLine line) (notTag : line.head? ≠ some 60)
    (reference_ : cReference.fullMatch line = none) : InertToken (.rawText line) where
  noTag := by
    intro line' same
    obtain rfl := Option.some.inj same
    exact notTag
  noHtml := fun after => parseInlineHtml_none inLine notTag
  noReference := by
    intro idTable after
    change (some line).bind _ = none
    rw [Option.bind_some, reference_]
    rfl

theorem inert_blankLine : InertToken (.text .blankLine []) where
  noTag := by
    intro line' same
    obtain rfl := Option.some.inj same
    simp
  noHtml := by
    intro after
    have noTag : cStartHtmlTokenExpression.search [] = none :=
      search_lineStart (List.forall_mem_nil _ : InLine []) (ends_eq_nil_of_begins (.seq begins_cHtmlTokenExpression) rfl)
    have noComment : isHtmlCommentStart [] = false := by decide
    rw [parseInlineHtml]
    simp [Token.text?, noTag, noComment]
    rfl
  noReference := by
    intro idTable after
    have none_ : cReference.fullMatch [] = none := fullMatch_eq_none_of_begins begins_cReference rfl
    change (some []).bind _ = none
    rw [Option.bind_some, none_]
    rfl

theorem inert_alpha (head : line.head? = some c) (alpha : isalpha c = true)
    (ordinary : ∀ c ∈ line, isOrdinary c = true) : InertToken (.rawText line) := by
  have apart : ∀ d, isalpha d = false → c ≠ d := fun d other => ne_of_alpha alpha other
  refine inert_rawText (inLine_of_ordinary ordinary) ?_ (not_matches begins_cReference head ?_)
  · rw [head]
    simpa using apart 60 rfl
  · rw [decide_eq_false (apart 32 rfl), decide_eq_false (apart 91 rfl), Bool.or_false]

structure ReadAs (line : Bytes) : Prop where
  verbatim : ReadVerbatim line
  shown : isBlankLine line = false
  inert : InertToken (.rawText line)

theorem readAs_textLine (line : TextLine) : ReadAs line.text := by
  obtain ⟨c, head, alpha⟩ := head?_of_any line.first
  exact ⟨verbatim_of_ordinary line.ordinary,
    isBlankLine_of_head head (ne_of_alpha alpha rfl) (ne_of_alpha alpha rfl), inert_alpha head alpha line.ordinary⟩

theorem readAs_headerLine {level : Nat} (least : 1 ≤ level) (text : HeaderText) :
    ReadAs (headerLine level text.text) := by
  have chars : ∀ c ∈ headerLine level text.text, isOrdinary c = true := by
    intro c mem
    rcases List.mem_append.mp mem with hash | mem
    · rw [List.eq_of_mem_replicate hash]
      rfl
    · rcases List.mem_cons.mp mem with rfl | mem
      · rfl
      · exact text.ordinary c mem
  have head : (headerLine level text.text).head? = some 35 := by
    obtain ⟨level, rfl⟩ : ∃ n, level = n + 1 := ⟨level - 1, by omega⟩
    rfl
  refine ⟨verbatim_of_ordinary chars, isBlankLine_of_head head (by decide) (by decide), ?_⟩
  exact inert_rawText (inLine_of_ordinary chars) (by rw [head]; decide) (not_matches begins_cReference head rfl)

theorem readAs_codeLine (line : CodeLine) : ReadAs (codeLine line.text) := by
  have chars : ∀ c ∈ codeLine line.text, c ≠ 9 ∧ c ≠ 10 ∧ c ≠ 12 ∧ c ≠ 13 := by
    simp only [List.forall_mem_cons]
    exact ⟨by decide, by decide, by decide, by decide, line.inLine⟩
  refine ⟨fun c mem => ?_, isBlankLine_codeLine line.shown, inert_rawText (fun c mem => ?_) ?_ cReference_codeLine⟩
  · obtain ⟨tab, feed, -, return_⟩ := chars c mem
    exact ⟨tab, feed, return_⟩
  · obtain ⟨-, feed, form, return_⟩ := chars c mem
    simp [isSeparator, feed, form, return_]
  · simp

theorem readAs_lines (block : Block) : ∀ line ∈ block.lines, ReadAs line := by
  intro line mem
  cases block with
  | paragraph first more =>
      obtain ⟨line, -, rfl⟩ := List.mem_map.mp mem
      exact readAs_textLine line
  | header level least most text =>
      obtain rfl := List.mem_singleton.mp mem
      exact readAs_headerLine least text
  | code first more =>
      obtain ⟨line, -, rfl⟩ := List.mem_map.mp mem
      exact readAs_codeLine line

end Lines
/-! ## Blocks -/

section Blocks
variable {fuel : Nat} {block : Block} {blocks : List Block} {tokens after out : List Token}

abbrev emptyLine : Token := .text .blankLine []

def readTokens (block : Block) : List Token := block.lines.map .rawText ++ [emptyLine]

/-- The tokens that the lines of a block become. The empty line behind a code block is taken with it. -/
def parsedTokens : Block → List Token
  | .paragraph first more => (first :: more).map (fun line => .rawText line.text) ++ [emptyLine]
  | .header level _ _ text => [.text (.header level) text.text, emptyLine]
  | .code first more => [.text .codeBlock ((first :: more).flatMap fun line => line.text ++ [10])]

theorem noUnderline_of_head {line : Bytes} {c : UInt8} (head : line.head? = some c)
    (other : (decide (c = 45) || decide (c = 61)) = false) : NoUnderline (.rawText line :: after) := by
  intro line' same
  obtain rfl := Option.some.inj same
  exact not_matches begins_cUnderlinedHeaders head other

theorem noUnderline_blank : NoUnderline (emptyLine :: after) := by
  intro line same
  cases same

theorem parseBlock_blank : parseBlock (fuel + 1) (emptyLine :: after) = .ok none := by
  have noList : parseListBlock (fuel + 1) false (emptyLine :: after) = .ok none := by
    rw [parseListBlock]
    rfl
  rw [parseBlock, noList]
  rfl

theorem processBlocksItems_keep {kind : TextKind} {text : Bytes}
    (none_ : parseBlock (fuel + 1) (.text kind text :: after) = .ok none)
    (rest : processBlocksItems fuel after = .ok out) :
    processBlocksItems (fuel + 1) (.text kind text :: after) = .ok (.text kind text :: out) := by
  rw [processBlocksItems, none_]
  change (processBlocksItems fuel after >>= fun processed => .ok (.text kind text :: processed)) = _
  rw [rest]
  rfl

theorem processBlocksItems_block {kind kind' : TextKind} {text text' : Bytes} {rest : List Token}
    (found : parseBlock (fuel + 1) (.text kind text :: after) = .ok (some (.text kind' text', rest)))
    (later : processBlocksItems fuel rest.tail = .ok out) :
    processBlocksItems (fuel + 1) (.text kind text :: after) = .ok (.text kind' text' :: out) := by
  rw [processBlocksItems, found]
  change (processBlocksItems fuel rest.tail >>= fun processed => .ok (.text kind' text' :: processed)) = _
  rw [later]
  rfl

theorem processBlocksItems_blank (rest : processBlocksItems fuel after = .ok out) :
    processBlocksItems (fuel + 1) (emptyLine :: after) = .ok (emptyLine :: out) :=
  processBlocksItems_keep parseBlock_blank rest

theorem processBlocksItems_paragraph (lines : List TextLine)
    (rest : processBlocksItems fuel (emptyLine :: after) = .ok out) :
    processBlocksItems (fuel + lines.length) (lines.map (fun line => .rawText line.text) ++ emptyLine :: after) =
      .ok (lines.map (fun line => .rawText line.text) ++ out) := by
  induction lines with
  | nil => exact rest
  | cons line lines ih =>
      obtain ⟨c, head, alpha⟩ := head?_of_any line.first
      have next : NoUnderline (lines.map (fun line => Token.rawText line.text) ++ emptyLine :: after) := by
        cases lines with
        | nil => exact noUnderline_blank
        | cons line' lines =>
            obtain ⟨d, head', alpha'⟩ := head?_of_any line'.first
            refine noUnderline_of_head head' ?_
            rw [decide_eq_false (ne_of_alpha alpha' rfl), decide_eq_false (ne_of_alpha alpha' rfl), Bool.or_false]
      exact processBlocksItems_keep (parseBlock_alpha head alpha next) ih

theorem codeBlockLines_codeLines (lines : List CodeLine) (noCode : isCodeBlockLine after = none) {n : Nat}
    (enough : lines.length < n) :
    codeBlockLines n (lines.map (fun line => .rawText (codeLine line.text)) ++ emptyLine :: after) =
      (lines.flatMap fun line => line.text ++ [10], emptyLine :: after) := by
  induction lines generalizing n with
  | nil =>
      obtain ⟨n, rfl⟩ : ∃ m, n = m + 1 := ⟨n - 1, by rw [List.length_nil] at enough; omega⟩
      have none_ : isCodeBlockLine (emptyLine :: after) = none := by
        change (isCodeBlockLine after).map _ = none
        rw [noCode]
        rfl
      rw [List.map_nil, List.nil_append, codeBlockLines, none_]
      rfl
  | cons line lines ih =>
      obtain ⟨n, rfl⟩ : ∃ m, n = m + 1 := ⟨n - 1, by rw [List.length_cons] at enough; omega⟩
      rw [List.map_cons, List.cons_append, codeBlockLines, isCodeBlockLine_indented]
      simp only
      rw [ih (by rw [List.length_cons] at enough; omega), List.flatMap_cons]

theorem processBlocksItems_code (first : CodeLine) (more : List CodeLine) (noCode : isCodeBlockLine after = none)
    (rest : processBlocksItems fuel after = .ok out) :
    processBlocksItems (fuel + 1)
        ((first :: more).map (fun line => .rawText (codeLine line.text)) ++ emptyLine :: after) =
      .ok (.text .codeBlock ((first :: more).flatMap fun line => line.text ++ [10]) :: out) := by
  have next : NoUnderline (more.map (fun line => Token.rawText (codeLine line.text)) ++ emptyLine :: after) := by
    cases more with
    | nil => exact noUnderline_blank
    | cons line more => exact noUnderline_of_head rfl rfl
  have found : parseCodeBlock ((first :: more).map (fun line => .rawText (codeLine line.text)) ++ emptyLine :: after) =
      some (.text .codeBlock ((first :: more).flatMap fun line => line.text ++ [10]), emptyLine :: after) := by
    have lines := codeBlockLines_codeLines (first :: more) noCode
      (n := ((first :: more).map (fun line => Token.rawText (codeLine line.text)) ++ emptyLine :: after).length)
      (by simp)
    rw [parseCodeBlock, lines]
    rfl
  rw [List.map_cons, List.cons_append]
  exact processBlocksItems_block ((parseBlock_codeLine next).trans (congrArg Except.ok found)) rest

theorem isCodeBlockLine_readTokens (blocks : List Block) (first : ∀ block ∈ blocks.head?, block.isCode = false) :
    isCodeBlockLine (blocks.flatMap readTokens) = none := by
  cases blocks with
  | nil => rfl
  | cons block blocks =>
      cases block with
      | paragraph line more =>
          obtain ⟨c, head, alpha⟩ := head?_of_any line.first
          exact isCodeBlockLine_shallow (by rw [head]; simpa using ne_of_alpha alpha (d := 32) rfl)
      | header level least most text =>
          obtain ⟨level, rfl⟩ : ∃ n, level = n + 1 := ⟨level - 1, by omega⟩
          exact isCodeBlockLine_shallow (by simp [List.replicate_succ])
      | code line more => cases first _ rfl

def lineCount (blocks : List Block) : Nat := (blocks.flatMap readTokens).length

theorem processBlocksItems_blocks (apart : blocks.IsChain fun a b => ¬ (a.isCode = true ∧ b.isCode = true))
    (enough : lineCount blocks ≤ fuel) :
    processBlocksItems fuel (blocks.flatMap readTokens) = .ok (blocks.flatMap parsedTokens) := by
  induction blocks generalizing fuel with
  | nil =>
      rw [List.flatMap_nil, List.flatMap_nil, processBlocksItems]
      rfl
  | cons block blocks ih =>
      rw [lineCount, List.flatMap_cons, List.length_append] at enough
      have rest := @ih (fuel - (readTokens block).length) apart.tail (by rw [lineCount]; omega)
      rw [List.flatMap_cons, List.flatMap_cons]
      obtain ⟨n, rfl⟩ : ∃ n, fuel = n + (readTokens block).length := ⟨fuel - (readTokens block).length, by omega⟩
      rw [Nat.add_sub_cancel] at rest
      cases block with
      | paragraph first more =>
          have lines := processBlocksItems_paragraph (first :: more) (processBlocksItems_blank rest)
          have length : n + (readTokens (.paragraph first more)).length = n + 1 + (first :: more).length := by
            simp [readTokens, Block.lines]
            omega
          have tokens_ : readTokens (.paragraph first more) ++ blocks.flatMap readTokens =
              (first :: more).map (fun line => .rawText line.text) ++ emptyLine :: blocks.flatMap readTokens := by
            simp [readTokens, Block.lines]
          rw [length, tokens_, lines]
          simp [parsedTokens]
      | header level least most text =>
          have found : parseBlock (n + 2) (.rawText (headerLine level text.text) :: emptyLine :: blocks.flatMap readTokens) =
              .ok (some (.text (.header level) text.text,
                .rawText (headerLine level text.text) :: emptyLine :: blocks.flatMap readTokens)) := by
            rw [parseBlock, parseHeader_headerLine least most text.first text.last]
            rfl
          exact processBlocksItems_block found (processBlocksItems_blank rest)
      | code first more =>
          have next : ∀ block ∈ blocks.head?, block.isCode = false := by
            intro block mem
            simpa [Block.isCode] using apart.rel_head? mem
          have length : (readTokens (.code first more)).length = more.length + 2 := by
            simp [readTokens, Block.lines]
          rw [length] at enough ⊢
          have later := @ih (n + more.length + 1) apart.tail (by rw [lineCount]; omega)
          have tokens_ : readTokens (.code first more) ++ blocks.flatMap readTokens =
              (first :: more).map (fun line => .rawText (codeLine line.text)) ++
                emptyLine :: blocks.flatMap readTokens := by
            simp [readTokens, Block.lines]
          rw [tokens_]
          exact processBlocksItems_code first more (isCodeBlockLine_readTokens blocks next) later

end Blocks

/-! ## Paragraphs -/

section Paragraphs
variable {tokens : List Token} {block : Block} {blocks : List Block}

def paragraphText (first : TextLine) (more : List TextLine) : Bytes :=
  first.text ++ more.flatMap fun line => 32 :: line.text

def joinedTokens : Block → List Token
  | .paragraph first more => [.container .paragraph [.rawText (paragraphText first more)], emptyLine]
  | .header level _ _ text => [.text (.header level) text.text, emptyLine]
  | .code first more => [.text .codeBlock ((first :: more).flatMap fun line => line.text ++ [10])]

theorem joinParagraphLines_line {text : Bytes} (paragraph : Bytes) (tokens : List Token) (last : ¬ [32, 32] <:+ text) :
    joinParagraphLines false paragraph (.rawText text :: tokens) =
      joinParagraphLines false ((if paragraph = [] then [] else paragraph ++ [32]) ++ text) tokens := by
  have none_ : cLineBreak.fullMatch text = none := by
    rw [fullMatch_eq_none_iff]
    intro t mem done
    have two : str "  " = all [.one (· = 32), .one (· = 32)] := rfl
    simp only [cLineBreak, two, mem_ends_all_cons, mem_ends_all_nil, mem_ends_group, mem_ends_one, lineStart, lineEnd,
      mem_ends_edge] at mem
    obtain ⟨s, ⟨rfl, -⟩, u, ⟨v, contents, rfl⟩, _, ⟨_, ⟨c, head, same, rfl⟩, _, ⟨d, head', same', rfl⟩, rfl⟩, _,
      ⟨rfl, -⟩, rfl⟩ := mem
    obtain ⟨j, -, -, rfl⟩ := mem_ends_rep_one.mp contents
    obtain rfl := of_decide_eq_true same
    obtain rfl := of_decide_eq_true same'
    change (text.drop j).head? = some 32 at head
    change ((text.drop j).drop 1).head? = some 32 at head'
    change ((text.drop j).drop 1).drop 1 = [] at done
    have tail : text.drop j = [32, 32] := by
      rw [List.head?_eq_some_iff] at head head'
      obtain ⟨rest, here⟩ := head
      simp only [here, List.drop_one, List.tail_cons] at head' done
      obtain ⟨rest', here'⟩ := head'
      rw [here', List.tail_cons] at done
      rw [here, here', done]
    exact last ⟨text.take j, by rw [← tail, List.take_append_drop]⟩
  have line : paragraphLine (.rawText text) = some text := rfl
  rw [joinParagraphLines, line]
  simp only [none_]

theorem joinParagraphLines_lines {paragraph : Bytes} (tokens : List Token) (some_ : paragraph ≠ []) (more : List TextLine) :
    joinParagraphLines false paragraph (more.map (fun line => .rawText line.text) ++ emptyLine :: tokens) =
      .container .paragraph [.rawText (paragraph ++ more.flatMap fun line => 32 :: line.text)] :: emptyLine ::
        joinParagraphLines false [] tokens := by
  induction more generalizing paragraph with
  | nil =>
      rw [List.map_nil, List.nil_append, joinParagraphLines]
      simp [paragraphLine, Token.canContainMarkup, TextKind.canContainMarkup, flushParagraph, some_]
  | cons line more ih =>
      rw [List.map_cons, List.cons_append, joinParagraphLines_line _ _ line.last, if_neg some_, ih (by simp [some_])]
      simp [List.append_assoc]

theorem joinParagraphLines_blocks (blocks : List Block) :
    joinParagraphLines false [] (blocks.flatMap parsedTokens) = blocks.flatMap joinedTokens := by
  induction blocks with
  | nil => rfl
  | cons block blocks ih =>
      rw [List.flatMap_cons, List.flatMap_cons, ← ih]
      cases block with
      | paragraph first more =>
          have some_ : first.text ≠ [] := by
            intro none_
            have head := first.first
            rw [none_] at head
            cases head
          have lines := joinParagraphLines_lines (blocks.flatMap parsedTokens) some_ more
          simp only [parsedTokens, List.map_cons, List.cons_append, List.append_assoc, List.nil_append]
          rw [joinParagraphLines_line _ _ first.last, if_pos rfl, List.nil_append, lines]
          rfl
      | header level least most text => rfl
      | code first more => rfl

theorem processAllParagraphLines_blocks (blocks : List Block) :
    Token.processAllParagraphLines (blocks.flatMap parsedTokens) = blocks.flatMap parsedTokens := by
  have flat : ∀ tokens : List Token, (∀ token ∈ tokens, ∃ kind text, token = .text kind text) →
      Token.processAllParagraphLines tokens = tokens := by
    intro tokens all_
    induction tokens with
    | nil => rw [Token.processAllParagraphLines]
    | cons token tokens ih =>
        obtain ⟨⟨kind, text, rfl⟩, others⟩ := List.forall_mem_cons.mp all_
        rw [Token.processAllParagraphLines, ih others, Token.processParagraphLines]
        simp
  apply flat
  intro token mem
  obtain ⟨block, -, inside⟩ := List.mem_flatMap.mp mem
  cases block with
  | paragraph first more =>
      rcases List.mem_append.mp inside with line | blank_
      · obtain ⟨line, -, rfl⟩ := List.mem_map.mp line
        exact ⟨_, _, rfl⟩
      · exact ⟨_, _, List.mem_singleton.mp blank_⟩
  | header level least most text =>
      simp only [parsedTokens, List.mem_cons, List.not_mem_nil, or_false] at inside
      rcases inside with rfl | rfl <;> exact ⟨_, _, rfl⟩
  | code first more => exact ⟨_, _, List.mem_singleton.mp inside⟩

end Paragraphs

/-! ## Spans -/

section Spans
variable {fuel : Nat} {text : Bytes} {idTable : LinkIds} {replacements : ReplacementTable} {c : UInt8}

def NoSpans (text : Bytes) : Prop := ∀ c ∈ text, c ≠ 1 ∧ c ≠ 60 ∧ c ≠ 96 ∧ c ≠ 92 ∧ c ≠ 91

theorem searchEach_none {p : Pattern UInt8} {f : UInt8 → Bool} (needs : Needs f p) (none_ : ∀ c ∈ text, f c = false) :
    searchEach p text = .ok ([], text) := by
  rw [searchEach, searchAll_of_none (search_eq_none_of_needs needs none_)]
  rfl

theorem needs_chr {c : Char} {f : UInt8 → Bool} (holds : f (UInt8.ofNat c.toNat) = true) : Needs f (chr c) := by
  intro s t span mem reads
  obtain ⟨d, here, same⟩ := needs_one s t span mem reads
  exact ⟨d, here, by rw [of_decide_eq_true same]; exact holds⟩

theorem processHtmlTagAttributes_none (noSpans : NoSpans text) :
    processHtmlTagAttributes text replacements = .ok (text, replacements) := by
  have needs : Needs (fun c => decide (c = 60)) cHtmlToken := .seq_left (needs_chr rfl)
  rw [processHtmlTagAttributes, searchEach_none needs fun c mem => decide_eq_false (noSpans c mem).2.1]
  rfl

theorem processCodeSpans_none (noSpans : NoSpans text) :
    processCodeSpans text replacements = .ok (text, replacements) := by
  have one_ : ∀ p, Needs (fun c => decide (c = 96)) p → replaceCodeSpans text replacements p = .ok (text, replacements) := by
    intro p needs
    rw [replaceCodeSpans, searchEach_none needs fun c mem => decide_eq_false (noSpans c mem).2.2.1]
    rfl
  have double := one_ (all [unescaped, str "`` ", .group 1 (lazyPlus any), str " ``"])
    (.seq_right (.seq_left (.seq_left needs_one)))
  have single := one_ (all [unescaped, chr '`', .group 1 (lazyPlus any), chr '`'])
    (.seq_right (.seq_left (needs_chr rfl)))
  exact foldlM_cons_eq_ok.mpr ⟨_, double, foldlM_cons_eq_ok.mpr ⟨_, single, rfl⟩⟩

theorem processEscapedCharacters_none (noSpans : NoSpans text) : processEscapedCharacters text = text := by
  fun_induction processEscapedCharacters text with
  | case1 => rfl
  | case2 => rfl
  | case3 c src ih => exact absurd rfl (noSpans 92 List.mem_cons_self).2.2.2.1
  | case4 c src _ _ ih => rw [ih fun d mem => noSpans d (List.mem_cons_of_mem c mem)]

theorem processLinksImagesAndTags_none (noSpans : NoSpans text) :
    processLinksImagesAndTags text replacements idTable = .ok (text, replacements) := by
  have needs : Needs (fun c => decide (c = 91) || decide (c = 60)) cLinkExpression := by
    refine .alt ?_ (.alt ?_ ?_)
    · exact .seq_right (.seq_left (needs_chr rfl))
    · exact .seq_right (.seq_left (needs_chr rfl))
    · exact .seq_left (needs_chr rfl)
  have none_ : cLinkExpression.search text = none := by
    refine search_eq_none_of_needs needs fun c mem => ?_
    rw [decide_eq_false (noSpans c mem).2.2.2.2, decide_eq_false (noSpans c mem).2.1, Bool.or_false]
  rw [processLinksImagesAndTags, linksLoop, none_]
  rfl

theorem processRawText_noSpans (noSpans : NoSpans text) :
    processRawText fuel idTable text = processBoldAndItalicSpans fuel text [] := by
  rw [processRawText, processHtmlTagAttributes_none noSpans]
  change (processCodeSpans text [] >>= _) = _
  rw [processCodeSpans_none noSpans]
  change (processLinksImagesAndTags (processEscapedCharacters text) [] idTable >>= _) = _
  rw [processEscapedCharacters_none noSpans, processLinksImagesAndTags_none noSpans]
  rfl

theorem encodeProcessedItems_none (replacements : List Token) (noSpans : NoSpans text) (some_ : text ≠ []) :
    encodeProcessedItems text replacements = .ok [.rawText text] := by
  have needs : Needs (fun c => decide (c = 1)) cReplaced := .seq_left needs_one
  rw [encodeProcessedItems, searchEach_none needs fun c mem => decide_eq_false (noSpans c mem).1]
  change Except.ok ([] ++ rawTextUnlessEmpty text) = _
  rw [rawTextUnlessEmpty, if_neg some_]
  rfl

theorem noSpans_of_ordinary (ordinary : ∀ c ∈ text, isOrdinary c = true) : NoSpans text := fun c mem =>
  have ne : ∀ d, isOrdinary d = false → c ≠ d := fun _ other => ordinary_ne (ordinary c mem) other
  ⟨ne 1 rfl, ne 60 rfl, ne 96 rfl, ne 92 rfl, ne 91 rfl⟩

theorem emphasise_ordinary (ordinary : ∀ c ∈ text, isOrdinary c = true) (some_ : text ≠ []) (enough : 2 ≤ fuel) :
    emphasise fuel text = .ok [.rawText text] := by
  have none_ : ∀ c ∈ text, isMarkerChar c = false := by
    intro c mem
    have ne : ∀ d, isOrdinary d = false → c ≠ d := fun _ other => ordinary_ne (ordinary c mem) other
    simp [isMarkerChar, ne 42 rfl, ne 95 rfl]
  have scan : emphasisScan text = .ok [.rawText text] := by
    rw [emphasisScan, searchEach_none needs_cEmphasisExpression none_]
    change Except.ok ([] ++ rawTextUnlessEmpty text) = _
    rw [rawTextUnlessEmpty, if_neg some_]
    rfl
  obtain ⟨fuel, rfl⟩ : ∃ n, fuel = n + 2 := ⟨fuel - 2, by omega⟩
  rw [emphasise_eq scan]
  rfl

theorem processRawText_ordinary (ordinary : ∀ c ∈ text, isOrdinary c = true) (some_ : text ≠ []) (enough : 2 ≤ fuel) :
    processRawText fuel idTable text = .ok [.rawText text] := by
  have noSpans := noSpans_of_ordinary ordinary
  have items := encodeProcessedItems_none [] noSpans some_
  rw [processRawText_noSpans noSpans, processBoldAndItalicSpans, emphasise_ordinary ordinary some_ enough]
  simp only [bind, Except.bind, List.mapM_cons, List.mapM_nil, Token.rawText] at items ⊢
  rw [items]
  rfl

end Spans

/-! ## Documents -/

section Documents
variable {fuel : Nat} {idTable : LinkIds} {block : Block} {blocks : List Block}

theorem paragraphText_ordinary (first : TextLine) (more : List TextLine) :
    ∀ c ∈ paragraphText first more, isOrdinary c = true := by
  intro c mem
  rcases List.mem_append.mp mem with mem | mem
  · exact first.ordinary c mem
  · obtain ⟨line, -, inside⟩ := List.mem_flatMap.mp mem
    rcases List.mem_cons.mp inside with rfl | inside
    · rfl
    · exact line.ordinary c inside

theorem paragraphText_ne_nil (first : TextLine) (more : List TextLine) : paragraphText first more ≠ [] := by
  obtain ⟨c, head, -⟩ := head?_of_any first.first
  intro none_
  rw [(List.append_eq_nil_iff.mp none_).1] at head
  cases head

theorem processSpanElements_paragraph (first : TextLine) (more : List TextLine) (enough : 2 ≤ fuel) :
    Token.processSpanElements fuel idTable (.container .paragraph [.rawText (paragraphText first more)]) =
      .ok (some (.container .paragraph [.rawText (paragraphText first more)])) := by
  have text_ : processRawText fuel idTable (paragraphText first more) = .ok [.rawText (paragraphText first more)] :=
    processRawText_ordinary (paragraphText_ordinary first more) (paragraphText_ne_nil first more) enough
  have raw : Token.processSpanElements fuel idTable (.rawText (paragraphText first more)) =
      .ok (some (.rawText (paragraphText first more))) := by
    rw [Token.rawText, Token.processSpanElements, text_]
    rfl
  rw [Token.processSpanElements, Token.processAllSpanElements, raw]
  rfl

theorem processAllSpanElements_same {tokens : List Token}
    (same : ∀ token ∈ tokens, Token.processSpanElements fuel idTable token = .ok (some token)) :
    Token.processAllSpanElements fuel idTable tokens = .ok tokens := by
  induction tokens with
  | nil =>
      rw [Token.processAllSpanElements]
      rfl
  | cons token tokens ih =>
      obtain ⟨here, others⟩ := List.forall_mem_cons.mp same
      rw [Token.processAllSpanElements, here, ih others]
      rfl

theorem processAllSpanElements_blocks (enough : 2 ≤ fuel) :
    Token.processAllSpanElements fuel idTable (blocks.flatMap joinedTokens) = .ok (blocks.flatMap joinedTokens) := by
  refine processAllSpanElements_same fun token mem => ?_
  obtain ⟨block, -, inside⟩ := List.mem_flatMap.mp mem
  cases block with
  | paragraph first more =>
      simp only [joinedTokens, List.mem_cons, List.not_mem_nil, or_false] at inside
      rcases inside with rfl | rfl
      · exact processSpanElements_paragraph first more enough
      · rfl
  | header level least most text =>
      simp only [joinedTokens, List.mem_cons, List.not_mem_nil, or_false] at inside
      rcases inside with rfl | rfl <;> rfl
  | code first more =>
      obtain rfl := List.mem_singleton.mp inside
      rfl

/-! ### HTML -/

theorem encodeString_ordinary {flags : EncodingFlags} {text : Bytes} (ordinary : ∀ c ∈ text, isOrdinary c = true) :
    encodeString flags text = text := by
  induction text with
  | nil => rfl
  | cons c text ih =>
      obtain ⟨here, others⟩ := List.forall_mem_cons.mp ordinary
      have ne : ∀ d, isOrdinary d = false → c ≠ d := fun _ other => ordinary_ne here other
      rw [encodeString, ih others]
      simp [ne 38 rfl, ne 60 rfl, ne 62 rfl, ne 34 rfl]

theorem encodeString_code (text : Bytes) : encodeString TextKind.codeBlock.encodingFlags text = text.flatMap Block.escape := by
  induction text with
  | nil => rfl
  | cons c text ih =>
      rw [encodeString, ih, List.flatMap_cons]
      simp [TextKind.encodingFlags, Block.escape]

theorem writeAllAsHtml_append (before after : List Token) :
    Token.writeAllAsHtml (before ++ after) = Token.writeAllAsHtml before ++ Token.writeAllAsHtml after := by
  induction before with
  | nil => rw [List.nil_append, Token.writeAllAsHtml, List.nil_append]
  | cons token before ih =>
      rw [List.cons_append, Token.writeAllAsHtml, ih, Token.writeAllAsHtml, List.append_assoc]

theorem writeAllAsHtml_joinedTokens (block : Block) : Token.writeAllAsHtml (joinedTokens block) = block.html := by
  have empty : emptyLine.writeAsHtml = [] := by
    rw [Token.writeAsHtml]
    rfl
  cases block with
  | paragraph first more =>
      have text_ : (Token.rawText (paragraphText first more)).writeAsHtml = paragraphText first more := by
        rw [Token.rawText, Token.writeAsHtml, encodeString_ordinary (paragraphText_ordinary first more)]
        simp [TextKind.preWrite, TextKind.postWrite]
      simp only [joinedTokens, Token.writeAllAsHtml, empty, List.append_nil]
      rw [Token.writeAsHtml, Token.writeAllAsHtml, text_, Token.writeAllAsHtml, List.append_nil]
      rfl
  | header level least most text =>
      simp only [joinedTokens, Token.writeAllAsHtml, empty, List.append_nil]
      rw [Token.writeAsHtml, encodeString_ordinary text.ordinary]
      simp [TextKind.preWrite, TextKind.postWrite, Block.html, List.append_assoc]
  | code first more =>
      simp only [joinedTokens, Token.writeAllAsHtml, List.append_nil]
      rw [Token.writeAsHtml, encodeString_code, List.flatMap_assoc]
      have lines : ((first :: more).flatMap fun line => (line.text ++ [10]).flatMap Block.escape) =
          (first :: more).flatMap fun line => line.text.flatMap Block.escape ++ [10] := by
        congr 1
        funext line
        rw [List.flatMap_append]
        rfl
      rw [lines]
      rfl

theorem writeAllAsHtml_blocks (blocks : List Block) :
    Token.writeAllAsHtml (blocks.flatMap joinedTokens) = blocks.flatMap Block.html := by
  induction blocks with
  | nil => rfl
  | cons block blocks ih =>
      rw [List.flatMap_cons, writeAllAsHtml_append, writeAllAsHtml_joinedTokens, ih, List.flatMap_cons]

theorem verbatim_lines (document : PlainDocument) : ∀ line ∈ document.lines, ReadVerbatim line := by
  intro line mem
  obtain ⟨block, here, inside⟩ := List.mem_flatMap.mp mem
  rcases List.mem_append.mp inside with inside | empty
  · exact (readAs_lines block line inside).verbatim
  · obtain rfl := List.mem_singleton.mp empty
    exact fun c mem => nomatch mem

theorem map_lineToken_lines (document : PlainDocument) :
    document.lines.map lineToken = document.blocks.flatMap readTokens := by
  rw [PlainDocument.lines, List.map_flatMap]
  apply List.flatMap_congr
  intro block _
  rw [List.map_append, readTokens]
  congr 1
  apply List.map_congr_left
  intro line mem
  rw [lineToken, (readAs_lines block line mem).shown]
  rfl

theorem inert_readTokens (document : PlainDocument) :
    ∀ token ∈ document.blocks.flatMap readTokens, InertToken token := by
  intro token mem
  obtain ⟨block, here, inside⟩ := List.mem_flatMap.mp mem
  rcases List.mem_append.mp inside with inside | empty
  · obtain ⟨line, mem', rfl⟩ := List.mem_map.mp inside
    exact (readAs_lines block line mem').inert
  · rw [List.mem_singleton.mp empty]
    exact inert_blankLine

theorem process_plainDocument (document : PlainDocument) (enough : document.lines.length + 2 ≤ fuel) :
    process fuel (readDocument document.text) =
      .ok (some (.container .container (document.blocks.flatMap joinedTokens))) := by
  have inert := inert_readTokens document
  have count : lineCount document.blocks = document.lines.length := by
    rw [lineCount, ← map_lineToken_lines, List.length_map]
  have blocks_ : processBlocksItems fuel (document.blocks.flatMap readTokens) =
      .ok (document.blocks.flatMap parsedTokens) := processBlocksItems_blocks document.apart (by omega)
  have read : readDocument document.text = document.blocks.flatMap readTokens := by
    rw [PlainDocument.text, readDocument_verbatim (verbatim_lines document), map_lineToken_lines]
  have references : processInlineHtmlAndReferences fuel [] ∅ (document.blocks.flatMap readTokens) =
      .ok ([] ++ document.blocks.flatMap readTokens, ∅) :=
    processInlineHtmlAndReferences_inert inert (by rw [lineCount] at count; omega)
  have joined : (Token.container .container (document.blocks.flatMap parsedTokens)).processParagraphLines =
      .container .container (document.blocks.flatMap joinedTokens) := by
    rw [Token.processParagraphLines, processAllParagraphLines_blocks]
    exact congrArg _ (joinParagraphLines_blocks document.blocks)
  have spans : (Token.container .container (document.blocks.flatMap joinedTokens)).processSpanElements fuel ∅ =
      .ok (some (.container .container (document.blocks.flatMap joinedTokens))) := by
    rw [Token.processSpanElements, processAllSpanElements_blocks (by omega)]
    rfl
  rw [process, read, mergeMultilineHtmlTags_inert inert, references]
  change (processBlocksItems fuel (document.blocks.flatMap readTokens) >>= _) = _
  rw [blocks_]
  change (Token.container .container (document.blocks.flatMap parsedTokens)).processParagraphLines.processSpanElements
    fuel ∅ = _
  rw [joined, spans]

theorem writeAsHtml_joinedTokens (document : PlainDocument) :
    (Token.container .container (document.blocks.flatMap joinedTokens)).writeAsHtml = document.html := by
  rw [Token.writeAsHtml, writeAllAsHtml_blocks]
  simp [ContainerKind.preWrite, ContainerKind.postWrite, PlainDocument.html]

/-- A plain document is converted to its HTML. -/
theorem render_plainDocument (document : PlainDocument) (enough : document.lines.length + 2 ≤ fuel) :
    render fuel document.text = .ok document.html := by
  rw [render, process_plainDocument document enough]
  change Except.ok (Token.container .container (document.blocks.flatMap joinedTokens)).writeAsHtml = _
  rw [writeAsHtml_joinedTokens]

end Documents

/-! ## A header, a paragraph and code -/

def sampleDocument : PlainDocument where
  blocks :=
    [.header 1 (by decide) (by decide)
        { text := bytes "Title", first := rfl, ordinary := List.all_eq_true.mp rfl, last := rfl },
      .paragraph
        { text := bytes "One line", first := rfl, ordinary := List.all_eq_true.mp rfl, last := by decide }
        [{ text := bytes "and more.", first := rfl, ordinary := List.all_eq_true.mp rfl, last := by decide }],
      .code
        { text := bytes "a < b"
          inLine := by simp [bytes]
          shown := ⟨97, by decide, by decide⟩ }
        []]
  apart := by simp [Block.isCode]

theorem render_sampleDocument : render 9 sampleDocument.text = .ok sampleDocument.html :=
  render_plainDocument sampleDocument (by decide)

example : sampleDocument.html = bytes "<h1>Title</h1>\n" ++ bytes "<p>One line and more.</p>\n\n" ++
    bytes "<pre><code>a &lt; b\n</code></pre>\n\n" := by rfl

end TscServer.Proof
