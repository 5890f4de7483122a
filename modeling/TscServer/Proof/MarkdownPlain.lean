import TscServer.Proof.MarkdownLines
import TscServer.Spec.MarkdownFragment

/-!
# Lines of plain documents

What the blocks of a plain document are taken for, line by line: no line of text begins a block, a header is
one, and an indented line belongs to a code block.
-/

namespace TscServer.Proof
open Lib Pattern Model Markdown Spec

section Heads
variable {c : UInt8} {line : Bytes} {f : UInt8 → Bool}

theorem ne_of_alpha {d : UInt8} (alpha : isalpha c = true) (other : isalpha d = false) : c ≠ d := by
  rintro rfl
  rw [alpha] at other
  cases other

theorem not_contains_of_alpha {chars : String} (alpha : isalpha c = true)
    (others : (bytes chars).any isalpha = false) : (bytes chars).contains c = false := by
  rw [Bool.eq_false_iff, ne_eq, List.contains_iff_mem]
  intro mem
  rw [List.any_eq_false] at others
  exact others c mem alpha

theorem not_digit_of_alpha (alpha : isalpha c = true) : isDigit c = false := by
  simp only [isalpha, Bool.or_eq_true, Bool.and_eq_true, decide_eq_true_eq, UInt8.le_iff_toNat_le] at alpha
  simp only [isDigit, Bool.and_eq_false_iff, decide_eq_false_iff_not, UInt8.le_iff_toNat_le]
  simp only [UInt8.reduceToNat] at *
  omega

theorem any_head?_of_eq (head : line.head? = some c) (other : f c = false) : line.head?.any f = false := by
  rw [head, Option.any_some, other]

theorem not_matches {p : Pattern UInt8} (begins : Begins f p) (head : line.head? = some c) (other : f c = false) :
    p.fullMatch line = none := fullMatch_eq_none_of_begins begins (any_head?_of_eq head other)

end Heads

/-! ## Lines of text -/

section Text
variable {c : UInt8} {line : Bytes} {after : List Token}

def NoUnderline (after : List Token) : Prop :=
  ∀ line, after.head?.bind markupLine = some line → cUnderlinedHeaders.fullMatch line = none

theorem parseHeader_of_none (markup : markupLine (.rawText line) = some line)
    (hash : cHashHeaders.fullMatch line = none) (next : NoUnderline after) :
    parseHeader (.rawText line :: after) = none := by
  rw [parseHeader, markup, Option.bind_some]
  simp only [hash]
  rw [Option.map_eq_none_iff, Option.bind_eq_none_iff]
  exact next

theorem markupLine_rawText : markupLine (.rawText line) = some line := rfl

theorem isCodeBlockLine_indented {text : Bytes} :
    isCodeBlockLine (.rawText (32 :: 32 :: 32 :: 32 :: text) :: after) = some (text, after) := rfl

theorem isCodeBlockLine_shallow (shallow : line.head? ≠ some 32) : isCodeBlockLine (.rawText line :: after) = none := by
  rw [isCodeBlockLine, if_neg (c := (Token.rawText line).isBlankLine = true) Bool.false_ne_true,
    if_pos (c := (Token.rawText line).canContainMarkup = true) rfl]
  split
  · rename_i indented
    obtain rfl := Option.some.inj indented
    exact absurd rfl shallow
  · rfl

theorem parseBlock_of_none {fuel : Nat} (hash : cHashHeaders.fullMatch line = none) (next : NoUnderline after)
    (rule : cHorizontalRules.fullMatch line = none) (list : listStart false line = none)
    (quote_ : cBlockQuoteExpression.fullMatch line = none) :
    parseBlock (fuel + 1) (.rawText line :: after) = .ok (parseCodeBlock (.rawText line :: after)) := by
  have noRule : parseHorizontalRule (.rawText line :: after) = none := by
    rw [parseHorizontalRule, List.head?_cons, Option.bind_some, markupLine_rawText, Option.bind_some, matches?, rule]
    rfl
  have noList : parseListBlock (fuel + 1) false (.rawText line :: after) = .ok none := by
    rw [parseListBlock, markupLine_rawText, Option.bind_some, list]
    rfl
  have noQuote : parseBlockQuote (.rawText line :: after) = .ok none := by
    rw [parseBlockQuote, markupLine_rawText, Option.bind_some, quote_]
    rfl
  rw [parseBlock, parseHeader_of_none markupLine_rawText hash next, noRule, noList, noQuote]
  rfl

theorem parseCodeBlock_shallow (after : List Token) (shallow : line.head? ≠ some 32) : parseCodeBlock (.rawText line :: after) = none := by
  rw [parseCodeBlock, isCodeBlockLine_shallow shallow]
  rfl

theorem listStart_none (unordered : cUnorderedListExpression.fullMatch line = none)
    (ordered : cOrderedListExpression.fullMatch line = none) (sub : Bool) : listStart sub line = none := by
  rw [listStart, unordered]
  simp only [ordered]
  rfl

theorem parseBlock_alpha {fuel : Nat} (head : line.head? = some c) (alpha : isalpha c = true)
    (next : NoUnderline after) : parseBlock (fuel + 1) (.rawText line :: after) = .ok none := by
  have apart : ∀ d, isalpha d = false → c ≠ d := fun d other => ne_of_alpha alpha other
  have shallow : line.head? ≠ some 32 := by
    rw [head]
    simpa using apart 32 rfl
  rw [← parseCodeBlock_shallow after shallow]
  refine parseBlock_of_none (not_matches begins_cHashHeaders head ?_) next
    (not_matches begins_cHorizontalRules head ?_)
    (listStart_none (not_matches begins_cUnorderedListExpression head ?_)
      (not_matches begins_cOrderedListExpression head ?_) false)
    (not_matches begins_cBlockQuoteExpression head ?_)
  · simpa using apart 35 rfl
  · rw [not_contains_of_alpha alpha rfl, decide_eq_false (apart 32 rfl), Bool.or_false]
  · rw [not_contains_of_alpha alpha rfl, decide_eq_false (apart 32 rfl), Bool.or_false]
  · rw [not_digit_of_alpha alpha, decide_eq_false (apart 32 rfl), Bool.or_false]
  · rw [decide_eq_false (apart 62 rfl), decide_eq_false (apart 32 rfl), Bool.or_false]

theorem isBlankLine_of_head (head : line.head? = some c) (notBlank : c ≠ 32) (notTag : c ≠ 60) :
    isBlankLine line = false := by
  have some_ : line ≠ [] := by
    rintro rfl
    cases head
  rw [isBlankLine, matches?, fullMatch_eq_none_of_mayBegin mayBegin_cBlankLine some_]
  · rfl
  · exact any_head?_of_eq head (by rw [decide_eq_false notBlank, decide_eq_false notTag, Bool.or_false])

theorem parseInlineHtml_none (inLine : InLine line) (notTag : line.head? ≠ some 60) :
    parseInlineHtml (.rawText line :: after) = .ok none := by
  have other : line.head?.any (fun c => decide (c = 60)) = false := by
    cases head : line.head? with
    | none => rfl
    | some c =>
        rw [Option.any_some, decide_eq_false_iff_not]
        rintro rfl
        exact notTag head
  have noTag : cStartHtmlTokenExpression.search line = none :=
    search_lineStart inLine (ends_eq_nil_of_begins (.seq begins_cHtmlTokenExpression) other)
  have noComment : isHtmlCommentStart line = false := by
    have none_ : (all [lineStart, str "<!--"]).search line = none :=
      search_lineStart inLine (ends_eq_nil_of_begins (.seq (.seq begins_one)) other)
    rw [isHtmlCommentStart, none_]
    rfl
  rw [parseInlineHtml]
  simp [Token.rawText, Token.text?, noTag, noComment]
  rfl

end Text

/-! ## Headers -/

section Headers
variable {level : Nat} {text : Bytes} {after : List Token}

abbrev headerLine (level : Nat) (text : Bytes) : Bytes := List.replicate level 35 ++ 32 :: text

theorem takeWhile_headerLine : (headerLine level text).takeWhile (· = 35) = List.replicate level 35 := by
  rw [List.takeWhile_append_of_pos fun c mem => by simp [List.eq_of_mem_replicate mem],
    List.takeWhile_cons_of_neg (by decide), List.append_nil]

theorem mem_takeWhile_of_le {f : UInt8 → Bool} {l : Bytes} {n : Nat} {d : UInt8} (le : n ≤ runLength f none l)
    (mem : d ∈ l.take n) : f d = true := by
  have inside : l.take n = (l.takeWhile f).take n := by
    conv_lhs => rw [← List.takeWhile_append_dropWhile (p := f) (l := l)]
    rw [List.take_append_of_le_length le]
  rw [inside] at mem
  exact List.mem_takeWhile_imp (List.mem_of_mem_take mem)

theorem mem_ends_cHashHeaders {t : Spot UInt8} (mem : t ∈ cHashHeaders.ends (.start (headerLine level text)))
    (first : text.head?.any isalpha = true) (last : text.getLast?.any (fun c => c = 32 || c = 35) = false)
    (done : t.rest = []) :
    t.groups 1 = some (List.replicate level 35) ∧ t.groups 2 = some text := by
  simp only [cHashHeaders, lineStart, lineEnd, chr, blank, spaces, Pattern.star, Pattern.plus, Pattern.lazyStar,
    Pattern.between, Pattern.any, mem_ends_all_cons, mem_ends_all_nil, mem_ends_group, mem_ends_rep_one, mem_ends_edge] at mem
  obtain ⟨s, ⟨rfl, -⟩, u, ⟨_, ⟨n, -, le₁, rfl⟩, hu⟩, v, ⟨k, pos, le₂, rfl⟩, w, ⟨_, ⟨j, -, -, rfl⟩, hw⟩,
    x, ⟨b, -, le₃, rfl⟩, y, ⟨h, -, le₄, rfl⟩, _, ⟨rfl, -⟩, rfl⟩ := mem
  have le : n ≤ level := by
    have most := le₁.trans (Nat.min_le_left _ _)
    change n ≤ ((headerLine level text).takeWhile (· = 35)).length at most
    rwa [takeWhile_headerLine, List.length_replicate] at most
  have rest_u : u.rest = List.replicate (level - n) 35 ++ 32 :: text := by
    rw [← hu]
    change (headerLine level text).drop n = _
    rw [List.drop_append_of_le_length (by simpa using le), List.drop_replicate]
  have whole : n = level := by
    by_contra short
    obtain ⟨m, more⟩ : ∃ m, level - n = m + 1 := ⟨level - n - 1, by omega⟩
    rw [rest_u, more, List.replicate_succ, List.cons_append, runLength, Option.elim_none,
      List.takeWhile_cons_of_neg (by decide), List.length_nil] at le₂
    omega
  subst whole
  obtain ⟨c, text, rfl⟩ : ∃ c rest, text = c :: rest := by
    cases text with
    | nil => cases first
    | cons c text => exact ⟨c, text, rfl⟩
  have alpha : isalpha c = true := first
  rw [Nat.sub_self, List.replicate_zero, List.nil_append] at rest_u
  have one_ : k = 1 := by
    rw [rest_u, runLength, Option.elim_none, List.takeWhile_cons_of_pos (by decide),
      List.takeWhile_cons_of_neg (by simpa using ne_of_alpha alpha (by decide))] at le₂
    simp only [List.length_cons, List.length_nil] at le₂
    omega
  subst one_
  have rest_w : w.rest = (c :: text).drop j := by
    rw [← hw]
    change (u.rest.drop 1).drop j = _
    rw [rest_u]
    rfl
  have blanks : ∀ d ∈ w.rest, d = 32 ∨ d = 35 := by
    intro d mem
    rw [Spot.rest_take, Spot.rest_take, List.drop_drop, List.drop_eq_nil_iff] at done
    rw [← List.take_append_drop b w.rest] at mem
    rcases List.mem_append.mp mem with mem | mem
    · have inside := mem_takeWhile_of_le le₃ mem
      exact .inl (of_decide_eq_true inside)
    · rw [← List.take_of_length_le (l := w.rest.drop b) (i := h) (by rw [List.length_drop]; omega)] at mem
      have inside := mem_takeWhile_of_le le₄ mem
      exact .inr (of_decide_eq_true inside)
  have all_ : (c :: text).drop j = [] := by
    rw [List.eq_nil_iff_forall_not_mem]
    intro d mem
    have some_ : (c :: text).drop j ≠ [] := List.ne_nil_of_mem mem
    have end_ : (c :: text).getLast? = some (((c :: text).drop j).getLast some_) := by
      conv_lhs => rw [← List.take_append_drop j (c :: text)]
      rw [List.getLast?_append_of_ne_nil _ some_, List.getLast?_eq_some_getLast some_]
    have either := blanks _ (by rw [rest_w]; exact List.getLast_mem some_)
    rw [end_, Option.any_some] at last
    rcases either with same | same <;> simp [same] at last
  constructor
  · have group : u.groups 1 = some (List.replicate n 35) := by
      rw [← hu, Spot.groups_capture_self, (Spot.reads_take _ n).upTo]
      simp [Spot.start, headerLine]
    rw [Spot.groups_take, Spot.groups_take, ← hw, Spot.groups_capture_of_ne (by decide), Spot.groups_take,
      Spot.groups_take]
    exact group
  · rw [Spot.groups_take, Spot.groups_take, ← hw, Spot.groups_capture_self, (Spot.reads_take _ j).upTo,
      Spot.rest_take, rest_u, List.drop_one, List.tail_cons]
    have take := List.take_append_drop j (c :: text)
    rw [all_, List.append_nil] at take
    rw [take]

theorem cHashHeaders_headerLine (text : Bytes) (least : 1 ≤ level) (most : level ≤ 6) :
    ∃ t ∈ cHashHeaders.ends (.start (headerLine level text)), t.rest = [] := by
  let s := Spot.start (headerLine level text)
  let u := s.capture 1 (s.take level)
  let v := u.take 1
  let w := v.capture 2 (v.take text.length)
  have rest_u : u.rest = 32 :: text := by
    change (headerLine level text).drop level = _
    rw [List.drop_left' (List.length_replicate)]
  have rest_w : w.rest = [] := by
    change (u.rest.drop 1).drop text.length = []
    rw [rest_u]
    simp
  refine ⟨w, ?_, rest_w⟩
  simp only [cHashHeaders, lineStart, lineEnd, chr, blank, spaces, Pattern.star, Pattern.plus, Pattern.lazyStar,
    Pattern.between, Pattern.any, mem_ends_all_cons, mem_ends_all_nil, mem_ends_group, mem_ends_rep_one, mem_ends_edge]
  refine ⟨s, ⟨rfl, rfl⟩, u, ⟨_, ⟨level, least, ?_, rfl⟩, rfl⟩, v, ⟨1, Nat.le_refl 1, ?_, rfl⟩, w,
    ⟨_, ⟨text.length, Nat.zero_le _, ?_, rfl⟩, rfl⟩, w, ⟨0, Nat.le_refl 0, Nat.zero_le _, ?_⟩, w,
    ⟨0, Nat.le_refl 0, Nat.zero_le _, ?_⟩, w, ⟨rfl, ?_⟩, rfl⟩
  · refine Nat.le_min.mpr ⟨?_, most⟩
    change level ≤ ((headerLine level text).takeWhile (· = 35)).length
    rw [takeWhile_headerLine, List.length_replicate]
  · rw [rest_u, runLength, Option.elim_none, List.takeWhile_cons_of_pos (by decide), List.length_cons]
    omega
  · have rest_v : v.rest = text := by
      change u.rest.drop 1 = _
      rw [rest_u]
      rfl
    rw [rest_v, runLength, Option.elim_none, List.takeWhile_eq_self_iff.mpr fun _ _ => rfl]
  · rw [Spot.take_zero]
  · rw [Spot.take_zero]
  · rw [rest_w]
    rfl

theorem parseHeader_headerLine (least : 1 ≤ level) (most : level ≤ 6) (first : text.head?.any isalpha = true)
    (last : text.getLast?.any (fun c => c = 32 || c = 35) = false) :
    parseHeader (.rawText (headerLine level text) :: after) =
      some (.text (.header level) text, .rawText (headerLine level text) :: after) := by
  obtain ⟨t, mem, done⟩ := cHashHeaders_headerLine text least most
  obtain ⟨m, found⟩ := fullMatch_isSome mem done
  obtain ⟨t', mem', done', groups⟩ := fullMatch_eq_some found
  obtain ⟨one_, two_⟩ := mem_ends_cHashHeaders mem' first last done'
  rw [parseHeader, markupLine_rawText, Option.bind_some]
  simp only [found, Match.group, groups, one_, two_, Option.getD_some, List.length_replicate]

end Headers

/-! ## Indented lines -/

section Indented
variable {line text : Bytes} {after : List Token} {p q : Pattern UInt8}

abbrev codeLine (text : Bytes) : Bytes := 32 :: 32 :: 32 :: 32 :: text

theorem cHorizontalRules_codeLine : cHorizontalRules.fullMatch (codeLine text) = none := by
  refine fullMatch_seq_edge (ends_between_blank (f := fun c => (bytes "-*_").contains c) ?_ rfl rfl)
  exact .seq (.rep (.group (.seq (begins_oneOf rfl))) (by decide))

theorem cReference_codeLine : cReference.fullMatch (codeLine text) = none :=
  fullMatch_seq_edge (ends_between_blank (f := (· = 91)) (.seq (begins_chr rfl)) rfl rfl)

theorem cBlockQuoteExpression_codeLine : cBlockQuoteExpression.fullMatch (codeLine text) = none := by
  refine fullMatch_seq_edge ?_
  have none_ : quotePrefix.ends (.start (codeLine text)) = [] :=
    ends_between_blank (f := (· = 62)) (.seq (begins_chr rfl)) rfl rfl
  rw [List.eq_nil_iff_forall_not_mem]
  intro t mem
  obtain ⟨u, here, -⟩ := mem_ends_seq.mp mem
  obtain ⟨v, inner, -⟩ := mem_ends_group.mp here
  rcases cases_of_mem_rounds inner with ⟨zero, -⟩ | ⟨_, -, -, w, first, -⟩
  · cases zero
  · rw [none_] at first
    cases first

theorem indent_of_match {m : Match UInt8} {g : UInt8 → Bool}
    (found : (Pattern.seq lineStart (.seq (.group 1 spaces) q)).fullMatch (codeLine text) = some m)
    (begins : Begins g q) (other : g 32 = false) (own : 1 ∉ q.capturing) : 4 ≤ (m.group 1).length := by
  obtain ⟨t, mem, -, groups⟩ := fullMatch_eq_some found
  obtain ⟨s, here, later⟩ := mem_ends_seq.mp mem
  obtain ⟨rfl, -⟩ := mem_ends_edge.mp here
  obtain ⟨u, group, rest⟩ := mem_ends_seq.mp later
  obtain ⟨v, blanks, rfl⟩ := mem_ends_group.mp group
  obtain ⟨n, -, le, rfl⟩ := mem_ends_rep_one.mp blanks
  have kept := groups_of_not_mem_capturing own rest
  have deep : 4 ≤ n := by
    by_contra shallow
    have head : ((codeLine text).drop n).head? = some 32 := by
      obtain rfl | rfl | rfl | rfl : n = 0 ∨ n = 1 ∨ n = 2 ∨ n = 3 := by omega
      all_goals rfl
    have starts := begins _ t rest
    change ((codeLine text).drop n).head?.any g = true at starts
    rw [head, Option.any_some, other] at starts
    cases starts
  have inside : n ≤ (codeLine text).length := le.trans (runLength_le _ _ _)
  rw [Match.group, groups, kept, Spot.groups_capture_self, (Spot.reads_take _ n).upTo, Option.getD_some,
    List.length_take]
  exact Nat.le_min.mpr ⟨deep, deep.trans inside⟩

theorem listStart_codeLine : listStart false (codeLine text) = none := by
  rw [listStart]
  cases unordered : cUnorderedListExpression.fullMatch (codeLine text) with
  | some m =>
      have deep := indent_of_match unordered (g := fun c => (bytes "*+-").contains c)
        (.seq (.group (begins_oneOf rfl))) rfl (by decide)
      exact if_neg (by simpa using deep)
  | none =>
      cases ordered : cOrderedListExpression.fullMatch (codeLine text) with
      | some m =>
          have deep := indent_of_match ordered (g := isDigit) (.seq (.group (.rep begins_one (by decide)))) rfl
            (by decide)
          exact if_neg (by simpa using deep)
      | none => rfl

theorem parseBlock_codeLine {fuel : Nat} (next : NoUnderline after) :
    parseBlock (fuel + 1) (.rawText (codeLine text) :: after) = .ok (parseCodeBlock (.rawText (codeLine text) :: after)) :=
  parseBlock_of_none (not_matches begins_cHashHeaders rfl rfl) next cHorizontalRules_codeLine listStart_codeLine
    cBlockQuoteExpression_codeLine

theorem isBlankLine_codeLine (shown : ∃ c ∈ text, c ≠ 32) : isBlankLine (codeLine text) = false := by
  have none_ : cBlankLine.fullMatch (codeLine text) = none := by
    rw [fullMatch_eq_none_iff]
    intro t mem done
    obtain ⟨u, indent, later⟩ := mem_ends_seq.mp mem
    obtain ⟨v, comments, rest⟩ := mem_ends_seq.mp later
    obtain ⟨w, blanks, last⟩ := mem_ends_seq.mp rest
    obtain rfl := mem_ends_all_nil.mp last
    obtain ⟨n, -, most, rfl⟩ := mem_ends_rep_one.mp indent
    have three : n ≤ 3 := most.trans (Nat.min_le_right _ _)
    have rest_u : ((Spot.start (codeLine text)).take n).rest = List.replicate (4 - n) 32 ++ text := by
      change (codeLine text).drop n = _
      obtain rfl | rfl | rfl | rfl : n = 0 ∨ n = 1 ∨ n = 2 ∨ n = 3 := by omega
      all_goals rfl
    -- no comment stands at a blank
    have noComment : MayBegin (fun c => decide (c = 60)) (Pattern.star (.group 1 (all [str "<--", .group 2 (Pattern.star any),
        str "--", spaces, chr '>', spaces]))) := .rep (.group (Begins.mayBegin (.seq (.seq (begins_chr rfl)))))
    have rest_v : v.rest = List.replicate (4 - n) 32 ++ text := by
      rcases noComment _ v comments with same | tag
      · rw [same, rest_u]
      · obtain ⟨m, more⟩ : ∃ m, 4 - n = m + 1 := ⟨3 - n, by omega⟩
        rw [rest_u, more] at tag
        cases tag
    obtain ⟨k, -, le, rfl⟩ := mem_ends_rep_one.mp blanks
    obtain ⟨c, mem_, other⟩ := shown
    rw [Spot.rest_take, List.drop_eq_nil_iff] at done
    have inside : c ∈ v.rest.take k := by
      rw [List.take_of_length_le done, rest_v]
      exact List.mem_append_right _ mem_
    exact other (of_decide_eq_true (mem_takeWhile_of_le le inside))
  rw [isBlankLine, matches?, none_]
  rfl

end Indented
end TscServer.Proof
