import TscServer.Lib.PatternLead
import TscServer.Model.MarkdownDocument

/-!
# Lines that are no blocks

The expressions for blocks, and the first characters of the lines that they match: what a line is not taken
for, by its first character or by its indentation.
-/

namespace TscServer.Proof
open Lib Pattern Model Markdown

section Expressions
variable {f : UInt8 → Bool} {p q : Pattern UInt8} {s t : Spot UInt8} {line : Bytes}

theorem begins_chr {c : Char} (holds : f (UInt8.ofNat c.toNat) = true) : Begins f (chr c) :=
  .mono begins_one fun d same => by rw [of_decide_eq_true same]; exact holds

theorem begins_oneOf {chars : String} (holds : (bytes chars).all f = true) : Begins f (oneOf chars) :=
  .mono begins_one fun d mem => List.all_eq_true.mp holds d (List.contains_iff_mem.mp mem)

theorem mayBegin_blank (holds : f 32 = true) : MayBegin f blank :=
  Begins.mayBegin (.mono begins_one fun d same => by rw [of_decide_eq_true same]; exact holds)

theorem mayBegin_blanks {greedy : Bool} {min : Nat} {max : Option Nat} (holds : f 32 = true) :
    MayBegin f (.rep greedy min max blank) := .rep (mayBegin_blank holds)

theorem begins_cHtmlTokenStart : Begins (· = 60) cHtmlTokenStart := .seq (begins_chr rfl)

theorem begins_cHtmlTokenExpression : Begins (· = 60) cHtmlTokenExpression := .seq (begins_chr rfl)

theorem begins_cReference : Begins (fun c => c = 32 || c = 91) cReference :=
  .seq_edge (.behind (mayBegin_blanks rfl) (.seq (begins_chr rfl)))

theorem begins_cHashHeaders : Begins (· = 35) cHashHeaders :=
  .seq_edge (.seq (.group (.rep (begins_chr rfl) (by decide))))

theorem begins_cUnderlinedHeaders : Begins (fun c => c = 45 || c = 61) cUnderlinedHeaders :=
  .seq_edge (.seq (.group (begins_oneOf rfl)))

theorem begins_cHorizontalRules : Begins (fun c => c = 32 || (bytes "-*_").contains c) cHorizontalRules :=
  .seq_edge (.behind (mayBegin_blanks rfl) (.seq (.rep (.group (.seq (begins_oneOf rfl))) (by decide))))

theorem begins_quotePrefix : Begins (fun c => c = 32 || c = 62) quotePrefix :=
  .behind (mayBegin_blanks rfl) (.seq (begins_chr rfl))

theorem begins_cBlockQuoteExpression : Begins (fun c => c = 32 || c = 62) cBlockQuoteExpression :=
  .seq_edge (.seq (.group (.rep begins_quotePrefix (by decide))))

theorem begins_cUnorderedListExpression :
    Begins (fun c => c = 32 || (bytes "*+-").contains c) cUnorderedListExpression :=
  .seq_edge (.behind (.group (mayBegin_blanks rfl)) (.seq (.group (begins_oneOf rfl))))

theorem begins_cOrderedListExpression : Begins (fun c => c = 32 || isDigit c) cOrderedListExpression := by
  refine .seq_edge (.behind (.group (mayBegin_blanks rfl)) (.seq (.group (.rep (.mono begins_one ?_) (by decide)))))
  intro c digit
  simp [digit]

theorem mayBegin_cBlankLine : MayBegin (fun c => c = 32 || c = 60) cBlankLine := by
  refine .seq (mayBegin_blanks rfl) (.seq (.rep (.group ?_)) (.seq (mayBegin_blanks rfl) mayBegin_nil))
  exact Begins.mayBegin (.seq (.seq (begins_chr rfl)))

/-! ## At the start of a line -/

def InLine (line : Bytes) : Prop := ∀ c ∈ line, isSeparator c = false

theorem search_lineStart (inLine : InLine line) (none_ : p.ends (.start line) = []) :
    (Pattern.seq lineStart p).search line = none := by
  rw [search_eq_none_iff]
  rintro a b rfl
  rw [List.eq_nil_iff_forall_not_mem]
  intro t mem
  obtain ⟨u, here, later⟩ := mem_ends_seq.mp mem
  obtain ⟨rfl, starts⟩ := mem_ends_edge.mp here
  cases last : a.reverse with
  | nil =>
      obtain rfl := List.reverse_eq_nil_iff.mp last
      rw [List.nil_append] at none_
      rw [List.reverse_nil, show (⟨[], b, fun _ => none⟩ : Spot UInt8) = .start b from rfl, none_] at later
      cases later
  | cons c before =>
      have mem_ : c ∈ a := List.mem_reverse.mp (last ▸ List.mem_cons_self)
      have separator := inLine c (List.mem_append_left b mem_)
      rw [last] at starts
      simp [separator] at starts

/-! ## Behind an indentation -/

theorem ends_between_blank {rest : Bytes} (begins : Begins f q) (other : f 32 = false)
    (indent : s.rest = 32 :: 32 :: 32 :: 32 :: rest) : (Pattern.seq (between 0 3 blank) q).ends s = [] := by
  rw [List.eq_nil_iff_forall_not_mem]
  intro t mem
  obtain ⟨u, here, later⟩ := mem_ends_seq.mp mem
  obtain ⟨n, -, most, rfl⟩ := mem_ends_rep_one.mp here
  have three : n ≤ 3 := most.trans (Nat.min_le_right _ _)
  have head : (s.take n).rest.head? = some 32 := by
    rw [Spot.rest_take, indent]
    obtain rfl | rfl | rfl | rfl : n = 0 ∨ n = 1 ∨ n = 2 ∨ n = 3 := by omega
    all_goals rfl
  have starts := begins _ t later
  rw [head, Option.any_some, other] at starts
  cases starts

theorem fullMatch_seq_edge {e : Option UInt8 → Option UInt8 → Bool} (none_ : p.ends (.start line) = []) :
    (Pattern.seq (.edge e) p).fullMatch line = none := by
  apply fullMatch_eq_none_of_ends
  rw [List.eq_nil_iff_forall_not_mem]
  intro t mem
  obtain ⟨u, here, later⟩ := mem_ends_seq.mp mem
  obtain ⟨rfl, -⟩ := mem_ends_edge.mp here
  rw [none_] at later
  cases later

end Expressions
end TscServer.Proof
