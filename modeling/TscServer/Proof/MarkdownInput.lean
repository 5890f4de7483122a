import TscServer.Model.MarkdownDocument

/-!
# Line ends of documents

A document comes to the same HTML whichever of the usual line ends it is written with.
-/

namespace TscServer.Proof
open Lib Pattern Model Markdown

section Fuel
variable {before line text rest : Bytes} {fuel : Nat} {c : UInt8}

def afterEnd (other : UInt8) (text : Bytes) : Bytes := if text.head? = some other then text.tail else text

theorem afterEnd_le (other : UInt8) (text : Bytes) : (afterEnd other text).length ≤ text.length := by
  rw [afterEnd]
  split_ifs
  · simp
  · exact Nat.le_refl _

theorem getLine_return : getLine before (13 :: text) = some (before, afterEnd 10 text) := rfl

theorem getLine_feed : getLine before (10 :: text) = some (before, afterEnd 13 text) := by
  rw [getLine, if_neg (by decide), if_pos rfl]
  rfl

theorem getLine_other (return_ : c ≠ 13) (feed : c ≠ 10) :
    getLine before (c :: text) = getLine (if c = 9 then expandTab before else before ++ [c]) text := by
  rw [getLine, if_neg return_, if_neg feed]
  split_ifs <;> rfl

theorem getLine_nil (found : getLine before [] = some (line, rest)) : rest = [] := by
  rw [getLine] at found
  split_ifs at found
  exact (Prod.mk.inj (Option.some.inj found)).2.symm

theorem getLine_shorter (some_ : text ≠ []) (found : getLine before text = some (line, rest)) :
    rest.length < text.length := by
  induction text generalizing before with
  | nil => exact absurd rfl some_
  | cons c text ih =>
      rw [List.length_cons]
      by_cases return_ : c = 13
      · subst return_
        obtain ⟨-, rfl⟩ := Prod.mk.inj (Option.some.inj found)
        exact Nat.lt_succ_of_le (afterEnd_le 10 text)
      · by_cases feed : c = 10
        · subst feed
          rw [getLine_feed] at found
          obtain ⟨-, rfl⟩ := Prod.mk.inj (Option.some.inj found)
          exact Nat.lt_succ_of_le (afterEnd_le 13 text)
        · rw [getLine_other return_ feed] at found
          cases text with
          | nil =>
              rw [getLine_nil found]
              exact Nat.zero_lt_one
          | cons d text => exact Nat.lt_succ_of_lt (ih (by simp) found)

theorem readLines_eq (enough : text.length ≤ fuel) : readLines fuel text = readLines text.length text := by
  induction fuel using Nat.strongRecOn generalizing text with
  | _ fuel ih =>
      cases text with
      | nil => cases fuel <;> rfl
      | cons c text =>
          obtain ⟨fuel, rfl⟩ : ∃ n, fuel = n + 1 := ⟨fuel - 1, by rw [List.length_cons] at enough; omega⟩
          rw [List.length_cons] at enough ⊢
          rw [readLines, readLines]
          cases found : getLine [] (c :: text) with
          | none => rfl
          | some read =>
              obtain ⟨line, rest⟩ := read
              have shorter := getLine_shorter (by simp) found
              rw [List.length_cons] at shorter
              simp only
              rw [@ih fuel (by omega) rest (by omega)]
              by_cases same : text.length = fuel
              · rw [same, @ih fuel (by omega) rest (by omega)]
              · rw [@ih text.length (by omega) rest (by omega)]

end Fuel

section Endings
variable {ending line text rest : Bytes}

def withEnding (ending text : Bytes) : Bytes := text.flatMap fun c => if c = 10 then ending else [c]

inductive LineEnd : Bytes → Prop
  | feed : LineEnd [10]
  | return_ : LineEnd [13]
  | returnFeed : LineEnd [13, 10]
  | feedReturn : LineEnd [10, 13]

theorem afterEnd_of_not_mem {other : UInt8} (none_ : other ∉ text) : afterEnd other text = text :=
  if_neg fun head => none_ (List.mem_of_mem_head? head)

theorem not_mem_withEnding (noReturn : 13 ∉ text) (plain : 13 ∉ ending) : 13 ∉ withEnding ending text := by
  intro mem
  obtain ⟨d, here, inside⟩ := List.mem_flatMap.mp mem
  split_ifs at inside
  · exact plain inside
  · exact noReturn (List.mem_singleton.mp inside ▸ here)

theorem getLine_withEnding (lineEnd : LineEnd ending) (noReturn : 13 ∉ text) (before : Bytes) :
    getLine before (withEnding ending text) =
      (getLine before text).map fun (line, rest) => (line, withEnding ending rest) := by
  induction text generalizing before with
  | nil =>
      rw [withEnding, List.flatMap_nil, getLine]
      split_ifs <;> rfl
  | cons c text ih =>
      obtain ⟨other, others⟩ := not_or.mp (mt List.mem_cons.mpr noReturn)
      rw [withEnding, List.flatMap_cons, ← withEnding]
      by_cases feed : c = 10
      · subst feed
        rw [if_pos rfl, getLine_feed, Option.map_some, afterEnd_of_not_mem others]
        cases lineEnd with
        | feed =>
            rw [List.singleton_append, getLine_feed, afterEnd_of_not_mem]
            exact not_mem_withEnding others (by decide)
        | return_ =>
            rw [List.singleton_append, getLine_return, afterEnd_of_not_mem]
            intro mem
            obtain ⟨d, -, inside⟩ := List.mem_flatMap.mp mem
            split_ifs at inside with same
            · cases List.mem_singleton.mp inside
            · exact same (List.mem_singleton.mp inside).symm
        | returnFeed => rfl
        | feedReturn =>
            rw [List.cons_append, getLine_feed]
            rfl
      · rw [if_neg feed, List.singleton_append, getLine_other (Ne.symm other) feed, getLine_other (Ne.symm other) feed,
          ih others]

theorem length_withEnding (lineEnd : LineEnd ending) (text : Bytes) :
    text.length ≤ (withEnding ending text).length := by
  induction text with
  | nil => exact Nat.le_refl 0
  | cons c text ih =>
      rw [withEnding, List.flatMap_cons, ← withEnding, List.length_append, List.length_cons]
      have pos : 1 ≤ (if c = 10 then ending else [c]).length := by
        split_ifs
        · cases lineEnd <;> decide
        · exact Nat.le_refl 1
      omega

theorem getLine_rest (noReturn : 13 ∉ text) {before : Bytes} (found : getLine before text = some (line, rest)) :
    13 ∉ rest := by
  induction text generalizing before with
  | nil =>
      rw [getLine_nil found]
      exact List.not_mem_nil
  | cons c text ih =>
      obtain ⟨other, others⟩ := not_or.mp (mt List.mem_cons.mpr noReturn)
      by_cases feed : c = 10
      · subst feed
        rw [getLine_feed, afterEnd_of_not_mem others] at found
        obtain ⟨-, rfl⟩ := Prod.mk.inj (Option.some.inj found)
        exact others
      · rw [getLine_other (Ne.symm other) feed] at found
        exact ih others found

theorem readLines_withEnding (lineEnd : LineEnd ending) (noReturn : 13 ∉ text) (fuel : Nat) :
    readLines fuel (withEnding ending text) = readLines fuel text := by
  induction fuel generalizing text with
  | zero => rfl
  | succ fuel ih =>
      rw [readLines, readLines, getLine_withEnding lineEnd noReturn]
      cases found : getLine [] text with
      | none => rfl
      | some read => exact congrArg _ (ih (getLine_rest noReturn found))

theorem readDocument_withEnding (lineEnd : LineEnd ending) (noReturn : 13 ∉ text) :
    readDocument (withEnding ending text) = readDocument text := by
  rw [readDocument, readLines_withEnding lineEnd noReturn, readLines_eq (length_withEnding lineEnd text), readDocument]

/-- A document is the same whichever line ends it has. -/
theorem render_withEnding (lineEnd : LineEnd ending) (noReturn : 13 ∉ text) (fuel : Nat) :
    render fuel (withEnding ending text) = render fuel text := by
  rw [render, readDocument_withEnding lineEnd noReturn, render]

end Endings

theorem render_returnFeed : render 100 (withEnding [13, 10] (bytes "a\nb\n")) = render 100 (bytes "a\nb\n") :=
  render_withEnding .returnFeed (by decide) 100

end TscServer.Proof
