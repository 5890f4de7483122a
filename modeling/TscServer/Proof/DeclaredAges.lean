import TscServer.Proof.Transparency
import TscServer.Spec.CacheHit

/-!
# Declared ages

A text that is a `max-age` directive with a number is read as that number, so the ages that are read
from such texts are ages that the response declares.
-/

namespace TscServer.Proof
open Lib Model Spec ProxyHandler

theorem isSpace_of_isSpaceOrTab {c : UInt8} (blank : isSpaceOrTab c = true) : isSpace c = true := by
  rcases (by simpa [isSpaceOrTab] using blank : c = 32 ∨ c = 9) with rfl | rfl
  · rfl
  · rfl

theorem isDigit_of_isSpaceOrTab {c : UInt8} (blank : isSpaceOrTab c = true) : isDigit c = false := by
  rcases (by simpa [isSpaceOrTab] using blank : c = 32 ∨ c = 9) with rfl | rfl
  · rfl
  · rfl

theorem leadingNumber_trimBlanks {text : Bytes} (numeral : IsNumeral (trimBlanks text)) {after : Bytes}
    (blanks : ∀ c ∈ after, isSpaceOrTab c = true) :
    leadingNumber (text ++ after) = some (decimal (trimBlanks text) : Int) := by
  obtain ⟨left, right, split, before, behind⟩ := trimBlanks_split text
  have regrouped : text ++ after = left ++ (trimBlanks text ++ (right ++ after)) := by
    conv_lhs => rw [split]
    simp only [List.append_assoc]
  rw [regrouped]
  apply leadingNumber_padded (fun c mem => isSpace_of_isSpaceOrTab (before c mem)) numeral
  intro c mem
  apply isDigit_of_isSpaceOrTab
  rcases List.mem_append.mp (List.mem_of_mem_head? mem) with mem | mem
  · exact behind c mem
  · exact blanks c mem

-- no number begins after the blanks
theorem leadingNumber_equals {blanks : Bytes} (all : ∀ c ∈ blanks, isSpaceOrTab c = true) (rest : Bytes) :
    leadingNumber (blanks ++ 61 :: rest) = none := by
  have stops : ∀ c ∈ (61 :: rest).head?, isSpace c = false := by
    intro c mem
    obtain rfl := Option.some.inj mem
    rfl
  rw [leadingNumber, dropWhile_append_stop (fun c mem => isSpace_of_isSpaceOrTab (all c mem)) stops]
  rfl

/-! ## What is read from a directive -/

theorem cacheLife_ok {value : Bytes} {life : Int} (parses : cacheLife value = .ok life) :
    8 ≤ (ageText value).length ∧ leadingNumber ((ageText value).drop 8) = some life := by
  rw [cacheLife] at parses
  split at parses
  · cases parses
  · rename_i text cut
    rw [substrFrom, Option.ite_none_right_eq_some] at cut
    obtain ⟨inside, taken⟩ := cut
    refine ⟨inside, ?_⟩
    rw [Option.some.inj taken]
    split at parses
    · cases parses
    · rename_i number
      cases parses
      rw [stoi_eq] at number
      split at number
      · cases number
      · rename_i leading
        split at number
        · cases number
          exact leading
        · cases number

theorem ageText_prefix {value : Bytes} (mentions : contains (bytes "max-age") value = true) :
    ∃ rest, ageText value = bytes "max-age" ++ rest := by
  obtain ⟨i, found⟩ := Option.isSome_iff_exists.mp mentions
  obtain ⟨rest, here⟩ := (find_eq_some_iff.mp found).1
  have noComma : ∀ c ∈ bytes "max-age", (c != 44) = true := List.all_eq_true.mp rfl
  refine ⟨rest.takeWhile (· != 44), ?_⟩
  rw [ageText, found, Option.getD_some, ← here, List.takeWhile_append_of_pos noComma]

theorem trimBlanks_maxAge (rest : Bytes) : ∃ kept after,
    trimBlanks (bytes "max-age" ++ rest) = bytes "max-age" ++ kept ∧ rest = kept ++ after ∧
      ∀ c ∈ after, isSpaceOrTab c = true := by
  have solid : (bytes "max-age").all (!isSpaceOrTab ·) = true := rfl
  have noBlank (c : UInt8) (mem : c ∈ bytes "max-age") : isSpaceOrTab c = false := by
    simpa using List.all_eq_true.mp solid c mem
  exact trimBlanks_append (by decide) (fun c head => noBlank c (List.mem_of_mem_head? head))
    (fun c last => noBlank c (List.mem_of_getLast? last)) rest

/-- The number of such a directive is read when it comes right after the equals sign; otherwise
nothing is. -/
theorem maxAgeOf_leading {rest : Bytes} {age life : Int}
    (number : maxAgeOf (trimBlanks (bytes "max-age" ++ rest)) = some age)
    (leading : leadingNumber ((bytes "max-age" ++ rest).drop 8) = some life) : age = life := by
  obtain ⟨kept, after, trimmed, rfl, blanks⟩ := trimBlanks_maxAge rest
  have noEquals : ∀ c ∈ bytes "max-age", (c != 61) = true := List.all_eq_true.mp rfl
  rw [trimmed, maxAgeOf, List.dropWhile_append_of_pos noEquals, Option.ite_none_right_eq_some] at number
  obtain ⟨⟨named, numeral⟩, same⟩ := number
  obtain rfl := Option.some.inj same
  rw [MaxAge, List.takeWhile_append_of_pos noEquals] at named
  obtain ⟨more, padding, name, cut, padded⟩ := trimBlanks_maxAge (kept.takeWhile (· != 61))
  have short : more = [] := by
    have lengths := congrArg List.length named
    rw [name, length_lower, List.length_append] at lengths
    exact List.length_eq_zero_iff.mp (by omega)
  rw [short, List.nil_append] at cut
  have whole := List.takeWhile_append_dropWhile (p := (· != 61)) (l := kept)
  cases found : kept.dropWhile (· != 61) with
  | nil =>
      rw [found] at numeral
      exact absurd rfl numeral.1
  | cons c argument =>
      have equals : c = 61 := by
        have stop := List.head?_dropWhile_not (· != 61) kept
        rw [found] at stop
        simpa using stop
      rw [found, equals, cut] at whole
      rw [found, List.drop_one, List.tail_cons] at numeral
      rw [← whole] at leading
      cases padding with
      | nil =>
          have read := leadingNumber_trimBlanks numeral blanks
          exact Option.some.inj (read.symm.trans leading)
      | cons b padding =>
          -- a blank stands before the equals sign
          have read := leadingNumber_equals (fun c mem => padded c (List.mem_cons_of_mem _ mem))
            (argument ++ after)
          have cut' : (bytes "max-age" ++ (b :: padding ++ 61 :: argument ++ after)).drop 8 =
              padding ++ 61 :: (argument ++ after) := by
            simp [bytes]
          rw [cut', read] at leading
          cases leading

theorem declared_of_reads {line value : Bytes} {life : Int} (reads : ReadsDirective line value)
    (mentions : contains (bytes "max-age") value = true) (parses : cacheLife value = .ok life) :
    life ∈ declaredAges (dropReturn line) := by
  obtain ⟨control, valued, listed, numbered⟩ := reads
  obtain ⟨age, number⟩ := Option.isSome_iff_exists.mp numbered
  obtain ⟨rest, text⟩ := ageText_prefix mentions
  have leading := (cacheLife_ok parses).2
  rw [text] at number leading
  obtain rfl := maxAgeOf_leading number leading
  refine List.mem_flatMap.mpr ⟨control, Option.mem_toList.mpr valued, ?_⟩
  rw [← text] at number
  exact List.mem_filterMap.mpr ⟨_, listed, number⟩

/-! ## Responses -/

section Responses
variable {d : Delivered} {line : Bytes} {life : Int}

theorem declares_of_grants (reads : ReadsAges d) (mem : line ∈ d.lines) (positive : 0 < life)
    (grants : Grants d.code line life) : Declares d life := by
  obtain ⟨value, age, parses⟩ := grants
  have control := (Option.filter_eq_some_iff.mp age).2
  simp only [Bool.and_eq_true] at control
  exact ⟨line, mem, declared_of_reads (reads line mem value age life positive parses) control.2 parses⟩

theorem declares_of_renews (reads : ReadsRenewals d) (mem : line ∈ d.lines)
    (renews : Renews line.dropLast life) : Declares d life :=
  ⟨line, mem, declared_of_reads (reads line mem life renews) renews.2.1 renews.2.2.2⟩

end Responses

-- the age of the only answer of this upstream
theorem readsAges_aged {n : Nat} {out : Outgoing} {d : Delivered}
    (arrived : delivery ((scripted [agedAnswer (bytes "1000")]).upstream n out) = .response d) :
    ReadsAges d := by
  cases n with
  | succ n => cases arrived
  | zero =>
      have only : (responseOf (delivery (agedAnswer (bytes "1000")))).all
          (·.lines = [bytes "Cache-Control: max-age=1000\r"]) = true := by decide
      have arrived' : delivery (agedAnswer (bytes "1000")) = .response d := arrived
      rw [arrived', responseOf, Option.all_some, decide_eq_true_eq] at only
      intro line mem value age life positive parses
      rw [only, List.mem_singleton] at mem
      subst mem
      obtain rfl := Option.some.inj (Option.filter_eq_some_iff.mp age).1
      exact ⟨bytes "max-age=1000", by decide, by decide, by decide⟩

/-- Another directive that ends with `max-age` is read in its place. -/
example : cacheLife (bytes "x-max-age=1000, max-age=1") = .ok 1000 ∧
    declaredAges (bytes "Cache-Control: x-max-age=1000, max-age=1") = [1] := by decide

end TscServer.Proof
