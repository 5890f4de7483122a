import TscServer.Lib.CrlfLines
import TscServer.Lib.IStream

/-!
# Header lines of a message

The lines of a message up to its first blank line, and the values of a header among such lines. The
letter case of a name and the blanks around a value do not count.
-/

namespace TscServer.Lib

def dropReturn (line : Bytes) : Bytes := if line.getLast? = some 13 then line.dropLast else line

def messageHead (s : Bytes) : List Bytes :=
  ((getlines s).map fun line => dropReturn line.1).takeWhile fun line => !line.isEmpty

def lower (s : Bytes) : Bytes := s.map fun c => if 65 ≤ c && c ≤ 90 then c + 32 else c

def isSpaceOrTab (c : UInt8) : Bool := c == 32 || c == 9

def trimBlanks (s : Bytes) : Bytes :=
  ((s.dropWhile isSpaceOrTab).reverse.dropWhile isSpaceOrTab).reverse

def headerValue? (name line : Bytes) : Option Bytes :=
  match line.dropWhile (· != 58) with
  | [] => none
  | _ :: value =>
      if lower (line.takeWhile (· != 58)) = lower name then some (trimBlanks value) else none

def headerValues (name : Bytes) (lines : List Bytes) : List Bytes := lines.filterMap (headerValue? name)

theorem dropReturn_append (line : Bytes) : dropReturn (line ++ [13]) = line := by
  simp [dropReturn]

theorem messageHead_lines {lines : List Bytes} (one : ∀ line ∈ lines, line ≠ [] ∧ OneLine line)
    (rest : Bytes) : messageHead (lines.flatMap (· ++ crlf) ++ crlf ++ rest) = lines := by
  induction lines with
  | nil =>
      have blank : [].flatMap (· ++ crlf) ++ crlf ++ rest = [13] ++ 10 :: rest := rfl
      rw [blank, messageHead, getlines_append (by decide)]
      rfl
  | cons line lines ih =>
      obtain ⟨nonempty, plain⟩ := one line (by simp)
      have cut : (line :: lines).flatMap (· ++ crlf) ++ crlf ++ rest =
          line ++ [13] ++ 10 :: (lines.flatMap (· ++ crlf) ++ crlf ++ rest) := by
        simp [crlf]
      have noFeed : 10 ∉ line ++ [13] := by
        intro mem
        rcases List.mem_append.mp mem with mem | mem
        · exact (plain 10 mem).2 rfl
        · exact absurd (List.mem_singleton.mp mem) (by decide)
      have later := ih fun other mem => one other (by simp [mem])
      rw [messageHead] at later
      rw [cut, messageHead, getlines_append noFeed, List.map_cons, dropReturn_append,
        List.takeWhile_cons_of_pos (by simpa using nonempty), later]

theorem takeWhile_colon (name rest : Bytes) :
    (name ++ 58 :: rest).takeWhile (· != 58) = name.takeWhile (· != 58) := by
  rw [List.takeWhile_append]
  split
  · rename_i all
    rw [List.takeWhile_cons_of_neg (by decide), List.append_nil]
    exact ((List.takeWhile_prefix _).eq_of_length all).symm
  · rfl

/-! ## Letter case -/

def lowerByte (c : UInt8) : UInt8 := if 65 ≤ c && c ≤ 90 then c + 32 else c

theorem lower_eq_map (s : Bytes) : lower s = s.map lowerByte := rfl

@[simp] theorem length_lower (s : Bytes) : (lower s).length = s.length := by simp [lower]

@[simp] theorem lower_append (s t : Bytes) : lower (s ++ t) = lower s ++ lower t := by simp [lower]

theorem lower_take (s : Bytes) (n : Nat) : lower (s.take n) = (lower s).take n := List.map_take

theorem lowerByte_cases (c : UInt8) :
    lowerByte c = c ∨ 65 ≤ c.toNat ∧ c.toNat ≤ 90 ∧ (lowerByte c).toNat = c.toNat + 32 := by
  unfold lowerByte
  split
  · rename_i letter
    obtain ⟨low, high⟩ : 65 ≤ c.toNat ∧ c.toNat ≤ 90 := by
      simpa [UInt8.le_iff_toNat_le] using letter
    refine .inr ⟨low, high, ?_⟩
    rw [UInt8.toNat_add]
    exact Nat.mod_eq_of_lt (by simp; omega)
  · exact .inl rfl

theorem lowerByte_eq_iff {c d : UInt8} (other : d.toNat < 65) : lowerByte c = d ↔ c = d := by
  rcases lowerByte_cases c with same | ⟨low, -, moved⟩
  · rw [same]
  · constructor
    · rintro rfl
      omega
    · rintro rfl
      omega

theorem isSpace_lowerByte (c : UInt8) : isSpace (lowerByte c) = isSpace c := by
  rcases lowerByte_cases c with same | ⟨low, -, moved⟩
  · rw [same]
  · rw [isSpace_of_lt (by omega), isSpace_of_lt (by omega)]

@[simp] theorem lower_lower (s : Bytes) : lower (lower s) = lower s := by
  rw [lower_eq_map, lower_eq_map, List.map_map]
  apply List.map_congr_left
  intro c _
  rcases lowerByte_cases c with same | ⟨low, high, moved⟩
  · simp [same]
  · have outside : ¬ ((lowerByte c).toNat ≤ 90) := by omega
    rw [Function.comp_apply, lowerByte, if_neg]
    simp [UInt8.le_iff_toNat_le, outside]

theorem mem_lower_iff {d : UInt8} (other : d.toNat < 65) (s : Bytes) : d ∈ lower s ↔ d ∈ s := by
  simp [lower_eq_map, lowerByte_eq_iff other]

theorem mem_iff_of_lower_eq {d : UInt8} (other : d.toNat < 65) {a b : Bytes} (same : lower a = lower b) :
    d ∈ a ↔ d ∈ b := by
  rw [← mem_lower_iff other, same, mem_lower_iff other]

theorem lower_takeWhile {d : UInt8} (other : d.toNat < 65) (s : Bytes) :
    lower (s.takeWhile (· != d)) = (lower s).takeWhile (· != d) := by
  rw [lower_eq_map, lower_eq_map, List.takeWhile_map]
  congr 2
  funext c
  simp [bne, beq_eq_decide, lowerByte_eq_iff other]

theorem infix_of_lower_eq {a b pat : Bytes} (same : lower a = lower b) (others : ∀ d ∈ pat, d.toNat < 65)
    (inside : pat <:+: a) : pat <:+: b := by
  have moved : pat.map lowerByte = pat := by
    conv_rhs => rw [← List.map_id pat]
    apply List.map_congr_left
    intro d mem
    exact (lowerByte_eq_iff (others d mem)).mpr rfl
  have image : pat <:+: b.map lowerByte := by
    rw [← lower_eq_map, ← same, ← moved]
    exact inside.map lowerByte
  obtain ⟨span, inB, from_⟩ := List.infix_map_iff.mp image
  have back : span = pat := by
    apply List.ext_getElem
    · rw [from_, List.length_map]
    · intro i lt lt'
      have at_ : pat[i] = lowerByte span[i] := by simp [from_]
      exact ((lowerByte_eq_iff (others _ (List.getElem_mem lt'))).mp at_.symm)
  exact back ▸ inB

section Values
variable {name value : Bytes}

theorem trimBlanks_space (value : Bytes) : trimBlanks (32 :: value) = trimBlanks value := by
  rw [trimBlanks, List.dropWhile_cons_of_pos (by decide)]
  rfl

theorem trimBlanks_eq_self (solid : ∀ c ∈ value, isSpaceOrTab c = false) : trimBlanks value = value := by
  have none_ (s : Bytes) (all : ∀ c ∈ s, isSpaceOrTab c = false) : s.dropWhile isSpaceOrTab = s := by
    cases s with
    | nil => rfl
    | cons c s => rw [List.dropWhile_cons_of_neg (by simp [all c (by simp)])]
  rw [trimBlanks, none_ value solid, none_ value.reverse (by simpa using solid), List.reverse_reverse]

theorem trimBlanks_split (value : Bytes) : ∃ before after, value = before ++ (trimBlanks value ++ after) ∧
    (∀ c ∈ before, isSpaceOrTab c = true) ∧ ∀ c ∈ after, isSpaceOrTab c = true := by
  have ends := List.takeWhile_append_dropWhile (p := isSpaceOrTab)
    (l := (value.dropWhile isSpaceOrTab).reverse)
  refine ⟨value.takeWhile isSpaceOrTab, ((value.dropWhile isSpaceOrTab).reverse.takeWhile
    isSpaceOrTab).reverse, ?_, fun c mem => List.mem_takeWhile_imp mem, fun c mem => ?_⟩
  · rw [trimBlanks, ← List.reverse_append, ends, List.reverse_reverse, List.takeWhile_append_dropWhile]
  · exact List.mem_takeWhile_imp (List.mem_reverse.mp mem)

theorem count_trimBlanks {c : UInt8} (solid : isSpaceOrTab c = false) (value : Bytes) :
    (trimBlanks value).count c = value.count c := by
  obtain ⟨before, after, split, blanks, blanks'⟩ := trimBlanks_split value
  have absent {part : Bytes} (all : ∀ d ∈ part, isSpaceOrTab d = true) : part.count c = 0 := by
    rw [List.count_eq_zero]
    intro mem
    cases (all c mem).symm.trans solid
  conv_rhs => rw [split]
  rw [List.count_append, List.count_append, absent blanks, absent blanks', Nat.zero_add, Nat.add_zero]

theorem trimBlanks_append {front : Bytes} (nonempty : front ≠ [])
    (first : ∀ c ∈ front.head?, isSpaceOrTab c = false)
    (last : ∀ c ∈ front.getLast?, isSpaceOrTab c = false) (rest : Bytes) :
    ∃ kept after, trimBlanks (front ++ rest) = front ++ kept ∧ rest = kept ++ after ∧
      ∀ c ∈ after, isSpaceOrTab c = true := by
  obtain ⟨before, after, split, blanks, blanks'⟩ := trimBlanks_split (front ++ rest)
  have none_ : before = [] := by
    cases before with
    | nil => rfl
    | cons c before =>
        have head : front.head? = some c := by
          rw [← List.head?_append_of_ne_nil front nonempty, split]
          rfl
        cases (blanks c List.mem_cons_self).symm.trans (first c head)
  rw [none_, List.nil_append] at split
  rcases List.append_eq_append_iff.mp split with ⟨kept, trimmed, cut⟩ | ⟨beyond, cut, trimmed⟩
  · exact ⟨kept, after, trimmed, cut, blanks'⟩
  · have nothing : beyond = [] := by
      by_contra some_
      obtain ⟨c, final⟩ := Option.isSome_iff_exists.mp (List.getLast?_isSome.mpr some_)
      have ends : front.getLast? = some c := by
        rw [cut, List.getLast?_append_of_ne_nil _ some_, final]
      have blank := blanks' c (trimmed ▸ List.mem_append_left _ (List.mem_of_getLast? final))
      cases blank.symm.trans (last c ends)
    rw [nothing, List.append_nil] at cut
    rw [nothing, List.nil_append] at trimmed
    exact ⟨[], after, by rw [← cut, List.append_nil], trimmed.symm, blanks'⟩

theorem headerValue?_colon (key : Bytes) (noColon : 58 ∉ name) :
    headerValue? key (name ++ 58 :: value) =
      if lower name = lower key then some (trimBlanks value) else none := by
  have span : ∀ c ∈ name, (c != 58) = true := fun c mem => by
    simpa using fun same : c = 58 => noColon (same ▸ mem)
  have stops : ∀ c ∈ (58 :: value).head?, (c != 58) = false := by
    intro c mem
    obtain rfl := Option.some.inj mem
    rfl
  rw [headerValue?, takeWhile_append_stop span stops, dropWhile_append_stop span stops]

theorem headerValue?_printed (key : Bytes) (noColon : 58 ∉ name) :
    headerValue? key (name ++ bytes ": " ++ value) =
      if lower name = lower key then some (trimBlanks value) else none := by
  have text : name ++ bytes ": " ++ value = name ++ 58 :: 32 :: value := by simp [bytes]
  rw [text, headerValue?_colon key noColon, trimBlanks_space]

theorem headerValues_cons (key : Bytes) (noColon : 58 ∉ name) (lines : List Bytes) :
    headerValues key ((name ++ bytes ": " ++ value) :: lines) =
      if lower name = lower key then trimBlanks value :: headerValues key lines
      else headerValues key lines := by
  rw [headerValues, List.filterMap_cons, headerValue?_printed key noColon]
  split
  · rename_i absent
    split at absent
    · cases absent
    · rename_i other
      rw [if_neg other]
      rfl
  · rename_i found
    split at found
    · rename_i same
      cases found
      rw [if_pos same]
      rfl
    · cases found

end Values
end TscServer.Lib
