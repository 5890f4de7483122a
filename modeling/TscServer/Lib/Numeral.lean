import Mathlib.Algebra.Group.Nat.Defs
import Mathlib.Algebra.Group.Int.Defs
import TscServer.Lib.ByteString

/-!
# Decimal numerals

`std::to_string`, `std::stoi` and `boost::lexical_cast` on byte strings.
-/

namespace TscServer.Lib

def decimal (ds : Bytes) : Nat := ds.foldl (fun n c => 10 * n + (c.toNat - 48)) 0

def toDecimal (n : Nat) : Bytes := (Nat.toDigits 10 n).map fun c => UInt8.ofNat c.toNat

def intToDecimal (n : Int) : Bytes :=
  if n < 0 then 45 :: toDecimal n.natAbs else toDecimal n.natAbs

inductive NumberError where
  | invalidArgument
  | outOfRange
deriving DecidableEq, Repr

def splitSign : Bytes → Bool × Bytes
  | 45 :: s => (true, s)
  | 43 :: s => (false, s)
  | s => (false, s)

/-- `std::stoi`: blanks, a sign, digits, and anything after them. -/
def stoi (s : Bytes) : Except NumberError Int :=
  let (negative, s) := splitSign (s.dropWhile isSpace)
  let digits := s.takeWhile isDigit
  if digits = [] then .error .invalidArgument
  else
    let value : Int := if negative then - (decimal digits : Int) else decimal digits
    if -2 ^ 31 ≤ value ∧ value < 2 ^ 31 then .ok value else .error .outOfRange

/-- `boost::lexical_cast<std::size_t>`; `none` is `bad_lexical_cast`. The whole string is a sign and
digits of a value in range; a minus sign negates modulo `2 ^ 64`. -/
def lexicalCast (s : Bytes) : Option Nat :=
  let (negative, digits) := splitSign s
  if digits ≠ [] ∧ digits.all isDigit ∧ decimal digits < 2 ^ 64 then
    some (if negative then (2 ^ 64 - decimal digits) % 2 ^ 64 else decimal digits)
  else none

/-- `boost::lexical_cast<int>`; `none` is `bad_lexical_cast`. -/
def lexicalCastInt (s : Bytes) : Option Int :=
  let (negative, digits) := splitSign s
  let value : Int := if negative then - (decimal digits : Int) else decimal digits
  if digits ≠ [] ∧ digits.all isDigit ∧ -2 ^ 31 ≤ value ∧ value < 2 ^ 31 then some value else none

theorem digitChar_toNat {d : Nat} (h : d < 10) : (UInt8.ofNat d.digitChar.toNat).toNat = 48 + d := by
  have all : ∀ d < 10, (UInt8.ofNat d.digitChar.toNat).toNat = 48 + d := by decide
  exact all d h

theorem toDecimal_of_lt {n : Nat} (h : n < 10) : toDecimal n = [UInt8.ofNat n.digitChar.toNat] := by
  rw [toDecimal, Nat.toDigits_of_lt_base h]
  rfl

theorem toDecimal_of_le {n : Nat} (h : 10 ≤ n) :
    toDecimal n = toDecimal (n / 10) ++ [UInt8.ofNat (n % 10).digitChar.toNat] := by
  rw [toDecimal, Nat.toDigits_of_base_le (by omega) h, List.map_append]
  rfl

theorem decimal_append_singleton (ds : Bytes) (c : UInt8) :
    decimal (ds ++ [c]) = 10 * decimal ds + (c.toNat - 48) := by
  simp [decimal]

theorem decimal_toDecimal (n : Nat) : decimal (toDecimal n) = n := by
  induction n using Nat.strongRecOn with
  | ind n ih =>
      by_cases h : n < 10
      · rw [toDecimal_of_lt h]
        simp only [decimal, List.foldl_cons, List.foldl_nil, digitChar_toNat h]
        omega
      · rw [toDecimal_of_le (by omega), decimal_append_singleton, ih (n / 10) (by omega),
          digitChar_toNat (by omega)]
        omega

theorem isDigit_digitChar {d : Nat} (h : d < 10) : isDigit (UInt8.ofNat d.digitChar.toNat) = true := by
  have all : ∀ d < 10, isDigit (UInt8.ofNat d.digitChar.toNat) = true := by decide
  exact all d h

theorem isDigit_of_mem_toDecimal {n : Nat} : ∀ c ∈ toDecimal n, isDigit c = true := by
  induction n using Nat.strongRecOn with
  | ind n ih =>
      intro c hc
      by_cases h : n < 10
      · rw [toDecimal_of_lt h, List.mem_singleton] at hc
        exact hc ▸ isDigit_digitChar h
      · rw [toDecimal_of_le (by omega), List.mem_append, List.mem_singleton] at hc
        rcases hc with hc | rfl
        · exact ih (n / 10) (by omega) c hc
        · exact isDigit_digitChar (by omega)

theorem toDecimal_ne_nil (n : Nat) : toDecimal n ≠ [] := by
  simp [toDecimal, Nat.toDigits_ne_nil]

theorem splitSign_of_digit {c : UInt8} {s : Bytes} (h : isDigit c = true) :
    splitSign (c :: s) = (false, c :: s) := by
  unfold splitSign
  split
  · rename_i heq; simp only [List.cons.injEq] at heq; rw [heq.1] at h; exact absurd h (by decide)
  · rename_i heq; simp only [List.cons.injEq] at heq; rw [heq.1] at h; exact absurd h (by decide)
  · rfl

theorem lexicalCast_of_digits {ds : Bytes} (nonempty : ds ≠ []) (digits : ∀ c ∈ ds, isDigit c = true)
    (range : decimal ds < 2 ^ 64) : lexicalCast ds = some (decimal ds) := by
  cases ds with
  | nil => exact absurd rfl nonempty
  | cons c ds =>
      have all : (c :: ds).all isDigit = true := List.all_eq_true.mpr digits
      rw [lexicalCast, splitSign_of_digit (digits c (by simp))]
      simp only [nonempty, ne_eq, not_false_eq_true, all, range, and_self, if_true]
      rfl

/-! ## What the conversions read -/

def IsNumeral (t : Bytes) : Prop := t ≠ [] ∧ ∀ c ∈ t, isDigit c = true

instance : DecidablePred IsNumeral := fun t =>
  decidable_of_iff (t ≠ [] ∧ t.all isDigit = true) (and_congr Iff.rfl List.all_eq_true)

inductive Denotes : Bytes → Int → Prop
  | plain {ds : Bytes} : IsNumeral ds → Denotes ds (decimal ds)
  | plus {ds : Bytes} : IsNumeral ds → Denotes (43 :: ds) (decimal ds)
  | minus {ds : Bytes} : IsNumeral ds → Denotes (45 :: ds) (-(decimal ds : Int))

def leadingNumber (t : Bytes) : Option Int :=
  let (negative, s) := splitSign (t.dropWhile isSpace)
  let digits := s.takeWhile isDigit
  if digits = [] then none
  else some (if negative then - (decimal digits : Int) else decimal digits)

section Conversion
variable {t : Bytes}

theorem stoi_eq (t : Bytes) : stoi t =
    match leadingNumber t with
    | none => .error .invalidArgument
    | some n => if -2 ^ 31 ≤ n ∧ n < 2 ^ 31 then .ok n else .error .outOfRange := by
  rw [stoi, leadingNumber]
  dsimp only
  split
  · rfl
  · rfl

theorem dropWhile_numeral (numeral : IsNumeral t) : t.dropWhile isSpace = t := by
  obtain ⟨some_, digits⟩ := numeral
  cases t with
  | nil => exact absurd rfl some_
  | cons c t =>
      have solid := isSpace_of_isDigit_false (digits c List.mem_cons_self)
      rw [List.dropWhile_cons_of_neg (by simp [solid])]

theorem splitSign_numeral (numeral : IsNumeral t) : splitSign t = (false, t) := by
  obtain ⟨some_, digits⟩ := numeral
  cases t with
  | nil => exact absurd rfl some_
  | cons c t => exact splitSign_of_digit (digits c List.mem_cons_self)

theorem leadingNumber_numeral (numeral : IsNumeral t) : leadingNumber t = some (decimal t : Int) := by
  have whole : t.takeWhile isDigit = t := List.takeWhile_eq_self_iff.mpr numeral.2
  rw [leadingNumber, dropWhile_numeral numeral, splitSign_numeral numeral]
  dsimp only
  rw [whole, if_neg numeral.1]
  rfl

theorem leadingNumber_padded {before after : Bytes} (blanks : ∀ c ∈ before, isSpace c = true)
    (numeral : IsNumeral t) (stops : ∀ c ∈ after.head?, isDigit c = false) :
    leadingNumber (before ++ (t ++ after)) = some (decimal t : Int) := by
  have first : ∀ c ∈ (t ++ after).head?, isSpace c = false := by
    intro c mem
    rw [List.head?_append_of_ne_nil _ numeral.1] at mem
    exact isSpace_of_isDigit_false (numeral.2 c (List.mem_of_mem_head? mem))
  have sign : splitSign (t ++ after) = (false, t ++ after) := by
    cases t with
    | nil => exact absurd rfl numeral.1
    | cons c t => exact splitSign_of_digit (numeral.2 c List.mem_cons_self)
  rw [leadingNumber, dropWhile_append_stop blanks first, sign]
  dsimp only
  rw [takeWhile_append_stop numeral.2 stops, if_neg numeral.1]
  rfl

theorem denotes_iff {n : Int} : Denotes t n ↔ IsNumeral (splitSign t).2 ∧
    n = if (splitSign t).1 then - (decimal (splitSign t).2 : Int) else decimal (splitSign t).2 := by
  constructor
  · intro denotes
    cases denotes with
    | plain numeral =>
        rw [splitSign_numeral numeral]
        exact ⟨numeral, rfl⟩
    | plus numeral => exact ⟨numeral, rfl⟩
    | minus numeral => exact ⟨numeral, rfl⟩
  · rintro ⟨numeral, rfl⟩
    unfold splitSign at numeral ⊢
    split at numeral
    · exact .minus numeral
    · exact .plus numeral
    · exact .plain numeral

theorem lexicalCastInt_eq_some_iff {n : Int} :
    lexicalCastInt t = some n ↔ Denotes t n ∧ -2 ^ 31 ≤ n ∧ n < 2 ^ 31 := by
  rw [denotes_iff, lexicalCastInt, IsNumeral]
  dsimp only
  generalize (if (splitSign t).1 = true then - (decimal (splitSign t).2 : Int)
    else decimal (splitSign t).2) = value
  constructor
  · intro cast
    split at cast
    · rename_i range
      obtain ⟨some_, digits, low, high⟩ := range
      obtain rfl := Option.some.inj cast
      exact ⟨⟨⟨some_, List.all_eq_true.mp digits⟩, rfl⟩, low, high⟩
    · cases cast
  · rintro ⟨⟨⟨some_, digits⟩, rfl⟩, low, high⟩
    exact if_pos ⟨some_, List.all_eq_true.mpr digits, low, high⟩

end Conversion

end TscServer.Lib
