import TscServer.Lib.ByteString

/-!
# Percent coding

Texts in which a percent sign and two hexadecimal digits stand for a byte, and a plus for a space. A
text is cut into units from the left; decoding is defined on them, and undoes every encoding.
-/

namespace TscServer.Lib

/-- A byte, an escape with the two bytes after the percent sign, or a percent sign that fewer than two
bytes follow. -/
inductive PercentUnit where
  | literal (c : UInt8)
  | escape (a b : UInt8)
  | cut (rest : Bytes)
deriving DecidableEq, Repr

def percentUnits : Bytes → List PercentUnit
  | [] => []
  | c :: s =>
      if c = 37 then
        match s with
        | a :: b :: s => .escape a b :: percentUnits s
        | rest => [.cut rest]
      else .literal c :: percentUnits s

namespace PercentUnit

def wellFormed : PercentUnit → Bool
  | .literal _ => true
  | .escape a b => (hexDigit a).isSome && (hexDigit b).isSome
  | .cut _ => false

def byte : PercentUnit → UInt8
  | .literal c => if c = 43 then 32 else c
  | .escape a b => UInt8.ofNat (16 * (hexDigit a).getD 0 + (hexDigit b).getD 0)
  | .cut _ => 37

end PercentUnit

/-- The text that is encoded; `none` when an escape is not well formed. -/
def percentDecode (s : Bytes) : Option Bytes :=
  if (percentUnits s).all PercentUnit.wellFormed then some ((percentUnits s).map PercentUnit.byte)
  else none

theorem percentUnits_literal {c : UInt8} (other : c ≠ 37) (s : Bytes) :
    percentUnits (c :: s) = .literal c :: percentUnits s := by
  conv_lhs => unfold percentUnits
  rw [if_neg other]

theorem percentUnits_escape (a b : UInt8) (s : Bytes) :
    percentUnits (37 :: a :: b :: s) = .escape a b :: percentUnits s := by
  rw [percentUnits, if_pos rfl]

/-! ## Encodings -/

section Encodings
variable (literal : UInt8 → Bool)

inductive PercentEncodes : Bytes → Bytes → Prop
  | nil : PercentEncodes [] []
  | literal {c : UInt8} {s e : Bytes} :
      literal c = true → PercentEncodes s e → PercentEncodes (c :: s) (c :: e)
  | plus {s e : Bytes} : PercentEncodes s e → PercentEncodes (32 :: s) (43 :: e)
  | escape {c a b : UInt8} {s e : Bytes} :
      literal c = false → hexDigit a = some (c.toNat / 16) → hexDigit b = some (c.toNat % 16) →
      PercentEncodes s e → PercentEncodes (c :: s) (37 :: a :: b :: e)

variable {literal} {s e : Bytes}

theorem PercentEncodes.bytes {P : UInt8 → Prop} (encodes : PercentEncodes literal s e) (plus : P 43)
    (percent : P 37) (hex : ∀ c, (hexDigit c).isSome → P c) (plain : ∀ c, literal c = true → P c) :
    ∀ c ∈ e, P c := by
  induction encodes with
  | nil => simp
  | literal inClass _ ih =>
      intro d mem
      rcases List.mem_cons.mp mem with rfl | mem
      · exact plain d inClass
      · exact ih d mem
  | plus _ ih =>
      intro d mem
      rcases List.mem_cons.mp mem with rfl | mem
      · exact plus
      · exact ih d mem
  | escape _ high low _ ih =>
      intro d mem
      simp only [List.mem_cons] at mem
      rcases mem with rfl | rfl | rfl | mem
      · exact percent
      · exact hex d (by rw [high]; rfl)
      · exact hex d (by rw [low]; rfl)
      · exact ih d mem

theorem PercentEncodes.length_le (encodes : PercentEncodes literal s e) : s.length ≤ e.length := by
  induction encodes with
  | nil => rfl
  | literal _ _ ih => simpa using ih
  | plus _ ih => simpa using ih
  | escape _ _ _ _ ih =>
      simp only [List.length_cons]
      omega

theorem PercentEncodes.eq_self_iff (encodes : PercentEncodes literal s e)
    (space : literal 32 = false) : e = s ↔ ∀ c ∈ s, literal c = true := by
  induction encodes with
  | nil => simp
  | literal inClass _ ih => simp [inClass, ih]
  | plus _ ih => simp [space]
  | @escape c a b s e other high low rest ih =>
      constructor
      · intro same
        have longer := rest.length_le
        have short := congrArg List.length (List.cons.inj same).2
        simp only [List.length_cons] at short
        omega
      · intro all
        rw [all c (by simp)] at other
        cases other

theorem byte_escape {a b c : UInt8} (high : hexDigit a = some (c.toNat / 16))
    (low : hexDigit b = some (c.toNat % 16)) : (PercentUnit.escape a b).byte = c := by
  rw [PercentUnit.byte, high, low, Option.getD_some, Option.getD_some, Nat.div_add_mod,
    UInt8.ofNat_toNat]

theorem percentDecode_encoding (encodes : PercentEncodes literal s e)
    (reserved : literal 37 = false ∧ literal 43 = false) : percentDecode e = some s := by
  suffices units : (percentUnits e).all PercentUnit.wellFormed = true ∧
      (percentUnits e).map PercentUnit.byte = s by
    rw [percentDecode, if_pos units.1, units.2]
  induction encodes with
  | nil => exact ⟨rfl, rfl⟩
  | @literal c s e inClass _ ih =>
      have notPercent : c ≠ 37 := by
        rintro rfl
        rw [inClass] at reserved
        cases reserved.1
      have notPlus : c ≠ 43 := by
        rintro rfl
        rw [inClass] at reserved
        cases reserved.2
      rw [percentUnits_literal notPercent]
      simp [PercentUnit.wellFormed, PercentUnit.byte, notPlus, ih]
  | plus _ ih =>
      rw [percentUnits_literal (by decide)]
      simp [PercentUnit.wellFormed, PercentUnit.byte, ih]
  | @escape c a b s e _ high low _ ih =>
      rw [percentUnits_escape, List.all_cons, List.map_cons, byte_escape high low, ih.2]
      simp [PercentUnit.wellFormed, high, low, ih.1]

end Encodings
end TscServer.Lib
