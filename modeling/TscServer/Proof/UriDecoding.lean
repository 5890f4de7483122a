import TscServer.Spec.UriText

/-!
# Percent decoding of URIs

`uri_decode` leaves the two bytes of an escape to the extraction of a number, which takes less than two
digits. `uriDecode_exact_iff` says where the result is that of percent decoding.
-/

namespace TscServer.Proof
open Lib Model Spec

/-! ## One escape -/

theorem hexDigit_isSome_iff {a : UInt8} : (hexDigit a).isSome ↔
    (48 ≤ a.toNat ∧ a.toNat ≤ 57) ∨ (97 ≤ a.toNat ∧ a.toNat ≤ 102) ∨ (65 ≤ a.toNat ∧ a.toNat ≤ 70) := by
  unfold hexDigit isDigit
  split_ifs <;> simp_all [UInt8.le_iff_toNat_le]

theorem notBlank_of_hexDigit {a : UInt8} (digit : (hexDigit a).isSome) :
    isSpace a = false ∧ a ≠ 43 ∧ a ≠ 45 := by
  rw [hexDigit_isSome_iff] at digit
  refine ⟨?_, ?_, ?_⟩
  · exact isSpace_of_lt (by omega)
  · rintro rfl
    simp at digit
  · rintro rfl
    simp at digit

theorem extractHex_digits {a b : UInt8} {high low : Nat} (first : hexDigit a = some high)
    (second : hexDigit b = some low) : Request.extractHex a b = some ((16 * high + low : Nat) : Int) := by
  obtain ⟨solid, notPlus, notMinus⟩ := notBlank_of_hexDigit (a := a) (by rw [first]; rfl)
  simp [Request.extractHex, first, second, solid, notPlus, notMinus]

theorem extractHex_isSome (a b : UInt8) : (Request.extractHex a b).isSome =
    ((PercentUnit.escape a b).wellFormed || misread (.escape a b)) := by
  unfold Request.extractHex
  rw [PercentUnit.wellFormed, misread]
  cases first : hexDigit a with
  | some high =>
      obtain ⟨solid, notPlus, notMinus⟩ := notBlank_of_hexDigit (a := a) (by rw [first]; rfl)
      cases second : hexDigit b with
      | some low => simp [solid, notPlus, notMinus]
      | none =>
          by_cases zeroX : a = 48 ∧ (b = 120 ∨ b = 88)
          · simp [zeroX]
            tauto
          · simp [solid, notPlus, notMinus, zeroX]
            tauto
  | none =>
      cases second : hexDigit b with
      | some low =>
          by_cases blank : isSpace a = true ∨ a = 43
          · rcases blank with blank | rfl <;> simp [*]
          · obtain ⟨solid, notPlus⟩ := not_or.mp blank
            by_cases minus : a = 45
            · simp [minus, show isSpace 45 = false by decide]
            · simp [solid, notPlus, minus]
      | none => simp

/-! ## The loop -/

theorem uriDecode_literal {c : UInt8} (other : c ≠ 37) (s : Bytes) :
    Request.uriDecode (c :: s) =
      (Request.uriDecode s).map ((PercentUnit.literal c).byte :: ·) := by
  conv_lhs => unfold Request.uriDecode
  rw [if_neg other]
  rfl

theorem uriDecode_escape (a b : UInt8) (s : Bytes) : Request.uriDecode (37 :: a :: b :: s) =
    (Request.extractHex a b).bind fun value =>
      (Request.uriDecode s).map (Request.toByte value :: ·) := by
  rw [Request.uriDecode, if_pos rfl]

theorem uriDecode_cut {rest : Bytes} (short : ∀ a b s, rest = a :: b :: s → False) :
    Request.uriDecode (37 :: rest) = none := by
  rw [Request.uriDecode, if_pos rfl]
  exact short

theorem toByte_digits (high low : Nat) :
    Request.toByte ((16 * high + low : Nat) : Int) = UInt8.ofNat (16 * high + low) := by
  rw [Request.toByte]
  have mod : (((16 * high + low : Nat) : Int) % 256).toNat = (16 * high + low) % 256 := by omega
  rw [mod]
  apply UInt8.toNat_inj.mp
  simp

theorem uriDecode_wellFormed {a b : UInt8} (form : (PercentUnit.escape a b).wellFormed = true)
    (s : Bytes) : Request.uriDecode (37 :: a :: b :: s) =
      (Request.uriDecode s).map ((PercentUnit.escape a b).byte :: ·) := by
  obtain ⟨digitA, digitB⟩ := Bool.and_eq_true_iff.mp form
  obtain ⟨high, first⟩ := Option.isSome_iff_exists.mp digitA
  obtain ⟨low, second⟩ := Option.isSome_iff_exists.mp digitB
  rw [uriDecode_escape, extractHex_digits first second, Option.bind_some, toByte_digits,
    PercentUnit.byte, first, second]
  rfl

theorem uriDecode_of_wellFormed {s : Bytes} (form : (percentUnits s).all PercentUnit.wellFormed) :
    Request.uriDecode s = some ((percentUnits s).map PercentUnit.byte) := by
  fun_induction percentUnits s with
  | case1 => rfl
  | case2 a b s ih =>
      obtain ⟨here, later⟩ := Bool.and_eq_true_iff.mp form
      rw [uriDecode_wellFormed here, ih later]
      rfl
  | case3 s short => cases form
  | case4 c s literal ih =>
      rw [uriDecode_literal literal, ih form]
      rfl

theorem uriDecode_eq_none_iff (s : Bytes) :
    Request.uriDecode s = none ↔ ∃ u ∈ percentUnits s, rejected u = true := by
  fun_induction percentUnits s with
  | case1 => simp [Request.uriDecode]
  | case2 a b s ih =>
      have number := extractHex_isSome a b
      rw [uriDecode_escape, List.exists_mem_cons_iff, ← ih, rejected, ← Bool.not_or, ← number]
      cases Request.extractHex a b <;> simp
  | case3 s short =>
      rw [uriDecode_cut short]
      exact iff_of_true rfl ⟨.cut s, by simp, rfl⟩
  | case4 c s literal ih =>
      rw [uriDecode_literal literal, List.exists_mem_cons_iff, ← ih, Option.map_eq_none_iff]
      simp [rejected, PercentUnit.wellFormed]

theorem wellFormed_of_misread {unit : PercentUnit} (bad : misread unit = true) :
    unit.wellFormed = false := by
  cases unit with
  | literal c => cases bad
  | escape a b =>
      rw [PercentUnit.wellFormed]
      by_contra digits
      obtain ⟨first, second⟩ := Bool.and_eq_true_iff.mp (Bool.not_eq_false _ |>.mp digits)
      obtain ⟨solid, notPlus, notMinus⟩ := notBlank_of_hexDigit first
      simp [misread, solid, notPlus, notMinus, Option.isNone_iff_eq_none, ← Option.not_isSome_iff_eq_none,
        second] at bad
  | cut rest => rfl

theorem uriDecode_exact_iff (s : Bytes) : Request.uriDecode s = percentDecode s ↔
    (∀ u ∈ percentUnits s, misread u = false) ∨ ∃ u ∈ percentUnits s, rejected u = true := by
  by_cases form : (percentUnits s).all PercentUnit.wellFormed
  · rw [uriDecode_of_wellFormed form, percentDecode, if_pos form]
    refine iff_of_true rfl (.inl fun u mem => ?_)
    by_contra bad
    have here := List.all_eq_true.mp form u mem
    rw [wellFormed_of_misread (Bool.not_eq_false _ |>.mp bad)] at here
    cases here
  · rw [percentDecode, if_neg form, uriDecode_eq_none_iff]
    constructor
    · exact .inr
    · intro held
      rcases held with read | refused
      · obtain ⟨u, mem, bad⟩ := List.all_eq_false.mp (Bool.not_eq_true _ |>.mp form)
        exact ⟨u, mem, by simp [rejected, bad, read u mem]⟩
      · exact refused

theorem uriDecode_short_escape : Request.uriDecode (bytes "%5g") ≠ percentDecode (bytes "%5g") := by
  decide

end TscServer.Proof
