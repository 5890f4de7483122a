import TscServer.Spec.Configuration

/-!
# Ports and thread counts

`stoi` and `lexical_cast` as checks of a setting. The cast reads exactly the numerals of an `int`; `stoi`
reads more than the numerals of a port, and one of its exceptions is not caught.
-/

namespace TscServer.Proof
open Lib Model Spec ConfigHandler

/-! ## One statement of a list -/

theorem handleStatements_cons (statement : NginxConfigStatement) (statements : List NginxConfigStatement)
    (handler : ConfigHandler) : handleStatements (statement :: statements) handler =
      (handleStatement statement handler).bind (handleStatements statements) := by
  rw [handleStatements]
  cases handleStatement statement handler <;> rfl

theorem handleStatements_append (before after : List NginxConfigStatement) (handler : ConfigHandler) :
    handleStatements (before ++ after) handler =
      (handleStatements before handler).bind (handleStatements after) := by
  induction before generalizing handler with
  | nil => rfl
  | cons statement before ih =>
      rw [List.cons_append, handleStatements_cons, handleStatements_cons]
      cases handleStatement statement handler with
      | error refusal => rfl
      | ok handler => exact ih handler

theorem bind_handleStatements_nil (result : Except Refusal ConfigHandler) :
    result.bind (handleStatements []) = result := by
  cases result <;> rfl

theorem hasResult_iff {statement : NginxConfigStatement} {result : ConfigHandler → Except Refusal ConfigHandler} :
    HasResult statement result ↔ ∀ handler, handleStatement statement handler = result handler := by
  constructor
  · intro takes handler
    have alone : (handleStatement statement handler).bind (handleStatements []) =
        (result handler).bind (handleStatements []) := by
      rw [← handleStatements_cons]
      exact takes [] [] handler
    rwa [bind_handleStatements_nil, bind_handleStatements_nil] at alone
  · intro same before after handler
    rw [handleStatements_append]
    congr 1
    funext handler
    rw [handleStatements_cons, same]

/-! ## Threads -/

section Settings
variable {t : Bytes}

theorem handleStatement_thread (t : Bytes) (childBlock : Option (List NginxConfigStatement))
    (handler : ConfigHandler) : handleStatement (.mk [bytes "thread", t] childBlock) handler =
      match lexicalCastInt t with
      | none => .error .invalid
      | some threadCount =>
          if 0 < threadCount then
            .ok { handler with configOpt := { handler.configOpt with threadCount } }
          else .error .invalid := by
  cases childBlock <;> rfl

theorem threadChecked (t : Bytes) : ThreadChecked t where
  accepts threadCount denotes positive range childBlock := by
    refine hasResult_iff.mpr fun handler => ?_
    have cast := lexicalCastInt_eq_some_iff.mpr ⟨denotes, by omega, range⟩
    rw [handleStatement_thread, cast]
    exact if_pos positive
  refuses other childBlock := by
    refine hasResult_iff.mpr fun handler => ?_
    rw [handleStatement_thread]
    cases cast : lexicalCastInt t with
    | none => rfl
    | some n =>
        obtain ⟨denotes, -, high⟩ := lexicalCastInt_eq_some_iff.mp cast
        exact if_neg fun positive => other n denotes ⟨positive, high⟩

/-! ## Ports -/

theorem handleStatement_port (t : Bytes) (childBlock : Option (List NginxConfigStatement))
    (handler : ConfigHandler) : handleStatement (.mk [bytes "port", t] childBlock) handler =
      match leadingNumber t with
      | none => .error .invalid
      | some n =>
          if -2 ^ 31 ≤ n ∧ n < 2 ^ 31 then
            if n ≤ 65535 ∧ 0 ≤ n then
              .ok { handler with configOpt := { handler.configOpt with port := t } }
            else .error .invalid
          else .error (.fault .outOfRange) := by
  have unfolded : handleStatement (.mk [bytes "port", t] childBlock) handler =
      handlePort [bytes "port", t] handler := by
    cases childBlock <;> rfl
  rw [unfolded, handlePort, stoi_eq]
  cases leadingNumber t with
  | none => rfl
  | some n =>
      dsimp only
      by_cases range : -2 ^ 31 ≤ n ∧ n < 2 ^ 31
      · rw [if_pos range, if_pos range]
        rfl
      · rw [if_neg range, if_neg range]

theorem portChecked_of_plain (plain : PlainlyNumbered t) : PortChecked t where
  accepts numeral range childBlock := by
    refine hasResult_iff.mpr fun handler => ?_
    rw [handleStatement_port, leadingNumber_numeral numeral]
    dsimp only
    rw [if_pos (by omega), if_pos (by omega)]
  refuses other childBlock := by
    refine hasResult_iff.mpr fun handler => ?_
    rw [handleStatement_port]
    cases number : leadingNumber t with
    | none => rfl
    | some n =>
        obtain ⟨low, high, digits⟩ := plain n number
        dsimp only
        rw [if_pos ⟨low, high⟩, if_neg]
        rintro ⟨atMost, atLeast⟩
        have numeral := digits atLeast atMost
        rw [leadingNumber_numeral numeral] at number
        obtain rfl := Option.some.inj number
        exact other ⟨numeral, by omega⟩

theorem plain_of_portChecked (checked : PortChecked t) : PlainlyNumbered t := by
  intro n number
  have run (handler : ConfigHandler) := handleStatement_port t none handler
  rw [number] at run
  dsimp only at run
  by_cases numeral : IsNumeral t ∧ decimal t ≤ 65535
  · rw [leadingNumber_numeral numeral.1] at number
    obtain rfl := Option.some.inj number
    exact ⟨by omega, by omega, fun _ _ => numeral.1⟩
  · have refused := hasResult_iff.mp (checked.refuses numeral none) {}
    rw [run] at refused
    split at refused
    · rename_i range
      split at refused
      · cases refused
      · rename_i outside
        exact ⟨range.1, range.2, fun atLeast atMost => absurd ⟨atMost, atLeast⟩ outside⟩
    · cases refused

/-- Both settings are checked as they should be exactly when `stoi` takes the text for what it is. -/
theorem settings_checked_iff (t : Bytes) : PortChecked t ∧ ThreadChecked t ↔ PlainlyNumbered t :=
  ⟨fun checked => plain_of_portChecked checked.1, fun plain => ⟨portChecked_of_plain plain, threadChecked t⟩⟩

theorem not_settings_checked : ¬ ∀ t, PortChecked t ∧ ThreadChecked t := by
  intro all
  have number : leadingNumber (bytes "99999999999") = some 99999999999 := by decide
  obtain ⟨-, high, -⟩ := plain_of_portChecked (all (bytes "99999999999")).1 _ number
  exact absurd high (by decide)

end Settings

end TscServer.Proof
