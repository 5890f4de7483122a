import Mathlib.Data.List.Basic

/-!
# Folds that may fail

What a fold in `Except` keeps when every one of its steps succeeds.
-/

namespace TscServer.Lib

section
variable {ε α σ : Type} {f : σ → α → Except ε σ} {s s' : σ} {a : α} {l : List α}

theorem except_bind_eq_ok {β γ : Type} {x : Except ε β} {g : β → Except ε γ} {c : γ} :
    (x >>= g) = .ok c ↔ ∃ b, x = .ok b ∧ g b = .ok c := by
  cases x with
  | error e => simp [Bind.bind, Except.bind]
  | ok b => simp [Bind.bind, Except.bind]

theorem except_isOk_iff {β : Type} {x : Except ε β} : x.isOk = true ↔ ∃ b, x = .ok b := by
  cases x with
  | error e => simp [Except.isOk, Except.toBool]
  | ok b => simp [Except.isOk, Except.toBool]

theorem ok_of_toOption {β : Type} {x : Except ε β} {b : β} (same : x.toOption = some b) : x = .ok b := by
  cases x with
  | error e => cases same
  | ok c =>
      cases same
      rfl

theorem foldlM_cons_eq_ok :
    (a :: l).foldlM f s = .ok s' ↔ ∃ t, f s a = .ok t ∧ l.foldlM f t = .ok s' := by
  rw [List.foldlM_cons, except_bind_eq_ok]

/-- A relation to the elements folded so far that every successful step keeps. -/
theorem foldlM_induction {P : List α → σ → Prop} {seen : List α} (start : P seen s)
    (next : ∀ seen a t t', a ∈ l → P seen t → f t a = .ok t' → P (seen ++ [a]) t')
    (folded : l.foldlM f s = .ok s') : P (seen ++ l) s' := by
  induction l generalizing seen s with
  | nil =>
      obtain rfl := Except.ok.inj folded
      simpa using start
  | cons a l ih =>
      obtain ⟨t, first, rest⟩ := foldlM_cons_eq_ok.mp folded
      have later := ih (next seen a s t (by simp) start first)
        (fun seen b u u' mem => next seen b u u' (by simp [mem])) rest
      simpa using later

end
end TscServer.Lib
