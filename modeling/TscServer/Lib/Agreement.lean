import TscServer.Lib.Proc

/-!
# Computations side by side

Two computations agree when they return the same values, throw the same errors or neither returns, and when
the states that they return with are related.
-/

namespace TscServer.Lib

/-- Outcomes that differ in nothing but the states, which `Q` relates when a value is returned. -/
inductive Outcome.Agrees {ε σ τ α : Type} (Q : σ → τ → Prop) : Outcome ε σ α → Outcome ε τ α → Prop
  | done {a : α} {s : σ} {t : τ} : Q s t → Agrees Q (.done a s) (.done a t)
  | threw {e : ε} {s : σ} {t : τ} : Agrees Q (.threw e s) (.threw e t)
  | running : Agrees Q .running .running

namespace Proc
variable {ε σ τ α β : Type} {P Q R : σ → τ → Prop} {x : Proc ε σ α} {y : Proc ε τ α}
  {f : α → Proc ε σ β} {g : α → Proc ε τ β}

/-- From states that `P` relates the two computations end alike, in states that `Q` relates. -/
def Agrees (P Q : σ → τ → Prop) (x : Proc ε σ α) (y : Proc ε τ α) : Prop :=
  ∀ s t, P s t → Outcome.Agrees Q (x.run s) (y.run t)

theorem agrees_pure (a : α) : Agrees P P (pure a : Proc ε σ α) (pure a) := fun _ _ related => .done related

theorem agrees_modify {h : σ → σ} {k : τ → τ} (keeps : ∀ s t, P s t → Q (h s) (k t)) :
    Agrees P Q (modify h : Proc ε σ Unit) (modify k) := fun s t related => .done (keeps s t related)

theorem agrees_throw (e : ε) : Agrees P Q (throw e : Proc ε σ α) (throw e) := fun _ _ _ => .threw

theorem agrees_spin : Agrees P Q (spin : Proc ε σ α) spin := fun _ _ _ => .running

theorem agrees_ofOption (e : ε) (a : Option α) : Agrees P P (ofOption e a : Proc ε σ α) (ofOption e a) := by
  cases a with
  | none => exact agrees_throw e
  | some a => exact agrees_pure a

theorem Agrees.bind (first : Agrees P Q x y) (next : ∀ a, Agrees Q R (f a) (g a)) :
    Agrees P R (x >>= f) (y >>= g) := by
  intro s t related
  have ends := first s t related
  rw [run_bind, run_bind]
  generalize x.run s = left at ends
  generalize y.run t = right at ends
  cases ends with
  | done related => exact next _ _ _ related
  | threw => exact .threw
  | running => exact .running

theorem agrees_get_bind {f : σ → Proc ε σ β} {g : τ → Proc ε τ β}
    (next : ∀ s t, P s t → Agrees (fun s' t' => s = s' ∧ t = t') Q (f s) (g t)) :
    Agrees P Q (get >>= f) (get >>= g) := fun s t related => next s t related s t ⟨rfl, rfl⟩

theorem Agrees.mono {P' Q' : σ → τ → Prop} (agrees : Agrees P Q x y) (before : ∀ s t, P' s t → P s t)
    (behind : ∀ s t, Q s t → Q' s t) : Agrees P' Q' x y := by
  intro s t related
  have ends := agrees s t (before s t related)
  generalize x.run s = left at ends
  generalize y.run t = right at ends
  cases ends with
  | done related => exact .done (behind _ _ related)
  | threw => exact .threw
  | running => exact .running

theorem Agrees.done (agrees : Agrees P Q x y) {s s' : σ} {t : τ} {a : α} (related : P s t)
    (ran : x.run s = .done a s') : ∃ t', y.run t = .done a t' ∧ Q s' t' := by
  have ends := agrees s t related
  rw [ran] at ends
  generalize y.run t = right at ends
  cases ends with
  | done related => exact ⟨_, rfl, related⟩

end Proc
end TscServer.Lib
