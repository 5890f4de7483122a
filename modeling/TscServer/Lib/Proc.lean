import Mathlib.Logic.Basic

/-!
# Stateful computations that may throw or not return

`Proc ε σ α` computes on a state `σ`: it returns a value, throws, or is still running when its fuel
is used up. `wp` is its partial correctness: what holds of the value and the state when it returns,
and of the error and the state when it throws.
-/

namespace TscServer.Lib

inductive Outcome (ε σ α : Type) where
  | done (value : α) (state : σ)
  | threw (error : ε) (state : σ)
  | running

namespace Outcome
variable {ε σ α : Type}

def value? : Outcome ε σ α → Option α
  | .done a _ => some a
  | _ => none

def error? : Outcome ε σ α → Option ε
  | .threw e _ => some e
  | _ => none

def state? : Outcome ε σ α → Option σ
  | .done _ s => some s
  | .threw _ s => some s
  | .running => none

-- it returns, with such a value and state
def any (test : α → σ → Bool) : Outcome ε σ α → Bool
  | .done a s => test a s
  | _ => false

theorem exists_done_of_any {outcome : Outcome ε σ α} {test : α → σ → Bool}
    (computed : outcome.any test = true) : ∃ a s, outcome = .done a s ∧ test a s = true := by
  cases outcome with
  | done a s => exact ⟨a, s, rfl, computed⟩
  | threw e s => cases computed
  | running => cases computed

theorem exists_done_of_value {outcome : Outcome ε σ α} {a : α} (value : outcome.value? = some a) :
    ∃ s, outcome = .done a s := by
  cases outcome with
  | done b s =>
      obtain rfl := Option.some.inj value
      exact ⟨s, rfl⟩
  | threw e s => cases value
  | running => cases value

theorem exists_state_of_ne_running {outcome : Outcome ε σ α} (ended : outcome ≠ .running) :
    ∃ s, outcome.state? = some s := by
  cases outcome with
  | done a s => exact ⟨s, rfl⟩
  | threw e s => exact ⟨s, rfl⟩
  | running => exact absurd rfl ended

end Outcome

structure Proc (ε σ α : Type) where
  run : σ → Outcome ε σ α

namespace Proc
variable {ε σ α β : Type}

def get : Proc ε σ σ := ⟨fun s => .done s s⟩

def modify (f : σ → σ) : Proc ε σ Unit := ⟨fun s => .done () (f s)⟩

def throw (e : ε) : Proc ε σ α := ⟨fun s => .threw e s⟩

def spin : Proc ε σ α := ⟨fun _ => .running⟩

def ofOption (e : ε) : Option α → Proc ε σ α
  | some a => ⟨fun s => .done a s⟩
  | none => throw e

instance : Monad (Proc ε σ) where
  pure a := ⟨fun s => .done a s⟩
  bind x f := ⟨fun s =>
    match x.run s with
    | .done a s' => (f a).run s'
    | .threw e s' => .threw e s'
    | .running => .running⟩

def wp (x : Proc ε σ α) (Q : α → σ → Prop) (E : ε → σ → Prop) (s : σ) : Prop :=
  match x.run s with
  | .done a s' => Q a s'
  | .threw e s' => E e s'
  | .running => True

variable {x : Proc ε σ α} {f : α → Proc ε σ β} {Q : α → σ → Prop} {R : β → σ → Prop}
  {E : ε → σ → Prop} {s : σ}

/-! ## Running -/

@[simp] theorem run_pure (a : α) (s : σ) : (pure a : Proc ε σ α).run s = .done a s := rfl

@[simp] theorem run_get (s : σ) : (get : Proc ε σ σ).run s = .done s s := rfl

@[simp] theorem run_modify (g : σ → σ) (s : σ) : (modify g : Proc ε σ Unit).run s = .done () (g s) :=
  rfl

@[simp] theorem run_throw (e : ε) (s : σ) : (throw e : Proc ε σ α).run s = .threw e s := rfl

@[simp] theorem run_spin (s : σ) : (spin : Proc ε σ α).run s = .running := rfl

@[simp] theorem ofOption_some (e : ε) (a : α) : (ofOption e (some a) : Proc ε σ α) = pure a := rfl

@[simp] theorem ofOption_none (e : ε) : (ofOption e none : Proc ε σ α) = throw e := rfl

theorem run_bind : (x >>= f).run s =
    match x.run s with
    | .done a s' => (f a).run s'
    | .threw e s' => .threw e s'
    | .running => .running := rfl

@[simp] theorem pure_bind (a : α) : (pure a : Proc ε σ α) >>= f = f a := rfl

theorem bind_assoc {γ : Type} (x : Proc ε σ α) (f : α → Proc ε σ β) (g : β → Proc ε σ γ) :
    (x >>= f) >>= g = x >>= fun a => f a >>= g := by
  apply congrArg Proc.mk
  funext s
  dsimp only [Bind.bind]
  cases x.run s <;> rfl

@[simp] theorem run_get_bind {f : σ → Proc ε σ β} : (get >>= f).run s = (f s).run s := rfl

@[simp] theorem run_modify_bind {g : σ → σ} {f : Unit → Proc ε σ β} :
    (modify g >>= f).run s = (f ()).run (g s) := rfl

@[simp] theorem run_throw_bind (e : ε) : ((throw e : Proc ε σ α) >>= f).run s = .threw e s := rfl

@[simp] theorem run_spin_bind : ((spin : Proc ε σ α) >>= f).run s = .running := rfl

theorem run_bind_of_done {a : α} {s' : σ} (h : x.run s = .done a s') :
    (x >>= f).run s = (f a).run s' := by
  rw [run_bind, h]

theorem run_bind_of_threw {e : ε} {s' : σ} (h : x.run s = .threw e s') :
    (x >>= f).run s = .threw e s' := by
  rw [run_bind, h]

theorem run_bind_eq_done {b : β} {s' : σ} :
    (x >>= f).run s = .done b s' ↔ ∃ a mid, x.run s = .done a mid ∧ (f a).run mid = .done b s' := by
  rw [run_bind]
  cases x.run s with
  | done a mid =>
      constructor
      · intro ran
        exact ⟨a, mid, rfl, ran⟩
      · intro ⟨_, _, same, ran⟩
        cases same
        exact ran
  | threw e mid => simp
  | running => simp

/-! ## Partial correctness -/

@[simp] theorem wp_pure (a : α) : wp (pure a : Proc ε σ α) Q E s = Q a s := rfl

@[simp] theorem wp_get {Q : σ → σ → Prop} : wp (get : Proc ε σ σ) Q E s = Q s s := rfl

@[simp] theorem wp_modify {g : σ → σ} {Q : Unit → σ → Prop} :
    wp (modify g : Proc ε σ Unit) Q E s = Q () (g s) := rfl

@[simp] theorem wp_throw (e : ε) : wp (throw e : Proc ε σ α) Q E s = E e s := rfl

@[simp] theorem wp_spin : wp (spin : Proc ε σ α) Q E s = True := rfl

theorem wp_ofOption (e : ε) (a : Option α) :
    wp (ofOption e a : Proc ε σ α) Q E s = (a.elim (E e s) (Q · s)) := by
  cases a <;> rfl

@[simp] theorem wp_bind :
    wp (x >>= f) R E s = wp x (fun a s' => wp (f a) R E s') E s := by
  simp only [wp, run_bind]
  cases x.run s <;> rfl

theorem wp_mono {Q' : α → σ → Prop} {E' : ε → σ → Prop} (h : wp x Q E s)
    (value : ∀ a s', Q a s' → Q' a s') (error : ∀ e s', E e s' → E' e s') : wp x Q' E' s := by
  unfold wp at h ⊢
  cases hx : x.run s with
  | done a s' => exact value a s' (by simpa [hx] using h)
  | threw e s' => exact error e s' (by simpa [hx] using h)
  | running => trivial

theorem wp_bind_of_forall (value : ∀ a s', wp (f a) R E s') (error : ∀ e s', E e s') :
    wp (x >>= f) R E s := by
  rw [wp_bind]
  unfold wp
  cases x.run s with
  | done a s' => exact value a s'
  | threw e s' => exact error e s'
  | running => trivial

theorem wp_ite {c : Prop} [Decidable c] {y : Proc ε σ α} :
    wp (if c then x else y) Q E s = if c then wp x Q E s else wp y Q E s := by
  split <;> rfl

theorem wp_iff : wp x Q E s ↔
    (∀ a s', x.run s = .done a s' → Q a s') ∧ (∀ e s', x.run s = .threw e s' → E e s') := by
  unfold wp
  cases x.run s with
  | done a s' => simp
  | threw e s' => simp
  | running => simp

theorem wp_of_done {a : α} {s' : σ} (done : x.run s = .done a s') (h : Q a s') : wp x Q E s := by
  rwa [wp, done]

theorem wp_of_threw {e : ε} {s' : σ} (threw : x.run s = .threw e s') (h : E e s') : wp x Q E s := by
  rwa [wp, threw]

theorem wp_done {a : α} {s' : σ} (h : wp x Q E s) (done : x.run s = .done a s') : Q a s' :=
  (wp_iff.mp h).1 a s' done

theorem wp_state {s' : σ} (h : wp x Q E s) (final : (x.run s).state? = some s') :
    (∃ a, Q a s') ∨ ∃ e, E e s' := by
  unfold wp at h
  cases ran : x.run s with
  | done a after =>
      rw [ran] at h final
      obtain rfl := Option.some.inj final
      exact .inl ⟨a, h⟩
  | threw e after =>
      rw [ran] at h final
      obtain rfl := Option.some.inj final
      exact .inr ⟨e, h⟩
  | running =>
      rw [ran] at final
      cases final

theorem wp_threw {e : ε} {s' : σ} (h : wp x Q E s) (threw : x.run s = .threw e s') : E e s' :=
  (wp_iff.mp h).2 e s' threw

/-! ## Computations that return -/

def Halts (x : Proc ε σ α) : Prop := ∀ s, x.run s ≠ .running

theorem halts_pure (a : α) : Halts (pure a : Proc ε σ α) := fun _ h => by cases h

theorem halts_get : Halts (get : Proc ε σ σ) := fun _ h => by cases h

theorem halts_modify (g : σ → σ) : Halts (modify g : Proc ε σ Unit) := fun _ h => by cases h

theorem halts_throw (e : ε) : Halts (throw e : Proc ε σ α) := fun _ h => by cases h

theorem halts_ofOption (e : ε) (a : Option α) : Halts (ofOption e a : Proc ε σ α) := by
  cases a with
  | none => exact halts_throw e
  | some a => exact halts_pure a

theorem Halts.bind (first : Halts x) (second : ∀ a, Halts (f a)) : Halts (x >>= f) := by
  intro s running
  rw [run_bind] at running
  cases ran : x.run s with
  | done a s' =>
      rw [ran] at running
      exact second a s' running
  | threw e s' =>
      rw [ran] at running
      cases running
  | running => exact first s ran

theorem Halts.ite {c : Prop} [Decidable c] {y : Proc ε σ α} (hx : Halts x) (hy : Halts y) :
    Halts (if c then x else y) := by
  split
  · exact hx
  · exact hy

theorem Halts.done (halts : Halts x) (h : wp x Q (fun _ _ => False) s) :
    ∃ a s', x.run s = .done a s' ∧ Q a s' := by
  cases ran : x.run s with
  | done a s' => exact ⟨a, s', rfl, wp_done h ran⟩
  | threw e s' => exact (wp_threw h ran).elim
  | running => exact absurd ran (halts s)

/-! ## Total correctness -/

def twp (x : Proc ε σ α) (Q : α → σ → Prop) (E : ε → σ → Prop) (s : σ) : Prop :=
  match x.run s with
  | .done a s' => Q a s'
  | .threw e s' => E e s'
  | .running => False

@[simp] theorem twp_pure (a : α) : twp (pure a : Proc ε σ α) Q E s = Q a s := rfl

@[simp] theorem twp_get {Q : σ → σ → Prop} : twp (get : Proc ε σ σ) Q E s = Q s s := rfl

@[simp] theorem twp_modify {g : σ → σ} {Q : Unit → σ → Prop} :
    twp (modify g : Proc ε σ Unit) Q E s = Q () (g s) := rfl

@[simp] theorem twp_throw (e : ε) : twp (throw e : Proc ε σ α) Q E s = E e s := rfl

@[simp] theorem twp_bind : twp (x >>= f) R E s = twp x (fun a s' => twp (f a) R E s') E s := by
  simp only [twp, run_bind]
  cases x.run s <;> rfl

theorem twp_congr {y : Proc ε σ α} {s' : σ} (same : x.run s = y.run s') :
    twp x Q E s = twp y Q E s' := by
  rw [twp, same, twp]

theorem wp_congr {y : Proc ε σ α} {s' : σ} (same : x.run s = y.run s') :
    wp x Q E s = wp y Q E s' := by
  rw [wp, same, wp]

theorem wp_of_twp (h : twp x Q E s) : wp x Q E s := by
  unfold twp at h
  unfold wp
  cases ran : x.run s with
  | done a s' => rwa [ran] at h
  | threw e s' => rwa [ran] at h
  | running => trivial

theorem twp_of_wp (returns : x.run s ≠ .running) (h : wp x Q E s) : twp x Q E s := by
  unfold wp at h
  unfold twp
  cases ran : x.run s with
  | done a s' => rwa [ran] at h
  | threw e s' => rwa [ran] at h
  | running => exact absurd ran returns

theorem twp_of_done {a : α} {s' : σ} (ran : x.run s = .done a s') (h : Q a s') : twp x Q E s := by
  rw [twp, ran]
  exact h

theorem not_running_of_twp (h : twp x Q E s) : x.run s ≠ .running := by
  intro running
  rwa [twp, running] at h

theorem twp_mono {Q' : α → σ → Prop} {E' : ε → σ → Prop} (h : twp x Q E s)
    (value : ∀ a s', Q a s' → Q' a s') (error : ∀ e s', E e s' → E' e s') : twp x Q' E' s :=
  twp_of_wp (not_running_of_twp h) (wp_mono (wp_of_twp h) value error)

theorem done_of_twp (h : twp x Q (fun _ _ => False) s) :
    ∃ a s', x.run s = .done a s' ∧ Q a s' := by
  unfold twp at h
  cases ran : x.run s with
  | done a s' => exact ⟨a, s', rfl, by rwa [ran] at h⟩
  | threw e s' =>
      rw [ran] at h
      exact h.elim
  | running =>
      rw [ran] at h
      exact h.elim

theorem twp_and_wp {Q' : α → σ → Prop} {E' : ε → σ → Prop} (h : twp x Q E s) (h' : wp x Q' E' s) :
    twp x (fun a s' => Q a s' ∧ Q' a s') (fun e s' => E e s' ∧ E' e s') s := by
  unfold twp at h ⊢
  unfold wp at h'
  cases ran : x.run s with
  | done a s' =>
      rw [ran] at h h'
      exact ⟨h, h'⟩
  | threw e s' =>
      rw [ran] at h h'
      exact ⟨h, h'⟩
  | running => rwa [ran] at h

end Proc
end TscServer.Lib
