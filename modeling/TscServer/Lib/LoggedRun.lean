import Mathlib.Logic.Basic

/-!
# Runs with their inputs

A run keeps the list of its inputs, the last one first. A step may ask what came before it.
-/

namespace TscServer.Lib

inductive LoggedRun {ι σ : Type} (step : List ι → ι → σ → σ → Prop) (init : σ) : List ι → σ → Prop
  | start : LoggedRun step init [] init
  | next {log : List ι} {input : ι} {s s' : σ} :
      LoggedRun step init log s → step log input s s' → LoggedRun step init (input :: log) s'

namespace LoggedRun
variable {ι σ τ : Type} {step : List ι → ι → σ → σ → Prop} {step' : List ι → ι → τ → τ → Prop}
  {init : σ} {init' : τ} {log : List ι} {s : σ}

/-- A relation between the states that steps on the one side keep with a step on the other side:
the two systems run on the same inputs. -/
theorem simulates {R : List ι → σ → τ → Prop} (start : R [] init init')
    (next : ∀ log input s s' t, R log s t → step log input s s' →
      ∃ t', step' log input t t' ∧ R (input :: log) s' t')
    (run : LoggedRun step init log s) : ∃ t, LoggedRun step' init' log t ∧ R log s t := by
  induction run with
  | start => exact ⟨init', .start, start⟩
  | next _ here ih =>
      obtain ⟨t, run', related⟩ := ih
      obtain ⟨t', there, related'⟩ := next _ _ _ _ t related here
      exact ⟨t', .next run' there, related'⟩

end LoggedRun

inductive RunAlways {ι σ : Type} (step : List ι → ι → σ → σ → Prop) (init : σ) (P : σ → Prop) :
    List ι → σ → Prop
  | start : P init → RunAlways step init P [] init
  | next {log : List ι} {input : ι} {s s' : σ} :
      RunAlways step init P log s → step log input s s' → P s' →
      RunAlways step init P (input :: log) s'

namespace RunAlways
variable {ι σ : Type} {step : List ι → ι → σ → σ → Prop} {init : σ} {P : σ → Prop} {log : List ι} {s : σ}

theorem last (always : RunAlways step init P log s) : P s := by
  cases always with
  | start here => exact here
  | next _ _ here => exact here

theorem run (always : RunAlways step init P log s) : LoggedRun step init log s := by
  induction always with
  | start => exact .start
  | next _ stepped _ ih => exact ih.next stepped

/-- A run logs entries along with its states. If `P` fails as soon as an entry without `Q` is logged, and
holds as long as all entries have `Q`, then it holds throughout the run exactly when they all have. -/
theorem iff_of_entries {α : Type} {entries : σ → List α} {Q : α → Prop} (start : P init)
    (none_ : entries init = [])
    (next : ∀ log input s s', LoggedRun step init log s → step log input s s' →
      ∃ new, entries s' = entries s ++ new ∧ (P s → P s' → ∀ a ∈ new, Q a) ∧
        (P s → (∀ a ∈ entries s', Q a) → P s'))
    (run : LoggedRun step init log s) : RunAlways step init P log s ↔ ∀ a ∈ entries s, Q a := by
  constructor
  · intro always
    clear run
    induction always with
    | start _ => simp [none_]
    | next before stepped here ih =>
        obtain ⟨new, grown, fails, -⟩ := next _ _ _ _ before.run stepped
        intro a mem
        rw [grown, List.mem_append] at mem
        rcases mem with old | added
        · exact ih a old
        · exact fails before.last here a added
  · intro all
    induction run with
    | start => exact .start start
    | next before stepped ih =>
        obtain ⟨new, grown, -, holds⟩ := next _ _ _ _ before stepped
        have always := ih fun a old => all a (grown ▸ List.mem_append_left new old)
        exact always.next stepped (holds always.last all)

end RunAlways
end TscServer.Lib
