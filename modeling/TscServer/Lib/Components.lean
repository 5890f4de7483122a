import Mathlib.Data.List.Basic
import TscServer.Lib.LoggedRun

/-!
# Parts of a system

What a run of a system shows of one of its parts. A part that changes on inputs of its own only, by a step of
its own, has a run of its own; and where such steps do not tell two states of the part apart, its run depends
on nothing but its inputs.
-/

namespace TscServer.Lib
section Part
variable {ι κ μ σ τ : Type} {step : List ι → ι → σ → σ → Prop} {own : List κ → κ → τ → τ → Prop} {init s : σ}
  {view : σ → Option τ} {input : ι → Option κ} {fresh : τ → Prop} {log : List ι}

inductive PartStep (own : List κ → κ → τ → τ → Prop) (view : σ → Option τ) (input : ι → Option κ)
    (fresh : τ → Prop) (log : List ι) (i : ι) (s s' : σ) : Prop
  | still : input i = none → view s' = view s → PartStep own view input fresh log i s s'
  | appears {v : τ} : input i = none → view s = none → view s' = some v → fresh v →
      PartStep own view input fresh log i s s'
  | moves {k : κ} {v v' : τ} : input i = some k → view s = some v → view s' = some v' →
      own (log.filterMap input) k v v' → PartStep own view input fresh log i s s'

theorem LoggedRun.part (absent : view init = none)
    (steps : ∀ log i s s', LoggedRun step init log s → step log i s s' → PartStep own view input fresh log i s s')
    (run : LoggedRun step init log s) :
    (view s = none → log.filterMap input = []) ∧
      ∀ v, view s = some v → ∃ v₀, fresh v₀ ∧ LoggedRun own v₀ (log.filterMap input) v := by
  induction run with
  | start =>
      refine ⟨fun _ => rfl, fun v here => ?_⟩
      rw [absent] at here
      cases here
  | next before stepped ih =>
      cases steps _ _ _ _ before stepped with
      | still other same =>
          rw [List.filterMap_cons_none other, same]
          exact ih
      | appears other none_ here isFresh =>
          rw [List.filterMap_cons_none other, ih.1 none_]
          refine ⟨fun _ => rfl, fun v there => ?_⟩
          obtain rfl := Option.some.inj (here.symm.trans there)
          exact ⟨_, isFresh, .start⟩
      | moves mine here there moved =>
          rw [List.filterMap_cons_some mine]
          refine ⟨fun none_ => ?_, fun v there' => ?_⟩
          · rw [there] at none_
            cases none_
          · obtain rfl := Option.some.inj (there.symm.trans there')
            obtain ⟨v₀, isFresh, run'⟩ := ih.2 _ here
            exact ⟨v₀, isFresh, run'.next moved⟩

theorem LoggedRun.alike {seen : κ → μ} {own : κ → τ → τ → Prop} {R : τ → τ → Prop} {v₀ w₀ v w : τ} {ks ls : List κ}
    (start : R v₀ w₀)
    (next : ∀ k l v v' w w', R v w → own k v v' → own l w w' → seen k = seen l → k = l ∧ R v' w')
    (first : LoggedRun (fun _ => own) v₀ ks v) (second : LoggedRun (fun _ => own) w₀ ls w)
    (same : ks.map seen = ls.map seen) : ks = ls ∧ R v w := by
  induction first generalizing ls w with
  | start =>
      obtain rfl : ls = [] := List.map_eq_nil_iff.mp same.symm
      cases second with
      | start => exact ⟨rfl, start⟩
  | next before moved ih =>
      cases second with
      | start => cases same
      | next before' moved' =>
          obtain ⟨sees, earlier⟩ := List.cons.inj same
          obtain ⟨rfl, related⟩ := ih before' earlier
          obtain ⟨rfl, related'⟩ := next _ _ _ _ _ _ related moved moved' sees
          exact ⟨rfl, related'⟩

end Part
end TscServer.Lib
