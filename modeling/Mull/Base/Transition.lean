import Mathlib.Logic.Relation

/-! Runs of a transition system: what every step keeps holds in every state reached, and what a
decreasing measure promises is reached. -/

namespace Base
open Relation

section
variable {σ : Type} {step : σ → σ → Prop} {I P : σ → Prop}

theorem run_invariant (keeps : ∀ s t, I s → step s t → I t) {s t : σ}
    (run : ReflTransGen step s t) (start : I s) : I t := by
  induction run with
  | refl => exact start
  | tail _ last ih => exact keeps _ _ ih last

/-- From every state of the invariant a goal state is reached when each other state has a step that
stays in the invariant and lowers the measure. -/
theorem run_reaches (μ : σ → Nat) (advance : ∀ s, I s → ¬ P s → ∃ t, step s t ∧ I t ∧ μ t < μ s)
    {s : σ} (start : I s) : ∃ t, ReflTransGen step s t ∧ I t ∧ P t := by
  induction h : μ s using Nat.strongRecOn generalizing s with
  | ind n ih =>
    by_cases done : P s
    · exact ⟨s, .refl, start, done⟩
    · obtain ⟨t, first, kept, less⟩ := advance s start done
      obtain ⟨u, rest, inv, goal⟩ := ih (μ t) (by omega) kept rfl
      exact ⟨u, .head first rest, inv, goal⟩

theorem run_terminates (μ : σ → Nat) (less : ∀ s t, I s → step s t → I t ∧ μ t < μ s) {s : σ} (start : I s) :
    Acc (fun t s => step s t) s := by
  induction h : μ s using Nat.strongRecOn generalizing s with
  | ind n ih =>
    constructor
    intro t next
    obtain ⟨kept, lower⟩ := less s t start next
    exact ih (μ t) (by omega) kept rfl

theorem run_unique {next : σ → Option σ} {start a b : σ}
    (first : ReflTransGen (fun s t => next s = some t) start a)
    (second : ReflTransGen (fun s t => next s = some t) start b) (stop_a : next a = none)
    (stop_b : next b = none) :
    a = b := by
  induction first using ReflTransGen.head_induction_on with
  | refl =>
    cases second using ReflTransGen.head_induction_on with
    | refl => rfl
    | head step _ => rw [stop_a] at step; cases step
  | head step _ ih =>
    cases second using ReflTransGen.head_induction_on with
    | refl => rw [stop_b] at step; cases step
    | head step' rest =>
      rw [step] at step'
      cases step'
      exact ih rest

end

end Base
