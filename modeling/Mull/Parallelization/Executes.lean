import Mull.Parallelization.ExecutesInOrder

/-! What a call of `execute` that starts with an empty output vector can return with. -/

namespace Mull.Parallelization
open Relation

section
variable {α β : Type}

/-- A call of `execute` can return with the given input vector and output vector. -/
def Executes (task : Task α β) (tasks : Nat) (input : List α) (elements : List α) (out : List β) : Prop :=
  ∃ s, Reaches task input [] tasks s ∧ s.main = .returned ∧ s.elements = elements ∧ s.out = out

theorem executes_none {task : Task α β} {input elements : List α} {out : List β}
    (returned : Executes task 0 input elements out) : out = [] := by
  obtain ⟨s, reached, -, -, rfl⟩ := returned
  have start : (execute task input ([] : List β) 0).2 =
      { workers := [], rest := input, reporter := .absent, main := .returned, out := [] } := by simp [execute]
  have same : s = (execute task input [] 0).2 := by
    refine Base.run_invariant (I := fun s => s = (execute task input [] 0).2) ?_ reached rfl
    intro s t same step
    rw [start] at same
    subst same
    cases step with
    | work left right w w' at_ turn => exact absurd at_ (by simp)
    | _ => simp_all
  rw [same, start]

theorem executes_iff {task : Task α β} {tasks : Nat} {input elements : List α} {out : List β}
    (positive : 1 ≤ tasks) (fits : CanSplit tasks input.length) :
    Executes task tasks input elements out ↔ elements = input.map task.element ∧
    out = input.flatMap task.outputs := by
  have result {s : State α β} (reached : Reaches task input [] tasks s) (returned : s.main = .returned) :
      s.elements = input.map task.element ∧ s.out = input.flatMap task.outputs := by
    have same := execute_result positive reached returned
    rw [Task.run_eq, List.nil_append] at same
    exact Prod.mk.inj same
  constructor
  · rintro ⟨s, reached, returned, rfl, rfl⟩
    exact result reached returned
  · rintro ⟨rfl, rfl⟩
    obtain ⟨s, steps, returned⟩ := execute_returns positive fits (Relation.ReflTransGen.refl)
    exact ⟨s, steps, returned, result steps returned⟩

theorem not_executes {task : Task α β} {tasks : Nat} {input elements : List α} {out : List β}
    (positive : 1 ≤ tasks) (unfit : ¬ CanSplit tasks input.length) :
    ¬ Executes task tasks input elements out := by
  rintro ⟨s, reached, returned, -, -⟩
  exact execute_diverges positive unfit reached returned

theorem executes_result {task : Task α β} {tasks : Nat} {input elements : List α} {out : List β}
    (positive : 1 ≤ tasks) (returned : Executes task tasks input elements out) :
    elements = input.map task.element ∧ out = input.flatMap task.outputs := by
  by_cases fits : CanSplit tasks input.length
  · exact (executes_iff positive fits).mp returned
  · exact absurd returned (not_executes positive fits)

end

end Mull.Parallelization
