import Mathlib.Data.List.Forall2

/-! A fold over elements that each change one component of a state, and a fold for each component. -/

namespace Base

section
variable {σ α : Type*} {step : σ → α → Option σ} {key : α → Nat}

def stepAt (step : σ → α → Option σ) (key : α → Nat) (states : List σ) (x : α) : Option (List σ) := do
  let s ← states[key x]?
  let t ← step s x
  some (states.set (key x) t)

theorem stepAt_eq {states : List σ} {x : α} {s : σ} (present : states[key x]? = some s) :
    stepAt step key states x = (step s x).map fun t => states.set (key x) t := by
  unfold stepAt
  simp only [present, bind, Option.bind_some]
  cases step s x <;> rfl

theorem component_cons {xs : List α} {x : α} {states finals : List σ} {s t : σ}
    (present : states[key x]? = some s) (first : step s x = some t) :
    (∀ i u, states[i]? = some u → ((x :: xs).filter fun y => key y = i).foldlM step u = finals[i]?) ↔
      ∀ i u, (states.set (key x) t)[i]? = some u →
      (xs.filter fun y => key y = i).foldlM step u = finals[i]? := by
  have inside : key x < states.length := (List.getElem?_eq_some_iff.mp present).1
  have here {u : σ} (at_key : states[key x]? = some u) :
      ((x :: xs).filter fun y => key y = key x).foldlM step u =
        (xs.filter fun y => key y = key x).foldlM step t := by
    obtain rfl := Option.some.inj (present.symm.trans at_key)
    rw [List.filter_cons_of_pos (by simp), List.foldlM_cons, first]
    rfl
  have elsewhere {i : Nat} (other : key x ≠ i) :
      ((x :: xs).filter fun y => key y = i) = xs.filter fun y => key y = i :=
    List.filter_cons_of_neg (by simpa using other)
  constructor
  · intro each i u at_i
    by_cases same : key x = i
    · subst same
      rw [List.getElem?_set_self inside] at at_i
      obtain rfl := Option.some.inj at_i
      rw [← here present]
      exact each _ s present
    · rw [List.getElem?_set_ne same] at at_i
      rw [← elsewhere same]
      exact each i u at_i
  · intro each i u at_i
    by_cases same : key x = i
    · subst same
      rw [here at_i]
      exact each _ t (List.getElem?_set_self inside)
    · rw [elsewhere same]
      exact each i u ((List.getElem?_set_ne same).trans at_i)

theorem foldlM_stepAt_iff {xs : List α} {states finals : List σ} (within : ∀ x ∈ xs, key x < states.length) :
    xs.foldlM (stepAt step key) states = some finals ↔ finals.length = states.length ∧
      ∀ i s, states[i]? = some s → (xs.filter fun x => key x = i).foldlM step s = finals[i]? := by
  induction xs generalizing states with
  | nil =>
    show some states = some finals ↔ _
    rw [Option.some_inj]
    constructor
    · rintro rfl
      exact ⟨rfl, fun i s present => present.symm⟩
    · intro each
      obtain ⟨length, each⟩ := each
      refine List.ext_getElem? fun i => ?_
      cases present : states[i]? with
      | none =>
        rw [List.getElem?_eq_none_iff] at present
        exact (List.getElem?_eq_none (length ▸ present)).symm
      | some s => exact each i s present
  | cons x rest ih =>
    obtain ⟨s, present⟩ : ∃ s, states[key x]? = some s :=
      ⟨_, List.getElem?_eq_getElem (within x List.mem_cons_self)⟩
    have later (t : σ) : ∀ y ∈ rest, key y < (states.set (key x) t).length := by
      intro y mem
      rw [List.length_set]
      exact within y (List.mem_cons_of_mem x mem)
    rw [List.foldlM_cons, stepAt_eq present]
    cases first : step s x with
    | some t =>
      show rest.foldlM (stepAt step key) (states.set (key x) t) = some finals ↔ _
      rw [ih (later t), List.length_set, component_cons present first]
    | none =>
      constructor
      · intro run
        cases run
      · intro each
        obtain ⟨length, each⟩ := each
        have stuck := each _ s present
        rw [List.filter_cons_of_pos (by simp), List.foldlM_cons, first] at stuck
        have inside : key x < finals.length := length ▸ within x List.mem_cons_self
        rw [List.getElem?_eq_getElem inside] at stuck
        cases stuck

end

end Base
