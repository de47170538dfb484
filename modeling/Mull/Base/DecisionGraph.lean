import Mathlib.Logic.Function.Basic
import Mathlib.Logic.Relation

/-! Ordered decision graphs: node `i` tests variable `i` and has two different successors beyond it. Such
graphs are canonical, so two of them that leave through the same exits are equal as far as they are
reachable. -/

namespace Base
open Relation

/-- Nodes below `size` test, the others are exits. -/
structure DecisionGraph (size : Nat) where
  next : Nat → Bool → Nat
  forward : ∀ i < size, ∀ b, i < next i b
  apart : ∀ i < size, next i true ≠ next i false

namespace DecisionGraph

section
variable {size : Nat}

def exit (g : DecisionGraph size) (v : Nat → Bool) (i : Nat) : Nat :=
  if node : i < size then
    have _further := g.forward i node (v i)
    g.exit v (g.next i (v i))
  else i
termination_by size - i

theorem exit_node (g : DecisionGraph size) (v : Nat → Bool) {i : Nat} (node : i < size) :
    g.exit v i = g.exit v (g.next i (v i)) := by
  rw [exit, dif_pos node]

theorem exit_exit (g : DecisionGraph size) (v : Nat → Bool) {i : Nat} (beyond : size ≤ i) :
    g.exit v i = i := by
  rw [exit, dif_neg (by omega)]

theorem size_le_exit (g : DecisionGraph size) (v : Nat → Bool) (i : Nat) : size ≤ g.exit v i := by
  by_cases node : i < size
  · have further := g.forward i node (v i)
    rw [exit_node g v node]
    exact size_le_exit g v _
  · rw [exit_exit g v (by omega)]
    omega
termination_by size - i

theorem exit_eq_of_next_eq (g h : DecisionGraph size) (same : ∀ i < size, ∀ b, g.next i b = h.next i b)
    (v : Nat → Bool) (i : Nat) : g.exit v i = h.exit v i := by
  by_cases node : i < size
  · have further := h.forward i node (v i)
    rw [exit_node g v node, exit_node h v node, same i node]
    exact exit_eq_of_next_eq g h same v _
  · rw [exit_exit g v (by omega), exit_exit h v (by omega)]
termination_by size - i

theorem exit_congr (g : DecisionGraph size) {v w : Nat → Bool} {i : Nat} (agree : ∀ j, i ≤ j → v j = w j) :
    g.exit v i = g.exit w i := by
  by_cases node : i < size
  · have further := g.forward i node (w i)
    rw [exit_node g v node, exit_node g w node, agree i (Nat.le_refl i)]
    exact exit_congr g fun j le => agree j (by omega)
  · rw [exit_exit g v (by omega), exit_exit g w (by omega)]
termination_by size - i

theorem exit_update (g : DecisionGraph size) (v : Nat → Bool) {i j : Nat} (before : i < j) (b : Bool) :
    g.exit (Function.update v i b) j = g.exit v j :=
  exit_congr g fun k le => Function.update_of_ne (by omega) b v

theorem exit_branch (g : DecisionGraph size) (v : Nat → Bool) {i : Nat} (node : i < size) (b : Bool) :
    g.exit (Function.update v i b) i = g.exit v (g.next i b) := by
  rw [exit_node g _ node, Function.update_self, exit_update g v (g.forward i node b)]

theorem eq_of_exit_eq (g h : DecisionGraph size) {i j : Nat}
    (same : ∀ v, g.exit v i = h.exit v j) : i = j := by
  -- the earlier of two nodes depends on a variable that the later one does not see
  by_contra differ
  rcases Nat.lt_or_gt_of_ne differ with before | before
  · by_cases node : i < size
    · have branch (b : Bool) : g.next i b = j := by
        have further := g.forward i node b
        apply eq_of_exit_eq g h
        intro v
        rw [← exit_branch g v node b, same, exit_update h v before]
      exact g.apart i node ((branch true).trans (branch false).symm)
    · have exits := same fun _ => true
      rw [exit_exit g _ (by omega), exit_exit h _ (by omega)] at exits
      exact differ exits
  · by_cases node : j < size
    · have branch (b : Bool) : i = h.next j b := by
        have further := h.forward j node b
        apply eq_of_exit_eq g h
        intro v
        rw [← exit_branch h v node b, ← same, exit_update g v before]
      exact h.apart j node ((branch true).symm.trans (branch false))
    · have exits := same fun _ => true
      rw [exit_exit g _ (by omega), exit_exit h _ (by omega)] at exits
      exact differ exits
termination_by (size - i) + (size - j)

def Follows (g : DecisionGraph size) (i j : Nat) : Prop := i < size ∧ ∃ b, j = g.next i b

theorem next_eq_of_exit_eq (g h : DecisionGraph size) {i j : Nat} (same : ∀ v, g.exit v i = h.exit v i)
    (reached : ReflTransGen g.Follows i j) (node : j < size) (b : Bool) : g.next j b = h.next j b := by
  have exits : ∀ v, g.exit v j = h.exit v j := by
    clear node
    induction reached with
    | refl => exact same
    | @tail k _ _ follows ih =>
      obtain ⟨node, b, rfl⟩ := follows
      intro v
      have step (w : Nat → Bool) : g.exit w (g.next k b) = h.exit w (h.next k b) := by
        rw [← exit_branch g w node b, ih, exit_branch h w node b]
      rw [step, eq_of_exit_eq g h step]
  apply eq_of_exit_eq g h
  intro v
  rw [← exit_branch g v node b, exits, exit_branch h v node b]

end

end DecisionGraph
end Base
