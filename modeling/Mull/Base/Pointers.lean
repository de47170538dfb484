import Mathlib.Algebra.Order.Ring.Nat
import Mull.Base.KeyedSort

/-! What stands behind numbered pointers, each of which has one entry, and the entries in the order of the
pointers. -/

namespace Base

section
variable {α : Type*} {heap entries : List (Nat × α)}

def deref (heap : List (Nat × α)) (i : Nat) : Option α := (heap.find? fun entry => entry.1 = i).map Prod.snd

def inOrder (entries : List (Nat × α)) : List (Nat × α) := sortBy (fun a b => a.1 < b.1) entries

theorem inOrder_perm (entries : List (Nat × α)) : (inOrder entries).Perm entries := sortBy_perm _ entries

theorem deref_of_mem (distinct : (heap.map Prod.fst).Nodup) {entry : Nat × α} (mem : entry ∈ heap) :
    deref heap entry.1 = some entry.2 := by
  unfold deref
  cases found : heap.find? fun other => other.1 = entry.1 with
  | none =>
    have missing := List.find?_eq_none.mp found entry mem
    simp at missing
  | some other =>
    have same : other.1 = entry.1 := by simpa using List.find?_some found
    obtain rfl := List.inj_on_of_nodup_map distinct (List.mem_of_find?_eq_some found) mem same
    rfl

theorem deref_range {n : Nat} {p : Nat → Bool} (distinct : (heap.map Prod.fst).Nodup)
    (within : ∀ entry ∈ entries, entry ∈ heap) (once : (entries.map Prod.fst).Nodup)
    (pointers : ∀ i, i ∈ entries.map Prod.fst ↔ i < n ∧ p i = true) :
    ((List.range n).filter p).map (deref heap) = (inOrder entries).map fun entry => some entry.2 := by
  have spec (a b : Nat × α) : decide (a.1 < b.1) = true ↔ a.1 < b.1 := decide_eq_true_iff
  have strict := sortBy_strict spec once
  have keys : (List.range n).filter p = (inOrder entries).map Prod.fst := by
    refine List.Perm.eq_of_pairwise (fun a b _ _ first second => absurd second first.not_gt)
      (List.pairwise_lt_range.filter p) (List.pairwise_map.mpr (strict.imp (spec _ _).mp)) ?_
    have sorted_once : ((inOrder entries).map Prod.fst).Nodup :=
      ((inOrder_perm entries).map Prod.fst).nodup_iff.mpr once
    refine (List.perm_ext_iff_of_nodup (List.nodup_range.filter p) sorted_once).mpr fun i => ?_
    rw [((inOrder_perm entries).map Prod.fst).mem_iff, pointers, List.mem_filter, List.mem_range]
  rw [keys, List.map_map]
  refine List.map_congr_left fun entry mem => ?_
  exact deref_of_mem distinct (within entry ((inOrder_perm entries).mem_iff.mp mem))

end

end Base
