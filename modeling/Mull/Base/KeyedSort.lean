import Mathlib.Data.List.Sort

/-! Sorting by a comparator that compares keys: strictly sorted and independent of the order before, where the keys
are distinct. -/

namespace Base

section
variable {α β κ : Type*} [LinearOrder κ] {key : α → κ} {before : α → α → Bool}

def sortBy (before : α → α → Bool) (xs : List α) : List α := xs.mergeSort fun a b => !before b a

theorem sortBy_perm (before : α → α → Bool) (xs : List α) :
    (sortBy before xs).Perm xs := List.mergeSort_perm _ _

theorem sortBy_map {f : α → β} {after : β → β → Bool}
    (same : ∀ a b, after (f a) (f b) = before a b) (xs : List α) :
    sortBy after (xs.map f) = (sortBy before xs).map f :=
  (List.map_mergeSort fun a _ b _ => by rw [same]).symm

variable (spec : ∀ a b, before a b = true ↔ key a < key b)
include spec

theorem sortBy_sorted (xs : List α) : (sortBy before xs).Pairwise fun a b => key a ≤ key b := by
  have le (a b : α) : (!before b a) = true ↔ key a ≤ key b := by
    rw [Bool.not_eq_true', ← Bool.not_eq_true, spec, not_lt]
  have sorted : (sortBy before xs).Pairwise fun a b => (!before b a) = true := by
    refine List.pairwise_mergeSort (fun a b c first second => ?_) (fun a b => ?_) xs
    · rw [le] at first second ⊢
      exact first.trans second
    · rw [Bool.or_eq_true, le, le]
      exact le_total _ _
  exact sorted.imp fun ok => (le _ _).mp ok

theorem sortBy_strict {xs : List α} (distinct : (xs.map key).Nodup) :
    (sortBy before xs).Pairwise fun a b => before a b = true := by
  have apart : ((sortBy before xs).map key).Nodup := ((sortBy_perm before xs).map key).nodup_iff.mpr distinct
  refine ((sortBy_sorted spec xs).and (List.pairwise_map.mp apart)).imp fun both => ?_
  rw [spec]
  exact lt_of_le_of_ne both.1 both.2

theorem sortBy_canonical {read : α → β} {keyOf : β → κ} (keyed : ∀ a, keyOf (read a) = key a) {xs ys : List α}
    (perm : (xs.map read).Perm (ys.map read)) (distinct : (xs.map key).Nodup) :
    (sortBy before xs).map read = (sortBy before ys).map read := by
  have keys (zs : List α) : (zs.map read).map keyOf = zs.map key := by
    rw [List.map_map]
    exact List.map_congr_left fun a _ => keyed a
  have distinct' : (ys.map key).Nodup := by
    rw [← keys] at distinct ⊢
    exact (perm.map keyOf).nodup_iff.mp distinct
  have strict {zs : List α} (nodup : (zs.map key).Nodup) :
      ((sortBy before zs).map read).Pairwise fun a b => keyOf a < keyOf b := by
    refine List.pairwise_map.mpr ((sortBy_strict spec nodup).imp fun first => ?_)
    rw [keyed, keyed]
    exact (spec _ _).mp first
  refine List.Perm.eq_of_pairwise (fun a b _ _ first second => absurd second first.not_gt) (strict distinct)
    (strict distinct') ?_
  exact ((sortBy_perm before xs).map read).trans (perm.trans ((sortBy_perm before ys).map read).symm)

end

end Base
