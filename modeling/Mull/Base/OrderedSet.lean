import Mathlib.Data.List.Lex
import Mathlib.Data.List.Sort

/-! Sets that keep their elements in increasing order, each once, the way `std::set` does. -/

namespace Base

structure OrderedSet (α : Type*) [LinearOrder α] where
  elements : List α
  increasing : elements.Pairwise (· < ·)

section
variable {α β : Type*} [LinearOrder α]

/-- Lists with the same elements in strictly increasing order of their keys are the same list. -/
theorem eq_of_increasing {key : β → α} {xs ys : List β} (first : xs.Pairwise fun a b => key a < key b)
    (second : ys.Pairwise fun a b => key a < key b) (same : ∀ x, x ∈ xs ↔ x ∈ ys) : xs = ys := by
  have distinct {zs : List β} (increasing : zs.Pairwise fun a b => key a < key b) : zs.Nodup := by
    apply increasing.imp
    rintro a b less rfl
    exact lt_irrefl _ less
  have perm : xs.Perm ys := (List.perm_ext_iff_of_nodup (distinct first) (distinct second)).mpr same
  refine List.Perm.eq_of_pairwise ?_ first second perm
  intro a b _ _ less less'
  exact absurd less less'.asymm

def insertInto (x : α) : List α → List α
  | [] => [x]
  | y :: ys => if x < y then x :: y :: ys else if y < x then y :: insertInto x ys else y :: ys

theorem mem_insertInto {x z : α} {ys : List α} : z ∈ insertInto x ys ↔ z = x ∨ z ∈ ys := by
  induction ys with
  | nil => simp [insertInto]
  | cons y ys ih =>
    rw [insertInto]
    split
    · exact List.mem_cons
    · rename_i notBefore
      split
      · rw [List.mem_cons, ih, List.mem_cons]
        tauto
      · rename_i notAfter
        have same : x = y := le_antisymm (not_lt.mp notAfter) (not_lt.mp notBefore)
        simp [same]

theorem insertInto_increasing (x : α) {ys : List α} (increasing : ys.Pairwise (· < ·)) :
    (insertInto x ys).Pairwise (· < ·) := by
  induction ys with
  | nil => exact List.pairwise_singleton _ _
  | cons y ys ih =>
    obtain ⟨least, rest⟩ := List.pairwise_cons.mp increasing
    rw [insertInto]
    split
    · rename_i before
      refine List.pairwise_cons.mpr ⟨?_, increasing⟩
      intro z member
      rcases List.mem_cons.mp member with rfl | member
      · exact before
      · exact before.trans (least z member)
    · split
      · rename_i after
        refine List.pairwise_cons.mpr ⟨?_, ih rest⟩
        intro z member
        rcases mem_insertInto.mp member with rfl | member
        · exact after
        · exact least z member
      · exact increasing

namespace OrderedSet

def empty : OrderedSet α := ⟨[], .nil⟩

def insert (x : α) (set : OrderedSet α) : OrderedSet α :=
  ⟨insertInto x set.elements, insertInto_increasing x set.increasing⟩

@[simp] theorem mem_empty (x : α) : x ∉ (empty : OrderedSet α).elements := List.not_mem_nil

@[simp] theorem mem_insert {x y : α} {set : OrderedSet α} :
    x ∈ (set.insert y).elements ↔ x = y ∨ x ∈ set.elements := mem_insertInto

end OrderedSet

end

end Base
