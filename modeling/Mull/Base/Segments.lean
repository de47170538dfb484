import Mathlib.Order.Lattice

/-! Segments that lie apart or one within the other: `std::unique` keeps the outermost of them, and
`std::lower_bound` finds the one around a point. -/

namespace Base

structure Segment (α : Type*) [LE α] where
  first : α
  last : α
  ordered : first ≤ last

section
variable {α β : Type*}

/-- `std::lower_bound`: the elements before the middle are given up where the middle is still before the
value, else those from the middle on. -/
def lowerBound (before : β → Bool) (xs : List β) : Nat :=
  match _eq : xs.drop (xs.length / 2) with
  | [] => 0
  | middle :: right =>
    if before middle then xs.length / 2 + 1 + lowerBound before right
    else lowerBound before (xs.take (xs.length / 2))
termination_by xs.length
decreasing_by
  · have lengths := congrArg List.length _eq
    rw [List.length_drop, List.length_cons] at lengths
    omega
  · have lengths := congrArg List.length _eq
    rw [List.length_drop, List.length_cons] at lengths
    rw [List.length_take]
    omega

/-- `std::unique`, the last element kept against the rest. -/
def uniqueFrom (same : β → β → Bool) (kept : β) : List β → List β
  | [] => []
  | x :: xs => if same kept x then uniqueFrom same kept xs else x :: uniqueFrom same x xs

def unique (same : β → β → Bool) : List β → List β
  | [] => []
  | x :: xs => x :: uniqueFrom same x xs

/-- The search needs no more than that nothing before the value comes after anything that is not. -/
theorem lowerBound_eq {before : β → Bool} {xs : List β}
    (partitioned : xs.Pairwise fun a b => before b = true → before a = true) :
    lowerBound before xs = (xs.takeWhile before).length := by
  induction xs using lowerBound.induct before with
  | case1 xs drop =>
    have lengths := congrArg List.length drop
    rw [List.length_drop, List.length_nil] at lengths
    have empty : xs = [] := List.eq_nil_of_length_eq_zero (by omega)
    rw [lowerBound]
    split
    · rw [empty]
      rfl
    · rename_i found
      rw [found] at drop
      cases drop
  | case2 xs middle right drop early ih =>
    have parts : xs.take (xs.length / 2) ++ middle :: right = xs := by rw [← drop, List.take_append_drop]
    have short : (xs.take (xs.length / 2)).length = xs.length / 2 := by
      rw [List.length_take]
      omega
    rw [lowerBound]
    split
    · rename_i none
      rw [none] at drop
      cases drop
    · rename_i middle' right' drop'
      obtain ⟨rfl, rfl⟩ := List.cons.inj (drop'.symm.trans drop)
      rw [if_pos early]
      generalize xs.take (xs.length / 2) = left at parts short
      rw [← parts] at partitioned
      obtain ⟨_, rest, across⟩ := List.pairwise_append.mp partitioned
      have all : ∀ x ∈ left, before x = true := fun x mem => across x mem middle' (by simp) early
      rw [ih (List.pairwise_cons.mp rest).2]
      conv => rhs; rw [← parts, List.takeWhile_append_of_pos all, List.takeWhile_cons_of_pos early]
      rw [List.length_append, List.length_cons, short]
      omega
  | case3 xs middle right drop late ih =>
    have parts : xs.take (xs.length / 2) ++ middle :: right = xs := by rw [← drop, List.take_append_drop]
    rw [lowerBound]
    split
    · rename_i none
      rw [none] at drop
      cases drop
    · rename_i middle' right' drop'
      obtain ⟨rfl, rfl⟩ := List.cons.inj (drop'.symm.trans drop)
      rw [if_neg late]
      generalize xs.take (xs.length / 2) = left at parts ih ⊢
      rw [← parts] at partitioned
      rw [ih (List.pairwise_append.mp partitioned).1, ← parts, List.takeWhile_append,
        List.takeWhile_cons_of_neg late, List.append_nil]
      split
      · assumption
      · rfl

theorem getElem?_takeWhile_length (p : β → Bool) (xs : List β) :
    xs[(xs.takeWhile p).length]? = xs.find? fun x => !p x := by
  induction xs with
  | nil => rfl
  | cons x xs ih =>
    by_cases early : p x
    · rw [List.takeWhile_cons_of_pos early, List.length_cons, List.getElem?_cons_succ, ih,
        List.find?_cons_of_neg (by simp [early])]
    · rw [List.takeWhile_cons_of_neg early, List.find?_cons_of_pos (by simp [early])]
      rfl

end

namespace Segment

section
variable {α β : Type*} [LinearOrder α] {range : β → Segment α}

def Apart (a b : Segment α) : Prop := a.last < b.first

def Within (inner outer : Segment α) : Prop := outer.first < inner.first ∧ inner.last ≤ outer.last

def Surrounds (segment : Segment α) (x : α) : Prop := segment.first < x ∧ x < segment.last

instance (segment : Segment α) (x : α) :
    Decidable (segment.Surrounds x) := inferInstanceAs (Decidable (_ ∧ _))

def Laminar (range : β → Segment α) (xs : List β) : Prop :=
  xs.Pairwise fun x y =>
    (Apart (range x) (range y) ∨ Apart (range y) (range x)) ∨
      (Within (range x) (range y) ∨ Within (range y) (range x))

instance : DecidableRel (@Apart α _) := fun _ _ => inferInstanceAs (Decidable (_ < _))

instance : DecidableRel (@Within α _) := fun _ _ => inferInstanceAs (Decidable (_ ∧ _))

instance (xs : List β) : Decidable (Laminar range xs) := inferInstanceAs (Decidable (List.Pairwise _ xs))

def Covers (outer inner : Segment α) : Prop := outer.first ≤ inner.first ∧ inner.last ≤ outer.last

theorem Covers.surrounds {outer inner : Segment α} (covers : Covers outer inner) {x : α}
    (inside : inner.Surrounds x) : outer.Surrounds x :=
  ⟨covers.1.trans_lt inside.1, inside.2.trans_le covers.2⟩

theorem Laminar.perm {xs ys : List β} (laminar : Laminar range xs) (perm : xs.Perm ys) : Laminar range ys :=
  perm.pairwise laminar fun {_ _} either => either.imp Or.symm Or.symm

theorem Laminar.first_injective {xs : List β} (laminar : Laminar range xs) :
    xs.Pairwise fun x y => (range x).first ≠ (range y).first := by
  refine laminar.imp fun {x y} either same => ?_
  rcases either with (apart | apart) | (within | within)
  · exact absurd ((range x).ordered.trans_lt apart) same.not_lt
  · exact absurd ((range y).ordered.trans_lt apart) same.not_gt
  · exact absurd within.1 same.not_gt
  · exact absurd within.1 same.not_lt

section
variable {same : β → β → Bool} (spec : ∀ x y, same x y = true ↔ ¬ Apart (range x) (range y))
include spec

theorem uniqueFrom_outermost {kept : β} {xs : List β}
    (sorted : (kept :: xs).Pairwise fun x y => (range x).first < (range y).first)
    (laminar : Laminar range (kept :: xs)) :
    (kept :: uniqueFrom same kept xs).Pairwise (fun x y => Apart (range x) (range y)) ∧
      ∀ x ∈ xs, ∃ outer ∈ kept :: uniqueFrom same kept xs, Covers (range outer) (range x) := by
  induction xs generalizing kept with
  | nil => simp [uniqueFrom]
  | cons x xs ih =>
    obtain ⟨after, sortedRest⟩ := List.pairwise_cons.mp sorted
    obtain ⟨either, laminarRest⟩ := List.pairwise_cons.mp laminar
    have later := after x (by simp)
    rw [uniqueFrom]
    split
    · rename_i joined
      have sub : (kept :: xs).Sublist (kept :: x :: xs) := (List.sublist_cons_self x xs).cons_cons kept
      obtain ⟨apart, covered⟩ := ih (sorted.sublist sub) (laminar.sublist sub)
      refine ⟨apart, List.forall_mem_cons.mpr ⟨⟨kept, by simp, later.le, ?_⟩, covered⟩⟩
      rcases either x (by simp) with (apart | apart) | (within | within)
      · exact absurd apart ((spec kept x).mp joined)
      · exact absurd (((range x).ordered.trans_lt apart).trans later) (lt_irrefl _)
      · exact absurd (within.1.trans later) (lt_irrefl _)
      · exact within.2
    · rename_i separate
      have gap : Apart (range kept) (range x) := by
        by_contra near
        exact separate ((spec kept x).mpr near)
      obtain ⟨apart, covered⟩ := ih sortedRest laminarRest
      refine ⟨List.pairwise_cons.mpr ⟨?_, apart⟩, ?_⟩
      · refine List.forall_mem_cons.mpr ⟨gap, fun y mem => ?_⟩
        exact gap.trans ((range x).ordered.trans_lt ((List.pairwise_cons.mp apart).1 y mem))
      · refine List.forall_mem_cons.mpr ⟨⟨x, by simp, le_rfl, le_rfl⟩, fun y mem => ?_⟩
        obtain ⟨outer, isIn, covers⟩ := covered y mem
        exact ⟨outer, List.mem_cons_of_mem _ isIn, covers⟩

theorem unique_outermost {xs : List β} (sorted : xs.Pairwise fun x y => (range x).first < (range y).first)
    (laminar : Laminar range xs) :
    (unique same xs).Pairwise (fun x y => Apart (range x) (range y)) ∧
      ∀ x ∈ xs, ∃ outer ∈ unique same xs, Covers (range outer) (range x) := by
  cases xs with
  | nil => simp [unique]
  | cons x xs =>
    obtain ⟨apart, covered⟩ := uniqueFrom_outermost spec sorted laminar
    exact ⟨apart, List.forall_mem_cons.mpr ⟨⟨x, by simp [unique], le_rfl, le_rfl⟩, covered⟩⟩

end

theorem uniqueFrom_sublist (same : β → β → Bool) (kept : β) (xs : List β) :
    (uniqueFrom same kept xs).Sublist xs := by
  induction xs generalizing kept with
  | nil => exact .slnil
  | cons x xs ih =>
    rw [uniqueFrom]
    split
    · exact (ih kept).cons x
    · exact (ih x).cons_cons x

theorem unique_sublist (same : β → β → Bool) (xs : List β) : (unique same xs).Sublist xs := by
  cases xs with
  | nil => exact .slnil
  | cons x xs => exact (uniqueFrom_sublist same x xs).cons_cons x

/-- Where segments are apart and sorted, the first that does not end before a point is the only one that
can surround it. -/
theorem find?_surrounds {xs : List β} (apart : xs.Pairwise fun x y => Apart (range x) (range y)) (p : α) :
    ((xs.find? fun x => !decide ((range x).last < p)).filter fun x => (range x).Surrounds p) =
      xs.find? fun x => (range x).Surrounds p := by
  induction xs with
  | nil => rfl
  | cons x xs ih =>
    obtain ⟨after, apart⟩ := List.pairwise_cons.mp apart
    by_cases early : (range x).last < p
    · have outside : ¬ (range x).Surrounds p := fun inside => early.not_gt inside.2
      rw [List.find?_cons_of_neg (by simp [early]), List.find?_cons_of_neg (by simp [outside]), ih apart]
    · rw [List.find?_cons_of_pos (by simp [early])]
      by_cases inside : (range x).Surrounds p
      · rw [List.find?_cons_of_pos (by simp [inside])]
        simp [inside]
      · have nothing : xs.find? (fun y => (range y).Surrounds p) = none := by
          refine List.find?_eq_none.mpr fun y mem around => ?_
          have around : (range y).Surrounds p := by simpa using around
          exact early ((after y mem).trans around.1)
        rw [List.find?_cons_of_neg (by simp [inside]), nothing]
        simp [inside]

end

end Segment

end Base
