import Mathlib.Data.List.Forall2
import Mathlib.Data.List.Perm.Basic

/-! Lists that are related element by element. -/

namespace Base

section
variable {α β : Type*} {R : α → β → Prop} {xs : List α} {ys : List β}

theorem exists_right (related : List.Forall₂ R xs ys) {x : α} (mem : x ∈ xs) : ∃ y ∈ ys, R x y := by
  induction related with
  | nil => cases mem
  | cons rel _ ih =>
    rcases List.mem_cons.mp mem with rfl | mem
    · exact ⟨_, List.mem_cons_self, rel⟩
    · obtain ⟨y, mem, rel⟩ := ih mem
      exact ⟨y, List.mem_cons_of_mem _ mem, rel⟩

theorem exists_left (related : List.Forall₂ R xs ys) {y : β} (mem : y ∈ ys) : ∃ x ∈ xs, R x y :=
  exists_right related.flip mem

theorem exists_related (each : ∀ x ∈ xs, ∃ y, R x y) : ∃ ys, List.Forall₂ R xs ys := by
  induction xs with
  | nil => exact ⟨[], .nil⟩
  | cons x xs ih =>
    obtain ⟨y, here⟩ := each x List.mem_cons_self
    obtain ⟨ys, rest⟩ := ih fun x' mem => each x' (List.mem_cons_of_mem x mem)
    exact ⟨y :: ys, .cons here rest⟩

theorem related_both {S : α → β → Prop} (left : List.Forall₂ R xs ys) (right : List.Forall₂ S xs ys) {x : α}
    (mem : x ∈ xs) : ∃ y, R x y ∧ S x y := by
  induction left with
  | nil => cases mem
  | cons rel _ ih =>
    cases right with
    | cons rel' rest' =>
      rcases List.mem_cons.mp mem with rfl | mem
      · exact ⟨_, rel, rel'⟩
      · exact ih rest' mem

theorem map_eq_of_related {γ : Type*} {f : α → γ} {g : β → γ} (related : List.Forall₂ R xs ys)
    (same : ∀ x y, R x y → f x = g y) : xs.map f = ys.map g := by
  induction related with
  | nil => rfl
  | cons rel _ ih => rw [List.map_cons, List.map_cons, ih, same _ _ rel]

theorem related_trans {γ : Type*} {S : β → γ → Prop} {T : α → γ → Prop} {zs : List γ}
    (first : List.Forall₂ R xs ys)
    (second : List.Forall₂ S ys zs) (both : ∀ x y z, y ∈ ys → R x y → S y z → T x z) :
      List.Forall₂ T xs zs := by
  induction first generalizing zs with
  | nil =>
    cases second
    exact .nil
  | cons rel _ ih =>
    cases second with
    | cons rel' rest =>
      exact .cons (both _ _ _ List.mem_cons_self rel rel')
        (ih rest fun x y z mem => both x y z (List.mem_cons_of_mem _ mem))

theorem getLast?_related (related : List.Forall₂ R xs ys) :
    (xs = [] ∧ ys = []) ∨ ∃ x y, xs.getLast? = some x ∧ ys.getLast? = some y ∧ R x y := by
  induction related with
  | nil => exact .inl ⟨rfl, rfl⟩
  | cons rel _ ih =>
    refine .inr ?_
    rcases ih with ⟨rfl, rfl⟩ | ⟨x, y, last_x, last_y, rel'⟩
    · exact ⟨_, _, rfl, rfl, rel⟩
    · exact ⟨x, y, by rw [List.getLast?_cons, last_x]; rfl, by rw [List.getLast?_cons, last_y]; rfl, rel'⟩

theorem filter_related {p : α → Bool} {q : β → Bool} (related : List.Forall₂ R xs ys)
    (same : ∀ x y, R x y → p x = q y) : List.Forall₂ R (xs.filter p) (ys.filter q) := by
  induction related with
  | nil => exact .nil
  | @cons x y _ _ rel _ ih =>
    rw [List.filter_cons, List.filter_cons, same x y rel]
    split
    · exact .cons rel ih
    · exact ih

theorem forall₂_and_eq_map {P : α → Prop} {f : α → β} :
    List.Forall₂ (fun x y => P x ∧ y = f x) xs ys ↔ (∀ x ∈ xs, P x) ∧ ys = xs.map f := by
  induction xs generalizing ys with
  | nil =>
    rw [List.forall₂_nil_left_iff]
    exact ⟨fun empty => ⟨fun x mem => absurd mem List.not_mem_nil, empty⟩, And.right⟩
  | cons x xs ih =>
    rw [List.forall₂_cons_left_iff, List.forall_mem_cons]
    constructor
    · intro related
      obtain ⟨y, rest, ⟨here, rfl⟩, later, rfl⟩ := related
      obtain ⟨each, rfl⟩ := ih.mp later
      exact ⟨⟨here, each⟩, rfl⟩
    · intro each
      obtain ⟨⟨here, each⟩, rfl⟩ := each
      exact ⟨_, _, ⟨here, rfl⟩, ih.mpr ⟨each, rfl⟩, rfl⟩

theorem exists_map_perm {f : α → β} (shuffled : ys.Perm (xs.map f)) : ∃ zs :
    List α, zs.Perm xs ∧ ys = zs.map f := by
  have image : List.Forall₂ (fun y x => y = f x) (xs.map f) xs := by
    rw [List.forall₂_map_left_iff, List.forall₂_same]
    exact fun _ _ => rfl
  obtain ⟨zs, each, moved⟩ := List.perm_comp_forall₂ shuffled image
  refine ⟨zs, moved, ?_⟩
  rw [← List.forall₂_eq_eq_eq, List.forall₂_map_right_iff]
  exact each

end

end Base
