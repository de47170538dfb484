import Mathlib.Data.List.Forall2

/-! A computation that can fail, over every element of a list. -/

namespace Base

section
variable {ε α β : Type}

theorem bind_ok {x : Except ε α} {f : α → Except ε β} {y : β} (ok : x >>= f = .ok y) :
    ∃ a, x = .ok a ∧ f a = .ok y := by
  cases x with
  | error e => cases ok
  | ok a => exact ⟨a, rfl, ok⟩

def Succeeds (x : Except ε α) : Prop := ∃ a, x = .ok a

theorem Succeeds.bind {x : Except ε α} {f : α → Except ε β} (first : Succeeds x)
    (next : ∀ a, x = .ok a → Succeeds (f a)) : Succeeds (x >>= f) := by
  obtain ⟨a, rfl⟩ := first
  exact next a rfl

theorem mapM_ok_iff {f : α → Except ε β} {xs : List α} {ys : List β} :
    xs.mapM f = .ok ys ↔ List.Forall₂ (fun x y => f x = .ok y) xs ys := by
  induction xs generalizing ys with
  | nil => cases ys <;> simp [pure, Except.pure]
  | cons x xs ih =>
    rw [List.mapM_cons, List.forall₂_cons_left_iff]
    constructor
    · intro ok
      obtain ⟨y, head, ok⟩ := bind_ok ok
      obtain ⟨zs, tail, ok⟩ := bind_ok ok
      cases ok
      exact ⟨y, zs, head, ih.mp tail, rfl⟩
    · rintro ⟨y, zs, head, tail, rfl⟩
      rw [head, ih.mpr tail]
      rfl

theorem mapM_some_iff {f : α → Option β} {xs : List α} {ys : List β} :
    xs.mapM f = some ys ↔ List.Forall₂ (fun x y => f x = some y) xs ys := by
  induction xs generalizing ys with
  | nil => cases ys <;> simp
  | cons x xs ih =>
    rw [List.mapM_cons, List.forall₂_cons_left_iff]
    simp only [bind, Option.bind_eq_some_iff, pure, Option.some.injEq]
    constructor
    · rintro ⟨y, head, zs, tail, rfl⟩
      exact ⟨y, zs, head, ih.mp tail, rfl⟩
    · rintro ⟨y, zs, head, tail, rfl⟩
      exact ⟨y, head, zs, ih.mpr tail, rfl⟩

theorem mapM_total {f : α → Option β} {xs : List α} (each : ∀ x ∈ xs, ∃ y, f x = some y) :
    ∃ ys, xs.mapM f = some ys := by
  induction xs with
  | nil => exact ⟨[], rfl⟩
  | cons x xs ih =>
    obtain ⟨y, head⟩ := each x List.mem_cons_self
    obtain ⟨ys, tail⟩ := ih fun z mem => each z (List.mem_cons_of_mem x mem)
    exact ⟨y :: ys, mapM_some_iff.mpr (.cons head (mapM_some_iff.mp tail))⟩

theorem mapM_congr {f g : α → Option β} {xs : List α} (same : ∀ x ∈ xs, f x = g x) :
    xs.mapM f = xs.mapM g := by
  induction xs with
  | nil => rfl
  | cons x xs ih =>
    rw [List.mapM_cons, List.mapM_cons, same x (by simp), ih fun y mem => same y (List.mem_cons_of_mem _ mem)]

theorem mapM_ok {f : α → Except ε β} {g : α → β} {xs : List α} (each : ∀ x ∈ xs, f x = .ok (g x)) :
    xs.mapM f = .ok (xs.map g) :=
  mapM_ok_iff.mpr (List.forall₂_map_right_iff.mpr (List.forall₂_same.mpr each))

end

end Base
