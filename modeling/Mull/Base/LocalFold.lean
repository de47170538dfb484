import Mathlib.Data.List.Nodup

/-! Folds whose steps may fail and change a state in one place each, at places that are all different. -/

namespace Base

section
variable {σ α κ β : Type*} {look : σ → κ → β} {active : α → Bool} {key : α → κ} {edit : α → β → Option β}
  {C : σ → Prop} {step : σ → α → Option σ}

theorem foldlM_filter (idle : ∀ s a, active a = false → step s a = some s) (xs : List α) (s : σ) :
    xs.foldlM step s = (xs.filter active).foldlM step s := by
  induction xs generalizing s with
  | nil => rfl
  | cons a rest ih =>
    cases busy : active a with
    | false =>
      rw [List.filter_cons_of_neg (by simp [busy]), List.foldlM_cons, idle s a busy]
      exact ih s
    | true =>
      rw [List.filter_cons_of_pos busy, List.foldlM_cons, List.foldlM_cons]
      exact congrArg (step s a >>= ·) (funext ih)

/-- Under an invariant, an active element edits what stands at its key and an inactive one does nothing there. -/
structure LocalStep (look : σ → κ → β) (active : α → Bool) (key : α → κ)
    (edit : α → β → Option β) (C : σ → Prop) (step : σ → α → Option σ) : Prop where
  idle : ∀ s a, C s → active a = false → ∃ t, step s a = some t ∧ C t ∧ ∀ k, look t k = look s k
  defined : ∀ s a, C s → active a = true →
    ((step s a).isSome = true ↔ (edit a (look s (key a))).isSome = true)
  keeps : ∀ s a t, C s → active a = true → step s a = some t → C t
  edits : ∀ s a t, C s → active a = true → step s a = some t → edit a (look s (key a)) = some (look t (key a))
  elsewhere : ∀ s a t, C s → active a = true → step s a = some t → ∀ k, k ≠ key a → look t k = look s k

theorem LocalStep.foldlM_some (locality : LocalStep look active key edit C step) {xs : List α} {s t : σ}
    (distinct : ((xs.filter active).map key).Nodup) (start : C s) (run : xs.foldlM step s = some t) :
    C t ∧ (∀ a ∈ xs, active a = true → edit a (look s (key a)) = some (look t (key a))) ∧
      ∀ k, k ∉ (xs.filter active).map key → look t k = look s k := by
  induction xs generalizing s with
  | nil =>
    cases run
    exact ⟨start, nofun, fun k _ => rfl⟩
  | cons a rest ih =>
    rw [List.foldlM_cons] at run
    cases busy : active a with
    | false =>
      rw [List.filter_cons_of_neg (by simp [busy])] at distinct ⊢
      obtain ⟨u, first, kept, same⟩ := locality.idle s a start busy
      rw [first] at run
      obtain ⟨inv, edited, elsewhere⟩ := ih distinct kept run
      refine ⟨inv, fun b mem act => ?_, fun k out => (elsewhere k out).trans (same k)⟩
      rcases List.mem_cons.mp mem with rfl | mem
      · rw [busy] at act
        cases act
      · rw [← same]
        exact edited b mem act
    | true =>
      rw [List.filter_cons_of_pos busy, List.map_cons] at distinct ⊢
      rw [List.nodup_cons] at distinct
      cases first : step s a with
      | none => rw [first] at run; cases run
      | some u =>
        rw [first] at run
        obtain ⟨inv, edited, elsewhere⟩ := ih distinct.2 (locality.keeps s a u start busy first) run
        have frame := locality.elsewhere s a u start busy first
        refine ⟨inv, fun b mem act => ?_, fun k out => ?_⟩
        · rcases List.mem_cons.mp mem with rfl | mem
          · rw [elsewhere _ distinct.1]
            exact locality.edits s b u start busy first
          · have other : key b ≠ key a := by
              intro same
              exact distinct.1 (same ▸ List.mem_map_of_mem (List.mem_filter.mpr ⟨mem, act⟩))
            rw [← frame _ other]
            exact edited b mem act
        · rw [List.mem_cons, not_or] at out
          rw [elsewhere k out.2, frame k out.1]

theorem LocalStep.foldlM_isSome (locality : LocalStep look active key edit C step) {xs : List α} {s : σ}
    (distinct : ((xs.filter active).map key).Nodup) (start : C s) :
    (xs.foldlM step s).isSome = true ↔ ∀ a ∈ xs, active a = true →
    (edit a (look s (key a))).isSome = true := by
  induction xs generalizing s with
  | nil => exact ⟨fun _ => nofun, fun _ => rfl⟩
  | cons a rest ih =>
    rw [List.foldlM_cons, List.forall_mem_cons]
    cases busy : active a with
    | false =>
      rw [List.filter_cons_of_neg (by simp [busy])] at distinct
      obtain ⟨u, first, kept, same⟩ := locality.idle s a start busy
      rw [first]
      show (rest.foldlM step u).isSome = true ↔ _
      rw [ih distinct kept]
      simp only [same, Bool.false_eq_true, false_imp_iff, true_and]
    | true =>
      rw [List.filter_cons_of_pos busy, List.map_cons, List.nodup_cons] at distinct
      rw [← locality.defined s a start busy]
      cases first : step s a with
      | none => simp
      | some u =>
        have frame := locality.elsewhere s a u start busy first
        show (rest.foldlM step u).isSome = true ↔ _
        rw [ih distinct.2 (locality.keeps s a u start busy first)]
        simp only [Option.isSome_some, forall_const, true_and]
        refine forall₂_congr fun b mem => imp_congr_right fun act => ?_
        have other : key b ≠ key a := by
          intro same
          exact distinct.1 (same ▸ List.mem_map_of_mem (List.mem_filter.mpr ⟨mem, act⟩))
        rw [frame _ other]

end

end Base
