import Mathlib.Data.List.Induction

/-! Choosing the smallest candidate, of several the last, as they come by one after another. -/

namespace Base

section
variable {β : Type} (accepted : β → Bool) (size : β → Nat)

def closer (best : Option β) (candidate : β) : Option β :=
  if accepted candidate then
    match best with
    | none => some candidate
    | some b => if size candidate ≤ size b then some candidate else best
  else best

def Chosen (candidates : List β) (chosen : β) : Prop :=
  ∃ before after, candidates = before ++ chosen :: after ∧ accepted chosen ∧
    (∀ other ∈ before, accepted other → size chosen ≤ size other) ∧
      ∀ other ∈ after, accepted other → size chosen < size other

/-- Any accepted candidate that is not good is passed over for a smaller one or for a later one as small. -/
def PassedOver (good : β → Prop) (candidates : List β) : Prop :=
  ∀ before candidate after, candidates = before ++ candidate :: after → accepted candidate → good candidate ∨
    (∃ other ∈ before, accepted other ∧ size other < size candidate) ∨
      ∃ other ∈ after, accepted other ∧ size other ≤ size candidate

variable {accepted size} {candidates : List β} {best chosen candidate : β}

theorem closer_again (best : Option β) (candidate : β) :
    closer accepted size (closer accepted size best candidate) candidate =
      closer accepted size best candidate := by
  by_cases ok : accepted candidate
  · cases best with
    | none => simp [closer, ok]
    | some b => by_cases smaller : size candidate ≤ size b <;> simp [closer, ok, smaller]
  · simp [closer, ok]

theorem Chosen.least (is : Chosen accepted size candidates chosen) :
    ∀ other ∈ candidates, accepted other → size chosen ≤ size other := by
  obtain ⟨before, after, rfl, _, least, less⟩ := is
  intro other mem ok
  rcases List.mem_append.mp mem with mem | mem
  · exact least other mem ok
  · rcases List.mem_cons.mp mem with rfl | mem
    · exact Nat.le_refl _
    · exact Nat.le_of_lt (less other mem ok)

theorem Chosen.append (is : Chosen accepted size candidates chosen)
    (worse : accepted candidate → size chosen < size candidate) :
    Chosen accepted size (candidates ++ [candidate]) chosen := by
  obtain ⟨before, after, rfl, ok, least, less⟩ := is
  refine ⟨before, after ++ [candidate], by simp, ok, least, fun other mem isOk => ?_⟩
  rcases List.mem_append.mp mem with mem | mem
  · exact less other mem isOk
  · rw [List.mem_singleton.mp mem] at isOk ⊢
    exact worse isOk

theorem chosen_last (ok : accepted candidate)
    (least : ∀ other ∈ candidates, accepted other → size candidate ≤ size other) :
    Chosen accepted size (candidates ++ [candidate]) candidate :=
  ⟨candidates, [], rfl, ok, least, by simp⟩

theorem foldl_closer (accepted : β → Bool) (size : β → Nat) (candidates : List β) :
    (∀ chosen, candidates.foldl (closer accepted size) none = some chosen →
      Chosen accepted size candidates chosen) ∧
    (candidates.foldl (closer accepted size) none = none → ∀ candidate ∈ candidates, ¬ accepted candidate) := by
  induction candidates using List.reverseRecOn with
  | nil => simp
  | append_singleton candidates candidate ih =>
    obtain ⟨some_, none_⟩ := ih
    rw [List.foldl_append, List.foldl_cons, List.foldl_nil, closer.eq_def]
    by_cases ok : accepted candidate
    · rw [if_pos ok]
      cases eq : candidates.foldl (closer accepted size) none with
      | none =>
        refine ⟨fun chosen same => ?_, by simp⟩
        obtain rfl := Option.some.inj same
        exact chosen_last ok fun other mem isOk => absurd isOk (none_ eq other mem)
      | some best =>
        have is := some_ best eq
        dsimp only
        split
        · rename_i smaller
          refine ⟨fun chosen same => ?_, by simp⟩
          obtain rfl := Option.some.inj same
          exact chosen_last ok fun other mem isOk => Nat.le_trans smaller (is.least other mem isOk)
        · rename_i larger
          refine ⟨fun chosen same => ?_, by simp⟩
          obtain rfl := Option.some.inj same
          exact is.append fun _ => Nat.lt_of_not_le larger
    · rw [if_neg ok]
      refine ⟨fun chosen eq => (some_ chosen eq).append fun isOk => absurd isOk ok, fun eq other mem => ?_⟩
      rcases List.mem_append.mp mem with mem | mem
      · exact none_ eq other mem
      · rw [List.mem_singleton.mp mem]
        exact ok

theorem Chosen.unique (is : Chosen accepted size candidates chosen) :
    candidates.foldl (closer accepted size) none = some chosen := by
  obtain ⟨before, after, rfl, ok, least, less⟩ := is
  have early : closer accepted size (before.foldl (closer accepted size) none) chosen = some chosen := by
    rw [closer.eq_def, if_pos ok]
    cases eq : before.foldl (closer accepted size) none with
    | none => rfl
    | some best =>
      obtain ⟨front, back, split, okBest, _⟩ := (foldl_closer accepted size before).1 best eq
      exact if_pos (least best (by simp [split]) okBest)
  rw [List.foldl_append, List.foldl_cons, early]
  clear early least
  induction after with
  | nil => rfl
  | cons candidate after ih =>
    have kept : closer accepted size (some chosen) candidate = some chosen := by
      rw [closer.eq_def]
      split
      · rename_i isOk
        exact if_neg (Nat.not_le.mpr (less candidate (by simp) isOk))
      · rfl
    rw [List.foldl_cons, kept]
    exact ih fun other mem => less other (List.mem_cons_of_mem _ mem)

theorem chosen_good_iff (good : β → Prop) :
    (∀ chosen, candidates.foldl (closer accepted size) none = some chosen → good chosen) ↔
      PassedOver accepted size good candidates := by
  constructor
  · intro goods before candidate after split ok
    by_contra neither
    obtain ⟨bad, front, back⟩ := not_or.mp neither |>.imp_right not_or.mp
    refine bad (goods candidate (Chosen.unique ⟨before, after, split, ok, fun other mem isOk => ?_,
      fun other mem isOk => ?_⟩))
    · exact Nat.not_lt.mp fun smaller => front ⟨other, mem, isOk, smaller⟩
    · exact Nat.not_le.mp fun smaller => back ⟨other, mem, isOk, smaller⟩
  · intro passed chosen eq
    obtain ⟨before, after, split, ok, least, less⟩ := (foldl_closer accepted size candidates).1 chosen eq
    rcases passed before chosen after split ok with
      good | ⟨other, mem, isOk, smaller⟩ | ⟨other, mem, isOk, smaller⟩
    · exact good
    · exact absurd smaller (Nat.not_lt.mpr (least other mem isOk))
    · exact absurd smaller (Nat.not_le.mpr (less other mem isOk))

end

end Base
