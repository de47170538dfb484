import Mull.Parallelization.SharedState

/-! Filters that are applied one after the other, each to what the one before keeps and each by a call of
`execute`. A filter may change what it is asked about, and may answer from something that it shares with its
other workers. -/

namespace Mull.Parallelization

section
variable {σ ε α : Type}

/-- Whether the filter skips the element, and the element as it leaves it. -/
abbrev PlainFilter (α : Type) := α → Bool × α

abbrev SharedFilter (σ ε α : Type) := α → σ → Except ε ((Bool × α) × σ)

def filterTask (filter : PlainFilter α) : Task α α where
  element x := (filter x).2
  outputs x := if (filter x).1 then [] else [(filter x).2]

def filterTurn (filter : SharedFilter σ ε α) : SharedTurn σ ε α α := fun x shared =>
  (filter x shared).map fun answer => ((answer.1.2, if answer.1.1 then [] else [answer.1.2]), answer.2)

/-- The calls can return the result. -/
def FilterAll (workers : Nat) : List (PlainFilter α) → List α → List α → Prop
  | [], xs, result => result = xs
  | filter :: filters, xs, result => ∃ moved tmp,
      Executes (filterTask filter) workers xs moved tmp ∧ FilterAll workers filters tmp result

def SharedFilterAll (workers : Nat) : List (SharedFilter σ ε α) → List α → σ → List α → σ → Prop
  | [], xs, shared, result, shared' => result = xs ∧ shared' = shared
  | filter :: filters, xs, shared, result, shared' => ∃ moved tmp between,
      SharedExecutes (filterTurn filter) workers xs shared moved tmp between ∧
        SharedFilterAll workers filters tmp between result shared'

def FilteringNeverFails (workers : Nat) : List (SharedFilter σ ε α) → List α → σ → Prop
  | [], _, _ => True
  | filter :: filters, xs, shared => NeverFails (filterTurn filter) workers xs shared ∧
      ∀ moved tmp between, SharedExecutes (filterTurn filter) workers xs shared moved tmp between →
        FilteringNeverFails workers filters tmp between

/-- Filter by filter, the shared one answers as the plain one does about what the filters before it keep. -/
inductive Agree (I : σ → Prop) : (α → Prop) → List (SharedFilter σ ε α) → List (PlainFilter α) → Prop where
  | nil (P : α → Prop) : Agree I P [] []
  | cons {P Q : α → Prop} {filter : SharedFilter σ ε α} {plain : PlainFilter α}
      {filters : List (SharedFilter σ ε α)} {plains : List (PlainFilter α)}
      (answers : ∀ x, P x → ∀ shared, I shared → ∃ shared',
        filter x shared = .ok (plain x, shared') ∧ I shared')
      (keeps : ∀ x, P x → (plain x).1 = false → Q (plain x).2) (rest : Agree I Q filters plains) :
      Agree I P (filter :: filters) (plain :: plains)

variable {I : σ → Prop} {P : α → Prop} {filter : SharedFilter σ ε α} {plain : PlainFilter α}
  {filters : List (SharedFilter σ ε α)} {plains : List (PlainFilter α)} {workers : Nat} {xs result : List α}
  {shared shared' : σ}

theorem filterTurn_answers (answers : ∀ x, P x → ∀ shared, I shared → ∃ shared',
      filter x shared = .ok (plain x, shared') ∧ I shared') (all : ∀ x ∈ xs, P x) :
    AnswersAs (filterTurn filter) I (filterTask plain) xs := by
  intro x mem shared inOrder
  obtain ⟨shared', answer, inOrder'⟩ := answers x (all x mem) shared inOrder
  refine ⟨shared', ?_, inOrder'⟩
  unfold filterTurn
  rw [answer]
  rfl

theorem mem_filterTask {x : α} (mem : x ∈ xs.flatMap (filterTask plain).outputs) :
    ∃ y ∈ xs, (plain y).1 = false ∧ (plain y).2 = x := by
  obtain ⟨y, listed, kept⟩ := List.mem_flatMap.mp mem
  unfold filterTask at kept
  dsimp only at kept
  split at kept
  · cases kept
  · rename_i notSkipped
    exact ⟨y, listed, Bool.not_eq_true _ ▸ notSkipped, (List.mem_singleton.mp kept).symm⟩

theorem mem_executed (positive : 1 ≤ workers) {Q : α → Prop} (all : ∀ x ∈ xs, P x)
    (keeps : ∀ x, P x → (plain x).1 = false → Q (plain x).2) {moved tmp : List α}
    (executed : Executes (filterTask plain) workers xs moved tmp) : ∀ x ∈ tmp, Q x := by
  intro x mem
  rw [(executes_result positive executed).2] at mem
  obtain ⟨y, listed, notSkipped, rfl⟩ := mem_filterTask mem
  exact keeps y (all y listed) notSkipped

/-- By induction on the filters, as the next two. -/
theorem filtering_neverFails (positive : 1 ≤ workers) (agree : Agree I P filters plains) (all : ∀ x ∈ xs, P x)
    (inOrder : I shared) : FilteringNeverFails workers filters xs shared := by
  induction agree generalizing xs shared with
  | nil P => trivial
  | cons answers keeps rest ih =>
    have turns := filterTurn_answers answers all
    refine ⟨neverFails_of_answers turns inOrder, fun moved tmp between returned => ?_⟩
    obtain ⟨executed, inOrder'⟩ := returned.executes turns inOrder
    exact ih (mem_executed positive all keeps executed) inOrder'

theorem SharedFilterAll.filterAll (positive : 1 ≤ workers) (agree : Agree I P filters plains)
    (all : ∀ x ∈ xs, P x)
    (inOrder : I shared) (returned : SharedFilterAll workers filters xs shared result shared') :
    FilterAll workers plains xs result ∧ I shared' := by
  induction agree generalizing xs shared with
  | nil P =>
    obtain ⟨same, rfl⟩ := returned
    exact ⟨same, inOrder⟩
  | cons answers keeps rest ih =>
    obtain ⟨moved, tmp, between, first, later⟩ := returned
    obtain ⟨executed, inOrder'⟩ := first.executes (filterTurn_answers answers all) inOrder
    obtain ⟨filtered, inOrder''⟩ := ih (mem_executed positive all keeps executed) inOrder' later
    exact ⟨⟨moved, tmp, executed, filtered⟩, inOrder''⟩

theorem FilterAll.sharedFilterAll (positive : 1 ≤ workers) (agree : Agree I P filters plains)
    (all : ∀ x ∈ xs, P x) (inOrder : I shared) (returned : FilterAll workers plains xs result) :
    ∃ shared', SharedFilterAll workers filters xs shared result shared' := by
  induction agree generalizing xs shared with
  | nil P => exact ⟨shared, returned, rfl⟩
  | cons answers keeps rest ih =>
    obtain ⟨moved, tmp, executed, later⟩ := returned
    have turns := filterTurn_answers answers all
    obtain ⟨between, first⟩ := executed.sharedExecutes turns inOrder
    obtain ⟨-, inOrder'⟩ := first.executes turns inOrder
    obtain ⟨shared', filtered⟩ := ih (mem_executed positive all keeps executed) inOrder' later
    exact ⟨shared', moved, tmp, between, first, filtered⟩

end

end Mull.Parallelization
