import Mull.Parallelization.Completion

/-! `execute` against one sequential run of the task: they agree exactly where the input can be split, or is not. -/

namespace Mull.Parallelization
open Relation Base

section
variable {α β : Type}

/-- Whatever the interleaving, the call can return, and once it has returned the input and the output
vector are what one run of the task over the whole input makes of them. -/
def ExecutesInOrder (task : Task α β) (input : List α) (out : List β) (tasks : Nat) : Prop :=
  ∀ s, Reaches task input out tasks s →
    (s.main = .returned → (s.elements, s.out) = task.run input out) ∧
    ∃ t, ReflTransGen (Step (execute task input out tasks).1) s t ∧ t.main = .returned

theorem sequential_start (task : Task α β) (input : List α) (out : List β) :
    Inv (executeSequentially task input out).1 input [] (executeSequentially task input out).2 :=
  ⟨[input], .cons (worker_start _ input) .nil, by simp [executeSequentially],
    by simp [executeSequentially], ⟨rfl, nofun, rfl, Nat.zero_le _, by simp⟩, Nat.zero_le _, Nat.zero_le _⟩

theorem sequential_covers (task : Task α β) (input : List α) (out : List β) :
    Covers (executeSequentially task input out).1 input :=
  ⟨rfl, by simp [executeSequentially], by simp [executeSequentially], rfl⟩

theorem parallel_start (task : Task α β) (input : List α) (out : List β) (tasks : Nat) :
    Inv (executeInParallel task input out tasks).1 input out (executeInParallel task input out tasks).2 := by
  refine ⟨[], .nil, by simp [executeInParallel], by simp [executeInParallel], ?_, trivial⟩
  cases h : (taskBatches input.length (min input.length tasks)).isSome <;>
    simp [MainInv, executeInParallel, h]

theorem parallel_batches {task : Task α β} {input : List α} {out : List β} {tasks : Nat}
    (some_ : 1 ≤ tasks) (nonempty : input ≠ []) (several : tasks ≠ 1) (fits : CanSplit tasks input.length) :
    (taskBatches input.length (min input.length tasks)).isSome = true ∧
    Covers (executeInParallel task input out tasks).1 input := by
  have length : 1 ≤ input.length := List.length_pos_iff.mpr nonempty
  obtain ⟨room, small⟩ := fits.small several
  have even := taskBatches_evenSplit (by omega : 1 ≤ min input.length tasks) (Nat.min_le_left _ _) small
  rw [if_pos room] at even
  refine ⟨by simp [even], ⟨?_, ?_, ?_, rfl⟩⟩
  · simp [executeInParallel, even]
  · simp [executeInParallel, even]
  · simp only [executeInParallel, even, Option.getD_some]
    rw [← Nat.cast_list_sum, evenSplit_sum (by omega)]

/-- With more elements than an `int` counts the reporter waits for more than the batches hold; with fewer, but
too many, there are no batches. -/
theorem parallel_never_returns {task : Task α β} {input : List α} {out : List β} {tasks : Nat}
    (positive : 1 ≤ tasks) (unfit : ¬ CanSplit tasks input.length) {s : State α β}
    (reached : ReflTransGen (Step (executeInParallel task input out tasks).1)
      (executeInParallel task input out tasks).2 s) : s.main ≠ .returned := by
  intro returned
  obtain ⟨batches, inv⟩ := reaches_inv (parallel_start task input out tasks) reached
  obtain ⟨count, total⟩ := returned_total inv returned
  have given := sizes_sum inv
  simp only [executeInParallel] at count total given
  have exceeds : ¬ 2 * input.length - input.length / min input.length tasks < 2 ^ 31 :=
    fun room => unfit (.inr room)
  have several : 2 ^ 30 ≤ input.length := Nat.le_of_not_lt fun small => unfit (canSplit_of_lt small)
  cases h : taskBatches input.length (min input.length tasks) with
  | none =>
    simp only [h, Option.getD_none, List.take_nil, List.sum_nil] at given
    omega
  | some groups =>
    obtain ⟨sum, length⟩ := taskBatches_some h
    have narrowed := toInt32_le (min input.length tasks)
    have bound := toInt32_lt input.length
    have large : ¬ input.length < 2 ^ 31 := by
      intro small
      have split : 1 ≤ min input.length tasks := Nat.le_min.mpr ⟨by omega, positive⟩
      rw [taskBatches_evenSplit split (Nat.min_le_left _ _) small, if_neg exceeds] at h
      cases h
    rw [h, Option.getD_some, count, List.take_of_length_le
      (by rw [length]; exact Int.toNat_le.mpr narrowed), sum] at given
    omega

theorem returned_sequential {task : Task α β} {input : List α} {out : List β} {s : State α β}
    (inv : Inv (executeSequentially task input out).1 input [] s) (returned : s.main = .returned) :
    (s.elements, s.out) = task.run input out := by
  obtain ⟨batches, inv⟩ := inv
  obtain ⟨split, elements, outputs⟩ := returned_results inv returned rfl
  have one : batches.length = 1 := by
    rw [← inv.workers.length_eq]
    exact (returned_total inv returned).1
  obtain ⟨batch, rfl⟩ := List.length_eq_one_iff.mp one
  rw [Task.run_eq, elements, outputs]
  obtain rfl : batch = input := by simpa using split
  simp [executeSequentially]

theorem returned_parallel {task : Task α β} {input : List α} {out : List β} {tasks : Nat} {s : State α β}
    (inv : Inv (executeInParallel task input out tasks).1 input out s) (returned : s.main = .returned) :
    (s.elements, s.out) = task.run input out := by
  obtain ⟨batches, inv⟩ := inv
  obtain ⟨split, elements, outputs⟩ := returned_results inv returned rfl
  rw [Task.run_eq, elements, outputs, ← split]
  simp [executeInParallel, List.flatMap_def, List.map_flatten, List.flatten_flatten, Function.comp_def]

theorem empty_reaches {task : Task α β} {out : List β} {tasks : Nat} {s : State α β}
    (reached : ReflTransGen (Step (execute task [] out tasks).1) (execute task [] out tasks).2 s) :
      s = (execute task [] out tasks).2 := by
  have start : (execute task ([] : List α) out tasks).2 =
      { workers := [], rest := [], reporter := .absent, main := .returned, out } := by simp [execute]
  refine run_invariant (I := fun s => s = (execute task [] out tasks).2) ?_ reached rfl
  intro s t same step
  rw [start] at same
  subst same
  cases step with
  | work left right w w' at_ turn => exact absurd at_ (by simp)
  | _ => simp_all

theorem execute_cases {input : List α} (task : Task α β) (out : List β) {tasks : Nat} (positive : 1 ≤ tasks)
    (nonempty : input ≠ []) :
    ((tasks = 1 ∨ input.length = 1) ∧ execute task input out tasks = executeSequentially task input out) ∨
    (tasks ≠ 1 ∧ input.length ≠ 1 ∧ execute task input out tasks = executeInParallel task input out tasks) := by
  have started : ¬ (tasks = 0 ∨ input = []) := by
    rintro (rfl | empty)
    · omega
    · exact nonempty empty
  by_cases whole : tasks = 1 ∨ input.length = 1
  · exact .inl ⟨whole, by rw [execute, if_neg started, if_pos whole]⟩
  · exact .inr ⟨fun one => whole (.inl one), fun one => whole (.inr one),
      by rw [execute, if_neg started, if_neg whole]⟩

theorem stays_alive {run : Run α β} {s t : State α β} (reached : ReflTransGen (Step run) s t)
    (alive : s.main ≠ .aborted) : t.main ≠ .aborted :=
  run_invariant (I := fun s => s.main ≠ .aborted)
    (fun _ _ alive step => by cases step <;> simp_all) reached alive

/-- A call that has returned has done what one run of the task does, whatever the sizes. -/
theorem execute_result {task : Task α β} {input : List α} {out : List β} {tasks : Nat} (positive : 1 ≤ tasks)
    {s : State α β} (reached : Reaches task input out tasks s) (returned : s.main = .returned) :
    (s.elements, s.out) = task.run input out := by
  rcases eq_or_ne input [] with rfl | nonempty
  · obtain rfl := empty_reaches reached
    simp [execute, State.elements, Task.run_eq]
  rcases execute_cases task out positive nonempty with ⟨_, mode⟩ | ⟨_, _, mode⟩ <;>
    rw [Reaches, mode] at reached
  · exact returned_sequential (reaches_inv (sequential_start task input out) reached) returned
  · exact returned_parallel (reaches_inv (parallel_start task input out tasks) reached) returned

theorem execute_returns {task : Task α β} {input : List α} {out : List β} {tasks : Nat} (positive : 1 ≤ tasks)
    (fits : CanSplit tasks input.length) {s : State α β} (reached : Reaches task input out tasks s) :
    ∃ t, ReflTransGen (Step (execute task input out tasks).1) s t ∧ t.main = .returned := by
  rcases eq_or_ne input [] with rfl | nonempty
  · obtain rfl := empty_reaches reached
    exact ⟨_, .refl, by simp [execute]⟩
  rcases execute_cases task out positive nonempty with ⟨_, mode⟩ | ⟨several, _, mode⟩ <;>
    rw [Reaches, mode] at reached <;> rw [mode]
  · have inv := reaches_inv (sequential_start task input out) reached
    exact reaches_end (sequential_covers task input out) inv (stays_alive reached nofun)
  · have inv := reaches_inv (parallel_start task input out tasks) reached
    obtain ⟨batches, covers⟩ := parallel_batches positive nonempty several fits
    exact reaches_end covers inv (stays_alive reached (by simp [executeInParallel, batches]))

theorem execute_diverges {task : Task α β} {input : List α} {out : List β} {tasks : Nat}
    (positive : 1 ≤ tasks)
    (unfit : ¬ CanSplit tasks input.length) {s : State α β} (reached : Reaches task input out tasks s) :
    s.main ≠ .returned := by
  have nonempty : input ≠ [] := by
    rintro rfl
    exact unfit (.inr (by simp))
  rcases execute_cases task out positive nonempty with ⟨one | one, _⟩ | ⟨_, _, mode⟩
  · exact absurd (.inl one) unfit
  · exact absurd (canSplit_of_lt (by omega)) unfit
  · rw [Reaches, mode] at reached
    exact parallel_never_returns positive unfit reached

/-- Parallel execution equals sequential execution exactly where the input is not split or the sums of
`taskBatches` fit in an `int`. -/
theorem executesInOrder_iff (task : Task α β) (input : List α) (out : List β) {tasks : Nat}
    (positive : 1 ≤ tasks) :
    ExecutesInOrder task input out tasks ↔ CanSplit tasks input.length := by
  constructor
  · intro h
    by_contra unfit
    obtain ⟨_, t, reached, returned⟩ := h _ .refl
    exact execute_diverges positive unfit reached returned
  · exact fun fits s reached => ⟨execute_result positive reached, execute_returns positive fits reached⟩

end

def addNumber : Task Int Int := { element := id, outputs := fun x => [x + 1] }

theorem executesInOrder_three_numbers : 1 ≤ 4 ∧ ExecutesInOrder addNumber [1, 2, 3] [] 4 :=
  ⟨by decide, (executesInOrder_iff addNumber [1, 2, 3] [] (by decide)).mpr (by decide)⟩

/-- Two workers get one element each of more than four billion, and the reporter waits for the rest. -/
theorem not_executesInOrder_two_workers :
    ¬ ExecutesInOrder addNumber (List.replicate (2 ^ 32 + 2) 0) [] 2 := by
  intro h
  obtain ⟨_, t, reached, returned⟩ := h _ .refl
  refine execute_diverges (by decide) ?_ reached returned
  rw [List.length_replicate]
  decide

end Mull.Parallelization
