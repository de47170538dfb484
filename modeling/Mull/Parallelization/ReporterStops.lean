import Mull.Parallelization.ExecutesInOrder

/-! What the progress reporter adds up while the workers count, and that it stops. -/

namespace Mull.Parallelization
open Relation Base

section
variable {α β : Type}

def AllFinished (s : State α β) : Prop := (∃ j, s.main = .joining j) ∧ ∀ w ∈ s.workers, w.finished

/-- The reporter has read every counter: this is what it has computed. -/
def Polled (s : State α β) (current : Nat) : Prop := s.reporter = .polling s.workers.length current

structure ReporterStops (task : Task α β) (input : List α) (out : List β) (tasks : Nat) : Prop where
  bounded : ∀ s, Reaches task input out tasks s → ∀ j current, s.reporter = .polling j current →
    current ≤ input.length
  monotone : ∀ s, Reaches task input out tasks s → ∀ t,
    ReflTransGen (Step (execute task input out tasks).1) s t →
    ∀ before after, Polled s before → Polled t after → before ≤ after
  /-- A poll that starts once all workers have finished. -/
  exact : ∀ s, Reaches task input out tasks s → AllFinished s → s.reporter = .polling 0 0 →
    ∀ t, ReflTransGen (Step (execute task input out tasks).1) s t → ∀ current, Polled t current →
      current = input.length
  /-- From then on no run is infinite, and none gets stuck before the call returns. -/
  ends : ∀ s, Reaches task input out tasks s → AllFinished s →
    Acc (fun t s => Step (execute task input out tasks).1 s t) s ∧
    ∀ t, ReflTransGen (Step (execute task input out tasks).1) s t → t.main ≠ .returned →
      ∃ u, Step (execute task input out tasks).1 t u
  returns : ∀ s, Reaches task input out tasks s →
    ∃ t, ReflTransGen (Step (execute task input out tasks).1) s t ∧ t.main = .returned

section
variable {run : Run α β} {input : List α} {out : List β}

/-! ### One poll -/

theorem counted_le (s : State α β) (j : Nat) : s.counted j ≤ s.counted s.workers.length := by
  have whole := congrArg (fun workers => (workers.map Worker.counter).sum) (List.take_append_drop j s.workers)
  simp only [List.map_append, List.sum_append] at whole
  rw [counted_all, State.counted]
  omega

theorem counted_input {s : State α β} (inv : Inv run input out s) :
    s.counted s.workers.length ≤ input.length := by
  obtain ⟨batches, inv⟩ := inv
  have covers := congrArg List.length inv.covers
  have counters := counters_le inv.workers
  rw [List.length_append, List.length_flatten] at covers
  rw [counted_all]
  omega

theorem polled_le {s : State α β} (inv : Inv run input out s) {j current : Nat}
    (at_ : s.reporter = .polling j current) : current ≤ s.counted s.workers.length := by
  obtain ⟨batches, inv⟩ := inv
  have reporter := inv.reporter
  simp only [ReporterInv, at_] at reporter
  exact reporter.2.trans (counted_le s j)

theorem polled_started {s : State α β} (inv : Inv run input out s)
    (present : s.reporter ≠ .absent) (i : Nat) :
    s.main ≠ .spawning i := by
  intro at_
  obtain ⟨batches, inv⟩ := inv
  have main := inv.main
  simp only [MainInv, at_] at main
  exact present main.2.1

/-! ### One poll after another -/

/-- What has happened since the reporter computed `before`: the counters went on, and what it has read since is at
least what they held then. -/
structure Since (s : State α β) (before : Nat) (t : State α β) : Prop where
  started : ∀ i, t.main ≠ .spawning i
  counters : List.Forall₂ (fun w counter => counter ≤ w.counter) t.workers (s.workers.map Worker.counter)
  reporter : ∀ j current, t.reporter = .polling j current →
    j = s.workers.length ∧ current = before ∨ s.counted j ≤ current

theorem since_start {s : State α β} (inv : Inv run input out s) {before : Nat} (polled : Polled s before) :
    Since s before s := by
  refine ⟨polled_started inv (by rw [polled]; nofun), ?_, ?_⟩
  · apply List.forall₂_map_right_iff.mpr
    exact List.forall₂_same.mpr fun _ _ => Nat.le_refl _
  · intro j current at_
    rw [polled] at at_
    cases at_
    exact .inl ⟨rfl, rfl⟩

theorem since_step {s t u : State α β} {before : Nat} (since : Since s before t) (step : Step run t u) :
    Since s before u := by
  obtain ⟨started, counters, reporter⟩ := since
  cases step with
  | spawn i group at_ more batch inside => exact absurd at_ (started i)
  | spawnReporter at_ => exact absurd at_ (started run.workers)
  | work left right w w' at_ turn =>
    refine ⟨started, forall₂_replace ?_ (at_ ▸ counters), reporter⟩
    intro counter le
    exact le.trans (workerStep_counter turn)
  | read j current w at_ counter =>
    refine ⟨started, counters, ?_⟩
    rintro _ _ ⟨⟩
    have count := counters.length_eq
    rw [List.length_map] at count
    obtain ⟨inside, same⟩ := List.getElem?_eq_some_iff.mp counter
    have read : s.workers[j]? = some s.workers[j] := List.getElem?_eq_getElem (by omega)
    have grown : s.workers[j].counter ≤ w.counter := by
      have each := counters.get inside (by rw [List.length_map]; omega)
      simpa [same] using each
    rcases reporter j current at_ with ⟨last, -⟩ | sum
    · omega
    · right
      rw [counted_succ read]
      omega
  | repoll current at_ less =>
    refine ⟨started, counters, ?_⟩
    rintro _ _ ⟨⟩
    exact .inr (Nat.zero_le _)
  | stop at_ => exact ⟨started, counters, nofun⟩
  | joinWorker j w at_ thread done => exact ⟨nofun, counters, reporter⟩
  | joinReporter at_ done => exact ⟨nofun, counters, reporter⟩

theorem polls_monotone {s t : State α β} (inv : Inv run input out s) (steps : ReflTransGen (Step run) s t)
    {before after : Nat} (first : Polled s before) (second : Polled t after) : before ≤ after := by
  have since := run_invariant (I := Since s before) (fun _ _ kept step => since_step kept step) steps
    (since_start inv first)
  have count := since.counters.length_eq
  rw [List.length_map] at count
  have least := polled_le inv first
  rcases since.reporter _ _ second with ⟨-, same⟩ | sum
  · omega
  · rw [count] at sum
    omega

/-! ### After the last increment -/

def Quiet (s : State α β) : Prop := Settled s ∧ ∀ w ∈ s.workers, w.finished

theorem quiet_step {s t : State α β} (quiet : Quiet s) (step : Step run s t) :
    Quiet t ∧ t.workers = s.workers := by
  obtain ⟨settled, done⟩ := quiet
  have started : ∀ i, s.main ≠ .spawning i := by
    intro i at_
    rcases settled with ⟨j, joining⟩ | returned
    · exact absurd (joining.symm.trans at_) nofun
    · exact absurd (returned.symm.trans at_) nofun
  cases step with
  | spawn i group at_ more batch inside => exact absurd at_ (started i)
  | spawnReporter at_ => exact absurd at_ (started run.workers)
  | work left right w w' at_ turn => exact absurd (done w (by simp [at_])) (workerStep_unfinished turn)
  | read j current w at_ counter => exact ⟨⟨settled, done⟩, rfl⟩
  | repoll current at_ less => exact ⟨⟨settled, done⟩, rfl⟩
  | stop at_ => exact ⟨⟨settled, done⟩, rfl⟩
  | joinWorker j w at_ thread _ => exact ⟨⟨.inl ⟨j + 1, rfl⟩, done⟩, rfl⟩
  | joinReporter at_ _ => exact ⟨⟨.inr rfl, done⟩, rfl⟩

/-- What is read from now on is what the counters hold. -/
structure Fresh (s t : State α β) : Prop where
  quiet : Quiet t
  workers : t.workers = s.workers
  reporter : ∀ j current, t.reporter = .polling j current → current = s.counted j

theorem fresh_step {s t u : State α β} (fresh : Fresh s t) (step : Step run t u) : Fresh s u := by
  obtain ⟨quiet, workers, reporter⟩ := fresh
  obtain ⟨after, same⟩ := quiet_step quiet step
  refine ⟨after, same.trans workers, ?_⟩
  cases step with
  | read j current w at_ counter =>
    rintro _ _ ⟨⟩
    rw [workers] at counter
    rw [counted_succ counter, reporter j current at_]
  | repoll current at_ less =>
    rintro _ _ ⟨⟩
    rfl
  | stop at_ => nofun
  | spawnReporter at_ =>
    rintro _ _ ⟨⟩
    rfl
  | spawn i group at_ more batch inside => exact reporter
  | work left right w w' at_ turn => exact reporter
  | joinWorker j w at_ thread done => exact reporter
  | joinReporter at_ done => exact reporter

theorem fresh_poll {s t : State α β} (covers : Covers run input) (inv : Inv run input out s)
    (finished : AllFinished s) (begins : s.reporter = .polling 0 0) (steps : ReflTransGen (Step run) s t)
    {current : Nat} (polled : Polled t current) : current = input.length := by
  have start : Fresh s s := by
    refine ⟨⟨.inl finished.1, finished.2⟩, rfl, ?_⟩
    intro j current at_
    rw [begins] at at_
    cases at_
    rfl
  have fresh := run_invariant (I := Fresh s) (fun _ _ kept step => fresh_step kept step) steps start
  have whole := finished_counted covers inv (.inl finished.1) finished.2
  rw [fresh.reporter _ _ polled, fresh.workers, whole, covers.total]

theorem quiet_less {s t : State α β} (covers : Covers run input) (inv : Inv run input out s) (quiet : Quiet s)
    (step : Step run s t) : pollsLeft t + joinsLeft t < pollsLeft s + joinsLeft s := by
  have whole := finished_counted covers inv quiet.1 quiet.2
  have started : ∀ i, s.main ≠ .spawning i := by
    intro i at_
    rcases quiet.1 with ⟨j, joining⟩ | returned
    · exact absurd (joining.symm.trans at_) nofun
    · exact absurd (returned.symm.trans at_) nofun
  cases step with
  | spawn i group at_ more batch inside => exact absurd at_ (started i)
  | spawnReporter at_ => exact absurd at_ (started run.workers)
  | work left right w w' at_ turn => exact absurd (quiet.2 w (by simp [at_])) (workerStep_unfinished turn)
  | read j current w at_ counter =>
    obtain ⟨inside, -⟩ := List.getElem?_eq_some_iff.mp counter
    have next := counted_succ counter
    refine Nat.add_lt_add_right ?_ (joinsLeft s)
    simp only [pollsLeft, at_]
    change (if current + w.counter = s.counted (j + 1) then _ else _) < _
    split <;> split <;> omega
  | repoll current at_ less =>
    have stale : current ≠ s.counted s.workers.length := by
      rw [whole]
      exact less
    have fresh : State.counted { s with reporter := .polling 0 0 } 0 = 0 := rfl
    refine Nat.add_lt_add_right ?_ (joinsLeft s)
    simp only [pollsLeft, at_, fresh, if_neg stale, if_true]
    omega
  | stop at_ =>
    refine Nat.add_lt_add_right ?_ (joinsLeft s)
    simp only [pollsLeft, at_]
    split <;> omega
  | joinWorker j w at_ thread done =>
    obtain ⟨inside, -⟩ := List.getElem?_eq_some_iff.mp thread
    refine Nat.add_lt_add_left ?_ (pollsLeft s)
    simp only [joinsLeft, at_]
    omega
  | joinReporter at_ done =>
    refine Nat.add_lt_add_left ?_ (pollsLeft s)
    simp only [joinsLeft, at_]
    omega

theorem quiet_advances {s : State α β} (inv : Inv run input out s) (quiet : Quiet s)
    (running : s.main ≠ .returned) :
    ∃ t, Step run s t := by
  obtain ⟨⟨j, at_⟩ | at_, done⟩ := quiet
  · obtain ⟨batches, inv⟩ := inv
    have main := inv.main
    have reporter := inv.reporter
    simp only [MainInv, at_] at main
    obtain ⟨-, present, -, bound, -⟩ := main
    rcases Nat.lt_or_eq_of_le bound with inside | rfl
    · exact ⟨_, .joinWorker s j _ at_ (List.getElem?_eq_getElem inside) (done _ (List.getElem_mem inside))⟩
    · cases poll : s.reporter with
      | absent => exact absurd poll present
      | stopped => exact ⟨_, .joinReporter s at_ poll⟩
      | polling next current =>
        simp only [ReporterInv, poll] at reporter
        rcases Nat.lt_or_eq_of_le reporter.1 with inside | rfl
        · exact ⟨_, .read s next current _ poll (List.getElem?_eq_getElem inside)⟩
        · by_cases enough : current = run.total
          · subst enough
            exact ⟨_, .stop s poll⟩
          · exact ⟨_, .repoll s current poll enough⟩
  · exact absurd at_ running

theorem quiet_ends {s : State α β} (covers : Covers run input) (inv : Inv run input out s) (quiet : Quiet s) :
    Acc (fun t s => Step run s t) s ∧
      ∀ t, ReflTransGen (Step run) s t → t.main ≠ .returned → ∃ u, Step run t u := by
  constructor
  · refine run_terminates (I := fun s => Inv run input out s ∧ Quiet s)
      (fun s => pollsLeft s + joinsLeft s) ?_
      ⟨inv, quiet⟩
    rintro s t ⟨inv, quiet⟩ step
    exact ⟨⟨step_inv _ _ inv step, (quiet_step quiet step).1⟩, quiet_less covers inv quiet step⟩
  · intro t steps running
    have kept := run_invariant (I := Quiet) (fun _ _ quiet step => (quiet_step quiet step).1) steps quiet
    exact quiet_advances (reaches_inv inv steps) kept running

end

/-! ### The call -/

theorem execute_inv {task : Task α β} {input : List α} (out : List β) {tasks : Nat} (positive : 1 ≤ tasks)
    (nonempty : input ≠ []) :
    ∃ out', ∀ s, Reaches task input out tasks s → Inv (execute task input out tasks).1 input out' s := by
  rcases execute_cases task out positive nonempty with ⟨_, mode⟩ | ⟨_, _, mode⟩
  · refine ⟨[], ?_⟩
    intro s reached
    rw [Reaches, mode] at reached
    rw [mode]
    exact reaches_inv (sequential_start task input out) reached
  · refine ⟨out, ?_⟩
    intro s reached
    rw [Reaches, mode] at reached
    rw [mode]
    exact reaches_inv (parallel_start task input out tasks) reached

theorem execute_covers {task : Task α β} {input : List α} (out : List β) {tasks : Nat} (positive : 1 ≤ tasks)
    (nonempty : input ≠ []) (fits : CanSplit tasks input.length) :
    Covers (execute task input out tasks).1 input := by
  rcases execute_cases task out positive nonempty with ⟨_, mode⟩ | ⟨several, _, mode⟩
  · rw [mode]
    exact sequential_covers task input out
  · rw [mode]
    exact (parallel_batches positive nonempty several fits).2

/-- The reporter gets to stop exactly where the input is not split or the sums of `taskBatches` fit in an `int`. -/
theorem reporterStops_iff (task : Task α β) {input : List α} (out : List β) {tasks : Nat}
    (positive : 1 ≤ tasks)
    (nonempty : input ≠ []) : ReporterStops task input out tasks ↔ CanSplit tasks input.length := by
  constructor
  · intro stops
    by_contra unfit
    obtain ⟨t, reached, returned⟩ := stops.returns _ .refl
    exact execute_diverges positive unfit reached returned
  · intro fits
    obtain ⟨out', inv⟩ := @execute_inv _ _ task _ out _ positive nonempty
    have covers := @execute_covers _ _ task _ out _ positive nonempty fits
    refine ⟨?_, ?_, ?_, ?_, ?_⟩
    · intro s reached j current at_
      exact (polled_le (inv s reached) at_).trans (counted_input (inv s reached))
    · intro s reached t steps before after first second
      exact polls_monotone (inv s reached) steps first second
    · intro s reached finished begins t steps current polled
      exact fresh_poll covers (inv s reached) finished begins steps polled
    · intro s reached finished
      exact quiet_ends covers (inv s reached) ⟨.inl finished.1, finished.2⟩
    · intro s reached
      exact execute_returns positive fits reached

end

/-- What cannot be loaded is skipped with `continue`, which goes on in the loop's header, where the counter is
incremented. -/
def loadBitcodeFromBinaryTask {Buffer Bitcode : Type} (loadModuleFromBuffer : Buffer → Option Bitcode) :
    Task Buffer Bitcode where
  element := id
  outputs buffer := (loadModuleFromBuffer buffer).toList

theorem reporterStops_iff_skipped :
    ReporterStops (loadBitcodeFromBinaryTask fun n : Nat => if n = 0 then none else some n) [0, 1, 2] [] 2 :=
  (reporterStops_iff _ [] (by decide) (by decide)).mpr (by decide)

/-- Two workers count two elements of more than four billion. -/
theorem not_reporterStops_two_workers :
    ¬ ReporterStops (loadBitcodeFromBinaryTask (some : Nat → Option Nat))
    (List.replicate (2 ^ 32 + 2) 0) [] 2 := by
  intro stops
  obtain ⟨t, reached, returned⟩ := stops.returns _ .refl
  refine execute_diverges (by decide) ?_ reached returned
  rw [List.length_replicate]
  decide

end Mull.Parallelization
