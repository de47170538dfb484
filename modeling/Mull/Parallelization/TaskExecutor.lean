import Mull.Base.Transition
import Mull.Parallelization.TaskBatches

/-!
`TaskExecutor::execute` as a transition system: the main thread that starts the workers and joins
them, the workers with their own storages and counters, and the progress reporter that adds up the
counters while they change.
-/

namespace Mull.Parallelization
open Relation Base

/-- One turn of a task's loop: the element as the turn leaves it, and what it pushes to the storage. -/
structure Task (α β : Type) where
  element : α → α
  outputs : α → List β

section
variable {α β : Type}

/-- The task's `operator()` over a whole range. -/
def Task.run (task : Task α β) (input : List α) (storage : List β) : List α × List β :=
  input.foldl (fun done x => (done.1 ++ [task.element x], done.2 ++ task.outputs x)) ([], storage)

theorem Task.run_eq (task : Task α β) (input : List α) (storage : List β) :
    task.run input storage = (input.map task.element, storage ++ input.flatMap task.outputs) := by
  have folded : ∀ (done : List α × List β),
      input.foldl (fun done x => (done.1 ++ [task.element x], done.2 ++ task.outputs x)) done =
        (done.1 ++ input.map task.element, done.2 ++ input.flatMap task.outputs) := by
    induction input with
    | nil => simp
    | cons x rest ih => intro done; rw [List.foldl_cons, ih]; simp
  exact folded ([], storage)

/-- A thread that runs a task over its batch. `remaining` is what lies between its iterators. -/
structure Worker (α β : Type) where
  processed : List α := []
  remaining : List α
  /-- The element is processed and its counter not yet incremented. -/
  counting : Bool := false
  storage : List β
  counter : Nat := 0

def Worker.finished (w : Worker α β) : Prop := w.remaining = [] ∧ w.counting = false

inductive WorkerStep (task : Task α β) : Worker α β → Worker α β → Prop where
  | process (done rest : List α) (x : α) (storage : List β) (counter : Nat) :
      WorkerStep task ⟨done, x :: rest, false, storage, counter⟩
        ⟨done ++ [task.element x], rest, true, storage ++ task.outputs x, counter⟩
  | increment (done rest : List α) (storage : List β) (counter : Nat) :
      WorkerStep task ⟨done, rest, true, storage, counter⟩ ⟨done, rest, false, storage, counter + 1⟩

/-- Where `progress_reporter::operator()` stands: the next counter it reads and the sum so far. -/
inductive Reporter where
  | absent
  | polling (next current : Nat)
  | stopped

inductive Main where
  | spawning (i : Nat)
  | joining (thread : Nat)
  | returned
  | aborted

/-- What does not change while the threads run. `storage` is what a worker's storage starts with. -/
structure Run (α β : Type) where
  task : Task α β
  batches : List Int
  workers : Nat
  total : Nat
  storage : List β

/-- `rest` is what lies between `end` and `in.end()` while batches are handed out. -/
structure State (α β : Type) where
  workers : List (Worker α β)
  rest : List α
  reporter : Reporter
  main : Main
  out : List β

def State.elements (s : State α β) : List α :=
  (s.workers.map fun w => w.processed ++ w.remaining).flatten ++ s.rest

def State.counted (s : State α β) (j : Nat) : Nat := ((s.workers.take j).map Worker.counter).sum

/-- One step of one thread. A batch that does not lie inside the input is undefined behaviour: no step. -/
inductive Step (run : Run α β) : State α β → State α β → Prop where
  | spawn (s : State α β) (i : Nat) (group : Int) (at_ : s.main = .spawning i) (more : i < run.workers)
      (batch : run.batches[i]? = some group) (inside : 0 ≤ group ∧ group.toNat ≤ s.rest.length) :
      Step run s { s with
        workers := s.workers ++ [{ remaining := s.rest.take group.toNat, storage := run.storage }]
        rest := s.rest.drop group.toNat
        main := .spawning (i + 1) }
  | spawnReporter (s : State α β) (at_ : s.main = .spawning run.workers) :
      Step run s { s with reporter := .polling 0 0, main := .joining 0 }
  | work (s : State α β) (left right : List (Worker α β)) (w w' : Worker α β)
      (at_ : s.workers = left ++ w :: right) (turn : WorkerStep run.task w w') :
      Step run s { s with workers := left ++ w' :: right }
  | read (s : State α β) (j current : Nat) (w : Worker α β) (at_ : s.reporter = .polling j current)
      (counter : s.workers[j]? = some w) :
      Step run s { s with reporter := .polling (j + 1) (current + w.counter) }
  | repoll (s : State α β) (current : Nat) (at_ : s.reporter = .polling s.workers.length current)
      (less : current ≠ run.total) : Step run s { s with reporter := .polling 0 0 }
  | stop (s : State α β) (at_ : s.reporter = .polling s.workers.length run.total) :
      Step run s { s with reporter := .stopped }
  | joinWorker (s : State α β) (j : Nat) (w : Worker α β) (at_ : s.main = .joining j)
      (thread : s.workers[j]? = some w) (done : w.finished) : Step run s { s with main := .joining (j + 1) }
  | joinReporter (s : State α β) (at_ : s.main = .joining s.workers.length) (done : s.reporter = .stopped) :
      Step run s { s with main := .returned, out := s.out ++ (s.workers.map Worker.storage).flatten }

/-- The main thread runs the task itself, straight into `out`. -/
def executeSequentially (task : Task α β) (input : List α) (out : List β) : Run α β × State α β :=
  ({ task, batches := [(input.length : Int)], workers := 1, total := input.length, storage := out },
   { workers := [{ remaining := input, storage := out }], rest := [], reporter := .polling 0 0,
     main := .joining 0, out := [] })

def executeInParallel (task : Task α β) (input : List α) (out : List β) (tasks : Nat) :
    Run α β × State α β :=
  let workers := min input.length tasks
  let batches := taskBatches input.length workers
  ({ task, batches := batches.getD [], workers, total := input.length, storage := [] },
   { workers := [], rest := input, reporter := .absent,
     main := if batches.isSome then .spawning 0 else .aborted, out })

/-- The run a call of `execute` starts, and its first state. -/
def execute (task : Task α β) (input : List α) (out : List β) (tasks : Nat) : Run α β × State α β :=
  if tasks = 0 ∨ input = [] then
    ({ task, batches := [], workers := 0, total := input.length, storage := [] },
     { workers := [], rest := input, reporter := .absent, main := .returned, out })
  else if tasks = 1 ∨ input.length = 1 then executeSequentially task input out
  else executeInParallel task input out tasks

def Reaches (task : Task α β) (input : List α) (out : List β) (tasks : Nat) (s : State α β) : Prop :=
  ReflTransGen (Step (execute task input out tasks).1) (execute task input out tasks).2 s

end

end Mull.Parallelization
