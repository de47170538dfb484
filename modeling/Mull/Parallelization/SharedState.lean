import Mull.Parallelization.Executes

/-! Tasks whose turns read and change something that all workers share. Where every turn answers as a task
without it would, whatever the turns before left there, a call of `execute` cannot tell the difference. -/

namespace Mull.Parallelization
open Relation Base

/-- One turn under the lock: the element and the outputs it leaves, and the shared state. A failed assertion
ends the program. -/
abbrev SharedTurn (σ ε α β : Type) := α → σ → Except ε ((α × List β) × σ)

section
variable {σ ε α β : Type}

/-- A worker that stands at the element leaves it as the other one. -/
inductive TakesTurn (x x' : α) (outputs : List β) : State α β → State α β → Prop where
  | turn (s : State α β) (left right : List (Worker α β)) (done rest : List α)
      (storage : List β) (counter : Nat)
      (at_ : s.workers = left ++ ⟨done, x :: rest, false, storage, counter⟩ :: right) :
      TakesTurn x x' outputs s
        { s with workers := left ++ ⟨done ++ [x'], rest, true, storage ++ outputs, counter⟩ :: right }

def State.taken (s : State α β) : Nat := (s.workers.map fun w => w.processed.length).sum

/-- No worker takes up an element, or one does and has the shared state to itself. -/
inductive SharedStep (turn : SharedTurn σ ε α β) (run : Run α β) : State α β × σ → State α β × σ → Prop where
  | idle {s s' : State α β} {shared : σ} (step : Step run s s') (none : s'.taken = s.taken) :
      SharedStep turn run (s, shared) (s', shared)
  | turn {s s' : State α β} {shared shared' : σ} {x x' : α} {outputs : List β}
      (answer : turn x shared = .ok ((x', outputs), shared')) (takes : TakesTurn x x' outputs s s') :
      SharedStep turn run (s, shared) (s', shared')

/-- What `execute` is started with does not depend on what its turns do. -/
def untold : Task α β := ⟨id, fun _ => []⟩

def SharedReaches (turn : SharedTurn σ ε α β) (input : List α) (tasks : Nat) (shared : σ)
    (s : State α β) (shared' : σ) :
    Prop :=
  ReflTransGen (SharedStep turn (execute untold input [] tasks).1)
    ((execute untold input [] tasks).2, shared) (s, shared')

/-- A worker stands at an element that the turn fails on. -/
def Fails (turn : SharedTurn σ ε α β) (s : State α β) (shared : σ) : Prop :=
  ∃ left right done x rest storage counter failure,
    s.workers = left ++ ⟨done, x :: rest, false, storage, counter⟩ :: right ∧ turn x shared = .error failure

def NeverFails (turn : SharedTurn σ ε α β) (tasks : Nat) (input : List α) (shared : σ) : Prop :=
  ∀ s shared', SharedReaches turn input tasks shared s shared' → ¬ Fails turn s shared'

/-- A call of `execute` can return with the given vectors and shared state. -/
def SharedExecutes (turn : SharedTurn σ ε α β) (tasks : Nat) (input : List α) (shared : σ) (elements : List α)
    (out : List β) (shared' : σ) : Prop :=
  ∃ s, SharedReaches turn input tasks shared s shared' ∧ s.main = .returned ∧
    s.elements = elements ∧ s.out = out

/-- Wherever the shared state is in order the turn answers as the task does, and leaves it in order. -/
def AnswersAs (turn : SharedTurn σ ε α β) (I : σ → Prop) (task : Task α β) (input : List α) : Prop :=
  ∀ x ∈ input, ∀ shared, I shared → ∃ shared', turn x shared =
    .ok ((task.element x, task.outputs x), shared') ∧ I shared'

/-! ### Elements that wait -/

/-- The elements that are still to be taken up are elements of the input. -/
def WaitsIn (input : List α) (s : State α β) : Prop :=
  (∀ w ∈ s.workers, ∀ x ∈ w.remaining, x ∈ input) ∧ ∀ x ∈ s.rest, x ∈ input

theorem execute_waits (task : Task α β) (input : List α) (out : List β) (tasks : Nat) :
    WaitsIn input (execute task input out tasks).2 := by
  have all (x : α) (mem : x ∈ input) : x ∈ input := mem
  unfold execute
  split
  · exact ⟨fun w mem => absurd mem List.not_mem_nil, all⟩
  · split
    · refine ⟨fun w mem => ?_, fun x mem => absurd mem List.not_mem_nil⟩
      obtain rfl := List.mem_singleton.mp mem
      exact all
    · exact ⟨fun w mem => absurd mem List.not_mem_nil, all⟩

theorem workerStep_remaining {task : Task α β} {w w' : Worker α β} (turn : WorkerStep task w w') {x : α}
    (mem : x ∈ w'.remaining) : x ∈ w.remaining := by
  cases turn with
  | process => exact List.mem_cons_of_mem _ mem
  | increment => exact mem

theorem step_waits {run : Run α β} {input : List α} {s s' : State α β} (waits : WaitsIn input s)
    (step : Step run s s') :
    WaitsIn input s' := by
  obtain ⟨workers, rest⟩ := waits
  cases step with
  | spawn i group at_ more batch inside =>
    refine ⟨fun w mem => ?_, fun x mem => rest x (List.mem_of_mem_drop mem)⟩
    rcases List.mem_append.mp mem with old | new
    · exact workers w old
    · obtain rfl := List.mem_singleton.mp new
      exact fun x mem => rest x (List.mem_of_mem_take mem)
  | work left right w w' at_ turn =>
    refine ⟨fun v mem => ?_, rest⟩
    rcases List.mem_append.mp mem with old | later
    · exact workers v (at_ ▸ List.mem_append_left _ old)
    · rcases List.mem_cons.mp later with rfl | old
      · intro x mem
        exact workers w (at_ ▸ List.mem_append_right _ List.mem_cons_self) x (workerStep_remaining turn mem)
      · exact workers v (at_ ▸ List.mem_append_right _ (List.mem_cons_of_mem _ old))
  | _ => exact ⟨workers, rest⟩

/-! ### Both executors take the same steps -/

theorem execute_untold (task : Task α β) (input : List α) (tasks : Nat) :
    (execute task input [] tasks).2 = (execute untold input [] tasks).2 ∧
      (execute task input [] tasks).1 = { (execute untold input [] tasks).1 with task := task } := by
  unfold execute
  split
  · exact ⟨rfl, rfl⟩
  · split
    · exact ⟨rfl, rfl⟩
    · exact ⟨rfl, rfl⟩

variable {turn : SharedTurn σ ε α β} {I : σ → Prop} {task : Task α β} {input : List α} {run : Run α β}
  {s s' : State α β} {shared shared' : σ}

theorem takesTurn_waits {x x' : α} {outputs : List β} (waits : WaitsIn input s)
    (takes : TakesTurn x x' outputs s s') :
    x ∈ input := by
  cases takes with
  | turn left right done rest storage counter at_ =>
    exact waits.1 _ (at_ ▸ List.mem_append_right _ List.mem_cons_self) x List.mem_cons_self

theorem taken_replace {left right : List (Worker α β)} {w : Worker α β} (at_ : s.workers = left ++ w :: right)
    (w' : Worker α β) :
    State.taken { s with workers := left ++ w' :: right } + w.processed.length = s.taken +
      w'.processed.length := by
  unfold State.taken
  rw [at_]
  simp only [List.map_append, List.map_cons, List.sum_append, List.sum_cons]
  omega

/-- A step takes up an element by a turn of the task, or none whatever the task is. -/
theorem step_turn_or_idle (step : Step { run with task := task } s s') :
    (∃ x, TakesTurn x (task.element x) (task.outputs x) s s') ∨
      s'.taken = s.taken ∧ ∀ other : Task α β, Step { run with task := other } s s' := by
  cases step with
  | work left right w w' at_ turn =>
    cases turn with
    | process done rest x storage counter => exact .inl ⟨x, .turn s left right done rest storage counter at_⟩
    | increment done rest storage counter =>
      refine .inr ⟨?_, fun _ => .work s left right _ _ at_ (.increment done rest storage counter)⟩
      have same := taken_replace at_ ⟨done, rest, false, storage, counter + 1⟩
      dsimp only at same
      omega
  | spawn i group at_ more batch inside =>
    refine .inr ⟨?_, fun _ => .spawn s i group at_ more batch inside⟩
    unfold State.taken
    simp
  | spawnReporter at_ => exact .inr ⟨rfl, fun _ => .spawnReporter s at_⟩
  | read j current w at_ counter => exact .inr ⟨rfl, fun _ => .read s j current w at_ counter⟩
  | repoll current at_ less => exact .inr ⟨rfl, fun _ => .repoll s current at_ less⟩
  | stop at_ => exact .inr ⟨rfl, fun _ => .stop s at_⟩
  | joinWorker j w at_ thread done => exact .inr ⟨rfl, fun _ => .joinWorker s j w at_ thread done⟩
  | joinReporter at_ done => exact .inr ⟨rfl, fun _ => .joinReporter s at_ done⟩

theorem takesTurn_taken {x x' : α} {outputs : List β} (takes : TakesTurn x x' outputs s s') :
    s'.taken = s.taken + 1 := by
  cases takes with
  | turn left right done rest storage counter at_ =>
    have more := taken_replace at_ ⟨done ++ [x'], rest, true, storage ++ outputs, counter⟩
    rw [List.length_append, List.length_singleton] at more
    dsimp only at more
    omega

theorem sharedStep_step (answers : AnswersAs turn I task input) (waits : WaitsIn input s) (inOrder : I shared)
    (step : SharedStep turn run (s, shared) (s', shared')) :
      Step { run with task := task } s s' ∧ I shared' := by
  cases step with
  | idle step none =>
    rcases step_turn_or_idle step with ⟨x, takes⟩ | ⟨-, any⟩
    · have more := takesTurn_taken takes
      omega
    · exact ⟨any task, inOrder⟩
  | turn answer takes =>
    obtain ⟨kept, expected, inOrder'⟩ := answers _ (takesTurn_waits waits takes) shared inOrder
    rw [expected] at answer
    cases answer
    refine ⟨?_, inOrder'⟩
    cases takes with
    | turn left right done rest storage counter at_ =>
      exact .work s left right _ _ at_ (.process done rest _ storage counter)

theorem step_sharedStep (answers : AnswersAs turn I task input) (waits : WaitsIn input s) (inOrder : I shared)
    (step : Step { run with task := task } s s') :
    ∃ shared', SharedStep turn run (s, shared) (s', shared') ∧ I shared' := by
  rcases step_turn_or_idle step with ⟨x, takes⟩ | ⟨none, any⟩
  · obtain ⟨kept, answer, inOrder'⟩ := answers x (takesTurn_waits waits takes) shared inOrder
    exact ⟨kept, .turn answer takes, inOrder'⟩
  · exact ⟨shared, .idle (any run.task) none, inOrder⟩

/-! ### Whole calls -/

theorem sharedReaches_reaches {tasks : Nat} (answers : AnswersAs turn I task input) (inOrder : I shared)
    (reached : SharedReaches turn input tasks shared s shared') :
    Reaches task input [] tasks s ∧ WaitsIn input s ∧ I shared' := by
  obtain ⟨start, same⟩ := execute_untold task input tasks
  unfold Reaches
  rw [start, same]
  suffices all : ∀ t : State α β × σ, ReflTransGen (SharedStep turn (execute untold input [] tasks).1)
      ((execute untold input [] tasks).2, shared) t →
        ReflTransGen (Step { (execute untold input [] tasks).1 with task := task })
        (execute untold input [] tasks).2 t.1 ∧
          WaitsIn input t.1 ∧ I t.2 from all _ reached
  intro t steps
  induction steps with
  | refl => exact ⟨.refl, execute_waits _ _ _ _, inOrder⟩
  | tail _ last ih =>
    obtain ⟨before, waits, ordered⟩ := ih
    obtain ⟨step, ordered'⟩ := sharedStep_step answers waits ordered last
    exact ⟨before.tail step, step_waits waits step, ordered'⟩

theorem reaches_sharedReaches {tasks : Nat} (answers : AnswersAs turn I task input) (inOrder : I shared)
    (reached : Reaches task input [] tasks s) :
    ∃ shared', SharedReaches turn input tasks shared s shared' ∧ WaitsIn input s ∧ I shared' := by
  obtain ⟨start, same⟩ := execute_untold task input tasks
  unfold Reaches at reached
  rw [start, same] at reached
  induction reached with
  | refl => exact ⟨shared, .refl, execute_waits _ _ _ _, inOrder⟩
  | tail _ last ih =>
    obtain ⟨between, before, waits, ordered⟩ := ih
    obtain ⟨after, step, ordered'⟩ := step_sharedStep answers waits ordered last
    exact ⟨after, before.tail step, step_waits waits last, ordered'⟩

theorem neverFails_of_answers {tasks : Nat} (answers : AnswersAs turn I task input) (inOrder : I shared) :
    NeverFails turn tasks input shared := by
  intro s shared' reached fails
  obtain ⟨-, waits, ordered⟩ := sharedReaches_reaches answers inOrder reached
  obtain ⟨left, right, done, x, rest, storage, counter, failure, at_, failed⟩ := fails
  have waiting := waits.1 _ (at_ ▸ List.mem_append_right _ List.mem_cons_self) x List.mem_cons_self
  obtain ⟨_, ok, -⟩ := answers x waiting shared' ordered
  rw [ok] at failed
  cases failed

variable {tasks : Nat} {elements : List α} {out : List β}

theorem SharedExecutes.executes (returned : SharedExecutes turn tasks input shared elements out shared')
    (answers : AnswersAs turn I task input) (inOrder : I shared) :
      Executes task tasks input elements out ∧ I shared' := by
  obtain ⟨s, reached, returned, same, same'⟩ := returned
  obtain ⟨reached', -, inOrder'⟩ := sharedReaches_reaches answers inOrder reached
  exact ⟨⟨s, reached', returned, same, same'⟩, inOrder'⟩

theorem Executes.sharedExecutes (returned : Executes task tasks input elements out)
    (answers : AnswersAs turn I task input)
    (inOrder : I shared) : ∃ shared', SharedExecutes turn tasks input shared elements out shared' := by
  obtain ⟨s, reached, returned, same, same'⟩ := returned
  obtain ⟨shared', reached', -, -⟩ := reaches_sharedReaches answers inOrder reached
  exact ⟨shared', s, reached', returned, same, same'⟩

end

end Mull.Parallelization
