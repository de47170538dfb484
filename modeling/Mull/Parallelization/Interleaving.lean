import Mull.Parallelization.TaskExecutor

/-!
What every interleaving of the executor's threads keeps: each worker is somewhere in the middle of
its batch, the batches are consecutive pieces of the input, and the reporter's sum never runs ahead
of the counters.
-/

namespace Mull.Parallelization
open Relation Base

section
variable {α β : Type}

/-- The worker has done the front of its batch, and its counter says how much of it. -/
def WorkerInv (run : Run α β) (w : Worker α β) (batch : List α) : Prop :=
  ∃ done, batch = done ++ w.remaining ∧ w.processed = done.map run.task.element ∧
    w.storage = run.storage ++ done.flatMap run.task.outputs ∧
    w.counter + (if w.counting then 1 else 0) = done.length

theorem worker_start (run : Run α β) (batch : List α) :
    WorkerInv run { remaining := batch, storage := run.storage } batch :=
  ⟨[], by simp⟩

theorem workerStep_inv {run : Run α β} {w w' : Worker α β} (turn : WorkerStep run.task w w')
    (batch : List α) (inv : WorkerInv run w batch) : WorkerInv run w' batch := by
  obtain ⟨done, split, processed, storage, counter⟩ := inv
  cases turn with
  | process front rest x storage' counter' =>
    simp only at split processed storage
    refine ⟨done ++ [x], ?_⟩
    simp_all
  | increment front rest storage' counter' =>
    exact ⟨done, split, processed, storage, by simpa using counter⟩

theorem workerStep_counter {task : Task α β} {w w' : Worker α β} (turn : WorkerStep task w w') :
    w.counter ≤ w'.counter := by
  cases turn <;> simp

theorem workerStep_unfinished {task : Task α β} {w w' : Worker α β} (turn : WorkerStep task w w') :
    ¬ w.finished := by
  cases turn <;> simp [Worker.finished]

theorem worker_finished {run : Run α β} {w : Worker α β} {batch : List α} (inv : WorkerInv run w batch)
    (finished : w.finished) : w.processed = batch.map run.task.element ∧
      w.storage = run.storage ++ batch.flatMap run.task.outputs ∧ w.counter = batch.length := by
  obtain ⟨done, split, processed, storage, counter⟩ := inv
  obtain ⟨empty, idle⟩ := finished
  rw [empty, List.append_nil] at split
  subst split
  exact ⟨processed, storage, by simpa [idle] using counter⟩

theorem worker_counter_le {run : Run α β} {w : Worker α β} {batch : List α} (inv : WorkerInv run w batch) :
    w.counter ≤ batch.length := by
  obtain ⟨done, split, _, _, counter⟩ := inv
  rw [split, List.length_append]
  omega

/-- A worker that is not done has a turn to take, and less to do after it. -/
theorem worker_advances (task : Task α β) {w : Worker α β} (busy : ¬ w.finished) :
    ∃ w', WorkerStep task w w' ∧
      2 * w'.remaining.length + (if w'.counting then 1 else 0) <
        2 * w.remaining.length + (if w.counting then 1 else 0) := by
  obtain ⟨done, remaining, counting, storage, counter⟩ := w
  cases counting with
  | true => exact ⟨_, .increment .., by simp⟩
  | false =>
    cases remaining with
    | nil => exact (busy ⟨rfl, rfl⟩).elim
    | cons x rest => exact ⟨_, .process .., by simp; omega⟩

/-! ### Replacing one worker -/

theorem forall₂_replace {γ : Type} {R : Worker α β → γ → Prop} {left right : List (Worker α β)}
    {w w' : Worker α β} {batches : List γ} (keeps : ∀ batch, R w batch → R w' batch)
    (h : List.Forall₂ R (left ++ w :: right) batches) : List.Forall₂ R (left ++ w' :: right) batches := by
  induction left generalizing batches with
  | nil =>
    cases h with
    | cons head tail => exact .cons (keeps _ head) tail
  | cons x left ih =>
    cases h with
    | cons head tail => exact .cons head (ih tail)

theorem counters_replace {left right : List (Worker α β)} {w w' : Worker α β} (le : w.counter ≤ w'.counter)
    (j : Nat) : (((left ++ w :: right).take j).map Worker.counter).sum ≤
      (((left ++ w' :: right).take j).map Worker.counter).sum := by
  induction left generalizing j with
  | nil => cases j <;> simp [le]
  | cons x left ih =>
    cases j with
    | zero => simp
    | succ j => simpa using ih j

theorem finished_replace {left right : List (Worker α β)} {w w' : Worker α β} (busy : ¬ w.finished) {j : Nat}
    (h : ∀ x ∈ (left ++ w :: right).take j, x.finished) : ∀ x ∈ (left ++ w' :: right).take j, x.finished := by
  rcases Nat.lt_or_ge left.length j with inside | outside
  · refine absurd (h w ?_) busy
    rw [List.take_append]
    obtain ⟨k, hk⟩ : ∃ k, j - left.length = k + 1 := ⟨j - left.length - 1, by omega⟩
    simp [hk]
  · rwa [List.take_append_of_le_length outside] at h ⊢

/-! ### The invariant -/

def MainInv (run : Run α β) (out : List β) (s : State α β) : Prop :=
  match s.main with
  | .spawning i => s.workers.length = i ∧ s.reporter = .absent ∧ s.out = out
  | .joining j => s.workers.length = run.workers ∧ s.reporter ≠ .absent ∧ s.out = out ∧
      j ≤ s.workers.length ∧ ∀ w ∈ s.workers.take j, w.finished
  | .returned => s.workers.length = run.workers ∧ s.reporter = .stopped ∧ (∀ w ∈ s.workers, w.finished) ∧
      s.out = out ++ (s.workers.map Worker.storage).flatten
  | .aborted => True

def ReporterInv (run : Run α β) (s : State α β) : Prop :=
  match s.reporter with
  | .absent => True
  | .polling j current => j ≤ s.workers.length ∧ current ≤ s.counted j
  | .stopped => run.total ≤ s.counted s.workers.length

structure InvAt (run : Run α β) (input : List α) (out : List β) (batches : List (List α))
    (s : State α β) : Prop where
  workers : List.Forall₂ (WorkerInv run) s.workers batches
  covers : batches.flatten ++ s.rest = input
  sizes : batches.map (fun batch => (batch.length : Int)) = run.batches.take s.workers.length
  main : MainInv run out s
  reporter : ReporterInv run s

def Inv (run : Run α β) (input : List α) (out : List β) (s : State α β) : Prop :=
  ∃ batches, InvAt run input out batches s

theorem counted_all (s : State α β) : s.counted s.workers.length = (s.workers.map Worker.counter).sum := by
  simp [State.counted]

theorem counted_succ {s : State α β} {j : Nat} {w : Worker α β} (counter : s.workers[j]? = some w) :
    s.counted (j + 1) = s.counted j + w.counter := by
  simp [State.counted, List.take_add_one, counter]

theorem spawn_inv {run : Run α β} {input : List α} {out : List β} {s : State α β} {i : Nat} {group : Int}
    (inv : Inv run input out s) (at_ : s.main = .spawning i) (batch : run.batches[i]? = some group)
    (inside : 0 ≤ group ∧ group.toNat ≤ s.rest.length) :
    Inv run input out { s with
      workers := s.workers ++ [{ remaining := s.rest.take group.toNat, storage := run.storage }]
      rest := s.rest.drop group.toNat
      main := .spawning (i + 1) } := by
  obtain ⟨batches, inv⟩ := inv
  have main := inv.main
  simp only [MainInv, at_] at main
  obtain ⟨count, absent, same⟩ := main
  refine ⟨batches ++ [s.rest.take group.toNat], ?_, ?_, ?_, ?_, ?_⟩
  · exact List.rel_append inv.workers (.cons (worker_start run _) .nil)
  · simpa using inv.covers
  · have size : ((s.rest.take group.toNat).length : Int) = group := by
      rw [List.length_take, Nat.min_eq_left inside.2]
      omega
    simp only [List.map_append, List.map_cons, List.map_nil, size, inv.sizes, List.length_append,
      List.length_cons, List.length_nil, Nat.zero_add, count]
    rw [List.take_add_one, batch]
    rfl
  · exact ⟨by simp [count], absent, same⟩
  · simp [ReporterInv, absent]

theorem work_inv {run : Run α β} {input : List α} {out : List β} {s : State α β}
    {left right : List (Worker α β)} {w w' : Worker α β} (inv : Inv run input out s)
    (at_ : s.workers = left ++ w :: right) (turn : WorkerStep run.task w w') :
    Inv run input out { s with workers := left ++ w' :: right } := by
  obtain ⟨batches, inv⟩ := inv
  have busy := workerStep_unfinished turn
  have length : (left ++ w' :: right).length = s.workers.length := by simp [at_]
  have grows : ∀ j, s.counted j ≤ (((left ++ w' :: right).take j).map Worker.counter).sum := by
    intro j
    rw [State.counted, at_]
    exact counters_replace (workerStep_counter turn) j
  refine ⟨batches, ?_, inv.covers, by rw [length]; exact inv.sizes, ?_, ?_⟩
  · exact forall₂_replace (workerStep_inv turn) (at_ ▸ inv.workers)
  · have main := inv.main
    simp only [MainInv] at main ⊢
    split at main
    · exact ⟨length.trans main.1, main.2⟩
    · obtain ⟨count, present, same, inside, finished⟩ := main
      exact ⟨length.trans count, present, same, inside.trans_eq length.symm,
        finished_replace busy (at_ ▸ finished)⟩
    · exact absurd (main.2.2.1 w (by simp [at_])) busy
    · trivial
  · have reporter := inv.reporter
    simp only [ReporterInv] at reporter ⊢
    split at reporter
    · trivial
    · exact ⟨reporter.1.trans_eq length.symm, reporter.2.trans (grows _)⟩
    · rw [length]
      exact reporter.trans (grows _)

theorem mainInv_reporter {run : Run α β} {out : List β} {s : State α β} {j current : Nat} {next : Reporter}
    (main : MainInv run out s) (before : s.reporter = .polling j current) (after : next ≠ .absent) :
    MainInv run out { s with reporter := next } := by
  simp only [MainInv, before] at main ⊢
  split at main
  · exact absurd main.2.1 nofun
  · exact ⟨main.1, after, main.2.2⟩
  · exact absurd main.2.1 nofun
  · trivial

theorem step_inv {run : Run α β} {input : List α} {out : List β} (s t : State α β)
    (inv : Inv run input out s) (step : Step run s t) : Inv run input out t := by
  cases step with
  | spawn i group at_ more batch inside => exact spawn_inv inv at_ batch inside
  | work left right w w' at_ turn => exact work_inv inv at_ turn
  | spawnReporter at_ =>
    obtain ⟨batches, inv⟩ := inv
    have main := inv.main
    simp only [MainInv, at_] at main
    exact ⟨batches, inv.workers, inv.covers, inv.sizes, ⟨main.1, nofun, main.2.2, by simp, by simp⟩,
      ⟨Nat.zero_le _, Nat.zero_le _⟩⟩
  | read j current w at_ counter =>
    obtain ⟨batches, inv⟩ := inv
    have reporter := inv.reporter
    simp only [ReporterInv, at_] at reporter
    obtain ⟨inside, _⟩ := List.getElem?_eq_some_iff.mp counter
    have next := counted_succ counter
    refine ⟨batches, inv.workers, inv.covers, inv.sizes, mainInv_reporter inv.main at_ nofun, inside, ?_⟩
    simp only [State.counted] at reporter next ⊢
    omega
  | repoll current at_ less =>
    obtain ⟨batches, inv⟩ := inv
    exact ⟨batches, inv.workers, inv.covers, inv.sizes, mainInv_reporter inv.main at_ nofun,
      ⟨Nat.zero_le _, Nat.zero_le _⟩⟩
  | stop at_ =>
    obtain ⟨batches, inv⟩ := inv
    have reporter := inv.reporter
    simp only [ReporterInv, at_] at reporter
    exact ⟨batches, inv.workers, inv.covers, inv.sizes, mainInv_reporter inv.main at_ nofun, reporter.2⟩
  | joinWorker j w at_ thread done =>
    obtain ⟨batches, inv⟩ := inv
    have main := inv.main
    simp only [MainInv, at_] at main
    obtain ⟨count, present, same, _, finished⟩ := main
    obtain ⟨inside, _⟩ := List.getElem?_eq_some_iff.mp thread
    refine ⟨batches, inv.workers, inv.covers, inv.sizes, ⟨count, present, same, inside, ?_⟩, inv.reporter⟩
    intro x member
    rw [List.take_add_one, thread] at member
    rcases List.mem_append.mp member with old | last
    · exact finished x old
    · rw [Option.toList_some, List.mem_singleton] at last
      exact last ▸ done
  | joinReporter at_ done =>
    obtain ⟨batches, inv⟩ := inv
    have main := inv.main
    simp only [MainInv, at_] at main
    obtain ⟨count, _, same, _, finished⟩ := main
    rw [List.take_length] at finished
    exact ⟨batches, inv.workers, inv.covers, inv.sizes, ⟨count, done, finished, by rw [same]⟩, inv.reporter⟩

theorem reaches_inv {run : Run α β} {input : List α} {out : List β} {s t : State α β}
    (start : Inv run input out s) (steps : ReflTransGen (Step run) s t) : Inv run input out t :=
  run_invariant step_inv steps start

/-! ### What a returned state holds -/

theorem finished_results {run : Run α β} {workers : List (Worker α β)} {batches : List (List α)}
    (inv : List.Forall₂ (WorkerInv run) workers batches) (finished : ∀ w ∈ workers, w.finished) :
    (workers.map fun w => w.processed ++ w.remaining) = batches.map (List.map run.task.element) ∧
    workers.map Worker.storage = batches.map (fun batch => run.storage ++ batch.flatMap run.task.outputs) ∧
    workers.map Worker.counter = batches.map List.length := by
  induction inv with
  | nil => simp
  | @cons w batch _ _ head _ ih =>
    obtain ⟨elements, storages, counters⟩ := ih fun x member => finished x (List.mem_cons_of_mem _ member)
    have done := finished w List.mem_cons_self
    obtain ⟨processed, storage, counter⟩ := worker_finished head done
    simp [elements, storages, counters, processed, storage, counter, done.1]

theorem counters_le {run : Run α β} {workers : List (Worker α β)} {batches : List (List α)}
    (inv : List.Forall₂ (WorkerInv run) workers batches) :
    (workers.map Worker.counter).sum ≤ (batches.map List.length).sum := by
  induction inv with
  | nil => simp
  | cons head _ ih =>
    have := worker_counter_le head
    simp only [List.map_cons, List.sum_cons]
    omega

theorem sizes_sum {run : Run α β} {input : List α} {out : List β} {batches : List (List α)} {s : State α β}
    (inv : InvAt run input out batches s) :
    (((batches.map List.length).sum : Nat) : Int) = (run.batches.take s.workers.length).sum := by
  rw [← inv.sizes, Nat.cast_list_sum, List.map_map]
  rfl

theorem returned_total {run : Run α β} {input : List α} {out : List β} {batches : List (List α)}
    {s : State α β} (inv : InvAt run input out batches s) (done : s.main = .returned) :
    s.workers.length = run.workers ∧ run.total ≤ (batches.map List.length).sum := by
  have main := inv.main
  have reporter := inv.reporter
  simp only [MainInv, done] at main
  simp only [ReporterInv, main.2.1, counted_all] at reporter
  exact ⟨main.1, reporter.trans (counters_le inv.workers)⟩

theorem returned_results {run : Run α β} {input : List α} {out : List β} {batches : List (List α)}
    {s : State α β} (inv : InvAt run input out batches s) (done : s.main = .returned)
    (total : run.total = input.length) :
    batches.flatten = input ∧ s.elements = input.map run.task.element ∧
      s.out = out ++ (batches.map fun batch => run.storage ++ batch.flatMap run.task.outputs).flatten := by
  have counted := (returned_total inv done).2
  have covers := inv.covers
  have main := inv.main
  simp only [MainInv, done] at main
  obtain ⟨elements, storages, _⟩ := finished_results inv.workers main.2.2.1
  have empty : s.rest = [] := by
    have lengths := congrArg List.length covers
    rw [List.length_append, List.length_flatten] at lengths
    exact List.eq_nil_of_length_eq_zero (by omega)
  rw [empty, List.append_nil] at covers
  refine ⟨covers, ?_, by rw [main.2.2.2, storages]⟩
  rw [State.elements, elements, empty, List.append_nil, ← covers, List.map_flatten]

end

end Mull.Parallelization
