import Mathlib.Algebra.Order.BigOperators.Group.List
import Mull.Parallelization.Interleaving

/-!
From every state an execution can reach it can still return, as long as the batches cover the input:
start what is not started, let the workers finish, let the reporter poll once more, join. Executions
that return leave what one sequential run of the task leaves.
-/

namespace Mull.Parallelization
open Relation Base

section
variable {α β : Type}

/-- The batches are one for each worker, not negative, and add up to the input. -/
structure Covers (run : Run α β) (input : List α) : Prop where
  count : run.batches.length = run.workers
  nonneg : ∀ group ∈ run.batches, 0 ≤ group
  sum : run.batches.sum = input.length
  total : run.total = input.length

section
variable {run : Run α β} {input : List α} {out : List β}

theorem take_sum_le {batches : List Int} (nonneg : ∀ group ∈ batches, 0 ≤ group) (i : Nat) :
    (batches.take i).sum ≤ batches.sum := by
  have rest : 0 ≤ (batches.drop i).sum := List.sum_nonneg fun group member =>
    nonneg group (List.mem_of_mem_drop member)
  have whole : batches.sum = (batches.take i).sum + (batches.drop i).sum := by
    rw [← List.sum_append, List.take_append_drop]
  omega

theorem next_batch (covers : Covers run input) {s : State α β} {i : Nat} (inv : Inv run input out s)
    (at_ : s.main = .spawning i) (more : i < run.workers) :
    ∃ group, run.batches[i]? = some group ∧ 0 ≤ group ∧ group.toNat ≤ s.rest.length := by
  obtain ⟨batches, inv⟩ := inv
  have main := inv.main
  simp only [MainInv, at_] at main
  have inside : i < run.batches.length := by rw [covers.count]; exact more
  refine ⟨run.batches[i], List.getElem?_eq_getElem inside, covers.nonneg _ (List.getElem_mem inside), ?_⟩
  have lengths := congrArg List.length inv.covers
  rw [List.length_append, List.length_flatten] at lengths
  have given := sizes_sum inv
  rw [main.1] at given
  have front := take_sum_le covers.nonneg (i + 1)
  rw [List.take_add_one, List.getElem?_eq_getElem inside, List.sum_append, covers.sum] at front
  have nonneg := covers.nonneg _ (List.getElem_mem inside)
  simp only [Option.toList_some, List.sum_cons, List.sum_nil, add_zero] at front
  omega

theorem spawned_le (covers : Covers run input) {s : State α β} {i : Nat} (inv : Inv run input out s)
    (at_ : s.main = .spawning i) : i ≤ run.workers := by
  obtain ⟨batches, inv⟩ := inv
  have main := inv.main
  simp only [MainInv, at_] at main
  have lengths := congrArg List.length inv.sizes
  rw [List.length_map, ← inv.workers.length_eq, main.1, List.length_take, covers.count] at lengths
  omega

/-- Every thread is started, or the call is over. -/
def Settled (s : State α β) : Prop := (∃ j, s.main = .joining j) ∨ s.main = .returned

def spawnsLeft (run : Run α β) (s : State α β) : Nat :=
  match s.main with
  | .spawning i => run.workers + 1 - i
  | _ => 0

theorem reaches_settled (covers : Covers run input) {s : State α β} (inv : Inv run input out s)
    (alive : s.main ≠ .aborted) :
    ∃ t, ReflTransGen (Step run) s t ∧ (Inv run input out t ∧ t.main ≠ .aborted) ∧ Settled t := by
  refine run_reaches (spawnsLeft run) ?_ ⟨inv, alive⟩
  rintro s ⟨inv, alive⟩ unsettled
  cases at_ : s.main with
  | spawning i =>
    have bound := spawned_le covers inv at_
    by_cases more : i < run.workers
    · obtain ⟨group, batch, inside⟩ := next_batch covers inv at_ more
      have step : Step run s _ := .spawn s i group at_ more batch inside
      exact ⟨_, step, ⟨step_inv _ _ inv step, nofun⟩, by simp only [spawnsLeft, at_]; omega⟩
    · obtain rfl : i = run.workers := by omega
      have step : Step run s _ := .spawnReporter s at_
      exact ⟨_, step, ⟨step_inv _ _ inv step, nofun⟩, by simp only [spawnsLeft, at_]; omega⟩
  | joining j => exact absurd (Or.inl ⟨j, at_⟩) unsettled
  | returned => exact absurd (Or.inr at_) unsettled
  | aborted => exact absurd at_ alive

def Worker.load (w : Worker α β) : Nat := 2 * w.remaining.length + (if w.counting then 1 else 0)

theorem reaches_finished {s : State α β} (inv : Inv run input out s) (settled : Settled s) :
    ∃ t, ReflTransGen (Step run) s t ∧ (Inv run input out t ∧ Settled t) ∧ ∀ w ∈ t.workers, w.finished := by
  refine run_reaches (fun s => (s.workers.map Worker.load).sum) ?_ ⟨inv, settled⟩
  rintro s ⟨inv, settled⟩ busy
  simp only [not_forall] at busy
  obtain ⟨w, member, busy⟩ := busy
  obtain ⟨left, right, at_⟩ := List.append_of_mem member
  obtain ⟨w', turn, less⟩ := worker_advances run.task busy
  have step : Step run s _ := .work s left right w w' at_ turn
  refine ⟨_, step, ⟨step_inv _ _ inv step, settled⟩, ?_⟩
  simp only [at_, List.map_append, List.map_cons, List.sum_append, List.sum_cons]
  have : w'.load < w.load := less
  omega

theorem finished_counted (covers : Covers run input) {s : State α β} (inv : Inv run input out s)
    (settled : Settled s) (finished : ∀ w ∈ s.workers, w.finished) :
    s.counted s.workers.length = run.total := by
  obtain ⟨batches, inv⟩ := inv
  have count : s.workers.length = run.workers := by
    have main := inv.main
    rcases settled with ⟨j, at_⟩ | at_ <;> simp only [MainInv, at_] at main <;> exact main.1
  have given := sizes_sum inv
  rw [count, ← covers.count, List.take_length, covers.sum] at given
  rw [counted_all, (finished_results inv.workers finished).2.2, covers.total]
  omega

/-- How much polling is left. A sum that has read an old counter costs one more round. -/
def pollsLeft (s : State α β) : Nat :=
  match s.reporter with
  | .polling j current =>
    if current = s.counted j then s.workers.length + 2 - j else 2 * s.workers.length + 4 - j
  | _ => 0

def joinsLeft (s : State α β) : Nat :=
  match s.main with
  | .joining j => s.workers.length + 1 - j
  | _ => 0

theorem reaches_stopped (covers : Covers run input) {s : State α β} (inv : Inv run input out s)
    (settled : Settled s) (finished : ∀ w ∈ s.workers, w.finished) :
    ∃ t, ReflTransGen (Step run) s t ∧ (Inv run input out t ∧ Settled t ∧ ∀ w ∈ t.workers, w.finished) ∧
      t.reporter = .stopped := by
  refine run_reaches pollsLeft ?_ ⟨inv, settled, finished⟩
  rintro s ⟨inv, settled, finished⟩ running
  have kept : ∀ {t}, Step run s t → t.main = s.main → t.workers = s.workers →
      Inv run input out t ∧ Settled t ∧ ∀ w ∈ t.workers, w.finished := fun step main workers =>
    ⟨step_inv _ _ inv step, by rw [Settled, main]; exact settled, by rw [workers]; exact finished⟩
  cases at_ : s.reporter with
  | absent =>
    obtain ⟨batches, inv⟩ := inv
    have main := inv.main
    rcases settled with ⟨j, joining⟩ | returned
    · simp only [MainInv, joining] at main
      exact absurd at_ main.2.1
    · simp only [MainInv, returned] at main
      rw [main.2.1] at at_
      cases at_
  | stopped => exact absurd at_ running
  | polling j current =>
    have bound : j ≤ s.workers.length := by
      obtain ⟨batches, inv⟩ := inv
      have reporter := inv.reporter
      simp only [ReporterInv, at_] at reporter
      exact reporter.1
    rcases Nat.lt_or_eq_of_le bound with inside | rfl
    · have counter := List.getElem?_eq_getElem inside
      have step : Step run s _ := .read s j current _ at_ counter
      have next := counted_succ counter
      refine ⟨_, step, kept step rfl rfl, ?_⟩
      simp only [pollsLeft, at_]
      change (if current + s.workers[j].counter = s.counted (j + 1) then _ else _) < _
      split <;> split <;> omega
    · have whole := finished_counted covers inv settled finished
      by_cases enough : current = run.total
      · subst enough
        have step : Step run s _ := .stop s at_
        refine ⟨_, step, kept step rfl rfl, ?_⟩
        simp only [pollsLeft, at_]
        split <;> omega
      · have step : Step run s _ := .repoll s current at_ enough
        refine ⟨_, step, kept step rfl rfl, ?_⟩
        have stale : current ≠ s.counted s.workers.length := by rw [whole]; exact enough
        have fresh : State.counted { s with reporter := .polling 0 0 } 0 = 0 := rfl
        simp only [pollsLeft, at_, fresh, if_neg stale, if_true]
        omega

theorem reaches_returned {s : State α β} (inv : Inv run input out s) (settled : Settled s)
    (finished : ∀ w ∈ s.workers, w.finished) (stopped : s.reporter = .stopped) :
    ∃ t, ReflTransGen (Step run) s t ∧
      (Inv run input out t ∧ Settled t ∧ (∀ w ∈ t.workers, w.finished) ∧ t.reporter = .stopped) ∧
      t.main = .returned := by
  refine run_reaches joinsLeft ?_ ⟨inv, settled, finished, stopped⟩
  rintro s ⟨inv, settled, finished, stopped⟩ running
  rcases settled with ⟨j, at_⟩ | at_
  · have bound : j ≤ s.workers.length := by
      obtain ⟨batches, inv⟩ := inv
      have main := inv.main
      simp only [MainInv, at_] at main
      exact main.2.2.2.1
    rcases Nat.lt_or_eq_of_le bound with inside | rfl
    · have step : Step run s _ := .joinWorker s j _ at_ (List.getElem?_eq_getElem inside)
        (finished _ (List.getElem_mem inside))
      refine ⟨_, step, ⟨step_inv _ _ inv step, .inl ⟨_, rfl⟩, finished, stopped⟩, ?_⟩
      simp only [joinsLeft, at_]
      omega
    · have step : Step run s _ := .joinReporter s at_ stopped
      refine ⟨_, step, ⟨step_inv _ _ inv step, .inr rfl, finished, stopped⟩, ?_⟩
      simp only [joinsLeft, at_]
      omega
  · exact absurd at_ running

theorem reaches_end (covers : Covers run input) {s : State α β} (inv : Inv run input out s)
    (alive : s.main ≠ .aborted) : ∃ t, ReflTransGen (Step run) s t ∧ t.main = .returned := by
  obtain ⟨s₁, spawned, ⟨inv, _⟩, settled⟩ := reaches_settled covers inv alive
  obtain ⟨s₂, worked, ⟨inv, settled⟩, finished⟩ := reaches_finished inv settled
  obtain ⟨s₃, polled, ⟨inv, settled, finished⟩, stopped⟩ := reaches_stopped covers inv settled finished
  obtain ⟨t, joined, _, returned⟩ := reaches_returned inv settled finished stopped
  exact ⟨t, ((spawned.trans worked).trans polled).trans joined, returned⟩

end

end

end Mull.Parallelization
