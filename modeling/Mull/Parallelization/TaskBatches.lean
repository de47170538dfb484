import Mathlib.Algebra.BigOperators.Ring.Finset
import Mull.Base.EvenSplit
import Mull.Base.MachineInt

/-! `taskBatches`: how many elements of the input each worker gets. -/

namespace Mull.Parallelization
open Base

/-- The variables of the loop, `end` under the name `stop`. -/
structure BatchLoop where
  start : Int := 0
  stop : Int := 0
  s : Int := 0
  result : List Int := []

/-- One turn of the loop; `s + end` is added up before `start` is taken off. -/
def batchStep (n m : Int) (loop : BatchLoop) (k : Nat) : Option BatchLoop := do
  let rest ← checked (n - k)
  let q := rest.tdiv m
  let r := rest.tmod m
  let start := loop.stop
  let sum ← checked (loop.stop + q)
  let stop ← checked (sum + (if r ≠ 0 then 1 else 0))
  let total ← checked (loop.s + stop)
  let s ← checked (total - start)
  let batch ← checked (stop - start)
  some { start, stop, s, result := loop.result ++ [batch] }

/-- `none` is a failed assertion or an `int` that overflows. Both sizes are narrowed from `size_t` to `int`. -/
def taskBatches (itemsCount tasks : Nat) : Option (List Int) :=
  if itemsCount < tasks then none
  else do
    let n := toInt32 itemsCount
    let m := toInt32 tasks
    let loop ← (List.range m.toNat).foldlM (batchStep n m) {}
    if loop.s = n then some loop.result else none

theorem batchStep_some {n m : Int} {loop loop' : BatchLoop} {k : Nat}
    (step : batchStep n m loop k = some loop') :
    loop'.result = loop.result ++ [loop'.stop - loop.stop] ∧ loop'.s = loop.s + loop'.stop - loop.stop := by
  obtain ⟨rest, -, step⟩ := Option.bind_eq_some_iff.mp step
  obtain ⟨sum, -, step⟩ := Option.bind_eq_some_iff.mp step
  obtain ⟨stop, -, step⟩ := Option.bind_eq_some_iff.mp step
  obtain ⟨total, isTotal, step⟩ := Option.bind_eq_some_iff.mp step
  obtain ⟨s, isS, step⟩ := Option.bind_eq_some_iff.mp step
  obtain ⟨batch, isBatch, step⟩ := Option.bind_eq_some_iff.mp step
  obtain rfl := Option.some.inj step
  rw [(checked_eq_some.mp isBatch).2, (checked_eq_some.mp isS).2, (checked_eq_some.mp isTotal).2]
  exact ⟨rfl, rfl⟩

/-- By induction on the turns: `s` is the sum of the batches. -/
theorem batchLoop_some {n m : Int} {j : Nat} {loop : BatchLoop}
    (run : (List.range j).foldlM (batchStep n m) {} = some loop) :
    loop.result.length = j ∧ loop.stop = loop.result.sum ∧ loop.s = loop.result.sum := by
  induction j generalizing loop with
  | zero =>
    obtain rfl := Option.some.inj run
    exact ⟨rfl, rfl, rfl⟩
  | succ j ih =>
    rw [List.range_succ, List.foldlM_append] at run
    obtain ⟨before, earlier, step⟩ := Option.bind_eq_some_iff.mp run
    have step : batchStep n m before j = some loop := by simpa using step
    obtain ⟨length, stop, s⟩ := ih earlier
    obtain ⟨result, sum⟩ := batchStep_some step
    have added : loop.result.sum = before.result.sum + (loop.stop - before.stop) := by
      rw [result, List.sum_append, List.sum_singleton]
    refine ⟨by rw [result, List.length_append, length]; rfl, ?_, ?_⟩ <;> omega

/-- Whatever batches come out add up to the narrowed item count, one for each narrowed task. -/
theorem taskBatches_some {itemsCount tasks : Nat} {batches : List Int}
    (h : taskBatches itemsCount tasks = some batches) :
    batches.sum = toInt32 itemsCount ∧ batches.length = (toInt32 tasks).toNat := by
  unfold taskBatches at h
  split at h
  · cases h
  · obtain ⟨loop, run, done⟩ := Option.bind_eq_some_iff.mp h
    obtain ⟨length, -, sum⟩ := batchLoop_some run
    split at done
    · rename_i total
      obtain rfl := Option.some.inj done
      exact ⟨by rw [← sum, total], length⟩
    · cases done

/-! ### Sizes that fit -/

def upTo (n m j : Nat) : Nat := ((List.range j).map (share n m)).sum

theorem upTo_succ (n m j : Nat) : upTo n m (j + 1) = upTo n m j + share n m j := by
  unfold upTo
  rw [List.range_succ, List.map_append, List.sum_append]
  simp

theorem upTo_mono (n m : Nat) {j l : Nat} (less : j ≤ l) : upTo n m j ≤ upTo n m l := by
  induction l, less using Nat.le_induction with
  | base => exact le_rfl
  | succ l _ ih =>
    rw [upTo_succ]
    omega

theorem upTo_whole {n m : Nat} (positive : 0 < m) : upTo n m m = n := evenSplit_sum positive

/-- A turn on the sums of the shares: it overflows exactly where two sums in a row exceed an `int` together. -/
theorem batchStep_shares {n m k : Nat} (less : k < m) (enough : m ≤ n) (small : n < 2 ^ 31) {loop : BatchLoop}
    (stop : loop.stop = upTo n m k) (s : loop.s = upTo n m k) :
    (batchStep n m loop k = some ⟨upTo n m k, upTo n m (k + 1), upTo n m (k + 1),
      loop.result ++ [(share n m k : Int)]⟩ ∧
        upTo n m k + upTo n m (k + 1) < 2 ^ 31) ∨
      (batchStep n m loop k = none ∧ 2 ^ 31 ≤ upTo n m k + upTo n m (k + 1)) := by
  have rounded := share_eq_tdiv less enough
  have grows := upTo_succ n m k
  have within := upTo_mono n m (show k + 1 ≤ m from less)
  rw [upTo_whole (by omega)] at within
  have fits {i : Int} (below : -2 ^ 31 ≤ i) (above : i < 2 ^ 31) : checked i = some i := if_pos ⟨below, above⟩
  have quotient : 0 ≤ ((n : Int) - k).tdiv m := Int.tdiv_nonneg (by omega) (by omega)
  unfold batchStep
  rw [fits (by omega) (by omega), Option.bind_eq_bind, Option.bind_some]
  dsimp only
  generalize ((n : Int) - k).tdiv m = q at rounded quotient ⊢
  generalize remains : (if ((n : Int) - k).tmod m ≠ 0 then (1 : Int) else 0) = r at rounded ⊢
  have bit : 0 ≤ r := by
    rw [← remains]
    split <;> decide
  rw [stop, s, fits (by omega) (by omega), Option.bind_some]
  have next : (upTo n m k : Int) + q + r = upTo n m (k + 1) := by omega
  rw [next, fits (by omega) (by omega), Option.bind_some]
  by_cases room : upTo n m k + upTo n m (k + 1) < 2 ^ 31
  · refine .inl ⟨?_, room⟩
    rw [fits (by omega) (by omega), Option.bind_some, fits (by omega) (by omega), Option.bind_some,
      fits (by omega) (by omega), Option.bind_some]
    congr 1
    simp only [BatchLoop.mk.injEq, List.append_cancel_left_eq, List.cons.injEq, and_true, true_and]
    omega
  · refine .inr ⟨?_, by omega⟩
    rw [checked, if_neg (by omega)]
    rfl

/-- By induction on the turns. The last turn has the largest sums. -/
theorem batchLoop_shares {n m : Nat} (enough : m ≤ n) (small : n < 2 ^ 31) {j : Nat} (inside : j ≤ m) :
    (∀ k < j, upTo n m k + upTo n m (k + 1) < 2 ^ 31) ∧ (∃ start, (List.range j).foldlM (batchStep n m) {} =
        some ⟨start, upTo n m j, upTo n m j, (List.range j).map fun k => (share n m k : Int)⟩) ∨
      (∃ k < j, 2 ^ 31 ≤ upTo n m k + upTo n m (k + 1)) ∧
        (List.range j).foldlM (batchStep n m) {} = none := by
  induction j with
  | zero => exact .inl ⟨nofun, 0, rfl⟩
  | succ j ih =>
    rw [List.range_succ, List.foldlM_append]
    rcases ih (by omega) with ⟨room, start, run⟩ | ⟨⟨k, earlier, exceeds⟩, run⟩
    · rw [run, Option.bind_eq_bind, Option.bind_some, List.foldlM_cons]
      rcases @batchStep_shares n m j (Nat.lt_of_succ_le inside) enough small
          ⟨start, upTo n m j, upTo n m j, (List.range j).map fun k => (share n m k : Int)⟩ rfl rfl with
        ⟨step, next⟩ | ⟨step, exceeds⟩
      · refine .inl ⟨?_, upTo n m j, ?_⟩
        · intro k less
          rcases Nat.lt_succ_iff_lt_or_eq.mp less with earlier | rfl
          · exact room k earlier
          · exact next
        · rw [step, List.map_append]
          rfl
      · refine .inr ⟨⟨j, Nat.lt_succ_self j, exceeds⟩, ?_⟩
        rw [step]
        rfl
    · refine .inr ⟨⟨k, Nat.lt_succ_of_lt earlier, exceeds⟩, ?_⟩
      rw [run]
      rfl

/-- The sum that the last turn forms is twice the item count but for the last batch. -/
theorem upTo_last {n m : Nat} (positive : 1 ≤ m) : upTo n m (m - 1) + upTo n m m = 2 * n - n / m := by
  have whole := @upTo_whole n m positive
  have last := upTo_succ n m (m - 1)
  have share_last : share n m (m - 1) = n / m := by
    have remainder := Nat.mod_lt n positive
    unfold share
    rw [if_neg (by omega), Nat.add_zero]
  have size := Nat.div_le_self n m
  rw [Nat.sub_add_cancel positive] at last
  omega

/-- Sizes that fit in an `int` are split evenly, and the final assertion holds, unless the last sum overflows. -/
theorem taskBatches_evenSplit {itemsCount tasks : Nat} (positive : 1 ≤ tasks) (enough : tasks ≤ itemsCount)
    (small : itemsCount < 2 ^ 31) : taskBatches itemsCount tasks =
      if 2 * itemsCount - itemsCount / tasks < 2 ^ 31 then some
        ((evenSplit itemsCount tasks).map Nat.cast) else none := by
  have last := @upTo_last itemsCount tasks positive
  have most (k : Nat) (less : k < tasks) : upTo itemsCount tasks k + upTo itemsCount tasks (k + 1) ≤
      upTo itemsCount tasks (tasks - 1) + upTo itemsCount tasks tasks :=
    Nat.add_le_add (upTo_mono _ _ (by omega)) (upTo_mono _ _ (by omega))
  unfold taskBatches
  rw [if_neg (by omega), toInt32_of_lt small, toInt32_of_lt (Nat.lt_of_le_of_lt enough small)]
  dsimp only
  rw [Int.toNat_natCast]
  rcases @batchLoop_shares itemsCount tasks enough small tasks le_rfl with
    ⟨room, start, run⟩ | ⟨⟨k, less, exceeds⟩, run⟩
  · have final := room (tasks - 1) (by omega)
    rw [Nat.sub_add_cancel positive] at final
    rw [if_pos (by omega), run, Option.bind_eq_bind, Option.bind_some,
      if_pos (by rw [upTo_whole positive]), evenSplit, List.map_map]
    rfl
  · have bound := most k less
    rw [if_neg (by omega), run]
    rfl

/-- The batches of `n` items for `m` tasks: positive, larger ones first, none two larger than another, `n` in
all. -/
def SplitsEvenly (n m : Nat) (batches : List Int) : Prop :=
  batches.length = m ∧ (∀ batch ∈ batches, 0 < batch) ∧ batches.Pairwise (· ≥ ·) ∧ batches.sum = n ∧
    ∀ batch ∈ batches, ∀ other ∈ batches, batch ≤ other + 1

theorem evenSplit_splitsEvenly {n m : Nat} (positive : 1 ≤ m) (enough : m ≤ n) :
    SplitsEvenly n m ((evenSplit n m).map Nat.cast) := by
  refine ⟨by simp, ?_, ?_, ?_, ?_⟩
  · intro batch member
    obtain ⟨size, given, rfl⟩ := List.mem_map.mp member
    have := evenSplit_pos positive enough size given
    omega
  · apply List.pairwise_map.mpr
    apply (evenSplit_antitone n m).imp
    intro size other less
    exact Int.ofNat_le.mpr less
  · rw [← Nat.cast_list_sum, evenSplit_sum positive]
  · intro batch member other member'
    obtain ⟨size, given, rfl⟩ := List.mem_map.mp member
    obtain ⟨size', given', rfl⟩ := List.mem_map.mp member'
    have := evenSplit_near size given size' given'
    omega

/-- The sizes are narrowed to themselves, and the batches come out where no sum on the way exceeds an `int`. -/
theorem taskBatches_splitsEvenly_iff {itemsCount tasks : Nat} (positive : 1 ≤ tasks)
    (enough : tasks ≤ itemsCount) (small : itemsCount < 2 ^ 31) :
    (∃ batches, taskBatches itemsCount tasks = some batches ∧ SplitsEvenly itemsCount tasks batches) ↔
      2 * itemsCount - itemsCount / tasks < 2 ^ 31 := by
  rw [taskBatches_evenSplit positive enough small]
  constructor
  · intro split
    obtain ⟨batches, given, -⟩ := split
    by_contra exceeds
    rw [if_neg exceeds] at given
    cases given
  · intro room
    exact ⟨_, if_pos room, evenSplit_splitsEvenly positive enough⟩

theorem taskBatches_splitsEvenly_iff_seven :
    (∃ batches, taskBatches 7 3 = some batches ∧ SplitsEvenly 7 3 batches) ↔ 2 * 7 - 7 / 3 < 2 ^ 31 :=
  taskBatches_splitsEvenly_iff (by decide) (by decide) (by decide)

/-- As many items as an `int` counts, for two tasks: the second turn adds 1073741824 and 2147483647. -/
theorem not_taskBatches_splitsEvenly_largest : ¬ ∀ itemsCount tasks : Nat, 1 ≤ tasks → tasks ≤ itemsCount →
    itemsCount < 2 ^ 31 → ∃ batches, taskBatches itemsCount tasks = some batches ∧
      SplitsEvenly itemsCount tasks batches := by
  intro all
  obtain ⟨batches, given, -⟩ := all 2147483647 2 (by decide) (by decide) (by decide)
  have overflows : taskBatches 2147483647 2 = none := by decide
  rw [overflows] at given
  cases given

example : taskBatches 7 3 = some [3, 2, 2] := by decide

/-! ### Inputs that can be split -/

/-- The input of a single task is not split; for several tasks no sum of `taskBatches` may exceed an `int`. -/
def CanSplit (tasks items : Nat) : Prop := tasks = 1 ∨ 2 * items - items / min items tasks < 2 ^ 31

instance (tasks items : Nat) : Decidable (CanSplit tasks items) := inferInstanceAs (Decidable (_ ∨ _))

theorem CanSplit.small {tasks items : Nat} (fits : CanSplit tasks items) (several : tasks ≠ 1) :
    2 * items - items / min items tasks < 2 ^ 31 ∧ items < 2 ^ 31 := by
  have room := fits.resolve_left several
  have share := Nat.div_le_self items (min items tasks)
  omega

theorem CanSplit.mono {tasks items fewer : Nat} (fits : CanSplit tasks items) (less : fewer ≤ items) :
    CanSplit tasks fewer := by
  rcases fits with one | room
  · exact .inl one
  · right
    have share : items / min items tasks ≤ fewer / min fewer tasks + (items - fewer) := by
      rcases Nat.lt_or_ge fewer tasks with few | many
      · rw [Nat.min_eq_left (Nat.le_of_lt few)]
        rcases Nat.eq_zero_or_pos fewer with rfl | some_
        · have own := Nat.div_le_self items (min items tasks)
          omega
        · rw [Nat.div_self some_]
          rcases Nat.lt_or_ge tasks items with more | all
          · rw [Nat.min_eq_right (Nat.le_of_lt more)]
            have quotient : items / tasks ≤ 1 + (items - tasks) := by
              apply Nat.div_le_of_le_mul
              have positive : 1 ≤ tasks := by omega
              have product := Nat.mul_le_mul positive (le_refl (items - tasks))
              rw [Nat.mul_add, Nat.mul_one]
              omega
            omega
          · rw [Nat.min_eq_left all, Nat.div_self (by omega)]
            omega
      · rw [Nat.min_eq_right many, Nat.min_eq_right (many.trans less)]
        rcases Nat.eq_zero_or_pos tasks with rfl | positive
        · simp
        · apply Nat.le_of_lt_succ
          apply Nat.div_lt_of_lt_mul
          have divided := Nat.div_add_mod fewer tasks
          have remainder := Nat.mod_lt fewer positive
          have product := Nat.mul_le_mul positive (le_refl (items - fewer))
          rw [Nat.mul_succ, Nat.mul_add]
          omega
    have own := Nat.div_le_self items (min items tasks)
    omega

theorem canSplit_of_lt {tasks items : Nat} (small : items < 2 ^ 30) : CanSplit tasks items := by
  right
  exact Nat.lt_of_le_of_lt (Nat.sub_le _ _) (by omega)

end Mull.Parallelization
