import Mathlib.Algebra.BigOperators.Group.List.Basic
import Mathlib.Algebra.Order.Ring.Nat

/-! Splitting `n` things into `m` shares whose sizes differ by at most one, larger shares first. -/

namespace Base

/-- The size of share `k`: the rounded-up quotient of `n - k` by `m`. -/
def share (n m k : Nat) : Nat := n / m + if k < n % m then 1 else 0

def evenSplit (n m : Nat) : List Nat := (List.range m).map (share n m)

@[simp] theorem evenSplit_length (n m : Nat) : (evenSplit n m).length = m := by simp [evenSplit]

theorem share_antitone (n m : Nat) {k l : Nat} (h : k ≤ l) : share n m l ≤ share n m k := by
  unfold share
  split <;> split <;> omega

theorem share_le_succ (n m k l : Nat) : share n m k ≤ share n m l + 1 := by
  unfold share
  split <;> split <;> omega

theorem share_pos {n m : Nat} (k : Nat) (positive : 0 < m) (enough : m ≤ n) : 0 < share n m k := by
  have : 0 < n / m := Nat.div_pos enough positive
  unfold share
  omega

theorem mem_evenSplit {n m size : Nat} (member : size ∈ evenSplit n m) : ∃ k < m, share n m k = size := by
  simpa [evenSplit] using member

theorem evenSplit_pos {n m : Nat} (positive : 0 < m) (enough : m ≤ n) : ∀ size ∈ evenSplit n m, 0 < size := by
  intro size member
  obtain ⟨k, -, rfl⟩ := mem_evenSplit member
  exact share_pos k positive enough

theorem evenSplit_antitone (n m : Nat) : (evenSplit n m).Pairwise (· ≥ ·) := by
  apply List.pairwise_map.mpr
  apply List.pairwise_lt_range.imp
  intro k l less
  exact share_antitone n m (Nat.le_of_lt less)

theorem evenSplit_near {n m : Nat} :
    ∀ size ∈ evenSplit n m, ∀ other ∈ evenSplit n m, size ≤ other + 1 := by
  intro size member other member'
  obtain ⟨k, -, rfl⟩ := mem_evenSplit member
  obtain ⟨l, -, rfl⟩ := mem_evenSplit member'
  exact share_le_succ n m k l

theorem share_sum_prefix (n m j : Nat) :
    ((List.range j).map (share n m)).sum = j * (n / m) + min j (n % m) := by
  induction j with
  | zero => simp
  | succ j ih =>
    rw [List.range_succ, List.map_append, List.sum_append, ih, Nat.succ_mul]
    simp only [List.map_cons, List.map_nil, List.sum_cons, List.sum_nil, share]
    split <;> omega

theorem evenSplit_sum {n m : Nat} (positive : 0 < m) : (evenSplit n m).sum = n := by
  rw [evenSplit, share_sum_prefix, Nat.min_eq_right (Nat.le_of_lt (Nat.mod_lt n positive))]
  exact Nat.div_add_mod n m

/-- Truncated division on `n - k` plus one for a remainder is the share, also where `k` exceeds `n % m`. -/
theorem share_eq_tdiv {n m k : Nat} (less : k < m) (enough : m ≤ n) :
    ((n : Int) - k).tdiv m + (if ((n : Int) - k).tmod m ≠ 0 then 1 else 0) = share n m k := by
  have natural : ((n : Int) - k) = ((n - k : Nat) : Int) := by omega
  rw [natural, ← Int.ofNat_tdiv, ← Int.ofNat_tmod]
  have divided := Nat.div_add_mod n m
  have below := Nat.mod_lt n (by omega : 0 < m)
  unfold share
  by_cases early : k ≤ n % m
  · have split : n - k = m * (n / m) + (n % m - k) := by omega
    have small : n % m - k < m := by omega
    rw [split, Nat.mul_add_div (by omega), Nat.mul_add_mod, Nat.div_eq_of_lt small, Nat.mod_eq_of_lt small]
    split <;> split <;> omega
  · have quotient : 1 ≤ n / m := Nat.div_pos enough (by omega)
    obtain ⟨q, hq⟩ : ∃ q, n / m = q + 1 := ⟨n / m - 1, by omega⟩
    rw [hq, Nat.mul_succ] at divided
    have split : n - k = m * q + (m + n % m - k) := by omega
    have small : m + n % m - k < m := by omega
    rw [split, Nat.mul_add_div (by omega), Nat.mul_add_mod, Nat.div_eq_of_lt small,
      Nat.mod_eq_of_lt small, hq]
    split <;> split <;> omega

end Base
