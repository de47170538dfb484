import Mathlib.Tactic.Ring

/-! Conversions to the 32-bit `int`, and sums that have to stay in it. -/

namespace Base

/-- The value an integer takes when it is converted to a 32-bit `int`. -/
def toInt32 (n : Int) : Int := n.bmod (2 ^ 32)

theorem toInt32_of_lt {n : Nat} (small : n < 2 ^ 31) : toInt32 n = n := by
  unfold toInt32
  rw [Int.bmod_def]
  split <;> omega

theorem toInt32_lt (n : Int) : toInt32 n < 2 ^ 31 := by
  have := Int.bmod_lt (x := n) (m := 2 ^ 32) (by decide)
  unfold toInt32
  omega

theorem toInt32_le (n : Nat) : toInt32 n ≤ n := by
  unfold toInt32
  rw [Int.bmod_def]
  split <;> omega

/-- What an operation on `int`s gives; `none` where it overflows. -/
def checked (n : Int) : Option Int := if -2 ^ 31 ≤ n ∧ n < 2 ^ 31 then some n else none

theorem checked_eq_some {n m : Int} : checked n = some m ↔ (-2 ^ 31 ≤ n ∧ n < 2 ^ 31) ∧ m = n := by
  unfold checked
  split
  · rename_i inside
    rw [Option.some.injEq, eq_comm]
    exact (and_iff_right inside).symm
  · rename_i outside
    exact iff_of_false nofun fun both => outside both.1

end Base
