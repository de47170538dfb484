import Mathlib.Algebra.Order.Floor.Ring
import Mathlib.Algebra.Order.Field.Power
import Mathlib.Data.Int.Log
import Mathlib.Data.Rat.Floor
import Mathlib.Tactic.FieldSimp
import Mathlib.Tactic.Linarith
import Mathlib.Tactic.Positivity

/-! Rounding to the nearest number with a given count of binary digits, ties to even, without bounds on the
exponent. -/

namespace Base

/-- The nearest integer, of two the even one. -/
def roundEven (x : ℚ) : ℤ :=
  if Int.fract x < 1 / 2 then ⌊x⌋
  else if 1 / 2 < Int.fract x then ⌊x⌋ + 1
  else if ⌊x⌋ % 2 = 0 then ⌊x⌋ else ⌊x⌋ + 1

theorem roundEven_error (x : ℚ) : |x - roundEven x| ≤ 1 / 2 := by
  have split := Int.floor_add_fract x
  have below := Int.fract_lt_one x
  have above := Int.fract_nonneg x
  unfold roundEven
  rw [abs_le]
  split_ifs <;> constructor <;> push_cast <;> linarith

theorem roundEven_nearest (x : ℚ) (k : ℤ) : |x - roundEven x| ≤ |x - k| := by
  by_contra closer
  rw [not_le] at closer
  have error := roundEven_error x
  have apart : |((k - roundEven x : ℤ) : ℚ)| < 1 := by
    push_cast
    calc |(k : ℚ) - roundEven x| = |(x - roundEven x) - (x - k)| := by congr 1; ring
      _ ≤ |x - roundEven x| + |x - k| := abs_sub _ _
      _ < 1 := by linarith
  have same : k = roundEven x := by
    rw [← Int.cast_abs, ← Int.cast_one, Int.cast_lt, Int.abs_lt_one_iff] at apart
    omega
  rw [same] at closer
  exact lt_irrefl _ closer

/-- A number with this many binary digits. -/
def Representable (precision : Nat) (x : ℚ) : Prop := ∃ m e : ℤ, |m| ≤ 2 ^ precision ∧ x = m * 2 ^ e

/-- No representable number is nearer. -/
structure Nearest (precision : Nat) (x y : ℚ) : Prop where
  representable : Representable precision y
  nearest : ∀ z, Representable precision z → |x - y| ≤ |x - z|

def ulp (precision : Nat) (x : ℚ) : ℚ := 2 ^ (Int.log 2 x + 1 - precision)

def roundTo (precision : Nat) (x : ℚ) :
    ℚ := if x = 0 then 0 else roundEven (x / ulp precision x) * ulp precision x

section
variable {precision : Nat} {x y f : ℚ}

theorem representable_int {m : ℤ} (small : |m| ≤ 2 ^ precision) : Representable precision m :=
  ⟨m, 0, small, by simp⟩

theorem Nearest.le (nearest : Nearest precision x y) (representable : Representable precision f)
    (le : x ≤ f) : y ≤ f := by
  by_contra above
  rw [not_le] at above
  have closer := nearest.nearest f representable
  rw [abs_of_nonpos (by linarith), abs_of_nonpos (by linarith)] at closer
  linarith

theorem Nearest.ge (nearest : Nearest precision x y) (representable : Representable precision f)
    (le : f ≤ x) : f ≤ y := by
  by_contra below
  rw [not_le] at below
  have closer := nearest.nearest f representable
  rw [abs_of_nonneg (by linarith), abs_of_nonneg (by linarith)] at closer
  linarith

theorem Nearest.eq (nearest : Nearest precision x y) (representable : Representable precision x) : y = x :=
  le_antisymm (nearest.le representable le_rfl) (nearest.ge representable le_rfl)

theorem ulp_pos (precision : Nat) (x : ℚ) : 0 < ulp precision x := by
  unfold ulp
  positivity

theorem scaled_lt (precision : Nat) (x : ℚ) : x / ulp precision x < 2 ^ precision := by
  rw [div_lt_iff₀ (ulp_pos precision x)]
  unfold ulp
  rw [← zpow_natCast, ← zpow_add₀ (by norm_num)]
  have above := Int.lt_zpow_succ_log_self (b := 2) (by norm_num) x
  rw [Nat.cast_ofNat] at above
  rwa [show (precision : ℤ) + (Int.log 2 x + 1 - precision) = Int.log 2 x + 1 by ring]

theorem roundTo_representable (nonnegative : 0 ≤ x) : Representable precision (roundTo precision x) := by
  unfold roundTo
  split
  · exact ⟨0, 0, by simp, by simp⟩
  · rename_i nonzero
    have positive : 0 < x := lt_of_le_of_ne nonnegative (Ne.symm nonzero)
    refine ⟨roundEven (x / ulp precision x), _, ?_, rfl⟩
    have scaled := scaled_lt precision x
    have scaled_pos : 0 < x / ulp precision x := div_pos positive (ulp_pos precision x)
    have error := abs_le.mp (roundEven_error (x / ulp precision x))
    have upper : roundEven (x / ulp precision x) < 2 ^ precision + 1 := by
      have cast : (roundEven (x / ulp precision x) : ℚ) < ((2 ^ precision + 1 : ℤ) : ℚ) := by
        push_cast
        linarith
      exact_mod_cast cast
    have lower : -1 < roundEven (x / ulp precision x) := by
      have cast : ((-1 : ℤ) : ℚ) < (roundEven (x / ulp precision x) : ℚ) := by
        push_cast
        linarith
      exact_mod_cast cast
    rw [abs_of_nonneg (by omega)]
    omega

theorem roundTo_nearest (digits : 1 ≤ precision) (nonnegative : 0 ≤ x) :
    Nearest precision x (roundTo precision x) := by
  refine ⟨roundTo_representable nonnegative, fun z representable => ?_⟩
  unfold roundTo
  split
  · rename_i zero
    rw [zero]
    simp
  rename_i nonzero
  have positive : 0 < x := lt_of_le_of_ne nonnegative (Ne.symm nonzero)
  have unit := ulp_pos precision x
  have multiple (k : ℤ) : |x - roundEven (x / ulp precision x) * ulp precision x| ≤
    |x - k * ulp precision x| := by
    have scale (a : ℚ) : |x - a * ulp precision x| = |x / ulp precision x - a| * ulp precision x := by
      rw [← abs_of_pos unit, ← abs_mul, abs_of_pos unit]
      congr 1
      field_simp
    rw [scale, scale]
    exact mul_le_mul_of_nonneg_right (roundEven_nearest _ k) unit.le
  obtain ⟨m, e, small, rfl⟩ := representable
  by_cases fine : Int.log 2 x + 1 - precision ≤ e
  · obtain ⟨n, same⟩ := Int.eq_ofNat_of_zero_le (sub_nonneg.mpr fine)
    have grid : (m : ℚ) * 2 ^ e = ((m * 2 ^ n : ℤ) : ℚ) * ulp precision x := by
      have exponent : e = n + (Int.log 2 x + 1 - precision) := by omega
      unfold ulp
      rw [exponent, zpow_add₀ (by norm_num), zpow_natCast]
      push_cast
      ring
    rw [grid]
    exact multiple _
  · -- anything with a finer grid is below the power of two under `x`
    have base := Int.zpow_log_le_self (b := 2) (by norm_num) positive
    rw [Nat.cast_ofNat] at base
    have grid : (2 : ℚ) ^ Int.log 2 x = ((2 ^ (precision - 1) : ℤ) : ℚ) * ulp precision x := by
      unfold ulp
      push_cast
      rw [← zpow_natCast, ← zpow_add₀ (by norm_num)]
      congr 1
      omega
    have below : (m : ℚ) * 2 ^ e ≤ 2 ^ Int.log 2 x := by
      have size : (m : ℚ) ≤ 2 ^ precision := by
        exact_mod_cast (le_abs_self m).trans small
      calc (m : ℚ) * 2 ^ e ≤ 2 ^ precision * 2 ^ e := mul_le_mul_of_nonneg_right size (by positivity)
        _ = 2 ^ ((precision : ℤ) + e) := by rw [zpow_add₀ (by norm_num), zpow_natCast]
        _ ≤ 2 ^ Int.log 2 x := zpow_le_zpow_right₀ (by norm_num) (by omega)
    calc _ ≤ |x - ((2 ^ (precision - 1) : ℤ) : ℚ) * ulp precision x| := multiple _
      _ = |x - 2 ^ Int.log 2 x| := by rw [grid]
      _ = x - 2 ^ Int.log 2 x := abs_of_nonneg (by linarith)
      _ ≤ x - m * 2 ^ e := by linarith
      _ ≤ _ := le_abs_self _

end

end Base
