import Mull.Base.Rounding

/-! The mutation score of the reporters, computed with doubles and cut to an integer. -/

namespace Mull.Reporters
open Base

/-- A `double`, which has 53 binary digits. -/
def binary64 (x : ℚ) : ℚ := roundTo 53 x

/-- `uint(double(killed) / double(total) * 100)`; the sizes are exact as doubles. -/
def score (killed total : Nat) : Nat := ⌊binary64 (binary64 (killed / total) * 100)⌋₊

theorem binary64_nearest {x : ℚ} (nonnegative : 0 ≤ x) : Nearest 53 x (binary64 x) :=
  roundTo_nearest (by norm_num) nonnegative

theorem binary64_nonneg {x : ℚ} (nonnegative : 0 ≤ x) : 0 ≤ binary64 x := by
  have zero : Representable 53 0 := ⟨0, 0, by norm_num, by simp⟩
  exact (binary64_nearest nonnegative).ge zero nonnegative

section
variable {killed total n : Nat} {f g : ℚ}

theorem score_le (fraction : Representable 53 f) (above : (killed / total : ℚ) ≤ f)
    (product : Representable 53 g) (scaled : f * 100 ≤ g) (below : g < n + 1) : score killed total ≤ n := by
  have nonnegative : (0 : ℚ) ≤ killed / total := by positivity
  have rounded := (binary64_nearest nonnegative).le fraction above
  have times : (0 : ℚ) ≤ binary64 (killed / total) * 100 :=
    mul_nonneg (binary64_nonneg nonnegative) (by norm_num)
  have result := (binary64_nearest times).le product (by linarith)
  have less : score killed total < n + 1 := by
    refine (Nat.floor_lt (binary64_nonneg times)).mpr ?_
    push_cast
    linarith
  omega

theorem le_score (fraction : Representable 53 f) (below : f ≤ killed / total) (small : n ≤ 100)
    (scaled : (n : ℚ) ≤ f * 100) : n ≤ score killed total := by
  have nonnegative : (0 : ℚ) ≤ killed / total := by positivity
  have rounded := (binary64_nearest nonnegative).ge fraction below
  have times : (0 : ℚ) ≤ binary64 (killed / total) * 100 :=
    mul_nonneg (binary64_nonneg nonnegative) (by norm_num)
  have whole : Representable 53 (n : ℚ) := by
    have small' : |(n : ℤ)| ≤ 2 ^ 53 := by
      rw [abs_of_nonneg (by omega)]
      omega
    exact_mod_cast representable_int small'
  exact Nat.le_floor ((binary64_nearest times).ge whole (by linarith))

theorem fraction_grid (positive : 0 < total) (le : killed ≤ total) :
    ∃ low high : ℚ, Representable 53 low ∧ Representable 53 high ∧ low ≤ killed / total ∧
    (killed / total : ℚ) ≤ high ∧
      (killed / total : ℚ) - 1 / 2 ^ 50 ≤ low ∧ high ≤ killed / total + 1 / 2 ^ 50 := by
  have cast_positive : (0 : ℚ) < total := by exact_mod_cast positive
  have small : (killed / total : ℚ) ≤ 1 := (div_le_one cast_positive).mpr (by exact_mod_cast le)
  have nonnegative : (0 : ℚ) ≤ killed / total := by positivity
  generalize (killed / total : ℚ) = x at *
  have floor_le := Int.floor_le (x * 2 ^ 50)
  have lt_floor := Int.lt_floor_add_one (x * 2 ^ 50)
  have le_ceil := Int.le_ceil (x * 2 ^ 50)
  have ceil_lt := Int.ceil_lt_add_one (x * 2 ^ 50)
  have floor_nonneg : 0 ≤ ⌊x * 2 ^ 50⌋ := Int.floor_nonneg.mpr (by positivity)
  have ceil_nonneg : 0 ≤ ⌈x * 2 ^ 50⌉ := Int.ceil_nonneg (by positivity)
  have ceil_small : ⌈x * 2 ^ 50⌉ ≤ 2 ^ 50 := by
    refine Int.ceil_le.mpr ?_
    push_cast
    linarith
  have floor_small : ⌊x * 2 ^ 50⌋ ≤ ⌈x * 2 ^ 50⌉ := Int.floor_le_ceil _
  have power : (2 : ℚ) ^ (-50 : ℤ) = (2 ^ 50)⁻¹ := by norm_num
  have unit : (0 : ℚ) < 2 ^ 50 := by norm_num
  have step : (1 / 2 ^ 50 : ℚ) * 2 ^ 50 = 1 := by norm_num
  refine ⟨⌊x * 2 ^ 50⌋ * 2 ^ (-50 : ℤ), ⌈x * 2 ^ 50⌉ * 2 ^ (-50 : ℤ), ⟨_, _, ?_, rfl⟩,
    ⟨_, _, ?_, rfl⟩, ?_, ?_, ?_, ?_⟩
  · rw [abs_of_nonneg floor_nonneg]
    omega
  · rw [abs_of_nonneg ceil_nonneg]
    omega
  · rw [power, ← div_eq_mul_inv, div_le_iff₀ unit]
    exact floor_le
  · rw [power, ← div_eq_mul_inv, le_div_iff₀ unit]
    exact le_ceil
  · rw [power, ← div_eq_mul_inv, le_div_iff₀ unit, sub_mul, step]
    linarith
  · rw [power, ← div_eq_mul_inv, div_le_iff₀ unit, add_mul, step]
    linarith

theorem percentage_le_hundred (le : killed ≤ total) : 100 * killed / total ≤ 100 :=
  Nat.div_le_of_le_mul (by omega)

variable (positive : 0 < total) (le : killed ≤ total) (fits : total ≤ 2 ^ 42)
include positive le fits

theorem score_le_percentage : score killed total ≤ 100 * killed / total := by
  obtain ⟨-, high, -, fraction, -, above, -, near⟩ := fraction_grid positive le
  have cast_positive : (0 : ℚ) < total := by exact_mod_cast positive
  have percentage := percentage_le_hundred le
  have less : 100 * killed + 1 ≤ (100 * killed / total + 1) * total :=
    Nat.lt_div_mul_add positive |>.trans_le (by
    rw [Nat.add_mul, Nat.one_mul])
  generalize 100 * killed / total = c at *
  have cast_less : (100 * (killed / total) : ℚ) + 1 / total ≤ c + 1 := by
    rw [← mul_div_assoc, ← add_div, div_le_iff₀ cast_positive]
    exact_mod_cast less
  have part : (1 / 2 ^ 42 : ℚ) ≤ 1 / total := one_div_le_one_div_of_le cast_positive (by exact_mod_cast fits)
  refine score_le (g := (((c + 1) * 2 ^ 43 - 1 : ℤ) : ℚ) * 2 ^ (-43 : ℤ)) fraction above ⟨_, _, ?_, rfl⟩ ?_ ?_
  · rw [abs_of_nonneg (by omega)]
    omega
  · have power : (2 : ℚ) ^ (-43 : ℤ) = 1 / 2 ^ 43 := by norm_num
    rw [power]
    push_cast
    linarith
  · have power : (2 : ℚ) ^ (-43 : ℤ) = 1 / 2 ^ 43 := by norm_num
    rw [power]
    push_cast
    linarith

/-- Where the percentage is not a whole number, what is left of it outweighs both roundings. -/
theorem percentage_le_score (partly : ¬ total ∣ 100 * killed) :
    100 * killed / total ≤ score killed total := by
  obtain ⟨low, -, fraction, -, below, -, near, -⟩ := fraction_grid positive le
  have cast_positive : (0 : ℚ) < total := by exact_mod_cast positive
  have percentage := percentage_le_hundred le
  have left : 1 ≤ 100 * killed % total := Nat.one_le_iff_ne_zero.mpr fun none =>
    partly (Nat.dvd_of_mod_eq_zero none)
  have split := Nat.div_add_mod (100 * killed) total
  generalize 100 * killed / total = c at *
  have more : c * total + 1 ≤ 100 * killed := by
    rw [Nat.mul_comm c]
    omega
  have cast_more : (c : ℚ) + 1 / total ≤ 100 * (killed / total) := by
    rw [← mul_div_assoc, le_div_iff₀ cast_positive, add_mul, one_div, inv_mul_cancel₀ cast_positive.ne']
    exact_mod_cast more
  have part : (1 / 2 ^ 42 : ℚ) ≤ 1 / total := one_div_le_one_div_of_le cast_positive (by exact_mod_cast fits)
  refine le_score fraction below percentage ?_
  linarith

omit fits in
theorem percentage_le_score_succ : 100 * killed / total ≤ score killed total + 1 := by
  obtain ⟨low, -, fraction, -, below, -, near, -⟩ := fraction_grid positive le
  have cast_positive : (0 : ℚ) < total := by exact_mod_cast positive
  have percentage := percentage_le_hundred le
  have split := Nat.div_mul_le_self (100 * killed) total
  generalize 100 * killed / total = c at *
  have cast_split : (c : ℚ) ≤ 100 * (killed / total) := by
    rw [← mul_div_assoc, le_div_iff₀ cast_positive]
    exact_mod_cast split
  cases c with
  | zero => exact Nat.zero_le _
  | succ c =>
    refine Nat.succ_le_succ (le_score fraction below (by omega) ?_)
    push_cast at cast_split
    linarith

/-- The score is the percentage of killed mutants without its fraction. Only where the percentage is a whole
number can it be one less, and it is 100 when all mutants are killed and only then. -/
theorem score_percentage : (score killed total = 100 * killed / total ∨
    total ∣ 100 * killed ∧ score killed total + 1 = 100 * killed / total) ∧
    (score killed total = 100 ↔ killed = total) := by
  have upper := score_le_percentage positive le fits
  refine ⟨?_, ?_⟩
  · by_cases whole : total ∣ 100 * killed
    · have lower := percentage_le_score_succ positive le
      rcases Nat.lt_or_ge (score killed total) (100 * killed / total) with less | enough
      · exact .inr ⟨whole, by omega⟩
      · exact .inl (by omega)
    · exact .inl (le_antisymm upper (percentage_le_score positive le fits whole))
  · constructor
    · intro all
      rw [all, Nat.le_div_iff_mul_le positive] at upper
      omega
    · intro all
      subst all
      rw [Nat.mul_div_cancel _ positive] at upper
      have cast_positive : (0 : ℚ) < killed := by exact_mod_cast positive
      have one : Representable 53 (1 : ℚ) := ⟨1, 0, by norm_num, by simp⟩
      have lower : 100 ≤ score killed killed := by
        refine le_score one (le_of_eq (div_self cast_positive.ne').symm) le_rfl ?_
        norm_num
      omega

end

/-- The fraction is rounded down, so is its product with a hundred, and the score of 29 mutants of 100 is 28. -/
theorem score_percentage_29 : score 29 100 = 28 ∧ ((score 29 100 = 29 ∨ 100 ∣ 2900 ∧ score 29 100 + 1 = 29) ∧
    (score 29 100 = 100 ↔ 29 = 100)) :=
  ⟨by decide +kernel, score_percentage (by omega) (by omega) (by norm_num)⟩

end Mull.Reporters
