import Mathlib.Data.Int.Log
import Mathlib.Data.Rat.Floor
import Mathlib.Tactic.Linarith
import Mathlib.Tactic.Positivity

/-!
# Rounding to binary64

The result of an operation on doubles is the exact result rounded to a multiple of the spacing
of doubles at its size, halves to the even multiple.  The exponent has no upper limit here:
numbers that overflow do not occur.
-/

namespace LightningX.Binary64

/-- The nearest integer, halves to the even one. -/
def roundEven (value : ℚ) : Int :=
  if value - ⌊value⌋ < 1 / 2 ∨ value - ⌊value⌋ = 1 / 2 ∧ ⌊value⌋ % 2 = 0 then ⌊value⌋
  else ⌊value⌋ + 1

/-- The exponent of the last bit of a double of this size. -/
def lastBit (value : ℚ) : Int :=
  max (Int.log 2 |value|) (-1022) - 52

/-- The distance of doubles at this size. -/
def spacing (value : ℚ) : ℚ :=
  2 ^ lastBit value

/-- The nearest double. -/
def nearest (value : ℚ) : ℚ :=
  roundEven (value / spacing value) * spacing value

/-- `f64::round`: halves are rounded away from zero. -/
def roundHalfAway (value : ℚ) : Int :=
  if 0 ≤ value then ⌊value + 1 / 2⌋ else -⌊-value + 1 / 2⌋

theorem roundEven_near (value : ℚ) :
    |value - roundEven value| < 1 / 2 ∨
      |value - roundEven value| = 1 / 2 ∧ roundEven value % 2 = 0 := by
  have lower := Int.floor_le value
  have upper := Int.lt_floor_add_one value
  unfold roundEven
  split_ifs with down
  · rw [abs_of_nonneg (by linarith)]
    exact down
  · push_cast
    rw [abs_of_nonpos (by linarith)]
    rcases lt_trichotomy (value - ⌊value⌋) (1 / 2) with less | half | more
    · exact absurd (.inl less) down
    · have odd : ⌊value⌋ % 2 ≠ 0 := fun even => down (.inr ⟨half, even⟩)
      exact .inr ⟨by linarith, by omega⟩
    · exact .inl (by linarith)

theorem abs_sub_roundEven_le (value : ℚ) : |value - roundEven value| ≤ 1 / 2 :=
  (roundEven_near value).elim le_of_lt fun half => half.1.le

theorem roundHalfAway_eq {value : ℚ} {number : Int} (near : |value - number| < 1 / 2) :
    roundHalfAway value = number := by
  obtain ⟨lower, upper⟩ := abs_lt.mp near
  unfold roundHalfAway
  split_ifs with nonneg
  · exact Int.floor_eq_iff.mpr ⟨by linarith, by linarith⟩
  · rw [neg_eq_iff_eq_neg]
    exact Int.floor_eq_iff.mpr ⟨by push_cast; linarith, by push_cast; linarith⟩

theorem spacing_pos (value : ℚ) : 0 < spacing value :=
  zpow_pos two_pos _

/-- The error is half of the spacing at most. -/
theorem abs_sub_nearest_le (value : ℚ) : |value - nearest value| ≤ spacing value / 2 := by
  have positive := spacing_pos value
  have split : value - nearest value =
      (value / spacing value - roundEven (value / spacing value)) * spacing value := by
    rw [sub_mul, div_mul_cancel₀ _ positive.ne', nearest]
  have near := mul_le_mul_of_nonneg_right (abs_sub_roundEven_le (value / spacing value)) positive.le
  rw [split, abs_mul, abs_of_pos positive]
  linarith

theorem lt_spacing (value : ℚ) : |value| < 2 ^ 53 * spacing value := by
  have below : |value| < ((2 : Nat) : ℚ) ^ (Int.log 2 |value| + 1) :=
    Int.lt_zpow_succ_log_self (by decide) _
  refine below.trans_le ?_
  rw [spacing, ← zpow_natCast, ← zpow_add₀ two_ne_zero]
  refine zpow_le_zpow_right₀ one_le_two ?_
  unfold lastBit
  omega

/-- A normal number has 53 bits. -/
theorem spacing_le {value : ℚ} (nonzero : value ≠ 0) (normal : -1022 ≤ Int.log 2 |value|) :
    2 ^ 52 * spacing value ≤ |value| := by
  have below : ((2 : Nat) : ℚ) ^ Int.log 2 |value| ≤ |value| :=
    Int.zpow_log_le_self (by decide) (abs_pos.mpr nonzero)
  refine le_trans (le_of_eq ?_) below
  rw [spacing, lastBit, max_eq_left normal, ← zpow_natCast, ← zpow_add₀ two_ne_zero]
  congr 1
  push_cast
  omega

/-- The relative error of a normal number. -/
theorem abs_sub_nearest_le_mul {value : ℚ} (normal : -1022 ≤ Int.log 2 |value|) :
    |value - nearest value| ≤ |value| / 2 ^ 53 := by
  by_cases zero : value = 0
  · simp [zero, nearest, roundEven]
  · have error := abs_sub_nearest_le value
    have bits := spacing_le zero normal
    linarith

@[simp] theorem nearest_zero : nearest 0 = 0 := by
  simp [nearest, roundEven]

theorem abs_nearest (value : ℚ) :
    |nearest value| = |roundEven (value / spacing value)| * spacing value := by
  rw [nearest, abs_mul, abs_of_pos (spacing_pos value), Int.cast_abs]

@[simp] theorem roundEven_intCast (number : Int) : roundEven number = number := by
  simp [roundEven]

/-- An integer of 53 bits is a double. -/
theorem nearest_intCast {number : Int} (small : |number| < 2 ^ 53) : nearest number = number := by
  by_cases zero : number = 0
  · simp [zero]
  have positive := abs_pos.mpr (Int.cast_ne_zero (α := ℚ).mpr zero)
  have few : Int.log 2 |(number : ℚ)| < 53 :=
    (Int.lt_zpow_iff_log_lt (by decide) positive).mp (by exact_mod_cast small)
  obtain ⟨bits, isBits⟩ := Int.eq_ofNat_of_zero_le (show 0 ≤ -lastBit number by
    unfold lastBit
    omega)
  have whole : (number : ℚ) / spacing number = ((number * 2 ^ bits : Int) : ℚ) := by
    rw [spacing, div_eq_mul_inv, ← zpow_neg, isBits]
    norm_cast
  rw [nearest, whole, roundEven_intCast, ← whole, div_mul_cancel₀ _ (spacing_pos _).ne']

/-- An odd integer: a number is rounded to it or to less, in size, exactly if it is below the
middle between it and the next one. -/
theorem abs_roundEven_le_iff {number : Int} (odd : number % 2 = 1) (value : ℚ) :
    |roundEven value| ≤ number ↔ |value| < number + 1 / 2 := by
  have near := roundEven_near value
  have above := abs_sub_abs_le_abs_sub value (roundEven value)
  have below := abs_sub_abs_le_abs_sub (roundEven value : ℚ) value
  rw [abs_sub_comm] at below
  rw [← Int.cast_abs] at above below
  constructor
  · intro le
    have cast : ((|roundEven value| : Int) : ℚ) ≤ number := Int.cast_le.mpr le
    rcases near with less | ⟨half, even⟩
    · linarith
    · have different : |roundEven value| ≠ number := by
        rcases abs_choice (roundEven value) with same | same <;> omega
      have less : ((|roundEven value| : Int) : ℚ) < number :=
        Int.cast_lt.mpr (lt_of_le_of_ne le different)
      have step : ((|roundEven value| : Int) : ℚ) + 1 ≤ number := by exact_mod_cast less
      linarith
  · intro less
    by_contra more
    have step : (number : ℚ) + 1 ≤ (|roundEven value| : Int) := by exact_mod_cast not_le.mp more
    have close := abs_sub_roundEven_le value
    linarith

theorem le_log {value : ℚ} {exponent : Int} (nonzero : value ≠ 0)
    (le : (2 : ℚ) ^ exponent ≤ |value|) : exponent ≤ Int.log 2 |value| :=
  (Int.zpow_le_iff_le_log (by decide) (abs_pos.mpr nonzero)).mp (by exact_mod_cast le)

/-- A double with an odd last bit: a number is rounded to it or to less, in size, exactly if it
is below the middle between it and the next one. -/
theorem abs_nearest_le_iff {mantissa exponent : Int} (odd : mantissa % 2 = 1)
    (large : 2 ^ 52 < mantissa) (small : mantissa < 2 ^ 53) (normal : -1074 ≤ exponent)
    (value : ℚ) :
    |nearest value| ≤ mantissa * (2 : ℚ) ^ exponent ↔
      |value| < (mantissa + 1 / 2) * (2 : ℚ) ^ exponent := by
  have unit : (0 : ℚ) < 2 ^ exponent := zpow_pos two_pos _
  have positive := spacing_pos value
  have least := mul_le_mul_of_nonneg_right
    (show (2 ^ 52 + 1 : ℚ) ≤ mantissa by exact_mod_cast large) unit.le
  have greatest := mul_le_mul_of_nonneg_right
    (show (mantissa + 1 : ℚ) ≤ 2 ^ 53 by exact_mod_cast small) unit.le
  have scaled : |value| = |value / spacing value| * spacing value := by
    rw [abs_div, abs_of_pos positive, div_mul_cancel₀ _ positive.ne']
  by_cases zero : value = 0
  · rw [zero, nearest_zero, abs_zero]
    exact iff_of_true (by linarith) (by linarith)
  rcases lt_trichotomy (lastBit value) exponent with less | same | more
  · have finer : 2 * spacing value ≤ (2 : ℚ) ^ exponent := by
      rw [spacing, ← zpow_one_add₀ two_ne_zero]
      exact zpow_le_zpow_right₀ one_le_two (by omega)
    have size := lt_spacing value
    have error := abs_sub_nearest_le value
    have triangle := abs_sub_abs_le_abs_sub (nearest value) value
    rw [abs_sub_comm] at triangle
    exact iff_of_true (by linarith) (by linarith)
  · have unitEq : (2 : ℚ) ^ exponent = spacing value := by rw [spacing, same]
    rw [unitEq, abs_nearest, scaled, mul_le_mul_iff_left₀ positive, mul_lt_mul_iff_left₀ positive,
      Int.cast_le, abs_roundEven_le_iff odd]
  · have coarser : 2 * (2 : ℚ) ^ exponent ≤ spacing value := by
      rw [spacing, ← zpow_one_add₀ two_ne_zero]
      exact zpow_le_zpow_right₀ one_le_two (by omega)
    have bits := spacing_le zero (by unfold lastBit at more; omega)
    have whole : (2 ^ 52 : ℚ) ≤ (|roundEven (value / spacing value)| : Int) := by
      have below := @abs_roundEven_le_iff (2 ^ 52 - 1) (by decide) (value / spacing value)
      rw [scaled] at bits
      have size := le_of_mul_le_mul_right bits positive
      have not_below := below.not.mpr (by push_cast; linarith)
      exact_mod_cast (show (2 ^ 52 : Int) ≤ _ by omega)
    have multiple := mul_le_mul_of_nonneg_right whole positive.le
    rw [← abs_nearest] at multiple
    exact iff_of_false (by linarith) (by linarith)

end LightningX.Binary64
