import Mathlib.Algebra.Order.Ring.Int

/-!
# Wrapping 64-bit arithmetic

Prices, quantities and amounts are `i64` in the program and integers here.
The release profile switches overflow checks off, so a sum that leaves the
range wraps around.  `wrapI64` is applied where a result can leave the range.
-/

namespace LightningX

/-- Largest value of an `i64`. -/
def i64Max : Int := 2 ^ 63 - 1

/-- Reduction of an integer to the `i64` range. -/
def wrapI64 (value : Int) : Int := value.bmod (2 ^ 64)

/-- The integers an `i64` can hold. -/
def InI64 (value : Int) : Prop := -2 ^ 63 ≤ value ∧ value ≤ 2 ^ 63 - 1
deriving Decidable

/-- A value of type `i64`. -/
structure I64 where
  val : Int
  inRange : InI64 val
  deriving DecidableEq

/-- Nothing wraps inside the range. -/
theorem wrapI64_eq (inRange : InI64 value) : wrapI64 value = value := by
  obtain ⟨lower, upper⟩ := inRange
  unfold wrapI64
  rw [Int.bmod_eq_of_le] <;> omega

theorem inI64_wrapI64 (value : Int) : InI64 (wrapI64 value) := by
  have lower := Int.le_bmod (x := value) (m := 2 ^ 64) (by decide)
  have upper := Int.bmod_lt (x := value) (m := 2 ^ 64) (by decide)
  unfold wrapI64
  constructor <;> omega

/-- Nonnegative values up to the maximum do not wrap. -/
theorem wrapI64_of_le_max (nonneg : 0 ≤ value) (bounded : value ≤ i64Max) :
    wrapI64 value = value := by
  unfold i64Max at bounded
  exact wrapI64_eq ⟨by omega, by omega⟩

/-- Wrapping adds a multiple of the size of the range. -/
theorem exists_wrapI64_eq (value : Int) : ∃ turns, wrapI64 value = value + 2 ^ 64 * turns := by
  refine ⟨-((value + 2 ^ 63) / 2 ^ 64), ?_⟩
  unfold wrapI64
  rw [Int.bmod_def]
  split_ifs <;> omega

@[simp] theorem wrapI64_add_turns (value turns : Int) :
    wrapI64 (value + 2 ^ 64 * turns) = wrapI64 value :=
  Int.add_mul_bmod_self_left value _ turns

/-- A `u64` as an `i64`. -/
theorem wrapI64_natCast {value : Nat} (bounded : value < 2 ^ 64) :
    wrapI64 value = if value < 2 ^ 63 then (value : Int) else (value : Int) - 2 ^ 64 := by
  unfold wrapI64
  rw [Int.bmod_def]
  split_ifs <;> omega

/-- Literals. -/
instance (value : Nat) : OfNat I64 value :=
  ⟨{ val := wrapI64 value, inRange := inI64_wrapI64 value }⟩

/-- How results of arithmetic are stored. -/
structure Arithmetic where
  i64 : Int → Int
  i128 : Int → Int

/-- Results wrap around, as they do without overflow checks. -/
def Arithmetic.machine : Arithmetic where
  i64 := wrapI64
  i128 := fun value => value.bmod (2 ^ 128)

/-- Results are kept as they are. -/
def Arithmetic.exact : Arithmetic where
  i64 := id
  i128 := id

@[simp] theorem Arithmetic.exact_i64 (value : Int) : Arithmetic.exact.i64 value = value := rfl

@[simp] theorem Arithmetic.exact_i128 (value : Int) : Arithmetic.exact.i128 value = value := rfl

/-- A 128-bit product is exact if its quotient by a scale is an `i64`. -/
theorem Arithmetic.machine_tdiv {product : Int} (positive : 0 < scale) (scaleFits : InI64 scale)
    (fits : InI64 (product.tdiv scale)) :
    machine.i64 ((machine.i128 product).tdiv scale) = product.tdiv scale := by
  have small : product.natAbs / scale.natAbs ≤ 2 ^ 63 := by
    have quotient : (product.tdiv scale).natAbs = product.natAbs / scale.natAbs :=
      Int.natAbs_tdiv product scale
    obtain ⟨lower, upper⟩ := fits
    omega
  have scaleSmall : scale.natAbs < 2 ^ 63 := by
    have := scaleFits.2
    omega
  have bounded : product.natAbs < (2 ^ 63 + 1) * scale.natAbs :=
    (Nat.div_lt_iff_lt_mul (by omega)).mp (Nat.lt_succ_of_le small)
  have wide : product.bmod (2 ^ 128) = product := by
    rw [Int.bmod_eq_of_le] <;> omega
  simp only [machine, wide]
  exact wrapI64_eq fits

end LightningX
