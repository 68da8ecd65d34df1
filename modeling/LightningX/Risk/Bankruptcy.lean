import LightningX.Risk.Engine
import Mathlib.Tactic.Linarith

/-!
# The bankruptcy price

The liquidation price of a position lies between its entry price and its bankruptcy price.
The bankruptcy price is rounded to ticks and the margin to atoms, so that a close at the
bankruptcy price can lose more than the margin.
-/

namespace LightningX.Risk

open Arithmetic Int

/-- What the prices of a new position are computed from. -/
structure Terms where
  side : PositionSide
  entryTicks : Nat
  lots : Nat
  leverage : Nat
  rateBps : Nat
  scale : Nat

/-- The prices and the margin of a position, and its profit at the bankruptcy price. -/
@[ext] structure Outcome where
  bankruptcyTicks : Int
  liquidationTicks : Int
  initialMargin : Int
  realizedPnl : Int
  deriving DecidableEq

namespace Terms

variable (terms : Terms) (arith : Arithmetic)

/-- The position is opened, and closed at its bankruptcy price. -/
def outcome : Outcome :=
  let bankruptcyTicks := calcBankruptcyPriceTicks arith terms.entryTicks terms.leverage terms.side
  let cost := calcNotionalAtoms arith terms.entryTicks terms.lots terms.scale
  { bankruptcyTicks := bankruptcyTicks
    liquidationTicks :=
      calcLiquidationPriceTicks arith terms.entryTicks terms.leverage terms.rateBps terms.side
    initialMargin := calcInitialMarginAtoms cost terms.leverage
    realizedPnl :=
      realizedPnl arith terms.side
        (calcNotionalAtoms arith bankruptcyTicks terms.lots terms.scale) cost }

/-- The liquidation price lies between the other two. -/
def Ordered : Prop :=
  let outcome := terms.outcome arith
  match terms.side with
  | .long => outcome.bankruptcyTicks ≤ outcome.liquidationTicks ∧
      outcome.liquidationTicks ≤ terms.entryTicks
  | .short => terms.entryTicks ≤ outcome.liquidationTicks ∧
      outcome.liquidationTicks ≤ outcome.bankruptcyTicks

/-- A close at the bankruptcy price loses the margin at most. -/
def Covered : Prop :=
  -(terms.outcome arith).realizedPnl ≤ (terms.outcome arith).initialMargin
deriving Decidable

/-- The entry price and the bankruptcy price, the lower one first. -/
def range : Int × Int :=
  match terms.side with
  | .long => ((terms.outcome exact).bankruptcyTicks, terms.entryTicks)
  | .short => (terms.entryTicks, (terms.outcome exact).bankruptcyTicks)

/-- What the lots are worth per tick, in atoms times the scale. -/
def worth : Int :=
  terms.lots * atomsPerCent

/-- What the divisions cut off, in atoms times the scale and the leverage: the remainders of
the bankruptcy price, of the value at the lower price and of the margin.  The bankruptcy price
is rounded away from the entry price of a long position, and towards that of a short one. -/
def cutOff : Int :=
  let entry : Int := terms.entryTicks
  let leverage : Int := terms.leverage
  let scale : Int := terms.scale
  match terms.side with
  | .long => entry * (leverage - 1) % leverage * terms.worth +
      leverage * (entry * (leverage - 1) / leverage * terms.worth % scale) +
        entry * terms.worth % (scale * leverage)
  | .short => leverage * (entry * terms.worth % scale) +
      entry * terms.worth % (scale * leverage) - entry % leverage * terms.worth

/-- The remainders are worth less than an atom in all. -/
def RoundsDown : Prop :=
  terms.cutOff < terms.scale * terms.leverage
deriving Decidable

/-- Numbers within their limits. -/
structure Permitted : Prop where
  leverage : 1 ≤ terms.leverage ∧ terms.leverage ≤ 125
  rate : terms.rateBps ≤ 10000
  scale : 1 ≤ terms.scale

/-- The higher of the two prices is this part of the leverage. -/
def highest : Int :=
  match terms.side with
  | .long => terms.leverage
  | .short => terms.leverage + 1

/-- The higher price and the value of the lots at it are below `2 ^ 63`. -/
structure Fits : Prop where
  price : terms.entryTicks * terms.highest < 2 ^ 63 * terms.leverage
  value : terms.entryTicks * terms.highest * terms.worth <
    2 ^ 63 * terms.scale * terms.leverage
  scale : terms.scale < 2 ^ 63

variable {terms}

theorem ordered_exact (permitted : terms.Permitted) : terms.Ordered exact := by
  obtain ⟨⟨least, -⟩, rate, -⟩ := permitted
  have positive : (0 : Int) < terms.leverage := by omega
  have tenThousand : (0 : Int) < terms.leverage * 10000 := by omega
  have natural : (0 : Int) ≤ terms.entryTicks := natCast_nonneg _
  have rated : (0 : Int) ≤ terms.entryTicks * terms.rateBps := natCast_nonneg _
  have slack : (0 : Int) ≤ terms.entryTicks * (10000 - terms.rateBps) :=
    mul_nonneg natural (by omega)
  have geared : (0 : Int) ≤ terms.entryTicks * (terms.leverage - 1) := mul_nonneg natural (by omega)
  unfold Ordered outcome calcBankruptcyPriceTicks calcLiquidationPriceTicks
  rw [if_neg (by omega)]
  cases terms.side with
  | long =>
    simp only [exact_i64, exact_i128]
    rw [tdiv_eq_ediv_of_nonneg (by linarith), tdiv_eq_ediv_of_nonneg (by linarith)]
    have rounded := Int.ediv_mul_le (terms.entryTicks * ((terms.leverage : Int) - 1)) positive.ne'
    exact ⟨(Int.le_ediv_iff_mul_le tenThousand).mpr (by linarith),
      Int.ediv_le_of_le_mul tenThousand (by linarith)⟩
  | short =>
    simp only [exact_i64, exact_i128]
    rw [tdiv_eq_ediv_of_nonneg (by linarith), tdiv_eq_ediv_of_nonneg (by linarith)]
    have rounded := Int.ediv_mul_le
      (terms.entryTicks * ((terms.leverage : Int) * 10000 + 10000 - terms.rateBps)) tenThousand.ne'
    exact ⟨(Int.le_ediv_iff_mul_le tenThousand).mpr (by linarith),
      (Int.le_ediv_iff_mul_le positive).mpr (by linarith)⟩

theorem worth_nonneg (terms : Terms) : 0 ≤ terms.worth :=
  mul_nonneg (natCast_nonneg _) (by decide)

theorem value_exact {ticks : Int} (nonneg : 0 ≤ ticks) :
    calcNotionalAtoms exact ticks terms.lots terms.scale = ticks * terms.worth / terms.scale := by
  unfold calcNotionalAtoms
  simp only [exact_i64, exact_i128, mul_assoc]
  exact tdiv_eq_ediv_of_nonneg (mul_nonneg nonneg terms.worth_nonneg)

/-- The bankruptcy price is the quotient rounded down. -/
theorem bankruptcyTicks_exact (permitted : terms.Permitted) :
    (terms.outcome exact).bankruptcyTicks =
      match terms.side with
      | .long => terms.entryTicks * ((terms.leverage : Int) - 1) / terms.leverage
      | .short => terms.entryTicks * ((terms.leverage : Int) + 1) / terms.leverage := by
  have least := permitted.leverage.1
  unfold outcome calcBankruptcyPriceTicks
  simp only [exact_i64, exact_i128]
  cases terms.side <;>
    exact tdiv_eq_ediv_of_nonneg (mul_nonneg (natCast_nonneg _) (by simp only; omega))

theorem bankruptcyTicks_nonneg (permitted : terms.Permitted) :
    0 ≤ (terms.outcome exact).bankruptcyTicks := by
  have least := permitted.leverage.1
  rw [bankruptcyTicks_exact permitted]
  cases terms.side <;>
    exact Int.ediv_nonneg (mul_nonneg (natCast_nonneg _) (by omega)) (natCast_nonneg _)

/-- The loss is the difference of the values at the two prices. -/
theorem loss_exact (permitted : terms.Permitted) :
    -(terms.outcome exact).realizedPnl =
      terms.range.2 * terms.worth / terms.scale - terms.range.1 * terms.worth / terms.scale := by
  have long (value cost : Int) : -realizedPnl exact .long value cost = cost - value := neg_sub _ _
  have short (value cost : Int) : -realizedPnl exact .short value cost = value - cost := neg_neg _
  unfold range
  change -realizedPnl exact terms.side (calcNotionalAtoms exact
    (terms.outcome exact).bankruptcyTicks _ _) (calcNotionalAtoms exact _ _ _) = _
  rw [value_exact (bankruptcyTicks_nonneg permitted), value_exact (natCast_nonneg _)]
  cases terms.side with
  | long => exact long _ _
  | short => exact short _ _

/-- The margin is the value at the entry price, divided once. -/
theorem initialMargin_exact (permitted : terms.Permitted) :
    (terms.outcome exact).initialMargin =
      terms.entryTicks * terms.worth / (terms.scale * terms.leverage) := by
  have least := permitted.leverage.1
  have value : 0 ≤ terms.entryTicks * terms.worth / (terms.scale : Int) :=
    Int.ediv_nonneg (mul_nonneg (natCast_nonneg _) terms.worth_nonneg) (natCast_nonneg _)
  unfold outcome calcInitialMarginAtoms
  simp only [value_exact (natCast_nonneg terms.entryTicks)]
  rw [if_neg (by omega), tdiv_eq_ediv_of_nonneg value, Int.ediv_ediv_of_nonneg (natCast_nonneg _)]

/-- The loss against the margin, with the remainders of all divisions. -/
theorem covered_exact_iff (permitted : terms.Permitted) :
    terms.Covered exact ↔
      terms.leverage * (terms.range.2 - terms.range.1) * terms.worth +
          terms.leverage * (terms.range.1 * terms.worth % terms.scale) +
          terms.entryTicks * terms.worth % (terms.scale * terms.leverage) <
        terms.entryTicks * terms.worth + terms.scale * terms.leverage := by
  have scale : (0 : Int) < terms.scale := Int.natCast_pos.mpr permitted.scale
  have leverage : (0 : Int) < terms.leverage := Int.natCast_pos.mpr permitted.leverage.1
  have parts := Int.mul_ediv_add_emod (terms.range.1 * terms.worth) terms.scale
  have margins :=
    Int.mul_ediv_add_emod (terms.entryTicks * terms.worth) (terms.scale * terms.leverage)
  unfold Covered
  rw [loss_exact permitted, initialMargin_exact permitted, ← Int.lt_add_one_iff, Int.sub_lt_iff,
    Int.ediv_lt_iff_lt_mul scale, ← mul_lt_mul_iff_of_pos_left leverage]
  have scaled := congrArg ((terms.leverage : Int) * ·) parts
  constructor <;> intro less <;> linarith

/-- Rounding of the two prices, in remainders of the entry price. -/
theorem covered_exact_iff_roundsDown (permitted : terms.Permitted) :
    terms.Covered exact ↔ terms.RoundsDown := by
  have price := bankruptcyTicks_exact permitted
  rw [covered_exact_iff permitted]
  unfold RoundsDown cutOff range
  cases side : terms.side with
  | long =>
    simp only [side] at price ⊢
    have parts := Int.mul_ediv_add_emod (terms.entryTicks * ((terms.leverage : Int) - 1))
      terms.leverage
    rw [price]
    have gap : terms.leverage * ((terms.entryTicks : Int) -
        terms.entryTicks * ((terms.leverage : Int) - 1) / terms.leverage) =
        terms.entryTicks + terms.entryTicks * ((terms.leverage : Int) - 1) % terms.leverage := by
      linarith
    rw [gap, add_mul]
    constructor <;> intro less <;> linarith
  | short =>
    simp only [side] at price ⊢
    have parts := Int.mul_ediv_add_emod (terms.entryTicks * ((terms.leverage : Int) + 1))
      terms.leverage
    have remainder : terms.entryTicks * ((terms.leverage : Int) + 1) % terms.leverage =
        terms.entryTicks % terms.leverage := by
      rw [mul_add, mul_one, add_comm, Int.add_mul_emod_self_right]
    rw [remainder] at parts
    rw [price]
    have gap : terms.leverage * (terms.entryTicks * ((terms.leverage : Int) + 1) / terms.leverage -
        (terms.entryTicks : Int)) =
        terms.entryTicks - (terms.entryTicks : Int) % terms.leverage := by
      linarith
    rw [gap, sub_mul]
    constructor <;> intro less <;> linarith

theorem Fits.lt_of_le (fits : terms.Fits) {ticks : Int}
    (below : ticks * terms.leverage ≤ terms.entryTicks * terms.highest) : ticks < 2 ^ 63 :=
  Int.lt_of_mul_lt_mul_right (below.trans_lt fits.price) (natCast_nonneg terms.leverage)

theorem le_highest (terms : Terms) : (terms.leverage : Int) ≤ terms.highest := by
  unfold highest
  cases terms.side <;> simp only <;> omega

theorem entryTicks_le (terms : Terms) :
    (terms.entryTicks : Int) * terms.leverage ≤ terms.entryTicks * terms.highest :=
  mul_le_mul_of_nonneg_left terms.le_highest (natCast_nonneg _)

theorem bankruptcyTicks_le (permitted : terms.Permitted) :
    (terms.outcome exact).bankruptcyTicks * terms.leverage ≤
      terms.entryTicks * terms.highest := by
  have leverage : (terms.leverage : Int) ≠ 0 := by
    have := permitted.leverage.1
    omega
  rw [bankruptcyTicks_exact permitted]
  unfold highest
  cases terms.side with
  | long =>
    exact (Int.ediv_mul_le _ leverage).trans
      (mul_le_mul_of_nonneg_left (Int.sub_le_self _ (by decide)) (natCast_nonneg _))
  | short => exact Int.ediv_mul_le _ leverage

namespace Fits

section

variable (fits : terms.Fits) (permitted : terms.Permitted)
include fits permitted

/-- The machine computes the value of a price up to the highest one. -/
theorem notional_eq {ticks : Int} (nonneg : 0 ≤ ticks)
    (below : ticks * terms.leverage ≤ terms.entryTicks * terms.highest) :
    calcNotionalAtoms machine ticks terms.lots terms.scale =
        calcNotionalAtoms exact ticks terms.lots terms.scale ∧
      0 ≤ calcNotionalAtoms exact ticks terms.lots terms.scale ∧
      calcNotionalAtoms exact ticks terms.lots terms.scale < 2 ^ 63 := by
  have scale : (0 : Int) < terms.scale := Int.natCast_pos.mpr permitted.scale
  have leverage : (0 : Int) < terms.leverage := Int.natCast_pos.mpr permitted.leverage.1
  have small : ticks * terms.worth < 2 ^ 63 * terms.scale := by
    refine Int.lt_of_mul_lt_mul_right ?_ leverage.le
    calc ticks * terms.worth * terms.leverage
      _ = ticks * terms.leverage * terms.worth := mul_right_comm _ _ _
      _ ≤ terms.entryTicks * terms.highest * terms.worth :=
        mul_le_mul_of_nonneg_right below terms.worth_nonneg
      _ < 2 ^ 63 * terms.scale * terms.leverage := fits.value
  have above : 0 ≤ calcNotionalAtoms exact ticks terms.lots terms.scale := by
    rw [value_exact nonneg]
    exact Int.ediv_nonneg (mul_nonneg nonneg terms.worth_nonneg) scale.le
  have upper : calcNotionalAtoms exact ticks terms.lots terms.scale < 2 ^ 63 := by
    rw [value_exact nonneg]
    exact (Int.ediv_lt_iff_lt_mul scale).mpr small
  have inRange : InI64 (calcNotionalAtoms exact ticks terms.lots terms.scale) :=
    ⟨by omega, by omega⟩
  have scaleFits := fits.scale
  exact ⟨machine_tdiv scale ⟨by omega, by omega⟩ inRange, above, upper⟩

theorem bankruptcyTicks_eq :
    (terms.outcome machine).bankruptcyTicks = (terms.outcome exact).bankruptcyTicks := by
  obtain ⟨least, most⟩ := permitted.leverage
  have nonneg := bankruptcyTicks_nonneg permitted
  have priceFits := fits.lt_of_le (bankruptcyTicks_le permitted)
  have inRange : InI64 (terms.outcome exact).bankruptcyTicks := ⟨by omega, by omega⟩
  exact machine_tdiv (by omega) ⟨by omega, by omega⟩ inRange

theorem liquidationTicks_eq :
    (terms.outcome machine).liquidationTicks = (terms.outcome exact).liquidationTicks := by
  obtain ⟨least, most⟩ := permitted.leverage
  have nonneg := bankruptcyTicks_nonneg permitted
  have priceFits := fits.lt_of_le (bankruptcyTicks_le permitted)
  have entryFits := fits.lt_of_le terms.entryTicks_le
  have inRange : InI64 (terms.outcome exact).liquidationTicks := by
    have ordered := ordered_exact permitted
    unfold Ordered at ordered
    cases side : terms.side <;> simp only [side] at ordered <;> exact ⟨by omega, by omega⟩
  unfold outcome calcLiquidationPriceTicks at inRange ⊢
  rw [if_neg (by omega)] at inRange
  rw [if_neg (by omega), if_neg (by omega)]
  exact machine_tdiv (by omega) ⟨by omega, by omega⟩ inRange

theorem realizedPnl_eq :
    (terms.outcome machine).realizedPnl = (terms.outcome exact).realizedPnl := by
  obtain ⟨cost, costNonneg, costUpper⟩ :=
    fits.notional_eq permitted (natCast_nonneg _) terms.entryTicks_le
  obtain ⟨value, valueNonneg, valueUpper⟩ :=
    fits.notional_eq permitted (bankruptcyTicks_nonneg permitted) (bankruptcyTicks_le permitted)
  change realizedPnl machine terms.side (calcNotionalAtoms machine
    (terms.outcome machine).bankruptcyTicks _ _) _ = realizedPnl exact terms.side
    (calcNotionalAtoms exact (terms.outcome exact).bankruptcyTicks _ _) _
  rw [fits.bankruptcyTicks_eq permitted, value, cost]
  unfold realizedPnl
  cases terms.side <;> exact wrapI64_eq ⟨by omega, by omega⟩

/-- Nothing wraps around if the higher price and its value fit. -/
theorem outcome_eq : terms.outcome machine = terms.outcome exact :=
  Outcome.ext (fits.bankruptcyTicks_eq permitted) (fits.liquidationTicks_eq permitted)
    (congrArg (calcInitialMarginAtoms · terms.leverage)
      (fits.notional_eq permitted (natCast_nonneg _) terms.entryTicks_le).1)
    (fits.realizedPnl_eq permitted)

end

end Fits

/-- Where nothing wraps around the prices are in order, and the margin covers a close at the
bankruptcy price exactly when what rounding cuts off is worth less than an atom. -/
theorem covered_iff_roundsDown (permitted : terms.Permitted) (fits : terms.Fits) :
    terms.Ordered machine ∧ terms.Covered machine ↔ terms.RoundsDown := by
  have same : terms.Ordered machine ↔ terms.Ordered exact := by
    unfold Ordered
    rw [fits.outcome_eq permitted]
  rw [and_iff_right (same.mpr (ordered_exact permitted)),
    ← covered_exact_iff_roundsDown permitted]
  unfold Covered
  rw [fits.outcome_eq permitted]

/-- A long position of ten lots with leverage 10. -/
def longAt (entryTicks : Nat) : Terms where
  side := .long
  entryTicks := entryTicks
  lots := 10
  leverage := 10
  rateBps := 50
  scale := 1000000

theorem covered_iff_roundsDown_even :
    (longAt 20).Permitted ∧ ((longAt 20).Ordered machine ∧ (longAt 20).Covered machine) :=
  have permitted : (longAt 20).Permitted := ⟨by decide, by decide, by decide⟩
  ⟨permitted, (covered_iff_roundsDown permitted ⟨by decide, by decide, by decide⟩).mpr (by decide)⟩

/-- At 15 ticks the bankruptcy price is 13, and the loss 20 against a margin of 15. -/
theorem not_covered_odd : (longAt 15).Permitted ∧ ¬(longAt 15).Covered machine :=
  ⟨⟨by decide, by decide, by decide⟩, by decide⟩

end Terms
end LightningX.Risk
