import LightningX.Risk.UsedMargin
import Mathlib.Tactic.Linarith

/-!
# Closing a position

Values are computed in 128 bits, but the margin that a partial close releases, the margin of a
position that was turned round and the weighted mark price are products of 64 bits.  They are
exact if and only if the products fit.  Without overflow the parts that consecutive closes
release add up to the whole, however the closing lots are split.
-/

namespace LightningX.Risk

open List RiskEngine
open Arithmetic

/-- A quotient of a product that wraps around is wrong. -/
theorem wrapI64_tdiv_eq_iff {product : Int}
    (nonneg : 0 ≤ product) (positive : 0 < divisor) (divisorFits : InI64 divisor) :
    (wrapI64 product).tdiv divisor = product / divisor ↔ InI64 product := by
  constructor
  · intro same
    by_contra tooLarge
    obtain ⟨turns, wrapped⟩ := exists_wrapI64_eq product
    have upper := (inI64_wrapI64 product).2
    have large : 2 ^ 63 ≤ product := by
      by_contra small
      exact tooLarge ⟨by omega, by omega⟩
    have divisorSmall := divisorFits.2
    have above := Int.lt_ediv_add_one_mul_self product positive
    rw [← same, Int.add_mul] at above
    have wrong : (wrapI64 product).tdiv divisor * divisor ≤ max (wrapI64 product) 0 := by
      rcases Int.lt_or_le (wrapI64 product) 0 with negative | natural
      · have opposite := Int.tdiv_nonneg (Int.neg_nonneg.mpr negative.le) positive.le
        rw [Int.neg_tdiv] at opposite
        have sign : (wrapI64 product).tdiv divisor ≤ 0 := by omega
        exact (Int.mul_nonpos_of_nonpos_of_nonneg sign positive.le).trans (le_max_right _ _)
      · rw [Int.tdiv_eq_ediv_of_nonneg natural]
        exact (Int.ediv_mul_le _ positive.ne').trans (le_max_left _ _)
    omega
  · intro fits
    rw [wrapI64_eq fits, Int.tdiv_eq_ediv_of_nonneg nonneg]

/-- A fill and the position it meets, whose amounts fit. -/
structure Representable (existing : Option PositionRiskState) (fill : Fill) : Prop where
  lots : ∀ position ∈ existing, 0 < position.qtyLots ∧ InI64 (position.qtyLots + fill.qtyLots)
  fillLots : 0 < fill.qtyLots ∧ InI64 fill.qtyLots
  margin : ∀ position ∈ existing, 0 ≤ position.initialMargin ∧ InI64 position.initialMargin
  fillMargin : 0 ≤ fill.marginAtoms ∧ InI64 fill.marginAtoms
  scale : 0 < fill.notionalScale ∧ InI64 fill.notionalScale

/-- The products of 64 bits that a fill leads to: of an opened, a larger or a turned position
that of its lots with the margin of the fill, and of a smaller one that of the closed lots with
its margin. -/
def i64Products (existing : Option PositionRiskState) (fill : Fill) : List Int :=
  match existing with
  | none => [fill.marginAtoms * fill.qtyLots]
  | some position =>
    if position.side = fill.side then [fill.marginAtoms * (position.qtyLots + fill.qtyLots)]
    else if fill.qtyLots < position.qtyLots then [position.initialMargin * fill.qtyLots]
    else if position.qtyLots < fill.qtyLots then
      [fill.marginAtoms * (fill.qtyLots - position.qtyLots)]
    else []

/-- The margin that is released, and the margin and the dust of a position on the side of the
fill, are exact. -/
structure FillsExactly (existing : Option PositionRiskState) (fill : Fill) : Prop where
  released : ∀ position ∈ existing, position.side ≠ fill.side →
    fill.qtyLots < position.qtyLots →
      (computePositionUpdate machine existing fill).releasedMargin =
          position.initialMargin * fill.qtyLots / position.qtyLots ∧
        0 ≤ (computePositionUpdate machine existing fill).releasedMargin ∧
        (computePositionUpdate machine existing fill).releasedMargin ≤ position.initialMargin
  turned : ∀ position ∈ existing, position.side ≠ fill.side →
    position.qtyLots < fill.qtyLots →
      ∀ after ∈ (computePositionUpdate machine existing fill).position,
        after.initialMargin = fill.marginAtoms * (fill.qtyLots - position.qtyLots) / fill.qtyLots
  dust : ∀ after ∈ (computePositionUpdate machine existing fill).position,
    after.side = fill.side →
      machine.i64 (fill.marginAtoms * after.qtyLots) = fill.marginAtoms * after.qtyLots ∧
        (RiskEngine.flip machine fill (computePositionUpdate machine existing fill)).2 =
          fill.marginAtoms * after.qtyLots % fill.qtyLots

/-- So are values and the mark price. -/
structure ComputesExactly (existing : Option PositionRiskState) (fill : Fill)
    (oldTicks newTicks : Int) : Prop extends FillsExactly existing fill where
  values : ∀ lots,
    InI64 ((fill.settlementPriceTicks * lots * atomsPerCent).tdiv fill.notionalScale) →
      fill.value machine lots =
        (fill.settlementPriceTicks * lots * atomsPerCent).tdiv fill.notionalScale
  mark : ∀ (engine : RiskEngine) (order : List UserId),
    engine.markPrices.lookup fill.symbol = some oldTicks →
      (engine.updateMarkPrice machine fill.symbol newTicks fill.notionalScale
        order).markPrices.lookup fill.symbol = some ((newTicks + 9 * oldTicks) / 10)

theorem markPrices_updateMarkPrice {engine : RiskEngine}
    (priced : 0 < newTicks) (found : engine.markPrices.lookup symbol = some oldTicks)
    (notionalScale : Int) (order : List UserId) :
    (engine.updateMarkPrice machine symbol newTicks notionalScale order).markPrices.lookup
      symbol = some ((wrapI64 (newTicks + 9 * oldTicks)).tdiv 10) := by
  have wrapped : wrapI64 (newTicks + wrapI64 (9 * oldTicks)) =
      wrapI64 (newTicks + 9 * oldTicks) := by
    obtain ⟨turns, sum⟩ := exists_wrapI64_eq (9 * oldTicks)
    rw [sum, ← Int.add_assoc, wrapI64_add_turns]
  rw [updateMarkPrice, if_neg (by omega), found, ← wrapped]
  refine List.foldlRecOn order _ (motive := fun engine : RiskEngine =>
    engine.markPrices.lookup symbol = _)
    (AList.lookup_insert engine.markPrices) ?_
  intro after marked userId _
  unfold markHolder
  split <;> exact marked

/-- The dust is exact if and only if its product fits. -/
theorem dust_iff {after : PositionRiskState} {update : PositionUpdate}
    (isAfter : update.position = some after) (side : after.side = fill.side)
    (lots : 0 ≤ after.qtyLots) (fillLots : 0 < fill.qtyLots) (margin : 0 ≤ fill.marginAtoms) :
    (∀ after ∈ update.position, after.side = fill.side →
      machine.i64 (fill.marginAtoms * after.qtyLots) = fill.marginAtoms * after.qtyLots ∧
        (RiskEngine.flip machine fill update).2 =
          fill.marginAtoms * after.qtyLots % fill.qtyLots) ↔
      InI64 (fill.marginAtoms * after.qtyLots) := by
  constructor
  · intro exactly
    rw [← (exactly after isAfter side).1]
    exact inI64_wrapI64 _
  · intro fits other isOther _
    obtain rfl : after = other := Option.some.inj (isAfter.symm.trans isOther)
    have product : machine.i64 (fill.marginAtoms * after.qtyLots) = _ := wrapI64_eq fits
    refine ⟨product, ?_⟩
    simp only [RiskEngine.flip, isAfter, if_pos side, if_pos fillLots]
    rw [product, Int.tmod_eq_emod_of_nonneg (Int.mul_nonneg margin lots)]

section

variable {position : PositionRiskState} {fill : Fill}

theorem position_of_sameSide (same : position.side = fill.side)
    (fits : InI64 (position.qtyLots + fill.qtyLots)) :
    ∃ after, (computePositionUpdate machine (some position) fill).position = some after ∧
      after.side = fill.side ∧ after.qtyLots = position.qtyLots + fill.qtyLots := by
  rw [computePositionUpdate, if_pos same]
  exact ⟨_, rfl, same, wrapI64_eq fits⟩

variable (opposite : position.side ≠ fill.side)
include opposite

theorem position_of_fewer (less : fill.qtyLots < position.qtyLots) :
    (computePositionUpdate machine (some position) fill).releasedMargin =
        (wrapI64 (position.initialMargin * fill.qtyLots)).tdiv position.qtyLots ∧
      ∀ after ∈ (computePositionUpdate machine (some position) fill).position,
        after.side ≠ fill.side := by
  rw [computePositionUpdate, if_neg opposite, if_neg (by omega)]
  refine ⟨rfl, ?_⟩
  rintro _ ⟨⟩
  exact opposite

theorem position_of_more (lots : 0 < position.qtyLots) (fits : InI64 fill.qtyLots)
    (more : position.qtyLots < fill.qtyLots) :
    (computePositionUpdate machine (some position) fill).position =
      some (openPosition machine fill (fill.qtyLots - position.qtyLots)
        ((wrapI64 (fill.marginAtoms * (fill.qtyLots - position.qtyLots))).tdiv
          fill.qtyLots)) := by
  have remaining : machine.i64 (fill.qtyLots - position.qtyLots) =
      fill.qtyLots - position.qtyLots :=
    wrapI64_eq ⟨by omega, by have := fits.2; omega⟩
  rw [computePositionUpdate, if_neg opposite, if_pos more.le]
  simp only [closePosition, remaining]
  rw [if_neg (by omega)]
  rfl

theorem fillsExactly_of_equal (equal : fill.qtyLots = position.qtyLots) :
    FillsExactly (some position) fill := by
  have closed : (computePositionUpdate machine (some position) fill).position = none := by
    rw [computePositionUpdate, if_neg opposite, if_pos equal.ge]
    exact if_pos (by rw [equal, Int.sub_self]; rfl)
  refine ⟨?_, ?_, by simp [closed]⟩
  all_goals
    rintro _ ⟨⟩ - differ
    omega

end

theorem mark_iff {oldTicks newTicks : Int} (marks : 0 ≤ oldTicks ∧ 0 < newTicks) (symbol : Symbol)
    (notionalScale : Int) :
    (∀ (engine : RiskEngine) (order : List UserId),
      engine.markPrices.lookup symbol = some oldTicks →
        (engine.updateMarkPrice machine symbol newTicks notionalScale
          order).markPrices.lookup symbol = some ((newTicks + 9 * oldTicks) / 10)) ↔
      InI64 (newTicks + 9 * oldTicks) := by
  have quotient := @wrapI64_tdiv_eq_iff 10 (newTicks + 9 * oldTicks) (by omega) (by decide)
    (by decide)
  constructor
  · intro marked
    have first := marked { new with markPrices := new.markPrices.insert symbol oldTicks }
      [] (AList.lookup_insert _)
    rw [markPrices_updateMarkPrice marks.2 (AList.lookup_insert _)] at first
    exact quotient.mp (Option.some.inj first)
  · intro fits engine order found
    rw [markPrices_updateMarkPrice marks.2 found, quotient.mpr fits]

section

variable {position : PositionRiskState} {fill : Fill}

theorem fillsExactly_none (fits : Representable none fill) :
    FillsExactly none fill ↔ InI64 (fill.marginAtoms * fill.qtyLots) := by
  have dust := @dust_iff fill (openPosition machine fill fill.qtyLots fill.marginAtoms)
    (computePositionUpdate machine none fill) rfl rfl fits.fillLots.1.le fits.fillLots.1
    fits.fillMargin.1
  exact ⟨fun exactly => dust.mp exactly.dust, fun fits => ⟨by simp, by simp, dust.mpr fits⟩⟩

variable (fits : Representable (some position) fill)
include fits

theorem fillsExactly_of_sameSide (same : position.side = fill.side) :
    FillsExactly (some position) fill ↔
      InI64 (fill.marginAtoms * (position.qtyLots + fill.qtyLots)) := by
  obtain ⟨positive, sumFits⟩ := fits.lots position rfl
  obtain ⟨after, isAfter, side, qty⟩ := position_of_sameSide same sumFits
  have fillLots := fits.fillLots.1
  have dust := dust_iff isAfter side (by omega) fillLots fits.fillMargin.1
  rw [qty] at dust
  refine ⟨fun exactly => dust.mp exactly.dust, fun fits => ⟨?_, ?_, dust.mpr fits⟩⟩
  all_goals
    rintro _ ⟨⟩ opposite
    exact absurd same opposite

variable (opposite : position.side ≠ fill.side)
include opposite

theorem fillsExactly_of_fewer (less : fill.qtyLots < position.qtyLots) :
    FillsExactly (some position) fill ↔ InI64 (position.initialMargin * fill.qtyLots) := by
  obtain ⟨positive, sumFits⟩ := fits.lots position rfl
  obtain ⟨natural, -⟩ := fits.margin position rfl
  have fillLots := fits.fillLots.1
  obtain ⟨released, sides⟩ := position_of_fewer opposite less
  have product : 0 ≤ position.initialMargin * fill.qtyLots := Int.mul_nonneg natural fillLots.le
  have quotient := wrapI64_tdiv_eq_iff product positive ⟨by omega, by have := sumFits.2; omega⟩
  have bounds := tdiv_share_bounds natural fillLots.le less.le
  rw [Int.tdiv_eq_ediv_of_nonneg product] at bounds
  rw [← quotient, ← released]
  refine ⟨fun exactly => (exactly.released position rfl opposite less).1, fun exactly =>
    ⟨?_, ?_, fun after isAfter side => absurd side (sides after isAfter)⟩⟩
  · rintro _ ⟨⟩ - -
    rw [exactly]
    exact ⟨rfl, bounds⟩
  · rintro _ ⟨⟩ - more
    omega

theorem fillsExactly_of_more (more : position.qtyLots < fill.qtyLots) :
    FillsExactly (some position) fill ↔
      InI64 (fill.marginAtoms * (fill.qtyLots - position.qtyLots)) := by
  obtain ⟨fillLots, fillFit⟩ := fits.fillLots
  have fillMargin := fits.fillMargin.1
  have turned := position_of_more opposite (fits.lots position rfl).1 fillFit more
  have dust := dust_iff turned rfl (by simp only [openPosition]; omega) fillLots fillMargin
  have quotient := @wrapI64_tdiv_eq_iff fill.qtyLots
    (fill.marginAtoms * (fill.qtyLots - position.qtyLots))
    (Int.mul_nonneg fillMargin (by omega)) fillLots fillFit
  refine ⟨fun exactly => dust.mp exactly.dust, fun fits => ⟨?_, ?_, dust.mpr fits⟩⟩
  · rintro _ ⟨⟩ - less
    omega
  · rintro _ ⟨⟩ - - after isAfter
    rw [turned] at isAfter
    cases isAfter
    exact quotient.mpr fits

end

theorem fillsExactly_iff {existing : Option PositionRiskState} {fill : Fill}
    (fits : Representable existing fill) :
    FillsExactly existing fill ↔ ∀ product ∈ i64Products existing fill, InI64 product := by
  cases existing with
  | none => simpa [i64Products] using fillsExactly_none fits
  | some position =>
    simp only [i64Products]
    split_ifs with same less more
    · simpa using fillsExactly_of_sameSide fits same
    · simpa using fillsExactly_of_fewer fits same less
    · simpa using fillsExactly_of_more fits same more
    · simpa using fillsExactly_of_equal same (by omega)

/-- A fill on either side and a mark are exact if and only if their 64-bit products fit. -/
theorem computesExactly_iff {existing : Option PositionRiskState} {fill : Fill}
    {oldTicks newTicks : Int} (fits : Representable existing fill)
    (marks : 0 ≤ oldTicks ∧ 0 < newTicks) :
    ComputesExactly existing fill oldTicks newTicks ↔
      (∀ product ∈ i64Products existing fill, InI64 product) ∧
        InI64 (newTicks + 9 * oldTicks) := by
  obtain ⟨scale, scaleFit⟩ := fits.scale
  rw [← mark_iff marks fill.symbol fill.notionalScale, ← fillsExactly_iff fits]
  constructor
  · intro computes
    exact ⟨computes.toFillsExactly, computes.mark⟩
  · rintro ⟨fills, mark⟩
    exact { fills with values := fun lots => machine_tdiv scale scaleFit, mark := mark }

def hundredCoins : PositionRiskState :=
  openPosition machine ⟨4, 7, 0, 10000000, 100000000, 100000000000000, 1000000, 10, 50, 0⟩
    100000000 100000000000000

/-- Selling some of the coins. -/
def coinsSold (qtyLots : Int) : Fill :=
  ⟨4, 7, 1, 10000000, qtyLots, 0, 1000000, 10, 50, 0⟩

theorem computesExactly_small :
    Representable (some hundredCoins) (coinsSold 50000) ∧
      ComputesExactly (some hundredCoins) (coinsSold 50000) 10000000 10000000 := by
  have fits : Representable (some hundredCoins) (coinsSold 50000) :=
    ⟨by decide, by decide, by decide, by decide, by decide⟩
  exact ⟨fits, (computesExactly_iff fits (by decide)).mpr (by decide)⟩

/-- Selling half of them releases less than half of the margin: the product wraps around. -/
theorem not_computesExactly_half :
    Representable (some hundredCoins) (coinsSold 50000000) ∧
      ¬ ComputesExactly (some hundredCoins) (coinsSold 50000000) 10000000 10000000 := by
  refine ⟨⟨by decide, by decide, by decide, by decide, by decide⟩, ?_⟩
  intro computes
  exact absurd (computes.released hundredCoins rfl (by decide) (by decide)).1 (by decide)

/-- The cost of the lots that a fill closes. -/
def releasedCost (arith : Arithmetic) (position : PositionRiskState) (fill : Fill) : Int :=
  if fill.qtyLots ≥ position.qtyLots then position.costAtoms
  else
    arith.i64 ((arith.i128 (position.costAtoms * fill.qtyLots)).tdiv position.qtyLots)

/-- The position before each of some consecutive fills. -/
def closings (arith : Arithmetic) :
    Option PositionRiskState → List Fill → List (PositionRiskState × Fill)
  | some position, fill :: fills =>
    (position, fill) ::
      closings arith (computePositionUpdate arith (some position) fill).position fills
  | _, _ => []

/-- The update of a fill, and the cost it releases, without overflow. -/
def ClosesExactly (closing : PositionRiskState × Fill) : Prop :=
  computePositionUpdate machine (some closing.1) closing.2 =
      computePositionUpdate exact (some closing.1) closing.2 ∧
    releasedCost machine closing.1 closing.2 = releasedCost exact closing.1 closing.2
deriving Decidable

structure ClosingStep (position : PositionRiskState) (closing : PositionRiskState × Fill) :
    Prop where
  side : closing.1.side = position.side
  opposite : closing.1.side ≠ closing.2.side
  within : closing.2.qtyLots ≤ closing.1.qtyLots
  margin : 0 ≤ closing.1.initialMargin
  cost : 0 ≤ closing.1.costAtoms

section

variable {position : PositionRiskState}

theorem realizedPnl_of_within
    (opposite : position.side ≠ fill.side) (within : fill.qtyLots ≤ position.qtyLots) :
    (computePositionUpdate exact (some position) fill).realizedPnl =
      realizedPnl exact position.side (fill.value exact fill.qtyLots)
        (releasedCost exact position fill) := by
  rw [computePositionUpdate, if_neg opposite, releasedCost]
  split_ifs with enough
  · rw [le_antisymm within enough]
    rfl
  · rfl

/-- What a partial close leaves. -/
theorem position_of_less
    (opposite : position.side ≠ fill.side) (less : fill.qtyLots < position.qtyLots) :
    ∃ after, (computePositionUpdate exact (some position) fill).position = some after ∧
      after.side = position.side ∧ after.qtyLots = position.qtyLots - fill.qtyLots ∧
      after.initialMargin = position.initialMargin -
        (computePositionUpdate exact (some position) fill).releasedMargin ∧
      after.costAtoms = position.costAtoms - releasedCost exact position fill := by
  rw [computePositionUpdate, if_neg opposite, if_neg (by omega), releasedCost, if_neg (by omega)]
  exact ⟨_, rfl, rfl, rfl, rfl, rfl⟩

/-- The shares of the margin and the cost that such a fill releases. -/
theorem released_of_less (opposite : position.side ≠ fill.side)
    (less : fill.qtyLots < position.qtyLots) :
    (computePositionUpdate exact (some position) fill).releasedMargin =
        (position.initialMargin * fill.qtyLots).tdiv position.qtyLots ∧
      releasedCost exact position fill =
        (position.costAtoms * fill.qtyLots).tdiv position.qtyLots := by
  rw [computePositionUpdate, if_neg opposite, if_neg (by omega), releasedCost, if_neg (by omega)]
  exact ⟨rfl, rfl⟩

/-- A fill of all lots releases all of the margin. -/
theorem released_of_equal (opposite : position.side ≠ fill.side)
    (equal : fill.qtyLots = position.qtyLots) :
    (computePositionUpdate exact (some position) fill).releasedMargin =
      position.initialMargin := by
  rw [computePositionUpdate, if_neg opposite, if_pos equal.ge]
  rfl

theorem sum_qtyLots_nonneg {fills : List Fill} (sized : ∀ fill ∈ fills, 0 < fill.qtyLots) :
    0 ≤ (fills.map (·.qtyLots)).sum := by
  refine sum_nonneg fun qty mem => ?_
  obtain ⟨fill, isFill, rfl⟩ := mem_map.mp mem
  exact (sized fill isFill).le

theorem eq_nil_of_sum_qtyLots {fills : List Fill} (sized : ∀ fill ∈ fills, 0 < fill.qtyLots)
    (none : (fills.map (·.qtyLots)).sum = 0) : fills = [] := by
  cases fills with
  | nil => rfl
  | cons fill fills =>
    have first := sized fill mem_cons_self
    have others := sum_qtyLots_nonneg fun other mem => sized other (mem_cons_of_mem _ mem)
    rw [map_cons, sum_cons] at none
    omega

theorem closings_sums (lots : 0 < position.qtyLots) (sized : ∀ fill ∈ fills, 0 < fill.qtyLots)
    (opposite : ∀ fill ∈ fills, position.side ≠ fill.side)
    (whole : (fills.map (·.qtyLots)).sum = position.qtyLots) (margin : 0 ≤ position.initialMargin)
    (cost : 0 ≤ position.costAtoms)
    (closes : ∀ closing ∈ closings machine (some position) fills, ClosesExactly closing) :
    ((closings machine (some position) fills).map fun closing =>
        (computePositionUpdate exact (some closing.1) closing.2).releasedMargin).sum =
      position.initialMargin ∧
    ((closings machine (some position) fills).map fun closing =>
        releasedCost exact closing.1 closing.2).sum = position.costAtoms ∧
    (closings machine (some position) fills).map (·.2) = fills ∧
    ∀ closing ∈ closings machine (some position) fills, ClosingStep position closing := by
  induction fills generalizing position with
  | nil => exact absurd whole.symm (by simpa using lots.ne')
  | cons fill fills ih =>
    have fillSized := sized fill mem_cons_self
    have fillOpposite := opposite fill mem_cons_self
    have restSized := fun other mem => sized other (mem_cons_of_mem _ mem)
    have rest := sum_qtyLots_nonneg restSized
    rw [map_cons, sum_cons] at whole
    have step : ClosingStep position (position, fill) :=
      ⟨rfl, fillOpposite, by simp only; omega, margin, cost⟩
    rw [closings] at closes ⊢
    obtain ⟨same, -⟩ := closes _ mem_cons_self
    rw [same] at closes ⊢
    simp only [map_cons, sum_cons, forall_mem_cons]
    rcases Int.lt_or_eq_of_le (show fill.qtyLots ≤ position.qtyLots by omega) with less | equal
    · obtain ⟨after, isAfter, side, qty, marginAfter, costAfter⟩ :=
        position_of_less fillOpposite less
      have shares := tdiv_share_bounds margin fillSized.le less.le
      have costShares := tdiv_share_bounds cost fillSized.le less.le
      have released := released_of_less fillOpposite less
      rw [isAfter] at closes ⊢
      obtain ⟨margins, costs, inOrder, steps⟩ := @ih after (by omega) restSized
        (fun other mem => side ▸ opposite other (mem_cons_of_mem _ mem))
        (by omega) (by omega) (by omega)
        fun closing mem => closes closing (mem_cons_of_mem _ mem)
      refine ⟨by omega, by omega, by rw [inOrder], step, fun closing mem => ?_⟩
      exact { steps closing mem with side := (steps closing mem).side.trans side }
    · have nothing : fills = [] := eq_nil_of_sum_qtyLots restSized (by omega)
      rw [released_of_equal fillOpposite equal, nothing, releasedCost, if_pos equal.ge]
      simp [closings, step]

end

/-- However the closing lots of a position are split and priced, the released margins and
costs add up to those of the position, the realized profit is that of the exit values against
the cost, and margin and cost never become negative. -/
theorem close_of_split {position : PositionRiskState} {fills : List Fill}
    (lots : 0 < position.qtyLots) (sized : ∀ fill ∈ fills, 0 < fill.qtyLots)
    (opposite : ∀ fill ∈ fills, position.side ≠ fill.side)
    (whole : (fills.map (·.qtyLots)).sum = position.qtyLots) (margin : 0 ≤ position.initialMargin)
    (cost : 0 ≤ position.costAtoms)
    (closes : ∀ closing ∈ closings machine (some position) fills, ClosesExactly closing) :
    let steps := closings machine (some position) fills
    (steps.map fun closing =>
        (computePositionUpdate machine (some closing.1) closing.2).releasedMargin).sum =
      position.initialMargin ∧
    (steps.map fun closing => releasedCost machine closing.1 closing.2).sum = position.costAtoms ∧
    (steps.map fun closing =>
        (computePositionUpdate machine (some closing.1) closing.2).realizedPnl).sum =
      realizedPnl exact position.side
        (fills.map fun fill => fill.value exact fill.qtyLots).sum position.costAtoms ∧
    ∀ closing ∈ steps, 0 ≤ closing.1.initialMargin ∧ 0 ≤ closing.1.costAtoms := by
  intro steps
  obtain ⟨margins, costs, inOrder, each⟩ :=
    closings_sums lots sized opposite whole margin cost closes
  have sameMargins : steps.map (fun closing =>
      (computePositionUpdate machine (some closing.1) closing.2).releasedMargin) =
        steps.map fun closing =>
          (computePositionUpdate exact (some closing.1) closing.2).releasedMargin :=
    map_congr_left fun closing member => by rw [(closes closing member).1]
  have sameCosts : steps.map (fun closing => releasedCost machine closing.1 closing.2) =
      steps.map fun closing => releasedCost exact closing.1 closing.2 :=
    map_congr_left fun closing member => (closes closing member).2
  have profits : steps.map (fun closing =>
      (computePositionUpdate machine (some closing.1) closing.2).realizedPnl) =
        steps.map fun closing => realizedPnl exact position.side
          (closing.2.value exact closing.2.qtyLots) (releasedCost exact closing.1 closing.2) :=
    map_congr_left fun closing member => by
      rw [(closes closing member).1, realizedPnl_of_within (each closing member).opposite
        (each closing member).within, (each closing member).side]
  have total : ∀ some : List (PositionRiskState × Fill), (some.map fun closing =>
      realizedPnl exact position.side (closing.2.value exact closing.2.qtyLots)
        (releasedCost exact closing.1 closing.2)).sum =
      realizedPnl exact position.side
        ((some.map (·.2)).map fun fill => fill.value exact fill.qtyLots).sum
        (some.map fun closing => releasedCost exact closing.1 closing.2).sum := by
    intro some
    induction some with
    | nil => cases position.side <;> rfl
    | cons closing others ih =>
      simp only [map_cons, sum_cons, ih]
      cases position.side <;> simp only [realizedPnl, exact_i64] <;> omega
  rw [sameMargins, sameCosts, profits, total, inOrder, costs]
  exact ⟨margins, rfl, rfl, fun closing member =>
    ⟨(each closing member).margin, (each closing member).cost⟩⟩

/-- Ten lots are closed in three parts. -/
theorem close_of_split_inThree :
    ((closings machine
      (some (openPosition machine ⟨4, 7, 0, 7, 10, 7, 1000000, 10, 50, 0⟩ 10 7))
      [⟨4, 7, 1, 9, 3, 0, 1000000, 10, 50, 0⟩, ⟨4, 7, 1, 5, 3, 0, 1000000, 10, 50, 0⟩,
        ⟨4, 7, 1, 8, 4, 0, 1000000, 10, 50, 0⟩]).map fun closing =>
        (computePositionUpdate machine (some closing.1) closing.2).releasedMargin).sum = 7 :=
  (close_of_split (by decide) (by decide) (by decide) (by decide) (by decide) (by decide)
    (by decide +kernel)).1

end LightningX.Risk
