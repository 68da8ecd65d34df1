import LightningX.Desk.Run
import LightningX.Risk.UsedMargin

/-!
# The risk tick

`run_risk_tick` of `desk/risk/engine.rs`, and what fills and the other operations of the risk
engine do to the side and the lots of a position.
-/

namespace LightningX.Risk

open Arithmetic
open Desk (Liquidation)
open Desk.State (closingSide)
open Matching (Side)

section

variable (arith : Arithmetic)

namespace AccountRiskState

variable (account : AccountRiskState)

/-- The status that a risk tick computes for an account. -/
def newStatus : RiskStatus :=
  if account.usedMargin = 0 then .normal
  else if account.equity ≤ 0 then .bankruptcy
  else if account.equity ≤ account.maintenanceMargin then .liquidationPending
  else if arith.i64 (account.equity * 2) < arith.i64 (3 * account.maintenanceMargin) then
    .marginCall
  else .normal

/-- A risk tick passes over accounts without a mark price, and over those that are being
closed. -/
def judged : Bool :=
  account.markPriceEverUpdated &&
    decide (account.status ≠ .liquidating ∧ account.status ≠ .liquidated ∧
      account.status ≠ .bankruptcy)

/-- The account enters `LiquidationPending` with this tick. -/
def entersPending : Bool :=
  account.judged &&
    decide (account.newStatus arith = .liquidationPending ∧ account.status ≠ .liquidationPending)

def ticked : AccountRiskState :=
  if account.judged then { account with status := account.newStatus arith } else account

end AccountRiskState

namespace RiskEngine

/-- The user enters `LiquidationPending` with this tick. -/
def entersPending (engine : RiskEngine) (userId : UserId) : Bool :=
  ((engine.accounts.lookup userId).map (·.entersPending arith)).getD false

def liquidationOf (key : UserId × Symbol) (position : PositionRiskState) : Liquidation where
  userId := key.1
  symbol := key.2
  side := position.side
  qtyLots := position.qtyLots
  liqPriceTicks := position.liquidationPriceTicks

/-- `run_risk_tick`; `order` is the order in which the hash map yields the positions. -/
def runRiskTick (engine : RiskEngine) (order : List (UserId × Symbol)) :
    RiskEngine × List Liquidation :=
  ({ engine with
    accounts := (order.map (·.1)).dedup.foldl (fun accounts userId =>
      KeyedMap.modify userId (·.ticked arith) accounts) engine.accounts },
    order.filterMap fun key =>
      if engine.entersPending arith key.1 then
        (engine.positions.lookup key).map (liquidationOf key)
      else none)

end RiskEngine

/-- What a fill makes of the side and the lots of a position. -/
def filledHolding (holding : Option (PositionSide × Int)) (side : PositionSide)
    (lots : Int) : Option (PositionSide × Int) :=
  match holding with
  | none => some (side, lots)
  | some (held, qty) =>
    if held = side then some (held, arith.i64 (qty + lots))
    else if lots ≥ qty then
      if arith.i64 (lots - qty) = 0 then none else some (side, arith.i64 (lots - qty))
    else some (held, arith.i64 (qty - lots))

end

/-- The lots of a position that orders of a side close. -/
def closableLots (side : Side) : Option (PositionSide × Int) → Int
  | none => 0
  | some (held, qty) => if closingSide held = side then qty else 0

def Fill.bookSide (fill : Fill) : Side :=
  if fill.orderSide = 0 then .buy else .sell

theorem Fill.closingSide_eq_iff (fill : Fill) (held : PositionSide) :
    closingSide held = fill.bookSide ↔ held ≠ fill.side := by
  unfold Fill.bookSide Fill.side
  split_ifs <;> cases held <;> simp [closingSide]

/-- A fill has the lots of an `i64`, and so has the position that it adds to. -/
def Fill.Fits (fill : Fill) (holding : Option (PositionSide × Int)) : Prop :=
  InI64 fill.qtyLots ∧ ∀ held ∈ holding, held.1 = fill.side → InI64 (held.2 + fill.qtyLots)
deriving Decidable

def PositiveLots (holding : Option (PositionSide × Int)) : Prop :=
  ∀ side qty, holding = some (side, qty) → 0 < qty ∧ InI64 qty

section

variable {holding : Option (PositionSide × Int)} {fill : Fill}

theorem closableLots_nonneg (positive : PositiveLots holding) (side : Side) :
    0 ≤ closableLots side holding := by
  cases holding with
  | none => exact le_rfl
  | some both =>
    obtain ⟨held, qty⟩ := both
    have lots := (positive held qty rfl).1
    simp only [closableLots]
    split_ifs <;> omega

/-- What a fill can do to the side and the lots of a position. -/
inductive Turns (fill : Fill) :
    Option (PositionSide × Int) → Option (PositionSide × Int) → Prop
  | opened : Turns fill none (some (fill.side, fill.qtyLots))
  | increased (qty : Int) (fits : InI64 (qty + fill.qtyLots)) :
      Turns fill (some (fill.side, qty)) (some (fill.side, qty + fill.qtyLots))
  | closed {held : PositionSide} (opposite : held ≠ fill.side) :
      Turns fill (some (held, fill.qtyLots)) none
  | flipped {held : PositionSide} {qty : Int} (opposite : held ≠ fill.side)
      (less : qty < fill.qtyLots) :
      Turns fill (some (held, qty)) (some (fill.side, fill.qtyLots - qty))
  | reduced {held : PositionSide} {qty : Int} (opposite : held ≠ fill.side)
      (more : fill.qtyLots < qty) :
      Turns fill (some (held, qty)) (some (held, qty - fill.qtyLots))

theorem machine_sub (inRange : InI64 more) (positive : 0 < less) (smaller : less ≤ more) :
    machine.i64 (more - less) = more - less := by
  obtain ⟨-, upper⟩ := inRange
  exact wrapI64_eq ⟨by omega, by omega⟩

theorem turns_filledHolding
    (positive : PositiveLots holding) (lots : 0 < fill.qtyLots) (fits : fill.Fits holding) :
    Turns fill holding (filledHolding machine holding fill.side fill.qtyLots) := by
  cases holding with
  | none => exact .opened
  | some both =>
    obtain ⟨held, qty⟩ := both
    obtain ⟨qtyPositive, qtyFits⟩ := positive held qty rfl
    simp only [filledHolding]
    by_cases same : held = fill.side
    · subst same
      have inRange := fits.2 _ rfl rfl
      have sum : machine.i64 (qty + fill.qtyLots) = qty + fill.qtyLots := wrapI64_eq inRange
      rw [if_pos rfl, sum]
      exact .increased qty inRange
    · rw [if_neg same]
      rcases lt_trichotomy qty fill.qtyLots with less | equal | more
      · rw [if_pos less.le, machine_sub fits.1 qtyPositive less.le, if_neg (by omega)]
        exact .flipped same less
      · rw [if_pos equal.le, machine_sub fits.1 qtyPositive equal.le, if_pos (by omega)]
        exact equal ▸ .closed same
      · rw [if_neg (by omega), machine_sub qtyFits lots more.le]
        exact .reduced same more

namespace Turns

section

variable (turns : Turns fill holding after) (positive : PositiveLots holding)
  (lots : 0 < fill.qtyLots)
include turns positive lots

theorem positiveLots (inRange : InI64 fill.qtyLots) : PositiveLots after := by
  intro side qty isAfter
  cases turns with
  | opened =>
    cases isAfter
    exact ⟨lots, inRange⟩
  | increased before fits =>
    cases isAfter
    have := (positive _ before rfl).1
    exact ⟨by omega, fits⟩
  | closed opposite => cases isAfter
  | @flipped held before opposite less =>
    cases isAfter
    have := (positive held before rfl).1
    exact ⟨by omega, by omega, by have := inRange.2; omega⟩
  | @reduced held before opposite more =>
    cases isAfter
    have := (positive _ before rfl).2.2
    exact ⟨by omega, by omega, by omega⟩

/-- A fill takes from the lots that its side closes no more than its own. -/
theorem closableLots_ge (side : Side) :
    closableLots side holding - (if fill.bookSide = side then fill.qtyLots else 0) ≤
      closableLots side after := by
  have closes {held : PositionSide} (opposite : held ≠ fill.side) :
      closingSide held = fill.bookSide := (fill.closingSide_eq_iff held).mpr opposite
  cases turns with
  | opened =>
    simp only [closableLots]
    split_ifs <;> omega
  | increased before fits =>
    simp only [closableLots]
    split_ifs <;> omega
  | closed opposite =>
    simp only [closableLots, closes opposite]
    omega
  | flipped opposite less =>
    simp only [closableLots, closes opposite]
    split_ifs <;> omega
  | reduced opposite more =>
    simp only [closableLots, closes opposite]
    split_ifs <;> omega

end

end Turns
end

namespace RiskEngine

def holding (engine : RiskEngine) (key : UserId × Symbol) : Option (PositionSide × Int) :=
  (engine.positions.lookup key).map fun position => (position.side, position.qtyLots)

/-- Sides and lots of all positions stay. -/
def SameHoldings (engine after : RiskEngine) : Prop :=
  ∀ key, after.holding key = engine.holding key

variable {engine : RiskEngine}

theorem sameHoldings_of_positions (same : after.positions = engine.positions) :
    engine.SameHoldings after := by
  intro key
  rw [holding, same]
  rfl

theorem holding_onFill (arith : Arithmetic) (lots : 0 < fill.qtyLots) (key : UserId × Symbol) :
    (engine.onFill arith fill).holding key =
      if key = fill.key then
        filledHolding arith (engine.holding key) fill.side fill.qtyLots
      else engine.holding key := by
  unfold holding
  rw [positions_onFill arith lots, lookup_storePosition]
  split_ifs with same
  · subst same
    unfold positionUpdate
    cases engine.positions.lookup fill.key with
    | none => rfl
    | some position =>
      simp only [computePositionUpdate, filledHolding, Option.map_some]
      split_ifs with sameSide enough nothing
      · rfl
      · simp only [closePosition, if_pos nothing]
        rfl
      · simp only [closePosition, if_neg nothing]
        rfl
      · rfl
  · rfl

/-- The lots of each position are positive. -/
def AllPositive (engine : RiskEngine) : Prop :=
  ∀ key, PositiveLots (engine.holding key)

theorem AllPositive.of_sameHoldings (positive : engine.AllPositive)
    (same : engine.SameHoldings after) : after.AllPositive := by
  intro key
  rw [same key]
  exact positive key

/-- The lots that orders of a user, symbol and side close. -/
def closable (engine : RiskEngine) (key : (UserId × Symbol) × Side) : Int :=
  closableLots key.2 (engine.holding key.1)

theorem closable_nonneg (positive : engine.AllPositive) (key : (UserId × Symbol) × Side) :
    0 ≤ engine.closable key :=
  closableLots_nonneg (positive key.1) key.2

/-- Lots that orders of a side close are those of a position of the other side. -/
theorem holding_of_closable (some : 0 < engine.closable key) :
    ∃ held, engine.holding key.1 = .some (held, engine.closable key) ∧
      closingSide held = key.2 := by
  unfold closable at some ⊢
  cases found : engine.holding key.1 with
  | none =>
    rw [found] at some
    exact absurd some (lt_irrefl 0)
  | some both =>
    obtain ⟨held, qty⟩ := both
    rw [found] at some
    simp only [closableLots] at some ⊢
    split_ifs at some ⊢ with closes
    · exact ⟨held, rfl, closes⟩
    · exact absurd some (lt_irrefl 0)

theorem closable_of_sameHoldings
    (same : engine.SameHoldings after) (key : (UserId × Symbol) × Side) :
    after.closable key = engine.closable key := by
  rw [closable, same, closable]

/-- After a fill the lots of all positions are positive, and it took no more than its own
lots from what its side closes. -/
theorem closable_onFill (positive : engine.AllPositive) (lots : 0 < fill.qtyLots)
    (fits : fill.Fits (engine.holding fill.key)) :
    (engine.onFill machine fill).AllPositive ∧
      ∀ key, engine.closable key -
        (if (fill.key, fill.bookSide) = key then fill.qtyLots else 0) ≤
          (engine.onFill machine fill).closable key := by
  have turns := turns_filledHolding (positive fill.key) lots fits
  have elsewhere (key : UserId × Symbol) (other : key ≠ fill.key) :
      (engine.onFill machine fill).holding key = engine.holding key := by
    rw [holding_onFill machine lots, if_neg other]
  have there : (engine.onFill machine fill).holding fill.key =
      filledHolding machine (engine.holding fill.key) fill.side fill.qtyLots := by
    rw [holding_onFill machine lots, if_pos rfl]
  constructor
  · intro key
    by_cases same : key = fill.key
    · rw [same, there]
      exact turns.positiveLots (positive fill.key) lots fits.1
    · rw [elsewhere key same]
      exact positive key
  · rintro ⟨key, side⟩
    by_cases same : key = fill.key
    · subst same
      have bound := turns.closableLots_ge (positive fill.key) lots side
      simp only [closable, there, Prod.mk.injEq, true_and]
      exact bound
    · have apart : ¬ (fill.key, fill.bookSide) = (key, side) := by
        intro equal
        exact same (congrArg Prod.fst equal).symm
      simp only [closable, elsewhere key same]
      rw [if_neg apart, Int.sub_zero]

section

variable (arith : Arithmetic)

theorem sameHoldings_markHolder (symbol : Symbol) (markTicks notionalScale : Int)
    (userId : UserId) :
    engine.SameHoldings (engine.markHolder arith symbol markTicks notionalScale userId) := by
  intro key
  unfold markHolder
  cases found : engine.positions.lookup (userId, symbol) with
  | none => rfl
  | some position =>
    by_cases same : key = (userId, symbol)
    · subst same
      simp only [holding, AList.lookup_insert, found]
      rfl
    · simp only [holding, AList.lookup_insert_ne same]

theorem sameHoldings_updateMarkPrice (symbol : Symbol) (newPriceTicks notionalScale : Int)
    (order : List UserId) :
    engine.SameHoldings
      (engine.updateMarkPrice arith symbol newPriceTicks notionalScale order) := by
  have same : ∀ after : RiskEngine, engine.SameHoldings after →
      ∀ markTicks userId, engine.SameHoldings
        (after.markHolder arith symbol markTicks notionalScale userId) := by
    intro after held markTicks userId key
    rw [sameHoldings_markHolder arith symbol markTicks notionalScale userId key, held]
  exact updateMarkPrice_induct (fun _ held => held)
    (fun markTicks userId held => same _ held markTicks userId) fun _ => rfl

theorem sameHoldings_socialize (userId : UserId) :
    engine.SameHoldings (engine.socialize arith userId) := by
  unfold socialize
  split <;> exact fun _ => rfl

theorem sameHoldings_checkAndReserveMargin (userId : UserId) (margin : Int) :
    engine.SameHoldings (engine.checkAndReserveMargin arith userId margin).1 := by
  unfold checkAndReserveMargin
  split
  · exact fun _ => rfl
  · split_ifs <;> exact fun _ => rfl

theorem sameHoldings_chargeFee (userId : UserId) (fee : Int) :
    engine.SameHoldings (engine.chargeFee arith userId fee) := by
  unfold chargeFee
  split_ifs <;> exact fun _ => rfl

end

end RiskEngine
end LightningX.Risk
