import LightningX.Risk.Engine

/-!
# Admission checks, fees and statuses

The parts of `desk/risk/engine.rs` and `desk/risk/calc.rs` that the desk calls
around order entry and order updates.
-/

namespace LightningX.Risk

def saturatingAdd (left right : Int) : Int :=
  max (-2 ^ 63) (min (left + right) i64Max)

/-- `max_leverage_for_notional`: the first bound that fits wins. -/
def maxLeverageForNotional (notionalAtoms : Int) : List (Int × Nat) → Nat
  | [] => 1
  | (boundAtoms, leverage) :: tiers =>
    if boundAtoms = i64Max ∨ notionalAtoms ≤ boundAtoms then leverage
    else maxLeverageForNotional notionalAtoms tiers

section

variable (arith : Arithmetic)

def feeAtoms (notionalAtoms feeBps : Int) : Int :=
  arith.i64 ((arith.i128 (notionalAtoms * feeBps)).tdiv 10000)

/-- `firing_margin_atoms`, and the margin of an order on the other entry paths. -/
def firingMarginAtoms (priceTicks qtyLots notionalScale : Int) (leverage : Nat) : Int :=
  calcInitialMarginAtoms (calcNotionalAtoms arith priceTicks qtyLots notionalScale) leverage

def liquidationTrancheLots (positionLots trancheBps : Int) : Int :=
  if trancheBps ≥ 10000 ∨ positionLots ≤ 0 then positionLots
  else
    let tranche := max (arith.i64 ((arith.i128 (positionLots * trancheBps)).tdiv 10000)) 1
    if arith.i64 (arith.i64 (positionLots - tranche) * 5) < positionLots then positionLots
    else tranche

namespace RiskEngine

variable (engine : RiskEngine) (userId : UserId) (symbol : Symbol)

def checkPositionLimit
    (additionalLots maxPositionLots : Int) : Except String Unit :=
  if maxPositionLots ≤ 0 then .ok ()
  else
    let current := ((engine.positions.lookup (userId, symbol)).map (·.qtyLots)).getD 0
    if saturatingAdd current additionalLots > maxPositionLots then
      .error "Position limit exceeded"
    else .ok ()

def symbolOpenInterestLots : Int :=
  ((engine.symbolOiLots.lookup symbol).map (max · 0)).getD 0

def checkSymbolOiLimit
    (additionalLots maxOiLots : Int) : Except String Unit :=
  if maxOiLots ≤ 0 then .ok ()
  else if saturatingAdd (engine.symbolOpenInterestLots symbol) additionalLots > maxOiLots then
    .error "Symbol open interest limit exceeded"
  else .ok ()

def checkReduceOnly
    (orderSide : Nat) (qtyLots : Int) : Except String Int :=
  match engine.positions.lookup (userId, symbol) with
  | none => .error "reduce-only: no open position to reduce"
  | some position =>
    if orderSide = (match position.side with | .long => 1 | .short => 0) then
      .ok (min qtyLots position.qtyLots)
    else .error "reduce-only: order would increase the position"

def checkLeverageTier
    (addNotionalAtoms notionalScale : Int) (tiers : List (Int × Nat))
    (usedLeverage : Nat) : Except String Unit :=
  if tiers = [] then .ok ()
  else
    let current :=
      ((engine.positions.lookup (userId, symbol)).map fun position =>
        calcNotionalAtoms arith position.markPriceTicks position.qtyLots notionalScale).getD 0
    let total := saturatingAdd current (max addNotionalAtoms 0)
    if maxLeverageForNotional total tiers < usedLeverage then
      .error "Leverage exceeds risk tier for position size"
    else .ok ()

def chargeFee (fee : Int) : RiskEngine :=
  if fee = 0 then engine
  else
    { engine with
      accounts := KeyedMap.modify userId
        (fun account =>
          { account with
            equity := arith.i64 (account.equity - fee)
            availableMargin := arith.i64 (account.availableMargin - fee) })
        engine.accounts
      insuranceFundAtoms := arith.i64 (engine.insuranceFundAtoms + fee) }

def setAccountStatus (status : RiskStatus) :
    RiskEngine :=
  { engine with
    accounts := KeyedMap.modify userId (fun account => { account with status := status })
      engine.accounts }

def setAccountStatusIf
    (expected status : RiskStatus) : RiskEngine :=
  { engine with
    accounts := KeyedMap.modify userId
      (fun account =>
        if account.status = expected then { account with status := status } else account)
      engine.accounts }

end RiskEngine
end
end LightningX.Risk
