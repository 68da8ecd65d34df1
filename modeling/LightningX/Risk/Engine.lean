import LightningX.Lib.KeyedMap
import LightningX.Lib.StableSort
import LightningX.Risk.Calc

/-!
# The risk engine

`desk/risk/engine.rs`: margin accounts, positions, the insurance fund, fills,
automatic deleveraging and mark prices.  Concurrent maps are finite maps, atomic
counters are numbers; every operation takes the whole state to the next one.  A
position's copy of its own key is left out.
-/

namespace LightningX.Risk

abbrev UserId := Int

/-- The sixteen bytes of a symbol, read as a number. -/
abbrev Symbol := Nat

structure AccountRiskState where
  equity : Int
  availableMargin : Int
  orderMargin : Int
  usedMargin : Int
  maintenanceMargin : Int
  unrealizedPnl : Int
  status : RiskStatus
  markPriceEverUpdated : Bool
  deriving DecidableEq, Repr

def AccountRiskState.new (usdtBalanceAtoms : Int) : AccountRiskState where
  equity := usdtBalanceAtoms
  availableMargin := usdtBalanceAtoms
  orderMargin := 0
  usedMargin := 0
  maintenanceMargin := 0
  unrealizedPnl := 0
  status := .normal
  markPriceEverUpdated := false

def AccountRiskState.canPlaceOrder (account : AccountRiskState) : Bool :=
  decide (account.status = .normal ∨ account.status = .marginCall)

structure PositionRiskState where
  side : PositionSide
  qtyLots : Int
  costAtoms : Int
  entryPriceTicks : Int
  markPriceTicks : Int
  unrealizedPnl : Int
  initialMargin : Int
  maintenanceMargin : Int
  liquidationPriceTicks : Int
  bankruptcyPriceTicks : Int
  leverage : Nat
  deriving DecidableEq, Repr

structure RiskEngine where
  accounts : KeyedMap UserId AccountRiskState
  positions : KeyedMap (UserId × Symbol) PositionRiskState
  markPrices : KeyedMap Symbol Int
  symbolPositionIndex : KeyedMap Symbol (List UserId)
  symbolOiLots : KeyedMap Symbol Int
  insuranceFundAtoms : Int
  deriving DecidableEq

/-- The arguments of `on_fill`. -/
structure Fill where
  userId : UserId
  symbol : Symbol
  orderSide : Nat
  priceTicks : Int
  qtyLots : Int
  marginAtoms : Int
  notionalScale : Int
  leverage : Nat
  maintenanceRateBps : Int
  liqPriceTicks : Int
  deriving DecidableEq, Repr

namespace Fill

def side (fill : Fill) : PositionSide :=
  if fill.orderSide = 0 then .long else .short

/-- `settlement_price_ticks`: a liquidated user is settled at the liquidation
price. -/
def settlementPriceTicks (fill : Fill) : Int :=
  if fill.liqPriceTicks ≠ 0 then fill.liqPriceTicks else fill.priceTicks

/-- The key of the position. -/
def key (fill : Fill) : UserId × Symbol :=
  (fill.userId, fill.symbol)

end Fill

/-- What `compute_position_update` returns. -/
structure PositionUpdate where
  position : Option PositionRiskState
  releasedMargin : Int
  realizedPnl : Int
  deriving DecidableEq, Repr

/-- One pairing of an automatic deleveraging. -/
structure AdlEvent where
  bankruptUserId : UserId
  counterpartyUserId : UserId
  qtyLots : Int
  priceTicks : Int
  deriving DecidableEq, Repr

section

variable (arith : Arithmetic)

/-- The value of some lots of a fill at the settlement price. -/
def Fill.value (fill : Fill) (qtyLots : Int) : Int :=
  calcNotionalAtoms arith fill.settlementPriceTicks qtyLots fill.notionalScale

def openPosition (fill : Fill) (qtyLots marginAtoms : Int) : PositionRiskState :=
  let notional := fill.value arith qtyLots
  { side := fill.side
    qtyLots := qtyLots
    costAtoms := notional
    entryPriceTicks := fill.settlementPriceTicks
    markPriceTicks := fill.settlementPriceTicks
    unrealizedPnl := 0
    initialMargin := marginAtoms
    maintenanceMargin := calcMaintenanceMarginAtoms arith notional fill.maintenanceRateBps
    liquidationPriceTicks :=
      calcLiquidationPriceTicks arith fill.settlementPriceTicks fill.leverage
        fill.maintenanceRateBps fill.side
    bankruptcyPriceTicks :=
      calcBankruptcyPriceTicks arith fill.settlementPriceTicks fill.leverage fill.side
    leverage := fill.leverage }

def refreshRiskFields (notionalScale maintenanceRateBps : Int)
    (position : PositionRiskState) : PositionRiskState :=
  let notional := calcNotionalAtoms arith position.entryPriceTicks position.qtyLots notionalScale
  { position with
    maintenanceMargin := calcMaintenanceMarginAtoms arith notional maintenanceRateBps
    liquidationPriceTicks :=
      calcLiquidationPriceTicks arith position.entryPriceTicks position.leverage
        maintenanceRateBps position.side
    bankruptcyPriceTicks :=
      calcBankruptcyPriceTicks arith position.entryPriceTicks position.leverage position.side }

def refreshUnrealizedPnl (notionalScale : Int) (position : PositionRiskState) :
    PositionRiskState :=
  { position with
    unrealizedPnl :=
      calcUnrealizedPnlAtoms arith position.side position.qtyLots
        position.entryPriceTicks position.markPriceTicks notionalScale }

variable (position : PositionRiskState)

/-- Adding to a position of the same side. -/
def increasePosition (fill : Fill) : PositionRiskState :=
  let newQty := arith.i64 (position.qtyLots + fill.qtyLots)
  refreshUnrealizedPnl arith fill.notionalScale
    (refreshRiskFields arith fill.notionalScale fill.maintenanceRateBps
      { position with
        markPriceTicks := fill.settlementPriceTicks
        entryPriceTicks :=
          arith.i64 ((arith.i128 (position.entryPriceTicks * position.qtyLots +
            fill.settlementPriceTicks * fill.qtyLots)).tdiv newQty)
        qtyLots := newQty
        costAtoms := arith.i64 (position.costAtoms + fill.value arith fill.qtyLots)
        initialMargin := arith.i64 (position.initialMargin + fill.marginAtoms) })

/-- Profit of leaving a position at a value against a cost. -/
def realizedPnl (side : PositionSide) (exitValue cost : Int) : Int :=
  match side with
  | .long => arith.i64 (exitValue - cost)
  | .short => arith.i64 (-(exitValue - cost))

/-- Closing a position, and opening the opposite one with what is left of the
fill. -/
def closePosition (fill : Fill) : PositionUpdate :=
  let closeQty := position.qtyLots
  let remainingQty := arith.i64 (fill.qtyLots - closeQty)
  { position :=
      if remainingQty = 0 then none
      else
        some (openPosition arith fill remainingQty
          ((arith.i64 (fill.marginAtoms * remainingQty)).tdiv fill.qtyLots))
    releasedMargin := position.initialMargin
    realizedPnl := realizedPnl arith position.side (fill.value arith closeQty) position.costAtoms }

/-- Closing a part of a position. -/
def reducePosition (fill : Fill) : PositionUpdate :=
  let releasedCost :=
    arith.i64 ((arith.i128 (position.costAtoms * fill.qtyLots)).tdiv position.qtyLots)
  let releasedMargin := (arith.i64 (position.initialMargin * fill.qtyLots)).tdiv position.qtyLots
  { position :=
      some (refreshUnrealizedPnl arith fill.notionalScale
        (refreshRiskFields arith fill.notionalScale fill.maintenanceRateBps
          { position with
            markPriceTicks := fill.settlementPriceTicks
            qtyLots := arith.i64 (position.qtyLots - fill.qtyLots)
            costAtoms := arith.i64 (position.costAtoms - releasedCost)
            initialMargin := arith.i64 (position.initialMargin - releasedMargin) }))
    releasedMargin := releasedMargin
    realizedPnl := realizedPnl arith position.side (fill.value arith fill.qtyLots) releasedCost }

def computePositionUpdate (existing : Option PositionRiskState) (fill : Fill) :
    PositionUpdate :=
  match existing with
  | none =>
    { position := some (openPosition arith fill fill.qtyLots fill.marginAtoms)
      releasedMargin := 0
      realizedPnl := 0 }
  | some position =>
    if position.side = fill.side then
      { position := some (increasePosition arith position fill)
        releasedMargin := 0
        realizedPnl := 0 }
    else if fill.qtyLots ≥ position.qtyLots then closePosition arith position fill
    else reducePosition arith position fill

variable (engine : RiskEngine) (userId : UserId)

namespace RiskEngine

def new : RiskEngine where
  accounts := ∅
  positions := ∅
  markPrices := ∅
  symbolPositionIndex := ∅
  symbolOiLots := ∅
  insuranceFundAtoms := 0

def initializeAccount (usdtBalanceAtoms : Int) :
    RiskEngine :=
  { engine with
    accounts := engine.accounts.insert userId (AccountRiskState.new usdtBalanceAtoms) }

def positionUpdate (fill : Fill) : PositionUpdate :=
  computePositionUpdate arith (engine.positions.lookup fill.key) fill

def insuranceDelta (fill : Fill) (update : PositionUpdate) : Int :=
  if update.releasedMargin > 0 then
    if fill.liqPriceTicks ≠ 0 then
      let fillValue := calcNotionalAtoms arith fill.priceTicks fill.qtyLots fill.notionalScale
      let settleValue := calcNotionalAtoms arith fill.liqPriceTicks fill.qtyLots fill.notionalScale
      if fill.orderSide = 1 then arith.i64 (fillValue - settleValue)
      else arith.i64 (-(arith.i64 (fillValue - settleValue)))
    else if (engine.accounts.lookup fill.userId).map (·.status) = some .liquidating then
      update.realizedPnl
    else 0
  else 0

/-- `flip_margin` and `flip_dust`. -/
def flip (fill : Fill) (update : PositionUpdate) : Int × Int :=
  match update.position with
  | some position =>
    if position.side = fill.side then
      (position.initialMargin,
        if fill.qtyLots > 0 then
          (arith.i64 (fill.marginAtoms * position.qtyLots)).tmod fill.qtyLots
        else 0)
    else (0, 0)
  | none => (0, 0)

/-- `equity` from its parts. -/
def withEquity (account : AccountRiskState) : AccountRiskState :=
  { account with
    equity := arith.i64 (account.availableMargin + account.orderMargin +
      account.usedMargin + account.unrealizedPnl) }

/-- The margins of an account after a fill.  Liquidation orders reserved no
order margin. -/
def settleMargins (fill : Fill) (update : PositionUpdate) (account : AccountRiskState) :
    AccountRiskState :=
  let (flipMargin, flipDust) := flip arith fill update
  let account :=
    if fill.liqPriceTicks = 0 then
      { account with
        orderMargin := max (arith.i64 (account.orderMargin - fill.marginAtoms)) 0 }
    else account
  if update.releasedMargin > 0 then
    { account with
      usedMargin :=
        arith.i64 (max (arith.i64 (account.usedMargin - update.releasedMargin)) 0 + flipMargin)
      availableMargin :=
        arith.i64 (account.availableMargin + fill.marginAtoms + update.releasedMargin +
          update.realizedPnl - flipMargin + flipDust)
      status := if account.status = .liquidating then .normal else account.status }
  else { account with usedMargin := arith.i64 (account.usedMargin + fill.marginAtoms) }

def settleAccount (fill : Fill) (update : PositionUpdate)
    (unrealizedPnlDelta maintenanceMarginDelta : Int) (account : AccountRiskState) :
    AccountRiskState :=
  let account := settleMargins arith fill update account
  withEquity arith
    { account with
      unrealizedPnl := arith.i64 (account.unrealizedPnl + unrealizedPnlDelta)
      maintenanceMargin := max (arith.i64 (account.maintenanceMargin + maintenanceMarginDelta)) 0 }

/-- Store the position of a fill, or remove it. -/
def storePosition (positions : KeyedMap (UserId × Symbol) PositionRiskState)
    (key : UserId × Symbol) : Option PositionRiskState →
    KeyedMap (UserId × Symbol) PositionRiskState
  | some position => positions.insert key position
  | none => positions.erase key

def updateIndex (index : KeyedMap Symbol (List UserId)) (fill : Fill) (hasOpen : Bool) :
    KeyedMap Symbol (List UserId) :=
  if hasOpen then
    index.insert fill.symbol (((index.lookup fill.symbol).getD []).insert fill.userId)
  else KeyedMap.modify fill.symbol (·.erase fill.userId) index

/-- Change of a field of a fill's position; a missing position counts zero. -/
def positionDelta (fill : Fill) (read : PositionRiskState → Int) :
    Int :=
  arith.i64 (((engine.positionUpdate arith fill).position.map read).getD 0 -
    ((engine.positions.lookup fill.key).map read).getD 0)

def onFill (fill : Fill) : RiskEngine :=
  if fill.qtyLots ≤ 0 then engine
  else
    let update := engine.positionUpdate arith fill
    let oiDelta := engine.positionDelta arith fill (·.qtyLots)
    { accounts :=
        KeyedMap.modify fill.userId
          (settleAccount arith fill update
            (engine.positionDelta arith fill (·.unrealizedPnl))
            (engine.positionDelta arith fill (·.maintenanceMargin))) engine.accounts
      positions := storePosition engine.positions fill.key update.position
      markPrices :=
        if (engine.markPrices.lookup fill.symbol).isSome then engine.markPrices
        else engine.markPrices.insert fill.symbol fill.priceTicks
      symbolPositionIndex :=
        updateIndex engine.symbolPositionIndex fill
          ((update.position.map fun position => decide (position.qtyLots > 0)).getD false)
      symbolOiLots :=
        if oiDelta ≠ 0 then
          engine.symbolOiLots.insert fill.symbol
            (arith.i64 ((engine.symbolOiLots.lookup fill.symbol).getD 0 + oiDelta))
        else engine.symbolOiLots
      insuranceFundAtoms :=
        arith.i64 (engine.insuranceFundAtoms + engine.insuranceDelta arith fill update) }

def checkAndReserveMargin
    (initialMarginAtoms : Int) : RiskEngine × Except String Int :=
  match engine.accounts.lookup userId with
  | none => (engine, .error "Account not found")
  | some account =>
    if account.canPlaceOrder = false then (engine, .error "Account in liquidation")
    else if account.availableMargin < initialMarginAtoms then
      (engine, .error "Insufficient margin")
    else
      ({ engine with
        accounts := engine.accounts.insert userId
          { account with
            availableMargin := arith.i64 (account.availableMargin - initialMarginAtoms)
            orderMargin := arith.i64 (account.orderMargin + initialMarginAtoms) } },
        .ok initialMarginAtoms)

def releaseOrderMargin
    (initialMarginAtoms : Int) : RiskEngine :=
  { engine with
    accounts := KeyedMap.modify userId
      (fun account =>
        { account with
          availableMargin := arith.i64 (account.availableMargin + initialMarginAtoms)
          orderMargin := arith.i64 (account.orderMargin - initialMarginAtoms) })
      engine.accounts }

/-- The loop body of `update_mark_price` for one holder. -/
def markHolder (symbol : Symbol) (markTicks notionalScale : Int) (engine : RiskEngine)
    (userId : UserId) : RiskEngine :=
  match engine.positions.lookup (userId, symbol) with
  | none => engine
  | some position =>
    let newUpnl :=
      calcUnrealizedPnlAtoms arith position.side position.qtyLots
        position.entryPriceTicks markTicks notionalScale
    let upnlDelta := arith.i64 (newUpnl - position.unrealizedPnl)
    { engine with
      positions := engine.positions.insert (userId, symbol)
        { position with markPriceTicks := markTicks, unrealizedPnl := newUpnl }
      accounts := KeyedMap.modify userId
        (fun account =>
          withEquity arith
            { account with
              unrealizedPnl := arith.i64 (account.unrealizedPnl + upnlDelta)
              markPriceEverUpdated := true })
        engine.accounts }

/-- `update_mark_price`; `order` is the order in which the hash set yields the
holders. -/
def updateMarkPrice (symbol : Symbol)
    (newPriceTicks notionalScale : Int) (order : List UserId) : RiskEngine :=
  if newPriceTicks ≤ 0 then engine
  else
    let old := (engine.markPrices.lookup symbol).getD newPriceTicks
    let markTicks := (arith.i64 (newPriceTicks + arith.i64 (9 * old))).tdiv 10
    order.foldl (markHolder arith symbol markTicks notionalScale)
      { engine with markPrices := engine.markPrices.insert symbol markTicks }

end RiskEngine

/-- A bankrupt holder: user, side, quantity and bankruptcy price. -/
structure Bankrupt where
  userId : UserId
  side : PositionSide
  qtyLots : Int
  priceTicks : Int
  deriving DecidableEq, Repr

/-- A holder of the opposite side: user, quantity and score. -/
structure Candidate where
  userId : UserId
  qtyLots : Int
  score : Int
  deriving DecidableEq, Repr

/-- The candidates that are closed against a quantity, and how much of each. -/
def adlPairs : Int → List Candidate → List (UserId × Int)
  | _, [] => []
  | qtyLeft, candidate :: rest =>
    if qtyLeft ≤ 0 then []
    else
      let take := min qtyLeft candidate.qtyLots
      (candidate.userId, take) :: adlPairs (qtyLeft - take) rest

/-- The scale, leverage and maintenance rate of a symbol. -/
structure SymbolConfig where
  notionalScale : Int
  leverage : Nat
  maintenanceRateBps : Int
  deriving DecidableEq, Repr

/-- The two fills of a pair: the counterparty is closed at the bankruptcy price
and the bankrupt user is settled at it. -/
def adlFills (symbol : Symbol) (config : SymbolConfig) (bankrupt : Bankrupt)
    (pair : UserId × Int) : List Fill :=
  let fill (userId : UserId) (orderSide : Nat) (liqPriceTicks : Int) : Fill :=
    { userId := userId
      symbol := symbol
      orderSide := orderSide
      priceTicks := bankrupt.priceTicks
      qtyLots := pair.2
      marginAtoms := 0
      notionalScale := config.notionalScale
      leverage := config.leverage
      maintenanceRateBps := config.maintenanceRateBps
      liqPriceTicks := liqPriceTicks }
  [fill pair.1 (if bankrupt.side = .long then 0 else 1) 0,
    fill bankrupt.userId (if bankrupt.side = .long then 1 else 0) bankrupt.priceTicks]

namespace RiskEngine

def bankrupts (symbol : Symbol) (order : List UserId) :
    List Bankrupt :=
  order.filterMap fun userId =>
    if (engine.accounts.lookup userId).map (·.status) = some .bankruptcy then
      (engine.positions.lookup (userId, symbol)).map fun position =>
        { userId := userId, side := position.side, qtyLots := position.qtyLots,
          priceTicks := position.bankruptcyPriceTicks }
    else none

/-- The opposite holders, highest score first. -/
def adlCandidates (symbol : Symbol) (order : List UserId)
    (bankrupt : Bankrupt) : List Candidate :=
  StableSort.sortByKey (fun candidate => -candidate.score)
    (order.filterMap fun userId =>
      if userId = bankrupt.userId then none
      else
        (engine.positions.lookup (userId, symbol)).bind fun position =>
          if position.side = bankrupt.side then none
          else
            some
              { userId := userId
                qtyLots := position.qtyLots
                score :=
                  (max position.unrealizedPnl 0 * 10000).tdiv (max position.initialMargin 1) })

/-- The pairs of one bankrupt holder. -/
def adlPlan (symbol : Symbol) (order : List UserId)
    (bankrupt : Bankrupt) : List (UserId × Int) :=
  adlPairs bankrupt.qtyLots (engine.adlCandidates symbol order bankrupt)

/-- The fills of one bankrupt holder. -/
def adlFillsOf (symbol : Symbol) (config : SymbolConfig)
    (order : List UserId) (bankrupt : Bankrupt) : List Fill :=
  (engine.adlPlan symbol order bankrupt).flatMap (adlFills symbol config bankrupt)

/-- The deficit that is left goes to the insurance fund. -/
def socialize : RiskEngine :=
  match engine.accounts.lookup userId with
  | none => engine
  | some account =>
    let deficit := account.equity < 0
    { engine with
      insuranceFundAtoms :=
        if deficit then arith.i64 (engine.insuranceFundAtoms + account.equity)
        else engine.insuranceFundAtoms
      accounts := engine.accounts.insert userId
        { account with
          equity := if deficit then 0 else account.equity
          availableMargin := if deficit then 0 else account.availableMargin
          status := if account.usedMargin = 0 then .normal else account.status } }

/-- Deleverage one bankrupt holder. -/
def deleverage (symbol : Symbol) (config : SymbolConfig)
    (order : List UserId) (bankrupt : Bankrupt) : RiskEngine :=
  socialize arith
    ((engine.adlFillsOf symbol config order bankrupt).foldl (onFill arith) engine) bankrupt.userId

/-- The events of one bankrupt holder. -/
def adlEvents (symbol : Symbol) (order : List UserId)
    (bankrupt : Bankrupt) : List AdlEvent :=
  (engine.adlPlan symbol order bankrupt).map fun pair =>
    { bankruptUserId := bankrupt.userId, counterpartyUserId := pair.1,
      qtyLots := pair.2, priceTicks := bankrupt.priceTicks }

/-- The loop of `run_adl` over the bankrupt holders. -/
def adlLoop (symbol : Symbol) (config : SymbolConfig) (order : List UserId) :
    RiskEngine → List Bankrupt → RiskEngine × List AdlEvent
  | engine, [] => (engine, [])
  | engine, bankrupt :: rest =>
    let (after, events) :=
      adlLoop symbol config order (deleverage arith engine symbol config order bankrupt) rest
    (after, engine.adlEvents symbol order bankrupt ++ events)

/-- `run_adl`; `order` is the order in which the hash set yields the holders. -/
def runAdl (symbol : Symbol) (config : SymbolConfig)
    (order : List UserId) : RiskEngine × List AdlEvent :=
  adlLoop arith symbol config order engine (engine.bankrupts symbol order)

end RiskEngine
end
end LightningX.Risk
