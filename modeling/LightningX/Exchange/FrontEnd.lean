import LightningX.Lib.KeyedMap
import LightningX.Matching.Engine.Defs
import LightningX.Transport.Messages

/-!
# The matching thread of a symbol

`bin/exchange_engine.rs`: the thread that takes orders and cancels from the
desks, checks the limits of the venue, runs the matching engine and publishes
trades and order updates.  Recording, replay, snapshots and leadership are left
out; the clock is an argument.
-/

namespace LightningX.Exchange

open Matching Transport

structure CircuitBreaker where
  thresholdBps : Nat
  windowNs : Nat
  cooldownNs : Nat
  windowStartNs : Nat
  windowOpenTicks : Int
  haltedUntilNs : Nat
  deriving DecidableEq, Repr

namespace CircuitBreaker

def new (thresholdBps windowNs cooldownNs : Nat) : CircuitBreaker where
  thresholdBps := thresholdBps
  windowNs := windowNs
  cooldownNs := cooldownNs
  windowStartNs := 0
  windowOpenTicks := 0
  haltedUntilNs := 0

def isHalted (breaker : CircuitBreaker) (nowNs : Nat) : Bool :=
  decide (nowNs < breaker.haltedUntilNs)

def onTrade (breaker : CircuitBreaker) (nowNs : Nat) (priceTicks : Int) :
    CircuitBreaker :=
  if breaker.thresholdBps = 0 ∨ priceTicks ≤ 0 then breaker
  else if breaker.windowOpenTicks ≤ 0 ∨
      nowNs - breaker.windowStartNs > breaker.windowNs then
    { breaker with windowStartNs := nowNs, windowOpenTicks := priceTicks }
  else if ((priceTicks - breaker.windowOpenTicks).natAbs : Int) * 10000 >
      breaker.windowOpenTicks * breaker.thresholdBps then
    { breaker with
      haltedUntilNs := nowNs + breaker.cooldownNs
      windowStartNs := nowNs
      windowOpenTicks := priceTicks }
  else breaker

end CircuitBreaker

/-- The configured limits; zero switches a limit off. -/
structure Limits where
  priceBandBps : Nat
  maxOrderLots : Int
  maxOrderNotional : Int
  maxOpenOrders : Nat
  deriving DecidableEq, Repr

def bandReferenceTicks (engine : MatchingEngine) (lastTradeTicks : Int) : Option Int :=
  let fallback := if lastTradeTicks > 0 then some lastTradeTicks else none
  match engine.bestPriceTicks .buy, engine.bestPriceTicks .sell with
  | some bestBid, some bestAsk =>
    if bestBid > 0 ∧ bestAsk > 0 ∧ bestBid ≤ bestAsk then
      some ((bestBid + bestAsk).tdiv 2)
    else fallback
  | _, _ => fallback

def outsidePriceBand (engine : MatchingEngine) (side : Side) (priceTicks : Int)
    (bandBps : Nat) (lastTradeTicks : Int) : Bool :=
  if priceTicks ≤ 0 ∨ bandBps = 0 then false
  else
    match bandReferenceTicks engine lastTradeTicks with
    | none => false
    | some reference =>
      let band := (reference * bandBps).tdiv 10000
      match side with
      | .buy => decide (priceTicks > reference + band)
      | .sell => decide (priceTicks < reference - band)

def exceedsOrderLimits (priceTicks quantityLots maxLots maxNotional : Int) : Bool :=
  decide (maxLots > 0 ∧ quantityLots > maxLots ∨
    maxNotional > 0 ∧ priceTicks > 0 ∧ priceTicks * quantityLots > maxNotional)

/-- Open orders by participant. -/
abbrev OpenCounts := KeyedMap Int Nat

def openCountInc (counts : OpenCounts) (participantId : Int) : OpenCounts :=
  if participantId ≠ 0 then
    counts.insert participantId ((counts.lookup participantId).getD 0 + 1)
  else counts

def openCountDec (counts : OpenCounts) (participantId : Int) : OpenCounts :=
  if participantId = 0 then counts
  else
    match counts.lookup participantId with
    | none => counts
    | some count =>
      if count - 1 = 0 then counts.erase participantId
      else counts.insert participantId (count - 1)

/-- The state of a matching thread. -/
structure FrontEnd where
  symbol : Nat
  limits : Limits
  engine : MatchingEngine
  uidMap : KeyedMap Nat (Int × Nat)
  openCounts : OpenCounts
  breaker : CircuitBreaker
  lastTradeTicks : Int

/-- What a thread publishes: order updates with their streams, and trades. -/
structure Published where
  updates : List (Nat × OrderUpdateMsg)
  trades : List TradeNotification
  deriving DecidableEq, Repr

namespace FrontEnd

/-- A thread with an empty book. -/
def new (symbol : Nat) (limits : Limits) (breaker : CircuitBreaker)
    (config : PoolConfig) : FrontEnd where
  symbol := symbol
  limits := limits
  engine := MatchingEngine.new config
  uidMap := ∅
  openCounts := ∅
  breaker := breaker
  lastTradeTicks := 0

/-- Remember who placed an order that may rest. -/
def trackOrder (front : FrontEnd) (orderId : Nat) (participantId : Int) (stream : Nat) :
    FrontEnd :=
  { front with
    uidMap := front.uidMap.insert orderId (participantId, stream)
    openCounts :=
      if (front.uidMap.lookup orderId).isNone then
        openCountInc front.openCounts participantId
      else front.openCounts }

/-- Forget who placed an order. -/
def untrackOrder (front : FrontEnd) (orderId : Nat) : FrontEnd :=
  match front.uidMap.lookup orderId with
  | none => front
  | some (participantId, _) =>
    { front with
      uidMap := front.uidMap.erase orderId
      openCounts := openCountDec front.openCounts participantId }

/-- The loop body over the fills of an order. -/
def noteTrade (nowNs : Nat) (front : FrontEnd) (fill : Matching.Fill) : FrontEnd :=
  let front :=
    { front with
      lastTradeTicks := fill.priceTicks
      breaker := front.breaker.onTrade nowNs fill.priceTicks }
  if fill.makerId ∈ front.engine.orders then front else front.untrackOrder fill.makerId

/-- The reason to reject a request before it reaches the engine. -/
def gate (front : FrontEnd) (nowNs : Nat) (request : NewOrderRequest) : Option Nat :=
  if request.symbol ≠ front.symbol then some 4
  else if request.quantityLots ≤ 0 then some 2
  else if front.breaker.isHalted nowNs then some 10
  else if outsidePriceBand front.engine request.side request.priceTicks
      front.limits.priceBandBps front.lastTradeTicks then some 7
  else if exceedsOrderLimits request.priceTicks request.quantityLots
      front.limits.maxOrderLots front.limits.maxOrderNotional then some 8
  else if front.limits.maxOpenOrders > 0 ∧ request.participantId ≠ 0 ∧
      (front.openCounts.lookup request.participantId).getD 0 ≥
        front.limits.maxOpenOrders then some 9
  else none

def orderOf (nowNs : Nat) (request : NewOrderRequest) : Order :=
  if request.priceTicks = 0 then
    Order.newMarket request.clientOrderId request.side request.quantityLots nowNs
  else
    Order.new request.clientOrderId request.side request.priceTicks request.quantityLots
      request.timeInForce nowNs

/-- A request that is answered with a rejection. -/
def reject (front : FrontEnd) (request : NewOrderRequest) (reason : Nat) :
    FrontEnd × Published :=
  (front,
    { updates :=
        [(request.responseStreamId, .rejected request.clientOrderId request.participantId reason)]
      trades := [] })

/-- The order update of a placed order, and who is tracked after it. -/
def answer (front : FrontEnd) (request : NewOrderRequest) (result : PlaceOrderResult) :
    FrontEnd × OrderUpdateMsg :=
  let lastPrice := (result.fills.getLast?.map (·.priceTicks)).getD request.priceTicks
  match result.status with
  | .accepted =>
    (front.trackOrder result.orderId request.participantId request.responseStreamId,
      .accepted result.orderId request.clientOrderId request.participantId)
  | .filled =>
    (front.untrackOrder result.orderId,
      .filled result.orderId request.clientOrderId request.participantId lastPrice
        result.filledLots)
  | .partiallyFilled =>
    (front.trackOrder result.orderId request.participantId request.responseStreamId,
      .partialFill result.orderId request.clientOrderId request.participantId lastPrice
        result.filledLots (request.quantityLots - result.filledLots))
  | .cancelled =>
    (front.untrackOrder result.orderId,
      .cancelled result.orderId request.clientOrderId request.participantId
        (request.quantityLots - result.filledLots))
  | .rejected => (front, .rejected request.clientOrderId request.participantId 3)

/-- `InboundMsg::NewOrder`.  Trades are published before the update. -/
def newOrder (front : FrontEnd) (nowNs : Nat) (request : NewOrderRequest) :
    FrontEnd × Published :=
  match front.gate nowNs request with
  | some reason => front.reject request reason
  | none =>
    match front.engine.placeOrder (orderOf nowNs request) with
    | (engine, .error _) => { front with engine := engine }.reject request 2
    | (engine, .ok result) =>
      let (front, update) := { front with engine := engine }.answer request result
      (result.fills.foldl (noteTrade nowNs) front,
        { updates := [(request.responseStreamId, update)]
          trades := result.fills.map fun fill =>
            { takerOrderId := request.clientOrderId
              makerOrderId := fill.makerId
              price := fill.priceTicks
              quantity := fill.lots
              side := request.side
              symbol := front.symbol } })

/-- `InboundMsg::CancelOrder`.  The sender of a cancel is not compared with the
participant of the order. -/
def cancelOrder (front : FrontEnd) (request : CancelOrderRequest) :
    FrontEnd × Published :=
  match front.engine.cancelOrder request.orderId with
  | (engine, .ok result) =>
    let (participantId, stream) :=
      (front.uidMap.lookup request.orderId).getD (request.participantId, request.responseStreamId)
    (({ front with engine := engine } : FrontEnd).untrackOrder request.orderId,
      { updates := [(stream, .cancelled request.orderId 0 participantId result.cancelledQuantity)]
        trades := [] })
  | (engine, .error _) =>
    ({ front with engine := engine },
      { updates :=
          if request.participantId ≠ 0 then
            [(request.responseStreamId, .cancelled request.orderId 0 request.participantId 0)]
          else []
        trades := [] })

/-- One inbound message. -/
def handle (front : FrontEnd) (nowNs : Nat) : InboundMsg → FrontEnd × Published
  | .newOrder request => front.newOrder nowNs request
  | .cancelOrder request => front.cancelOrder request

/-- A run of inbound messages, each with the time it is handled at. -/
def run (front : FrontEnd) : List (Nat × InboundMsg) → FrontEnd × List Published
  | [] => (front, [])
  | (nowNs, message) :: messages =>
    let (front, published) := front.handle nowNs message
    let (front, later) := front.run messages
    (front, published :: later)

end FrontEnd
end LightningX.Exchange
