import LightningX.Matching.Pools
import LightningX.Matching.SkipList.Defs
import Mathlib.Data.List.AList

/-!
# The matching engine

`matching/engine.rs`.  The engine is an explicit state; an operation returns
the new state together with its result, because an operation that fails keeps
what it changed before.  Event senders and depth sampling read the book without
changing it and are left out.  The two loops of `match_order` carry the sizes
of the arena and of the node pool as fuel, which is never reached on reachable
states.
-/

namespace LightningX.Matching

structure PoolConfig where
  orderCapacity : Nat
  queueCapacity : Nat
  deriving DecidableEq, Repr

/-- `HashMap<u64, usize>`: order identifiers and pool indices. -/
abbrev OrderMap := AList fun _ : Nat => Nat

structure MatchingEngine where
  buyBook : SkipList
  sellBook : SkipList
  orders : OrderMap
  pools : Pools
  nextOrderId : Nat
  tradeSequence : Nat
  affectedMakersBuf : List Nat
  fillsBuf : List Fill

/-- Sort order of a book side: highest bid first, lowest ask first. -/
def Side.sortOrder : Side → SortOrder
  | .buy => .descending
  | .sell => .ascending

def Order.priceMatches (order : Order) (price : Int) : Bool :=
  order.isMarket ||
    match order.side with
    | .buy => decide (order.priceTicks ≥ price)
    | .sell => decide (order.priceTicks ≤ price)

/-- Remove a level whose queue is empty; `absent` is the answer for a price
without a level. -/
def SkipList.dropEmptyLevel (list : SkipList) (price : Int) (absent : Bool) : SkipList :=
  if list.levelEmpty price absent then (list.removeLevel price).1 else list

/-- `remove_order_at_level`, then `remove_level` when nothing is left there. -/
def SkipList.dropOrder (list : SkipList) (price : Int) (orderId : Nat) : SkipList :=
  (list.removeOrderAtLevel price orderId).1.dropEmptyLevel price true

namespace MatchingEngine

def new (config : PoolConfig) : MatchingEngine where
  buyBook := SkipList.newWithPool .descending config.queueCapacity
  sellBook := SkipList.newWithPool .ascending config.queueCapacity
  orders := ∅
  pools := Pools.new config.orderCapacity config.queueCapacity
  nextOrderId := 1
  tradeSequence := 0
  affectedMakersBuf := []
  fillsBuf := []

def book (engine : MatchingEngine) : Side → SkipList
  | .buy => engine.buyBook
  | .sell => engine.sellBook

def setBook (engine : MatchingEngine) (side : Side) (list : SkipList) :
    MatchingEngine :=
  match side with
  | .buy => { engine with buyBook := list }
  | .sell => { engine with sellBook := list }

def bestPriceTicks (engine : MatchingEngine) (side : Side) : Option Int :=
  (engine.book side).best.map (engine.book side).price

def getOrder (engine : MatchingEngine) (orderId : Nat) : Option Order :=
  (engine.orders.lookup orderId).bind engine.pools.orders.get

def validateOrder (order : Order) : OrderResult Unit :=
  if !order.isMarket && decide (order.priceTicks ≤ 0) then
    .error (.invalidPrice order.priceTicks)
  else if order.quantityLots ≤ 0 then
    .error (.invalidQuantity order.quantityLots)
  else .ok ()

/-- `filled_lots += lots` on an order of the pool, if the map knows it. -/
def fillResting (engine : MatchingEngine) (orderId : Nat) (lots : Int) :
    MatchingEngine :=
  match engine.orders.lookup orderId with
  | some index =>
    { engine with
      pools.orders := engine.pools.orders.modify index fun order => order.fill lots }
  | none => engine

/-- `orders.remove(&order_id)` and release of the pool slot. -/
def forget (engine : MatchingEngine) (orderId : Nat) : MatchingEngine :=
  match engine.orders.lookup orderId with
  | some index =>
    { engine with
      orders := engine.orders.erase orderId
      pools.orders := engine.pools.orders.release index }
  | none => engine

def dropFromBook (engine : MatchingEngine) (side : Side) (price : Int)
    (orderId : Nat) : MatchingEngine :=
  engine.setBook side ((engine.book side).dropOrder price orderId)

def addToBook (engine : MatchingEngine) (order : Order) :
    MatchingEngine × OrderResult Unit :=
  if order.id ∈ engine.orders then
    (engine, .error (.duplicateOrderId order.id))
  else
    match engine.pools.orders.acquire with
    | none => (engine, .error .orderPoolExhausted)
    | some (slots, index) =>
      let slots := slots.modify index fun _ => order
      let list := ((engine.book order.side).insertLevel order.priceTicks).1
      match list.addOrderAtLevel order.priceTicks order.id order.remainingLots with
      | (list, .error _) =>
        let engine := { engine with pools.orders := slots.release index }
        (engine.setBook order.side (list.dropEmptyLevel order.priceTicks false),
          .error .nodePoolExhausted)
      | (list, .ok ()) =>
        let engine := { engine with
          orders := engine.orders.insert order.id index
          pools.orders := slots }
        (engine.setBook order.side list.invalidateBestPrice, .ok ())

/-- The local variables of `match_order`. -/
structure MatchLoop where
  engine : MatchingEngine
  filled : Int
  tradeIndices : List Nat

/-- The end of an iteration: a filled maker leaves the book. -/
def retireFilled (engine : MatchingEngine) (side : Side) (price : Int)
    (orderId : Nat) : MatchingEngine :=
  match engine.getOrder orderId with
  | some counter =>
    if counter.isFilled then (engine.dropFromBook side price orderId).forget orderId
    else engine
  | none => engine

/-- Append to `affected_makers_buf` and `fills_buf`. -/
def noteFill (engine : MatchingEngine) (fill : Fill) : MatchingEngine :=
  { engine with
    affectedMakersBuf := engine.affectedMakersBuf ++ [fill.makerId]
    fillsBuf := engine.fillsBuf ++ [fill] }

/-- The updates of a trade before its slot is taken: the buffers, the filled
lots of the taker and of the maker, and the maker's level. -/
def applyFill (engine : MatchingEngine) (order : Order) (fill : Fill) :
    MatchingEngine :=
  let side := order.side.opposite
  let engine := engine.noteFill fill
  let engine := engine.fillResting order.id fill.lots
  let engine := engine.fillResting fill.makerId fill.lots
  engine.setBook side ((engine.book side).reduceOrderQuantityAtLevel fill.priceTicks
    fill.makerId fill.lots).1

/-- Fill in the trade slot taken from the pool. -/
def recordTrade (engine : MatchingEngine) (takerId : Nat) (fill : Fill)
    (trades : ObjectPool Trade) (index : Nat) : MatchingEngine :=
  { engine with
    pools.trades := trades.modify index fun _ =>
      { takerId := takerId, makerId := fill.makerId, priceTicks := fill.priceTicks,
        quantityLots := fill.lots }
    tradeSequence := engine.tradeSequence + 1 }

/-- The part of an iteration of `match_order` that trades with `counter`. -/
def executeTrade (order : Order) (bestPrice : Int) (counterId : Nat)
    (counter : Order) (loop : MatchLoop) : MatchLoop × OrderResult Unit :=
  let side := order.side.opposite
  let tradeLots := min (order.quantityLots - loop.filled) counter.remainingLots
  let fill : Fill := { makerId := counterId, priceTicks := bestPrice, lots := tradeLots }
  let engine := loop.engine.applyFill order fill
  let filled := loop.filled + tradeLots
  match engine.pools.trades.acquire with
  | none => ({ loop with engine := engine, filled := filled }, .error .orderPoolExhausted)
  | some (trades, index) =>
    let engine := engine.recordTrade order.id fill trades index
    ({ engine := engine.retireFilled side bestPrice counterId
       filled := filled
       tradeIndices := loop.tradeIndices ++ [index] }, .ok ())

/-- Inner loop of `match_order`: the orders of one price level.  An identifier
that the map or the pool does not know, or an order without remaining lots, is
removed from the level and skipped. -/
def matchLevel (order : Order) (bestPrice : Int) :
    Nat → MatchLoop → MatchLoop × OrderResult Unit
  | 0, loop => (loop, .ok ())
  | fuel + 1, loop =>
    let side := order.side.opposite
    if loop.filled ≥ order.quantityLots then (loop, .ok ())
    else
      match (loop.engine.book side).frontOrderId bestPrice with
      | none => (loop, .ok ())
      | some counterId =>
        match loop.engine.orders.lookup counterId with
        | none =>
          let engine := loop.engine.dropFromBook side bestPrice counterId
          matchLevel order bestPrice fuel { loop with engine := engine }
        | some index =>
          match loop.engine.pools.orders.get index with
          | none =>
            let engine := loop.engine.dropFromBook side bestPrice counterId
            let engine := { engine with orders := engine.orders.erase counterId }
            matchLevel order bestPrice fuel { loop with engine := engine }
          | some counter =>
            if counter.remainingLots ≤ 0 then
              let engine := (loop.engine.dropFromBook side bestPrice counterId).forget counterId
              matchLevel order bestPrice fuel { loop with engine := engine }
            else
              match executeTrade order bestPrice counterId counter loop with
              | (loop, .ok ()) => matchLevel order bestPrice fuel loop
              | (loop, .error error) => (loop, .error error)

/-- Outer loop of `match_order`: the price levels, best first. -/
def matchLevels (order : Order) : Nat → MatchLoop → MatchLoop × OrderResult Unit
  | 0, loop => (loop, .ok ())
  | fuel + 1, loop =>
    let side := order.side.opposite
    if loop.filled ≥ order.quantityLots then (loop, .ok ())
    else
      let (list, best) := (loop.engine.book side).getBestPriceCached
      let loop := { loop with engine := loop.engine.setBook side list }
      match best with
      | none => (loop, .ok ())
      | some price =>
        if (list.getNodeAtPrice price).isSome && order.priceMatches price then
          match matchLevel order price (list.listPool.nodes.length + 1) loop with
          | (loop, .ok ()) => matchLevels order fuel loop
          | (loop, .error error) => (loop, .error error)
        else (loop, .ok ())

/-- `match_order`: the lots filled. -/
def matchOrder (engine : MatchingEngine) (order : Order) :
    MatchingEngine × OrderResult Int :=
  let fuel := (engine.book order.side.opposite).arena.length + 1
  let engine := { engine with affectedMakersBuf := [], fillsBuf := [] }
  match matchLevels order fuel
      { engine := engine, filled := 0, tradeIndices := [] } with
  | (loop, .ok ()) =>
    ({ loop.engine with
      pools.trades := loop.tradeIndices.foldl ObjectPool.release
        loop.engine.pools.trades }, .ok loop.filled)
  | (loop, .error error) => (loop.engine, .error error)

/-- Status of an order after matching; `unfilled` if nothing traded. -/
def takerStatus (order : Order) (filledLots : Int) (unfilled : OrderStatus) :
    OrderStatus :=
  if filledLots ≥ order.quantityLots then .filled
  else if filledLots > 0 then .partiallyFilled
  else unfilled

/-- `handle_market_order` and `handle_ioc`, which have the same body. -/
def handleImmediate (engine : MatchingEngine) (order : Order) :
    MatchingEngine × OrderResult PlaceOrderResult :=
  match engine.matchOrder order with
  | (engine, .error error) => (engine, .error error)
  | (engine, .ok filledLots) =>
    (engine, .ok
      { orderId := order.id
        filledLots := filledLots
        status := takerStatus order filledLots .rejected
        fills := engine.fillsBuf })

def handleMarketOrder (engine : MatchingEngine) (order : Order) :
    MatchingEngine × OrderResult PlaceOrderResult :=
  engine.handleImmediate order

def handleIoc (engine : MatchingEngine) (order : Order) :
    MatchingEngine × OrderResult PlaceOrderResult :=
  engine.handleImmediate order

/-- The result of an order that leaves the book as it was. -/
def untouched (order : Order) (status : OrderStatus) : PlaceOrderResult where
  orderId := order.id
  filledLots := 0
  status := status
  fills := []

/-- `would_match` of `handle_post_only`. -/
def wouldMatch (engine : MatchingEngine) (order : Order) : Bool :=
  match engine.bestPriceTicks order.side.opposite with
  | none => false
  | some best =>
    match order.side with
    | .buy => decide (order.priceTicks ≥ best)
    | .sell => decide (order.priceTicks ≤ best)

def handlePostOnly (engine : MatchingEngine) (order : Order) :
    MatchingEngine × OrderResult PlaceOrderResult :=
  if engine.wouldMatch order then (engine, .ok (untouched order .rejected))
  else
    match engine.addToBook order with
    | (engine, .error error) => (engine, .error error)
    | (engine, .ok ()) => (engine, .ok (untouched order .accepted))

def canFillFok (engine : MatchingEngine) (order : Order) : Bool :=
  (engine.book order.side.opposite).hasCumulativeQuantityUntil order.quantityLots
    order.priceTicks order.isMarket (order.side == .buy)

def handleFok (engine : MatchingEngine) (order : Order) :
    MatchingEngine × OrderResult PlaceOrderResult :=
  if !engine.canFillFok order then (engine, .ok (untouched order .rejected))
  else
    match engine.matchOrder order with
    | (engine, .error error) => (engine, .error error)
    | (engine, .ok filledLots) =>
      (engine, .ok
        { orderId := order.id
          filledLots := filledLots
          status := .filled
          fills := engine.fillsBuf })

def handleGtc (engine : MatchingEngine) (order : Order) :
    MatchingEngine × OrderResult PlaceOrderResult :=
  match engine.matchOrder order with
  | (engine, .error error) => (engine, .error error)
  | (engine, .ok filledLots) =>
    let (engine, rested) :=
      if filledLots < order.quantityLots then
        engine.addToBook { order with filledLots := filledLots }
      else (engine, .ok ())
    match rested with
    | .error error => (engine, .error error)
    | .ok () =>
      (engine, .ok
        { orderId := order.id
          filledLots := filledLots
          status := takerStatus order filledLots .accepted
          fills := engine.fillsBuf })

def placeOrder (engine : MatchingEngine) (order : Order) :
    MatchingEngine × OrderResult PlaceOrderResult :=
  match validateOrder order with
  | .error error => (engine, .error error)
  | .ok () =>
    if order.id ∈ engine.orders then
      (engine, .error (.duplicateOrderId order.id))
    else if !engine.pools.hasSpaceForOrder then
      (engine, .error .orderPoolExhausted)
    else
      let engine := { engine with affectedMakersBuf := [] }
      if order.isMarket then engine.handleMarketOrder order
      else
        match order.timeInForce with
        | .postOnly => engine.handlePostOnly order
        | .fok => engine.handleFok order
        | .ioc => engine.handleIoc order
        | .gtc => engine.handleGtc order

def removeFromBook (engine : MatchingEngine) (orderId : Nat) :
    MatchingEngine × OrderResult Unit :=
  match engine.getOrder orderId with
  | none => (engine, .error .orderNotFound)
  | some order =>
    match (engine.book order.side).removeOrderAtLevel order.priceTicks orderId with
    | (list, .error _) => (engine.setBook order.side list, .error .orderNotFound)
    | (list, .ok ()) =>
      (engine.setBook order.side (list.dropEmptyLevel order.priceTicks true), .ok ())

def cancelOrder (engine : MatchingEngine) (orderId : Nat) :
    MatchingEngine × OrderResult CancelOrderResult :=
  match engine.getOrder orderId with
  | none => (engine, .error .orderNotFound)
  | some order =>
    if order.isFilled then (engine, .error .alreadyFilled)
    else
      match engine.removeFromBook orderId with
      | (engine, .error error) => (engine, .error error)
      | (engine, .ok ()) =>
        (engine.forget orderId, .ok
          { orderId := orderId, cancelledQuantity := order.remainingLots })

end MatchingEngine

/-- The orders the constructors of `Order` build. -/
inductive Request
  | limit (id : Nat) (side : Side) (priceTicks quantityLots : I64)
      (timeInForce : TimeInForce) (timestamp : Nat)
  | market (id : Nat) (side : Side) (quantityLots : I64) (timestamp : Nat)
  deriving DecidableEq

def Request.order : Request → Order
  | .limit id side priceTicks quantityLots timeInForce timestamp =>
    Order.new id side priceTicks.val quantityLots.val timeInForce timestamp
  | .market id side quantityLots timestamp => Order.newMarket id side quantityLots.val timestamp

/-- A call of the engine's interface. -/
inductive Call
  | place (request : Request)
  | cancel (orderId : Nat)
  deriving DecidableEq

/-- The answer to a call. -/
inductive Answer
  | placed (result : OrderResult PlaceOrderResult)
  | cancelled (result : OrderResult CancelOrderResult)

namespace MatchingEngine

def step (engine : MatchingEngine) : Call → MatchingEngine × Answer
  | .place request =>
    let (engine, result) := engine.placeOrder request.order
    (engine, .placed result)
  | .cancel orderId =>
    let (engine, result) := engine.cancelOrder orderId
    (engine, .cancelled result)

def run (engine : MatchingEngine) : List Call → MatchingEngine × List Answer
  | [] => (engine, [])
  | call :: calls =>
    let (engine, answer) := engine.step call
    let (engine, answers) := engine.run calls
    (engine, answer :: answers)

end MatchingEngine
end LightningX.Matching
