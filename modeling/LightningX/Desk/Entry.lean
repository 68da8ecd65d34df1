import LightningX.Desk.State

/-!
# Order entry

The ways an order enters a desk in front of the exchange: over REST
(`desk/api.rs`), over a WebSocket one by one or in a batch
(`desk/ws_handler.rs`), passed on by another desk, as a fired trigger and as a
liquidation (`bin/desk_server.rs`).  The last part is the send thread, which
takes orders from the queues and publishes them to the matching threads.
-/

namespace LightningX.Desk

open Matching (Side TimeInForce)
open Risk Transport

/-- An order as a client asks for it. -/
structure PlaceRequest where
  userId : UserId
  symbol : Symbol
  side : Side
  isMarket : Bool
  timeInForce : TimeInForce
  price : Option Int
  quantityLots : Int
  reduceOnly : Bool
  deriving DecidableEq, Repr

/-- A fired trigger and what the database says about it. -/
structure FiredTrigger where
  orderId : OrderId
  userId : UserId
  symbol : Symbol
  side : Side
  isMarket : Bool
  priceTicks : Option Int
  qtyLots : Int
  usdtBalanceAtoms : Int
  flipped : Bool
  inserted : Bool
  deriving DecidableEq, Repr

/-- A position that the risk tick wants closed. -/
structure Liquidation where
  userId : UserId
  symbol : Symbol
  side : PositionSide
  qtyLots : Int
  liqPriceTicks : Int
  deriving DecidableEq, Repr

/-- An order that a desk sends to the engine, with its metadata. -/
structure Submission where
  sent : NewOrderRequest
  details : OrderMeta
  deriving DecidableEq, Repr

/-- How an entry path answers: with a reason, with the orders it hands to the
send thread, or after passing the request on. -/
inductive Reply
  | rejected (reason : String)
  | submitted (orders : List Submission)
  | passedOn
  deriving DecidableEq, Repr

/-- The orders on their way to the engine. -/
def Reply.orders : Reply → List Submission
  | .submitted orders => orders
  | _ => []

/-- `normalize_order_shape`: the limit price, none for a market order. -/
def normalizeOrderShape (rules : SymbolRules) (request : PlaceRequest) :
    Except String (Option Int) :=
  if request.quantityLots ≤ 0 then .error "quantity must be > 0"
  else if request.isMarket then .ok none
  else
    match request.price with
    | none => .error "price required for non-market orders"
    | some price =>
      if price ≤ 0 then .error "price required for non-market orders"
      else if rules.quoteAtoms price request.quantityLots < rules.minNotionalAtoms then
        .error "order notional is below minimum"
      else .ok (some price)

def freezePriceOf (request : PlaceRequest) (bestOpposing : Option Int) : Int :=
  match request.side with
  | .buy => (request.price.or bestOpposing).getD 0
  | .sell => 0

def effectivePriceTicks (shape : Option Int) (freezePrice : Int) : Except String Int :=
  if shape.getD 0 > 0 then .ok (shape.getD 0)
  else if freezePrice ≤ 0 then .error "Unable to determine buy reservation price"
  else .ok freezePrice

section

variable (arith : Arithmetic) (config : Config)

def initialMarginAtoms (symbol : Symbol) (priceTicks quantityLots : Int) : Int :=
  firingMarginAtoms arith priceTicks quantityLots (config.rules symbol).notionalScale
    (config.rules symbol).defaultLeverage

/-- The checks of a WebSocket order that come before its reservation: its limit
price and its margin. -/
def wsMargin (request : PlaceRequest) (bestOpposing : Option Int) :
    Except String (Option Int × Int) :=
  match normalizeOrderShape (config.rules request.symbol) request with
  | .error reason => .error reason
  | .ok shape =>
    if config.validSymbols ≠ [] ∧ request.symbol ∉ config.validSymbols then
      .error "No engine for symbol"
    else
      match effectivePriceTicks shape (freezePriceOf request bestOpposing) with
      | .error reason => .error reason
      | .ok priceTicks =>
        let margin := initialMarginAtoms arith config request.symbol priceTicks request.quantityLots
        if margin ≤ 0 then .error "Unable to determine margin requirement"
        else .ok (shape, margin)

def engineRequest (request : PlaceRequest) (orderId : OrderId) (shape : Option Int)
    (stream : Nat) (reduceOnly : Bool) : NewOrderRequest where
  clientOrderId := orderId
  participantId := request.userId
  priceTicks := shape.getD 0
  quantityLots := request.quantityLots
  side := request.side
  timeInForce := request.timeInForce
  responseStreamId := stream
  reduceOnly := reduceOnly
  symbol := request.symbol

/-- The metadata of an order of a client. -/
def orderMetaOf (request : PlaceRequest) (freezePrice initialMarginAtoms : Int) :
    OrderMeta where
  userId := request.userId
  symbol := request.symbol
  side := request.side
  price := request.price
  qty := request.quantityLots
  freezePrice := freezePrice
  initialMarginAtoms := initialMarginAtoms
  liqPriceTicks := 0

namespace State

variable (desk : State)

/-- `check_and_reserve_margin`, then `try_freeze_cache`; without balance the
margin is released again. -/
def reserveAndFreeze (userId : UserId) (margin : Int) (asset : Asset)
    (amountAtoms : Int) : State × Except String Unit :=
  match desk.risk.checkAndReserveMargin arith userId margin with
  | (risk, .error reason) => ({ desk with risk := risk }, .error reason)
  | (risk, .ok _) =>
    match tryFreezeCache desk.accountCache userId asset amountAtoms with
    | none =>
      ({ desk with risk := risk.releaseOrderMargin arith userId margin },
        .error "Insufficient balance")
    | some cache => ({ desk with risk := risk, accountCache := cache }, .ok ())

def notePending (orderId : OrderId) (details : OrderMeta) : State :=
  { desk with pendingMeta := desk.pendingMeta.insert orderId details }

/-- The command queue is full. -/
def aeronCmdFull : Bool :=
  decide (desk.aeronCmd.length ≥ config.aeronCmdCap)

def queueTooDeep : Bool :=
  (config.aeronCmdLatencyCap.map fun cap => decide (desk.aeronCmd.length ≥ cap)).getD false

def pushCmd (command : AeronCmd) : State :=
  { desk with aeronCmd := desk.aeronCmd ++ [command] }

def pushLiqCmd (command : AeronCmd) : State :=
  { desk with liqCmd := desk.liqCmd ++ [command] }

/-! ## WebSocket -/

/-- A WebSocket order of a user of another desk. -/
def forwardOrder (request : PlaceRequest) (shape : Option Int)
    (freezePrice margin : Int) : State × Reply :=
  let orderId := desk.nextOrderId
  let desk := desk.takeOrderId
  if desk.counterForward.length ≥ config.counterForwardCap then
    (desk, .rejected "system busy")
  else
    ({ desk with
      counterForward := desk.counterForward ++
        [.newOrder desk.deskId
          (engineRequest request orderId shape (ownerShardForUserId request.userId) false)
          (orderMetaOf request freezePrice margin)] },
      .passedOn)

/-- The limits a WebSocket order is checked against. -/
def checkLimits (request : PlaceRequest) : Except String Unit :=
  match desk.risk.checkPositionLimit request.userId request.symbol request.quantityLots
      (config.rules request.symbol).maxPositionLots with
  | .error reason => .error reason
  | .ok () =>
    desk.risk.checkSymbolOiLimit request.symbol request.quantityLots
      (config.rules request.symbol).maxSymbolOiLots

/-- An order with reserved margin goes to the send thread, or everything is
undone when the queue is full. -/
def submitReserved (request : PlaceRequest) (shape : Option Int)
    (freezePrice margin amountAtoms : Int) : State × Reply :=
  let orderId := desk.nextOrderId
  let sent := engineRequest request orderId shape desk.deskId false
  let details := orderMetaOf request freezePrice margin
  let desk := desk.takeOrderId.notePending orderId details
  if desk.queueTooDeep config || desk.aeronCmdFull config then
    ({ desk with
      pendingMeta := desk.pendingMeta.erase orderId
      risk := desk.risk.releaseOrderMargin arith request.userId margin
      accountCache :=
        releaseCacheFrozen desk.accountCache request.userId
          (config.quoteAsset request.symbol) amountAtoms },
      .rejected "system busy")
  else (desk.pushCmd (.newOrder sent), .submitted [⟨sent, details⟩])

/-- `ClientMsg::PlaceOrder`.  The frozen amount is the margin divided by a
hundred, taken as whole units of the quote asset. -/
def placeOrder (bestOpposing : Option Int) (request : PlaceRequest) :
    State × Reply :=
  match wsMargin arith config request bestOpposing with
  | .error reason => (desk, .rejected reason)
  | .ok (shape, margin) =>
    let freezePrice := freezePriceOf request bestOpposing
    if isUserOwnedByDesk request.userId desk.deskId = false then
      desk.forwardOrder config request shape freezePrice margin
    else
      match desk.checkLimits config request with
      | .error reason => (desk, .rejected reason)
      | .ok () =>
        match desk.reserveAndFreeze arith request.userId margin
            (config.quoteAsset request.symbol) (marginUsdtAtoms 100 margin) with
        | (desk, .error reason) => (desk, .rejected reason)
        | (desk, .ok ()) =>
          desk.submitReserved arith config request shape freezePrice margin
            (marginUsdtAtoms 100 margin)

/-- The first phase of a batch: checks, and identifiers for what passes. -/
def validateOrders (userId : UserId) :
    State → List (Option Int × PlaceRequest) → State × List Submission
  | desk, [] => (desk, [])
  | desk, (bestOpposing, request) :: rest =>
    let request := { request with userId := userId }
    match wsMargin arith config request bestOpposing with
    | .error _ => validateOrders userId desk rest
    | .ok (shape, margin) =>
      let validated : Submission :=
        { sent := engineRequest request desk.nextOrderId shape desk.deskId false
          details := orderMetaOf request (freezePriceOf request bestOpposing) margin }
      let (desk, others) := validateOrders userId desk.takeOrderId rest
      (desk, validated :: others)

/-- The second phase: reservations. -/
def reserveOrders (userId : UserId) :
    State → List Submission → State × List Submission
  | desk, [] => (desk, [])
  | desk, order :: rest =>
    match desk.reserveAndFreeze arith userId order.details.initialMarginAtoms
        (config.quoteAsset order.sent.symbol)
        (marginUsdtAtoms 100 order.details.initialMarginAtoms) with
    | (desk, .error _) => reserveOrders userId desk rest
    | (desk, .ok ()) =>
      let (desk, others) :=
        reserveOrders userId (desk.notePending order.sent.clientOrderId order.details) rest
      (desk, order :: others)

/-- `ClientMsg::PlaceOrders`: at most forty orders.  When the queue is full the
reservations stay. -/
def placeOrders (userId : UserId)
    (orders : List (Option Int × PlaceRequest)) : State × Reply :=
  if isUserOwnedByDesk userId desk.deskId = false then
    (desk, .rejected "wrong counter shard")
  else
    let (desk, validated) := desk.validateOrders arith config userId (orders.take 40)
    let (desk, orders) := desk.reserveOrders arith config userId validated
    if orders = [] then (desk, .submitted [])
    else if desk.aeronCmdFull config then
      (desk, .rejected "system busy — aeron command queue full")
    else (desk.pushCmd (.batchNewOrder (orders.map (·.sent))), .submitted orders)

/-! ## REST -/

/-- The asset and amount that a REST order freezes. -/
def restFreeze (request : PlaceRequest) (freezePrice : Int) :
    Except String (Asset × Int) :=
  match request.side with
  | .buy =>
    if freezePrice > 0 then
      .ok (config.quoteAsset request.symbol,
        (config.rules request.symbol).quoteAtoms freezePrice request.quantityLots)
    else .error "Unable to determine buy reservation price"
  | .sell =>
    .ok (config.baseAsset request.symbol,
      (config.rules request.symbol).baseAtoms request.quantityLots)

def publishRestOrderUpsert (orderId : OrderId) (request : PlaceRequest)
    (freezePrice : Int) (asset : Asset) : State :=
  (desk.publishFrame
    (.orderUpsert
      { id := orderId
        userId := request.userId
        symbol := request.symbol
        side := request.side
        price := request.price.getD 0
        qty := request.quantityLots
        filled := 0
        status := .trading
        freezePrice := freezePrice })).publishAccount request.userId asset

/-- A REST order with frozen funds goes to the send thread. -/
def submitRest (request : PlaceRequest) (shape : Option Int)
    (freezePrice : Int) (asset : Asset) : State × Reply :=
  let orderId := desk.nextOrderId
  let sent := engineRequest request orderId shape desk.deskId request.reduceOnly
  let details := orderMetaOf request freezePrice 0
  let desk :=
    (desk.takeOrderId.publishRestOrderUpsert orderId request freezePrice asset).notePending
      orderId details
  if desk.aeronCmdFull config then (desk, .rejected "Aeron channel closed")
  else
    ({ desk.pushCmd (.newOrder sent) with
      pendingOrders := orderId :: desk.pendingOrders },
      .submitted [⟨sent, details⟩])

/-- `handle_place_order` in front of the exchange.  No margin is reserved. -/
def handlePlaceOrder (bestOpposing : Option Int) (request : PlaceRequest) :
    State × Reply :=
  if isUserOwnedByDesk request.userId desk.deskId = false then
    (desk, .rejected "wrong counter shard")
  else if request.reduceOnly = false ∧ request.symbol ∈ desk.haltedSymbols then
    (desk, .rejected "trading halted for this symbol")
  else
    match normalizeOrderShape (config.rules request.symbol) request with
    | .error reason => (desk, .rejected reason)
    | .ok shape =>
      let freezePrice := freezePriceOf request bestOpposing
      match restFreeze config request freezePrice with
      | .error reason => (desk, .rejected reason)
      | .ok (asset, amount) =>
        match tryFreezeCache desk.accountCache request.userId asset amount with
        | none => (desk, .rejected "Insufficient balance")
        | some cache =>
          { desk with accountCache := cache }.submitRest config request shape freezePrice asset

/-! ## Forwarded orders -/

/-- The checks of the desk that owns the user, up to the reservation. -/
def checkForwarded (request : NewOrderRequest) : Except String Unit :=
  let rules := config.rules request.symbol
  match desk.risk.checkPositionLimit request.participantId request.symbol
      request.quantityLots rules.maxPositionLots with
  | .error reason => .error reason
  | .ok () =>
    match desk.risk.checkSymbolOiLimit request.symbol request.quantityLots
        rules.maxSymbolOiLots with
    | .error reason => .error reason
    | .ok () =>
      if request.reduceOnly = false ∧ request.symbol ∈ desk.haltedSymbols then
        .error "trading halted for this symbol"
      else
        match (if request.reduceOnly then
            (desk.risk.checkReduceOnly request.participantId request.symbol
              (sideCode request.side) request.quantityLots).map fun _ => ()
          else .ok ()) with
        | .error reason => .error reason
        | .ok () =>
          desk.risk.checkLeverageTier arith request.participantId request.symbol
            (calcNotionalAtoms arith request.priceTicks request.quantityLots
              rules.notionalScale) rules.notionalScale config.riskTiers rules.defaultLeverage

/-- `CounterForwardMsg::NewOrder` at the desk that owns the user; `published`
says whether the order could be published. -/
def receiveForwardedOrder (published : Bool) (ingressDeskId : Nat)
    (request : NewOrderRequest) (details : OrderMeta) : State × Reply :=
  let userId := request.participantId
  let margin := details.initialMarginAtoms
  let asset := config.quoteAsset request.symbol
  let amount := marginUsdtAtoms 100000000 margin
  match desk.checkForwarded arith config request with
  | .error reason => (desk, .rejected reason)
  | .ok () =>
    match desk.reserveAndFreeze arith userId margin asset amount with
    | (desk, .error reason) => (desk, .rejected reason)
    | (desk, .ok ()) =>
      if published && decide (request.symbol ∈ config.validSymbols) then
        let details := { details with liqPriceTicks := 0 }
        let desk :=
          (desk.rememberRuntimeOrder request.clientOrderId
            (.remembered userId details.freezePrice details.qty request.side
              request.symbol margin)).notePending request.clientOrderId details
        ({ desk with
          forwardOrigin := desk.forwardOrigin.insert request.clientOrderId ingressDeskId },
          .submitted [⟨request, details⟩])
      else
        ({ desk with
          pendingMeta := desk.pendingMeta.erase request.clientOrderId
          forwardOrigin := desk.forwardOrigin.erase request.clientOrderId
          orderMeta := desk.orderMeta.erase request.clientOrderId
          risk := desk.risk.releaseOrderMargin arith userId margin
          accountCache := releaseCacheFrozen desk.accountCache userId asset amount },
          .rejected (if published then "No engine for symbol" else "system busy"))

/-! ## Triggers and liquidations -/

variable (trigger : FiredTrigger)

/-- `exec_ticks`: five percent through the mark for a market trigger. -/
def execTicks : Except String Int :=
  let market : Except String Int :=
    let mark := (desk.risk.markPrices.lookup trigger.symbol).getD 0
    if mark ≤ 0 then .error "no mark"
    else
      match trigger.side with
      | .buy => .ok (arith.i64 (mark + mark.tdiv 20))
      | .sell => .ok (arith.i64 (mark - mark.tdiv 20))
  match trigger.isMarket, trigger.priceTicks with
  | false, some price => .ok price
  | _, _ => market

/-- The margin account of a user the risk engine has not seen yet. -/
def ensureAccount (userId : UserId) (usdtBalanceAtoms : Int) : State :=
  match desk.risk.accounts.lookup userId with
  | some _ => desk
  | none => { desk with risk := desk.risk.initializeAccount userId usdtBalanceAtoms }

/-- The request to the engine for a fired trigger. -/
def triggerRequest (execTicks : Int) :
    NewOrderRequest where
  clientOrderId := trigger.orderId
  participantId := trigger.userId
  priceTicks := execTicks
  quantityLots := trigger.qtyLots
  side := trigger.side
  timeInForce := if trigger.isMarket then .ioc else .gtc
  responseStreamId := desk.deskId
  reduceOnly := false
  symbol := trigger.symbol

/-- The metadata of a fired trigger. -/
def triggerMeta (execTicks margin : Int) : OrderMeta where
  userId := trigger.userId
  symbol := trigger.symbol
  side := trigger.side
  price := some execTicks
  qty := trigger.qtyLots
  freezePrice := 0
  initialMarginAtoms := margin
  liqPriceTicks := 0

/-- A trigger with reserved margin goes to the priority queue.  When the queue is
full everything stays as it is, for the recovery after a restart. -/
def submitTrigger (execTicks margin : Int) :
    State × Reply :=
  if trigger.flipped && trigger.inserted then
    let sent := desk.triggerRequest trigger execTicks
    let details := triggerMeta trigger execTicks margin
    let desk :=
      (desk.notePending trigger.orderId details).rememberRuntimeOrder trigger.orderId
        (.remembered trigger.userId 0 trigger.qtyLots trigger.side trigger.symbol margin)
    if desk.liqCmd.length ≥ config.liqCmdCap then (desk, .rejected "engine queue full")
    else (desk.pushLiqCmd (.newOrder sent), .submitted [⟨sent, details⟩])
  else
    ({ desk with risk := desk.risk.releaseOrderMargin arith trigger.userId margin },
      .rejected "trigger not fired")

def injectTriggerOrder : State × Reply :=
  match desk.execTicks arith trigger with
  | .error reason => (desk, .rejected reason)
  | .ok execTicks =>
    if execTicks ≤ 0 then (desk, .rejected "no price")
    else
      let margin := initialMarginAtoms arith config trigger.symbol execTicks trigger.qtyLots
      let desk := desk.ensureAccount trigger.userId trigger.usdtBalanceAtoms
      match desk.risk.checkAndReserveMargin arith trigger.userId margin with
      | (risk, .error _) => ({ desk with risk := risk }, .rejected "insufficient margin")
      | (risk, .ok _) =>
        { desk with risk := risk }.submitTrigger arith config trigger execTicks margin

def closingSide : PositionSide → Side
  | .long => .sell
  | .short => .buy

/-- The margin in the metadata of a liquidation order, at the mark price. -/
def liquidationMarginAtoms (symbol : Symbol) (trancheLots : Int) : Int :=
  let markTicks := (desk.risk.markPrices.lookup symbol).getD 0
  calcInitialMarginAtoms
    (if markTicks > 0 then
      calcNotionalAtoms arith markTicks trancheLots (config.rules symbol).notionalScale
    else 0)
    (config.rules symbol).defaultLeverage

/-- The liquidation loop of the risk tick.  Nothing is reserved, but the
metadata carries a margin. -/
def liquidate (event : Liquidation) : State × Reply :=
  if event.liqPriceTicks = 0 then (desk, .rejected "zero liq_price_ticks")
  else
    let orderId := desk.nextOrderId
    let side := closingSide event.side
    let trancheLots := liquidationTrancheLots arith event.qtyLots config.liqTrancheBps
    let margin := desk.liquidationMarginAtoms arith config event.symbol trancheLots
    let sent : NewOrderRequest :=
      { clientOrderId := orderId
        participantId := event.userId
        priceTicks := event.liqPriceTicks
        quantityLots := trancheLots
        side := side
        timeInForce := .ioc
        responseStreamId := desk.deskId
        reduceOnly := false
        symbol := event.symbol }
    let details : OrderMeta :=
      { userId := event.userId
        symbol := event.symbol
        side := side
        price := none
        qty := trancheLots
        freezePrice := 0
        initialMarginAtoms := margin
        liqPriceTicks := event.liqPriceTicks }
    let desk :=
      { desk with
        risk := desk.risk.setAccountStatus event.userId .liquidating
        }.takeOrderId.notePending orderId details
    if desk.liqCmd.length ≥ config.liqCmdCap then
      ({ desk with pendingMeta := desk.pendingMeta.erase orderId }, .rejected "ring full")
    else (desk.pushLiqCmd (.newOrder sent), .submitted [⟨sent, details⟩])

/-! ## The send thread -/

/-- Where a cancel is published: to the engine of the order's symbol, or to all
of them. -/
def routeCancel (request : CancelOrderRequest) :
    List (Symbol × InboundMsg) :=
  let everywhere := config.validSymbols.map fun symbol => (symbol, .cancelOrder request)
  match desk.orderMeta.lookup request.orderId with
  | none => everywhere
  | some details =>
    if details.symbol ∈ config.validSymbols then
      [(details.symbol, .cancelOrder request)]
    else everywhere

/-- The preliminary metadata of an order that is sent. -/
def preliminary (request : NewOrderRequest) : OrderRuntimeMeta :=
  .remembered request.participantId
    (match request.side with | .buy => request.priceTicks | .sell => 0)
    request.quantityLots request.side request.symbol 0

/-- `AeronCmd::NewOrder` of the command queue. -/
def sendOrder (request : NewOrderRequest) :
    State × List (Symbol × InboundMsg) :=
  let desk := desk.rememberRuntimeOrder request.clientOrderId (preliminary request)
  if request.symbol ∈ config.validSymbols then
    (desk, [(request.symbol, .newOrder request)])
  else
    ({ desk with
      pendingMeta := desk.pendingMeta.erase request.clientOrderId
      orderMeta := desk.orderMeta.erase request.clientOrderId }, [])

/-- One command of the queue. -/
def sendCmd : AeronCmd → State × List (Symbol × InboundMsg)
  | .newOrder request => desk.sendOrder config request
  | .cancel request => (desk, desk.routeCancel config request)
  | .batchCancel requests => (desk, requests.flatMap (desk.routeCancel config))
  | .batchNewOrder requests =>
    (requests.foldl (fun desk request =>
      desk.rememberRuntimeOrder request.clientOrderId (preliminary request)) desk,
      (requests.filter fun request => request.symbol ∈ config.validSymbols).map
        fun request => (request.symbol, .newOrder request))

/-- One command of the priority queue, which holds new orders only. -/
def sendLiqCmd : AeronCmd → State × List (Symbol × InboundMsg)
  | .newOrder request =>
    let liqTicks := ((desk.pendingMeta.lookup request.clientOrderId).map (·.liqPriceTicks)).getD 0
    (desk.rememberRuntimeOrder request.clientOrderId
      { OrderRuntimeMeta.remembered request.participantId 0 request.quantityLots
          request.side request.symbol 0 with liqPriceTicks := liqTicks },
      if request.symbol ∈ config.validSymbols then
        [(request.symbol, .newOrder request)]
      else [])
  | _ => (desk, [])

/-- The send thread takes one command, of the priority queue if it has one. -/
def send : State × List (Symbol × InboundMsg) :=
  match desk.liqCmd, desk.aeronCmd with
  | command :: rest, _ => { desk with liqCmd := rest }.sendLiqCmd config command
  | [], command :: rest => { desk with aeronCmd := rest }.sendCmd config command
  | [], [] => (desk, [])

end State
end
end LightningX.Desk
