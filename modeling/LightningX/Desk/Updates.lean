import LightningX.Desk.Entry

/-!
# Order updates and trades

The two receive threads of `bin/desk_server.rs`.  One handles the order updates
of the exchange and gathers its database work in batches; the other settles
trades.  What they ask of the risk engine is listed first, as `RiskCall`s with
the order they are made for, and then carried out.
-/

namespace LightningX.Desk

open Matching (Side)
open Risk Transport

/-- A call of the risk engine by a receive thread. -/
inductive RiskCall
  | release (userId : UserId) (initialMarginAtoms : Int)
  | rearm (userId : UserId)
  | fill (report : Fill)
  | fee (userId : UserId) (feeAtoms : Int)
  deriving DecidableEq, Repr

section

variable (arith : Arithmetic) (config : Config)

/-- Carry out a call.  A liquidation order that failed is to be retried. -/
def RiskCall.apply (engine : RiskEngine) : RiskCall → RiskEngine
  | .release userId amount => engine.releaseOrderMargin arith userId amount
  | .rearm userId => engine.setAccountStatusIf userId .liquidating .liquidationPending
  | .fill report => engine.onFill arith report
  | .fee userId amount => engine.chargeFee arith userId amount

/-- The arguments of `on_fill`. -/
def fillOf (userId : UserId) (symbol : Symbol) (side : Side)
    (priceTicks qtyLots liqPriceTicks : Int) : Fill where
  userId := userId
  symbol := symbol
  orderSide := sideCode side
  priceTicks := priceTicks
  qtyLots := qtyLots
  marginAtoms :=
    if liqPriceTicks ≠ 0 then 0
    else initialMarginAtoms arith config symbol priceTicks qtyLots
  notionalScale := (config.rules symbol).notionalScale
  leverage := (config.rules symbol).defaultLeverage
  maintenanceRateBps := (config.rules symbol).maintenanceRateBps
  liqPriceTicks := liqPriceTicks

/-- The fee of a fill. -/
def feeOf (symbol : Symbol) (priceTicks qtyLots feeBps : Int) : Int :=
  feeAtoms arith
    (calcNotionalAtoms arith priceTicks qtyLots (config.rules symbol).notionalScale) feeBps

variable (update : OrderUpdateMsg)

/-- `lookup_id`: a rejection carries no order identifier. -/
def lookupId : OrderId :=
  if update.kind = .rejected then update.clientOrderId else update.orderId

/-- The order is over. -/
def terminal : Bool :=
  decide (update.kind = .filled ∨ update.kind = .cancelled ∨ update.kind = .rejected)

def reportsFill : Bool :=
  decide (update.kind = .filled ∨ update.kind = .partialFill)

/-- Calls that take back what an order reserved. -/
def releaseCalls (userId : UserId) (margin liqPriceTicks : Int) : List RiskCall :=
  (if margin > 0 then [.release userId margin] else []) ++
    if liqPriceTicks ≠ 0 then [.rearm userId] else []

/-- Calls for an update that ends an order without a fill. -/
def closingCalls (pending : Option OrderMeta)
    (runtime : Option OrderRuntimeMeta) : List RiskCall :=
  match update.kind, pending, runtime with
  | .rejected, some details, _ =>
    releaseCalls details.userId details.initialMarginAtoms details.liqPriceTicks
  | .cancelled, some details, _ =>
    releaseCalls details.userId details.initialMarginAtoms details.liqPriceTicks
  | .cancelled, none, some details => releaseCalls details.userId details.initialMarginAtoms 0
  | _, _, _ => []

def takerCalls (runtime : Option OrderRuntimeMeta) :
    List RiskCall :=
  match runtime with
  | none => []
  | some details =>
    if reportsFill update && decide (update.fillQty > 0) then
      .fill (fillOf arith config details.userId details.symbol details.side
          update.fillPrice update.fillQty details.liqPriceTicks) ::
        if details.liqPriceTicks = 0 then
          [.fee details.userId
            (feeOf arith config details.symbol update.fillPrice update.fillQty
              (config.takerFeeBps details.symbol))]
        else []
    else []

/-- The metadata of a live order from that of a pending one. -/
def OrderMeta.live (details : OrderMeta) : OrderRuntimeMeta :=
  { OrderRuntimeMeta.remembered details.userId details.freezePrice details.qty
      details.side details.symbol details.initialMarginAtoms with
    liqPriceTicks := details.liqPriceTicks }

namespace State

variable (desk : State)

/-- `owned`: the update is about an order of this desk. -/
def owned (update : OrderUpdateMsg) : Bool :=
  decide (update.participantId ∈ desk.userTx) ||
    decide (lookupId update ∈ desk.pendingOrders) ||
    (desk.pendingMeta.lookup (lookupId update)).isSome ||
    (desk.pendingMeta.lookup update.clientOrderId).isSome ||
    (desk.forwardOrigin.lookup (lookupId update)).isSome ||
    (desk.forwardOrigin.lookup update.clientOrderId).isSome

def wsMeta (update : OrderUpdateMsg) : Option OrderMeta :=
  (desk.pendingMeta.lookup (lookupId update)).or (desk.pendingMeta.lookup update.clientOrderId)

/-- `pending_meta` without the metadata of the update. -/
def dropPending (update : OrderUpdateMsg) : KeyedMap OrderId OrderMeta :=
  if (desk.pendingMeta.lookup (lookupId update)).isSome then
    desk.pendingMeta.erase (lookupId update)
  else desk.pendingMeta.erase update.clientOrderId

/-- An accepted order is known by its engine identifier from now on. -/
def noteAccepted (update : OrderUpdateMsg) : State :=
  if update.kind = .accepted then
    let desk := desk.remapRuntimeOrderId update.clientOrderId update.orderId
    match desk.forwardOrigin.lookup update.clientOrderId with
    | none => desk
    | some ingress =>
      { desk with
        forwardOrigin :=
          (desk.forwardOrigin.erase update.clientOrderId).insert update.orderId ingress
        publicToEngine := desk.publicToEngine.insert update.clientOrderId update.orderId
        engineToPublic := desk.engineToPublic.insert update.orderId update.clientOrderId }
  else desk

/-- Metadata of a pending order becomes metadata of a live order. -/
def register (update : OrderUpdateMsg) : State :=
  let desk :=
    { desk with pendingOrders := desk.pendingOrders.erase (lookupId update)
      : State }.noteAccepted update
  let live := { desk with pendingMeta := desk.dropPending update : State }
  match desk.wsMeta update with
  | none => live
  | some details =>
    if update.kind = .rejected then live
    else
      live.rememberRuntimeOrder update.orderId details.live

/-- What the receive thread asks of the risk engine for an update. -/
def updateCalls (update : OrderUpdateMsg) : List RiskCall :=
  let runtime := (desk.register update).orderMeta.lookup update.orderId
  closingCalls update (desk.wsMeta update) runtime ++ takerCalls arith config update runtime

/-- `DbCmd::BatchUpsertOrder`.  Balances are published once for each account. -/
def flushAccepted : State :=
  let accounts :=
    (desk.acceptedBatch.map fun row =>
      (row.userId,
        match row.side with
        | .buy => config.quoteAsset row.symbol
        | .sell => config.baseAsset row.symbol)).dedup
  let published := accounts.foldl (fun desk account => desk.publishAccount account.1 account.2) desk
  { published with
    frames := published.frames ++ desk.acceptedBatch.map .orderUpsert
    acceptedBatch := [] }

/-- `DbCmd::BatchDeleteOrder`. -/
def flushDeletes : State :=
  { desk with
    frames := desk.frames ++ desk.deleteBatch.map .orderDelete
    deleteBatch := [] }

/-- The account a cancelled order gets funds back on, if it gets any. -/
def releaseKey (entry : CancelReleaseEntry) : Option (UserId × Asset) :=
  if entry.releaseAmount ≤ 0 ∨ entry.userId = 0 then none
  else entry.asset.map fun asset => (entry.userId, asset)

/-- Funds that a batch of cancelled orders gives back on an account. -/
def releaseTotal (entries : List CancelReleaseEntry) (account : UserId × Asset) : Int :=
  ((entries.filter fun entry => releaseKey entry = some account).map (·.releaseAmount)).sum

/-- Give funds back on an account and publish its balance. -/
def releaseFunds (userId : UserId) (asset : Asset) (amountAtoms : Int) :
    State :=
  if InI64 amountAtoms then
    { desk with
      accountCache := releaseCacheFrozen desk.accountCache userId asset amountAtoms
      : State }.publishAccount userId asset
  else desk

/-- `DbCmd::BatchCancelConfirmed`. -/
def flushCancels : State :=
  let entries := desk.cancelBatch
  let released :=
    (entries.filterMap releaseKey).dedup.foldl (fun desk account =>
      desk.releaseFunds account.1 account.2 (releaseTotal entries account)) desk
  { released with
    frames := released.frames ++ entries.map fun entry => .orderDelete entry.id
    cancelBatch := [] }

/-- The end of a burst of updates. -/
def flush : State :=
  ((desk.flushAccepted config).flushDeletes).flushCancels

/-- `DbCmd::ReleaseReservation`. -/
def releaseReservation (details : OrderMeta) : State :=
  let rules := config.rules details.symbol
  let (asset, amount) :=
    match details.side with
    | .buy => (config.quoteAsset details.symbol, rules.quoteAtoms details.freezePrice details.qty)
    | .sell => (config.baseAsset details.symbol, rules.baseAtoms details.qty)
  if amount ≤ 0 then desk else desk.releaseFunds details.userId asset amount

/-- The cached funds of a rejected order: the margin divided by a hundred as
whole units of the quote asset, or what a REST order froze. -/
def releaseRejected (details : OrderMeta) : State :=
  let rules := config.rules details.symbol
  let (asset, amount) :=
    if details.initialMarginAtoms > 0 then
      (config.quoteAsset details.symbol, marginUsdtAtoms 100 details.initialMarginAtoms)
    else
      match details.side with
      | .buy => (config.quoteAsset details.symbol, rules.quoteAtoms details.freezePrice details.qty)
      | .sell => (config.baseAsset details.symbol, rules.baseAtoms details.qty)
  { desk with
    accountCache := releaseCacheFrozen desk.accountCache details.userId asset amount }

/-- The entry of a cancelled live order. -/
def cancelEntry (orderId : OrderId) : Option OrderRuntimeMeta → CancelReleaseEntry
  | none => { id := orderId, userId := 0, asset := none, releaseAmount := 0 }
  | some details =>
    let releaseQty := max (details.quantity - details.filled) 0
    let rules := config.rules details.symbol
    if releaseQty ≤ 0 then
      { id := orderId, userId := details.userId, asset := none, releaseAmount := 0 }
    else
      { id := orderId
        userId := details.userId
        asset :=
          some (match details.side with
            | .buy => config.quoteAsset details.symbol
            | .sell => config.baseAsset details.symbol)
        releaseAmount :=
          match details.side with
          | .buy => rules.quoteAtoms details.freezePrice releaseQty
          | .sell => rules.baseAtoms releaseQty }

/-- Batches hold at most this many entries. -/
def batchSize : Nat := 64

def batchAccepted (row : OrderRow) : State :=
  let desk := if desk.acceptedBatch.length ≥ batchSize then desk.flushAccepted config else desk
  { desk with acceptedBatch := desk.acceptedBatch ++ [row] }

def batchDelete (orderId : OrderId) : State :=
  let desk := if desk.deleteBatch.length ≥ batchSize then desk.flushDeletes else desk
  { desk with deleteBatch := desk.deleteBatch ++ [orderId] }

def batchCancel (entry : CancelReleaseEntry) : State :=
  let desk := if desk.cancelBatch.length ≥ batchSize then desk.flushCancels else desk
  { desk with cancelBatch := desk.cancelBatch ++ [entry] }

/-- The database work of an update for an order that was still pending. -/
def bookPending (update : OrderUpdateMsg) (details : OrderMeta) : State :=
  match update.kind with
  | .accepted =>
    desk.batchAccepted config
      { id := update.orderId
        userId := details.userId
        symbol := details.symbol
        side := details.side
        price := details.price.getD 0
        qty := details.qty
        filled := 0
        status := .pending
        freezePrice := details.freezePrice }
  | .partialFill => desk.publishFrame (.orderFillUpdate update.orderId update.fillQty .trading)
  | .rejected => desk.releaseRejected config details
  | .cancelled => desk.releaseReservation config details
  | .filled => desk

/-- The database work of an update for a live order. -/
def bookLive (update : OrderUpdateMsg) : State :=
  match update.kind with
  | .cancelled =>
    desk.batchCancel (cancelEntry config update.orderId (desk.orderMeta.lookup update.orderId))
  | .filled => desk.batchDelete update.orderId
  | .rejected => desk.batchDelete update.orderId
  | kind =>
    desk.publishFrame (.orderFillUpdate update.orderId update.fillQty (dbStatusFromUpdateKind kind))

/-- The database work of an update. -/
def bookUpdate (update : OrderUpdateMsg) :
    Option OrderMeta → State
  | some details => desk.bookPending config update details
  | none => desk.bookLive config update

/-- An order that is over is forgotten. -/
def forget (update : OrderUpdateMsg) : State :=
  let byEngine := desk.engineToPublic.lookup update.orderId
  let engineToPublic := desk.engineToPublic.erase update.orderId
  let publicToEngine :=
    match byEngine with
    | none => desk.publicToEngine
    | some publicId => desk.publicToEngine.erase publicId
  let byClient := publicToEngine.lookup update.clientOrderId
  { desk with
    forwardOrigin := (desk.forwardOrigin.erase update.orderId).erase update.clientOrderId
    engineToPublic :=
      match byClient with
      | none => engineToPublic
      | some engineId => engineToPublic.erase engineId
    publicToEngine := publicToEngine.erase update.clientOrderId
    }.removeRuntimeOrder update.orderId update.clientOrderId

def onOrderUpdate (update : OrderUpdateMsg) : State :=
  if desk.owned update = false then desk
  else
    let calls := desk.updateCalls arith config update
    let pending := desk.wsMeta update
    let desk := desk.register update
    let desk :=
      { desk with risk := calls.foldl (RiskCall.apply arith) desk.risk
        : State }.bookUpdate config update pending
    if terminal update then desk.forget update else desk

/-- `SettleTradeEntry`: a trade with the users of its orders, zero if unknown. -/
structure SettleTradeEntry where
  trade : TradeNotification
  takerUid : UserId
  makerUid : UserId
  deriving DecidableEq, Repr

def settleEntry (trade : TradeNotification) : SettleTradeEntry where
  trade := trade
  takerUid := desk.runtimeUserId trade.takerOrderId
  makerUid := desk.runtimeUserId trade.makerOrderId

/-- Calls for the maker of a trade; makers are never the liquidation order. -/
def makerCalls (entry : SettleTradeEntry) : List RiskCall :=
  if entry.makerUid = 0 ∨ entry.trade.quantity ≤ 0 then []
  else
    [.fill (fillOf arith config entry.makerUid entry.trade.symbol entry.trade.side.opposite
        entry.trade.price entry.trade.quantity 0),
      .fee entry.makerUid
        (feeOf arith config entry.trade.symbol entry.trade.price entry.trade.quantity
          (config.makerFeeBps entry.trade.symbol))]

/-- Changes of balances and frozen funds by a trade, if its amounts fit. -/
def tradeDeltas (entry : SettleTradeEntry) :
    List ((UserId × Asset) × (Int × Int)) :=
  let trade := entry.trade
  let rules := config.rules trade.symbol
  let cost := rules.quoteAtoms trade.price trade.quantity
  let qty := rules.baseAtoms trade.quantity
  let base := config.baseAsset trade.symbol
  let quote := config.quoteAsset trade.symbol
  let (buyer, seller) :=
    match trade.side with
    | .buy => (entry.takerUid, entry.makerUid)
    | .sell => (entry.makerUid, entry.takerUid)
  if InI64 cost ∧ InI64 qty then
    [((buyer, quote), (-cost, cost)), ((buyer, base), (qty, 0)),
      ((seller, base), (-qty, qty)), ((seller, quote), (cost, 0))]
  else []

def netDelta (deltas : List ((UserId × Asset) × (Int × Int))) (account : UserId × Asset) :
    Int × Int :=
  let own := deltas.filter fun delta => delta.1 = account
  ((own.map (·.2.1)).sum, (own.map (·.2.2)).sum)

/-- Apply net changes to the cached balances. -/
def applyDeltas (cache : AccountCache) (deltas : List ((UserId × Asset) × (Int × Int))) :
    AccountCache :=
  (deltas.map (·.1)).dedup.foldl (fun cache account =>
    let (balanceAtoms, frozenReleaseAtoms) := netDelta deltas account
    cache.insert account
      (((cache.lookup account).getD ⟨0, 0⟩).applyAtomsDelta balanceAtoms frozenReleaseAtoms)) cache

/-- Trades of which both users are known. -/
def resolved (entries : List SettleTradeEntry) : List SettleTradeEntry :=
  entries.filter fun entry => entry.takerUid ≠ 0 ∧ entry.makerUid ≠ 0

/-- `DbCmd::BatchSettleTrade`. -/
def settleEntries (entries : List SettleTradeEntry) : State :=
  let risk := (entries.flatMap (makerCalls arith config)).foldl (RiskCall.apply arith) desk.risk
  let deltas := (resolved entries).flatMap (tradeDeltas config)
  let desk :=
    { desk with
      risk := risk
      accountCache := applyDeltas desk.accountCache deltas
      frames := desk.frames ++ (resolved entries).map fun entry =>
        .orderFillUpdate entry.trade.makerOrderId entry.trade.quantity .trading }
  (deltas.map (·.1)).dedup.foldl (fun desk account => desk.publishAccount account.1 account.2) desk

/-- Trades that are settled as soon as their users are looked up. -/
def settleTrades (trades : List TradeNotification) : State :=
  desk.settleEntries arith config (trades.map desk.settleEntry)

end State
end
end LightningX.Desk
