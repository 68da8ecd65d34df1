import LightningX.Lib.Binary64
import LightningX.Risk.Limits
import LightningX.Transport.Messages

/-!
# The state of a desk

What the threads of `bin/desk_server.rs` and its request handlers share: the
risk engine, cached balances, what is known about orders on their way to the
engine and about live orders, and the queues between the threads.  Prices are
counted in ticks, quantities in lots and amounts in atoms.  A margin is frozen
as the `f64` that the source makes of it; other amounts are exact.  Rate limits, authentication, replies to clients and market data are left out.
-/

namespace LightningX.Desk

open Matching (Side TimeInForce)
open Risk Transport

abbrev OrderId := Nat

abbrev Asset := Nat

/-- Encoding of a side in order metadata: buy 0, sell 1. -/
def sideCode : Side → Nat
  | .buy => 0
  | .sell => 1

/-- The fields of `SymbolRules` that a desk reads. -/
structure SymbolRules where
  priceTickAtoms : Int
  quantityStepAtoms : Int
  minNotionalAtoms : Int
  notionalScale : Int
  defaultLeverage : Nat
  maintenanceRateBps : Int
  maxPositionLots : Int
  maxSymbolOiLots : Int
  deriving DecidableEq, Repr

namespace SymbolRules

def btcUsdt : SymbolRules where
  priceTickAtoms := 1000000
  quantityStepAtoms := 100
  minNotionalAtoms := 500000000
  notionalScale := 1000000
  defaultLeverage := 10
  maintenanceRateBps := 50
  maxPositionLots := 0
  maxSymbolOiLots := 0

def ethUsdt : SymbolRules where
  priceTickAtoms := 1000000
  quantityStepAtoms := 10000
  minNotionalAtoms := 500000000
  notionalScale := 10000
  defaultLeverage := 10
  maintenanceRateBps := 50
  maxPositionLots := 0
  maxSymbolOiLots := 0

def solUsdt : SymbolRules where
  priceTickAtoms := 100000
  quantityStepAtoms := 100000
  minNotionalAtoms := 500000000
  notionalScale := 10000
  defaultLeverage := 10
  maintenanceRateBps := 50
  maxPositionLots := 0
  maxSymbolOiLots := 0

def quoteAtoms (rules : SymbolRules) (priceTicks quantityLots : Int) : Int :=
  (priceTicks * rules.priceTickAtoms * (quantityLots * rules.quantityStepAtoms)).tdiv 100000000

def baseAtoms (rules : SymbolRules) (quantityLots : Int) : Int :=
  quantityLots * rules.quantityStepAtoms

end SymbolRules

/-- What a desk is configured with. -/
structure Config where
  rules : Symbol → SymbolRules
  baseAsset : Symbol → Asset
  quoteAsset : Symbol → Asset
  makerFeeBps : Symbol → Int
  takerFeeBps : Symbol → Int
  validSymbols : List Symbol
  riskTiers : List (Int × Nat)
  aeronCmdCap : Nat
  aeronCmdLatencyCap : Option Nat
  liqCmdCap : Nat
  counterForwardCap : Nat
  liqTrancheBps : Int

def Config.Scaled (config : Config) : Prop :=
  ∀ symbol, 0 ≤ (config.rules symbol).notionalScale

/-- The default settings, for `BTC_USDT` alone as symbol 7. -/
def Config.btcUsdt : Config where
  rules := fun _ => .btcUsdt
  baseAsset := fun _ => 1
  quoteAsset := fun _ => 2
  makerFeeBps := fun _ => 1
  takerFeeBps := fun _ => 5
  validSymbols := [7]
  riskTiers := []
  aeronCmdCap := 65536
  aeronCmdLatencyCap := none
  liqCmdCap := 1024
  counterForwardCap := 65536
  liqTrancheBps := 10000

theorem Config.scaled_btcUsdt : Config.btcUsdt.Scaled :=
  fun _ => show 0 ≤ SymbolRules.btcUsdt.notionalScale by decide

structure AccountBalance where
  balanceAtoms : Int
  frozenAtoms : Int
  deriving DecidableEq, Repr

namespace AccountBalance

variable (balance : AccountBalance)

def availableAtoms : Int :=
  balance.balanceAtoms - balance.frozenAtoms

def tryFreezeAtoms (amountAtoms : Int) :
    Option AccountBalance :=
  if amountAtoms ≤ 0 then some balance
  else if balance.availableAtoms ≥ amountAtoms then
    some { balance with frozenAtoms := balance.frozenAtoms + amountAtoms }
  else none

/-- `release_atoms`: the subtraction saturates at the smallest `i64`. -/
def releaseAtoms (amountAtoms : Int) : AccountBalance :=
  if amountAtoms ≤ 0 then balance
  else { balance with frozenAtoms := max (balance.frozenAtoms - amountAtoms) (-2 ^ 63) }

def applyAtomsDelta
    (balanceDeltaAtoms frozenReleaseAtoms : Int) : AccountBalance :=
  { balance with
    balanceAtoms := max (saturatingAdd balance.balanceAtoms balanceDeltaAtoms) 0
    : AccountBalance }.releaseAtoms frozenReleaseAtoms

end AccountBalance

abbrev AccountCache := KeyedMap (UserId × Asset) AccountBalance

/-- A margin as an `f64` of whole units, and the atoms that `from_f64_round` makes of it; the
cast of `2 ^ 63` saturates. -/
def marginUsdtAtoms (divisor marginAtoms : Int) : Int :=
  let marginUsdt := Binary64.nearest (Binary64.nearest marginAtoms / divisor)
  let scaled := Binary64.roundHalfAway (Binary64.nearest (marginUsdt * 100000000))
  if scaled = 2 ^ 63 then 2 ^ 63 - 1 else scaled

/-- `try_freeze_cache`; an amount beyond `i64` is refused. -/
def tryFreezeCache (cache : AccountCache) (userId : UserId) (asset : Asset)
    (amountAtoms : Int) : Option AccountCache :=
  if amountAtoms ≤ 0 then some cache
  else if InI64 amountAtoms then
    (cache.lookup (userId, asset)).bind fun balance =>
      (balance.tryFreezeAtoms amountAtoms).map fun frozen => cache.insert (userId, asset) frozen
  else none

def releaseCacheFrozen (cache : AccountCache) (userId : UserId) (asset : Asset)
    (amountAtoms : Int) : AccountCache :=
  if InI64 amountAtoms then
    KeyedMap.modify (userId, asset) (·.releaseAtoms amountAtoms) cache
  else cache

/-- `OrderMeta`: an order on its way to the engine. -/
structure OrderMeta where
  userId : UserId
  symbol : Symbol
  side : Side
  price : Option Int
  qty : Int
  freezePrice : Int
  initialMarginAtoms : Int
  liqPriceTicks : Int
  deriving DecidableEq, Repr

structure OrderRuntimeMeta where
  userId : UserId
  freezePrice : Int
  quantity : Int
  filled : Int
  side : Side
  symbol : Symbol
  liqPriceTicks : Int
  initialMarginAtoms : Int
  deriving DecidableEq, Repr

def OrderRuntimeMeta.remembered (userId : UserId) (freezePrice quantity : Int)
    (side : Side) (symbol : Symbol) (initialMarginAtoms : Int) : OrderRuntimeMeta where
  userId := userId
  freezePrice := freezePrice
  quantity := quantity
  filled := 0
  side := side
  symbol := symbol
  liqPriceTicks := 0
  initialMarginAtoms := initialMarginAtoms

inductive DbOrderStatus
  | pending
  | trading
  | completed
  | canceled
  | rejected
  deriving DecidableEq, Repr

def dbStatusFromUpdateKind : OrderUpdateKind → DbOrderStatus
  | .accepted => .pending
  | .partialFill => .trading
  | .filled => .completed
  | .cancelled => .canceled
  | .rejected => .rejected

/-- A row of the orders table, and an entry of a batched insert. -/
structure OrderRow where
  id : OrderId
  userId : UserId
  symbol : Symbol
  side : Side
  price : Int
  qty : Int
  filled : Int
  status : DbOrderStatus
  freezePrice : Int
  deriving DecidableEq, Repr

/-- `CancelReleaseEntry`; `none` stands for no asset. -/
structure CancelReleaseEntry where
  id : OrderId
  userId : UserId
  asset : Option Asset
  releaseAmount : Int
  deriving DecidableEq, Repr

/-- The persist frames about orders and balances. -/
inductive PersistFrame
  | orderUpsert (row : OrderRow)
  | orderFillUpdate (id : OrderId) (filled : Int) (status : DbOrderStatus)
  | orderDelete (id : OrderId)
  | accountSet (userId : UserId) (asset : Asset) (balance : AccountBalance)
  deriving DecidableEq, Repr

inductive AeronCmd
  | newOrder (request : NewOrderRequest)
  | cancel (request : CancelOrderRequest)
  | batchCancel (requests : List CancelOrderRequest)
  | batchNewOrder (requests : List NewOrderRequest)
  deriving DecidableEq, Repr

/-- `CounterForwardMsg`: a request passed on to the desk that owns the user. -/
inductive CounterForwardMsg
  | newOrder (ingressDeskId : Nat) (request : NewOrderRequest) (details : OrderMeta)
  | cancel (ingressDeskId : Nat) (request : CancelOrderRequest)
  deriving DecidableEq, Repr

def counterShardCount : Nat := 4

def ownerShardForUserId (userId : UserId) : Nat :=
  if userId ≤ 0 then 0 else userId.toNat % counterShardCount

def isUserOwnedByDesk (userId : UserId) (deskId : Nat) : Bool :=
  decide (ownerShardForUserId userId = deskId % counterShardCount)

/-- The shared state of a desk process. -/
structure State where
  deskId : Nat
  risk : RiskEngine
  accountCache : AccountCache
  pendingMeta : KeyedMap OrderId OrderMeta
  orderMeta : KeyedMap OrderId OrderRuntimeMeta
  pendingOrders : List OrderId
  userTx : List UserId
  forwardOrigin : KeyedMap OrderId Nat
  publicToEngine : KeyedMap OrderId OrderId
  engineToPublic : KeyedMap OrderId OrderId
  nextOrderId : Nat
  haltedSymbols : List Symbol
  aeronCmd : List AeronCmd
  liqCmd : List AeronCmd
  counterForward : List CounterForwardMsg
  acceptedBatch : List OrderRow
  deleteBatch : List OrderId
  cancelBatch : List CancelReleaseEntry
  frames : List PersistFrame
  deriving DecidableEq

namespace State

/-- A desk that just started, with its risk engine and balances. -/
def new (deskId : Nat) (risk : RiskEngine) (accountCache : AccountCache)
    (nextOrderId : Nat) : State where
  deskId := deskId
  risk := risk
  accountCache := accountCache
  pendingMeta := ∅
  orderMeta := ∅
  pendingOrders := []
  userTx := []
  forwardOrigin := ∅
  publicToEngine := ∅
  engineToPublic := ∅
  nextOrderId := nextOrderId
  haltedSymbols := []
  aeronCmd := []
  liqCmd := []
  counterForward := []
  acceptedBatch := []
  deleteBatch := []
  cancelBatch := []
  frames := []

variable (desk : State) (orderId : OrderId)

def rememberRuntimeOrder (details : OrderRuntimeMeta) :
    State :=
  { desk with orderMeta := desk.orderMeta.insert orderId details }

def remapRuntimeOrderId (source target : OrderId) : State :=
  if source ≠ target then
    match desk.orderMeta.lookup source with
    | none => desk
    | some details => { desk with orderMeta := (desk.orderMeta.erase source).insert target details }
  else desk

/-- `runtime_user_id`: zero for an unknown order. -/
def runtimeUserId : UserId :=
  ((desk.orderMeta.lookup orderId).map (·.userId)).getD 0

def removeRuntimeOrder (clientId : OrderId) : State :=
  { desk with orderMeta := (desk.orderMeta.erase orderId).erase clientId }

/-- `next_order_id.fetch_add(1)`. -/
def takeOrderId : State :=
  { desk with nextOrderId := (desk.nextOrderId + 1) % 2 ^ 64 }

def publishFrame (frame : PersistFrame) : State :=
  { desk with frames := desk.frames ++ [frame] }

/-- Publish the cached balance of an account. -/
def publishAccount (userId : UserId) (asset : Asset) : State :=
  match desk.accountCache.lookup (userId, asset) with
  | none => desk
  | some balance => desk.publishFrame (.accountSet userId asset balance)

end State
end LightningX.Desk
