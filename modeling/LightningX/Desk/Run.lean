import LightningX.Desk.Cancel
import LightningX.Desk.Updates

/-!
# Runs of a desk

Everything that can happen at a desk, one step after another: orders and
cancels enter, the send thread takes a command, updates and trades arrive, the
risk engine moves marks and deleverages.  Steps are atomic.
-/

namespace LightningX.Desk

open Matching (Side TimeInForce)
open Risk Transport

/-- The ways an order enters a desk. -/
inductive EntryPath
  | handlePlaceOrder (bestOpposing : Option Int) (request : PlaceRequest)
  | placeOrder (bestOpposing : Option Int) (request : PlaceRequest)
  | placeOrders (userId : UserId) (orders : List (Option Int × PlaceRequest))
  | forwarded (published : Bool) (ingressDeskId : Nat) (request : NewOrderRequest)
      (details : OrderMeta)
  | trigger (fired : FiredTrigger)
  | liquidation (event : Liquidation)
  deriving DecidableEq

/-- What happens at a desk. -/
inductive Input
  | entry (path : EntryPath)
  | cancel (table : OrdersTable) (userId : UserId) (path : CancelPath)
  | send
  | update (update : OrderUpdateMsg)
  | flush
  | trades (trades : List TradeNotification)
  | sessions (userTx : List UserId)
  | account (userId : UserId) (usdtBalanceAtoms : Int)
  | markPrice (symbol : Symbol) (newPriceTicks : Int) (order : List UserId)
  | adl (symbol : Symbol) (order : List UserId)

/-- The numbers of a symbol that `run_adl` is given. -/
def SymbolRules.symbolConfig (rules : SymbolRules) : SymbolConfig where
  notionalScale := rules.notionalScale
  leverage := rules.defaultLeverage
  maintenanceRateBps := rules.maintenanceRateBps

/-- A number of identifiers, from the next one on. -/
def upcoming : Nat → OrderId → List OrderId
  | 0, _ => []
  | count + 1, orderId => orderId :: upcoming count ((orderId + 1) % 2 ^ 64)

namespace State

/-- The identifiers an entry may give to orders. -/
def assigned (desk : State) : EntryPath → List OrderId
  | .placeOrders _ _ => upcoming 40 desk.nextOrderId
  | .forwarded _ _ request _ => [request.clientOrderId]
  | .trigger fired => [fired.orderId]
  | _ => [desk.nextOrderId]

section

variable (arith : Arithmetic) (config : Config)

/-- An order enters. -/
def enter (desk : State) : EntryPath → State × Reply
  | .handlePlaceOrder bestOpposing request => desk.handlePlaceOrder config bestOpposing request
  | .placeOrder bestOpposing request => desk.placeOrder arith config bestOpposing request
  | .placeOrders userId orders => desk.placeOrders arith config userId orders
  | .forwarded published ingressDeskId request details =>
    desk.receiveForwardedOrder arith config published ingressDeskId request details
  | .trigger fired => desk.injectTriggerOrder arith config fired
  | .liquidation event => desk.liquidate arith config event

def step (desk : State) : Input → State
  | .entry path => (desk.enter arith config path).1
  | .cancel table userId path => (desk.cancel config table userId path).1
  | .send => (desk.send config).1
  | .update update => desk.onOrderUpdate arith config update
  | .flush => desk.flush config
  | .trades trades => desk.settleTrades arith config trades
  | .sessions userTx => { desk with userTx := userTx }
  | .account userId usdtBalanceAtoms => desk.ensureAccount userId usdtBalanceAtoms
  | .markPrice symbol newPriceTicks order =>
    { desk with
      risk := desk.risk.updateMarkPrice arith symbol newPriceTicks
        (config.rules symbol).notionalScale order }
  | .adl symbol order =>
    { desk with
      risk := (desk.risk.runAdl arith symbol (config.rules symbol).symbolConfig order).1 }

def run (desk : State) (inputs : List Input) : State :=
  inputs.foldl (step arith config) desk

/-- The risk calls for an update; updates of other desks make none. -/
def callsFor (desk : State) (update : OrderUpdateMsg) : List RiskCall :=
  if desk.owned update then desk.updateCalls arith config update else []

def tradeCalls (desk : State) (trade : TradeNotification) : List RiskCall :=
  makerCalls arith config (desk.settleEntry trade)

/-- The risk calls that a receive thread makes in a step. -/
def inputCalls (desk : State) : Input → List RiskCall
  | .update update => desk.callsFor arith config update
  | .trades trades => trades.flatMap (desk.tradeCalls arith config)
  | _ => []

end
end State

/-- The part of a desk that decides about margins. -/
structure Core where
  risk : RiskEngine
  pendingMeta : KeyedMap OrderId OrderMeta
  orderMeta : KeyedMap OrderId OrderRuntimeMeta
  aeronCmd : List AeronCmd
  liqCmd : List AeronCmd

def AeronCmd.newOrders : AeronCmd → List NewOrderRequest
  | .newOrder request => [request]
  | .batchNewOrder requests => requests
  | _ => []

/-- The orders that wait for the send thread. -/
def Core.queued (core : Core) : List NewOrderRequest :=
  (core.liqCmd ++ core.aeronCmd).flatMap (·.newOrders)

namespace State

/-- The part of a desk that decides about margins. -/
def core (desk : State) : Core where
  risk := desk.risk
  pendingMeta := desk.pendingMeta
  orderMeta := desk.orderMeta
  aeronCmd := desk.aeronCmd
  liqCmd := desk.liqCmd

variable {config : Config} {desk : State}

@[simp] theorem core_publishFrame (frame : PersistFrame) :
    (desk.publishFrame frame).core = desk.core := rfl

@[simp] theorem core_publishAccount (userId : UserId) (asset : Asset) :
    (desk.publishAccount userId asset).core = desk.core := by
  unfold publishAccount
  split <;> rfl

@[simp] theorem core_takeOrderId : desk.takeOrderId.core = desk.core := rfl

/-- A loop whose body leaves the core alone does so too. -/
theorem core_foldl {α : Type} {body : State → α → State}
    (keeps : ∀ desk item, (body desk item).core = desk.core) (items : List α) :
    (items.foldl body desk).core = desk.core := by
  induction items generalizing desk with
  | nil => rfl
  | cons item items ih => exact ih.trans (keeps desk item)

@[simp] theorem core_releaseFunds (userId : UserId) (asset : Asset) (amountAtoms : Int) :
    (desk.releaseFunds userId asset amountAtoms).core = desk.core := by
  unfold releaseFunds
  split
  · rw [core_publishAccount]
    rfl
  · rfl

@[simp] theorem core_flushAccepted : (desk.flushAccepted config).core = desk.core :=
  core_foldl (fun _ _ => core_publishAccount _ _) _

@[simp] theorem core_flushDeletes : desk.flushDeletes.core = desk.core := rfl

@[simp] theorem core_flushCancels : desk.flushCancels.core = desk.core :=
  core_foldl (fun _ _ => core_releaseFunds _ _ _) _

@[simp] theorem core_flush : (desk.flush config).core = desk.core := by simp [flush]

@[simp] theorem core_batchAccepted (row : OrderRow) :
    (desk.batchAccepted config row).core = desk.core := by
  unfold batchAccepted
  split
  · exact core_flushAccepted
  · rfl

@[simp] theorem core_batchDelete (orderId : OrderId) :
    (desk.batchDelete orderId).core = desk.core := by
  unfold batchDelete
  split <;> rfl

@[simp] theorem core_batchCancel (entry : CancelReleaseEntry) :
    (desk.batchCancel entry).core = desk.core := by
  unfold batchCancel
  split
  · exact core_flushCancels
  · rfl

@[simp] theorem core_releaseReservation (details : OrderMeta) :
    (desk.releaseReservation config details).core = desk.core := by
  unfold releaseReservation
  cases details.side
  all_goals
    simp only
    split
    · rfl
    · exact core_releaseFunds _ _ _

/-- The database work of an update does not concern margins. -/
@[simp] theorem core_bookUpdate (update : OrderUpdateMsg) (pending : Option OrderMeta) :
    (desk.bookUpdate config update pending).core = desk.core := by
  cases pending with
  | none =>
    show (desk.bookLive config update).core = desk.core
    unfold bookLive
    split <;> simp
  | some details =>
    show (desk.bookPending config update details).core = desk.core
    unfold bookPending
    split
    · simp
    · simp
    · rfl
    · simp
    · rfl

/-- Settling trades is the risk calls for their makers. -/
theorem core_settleEntries (arith : Arithmetic) (config : Config) (desk : State)
    (entries : List SettleTradeEntry) :
    (desk.settleEntries arith config entries).core =
      { desk.core with
        risk := (entries.flatMap (makerCalls arith config)).foldl (RiskCall.apply arith)
          desk.risk } := by
  unfold settleEntries
  rw [core_foldl fun _ _ => core_publishAccount _ _]
  rfl

end State
end LightningX.Desk
