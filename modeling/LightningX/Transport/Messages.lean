import LightningX.Matching.Order

/-!
# Messages between desks and the exchange

The wire messages of `sbe.rs` and `transport/mod.rs`.  Prices and quantities
travel as floating point numbers of whole ticks and lots; here they are the
ticks and lots.  A response stream is named by the desk it belongs to.
Sequence numbers, timestamps and padding are left out.
-/

namespace LightningX.Transport

open Matching (Side TimeInForce)

structure NewOrderRequest where
  clientOrderId : Nat
  participantId : Int
  priceTicks : Int
  quantityLots : Int
  side : Side
  timeInForce : TimeInForce
  responseStreamId : Nat
  reduceOnly : Bool
  symbol : Nat
  deriving DecidableEq, Repr

structure CancelOrderRequest where
  orderId : Nat
  participantId : Int
  responseStreamId : Nat
  deriving DecidableEq, Repr

inductive InboundMsg
  | newOrder (request : NewOrderRequest)
  | cancelOrder (request : CancelOrderRequest)
  deriving DecidableEq, Repr

inductive OrderUpdateKind
  | accepted
  | filled
  | partialFill
  | cancelled
  | rejected
  deriving DecidableEq, Repr

structure OrderUpdateMsg where
  kind : OrderUpdateKind
  rejectReason : Nat
  orderId : Nat
  clientOrderId : Nat
  participantId : Int
  fillPrice : Int
  fillQty : Int
  remainingQty : Int
  deriving DecidableEq, Repr

namespace OrderUpdateMsg

variable (orderId : Nat) (clientOrderId : Nat) (participantId : Int)

def accepted : OrderUpdateMsg where
  kind := .accepted
  rejectReason := 0
  orderId := orderId
  clientOrderId := clientOrderId
  participantId := participantId
  fillPrice := 0
  fillQty := 0
  remainingQty := 0

/-- `OrderUpdateMsg::filled`. -/
def filled (price qty : Int) :
    OrderUpdateMsg where
  kind := .filled
  rejectReason := 0
  orderId := orderId
  clientOrderId := clientOrderId
  participantId := participantId
  fillPrice := price
  fillQty := qty
  remainingQty := 0

/-- `OrderUpdateMsg::partial_fill`. -/
def partialFill
    (price filled remaining : Int) : OrderUpdateMsg where
  kind := .partialFill
  rejectReason := 0
  orderId := orderId
  clientOrderId := clientOrderId
  participantId := participantId
  fillPrice := price
  fillQty := filled
  remainingQty := remaining

/-- `OrderUpdateMsg::cancelled`. -/
def cancelled (cancelledQty : Int) :
    OrderUpdateMsg where
  kind := .cancelled
  rejectReason := 0
  orderId := orderId
  clientOrderId := clientOrderId
  participantId := participantId
  fillPrice := 0
  fillQty := cancelledQty
  remainingQty := 0

/-- `OrderUpdateMsg::rejected`. -/
def rejected (reason : Nat) :
    OrderUpdateMsg where
  kind := .rejected
  rejectReason := reason
  orderId := 0
  clientOrderId := clientOrderId
  participantId := participantId
  fillPrice := 0
  fillQty := 0
  remainingQty := 0

end OrderUpdateMsg

structure TradeNotification where
  takerOrderId : Nat
  makerOrderId : Nat
  price : Int
  quantity : Int
  side : Side
  symbol : Nat
  deriving DecidableEq, Repr

end LightningX.Transport
