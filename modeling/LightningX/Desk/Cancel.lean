import LightningX.Desk.Entry

/-!
# Cancels

The ways a cancel enters a desk in front of the exchange: over REST
(`desk/api.rs`), over a WebSocket for one order or for a list of orders
(`desk/ws_handler.rs`), and passed on by another desk (`bin/desk_server.rs`).
Only REST looks the order up in the orders table first.
-/

namespace LightningX.Desk

open Risk Transport

abbrev OrdersTable := KeyedMap OrderId OrderRow

/-- A cancel as a client asks for it. -/
inductive CancelPath
  | handleCancelOrder (orderId : OrderId)
  | cancelOrder (orderId : OrderId)
  | batchCancel (orderIds : List OrderId)
  deriving DecidableEq, Repr

/-- The request to the engine. -/
def cancelRequest (userId : UserId) (stream : Nat) (orderId : OrderId) :
    CancelOrderRequest where
  orderId := orderId
  participantId := userId
  responseStreamId := stream

/-- `SELECT … WHERE id = $1 AND user_id = $2 AND status IN ('PENDING','TRADING')`. -/
def OrdersTable.hasOpen (table : OrdersTable) (userId : UserId) (orderId : OrderId) :
    Bool :=
  ((table.lookup orderId).map fun row =>
    decide (row.userId = userId ∧ (row.status = .pending ∨ row.status = .trading))).getD
    false

/-- What becomes of a cancel: it is refused, waits for the send thread or waits
for the desk that owns the user. -/
inductive CancelReply
  | refused (reason : String)
  | submitted
  | passedOn
  deriving DecidableEq, Repr

section

variable (config : Config)

namespace State

variable (desk : State)

/-- Push a cancel for the send thread. -/
def pushCancel (command : AeronCmd) : State × CancelReply :=
  if desk.aeronCmdFull config then (desk, .refused "system busy")
  else (desk.pushCmd command, .submitted)

/-- `handle_cancel_order` in front of the exchange. -/
def handleCancelOrder (table : OrdersTable) (userId : UserId)
    (orderId : OrderId) : State × CancelReply :=
  if isUserOwnedByDesk userId desk.deskId = false then
    (desk, .refused "wrong counter shard")
  else if table.hasOpen userId orderId = false then
    (desk, .refused "Order not found or already closed")
  else desk.pushCancel config (.cancel (cancelRequest userId desk.deskId orderId))

/-- `ClientMsg::CancelOrder`. -/
def cancelOrder (userId : UserId) (orderId : OrderId) :
    State × CancelReply :=
  if isUserOwnedByDesk userId desk.deskId = false then
    if desk.counterForward.length ≥ config.counterForwardCap then
      (desk, .refused "system busy")
    else
      ({ desk with
        counterForward := desk.counterForward ++
          [.cancel desk.deskId (cancelRequest userId (ownerShardForUserId userId) orderId)] },
        .passedOn)
  else desk.pushCancel config (.cancel (cancelRequest userId desk.deskId orderId))

def batchCancelByIds (userId : UserId) (orderIds : List OrderId) :
    State × CancelReply :=
  if isUserOwnedByDesk userId desk.deskId = false then
    (desk, .refused "wrong counter shard")
  else if orderIds = [] then (desk, .submitted)
  else
    desk.pushCancel config (.batchCancel (orderIds.map (cancelRequest userId desk.deskId)))

/-- A cancel of a client. -/
def cancel (table : OrdersTable) (userId : UserId) :
    CancelPath → State × CancelReply
  | .handleCancelOrder orderId => desk.handleCancelOrder config table userId orderId
  | .cancelOrder orderId => desk.cancelOrder config userId orderId
  | .batchCancel orderIds => desk.batchCancelByIds config userId orderIds

end State
end
end LightningX.Desk
