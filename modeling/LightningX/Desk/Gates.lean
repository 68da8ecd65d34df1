import LightningX.Desk.Reservations

/-!
# Admission gates

The desk that owns a user checks an order that another desk passes on against four gates:
the halt of its symbol, the position cap, the open interest cap and the leverage tiers.
The other entry paths leave gates out: REST knows the halt only, a single WebSocket order
the two caps only, and a WebSocket batch none of them.
-/

namespace LightningX.Desk

open Matching (Side TimeInForce)
open Risk Transport Reply Except

/-- The gates of the forwarded path that do not depend on the margin of the user. -/
inductive Gate
  | halt
  | positionCap
  | openInterestCap
  | leverageTier
  deriving DecidableEq, Repr

section

variable (arith : Arithmetic) (config : Config)

/-- The order as the desk of its user gets it from another desk. -/
def PlaceRequest.forwarded (request : PlaceRequest) : NewOrderRequest :=
  engineRequest request 0
    (match normalizeOrderShape (config.rules request.symbol) request with
     | .ok shape => shape
     | .error _ => none)
    0 request.reduceOnly

namespace State

variable {order : NewOrderRequest} {gate : Gate}

def Refuses (desk : State) (order : NewOrderRequest) : Gate → Prop
  | .halt => order.reduceOnly = false ∧ order.symbol ∈ desk.haltedSymbols
  | .positionCap =>
    (desk.risk.checkPositionLimit order.participantId order.symbol order.quantityLots
      (config.rules order.symbol).maxPositionLots).isOk = false
  | .openInterestCap =>
    (desk.risk.checkSymbolOiLimit order.symbol order.quantityLots
      (config.rules order.symbol).maxSymbolOiLots).isOk = false
  | .leverageTier =>
    (desk.risk.checkLeverageTier arith order.participantId order.symbol
      (calcNotionalAtoms arith order.priceTicks order.quantityLots
        (config.rules order.symbol).notionalScale)
      (config.rules order.symbol).notionalScale config.riskTiers
      (config.rules order.symbol).defaultLeverage).isOk = false

instance (desk : State) (order : NewOrderRequest) :
    (gate : Gate) → Decidable (desk.Refuses arith config order gate)
  | .halt => inferInstanceAs (Decidable (_ ∧ _))
  | .positionCap => inferInstanceAs (Decidable (_ = false))
  | .openInterestCap => inferInstanceAs (Decidable (_ = false))
  | .leverageTier => inferInstanceAs (Decidable (_ = false))

/-- What a REST order has to pass besides the halt: its desk, its shape, its funds and the
queue. -/
def RestClears (desk : State) (bestOpposing : Option Int) (request : PlaceRequest) : Prop :=
  isUserOwnedByDesk request.userId desk.deskId = true ∧
    (normalizeOrderShape (config.rules request.symbol) request).isOk = true ∧
    (∃ asset amount,
      restFreeze config request (freezePriceOf request bestOpposing) = .ok (asset, amount) ∧
        (tryFreezeCache desk.accountCache request.userId asset amount).isSome = true) ∧
    desk.aeronCmdFull config = false

/-- What a WebSocket order of a batch has to pass: its desk, its shape, its margin, its
funds and the queue. -/
def BatchClears (desk : State) (bestOpposing : Option Int) (request : PlaceRequest) : Prop :=
  isUserOwnedByDesk request.userId desk.deskId = true ∧
    (∃ shape margin, wsMargin arith config request bestOpposing = .ok (shape, margin) ∧
      (desk.reserveAndFreeze arith request.userId margin (config.quoteAsset request.symbol)
        (marginUsdtAtoms 100 margin)).2 = .ok ()) ∧ desk.aeronCmdFull config = false

/-- What a single WebSocket order has to pass besides the caps. -/
def WsClears (desk : State) (bestOpposing : Option Int) (request : PlaceRequest) : Prop :=
  desk.BatchClears arith config bestOpposing request ∧ desk.queueTooDeep config = false

variable {arith config} {desk : State} {request : PlaceRequest}

theorem checkForwarded_of_refuses (refuses : desk.Refuses arith config order gate) :
    ∃ reason, desk.checkForwarded arith config order = .error reason := by
  simp only [checkForwarded]
  cases position : desk.risk.checkPositionLimit order.participantId order.symbol
      order.quantityLots (config.rules order.symbol).maxPositionLots with
  | error reason => exact ⟨reason, rfl⟩
  | ok =>
    cases openInterest : desk.risk.checkSymbolOiLimit order.symbol order.quantityLots
        (config.rules order.symbol).maxSymbolOiLots with
    | error reason => exact ⟨reason, rfl⟩
    | ok =>
      simp only
      split_ifs with halted
      · exact ⟨_, rfl⟩
      all_goals
        split
        · exact ⟨_, rfl⟩
        · cases gate with
          | halt => exact absurd refuses halted
          | positionCap => simp [Refuses, position, Except.toBool] at refuses
          | openInterestCap => simp [Refuses, openInterest, Except.toBool] at refuses
          | leverageTier =>
            cases tier : desk.risk.checkLeverageTier arith order.participantId
                order.symbol (calcNotionalAtoms arith order.priceTicks
                  order.quantityLots (config.rules order.symbol).notionalScale)
                (config.rules order.symbol).notionalScale config.riskTiers
                (config.rules order.symbol).defaultLeverage with
            | error reason => exact ⟨reason, rfl⟩
            | ok => simp [Refuses, tier, Except.toBool] at refuses

theorem receiveForwardedOrder_of_refuses (refuses : desk.Refuses arith config order gate)
    (published : Bool) (ingressDeskId : Nat) (details : OrderMeta) :
    (desk.receiveForwardedOrder arith config published ingressDeskId order details).2.orders =
      [] := by
  obtain ⟨reason, refused⟩ := checkForwarded_of_refuses refuses
  rw [receiveForwardedOrder]
  simp only [refused]
  rfl

theorem submitRest_submits_iff (shape : Option Int) (freezePrice : Int) (asset : Asset) :
    (desk.submitRest config request shape freezePrice asset).2.orders ≠ [] ↔
      desk.aeronCmdFull config = false := by
  have depth (before : State) :
      (before.publishAccount request.userId asset).aeronCmd = before.aeronCmd := by
    unfold publishAccount
    split <;> rfl
  have same : aeronCmdFull config
      ((desk.takeOrderId.publishRestOrderUpsert desk.nextOrderId request freezePrice
        asset).notePending desk.nextOrderId (orderMetaOf request freezePrice 0)) =
      desk.aeronCmdFull config := by
    simp only [notePending, publishRestOrderUpsert, depth]
    rfl
  simp only [submitRest, same]
  cases desk.aeronCmdFull config <;> simp [orders]

/-- A REST order reaches the engine if its symbol is not halted and nothing else stops it. -/
theorem handlePlaceOrder_submits_iff :
    (desk.handlePlaceOrder config bestOpposing request).2.orders ≠ [] ↔
      ¬ desk.Refuses arith config (request.forwarded config) .halt ∧
        desk.RestClears config bestOpposing request := by
  have halt : desk.Refuses arith config (request.forwarded config) .halt ↔
      request.reduceOnly = false ∧ request.symbol ∈ desk.haltedSymbols := Iff.rfl
  rw [halt]
  simp only [handlePlaceOrder, RestClears]
  by_cases foreign : isUserOwnedByDesk request.userId desk.deskId = false
  · simp [orders, foreign]
  · rw [if_neg foreign]
    have owned : isUserOwnedByDesk request.userId desk.deskId = true := by simpa using foreign
    by_cases halted : request.reduceOnly = false ∧ request.symbol ∈ desk.haltedSymbols
    · simp [orders, halted]
    · rw [if_neg halted]
      cases normalizeOrderShape (config.rules request.symbol) request with
      | error reason => simp [orders, Except.toBool]
      | ok shape =>
        cases restFreeze config request (freezePriceOf request bestOpposing) with
        | error reason => simp [orders]
        | ok frozen =>
          obtain ⟨asset, amount⟩ := frozen
          cases funded :
              tryFreezeCache desk.accountCache request.userId asset amount with
          | none => simp [orders, funded]
          | some cache =>
            simp only [funded]
            rw [submitRest_submits_iff]
            simp [aeronCmdFull, owned, halted, funded, Except.toBool]

/-- A WebSocket order passes its limits when neither cap refuses it. -/
theorem checkLimits_ok_iff :
    desk.checkLimits config request = .ok () ↔
      ¬ desk.Refuses arith config (request.forwarded config) .positionCap ∧
        ¬ desk.Refuses arith config (request.forwarded config) .openInterestCap := by
  simp only [checkLimits, Refuses, PlaceRequest.forwarded, engineRequest]
  cases desk.risk.checkPositionLimit request.userId request.symbol request.quantityLots
      (config.rules request.symbol).maxPositionLots with
  | error reason => simp [Except.toBool]
  | ok =>
    cases desk.risk.checkSymbolOiLimit request.symbol request.quantityLots
        (config.rules request.symbol).maxSymbolOiLots with
    | error reason => simp [Except.toBool]
    | ok => simp [Except.toBool]

theorem submitReserved_submits_iff (shape : Option Int) (freezePrice margin amountAtoms : Int) :
    (desk.submitReserved arith config request shape freezePrice margin
      amountAtoms).2.orders ≠ [] ↔
      desk.aeronCmdFull config = false ∧ desk.queueTooDeep config = false := by
  have full : aeronCmdFull config (desk.takeOrderId.notePending desk.nextOrderId
      (orderMetaOf request freezePrice margin)) = desk.aeronCmdFull config := rfl
  have deep : queueTooDeep config (desk.takeOrderId.notePending desk.nextOrderId
      (orderMetaOf request freezePrice margin)) = desk.queueTooDeep config := rfl
  simp only [submitReserved, full, deep]
  cases desk.aeronCmdFull config <;> cases desk.queueTooDeep config <;>
    simp [orders]

/-- A single WebSocket order reaches the engine if neither cap refuses it and nothing else
stops it. -/
theorem placeOrder_submits_iff :
    (desk.placeOrder arith config bestOpposing request).2.orders ≠ [] ↔
      (¬ desk.Refuses arith config (request.forwarded config) .positionCap ∧
        ¬ desk.Refuses arith config (request.forwarded config) .openInterestCap) ∧
      desk.WsClears arith config bestOpposing request := by
  rw [← checkLimits_ok_iff]
  unfold placeOrder WsClears BatchClears
  cases wsMargin arith config request bestOpposing with
  | error reason => simp [orders]
  | ok checked =>
    obtain ⟨shape, margin⟩ := checked
    by_cases foreign : isUserOwnedByDesk request.userId desk.deskId = false
    · simp only [foreign, forwardOrder]
      split_ifs <;> simp [orders]
    · have owned : isUserOwnedByDesk request.userId desk.deskId = true := by simpa using foreign
      simp only [if_neg foreign]
      cases desk.checkLimits config request with
      | error reason => simp [orders]
      | ok =>
        obtain ⟨reason, risk, refused, -⟩ | ⟨reserved, cache, -, granted⟩ :=
          reserveAndFreeze_cases arith desk request.userId margin
            (config.quoteAsset request.symbol) (marginUsdtAtoms 100 margin)
        · simp [refused, orders]
        · simp only [granted, submitReserved_submits_iff]
          simp [aeronCmdFull, queueTooDeep, owned, granted]

theorem reserveAndFreeze_takeOrderId
    (userId : UserId) (margin : Int) (asset : Asset) (amountAtoms : Int) :
    desk.takeOrderId.reserveAndFreeze arith userId margin asset amountAtoms =
      ((desk.reserveAndFreeze arith userId margin asset amountAtoms).1.takeOrderId,
        (desk.reserveAndFreeze arith userId margin asset amountAtoms).2) := by
  simp only [reserveAndFreeze, takeOrderId]
  cases desk.risk.checkAndReserveMargin arith userId margin with
  | mk risk answer =>
    cases answer with
    | error reason => rfl
    | ok reserved => cases tryFreezeCache desk.accountCache userId asset amountAtoms <;> rfl

/-- A batch of one order reaches the engine if nothing stops the order; no gate is asked. -/
theorem placeOrders_submits_iff :
    (desk.placeOrders arith config request.userId [(bestOpposing, request)]).2.orders ≠ [] ↔
      desk.BatchClears arith config bestOpposing request := by
  unfold placeOrders BatchClears
  by_cases foreign : isUserOwnedByDesk request.userId desk.deskId = false
  · simp [orders, foreign]
  · rw [if_neg foreign]
    simp only [List.take, validateOrders]
    cases wsMargin arith config request bestOpposing with
    | error reason => simp [orders, reserveOrders]
    | ok checked =>
      obtain ⟨shape, margin⟩ := checked
      simp only [reserveOrders, orderMetaOf, engineRequest, reserveAndFreeze_takeOrderId]
      obtain ⟨reason, risk, refused, -⟩ | ⟨reserved, cache, -, granted⟩ :=
        reserveAndFreeze_cases arith desk request.userId margin
          (config.quoteAsset request.symbol) (marginUsdtAtoms 100 margin)
      · simp [refused, orders]
      · simp only [granted]
        rw [if_neg (List.cons_ne_nil _ _)]
        split_ifs with full
        · simp_all [aeronCmdFull, takeOrderId, notePending, orders]
        · simp_all [aeronCmdFull, takeOrderId, notePending, orders]

variable (arith config desk)

/-- Some gate of the forwarded path refuses the order. -/
def Gated (request : PlaceRequest) : Prop :=
  ∃ gate, desk.Refuses arith config (request.forwarded config) gate

/-- An order that a gate refuses reaches the engine over no entry path. -/
def GatesAgree (bestOpposing : Option Int) (request : PlaceRequest) : Prop :=
  desk.Gated arith config request →
    (desk.handlePlaceOrder config bestOpposing request).2.orders = [] ∧
    (desk.placeOrder arith config bestOpposing request).2.orders = [] ∧
    (desk.placeOrders arith config request.userId [(bestOpposing, request)]).2.orders = []

/-- The forwarded path refuses what a gate refuses.  The other paths do so as well exactly
when each of them meets one of the gates that it knows, or something else that stops the
order. -/
theorem gatesAgree_iff (bestOpposing : Option Int) (request : PlaceRequest) (published : Bool)
    (ingressDeskId : Nat) (details : OrderMeta) :
    (desk.Gated arith config request →
      (desk.receiveForwardedOrder arith config published ingressDeskId
        (request.forwarded config) details).2.orders = []) ∧
    (desk.GatesAgree arith config bestOpposing request ↔
      (desk.Gated arith config request →
        (desk.Refuses arith config (request.forwarded config) .halt ∨
          ¬ desk.RestClears config bestOpposing request) ∧
        ((desk.Refuses arith config (request.forwarded config) .positionCap ∨
            desk.Refuses arith config (request.forwarded config) .openInterestCap) ∨
          ¬ desk.WsClears arith config bestOpposing request) ∧
        ¬ desk.BatchClears arith config bestOpposing request)) := by
  have rest := not_congr (@handlePlaceOrder_submits_iff arith config desk request bestOpposing)
  have single := not_congr (@placeOrder_submits_iff arith config desk request bestOpposing)
  have batch := not_congr (@placeOrders_submits_iff arith config desk request bestOpposing)
  rw [not_ne_iff, not_and_or, not_not] at rest
  rw [not_ne_iff, not_and_or, not_and_or, not_not, not_not] at single
  rw [not_ne_iff] at batch
  constructor
  · rintro ⟨gate, refuses⟩
    exact receiveForwardedOrder_of_refuses refuses published ingressDeskId details
  · rw [GatesAgree, rest, single, batch]

end State
end

/-- A desk with one funded user. -/
def State.oneUser : State :=
  .new 0 (.initialized [(4, 1000000000000)])
    ((∅ : AccountCache).insert (4, 2) ⟨1000000000000000, 0⟩) 1

/-- The same desk while the symbol is halted. -/
def State.halted : State :=
  { State.oneUser with haltedSymbols := [7] }

def PlaceRequest.hundredLots : PlaceRequest :=
  ⟨4, 7, .buy, false, .gtc, some 10000000, 100, false⟩

/-- A WebSocket order reaches the engine while its symbol is halted. -/
theorem not_gatesAgree_halted :
    ¬ State.halted.GatesAgree .machine .btcUsdt none .hundredLots := by
  intro agree
  have single :
      (State.halted.placeOrder .machine .btcUsdt none .hundredLots).2.orders ≠ [] := by
    decide +kernel
  exact single (agree ⟨.halt, by decide +kernel⟩).2.1

end LightningX.Desk
