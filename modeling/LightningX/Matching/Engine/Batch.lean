import LightningX.Matching.Engine.Consistency

/-!
# Batches of orders

`place_orders` of `matching/engine.rs` checks all orders of a batch against the
engine as it is and then executes them one after the other.  It stops at the first
order that fails, with the earlier ones executed.
-/

namespace LightningX.Matching.MatchingEngine

/-- The part of `place_order` after its checks, and the loop body of `place_orders`. -/
def handleOrder (engine : MatchingEngine) (order : Order) :
    MatchingEngine × OrderResult PlaceOrderResult :=
  let engine := { engine with affectedMakersBuf := [] }
  if order.isMarket then engine.handleMarketOrder order
  else
    match order.timeInForce with
    | .postOnly => engine.handlePostOnly order
    | .fok => engine.handleFok order
    | .ioc => engine.handleIoc order
    | .gtc => engine.handleGtc order

/-- The first loop of `place_orders`, after some orders of the batch. -/
def checkOrders (engine : MatchingEngine) (earlier : List Order) :
    List Order → OrderResult Unit
  | [] => .ok ()
  | order :: orders =>
    match validateOrder order with
    | .error error => .error error
    | .ok () =>
      if order.id ∈ engine.orders then .error (.duplicateOrderId order.id)
      else if earlier.any fun previous => previous.id == order.id then
        .error (.duplicateOrderId order.id)
      else if !engine.pools.hasSpaceForOrder then .error .orderPoolExhausted
      else engine.checkOrders (earlier ++ [order]) orders

/-- The second loop of `place_orders`. -/
def handleOrders (engine : MatchingEngine) :
    List Order → MatchingEngine × OrderResult (List PlaceOrderResult)
  | [] => (engine, .ok [])
  | order :: orders =>
    match engine.handleOrder order with
    | (engine, .error error) => (engine, .error error)
    | (engine, .ok result) =>
      match engine.handleOrders orders with
      | (engine, .error error) => (engine, .error error)
      | (engine, .ok results) => (engine, .ok (result :: results))

def placeOrders (engine : MatchingEngine) (orders : List Order) :
    MatchingEngine × OrderResult (List PlaceOrderResult) :=
  match engine.checkOrders [] orders with
  | .error error => (engine, .error error)
  | .ok () => engine.handleOrders orders

variable {config : PoolConfig} {engine after : MatchingEngine} {book : Book} {order : Order}
  {orders : List Order}

theorem handleOrders_of_error (failed : engine.handleOrder order = (after, .error error)) :
    engine.handleOrders (order :: orders) = (after, .error error) := by
  rw [handleOrders, failed]

theorem handleOrders_of_ok (placed : engine.handleOrder order = (after, .ok result)) :
    (engine.handleOrders (order :: orders)).1 = (after.handleOrders orders).1 ∧
      ∀ error, (engine.handleOrders (order :: orders)).2 = .error error ↔
        (after.handleOrders orders).2 = .error error := by
  rw [handleOrders, placed]
  simp only
  generalize after.handleOrders orders = rest
  obtain ⟨last, results⟩ := rest
  cases results <;> simp

theorem Sound.clearMakers (sound : Sound config engine [] book) :
    Sound config { engine with affectedMakersBuf := [] } [] book :=
  ⟨sound.sides, sound.stored, sound.linked, sound.orderCapacity, sound.trades,
    sound.tradeCapacity, sound.queues⟩

/-- Executing an order does one of the things `Executes` lists. -/
theorem Sound.handleOrder (sound : Sound config engine [] book) (unknown : order.id ∉ engine.orders)
    (sized : 0 < order.quantityLots) (constructed : order.filledLots = 0)
    (inRange : InI64 order.quantityLots) :
    ExecutesSoundly config book order engine (engine.handleOrder order) := by
  have cleared := sound.clearMakers
  unfold MatchingEngine.handleOrder
  cases market : order.isMarket with
  | true => exact cleared.handleImmediate unknown (Or.inl market)
  | false =>
    cases tif : order.timeInForce with
    | gtc => exact cleared.handleGtc unknown inRange market tif
    | ioc => exact cleared.handleImmediate unknown (Or.inr tif)
    | fok => exact cleared.handleFok unknown ⟨market, tif⟩
    | postOnly => exact cleared.handlePostOnly unknown sized constructed inRange ⟨market, tif⟩

/-- The checks of `place_order`. -/
def Passes (engine : MatchingEngine) (order : Order) : Prop :=
  validateOrder order = .ok () ∧ order.id ∉ engine.orders ∧ engine.pools.hasSpaceForOrder = true
deriving Decidable

theorem validateOrder_eq_ok_iff :
    validateOrder order = .ok () ↔
      ¬ (order.isMarket = false ∧ order.priceTicks ≤ 0) ∧ 0 < order.quantityLots := by
  unfold validateOrder
  by_cases sized : 0 < order.quantityLots
  · cases order.isMarket <;> by_cases priced : order.priceTicks ≤ 0 <;>
      simp [priced]
  · cases order.isMarket <;> by_cases priced : order.priceTicks ≤ 0 <;>
      simp [priced]

/-- An order that passes the checks is executed. -/
theorem placeOrder_of_passes (passes : engine.Passes order) :
    engine.placeOrder order = engine.handleOrder order := by
  obtain ⟨valid, unknown, space⟩ := passes
  simp only [MatchingEngine.placeOrder, valid, unknown, space]
  rfl

/-- An order that fails a check changes nothing. -/
theorem placeOrder_of_not_passes (failed : ¬ engine.Passes order) :
    ∃ error, engine.placeOrder order = (engine, .error error) := by
  unfold MatchingEngine.placeOrder
  cases valid : validateOrder order with
  | error error => exact ⟨error, rfl⟩
  | ok done =>
    by_cases known : order.id ∈ engine.orders
    · exact ⟨.duplicateOrderId order.id, by simp only [known, if_true]⟩
    · have noSpace : engine.pools.hasSpaceForOrder = false := by
        rw [Bool.eq_false_iff]
        exact fun space => failed ⟨valid, known, space⟩
      refine ⟨.orderPoolExhausted, ?_⟩
      simp only [known, noSpace, Bool.not_false, if_false, if_true]

end LightningX.Matching.MatchingEngine
