import Mathlib.Data.Int.Basic

/-!
# Orders, trades and results of the matching engine

The data model of `matching/order.rs`, `matching/trade.rs`,
`matching/error.rs` and the result types of `matching/engine.rs`.  Identifiers
and timestamps are natural numbers, prices and quantities are integers counted
in ticks and lots.  The padding bytes of `Order` carry no data and are left
out.
-/

namespace LightningX.Matching

/-- Side of an order. -/
inductive Side
  | buy
  | sell
  deriving DecidableEq, Repr

/-- The side an order trades against. -/
def Side.opposite : Side → Side
  | .buy => .sell
  | .sell => .buy

@[simp] theorem Side.opposite_buy : Side.buy.opposite = .sell := rfl

@[simp] theorem Side.opposite_sell : Side.sell.opposite = .buy := rfl

@[simp] theorem Side.opposite_opposite (side : Side) : side.opposite.opposite = side := by
  cases side <;> rfl

@[simp] theorem Side.opposite_ne (side : Side) : side.opposite ≠ side := by cases side <;> simp

theorem Side.eq_or_eq_opposite (side other : Side) : other = side ∨ other = side.opposite := by
  cases side <;> cases other <;> simp

instance {test : Side → Prop} [DecidablePred test] : Decidable (∀ side, test side) :=
  decidable_of_iff (test .buy ∧ test .sell)
    ⟨fun ⟨buy, sell⟩ side => by cases side <;> assumption, fun all => ⟨all .buy, all .sell⟩⟩

/-- How long an order stays in force. -/
inductive TimeInForce
  | gtc
  | ioc
  | fok
  | postOnly
  deriving DecidableEq, Repr

/-- An order as submitted, and as stored in the order pool while it rests. -/
structure Order where
  id : Nat
  side : Side
  priceTicks : Int
  quantityLots : Int
  filledLots : Int
  timeInForce : TimeInForce
  timestamp : Nat
  isMarket : Bool
  deriving DecidableEq, Repr

namespace Order

/-- `Order::new`: a limit order. -/
def new
    (id : Nat) (side : Side) (priceTicks quantityLots : Int) (timeInForce : TimeInForce)
    (timestamp : Nat) : Order where
  id := id
  side := side
  priceTicks := priceTicks
  quantityLots := quantityLots
  filledLots := 0
  timeInForce := timeInForce
  timestamp := timestamp
  isMarket := false

/-- `Order::new_market`: a market order has price zero and is immediate or
cancel. -/
def newMarket (id : Nat) (side : Side) (quantityLots : Int) (timestamp : Nat) : Order where
  id := id
  side := side
  priceTicks := 0
  quantityLots := quantityLots
  filledLots := 0
  timeInForce := .ioc
  timestamp := timestamp
  isMarket := true

/-- `Order::default`, the content of an unused pool slot. -/
def default : Order where
  id := 0
  side := .buy
  priceTicks := 0
  quantityLots := 0
  filledLots := 0
  timeInForce := .gtc
  timestamp := 0
  isMarket := false

instance : Inhabited Order := ⟨Order.default⟩

variable (order : Order)

/-- Lots of the order that have not traded yet.  The difference stays in range
because at most the submitted quantity is filled. -/
def remainingLots : Int :=
  order.quantityLots - order.filledLots

/-- The order has nothing left to trade. -/
def isFilled : Bool :=
  decide (order.remainingLots ≤ 0)

variable (lots : Int)

/-- `filled_lots += lots`. -/
def fill : Order :=
  { order with filledLots := order.filledLots + lots }

/-- The order is of a type that may stay in the book. -/
def mayRest : Prop :=
  order.isMarket = false ∧ (order.timeInForce = .gtc ∨ order.timeInForce = .postOnly)
deriving Decidable

/-- The order must be filled completely or not at all. -/
def isFok : Prop :=
  order.isMarket = false ∧ order.timeInForce = .fok
deriving Decidable

/-- The order must not trade when it is placed. -/
def isPostOnly : Prop :=
  order.isMarket = false ∧ order.timeInForce = .postOnly
deriving Decidable

@[simp] theorem fill_quantityLots : (order.fill lots).quantityLots = order.quantityLots := rfl

@[simp] theorem fill_filledLots : (order.fill lots).filledLots = order.filledLots + lots := rfl

@[simp] theorem fill_remainingLots :
    (order.fill lots).remainingLots = order.remainingLots - lots := by
  simp only [remainingLots, fill]
  omega

end Order

/-- A slot of the trade pool. -/
structure Trade where
  takerId : Nat
  makerId : Nat
  priceTicks : Int
  quantityLots : Int
  deriving DecidableEq, Repr

def Trade.default : Trade where
  takerId := 0
  makerId := 0
  priceTicks := 0
  quantityLots := 0

/-- One fill of a taker: the tuple `(maker_order_id, fill_price, fill_qty)`. -/
structure Fill where
  makerId : Nat
  priceTicks : Int
  lots : Int
  deriving DecidableEq, Repr

inductive MatchingEngineError
  | orderNotFound
  | invalidPrice (priceTicks : Int)
  | invalidQuantity (quantityLots : Int)
  | alreadyFilled
  | alreadyCancelled
  | duplicateOrderId (id : Nat)
  | invalidTimeInForce
  | orderPoolExhausted
  | nodePoolExhausted
  | queuePoolExhausted
  | aeronNotConnected
  | aeronBackPressured
  | aeronClosed
  deriving DecidableEq, Repr

inductive OrderStatus
  | accepted
  | partiallyFilled
  | filled
  | rejected
  | cancelled
  deriving DecidableEq, Repr

/-- What `place_order` tells its caller. -/
structure PlaceOrderResult where
  orderId : Nat
  filledLots : Int
  status : OrderStatus
  fills : List Fill
  deriving DecidableEq, Repr

/-- What `cancel_order` tells its caller. -/
structure CancelOrderResult where
  orderId : Nat
  cancelledQuantity : Int
  deriving DecidableEq, Repr

abbrev OrderResult (α : Type) := Except MatchingEngineError α

end LightningX.Matching
