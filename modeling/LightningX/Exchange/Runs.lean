import LightningX.Exchange.FrontEnd
import LightningX.Matching.Engine.Accounting

/-!
# Runs of a matching thread

The engine inside a matching thread stays sound along every run of inbound
messages, and an order that trades is filled as the reference matcher says.
-/

namespace LightningX

open List
open Matching Transport

namespace Matching
namespace MatchingEngine

open Reference

variable {config : PoolConfig} {engine : MatchingEngine} {book : Book} {order : Order}

/-- An order that trades takes the orders it accepts, best price and oldest first. -/
structure Executes (engine : MatchingEngine) (order : Order) (result : PlaceOrderResult) :
    Prop where
  submitted : 0 < order.quantityLots
  fills : result.fills = Reference.fills order engine.resting
  filledLots : result.filledLots = traded result.fills
  status : result.status = .filled ∨ result.status = .partiallyFilled
  orderId : result.orderId = order.id

theorem takerStatus_of_pos (filled : 0 < filledLots) :
    takerStatus order filledLots unfilled = .filled ∨
      takerStatus order filledLots unfilled = .partiallyFilled := by
  unfold takerStatus
  split_ifs
  · exact .inl rfl
  · exact .inr rfl

theorem Sound.executes (sound : Sound config engine [] book) (constructed : order.filledLots = 0)
    (inRange : InI64 order.quantityLots) (placed : (engine.placeOrder order).2 = .ok result)
    (trades : result.fills ≠ []) : Executes engine order result := by
  have swept : ∀ {fills : List Fill} {want : Int} {levels : List Level} {status : OrderStatus},
      book.Admits config order →
      Ladder.Trades order.priceMatches order.quantityLots (book order.side.opposite) fills
        want levels →
      Ladder.Settled order.priceMatches want levels →
      fills ≠ [] →
      (0 < order.quantityLots - want → status = .filled ∨ status = .partiallyFilled) →
      Executes engine order (Book.report order want status fills) := by
    intro fills want levels status admitted isTrades settled some isStatus
    have conserved := isTrades.conserves
    have positive := (isTrades.fills_positive (sound.positive _)).1
    have isPositive : 0 < (fills.map (·.lots)).sum := by
      refine sum_pos _ ?_ (by simpa using some)
      intro lots mem
      obtain ⟨fill, inFills, rfl⟩ := mem_map.mp mem
      exact positive fill inFills
    have sorted := (sound.sides order.side.opposite).sorted
    refine ⟨admitted.quantity, ?_, ?_, isStatus (by omega), rfl⟩
    · rw [sound.resting_eq, Reference.fills, Book.candidates_eq sorted]
      exact isTrades.fills_eq settled (Ladder.Sorted.closed sorted) _
    · show order.quantityLots - want = traded fills
      unfold traded
      omega
  obtain ⟨book', places, -⟩ := sound.placeOrder constructed inRange
  rw [placed] at places
  cases places with
  | rejected admitted reason => exact absurd rfl trades
  | swept admitted notPostOnly fillable isTrades settled done =>
    refine swept admitted isTrades settled trades fun filled => ?_
    split_ifs
    · exact .inl rfl
    · exact takerStatus_of_pos filled
  | rested admitted mayRest quiet isTrades settled left room =>
    exact swept admitted isTrades settled trades takerStatus_of_pos

end MatchingEngine
end Matching

namespace Exchange

/-- Quantities are transported as `i64`. -/
def InRange : InboundMsg → Prop
  | .newOrder request => InI64 request.quantityLots
  | .cancelOrder _ => True

instance : DecidablePred InRange
  | .newOrder request => inferInstanceAs (Decidable (InI64 request.quantityLots))
  | .cancelOrder _ => isTrue trivial

namespace FrontEnd

variable {front : FrontEnd}

@[simp] theorem engine_trackOrder (orderId : Nat) (participantId : Int) (stream : Nat) :
    (front.trackOrder orderId participantId stream).engine = front.engine := rfl

@[simp] theorem engine_untrackOrder (orderId : Nat) :
    (front.untrackOrder orderId).engine = front.engine := by
  unfold untrackOrder
  split <;> rfl

variable (nowNs : Nat)

@[simp] theorem engine_noteTrade (fill : Fill) :
    (noteTrade nowNs front fill).engine = front.engine := by
  unfold noteTrade
  simp only
  split
  · rfl
  · rw [engine_untrackOrder]

@[simp] theorem engine_foldl_noteTrade (fills : List Fill) :
    (fills.foldl (noteTrade nowNs) front).engine = front.engine := by
  induction fills generalizing front with
  | nil => rfl
  | cons fill fills ih => rw [foldl_cons, ih, engine_noteTrade]

variable (request : NewOrderRequest)

@[simp] theorem engine_answer (result : PlaceOrderResult) :
    (front.answer request result).1.engine = front.engine := by
  unfold answer
  split <;> simp

@[simp] theorem symbol_untrackOrder (orderId : Nat) :
    (front.untrackOrder orderId).symbol = front.symbol := by
  unfold untrackOrder
  split <;> rfl

@[simp] theorem symbol_answer (result : PlaceOrderResult) :
    (front.answer request result).1.symbol = front.symbol := by
  unfold answer
  split <;> simp [trackOrder]

@[simp] theorem symbol_foldl_noteTrade (fills : List Fill) :
    (fills.foldl (noteTrade nowNs) front).symbol = front.symbol := by
  induction fills generalizing front with
  | nil => rfl
  | cons fill fills ih =>
    rw [foldl_cons, ih, noteTrade]
    split
    · rfl
    · rw [symbol_untrackOrder]

theorem symbol_handle (message : InboundMsg) :
    (front.handle nowNs message).1.symbol = front.symbol := by
  cases message with
  | newOrder request =>
    unfold handle newOrder
    simp only
    split
    · rfl
    · split
      · rfl
      · simp
  | cancelOrder request =>
    unfold handle cancelOrder
    simp only
    split
    · simp
    · rfl

theorem symbol_run (messages : List (Nat × InboundMsg)) :
    (front.run messages).1.symbol = front.symbol := by
  induction messages generalizing front with
  | nil => rfl
  | cons message messages ih => exact ih.trans (symbol_handle message.1 message.2)

@[simp] theorem quantityLots_orderOf :
    (orderOf nowNs request).quantityLots = request.quantityLots := by
  unfold orderOf
  split <;> rfl

@[simp] theorem id_orderOf : (orderOf nowNs request).id = request.clientOrderId := by
  unfold orderOf
  split <;> rfl

@[simp] theorem filledLots_orderOf : (orderOf nowNs request).filledLots = 0 := by
  unfold orderOf
  split <;> rfl

/-- The engine of a thread implements some book. -/
def Sound (pools : PoolConfig) (front : FrontEnd) : Prop :=
  ∃ book, MatchingEngine.Sound pools front.engine [] book

/-- A new order changes the engine as placing it does, if it changes it. -/
theorem engine_newOrder :
    (front.newOrder nowNs request).1.engine = front.engine ∨
      (front.newOrder nowNs request).1.engine =
        (front.engine.placeOrder (orderOf nowNs request)).1 := by
  unfold newOrder
  split
  · exact .inl rfl
  · split
    · rename_i placed
      right
      rw [placed]
      rfl
    · rename_i placed
      right
      rw [placed]
      simp

theorem engine_cancelOrder (request : CancelOrderRequest) :
    (front.cancelOrder request).1.engine = (front.engine.cancelOrder request.orderId).1 := by
  unfold cancelOrder
  split
  · rename_i cancelled
    rw [cancelled]
    simp
  · rename_i cancelled
    rw [cancelled]

theorem Sound.handle (sound : front.Sound pools) (inRange : InRange message) (nowNs : Nat) :
    (front.handle nowNs message).1.Sound pools := by
  obtain ⟨book, isSound⟩ := sound
  cases message with
  | newOrder request =>
    rcases @engine_newOrder front nowNs request with same | placed
    · exact ⟨book, by rwa [FrontEnd.handle, same]⟩
    · obtain ⟨book', -, sound'⟩ := isSound.placeOrder (filledLots_orderOf nowNs request)
        (by rwa [quantityLots_orderOf])
      exact ⟨book', by rwa [FrontEnd.handle, placed]⟩
  | cancelOrder request =>
    obtain ⟨book', -, sound'⟩ := isSound.cancelOrder request.orderId
    exact ⟨book', by rwa [FrontEnd.handle, engine_cancelOrder]⟩

theorem Sound.run {messages : List (Nat × InboundMsg)} (sound : front.Sound pools)
    (inRange : ∀ message ∈ messages, InRange message.2) : (front.run messages).1.Sound pools := by
  induction messages generalizing front with
  | nil => exact sound
  | cons message messages ih =>
    exact ih (sound.handle (inRange message (by simp)) message.1)
      fun other mem => inRange other (by simp [mem])

theorem sound_new (symbol : Nat) (limits : Limits) (breaker : CircuitBreaker) :
    (new symbol limits breaker pools).Sound pools :=
  ⟨_, MatchingEngine.sound_new pools⟩

end FrontEnd
end Exchange
end LightningX
