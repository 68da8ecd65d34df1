import LightningX.Exchange.Clocks
import LightningX.Matching.Engine.Restore

/-!
# Threads restored from a snapshot

A snapshot keeps the resting orders.  The thread that is started from it has the
book, but its map of participants, its counts of open orders, its breaker and its
last trade price start empty.  It answers the later inputs as the first thread
does exactly as long as these lead to the same verdicts.
-/

namespace LightningX.Exchange

open List
open Matching Transport
open MatchingEngine (SameBook Reached recovered)

namespace FrontEnd

variable {pools : PoolConfig} {first second front : FrontEnd} {early late : Nat}

/-- The thread that is started with the book of a snapshot. -/
def resumed (breaker : CircuitBreaker) (pools : PoolConfig) (front : FrontEnd) : FrontEnd :=
  { new front.symbol front.limits breaker pools with
    engine := recovered pools front.engine }

/-- The symbol and the limits of a thread. -/
def settings (front : FrontEnd) : Nat × Limits :=
  (front.symbol, front.limits)

theorem settings_untrackOrder (orderId : Nat) :
    (front.untrackOrder orderId).settings = front.settings := by
  unfold untrackOrder
  split <;> rfl

theorem settings_noteTrades (fills : List Fill) :
    (fills.foldl (noteTrade nowNs) front).settings = front.settings := by
  induction fills generalizing front with
  | nil => rfl
  | cons fill fills ih =>
    rw [foldl_cons, ih]
    unfold noteTrade
    simp only
    split
    · rfl
    · rw [settings_untrackOrder]
      rfl

theorem settings_answer (request : NewOrderRequest) (result : PlaceOrderResult) :
    (front.answer request result).1.settings = front.settings := by
  unfold answer
  split <;> first | rfl | exact settings_untrackOrder _

theorem settings_newOrder (request : NewOrderRequest) :
    (front.newOrder nowNs request).1.settings = front.settings := by
  unfold newOrder
  split
  · rfl
  · split
    · rfl
    · rw [settings_noteTrades, settings_answer]
      rfl

theorem settings_cancelOrder (request : CancelOrderRequest) :
    (front.cancelOrder request).1.settings = front.settings := by
  unfold cancelOrder
  split
  · rw [settings_untrackOrder]
    rfl
  · rfl

theorem settings_handle (message : InboundMsg) :
    (front.handle nowNs message).1.settings = front.settings := by
  cases message with
  | newOrder request => exact settings_newOrder request
  | cancelOrder request => exact settings_cancelOrder request

/-- The participant has as many open orders as it may have. -/
def AtCap (front : FrontEnd) (participantId : Int) : Prop :=
  front.limits.maxOpenOrders > 0 ∧ participantId ≠ 0 ∧
    (front.openCounts.lookup participantId).getD 0 ≥ front.limits.maxOpenOrders
deriving Decidable

/-- Whether a price is outside the band of a thread. -/
def outsideBand (front : FrontEnd) (request : NewOrderRequest) : Bool :=
  outsidePriceBand front.engine request.side request.priceTicks front.limits.priceBandBps
    front.lastTradeTicks

/-- The participant and the stream that are told of a cancel. -/
def route (front : FrontEnd) (request : CancelOrderRequest) : Int × Nat :=
  (front.uidMap.lookup request.orderId).getD (request.participantId, request.responseStreamId)

/-- The breakers, the bands and the counts give the same verdicts on an order,
as far as they are asked. -/
@[mk_iff sameVerdicts_iff]
structure SameVerdicts (first second : FrontEnd) (early late : Nat)
    (request : NewOrderRequest) : Prop where
  halted : first.breaker.isHalted early = second.breaker.isHalted late
  outside : first.breaker.isHalted early = false →
    first.outsideBand request = second.outsideBand request
  capped : first.breaker.isHalted early = false → first.outsideBand request = false →
    exceedsOrderLimits request.priceTicks request.quantityLots first.limits.maxOrderLots
      first.limits.maxOrderNotional = false →
    (first.AtCap request.participantId ↔ second.AtCap request.participantId)

instance (first second : FrontEnd) (early late : Nat) (request : NewOrderRequest) :
    Decidable (SameVerdicts first second early late request) :=
  decidable_of_iff _ (sameVerdicts_iff first second early late request).symm

/-- The threads agree on a message: on an order for their symbol by the same
verdicts, on the cancel of a resting order by the same route. -/
def Agrees (first second : FrontEnd) (early late : Nat) : InboundMsg → Prop
  | .newOrder request => request.symbol = first.symbol → 0 < request.quantityLots →
      SameVerdicts first second early late request
  | .cancelOrder request => request.orderId ∈ first.engine.orders →
      first.route request = second.route request

instance (first second : FrontEnd) (early late : Nat) :
    (message : InboundMsg) → Decidable (Agrees first second early late message)
  | .newOrder request => inferInstanceAs (Decidable (request.symbol = first.symbol →
      0 < request.quantityLots → SameVerdicts first second early late request))
  | .cancelOrder request => inferInstanceAs (Decidable (request.orderId ∈
      first.engine.orders → first.route request = second.route request))

theorem gate_eq_verdicts (front : FrontEnd) (request : NewOrderRequest) :
    front.gate nowNs request =
      if request.symbol ≠ front.symbol then some 4
      else if request.quantityLots ≤ 0 then some 2
      else if front.breaker.isHalted nowNs then some 10
      else if front.outsideBand request then some 7
      else if exceedsOrderLimits request.priceTicks request.quantityLots
          front.limits.maxOrderLots front.limits.maxOrderNotional then some 8
      else if front.AtCap request.participantId then some 9
      else none := rfl

theorem gate_eq_iff (settings : first.settings = second.settings) :
    first.gate early request = second.gate late request ↔
      Agrees first second early late (.newOrder request) := by
  have symbols : first.symbol = second.symbol := congrArg Prod.fst settings
  have limits : first.limits = second.limits := congrArg Prod.snd settings
  show _ ↔ (_ → _ → SameVerdicts first second early late request)
  rw [sameVerdicts_iff]
  rw [gate_eq_verdicts first, gate_eq_verdicts second]
  split_ifs <;> simp_all

/-- Threads with one book answer a cancel alike exactly when they route it alike. -/
theorem cancelOrder_same_iff (engines : SameBook pools first.engine second.engine) :
    (first.cancelOrder request).2 = (second.cancelOrder request).2 ↔
      Agrees first second early late (.cancelOrder request) := by
  constructor
  · intro same rests
    obtain ⟨engine, otherEngine, answer, cancelled, otherCancelled, -⟩ :=
      engines.cancelOrder request.orderId
    obtain ⟨book, sound, -⟩ := engines
    obtain ⟨result, found⟩ := sound.cancelOrder_ok_iff.mpr rests
    obtain rfl : answer = .ok result := by rwa [cancelled] at found
    simp only [cancelOrder, cancelled, otherCancelled, Published.mk.injEq, List.cons.injEq, Prod.mk.injEq,
      OrderUpdateMsg.cancelled, OrderUpdateMsg.mk.injEq] at same
    exact Prod.ext (by tauto) (by tauto)
  · exact fun agrees => (cancelOrder_same engines agrees).1

/-- Threads with the same book, symbol and limits. -/
structure Twins (pools : PoolConfig) (first second : FrontEnd) : Prop where
  engines : SameBook pools first.engine second.engine
  settings : first.settings = second.settings

/-- Twins answer a message alike exactly when they agree on it. -/
theorem Twins.handle_same_iff (twins : Twins pools first second) (inRange : InRange message) :
    (first.handle early message).2 = (second.handle late message).2 ↔
      Agrees first second early late message := by
  cases message with
  | newOrder request =>
    have symbols : first.symbol = second.symbol := congrArg Prod.fst twins.settings
    rw [← gate_eq_iff twins.settings]
    exact ⟨gate_eq_of_same symbols,
      fun gates => (newOrder_same twins.engines symbols gates inRange).1⟩
  | cancelOrder request => exact cancelOrder_same_iff twins.engines

theorem Twins.handle (twins : Twins pools first second)
    (agrees : Agrees first second early late message) (inRange : InRange message) :
    Twins pools (first.handle early message).1 (second.handle late message).1 where
  engines := by
    cases message with
    | newOrder request =>
      exact (newOrder_same twins.engines (congrArg Prod.fst twins.settings)
        ((gate_eq_iff twins.settings).mpr agrees) inRange).2
    | cancelOrder request => exact (cancelOrder_same twins.engines agrees).2
  settings := by rw [settings_handle, settings_handle, twins.settings]

/-- The threads agree on every message of a run. -/
def RunAgrees (first second : FrontEnd) (inputs : List TwiceTimed) : Prop :=
  Along handleBoth (fun threads input =>
    Agrees threads.1 threads.2 input.early input.late input.message) (first, second) inputs
deriving Decidable

theorem Twins.run {inputs : List TwiceTimed} (twins : Twins pools first second)
    (agrees : RunAgrees first second inputs) (inRange : ∀ input ∈ inputs, InRange input.message) :
    Twins pools (first.run (inputs.map (·.atEarly))).1 (second.run (inputs.map (·.atLate))).1 := by
  induction inputs generalizing first second with
  | nil => exact twins
  | cons input inputs ih =>
    exact ih (twins.handle agrees.1 (inRange input (by simp))) agrees.2
      fun other mem => inRange other (by simp [mem])

/-- Twins answer a run alike exactly when they agree along it. -/
theorem Twins.later_same_iff
    (twins : Twins pools first second) (inRange : ∀ input ∈ inputs, InRange input.message) :
    (first.run (inputs.map (·.atEarly))).2 = (second.run (inputs.map (·.atLate))).2 ↔
      RunAgrees first second inputs := by
  induction inputs generalizing first second with
  | nil => exact ⟨fun _ => trivial, fun _ => rfl⟩
  | cons input inputs ih =>
    have ownRange : InRange input.message := inRange input (by simp)
    have laterRange : ∀ input ∈ inputs, InRange input.message :=
      fun other mem => inRange other (by simp [mem])
    have published : ∀ (front : FrontEnd) (timed : TwiceTimed → Nat × InboundMsg),
        (front.run ((input :: inputs).map timed)).2 =
          (front.handle (timed input).1 (timed input).2).2 ::
            ((front.handle (timed input).1 (timed input).2).1.run (inputs.map timed)).2 :=
      fun _ _ => rfl
    rw [published, published, List.cons.injEq]
    refine (and_congr_left' (twins.handle_same_iff ownRange)).trans ?_
    exact and_congr_right fun agrees => ih (twins.handle agrees ownRange) laterRange

/-- The engine of a thread after a run is one that a snapshot can restore. -/
theorem reached_run {messages : List (Nat × InboundMsg)}
    (reached : ∃ book, Reached pools front.engine book)
    (inRange : ∀ message ∈ messages, InRange message.2) :
    ∃ book, Reached pools (front.run messages).1.engine book := by
  induction messages generalizing front with
  | nil => exact reached
  | cons message messages ih =>
    obtain ⟨nowNs, message⟩ := message
    refine ih ?_ fun other mem => inRange other (by simp [mem])
    obtain ⟨book, isReached⟩ := reached
    cases message with
    | newOrder request =>
      rcases @engine_newOrder front nowNs request with same | placed
      · exact ⟨book, by rwa [same]⟩
      · rw [placed]
        refine isReached.placeOrder (filledLots_orderOf nowNs request) ?_
        rw [quantityLots_orderOf]
        exact inRange (nowNs, .newOrder request) (by simp)
    | cancelOrder request =>
      rw [engine_cancelOrder]
      exact isReached.cancelOrder request.orderId

/-- The resumed thread has the book of the thread whose snapshot it is started from. -/
theorem resumed_twins {symbol : Nat} {limits : Limits} {breaker : CircuitBreaker}
    {prior : List (Nat × InboundMsg)} (inRange : ∀ message ∈ prior, InRange message.2)
    (inTimeOrder : ((new symbol limits breaker pools).run prior).1.engine.InTimeOrder) :
    Twins pools (resumed breaker pools ((new symbol limits breaker pools).run prior).1)
      ((new symbol limits breaker pools).run prior).1 := by
  obtain ⟨book, reached⟩ := @reached_run pools (new symbol limits breaker pools) prior
    ⟨_, MatchingEngine.reached_new pools⟩ inRange
  exact ⟨reached.sameBook_recovered_iff.mpr inTimeOrder, rfl⟩

theorem run_append (front : FrontEnd) (prior later : List (Nat × InboundMsg)) :
    front.run (prior ++ later) =
      (((front.run prior).1.run later).1,
        (front.run prior).2 ++ ((front.run prior).1.run later).2) := by
  induction prior generalizing front with
  | nil => rfl
  | cons message prior ih => simp only [cons_append, run, ih]

/-- A message that both threads handle at its time. -/
def TwiceTimed.same (input : Nat × InboundMsg) : TwiceTimed where
  early := input.1
  late := input.1
  message := input.2

/-- A thread that is resumed from a snapshot of queues in time order publishes
for the later messages what the thread that handled all messages does, exactly
when the two agree on each of them. -/
theorem resumed_run_iff (symbol : Nat) (limits : Limits) (breaker : CircuitBreaker)
    (pools : PoolConfig) (prior later : List (Nat × InboundMsg))
    (inRange : ∀ message ∈ prior ++ later, InRange message.2)
    (inTimeOrder : ((new symbol limits breaker pools).run prior).1.engine.InTimeOrder) :
    ((new symbol limits breaker pools).run (prior ++ later)).2 =
        ((new symbol limits breaker pools).run prior).2 ++
          ((resumed breaker pools ((new symbol limits breaker pools).run prior).1).run later).2 ↔
      RunAgrees (resumed breaker pools ((new symbol limits breaker pools).run prior).1)
        ((new symbol limits breaker pools).run prior).1 (later.map TwiceTimed.same) := by
  have twins := @resumed_twins pools symbol limits breaker prior
    (fun message member => inRange message (mem_append_left _ member)) inTimeOrder
  have laterRange : ∀ input ∈ later.map TwiceTimed.same, InRange input.message := by
    intro input member
    obtain ⟨message, isLater, rfl⟩ := mem_map.mp member
    exact inRange message (mem_append_right _ isLater)
  have sameIff := twins.later_same_iff laterRange
  have earlyTimes : (later.map TwiceTimed.same).map (·.atEarly) = later := by
    rw [map_map]
    exact map_id' later
  have lateTimes : (later.map TwiceTimed.same).map (·.atLate) = later := by
    rw [map_map]
    exact map_id' later
  rw [earlyTimes, lateTimes] at sameIff
  rw [run_append, append_cancel_left_eq, eq_comm, sameIff]

/-- A thread with one open order a participant. -/
def oneOpenOrder : FrontEnd :=
  new 7 ⟨0, 0, 0, 1⟩ (CircuitBreaker.new 0 10000000000 60000000000) ⟨4, 4⟩

/-- The resumed thread matches a resting order as the first one does. -/
theorem resumed_run_same_taker :
    (oneOpenOrder.run ([(1, oneLot 1 1 100 .buy)] ++ [(2, oneLot 2 2 100 .sell)])).2 =
      (oneOpenOrder.run [(1, oneLot 1 1 100 .buy)]).2 ++
        ((resumed (CircuitBreaker.new 0 10000000000 60000000000) ⟨4, 4⟩
          (oneOpenOrder.run [(1, oneLot 1 1 100 .buy)]).1).run
            [(2, oneLot 2 2 100 .sell)]).2 := by
  unfold oneOpenOrder
  rw [resumed_run_iff _ _ _ _ _ _ (by decide +kernel) (by decide +kernel)]
  decide +kernel

/-- The second open order of a participant is rejected by the first thread only. -/
theorem not_resumed_run_same_openOrders :
    (oneOpenOrder.run ([(1, oneLot 1 1 100 .buy)] ++ [(2, oneLot 2 1 99 .buy)])).2 ≠
      (oneOpenOrder.run [(1, oneLot 1 1 100 .buy)]).2 ++
        ((resumed (CircuitBreaker.new 0 10000000000 60000000000) ⟨4, 4⟩
          (oneOpenOrder.run [(1, oneLot 1 1 100 .buy)]).1).run
            [(2, oneLot 2 1 99 .buy)]).2 := by
  decide +kernel

end FrontEnd
end LightningX.Exchange
