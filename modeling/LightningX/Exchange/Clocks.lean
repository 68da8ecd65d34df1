import LightningX.Exchange.Runs
import LightningX.Lib.Along
import LightningX.Matching.Engine.SameBook

/-!
# Threads with different clocks

Two matching threads that take the same inputs at different times: the leader
and a standby, or a thread and its replay after a restart.  The clock enters a
decision only through the circuit breaker, so the threads keep the same book
and publish the same messages as long as both are halted or neither is.
-/

namespace LightningX.Exchange

open Matching Transport OrderUpdateMsg
open MatchingEngine (SameBook)

namespace FrontEnd

variable {pools : PoolConfig} {first second front : FrontEnd} {early late : Nat}
  {request : NewOrderRequest}

/-- The update of a placed order does not depend on who is tracked. -/
theorem answer_update (first second : FrontEnd) (result : PlaceOrderResult) :
    (first.answer request result).2 = (second.answer request result).2 := by
  unfold answer
  split <;> rfl

theorem orderOf_stamped (early late : Nat) (request : NewOrderRequest) :
    orderOf late request = (orderOf early request).stamped late := by
  unfold orderOf
  split <;> rfl

/-- Threads with the same book that let the same orders pass publish the same. -/
theorem newOrder_same
    (engines : SameBook pools first.engine second.engine) (symbols : first.symbol = second.symbol)
    (gates : first.gate early request = second.gate late request)
    (inRange : InI64 request.quantityLots) :
    (first.newOrder early request).2 = (second.newOrder late request).2 ∧
      SameBook pools (first.newOrder early request).1.engine
        (second.newOrder late request).1.engine := by
  unfold newOrder
  rw [gates]
  cases second.gate late request with
  | some reason => exact ⟨rfl, engines⟩
  | none =>
    obtain ⟨engine, otherEngine, result, placed, otherPlaced, enginesAfter⟩ := engines.placeOrder
      (filledLots_orderOf early request) (by rwa [quantityLots_orderOf]) late
    rw [placed, orderOf_stamped early late, otherPlaced]
    cases result with
    | error => exact ⟨rfl, enginesAfter⟩
    | ok result =>
      refine ⟨?_, by simpa using enginesAfter⟩
      simp only [symbol_answer]
      rw [answer_update _ { second with engine := otherEngine }, symbols]

/-- A cancel is answered alike if it is routed alike. -/
theorem cancelOrder_same {request : CancelOrderRequest}
    (engines : SameBook pools first.engine second.engine)
    (routes : request.orderId ∈ first.engine.orders →
      (first.uidMap.lookup request.orderId).getD
          (request.participantId, request.responseStreamId) =
        (second.uidMap.lookup request.orderId).getD
          (request.participantId, request.responseStreamId)) :
    (first.cancelOrder request).2 = (second.cancelOrder request).2 ∧
      SameBook pools (first.cancelOrder request).1.engine
        (second.cancelOrder request).1.engine := by
  obtain ⟨engine, otherEngine, result, cancelled, otherCancelled, enginesAfter⟩ :=
    engines.cancelOrder request.orderId
  have known : (∃ result, (first.engine.cancelOrder request.orderId).2 = .ok result) →
      request.orderId ∈ first.engine.orders := by
    obtain ⟨book, sound, -⟩ := engines
    exact sound.cancelOrder_ok_iff.mp
  rw [engine_cancelOrder, engine_cancelOrder, cancelled, otherCancelled]
  refine ⟨?_, enginesAfter⟩
  unfold cancelOrder
  rw [cancelled] at known ⊢
  rw [otherCancelled]
  cases result with
  | error => rfl
  | ok result => rw [routes (known ⟨result, rfl⟩)]

theorem gate_eq_two_iff :
    front.gate early request = some 2 ↔
      request.symbol = front.symbol ∧ request.quantityLots ≤ 0 := by
  unfold gate
  split_ifs <;> simp_all

theorem gate_eq_ten_iff :
    front.gate early request = some 10 ↔
      request.symbol = front.symbol ∧ 0 < request.quantityLots ∧
        front.breaker.isHalted early = true := by
  unfold gate
  split_ifs <;> simp_all

theorem gate_reason (gated : front.gate early request = some reason) : reason = 2 ∨ 4 ≤ reason := by
  unfold gate at gated
  split_ifs at gated <;> simp_all <;> omega

theorem updates_gated (gated : front.gate early request = some reason) :
    (front.newOrder early request).2.updates =
      [(request.responseStreamId,
        .rejected request.clientOrderId request.participantId reason)] := by
  unfold newOrder
  rw [gated]
  rfl

/-- The reasons with which the engine answers. -/
theorem rejectReason_passed (passed : front.gate early request = none)
    (published : update ∈ (front.newOrder early request).2.updates) :
    update.2.rejectReason ≤ 3 := by
  unfold newOrder at published
  rw [passed] at published
  simp only at published
  split at published
  · simp only [reject, List.mem_singleton] at published
    simp [published, rejected]
  · simp only [List.mem_singleton] at published
    rw [published]
    unfold answer
    split <;> simp [accepted, filled, partialFill, cancelled, rejected]

section

variable (symbols : first.symbol = second.symbol)
  (same : (first.newOrder early request).2 = (second.newOrder late request).2)
include symbols same

theorem gate_eq_none_of_same (passed : second.gate late request = none) :
    first.gate early request = none := by
  cases gated : first.gate early request with
  | none => rfl
  | some reason =>
    have small : reason ≤ 3 := by
      have published := updates_gated gated
      rw [same] at published
      exact rejectReason_passed passed (published ▸ List.mem_singleton_self _)
    obtain rfl : reason = 2 := by
      have := gate_reason gated
      omega
    rw [gate_eq_two_iff, symbols, ← gate_eq_two_iff, passed] at gated
    cases gated

/-- Threads that answer an order alike let it pass alike. -/
theorem gate_eq_of_same : first.gate early request = second.gate late request := by
  cases gated : first.gate early request with
  | none => exact (gate_eq_none_of_same symbols.symm same.symm gated).symm
  | some reason =>
    cases otherGated : second.gate late request with
    | none => rw [← gated, gate_eq_none_of_same symbols same otherGated]
    | some otherReason =>
      have published := updates_gated gated
      rw [same, updates_gated otherGated] at published
      have reasons : otherReason = reason := by simpa [rejected] using published
      rw [reasons]

end

/-- Both threads find the symbol halted or neither does.  Orders for another
symbol or without quantity are turned down before. -/
def HaltsAlike (first second : FrontEnd) (early late : Nat) : InboundMsg → Prop
  | .newOrder request => request.symbol = first.symbol → 0 < request.quantityLots →
      first.breaker.isHalted early = second.breaker.isHalted late
  | .cancelOrder _ => True

instance (first second : FrontEnd) (early late : Nat) :
    (message : InboundMsg) → Decidable (HaltsAlike first second early late message)
  | .newOrder request => inferInstanceAs (Decidable (request.symbol = first.symbol →
      0 < request.quantityLots → first.breaker.isHalted early = second.breaker.isHalted late))
  | .cancelOrder _ => isTrue trivial

/-- Threads that differ in their breakers and in the layout of their books. -/
structure Alike (pools : PoolConfig) (first second : FrontEnd) : Prop where
  engines : SameBook pools first.engine second.engine
  symbol : first.symbol = second.symbol
  limits : first.limits = second.limits
  uidMap : first.uidMap = second.uidMap
  openCounts : first.openCounts = second.openCounts
  lastTradeTicks : first.lastTradeTicks = second.lastTradeTicks

namespace Alike

section

variable (alike : Alike pools first second)
include alike

theorem gate_eq (halts : HaltsAlike first second early late (.newOrder request)) :
    first.gate early request = second.gate late request := by
  have band : outsidePriceBand first.engine request.side request.priceTicks
      first.limits.priceBandBps first.lastTradeTicks =
        outsidePriceBand second.engine request.side request.priceTicks
          second.limits.priceBandBps second.lastTradeTicks := by
    unfold outsidePriceBand bandReferenceTicks
    rw [alike.engines.bestPriceTicks_eq, alike.engines.bestPriceTicks_eq, alike.limits,
      alike.lastTradeTicks]
  unfold gate
  rw [band, ← alike.symbol, ← alike.limits, ← alike.openCounts]
  by_cases otherSymbol : request.symbol ≠ first.symbol
  · rw [if_pos otherSymbol, if_pos otherSymbol]
  · by_cases noQuantity : request.quantityLots ≤ 0
    · rw [if_pos noQuantity, if_pos noQuantity]
    · rw [if_neg noQuantity, if_neg noQuantity,
        halts (not_not.mp otherSymbol) (not_le.mp noQuantity)]

theorem setEngines {engine : MatchingEngine} (engines : SameBook pools engine otherEngine) :
    Alike pools { first with engine := engine } { second with engine := otherEngine } :=
  ⟨engines, alike.symbol, alike.limits, alike.uidMap, alike.openCounts, alike.lastTradeTicks⟩

theorem trackOrder (orderId : Nat) (participantId : Int) (stream : Nat) :
    Alike pools (first.trackOrder orderId participantId stream)
      (second.trackOrder orderId participantId stream) where
  engines := alike.engines
  symbol := alike.symbol
  limits := alike.limits
  uidMap := by simp only [FrontEnd.trackOrder, alike.uidMap]
  openCounts := by simp only [FrontEnd.trackOrder, alike.uidMap, alike.openCounts]
  lastTradeTicks := alike.lastTradeTicks

theorem untrackOrder (orderId : Nat) :
    Alike pools (first.untrackOrder orderId) (second.untrackOrder orderId) := by
  unfold FrontEnd.untrackOrder
  rw [alike.uidMap]
  split
  · exact alike
  · exact
      { engines := alike.engines
        symbol := alike.symbol
        limits := alike.limits
        uidMap := rfl
        openCounts := by simp only [alike.openCounts]
        lastTradeTicks := alike.lastTradeTicks }

theorem noteTrades (early late : Nat) (fills : List Matching.Fill) :
    Alike pools (fills.foldl (noteTrade early) first) (fills.foldl (noteTrade late) second) := by
  induction fills generalizing first second with
  | nil => exact alike
  | cons fill fills ih =>
    apply ih
    have noted : Alike pools
        { first with
          lastTradeTicks := fill.priceTicks
          breaker := first.breaker.onTrade early fill.priceTicks }
        { second with
          lastTradeTicks := fill.priceTicks
          breaker := second.breaker.onTrade late fill.priceTicks } :=
      ⟨alike.engines, alike.symbol, alike.limits, alike.uidMap, alike.openCounts, rfl⟩
    unfold noteTrade
    simp only [alike.engines.mem_orders_iff]
    split
    · exact noted
    · exact noted.untrackOrder _

theorem answer (result : PlaceOrderResult) :
    Alike pools (first.answer request result).1 (second.answer request result).1 := by
  unfold FrontEnd.answer
  split
  · exact alike.trackOrder _ _ _
  · exact alike.untrackOrder _
  · exact alike.trackOrder _ _ _
  · exact alike.untrackOrder _
  · exact alike

theorem newOrder (halts : HaltsAlike first second early late (.newOrder request))
    (inRange : InI64 request.quantityLots) :
    Alike pools (first.newOrder early request).1 (second.newOrder late request).1 := by
  unfold FrontEnd.newOrder
  rw [alike.gate_eq halts]
  cases second.gate late request with
  | some reason => exact alike
  | none =>
    obtain ⟨engine, otherEngine, result, placed, otherPlaced, enginesAfter⟩ :=
      alike.engines.placeOrder (filledLots_orderOf early request)
        (by rwa [quantityLots_orderOf]) late
    rw [placed, orderOf_stamped early late, otherPlaced]
    cases result with
    | error => exact alike.setEngines enginesAfter
    | ok result => exact ((alike.setEngines enginesAfter).answer result).noteTrades _ _ _

theorem cancelOrder (request : CancelOrderRequest) :
    Alike pools (first.cancelOrder request).1 (second.cancelOrder request).1 := by
  obtain ⟨engine, otherEngine, result, cancelled, otherCancelled, enginesAfter⟩ :=
    alike.engines.cancelOrder request.orderId
  unfold FrontEnd.cancelOrder
  rw [cancelled, otherCancelled]
  cases result with
  | error => exact alike.setEngines enginesAfter
  | ok result => exact (alike.setEngines enginesAfter).untrackOrder _

/-- Threads that are halted alike at an input publish the same and stay alike. -/
theorem handle (halts : HaltsAlike first second early late message) (inRange : InRange message) :
    (first.handle early message).2 = (second.handle late message).2 ∧
      Alike pools (first.handle early message).1 (second.handle late message).1 := by
  cases message with
  | newOrder request =>
    exact ⟨(newOrder_same alike.engines alike.symbol (alike.gate_eq halts) inRange).1,
      alike.newOrder halts inRange⟩
  | cancelOrder request =>
    refine ⟨(cancelOrder_same alike.engines fun _ => ?_).1, alike.cancelOrder request⟩
    rw [alike.uidMap]

/-- Threads that publish the same at an input were halted alike. -/
theorem haltsAlike_of_same
    (same : (first.handle early message).2 = (second.handle late message).2) :
    HaltsAlike first second early late message := by
  cases message with
  | newOrder request =>
    intro sameSymbol sized
    have gates := gate_eq_of_same alike.symbol same
    have tens : first.gate early request = some 10 ↔ second.gate late request = some 10 := by
      rw [gates]
    rw [gate_eq_ten_iff, gate_eq_ten_iff, ← alike.symbol] at tens
    simpa [sameSymbol, sized] using tens
  | cancelOrder request => trivial

end

end Alike

/-- An input and the times at which two threads handle it. -/
structure TwiceTimed where
  early : Nat
  late : Nat
  message : InboundMsg
  deriving DecidableEq, Repr

/-- The input as the first thread handles it. -/
def TwiceTimed.atEarly (input : TwiceTimed) : Nat × InboundMsg :=
  (input.early, input.message)

/-- The input as the second thread handles it. -/
def TwiceTimed.atLate (input : TwiceTimed) : Nat × InboundMsg :=
  (input.late, input.message)

/-- Both threads handle the input. -/
def handleBoth (threads : FrontEnd × FrontEnd) (input : TwiceTimed) : FrontEnd × FrontEnd :=
  ((threads.1.handle input.early input.message).1, (threads.2.handle input.late input.message).1)

/-- The threads are halted alike all along a run. -/
def RunHaltsAlike (first second : FrontEnd) (inputs : List TwiceTimed) : Prop :=
  Along handleBoth (fun threads input =>
    HaltsAlike threads.1 threads.2 input.early input.late input.message) (first, second) inputs
deriving Decidable

theorem Alike.run {inputs : List TwiceTimed}
    (alike : Alike pools first second) (halts : RunHaltsAlike first second inputs)
    (inRange : ∀ input ∈ inputs, InRange input.message) :
    (first.run (inputs.map (·.atEarly))).2 = (second.run (inputs.map (·.atLate))).2 ∧
      Alike pools (first.run (inputs.map (·.atEarly))).1
        (second.run (inputs.map (·.atLate))).1 := by
  induction inputs generalizing first second with
  | nil => exact ⟨rfl, alike⟩
  | cons input inputs ih =>
    obtain ⟨samePublished, alikeAfter⟩ := alike.handle halts.1 (inRange input (by simp))
    obtain ⟨sameLater, alikeEnd⟩ := ih alikeAfter halts.2
      fun other mem => inRange other (by simp [mem])
    exact ⟨congrArg₂ List.cons samePublished sameLater, alikeEnd⟩

theorem Alike.runHaltsAlike_of_same
    (alike : Alike pools first second) (inRange : ∀ input ∈ inputs, InRange input.message)
    (same : (first.run (inputs.map (·.atEarly))).2 = (second.run (inputs.map (·.atLate))).2) :
    RunHaltsAlike first second inputs := by
  induction inputs generalizing first second with
  | nil => trivial
  | cons input inputs ih =>
    obtain ⟨samePublished, sameLater⟩ := List.cons.inj same
    have halts := alike.haltsAlike_of_same samePublished
    obtain ⟨-, alikeAfter⟩ := alike.handle halts (inRange input (by simp))
    exact ⟨halts, ih alikeAfter (fun other mem => inRange other (by simp [mem])) sameLater⟩

/-- Two threads that take the same inputs at different times publish the same
messages and keep the same book exactly when they are halted alike. -/
theorem run_same_iff
    (symbol : Nat) (limits : Limits) (breaker : CircuitBreaker) (pools : PoolConfig)
    (inputs : List TwiceTimed) (inRange : ∀ input ∈ inputs, InRange input.message) :
    (((new symbol limits breaker pools).run (inputs.map (·.atEarly))).2 =
        ((new symbol limits breaker pools).run (inputs.map (·.atLate))).2 ∧
      ∀ side, ((new symbol limits breaker pools).run (inputs.map (·.atEarly))).1.engine.levels
          side =
        ((new symbol limits breaker pools).run (inputs.map (·.atLate))).1.engine.levels
          side) ↔
      RunHaltsAlike (new symbol limits breaker pools) (new symbol limits breaker pools)
        inputs := by
  have alike : Alike pools (new symbol limits breaker pools) (new symbol limits breaker pools) :=
    ⟨⟨_, MatchingEngine.sound_new pools, MatchingEngine.sound_new pools⟩, rfl, rfl, rfl, rfl, rfl⟩
  constructor
  · rintro ⟨same, -⟩
    exact alike.runHaltsAlike_of_same inRange same
  · intro halts
    obtain ⟨same, alikeEnd⟩ := alike.run halts inRange
    exact ⟨same, alikeEnd.engines.levels_eq⟩

/-- A good-till-cancel order of one lot. -/
def oneLot (orderId : Nat) (participantId priceTicks : Int) (side : Side) : InboundMsg :=
  .newOrder ⟨orderId, participantId, priceTicks, 1, side, .gtc, 0, false, 7⟩

/-- Two trades a second apart whose prices differ by a fifth, and an order right
after them.  The second thread handles that order when the halt is over. -/
def haltedOnlyLive : List TwiceTimed :=
  [⟨1000000000, 1000000000, oneLot 1 1 100 .sell⟩,
    ⟨1000000000, 1000000000, oneLot 2 2 100 .buy⟩,
    ⟨2000000000, 2000000000, oneLot 3 1 120 .sell⟩,
    ⟨2000000000, 2000000000, oneLot 4 2 120 .buy⟩, ⟨3000000000, 90000000000, oneLot 5 1 120 .sell⟩]

/-- A thread that halts for a minute after a move of a tenth within ten seconds. -/
def haltingThread : FrontEnd :=
  new 7 ⟨0, 0, 0, 0⟩ (CircuitBreaker.new 1000 10000000000 60000000000) ⟨4, 4⟩

/-- Until the halt, the runs agree. -/
theorem run_same_before_halt :
    (haltingThread.run ((haltedOnlyLive.take 4).map (·.atEarly))).2 =
        (haltingThread.run ((haltedOnlyLive.take 4).map (·.atLate))).2 ∧
      ∀ side, (haltingThread.run ((haltedOnlyLive.take 4).map (·.atEarly))).1.engine.levels
          side =
        (haltingThread.run ((haltedOnlyLive.take 4).map (·.atLate))).1.engine.levels
          side := by
  unfold haltingThread
  rw [run_same_iff _ _ _ _ _ (by decide +kernel)]
  decide +kernel

theorem not_run_same_haltedOnlyLive :
    ¬ ((haltingThread.run (haltedOnlyLive.map (·.atEarly))).2 =
        (haltingThread.run (haltedOnlyLive.map (·.atLate))).2 ∧
      ∀ side, (haltingThread.run (haltedOnlyLive.map (·.atEarly))).1.engine.levels side =
        (haltingThread.run (haltedOnlyLive.map (·.atLate))).1.engine.levels side) := by
  rintro ⟨samePublished, -⟩
  exact absurd samePublished (by decide +kernel)

end FrontEnd
end LightningX.Exchange
