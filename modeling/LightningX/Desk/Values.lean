import LightningX.Desk.Run
import LightningX.Exchange.Runs
import Mathlib.Tactic.Linarith
import Mathlib.Tactic.Ring

/-!
# The value of the legs of a sweep

An incoming order trades with makers at one or several prices.  The desk books
each maker from its own trade message and the taker from the single order
update, which carries the price of the last trade for all lots.  Both legs agree
exactly if the order trades at one price.
-/

namespace LightningX

open List

/-! ## Sums over a list with a largest key -/

/-- Gaps to a key that no other key exceeds add up to nothing only if there are
none. -/
theorem sum_gap_eq_zero_iff {α : Type} {key weight : α → Int} {items : List α}
    (below : ∀ item ∈ items, key item ≤ top) (weighted : ∀ item ∈ items, 0 < weight item) :
    (items.map fun item => (top - key item) * weight item).sum = 0 ↔
      ∀ item ∈ items, key item = top := by
  have nonneg : ∀ gap ∈ items.map fun item => (top - key item) * weight item, 0 ≤ gap := by
    intro gap mem
    obtain ⟨item, inItems, rfl⟩ := mem_map.mp mem
    have isBelow := below item inItems
    exact Int.mul_nonneg (by omega) (weighted item inItems).le
  constructor
  · intro isZero item mem
    have none := all_zero_of_le_zero_le_of_sum_eq_zero nonneg isZero
      (mem_map_of_mem mem)
    rcases Int.mul_eq_zero.mp none with gap | weightless
    · omega
    · have positive := weighted item mem
      omega
  · intro same
    refine sum_eq_zero fun gap mem => ?_
    obtain ⟨item, inItems, rfl⟩ := mem_map.mp mem
    rw [same item inItems, Int.sub_self, Int.zero_mul]

namespace Matching
namespace Reference

def bestLevel (order : Order) (book : List Resting) : List Resting :=
  match candidates order book with
  | [] => []
  | best :: worse => (best :: worse).takeWhile fun resting => resting.price = best.price

/-- The orders at the best price cover the order, or it accepts no other price. -/
def SinglePrice (order : Order) (book : List Resting) : Prop :=
  order.quantityLots ≤ lots (bestLevel order book) ∨ bestLevel order book = candidates order book
deriving Decidable

variable {book : List Resting} {want : Int}

/-- Lots are taken at one price exactly if the orders in front at that price suffice or
there are no others. -/
theorem consume_price_iff (wanted : 0 < want) (positive : Positive book) :
    (∀ fill ∈ consume want book, fill.priceTicks = price) ↔
      want ≤ lots (book.takeWhile fun resting => resting.price = price) ∨
        book.takeWhile (fun resting => resting.price = price) = book := by
  induction book generalizing want with
  | nil => simp [consume]
  | cons resting rest ih =>
    have restPositive : Positive rest := fun other mem => positive other (by simp [mem])
    rw [consume, if_neg (by omega), forall_mem_cons]
    by_cases same : resting.price = price
    · have keeps : (resting :: rest).takeWhile (fun resting => resting.price = price) =
          resting :: rest.takeWhile fun resting => resting.price = price := by
        rw [takeWhile_cons, if_pos (by simpa using same)]
      have lotsEq : ∀ orders, lots (resting :: orders) = resting.lots + lots orders := by
        intro orders
        simp [lots]
      rw [keeps, lotsEq]
      rcases le_or_gt want resting.lots with enough | short
      · have done : want - min want resting.lots ≤ 0 := by omega
        have nonneg : 0 ≤ lots (rest.takeWhile fun resting => resting.price = price) :=
          lots_nonneg fun other mem => restPositive other ((takeWhile_sublist _).subset mem)
        rw [consume_of_nonpos done]
        exact ⟨fun _ => .inl (by omega), fun _ => ⟨same, by simp⟩⟩
      · have later := @ih (want - min want resting.lots) (by omega) restPositive
        rw [later, List.cons.injEq]
        constructor
        · rintro ⟨-, covers | all⟩
          · exact .inl (by omega)
          · exact .inr ⟨rfl, all⟩
        · rintro (covers | ⟨-, all⟩)
          · exact ⟨same, .inl (by omega)⟩
          · exact ⟨same, .inr all⟩
    · have stops : (resting :: rest).takeWhile (fun resting => resting.price = price) = [] := by
        rw [takeWhile_cons, if_neg (by simpa using same)]
      rw [stops]
      refine ⟨fun both => absurd both.1 same, ?_⟩
      rintro (covers | isNil)
      · simp only [lots, map_nil, sum_nil] at covers
        omega
      · simp at isNil

/-- Fills have the prices of the orders they are taken from, in turn. -/
theorem consume_prices_sublist :
    ((consume want book).map (·.priceTicks)).Sublist (book.map (·.price)) := by
  induction book generalizing want with
  | nil => simp [consume]
  | cons resting rest ih =>
    rw [consume]
    split_ifs
    · simp
    · exact ih.cons_cons _

theorem consume_positive (positive : Positive book) :
    ∀ fill ∈ consume want book, 0 < fill.lots := by
  induction book generalizing want with
  | nil => simp [consume]
  | cons resting rest ih =>
    have front := positive resting (by simp)
    rw [consume]
    split_ifs with done
    · simp
    · rw [forall_mem_cons]
      refine ⟨?_, ih fun other mem => positive other (by simp [mem])⟩
      show 0 < min want resting.lots
      omega

/-- An order trades at the price of its first trade alone exactly if it meets one
price. -/
theorem fills_price_iff (submitted : 0 < order.quantityLots) (positive : Positive book)
    (isFills : fills order book = first :: later) :
    (∀ fill ∈ fills order book, fill.priceTicks = first.priceTicks) ↔ SinglePrice order book := by
  unfold fills at isFills ⊢
  unfold SinglePrice bestLevel
  cases isCandidates : candidates order book with
  | nil => simp [isCandidates, consume] at isFills
  | cons best worse =>
    rw [isCandidates, consume, if_neg (by omega), List.cons.injEq] at isFills
    rw [← isFills.1]
    exact consume_price_iff submitted (isCandidates ▸ positive.candidates)

/-- Trades get worse for the taker. -/
theorem fills_ranked (order : Order) (book : List Resting) :
    (fills order book).Pairwise fun first second =>
      rank order.side first.priceTicks ≤ rank order.side second.priceTicks := by
  have sorted : ((candidates order book).map (·.price)).Pairwise fun first second =>
      rank order.side first ≤ rank order.side second := by
    rw [pairwise_map]
    exact StableSort.pairwise_sortByKey _ _
  have prices := sorted.sublist (@consume_prices_sublist _ order.quantityLots)
  rwa [pairwise_map] at prices

end Reference
end Matching

open Matching Transport

/-! ## What a sweep publishes -/

namespace Exchange
namespace FrontEnd

variable {front : FrontEnd} {nowNs : Nat} {request : NewOrderRequest}

/-- The message of one trade. -/
def tradeOf (request : NewOrderRequest) (symbol : Nat) (fill : Fill) :
    TradeNotification where
  takerOrderId := request.clientOrderId
  makerOrderId := fill.makerId
  price := fill.priceTicks
  quantity := fill.lots
  side := request.side
  symbol := symbol

/-- An order that trades publishes its trades and one update with the last price and
all lots. -/
structure Reports (front : FrontEnd) (nowNs : Nat) (request : NewOrderRequest)
    (published : Published) : Prop where
  reported : ∃ result last update,
    MatchingEngine.Executes front.engine (orderOf nowNs request) result ∧
    result.fills.getLast? = some last ∧
    published = ⟨[(request.responseStreamId, update)],
      result.fills.map (tradeOf request front.symbol)⟩ ∧
    (update.kind = .filled ∨ update.kind = .partialFill) ∧
    update.fillPrice = last.priceTicks ∧ update.fillQty = result.filledLots

theorem reports_newOrder (sound : front.Sound pools) (inRange : InI64 request.quantityLots)
    (trades : (front.newOrder nowNs request).2.trades ≠ []) :
    Reports front nowNs request (front.newOrder nowNs request).2 := by
  obtain ⟨book, isSound⟩ := sound
  unfold newOrder at trades ⊢
  cases gated : front.gate nowNs request with
  | some reason => simp [gated, reject] at trades
  | none =>
    simp only [gated] at trades ⊢
    rcases placed : front.engine.placeOrder (orderOf nowNs request) with ⟨engine, answer⟩
    cases answer with
    | error reason => simp [placed, reject] at trades
    | ok result =>
      simp only [placed] at trades ⊢
      have some : result.fills ≠ [] := by simpa using trades
      have executes := isSound.executes (filledLots_orderOf nowNs request)
        (by rwa [quantityLots_orderOf]) (congrArg Prod.snd placed) some
      have isLast := List.getLast?_eq_some_getLast some
      refine ⟨result, result.fills.getLast some,
        (({ front with engine := engine } : FrontEnd).answer request result).2,
        executes, isLast, ?_, ?_⟩
      · simp only [symbol_answer]
        rfl
      · rcases executes.status with filled | partly
        · simp [FrontEnd.answer, filled, isLast, OrderUpdateMsg.filled]
        · simp [FrontEnd.answer, partly, isLast, OrderUpdateMsg.partialFill]

end FrontEnd
end Exchange

/-! ## What the desk books -/

namespace Desk

open Risk Arithmetic Exchange

def SymbolRules.Listed (rules : SymbolRules) : Prop :=
  rules = .btcUsdt ∨ rules = .ethUsdt ∨ rules = .solUsdt
deriving Decidable

/-- The value of one lot at one tick. -/
def SymbolRules.unitAtoms (rules : SymbolRules) : Int :=
  atomsPerCent / rules.notionalScale

/-- The value of a fill. -/
def RiskCall.value (arith : Arithmetic) : RiskCall → Int
  | .fill report => calcNotionalAtoms arith report.priceTicks report.qtyLots report.notionalScale
  | _ => 0

/-- The fee of a fill. -/
def RiskCall.feeAtoms : RiskCall → Int
  | .fee _ amount => amount
  | _ => 0

/-- Calls for the taker of some updates. -/
def takerLeg (config : Config) (details : OrderRuntimeMeta)
    (updates : List (Nat × OrderUpdateMsg)) : List RiskCall :=
  updates.flatMap fun update => takerCalls machine config update.2 (some details)

/-- Calls for the makers of some trades. -/
def makerLegs (config : Config) (desk : State) (trades : List TradeNotification) :
    List RiskCall :=
  trades.flatMap (desk.tradeCalls machine config)

/-- The value booked for the taker is that booked for the makers, and its fee is the
fee of that value. -/
structure LegsAgree (config : Config) (details : OrderRuntimeMeta) (desk : State)
    (published : Published) : Prop where
  value : ((takerLeg config details published.updates).map (·.value machine)).sum =
    ((makerLegs config desk published.trades).map (·.value machine)).sum
  fee : details.liqPriceTicks = 0 →
    ((takerLeg config details published.updates).map (·.feeAtoms)).sum =
      Risk.feeAtoms machine
        ((makerLegs config desk published.trades).map (·.value machine)).sum
        (config.takerFeeBps details.symbol)

section

variable {config : Config} {desk : State} {rules : SymbolRules}

theorem SymbolRules.Listed.scale (listed : rules.Listed) :
    0 < rules.notionalScale ∧ 0 < rules.unitAtoms ∧
      rules.unitAtoms * rules.notionalScale = 1000000 := by
  rcases listed with rfl | rfl | rfl <;> decide

/-- Nothing is rounded or wraps in the value of a fill that fits. -/
theorem calcNotionalAtoms_of_fits
    (listed : rules.Listed) (fits : InI64 (price * lots * rules.unitAtoms)) :
    calcNotionalAtoms machine price lots rules.notionalScale = price * lots * rules.unitAtoms := by
  obtain ⟨scaled, unit, product⟩ := listed.scale
  have inAtoms : price * lots * atomsPerCent =
      price * lots * rules.unitAtoms * rules.notionalScale := by
    rw [Int.mul_assoc (price * lots), product]
    rfl
  have wide : (price * lots * atomsPerCent).bmod (2 ^ 128) = price * lots * atomsPerCent := by
    obtain ⟨lower, upper⟩ := fits
    rw [inAtoms]
    generalize price * lots * rules.unitAtoms = value at lower upper
    have below : value * rules.notionalScale ≤ 2 ^ 63 * 1000000 := by nlinarith
    have above : -(2 ^ 63 * 1000000) ≤ value * rules.notionalScale := by nlinarith
    rw [Int.bmod_eq_of_le] <;> omega
  unfold calcNotionalAtoms machine
  simp only
  rw [wide, inAtoms, Int.mul_tdiv_cancel _ (by omega)]
  exact wrapI64_eq fits

theorem sum_value_makerLegs {request : NewOrderRequest} {fills : List Matching.Fill}
    (listed : (config.rules symbol).Listed)
    (known : ∀ fill ∈ fills, desk.runtimeUserId fill.makerId ≠ 0)
    (positive : ∀ fill ∈ fills, 0 < fill.lots)
    (fits : ∀ fill ∈ fills, InI64 (fill.priceTicks * fill.lots * (config.rules symbol).unitAtoms)) :
    ((makerLegs config desk (fills.map (FrontEnd.tradeOf request symbol))).map
        (·.value machine)).sum =
      (fills.map fun fill =>
        fill.priceTicks * fill.lots * (config.rules symbol).unitAtoms).sum := by
  induction fills with
  | nil => rfl
  | cons fill fills ih =>
    have booked : ¬ ((desk.settleEntry (FrontEnd.tradeOf request symbol fill)).makerUid = 0 ∨
        (desk.settleEntry (FrontEnd.tradeOf request symbol fill)).trade.quantity ≤ 0) :=
      not_or.mpr ⟨known fill (by simp), Int.not_le.mpr (positive fill (by simp))⟩
    have first : ((desk.tradeCalls machine config
        (FrontEnd.tradeOf request symbol fill)).map (·.value machine)).sum =
        fill.priceTicks * fill.lots * (config.rules symbol).unitAtoms := by
      rw [State.tradeCalls, State.makerCalls, if_neg booked]
      simp only [map_cons, map_nil, sum_cons, sum_nil, RiskCall.value, Int.add_zero]
      exact calcNotionalAtoms_of_fits listed (fits fill (by simp))
    rw [map_cons, makerLegs, flatMap_cons, map_append, sum_append, map_cons]
    congr 1
    exact ih (fun other mem => known other (by simp [mem]))
      (fun other mem => positive other (by simp [mem]))
      (fun other mem => fits other (by simp [mem]))

/-- The value and the fee booked for the taker. -/
theorem takerLeg_singleton {stream : Nat} {update : OrderUpdateMsg}
    (isFill : update.kind = .filled ∨ update.kind = .partialFill) (lots : 0 < update.fillQty) :
    ((takerLeg config details [(stream, update)]).map (·.value machine)).sum =
        calcNotionalAtoms machine update.fillPrice update.fillQty
          (config.rules details.symbol).notionalScale ∧
      (details.liqPriceTicks = 0 →
        ((takerLeg config details [(stream, update)]).map (·.feeAtoms)).sum =
          Risk.feeAtoms machine
            ((takerLeg config details [(stream, update)]).map (·.value machine)).sum
            (config.takerFeeBps details.symbol)) := by
  have booked : (reportsFill update && decide (update.fillQty > 0)) = true := by
    simp [reportsFill, isFill, lots]
  unfold takerLeg takerCalls
  simp only [flatMap_cons, if_pos booked]
  by_cases ordinary : details.liqPriceTicks = 0
  · simp [ordinary, RiskCall.value, RiskCall.feeAtoms, fillOf, feeOf]
  · simp [ordinary, RiskCall.value, fillOf]

/-- Fewer lots at a price are worth no more. -/
theorem inI64_value_of_le (isUnit : 0 < unit) (some : 0 < lots) (less : lots ≤ most)
    (fits : InI64 (price * most * unit)) : InI64 (price * lots * unit) := by
  obtain ⟨lower, upper⟩ := fits
  rcases le_total 0 price with nonneg | nonpos
  · have least : 0 ≤ price * lots * unit := by positivity
    have atMost : price * lots * unit ≤ price * most * unit := by gcongr
    exact ⟨by omega, by omega⟩
  · have atMost : price * lots * unit ≤ 0 := by
      have product : price * lots ≤ 0 := Int.mul_nonpos_of_nonpos_of_nonneg nonpos some.le
      exact Int.mul_nonpos_of_nonpos_of_nonneg product isUnit.le
    have least : price * most * unit ≤ price * lots * unit := by
      have product : price * most ≤ price * lots := Int.mul_le_mul_of_nonpos_left nonpos less
      exact Int.mul_le_mul_of_nonneg_right product isUnit.le
    exact ⟨by omega, by omega⟩

/-- The lots at the last price are worth what the fills are worth exactly if all of
them have the last price. -/
theorem lastPrice_value_iff {result : PlaceOrderResult}
    (isUnit : 0 < unit) (isFills : result.fills = Reference.fills order book)
    (positive : ∀ fill ∈ result.fills, 0 < fill.lots) (isLast : result.fills.getLast? = some last) :
    last.priceTicks * Reference.traded result.fills * unit =
        (result.fills.map fun fill => fill.priceTicks * fill.lots * unit).sum ↔
      ∀ fill ∈ result.fills, fill.priceTicks = last.priceTicks := by
  have ranked := Reference.fills_ranked order book
  rw [← isFills] at ranked
  generalize result.fills = fills at *
  obtain ⟨front, rfl⟩ : ∃ front, fills = front ++ [last] :=
    ⟨fills.dropLast, (dropLast_append_getLast? last isLast).symm⟩
  have below : ∀ fill ∈ front ++ [last],
      Reference.rank order.side fill.priceTicks ≤ Reference.rank order.side last.priceTicks := by
    intro fill mem
    rcases mem_append.mp mem with inFront | isLastFill
    · exact (pairwise_append.mp ranked).2.2 fill inFront last (by simp)
    · rw [mem_singleton.mp isLastFill]
  have gaps := sum_gap_eq_zero_iff below positive
  have expand : ∀ fills : List Matching.Fill,
      (fills.map fun fill => (Reference.rank order.side last.priceTicks -
        Reference.rank order.side fill.priceTicks) * fill.lots).sum * unit =
      Reference.rank order.side (last.priceTicks * Reference.traded fills * unit -
        (fills.map fun fill => fill.priceTicks * fill.lots * unit).sum) := by
    intro fills
    induction fills with
    | nil => cases order.side <;> simp [Reference.rank, Reference.traded]
    | cons fill fills ih =>
      simp only [Reference.traded, map_cons, sum_cons] at ih ⊢
      rw [Int.add_mul, ih]
      cases order.side <;> simp only [Reference.rank] <;> ring
  have rankZero : ∀ value : Int, Reference.rank order.side value = 0 ↔ value = 0 := by
    intro value
    cases order.side <;> simp [Reference.rank]
  have rankInj : ∀ first second : Int,
      Reference.rank order.side first = Reference.rank order.side second ↔ first = second := by
    intro first second
    cases order.side <;> simp [Reference.rank]
  rw [← Int.sub_eq_zero, ← rankZero, ← expand, Int.mul_eq_zero, or_iff_left isUnit.ne', gaps]
  simp only [rankInj]

end

/-- The legs of a sweep agree exactly if the orders at the best price cover the order
or it accepts no other price. -/
theorem legsAgree_iff_singlePrice
    {symbol : Symbol} {limits : Limits} {breaker : CircuitBreaker} {pools : PoolConfig}
    {messages : List (Nat × InboundMsg)} {nowNs : Nat} {request : NewOrderRequest}
    {config : Config} {details : OrderRuntimeMeta} {desk : State} {front : FrontEnd}
    (reached : ((FrontEnd.new symbol limits breaker pools).run messages).1 = front)
    (messagesInRange : ∀ message ∈ messages, InRange message.2)
    (inRange : InI64 request.quantityLots) (listed : (config.rules symbol).Listed)
    (fits : ∀ resting ∈ front.engine.resting,
      InI64 (resting.price * request.quantityLots * (config.rules symbol).unitAtoms))
    (isSymbol : details.symbol = symbol)
    (known : ∀ trade ∈ (front.newOrder nowNs request).2.trades,
      desk.runtimeUserId trade.makerOrderId ≠ 0)
    (trades : (front.newOrder nowNs request).2.trades ≠ []) :
    LegsAgree config details desk (front.newOrder nowNs request).2 ↔
      Reference.SinglePrice (FrontEnd.orderOf nowNs request) front.engine.resting := by
  have sound : front.Sound pools := by
    rw [← reached]
    exact (FrontEnd.sound_new symbol limits breaker).run messagesInRange
  have sameSymbol : front.symbol = symbol := by
    rw [← reached, FrontEnd.symbol_run]
    rfl
  have positiveBook : Reference.Positive front.engine.resting := by
    obtain ⟨book, isSound⟩ := sound
    rw [isSound.resting_eq]
    exact isSound.resting_positive
  obtain ⟨result, last, update, executes, isLast, isPublished, isFill, isPrice, isLots⟩ :=
    FrontEnd.reports_newOrder sound inRange trades
  have submitted := executes.submitted
  have isFills := executes.fills
  have positive : ∀ fill ∈ result.fills, 0 < fill.lots := by
    rw [isFills]
    exact Reference.consume_positive positiveBook.candidates
  have isUnit := listed.scale.2.1
  have priceTime := Reference.priceTime_fills submitted.le positiveBook
  rw [← isFills] at priceTime
  have fillFits : ∀ fill ∈ result.fills, ∀ lots, 0 < lots → lots ≤ request.quantityLots →
      InI64 (fill.priceTicks * lots * (config.rules symbol).unitAtoms) := by
    intro fill member lots some less
    obtain ⟨maker, inBook, -, -, isMakerPrice, -⟩ := priceTime.prices fill member
    exact inI64_value_of_le isUnit some less (isMakerPrice ▸ fits maker inBook)
  have lotsLe : ∀ fill ∈ result.fills, fill.lots ≤ Reference.traded result.fills := by
    intro fill member
    refine single_le_sum (fun lots inLots => ?_) fill.lots (mem_map_of_mem member)
    obtain ⟨other, inFills, rfl⟩ := mem_map.mp inLots
    exact (positive other inFills).le
  have lastMember : last ∈ result.fills := mem_of_getLast? isLast
  have some : 0 < Reference.traded result.fills :=
    (positive last lastMember).trans_le (lotsLe last lastMember)
  have less := priceTime.atMost.2
  rw [FrontEnd.quantityLots_orderOf] at less
  rw [isPublished] at known ⊢
  obtain ⟨takerValue, takerFee⟩ := @takerLeg_singleton config details
    request.responseStreamId update isFill (by rwa [isLots, executes.filledLots])
  rw [isSymbol, isPrice, isLots, executes.filledLots,
    calcNotionalAtoms_of_fits listed (fillFits last lastMember _ some less)] at takerValue
  have makersValue := @sum_value_makerLegs config desk symbol request result.fills listed
    (fun fill member => known _ (mem_map_of_mem member)) positive
    (fun fill member => fillFits fill member _ (positive fill member)
      ((lotsLe fill member).trans less))
  have onlyValue : LegsAgree config details desk
      ⟨[(request.responseStreamId, update)],
        result.fills.map (FrontEnd.tradeOf request front.symbol)⟩ ↔
      last.priceTicks * Reference.traded result.fills * (config.rules symbol).unitAtoms =
        (result.fills.map fun fill =>
          fill.priceTicks * fill.lots * (config.rules symbol).unitAtoms).sum := by
    rw [← takerValue, ← makersValue, ← sameSymbol]
    exact ⟨LegsAgree.value, fun same => ⟨same, fun ordinary => same ▸ takerFee ordinary⟩⟩
  rw [onlyValue, lastPrice_value_iff isUnit isFills positive isLast]
  cases isCons : result.fills with
  | nil => simp [isCons] at lastMember
  | cons first later =>
    rw [← Reference.fills_price_iff submitted positiveBook (isFills.symm.trans isCons),
      ← isFills, isCons]
    have toFirst : first ∈ first :: later := by simp
    have toLast : last ∈ first :: later := isCons ▸ lastMember
    constructor
    · exact fun same fill member => (same fill member).trans (same first toFirst).symm
    · exact fun same fill member => (same fill member).trans (same last toLast).symm

/-- A thread with two offers of 60 lots in its book. -/
def twoOffers (firstTicks secondTicks : Int) : FrontEnd :=
  ((FrontEnd.new 7 ⟨0, 0, 0, 0⟩ (.new 0 0 0) ⟨4, 4⟩).run
    [(0, .newOrder ⟨1, 8, firstTicks, 60, .sell, .gtc, 0, false, 7⟩),
      (0, .newOrder ⟨2, 8, secondTicks, 60, .sell, .gtc, 0, false, 7⟩)]).1

/-- The desk of their owner. -/
def twoOffersDesk : State :=
  ((State.new 0 .new ∅ 3).rememberRuntimeOrder 1 (.remembered 8 0 60 .sell 7 0)
    ).rememberRuntimeOrder 2 (.remembered 8 0 60 .sell 7 0)

/-- A bid that takes 100 of their lots. -/
def takesBoth : NewOrderRequest := ⟨3, 4, 11000000, 100, .buy, .gtc, 0, false, 7⟩

/-- Both offers have one price. -/
theorem legsAgree_samePrice :
    LegsAgree .btcUsdt (.remembered 4 11000000 100 .buy 7 100000000) twoOffersDesk
      ((twoOffers 10000000 10000000).newOrder 0 takesBoth).2 := by
  refine (legsAgree_iff_singlePrice (show _ = twoOffers 10000000 10000000 from rfl) ?_ ?_ ?_ ?_
    rfl ?_ ?_).mpr ?_
  all_goals decide +kernel

/-- The offers have different prices, and the bid is booked at the worse one. -/
theorem not_legsAgree_twoPrices :
    ¬ LegsAgree .btcUsdt (.remembered 4 11000000 100 .buy 7 110000000) twoOffersDesk
      ((twoOffers 10000000 11000000).newOrder 0 takesBoth).2 := by
  intro agree
  exact absurd agree.value (by decide +kernel)

end Desk
end LightningX
