import LightningX.Lib.StableSort
import LightningX.Matching.Book
import LightningX.Matching.Engine.Defs
import Mathlib.Algebra.Order.BigOperators.Group.List

/-!
# The reference matcher

What price-time priority means, without any data structure: the book is the
list of resting orders in order of arrival.  An incoming order trades with the
opposite orders it accepts, best price first and, at one price, in order of
arrival, each at its own price, until it is filled.
-/

namespace LightningX.Matching

open List StableSort

namespace Reference

variable {want : Int}

def Accepts (order : Order) (price : Int) : Prop :=
  order.isMarket = true ∨
    match order.side with
    | .buy => price ≤ order.priceTicks
    | .sell => order.priceTicks ≤ price

instance (order : Order) (price : Int) : Decidable (Accepts order price) := by
  unfold Accepts
  cases order.side <;> infer_instance

/-- Position of a price for a taker: the smaller, the better. -/
def rank (taker : Side) (price : Int) : Int :=
  match taker with
  | .buy => price
  | .sell => -price

/-- The orders an order can trade with, in the order in which it does. -/
def candidates (order : Order) (book : List Resting) : List Resting :=
  sortByKey (fun resting => rank order.side resting.price)
    (book.filter fun resting =>
      decide (resting.side = order.side.opposite ∧ Accepts order resting.price))

/-- Take lots from a list of orders, front first. -/
def consume : Int → List Resting → List Fill
  | _, [] => []
  | want, resting :: rest =>
    if want ≤ 0 then []
    else
      { makerId := resting.orderId, priceTicks := resting.price,
        lots := min want resting.lots } ::
        consume (want - min want resting.lots) rest

/-- The trades of an incoming order. -/
def fills (order : Order) (book : List Resting) : List Fill :=
  consume order.quantityLots (candidates order book)

def traded (fills : List Fill) : Int :=
  (fills.map (·.lots)).sum

def lots (book : List Resting) : Int :=
  (book.map (·.lots)).sum

def afterFill (fill : Fill) (resting : Resting) : Option Resting :=
  if resting.orderId ≠ fill.makerId then some resting
  else if resting.lots ≤ fill.lots then none
  else some { resting with lots := resting.lots - fill.lots }

def settle (fills : List Fill) (book : List Resting) : List Resting :=
  fills.foldl (fun book fill => book.filterMap (afterFill fill)) book

/-- What is reported of an order with some lots filled. -/
def status (order : Order) (filledLots : Int) : OrderStatus :=
  if order.quantityLots ≤ filledLots then .filled
  else if 0 < filledLots then .partiallyFilled
  else if order.mayRest then .accepted
  else .rejected

/-- The unfilled part of an order, queued last if it may stay in the book. -/
def remainder (order : Order) (filledLots : Int) : List Resting :=
  if order.mayRest ∧ filledLots < order.quantityLots then
    [{ orderId := order.id, side := order.side, price := order.priceTicks,
       lots := order.quantityLots - filledLots }]
  else []

/-- The order may not be executed at all. -/
def Rejects (order : Order) (book : List Resting) : Prop :=
  order.isPostOnly ∧ candidates order book ≠ [] ∨
    order.isFok ∧ lots (candidates order book) < order.quantityLots
deriving Decidable

/-- Executing an order that passed the checks. -/
def execute (order : Order) (book : List Resting) :
    List Resting × PlaceOrderResult :=
  if Rejects order book then
    (book, { orderId := order.id, filledLots := 0, status := .rejected, fills := [] })
  else
    (settle (fills order book) book ++ remainder order (traded (fills order book)),
      { orderId := order.id
        filledLots := traded (fills order book)
        status := status order (traded (fills order book))
        fills := fills order book })

def place (order : Order) (book : List Resting) :
    List Resting × OrderResult PlaceOrderResult :=
  if order.isMarket = false ∧ order.priceTicks ≤ 0 then
    (book, .error (.invalidPrice order.priceTicks))
  else if order.quantityLots ≤ 0 then
    (book, .error (.invalidQuantity order.quantityLots))
  else if order.id ∈ book.map (·.orderId) then
    (book, .error (.duplicateOrderId order.id))
  else ((execute order book).1, .ok (execute order book).2)

/-- Cancelling an order. -/
def cancel (orderId : Nat) (book : List Resting) :
    List Resting × OrderResult CancelOrderResult :=
  match book.find? fun resting => resting.orderId == orderId with
  | none => (book, .error .orderNotFound)
  | some resting =>
    (book.filter fun other => decide (other.orderId ≠ orderId),
      .ok { orderId := orderId, cancelledQuantity := resting.lots })

def step (book : List Resting) : Call → List Resting × Answer
  | .place request =>
    let (book, result) := place request.order book
    (book, .placed result)
  | .cancel orderId =>
    let (book, result) := cancel orderId book
    (book, .cancelled result)

def run (book : List Resting) : List Call → List Resting × List Answer
  | [] => (book, [])
  | call :: calls =>
    let (book, answer) := step book call
    let (book, answers) := run book calls
    (book, answer :: answers)

/-- An order that passes the checks is executed. -/
theorem place_eq_execute (priced : ¬ (order.isMarket = false ∧ order.priceTicks ≤ 0))
    (sized : 0 < order.quantityLots) (unknown : order.id ∉ book.map (·.orderId)) :
    place order book = ((execute order book).1, .ok (execute order book).2) := by
  rw [place, if_neg priced, if_neg (not_le.mpr sized), if_neg unknown]

def queuedAt (side : Side) (price : Int) (resting : Resting) : Bool :=
  decide (resting.side = side ∧ resting.price = price)

/-- Every queue of the two books is the same list.  Only orders of different
queues may have arrived in another order. -/
def SameQueues (first second : List Resting) : Prop :=
  ∀ side price, first.filter (queuedAt side price) = second.filter (queuedAt side price)

variable {order : Order} {fill : Fill} {resting : Resting} {book first second third : List Resting}

theorem filterMap_afterFill_filter
    (stable : ∀ resting lots, test { resting with lots := lots } = test resting) (fill : Fill)
    (book : List Resting) :
    (book.filterMap (afterFill fill)).filter test =
      (book.filter test).filterMap (afterFill fill) := by
  induction book with
  | nil => rfl
  | cons resting rest ih =>
    have keeps : ∀ after ∈ afterFill fill resting, test after = test resting := by
      intro after isAfter
      unfold afterFill at isAfter
      split_ifs at isAfter
      · rw [← Option.mem_some.mp isAfter]
      · simp at isAfter
      · rw [← Option.mem_some.mp isAfter, stable]
    rw [filterMap_cons, filter_cons]
    cases outcome : afterFill fill resting with
    | none =>
      split_ifs
      · simpa [outcome] using ih
      · simpa using ih
    | some after =>
      have same := keeps after outcome
      split_ifs with tested
      · simp [same, tested, outcome, ih]
      · simp [same, tested, ih]

/-- Fills do not move orders between queues. -/
theorem settle_filter (stable : ∀ resting lots, test { resting with lots := lots } = test resting)
    (fills : List Fill) (book : List Resting) :
    (settle fills book).filter test = settle fills (book.filter test) := by
  induction fills generalizing book with
  | nil => rfl
  | cons fill fills ih =>
    simp only [settle, foldl_cons] at ih ⊢
    rw [ih, filterMap_afterFill_filter stable]

/-- Fills of other orders leave a list alone. -/
theorem filterMap_afterFill_of_ne (others : ∀ resting ∈ book, resting.orderId ≠ fill.makerId) :
    book.filterMap (afterFill fill) = book := by
  have kept : ∀ resting ∈ book, afterFill fill resting = some resting :=
    fun resting mem => if_pos (others resting mem)
  rw [filterMap_congr kept]
  exact filterMap_some

theorem settle_of_ne {fills : List Fill}
    (others : ∀ fill ∈ fills, ∀ resting ∈ book, resting.orderId ≠ fill.makerId) :
    settle fills book = book := by
  induction fills with
  | nil => rfl
  | cons fill fills ih =>
    rw [settle, foldl_cons, filterMap_afterFill_of_ne (others fill (by simp))]
    exact ih fun other mem => others other (by simp [mem])

theorem settle_append (fills : List Fill) (first second : List Resting) :
    settle fills (first ++ second) = settle fills first ++ settle fills second := by
  induction fills generalizing first second with
  | nil => rfl
  | cons fill fills ih =>
    simp only [settle, foldl_cons, filterMap_append] at ih ⊢
    rw [ih]

/-- The candidates at one price are the queue of that price. -/
theorem bucket_candidates (order : Order) (book : List Resting) (value : Int) :
    bucket (fun resting => rank order.side resting.price) value
        (book.filter fun resting =>
          decide (resting.side = order.side.opposite ∧ Accepts order resting.price)) =
      if Accepts order (rank order.side value) then
        book.filter (queuedAt order.side.opposite (rank order.side value))
      else [] := by
  have inverse : ∀ price, rank order.side price = value ↔ price = rank order.side value := by
    intro price
    cases order.side with
    | buy => exact Iff.rfl
    | sell => exact neg_eq_iff_eq_neg
  rw [bucket, filter_filter]
  split_ifs with accepted
  · refine filter_congr fun resting mem => ?_
    rw [queuedAt, ← Bool.decide_and, decide_eq_decide, inverse]
    constructor
    · rintro ⟨atPrice, opposite, -⟩
      exact ⟨opposite, atPrice⟩
    · rintro ⟨opposite, atPrice⟩
      exact ⟨atPrice, opposite, atPrice ▸ accepted⟩
  · refine filter_eq_nil_iff.mpr fun resting mem => ?_
    rw [← Bool.decide_and, decide_eq_true_eq, inverse]
    rintro ⟨atPrice, -, accepts⟩
    exact accepted (atPrice ▸ accepts)

namespace SameQueues

theorem refl (book : List Resting) : SameQueues book book :=
  fun _ _ => rfl

section

variable (same : SameQueues first second)
include same

theorem trans (same' : SameQueues second third) : SameQueues first third :=
  fun side price => (same side price).trans (same' side price)

theorem perm : first ~ second := by
  rw [perm_iff_count]
  intro resting
  have own : queuedAt resting.side resting.price resting = true := by simp [queuedAt]
  rw [← count_filter own, same resting.side resting.price, count_filter own]

theorem settle (fills : List Fill) : SameQueues (settle fills first) (settle fills second) := by
  intro side price
  have stable : ∀ (resting : Resting) (lots : Int),
      queuedAt side price { resting with lots := lots } = queuedAt side price resting :=
    fun _ _ => rfl
  rw [settle_filter stable, settle_filter stable, same side price]

theorem append (more : List Resting) : SameQueues (first ++ more) (second ++ more) := by
  intro side price
  rw [filter_append, filter_append, same side price]

theorem filter (test : Resting → Bool) : SameQueues (first.filter test) (second.filter test) := by
  intro side price
  have swap : ∀ book : List Resting, (book.filter test).filter (queuedAt side price) =
      (book.filter (queuedAt side price)).filter test := by
    intro book
    rw [filter_filter, filter_filter]
    exact filter_congr fun resting _ => Bool.and_comm _ _
  rw [swap, swap, same side price]

theorem candidates_eq : candidates order first = candidates order second := by
  refine eq_sortByKey (pairwise_sortByKey _ _) fun value => ?_
  rw [candidates, bucket_sortByKey, bucket_candidates, bucket_candidates, same]

/-- Books with the same queues cannot be told apart by placing an order. -/
theorem place :
    (place order first).2 = (place order second).2 ∧
      SameQueues (place order first).1 (place order second).1 := by
  have candidatesEq : candidates order first = candidates order second := same.candidates_eq
  have fillsEq : fills order first = fills order second := by rw [fills, fills, candidatesEq]
  have known : order.id ∈ first.map (·.orderId) ↔ order.id ∈ second.map (·.orderId) :=
    (same.perm.map _).mem_iff
  have rejects : Rejects order first ↔ Rejects order second := by
    rw [Rejects, Rejects, candidatesEq]
  simp only [Reference.place, execute, fillsEq, known, rejects]
  split_ifs
  · exact ⟨rfl, same⟩
  · exact ⟨rfl, same⟩
  · exact ⟨rfl, same⟩
  · exact ⟨rfl, same⟩
  · exact ⟨rfl, (same.settle _).append _⟩

end

end SameQueues

/-- Orders have lots. -/
def Positive (book : List Resting) : Prop :=
  ∀ resting ∈ book, 0 < resting.lots

theorem lots_nonneg (positive : Positive book) : 0 ≤ lots book :=
  sum_nonneg (by simpa using fun resting mem => (positive resting mem).le)

theorem consume_of_nonpos (none : want ≤ 0) (book : List Resting) : consume want book = [] := by
  cases book with
  | nil => rfl
  | cons => exact if_pos none

/-- As much is traded as is wanted and offered. -/
theorem traded_consume (nonneg : 0 ≤ want) (positive : Positive book) :
    traded (consume want book) = min want (lots book) := by
  induction book generalizing want with
  | nil => simp [consume, traded, lots, nonneg]
  | cons resting rest ih =>
    have restPositive : Positive rest := fun other mem => positive other (by simp [mem])
    have restNonneg := lots_nonneg restPositive
    have headPositive := positive resting (by simp)
    have lotsEq : lots (resting :: rest) = resting.lots + lots rest := by simp [lots]
    rw [consume]
    split_ifs with done
    · simp only [traded, map_nil, sum_nil]
      omega
    · have remaining : 0 ≤ want - min want resting.lots := by omega
      have later := ih remaining restPositive
      simp only [traded, map_cons, sum_cons] at later ⊢
      omega

/-- A fill that takes an order completely. -/
def wholeFill (resting : Resting) : Fill where
  makerId := resting.orderId
  priceTicks := resting.price
  lots := resting.lots

/-- Either nothing is wanted or offered, or some orders are taken completely and
one more in whole or in part. -/
theorem consume_cases (nonneg : 0 ≤ want) (positive : Positive book) :
    (consume want book = [] ∧ (want = 0 ∨ book = [])) ∨
    ∃ taken last taking untouched, book = taken ++ last :: untouched ∧
      consume want book = taken.map wholeFill ++ [{ wholeFill last with lots := taking }] ∧
      (traded (consume want book) = want ∨ untouched = [] ∧ taking = last.lots) := by
  induction book generalizing want with
  | nil => exact Or.inl ⟨rfl, Or.inr rfl⟩
  | cons resting rest ih =>
    by_cases done : want ≤ 0
    · exact Or.inl ⟨consume_of_nonpos done _, Or.inl (by omega)⟩
    · right
      have restPositive : Positive rest := fun other mem => positive other (by simp [mem])
      have remaining : 0 ≤ want - min want resting.lots := by omega
      have unfold_consume : consume want (resting :: rest) =
          { wholeFill resting with lots := min want resting.lots } ::
            consume (want - min want resting.lots) rest := if_neg done
      have tradedEq : traded (consume want (resting :: rest)) = min want resting.lots +
          traded (consume (want - min want resting.lots) rest) := by
        rw [unfold_consume, traded, map_cons, sum_cons, traded]
      rcases ih remaining restPositive with
        ⟨nothing, finished⟩ | ⟨taken, last, taking, untouched, split, more, finished⟩
      · refine ⟨[], resting, min want resting.lots, rest, rfl, ?_, ?_⟩
        · rw [unfold_consume, nothing]
          rfl
        · rw [tradedEq, nothing]
          simp only [traded, map_nil, sum_nil]
          rcases finished with zero | isNil
          · exact Or.inl (by omega)
          · rcases le_total want resting.lots with less | enough
            · exact Or.inl (by omega)
            · exact Or.inr ⟨isNil, by omega⟩
      · have wants : 0 < want - min want resting.lots := by
          by_contra none
          rw [consume_of_nonpos (by omega)] at more
          simp at more
        have whole : min want resting.lots = resting.lots := by omega
        refine ⟨resting :: taken, last, taking, untouched, ?_, ?_, ?_⟩
        · rw [split, cons_append]
        · rw [unfold_consume, more, whole]
          rfl
        · rcases finished with all | isLast
          · exact Or.inl (by omega)
          · exact Or.inr isLast

/-- Fills that take every order completely leave nothing. -/
theorem settle_eq_nil {fills : List Fill}
    (nonneg : ∀ fill ∈ fills, 0 ≤ fill.lots)
    (takes : ∀ resting ∈ book, ∃ fill ∈ fills,
      fill.makerId = resting.orderId ∧ resting.lots ≤ fill.lots) :
    settle fills book = [] := by
  induction fills generalizing book with
  | nil =>
    refine eq_nil_iff_forall_not_mem.mpr fun resting mem => ?_
    obtain ⟨fill, inNil, -⟩ := takes resting mem
    simp at inNil
  | cons fill fills ih =>
    refine ih (fun other mem => nonneg other (by simp [mem])) ?_
    intro after mem
    obtain ⟨resting, restingMember, isAfter⟩ := mem_filterMap.mp mem
    obtain ⟨taking, takingMember, sameId, enough⟩ := takes resting restingMember
    have headNonneg := nonneg fill (by simp)
    unfold afterFill at isAfter
    split_ifs at isAfter with ne less
    · cases isAfter
      rcases mem_cons.mp takingMember with rfl | inTail
      · exact absurd sameId.symm ne
      · exact ⟨taking, inTail, sameId, enough⟩
    · cases isAfter
      rcases mem_cons.mp takingMember with rfl | inTail
      · exact absurd enough less
      · exact ⟨taking, inTail, sameId, show resting.lots - fill.lots ≤ taking.lots by omega⟩

structure PriceTime (order : Order) (book : List Resting) (trades : List Fill) : Prop where
  /-- Makers are taken best price first and oldest first, none is skipped. -/
  priority : trades.map (·.makerId) <+: (candidates order book).map (·.orderId)
  /-- Every trade is with an opposite order, at its price, which the taker accepts. -/
  prices : ∀ trade ∈ trades, ∃ maker ∈ book, maker.orderId = trade.makerId ∧
    maker.side = order.side.opposite ∧ maker.price = trade.priceTicks ∧
    Accepts order trade.priceTicks
  /-- Every maker before the last one is taken completely. -/
  whole : ∀ trade ∈ trades.dropLast, ∃ maker ∈ book, maker.orderId = trade.makerId ∧
    maker.lots = trade.lots
  /-- No more than the submitted quantity is traded. -/
  atMost : 0 ≤ traded trades ∧ traded trades ≤ order.quantityLots
  /-- Trading stops when the taker is filled or nothing it accepts is left. -/
  exhausted : traded trades = order.quantityLots ∨ candidates order (settle trades book) = []

theorem mem_candidates :
    resting ∈ candidates order book ↔
      resting ∈ book ∧ resting.side = order.side.opposite ∧ Accepts order resting.price := by
  rw [candidates, sortByKey, (perm_insertionSort _ _).mem_iff, mem_filter, decide_eq_true_eq]

theorem candidates_eq_nil_iff :
    candidates order book = [] ↔ book.filter (fun resting =>
      decide (resting.side = order.side.opposite ∧ Accepts order resting.price)) = [] := by
  rw [candidates, sortByKey, ← length_eq_zero_iff,
    (perm_insertionSort _ _).length_eq, length_eq_zero_iff]

theorem Positive.candidates (positive : Positive book) : Positive (candidates order book) :=
  fun resting mem => positive resting (mem_candidates.mp mem).1

theorem priceTime_fills (submitted : 0 ≤ order.quantityLots) (positive : Positive book) :
    PriceTime order book (fills order book) := by
  have offered : Positive (candidates order book) := positive.candidates
  have tradedEq := traded_consume submitted offered
  have offeredNonneg := lots_nonneg offered
  have bounds : 0 ≤ traded (fills order book) ∧ traded (fills order book) ≤ order.quantityLots := by
    unfold fills
    omega
  unfold fills at *
  rcases consume_cases submitted offered with
    ⟨nothing, finished⟩ | ⟨taken, last, taking, untouched, split, fillsEq, finished⟩
  · rw [nothing] at bounds ⊢
    refine ⟨List.nil_prefix, by simp, by simp, bounds, ?_⟩
    rcases finished with zero | isNil
    · exact Or.inl (by simp [traded, zero])
    · exact Or.inr isNil
  · have isCandidate : ∀ resting ∈ taken ++ [last], resting ∈ candidates order book := by
      intro resting mem
      rw [split, mem_append, mem_cons]
      rcases mem_append.mp mem with inTaken | isLast
      · exact Or.inl inTaken
      · exact Or.inr (Or.inl (by simpa using isLast))
    have maker : ∀ resting ∈ taken ++ [last], resting ∈ book ∧
        resting.side = order.side.opposite ∧ Accepts order resting.price :=
      fun resting mem => mem_candidates.mp (isCandidate resting mem)
    refine ⟨?_, ?_, ?_, bounds, ?_⟩
    · rw [fillsEq, split]
      exact ⟨untouched.map (·.orderId), by simp [wholeFill]⟩
    · intro trade mem
      rw [fillsEq, mem_append, mem_map, mem_singleton] at mem
      rcases mem with ⟨resting, inTaken, rfl⟩ | rfl
      · obtain ⟨inBook, opposite, accepted⟩ := maker resting (by simp [inTaken])
        exact ⟨resting, inBook, rfl, opposite, rfl, accepted⟩
      · obtain ⟨inBook, opposite, accepted⟩ := maker last (by simp)
        exact ⟨last, inBook, rfl, opposite, rfl, accepted⟩
    · intro trade mem
      rw [fillsEq, dropLast_concat, mem_map] at mem
      obtain ⟨resting, inTaken, rfl⟩ := mem
      exact ⟨resting, (maker resting (by simp [inTaken])).1, rfl, rfl⟩
    · rcases finished with all | ⟨rfl, isWhole⟩
      · exact Or.inl all
      · right
        rw [candidates_eq_nil_iff, settle_filter fun _ _ => rfl]
        have fillsWhole : consume order.quantityLots (candidates order book) =
            (candidates order book).map wholeFill := by
          rw [fillsEq, split, isWhole, map_append]
          rfl
        rw [fillsWhole]
        apply settle_eq_nil
        · intro fill mem
          obtain ⟨resting, inCandidates, rfl⟩ := mem_map.mp mem
          exact (offered resting inCandidates).le
        · intro resting mem
          rw [mem_filter, decide_eq_true_eq] at mem
          exact ⟨wholeFill resting, mem_map_of_mem (mem_candidates.mpr mem), rfl, le_rfl⟩

end Reference
end LightningX.Matching
