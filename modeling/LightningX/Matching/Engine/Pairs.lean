import LightningX.Matching.Engine.Accounting
import LightningX.Matching.Engine.Batch
import Mathlib.Data.Sym.Sym2

/-!
# Which orders trade with each other

If every order has its own identifier, two orders trade with each other at most once in a
run.  One of them is the taker, it is placed in a single call, and within that call each
maker but the last is used up before the next one is hit.
-/

namespace LightningX.Matching

open List

namespace Ladder

variable {levels levels' : List Level} {want' want : Int}

theorem Trades.fills_eq_nil (trades : Trades accepts want levels fills want' levels')
    (satisfied : want ≤ 0) : fills = [] := by
  cases trades with
  | none => rfl
  | trade wanted => omega

/-- Makers are hit at most once, in the order in which they rest. -/
theorem Trades.makerIds_sublist (trades : Trades accepts want levels fills want' levels')
    (side : Side) : (fills.map (·.makerId)).Sublist ((resting side levels).map (·.orderId)) := by
  induction trades with
  | none => simp
  | @trade want level worse entry queue fills want' levels' _ _ front later
      ih =>
      rw [resting_hit front] at ih
      rw [resting_front front]
      refine List.Sublist.cons_cons _ ?_
      split_ifs at ih with usedUp
      · exact ih
      · rw [later.fills_eq_nil (by omega)]
        exact nil_sublist _

end Ladder

/-- Two orders that trade. -/
structure Execution where
  buyOrderId : Nat
  sellOrderId : Nat
  priceTicks : Int
  lots : Int
  deriving DecidableEq, Repr

/-- The two orders, whichever side each is on. -/
def Execution.orders (execution : Execution) : Sym2 Nat :=
  s(execution.buyOrderId, execution.sellOrderId)

/-- A fill of a taker as a trade of two orders. -/
def Order.execution (order : Order) (fill : Fill) : Execution :=
  match order.side with
  | .buy => ⟨order.id, fill.makerId, fill.priceTicks, fill.lots⟩
  | .sell => ⟨fill.makerId, order.id, fill.priceTicks, fill.lots⟩

@[simp] theorem Order.orders_execution (order : Order) (fill : Fill) :
    (order.execution fill).orders = s(order.id, fill.makerId) := by
  unfold Order.execution
  cases order.side with
  | buy => rfl
  | sell => exact Sym2.eq_swap

def placedBy (calls : List Call) : List Nat :=
  calls.filterMap Call.placedId

namespace MatchingEngine

variable {config : PoolConfig} {engine after : MatchingEngine} {book : Book} {call : Call}

/-- The fills made since an earlier state, as far as `fills_buf` still holds them. -/
def fillsSince (engine after : MatchingEngine) : List Fill :=
  after.fillsBuf.take (after.tradeSequence - engine.tradeSequence)

/-- The trades of a call, also of one that fails in the end. -/
def executions (engine : MatchingEngine) : Call → List Execution
  | .place request =>
    (engine.fillsSince (engine.placeOrder request.order).1).map request.order.execution
  | .cancel _ => []

/-- The trades of a run. -/
def tradeHistory (engine : MatchingEngine) : List Call → List Execution
  | [] => []
  | call :: calls => engine.executions call ++ (engine.step call).1.tradeHistory calls

theorem Made.fillsSince_eq (made : Made engine after fills) : engine.fillsSince after = fills := by
  obtain ⟨counted, rfl | rfl⟩ := made
  · rw [fillsSince, counted, length_nil, Nat.add_zero, Nat.sub_self, take_zero]
  · rw [fillsSince, counted, Nat.add_sub_cancel_left, take_length]

theorem tradeHistory_snoc (engine : MatchingEngine) (calls : List Call) (call : Call) :
    engine.tradeHistory (calls ++ [call]) =
      engine.tradeHistory calls ++ (engine.run calls).1.executions call := by
  induction calls generalizing engine with
  | nil => simp [tradeHistory, run]
  | cons first calls ih => simp only [cons_append, tradeHistory, ih, append_assoc, run]

/-- An order trades with resting orders, with each at most once. -/
theorem Sound.makers_placeOrder (sound : Sound config engine [] book)
    (constructed : order.filledLots = 0) (inRange : InI64 order.quantityLots) :
    ((engine.fillsSince (engine.placeOrder order).1).map (·.makerId)).Nodup ∧
      ∀ fill ∈ engine.fillsSince (engine.placeOrder order).1,
        fill.makerId ∈ book.resting.map (·.orderId) := by
  by_cases passes : engine.Passes order
  · rw [placeOrder_of_passes passes]
    obtain ⟨fills, book', executes, -, made⟩ := sound.handleOrder passes.2.1
      (validateOrder_eq_ok_iff.mp passes.1).2 constructed inRange
    rw [made.fillsSince_eq]
    have swept : ∀ {want levels}, Ladder.Trades order.priceMatches order.quantityLots
        (book order.side.opposite) fills want levels →
        (fills.map (·.makerId)).Nodup ∧
          ∀ fill ∈ fills, fill.makerId ∈ book.resting.map (·.orderId) := fun trades =>
      ⟨(trades.makerIds_sublist _).nodup (sound.side_ids_nodup _),
        fun fill mem => Book.mem_ids_side (trades.makerId_mem _ fill mem)⟩
    generalize (engine.handleOrder order).2 = result at executes
    cases executes with
    | rejected => simp
    | swept _ _ trades => exact swept trades
    | rested _ _ trades => exact swept trades
    | lost _ _ trades => exact swept trades
  · obtain ⟨error, unchanged⟩ := placeOrder_of_not_passes passes
    rw [unchanged, (Made.refl engine).fillsSince_eq]
    simp

/-- What a run knows of its trades. -/
structure Paired (calls : List Call) (history : List Execution) (book : Book) : Prop where
  resting : ∀ orderId ∈ book.resting.map (·.orderId), orderId ∈ placedBy calls
  placed : ∀ execution ∈ history, ∀ orderId ∈ execution.orders, orderId ∈ placedBy calls
  once : (history.map Execution.orders).Nodup

/-- The trades of one more call are between its order and an earlier one. -/
theorem Paired.executions {history : List Execution}
    (paired : Paired calls history book) (sound : Sound config engine [] book)
    (fresh : ∀ orderId ∈ call.placedId, orderId ∉ placedBy calls) :
    (∀ execution ∈ engine.executions call, ∃ orderId ∈ call.placedId,
        ∃ maker ∈ placedBy calls, execution.orders = s(orderId, maker)) ∧
      ((engine.executions call).map Execution.orders).Nodup := by
  cases call with
  | cancel orderId => simp [MatchingEngine.executions]
  | place request =>
    obtain ⟨makers, present⟩ :=
      @Sound.makers_placeOrder config engine book request.order sound
        request.order_filledLots request.order_inRange
    simp only [MatchingEngine.executions, forall_mem_map, map_map]
    constructor
    · intro fill mem
      exact ⟨request.order.id, rfl, fill.makerId, paired.resting _ (present fill mem),
        request.order.orders_execution fill⟩
    · have pairs : Execution.orders ∘ request.order.execution =
          (fun maker => s(request.order.id, maker)) ∘ (·.makerId) := by
        funext fill
        exact request.order.orders_execution fill
      rw [pairs, ← map_map]
      exact makers.map fun first second same => Sym2.congr_right.mp same

theorem Paired.step {calls : List Call} {history : List Execution} {book' : Book} {answer : Answer}
    (paired : Paired calls history book) (sound : Sound config engine [] book)
    (responds : book.Responds config call answer book')
    (fresh : ∀ orderId ∈ call.placedId, orderId ∉ placedBy calls) :
    Paired (calls ++ [call]) (history ++ engine.executions call) book' := by
  obtain ⟨own, once⟩ := paired.executions sound fresh
  have placed : ∀ {orderId}, orderId ∈ placedBy (calls ++ [call]) ↔
      orderId ∈ placedBy calls ∨ call.placedId = some orderId := by
    intro orderId
    simp [placedBy]
  refine ⟨fun orderId mem => ?_, fun execution mem orderId isOrder => ?_, ?_⟩
  · exact placed.mpr ((sound.ids_subset responds orderId mem).imp_left (paired.resting orderId))
  · rw [placed]
    rcases mem_append.mp mem with earlier | now
    · exact Or.inl (paired.placed execution earlier orderId isOrder)
    · obtain ⟨taker, isTaker, maker, isMaker, orders⟩ := own execution now
      rw [orders, Sym2.mem_iff] at isOrder
      rcases isOrder with rfl | rfl
      · exact Or.inr isTaker
      · exact Or.inl isMaker
  · rw [map_append, nodup_append]
    refine ⟨paired.once, once, ?_⟩
    rintro orders earlier _ now rfl
    obtain ⟨execution, mem, rfl⟩ := mem_map.mp earlier
    obtain ⟨other, otherMember, same⟩ := mem_map.mp now
    obtain ⟨taker, isTaker, maker, -, otherOrders⟩ := own other otherMember
    refine fresh taker isTaker (paired.placed execution mem taker ?_)
    rw [← same, otherOrders]
    exact Sym2.mem_mk_left taker maker

/-- In a run that gives every order its own identifier, two orders trade at most once with
each other. -/
theorem paired_run (config : PoolConfig) (distinct : (placedBy calls).Nodup) :
    ∃ book, Sound config ((new config).run calls).1 [] book ∧
      Paired calls ((new config).tradeHistory calls) book := by
  induction calls using List.reverseRecOn with
  | nil =>
    refine ⟨_, sound_new config, ⟨?_, ?_, nodup_nil⟩⟩
    · simp [Book.resting]
    · simp [tradeHistory]
  | append_singleton calls call ih =>
    rw [placedBy, filterMap_append, nodup_append] at distinct
    obtain ⟨book, sound, paired⟩ := ih distinct.1
    obtain ⟨book', responds, sound'⟩ := sound.step call
    rw [run_snoc, tradeHistory_snoc]
    refine ⟨book', sound', paired.step sound responds fun orderId isPlaced earlier => ?_⟩
    refine distinct.2.2 orderId earlier orderId ?_ rfl
    exact mem_filterMap.mpr ⟨call, mem_singleton_self call, isPlaced⟩

/-- After every run all trade slots are free.  Matching an order then never lacks a slot, trades
at most once with each order of the opposite side and ends because no lots are wanted or the
best price is refused. -/
theorem matchOrder_tradeSlots (config : PoolConfig) (calls : List Call) (order : Order)
    (unknown : order.id ∉ ((new config).run calls).1.orders) :
    ((new config).run calls).1.pools.trades.freeIndices ~ range config.orderCapacity ∧
      ∃ after filled, ((new config).run calls).1.matchOrder order = (after, .ok filled) ∧
        after.tradeSequence ≤ ((new config).run calls).1.tradeSequence +
          (Ladder.orderIds (((new config).run calls).1.levels order.side.opposite)).length ∧
        (order.quantityLots ≤ filled ∨
          ∀ price ∈ after.bestPriceTicks order.side.opposite, order.priceMatches price = false) ∧
        after.pools.trades.freeIndices ~ range config.orderCapacity := by
  obtain ⟨book, sound, -⟩ :=
    @run_induction (fun _ _ _ => True) config trivial (fun _ _ _ _ => trivial) calls
  have allFree : ∀ {engine book}, Sound config engine [] book →
      engine.pools.trades.freeIndices ~ range config.orderCapacity := by
    intro engine book sound
    simpa [Partition, sound.tradeCapacity] using sound.trades.partition
  obtain ⟨after, fills, want, levels, matched, noted, trades, settled, sound', -⟩ :=
    sound.matchOrder unknown
  refine ⟨allFree sound, after, _, matched, ?_, ?_, allFree sound'⟩
  · rw [tradeSequence_matchOrder matched, noted, sound.levels_eq, ← Ladder.resting_map_orderId]
    simpa using (trades.makerIds_sublist order.side).length_le
  · have best := (sound'.sides order.side.opposite).models.best_price
    rw [Function.update_self] at best
    refine settled.imp (by omega) fun refused price isBest => ?_
    rw [Option.mem_def, bestPriceTicks, best, Option.map_eq_some_iff] at isBest
    obtain ⟨level, first, rfl⟩ := isBest
    exact refused level first

/-- A bid takes one ask and part of another one. -/
theorem matchOrder_tradeSlots_twoAsks :
    ∃ after filled, ((new ⟨4, 4⟩).run [.place (.limit 1 .sell 100 5 .gtc 0),
        .place (.limit 2 .sell 101 5 .gtc 1)]).1.matchOrder
        (Order.new 3 .buy 101 7 .gtc 2) = (after, .ok filled) ∧ after.tradeSequence ≤ 2 :=
  let ⟨_, after, filled, matched, few, _⟩ := matchOrder_tradeSlots ⟨4, 4⟩
    [.place (.limit 1 .sell 100 5 .gtc 0), .place (.limit 2 .sell 101 5 .gtc 1)]
    (Order.new 3 .buy 101 7 .gtc 2) (by decide)
  ⟨after, filled, matched, few⟩

end MatchingEngine
end LightningX.Matching
