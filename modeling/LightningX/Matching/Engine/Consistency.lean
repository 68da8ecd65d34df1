import LightningX.Matching.Engine.Runs
import LightningX.Matching.Totals
import Mathlib.Data.List.Infix

/-!
# Consistency of the book

The order map, the order pool, the queues, the cached totals and the node
pools agree after every run.
-/

namespace LightningX.Matching

open List Ladder

namespace Book

variable {config : PoolConfig} {book : Book}

theorem counted_update (counted : ∀ side, Counted (book side)) (changed : Counted levels) :
    ∀ other, Counted (Function.update book side levels other) := by
  intro other
  by_cases same : other = side
  · subst same
    rwa [Function.update_self]
  · rw [Function.update_of_ne same]
    exact counted other

/-- Totals stay exact as long as the new queues fit. -/
theorem counted_responds (counted : ∀ side, Counted (book side))
    (sorted : ∀ side, Sorted side.sortOrder (book side))
    (fits : ∀ side, ∀ level ∈ book' side, level.lots ≤ i64Max)
    (responds : book.Responds config call answer book') : ∀ side, Counted (book' side) := by
  cases responds with
  | @placed request _ _ places =>
    cases places with
    | refused => exact counted
    | rejected => exact counted
    | swept _ _ _ trades => exact counted_update counted (trades.counted (counted _))
    | lost _ _ _ trades => exact counted_update counted (trades.counted (counted _))
    | rested _ _ _ trades _ left =>
      have ownFits := fits request.order.side
      rw [Book.sweptAndRested, Function.update_self] at ownFits
      exact counted_update (counted_update counted (trades.counted (counted _)))
        (Counted.rest (sorted _) (counted _) left ownFits)
  | cancelled cancels =>
    cases cancels with
    | unknown => exact counted
    | removed => exact counted_update counted (counted _).drop

end Book

namespace MatchingEngine

/-- The levels of a side, read off the skip list. -/
def levels (engine : MatchingEngine) (side : Side) : List Level :=
  (engine.book side).ladder

/-- The lots queued at each level fit in 64 bits. -/
def LotsFit (engine : MatchingEngine) : Prop :=
  ∀ side, ∀ level ∈ engine.levels side, level.lots ≤ i64Max
deriving Decidable

structure Consistent (engine : MatchingEngine) : Prop where
  /-- The map knows exactly the queued orders. -/
  ids : engine.orders.keys ~
    orderIds (engine.levels .buy) ++ orderIds (engine.levels .sell)
  /-- No order is queued twice. -/
  once : (orderIds (engine.levels .buy) ++ orderIds (engine.levels .sell)).Nodup
  /-- Each order is queued on its side, at its price and with its remaining
  lots, which are positive. -/
  queued : ∀ side, ∀ level ∈ engine.levels side, ∀ entry ∈ level.queue,
    ∃ order, engine.getOrder entry.orderId = some order ∧ order.id = entry.orderId ∧
      order.side = side ∧ order.priceTicks = level.price ∧
      entry.lots = order.remainingLots ∧ 0 < entry.lots
  /-- Cached totals are sums. -/
  totals : ∀ side, ∀ level ∈ engine.levels side, level.total = level.lots
  /-- No level is empty. -/
  occupied : ∀ side, ∀ level ∈ engine.levels side, level.queue ≠ []
  /-- Prices are strictly sorted, best first. -/
  sorted : ∀ side, Sorted side.sortOrder (engine.levels side)
  /-- One slot of the order pool for each order. -/
  orderSlots : engine.pools.orders.allocatedCount = engine.orders.keys.length
  /-- One node of the side's list pool for each order. -/
  listNodes : ∀ side, (engine.book side).listPool.allocated = (orderIds (engine.levels side)).length

variable {config : PoolConfig} {engine : MatchingEngine} {book : Book}

theorem Sound.levels_eq (sound : Sound config engine [] book) (side : Side) :
    engine.levels side = book side :=
  (sound.sides side).models.ladder_eq

theorem Sound.consistent (sound : Sound config engine [] book)
    (counted : ∀ side, Counted (book side)) : engine.Consistent := by
  have ids : engine.orders.keys ~ orderIds (book .buy) ++ orderIds (book .sell) := by
    have known := sound.linked.ids
    rwa [Book.resting, map_append, resting_map_orderId, resting_map_orderId] at known
  refine
    { ids := ?_, once := ?_, queued := ?_, totals := ?_, occupied := ?_, sorted := ?_
      orderSlots := sound.stored.allocated_eq_length, listNodes := ?_ } <;>
    simp only [sound.levels_eq]
  · exact ids
  · exact ids.nodup engine.orders.keys_nodup
  · intro side level mem entry entryMember
    obtain ⟨order, found, stored⟩ := sound.linked.stored _
      (Book.mem_resting.mpr (mem_resting_of_mem side mem entryMember))
    exact ⟨order, found, stored.id, stored.side, stored.price, stored.lots.symm, stored.positive⟩
  · exact fun side level mem => (counted side level mem).exact
  · exact fun side => (sound.sides side).occupied
  · exact fun side => (sound.sides side).sorted
  · intro side
    rw [(sound.sides side).models.length_le_capacity.2]
    simp [orderIds]

/-- Every run whose queues fit in 64 bits all along keeps the cached totals exact. -/
theorem counted_run (config : PoolConfig) (calls : List Call)
    (fits : ∀ pre, pre <+: calls → ((new config).run pre).1.LotsFit) :
    ∃ book, Sound config ((new config).run calls).1 [] book ∧
      ∀ side, Counted (book side) := by
  obtain ⟨book, sound, counted⟩ := @run_induction
    (fun calls _ book => (∀ pre, pre <+: calls → ((new config).run pre).1.LotsFit) →
      ∀ side, Counted (book side)) config
    (fun _ side level mem => by simp at mem) (by
      intro calls answers call book answer book' sound sound' responds counted fits
      have earlier := counted fun pre shorter => fits pre (shorter.trans (prefix_append _ _))
      refine Book.counted_responds earlier (fun side => (sound.sides side).sorted) ?_ responds
      intro side level mem
      exact fits _ (prefix_refl _) side level (by rwa [sound'.levels_eq])) calls
  exact ⟨book, sound, counted fits⟩

/-- After every run whose queues fit in 64 bits all along, the engine is
consistent. -/
theorem consistent_run (config : PoolConfig) (calls : List Call)
    (fits : ∀ pre, pre <+: calls → ((new config).run pre).1.LotsFit) :
    ((new config).run calls).1.Consistent := by
  obtain ⟨book, sound, counted⟩ := counted_run config calls fits
  exact sound.consistent counted

/-- A bid takes one ask, part of another one, and is not queued. -/
theorem consistent_run_sweep :
    ((new ⟨4, 4⟩).run [.place (.limit 1 .sell 100 5 .gtc 0),
      .place (.limit 2 .sell 101 5 .gtc 1), .place (.limit 3 .buy 101 7 .gtc 2)]).1.Consistent := by
  have fits : ∀ pre ∈ List.inits [Call.place (.limit 1 .sell 100 5 .gtc 0),
      .place (.limit 2 .sell 101 5 .gtc 1), .place (.limit 3 .buy 101 7 .gtc 2)],
      ((new ⟨4, 4⟩).run pre).1.LotsFit := by
    decide
  exact consistent_run _ _ fun pre shorter => fits pre ((mem_inits _ _).mpr shorter)

end MatchingEngine
end LightningX.Matching
