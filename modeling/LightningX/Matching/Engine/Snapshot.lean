import LightningX.Lib.StableSort
import LightningX.Matching.Engine.SameBook
import Mathlib.Data.Prod.Lex

/-!
# Snapshots of the book

`snapshot_resting` and `restore_resting` of `matching/engine.rs`.  A snapshot is
the list of resting orders, sorted by timestamp and identifier; an engine is
restored by placing them one after the other.  This file also says what a
snapshot of a reachable engine contains.
-/

namespace LightningX.Matching

open List

structure EngineSnapshot where
  orders : List Order
  nextOrderId : Nat
  tradeSequence : Nat
  deriving DecidableEq, Repr

namespace Order

def snapshotKey (order : Order) : ℕ ×ₗ ℕ :=
  toLex (order.timestamp, order.id)

/-- The order as a snapshot keeps it: its remaining lots are its quantity. -/
def saved (order : Order) : Order :=
  { order with quantityLots := order.remainingLots, filledLots := 0 }

def asResting (order : Order) : Resting where
  orderId := order.id
  side := order.side
  price := order.priceTicks
  lots := order.remainingLots

@[simp] theorem saved_quantityLots (order : Order) :
    order.saved.quantityLots = order.remainingLots := rfl

@[simp] theorem saved_asResting (order : Order) : order.saved.asResting = order.asResting := by
  simp [asResting, saved, remainingLots]

end Order

theorem Resting.StoredAs.asResting {order : Order} (stored : resting.StoredAs order) :
    order.asResting = resting := by
  rw [Order.asResting, stored.id, stored.side, stored.price, stored.lots]

namespace MatchingEngine

/-- The orders of a snapshot before they are sorted. -/
def savedOrders (engine : MatchingEngine) : List Order :=
  ((engine.orders.entries.filterMap fun entry => engine.pools.orders.get entry.2).map
    Order.saved).filter fun order => decide (0 < order.quantityLots)

def snapshotResting (engine : MatchingEngine) : EngineSnapshot where
  orders := StableSort.sortByKey Order.snapshotKey engine.savedOrders
  nextOrderId := engine.nextOrderId
  tradeSequence := engine.tradeSequence

/-- One order of `restore_resting`, with the count of orders restored so far. -/
def restoreOrder (state : MatchingEngine × Nat) (order : Order) : MatchingEngine × Nat :=
  match state.1.placeOrder { order with isMarket := false } with
  | (engine, .ok _) => (engine, state.2 + 1)
  | (engine, .error _) => (engine, state.2)

def restoreResting (engine : MatchingEngine) (snapshot : EngineSnapshot) :
    MatchingEngine × Nat :=
  let (engine, restored) := snapshot.orders.foldl restoreOrder (engine, 0)
  ({ engine with
      nextOrderId := snapshot.nextOrderId
      tradeSequence := snapshot.tradeSequence }, restored)

def keyOf (engine : MatchingEngine) (orderId : Nat) : ℕ ×ₗ ℕ :=
  ((engine.getOrder orderId).map Order.snapshotKey).getD (toLex (0, 0))

/-- Every queue is in the order of timestamps and identifiers, and the cached
totals are the sums of the queues. -/
def InTimeOrder (engine : MatchingEngine) : Prop :=
  ∀ side, ∀ level ∈ engine.levels side,
    (level.queue.map fun entry => engine.keyOf entry.orderId).Pairwise (· ≤ ·) ∧
      level.total = wrapI64 level.lots
deriving Decidable

/-- Every slot of the order pool holds an order that may rest. -/
def OnlyRestable (engine : MatchingEngine) : Prop :=
  ∀ order ∈ engine.pools.orders.objects, order.mayRest

variable {engine : MatchingEngine} {order : Order}

theorem onlyRestable_new (config : PoolConfig) : (new config).OnlyRestable := by
  intro order mem
  obtain rfl := eq_of_mem_replicate mem
  decide

/-- Writing an order of the pool keeps the others. -/
theorem mem_objects_modify {pool : ObjectPool Order}
    (mem : order ∈ (pool.modify index change).objects) :
    order ∈ pool.objects ∨ ∃ old ∈ pool.objects, order = change old := by
  obtain ⟨position, found⟩ := mem_iff_getElem?.mp mem
  rw [ObjectPool.modify, List.getElem?_modify, Option.map_eq_map, Option.map_eq_some_iff] at found
  obtain ⟨old, oldFound, changed⟩ := found
  have oldMember := mem_of_getElem? oldFound
  split_ifs at changed
  · exact Or.inr ⟨old, oldMember, changed.symm⟩
  · exact Or.inl (changed ▸ oldMember)

namespace OnlyRestable

section

variable (restable : engine.OnlyRestable)
include restable

theorem congr {other : MatchingEngine}
    (same : other.pools.orders.objects = engine.pools.orders.objects) : other.OnlyRestable := by
  unfold OnlyRestable
  rwa [same]

theorem setBook (side : Side) (list : SkipList) : (engine.setBook side list).OnlyRestable :=
  restable.congr (by rw [pools_setBook])

theorem fillResting (orderId : Nat) (lots : Int) :
    (engine.fillResting orderId lots).OnlyRestable := by
  unfold MatchingEngine.fillResting
  split
  · intro order mem
    rcases mem_objects_modify mem with same | ⟨old, oldMember, rfl⟩
    · exact restable order same
    · exact restable old oldMember
  · exact restable

theorem forget (orderId : Nat) : (engine.forget orderId).OnlyRestable := by
  unfold MatchingEngine.forget
  split
  · exact restable
  · exact restable

theorem addToBook (mayRest : order.mayRest) : (engine.addToBook order).1.OnlyRestable := by
  have stored : ∀ {slots : ObjectPool Order} {index : Nat},
      engine.pools.orders.acquire = some (slots, index) →
        ∀ stored ∈ (slots.modify index fun _ => order).objects, stored.mayRest := by
    intro slots index acquired stored mem
    have sameObjects : slots.objects = engine.pools.orders.objects := by
      unfold ObjectPool.acquire at acquired
      split at acquired
      · simp at acquired
      · simp only [Option.some.injEq, Prod.mk.injEq] at acquired
        rw [← acquired.1]
    rcases mem_objects_modify mem with same | ⟨-, -, rfl⟩
    · exact restable stored (sameObjects ▸ same)
    · exact mayRest
  unfold MatchingEngine.addToBook
  split
  · exact restable
  · split
    · exact restable
    · rename_i slots index acquired
      simp only
      split
      · refine OnlyRestable.setBook ?_ _ _
        exact stored acquired
      · refine OnlyRestable.setBook ?_ _ _
        exact stored acquired

theorem applyFill (order : Order) (fill : Fill) : (engine.applyFill order fill).OnlyRestable := by
  have noted : (engine.noteFill fill).OnlyRestable := restable
  exact ((noted.fillResting _ _).fillResting _ _).setBook _ _

theorem matchOrder (order : Order) : (engine.matchOrder order).1.OnlyRestable := by
  have rule : LoopRule order OnlyRestable OnlyRestable :=
    { setBook := fun _ side list restable => restable.setBook side list
      unlink := fun _ _ restable => restable
      forget := fun _ orderId restable => restable.forget orderId
      trade := fun _ fill _ _ restable _ => restable.applyFill order fill
      noSlot := fun _ fill restable _ => restable.applyFill order fill }
  have ends := rule.matchOrder (fun _ _ restable => restable) restable
  unfold EndsWith at ends
  split at ends
  · exact ends
  · exact ends

theorem handleImmediate (order : Order) : (engine.handleImmediate order).1.OnlyRestable := by
  have matched := restable.matchOrder order
  unfold MatchingEngine.handleImmediate
  split
  · rename_i swept
    rwa [swept] at matched
  · rename_i swept
    rwa [swept] at matched

theorem handleFok (order : Order) : (engine.handleFok order).1.OnlyRestable := by
  have matched := restable.matchOrder order
  unfold MatchingEngine.handleFok
  split
  · exact restable
  · split
    · rename_i swept
      rwa [swept] at matched
    · rename_i swept
      rwa [swept] at matched

theorem handlePostOnly (mayRest : order.mayRest) :
    (engine.handlePostOnly order).1.OnlyRestable := by
  have added := restable.addToBook mayRest
  unfold MatchingEngine.handlePostOnly
  split
  · exact restable
  · split
    · rename_i rested
      rwa [rested] at added
    · rename_i rested
      rwa [rested] at added

theorem handleGtc (mayRest : order.mayRest) : (engine.handleGtc order).1.OnlyRestable := by
  have matched := restable.matchOrder order
  unfold MatchingEngine.handleGtc
  split
  · rename_i swept
    rwa [swept] at matched
  · rename_i engine filledLots swept
    rw [swept] at matched
    have added := @OnlyRestable.addToBook engine { order with filledLots := filledLots }
      matched mayRest
    by_cases unfilled : filledLots < order.quantityLots
    · simp only [unfilled]
      split
      · exact added
      · exact added
    · simp only [unfilled]
      exact matched

theorem placeOrder (order : Order) : (engine.placeOrder order).1.OnlyRestable := by
  have cleared : ({ engine with affectedMakersBuf := [] } : MatchingEngine).OnlyRestable := restable
  unfold MatchingEngine.placeOrder
  split
  · exact restable
  · split
    · exact restable
    · split
      · exact restable
      · split
        · exact cleared.handleImmediate order
        · rename_i limit
          have isLimit : order.isMarket = false := by simpa using limit
          split
          · rename_i tif
            exact cleared.handlePostOnly ⟨isLimit, Or.inr tif⟩
          · exact cleared.handleFok order
          · exact cleared.handleImmediate order
          · rename_i tif
            exact cleared.handleGtc ⟨isLimit, Or.inl tif⟩

theorem cancelOrder (orderId : Nat) : (engine.cancelOrder orderId).1.OnlyRestable := by
  have removed : (engine.removeFromBook orderId).1.OnlyRestable := by
    unfold MatchingEngine.removeFromBook
    split
    · exact restable
    · split
      · exact restable.setBook _ _
      · exact restable.setBook _ _
  unfold MatchingEngine.cancelOrder
  split
  · exact restable
  · split
    · exact restable
    · split
      · rename_i taken
        rwa [taken] at removed
      · rename_i taken
        rw [taken] at removed
        exact removed.forget _

end

end OnlyRestable

end MatchingEngine

namespace Book

def Priced (book : Book) : Prop :=
  ∀ side, ∀ level ∈ book side, 0 < level.price

variable {config : PoolConfig} {book book' : Book}

theorem Priced.of_prices (priced : book.Priced)
    (fewer : ∀ side, (book' side).map (·.price) ⊆ (book side).map (·.price)) : book'.Priced := by
  intro side level mem
  obtain ⟨old, oldMember, samePrice⟩ := mem_map.mp (fewer side (mem_map_of_mem mem))
  rw [← samePrice]
  exact priced side old oldMember

theorem Priced.places (priced : book.Priced)
    (sorted : ∀ side, Ladder.Sorted side.sortOrder (book side))
    (places : book.Places config order result book') : book'.Priced := by
  cases places with
  | refused => exact priced
  | rejected => exact priced
  | swept _ _ _ trades => exact priced.of_prices (prices_update_subset trades.prices_sublist.subset)
  | lost _ _ _ trades => exact priced.of_prices (prices_update_subset trades.prices_sublist.subset)
  | @rested fills want levels admitted mayRest _ trades =>
    have sweptPriced : Priced (Function.update book order.side.opposite levels) :=
      priced.of_prices (prices_update_subset trades.prices_sublist.subset)
    intro side level mem
    by_cases own : side = order.side
    · subst own
      rw [sweptAndRested, Function.update_self] at mem
      rcases Ladder.price_of_mem_rest (sorted _) mem with
        isNew | ⟨old, oldMember, samePrice⟩
      · have positive := admitted.price
        rw [isNew]
        simp only [mayRest.1, true_and, not_le] at positive
        exact positive
      · rw [← samePrice]
        exact priced _ old oldMember
    · rw [sweptAndRested, Function.update_of_ne own] at mem
      exact sweptPriced side level mem

theorem Priced.cancels (priced : book.Priced) (cancels : book.Cancels orderId result book') :
    book'.Priced := by
  cases cancels with
  | unknown => exact priced
  | removed resting =>
    exact priced.of_prices (prices_update_subset (Ladder.prices_drop_sublist _ _ _).subset)

end Book

namespace MatchingEngine

variable {config : PoolConfig} {engine : MatchingEngine} {book : Book}

/-- What restoring needs to know of an engine. -/
structure Reached (config : PoolConfig) (engine : MatchingEngine) (book : Book) : Prop where
  sound : Sound config engine [] book
  uncrossed : book.Uncrossed
  priced : book.Priced
  restable : engine.OnlyRestable

theorem reached_new (config : PoolConfig) : Reached config (new config) fun _ => [] where
  sound := sound_new config
  uncrossed := by simp [Book.Uncrossed]
  priced := by simp [Book.Priced]
  restable := onlyRestable_new config

section

variable (reached : Reached config engine book)
include reached

theorem Reached.placeOrder {order : Order} (constructed : order.filledLots = 0)
    (inRange : InI64 order.quantityLots) :
    ∃ book', Reached config (engine.placeOrder order).1 book' := by
  obtain ⟨book', places, sound'⟩ := reached.sound.placeOrder constructed inRange
  have sorted : ∀ side, Ladder.Sorted side.sortOrder (book side) :=
    fun side => (reached.sound.sides side).sorted
  exact ⟨book',
    { sound := sound'
      uncrossed := reached.uncrossed.places sorted (fun side => (sound'.sides side).sorted) places
      priced := reached.priced.places sorted places
      restable := reached.restable.placeOrder order }⟩

theorem Reached.cancelOrder (orderId : Nat) :
    ∃ book', Reached config (engine.cancelOrder orderId).1 book' := by
  obtain ⟨book', cancels, sound'⟩ := reached.sound.cancelOrder orderId
  exact ⟨book',
    { sound := sound'
      uncrossed := reached.uncrossed.cancels cancels
      priced := reached.priced.cancels cancels
      restable := reached.restable.cancelOrder orderId }⟩

theorem Reached.run (calls : List Call) : ∃ book', Reached config (engine.run calls).1 book' := by
  induction calls generalizing engine book with
  | nil => exact ⟨book, reached⟩
  | cons call calls ih =>
    obtain ⟨book', reached'⟩ : ∃ book', Reached config (engine.step call).1 book' := by
      cases call with
      | place request => exact reached.placeOrder request.order_filledLots request.order_inRange
      | cancel orderId => exact reached.cancelOrder orderId
    exact ih reached'

end

theorem Sound.exists_stored {resting : Resting} (sound : Sound config engine [] book)
    (mem : resting ∈ book.resting) :
    ∃ order, engine.getOrder resting.orderId = some order ∧ resting.StoredAs order :=
  sound.linked.stored resting mem

theorem Sound.savedOrders_perm (sound : Sound config engine [] book) :
    engine.savedOrders ~ book.resting.filterMap fun resting =>
      (engine.getOrder resting.orderId).map Order.saved := by
  have byId : (engine.orders.entries.filterMap fun entry =>
      engine.pools.orders.get entry.2) = engine.orders.keys.filterMap engine.getOrder := by
    rw [AList.keys, List.keys, filterMap_map]
    refine filterMap_congr fun entry mem => ?_
    have found : engine.orders.lookup entry.1 = some entry.2 := AList.mem_lookup_iff.mpr mem
    simp [getOrder, found]
  have stored : (engine.orders.keys.filterMap engine.getOrder).map Order.saved ~
      book.resting.filterMap fun resting => (engine.getOrder resting.orderId).map Order.saved := by
    rw [map_filterMap]
    refine (sound.linked.ids.filterMap _).trans ?_
    rw [filterMap_map]
    exact List.Perm.refl _
  have positive : ∀ order ∈ book.resting.filterMap (fun resting =>
      (engine.getOrder resting.orderId).map Order.saved), 0 < order.quantityLots := by
    intro saved mem
    obtain ⟨resting, restingMember, isSaved⟩ := mem_filterMap.mp mem
    obtain ⟨order, found, asStored⟩ := sound.exists_stored restingMember
    rw [found, Option.map_some, Option.some.injEq] at isSaved
    rw [← isSaved, Order.saved_quantityLots, asStored.lots]
    exact asStored.positive
  rw [savedOrders, byId]
  refine (stored.filter _).trans ?_
  rw [filter_eq_self.mpr fun order mem => decide_eq_true (positive order mem)]

end MatchingEngine
end LightningX.Matching
