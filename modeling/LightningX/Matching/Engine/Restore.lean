import LightningX.Matching.Engine.Refinement
import LightningX.Matching.Engine.Snapshot

/-!
# Restoring a snapshot

A snapshot of a reachable engine brings back every resting order with its
remaining lots.  It brings back the book itself, and with it all later answers,
exactly when the queues were in the order of timestamps and identifiers.
-/

namespace LightningX.Matching

open List Book Ladder

/-! ## Ladders with the same queues -/

theorem Level.eq_of_resting_eq {other : Level} (samePrice : level.price = other.price)
    (sameTotal : level.total = other.total) (sameQueue : level.resting side = other.resting side) :
    level = other := by
  have sameEntries : level.queue = other.queue := by
    have entries : ∀ level : Level, (level.resting side).map (fun resting =>
        (⟨resting.orderId, resting.lots⟩ : Entry)) = level.queue := by
      intro level
      simp [Level.resting, Function.comp_def]
    rw [← entries level, ← entries other, sameQueue]
  cases level
  cases other
  simp_all

namespace Ladder

variable {order : SortOrder} {first second levels : List Level} {price lots : Int}

/-- The cached totals are the sums of the queues, as 64 bits hold them. -/
def Summed (levels : List Level) : Prop :=
  ∀ level ∈ levels, level.total = wrapI64 level.lots

theorem Summed.rest (sorted : Sorted order levels) (summed : Summed levels) :
    Summed (rest order price orderId lots levels) := by
  intro level mem
  rcases mem_or_eq_push_of_mem_rest sorted mem with old | ⟨target, -, known, rfl⟩
  · exact summed level old
  · have before : target.total = wrapI64 target.lots := by
      rcases known with old | rfl
      · exact summed target old
      · rfl
    rw [Level.push_lots]
    show wrapI64 (target.total + lots) = _
    rw [before, wrapI64, wrapI64, wrapI64, Int.bmod_add_bmod]

theorem filter_resting_price (side : Side) (sorted : Sorted order levels) (mem : level ∈ levels) :
    (resting side levels).filter (fun resting => decide (resting.price = level.price)) =
      level.resting side := by
  obtain ⟨lower, upper, rfl⟩ := append_of_mem mem
  obtain ⟨lowerNe, upperNe⟩ := sorted.split_ne
  have nothing : ∀ part : List Level, (∀ other ∈ part, other.price ≠ level.price) →
      (resting side part).filter (fun resting => decide (resting.price = level.price)) = [] := by
    intro part apart
    refine filter_eq_nil_iff.mpr fun order orderMember => ?_
    obtain ⟨other, otherMember, entry, -, rfl⟩ := mem_resting.mp orderMember
    simpa using apart other otherMember
  have own : (level.resting side).filter
      (fun resting => decide (resting.price = level.price)) = level.resting side := by
    refine filter_eq_self.mpr fun order orderMember => ?_
    obtain ⟨entry, -, rfl⟩ := mem_map.mp orderMember
    simp
  rw [resting_append, resting_cons, filter_append, filter_append, own,
    nothing lower lowerNe, nothing upper upperNe, nil_append, append_nil]

/-- Ladders with the same queues have the same levels, if the cached totals are
the sums of the queues. -/
theorem mem_of_sameQueues
    (side : Side) (firstSorted : Sorted order first) (secondSorted : Sorted order second)
    (occupied : Occupied first) (firstSummed : Summed first) (secondSummed : Summed second)
    (same : ∀ price,
      (resting side first).filter (fun resting => decide (resting.price = price)) =
        (resting side second).filter fun resting => decide (resting.price = price))
    (mem : level ∈ first) :
    level ∈ second := by
  have queue := filter_resting_price side firstSorted mem
  rw [same level.price] at queue
  obtain ⟨entry, queued⟩ := exists_mem_of_ne_nil _ (occupied level mem)
  have found : (⟨entry.orderId, side, level.price, entry.lots⟩ : Resting) ∈ level.resting side :=
    mem_map.mpr ⟨entry, queued, rfl⟩
  rw [← queue] at found
  obtain ⟨other, otherMember, otherEntry, -, isOther⟩ := mem_resting.mp (mem_filter.mp found).1
  have samePrice : level.price = other.price := congrArg Resting.price isOther
  rw [samePrice, filter_resting_price side secondSorted otherMember] at queue
  have sameLots : level.lots = other.lots := by rw [← lots_level side, ← lots_level side, queue]
  have sameTotal : level.total = other.total := by
    rw [firstSummed level mem, secondSummed other otherMember, sameLots]
  rwa [Level.eq_of_resting_eq samePrice sameTotal queue.symm]

theorem eq_of_sameQueues
    (side : Side) (firstSorted : Sorted order first) (secondSorted : Sorted order second)
    (firstOccupied : Occupied first) (secondOccupied : Occupied second) (firstSummed : Summed first)
    (secondSummed : Summed second)
    (same : ∀ price,
      (resting side first).filter (fun resting => decide (resting.price = price)) =
        (resting side second).filter fun resting => decide (resting.price = price)) :
    first = second := by
  have distinct : ∀ {levels : List Level}, Sorted order levels → levels.Nodup := by
    intro levels sorted
    refine sorted.imp fun before => ?_
    rintro rfl
    cases order <;> simp at before
  have members : ∀ level, level ∈ first ↔ level ∈ second := fun level =>
    ⟨mem_of_sameQueues side firstSorted secondSorted firstOccupied firstSummed secondSummed
        same,
      mem_of_sameQueues side secondSorted firstSorted secondOccupied secondSummed firstSummed
        fun price => (same price).symm⟩
  refine List.Perm.eq_of_pairwise ?_ firstSorted secondSorted
    ((perm_ext_iff_of_nodup (distinct firstSorted) (distinct secondSorted)).mpr members)
  intro one other _ _ before after
  cases order <;> simp only [SortOrder.shouldInsert, decide_eq_true_eq] at before after <;> omega

end Ladder

/-! ## Placing orders that only rest -/

theorem Order.not_priceMatches_of_clear {order : Order} (limit : order.isMarket = false)
    (clear : order.side.Clear order.priceTicks price) : order.priceMatches price = false := by
  unfold Order.priceMatches
  cases sideEq : order.side <;>
    simpa [limit, sideEq, Side.Clear] using clear

namespace Book

def queue (book : Book) (order : Order) : Book :=
  Function.update book order.side
    (rest order.side.sortOrder order.priceTicks order.id order.remainingLots
      (book order.side))

end Book

/-- Orders that a fresh engine can take in without a trade. -/
structure Restorable (config : PoolConfig) (orders : List Order) : Prop where
  mayRest : ∀ order ∈ orders, order.mayRest
  price : ∀ order ∈ orders, 0 < order.priceTicks
  quantity : ∀ order ∈ orders, 0 < order.quantityLots
  inRange : ∀ order ∈ orders, InI64 order.quantityLots
  unfilled : ∀ order ∈ orders, order.filledLots = 0
  distinct : (orders.map (·.id)).Nodup
  slots : orders.length ≤ config.orderCapacity
  queues : ∀ side, (orders.filter fun order => decide (order.side = side)).length ≤
    config.queueCapacity
  clear : ∀ own ∈ orders, ∀ other ∈ orders, other.side = own.side.opposite →
    own.side.Clear own.priceTicks other.priceTicks

theorem Restorable.subperm (restorable : Restorable config orders) (fewer : orders' <+~ orders) :
    Restorable config orders' where
  mayRest := fun order mem => restorable.mayRest order (fewer.subset mem)
  price := fun order mem => restorable.price order (fewer.subset mem)
  quantity := fun order mem => restorable.quantity order (fewer.subset mem)
  inRange := fun order mem => restorable.inRange order (fewer.subset mem)
  unfilled := fun order mem => restorable.unfilled order (fewer.subset mem)
  distinct := by
    obtain ⟨kept, same, sublist⟩ := fewer
    exact (same.map _).nodup_iff.mp (restorable.distinct.sublist (sublist.map _))
  slots := fewer.length_le.trans restorable.slots
  queues := fun side => (fewer.filter _).length_le.trans (restorable.queues side)
  clear := fun own ownMember other otherMember =>
    restorable.clear own (fewer.subset ownMember) other (fewer.subset otherMember)

namespace MatchingEngine

open Reference

variable {config : PoolConfig} {engine : MatchingEngine} {book : Book} {order : Order}
  {orders : List Order}

/-- An order that may rest and reaches nothing is queued. -/
theorem Sound.placeOrder_rests
    (sound : Sound config engine [] book) (admitted : book.Admits config order)
    (mayRest : order.mayRest) (unfilled : order.filledLots = 0) (inRange : InI64 order.quantityLots)
    (room : (entries (book order.side)).length < config.queueCapacity)
    (quiet : ∀ level ∈ book order.side.opposite, order.priceMatches level.price = false) :
    (∃ result, (engine.placeOrder order).2 = .ok result) ∧
      Sound config (engine.placeOrder order).1 [] (book.queue order) := by
  have settled : Ladder.Settled order.priceMatches order.quantityLots (book order.side.opposite) :=
    Or.inr fun level isHead => quiet level (mem_of_mem_head? isHead)
  have notCrossing : ¬ book.Crosses order := by
    rintro ⟨level, isHead, accepted⟩
    rw [quiet level (mem_of_mem_head? isHead)] at accepted
    exact Bool.false_ne_true accepted
  have rests : book.Places config order _ _ :=
    .rested admitted mayRest (fun _ => notCrossing) (.none _ _) settled admitted.quantity room
  obtain ⟨book', places, sound'⟩ := sound.placeOrder unfilled inRange
  obtain ⟨answered, rfl⟩ := places.unique admitted rests
  refine ⟨⟨_, answered⟩, ?_⟩
  have remaining : order.remainingLots = order.quantityLots := by
    rw [Order.remainingLots, unfilled, sub_zero]
  rwa [sweptAndRested, Function.update_eq_self, ← remaining] at sound'

/-- The engine holds a book with these orders, in the order of their arrival. -/
structure Holds (config : PoolConfig) (engine : MatchingEngine) (book : Book)
    (orders : List Order) : Prop where
  sound : Sound config engine [] book
  queues : SameQueues book.resting (orders.map Order.asResting)
  summed : ∀ side, Ladder.Summed (book side)

theorem holds_new (config : PoolConfig) : Holds config (new config) (fun _ => []) [] where
  sound := sound_new config
  queues := .refl _
  summed := nofun

section

variable (holds : Holds config engine book orders)
include holds

theorem Holds.length_side (side : Side) :
    (entries (book side)).length =
      (orders.filter fun order => decide (order.side = side)).length := by
  rw [← @resting_length _ side, ← resting_filter_side,
    (holds.queues.perm.filter _).length_eq, filter_map, length_map]
  rfl

theorem Holds.exists_order (mem : level ∈ book side) :
    ∃ order ∈ orders, order.side = side ∧ order.priceTicks = level.price := by
  obtain ⟨entry, queued⟩ := exists_mem_of_ne_nil _
    ((holds.sound.sides side).occupied level mem)
  have resting := mem_resting.mpr (Ladder.mem_resting_of_mem side mem queued)
  obtain ⟨order, orderMember, isResting⟩ := mem_map.mp (holds.queues.perm.mem_iff.mp resting)
  exact ⟨order, orderMember, congrArg Resting.side isResting, congrArg Resting.price isResting⟩

theorem Holds.restoreOrder (restorable : Restorable config (orders ++ [order])) (count : Nat) :
    ∃ engine', restoreOrder (engine, count) order = (engine', count + 1) ∧
      Holds config engine' (book.queue order) (orders ++ [order]) := by
  have isLast : order ∈ orders ++ [order] := by simp
  have mayRest := restorable.mayRest order isLast
  have unfilled := restorable.unfilled order isLast
  have sideRoom := restorable.queues order.side
  have ownOnly : [order].filter (fun other => decide (other.side = order.side)) = [order] := by simp
  rw [filter_append, length_append, ownOnly, length_singleton] at sideRoom
  have slots := restorable.slots
  rw [length_append, length_singleton] at slots
  have fresh : ∀ resting ∈ book.resting, resting.orderId ≠ order.id := by
    intro resting mem same
    obtain ⟨other, otherMember, rfl⟩ := mem_map.mp (holds.queues.perm.mem_iff.mp mem)
    have distinct := restorable.distinct
    rw [map_append, nodup_append] at distinct
    exact distinct.2.2 _ (mem_map_of_mem otherMember) _ (by simp) same
  have admitted : book.Admits config order :=
    { price := fun bad => absurd (restorable.price order isLast) (not_lt.mpr bad.2)
      quantity := restorable.quantity order isLast
      fresh := fresh
      slot := by
        rw [holds.queues.perm.length_eq, length_map]
        omega
      queues := by omega }
  have quiet : ∀ level ∈ book order.side.opposite, order.priceMatches level.price = false := by
    intro level mem
    obtain ⟨other, otherMember, otherSide, otherPrice⟩ := holds.exists_order mem
    rw [← otherPrice]
    exact Order.not_priceMatches_of_clear mayRest.1
      (restorable.clear order isLast other (by simp [otherMember]) otherSide)
  have sorted := (holds.sound.sides order.side).sorted
  obtain ⟨⟨result, answered⟩, sound'⟩ := holds.sound.placeOrder_rests admitted mayRest
    unfilled (restorable.inRange order isLast) (by rw [holds.length_side]; omega) quiet
  have limit : ({ order with isMarket := false } : Order) = order := by rw [← mayRest.1]
  refine ⟨(engine.placeOrder order).1, ?_, sound', ?_, ?_⟩
  · unfold MatchingEngine.restoreOrder
    rw [limit, ← Prod.mk.eta (p := engine.placeOrder order), answered]
  · rw [map_append]
    refine (sameQueues_rest sorted order.priceTicks order.id order.remainingLots).trans ?_
    exact holds.queues.append _
  · intro side
    rw [queue]
    by_cases own : side = order.side
    · subst own
      rw [Function.update_self]
      exact (holds.summed _).rest sorted
    · rw [Function.update_of_ne own]
      exact holds.summed side

end

theorem holds_restored (restorable : Restorable config orders) :
    ∃ engine book, orders.foldl restoreOrder (new config, 0) = (engine, orders.length) ∧
      Holds config engine book orders := by
  induction orders using List.reverseRecOn with
  | nil => exact ⟨_, _, rfl, holds_new config⟩
  | append_singleton orders order ih =>
    obtain ⟨engine, book, restored, holds⟩ :=
      ih (restorable.subperm (sublist_append_left _ _).subperm)
    obtain ⟨engine', restoredLast, holds'⟩ := holds.restoreOrder restorable orders.length
    refine ⟨engine', _, ?_, holds'⟩
    rw [foldl_append, restored, length_append]
    exact restoredLast

/-! ## The round trip -/

theorem Sound.exists_saved
    (sound : Sound config engine [] book) (mem : saved ∈ engine.savedOrders) :
    ∃ resting ∈ book.resting, ∃ order, engine.getOrder resting.orderId = some order ∧
      resting.StoredAs order ∧ saved = order.saved := by
  obtain ⟨resting, restingMember, isSaved⟩ :=
    mem_filterMap.mp (sound.savedOrders_perm.mem_iff.mp mem)
  obtain ⟨order, found, stored⟩ := sound.exists_stored restingMember
  rw [found, Option.map_some, Option.some.injEq] at isSaved
  exact ⟨resting, restingMember, order, found, stored, isSaved.symm⟩

theorem Sound.savedOrders_asResting (sound : Sound config engine [] book) :
    engine.savedOrders.map Order.asResting ~ book.resting := by
  refine (sound.savedOrders_perm.map _).trans ?_
  rw [map_filterMap]
  have asResting : ∀ resting ∈ book.resting,
      ((engine.getOrder resting.orderId).map Order.saved).map Order.asResting = some resting := by
    intro resting mem
    obtain ⟨order, found, stored⟩ := sound.exists_stored mem
    rw [found, Option.map_some, Option.map_some, Order.saved_asResting, stored.asResting]
  rw [filterMap_congr asResting, filterMap_some]

theorem Reached.restorable (reached : Reached config engine book) :
    Restorable config engine.savedOrders := by
  have sound := reached.sound
  have asResting := sound.savedOrders_asResting
  have read : ∀ saved ∈ engine.savedOrders, saved.mayRest ∧ 0 < saved.priceTicks ∧
      0 < saved.quantityLots ∧ InI64 saved.quantityLots ∧ saved.filledLots = 0 := by
    intro saved mem
    obtain ⟨resting, restingMember, order, found, stored, rfl⟩ := sound.exists_saved mem
    obtain ⟨index, -, atIndex⟩ := Option.bind_eq_some_iff.mp found
    obtain ⟨level, levelMember, entry, -, isResting⟩ :=
      mem_resting.mp (mem_resting.mp restingMember)
    have positive := stored.positive
    have upper := stored.lots_le
    have quantity : order.saved.quantityLots = resting.lots := stored.lots
    have price : order.saved.priceTicks = level.price := by
      rw [show order.saved.priceTicks = order.priceTicks from rfl, stored.price, isResting]
    unfold i64Max at upper
    refine ⟨reached.restable order (mem_of_getElem? atIndex), ?_, ?_, ?_, rfl⟩
    · rw [price]
      exact reached.priced resting.side level levelMember
    · omega
    · constructor <;> omega
  have ids : engine.savedOrders.map (·.id) =
      (engine.savedOrders.map Order.asResting).map (·.orderId) := by
    rw [map_map]
    rfl
  have ofSide : ∀ side, (engine.savedOrders.filter fun order =>
      decide (order.side = side)).length = (entries (book side)).length := by
    intro side
    rw [← @resting_length _ side, ← resting_filter_side,
      ← (asResting.filter _).length_eq, filter_map, length_map]
    rfl
  exact
    { mayRest := fun order mem => (read order mem).1
      price := fun order mem => (read order mem).2.1
      quantity := fun order mem => (read order mem).2.2.1
      inRange := fun order mem => (read order mem).2.2.2.1
      unfilled := fun order mem => (read order mem).2.2.2.2
      distinct := by
        rw [ids]
        exact (asResting.map _).nodup_iff.mpr sound.ids_nodup
      slots := by
        have length := asResting.length_eq
        rw [length_map] at length
        rw [length]
        exact sound.resting_length_le
      queues := by
        intro side
        have within := (sound.sides side).models.length_le_capacity.1
        rw [(sound.sides side).capacity] at within
        rw [ofSide]
        omega
      clear := by
        intro own ownMember other otherMember opposite
        have inBook : ∀ order ∈ engine.savedOrders, ∃ level ∈ book order.side,
            level.price = order.priceTicks := by
          intro order mem
          have resting := asResting.mem_iff.mp (mem_map_of_mem mem)
          obtain ⟨level, levelMember, entry, -, isResting⟩ :=
            mem_resting.mp (mem_resting.mp resting)
          exact ⟨level, levelMember, (congrArg Resting.price isResting).symm⟩
        obtain ⟨ownLevel, ownLevelMember, ownPrice⟩ := inBook own ownMember
        obtain ⟨otherLevel, otherLevelMember, otherPrice⟩ := inBook other otherMember
        rw [← ownPrice, ← otherPrice]
        rw [opposite] at otherLevelMember
        exact reached.uncrossed own.side ownLevel ownLevelMember otherLevel otherLevelMember }

theorem Sound.keyOf_saved (sound : Sound config engine [] book) (mem : saved ∈ engine.savedOrders) :
    engine.keyOf saved.id = saved.snapshotKey := by
  obtain ⟨resting, -, order, found, stored, rfl⟩ := sound.exists_saved mem
  rw [show order.saved.id = resting.orderId from stored.id, keyOf, found]
  rfl

/-- Resting orders have different keys. -/
theorem Sound.eq_of_keyOf_eq (sound : Sound config engine [] book)
    (firstMember : first ∈ book.resting) (secondMember : second ∈ book.resting)
    (sameKey : engine.keyOf first.orderId = engine.keyOf second.orderId) : first = second := by
  obtain ⟨firstOrder, firstFound, firstStored⟩ := sound.exists_stored firstMember
  obtain ⟨secondOrder, secondFound, secondStored⟩ := sound.exists_stored secondMember
  simp only [keyOf, firstFound, secondFound, Option.map_some, Option.getD_some,
    Order.snapshotKey, toLex_inj, Prod.mk.injEq] at sameKey
  refine inj_on_of_nodup_map sound.ids_nodup firstMember secondMember ?_
  rw [← firstStored.id, ← secondStored.id, sameKey.2]

/-- A list of resting orders in the order of their keys. -/
def KeySorted (engine : MatchingEngine) (list : List Resting) : Prop :=
  (list.map fun resting => engine.keyOf resting.orderId).Pairwise (· ≤ ·)

theorem keySorted_level (side : Side) (level : Level) :
    engine.KeySorted (level.resting side) ↔
      (level.queue.map fun entry => engine.keyOf entry.orderId).Pairwise (· ≤ ·) := by
  rw [KeySorted, Level.resting, map_map]
  rfl

theorem snapshotResting_perm (engine : MatchingEngine) :
    engine.snapshotResting.orders ~ engine.savedOrders :=
  perm_insertionSort _ _

/-- A snapshot is sorted by key, and so is each of its queues. -/
theorem Sound.keySorted_snapshot (sound : Sound config engine [] book) (test : Resting → Bool) :
    engine.KeySorted ((engine.snapshotResting.orders.map Order.asResting).filter test) := by
  have keys : engine.snapshotResting.orders.map (fun order => engine.keyOf order.id) =
      engine.snapshotResting.orders.map Order.snapshotKey := by
    refine map_congr_left fun order mem => ?_
    exact sound.keyOf_saved (engine.snapshotResting_perm.mem_iff.mp mem)
  have sorted : (engine.snapshotResting.orders.map fun order =>
      engine.keyOf order.id).Pairwise (· ≤ ·) := by
    rw [keys, pairwise_map]
    exact StableSort.pairwise_sortByKey _ _
  rw [KeySorted, filter_map, map_map]
  exact sorted.sublist (filter_sublist.map _)

/-- The book of a restored engine is the book of the snapshot exactly when the
queues were in the order of their keys. -/
theorem Reached.restored_eq_iff (reached : Reached config engine book)
    (holds : Holds config restored restoredBook engine.snapshotResting.orders) :
    restoredBook = book ↔ engine.InTimeOrder := by
  have sound := reached.sound
  have queues := holds.queues
  unfold InTimeOrder
  simp only [sound.levels_eq]
  constructor
  · rintro rfl side level mem
    refine ⟨?_, holds.summed side level mem⟩
    have own := queues side level.price
    rw [resting_filter_queuedAt, filter_resting_price side (sound.sides side).sorted mem] at own
    rw [← keySorted_level side, own]
    exact sound.keySorted_snapshot _
  · intro inOrder
    funext side
    refine Ladder.eq_of_sameQueues side (holds.sound.sides side).sorted
      (sound.sides side).sorted (holds.sound.sides side).occupied (sound.sides side).occupied
      (holds.summed side) (fun level mem => (inOrder side level mem).2) fun price => ?_
    have restoredQueue := queues side price
    rw [resting_filter_queuedAt] at restoredQueue
    have sameOrders : engine.snapshotResting.orders.map Order.asResting ~ book.resting :=
      (engine.snapshotResting_perm.map _).trans sound.savedOrders_asResting
    have sorted : engine.KeySorted ((Ladder.resting side (book side)).filter
        fun resting => decide (resting.price = price)) := by
      by_cases quoted : ∃ level ∈ book side, level.price = price
      · obtain ⟨level, mem, rfl⟩ := quoted
        rw [filter_resting_price side (sound.sides side).sorted mem, keySorted_level]
        exact (inOrder side level mem).1
      · have nothing : (Ladder.resting side (book side)).filter
            (fun resting => decide (resting.price = price)) = [] := by
          refine filter_eq_nil_iff.mpr fun resting mem => ?_
          obtain ⟨level, levelMember, entry, -, rfl⟩ := mem_resting.mp mem
          simpa using fun same => quoted ⟨level, levelMember, same⟩
        rw [nothing]
        exact List.Pairwise.nil
    rw [restoredQueue]
    have restoredSorted := sound.keySorted_snapshot (queuedAt side price)
    rw [KeySorted, pairwise_map] at restoredSorted sorted
    have filtered := sameOrders.filter (queuedAt side price)
    rw [resting_filter_queuedAt] at filtered
    refine List.Perm.eq_of_pairwise ?_ restoredSorted sorted filtered
    intro first second firstMember secondMember before after
    exact sound.eq_of_keyOf_eq
      (sameOrders.mem_iff.mp (mem_filter.mp firstMember).1)
      (mem_resting.mpr (by
        rw [side_of_mem_resting (mem_filter.mp secondMember).1]
        exact (mem_filter.mp secondMember).1))
      (le_antisymm before after)

/-- A fresh engine restored from a snapshot. -/
def recovered (config : PoolConfig) (engine : MatchingEngine) : MatchingEngine :=
  ((new config).restoreResting engine.snapshotResting).1

/-- Restoring a snapshot places every order of it. -/
theorem Reached.holds_recovered (reached : Reached config engine book) :
    ∃ restoredBook, Holds config (recovered config engine) restoredBook
      engine.snapshotResting.orders := by
  have restorable := reached.restorable.subperm engine.snapshotResting_perm.subperm
  obtain ⟨restored, restoredBook, placed, holds⟩ := holds_restored restorable
  have sound := holds.sound
  refine ⟨restoredBook, ?_, holds.queues, holds.summed⟩
  rw [recovered, restoreResting, placed]
  exact ⟨sound.sides, sound.stored, sound.linked, sound.orderCapacity, sound.trades,
    sound.tradeCapacity, sound.queues⟩

/-- The recovered engine holds the same book exactly when the queues were in the
order of timestamps and identifiers. -/
theorem Reached.sameBook_recovered_iff (reached : Reached config engine book) :
    SameBook config (recovered config engine) engine ↔ engine.InTimeOrder := by
  obtain ⟨restoredBook, holds⟩ := reached.holds_recovered
  rw [← reached.restored_eq_iff holds]
  constructor
  · intro same
    funext side
    rw [← holds.sound.levels_eq, same.levels_eq, reached.sound.levels_eq]
  · rintro rfl
    exact ⟨_, holds.sound, reached.sound⟩

/-- After every run, a snapshot brings back the book and with it all later answers
exactly when the queues are in the order of timestamps and identifiers. -/
theorem recovered_run_iff (config : PoolConfig) (calls : List Call) :
    ((∀ side, (recovered config ((new config).run calls).1).levels side =
        ((new config).run calls).1.levels side) ∧
      ∀ later, ((recovered config ((new config).run calls).1).run later).2 =
        (((new config).run calls).1.run later).2) ↔
      ((new config).run calls).1.InTimeOrder := by
  obtain ⟨book, reached⟩ := (reached_new config).run calls
  rw [← reached.sameBook_recovered_iff]
  constructor
  · rintro ⟨sameLevels, -⟩
    obtain ⟨restoredBook, holds⟩ := reached.holds_recovered
    refine ⟨book, ?_, reached.sound⟩
    have sameBook : restoredBook = book := by
      funext side
      rw [← holds.sound.levels_eq, sameLevels, reached.sound.levels_eq]
    exact sameBook ▸ holds.sound
  · exact fun same => ⟨same.levels_eq, same.run⟩

/-- Two bids of one instant, the one with the larger identifier first. -/
def sameInstant : List Call :=
  [.place (.limit 2 .buy 100 5 .gtc 0), .place (.limit 1 .buy 100 5 .gtc 0)]

theorem not_recovered_sameInstant :
    ¬ ((∀ side, (recovered ⟨4, 4⟩ ((new ⟨4, 4⟩).run sameInstant).1).levels side =
        ((new ⟨4, 4⟩).run sameInstant).1.levels side) ∧
      ∀ later, ((recovered ⟨4, 4⟩ ((new ⟨4, 4⟩).run sameInstant).1).run later).2 =
        (((new ⟨4, 4⟩).run sameInstant).1.run later).2) := by
  rintro ⟨sameLevels, -⟩
  exact absurd (sameLevels .buy) (by decide +kernel)

end MatchingEngine
end LightningX.Matching
