import LightningX.Matching.Book
import LightningX.Matching.Engine.Defs
import LightningX.Matching.SkipList.Queues

/-!
# What the engine does to one side of the book

The sequences of skip-list operations that `match_order`, `add_to_book` and
`remove_from_book` perform, as single operations on ladders.
-/

namespace LightningX.Matching

open List Ladder

namespace SkipList

variable {list : SkipList} {levels : List Level} {level : Level} {leaked : Nat} {price lots : Int}
  {entry : Entry} {worse : List Level}

theorem Frame.refl (list : SkipList) : list.Frame list := ⟨rfl, rfl, rfl⟩

theorem Frame.trans (first : list.Frame list') (second : list'.Frame list'') : list.Frame list'' :=
  ⟨second.order.trans first.order, second.bestPrice.trans first.bestPrice,
    second.capacity.trans first.capacity⟩

section

variable (models : list.Models levels leaked)
include models

/-- The level of a price after a change that keeps prices. -/
theorem Models.find_update (keepsPrice : ∀ level, (change level).price = level.price)
    (found : find price levels = some level) :
    find price (update price change levels) = some (change level) := by
  rw [find, update, List.find?_map]
  have sameTest : ((fun level : Level => level.price == price) ∘
      fun level => if level.price = price then change level else level) =
      fun level => level.price == price := by
    funext other
    by_cases atPrice : other.price = price
    · simp [atPrice, keepsPrice]
    · simp [atPrice]
  have priceEq := ((find_eq_some_iff models.sorted).mp found).2
  rw [sameTest, show levels.find? _ = some level from found]
  simp [priceEq]

/-- Removing an order and, with it, its level when nothing is left there. -/
theorem Models.dropOrder (found : find price levels = some level)
    (queued : orderId ∈ level.queue.map (·.orderId)) :
    ∃ list', list.removeOrderAtLevel price orderId = (list', .ok ()) ∧
      (list.dropOrder price orderId).Models (drop price orderId levels) leaked ∧
      list.Frame (list.dropOrder price orderId) := by
  obtain ⟨list', removed, models', frame⟩ := models.removeOrderAtLevel found queued
  refine ⟨list', removed, ?_⟩
  have found' := models.find_update (Level.drop_price orderId) found
  have emptyEq := models'.levelEmpty_eq price true
  rw [found', Option.map_some] at emptyEq
  obtain ⟨lower, upper, rfl, rfl, lowerNe, upperNe⟩ := exists_split models.sorted found
  have updated := update_append (Level.drop orderId) lowerNe upperNe
  simp only [SkipList.dropOrder, dropEmptyLevel, removed, emptyEq, drop_append lowerNe upperNe]
  by_cases emptied : (level.drop orderId).queue = []
  · obtain ⟨list'', erased, models'', frame'⟩ := models'.removeLevel found'
    simp only [emptied, erased]
    have erasedEq : erase (level.drop orderId).price
        (lower ++ level.drop orderId :: upper) = lower ++ upper :=
      erase_append lowerNe upperNe
    rw [updated, show level.price = (level.drop orderId).price from rfl, erasedEq, emptied,
      length_nil, Nat.zero_add] at models''
    exact ⟨models'', frame.trans frame'⟩
  · simp only [emptied, isEmpty_eq_false_iff.mpr emptied]
    rw [updated] at models'
    exact ⟨models', frame⟩

/-- `insert_level` with its error ignored: afterwards the level exists. -/
theorem Models.ensureLevel (price : Int) :
    (list.insertLevel price).1.Models
        (if (find price levels).isSome then levels else insert list.order price levels) leaked ∧
      list.Frame (list.insertLevel price).1 := by
  cases found : find price levels with
  | some level =>
    rw [models.insertLevel_of_find_isSome (by simp [found])]
    exact ⟨by simpa using models, Frame.refl list⟩
  | none =>
    obtain ⟨list', inserted, models', frame⟩ := models.insertLevel found
    rw [inserted]
    exact ⟨by simpa using models', frame⟩

end

theorem entries_insert_length (order : SortOrder) (price : Int) (levels : List Level) :
    (entries (insert order price levels)).length = (entries levels).length := by
  obtain ⟨lower, upper, rfl, inserted⟩ := exists_insert_split order price levels
  simp [inserted, entries, Level.empty]

/-- `insert_level` followed by `add_order_at_level` while the pool has room. -/
theorem Models.rest (models : list.Models levels leaked) (price : Int) (orderId : Nat) (lots : Int)
    (room : (entries levels).length + leaked < list.listPool.capacity) :
    ∃ list', (list.insertLevel price).1.addOrderAtLevel price orderId lots = (list', .ok ()) ∧
      list'.Models (rest list.order price orderId lots levels) leaked ∧
      list.Frame list' := by
  obtain ⟨models', frame⟩ := models.ensureLevel price
  have present : ∃ level, find price
      (if (find price levels).isSome then levels
       else insert list.order price levels) = some level := by
    cases found : find price levels with
    | some level => exact ⟨level, by simp [found]⟩
    | none =>
      refine ⟨Level.empty price, ?_⟩
      have sorted := models'.sorted
      simp only [found, Option.isSome_none, Bool.false_eq_true, if_false] at sorted ⊢
      rw [find_eq_some_iff sorted]
      obtain ⟨lower, upper, -, inserted⟩ := exists_insert_split list.order price levels
      exact ⟨by simp [inserted], rfl⟩
  obtain ⟨level, found⟩ := present
  have stillRoom : (entries (if (find price levels).isSome then levels
      else insert list.order price levels)).length + leaked <
        (list.insertLevel price).1.listPool.capacity := by
    rw [frame.capacity]
    split_ifs
    · exact room
    · rwa [entries_insert_length]
  obtain ⟨list', added, models'', frame'⟩ := models'.addOrderAtLevel found stillRoom
  exact ⟨list', added, models'', frame.trans frame'⟩

/-- Without room the level that was made for the order is removed again. -/
theorem Models.rest_of_full (models : list.Models levels leaked) (price : Int) (orderId : Nat)
    (lots : Int) (occupied : Occupied levels)
    (full : (entries levels).length + leaked = list.listPool.capacity) :
    ∃ list', (list.insertLevel price).1.addOrderAtLevel price orderId lots =
        (list', .error "List pool exhausted") ∧
      (list'.dropEmptyLevel price false).Models levels leaked ∧
      list.Frame (list'.dropEmptyLevel price false) := by
  cases found : find price levels with
  | some level =>
    have same : list.insertLevel price = _ := models.insertLevel_of_find_isSome (by simp [found])
    refine ⟨list, ?_, ?_⟩
    · rw [same]
      exact models.addOrderAtLevel_of_full full
    · have mem := ((find_eq_some_iff models.sorted).mp found).1
      have kept : list.levelEmpty price false = false := by
        rw [models.levelEmpty_eq, found]
        simpa using occupied level mem
      simp only [dropEmptyLevel, kept]
      exact ⟨models, Frame.refl list⟩
  | none =>
    obtain ⟨list', inserted, models', frame⟩ := models.insertLevel found
    obtain ⟨lower, upper, rfl, insertEq⟩ := exists_insert_split list.order price levels
    have missing := find_eq_none_iff.mp found
    have present : find price
        (insert list.order price (lower ++ upper)) = some (Level.empty price) := by
      rw [find_eq_some_iff models'.sorted]
      exact ⟨by simp [insertEq], rfl⟩
    refine ⟨list', ?_, ?_⟩
    · rw [inserted]
      refine models'.addOrderAtLevel_of_full ?_
      rw [entries_insert_length, frame.capacity, full]
    · obtain ⟨list'', erased, models'', frame'⟩ := models'.removeLevel present
      have emptied : list'.levelEmpty price false = true := by
        rw [models'.levelEmpty_eq, present]
        rfl
      have erasedEq : erase (Level.empty price).price
          (lower ++ Level.empty price :: upper) = lower ++ upper :=
        erase_append (fun other mem => missing other (by simp [mem]))
          fun other mem => missing other (by simp [mem])
      rw [insertEq, show erase price _ = _ from erasedEq] at models''
      simp only [dropEmptyLevel, emptied, erased]
      exact ⟨by simpa [Level.empty] using models'', frame.trans frame'⟩

variable {rest : List Entry}

theorem reduce_front (queueEq : level.queue = entry :: rest) (positive : 0 < lots)
    (atMost : lots ≤ entry.lots) (inRange : entry.lots ≤ i64Max) :
    level.reduce entry.orderId lots =
      { level with
        total := max (wrapI64 (level.total - lots)) 0
        queue := { entry with lots := entry.lots - lots } :: rest } := by
  have exact : max (wrapI64 (entry.lots - lots)) 0 = entry.lots - lots := by
    rw [wrapI64_of_le_max (by omega) (by omega)]
    omega
  have split : level.queue = [] ++ entry :: rest := queueEq
  rw [Level.reduce_of_split split (by simp), exact]
  rfl

section

variable (models : list.Models (level :: worse) leaked) (queueEq : level.queue = entry :: rest)
include models queueEq

/-- Reducing the front order of the best level. -/
theorem Models.reduceFront (lots : Int) :
    ∃ list', list.reduceOrderQuantityAtLevel level.price entry.orderId lots = (list', .ok ()) ∧
      list'.Models (level.reduce entry.orderId lots :: worse) leaked ∧
      list.Frame list' := by
  have found : find level.price (level :: worse) = some level := by simp [find]
  have queued : entry.orderId ∈ level.queue.map (·.orderId) := by simp [queueEq]
  obtain ⟨list', reduced, models', frame⟩ := models.reduceOrderQuantityAtLevel found queued lots
  have sorted : Sorted list.order ([] ++ level :: worse) := models.sorted
  obtain ⟨lowerNe, worseNe⟩ := sorted.split_ne
  have updated := update_append (Level.reduce entry.orderId lots) lowerNe worseNe
  rw [nil_append] at updated
  rw [updated] at models'
  exact ⟨list', reduced, models', frame⟩

/-- A trade that leaves lots of the front order. -/
theorem Models.hit_of_lt (positive : 0 < lots) (less : lots < entry.lots)
    (inRange : entry.lots ≤ i64Max) :
    ∃ list', list.reduceOrderQuantityAtLevel level.price entry.orderId lots = (list', .ok ()) ∧
      list'.Models (hit lots (level :: worse)) leaked ∧ list.Frame list' := by
  obtain ⟨list', reduced, models', frame⟩ := models.reduceFront queueEq lots
  refine ⟨list', reduced, ?_, frame⟩
  have hitEq : level.reduce entry.orderId lots = level.hit lots := by
    rw [reduce_front queueEq positive less.le inRange, Level.hit, queueEq]
    simp [less.ne']
  have stays : (level.hit lots).queue ≠ [] := by simp [Level.hit, queueEq, less.ne']
  rw [hit, if_neg stays, ← hitEq]
  exact models'

/-- A trade that takes all lots of the front order, which then leaves. -/
theorem Models.hit_of_eq (positive : 0 < entry.lots) (inRange : entry.lots ≤ i64Max) :
    ∃ list', list.reduceOrderQuantityAtLevel level.price entry.orderId entry.lots =
        (list', .ok ()) ∧
      (list'.dropOrder level.price entry.orderId).Models
        (hit entry.lots (level :: worse)) leaked ∧
      list.Frame (list'.dropOrder level.price entry.orderId) := by
  obtain ⟨list', reduced, models', frame⟩ := models.reduceFront queueEq entry.lots
  refine ⟨list', reduced, ?_⟩
  have reducedEq := reduce_front queueEq positive le_rfl inRange
  rw [Int.sub_self] at reducedEq
  have found : find level.price (level.reduce entry.orderId entry.lots :: worse) =
      some (level.reduce entry.orderId entry.lots) := by
    simp [find]
  have queued : entry.orderId ∈ (level.reduce entry.orderId entry.lots).queue.map (·.orderId) := by
    simp [reducedEq]
  obtain ⟨-, -, models'', frame'⟩ := models'.dropOrder found queued
  refine ⟨?_, frame.trans frame'⟩
  have hitEq : (level.reduce entry.orderId entry.lots).drop entry.orderId =
      level.hit entry.lots := by
    have split : (level.reduce entry.orderId entry.lots).queue =
        [] ++ { entry with lots := 0 } :: rest := by
      rw [reducedEq]
      rfl
    have dropped := Level.drop_of_split split (by simp)
    have stable : wrapI64 (max (wrapI64 (level.total - entry.lots)) 0 - 0) =
        max (wrapI64 (level.total - entry.lots)) 0 := by
      obtain ⟨lower, upper⟩ := inI64_wrapI64 (level.total - entry.lots)
      rw [Int.sub_zero]
      refine wrapI64_eq ⟨?_, ?_⟩ <;> omega
    rw [dropped, reducedEq, Level.hit, queueEq]
    simp only [if_true, nil_append, stable]
  have sorted : Sorted list'.order
      ([] ++ level.reduce entry.orderId entry.lots :: worse) := models'.sorted
  obtain ⟨lowerNe, worseNe⟩ := sorted.split_ne
  have removed : drop (level.reduce entry.orderId entry.lots).price entry.orderId
      ([] ++ level.reduce entry.orderId entry.lots :: worse) = _ :=
    drop_append lowerNe worseNe
  rw [hitEq, nil_append, Level.reduce_price] at removed
  rw [removed] at models''
  exact models''

end

end SkipList
end LightningX.Matching
