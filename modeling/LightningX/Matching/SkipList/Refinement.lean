import LightningX.Matching.Ladder
import LightningX.Matching.SkipList.Levels

/-!
# The skip list refines the price ladder

`Models` relates a skip list to the ladder it represents.  Every operation
of the skip list is described by the operation of the ladder it performs, so
that nothing above this file looks at nodes, towers or pool indices.
-/

namespace LightningX.Matching

open List Ladder
open LightningX.Path SkipListNode

namespace SkipList

variable {slot : Slot}

def levelOf (list : SkipList) (slot : Slot) : Level where
  price := list.price slot.node
  total := (list.node slot.node).totalQuantityLots
  queue := slot.cells.map list.listPool.entry

/-- The skip list is sound, represents `levels` and has lost `leaked` nodes of
its pool to levels removed with their queues. -/
def Models (list : SkipList) (levels : List Level) (leaked : Nat) : Prop :=
  ∃ slots cells, list.Rep slots cells ∧ slots.map list.levelOf = levels ∧ cells.length = leaked

/-- What the operations on levels and orders never change. -/
structure Frame (list list' : SkipList) : Prop where
  order : list'.order = list.order
  bestPrice : list'.bestPrice = list.bestPrice
  capacity : list'.listPool.capacity = list.listPool.capacity

variable {list list' : SkipList} {levels : List Level} {leaked : Nat} {slots lower : List Slot}
  {cells : List Nat} {price : Int}

/-- A fresh skip list represents the empty ladder. -/
theorem models_newWithPool (order : SortOrder) (capacity : Nat) :
    (newWithPool order capacity).Models [] 0 := by
  refine ⟨[], [], ?_, rfl, rfl⟩
  refine
    { tiers := fun tier => ?_
      queues := by simp
      sorted := List.Pairwise.nil
      level_le := by simp
      level_lt := Nat.zero_lt_of_lt (show 0 < maxLevel by decide)
      count_eq := rfl
      arena := by simp [Partition, newWithPool]
      pool := ListNodePool.owns_new capacity }
  simp [next, node, newWithPool]

theorem Rep.ladder_sorted (rep : list.Rep slots cells) :
    Sorted list.order (slots.map list.levelOf) :=
  pairwise_map.mpr rep.sorted

theorem Models.sorted (models : list.Models levels leaked) : Sorted list.order levels := by
  obtain ⟨slots, cells, rep, rfl, -⟩ := models
  exact rep.ladder_sorted

/-- Every price either has no level, or splits the slots at its level. -/
theorem Rep.find_cases (rep : list.Rep slots cells) (price : Int) :
    (∃ lower upper, slots = lower ++ upper ∧ list.Split price lower upper ∧
      list.headAt price upper = none ∧ find price (slots.map list.levelOf) = none) ∨
    ∃ lower slot rest, slots = lower ++ slot :: rest ∧
      list.Split price lower (slot :: rest) ∧ list.price slot.node = price ∧
      find price (slots.map list.levelOf) = some (list.levelOf slot) := by
  obtain ⟨lower, upper, rfl, split⟩ := rep.exists_split price
  have lowerNe : ∀ slot ∈ lower, list.price slot.node ≠ price :=
    fun slot mem => list.order.ne_of_shouldInsert (split.before slot mem)
  by_cases hit : list.headAt price upper = none
  · left
    refine ⟨lower, upper, rfl, split, hit, ?_⟩
    rw [find_eq_none_iff]
    intro level mem
    obtain ⟨slot, slotMember, rfl⟩ := mem_map.mp mem
    rcases mem_append.mp slotMember with inLower | inUpper
    · exact lowerNe slot inLower
    · have later := rep.price_before_upper split hit slot inUpper
      exact (list.order.ne_of_shouldInsert later).symm
  · right
    cases upper with
    | nil => simp [headAt] at hit
    | cons slot rest =>
      have found : list.price slot.node = price := by
        by_contra ne
        simp [headAt, ne] at hit
      refine ⟨lower, slot, rest, rfl, split, found, ?_⟩
      rw [find_eq_some_iff rep.ladder_sorted]
      exact ⟨mem_map_of_mem (by simp), found⟩

/-- The levels around the level of a price have other prices. -/
theorem Rep.prices_apart (rep : list.Rep (lower ++ slot :: rest) cells) :
    (∀ other ∈ lower.map list.levelOf, other.price ≠ (list.levelOf slot).price) ∧
    ∀ other ∈ rest.map list.levelOf, other.price ≠ (list.levelOf slot).price := by
  obtain ⟨-, upperSorted, across⟩ := pairwise_append.mp rep.sorted
  constructor
  · intro other mem
    obtain ⟨otherSlot, otherMember, rfl⟩ := mem_map.mp mem
    exact list.order.ne_of_shouldInsert (across otherSlot otherMember slot (by simp))
  · intro other mem
    obtain ⟨otherSlot, otherMember, rfl⟩ := mem_map.mp mem
    exact (list.order.ne_of_shouldInsert
      ((pairwise_cons.mp upperSorted).1 otherSlot otherMember)).symm

section

variable (rep : list.Rep slots cells) (mem : slot ∈ slots) (cellMember : cell ∈ slot.cells)
include rep mem cellMember

theorem Rep.cells_lt : cell < list.listPool.nodes.length := by
  apply rep.pool.lt_length
  exact mem_append_left _ (mem_flatMap.mpr ⟨slot, mem, cellMember⟩)

/-- Content of an allocated queue node. -/
theorem Rep.get_eq_some :
    ∃ node, list.listPool.get cell = some node ∧
      list.listPool.entry cell = { orderId := node.orderId, lots := node.quantityLots } := by
  have bound := rep.cells_lt mem cellMember
  refine ⟨list.listPool.nodes[cell], by simp [ListNodePool.get], ?_⟩
  simp [ListNodePool.entry, bound]

end

section

variable (models : list.Models levels leaked)
include models

/-- The level of a price exists in the list when it exists in the ladder. -/
theorem Models.getNodeAtPrice_isSome (price : Int) :
    (list.getNodeAtPrice price).isSome = (find price levels).isSome := by
  obtain ⟨slots, cells, rep, rfl, -⟩ := models
  rcases rep.find_cases price with
    ⟨lower, upper, rfl, split, absent, missing⟩ |
    ⟨lower, slot, rest, rfl, split, hit, found⟩
  · rw [rep.getNodeAtPrice_eq_headAt split, absent, missing]
    rfl
  · rw [rep.getNodeAtPrice_eq_headAt split, found]
    simp [headAt, hit]

theorem Models.levelEmpty_eq (price : Int) (absent : Bool) :
    list.levelEmpty price absent =
      ((find price levels).map fun level => level.queue.isEmpty).getD
        absent := by
  obtain ⟨slots, cells, rep, rfl, -⟩ := models
  rcases rep.find_cases price with
    ⟨lower, upper, rfl, split, notThere, missing⟩ |
    ⟨lower, slot, rest, rfl, split, hit, found⟩
  · rw [levelEmpty, rep.getNodeAtPrice_eq_headAt split, notThere, missing]
    rfl
  · rw [levelEmpty, rep.getNodeAtPrice_eq_headAt split, found]
    have emptyIff := (rep.queues slot (by simp)).isEmpty_iff
    simp only [headAt, hit, if_true, Option.map_some, Option.getD_some, levelOf]
    rw [Bool.eq_iff_iff, emptyIff]
    simp

theorem Models.frontOrderId_eq (price : Int) :
    list.frontOrderId price =
      (find price levels).bind fun level => level.queue.head?.map (·.orderId) := by
  obtain ⟨slots, cells, rep, rfl, -⟩ := models
  rcases rep.find_cases price with
    ⟨lower, upper, rfl, split, notThere, missing⟩ |
    ⟨lower, slot, rest, rfl, split, hit, found⟩
  · rw [frontOrderId, rep.getNodeAtPrice_eq_headAt split, notThere, missing]
    rfl
  · rw [frontOrderId, rep.getNodeAtPrice_eq_headAt split, found]
    have front := (rep.queues slot (by simp)).head_eq
    simp only [headAt, hit, if_true, Option.bind_some, PooledList.front, front, levelOf]
    cases cellsEq : slot.cells with
    | nil => rfl
    | cons cell remaining =>
      obtain ⟨node, atCell, entryEq⟩ :=
        rep.get_eq_some (show slot ∈ lower ++ slot :: rest by simp)
          (show cell ∈ slot.cells by simp [cellsEq])
      simp [atCell, entryEq]

/-- `best` is the first level of the ladder. -/
theorem Models.best_price : list.best.map list.price = levels.head?.map (·.price) := by
  obtain ⟨slots, cells, rep, rfl, -⟩ := models
  rw [rep.best_eq]
  cases slots <;> rfl

/-- `best_with_orders` is the first level with a nonempty queue. -/
theorem Models.bestWithOrders_price :
    list.bestWithOrders.map list.price =
      (levels.find? fun level => !level.queue.isEmpty).map (·.price) := by
  obtain ⟨slots, cells, rep, rfl, -⟩ := models
  have sameTest : (fun slot : Slot => !slot.cells.isEmpty) =
      (fun level : Level => !level.queue.isEmpty) ∘ list.levelOf := by
    funext slot
    simp [levelOf]
  rw [rep.bestWithOrders_eq, List.find?_map, sameTest, Option.map_map, Option.map_map]
  rfl

end

theorem Models.insertLevel_of_find_isSome
    (models : list.Models levels leaked) (present : (find price levels).isSome = true) :
    list.insertLevel price = (list, .error "Price level already exists") := by
  rw [← models.getNodeAtPrice_isSome] at present
  simp [insertLevel, present]

/-- Slots outside a change keep their level. -/
theorem levelOf_eq (fields : SameFields (list.node slot.node) (list'.node slot.node))
    (entries : ∀ cell ∈ slot.cells, list'.listPool.entry cell = list.listPool.entry cell) :
    list'.levelOf slot = list.levelOf slot := by
  simp only [levelOf, price, fields.priceTicks, fields.totalQuantityLots, Level.mk.injEq, true_and]
  exact map_congr_left entries

/-- Inserting a new price inserts an empty level. -/
theorem Models.insertLevel
    (models : list.Models levels leaked) (missing : find price levels = none) :
    ∃ list', list.insertLevel price = (list', .ok ()) ∧
      list'.Models (insert list.order price levels) leaked ∧ list.Frame list' := by
  obtain ⟨slots, cells, rep, rfl, rfl⟩ := models
  rcases rep.find_cases price with
    ⟨lower, upper, rfl, split, absent, -⟩ |
    ⟨lower, slot, rest, rfl, split, hit, found⟩
  · obtain ⟨list', index, newLevel, inserted, spliced, total, bestPrice⟩ :=
      rep.insertLevel split absent
    refine ⟨list', inserted, ⟨_, _, spliced.rep rep split absent, ?_, rfl⟩,
      ⟨spliced.order, bestPrice, by rw [spliced.listPool]⟩⟩
    have kept : ∀ slot ∈ lower ++ upper, list'.levelOf slot = list.levelOf slot :=
      fun slot mem => levelOf_eq
        (spliced.fields _ (mem_cons_of_mem _ (mem_map_of_mem mem)))
        (by simp [spliced.listPool])
    have fresh : list'.levelOf ⟨index, []⟩ = Level.empty price := by
      simp [levelOf, spliced.node_price, total, Level.empty]
    rw [map_append, map_append, map_cons, fresh, insert_append]
    · rw [map_congr_left fun slot mem => kept slot (by simp [mem]),
        map_congr_left fun slot mem => kept slot (by simp [mem])]
    · intro level mem
      obtain ⟨slot, slotMember, rfl⟩ := mem_map.mp mem
      exact split.before slot slotMember
    · intro level mem
      obtain ⟨slot, slotMember, rfl⟩ := mem_map.mp mem
      exact split.after slot slotMember
  · rw [found] at missing
    simp at missing

/-- Removing a level erases it; the nodes of its queue are lost. -/
theorem Models.removeLevel {level : Level}
    (models : list.Models levels leaked) (found : find price levels = some level) :
    ∃ list', list.removeLevel price = (list', .ok ()) ∧
      list'.Models (erase price levels) (level.queue.length + leaked) ∧
      list.Frame list' := by
  obtain ⟨slots, cells, rep, rfl, rfl⟩ := models
  rcases rep.find_cases price with
    ⟨lower, upper, rfl, split, absent, missing⟩ |
    ⟨lower, slot, rest, rfl, split, hit, foundSlot⟩
  · rw [missing] at found
    simp at found
  · rw [foundSlot] at found
    cases found
    obtain ⟨list', removed, unlinked⟩ := rep.removeLevel split hit
    refine ⟨list', removed, ⟨_, _, unlinked.rep rep, ?_, by simp [levelOf]⟩,
      ⟨unlinked.order, unlinked.bestPrice, by rw [unlinked.listPool]⟩⟩
    obtain ⟨lowerNe, restNe⟩ := rep.prices_apart
    have kept : ∀ other ∈ lower ++ rest, list'.levelOf other = list.levelOf other :=
      fun other mem => levelOf_eq
        (unlinked.fields _ (mem_cons_of_mem _ (mem_map_of_mem mem)))
        (by simp [unlinked.listPool])
    have erased := erase_append lowerNe restNe
    rw [show (list.levelOf slot).price = price from hit] at erased
    rw [map_congr_left kept, map_append, map_append, map_cons, erased]

end SkipList
end LightningX.Matching
