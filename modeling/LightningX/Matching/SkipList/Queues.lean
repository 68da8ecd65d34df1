import LightningX.Matching.SkipList.Refinement
import Mathlib.Data.List.Find

/-!
# The queues of the skip list

The operations on the orders of one level, and the reads that depend on
them: the cached best price, the depth of the book and the quantity available
up to a price.
-/

namespace LightningX.Matching

open LightningX.Path SkipListNode ListNodePool Ladder PooledList
open List

namespace SkipList

variable {list : SkipList} {levels : List Level} {leaked : Nat} {slots lower rest : List Slot}
  {slot : Slot} {cells newCells : List Nat} {pool : ListNodePool}
  {change : SkipListNode → SkipListNode} {price : Int} {index orderId : Nat} {level : Level}
  {other : Slot}

def writeQueue (list : SkipList) (index : Nat) (pool : ListNodePool)
    (change : SkipListNode → SkipListNode) : SkipList :=
  ({ list with listPool := pool } : SkipList).modifyNode index change

structure KeepsPlace (change : SkipListNode → SkipListNode) : Prop where
  price : ∀ node, (change node).priceTicks = node.priceTicks
  level : ∀ node, (change node).level = node.level
  forward : ∀ node, (change node).forward = node.forward

theorem writeQueue_node_ne (ne : index ≠ target) :
    (list.writeQueue target pool change).node index = list.node index :=
  node_modifyNode_ne _ ne

theorem writeQueue_node_self (bound : index < list.arena.length) :
    (list.writeQueue index pool change).node index = change (list.node index) :=
  node_modifyNode_self _ bound

/-- A part of a node that a change keeps is the same everywhere. -/
theorem writeQueue_keeps {α : Type}
    (read : SkipListNode → α) (kept : ∀ node, read (change node) = read node)
    (bound : target < list.arena.length) (index : Nat) :
    read ((list.writeQueue target pool change).node index) = read (list.node index) := by
  by_cases same : index = target
  · rw [same, writeQueue_node_self bound, kept]
  · rw [writeQueue_node_ne same]

section

variable (rep : list.Rep (lower ++ slot :: rest) cells)
include rep

theorem Rep.node_ne (mem : other ∈ lower ++ rest) : other.node ≠ slot.node := by
  intro equal
  have distinct := rep.distinct
  simp only [map_append, map_cons] at distinct
  have inner := perm_middle.nodup_iff.mp (nodup_cons.mp distinct).2
  apply (nodup_cons.mp inner).1
  rw [← equal, ← map_append]
  exact mem_map_of_mem mem

theorem Rep.slot_lt : slot.node < list.arena.length :=
  rep.arena.lt_of_mem_used (by simp)

section

variable {next : Level → Level} (keeps : KeepsPlace change)
  (queue : (change (list.node slot.node)).orders.Rep pool newCells)
  (others : ∀ other ∈ lower ++ rest, ∀ cell ∈ other.cells, SameNode list.listPool pool cell)
  (owns : pool.Owns ((lower ++ ⟨slot.node, newCells⟩ :: rest).flatMap (·.cells) ++ cells))
include keeps queue others owns

/-- Replacing the queue of one slot. -/
theorem Rep.writeQueue :
    (list.writeQueue slot.node pool change).Rep (lower ++ ⟨slot.node, newCells⟩ :: rest) cells := by
  have bound := rep.slot_lt
  have prices : ∀ index, (list.writeQueue slot.node pool change).price index = list.price index :=
    writeQueue_keeps (·.priceTicks) keeps.price bound
  have heights : ∀ index,
      ((list.writeQueue slot.node pool change).node index).level = (list.node index).level :=
    writeQueue_keeps (·.level) keeps.level bound
  have links : ∀ tier index,
      (list.writeQueue slot.node pool change).next tier index = list.next tier index := fun tier =>
    writeQueue_keeps (·.next tier)
      (fun node => by rw [SkipListNode.next, keeps.forward, SkipListNode.next]) bound
  have nodesEq : (lower ++ ⟨slot.node, newCells⟩ :: rest).map (·.node) =
      (lower ++ slot :: rest).map (·.node) := by
    simp
  refine
    { tiers := fun tier => ?_
      queues := fun other mem => ?_
      sorted := ?_
      level_le := fun other mem => ?_
      level_lt := rep.level_lt
      count_eq := rep.count_eq.trans (by simp)
      arena := ?_
      pool := owns }
  · have tierEq : (list.writeQueue slot.node pool change).tierNodes tier
          (lower ++ ⟨slot.node, newCells⟩ :: rest) =
        list.tierNodes tier (lower ++ slot :: rest) := by
      simp only [tierNodes, nodesEq, heights]
    rw [tierEq]
    exact (rep.tiers tier).congr fun index _ => links tier index
  · rcases mem_append.mp mem with inLower | inUpper
    · rw [writeQueue_node_ne (rep.node_ne (by simp [inLower]))]
      exact (rep.queues other (by simp [inLower])).congr (others other (by simp [inLower]))
    · rcases mem_cons.mp inUpper with rfl | inRest
      · rw [writeQueue_node_self bound]
        exact queue
      · rw [writeQueue_node_ne (rep.node_ne (by simp [inRest]))]
        exact (rep.queues other (by simp [inRest])).congr (others other (by simp [inRest]))
  · have byNode : ((lower ++ slot :: rest).map (·.node)).Pairwise fun first second =>
        list.order.shouldInsert (list.price first) (list.price second) = true :=
      pairwise_map.mpr rep.sorted
    rw [← nodesEq, pairwise_map] at byNode
    refine byNode.imp fun {first second} before => ?_
    rw [prices, prices]
    exact before
  · have reached : other.node ∈ (lower ++ slot :: rest).map (·.node) := by
      rw [← nodesEq]
      exact mem_map_of_mem mem
    obtain ⟨original, originalMember, sameNode⟩ := mem_map.mp reached
    rw [heights, ← sameNode]
    exact rep.level_le original originalMember
  · simpa [SkipList.writeQueue, modifyNode] using rep.arena

/-- Replacing the queue of one slot changes its level only. -/
theorem Rep.models_writeQueue
    (nextEq : next (list.levelOf slot) =
      { price := list.price slot.node
        total := (change (list.node slot.node)).totalQuantityLots
        queue := newCells.map pool.entry }) :
    (list.writeQueue slot.node pool change).Models
      (update (list.price slot.node) next
        ((lower ++ slot :: rest).map list.levelOf)) cells.length := by
  refine ⟨_, _, rep.writeQueue keeps queue others owns, ?_, rfl⟩
  have bound := rep.slot_lt
  have kept : ∀ other ∈ lower ++ rest,
      (list.writeQueue slot.node pool change).levelOf other = list.levelOf other := by
    intro other mem
    refine levelOf_eq ?_ fun cell cellMember => (others other mem cell cellMember).entry
    rw [writeQueue_node_ne (rep.node_ne mem)]
    exact ⟨rfl, rfl, rfl, rfl⟩
  have changed : (list.writeQueue slot.node pool change).levelOf
      ⟨slot.node, newCells⟩ = next (list.levelOf slot) := by
    rw [nextEq, levelOf, SkipList.price, writeQueue_node_self bound, keeps.price]
    rfl
  obtain ⟨lowerNe, restNe⟩ := rep.prices_apart
  have updated := update_append next lowerNe restNe
  rw [show (list.levelOf slot).price = list.price slot.node from rfl] at updated
  rw [map_append, map_append, map_cons, map_cons, updated, changed,
    map_congr_left fun other mem => kept other (by simp [mem]),
    map_congr_left fun other mem => kept other (by simp [mem])]

end

end

/-! ## Operations on one queue -/

theorem writeQueue_frame (capacity : pool.capacity = list.listPool.capacity) :
    list.Frame (list.writeQueue index pool change) :=
  ⟨rfl, rfl, capacity⟩

/-- The indices in use, with those of one queue first. -/
theorem cells_perm :
    (lower ++ slot :: rest).flatMap (·.cells) ++ cells ~
      slot.cells ++ ((lower ++ rest).flatMap (·.cells) ++ cells) := by
  simp only [flatMap_append, flatMap_cons, append_assoc]
  exact perm_append_comm_assoc _ _ _

theorem Rep.cells_nodup (rep : list.Rep (lower ++ slot :: rest) cells) :
    (slot.cells ++ ((lower ++ rest).flatMap (·.cells) ++ cells)).Nodup :=
  cells_perm.nodup rep.pool.partition.nodup_used

/-- The queues of two slots share no node. -/
theorem Rep.not_mem_cells (rep : list.Rep (lower ++ slot :: rest) cells)
    (mem : other ∈ lower ++ rest) (cellMember : cell ∈ other.cells) : cell ∉ slot.cells := by
  intro shared
  refine (nodup_append.mp rep.cells_nodup).2.2 cell shared cell ?_ rfl
  exact mem_append_left _ (mem_flatMap.mpr ⟨other, mem, cellMember⟩)

/-- The level of a price that has one. -/
theorem Rep.exists_slot
    (rep : list.Rep slots cells) (found : find price (slots.map list.levelOf) = some level) :
    ∃ lower slot rest, slots = lower ++ slot :: rest ∧
      list.levelAt price = some slot.node ∧ list.price slot.node = price ∧
      level = list.levelOf slot := by
  rcases rep.find_cases price with
    ⟨lower, upper, rfl, split, absent, missing⟩ |
    ⟨lower, slot, rest, rfl, split, hit, foundSlot⟩
  · rw [missing] at found
    simp at found
  · refine ⟨lower, slot, rest, rfl, ?_, hit, Option.some.inj (found.symm.trans foundSlot)⟩
    rw [rep.levelAt_eq_headAt split]
    simp [headAt, hit]

section

variable (models : list.Models levels leaked)
include models

theorem Models.length_le_capacity :
    (entries levels).length + leaked ≤ list.listPool.capacity ∧
      list.listPool.allocated = (entries levels).length + leaked := by
  obtain ⟨slots, cells, rep, rfl, rfl⟩ := models
  have entriesLength : (entries (slots.map list.levelOf)).length =
      (slots.flatMap (·.cells)).length := by
    simp [entries, levelOf, Function.comp_def]
  have lengths := rep.pool.partition.length_add_length
  have allocated := rep.pool.allocated_eq
  rw [length_append] at lengths allocated
  omega

/-- Adding an order to an existing level appends it, or the pool is full. -/
theorem Models.addOrderAtLevel (found : find price levels = some level)
    (room : (entries levels).length + leaked < list.listPool.capacity) :
    ∃ list', list.addOrderAtLevel price orderId lots = (list', .ok ()) ∧
      list'.Models (update price (Level.push orderId lots) levels) leaked ∧
      list.Frame list' := by
  have allocated := models.length_le_capacity.2
  obtain ⟨slots, cells, rep, rfl, rfl⟩ := models
  obtain ⟨lower, slot, rest, rfl, atLevel, rfl, rfl⟩ := rep.exists_slot found
  cases acquired : list.listPool.acquire orderId lots with
  | none =>
    have full := (acquire_eq_none_iff rep.pool).mp acquired
    rw [rep.pool.allocated_eq] at allocated
    omega
  | some taken =>
    obtain ⟨pool, cell⟩ := taken
    obtain ⟨owns, fresh, content, others, capacity⟩ := acquire_spec rep.pool acquired
    have slotMember : slot ∈ lower ++ slot :: rest := by simp
    have inUse : ∀ other ∈ slot.cells, other ≠ cell := by
      rintro other mem rfl
      exact fresh (cells_perm.mem_iff.mpr (by simp [mem]))
    have queue := (rep.queues slot slotMember).congr fun other mem => others other (inUse other mem)
    have distinct : (slot.cells ++ [cell]).Nodup := by
      rw [nodup_append]
      refine ⟨(nodup_append.mp rep.cells_nodup).1, by simp, ?_⟩
      intro other mem last lastMember
      rw [mem_singleton.mp lastMember]
      exact inUse other mem
    have bounds : ∀ other ∈ slot.cells ++ [cell], other < pool.nodes.length := by
      intro other mem
      apply owns.lt_length
      rcases mem_append.mp mem with inCells | isCell
      · exact mem_cons_of_mem _ (cells_perm.mem_iff.mpr (by simp [inCells]))
      · simp [mem_singleton.mp isCell]
    have pushed := queue.pushBack distinct bounds (by simp [nextOf, content])
      (by simp [prevOf, content])
    refine ⟨list.writeQueue slot.node
      ((list.node slot.node).orders.pushBack cell pool).2 fun node =>
        { node with
          orders := ((list.node slot.node).orders.pushBack cell pool).1
          totalQuantityLots := wrapI64 (node.totalQuantityLots + lots) }, ?_, ?_,
      writeQueue_frame ?_⟩
    · simp only [SkipList.addOrderAtLevel, acquired, atLevel]
      rfl
    · refine rep.models_writeQueue ⟨fun _ => rfl, fun _ => rfl, fun _ => rfl⟩ pushed ?_ ?_ ?_
      · intro other mem otherCell cellMember
        have notFresh : otherCell ≠ cell := by
          rintro rfl
          refine fresh (cells_perm.mem_iff.mpr ?_)
          exact mem_append_right _ (mem_append_left _ (mem_flatMap.mpr ⟨other, mem, cellMember⟩))
        exact (queue.pushBack_sameNode (rep.not_mem_cells mem cellMember)
          notFresh).trans (others otherCell notFresh)
      · refine (owns_pushBack owns cell).perm ?_
        refine cells_perm.trans ?_
        simp only [append_assoc]
        exact perm_middle.trans (cells_perm.symm.cons cell)
      · have last : pool.entry cell = { orderId := orderId, lots := lots } := by
          simp [entry, show pool.nodes[cell]? = _ from content]
        have earlier : ∀ other ∈ slot.cells,
            ((list.node slot.node).orders.pushBack cell pool).2.entry other =
              list.listPool.entry other := by
          intro other mem
          rw [pushBack_entry]
          exact (others other (inUse other mem)).entry
        simp only [Level.push, levelOf, map_append, map_cons,
          map_nil, pushBack_entry, last, map_congr_left earlier]
    · rw [pushBack_capacity, capacity]

/-- Without a free node nothing is added. -/
theorem Models.addOrderAtLevel_of_full
    (full : (entries levels).length + leaked = list.listPool.capacity) :
    list.addOrderAtLevel price orderId lots = (list, .error "List pool exhausted") := by
  have allocated := models.length_le_capacity.2
  obtain ⟨slots, cells, rep, rfl, rfl⟩ := models
  have noNode : list.listPool.acquire orderId lots = none := by
    rw [acquire_eq_none_iff rep.pool, ← rep.pool.allocated_eq]
    omega
  simp [SkipList.addOrderAtLevel, noNode]

end

section

variable (rep : list.Rep (lower ++ slot :: rest) cells)
include rep

theorem Rep.cells_length_le : slot.cells.length ≤ list.listPool.nodes.length := by
  have inUse := cells_perm.length_eq ▸ rep.pool.partition.length_add_length
  have nodes := rep.pool.nodes_length
  rw [length_append] at inUse
  omega

theorem Rep.findOrder_eq :
    list.findOrder slot.node orderId =
      slot.cells.find? fun cell => (list.listPool.entry cell).orderId == orderId := by
  have slotMember : slot ∈ lower ++ slot :: rest := by simp
  have queue := rep.queues slot slotMember
  rw [findOrder, front, queue.head_eq,
    seek_eq queue.forward (Nat.lt_succ_of_le rep.cells_length_le)]
  apply List.find?_congr
  intro cell cellMember
  obtain ⟨node, atCell, entryEq⟩ := rep.get_eq_some slotMember cellMember
  simp [atCell, entryEq]

/-- The node of a queued order, and the queue around it. -/
theorem Rep.exists_cell (queued : orderId ∈ (list.levelOf slot).queue.map (·.orderId)) :
    ∃ front cell back, slot.cells = front ++ cell :: back ∧
      list.findOrder slot.node orderId = some cell ∧
      (list.listPool.entry cell).orderId = orderId ∧
      (list.levelOf slot).queue = front.map list.listPool.entry ++
        list.listPool.entry cell :: back.map list.listPool.entry ∧
      ∀ entry ∈ front.map list.listPool.entry,
        entry.orderId ≠ (list.listPool.entry cell).orderId := by
  rw [rep.findOrder_eq]
  cases found : slot.cells.find? fun cell => (list.listPool.entry cell).orderId == orderId with
  | none =>
    rw [List.find?_eq_none] at found
    simp only [levelOf, mem_map, exists_exists_and_eq_and] at queued
    obtain ⟨cell, mem, equal⟩ := queued
    exact absurd (by simpa using equal) (found cell mem)
  | some cell =>
    obtain ⟨hit, front, back, cellsEq, misses⟩ := List.find?_eq_some_iff_append.mp found
    have isOrder : (list.listPool.entry cell).orderId = orderId := by simpa using hit
    refine ⟨front, cell, back, cellsEq, rfl, isOrder, by simp [levelOf, cellsEq], ?_⟩
    intro entry mem
    obtain ⟨other, otherMember, rfl⟩ := mem_map.mp mem
    rw [isOrder]
    simpa using misses other otherMember

end

section

variable (models : list.Models levels leaked) (found : find price levels = some level)
  (queued : orderId ∈ level.queue.map (·.orderId))
include models found queued

/-- Removing a queued order drops it from its level. -/
theorem Models.removeOrderAtLevel :
    ∃ list', list.removeOrderAtLevel price orderId = (list', .ok ()) ∧
      list'.Models (update price (Level.drop orderId) levels) leaked ∧ list.Frame list' := by
  obtain ⟨slots, cells, rep, rfl, rfl⟩ := models
  obtain ⟨lower, slot, rest, rfl, atLevel, rfl, rfl⟩ := rep.exists_slot found
  obtain ⟨front, cell, back, cellsEq, atCell, rfl, split, misses⟩ := rep.exists_cell queued
  have slotMember : slot ∈ lower ++ slot :: rest := by simp
  have queue := rep.queues slot slotMember
  have distinct := (nodup_append.mp rep.cells_nodup).1
  have bounds : ∀ other ∈ slot.cells, other < list.listPool.nodes.length :=
    fun other mem => rep.cells_lt slotMember mem
  rw [cellsEq] at queue distinct bounds
  refine ⟨list.writeQueue slot.node
    (((list.node slot.node).orders.remove cell list.listPool).2.release cell)
    fun node =>
      { node with
        orders := ((list.node slot.node).orders.remove cell list.listPool).1
        totalQuantityLots := wrapI64 (node.totalQuantityLots - (list.listPool.entry cell).lots) },
    ?_, ?_, writeQueue_frame ?_⟩
  · simp only [SkipList.removeOrderAtLevel, atLevel, atCell]
    rfl
  · have removed := (queue.remove distinct bounds).congr
      fun other _ => sameNode_release cell other
    refine rep.models_writeQueue ⟨fun _ => rfl, fun _ => rfl, fun _ => rfl⟩ removed ?_ ?_ ?_
    · intro other mem otherCell cellMember
      have outside := rep.not_mem_cells mem cellMember
      rw [cellsEq] at outside
      exact queue.remove_sameNode outside
    · apply Owns.release
      refine (owns_remove rep.pool cell).perm ?_
      refine List.Perm.trans ?_ cells_perm.symm
      rw [cellsEq, append_assoc]
      refine (cells_perm.cons cell).trans ?_
      rw [append_assoc]
      exact perm_middle.symm
    · rw [Level.drop_of_split split misses, ← map_append]
      simp only [levelOf, Level.mk.injEq, true_and]
      apply map_congr_left
      intro other _
      exact (remove_entry cell other).symm
  · exact remove_capacity cell

/-- Reducing a queued order reduces its entry and the total of its level. -/
theorem Models.reduceOrderQuantityAtLevel (lots : Int) :
    ∃ list', list.reduceOrderQuantityAtLevel price orderId lots = (list', .ok ()) ∧
      list'.Models (update price (Level.reduce orderId lots) levels) leaked ∧
      list.Frame list' := by
  obtain ⟨slots, cells, rep, rfl, rfl⟩ := models
  obtain ⟨lower, slot, rest, rfl, atLevel, rfl, rfl⟩ := rep.exists_slot found
  obtain ⟨front, cell, back, cellsEq, atCell, rfl, split, misses⟩ := rep.exists_cell queued
  have slotMember : slot ∈ lower ++ slot :: rest := by simp
  have cellBound := rep.cells_lt slotMember (show cell ∈ slot.cells by simp [cellsEq])
  have distinct := (nodup_append.mp rep.cells_nodup).1
  let change : ListNode → ListNode := fun node =>
    { node with quantityLots := max (wrapI64 (node.quantityLots - lots)) 0 }
  have changed : (list.listPool.modify cell change).entry cell =
      { list.listPool.entry cell with
        lots := max (wrapI64 ((list.listPool.entry cell).lots - lots)) 0 } := by
    simp [entry, ListNodePool.modify, change, cellBound]
  have unchanged : ∀ other, other ≠ cell →
      SameNode list.listPool (list.listPool.modify cell change) other :=
    fun other ne => sameNode_modify _ ne
  have links : ∀ other,
      (list.listPool.modify cell change).nextOf other = list.listPool.nextOf other ∧
      (list.listPool.modify cell change).prevOf other = list.listPool.prevOf other := by
    intro other
    by_cases same : other = cell
    · subst same
      simp only [nextOf, prevOf, get_modify_self]
      cases list.listPool.get other <;> exact ⟨rfl, rfl⟩
    · exact ⟨(unchanged other same).nextOf, (unchanged other same).prevOf⟩
  refine ⟨list.writeQueue slot.node (list.listPool.modify cell change) fun node =>
      { node with
        totalQuantityLots := max (wrapI64 (node.totalQuantityLots - lots)) 0 },
    ?_, ?_, writeQueue_frame rfl⟩
  · simp only [SkipList.reduceOrderQuantityAtLevel, atLevel, atCell]
    rfl
  · refine rep.models_writeQueue ⟨fun _ => rfl, fun _ => rfl, fun _ => rfl⟩
      ((rep.queues slot slotMember).congr_links (fun other _ => (links other).1)
        fun other _ => (links other).2) ?_ (rep.pool.modify cell change) ?_
    · intro other mem otherCell cellMember
      apply unchanged
      rintro rfl
      exact rep.not_mem_cells mem cellMember (by simp [cellsEq])
    · rw [cellsEq] at distinct
      have apart : ∀ other ∈ front ++ back, other ≠ cell := by
        rintro other mem rfl
        exact (nodup_cons.mp (perm_middle.nodup distinct)).1 mem
      have kept : ∀ part : List Nat, (∀ other ∈ part, other ∈ front ++ back) →
          part.map (list.listPool.modify cell change).entry =
            part.map list.listPool.entry := fun part within =>
        map_congr_left fun other mem => (unchanged other (apart other (within other mem))).entry
      rw [Level.reduce_of_split split misses, cellsEq, map_append, map_cons,
        changed, kept front fun other mem => mem_append_left _ mem,
        kept back fun other mem => mem_append_right _ mem]
      rfl

end

/-! ## Reads that depend on the queues -/

/-- The cached best price is the best price, or a price without a level. -/
def CacheSound (list : SkipList) (levels : List Level) : Prop :=
  ∀ price, list.bestPrice = some price → find price levels = none ∨
    levels.head?.map (·.price) = some price

section

variable (models : list.Models levels leaked)
include models

/-- The cache is no part of what the list represents. -/
theorem Models.setBestPrice (cached : Option Int) :
    ({ list with bestPrice := cached } : SkipList).Models levels leaked := by
  obtain ⟨slots, cells, rep, rfl, rfl⟩ := models
  exact ⟨slots, cells,
    ⟨rep.tiers, rep.queues, rep.sorted, rep.level_le, rep.level_lt, rep.count_eq,
      rep.arena, rep.pool⟩, rfl, rfl⟩

theorem Models.getBestPriceCached
    (occupied : ∀ level ∈ levels, level.queue ≠ []) (cache : list.CacheSound levels) :
    ∃ cached, list.getBestPriceCached =
        ({ list with bestPrice := cached }, levels.head?.map (·.price)) ∧
      ({ list with bestPrice := cached } : SkipList).CacheSound levels := by
  have firstOccupied : (levels.find? fun level => !level.queue.isEmpty) = levels.head? := by
    cases levels with
    | nil => rfl
    | cons level rest => simp [occupied level (by simp)]
  have refreshed : list.refreshBestPrice =
      ({ list with bestPrice := levels.head?.map (·.price) }, levels.head?.map (·.price)) := by
    simp only [refreshBestPrice, models.bestWithOrders_price, firstOccupied]
  have refreshedSound : ({ list with
      bestPrice := levels.head?.map (·.price) } : SkipList).CacheSound levels :=
    fun price cached => Or.inr cached
  have isSome := models.getNodeAtPrice_isSome
  unfold SkipList.getBestPriceCached
  split
  next price cached =>
    split
    next index atPrice =>
      split
      · exact ⟨_, refreshed, refreshedSound⟩
      · refine ⟨some price, ?_, ?_⟩
        · rcases cache price cached with missing | best
          · have present := isSome price
            simp [atPrice, missing] at present
          · rw [best, ← cached]
        · intro other same
          exact cache other (cached.trans same)
    · exact ⟨_, refreshed, refreshedSound⟩
  · exact ⟨_, refreshed, refreshedSound⟩

/-- The fill-or-kill test adds up the totals of the ladder. -/
theorem Models.hasCumulativeQuantityUntil_eq
    (targetQty limitPrice : Int) (isMarket buyTaker : Bool) :
    list.hasCumulativeQuantityUntil targetQty limitPrice isMarket buyTaker =
      hasCumulative targetQty limitPrice isMarket buyTaker levels 0 := by
  obtain ⟨slots, cells, rep, rfl, -⟩ := models
  have segment := rep.tiers 0
  rw [tierNodes_zero] at segment
  have loop : ∀ (rest : List Slot) (current fuel : Nat) (available : Int),
      Segment (list.next 0) (current :: rest.map (·.node)) none →
      rest.length < fuel →
      list.cumulativeLoop targetQty limitPrice isMarket buyTaker fuel current
          available =
        hasCumulative targetQty limitPrice isMarket buyTaker
          (rest.map list.levelOf) available := by
    intro rest
    induction rest with
    | nil =>
      intro current fuel available linked enough
      cases fuel with
      | zero => simp at enough
      | succ fuel =>
        have atEnd : list.next 0 current = none := by simpa using linked.1
        simp [cumulativeLoop, atEnd, hasCumulative]
    | cons slot rest ih =>
      intro current fuel available linked enough
      cases fuel with
      | zero => simp at enough
      | succ fuel =>
        have ahead : list.next 0 current = some slot.node := by simpa using linked.1
        have tail := fun available => ih slot.node fuel available linked.2 (by simpa using enough)
        simp only [cumulativeLoop, ahead, tail]
        rfl
  have bounded := rep.length_lt
  exact loop slots 0 _ 0 segment (by omega)

/-- The arena has a node for every level and one for the head. -/
theorem Models.length_lt : levels.length < list.arena.length := by
  obtain ⟨slots, cells, rep, rfl, -⟩ := models
  simpa using rep.length_lt

theorem Models.queue_length_le (mem : level ∈ levels) :
    level.queue.length ≤ list.listPool.nodes.length := by
  obtain ⟨slots, cells, rep, rfl, -⟩ := models
  obtain ⟨slot, slotMember, rfl⟩ := mem_map.mp mem
  obtain ⟨lower, rest, rfl⟩ := append_of_mem slotMember
  simpa [levelOf] using rep.cells_length_le

end

/-- What a walk over the first tier and its queues sees. -/
def ladder (list : SkipList) : List Level :=
  (Path.collect (list.next 0) list.arena.length list.best).map fun index =>
    { price := list.price index
      total := (list.node index).totalQuantityLots
      queue := (Path.collect list.listPool.nextOf list.listPool.nodes.length
        (list.node index).orders.front).map list.listPool.entry }

theorem Models.ladder_eq (models : list.Models levels leaked) : list.ladder = levels := by
  obtain ⟨slots, cells, rep, rfl, -⟩ := models
  have segment := rep.tiers 0
  rw [tierNodes_zero] at segment
  have bounded := rep.length_lt
  have nodes : Path.collect (list.next 0) list.arena.length list.best = slots.map (·.node) := by
    have start : list.best = (slots.map (·.node)).head? := by simpa [best] using segment.1
    rw [start]
    exact collect_eq segment.2 (by simp; omega)
  rw [ladder, nodes, map_map]
  apply map_congr_left
  intro slot mem
  obtain ⟨lower, rest, rfl⟩ := append_of_mem mem
  have queue := rep.queues slot mem
  simp only [Function.comp_apply, levelOf, front, queue.head_eq,
    collect_eq queue.forward rep.cells_length_le]

end SkipList
end LightningX.Matching
