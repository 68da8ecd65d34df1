import LightningX.Matching.Engine.Consistency

/-!
# Views of the depth of the book

`generate_depth_snapshot` adds up the remaining lots of the orders of each level, while
`get_top_levels` and `fill_top_levels` read the cached totals.
-/

namespace LightningX.Matching

open List Ladder

namespace SkipList

/-- `fill_top_levels`: the buffer and the number of entries written. -/
def fillTopLevels (list : SkipList) (out : List (Int × Int)) : List (Int × Int) × Nat :=
  let written := list.topLevelsLoop out.length 0
  (written ++ out.drop written.length, written.length)

/-- The orders that a walk along the queue of a price meets. -/
def queuedIds (list : SkipList) (price : Int) : List Nat :=
  ((list.getNodeAtPrice price).elim [] fun index =>
    Path.collect list.listPool.nextOf list.listPool.nodes.length
      (list.node index).orders.front).filterMap fun cell =>
    (list.listPool.get cell).map (·.orderId)

variable {list : SkipList} {levels : List Level} {leaked : Nat} {level : Level} {price : Int}

theorem Models.getTopLevels_eq (models : list.Models levels leaked) (limit : Nat) :
    list.getTopLevels limit = (levels.take limit).map fun level => (level.price, level.total) := by
  obtain ⟨slots, cells, rep, rfl, -⟩ := models
  have loop : ∀ (rest : List Slot) (current limit : Nat),
      Path.Segment (list.next 0) (current :: rest.map (·.node)) none →
      list.topLevelsLoop limit current =
        ((rest.map list.levelOf).take limit).map fun level => (level.price, level.total) := by
    intro rest
    induction rest with
    | nil =>
      rintro current (- | limit) linked
      · rfl
      · have atEnd : list.next 0 current = none := by simpa using linked.1
        simp [topLevelsLoop, atEnd]
    | cons slot rest ih =>
      rintro current (- | limit) linked
      · rfl
      · have ahead : list.next 0 current = some slot.node := by simpa using linked.1
        simp [topLevelsLoop, ahead, ih _ limit linked.2, levelOf]
  have segment := rep.tiers 0
  rw [tierNodes_zero] at segment
  exact loop slots 0 limit segment

theorem Models.queuedIds_eq (models : list.Models levels leaked)
    (found : find price levels = some level) :
    list.queuedIds price = level.queue.map (·.orderId) := by
  obtain ⟨slots, cells, rep, rfl, -⟩ := models
  rcases rep.find_cases price with
    ⟨lower, upper, rfl, split, absent, missing⟩ |
    ⟨lower, slot, rest, rfl, split, hit, foundSlot⟩
  · cases missing.symm.trans found
  · cases foundSlot.symm.trans found
    have mem : slot ∈ lower ++ slot :: rest := by simp
    have queue := rep.queues slot mem
    rw [queuedIds, rep.getNodeAtPrice_eq_headAt split]
    simp only [headAt, hit, if_true, Option.elim_some, PooledList.front, queue.head_eq,
      Path.collect_eq queue.forward rep.cells_length_le, levelOf, map_map]
    rw [← filterMap_eq_map]
    refine filterMap_congr fun cell cellMember => ?_
    obtain ⟨node, atCell, entryEq⟩ := rep.get_eq_some mem cellMember
    simp [atCell, entryEq]

end SkipList

namespace MatchingEngine

/-- The remaining lots of the orders at a price, in 64-bit arithmetic. -/
def remainingAt (engine : MatchingEngine) (side : Side) (price : Int) : Int :=
  ((engine.book side).queuedIds price).foldl (fun total orderId =>
    (engine.getOrder orderId).elim total fun order => wrapI64 (total + order.remainingLots)) 0

/-- One side of `generate_depth_snapshot`; `asFloat` is the conversion to `f64`. -/
def depthSnapshot (asFloat : Int → α) (engine : MatchingEngine) (side : Side) : List (α × α) :=
  ((engine.book side).getTopLevels 20).filterMap fun level =>
    if 0 < engine.remainingAt side level.1 then
      some (asFloat level.1, asFloat (engine.remainingAt side level.1))
    else none

/-- The views of the depth are the first levels of one list, best first and none empty. -/
structure ViewsAgree (asFloat : Int → α) (engine : MatchingEngine) : Prop where
  top : ∀ side limit, (engine.book side).getTopLevels limit =
    ((engine.levels side).map fun level => (level.price, level.lots)).take limit
  filled : ∀ side out, ((engine.book side).fillTopLevels out).1.take
    ((engine.book side).fillTopLevels out).2 = (engine.book side).getTopLevels out.length
  snapshot : ∀ side, engine.depthSnapshot asFloat side =
    ((engine.book side).getTopLevels 20).map (Prod.map asFloat asFloat)
  sorted : ∀ side, Sorted side.sortOrder (engine.levels side)
  positive : ∀ side, ∀ level ∈ engine.levels side, 0 < level.lots

/-- Lots that fit are added up exactly. -/
theorem foldl_remaining {engine : MatchingEngine} {queue : List Entry} {total : Int}
    (known : ∀ entry ∈ queue, 0 < entry.lots ∧ ∃ order,
      engine.getOrder entry.orderId = some order ∧ order.remainingLots = entry.lots)
    (nonneg : 0 ≤ total) (fits : total + (queue.map (·.lots)).sum ≤ i64Max) :
    (queue.map (·.orderId)).foldl (fun total orderId =>
        (engine.getOrder orderId).elim total fun order => wrapI64 (total + order.remainingLots))
      total = total + (queue.map (·.lots)).sum := by
  induction queue generalizing total with
  | nil => simp
  | cons entry queue ih =>
    obtain ⟨⟨positive, order, found, lots⟩, later⟩ := forall_mem_cons.mp known
    have rest := Level.lots_nonneg fun entry mem => (later entry mem).1
    simp only [map_cons, sum_cons, foldl_cons, found, Option.elim_some, lots] at fits ⊢
    rw [wrapI64_of_le_max (by omega) (by omega), ih later (by omega) (by omega), Int.add_assoc]

/-- In every run whose queues fit in 64 bits all along, the views of the depth agree. -/
theorem viewsAgree_run (asFloat : Int → α) (config : PoolConfig) (calls : List Call)
    (fits : ∀ pre, pre <+: calls → ((new config).run pre).1.LotsFit) :
    ViewsAgree asFloat ((new config).run calls).1 := by
  obtain ⟨book, sound, counted⟩ := counted_run config calls fits
  have consistent := sound.consistent counted
  generalize ((new config).run calls).1 = engine at sound consistent
  have top : ∀ side limit, (engine.book side).getTopLevels limit =
      ((engine.levels side).map fun level => (level.price, level.lots)).take limit := by
    intro side limit
    rw [(sound.sides side).models.getTopLevels_eq, sound.levels_eq, ← map_take]
    exact map_congr_left fun level mem => by rw [(counted side level (mem_of_mem_take mem)).exact]
  have positive : ∀ side, ∀ level ∈ engine.levels side, 0 < level.lots := by
    intro side level mem
    obtain ⟨entry, rest, queueEq⟩ := exists_cons_of_ne_nil (consistent.occupied side level mem)
    rw [sound.levels_eq] at mem
    have others := (counted side level mem).positive
    rw [queueEq, forall_mem_cons] at others
    have restNonneg := Level.lots_nonneg others.2
    rw [Level.lots, queueEq, map_cons, sum_cons]
    omega
  refine ⟨top, fun side out => by simp [SkipList.fillTopLevels, SkipList.getTopLevels],
    fun side => ?_, consistent.sorted, positive⟩
  rw [depthSnapshot, ← filterMap_eq_map]
  refine filterMap_congr fun listed mem => ?_
  rw [top] at mem
  obtain ⟨level, levelMember, rfl⟩ := mem_map.mp (mem_of_mem_take mem)
  have exact : engine.remainingAt side level.price = level.lots := by
    have inBook := levelMember
    rw [sound.levels_eq] at inBook
    have found := (find_eq_some_iff (sound.sides side).sorted).mpr ⟨inBook, rfl⟩
    rw [remainingAt, (sound.sides side).models.queuedIds_eq found, foldl_remaining _ le_rfl]
    · exact Int.zero_add _
    · rw [Int.zero_add]
      exact (counted side level inBook).fits
    · intro entry entryMember
      obtain ⟨order, known, -, -, -, lots, some⟩ :=
        consistent.queued side level levelMember entry entryMember
      exact ⟨some, order, known, lots.symm⟩
  simp [exact, positive side level levelMember]

/-- A bid takes one ask and part of another one. -/
theorem viewsAgree_run_sweep : ViewsAgree id ((new ⟨4, 4⟩).run
    [.place (.limit 1 .sell 100 5 .gtc 0), .place (.limit 2 .sell 101 5 .gtc 1),
      .place (.limit 3 .buy 101 7 .gtc 2)]).1 := by
  have fits : ∀ pre ∈ List.inits [Call.place (.limit 1 .sell 100 5 .gtc 0),
      .place (.limit 2 .sell 101 5 .gtc 1), .place (.limit 3 .buy 101 7 .gtc 2)],
      ((new ⟨4, 4⟩).run pre).1.LotsFit := by
    decide
  exact viewsAgree_run id _ _ fun pre shorter => fits pre ((mem_inits _ _).mpr shorter)

/-- Two asks whose lots add up to 2^63: the snapshot leaves out the level that the cached total
shows with a negative quantity. -/
theorem not_viewsAgree_overflow : ¬ ViewsAgree id ((new ⟨4, 4⟩).run
    [.place (.limit 1 .sell 100 4611686018427387904 .gtc 0),
      .place (.limit 2 .sell 100 4611686018427387904 .gtc 1)]).1 :=
  fun agree => absurd (agree.snapshot .sell) (by decide)

end MatchingEngine
end LightningX.Matching
