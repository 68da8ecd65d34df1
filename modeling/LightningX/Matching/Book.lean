import LightningX.Matching.Sweep

/-!
# The abstract book

Two ladders, read as a collection of resting orders.  Resting an order,
taking one out and trading with the best one are described by what they do to
that collection.
-/

namespace LightningX.Matching

open List Level Ladder

/-- An order in the book: identifier, side, price and remaining lots. -/
structure Resting where
  orderId : Nat
  side : Side
  price : Int
  lots : Int
  deriving DecidableEq, Repr

/-- The orders of a level. -/
def Level.resting (side : Side) (level : Level) : List Resting :=
  level.queue.map fun entry =>
    { orderId := entry.orderId, side := side, price := level.price, lots := entry.lots }

namespace Ladder

/-- The orders of a ladder, best price first and oldest first. -/
def resting (side : Side) (levels : List Level) : List Resting :=
  levels.flatMap (Level.resting side)

/-- Every level has an order. -/
def Occupied (levels : List Level) : Prop :=
  ∀ level ∈ levels, level.queue ≠ []

/-- Take an order out of its level, and the level with its last order. -/
def drop (price : Int) (orderId : Nat) (levels : List Level) : List Level :=
  (update price (Level.drop orderId) levels).filter fun level =>
    decide (level.price ≠ price ∨ level.queue ≠ [])

/-- Append an order to its level, which is created if need be. -/
def rest (order : SortOrder) (price : Int) (orderId : Nat) (lots : Int)
    (levels : List Level) : List Level :=
  update price (push orderId lots)
    (if (find price levels).isSome then levels else insert order price levels)

variable {order : SortOrder} {levels lower upper worse : List Level} {level : Level} {entry : Entry}
  {back : List Entry} {side : Side} {price lots : Int}

@[simp] theorem resting_nil : resting side [] = [] := rfl

@[simp] theorem resting_cons :
    resting side (level :: worse) = level.resting side ++ resting side worse := rfl

@[simp] theorem resting_append :
    resting side (lower ++ upper) = resting side lower ++ resting side upper := by
  simp [resting]

theorem resting_map_orderId : (resting side levels).map (·.orderId) = orderIds levels := by
  simp [resting, Level.resting, orderIds, entries, map_flatMap, Function.comp_def]

theorem resting_length : (resting side levels).length = (entries levels).length := by
  simp [resting, Level.resting, entries]

theorem mem_resting {order : Resting} :
    order ∈ resting side levels ↔
      ∃ level ∈ levels, ∃ entry ∈ level.queue,
        order = { orderId := entry.orderId, side := side, price := level.price,
                  lots := entry.lots } := by
  simp only [resting, Level.resting, mem_flatMap, mem_map]
  constructor
  · rintro ⟨level, mem, entry, entryMember, rfl⟩
    exact ⟨level, mem, entry, entryMember, rfl⟩
  · rintro ⟨level, mem, entry, entryMember, rfl⟩
    exact ⟨level, mem, entry, entryMember, rfl⟩

theorem mem_resting_of_mem (side : Side) (mem : level ∈ levels) (queued : entry ∈ level.queue) :
    { orderId := entry.orderId, side := side, price := level.price,
      lots := entry.lots } ∈ resting side levels :=
  mem_resting.mpr ⟨level, mem, entry, queued, rfl⟩

theorem Sorted.split_ne (sorted : Sorted order (lower ++ level :: upper)) :
    (∀ other ∈ lower, other.price ≠ level.price) ∧ ∀ other ∈ upper, other.price ≠ level.price := by
  obtain ⟨-, upperSorted, across⟩ := pairwise_append.mp sorted
  refine ⟨?_, Sorted.price_ne_of_mem_tail upperSorted⟩
  intro other mem equal
  have before := across other mem level (by simp)
  rw [equal] at before
  cases order <;> simp [SortOrder.shouldInsert] at before

theorem exists_split (sorted : Sorted order levels) (found : find price levels = some level) :
    ∃ lower upper, levels = lower ++ level :: upper ∧ level.price = price ∧
      (∀ other ∈ lower, other.price ≠ level.price) ∧
      ∀ other ∈ upper, other.price ≠ level.price := by
  obtain ⟨mem, priceEq⟩ := (find_eq_some_iff sorted).mp found
  obtain ⟨lower, upper, rfl⟩ := append_of_mem mem
  exact ⟨lower, upper, rfl, priceEq, sorted.split_ne⟩

theorem drop_append (lowerNe : ∀ other ∈ lower, other.price ≠ level.price)
    (upperNe : ∀ other ∈ upper, other.price ≠ level.price) :
    drop level.price orderId (lower ++ level :: upper) =
      if (level.drop orderId).queue = [] then lower ++ upper
      else lower ++ level.drop orderId :: upper := by
  have kept : ∀ part : List Level, (∀ other ∈ part, other.price ≠ level.price) →
      part.filter (fun other => decide (other.price ≠ level.price ∨ other.queue ≠ [])) = part := by
    intro part apart
    rw [filter_eq_self]
    intro other mem
    simp [apart other mem]
  rw [drop, update_append _ lowerNe upperNe, filter_append, filter_cons,
    kept lower lowerNe, kept upper upperNe]
  by_cases emptied : (level.drop orderId).queue = []
  · simp [emptied]
  · simp [emptied]

section

variable (sorted : Sorted order levels) (distinct : ((resting side levels).map (·.orderId)).Nodup)
  (mem : queued ∈ resting side levels)
include sorted distinct mem

/-- A queued order is found at its level, before no other entry of its. -/
theorem exists_queue_split :
    ∃ level entry front back, find queued.price levels = some level ∧
      level.queue = front ++ entry :: back ∧
      (∀ other ∈ front, other.orderId ≠ entry.orderId) ∧
      queued = { orderId := entry.orderId, side := side, price := level.price,
                 lots := entry.lots } := by
  obtain ⟨level, levelMember, entry, entryMember, rfl⟩ := mem_resting.mp mem
  obtain ⟨front, back, split⟩ := append_of_mem entryMember
  refine ⟨level, entry, front, back, ?_, split, ?_, rfl⟩
  · exact (find_eq_some_iff sorted).mpr ⟨levelMember, rfl⟩
  · obtain ⟨lower, upper, rfl⟩ := append_of_mem levelMember
    have inQueue : (level.queue.map (·.orderId)).Nodup := by
      simp only [resting_append, resting_cons, map_append, Level.resting, map_map] at distinct
      exact distinct.of_append_right.of_append_left
    rw [split, map_append, nodup_append] at inQueue
    intro other otherMember
    exact inQueue.2.2 _ (mem_map_of_mem otherMember) _ (by simp)

/-- Taking an order out leaves the orders around it. -/
theorem exists_drop_split :
    ∃ before after, resting side levels = before ++ queued :: after ∧
      resting side (Ladder.drop queued.price queued.orderId levels) = before ++ after := by
  obtain ⟨level, entry, front, back, found, split, others, rfl⟩ :=
    exists_queue_split sorted distinct mem
  obtain ⟨lower, upper, rfl, -, lowerNe, upperNe⟩ := exists_split sorted found
  have remaining : resting side (Ladder.drop level.price entry.orderId
      (lower ++ level :: upper)) =
      resting side lower ++ ((level.drop entry.orderId).resting side ++ resting side upper) := by
    rw [drop_append lowerNe upperNe]
    split_ifs with emptied
    · simp [Level.resting, emptied]
    · simp
  refine ⟨resting side lower ++ ({ level with queue := front } : Level).resting side,
    ({ level with queue := back } : Level).resting side ++ resting side upper, ?_, ?_⟩
  · simp [Level.resting, split]
  · rw [remaining, Level.drop_of_split split others]
    simp [Level.resting]

end

theorem Occupied.drop (occupied : Occupied levels) :
    Occupied (Ladder.drop price orderId levels) := by
  intro level mem
  simp only [Ladder.drop, update, mem_filter, mem_map, decide_eq_true_eq] at mem
  obtain ⟨⟨original, originalMember, rfl⟩, kept⟩ := mem
  split_ifs at kept ⊢ with atPrice
  · exact kept.resolve_left fun ne => ne atPrice
  · exact occupied original originalMember

theorem exists_insert_split (order : SortOrder) (price : Int) (levels : List Level) :
    ∃ lower upper, levels = lower ++ upper ∧
      insert order price levels = lower ++ empty price :: upper := by
  induction levels with
  | nil => exact ⟨[], [], rfl, rfl⟩
  | cons level rest ih =>
    unfold insert
    split_ifs
    · obtain ⟨lower, upper, rfl, inserted⟩ := ih
      exact ⟨level :: lower, upper, rfl, by rw [inserted]; rfl⟩
    · exact ⟨[], level :: rest, rfl, rfl⟩

/-- The level an order is appended to, and the levels around it. -/
theorem exists_rest_split
    (price : Int) (orderId : Nat) (lots : Int) (sorted : Sorted order levels) :
    ∃ lower level upper,
      rest order price orderId lots levels = lower ++ level.push orderId lots :: upper ∧
      level.price = price ∧
      (levels = lower ++ level :: upper ∨
        level = empty price ∧ levels = lower ++ upper ∧ find price levels = none) := by
  cases found : find price levels with
  | some level =>
    obtain ⟨lower, upper, rfl, rfl, lowerNe, upperNe⟩ := exists_split sorted found
    refine ⟨lower, level, upper, ?_, rfl, Or.inl rfl⟩
    simp [rest, found, update_append _ lowerNe upperNe]
  | none =>
    have missing := find_eq_none_iff.mp found
    obtain ⟨lower, upper, rfl, inserted⟩ := exists_insert_split order price levels
    refine ⟨lower, empty price, upper, ?_, rfl, Or.inr ⟨rfl, rfl, rfl⟩⟩
    have updated : update (empty price).price (push orderId lots)
        (lower ++ empty price :: upper) = _ :=
      update_append (push orderId lots)
        (fun other mem => missing other (by simp [mem]))
        fun other mem => missing other (by simp [mem])
    simp only [rest, found, inserted]
    exact updated

section

variable (sorted : Sorted order levels)
include sorted

theorem resting_rest :
    resting side (rest order price orderId lots levels) ~
      { orderId := orderId, side := side, price := price, lots := lots } ::
        resting side levels := by
  obtain ⟨lower, level, upper, restEq, rfl, split⟩ := exists_rest_split price orderId lots sorted
  have before : resting side levels =
      resting side lower ++ (level.resting side ++ resting side upper) := by
    rcases split with rfl | ⟨isEmpty, rfl, -⟩
    · simp
    · rw [isEmpty]
      simp [Level.resting, empty]
  rw [restEq, before]
  simp only [resting_append, resting_cons, Level.resting, push, map_append,
    map_cons, append_assoc, cons_append]
  rw [← append_assoc, ← append_assoc]
  exact perm_middle

/-- A level after an order rests is an old one, or an old or empty one with the order. -/
theorem mem_or_eq_push_of_mem_rest (mem : level ∈ rest order price orderId lots levels) :
    level ∈ levels ∨ ∃ target : Level, target.price = price ∧
      (target ∈ levels ∨ target = empty price) ∧ level = target.push orderId lots := by
  obtain ⟨lower, target, upper, restEq, priceEq, split⟩ :=
    exists_rest_split price orderId lots sorted
  rw [restEq, mem_append, mem_cons] at mem
  rcases split with rfl | ⟨isEmpty, rfl, -⟩
  · rcases mem with inLower | rfl | inUpper
    · simp [inLower]
    · exact Or.inr ⟨target, priceEq, by simp, rfl⟩
    · simp [inUpper]
  · rcases mem with inLower | rfl | inUpper
    · simp [inLower]
    · exact Or.inr ⟨target, priceEq, Or.inr isEmpty, rfl⟩
    · simp [inUpper]

/-- Resting an order adds at most its own price. -/
theorem price_of_mem_rest (mem : level ∈ rest order price orderId lots levels) :
    level.price = price ∨ ∃ other ∈ levels, other.price = level.price := by
  rcases mem_or_eq_push_of_mem_rest sorted mem with old | ⟨target, priceEq, -, rfl⟩
  · exact Or.inr ⟨level, old, rfl⟩
  · exact Or.inl priceEq

theorem Occupied.rest (occupied : Occupied levels) :
    Occupied (rest order price orderId lots levels) := by
  intro level mem
  rcases mem_or_eq_push_of_mem_rest sorted mem with old | ⟨target, -, -, rfl⟩
  · exact occupied level old
  · simp [push]

end

theorem resting_front (queueEq : level.queue = entry :: back) :
    resting side (level :: worse) =
      { orderId := entry.orderId, side := side, price := level.price,
        lots := entry.lots } :: (resting side (level :: worse)).tail := by
  simp [Level.resting, queueEq]

theorem resting_hit (queueEq : level.queue = entry :: back) :
    resting side (hit lots (level :: worse)) =
      (if entry.lots = lots then []
       else [{ orderId := entry.orderId, side := side, price := level.price,
               lots := entry.lots - lots }]) ++
        (resting side (level :: worse)).tail := by
  have after : (level.hit lots).resting side =
      (if entry.lots = lots then []
       else [{ orderId := entry.orderId, side := side, price := level.price,
               lots := entry.lots - lots }]) ++ (level.resting side).tail := by
    simp only [Level.resting, Level.hit, queueEq]
    split_ifs <;> simp
  have kept : resting side (hit lots (level :: worse)) =
      (level.hit lots).resting side ++ resting side worse := by
    rw [hit]
    split_ifs with emptied
    · simp [Level.resting, emptied]
    · simp
  rw [kept, after]
  simp [Level.resting, queueEq]

/-- Trades leave no more orders than there were. -/
theorem Trades.resting_length_le (trades : Trades accepts want levels fills want' levels') :
    (resting side levels').length ≤ (resting side levels).length := by
  induction trades with
  | none => exact le_rfl
  | trade _ _ front _ ih =>
    refine ih.trans ?_
    rw [resting_hit front, length_append, resting_cons]
    simp only [Level.resting, front, map_cons, cons_append, tail_cons, length_cons]
    split_ifs
    · simp
    · rw [length_singleton, Nat.add_comm]

theorem Occupied.hit (occupied : Occupied levels) (lots : Int) : Occupied (hit lots levels) := by
  cases levels with
  | nil => exact occupied
  | cons level rest =>
    have restOccupied : Occupied rest := fun other mem => occupied other (by simp [mem])
    rw [hit]
    split_ifs with emptied
    · exact restOccupied
    · intro other mem
      rcases mem_cons.mp mem with rfl | inRest
      · exact emptied
      · exact restOccupied other inRest

end Ladder
end LightningX.Matching
