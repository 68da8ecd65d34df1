import LightningX.Matching.SkipList.Defs

/-!
# Price ladders

The abstract content of one book side: its price levels, best first, each
with its cached total and its queue of orders, oldest first.  The operations
of this file are what the operations of the skip list do to the ladder it
represents.
-/

namespace LightningX.Matching

open List

/-- A price level: price, cached total quantity and queue. -/
structure Level where
  price : Int
  total : Int
  queue : List Entry
  deriving DecidableEq, Repr

namespace Level

variable {entry : Entry} {front : List Entry}

/-- A level without orders. -/
def empty (price : Int) : Level where
  price := price
  total := 0
  queue := []

/-- Append an order. -/
def push (orderId : Nat) (lots : Int) (level : Level) : Level :=
  { level with
    total := wrapI64 (level.total + lots)
    queue := level.queue ++ [{ orderId := orderId, lots := lots }] }

/-- Drop the first entry of an order. -/
def drop (orderId : Nat) (level : Level) : Level :=
  { level with
    total := wrapI64 (level.total -
      ((level.queue.find? (·.orderId == orderId)).map (·.lots)).getD 0)
    queue := level.queue.eraseP (·.orderId == orderId) }

def reduceQueue (orderId : Nat) (lots : Int) : List Entry → List Entry
  | [] => []
  | entry :: rest =>
    if entry.orderId = orderId then
      { entry with lots := max (wrapI64 (entry.lots - lots)) 0 } :: rest
    else entry :: reduceQueue orderId lots rest

def reduce (orderId : Nat) (lots : Int) (level : Level) : Level :=
  { level with
    total := max (wrapI64 (level.total - lots)) 0
    queue := reduceQueue orderId lots level.queue }

@[simp] theorem drop_price (orderId : Nat) (level : Level) :
    (level.drop orderId).price = level.price := rfl

@[simp] theorem reduce_price (orderId : Nat) (lots : Int) (level : Level) :
    (level.reduce orderId lots).price = level.price := rfl

/-- Dropping the first entry of an order from a queue split at it. -/
theorem drop_of_split {level : Level} (split : level.queue = front ++ entry :: back)
    (others : ∀ other ∈ front, other.orderId ≠ entry.orderId) :
    level.drop entry.orderId =
      { level with
        total := wrapI64 (level.total - entry.lots)
        queue := front ++ back } := by
  have misses : ∀ other ∈ front, (other.orderId == entry.orderId) = false :=
    fun other mem => by simpa using others other mem
  have first : level.queue.find? (·.orderId == entry.orderId) = some entry := by
    rw [split, List.find?_append,
      List.find?_eq_none.mpr fun other mem => by simp [misses other mem]]
    simp
  have erased : level.queue.eraseP (·.orderId == entry.orderId) = front ++ back := by
    rw [split, eraseP_append_right]
    · simp
    · intro other mem
      simp [misses other mem]
  simp [drop, first, erased]

theorem reduce_of_split {level : Level} (split : level.queue = front ++ entry :: back)
    (others : ∀ other ∈ front, other.orderId ≠ entry.orderId) :
    level.reduce entry.orderId lots =
      { level with
        total := max (wrapI64 (level.total - lots)) 0
        queue := front ++ { entry with lots := max (wrapI64 (entry.lots - lots)) 0 } :: back } := by
  have passed : reduceQueue entry.orderId lots (front ++ entry :: back) =
      front ++ reduceQueue entry.orderId lots (entry :: back) := by
    clear split
    induction front with
    | nil => rfl
    | cons first front ih =>
      have tail := ih
        fun other mem => others other (by simp [mem])
      rw [cons_append, reduceQueue, if_neg (others first (by simp)), tail]
      rfl
  simp [reduce, split, passed, reduceQueue]

end Level

namespace Ladder

/-- Prices are strictly sorted, best first. -/
def Sorted (order : SortOrder) (levels : List Level) : Prop :=
  levels.Pairwise fun first second => order.shouldInsert first.price second.price = true

def find (price : Int) (levels : List Level) : Option Level :=
  levels.find? fun level => level.price == price

/-- Insert an empty level in its place. -/
def insert (order : SortOrder) (price : Int) : List Level → List Level
  | [] => [Level.empty price]
  | level :: rest =>
    if order.shouldInsert level.price price then
      level :: insert order price rest
    else Level.empty price :: level :: rest

def update (price : Int) (change : Level → Level) (levels : List Level) :
    List Level :=
  levels.map fun level => if level.price = price then change level else level

def erase (price : Int) (levels : List Level) : List Level :=
  levels.filter fun level => decide (level.price ≠ price)

/-- The quantity test of a fill-or-kill order, level by level. -/
def hasCumulative (targetQty limitPrice : Int) (isMarket buyTaker : Bool) :
    List Level → Int → Bool
  | [], _ => false
  | level :: rest, available =>
    if SkipList.acceptable limitPrice isMarket buyTaker level.price then
      let available := wrapI64 (available + level.total)
      if available ≥ targetQty then true
      else hasCumulative targetQty limitPrice isMarket buyTaker rest available
    else false

/-- All queued orders, best price first and oldest first. -/
def entries (levels : List Level) : List Entry :=
  levels.flatMap (·.queue)

/-- The identifiers of the queued orders. -/
def orderIds (levels : List Level) : List Nat :=
  (entries levels).map (·.orderId)

variable {order : SortOrder} {levels rest lower upper : List Level} {level : Level}

theorem Sorted.price_ne_of_mem_tail (sorted : Sorted order (level :: rest)) :
    ∀ other ∈ rest, other.price ≠ level.price := by
  intro other mem equal
  have before := (pairwise_cons.mp sorted).1 other mem
  rw [equal] at before
  simp [SortOrder.shouldInsert] at before
  cases order <;> simp at before

theorem Sorted.eq_of_price_eq (sorted : Sorted order levels) (mem : level ∈ levels)
    (otherMember : other ∈ levels) (equal : level.price = other.price) : level = other := by
  induction levels with
  | nil => simp at mem
  | cons first rest ih =>
    have apart := sorted.price_ne_of_mem_tail
    rcases mem_cons.mp mem with rfl | inRest <;>
      rcases mem_cons.mp otherMember with rfl | otherInRest
    · rfl
    · exact absurd equal.symm (apart other otherInRest)
    · exact absurd equal (apart level inRest)
    · exact ih (pairwise_cons.mp sorted).2 inRest otherInRest

theorem find_eq_some_iff (sorted : Sorted order levels) :
    find price levels = some level ↔ level ∈ levels ∧ level.price = price := by
  unfold find
  constructor
  · intro found
    exact ⟨mem_of_find?_eq_some found, by simpa using List.find?_some found⟩
  · rintro ⟨mem, rfl⟩
    cases found : levels.find? fun other => other.price == level.price with
    | none =>
      have missing := List.find?_eq_none.mp found level mem
      simp at missing
    | some other =>
      have otherPrice : other.price = level.price := by simpa using List.find?_some found
      rw [sorted.eq_of_price_eq (mem_of_find?_eq_some found) mem otherPrice]

theorem find_eq_none_iff : find price levels = none ↔ ∀ level ∈ levels, level.price ≠ price := by
  simp [find]

/-- A split ladder is updated at its only level of that price. -/
theorem update_append
    (change : Level → Level) (lowerNe : ∀ other ∈ lower, other.price ≠ level.price)
    (upperNe : ∀ other ∈ upper, other.price ≠ level.price) :
    update level.price change (lower ++ level :: upper) = lower ++ change level :: upper := by
  have unchanged : ∀ part : List Level, (∀ other ∈ part, other.price ≠ level.price) →
      part.map (fun other => if other.price = level.price then change other else other) = part := by
    intro part apart
    conv_rhs => rw [← map_id part]
    apply map_congr_left
    intro other mem
    simp [apart other mem]
  simp [update, unchanged lower lowerNe, unchanged upper upperNe]

theorem erase_append (lowerNe : ∀ other ∈ lower, other.price ≠ level.price)
    (upperNe : ∀ other ∈ upper, other.price ≠ level.price) :
    erase level.price (lower ++ level :: upper) = lower ++ upper := by
  have kept : ∀ part : List Level, (∀ other ∈ part, other.price ≠ level.price) →
      part.filter (fun other => decide (other.price ≠ level.price)) = part := by
    intro part apart
    rw [filter_eq_self]
    intro other mem
    simpa using apart other mem
  rw [erase, filter_append, kept lower lowerNe, filter_cons, kept upper upperNe]
  simp

theorem insert_append (lowerBefore : ∀ other ∈ lower, order.shouldInsert other.price price = true)
    (upperAfter : ∀ other ∈ upper, order.shouldInsert other.price price = false) :
    insert order price (lower ++ upper) = lower ++ Level.empty price :: upper := by
  induction lower with
  | nil =>
    cases upper with
    | nil => rfl
    | cons first rest => simp [insert, upperAfter first (by simp)]
  | cons first rest ih =>
    have tail := ih
      fun other mem => lowerBefore other (by simp [mem])
    simp [insert, lowerBefore first (by simp), tail]

end Ladder
end LightningX.Matching
