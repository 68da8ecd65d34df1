import LightningX.Lib.I64
import LightningX.Matching.ListPool

/-!
# The skip list of price levels

`matching/skiplist.rs`: one side of the book.  Raw pointers to nodes are
indices into the arena; the head sentinel is index zero.  A null pointer is
`none`.  The loops of the source follow pointers without a bound; here each of
them carries the length of the arena (or of the node pool) as fuel, which is
never reached on the lists the operations build.
-/

namespace LightningX.Matching

open LightningX.Path

def maxLevel : Nat := 12

structure SkipListNode where
  priceTicks : Int
  totalQuantityLots : Int
  orders : PooledList
  level : Nat
  forward : Vector (Option Nat) maxLevel

namespace SkipListNode

def new (priceTicks : Int) (level : Nat) : SkipListNode where
  priceTicks := priceTicks
  totalQuantityLots := 0
  orders := PooledList.new
  level := level
  forward := Vector.replicate maxLevel none

/-- `forward[tier]`. -/
def next (node : SkipListNode) (tier : Nat) : Option Nat :=
  (node.forward[tier]?).join

def setNext (node : SkipListNode) (tier : Nat) (link : Option Nat) :
    SkipListNode :=
  { node with forward := node.forward.setIfInBounds tier link }

end SkipListNode

inductive SortOrder
  | ascending
  | descending
  deriving DecidableEq, Repr

def SortOrder.shouldInsert (order : SortOrder) (newPrice existingPrice : Int) :
    Bool :=
  match order with
  | .ascending => decide (newPrice < existingPrice)
  | .descending => decide (newPrice > existingPrice)

structure SkipList where
  level : Nat
  count : Nat
  order : SortOrder
  listPool : ListNodePool
  arena : List SkipListNode
  freeNodes : List Nat
  rngState : UInt64
  bestPrice : Option Int

namespace SkipList

/-- `SkipList::new_with_pool`; the arena starts with the head sentinel. -/
def newWithPool (order : SortOrder) (poolCapacity : Nat) : SkipList where
  level := 0
  count := 0
  order := order
  listPool := ListNodePool.new poolCapacity
  arena := [SkipListNode.new
    (match order with
      | .ascending => -2 ^ 63
      | .descending => 2 ^ 63 - 1) 0]
  freeNodes := []
  rngState := 0x9E3779B97F4A7C15
  bestPrice := none

/-- Promotions granted by the two-bit draws of `random_level`. -/
def promotions : Nat → UInt64 → Nat
  | 0, _ => 0
  | budget + 1, bits => if bits &&& 3 = 0 then promotions budget (bits >>> 2) + 1 else 0

/-- `random_level`: xorshift64*, two bits per promotion. -/
def randomLevel (list : SkipList) : SkipList × Nat :=
  let x := list.rngState
  let x := x ^^^ (x >>> 12)
  let x := x ^^^ (x <<< 25)
  let x := x ^^^ (x >>> 27)
  let bits := x * 0x2545F4914F6CDD1D
  ({ list with rngState := x }, promotions (maxLevel - 1) bits)

/-- Dereference of a node pointer. -/
def node (list : SkipList) (index : Nat) : SkipListNode :=
  list.arena.getD index (SkipListNode.new 0 0)

/-- Price of a node. -/
def price (list : SkipList) (index : Nat) : Int :=
  (list.node index).priceTicks

/-- Pointer of one tier. -/
def next (list : SkipList) (tier index : Nat) : Option Nat :=
  (list.node index).next tier

/-- Write through a node pointer. -/
def modifyNode (list : SkipList) (index : Nat)
    (change : SkipListNode → SkipListNode) : SkipList :=
  { list with arena := list.arena.modify index change }

/-- The tests that end the inner loop of every search: the next node has the
price looked for, or a later one. -/
def stops (list : SkipList) (price : Int) (index : Nat) : Bool :=
  list.price index == price || list.order.shouldInsert price (list.price index)

/-- Inner loop of every search, on one tier. -/
def walk (list : SkipList) (price : Int) (tier current : Nat) : Nat :=
  Path.walk (list.next tier) (list.stops price) list.arena.length current

/-- The predecessors found by the outer loop of `find_update` on the tiers
below `tiers`, highest tier first, and the node it ends on. -/
def descend (list : SkipList) (price : Int) : Nat → Nat → List (Nat × Nat) × Nat
  | 0, current => ([], current)
  | tier + 1, current =>
    let reached := list.walk price tier current
    let (found, last) := list.descend price tier reached
    ((tier, reached) :: found, last)

/-- `find_update`: the predecessor on every tier (the head above the current
level) and the node reached on tier zero. -/
def findUpdate (list : SkipList) (price : Int) : (Nat → Nat) × Nat :=
  let (found, last) := list.descend price (list.level + 1) 0
  (fun tier => (found.lookup tier).getD 0, last)

/-- The search loop of `get_node_at_price` over the tiers below `tiers`. -/
def getNodeLoop (list : SkipList) (price : Int) : Nat → Nat → Option Nat
  | 0, _ => none
  | tier + 1, current =>
    let reached := list.walk price tier current
    match list.next tier reached with
    | some following =>
      if list.price following = price then some following
      else list.getNodeLoop price tier reached
    | none => list.getNodeLoop price tier reached

/-- `get_node_at_price` and `get_node_mut`, returning the node's index. -/
def getNodeAtPrice (list : SkipList) (price : Int) : Option Nat :=
  list.getNodeLoop price (list.level + 1) 0

/-- The search shared by `add_order_at_level`, `remove_order_at_level` and
`reduce_order_quantity_at_level`: the node after the last one passed on tier
zero, if it has the price. -/
def levelAt (list : SkipList) (price : Int) : Option Nat :=
  match list.next 0 (list.descend price (list.level + 1) 0).2 with
  | some following => if list.price following = price then some following else none
  | none => none

/-- Take a node for a new level: reuse a freed one or grow the arena. -/
def takeNode (list : SkipList) (fresh : SkipListNode) : SkipList × Nat :=
  match list.freeNodes with
  | index :: rest => ({ list with arena := list.arena.set index fresh, freeNodes := rest }, index)
  | [] => ({ list with arena := list.arena ++ [fresh] }, list.arena.length)

/-- Body of the loop of `insert_level`: splice `index` in on one tier. -/
def spliceTier (update : Nat → Nat) (index : Nat) (list : SkipList) (tier : Nat) :
    SkipList :=
  let following := list.next tier (update tier)
  (list.modifyNode index fun node => node.setNext tier following).modifyNode
    (update tier) fun node => node.setNext tier (some index)

def insertLevel (list : SkipList) (price : Int) : SkipList × Except String Unit :=
  if (list.getNodeAtPrice price).isSome then
    (list, .error "Price level already exists")
  else
    let (list, newLevel) := list.randomLevel
    let (update, _) := list.findUpdate price
    let (list, index) := list.takeNode (SkipListNode.new price newLevel)
    let list := if newLevel > list.level then { list with level := newLevel } else list
    let list := (List.range (newLevel + 1)).foldl (spliceTier update index) list
    ({ list with count := list.count + 1 }, .ok ())

/-- `best`: the first node. -/
def best (list : SkipList) : Option Nat :=
  list.next 0 0

def bestWithOrdersLoop (list : SkipList) : Nat → Nat → Option Nat
  | 0, _ => none
  | fuel + 1, current =>
    match list.next 0 current with
    | none => none
    | some following =>
      if (list.node following).orders.isEmpty then
        list.bestWithOrdersLoop fuel following
      else some following

/-- `best_with_orders`: the first node whose queue is not empty. -/
def bestWithOrders (list : SkipList) : Option Nat :=
  list.bestWithOrdersLoop (list.arena.length + 1) 0

def addOrderAtLevel (list : SkipList) (price : Int) (orderId : Nat)
    (quantity : Int) : SkipList × Except String Unit :=
  match list.listPool.acquire orderId quantity with
  | none => (list, .error "List pool exhausted")
  | some (pool, cell) =>
    match list.levelAt price with
    | some index =>
      let (orders, pool) := (list.node index).orders.pushBack cell pool
      (({ list with listPool := pool } : SkipList).modifyNode index fun node =>
        { node with
          orders := orders
          totalQuantityLots := wrapI64 (node.totalQuantityLots + quantity) },
        .ok ())
    | none =>
      ({ list with listPool := pool.release cell }, .error s!"Price level {price} not found")

/-- Search for an order in the queue of a node. -/
def findOrder (list : SkipList) (index orderId : Nat) : Option Nat :=
  Path.seek list.listPool.nextOf
    (fun cell => (list.listPool.get cell).any (·.orderId == orderId))
    (list.listPool.nodes.length + 1) (list.node index).orders.front

def removeOrderAtLevel (list : SkipList) (price : Int) (orderId : Nat) :
    SkipList × Except String Unit :=
  match list.levelAt price with
  | some index =>
    match list.findOrder index orderId with
    | some cell =>
      let quantity := (list.listPool.entry cell).lots
      let (orders, pool) := (list.node index).orders.remove cell list.listPool
      (({ list with listPool := pool.release cell } : SkipList).modifyNode index
        fun node =>
          { node with
            orders := orders
            totalQuantityLots := wrapI64 (node.totalQuantityLots - quantity) },
        .ok ())
    | none => (list, .error s!"Order {orderId} not found at price level {price}")
  | none => (list, .error s!"Price level {price} not found")

def reduceOrderQuantityAtLevel (list : SkipList) (price : Int) (orderId : Nat)
    (quantity : Int) : SkipList × Except String Unit :=
  match list.levelAt price with
  | some index =>
    match list.findOrder index orderId with
    | some cell =>
      let pool := list.listPool.modify cell fun entry =>
        { entry with quantityLots := max (wrapI64 (entry.quantityLots - quantity)) 0 }
      (({ list with listPool := pool } : SkipList).modifyNode index fun node =>
        { node with
          totalQuantityLots := max (wrapI64 (node.totalQuantityLots - quantity)) 0 },
        .ok ())
    | none => (list, .error s!"Order {orderId} not found at price level {price}")
  | none => (list, .error s!"Price level {price} not found")

/-- Body of the loop of `remove_level`: unlink `target` on one tier. -/
def unlinkTier (update : Nat → Nat) (target : Nat) (list : SkipList) (tier : Nat) :
    SkipList :=
  if list.next tier (update tier) = some target then
    let following := list.next tier target
    list.modifyNode (update tier) fun node => node.setNext tier following
  else list

/-- `while self.level > 0 && head.forward[self.level].is_null()`. -/
def shrinkLevel (list : SkipList) : Nat → Nat
  | 0 => 0
  | level + 1 => if list.next (level + 1) 0 = none then list.shrinkLevel level else level + 1

/-- The end of `remove_level`: lower the level of the list, clear the node and
keep it for reuse.  Its queue is dropped without returning the queue's nodes to
the pool. -/
def retireNode (list : SkipList) (target : Nat) : SkipList :=
  let list := { list with
    level := list.shrinkLevel list.level
    count := list.count - 1 }
  let list := list.modifyNode target fun node =>
    { node with
      orders := node.orders.clear
      totalQuantityLots := 0
      forward := Vector.replicate maxLevel none }
  { list with freeNodes := target :: list.freeNodes }

def removeLevel (list : SkipList) (price : Int) : SkipList × Except String Unit :=
  let (update, _) := list.findUpdate price
  match list.next 0 (update 0) with
  | none => (list, .error "Price not found")
  | some target =>
    if list.price target ≠ price then (list, .error "Price not found")
    else
      let nodeLevel := (list.node target).level
      let list := (List.range (nodeLevel + 1)).foldl (unlinkTier update target) list
      (list.retireNode target, .ok ())

/-- Recomputation of the cache in `get_best_price_cached`. -/
def refreshBestPrice (list : SkipList) : SkipList × Option Int :=
  let best := list.bestWithOrders.map list.price
  ({ list with bestPrice := best }, best)

/-- `get_best_price_cached`: a cached price is returned as long as its level
still has orders. -/
def getBestPriceCached (list : SkipList) : SkipList × Option Int :=
  match list.bestPrice with
  | some price =>
    match list.getNodeAtPrice price with
    | some index =>
      if (list.node index).orders.isEmpty then list.refreshBestPrice
      else (list, some price)
    | none => list.refreshBestPrice
  | none => list.refreshBestPrice

/-- `get_node_at_price(price).map(|n| n.orders.is_empty()).unwrap_or(absent)`. -/
def levelEmpty (list : SkipList) (price : Int) (absent : Bool) : Bool :=
  ((list.getNodeAtPrice price).map fun index => (list.node index).orders.isEmpty).getD absent

/-- The order at the front of a level's queue, as `match_order` reads it. -/
def frontOrderId (list : SkipList) (price : Int) : Option Nat :=
  (list.getNodeAtPrice price).bind fun index =>
    (list.node index).orders.front.bind fun cell => (list.listPool.get cell).map (·.orderId)

def invalidateBestPrice (list : SkipList) : SkipList :=
  { list with bestPrice := none }

/-- Loop of `get_top_levels` and `fill_top_levels`: prices and totals of the
next nodes, at most `limit` of them. -/
def topLevelsLoop (list : SkipList) : Nat → Nat → List (Int × Int)
  | 0, _ => []
  | limit + 1, current =>
    match list.next 0 current with
    | none => []
    | some following =>
      (list.price following, (list.node following).totalQuantityLots) ::
        list.topLevelsLoop limit following

def getTopLevels (list : SkipList) (limit : Nat) : List (Int × Int) :=
  list.topLevelsLoop limit 0

/-- The price test of `has_cumulative_quantity_until`. -/
def acceptable (limitPrice : Int) (isMarket buyTaker : Bool) (price : Int) : Bool :=
  isMarket || if buyTaker then decide (limitPrice ≥ price) else decide (limitPrice ≤ price)

/-- Loop of `has_cumulative_quantity_until`. -/
def cumulativeLoop (list : SkipList) (targetQty limitPrice : Int)
    (isMarket buyTaker : Bool) : Nat → Nat → Int → Bool
  | 0, _, _ => false
  | fuel + 1, current, available =>
    match list.next 0 current with
    | none => false
    | some following =>
      if acceptable limitPrice isMarket buyTaker (list.price following) then
        let available := wrapI64 (available + (list.node following).totalQuantityLots)
        if available ≥ targetQty then true
        else list.cumulativeLoop targetQty limitPrice isMarket buyTaker fuel following available
      else false

def hasCumulativeQuantityUntil (list : SkipList) (targetQty limitPrice : Int)
    (isMarket buyTaker : Bool) : Bool :=
  list.cumulativeLoop targetQty limitPrice isMarket buyTaker (list.arena.length + 1) 0 0

end SkipList
end LightningX.Matching
