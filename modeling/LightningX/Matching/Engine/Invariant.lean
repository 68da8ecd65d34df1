import LightningX.Matching.Engine.Books
import LightningX.Matching.Engine.Store

/-!
# The invariant of the engine

`Sound` relates an engine to the abstract book it holds: both skip lists
represent their ladders, the order store and the queues know the same orders,
and the pools allocate exactly what is in use.
-/

namespace LightningX.Matching

open List Function Ladder

/-- The two ladders of a book. -/
abbrev Book := Side → List Level

namespace Book

/-- All orders of the book. -/
def resting (book : Book) : List Resting :=
  Ladder.resting .buy (book .buy) ++ Ladder.resting .sell (book .sell)

theorem resting_perm (book : Book) (side : Side) :
    book.resting ~ Ladder.resting side (book side) ++
      Ladder.resting side.opposite (book side.opposite) := by
  cases side with
  | buy => exact List.Perm.refl _
  | sell => exact perm_append_comm

theorem resting_update (book : Book) (side : Side) (levels : List Level) :
    resting (update book side levels) ~ Ladder.resting side levels ++
      Ladder.resting side.opposite (book side.opposite) := by
  have perm := resting_perm (update book side levels) side
  rwa [update_self, update_of_ne (Side.opposite_ne side)] at perm

/-- The orders after one more was queued. -/
theorem resting_update_rest {book : Book}
    (sorted : Sorted order (book side)) (price : Int) (orderId : Nat) (lots : Int) :
    resting (update book side (Ladder.rest order price orderId lots (book side))) ~
      { orderId := orderId, side := side, price := price, lots := lots } :: book.resting := by
  refine (resting_update book side _).trans ?_
  refine ((Ladder.resting_rest sorted).append_right _).trans ?_
  exact (resting_perm book side).symm.cons _

theorem mem_resting {book : Book} :
    order ∈ book.resting ↔ order ∈ Ladder.resting order.side (book order.side) := by
  have sided : ∀ side, order ∈ Ladder.resting side (book side) → order.side = side := by
    intro side mem
    obtain ⟨level, -, entry, -, rfl⟩ := Ladder.mem_resting.mp mem
    rfl
  rw [(resting_perm book order.side).mem_iff, mem_append]
  constructor
  · rintro (own | other)
    · exact own
    · exact absurd (sided _ other).symm (Side.opposite_ne order.side)
  · exact Or.inl

end Book

structure Resting.StoredAs (resting : Resting) (order : Order) : Prop where
  id : order.id = resting.orderId
  side : order.side = resting.side
  price : order.priceTicks = resting.price
  lots : order.remainingLots = resting.lots
  positive : 0 < resting.lots
  filled : 0 ≤ order.filledLots
  inRange : InI64 order.quantityLots

/-- The store knows exactly the resting orders. -/
structure Linked (known : List Nat) (read : Nat → Option Order)
    (orders : List Resting) : Prop where
  ids : known ~ orders.map (·.orderId)
  stored : ∀ resting ∈ orders, ∃ order, read resting.orderId = some order ∧ resting.StoredAs order

theorem Resting.StoredAs.lots_le {resting : Resting} (stored : resting.StoredAs order) :
    resting.lots ≤ i64Max := by
  have upper := stored.inRange.2
  have nonneg := stored.filled
  have lots := stored.lots
  unfold Order.remainingLots at lots
  unfold i64Max
  omega

namespace Linked

variable {known : List Nat} {read read' : Nat → Option Order} {orders : List Resting}
  {resting resting' : Resting}

theorem perm (linked : Linked known read orders) (same : orders ~ orders') :
    Linked known read orders' where
  ids := linked.ids.trans (same.map _)
  stored := fun resting mem => linked.stored resting (same.mem_iff.mpr mem)

theorem push (linked : Linked known read orders) (resting : Resting)
    (unknown : resting.orderId ∉ known) (present : read' resting.orderId = some order)
    (stored : resting.StoredAs order) (others : ∀ id, id ≠ resting.orderId → read' id = read id) :
    Linked (resting.orderId :: known) read' (resting :: orders) where
  ids := linked.ids.cons _
  stored := by
    intro other mem
    rcases mem_cons.mp mem with rfl | old
    · exact ⟨order, present, stored⟩
    · have ne : other.orderId ≠ resting.orderId := by
        intro equal
        refine unknown (linked.ids.mem_iff.mpr ?_)
        exact mem_map.mpr ⟨other, old, equal⟩
      rw [others _ ne]
      exact linked.stored other old

section

variable (linked : Linked known read (resting :: orders)) (distinct : known.Nodup)
include linked distinct

theorem ids_ne : ∀ other ∈ orders, other.orderId ≠ resting.orderId := by
  intro other mem equal
  have ids := linked.ids.nodup distinct
  rw [map_cons, nodup_cons] at ids
  exact ids.1 (mem_map.mpr ⟨other, mem, equal⟩)

/-- An order leaves. -/
theorem drop (others : ∀ id, id ≠ resting.orderId → read' id = read id) :
    Linked (known.erase resting.orderId) read' orders where
  ids := by
    have erased := linked.ids.erase resting.orderId
    rwa [map_cons, erase_cons_head] at erased
  stored := by
    intro other mem
    rw [others _ (linked.ids_ne distinct other mem)]
    exact linked.stored other (by simp [mem])

/-- An order stays with other lots. -/
theorem reduce (sameId : resting'.orderId = resting.orderId)
    (present : read' resting.orderId = some order) (stored : resting'.StoredAs order)
    (others : ∀ id, id ≠ resting.orderId → read' id = read id) :
    Linked known read' (resting' :: orders) where
  ids := by
    rw [map_cons, sameId]
    exact linked.ids
  stored := by
    intro other mem
    rcases mem_cons.mp mem with rfl | old
    · exact ⟨order, by rw [sameId, present], stored⟩
    · rw [others _ (linked.ids_ne distinct other old)]
      exact linked.stored other (by simp [old])

end

end Linked

/-- A skip list represents the ladder of a side. -/
structure SideSound (config : PoolConfig) (side : Side) (list : SkipList)
    (levels : List Level) : Prop where
  models : list.Models levels 0
  order : list.order = side.sortOrder
  capacity : list.listPool.capacity = config.queueCapacity
  cache : list.CacheSound levels
  occupied : Occupied levels

namespace SideSound

variable {config : PoolConfig} {side : Side} {list list' : SkipList} {levels : List Level}

theorem sorted (sound : SideSound config side list levels) : Sorted side.sortOrder levels :=
  sound.order ▸ sound.models.sorted

/-- A cached price stays sound when levels only disappear. -/
theorem cacheSound_of_sublist (sorted : Sorted side.sortOrder levels)
    (cache : list.CacheSound levels) (same : list'.bestPrice = list.bestPrice)
    (fewer : levels'.map (·.price) <+ levels.map (·.price)) : list'.CacheSound levels' := by
  have missing : ∀ (price : Int) (part : List Level),
      Ladder.find price part = none ↔ price ∉ part.map (·.price) := by
    intro price part
    rw [Ladder.find_eq_none_iff, mem_map]
    exact ⟨fun apart ⟨level, mem, equal⟩ => apart level mem equal,
      fun absent level mem equal => absent ⟨level, mem, equal⟩⟩
  intro price cached
  rw [same] at cached
  rw [missing]
  rcases cache price cached with absent | best
  · left
    rw [missing] at absent
    exact fun mem => absent (fewer.subset mem)
  · by_cases mem : price ∈ levels'.map (·.price)
    · right
      cases levels with
      | nil => simp at best
      | cons level worse =>
        simp only [List.head?_cons, Option.map_some, Option.some.injEq] at best
        have apart : price ∉ worse.map (·.price) := by
          rw [mem_map]
          rintro ⟨other, otherMember, equal⟩
          exact sorted.price_ne_of_mem_tail other otherMember (equal.trans best.symm)
        rw [map_cons, best] at fewer
        rcases sublist_cons_iff.mp fewer with skipped | ⟨tail, headEq, -⟩
        · exact absurd (skipped.subset mem) apart
        · rw [← List.head?_map, headEq]
          rfl
    · exact Or.inl mem

/-- A step that only takes orders and levels out. -/
theorem step (sound : SideSound config side list levels) (models : list'.Models levels' 0)
    (frame : list.Frame list') (fewer : levels'.map (·.price) <+ levels.map (·.price))
    (occupied : Occupied levels') : SideSound config side list' levels' where
  models := models
  order := frame.order.trans sound.order
  capacity := frame.capacity.trans sound.capacity
  cache := cacheSound_of_sublist sound.sorted sound.cache frame.bestPrice fewer
  occupied := occupied

end SideSound

theorem Ladder.prices_drop_sublist (price : Int) (orderId : Nat) (levels : List Level) :
    (Ladder.drop price orderId levels).map (·.price) <+ levels.map (·.price) := by
  have updated : (update price (Level.drop orderId) levels).map (·.price) =
      levels.map (·.price) := by
    rw [update, map_map]
    apply map_congr_left
    intro level _
    simp only [comp_apply]
    split_ifs <;> rfl
  rw [← updated]
  exact filter_sublist.map _

namespace MatchingEngine

/-- The engine holds `book`; the trade slots `trades` are in use. -/
structure Sound (config : PoolConfig) (engine : MatchingEngine) (trades : List Nat)
    (book : Book) : Prop where
  sides : ∀ side, SideSound config side (engine.book side) (book side)
  stored : engine.orders.Stored engine.pools.orders
  linked : Linked engine.orders.keys (engine.orders.read engine.pools.orders) book.resting
  orderCapacity : engine.pools.orders.capacity = config.orderCapacity
  trades : engine.pools.trades.Owns trades
  tradeCapacity : engine.pools.trades.capacity = config.orderCapacity
  queues : engine.pools.queues.availableCount = config.queueCapacity

variable {engine : MatchingEngine} {trades : List Nat} {book : Book} {side : Side} {list : SkipList}
  {levels : List Level}

section

variable (side list)

@[simp] theorem book_setBook : (engine.setBook side list).book = update engine.book side list := by
  funext other
  cases side <;> cases other <;> rfl

@[simp] theorem orders_setBook : (engine.setBook side list).orders = engine.orders := by
  cases side <;> rfl

@[simp] theorem pools_setBook : (engine.setBook side list).pools = engine.pools := by
  cases side <;> rfl

@[simp] theorem fillsBuf_setBook : (engine.setBook side list).fillsBuf = engine.fillsBuf := by
  cases side <;> rfl

end

section

variable (sound : Sound config engine trades book)
include sound

theorem Sound.setSide (changed : SideSound config side list levels) :
    ∀ other, SideSound config other (update engine.book side list other)
      (update book side levels other) := by
  intro other
  by_cases same : other = side
  · subst same
    simpa using changed
  · simpa [same] using sound.sides other

/-- The known orders are the resting ones. -/
theorem Sound.mem_orders_iff :
    orderId ∈ engine.orders ↔ ∃ resting ∈ book.resting, resting.orderId = orderId := by
  rw [AList.mem_keys, sound.linked.ids.mem_iff, mem_map]

theorem Sound.keys_length : engine.orders.keys.length = book.resting.length := by
  rw [sound.linked.ids.length_eq, length_map]

theorem Sound.resting_length_le : book.resting.length ≤ config.orderCapacity := by
  have within := sound.stored.partition.length_add_length
  have allocated := sound.stored.allocated_eq
  have known := sound.stored.allocated_eq_length
  rw [sound.orderCapacity] at within
  rw [← sound.keys_length]
  omega

theorem Sound.positive (side : Side) : Ladder.Positive (book side) := by
  intro level mem entry entryMember
  obtain ⟨order, -, stored⟩ := sound.linked.stored _
    (Book.mem_resting.mpr (Ladder.mem_resting_of_mem side mem entryMember))
  exact stored.positive

end

/-- A fresh engine holds the empty book. -/
theorem sound_new (config : PoolConfig) :
    Sound config (MatchingEngine.new config) [] fun _ => [] where
  sides := by
    intro side
    refine
      { models := ?_, order := ?_, capacity := ?_, cache := ?_,
        occupied := by simp [Occupied] }
    · cases side <;> exact SkipList.models_newWithPool _ _
    · cases side <;> rfl
    · cases side <;> rfl
    · intro price cached
      cases side <;> simp [book, MatchingEngine.new, SkipList.newWithPool] at cached
  stored := ObjectPool.owns_new _ _
  linked := ⟨List.Perm.refl _, by simp [Book.resting]⟩
  orderCapacity := rfl
  trades := ObjectPool.owns_new _ _
  tradeCapacity := rfl
  queues := rfl

end MatchingEngine
end LightningX.Matching
