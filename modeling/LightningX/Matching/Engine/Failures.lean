import LightningX.Matching.Engine.Batch
import LightningX.Matching.Engine.Membership

/-!
# Calls that fail

Room for an order is looked for at the start of `place_order` and `place_orders`,
and taken when the rest of the order is queued, after its trades and after the
earlier orders of its batch.  A call that fails there has changed the book unless
nothing happened before.
-/

namespace LightningX.Matching

open List Ladder Function
open Reference Request

namespace Ladder

variable {accepts : Int → Bool} {want want' : Int} {levels levels' : List Level}
  {fills : List Fill}

/-- A taker does not trade if the best price is not acceptable to it. -/
theorem Trades.fills_eq_nil_iff (trades : Trades accepts want levels fills want' levels')
    (settled : Settled accepts want' levels') (wanted : 0 < want) :
    fills = [] ↔ ∀ level ∈ levels.head?, accepts level.price = false := by
  cases trades with
  | none =>
    rw [eq_self, true_iff]
    exact settled.resolve_left (by omega)
  | trade _ accepted _ _ => simp [accepted]

theorem Trades.eq_of_fills_eq_nil (trades : Trades accepts want levels [] want' levels') :
    want' = want ∧ levels' = levels := by
  cases trades
  exact ⟨rfl, rfl⟩

/-- A taker that is left with lots has used up the makers it traded with. -/
theorem Trades.resting_length_lt {side : Side}
    (trades : Trades accepts want levels fills want' levels') (positive : Positive levels)
    (some : fills ≠ []) (left : 0 < want') :
    (resting side levels').length < (resting side levels).length := by
  cases trades with
  | none => exact absurd rfl some
  | @trade _ level worse entry _ _ _ _ wanted _ front later =>
    have less := (later.fills_positive (positive.hit front (by omega))).2
    have consumed : entry.lots = min want entry.lots := by omega
    refine lt_of_le_of_lt later.resting_length_le ?_
    rw [resting_hit front, if_pos consumed, resting_front front]
    simp

end Ladder

/-- An order that can be filled is offered something. -/
theorem Book.crosses_of_fillable {book : Book} {order : Order} (fillable : book.Fillable order) :
    book.Crosses order := by
  unfold Book.Fillable at fillable
  cases levelsEq : book order.side.opposite with
  | nil => simp [levelsEq, hasCumulative] at fillable
  | cons level worse =>
    refine ⟨level, by simp [levelsEq], ?_⟩
    by_contra refused
    rw [levelsEq, hasCumulative, Order.acceptable_eq, if_neg refused] at fillable
    cases fillable

namespace MatchingEngine

/-- What callers can see of an engine is what it was: no maker was consumed, no order
rests that did not, no trade was produced and no slot or node is missing. -/
structure Unchanged (engine after : MatchingEngine) : Prop where
  levels : ∀ side, after.levels side = engine.levels side
  orders : ∀ orderId, orderId ∈ after.orders ↔ orderId ∈ engine.orders
  trades : after.tradeSequence = engine.tradeSequence
  orderSlots : after.pools.orders.availableCount = engine.pools.orders.availableCount
  tradeSlots : after.pools.trades.availableCount = engine.pools.trades.availableCount
  nodes : ∀ side, (after.book side).listPool.allocated = (engine.book side).listPool.allocated

/-- There is room for what is left of an order after its trades.  An order that trades
with everything it is offered frees a slot. -/
def Fits (engine : MatchingEngine) (order : Order) : Prop :=
  order.mayRest → engine.offered order < order.quantityLots →
    ¬ (order.isPostOnly ∧ 0 < engine.offered order) →
    (engine.book order.side).listPool.allocated < (engine.book order.side).listPool.capacity ∧
      (0 < engine.pools.orders.availableCount ∨ 0 < engine.offered order)
deriving Decidable

/-- Executing an order does nothing: it must not trade and would, it must be filled and
cannot, or it may not rest and is offered nothing. -/
def Inert (engine : MatchingEngine) (order : Order) : Prop :=
  order.isPostOnly ∧ 0 < engine.offered order ∨
    order.isFok ∧ engine.canFillFok order = false ∨
    ¬ order.mayRest ∧ ¬ order.isFok ∧ engine.offered order = 0
deriving Decidable

/-- There is room for every order of a batch when its turn comes. -/
def BatchFits : MatchingEngine → List Order → Prop
  | _, [] => True
  | engine, order :: orders => engine.Fits order ∧ BatchFits (engine.handleOrder order).1 orders

/-- There is room for every order of a batch, or the first one without room is offered
nothing and comes after orders that did nothing. -/
def BatchSafe : MatchingEngine → List Order → Prop
  | _, [] => True
  | engine, order :: orders =>
    if engine.Fits order then
      if engine.Inert order then BatchSafe (engine.handleOrder order).1 orders
      else BatchFits (engine.handleOrder order).1 orders
    else engine.offered order = 0

variable {config : PoolConfig} {engine after : MatchingEngine} {book book' : Book}
  {order : Order} {result : OrderResult PlaceOrderResult} {fills : List Fill}

/-! ## Engines that hold the same book -/

section

variable (sound : Sound config engine [] book)
include sound

theorem Sound.allocated_eq (side : Side) :
    (engine.book side).listPool.allocated = (entries (book side)).length := by
  rw [(sound.sides side).models.length_le_capacity.2, Nat.add_zero]

theorem Sound.availableCount_orders :
    engine.pools.orders.availableCount = config.orderCapacity - book.resting.length := by
  rw [ObjectPool.availableCount, sound.orderCapacity, sound.stored.allocated_eq_length,
    sound.keys_length]

theorem Sound.unchanged_iff (afterSound : Sound config after [] book') :
    engine.Unchanged after ↔ book' = book ∧ after.tradeSequence = engine.tradeSequence := by
  constructor
  · intro unchanged
    refine ⟨funext fun side => ?_, unchanged.trades⟩
    rw [← sound.levels_eq, ← afterSound.levels_eq, unchanged.levels]
  · rintro ⟨rfl, trades⟩
    exact
      { levels := fun side => by rw [sound.levels_eq, afterSound.levels_eq]
        orders := fun orderId => by rw [sound.mem_orders_iff, afterSound.mem_orders_iff]
        trades := trades
        orderSlots := by rw [sound.availableCount_orders, afterSound.availableCount_orders]
        tradeSlots := by
          rw [ObjectPool.availableCount, ObjectPool.availableCount, sound.tradeCapacity,
            afterSound.tradeCapacity, sound.trades.allocated_eq, afterSound.trades.allocated_eq]
        nodes := fun side => by rw [sound.allocated_eq, afterSound.allocated_eq] }

/-- Something is offered to an order exactly if it crosses the book. -/
theorem Sound.offered_pos_iff : 0 < engine.offered order ↔ book.Crosses order := by
  have sorted := (sound.sides order.side.opposite).sorted
  have positive : Positive (candidates order book.resting) := sound.resting_positive.candidates
  rw [offered, sound.resting_eq]
  constructor
  · intro offers
    by_contra quiet
    have none : accepted order.priceMatches order.side.opposite
        (book order.side.opposite) = [] :=
      (Sorted.closed sorted).accepted_eq_nil fun level isHead => by
        rw [Bool.eq_false_iff]
        exact fun accepted => quiet ⟨level, isHead, accepted⟩
    rw [Book.candidates_eq sorted, none] at offers
    exact absurd offers (by simp [lots])
  · rintro ⟨level, isHead, accepted⟩
    have mem := mem_of_mem_head? isHead
    obtain ⟨entry, queued⟩ := exists_mem_of_ne_nil _
      ((sound.sides order.side.opposite).occupied level mem)
    have isCandidate := mem_candidates.mpr
      ⟨Book.mem_resting.mpr (mem_resting_of_mem order.side.opposite mem queued),
        rfl, Order.priceMatches_iff.mp accepted⟩
    refine lt_of_lt_of_le (positive _ isCandidate) ?_
    refine single_le_sum ?_ _ (mem_map_of_mem isCandidate)
    intro value isLots
    obtain ⟨resting, restingMember, rfl⟩ := mem_map.mp isLots
    exact (positive resting restingMember).le

theorem Sound.offered_nonneg : 0 ≤ engine.offered order := by
  rw [offered, sound.resting_eq]
  exact lots_nonneg sound.resting_positive.candidates

end

/-! ## One order -/

section

variable {want : Int} {levels : List Level} (sound : Sound config engine [] book)
  (sized : 0 < order.quantityLots)
  (trades : Trades order.priceMatches order.quantityLots
    (book order.side.opposite) fills want levels)
  (settled : Settled order.priceMatches want levels)
include sound sized trades settled

theorem Sound.fills_eq_nil_iff : fills = [] ↔ engine.offered order = 0 := by
  have nonneg : 0 ≤ engine.offered order := sound.offered_nonneg
  have crosses : 0 < engine.offered order ↔ book.Crosses order := sound.offered_pos_iff
  rw [trades.fills_eq_nil_iff settled sized]
  constructor
  · intro quiet
    by_contra offers
    obtain ⟨level, isHead, accepted⟩ := crosses.mp (by omega)
    simp [quiet level isHead] at accepted
  · intro nothing level isHead
    rw [Bool.eq_false_iff]
    intro accepted
    have offers := crosses.mpr ⟨level, isHead, accepted⟩
    omega

/-- The slots that are free after an order traded with all it was offered. -/
theorem Sound.slot_iff (left : 0 < want) :
    (Book.resting (update book order.side.opposite levels)).length <
        config.orderCapacity ↔
      0 < engine.pools.orders.availableCount ∨ 0 < engine.offered order := by
  have within := sound.resting_length_le
  have nonneg : 0 ≤ engine.offered order := sound.offered_nonneg
  rw [sound.availableCount_orders]
  by_cases nothing : engine.offered order = 0
  · have noFills := (sound.fills_eq_nil_iff sized trades settled).mpr nothing
    subst noFills
    rw [trades.eq_of_fills_eq_nil.2, update_eq_self]
    omega
  · have some := (sound.fills_eq_nil_iff sized trades settled).not.mpr nothing
    have fewer := @Trades.resting_length_lt _ _ _ _ _ _ order.side.opposite trades
      (sound.positive _) some left
    rw [(Book.resting_perm book order.side.opposite).length_eq, length_append] at within
    rw [(Book.resting_update book order.side.opposite levels).length_eq, length_append]
    omega

end

section

variable (sound : Sound config engine [] book)
include sound

/-- An order finds room or fails after its trades. -/
theorem Sound.executes_ok_iff
    (sized : 0 < order.quantityLots) (executes : book.Executes config order result fills book') :
    (∃ placed, result = .ok placed) ↔ engine.Fits order := by
  have nodes := sound.allocated_eq order.side
  have capacity := (sound.sides order.side).capacity
  have crosses : 0 < engine.offered order ↔ book.Crosses order := sound.offered_pos_iff
  unfold Fits
  rw [nodes, capacity]
  cases executes with
  | rejected reason =>
    refine iff_of_true ⟨_, rfl⟩ fun mayRest _ quiet => ?_
    rcases reason with ⟨postOnly, crossing⟩ | ⟨fok, -⟩
    · exact absurd ⟨postOnly, crosses.mpr crossing⟩ quiet
    · have tif := mayRest.2
      simp [fok.2] at tif
  | swept _ _ trades settled done =>
    refine iff_of_true ⟨_, rfl⟩ fun mayRest short _ => ?_
    have filled := done.resolve_right (not_not.mpr mayRest)
    have traded := sound.traded_eq sized trades settled
    omega
  | rested mayRest quiet trades settled left slot room =>
    exact iff_of_true ⟨_, rfl⟩ fun _ _ _ =>
      ⟨room, (sound.slot_iff sized trades settled left).mp slot⟩
  | lost mayRest quiet trades settled left full =>
    refine iff_of_false nofun fun fits => ?_
    have traded := sound.traded_eq sized trades settled
    obtain ⟨room, slot⟩ := fits mayRest (by omega)
      fun ⟨postOnly, offers⟩ => quiet postOnly (crosses.mp offers)
    rw [← sound.slot_iff sized trades settled left] at slot
    rcases full with ⟨-, noNode⟩ | ⟨-, noSlot⟩ <;> omega

/-- An order that fails has changed nothing exactly if it was offered nothing. -/
theorem Sound.executes_error_iff (sized : 0 < order.quantityLots)
    (executes : book.Executes config order (.error error) fills book') :
    book' = book ∧ fills.length = 0 ↔ engine.offered order = 0 := by
  cases executes with
  | lost _ _ trades settled =>
    rw [← sound.fills_eq_nil_iff sized trades settled, length_eq_zero_iff]
    constructor
    · exact fun same => same.2
    · rintro rfl
      refine ⟨?_, rfl⟩
      rw [trades.eq_of_fills_eq_nil.2, update_eq_self]

/-- An order that is executed has done nothing exactly if it is inert; otherwise there are
trades, or one order more. -/
theorem Sound.executes_inert (sized : 0 < order.quantityLots)
    (executes : book.Executes config order (.ok placed) fills book') :
    (engine.Inert order → book' = book ∧ fills = []) ∧
      (¬ engine.Inert order → 0 < fills.length ∨ book.resting.length < book'.resting.length) := by
  have crosses : 0 < engine.offered order ↔ book.Crosses order := sound.offered_pos_iff
  have canFill : engine.canFillFok order = false ↔ ¬ book.Fillable order := by
    rw [← sound.canFillFok_iff, Bool.eq_false_iff]
  cases executes with
  | rejected reason =>
    refine ⟨fun _ => ⟨rfl, rfl⟩, fun active => absurd ?_ active⟩
    rcases reason with ⟨postOnly, crossing⟩ | ⟨fok, short⟩
    · exact Or.inl ⟨postOnly, crosses.mpr crossing⟩
    · exact Or.inr (Or.inl ⟨fok, canFill.mpr short⟩)
  | swept notPostOnly fillable trades settled done =>
    have noFills := sound.fills_eq_nil_iff sized trades settled
    constructor
    · rintro (⟨postOnly, -⟩ | ⟨fok, short⟩ | ⟨-, -, nothing⟩)
      · exact absurd postOnly notPostOnly
      · exact absurd (fillable fok) (canFill.mp short)
      · obtain rfl := noFills.mpr nothing
        refine ⟨?_, rfl⟩
        rw [trades.eq_of_fills_eq_nil.2, update_eq_self]
    · intro active
      left
      rw [length_pos_iff, ne_eq, noFills]
      intro nothing
      have traded := sound.traded_eq sized trades settled
      refine active (Or.inr (Or.inr ⟨done.resolve_left (by omega), ?_, nothing⟩))
      exact fun fok => absurd (crosses.mpr (Book.crosses_of_fillable (fillable fok))) (by omega)
  | @rested _ want levels mayRest quiet trades settled left =>
    refine ⟨fun inert => ?_, fun _ => ?_⟩
    · rcases inert with ⟨postOnly, offers⟩ | ⟨fok, -⟩ | ⟨leaves, -⟩
      · exact absurd (crosses.mp offers) (quiet postOnly)
      · have tif := mayRest.2
        simp [fok.2] at tif
      · exact absurd mayRest leaves
    · rcases Nat.eq_zero_or_pos fills.length with none | some
      · right
        obtain rfl := length_eq_zero_iff.mp none
        rw [(sound.resting_sweptAndRested levels want).length_eq,
          trades.eq_of_fills_eq_nil.2, update_eq_self]
        exact Nat.lt_succ_self _
      · exact Or.inl some

/-- Without a trade no order leaves the book. -/
theorem Sound.executes_length_le (executes : book.Executes config order result fills book')
    (none : fills.length = 0) : book.resting.length ≤ book'.resting.length := by
  obtain rfl := length_eq_zero_iff.mp none
  cases executes with
  | rejected => exact le_rfl
  | swept _ _ trades => rw [trades.eq_of_fills_eq_nil.2, update_eq_self]
  | @rested _ want levels _ _ trades =>
    rw [(sound.resting_sweptAndRested levels want).length_eq, trades.eq_of_fills_eq_nil.2,
      update_eq_self]
    exact Nat.le_succ _
  | lost _ _ trades => rw [trades.eq_of_fills_eq_nil.2, update_eq_self]

/-- Only the order itself is new in the book. -/
theorem Sound.executes_ids (executes : book.Executes config order result fills book') :
    ∀ orderId ∈ book'.resting.map (·.orderId),
      orderId ∈ book.resting.map (·.orderId) ∨ orderId = order.id := by
  intro orderId mem
  have sweptIds : ∀ {want : Int} {levels : List Level},
      Trades order.priceMatches order.quantityLots (book order.side.opposite) fills
        want levels →
      orderId ∈ (Book.resting (update book order.side.opposite levels)).map
        (·.orderId) → orderId ∈ book.resting.map (·.orderId) := fun trades inSwept =>
    Book.ids_update_subset (trades.orderIds_sublist _).subset inSwept
  cases executes with
  | rejected => exact Or.inl mem
  | swept _ _ trades => exact Or.inl (sweptIds trades mem)
  | @rested _ want levels _ _ trades =>
    rw [((sound.resting_sweptAndRested levels want).map (·.orderId)).mem_iff,
      map_cons, mem_cons] at mem
    exact mem.symm.imp_left (sweptIds trades)
  | lost _ _ trades => exact Or.inl (sweptIds trades mem)

end

/-! ## Batches -/

/-- Orders that the checks of `place_orders` let through. -/
structure Ready (engine : MatchingEngine) (orders : List Order) : Prop where
  distinct : (orders.map (·.id)).Nodup
  unknown : ∀ order ∈ orders, order.id ∉ engine.orders
  sized : ∀ order ∈ orders, 0 < order.quantityLots
  constructed : ∀ order ∈ orders, order.filledLots = 0
  inRange : ∀ order ∈ orders, InI64 order.quantityLots

/-- An engine with more trades, or with as many trades and more orders. -/
def Grown (engine after : MatchingEngine) : Prop :=
  engine.tradeSequence < after.tradeSequence ∨
    engine.tradeSequence = after.tradeSequence ∧ engine.resting.length < after.resting.length

theorem Grown.not_unchanged (grown : engine.Grown after) : ¬ engine.Unchanged after := by
  intro unchanged
  have same : after.resting = engine.resting := by simp only [resting, unchanged.levels]
  have trades := unchanged.trades
  unfold Grown at grown
  rw [same] at grown
  omega

variable {orders : List Order} {base : MatchingEngine}

section

variable (sound : Sound config engine [] book)
include sound

/-- What executing the first order of a batch does, and what is left of the batch. -/
theorem Sound.handleFirst (ready : engine.Ready (order :: orders)) :
    ∃ fills book',
      book.Executes config order (engine.handleOrder order).2 fills book' ∧
      Sound config (engine.handleOrder order).1 [] book' ∧
      (engine.handleOrder order).1.tradeSequence = engine.tradeSequence + fills.length ∧
      (engine.handleOrder order).1.Ready orders := by
  have first : order ∈ order :: orders := mem_cons_self
  obtain ⟨fills, book', executes, afterSound, counted, -⟩ := sound.handleOrder
    (ready.unknown order first) (ready.sized order first) (ready.constructed order first)
    (ready.inRange order first)
  obtain ⟨apart, distinct⟩ := nodup_cons.mp ready.distinct
  refine ⟨fills, book', executes, afterSound, counted, distinct, ?_,
    fun other mem => ready.sized other (mem_cons_of_mem _ mem),
    fun other mem => ready.constructed other (mem_cons_of_mem _ mem),
    fun other mem => ready.inRange other (mem_cons_of_mem _ mem)⟩
  intro other mem known
  obtain ⟨resting, inBook, same⟩ := afterSound.mem_orders_iff.mp known
  rcases sound.executes_ids executes other.id
    (mem_map.mpr ⟨resting, inBook, same⟩) with old | isOrder
  · obtain ⟨earlier, inEarlier, sameEarlier⟩ := mem_map.mp old
    exact ready.unknown other (mem_cons_of_mem _ mem)
      (sound.mem_orders_iff.mpr ⟨earlier, inEarlier, sameEarlier⟩)
  · exact apart (mem_map.mpr ⟨other, mem, isOrder⟩)

/-- A batch fails exactly if there is no room for some order when its turn comes. -/
theorem Sound.handleOrders_error_iff (ready : engine.Ready orders) :
    (∃ error, (engine.handleOrders orders).2 = .error error) ↔ ¬ engine.BatchFits orders := by
  induction orders generalizing engine book with
  | nil => exact iff_of_false nofun fun short => short trivial
  | cons order orders ih =>
    obtain ⟨fills, book', executes, afterSound, -, afterReady⟩ := sound.handleFirst ready
    have first := sound.executes_ok_iff (ready.sized order mem_cons_self) executes
    have later := ih afterSound afterReady
    rw [BatchFits, ← first]
    cases outcome : engine.handleOrder order with
    | mk after answer =>
      rw [outcome] at later
      cases answer with
      | error error =>
        rw [handleOrders_of_error outcome]
        exact iff_of_true ⟨error, rfl⟩ fun fits => by
          obtain ⟨⟨placed, isOk⟩, -⟩ := fits
          cases isOk
      | ok placed =>
        simp only [(handleOrders_of_ok outcome).2, later]
        exact not_congr ⟨fun fits => ⟨⟨placed, rfl⟩, fits⟩, fun fits => fits.2⟩

/-- An engine that has grown does not shrink back. -/
theorem Sound.grown_handleOrders (ready : engine.Ready orders) (grown : base.Grown engine) :
    base.Grown (engine.handleOrders orders).1 := by
  induction orders generalizing engine book with
  | nil => exact grown
  | cons order orders ih =>
    obtain ⟨fills, book', executes, afterSound, counted, afterReady⟩ := sound.handleFirst ready
    have stillGrown : base.Grown (engine.handleOrder order).1 := by
      have kept := sound.executes_length_le executes
      unfold Grown at grown ⊢
      rw [sound.resting_eq] at grown
      rw [afterSound.resting_eq]
      omega
    have later := ih afterSound afterReady stillGrown
    cases outcome : engine.handleOrder order with
    | mk after answer =>
      rw [outcome] at stillGrown later
      cases answer with
      | error error =>
        rw [handleOrders_of_error outcome]
        exact stillGrown
      | ok placed =>
        rw [(handleOrders_of_ok outcome).1]
        exact later

end

/-- A failing batch leaves nothing behind exactly if the first order without room is
offered nothing and comes after orders that did nothing. -/
theorem Sound.handleOrders_unchanged_iff
    (baseSound : Sound config base [] book) (sound : Sound config engine [] book)
    (trades : engine.tradeSequence = base.tradeSequence) (ready : engine.Ready orders) :
    (∀ error, (engine.handleOrders orders).2 = .error error →
      base.Unchanged (engine.handleOrders orders).1) ↔ engine.BatchSafe orders := by
  induction orders generalizing engine with
  | nil => exact iff_of_true nofun trivial
  | cons order orders ih =>
    have sized := ready.sized order mem_cons_self
    obtain ⟨fills, book', executes, afterSound, counted, afterReady⟩ := sound.handleFirst ready
    have first := sound.executes_ok_iff sized executes
    rw [BatchSafe]
    cases outcome : engine.handleOrder order with
    | mk after answer =>
      rw [outcome] at executes afterSound counted afterReady first
      cases answer with
      | error error =>
        rw [if_neg (first.not.mp nofun),
          handleOrders_of_error outcome, ← sound.executes_error_iff sized executes]
        simp only [Except.error.injEq, forall_eq']
        rw [baseSound.unchanged_iff afterSound]
        refine and_congr_right fun _ => ?_
        omega
      | ok placed =>
        obtain ⟨idle, busy⟩ := sound.executes_inert sized executes
        rw [if_pos (first.mp ⟨placed, rfl⟩), (handleOrders_of_ok outcome).1]
        simp only [(handleOrders_of_ok outcome).2]
        split_ifs with inert
        · obtain ⟨rfl, rfl⟩ := idle inert
          exact ih afterSound (counted.trans trades) afterReady
        · have grown : base.Grown after := by
            have some := busy inert
            unfold Grown
            rw [baseSound.resting_eq, afterSound.resting_eq, counted]
            omega
          have changed := (afterSound.grown_handleOrders afterReady grown).not_unchanged
          rw [← not_iff_not, ← afterSound.handleOrders_error_iff afterReady]
          simp [changed]

theorem ready_of_checkOrders (checked : engine.checkOrders earlier orders = .ok ())
    (constructed : ∀ order ∈ orders, order.filledLots = 0)
    (inRange : ∀ order ∈ orders, InI64 order.quantityLots) :
    engine.Ready orders ∧ ∀ order ∈ orders, ∀ previous ∈ earlier, previous.id ≠ order.id := by
  induction orders generalizing earlier with
  | nil => exact ⟨⟨nodup_nil, by simp, by simp, by simp, by simp⟩, by simp⟩
  | cons order orders ih =>
    rw [checkOrders] at checked
    cases valid : validateOrder order with
    | error error => simp [valid] at checked
    | ok done =>
      rw [valid] at checked
      split_ifs at checked with known repeated noSpace
      obtain ⟨ready, apart⟩ := ih checked
        (fun other mem => constructed other (mem_cons_of_mem _ mem))
        (fun other mem => inRange other (mem_cons_of_mem _ mem))
      simp only [any_eq_true, beq_iff_eq, not_exists, not_and] at repeated
      refine ⟨⟨?_, ?_, ?_, constructed, inRange⟩, ?_⟩
      · refine nodup_cons.mpr ⟨fun mem => ?_, ready.distinct⟩
        obtain ⟨other, inOrders, same⟩ := mem_map.mp mem
        exact apart other inOrders order (by simp) same.symm
      · intro other mem
        rcases mem_cons.mp mem with rfl | later
        · exact known
        · exact ready.unknown other later
      · intro other mem
        rcases mem_cons.mp mem with rfl | later
        · exact (validateOrder_eq_ok_iff.mp valid).2
        · exact ready.sized other later
      · intro other mem previous inEarlier
        rcases mem_cons.mp mem with rfl | later
        · exact repeated previous inEarlier
        · exact apart other later previous (by simp [inEarlier])

/-- A call that fails leaves everything as it was, exactly if it fails a check, finds room
for what it queues, or finds none before anything happened. -/
theorem failures_unchanged_iff (config : PoolConfig) (calls : List Call) :
    (∀ request : Request,
      ((∀ error, (((new config).run calls).1.placeOrder request.order).2 = .error error →
        ((new config).run calls).1.Unchanged
          (((new config).run calls).1.placeOrder request.order).1) ↔
        (((new config).run calls).1.Passes request.order →
          ((new config).run calls).1.Fits request.order ∨
            ((new config).run calls).1.offered request.order = 0))) ∧
    ∀ requests : List Request,
      ((∀ error, (((new config).run calls).1.placeOrders
          (requests.map Request.order)).2 = .error error →
        ((new config).run calls).1.Unchanged
          (((new config).run calls).1.placeOrders (requests.map Request.order)).1) ↔
        (((new config).run calls).1.checkOrders [] (requests.map Request.order) = .ok () →
          ((new config).run calls).1.BatchSafe (requests.map Request.order))) := by
  obtain ⟨book, sound, -⟩ := @run_induction (fun _ _ _ => True) config trivial
    (fun _ _ _ _ => trivial) calls
  generalize ((new config).run calls).1 = engine at sound
  have refl : engine.Unchanged engine := (sound.unchanged_iff sound).mpr ⟨rfl, rfl⟩
  constructor
  · intro request
    by_cases passes : engine.Passes request.order
    · have sized := (validateOrder_eq_ok_iff.mp passes.1).2
      obtain ⟨fills, book', executes, afterSound, ⟨counted, -⟩⟩ := sound.handleOrder passes.2.1
        sized request.order_filledLots request.order_inRange
      have placed := sound.executes_ok_iff sized executes
      rw [placeOrder_of_passes passes, ← placed]
      simp only [passes, true_implies]
      cases outcome : engine.handleOrder request.order with
      | mk after answer =>
        rw [outcome] at executes afterSound counted
        cases answer with
        | ok placed => simp
        | error error =>
          rw [← sound.executes_error_iff sized executes]
          simp only [Except.error.injEq, forall_eq', reduceCtorEq, exists_false, false_or]
          rw [sound.unchanged_iff afterSound]
          refine and_congr_right fun _ => ?_
          omega
    · obtain ⟨error, refused⟩ := placeOrder_of_not_passes passes
      rw [refused]
      exact iff_of_true (fun _ _ => refl) fun doesPass => absurd doesPass passes
  · intro requests
    unfold placeOrders
    cases checked : engine.checkOrders [] (requests.map Request.order) with
    | error error =>
      refine iff_of_true (fun _ _ => refl) fun passed => ?_
      cases passed
    | ok done =>
      have ready := (ready_of_checkOrders checked
        (fun order member => by
          obtain ⟨request, -, rfl⟩ := mem_map.mp member
          exact request.order_filledLots)
        fun order member => by
          obtain ⟨request, -, rfl⟩ := mem_map.mp member
          exact request.order_inRange).1
      simp only [true_implies]
      exact sound.handleOrders_unchanged_iff sound rfl ready

/-- A bid takes an ask and finds no node for the rest: the ask is gone.  In a batch a second
ask finds no node, and the first one stays. -/
theorem not_unchanged_nodePoolExhausted :
    (((new ⟨4, 1⟩).run [.place (.limit 1 .buy 90 1 .gtc 0),
        .place (.limit 2 .sell 100 1 .gtc 1)]).1.placeOrder
          (limit 3 .buy 100 2 .gtc 2).order).2 = .error .nodePoolExhausted ∧
      ¬ ((new ⟨4, 1⟩).run [.place (.limit 1 .buy 90 1 .gtc 0),
        .place (.limit 2 .sell 100 1 .gtc 1)]).1.Unchanged
          (((new ⟨4, 1⟩).run [.place (.limit 1 .buy 90 1 .gtc 0),
            .place (.limit 2 .sell 100 1 .gtc 1)]).1.placeOrder
              (limit 3 .buy 100 2 .gtc 2).order).1 ∧
      ((new ⟨4, 1⟩).placeOrders [(limit 1 .sell 100 1 .gtc 0).order,
        (limit 2 .sell 101 1 .gtc 1).order]).2 = .error .nodePoolExhausted ∧
      ¬ (new ⟨4, 1⟩).Unchanged ((new ⟨4, 1⟩).placeOrders
        [(limit 1 .sell 100 1 .gtc 0).order,
          (limit 2 .sell 101 1 .gtc 1).order]).1 := by
  refine ⟨by decide, fun unchanged => absurd (unchanged.orders 2) (by decide), by decide,
    fun unchanged => absurd (unchanged.orders 1) (by decide)⟩

end MatchingEngine
end LightningX.Matching
