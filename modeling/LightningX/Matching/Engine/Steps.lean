import LightningX.Matching.Engine.Crossing
import LightningX.Matching.Engine.LoopRule
import LightningX.Matching.Engine.Match

/-!
# What one call does

Everything `place_order` and `cancel_order` can do to a sound engine, as
relations on the abstract book.  Properties of runs are derived from these
relations and do not look at the engine again.
-/

namespace LightningX.Matching

open List Function MatchingEngine Ladder Book

namespace Book

variable (config : PoolConfig) (book : Book) (order : Order)

/-- The best order of the opposite side is acceptable. -/
def Crosses : Prop :=
  ∃ level ∈ (book order.side.opposite).head?, order.priceMatches level.price = true

/-- The test of a fill-or-kill order. -/
def Fillable : Prop :=
  Ladder.hasCumulative order.quantityLots order.priceTicks order.isMarket
    (order.side == .buy) (book order.side.opposite) 0 = true

/-- The checks at the start of `place_order` pass. -/
structure Admits : Prop where
  price : ¬ (order.isMarket = false ∧ order.priceTicks ≤ 0)
  quantity : 0 < order.quantityLots
  fresh : ∀ resting ∈ book.resting, resting.orderId ≠ order.id
  slot : book.resting.length < config.orderCapacity
  queues : 0 < config.queueCapacity

/-- Why the checks at the start of `place_order` fail, first check first. -/
inductive Refuses : MatchingEngineError → Prop
  | price (bad : order.isMarket = false ∧ order.priceTicks ≤ 0) :
      Refuses (.invalidPrice order.priceTicks)
  | quantity (priced : ¬ (order.isMarket = false ∧ order.priceTicks ≤ 0))
      (bad : order.quantityLots ≤ 0) :
      Refuses (.invalidQuantity order.quantityLots)
  | duplicate (priced : ¬ (order.isMarket = false ∧ order.priceTicks ≤ 0))
      (sized : 0 < order.quantityLots) (resting : Resting)
      (member : resting ∈ book.resting) (same : resting.orderId = order.id) :
      Refuses (.duplicateOrderId order.id)
  | exhausted (full : config.orderCapacity ≤ book.resting.length ∨
        config.queueCapacity = 0) :
      Refuses .orderPoolExhausted

/-- The result reported after matching. -/
def report (want : Int) (status : OrderStatus) (fills : List Fill) :
    PlaceOrderResult where
  orderId := order.id
  filledLots := order.quantityLots - want
  status := status
  fills := fills

/-- The book after the opposite side was swept and the rest was queued. -/
def sweptAndRested (want : Int) (levels : List Level) : Book :=
  update (update book order.side.opposite levels) order.side
    (rest order.side.sortOrder order.priceTicks order.id want (book order.side))

/-- Everything that placing an order can do. -/
inductive Places : OrderResult PlaceOrderResult → Book → Prop
  | refused {error : MatchingEngineError} (reason : Refuses config book order error) :
      Places (.error error) book
  | rejected (admitted : Admits config book order)
      (reason : order.isPostOnly ∧ Crosses book order ∨
        order.isFok ∧ ¬ Fillable book order) :
      Places (.ok (untouched order .rejected)) book
  | swept {fills : List Fill} {want : Int} {levels : List Level}
      (admitted : Admits config book order)
      (notPostOnly : ¬ order.isPostOnly)
      (fillable : order.isFok → Fillable book order)
      (trades : Trades order.priceMatches order.quantityLots
        (book order.side.opposite) fills want levels)
      (settled : Settled order.priceMatches want levels)
      (done : want ≤ 0 ∨ ¬ order.mayRest) :
      Places (.ok (report order want
          (if order.isFok then .filled
           else takerStatus order (order.quantityLots - want) .rejected)
          fills))
        (update book order.side.opposite levels)
  | rested {fills : List Fill} {want : Int} {levels : List Level}
      (admitted : Admits config book order)
      (mayRest : order.mayRest)
      (quiet : order.isPostOnly → ¬ Crosses book order)
      (trades : Trades order.priceMatches order.quantityLots
        (book order.side.opposite) fills want levels)
      (settled : Settled order.priceMatches want levels)
      (left : 0 < want)
      (room : (entries (book order.side)).length < config.queueCapacity) :
      Places (.ok (report order want
          (takerStatus order (order.quantityLots - want) .accepted) fills))
        (sweptAndRested book order want levels)
  | lost {fills : List Fill} {want : Int} {levels : List Level}
      (admitted : Admits config book order)
      (mayRest : order.mayRest)
      (quiet : order.isPostOnly → ¬ Crosses book order)
      (trades : Trades order.priceMatches order.quantityLots
        (book order.side.opposite) fills want levels)
      (settled : Settled order.priceMatches want levels)
      (left : 0 < want)
      (full : (entries (book order.side)).length = config.queueCapacity) :
      Places (.error .nodePoolExhausted) (update book order.side.opposite levels)

/-- Everything that executing an order can do once its fields are checked, with the
fills it makes.  In a batch the order pool may be full by then. -/
inductive Executes : OrderResult PlaceOrderResult → List Fill → Book → Prop
  | rejected (reason : order.isPostOnly ∧ Crosses book order ∨
        order.isFok ∧ ¬ Fillable book order) :
      Executes (.ok (untouched order .rejected)) [] book
  | swept {fills : List Fill} {want : Int} {levels : List Level}
      (notPostOnly : ¬ order.isPostOnly)
      (fillable : order.isFok → Fillable book order)
      (trades : Trades order.priceMatches order.quantityLots
        (book order.side.opposite) fills want levels)
      (settled : Settled order.priceMatches want levels)
      (done : want ≤ 0 ∨ ¬ order.mayRest) :
      Executes (.ok (report order want
          (if order.isFok then .filled
           else takerStatus order (order.quantityLots - want) .rejected)
          fills)) fills
        (update book order.side.opposite levels)
  | rested {fills : List Fill} {want : Int} {levels : List Level}
      (mayRest : order.mayRest)
      (quiet : order.isPostOnly → ¬ Crosses book order)
      (trades : Trades order.priceMatches order.quantityLots
        (book order.side.opposite) fills want levels)
      (settled : Settled order.priceMatches want levels)
      (left : 0 < want)
      (slot : (resting (update book order.side.opposite levels)).length <
        config.orderCapacity)
      (room : (entries (book order.side)).length < config.queueCapacity) :
      Executes (.ok (report order want
          (takerStatus order (order.quantityLots - want) .accepted) fills))
        fills (sweptAndRested book order want levels)
  | lost {error : MatchingEngineError} {fills : List Fill} {want : Int}
      {levels : List Level}
      (mayRest : order.mayRest)
      (quiet : order.isPostOnly → ¬ Crosses book order)
      (trades : Trades order.priceMatches order.quantityLots
        (book order.side.opposite) fills want levels)
      (settled : Settled order.priceMatches want levels)
      (left : 0 < want)
      (full : error = .nodePoolExhausted ∧
          (entries (book order.side)).length = config.queueCapacity ∨
        error = .orderPoolExhausted ∧
          config.orderCapacity ≤
            (resting (update book order.side.opposite levels)).length) :
      Executes (.error error) fills (update book order.side.opposite levels)

variable {config book order}

theorem resting_length_swept (trades : Trades accepts want (book side) fills want' levels) :
    (resting (update book side levels)).length ≤ book.resting.length := by
  rw [(resting_update book side levels).length_eq, (resting_perm book side).length_eq,
    length_append, length_append]
  exact Nat.add_le_add_right trades.resting_length_le _

/-- An order that passed the checks at the start of `place_order` is placed by being
executed. -/
theorem Executes.places (executes : Executes config book order result fills book')
    (admitted : Admits config book order) : Places config book order result book' := by
  cases executes with
  | rejected reason => exact .rejected admitted reason
  | swept notPostOnly fillable trades settled done =>
    exact .swept admitted notPostOnly fillable trades settled done
  | rested mayRest quiet trades settled left _ room =>
    exact .rested admitted mayRest quiet trades settled left room
  | lost mayRest quiet trades settled left full =>
    rcases full with ⟨rfl, full⟩ | ⟨-, noSlot⟩
    · exact .lost admitted mayRest quiet trades settled left full
    · have fewer := resting_length_swept trades
      have slot := admitted.slot
      omega

variable (config book order)

/-- Everything that cancelling an order can do. -/
inductive Cancels (orderId : Nat) : OrderResult CancelOrderResult → Book → Prop
  | unknown (absent : ∀ resting ∈ book.resting, resting.orderId ≠ orderId) :
      Cancels orderId (.error .orderNotFound) book
  | removed (resting : Resting) (member : resting ∈ book.resting)
      (same : resting.orderId = orderId) :
      Cancels orderId
        (.ok { orderId := orderId, cancelledQuantity := resting.lots })
        (update book resting.side (drop resting.price orderId (book resting.side)))

end Book

namespace MatchingEngine

variable {config : PoolConfig} {engine : MatchingEngine} {book : Book} {order : Order}

/-! ## Resting an order -/

/-- `add_to_book` queues the order, or finds the node pool full and undoes what
it did. -/
theorem Sound.addToBook
    (sound : Sound config engine [] book) (order : Order) (unknown : order.id ∉ engine.orders)
    (slot : book.resting.length < config.orderCapacity) (positive : 0 < order.remainingLots)
    (filled : 0 ≤ order.filledLots) (inRange : InI64 order.quantityLots) :
    (∃ engine', engine.addToBook order = (engine', .ok ()) ∧
      engine'.fillsBuf = engine.fillsBuf ∧
      (entries (book order.side)).length < config.queueCapacity ∧
      Sound config engine' [] (update book order.side
        (rest order.side.sortOrder order.priceTicks order.id order.remainingLots
          (book order.side)))) ∨
    ∃ engine', engine.addToBook order = (engine', .error .nodePoolExhausted) ∧
      (entries (book order.side)).length = config.queueCapacity ∧
      Sound config engine' [] book := by
  have sideSound := sound.sides order.side
  have within := sideSound.models.length_le_capacity.1
  rw [sideSound.capacity] at within
  obtain ⟨slots, index, acquired⟩ : ∃ slots index,
      engine.pools.orders.acquire = some (slots, index) := by
    cases acquired : engine.pools.orders.acquire with
    | none =>
      have full := (ObjectPool.acquire_eq_none_iff sound.stored).mp acquired
      have allocated := sound.stored.allocated_eq
      have known := sound.stored.allocated_eq_length
      rw [sound.orderCapacity] at full
      rw [sound.keys_length] at known
      omega
    | some pair => exact ⟨pair.1, pair.2, rfl⟩
  obtain ⟨inserted, readSelf, readOthers⟩ := sound.stored.insert unknown acquired order
  obtain ⟨owns, fresh, content, capacity⟩ := ObjectPool.acquire_spec sound.stored acquired
  have listCapacity := sideSound.capacity
  rcases Nat.lt_or_eq_of_le within with room | full
  · left
    obtain ⟨list, added, models, frame⟩ := sideSound.models.rest order.priceTicks order.id
      order.remainingLots (by omega)
    rw [sideSound.order] at models
    refine ⟨({ engine with
      orders := engine.orders.insert order.id index
      pools.orders := slots.modify index fun _ => order } : MatchingEngine).setBook
        order.side list.invalidateBestPrice, ?_, by simp, room, ?_⟩
    · simp only [MatchingEngine.addToBook, unknown, if_false, acquired, added]
    · have rested : SideSound config order.side list.invalidateBestPrice
          (rest order.side.sortOrder order.priceTicks order.id
            order.remainingLots (book order.side)) :=
        { models := models.setBestPrice none
          order := frame.order.trans sideSound.order
          capacity := frame.capacity.trans sideSound.capacity
          cache := by
            intro price cached
            simp [SkipList.invalidateBestPrice] at cached
          occupied := sideSound.occupied.rest sideSound.sorted }
      refine
        { sides := by
            rw [book_setBook]
            exact sound.setSide rested
          stored := by simpa using inserted
          linked := ?_
          orderCapacity := by simpa using capacity.trans sound.orderCapacity
          trades := by simpa using sound.trades
          tradeCapacity := by simpa using sound.tradeCapacity
          queues := by simpa using sound.queues }
      have keysEq : (engine.orders.insert order.id index).keys =
          order.id :: engine.orders.keys := by
        rw [AList.keys_insert, erase_of_not_mem (AList.mem_keys.not.mp unknown)]
      simp only [orders_setBook, pools_setBook, keysEq]
      refine Linked.perm ?_ (Book.resting_update_rest sideSound.sorted order.priceTicks
        order.id order.remainingLots).symm
      exact sound.linked.push ⟨order.id, order.side, order.priceTicks, order.remainingLots⟩
        (AList.mem_keys.not.mp unknown) readSelf
        ⟨rfl, rfl, rfl, rfl, positive, filled, inRange⟩ readOthers
  · right
    obtain ⟨list, added, models, frame⟩ := sideSound.models.rest_of_full order.priceTicks
      order.id order.remainingLots sideSound.occupied (by omega)
    refine ⟨({ engine with
      pools.orders := (slots.modify index fun _ => order).release index }
        : MatchingEngine).setBook order.side (list.dropEmptyLevel order.priceTicks false),
      ?_, full, ?_⟩
    · simp only [MatchingEngine.addToBook, unknown, if_false, acquired, added]
    · obtain ⟨undone, readSame⟩ := sound.stored.undo acquired order
      have unchanged := sound.setSide (sideSound.step models frame (List.Sublist.refl _)
        sideSound.occupied)
      rw [update_eq_self] at unchanged
      exact
        { sides := by
            rw [book_setBook]
            exact unchanged
          stored := by simpa using undone
          linked := by
            have sameRead : engine.orders.read
                ((slots.modify index fun _ => order).release index) =
                  engine.orders.read engine.pools.orders := funext readSame
            simpa [sameRead] using sound.linked
          orderCapacity := by simpa using capacity.trans sound.orderCapacity
          trades := by simpa using sound.trades
          tradeCapacity := by simpa using sound.tradeCapacity
          queues := by simpa using sound.queues }

theorem tradeSequence_addToBook (engine : MatchingEngine) (order : Order) :
    (engine.addToBook order).1.tradeSequence = engine.tradeSequence := by
  unfold MatchingEngine.addToBook
  split
  · rfl
  · split
    · rfl
    · simp only
      split <;> simp

/-- Without a free slot `add_to_book` does nothing. -/
theorem Sound.addToBook_of_full (sound : Sound config engine [] book) (order : Order)
    (unknown : order.id ∉ engine.orders) (full : config.orderCapacity ≤ book.resting.length) :
    engine.addToBook order = (engine, .error .orderPoolExhausted) := by
  have none : engine.pools.orders.acquire = none := by
    rw [ObjectPool.acquire_eq_none_iff sound.stored, sound.orderCapacity]
    have allocated := sound.stored.allocated_eq
    have known := sound.stored.allocated_eq_length
    have within := sound.resting_length_le
    rw [sound.keys_length] at known
    omega
  simp only [MatchingEngine.addToBook, unknown, if_false, none]

/-! ## Placing an order -/

/-- The outcome of a call that places an order is one of those of `Places`, and
leaves a sound engine. -/
def PlacesSoundly (config : PoolConfig) (book : Book) (order : Order)
    (outcome : MatchingEngine × OrderResult PlaceOrderResult) : Prop :=
  ∃ book', book.Places config order outcome.2 book' ∧ Sound config outcome.1 [] book'

/-- The fills are the trades since an earlier state: `trade_sequence` counts them and, if
there are any, `fills_buf` holds them. -/
def Made (engine after : MatchingEngine) (fills : List Fill) : Prop :=
  after.tradeSequence = engine.tradeSequence + fills.length ∧ (fills = [] ∨ after.fillsBuf = fills)

theorem Made.refl (engine : MatchingEngine) : Made engine engine [] :=
  ⟨rfl, Or.inl rfl⟩

theorem Made.addToBook {after : MatchingEngine} {fills : List Fill} (made : Made engine after fills)
    (order : Order) : Made engine (after.addToBook order).1 fills := by
  refine ⟨(tradeSequence_addToBook after order).trans made.1, made.2.imp_right fun noted => ?_⟩
  rw [fillsBuf_addToBook, noted]

theorem made_matchOrder {after : MatchingEngine}
    (matched : engine.matchOrder order = (after, .ok filled)) : Made engine after after.fillsBuf :=
  ⟨tradeSequence_matchOrder matched, Or.inr rfl⟩

/-- The outcome of executing an order is one of those of `Executes`, leaves a sound
engine and makes the fills. -/
def ExecutesSoundly (config : PoolConfig) (book : Book) (order : Order)
    (engine : MatchingEngine) (outcome : MatchingEngine × OrderResult PlaceOrderResult) :
    Prop :=
  ∃ fills book', book.Executes config order outcome.2 fills book' ∧
    Sound config outcome.1 [] book' ∧ engine.Made outcome.1 fills

/-- The rest of an order is queued after matching, or lost when a pool is full. -/
theorem Sound.executes_addToBook
    {after : MatchingEngine} {fills : List Fill} {want : Int} {levels : List Level}
    (sound : Sound config after [] (update book order.side.opposite levels))
    (unknown : order.id ∉ after.orders) (inRange : InI64 order.quantityLots)
    (mayRest : order.mayRest) (quiet : order.isPostOnly → ¬ book.Crosses order)
    (trades : Trades order.priceMatches order.quantityLots
      (book order.side.opposite) fills want levels)
    (settled : Settled order.priceMatches want levels) (left : 0 < want)
    (within : want ≤ order.quantityLots) (made : Made engine after fills) :
    ExecutesSoundly config book order engine
      ((after.addToBook { order with filledLots := order.quantityLots - want }).1,
        (after.addToBook { order with filledLots := order.quantityLots - want }).2.map
          fun _ => report order want
            (takerStatus order (order.quantityLots - want) .accepted) fills) := by
  have remaining : ({ order with filledLots := order.quantityLots - want }
      : Order).remainingLots = want :=
    Int.sub_sub_self _ _
  have ownSide : update book order.side.opposite levels order.side = book order.side :=
    update_of_ne (Side.opposite_ne order.side).symm _ _
  have counted := made.addToBook { order with filledLots := order.quantityLots - want }
  rcases Nat.lt_or_ge (Book.resting (update book order.side.opposite
      levels)).length config.orderCapacity with slot | noSlot
  · rcases sound.addToBook { order with filledLots := order.quantityLots - want } unknown slot
        (by rwa [remaining]) (show 0 ≤ order.quantityLots - want by omega) inRange with
      ⟨engine', added, -, room, sound'⟩ | ⟨engine', added, full, sound'⟩
    · simp only [remaining, ownSide] at room sound'
      rw [added] at counted ⊢
      exact ⟨fills, _, .rested mayRest quiet trades settled left slot room, sound', counted⟩
    · simp only [ownSide] at full
      rw [added] at counted ⊢
      exact ⟨fills, _, .lost mayRest quiet trades settled left (Or.inl ⟨rfl, full⟩), sound',
        counted⟩
  · rw [sound.addToBook_of_full { order with filledLots := order.quantityLots - want } unknown
      noSlot]
    exact ⟨fills, _, .lost mayRest quiet trades settled left (Or.inr ⟨rfl, noSlot⟩), sound, made⟩

section

variable (sound : Sound config engine [] book)
include sound

theorem Sound.handleImmediate (unknown : order.id ∉ engine.orders)
    (immediate : order.isMarket = true ∨ order.timeInForce = .ioc) :
    ExecutesSoundly config book order engine (engine.handleImmediate order) := by
  obtain ⟨engine', fills, want, levels, matched, noted, trades, settled, sound', -⟩ :=
    sound.matchOrder unknown
  have notFok : ¬ order.isFok := by
    rintro ⟨limit, fok⟩
    simp [limit, fok] at immediate
  have notPostOnly : ¬ order.isPostOnly := by
    rintro ⟨limit, postOnly⟩
    simp [limit, postOnly] at immediate
  have leaves : ¬ order.mayRest := by
    rintro ⟨limit, gtc | postOnly⟩
    · simp [limit, gtc] at immediate
    · simp [limit, postOnly] at immediate
  have result : engine.handleImmediate order = (engine', .ok (report order want
      (takerStatus order (order.quantityLots - want) .rejected) fills)) := by
    simp [MatchingEngine.handleImmediate, matched, noted, report]
  have swept := @Executes.swept config book order fills want levels notPostOnly
    (fun fok => absurd fok notFok) trades settled (Or.inr leaves)
  rw [if_neg notFok] at swept
  rw [result]
  exact ⟨fills, _, swept, sound', noted ▸ made_matchOrder matched⟩

theorem Sound.canFillFok_iff : engine.canFillFok order = true ↔ book.Fillable order := by
  rw [canFillFok, (sound.sides order.side.opposite).models.hasCumulativeQuantityUntil_eq]
  rfl

theorem Sound.handleFok (unknown : order.id ∉ engine.orders) (fok : order.isFok) :
    ExecutesSoundly config book order engine (engine.handleFok order) := by
  have canFill : engine.canFillFok order = true ↔ book.Fillable order := sound.canFillFok_iff
  by_cases fillable : book.Fillable order
  · obtain ⟨engine', fills, want, levels, matched, noted, trades, settled, sound', -⟩ :=
      sound.matchOrder unknown
    have notPostOnly : ¬ order.isPostOnly := by
      rintro ⟨-, postOnly⟩
      simp [fok.2] at postOnly
    have leaves : ¬ order.mayRest := by
      rintro ⟨-, gtc | postOnly⟩
      · simp [fok.2] at gtc
      · simp [fok.2] at postOnly
    have result : engine.handleFok order = (engine', .ok (report order want .filled fills)) := by
      simp [MatchingEngine.handleFok, canFill.mpr fillable, matched, noted, report]
    have swept := @Executes.swept config book order fills want levels notPostOnly
      (fun _ => fillable) trades settled (Or.inr leaves)
    rw [if_pos fok] at swept
    rw [result]
    exact ⟨fills, _, swept, sound', noted ▸ made_matchOrder matched⟩
  · have cannot : engine.canFillFok order = false := by
      rw [Bool.eq_false_iff]
      exact fun can => fillable (canFill.mp can)
    have result : engine.handleFok order = (engine, .ok (untouched order .rejected)) := by
      simp [MatchingEngine.handleFok, cannot]
    rw [result]
    exact ⟨[], _, .rejected (Or.inr ⟨fok, fillable⟩), sound, .refl engine⟩

theorem Sound.wouldMatch_iff (limit : order.isMarket = false) :
    engine.wouldMatch order = true ↔ book.Crosses order := by
  have best := (sound.sides order.side.opposite).models.best_price
  unfold wouldMatch bestPriceTicks
  rw [best]
  cases levelsEq : book order.side.opposite with
  | nil => simp [Crosses, levelsEq]
  | cons level worse =>
    have crossesIff : book.Crosses order ↔ order.priceMatches level.price = true := by
      simp [Crosses, levelsEq]
    rw [crossesIff]
    cases sideEq : order.side <;> simp [Order.priceMatches, limit, sideEq]

theorem Sound.handlePostOnly (unknown : order.id ∉ engine.orders) (sized : 0 < order.quantityLots)
    (constructed : order.filledLots = 0) (inRange : InI64 order.quantityLots)
    (postOnly : order.isPostOnly) :
    ExecutesSoundly config book order engine (engine.handlePostOnly order) := by
  have matches_iff := sound.wouldMatch_iff postOnly.1
  by_cases crosses : book.Crosses order
  · have result : engine.handlePostOnly order = (engine, .ok (untouched order .rejected)) := by
      simp [MatchingEngine.handlePostOnly, matches_iff.mpr crosses]
    rw [result]
    exact ⟨[], _, .rejected (Or.inl ⟨postOnly, crosses⟩), sound, .refl engine⟩
  · have quiet : engine.wouldMatch order = false := by
      rw [Bool.eq_false_iff]
      exact fun wouldMatch => crosses (matches_iff.mp wouldMatch)
    have settled : Settled order.priceMatches order.quantityLots
        (book order.side.opposite) := by
      right
      intro level mem
      rw [Bool.eq_false_iff]
      exact fun accepted => crosses ⟨level, mem, accepted⟩
    have whole : ({ order with filledLots := order.quantityLots - order.quantityLots }
        : Order) = order := by
      rw [Int.sub_self, ← constructed]
    have noFill : takerStatus order 0 .accepted = .accepted := by
      unfold takerStatus
      rw [if_neg (by omega), if_neg (by omega)]
    have executes := @Sound.executes_addToBook config engine book order engine [] _ _
      (by rwa [update_eq_self]) unknown inRange ⟨postOnly.1, Or.inr postOnly.2⟩
      (fun _ => crosses) (.none _ _) settled sized le_rfl (.refl engine)
    rw [whole] at executes
    rw [MatchingEngine.handlePostOnly, quiet]
    generalize engine.addToBook order = added at executes ⊢
    obtain ⟨after, answer⟩ := added
    cases answer with
    | error error => exact executes
    | ok => simpa [report, noFill, untouched, Except.map] using executes

theorem Sound.handleGtc (unknown : order.id ∉ engine.orders) (inRange : InI64 order.quantityLots)
    (limit : order.isMarket = false) (gtc : order.timeInForce = .gtc) :
    ExecutesSoundly config book order engine (engine.handleGtc order) := by
  obtain ⟨engine', fills, want, levels, matched, noted, trades, settled, sound', unknown'⟩ :=
    sound.matchOrder unknown
  have counted := made_matchOrder matched
  rw [noted] at counted
  have notPostOnly : ¬ order.isPostOnly := by simp [Order.isPostOnly, gtc]
  have notFok : ¬ order.isFok := by simp [Order.isFok, gtc]
  have mayRest : order.mayRest := ⟨limit, Or.inl gtc⟩
  by_cases left : 0 < want
  · have wantLe := (trades.fills_positive (sound.positive _)).2
    have unfilled : order.quantityLots - want < order.quantityLots := by omega
    have executes := sound'.executes_addToBook unknown' inRange mayRest
      (fun postOnly => absurd postOnly notPostOnly) trades settled left wantLe counted
    have keptFills := @fillsBuf_addToBook engine'
      { order with filledLots := order.quantityLots - want }
    rw [noted] at keptFills
    simp only [MatchingEngine.handleGtc, matched, unfilled, if_true]
    generalize engine'.addToBook { order with filledLots := order.quantityLots - want } = rested
      at executes keptFills ⊢
    obtain ⟨after, answer⟩ := rested
    cases answer with
    | error error => exact executes
    | ok =>
      rw [show after.fillsBuf = fills from keptFills]
      exact executes
  · have filled : ¬ order.quantityLots - want < order.quantityLots := by omega
    have status : ∀ unfilled, takerStatus order (order.quantityLots - want) unfilled = .filled := by
      intro unfilled
      unfold takerStatus
      rw [if_pos (by omega)]
    have result : engine.handleGtc order = (engine', .ok (report order want
        (takerStatus order (order.quantityLots - want) .rejected) fills)) := by
      simp [MatchingEngine.handleGtc, matched, noted, filled, status, report]
    have swept := @Executes.swept config book order fills want levels notPostOnly
      (fun fok => absurd fok notFok) trades settled (Or.inl (by omega))
    rw [if_neg notFok] at swept
    rw [result]
    exact ⟨fills, _, swept, sound', counted⟩

theorem Sound.hasSpaceForOrder_iff :
    engine.pools.hasSpaceForOrder = true ↔
      book.resting.length < config.orderCapacity ∧ 0 < config.queueCapacity := by
  have allocated := sound.stored.allocated_eq_length
  have capacity := sound.orderCapacity
  rw [sound.keys_length] at allocated
  rw [Pools.hasSpaceForOrder, sound.queues]
  simp only [Bool.and_eq_true, decide_eq_true_eq, ObjectPool.availableCount, capacity]
  omega

/-- `place_order` does one of the things `Places` lists. -/
theorem Sound.placeOrder (constructed : order.filledLots = 0) (inRange : InI64 order.quantityLots) :
    PlacesSoundly config book order (engine.placeOrder order) := by
  unfold MatchingEngine.placeOrder validateOrder
  by_cases badPrice : order.isMarket = false ∧ order.priceTicks ≤ 0
  · simp only [badPrice.1, badPrice.2]
    exact ⟨_, .refused (.price badPrice), sound⟩
  · have priceTest : (!order.isMarket && decide (order.priceTicks ≤ 0)) = false := by
      cases market : order.isMarket <;> simp_all
    by_cases badQuantity : order.quantityLots ≤ 0
    · simp only [priceTest, badQuantity]
      exact ⟨_, .refused (.quantity badPrice badQuantity), sound⟩
    · simp only [priceTest, badQuantity]
      by_cases known : order.id ∈ engine.orders
      · rw [if_pos known]
        obtain ⟨resting, mem, same⟩ := sound.mem_orders_iff.mp known
        exact ⟨_, .refused (.duplicate badPrice (by omega) resting mem same), sound⟩
      · rw [if_neg known]
        by_cases space : engine.pools.hasSpaceForOrder = true
        · simp only [space]
          obtain ⟨slot, queues⟩ := sound.hasSpaceForOrder_iff.mp space
          have admitted : book.Admits config order :=
            { price := badPrice
              quantity := by omega
              fresh := fun resting mem same => known (sound.mem_orders_iff.mpr ⟨resting, mem, same⟩)
              slot := slot
              queues := queues }
          have cleared : Sound config { engine with affectedMakersBuf := [] } [] book :=
            ⟨sound.sides, sound.stored, sound.linked, sound.orderCapacity, sound.trades,
              sound.tradeCapacity, sound.queues⟩
          have places : ∀ {outcome}, ExecutesSoundly config book order
              { engine with affectedMakersBuf := [] } outcome →
                PlacesSoundly config book order outcome := by
            rintro outcome ⟨fills, book', executes, sound', -⟩
            exact ⟨book', executes.places admitted, sound'⟩
          cases market : order.isMarket with
          | true => exact places (cleared.handleImmediate known (Or.inl market))
          | false =>
            cases tif : order.timeInForce with
            | gtc => exact places (cleared.handleGtc known inRange market tif)
            | ioc => exact places (cleared.handleImmediate known (Or.inr tif))
            | fok => exact places (cleared.handleFok known ⟨market, tif⟩)
            | postOnly =>
              exact places (cleared.handlePostOnly known admitted.quantity constructed
                inRange ⟨market, tif⟩)
        · have noSpace : engine.pools.hasSpaceForOrder = false := by simpa using space
          simp only [noSpace]
          rw [sound.hasSpaceForOrder_iff] at space
          exact ⟨_, .refused (.exhausted (by omega)), sound⟩

end

/-! ## Cancelling an order -/

section

variable (sound : Sound config engine [] book)
include sound

theorem Sound.ids_nodup : (book.resting.map (·.orderId)).Nodup :=
  sound.linked.ids.nodup engine.orders.keys_nodup

theorem Sound.side_ids_nodup (side : Side) :
    ((Ladder.resting side (book side)).map (·.orderId)).Nodup := by
  have distinct := sound.ids_nodup
  rw [((resting_perm book side).map (·.orderId)).nodup_iff, map_append] at distinct
  exact distinct.of_append_left

/-- The orders after one was taken out. -/
theorem Sound.resting_update_drop {resting : Resting} (mem : resting ∈ book.resting) :
    book.resting ~ resting :: Book.resting (update book resting.side
      (drop resting.price resting.orderId (book resting.side))) := by
  obtain ⟨before, after, whole, dropped⟩ :=
    Ladder.exists_drop_split (sound.sides resting.side).sorted
      (sound.side_ids_nodup resting.side) (mem_resting.mp mem)
  have removed : Ladder.resting resting.side (book resting.side) ~ resting ::
      Ladder.resting resting.side
        (drop resting.price resting.orderId (book resting.side)) := by
    rw [whole, dropped]
    exact perm_middle
  refine (resting_perm book resting.side).trans ?_
  refine (removed.append_right _).trans ?_
  exact (Book.resting_update book resting.side _).symm.cons _

/-- `cancel_order` does one of the things `Cancels` lists. -/
theorem Sound.cancelOrder (orderId : Nat) :
    ∃ book', book.Cancels orderId (engine.cancelOrder orderId).2 book' ∧
      Sound config (engine.cancelOrder orderId).1 [] book' := by
  by_cases known : orderId ∈ engine.orders
  · obtain ⟨resting, mem, rfl⟩ := sound.mem_orders_iff.mp known
    have linked := sound.linked.perm (sound.resting_update_drop mem)
    obtain ⟨order, present, asStored⟩ := linked.stored resting mem_cons_self
    obtain ⟨slot, -, atSlot, -⟩ := sound.stored.exists_order known
    have sideSound := sound.sides resting.side
    obtain ⟨level, entry, front, back, found, split, -, restingEq⟩ :=
      Ladder.exists_queue_split sideSound.sorted (sound.side_ids_nodup resting.side)
        (mem_resting.mp mem)
    have queued : resting.orderId ∈ level.queue.map (·.orderId) := by
      rw [restingEq, split]
      simp
    obtain ⟨list, removed, models, frame⟩ := sideSound.models.dropOrder found queued
    have dropEq : (engine.book resting.side).dropOrder resting.price resting.orderId =
        list.dropEmptyLevel resting.price true := by
      simp [SkipList.dropOrder, removed]
    have notFilled : order.isFilled = false := by
      have positive := asStored.positive
      have lots := asStored.lots
      simp only [Order.isFilled, decide_eq_false_iff_not]
      omega
    have atBook : engine.removeFromBook resting.orderId =
        (engine.setBook resting.side
          ((engine.book resting.side).dropOrder resting.price resting.orderId), .ok ()) := by
      simp only [removeFromBook, show engine.getOrder resting.orderId = some order from present,
        asStored.side, asStored.price, removed, dropEq]
    have result : engine.cancelOrder resting.orderId =
        ((engine.setBook resting.side
          ((engine.book resting.side).dropOrder resting.price resting.orderId)).forget
            resting.orderId,
          .ok { orderId := resting.orderId, cancelledQuantity := resting.lots }) := by
      simp [MatchingEngine.cancelOrder,
        show engine.getOrder resting.orderId = some order from present, notFilled, atBook,
        asStored.lots]
    have forgotten := forget_of_lookup (show (engine.setBook resting.side
      ((engine.book resting.side).dropOrder resting.price resting.orderId)).orders.lookup
        resting.orderId = some slot by simpa using atSlot)
    obtain ⟨erased, readErased⟩ := sound.stored.erase atSlot
    rw [result]
    refine ⟨_, .removed resting mem rfl, ?_⟩
    have dropped := sound.setSide (sideSound.step models frame
      (Ladder.prices_drop_sublist _ _ _) sideSound.occupied.drop)
    rw [forgotten]
    exact
      { sides := by
          intro side
          have sideDropped := dropped side
          rw [← book_setBook] at sideDropped
          exact sideDropped
        stored := by simpa using erased
        linked := by simpa using linked.drop engine.orders.keys_nodup readErased
        orderCapacity := by simpa using sound.orderCapacity
        trades := by simpa using sound.trades
        tradeCapacity := by simpa using sound.tradeCapacity
        queues := by simpa using sound.queues }
  · have missing : engine.getOrder orderId = none := by
      simp [getOrder, AList.lookup_eq_none.mpr known]
    have result : engine.cancelOrder orderId = (engine, .error .orderNotFound) := by
      simp [MatchingEngine.cancelOrder, missing]
    rw [result]
    refine ⟨book, .unknown ?_, sound⟩
    intro resting mem same
    exact known (sound.mem_orders_iff.mpr ⟨resting, mem, same⟩)

end

end MatchingEngine
end LightningX.Matching
