import LightningX.Matching.Engine.Invariant

/-!
# Matching

The two loops of `match_order` perform trades of the abstract book until
nothing is left to trade, and keep the engine sound.
-/

namespace LightningX.Matching

open List Ladder Function Option MatchingEngine

namespace MatchingEngine

variable {config : PoolConfig} {engine : MatchingEngine} {trades : List Nat} {book : Book}
  {side : Side} {orderId index : Nat} {lots : Int} {entry : Entry} {worse : List Level}
  {rest : List Entry}

theorem fillResting_of_not_mem (unknown : orderId ∉ engine.orders) :
    engine.fillResting orderId lots = engine := by
  simp [fillResting, AList.lookup_eq_none.mpr unknown]

theorem fillResting_of_lookup (found : engine.orders.lookup orderId = some index) :
    engine.fillResting orderId lots =
      { engine with
        pools.orders := engine.pools.orders.modify index fun order => order.fill lots } := by
  simp [fillResting, found]

theorem forget_of_lookup (found : engine.orders.lookup orderId = some index) :
    engine.forget orderId =
      { engine with
        orders := engine.orders.erase orderId
        pools.orders := engine.pools.orders.release index } := by
  simp [forget, found]

/-- The engine after the updates of a trade, up to its trade slot. -/
structure Applied (engine engine' : MatchingEngine) (side : Side) (fill : Fill)
    (slot : Nat) : Prop where
  book : engine'.book = update engine.book side
    ((engine.book side).reduceOrderQuantityAtLevel fill.priceTicks fill.makerId fill.lots).1
  orders : engine'.orders = engine.orders
  pool : engine'.pools.orders = engine.pools.orders.modify slot fun order => order.fill fill.lots
  queues : engine'.pools.queues = engine.pools.queues
  fillsBuf : engine'.fillsBuf = engine.fillsBuf ++ [fill]

theorem applied_applyFill
    (unknown : order.id ∉ engine.orders) (atSlot : engine.orders.lookup fill.makerId = some slot) :
    Applied engine (engine.applyFill order fill) order.side.opposite fill slot ∧
      (engine.applyFill order fill).pools.trades = engine.pools.trades := by
  have notKnown : order.id ∉ (engine.noteFill fill).orders := unknown
  have known : (engine.noteFill fill).orders.lookup fill.makerId = some slot := atSlot
  unfold applyFill
  simp only [fillResting_of_not_mem notKnown, fillResting_of_lookup known]
  refine ⟨⟨?_, ?_, ?_, ?_, ?_⟩, ?_⟩ <;> simp [noteFill]
  rfl

/-- The front order of the best level and the other orders of the book. -/
theorem resting_front (best : book side = level :: worse) (front : level.queue = entry :: rest) :
    book.resting ~
      { orderId := entry.orderId, side := side, price := level.price,
        lots := entry.lots } ::
        ((resting side (level :: worse)).tail ++
          resting side.opposite (book side.opposite)) := by
  refine (Book.resting_perm book side).trans ?_
  rw [best]
  simp [Level.resting, front]

/-- The book after a trade of `lots` with the front order of a side. -/
theorem resting_update_hit (front : level.queue = entry :: rest) (lots : Int) :
    Book.resting (update book side (hit lots (level :: worse))) ~
      (if entry.lots = lots then []
       else [{ orderId := entry.orderId, side := side, price := level.price,
               lots := entry.lots - lots }]) ++
        ((resting side (level :: worse)).tail ++
          resting side.opposite (book side.opposite)) := by
  refine (Book.resting_update book side _).trans ?_
  rw [resting_hit front, append_assoc]

/-- A sound engine in the middle of a trade is sound again when the maker, if
filled, has left. -/
theorem Sound.retireFilled
    (sound : Sound config engine trades book) (best : book side = level :: worse)
    (front : level.queue = entry :: rest) (atSlot : engine.orders.lookup entry.orderId = some slot)
    (positive : 0 < lots) (atMost : lots ≤ entry.lots)
    (applied : Applied engine engine' side
      { makerId := entry.orderId, priceTicks := level.price, lots := lots } slot)
    (ownsTrades : engine'.pools.trades.Owns trades')
    (tradeCapacity : engine'.pools.trades.capacity = config.orderCapacity) :
    Sound config (engine'.retireFilled side level.price entry.orderId) trades'
        (update book side (hit lots (level :: worse))) ∧
      (engine'.retireFilled side level.price entry.orderId).fillsBuf = engine'.fillsBuf := by
  have distinct := engine.orders.keys_nodup
  have linked := sound.linked.perm (resting_front best front)
  obtain ⟨maker, present, asStored⟩ := linked.stored _ mem_cons_self
  have inRange : entry.lots ≤ i64Max := asStored.lots_le
  have remaining : maker.remainingLots = entry.lots := asStored.lots
  have entryPositive : 0 < entry.lots := asStored.positive
  have nonneg := asStored.filled
  obtain ⟨modified, readSelf, readOthers⟩ := sound.stored.modify atSlot fun order => order.fill lots
  rw [show engine.orders.read engine.pools.orders entry.orderId = some maker from present,
    map_some] at readSelf
  have found : engine'.getOrder entry.orderId = some (maker.fill lots) := by
    rw [← readSelf]
    simp only [getOrder, applied.orders, applied.pool]
    rfl
  have sideSound := sound.sides side
  rw [best] at sideSound
  have occupied := sideSound.occupied.hit lots
  have fewer := prices_hit_sublist lots (level :: worse)
  by_cases isFilled : entry.lots = lots
  · subst isFilled
    obtain ⟨list, reduced, models, frame⟩ := sideSound.models.hit_of_eq front entryPositive inRange
    have leaves : (maker.fill entry.lots).isFilled = true := by
      simp only [Order.isFilled, Order.fill_remainingLots, decide_eq_true_eq]
      omega
    have known : (engine'.dropFromBook side level.price entry.orderId).orders.lookup
        entry.orderId = some slot := by
      rw [dropFromBook, orders_setBook, applied.orders]
      exact atSlot
    have retired : engine'.retireFilled side level.price entry.orderId =
        { engine'.dropFromBook side level.price entry.orderId with
          orders := engine'.orders.erase entry.orderId
          pools.orders := engine'.pools.orders.release slot } := by
      simp only [MatchingEngine.retireFilled, found, leaves]
      rw [forget_of_lookup known]
      simp [dropFromBook]
    have books : engine'.book side = list := by rw [applied.book, update_self, reduced]
    obtain ⟨erased, readErased⟩ := modified.erase atSlot
    rw [retired]
    refine ⟨?_, by simp [dropFromBook]⟩
    refine
      { sides := ?_, stored := ?_, linked := ?_, orderCapacity := ?_
        trades := by simpa [dropFromBook] using ownsTrades
        tradeCapacity := by simpa [dropFromBook] using tradeCapacity
        queues := ?_ }
    · have allBooks : (engine'.dropFromBook side level.price entry.orderId).book =
          update engine.book side (list.dropOrder level.price entry.orderId) := by
        rw [dropFromBook, book_setBook, books, applied.book, update_idem]
      intro other
      have sound' := sound.setSide (sideSound.step models frame fewer occupied) other
      rw [← allBooks] at sound'
      exact sound'
    · simp only [applied.orders, applied.pool]
      exact erased
    · simp only [applied.orders, applied.pool]
      refine Linked.perm ?_ (resting_update_hit front entry.lots).symm
      rw [if_pos rfl, AList.keys_erase]
      exact linked.drop distinct fun id ne => (readErased id ne).trans (readOthers id ne)
    · simp only [applied.pool]
      exact sound.orderCapacity
    · simpa [dropFromBook, applied.queues] using sound.queues
  · obtain ⟨list, reduced, models, frame⟩ :=
      sideSound.models.hit_of_lt front positive (by omega) inRange
    have stays : (maker.fill lots).isFilled = false := by
      simp only [Order.isFilled, Order.fill_remainingLots, decide_eq_false_iff_not]
      omega
    have unchanged : engine'.retireFilled side level.price entry.orderId = engine' := by
      simp [MatchingEngine.retireFilled, found, stays]
    rw [unchanged]
    refine ⟨?_, rfl⟩
    have books : engine'.book = update engine.book side list := by rw [applied.book, reduced]
    refine
      { sides := ?_, stored := ?_, linked := ?_, orderCapacity := ?_
        trades := ownsTrades, tradeCapacity := tradeCapacity, queues := ?_ }
    · rw [books]
      exact sound.setSide (sideSound.step models frame fewer occupied)
    · rw [applied.orders, applied.pool]
      exact modified
    · rw [applied.orders, applied.pool]
      refine Linked.perm ?_ (resting_update_hit front lots).symm
      rw [if_neg isFilled]
      refine linked.reduce distinct rfl readSelf ?_ readOthers
      exact ⟨asStored.id, asStored.side, asStored.price, by simp [remaining],
        show 0 < entry.lots - lots by omega, by simp; omega, asStored.inRange⟩
    · rw [applied.pool]
      exact sound.orderCapacity
    · rw [applied.queues]
      exact sound.queues

theorem Sound.executeTrade {loop : MatchLoop} {order counter : Order}
    (sound : Sound config loop.engine loop.tradeIndices book)
    (unknown : order.id ∉ loop.engine.orders) (best : book order.side.opposite = level :: worse)
    (front : level.queue = entry :: rest)
    (found : loop.engine.getOrder entry.orderId = some counter)
    (wanted : loop.filled < order.quantityLots)
    (room : loop.tradeIndices.length < config.orderCapacity) :
    ∃ loop', executeTrade order level.price entry.orderId counter loop = (loop', .ok ()) ∧
      Sound config loop'.engine loop'.tradeIndices
        (update book order.side.opposite
          (hit (min (order.quantityLots - loop.filled) entry.lots) (level :: worse))) ∧
      loop'.filled = loop.filled + min (order.quantityLots - loop.filled) entry.lots ∧
      loop'.tradeIndices.length = loop.tradeIndices.length + 1 ∧
      loop'.engine.fillsBuf = loop.engine.fillsBuf ++
        [{ makerId := entry.orderId, priceTicks := level.price,
           lots := min (order.quantityLots - loop.filled) entry.lots }] := by
  have linked := sound.linked.perm (resting_front best front)
  obtain ⟨stored, present, asStored⟩ := linked.stored _ mem_cons_self
  obtain rfl : stored = counter := some.inj (present.symm.trans found)
  have remaining : stored.remainingLots = entry.lots := asStored.lots
  have positive : 0 < entry.lots := asStored.positive
  obtain ⟨tradeLots, lotsEq⟩ : ∃ tradeLots,
      min (order.quantityLots - loop.filled) entry.lots = tradeLots := ⟨_, rfl⟩
  have lotsPositive : 0 < tradeLots := by omega
  have lotsLe : tradeLots ≤ entry.lots := by omega
  obtain ⟨slot, atSlot⟩ : ∃ slot, loop.engine.orders.lookup entry.orderId = some slot := by
    cases atId : loop.engine.orders.lookup entry.orderId with
    | none => simp [getOrder, atId] at found
    | some slot => exact ⟨slot, rfl⟩
  obtain ⟨tradePool, tradeIndex, acquired⟩ : ∃ tradePool tradeIndex,
      loop.engine.pools.trades.acquire = some (tradePool, tradeIndex) := by
    cases acquired : loop.engine.pools.trades.acquire with
    | none =>
      have full := (ObjectPool.acquire_eq_none_iff sound.trades).mp acquired
      rw [sound.tradeCapacity] at full
      omega
    | some pair => exact ⟨pair.1, pair.2, rfl⟩
  obtain ⟨ownsTrades, -, -, tradeCapacity⟩ := ObjectPool.acquire_spec sound.trades acquired
  let fill : Fill := { makerId := entry.orderId, priceTicks := level.price, lots := tradeLots }
  obtain ⟨applied, sameTrades⟩ :
      Applied loop.engine (loop.engine.applyFill order fill) order.side.opposite fill slot ∧
        (loop.engine.applyFill order fill).pools.trades = loop.engine.pools.trades :=
    applied_applyFill unknown atSlot
  have recorded : Applied loop.engine ((loop.engine.applyFill order fill).recordTrade
      order.id fill tradePool tradeIndex) order.side.opposite fill slot :=
    ⟨applied.book, applied.orders, applied.pool, applied.queues, applied.fillsBuf⟩
  obtain ⟨sound', fillsBuf⟩ := sound.retireFilled best front atSlot lotsPositive lotsLe
    recorded ((ownsTrades.modify tradeIndex _).perm (perm_append_singleton _ _))
    (tradeCapacity.trans sound.tradeCapacity)
  refine ⟨⟨((loop.engine.applyFill order fill).recordTrade order.id fill tradePool
      tradeIndex).retireFilled order.side.opposite level.price entry.orderId,
    loop.filled + tradeLots, loop.tradeIndices ++ [tradeIndex]⟩, ?_, ?_, ?_, ?_, ?_⟩
  · simp only [MatchingEngine.executeTrade, remaining, lotsEq]
    rw [show (loop.engine.applyFill order ⟨entry.orderId, level.price, tradeLots⟩).pools.trades
      = loop.engine.pools.trades from sameTrades, acquired]
  · rw [lotsEq]
    exact sound'
  · rw [lotsEq]
  · simp
  · rw [lotsEq, fillsBuf, recorded.fillsBuf]

/-- A sound engine inside `match_order`.  As long as lots are wanted there is a
free trade slot for every resting order. -/
structure MatchLoop.Sound (config : PoolConfig) (order : Order) (loop : MatchLoop)
    (book : Book) : Prop where
  sound : MatchingEngine.Sound config loop.engine loop.tradeIndices book
  unknown : order.id ∉ loop.engine.orders
  room : loop.filled < order.quantityLots →
    loop.tradeIndices.length + book.resting.length ≤ config.orderCapacity

/-- What a part of the matching loop does: it trades some of the wanted lots
with the opposite side and reports the fills. -/
def MatchLoop.Advances (config : PoolConfig) (order : Order) (loop : MatchLoop)
    (book : Book) (loop' : MatchLoop) (levels : List Level) : Prop :=
  ∃ fills, Trades order.priceMatches (order.quantityLots - loop.filled)
      (book order.side.opposite) fills (order.quantityLots - loop'.filled) levels ∧
    loop'.engine.fillsBuf = loop.engine.fillsBuf ++ fills ∧
    loop'.Sound config order (update book order.side.opposite levels)

variable {order : Order} {loop loop' loop'' : MatchLoop} {levels : List Level}

theorem MatchLoop.Sound.advances_refl (sound : loop.Sound config order book) :
    loop.Advances config order book loop (book order.side.opposite) :=
  ⟨[], .none _ _, by simp, by simpa using sound⟩

theorem MatchLoop.Advances.trans (first : loop.Advances config order book loop' levels)
    (second : loop'.Advances config order (update book order.side.opposite levels) loop'' levels') :
    loop.Advances config order book loop'' levels' := by
  obtain ⟨fills, trades, noted, -⟩ := first
  obtain ⟨fills', trades', noted', sound⟩ := second
  rw [update_self] at trades'
  rw [update_idem] at sound
  exact ⟨fills ++ fills', trades.append trades', by simp [noted', noted], sound⟩

/-- One iteration of the inner loop. -/
theorem MatchLoop.Sound.trade {level : Level} {worse : List Level} {entry : Entry}
    {rest : List Entry} {counter : Order} (sound : loop.Sound config order book)
    (best : book order.side.opposite = level :: worse) (front : level.queue = entry :: rest)
    (accepted : order.priceMatches level.price = true)
    (found : loop.engine.getOrder entry.orderId = some counter)
    (wanted : loop.filled < order.quantityLots) :
    ∃ loop', executeTrade order level.price entry.orderId counter loop = (loop', .ok ()) ∧
      loop.Advances config order book loop'
        (hit (min (order.quantityLots - loop.filled) entry.lots) (level :: worse)) ∧
      loop'.filled = loop.filled + min (order.quantityLots - loop.filled) entry.lots := by
  have resting := resting_front best front
  have bound := sound.room wanted
  rw [resting.length_eq, length_cons] at bound
  obtain ⟨loop', executed, sound', filled, tradeCount, noted⟩ :=
    sound.sound.executeTrade sound.unknown best front found wanted (by omega)
  refine ⟨loop', executed, ⟨_, ?_, noted, sound', ?_, ?_⟩, filled⟩
  · rw [best, filled, ← Int.sub_sub]
    exact .trade (by omega) accepted front (.none _ _)
  · have unknown := sound.unknown
    rw [sound.sound.mem_orders_iff] at unknown
    rw [sound'.mem_orders_iff]
    rintro ⟨other, mem, same⟩
    apply unknown
    rw [(resting_update_hit front _).mem_iff, mem_append] at mem
    rcases mem with changed | kept
    · refine ⟨_, resting.mem_iff.mpr mem_cons_self, ?_⟩
      split_ifs at changed
      · simp at changed
      · rw [mem_singleton.mp changed] at same
        exact same
    · exact ⟨other, resting.mem_iff.mpr (mem_cons_of_mem _ kept), same⟩
  · intro stillWanted
    have consumed : min (order.quantityLots - loop.filled) entry.lots = entry.lots := by omega
    have lengths : (Book.resting (update book order.side.opposite
        (hit entry.lots (level :: worse)))).length = _ :=
      (resting_update_hit front entry.lots).length_eq
    rw [if_pos rfl, nil_append] at lengths
    rw [consumed]
    omega

/-- The front order of the best level is known to the map and to the pool. -/
theorem Sound.exists_counter (sound : Sound config engine trades book)
    (best : book side = level :: worse) (front : level.queue = entry :: rest) :
    ∃ index counter, engine.orders.lookup entry.orderId = some index ∧
      engine.pools.orders.get index = some counter ∧ 0 < counter.remainingLots := by
  have linked := sound.linked.perm (resting_front best front)
  obtain ⟨counter, present, asStored⟩ := linked.stored _ mem_cons_self
  have remaining := asStored.lots
  have positive := asStored.positive
  cases found : engine.orders.lookup entry.orderId with
  | none => simp [OrderMap.read, found] at present
  | some index =>
    refine ⟨index, counter, rfl, ?_, by omega⟩
    simpa [OrderMap.read, found] using present

section

variable (sound : loop.Sound config order book)
include sound

/-- The inner loop trades until the taker is filled or the level is gone. -/
theorem MatchLoop.Sound.matchLevel {price : Int} {fuel : Nat}
    (accepted : order.priceMatches price = true)
    (atBest : (book order.side.opposite).head?.map (·.price) = some price ∨
      find price (book order.side.opposite) = none)
    (enough : loop.filled < order.quantityLots → ∀ level,
      find price (book order.side.opposite) = some level → level.queue.length < fuel) :
    ∃ loop' levels, matchLevel order price fuel loop = (loop', .ok ()) ∧
      loop.Advances config order book loop' levels ∧
      (order.quantityLots ≤ loop'.filled ∨ find price levels = none) := by
  induction fuel generalizing loop book with
  | zero =>
    refine ⟨loop, _, rfl, sound.advances_refl, ?_⟩
    by_cases wanted : loop.filled < order.quantityLots
    · right
      cases found : find price (book order.side.opposite) with
      | none => rfl
      | some level => exact absurd (enough wanted level found) (Nat.not_lt_zero _)
    · left
      omega
  | succ fuel ih =>
    by_cases wanted : loop.filled < order.quantityLots
    · have sideSound := sound.sound.sides order.side.opposite
      have frontEq := sideSound.models.frontOrderId_eq price
      have goOn : ¬ loop.filled ≥ order.quantityLots := by omega
      unfold matchLevel
      simp only [goOn, if_false]
      cases found : find price (book order.side.opposite) with
      | none =>
        rw [frontEq, found]
        exact ⟨loop, _, rfl, sound.advances_refl, Or.inr found⟩
      | some level =>
        have headPrice := atBest.resolve_right (by simp [found])
        obtain ⟨worse, best⟩ : ∃ worse, book order.side.opposite = level :: worse := by
          cases split : book order.side.opposite with
          | nil => simp [split] at headPrice
          | cons first worse =>
            have firstPrice : first.price = price := by simpa [split] using headPrice
            rw [split, find, List.find?_cons_of_pos (by simpa using firstPrice)] at found
            exact ⟨worse, by rw [some.inj found]⟩
        have levelPrice : level.price = price := by simpa [best] using headPrice
        subst levelPrice
        obtain ⟨entry, rest, front⟩ :=
          exists_cons_of_ne_nil (sideSound.occupied level (by simp [best]))
        obtain ⟨index, counter, known, inPool, positive⟩ := sound.sound.exists_counter best front
        have stored : loop.engine.getOrder entry.orderId = some counter := by
          simp [getOrder, known, inPool]
        obtain ⟨loop', executed, advances, filled⟩ := sound.trade best front accepted stored wanted
        have lasting : ¬ counter.remainingLots ≤ 0 := by omega
        rw [frontEq, found]
        simp only [bind_some, front, List.head?_cons, map_some, known,
          inPool, lasting, if_false, executed]
        have sorted := sideSound.sorted
        rw [best] at sorted
        have later := find_hit sorted (min (order.quantityLots - loop.filled) entry.lots)
        have shorter : loop'.filled < order.quantityLots → ∀ other,
            find level.price (hit
              (min (order.quantityLots - loop.filled) entry.lots) (level :: worse)) =
                some other → other.queue.length < fuel := by
          intro stillWanted other foundOther
          have consumed :
              min (order.quantityLots - loop.filled) entry.lots = entry.lots := by
            omega
          have length := enough wanted level found
          rw [front, length_cons] at length
          rcases later with ⟨-, same⟩ | gone
          · rw [same, consumed, some.injEq] at foundOther
            subst foundOther
            simp only [Level.hit, front, if_true]
            omega
          · rw [gone] at foundOther
            simp at foundOther
        obtain ⟨-, -, -, sound'⟩ := id advances
        obtain ⟨loop'', levels, matched, advances', finished⟩ :=
          ih sound' (by
            rw [update_self]
            exact later.imp And.left id) (by
            rw [update_self]
            exact shorter)
        exact ⟨loop'', levels, matched, advances.trans advances', finished⟩
    · refine ⟨loop, _, ?_, sound.advances_refl, Or.inl (by omega)⟩
      have finished : loop.filled ≥ order.quantityLots := by omega
      simp [matchLevel, finished]

/-- Reading the best price changes the cache only. -/
theorem MatchLoop.Sound.getBestPrice :
    ∃ list, (loop.engine.book order.side.opposite).getBestPriceCached =
        (list, (book order.side.opposite).head?.map (·.price)) ∧
      list.Models (book order.side.opposite) 0 ∧
      ({ loop with engine := loop.engine.setBook order.side.opposite list }
        : MatchLoop).Sound config order book := by
  have sideSound := sound.sound.sides order.side.opposite
  obtain ⟨cached, read, cache⟩ :=
    sideSound.models.getBestPriceCached sideSound.occupied sideSound.cache
  have models := sideSound.models.setBestPrice cached
  refine ⟨_, read, models, ?_, ?_, sound.room⟩
  · have refreshed : SideSound config order.side.opposite _ _ :=
      ⟨models, sideSound.order, sideSound.capacity, cache, sideSound.occupied⟩
    have changed := sound.sound.setSide refreshed
    have inner := sound.sound
    exact
      { sides := by simpa using changed
        stored := by simpa using inner.stored
        linked := by simpa using inner.linked
        orderCapacity := by simpa using inner.orderCapacity
        trades := by simpa using inner.trades
        tradeCapacity := by simpa using inner.tradeCapacity
        queues := by simpa using inner.queues }
  · simpa using sound.unknown

/-- The outer loop trades until nothing is left to trade. -/
theorem MatchLoop.Sound.matchLevels {fuel : Nat}
    (enough : loop.filled < order.quantityLots → (book order.side.opposite).length < fuel) :
    ∃ loop' levels, matchLevels order fuel loop = (loop', .ok ()) ∧
      loop.Advances config order book loop' levels ∧
      Settled order.priceMatches (order.quantityLots - loop'.filled) levels := by
  induction fuel generalizing loop book with
  | zero =>
    refine ⟨loop, _, rfl, sound.advances_refl, Or.inl ?_⟩
    by_contra wanted
    exact absurd (enough (by omega)) (Nat.not_lt_zero _)
  | succ fuel ih =>
    by_cases wanted : loop.filled < order.quantityLots
    · have goOn : ¬ loop.filled ≥ order.quantityLots := by omega
      obtain ⟨list, read, models, sound'⟩ := sound.getBestPrice
      have refreshed : loop.Advances config order book
          { loop with engine := loop.engine.setBook order.side.opposite list }
          (book order.side.opposite) :=
        ⟨[], .none _ _, by simp, by simpa using sound'⟩
      unfold matchLevels
      simp only [goOn, if_false, read]
      cases levelsEq : book order.side.opposite with
      | nil =>
        rw [levelsEq] at refreshed
        exact ⟨_, _, rfl, refreshed, Or.inr (by simp)⟩
      | cons level worse =>
        have found : find level.price (book order.side.opposite) = some level := by
          simp [levelsEq, find]
        have present : (list.getNodeAtPrice level.price).isSome = true := by
          rw [models.getNodeAtPrice_isSome, found]
          rfl
        simp only [List.head?_cons, map_some, present, Bool.true_and]
        by_cases accepted : order.priceMatches level.price = true
        · rw [if_pos accepted]
          have queueFits : loop.filled < order.quantityLots → ∀ other,
              find level.price (book order.side.opposite) = some other →
                other.queue.length < list.listPool.nodes.length + 1 := by
            intro _ other foundOther
            rw [found] at foundOther
            cases foundOther
            exact Nat.lt_succ_of_le (models.queue_length_le (by simp [levelsEq]))
          obtain ⟨loop', levels, matched, advances, finished⟩ :=
            sound'.matchLevel accepted (Or.inl (by simp [levelsEq])) queueFits
          obtain ⟨fills, trades, -, sound''⟩ := id advances
          have shorter : loop'.filled < order.quantityLots → levels.length < fuel := by
            intro stillWanted
            have gone := finished.resolve_left (by omega)
            have less := trades.length_lt (by simp [levelsEq]) gone
            have bound := enough wanted
            omega
          obtain ⟨loop'', levels', matched', advances', settled⟩ :=
            ih sound'' (by rwa [update_self])
          rw [matched]
          refine ⟨loop'', levels', matched', refreshed.trans ?_, settled⟩
          rw [update_eq_self]
          exact advances.trans advances'
        · rw [if_neg accepted]
          rw [levelsEq] at refreshed
          refine ⟨_, _, rfl, refreshed, Or.inr ?_⟩
          simpa using accepted
    · have finished : loop.filled ≥ order.quantityLots := by omega
      refine ⟨loop, _, ?_, sound.advances_refl, Or.inl (by omega)⟩
      simp [matchLevels, finished]

end

/-- `match_order` trades with the opposite side until nothing is left to
trade. -/
theorem Sound.matchOrder
    (sound : Sound config engine [] book) (unknown : order.id ∉ engine.orders) :
    ∃ engine' fills want levels,
      engine.matchOrder order = (engine', .ok (order.quantityLots - want)) ∧
      engine'.fillsBuf = fills ∧
      Trades order.priceMatches order.quantityLots (book order.side.opposite)
        fills want levels ∧
      Settled order.priceMatches want levels ∧
      Sound config engine' [] (update book order.side.opposite levels) ∧
      order.id ∉ engine'.orders := by
  have start : MatchLoop.Sound config order
      { engine := { engine with affectedMakersBuf := [], fillsBuf := [] }
        filled := 0
        tradeIndices := [] } book :=
    ⟨⟨sound.sides, sound.stored, sound.linked, sound.orderCapacity, sound.trades,
        sound.tradeCapacity, sound.queues⟩, unknown,
      fun _ => by simpa using sound.resting_length_le⟩
  have enough : (book order.side.opposite).length <
      (engine.book order.side.opposite).arena.length + 1 :=
    Nat.lt_succ_of_lt (sound.sides order.side.opposite).models.length_lt
  obtain ⟨loop, levels, matched, ⟨fills, trades, noted, sound'⟩, settled⟩ :=
    start.matchLevels fun _ => enough
  have inUse : loop.engine.pools.trades.Owns (loop.tradeIndices ++ []) := by
    simpa using sound'.sound.trades
  obtain ⟨ownsTrades, tradeCapacity⟩ := inUse.releaseAll
  simp only [Int.sub_zero] at trades noted
  refine ⟨{ loop.engine with
      pools.trades := loop.tradeIndices.foldl ObjectPool.release
        loop.engine.pools.trades }, fills, order.quantityLots - loop.filled, levels,
    ?_, noted, trades, settled, ?_, sound'.unknown⟩
  · simp only [MatchingEngine.matchOrder]
    rw [matched, Int.sub_sub_self]
  · exact ⟨sound'.sound.sides, sound'.sound.stored, sound'.sound.linked,
      sound'.sound.orderCapacity, ownsTrades,
      tradeCapacity.trans sound'.sound.tradeCapacity, sound'.sound.queues⟩

end MatchingEngine
end LightningX.Matching
