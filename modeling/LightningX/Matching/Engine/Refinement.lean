import LightningX.Matching.Engine.Consistency
import LightningX.Matching.Reference

/-!
# The engine refines the reference matcher

With pools that are large enough and lots that fit in 64 bits, the engine and
the reference matcher answer every run of calls alike.
-/

namespace LightningX.Matching

open List Function MatchingEngine Side Ladder

variable {price : Int} {orderId : Nat}

theorem Order.priceMatches_iff :
    order.priceMatches price = true ↔ Reference.Accepts order price := by
  unfold Order.priceMatches Reference.Accepts
  cases order.side <;> simp

theorem Order.acceptable_eq (order : Order) (price : Int) :
    SkipList.acceptable order.priceTicks order.isMarket (order.side == .buy) price =
      order.priceMatches price := by
  unfold Order.priceMatches
  cases order.side <;> rfl

namespace Ladder

variable {accepts : Int → Bool} {want want' : Int} {levels levels' worse : List Level}
  {level : Level} {fills : List Fill} {side : Side} {lots : Int} {queue : List Entry}

/-- Behind a price that is not accepted no price is accepted. -/
def Closed (accepts : Int → Bool) (levels : List Level) : Prop :=
  (levels.map (·.price)).Pairwise fun better worse => accepts worse = true → accepts better = true

theorem Sorted.closed {order : Order} (sorted : Sorted order.side.opposite.sortOrder levels) :
    Closed order.priceMatches levels := by
  rw [Closed, pairwise_map]
  refine sorted.imp fun {better worse} before accepted => ?_
  rw [Order.priceMatches_iff] at accepted ⊢
  refine accepted.imp_right fun reached => ?_
  cases sideEq : order.side <;>
    simp only [sideEq, opposite, sortOrder, SortOrder.shouldInsert,
      decide_eq_true_eq] at before reached ⊢ <;>
    omega

/-- Orders are sorted by what they are worth to a taker. -/
theorem Sorted.rank_le (sorted : Sorted taker.opposite.sortOrder levels) :
    (resting side levels).Pairwise fun early late =>
      Reference.rank taker early.price ≤ Reference.rank taker late.price := by
  rw [resting, pairwise_flatMap]
  constructor
  · intro level _
    rw [Level.resting, pairwise_map]
    exact pairwise_of_forall fun _ _ => le_rfl
  · refine sorted.imp fun {better worse} before early earlyMember late lateMember => ?_
    obtain ⟨_, -, rfl⟩ := mem_map.mp earlyMember
    obtain ⟨_, -, rfl⟩ := mem_map.mp lateMember
    cases taker <;>
      simp only [opposite, sortOrder, SortOrder.shouldInsert, decide_eq_true_eq,
        Reference.rank] at before ⊢ <;>
      omega

/-- The orders of a ladder that a taker accepts. -/
def accepted (accepts : Int → Bool) (side : Side) (levels : List Level) : List Resting :=
  (resting side levels).filter fun resting => accepts resting.price

theorem accepted_cons :
    accepted accepts side (level :: worse) =
      (if accepts level.price then level.resting side else []) ++ accepted accepts side worse := by
  rw [accepted, resting_cons, filter_append]
  congr 1
  split_ifs with isAccepted
  · refine filter_eq_self.mpr fun resting mem => ?_
    obtain ⟨entry, -, rfl⟩ := mem_map.mp mem
    exact isAccepted
  · refine filter_eq_nil_iff.mpr fun resting mem => ?_
    obtain ⟨entry, -, rfl⟩ := mem_map.mp mem
    exact isAccepted

theorem Closed.accepted_eq_nil (closed : Closed accepts levels)
    (headRefused : ∀ level ∈ levels.head?, accepts level.price = false) :
    accepted accepts side levels = [] := by
  refine filter_eq_nil_iff.mpr fun order mem => ?_
  obtain ⟨level, levelMember, entry, -, rfl⟩ := mem_resting.mp mem
  cases levels with
  | nil => simp at levelMember
  | cons best worse =>
    have bestRefused := headRefused best (by simp)
    rcases mem_cons.mp levelMember with rfl | inWorse
    · simp [bestRefused]
    · intro isAccepted
      have bestAccepted := (pairwise_cons.mp closed).1 level.price
        (mem_map_of_mem inWorse) isAccepted
      simp [bestRefused] at bestAccepted

/-- Trades until nothing is left to trade take the accepted orders in turn. -/
theorem Trades.fills_eq (trades : Trades accepts want levels fills want' levels')
    (settled : Settled accepts want' levels') (closed : Closed accepts levels) (side : Side) :
    fills = Reference.consume want (accepted accepts side levels) := by
  induction trades with
  | none want levels =>
    rcases settled with done | headRefused
    · rw [Reference.consume_of_nonpos done]
    · rw [closed.accepted_eq_nil headRefused]
      rfl
  | @trade want level worse entry queue fills _ _ wanted isAccepted front _
      ih =>
      have closedAfter : Closed accepts (hit (min want entry.lots) (level :: worse)) :=
        List.Pairwise.sublist (prices_hit_sublist _ _) closed
      have before : accepted accepts side (level :: worse) =
          { orderId := entry.orderId, side := side, price := level.price,
            lots := entry.lots } ::
            (resting side (level :: worse)).tail.filter
              fun resting => accepts resting.price := by
        rw [accepted, resting_front front, filter_cons, if_pos isAccepted, tail_cons]
      rw [before, Reference.consume, if_neg (by omega),
        ih settled closedAfter, accepted, resting_hit front]
      congr 1
      split_ifs with consumed
      · rfl
      · have filled : want - min want entry.lots ≤ 0 := by omega
        rw [Reference.consume_of_nonpos filled, Reference.consume_of_nonpos filled]

/-- A trade, seen by the orders of the ladder. -/
theorem filterMap_afterFill_hit (front : level.queue = entry :: queue)
    (distinct : ((resting side (level :: worse)).map (·.orderId)).Nodup)
    (atMost : lots ≤ entry.lots) (price : Int) :
    (resting side (level :: worse)).filterMap (Reference.afterFill
        { makerId := entry.orderId, priceTicks := price, lots := lots }) =
      resting side (hit lots (level :: worse)) := by
  have others : ∀ other ∈ (resting side (level :: worse)).tail, other.orderId ≠ entry.orderId := by
    rw [resting_front front, map_cons, nodup_cons] at distinct
    intro other mem equal
    exact distinct.1 (mem_map.mpr ⟨other, mem, equal⟩)
  rw [resting_hit front, resting_front front, filterMap_cons,
    Reference.filterMap_afterFill_of_ne others]
  unfold Reference.afterFill
  by_cases consumed : entry.lots = lots
  · simp [consumed]
  · have more : ¬ entry.lots ≤ lots := by omega
    simp [consumed, more]

theorem orderIds_hit_sublist (front : level.queue = entry :: queue) (lots : Int) :
    ((resting side (hit lots (level :: worse))).map (·.orderId)).Sublist
      ((resting side (level :: worse)).map (·.orderId)) := by
  rw [resting_hit front, resting_front front]
  split_ifs
  · simp
  · simp

/-- Trades, seen by the orders of the ladder. -/
theorem Trades.settle_eq (trades : Trades accepts want levels fills want' levels')
    (distinct : ((resting side levels).map (·.orderId)).Nodup) :
    Reference.settle fills (resting side levels) = resting side levels' := by
  induction trades with
  | none => rfl
  | @trade want level worse entry queue fills _ _ _ _ front _ ih =>
    have later := ih (distinct.sublist (orderIds_hit_sublist front _))
    rw [← later, Reference.settle, foldl_cons, filterMap_afterFill_hit front distinct (by omega)]
    rfl

/-- Resting an order appends it to its queue. -/
theorem filter_rest (sorted : Sorted order levels) (atPrice : Int) :
    (resting side (rest order price orderId lots levels)).filter
        (fun resting => decide (resting.price = atPrice)) =
      (resting side levels).filter (fun resting => decide (resting.price = atPrice)) ++
        if price = atPrice then
          [{ orderId := orderId, side := side, price := price, lots := lots }]
        else [] := by
  obtain ⟨lower, level, upper, restEq, rfl, split⟩ := exists_rest_split price orderId lots sorted
  have before : resting side levels =
      resting side lower ++ (level.resting side ++ resting side upper) := by
    rcases split with rfl | ⟨isEmpty, rfl, -⟩
    · simp
    · rw [isEmpty]
      simp [Level.resting, Level.empty]
  have upperNe : ∀ other ∈ upper, other.price ≠ level.price := by
    rcases split with rfl | ⟨-, rfl, missing⟩
    · exact sorted.split_ne.2
    · exact fun other mem => find_eq_none_iff.mp missing other (by simp [mem])
  have pushed : (level.push orderId lots).resting side = level.resting side ++
      [{ orderId := orderId, side := side, price := level.price, lots := lots }] := by
    simp [Level.resting, Level.push]
  rw [restEq, before, resting_append, resting_cons, pushed]
  by_cases isPrice : level.price = atPrice
  · have noneBehind : (resting side upper).filter
        (fun resting => decide (resting.price = atPrice)) = [] := by
      refine filter_eq_nil_iff.mpr fun other mem => ?_
      obtain ⟨otherLevel, otherMember, entry, -, rfl⟩ := mem_resting.mp mem
      simpa [← isPrice] using upperNe otherLevel otherMember
    simp [noneBehind, isPrice]
  · simp [isPrice]

/-! ## Fill-or-kill -/

theorem lots_level (side : Side) (level : Level) :
    Reference.lots (level.resting side) = level.lots := by
  simp [Reference.lots, Level.resting, Level.lots, comp_def]

theorem lots_append (first second : List Resting) :
    Reference.lots (first ++ second) = Reference.lots first + Reference.lots second := by
  simp [Reference.lots]

theorem Counted.positive_resting (counted : Counted levels) :
    Reference.Positive (resting side levels) := by
  intro order mem
  obtain ⟨level, levelMember, entry, queued, rfl⟩ := mem_resting.mp mem
  exact (counted level levelMember).positive entry queued

/-- The lots that the walk over the levels adds up fit in 64 bits. -/
def SumFits (order : Order) : List Level → Int → Prop
  | [], _ => True
  | level :: worse, available =>
    order.priceMatches level.price = true → available + level.lots ≤ i64Max ∧
      (available + level.lots < order.quantityLots → SumFits order worse (available + level.lots))

instance SumFits.decide (order : Order) :
    (levels : List Level) → (available : Int) → Decidable (SumFits order levels available)
  | [], _ => inferInstanceAs (Decidable True)
  | level :: worse, available =>
    have := SumFits.decide order worse (available + level.lots)
    inferInstanceAs (Decidable (_ → _ ∧ (_ → _)))

/-- The walk compares the quantity with the lots of the accepted orders. -/
theorem hasCumulative_iff
    (counted : Counted levels) (closed : Closed order.priceMatches levels) (nonneg : 0 ≤ available)
    (short : available < order.quantityLots) (fits : SumFits order levels available) :
    hasCumulative order.quantityLots order.priceTicks order.isMarket (order.side == .buy)
        levels available = true ↔
      order.quantityLots ≤
        available + Reference.lots (accepted order.priceMatches side levels) := by
  induction levels generalizing available with
  | nil =>
    simp only [hasCumulative, accepted, resting_nil, filter_nil, Reference.lots,
      map_nil, sum_nil, Bool.false_eq_true, false_iff]
    omega
  | cons level worse ih =>
    have levelCounted := counted level (by simp)
    have worseCounted : Counted worse := fun other mem => counted other (by simp [mem])
    have levelNonneg : 0 ≤ level.lots := Level.lots_nonneg levelCounted.positive
    have acceptedNonneg : 0 ≤ Reference.lots (accepted order.priceMatches side worse) :=
      Reference.lots_nonneg fun resting mem =>
        worseCounted.positive_resting resting (mem_filter.mp mem).1
    by_cases isAccepted : order.priceMatches level.price = true
    · obtain ⟨sumFits, goesOn⟩ := fits isAccepted
      have total : wrapI64 (available + level.total) = available + level.lots := by
        rw [levelCounted.exact]
        exact wrapI64_of_le_max (by omega) sumFits
      rw [hasCumulative, Order.acceptable_eq, accepted_cons, lots_append]
      simp only [isAccepted, if_true, total, lots_level]
      split_ifs with reached
      · simp only [true_iff]
        omega
      · rw [ih worseCounted (pairwise_cons.mp closed).2 (by omega) (by omega) (goesOn (by omega))]
        omega
    · have nothing : accepted order.priceMatches side (level :: worse) = [] :=
        closed.accepted_eq_nil fun other isHead => by
          cases isHead
          simpa using isAccepted
      rw [nothing, hasCumulative, Order.acceptable_eq]
      simp only [isAccepted, Reference.lots, map_nil, sum_nil, Bool.false_eq_true,
        if_false, false_iff]
      omega

/-- The walk adds up no more than what rests. -/
theorem sumFits_of_resting (order : Order) (counted : Counted levels)
    (fits : available + Reference.lots (resting side levels) ≤ i64Max) :
    SumFits order levels available := by
  induction levels generalizing available with
  | nil => trivial
  | cons level worse ih =>
    have worseCounted : Counted worse := fun other mem => counted other (mem_cons_of_mem _ mem)
    have worseNonneg : 0 ≤ Reference.lots (resting side worse) :=
      Reference.lots_nonneg worseCounted.positive_resting
    rw [resting_cons, lots_append, lots_level] at fits
    exact fun _ => ⟨by omega, fun _ => ih worseCounted (by omega)⟩

end Ladder

/-! ## The book as a list of arrivals -/

namespace Book

open Reference

variable {book : Book} {side : Side} {levels : List Level} {queued : Resting}

theorem side_of_mem_resting {order : Resting} (mem : order ∈ Ladder.resting side levels) :
    order.side = side := by
  obtain ⟨level, -, entry, -, rfl⟩ := Ladder.mem_resting.mp mem
  rfl

/-- The orders of one side. -/
theorem resting_filter_side (book : Book) (side : Side) :
    book.resting.filter (fun resting => decide (resting.side = side)) =
      Ladder.resting side (book side) := by
  have own : ∀ side, (Ladder.resting side (book side)).filter
      (fun resting => decide (resting.side = side)) = Ladder.resting side (book side) :=
    fun side => filter_eq_self.mpr fun resting mem => by simpa using side_of_mem_resting mem
  have other : ∀ side, (Ladder.resting side (book side)).filter
      (fun resting => decide (resting.side = side.opposite)) = [] :=
    fun side => filter_eq_nil_iff.mpr fun resting mem => by
      simp [side_of_mem_resting mem, (opposite_ne side).symm]
  rw [resting, filter_append]
  cases side with
  | buy => rw [own .buy, show buy = sell.opposite from rfl, other .sell]; simp
  | sell => rw [own .sell, show sell = buy.opposite from rfl, other .buy]; simp

theorem resting_filter_queuedAt (book : Book) (side : Side) (price : Int) :
    book.resting.filter (queuedAt side price) =
      (Ladder.resting side (book side)).filter fun resting => decide (resting.price = price) := by
  rw [← resting_filter_side, filter_filter]
  refine filter_congr fun resting _ => ?_
  rw [queuedAt, ← Bool.decide_and, decide_eq_decide, and_comm]

theorem candidates_eq (sorted : Sorted order.side.opposite.sortOrder (book order.side.opposite)) :
    candidates order book.resting =
      accepted order.priceMatches order.side.opposite (book order.side.opposite) := by
  have crossing : book.resting.filter (fun resting =>
      decide (resting.side = order.side.opposite ∧ Accepts order resting.price)) =
      accepted order.priceMatches order.side.opposite (book order.side.opposite) := by
    rw [accepted, ← resting_filter_side, filter_filter]
    refine filter_congr fun resting _ => ?_
    rw [Bool.decide_and, Bool.and_comm]
    congr 1
    rw [Bool.eq_iff_iff, decide_eq_true_eq, Order.priceMatches_iff]
  rw [candidates, crossing]
  refine (StableSort.eq_sortByKey ?_ fun _ => rfl).symm
  exact sorted.rank_le.sublist filter_sublist

/-- Trades with one side, seen by the whole book. -/
theorem resting_update_settle {fills : List Fill}
    (own : settle fills (Ladder.resting side (book side)) = Ladder.resting side levels)
    (others : ∀ fill ∈ fills, ∀ resting ∈ Ladder.resting side.opposite (book side.opposite),
      resting.orderId ≠ fill.makerId) :
    settle fills book.resting = resting (update book side levels) := by
  have other := settle_of_ne others
  cases side with
  | buy =>
    rw [resting, settle_append, own]
    simpa [resting] using other
  | sell =>
    rw [resting, settle_append, own]
    simpa [resting] using other

theorem sameQueues_rest
    (sorted : Sorted side.sortOrder (book side)) (price : Int) (orderId : Nat) (lots : Int) :
    SameQueues
      (resting (update book side (Ladder.rest side.sortOrder price orderId lots (book side))))
      (book.resting ++
        [{ orderId := orderId, side := side, price := price, lots := lots }]) := by
  intro atSide atPrice
  rw [filter_append, resting_filter_queuedAt, resting_filter_queuedAt]
  by_cases same : atSide = side
  · subst same
    rw [update_self, Ladder.filter_rest sorted]
    congr 1
    simp [queuedAt, filter_cons]
  · rw [update_of_ne same]
    simp [queuedAt, Ne.symm same]

/-- With distinct identifiers, a filter takes out one order. -/
theorem filter_orderId_ne {after : List Resting}
    (distinct : ((before ++ queued :: after).map (·.orderId)).Nodup) :
    (before ++ queued :: after).filter
        (fun other => decide (other.orderId ≠ queued.orderId)) = before ++ after := by
  have moved : before ++ queued :: after ~ queued :: (before ++ after) := perm_middle
  rw [(moved.map (·.orderId)).nodup_iff, map_cons, nodup_cons] at distinct
  have others : ∀ other ∈ before ++ after, decide (other.orderId ≠ queued.orderId) = true := by
    intro other mem
    refine decide_eq_true fun equal => distinct.1 ?_
    exact mem_map.mpr ⟨other, mem, equal⟩
  rw [← filter_eq_self.mpr others]
  simp

theorem resting_update_drop_filter (sorted : Sorted queued.side.sortOrder (book queued.side))
    (distinct : (book.resting.map (·.orderId)).Nodup) (mem : queued ∈ book.resting) :
    resting (update book queued.side (Ladder.drop queued.price queued.orderId (book queued.side))) =
      book.resting.filter fun other => decide (other.orderId ≠ queued.orderId) := by
  have sideDistinct : ((Ladder.resting queued.side (book queued.side)).map (·.orderId)).Nodup := by
    rw [((resting_perm book queued.side).map (·.orderId)).nodup_iff, map_append] at distinct
    exact distinct.of_append_left
  obtain ⟨before, after, whole, dropped⟩ :=
    Ladder.exists_drop_split sorted sideDistinct (mem_resting.mp mem)
  cases sideEq : queued.side with
  | buy =>
    rw [sideEq] at whole dropped
    simp only [resting, whole, append_assoc, cons_append] at distinct ⊢
    rw [filter_orderId_ne distinct, update_self, dropped, update_of_ne (by decide), append_assoc]
  | sell =>
    rw [sideEq] at whole dropped
    simp only [resting, whole, ← append_assoc] at distinct ⊢
    rw [filter_orderId_ne distinct, update_self, dropped, update_of_ne (by decide), append_assoc]

/-! ## One call -/

/-- What the refinement needs to know of a book. -/
structure Regular (book : Book) : Prop where
  sorted : ∀ side, Sorted side.sortOrder (book side)
  occupied : ∀ side, Ladder.Occupied (book side)
  counted : ∀ side, Counted (book side)
  distinct : (book.resting.map (·.orderId)).Nodup

end Book

namespace Reference

/-- The pools have room for another order and the lots of each side fit in 64
bits. -/
structure Fits (config : PoolConfig) (book : List Resting) : Prop where
  slots : book.length < config.orderCapacity
  queues : ∀ side, (book.filter fun resting => decide (resting.side = side)).length <
    config.queueCapacity
  lots : ∀ side, lots (book.filter fun resting => decide (resting.side = side)) ≤ i64Max

instance (config : PoolConfig) (book : List Resting) : Decidable (Fits config book) :=
  decidable_of_iff
    (book.length < config.orderCapacity ∧
      (∀ side, (book.filter fun resting => decide (resting.side = side)).length <
        config.queueCapacity) ∧
      ∀ side, lots (book.filter fun resting => decide (resting.side = side)) ≤ i64Max)
    ⟨fun ⟨slots, queues, lots⟩ => ⟨slots, queues, lots⟩,
      fun fits => ⟨fits.slots, fits.queues, fits.lots⟩⟩

theorem Fits.perm (fits : Fits config first) (same : first ~ second) : Fits config second where
  slots := same.length_eq ▸ fits.slots
  queues := fun side => (same.filter _).length_eq ▸ fits.queues side
  lots := fun side => by
    have sameLots := ((same.filter fun resting => decide (resting.side = side)).map (·.lots)).sum_eq
    have firstLots := fits.lots side
    unfold Reference.lots at firstLots ⊢
    rwa [← sameLots]

theorem run_snoc (book : List Resting) (calls : List Call) (call : Call) :
    run book (calls ++ [call]) =
      ((step (run book calls).1 call).1,
        (run book calls).2 ++ [(step (run book calls).1 call).2]) := by
  induction calls generalizing book with
  | nil => rfl
  | cons first calls ih => simp only [cons_append, run, ih]

end Reference

namespace Book

open Reference

variable {config : PoolConfig} {book book' : Book} {order : Order}

section

variable (regular : book.Regular)
include regular

theorem Regular.positive : Positive book.resting := by
  intro resting mem
  exact (regular.counted resting.side).positive_resting resting (mem_resting.mp mem)

theorem Regular.crosses_iff : book.Crosses order ↔ candidates order book.resting ≠ [] := by
  rw [candidates_eq (regular.sorted _)]
  have closed := Sorted.closed (regular.sorted order.side.opposite)
  constructor
  · rintro ⟨level, isHead, accepted⟩ none
    obtain ⟨entry, queued⟩ := exists_mem_of_ne_nil _
      (regular.occupied _ level (mem_of_mem_head? isHead))
    have mem := Ladder.mem_resting_of_mem order.side.opposite
      (mem_of_mem_head? isHead) queued
    have isAccepted := filter_eq_nil_iff.mp none _ mem
    exact isAccepted accepted
  · intro some
    by_contra quiet
    refine some (closed.accepted_eq_nil fun level isHead => ?_)
    rw [Bool.eq_false_iff]
    exact fun accepted => quiet ⟨level, isHead, accepted⟩

theorem Regular.fillable_iff
    (fits : Fits config book.resting) (submitted : 0 < order.quantityLots) :
    book.Fillable order ↔ order.quantityLots ≤ lots (candidates order book.resting) := by
  have sideLots := fits.lots order.side.opposite
  rw [resting_filter_side] at sideLots
  rw [candidates_eq (regular.sorted _), Fillable,
    Ladder.hasCumulative_iff (regular.counted _) (Sorted.closed (regular.sorted _))
      le_rfl submitted (Ladder.sumFits_of_resting order (regular.counted _)
        (by rwa [zero_add])), zero_add]

/-- Trades of the book are those of the reference matcher, and so is their
effect. -/
theorem Regular.trades {fills : List Fill} {levels : List Level}
    (submitted : 0 < order.quantityLots)
    (trades : Ladder.Trades order.priceMatches order.quantityLots
      (book order.side.opposite) fills want levels)
    (settled : Ladder.Settled order.priceMatches want levels) :
    fills = Reference.fills order book.resting ∧
      traded fills = order.quantityLots - want ∧
      settle fills book.resting = resting (update book order.side.opposite levels) := by
  have fillsEq : fills = Reference.fills order book.resting := by
    rw [Reference.fills, candidates_eq (regular.sorted _)]
    exact trades.fills_eq settled (Sorted.closed (regular.sorted _)) _
  have conserved := trades.conserves
  refine ⟨fillsEq, by unfold traded; omega, resting_update_settle ?_ ?_⟩
  · refine trades.settle_eq ?_
    have distinct := regular.distinct
    rw [((resting_perm book order.side.opposite).map (·.orderId)).nodup_iff, map_append] at distinct
    exact distinct.of_append_left
  · rw [opposite_opposite, fillsEq]
    intro fill mem resting own sameId
    obtain ⟨maker, makerMember, makerId, makerSide, -⟩ :=
      (priceTime_fills submitted.le regular.positive).prices fill mem
    have restingSide := side_of_mem_resting own
    have restingMember : resting ∈ book.resting := mem_resting.mpr (by rwa [restingSide])
    have same := inj_on_of_nodup_map regular.distinct restingMember makerMember
      (sameId.trans makerId.symm)
    rw [← same, restingSide] at makerSide
    exact opposite_ne order.side makerSide.symm

/-- Placing an order refines the reference matcher. -/
theorem Regular.places
    (fits : Fits config book.resting) (places : book.Places config order result book') :
    result = (place order book.resting).2 ∧
      SameQueues book'.resting (place order book.resting).1 := by
  have queueRoom : (Ladder.entries (book order.side)).length < config.queueCapacity := by
    have room := fits.queues order.side
    rwa [resting_filter_side, Ladder.resting_length] at room
  have slotRoom := fits.slots
  have executes : book.Admits config order → place order book.resting =
      ((execute order book.resting).1, .ok (execute order book.resting).2) := by
    intro admitted
    refine place_eq_execute admitted.price admitted.quantity ?_
    rw [mem_map]
    rintro ⟨resting, mem, same⟩
    exact admitted.fresh resting mem same
  cases places with
  | refused reason =>
    cases reason with
    | price bad =>
      rw [place, if_pos bad]
      exact ⟨rfl, .refl _⟩
    | quantity priced bad =>
      rw [place, if_neg priced, if_pos bad]
      exact ⟨rfl, .refl _⟩
    | duplicate priced sized resting mem same =>
      have known : order.id ∈ book.resting.map (·.orderId) := mem_map.mpr ⟨resting, mem, same⟩
      rw [place, if_neg priced, if_neg (not_le.mpr sized), if_pos known]
      exact ⟨rfl, .refl _⟩
    | exhausted full => omega
  | rejected admitted reason =>
    have rejects : Rejects order book.resting := by
      refine reason.imp (fun crossing => ?_) fun short => ?_
      · exact ⟨crossing.1, regular.crosses_iff.mp crossing.2⟩
      · refine ⟨short.1, not_le.mp fun enough => short.2 ?_⟩
        exact (regular.fillable_iff fits admitted.quantity).mpr enough
    rw [executes admitted, execute, if_pos rejects]
    exact ⟨rfl, .refl _⟩
  | @swept fills want levels admitted notPostOnly fillable trades settled done =>
    obtain ⟨fillsEq, tradedEq, settleEq⟩ := regular.trades admitted.quantity trades settled
    have enough : order.isFok →
        order.quantityLots ≤ lots (candidates order book.resting) := fun fok =>
      (regular.fillable_iff fits admitted.quantity).mp (fillable fok)
    have executed : ¬ Rejects order book.resting := by
      rintro (⟨postOnly, -⟩ | ⟨fok, short⟩)
      · exact notPostOnly postOnly
      · exact absurd (enough fok) (not_le.mpr short)
    have statusEq : (if order.isFok then OrderStatus.filled
        else takerStatus order (order.quantityLots - want) .rejected) =
        status order (order.quantityLots - want) := by
      split_ifs with fok
      · have all := traded_consume admitted.quantity.le
          (regular.positive.candidates : Positive (candidates order book.resting))
        have offered := enough fok
        rw [show consume order.quantityLots (candidates order book.resting) = fills from
          fillsEq.symm] at all
        rw [status, if_pos (by omega)]
      · unfold takerStatus status
        rcases done with filled | stays
        · rw [if_pos (by omega), if_pos (by omega)]
        · rw [if_neg stays]
    have nothing : remainder order (order.quantityLots - want) = [] := by
      apply if_neg
      rintro ⟨mayRest, unfilled⟩
      rcases done with filled | stays
      · omega
      · exact stays mayRest
    rw [executes admitted, execute, if_neg executed, ← fillsEq, tradedEq, nothing,
      settleEq, statusEq, append_nil]
    exact ⟨rfl, .refl _⟩
  | @rested fills want levels admitted mayRest quiet trades settled left room =>
    obtain ⟨fillsEq, tradedEq, settleEq⟩ := regular.trades admitted.quantity trades settled
    have executed : ¬ Rejects order book.resting := by
      rintro (⟨postOnly, crossing⟩ | ⟨fok, -⟩)
      · exact quiet postOnly (regular.crosses_iff.mpr crossing)
      · have tif := mayRest.2
        simp [fok.2] at tif
    have statusEq : takerStatus order (order.quantityLots - want)
        .accepted = status order (order.quantityLots - want) := by
      unfold takerStatus status
      rw [if_pos mayRest]
    have rest : remainder order (order.quantityLots - want) =
        [{ orderId := order.id, side := order.side, price := order.priceTicks,
           lots := want }] := by
      rw [remainder, if_pos ⟨mayRest, by omega⟩, Int.sub_sub_self]
    have ownSide : update book order.side.opposite levels order.side = book order.side :=
      update_of_ne (opposite_ne order.side).symm _ _
    have queued := sameQueues_rest (ownSide ▸ regular.sorted order.side :
      Sorted order.side.sortOrder
        (update book order.side.opposite levels order.side))
      order.priceTicks order.id want
    rw [ownSide] at queued
    rw [executes admitted, execute, if_neg executed, ← fillsEq, tradedEq, rest, settleEq, statusEq]
    exact ⟨rfl, queued⟩
  | lost _ _ _ _ _ _ full => omega

/-- Cancelling an order refines the reference matcher. -/
theorem Regular.cancels
    (same : SameQueues book.resting reference) (cancels : book.Cancels orderId result book') :
    result = (cancel orderId reference).2 ∧
      SameQueues book'.resting (cancel orderId reference).1 := by
  cases cancels with
  | unknown absent =>
    have missing : (reference.find? fun resting => resting.orderId == orderId) = none :=
      List.find?_eq_none.mpr fun resting mem => by
        simpa using absent resting (same.perm.mem_iff.mpr mem)
    rw [cancel, missing]
    exact ⟨rfl, same⟩
  | removed resting mem sameId =>
    subst sameId
    have found : (reference.find? fun other => other.orderId == resting.orderId) =
        some resting := by
      cases isFound : reference.find? fun other => other.orderId == resting.orderId with
      | none =>
        have absent := List.find?_eq_none.mp isFound resting (same.perm.mem_iff.mp mem)
        simp at absent
      | some other =>
        have otherMember := same.perm.mem_iff.mpr (mem_of_find?_eq_some isFound)
        have otherId : other.orderId = resting.orderId := by simpa using List.find?_some isFound
        rw [inj_on_of_nodup_map regular.distinct otherMember mem otherId]
    rw [cancel, found, resting_update_drop_filter (regular.sorted _) regular.distinct mem]
    exact ⟨rfl, same.filter _⟩

/-- Every call refines the reference matcher. -/
theorem Regular.responds (same : SameQueues book.resting reference) (fits : Fits config reference)
    (responds : book.Responds config call answer book') :
    answer = (step reference call).2 ∧ SameQueues book'.resting (step reference call).1 := by
  cases responds with
  | placed places =>
    obtain ⟨resultEq, sameAfter⟩ := regular.places (fits.perm same.perm.symm) places
    obtain ⟨answerEq, sameReference⟩ := same.place
    exact ⟨congrArg Answer.placed (resultEq.trans answerEq), sameAfter.trans sameReference⟩
  | cancelled cancels =>
    obtain ⟨resultEq, sameAfter⟩ := regular.cancels same cancels
    exact ⟨congrArg Answer.cancelled resultEq, sameAfter⟩

end

/-- The lots of a level are among those of its side. -/
theorem level_lots_le (positive : ∀ side, Ladder.Positive (book side)) (mem : level ∈ book side) :
    level.lots ≤ lots (book.resting.filter fun resting => decide (resting.side = side)) := by
  have nonneg : ∀ levels : List Level, levels ⊆ book side →
      0 ≤ lots (Ladder.resting side levels) := by
    intro levels inBook
    apply lots_nonneg
    intro order orderMember
    obtain ⟨other, otherMember, entry, queued, rfl⟩ := Ladder.mem_resting.mp orderMember
    exact positive side other (inBook otherMember) entry queued
  rw [resting_filter_side]
  obtain ⟨lower, upper, split⟩ := append_of_mem mem
  have lowerNonneg := nonneg lower (by simp [split])
  have upperNonneg := nonneg upper (by rw [split]; exact fun _ inUpper => by simp [inUpper])
  rw [split, Ladder.resting_append, Ladder.resting_cons, lots_append,
    lots_append, Ladder.lots_level]
  omega

end Book

/-! ## Runs -/

namespace MatchingEngine

open Reference

variable {config : PoolConfig} {engine : MatchingEngine} {book : Book}

/-- The resting orders, read off the skip lists. -/
def resting (engine : MatchingEngine) : List Resting :=
  Ladder.resting .buy (engine.levels .buy) ++ Ladder.resting .sell (engine.levels .sell)

theorem Sound.resting_eq (sound : Sound config engine [] book) : engine.resting = book.resting := by
  simp only [resting, sound.levels_eq]
  rfl

theorem Sound.regular
    (sound : Sound config engine [] book) (counted : ∀ side, Counted (book side)) :
    book.Regular where
  sorted := fun side => (sound.sides side).sorted
  occupied := fun side => (sound.sides side).occupied
  counted := counted
  distinct := sound.ids_nodup

/-- Engine and reference matcher give the same answers and keep the same queues. -/
theorem run_refines (config : PoolConfig) (calls : List Call)
    (fits : ∀ pre, pre <+: calls → Fits config (Reference.run [] pre).1) :
    ∃ book, Sound config ((new config).run calls).1 [] book ∧ book.Regular ∧
      ((new config).run calls).2 = (Reference.run [] calls).2 ∧
      SameQueues book.resting (Reference.run [] calls).1 := by
  obtain ⟨book, sound, refines⟩ := @run_induction
    (fun calls answers book =>
      (∀ pre, pre <+: calls → Fits config (Reference.run [] pre).1) →
        book.Regular ∧ answers = (Reference.run [] calls).2 ∧
          SameQueues book.resting (Reference.run [] calls).1) config
    (fun _ => ⟨(sound_new config).regular fun side level mem => by simp at mem,
      rfl, .refl _⟩) (by
      intro calls answers call book answer book' sound sound' responds kept fits
      obtain ⟨regular, answersEq, same⟩ := kept fun pre shorter =>
        fits pre (shorter.trans (prefix_append _ _))
      obtain ⟨answerEq, same'⟩ := regular.responds same
        (fits calls (prefix_append _ _)) responds
      rw [Reference.run_snoc]
      have fitsAfter := fits (calls ++ [call]) (prefix_refl _)
      rw [Reference.run_snoc] at fitsAfter
      refine ⟨sound'.regular ?_, by rw [answersEq, answerEq], same'⟩
      refine Book.counted_responds regular.counted regular.sorted ?_ responds
      intro side level mem
      exact (Book.level_lots_le sound'.positive mem).trans
        ((fitsAfter.perm same'.perm.symm).lots side)) calls
  exact ⟨book, sound, refines fits⟩

/-- A valid order that is placed after any run trades exactly as the reference
matcher says: the opposite orders it accepts are taken by price and time. -/
theorem placeOrder_priceTime (config : PoolConfig) (calls : List Call) (request : Request)
    (fits : ∀ pre, pre <+: calls → Fits config (Reference.run [] pre).1)
    (priced : request.order.isMarket = true ∨ 0 < request.order.priceTicks)
    (sized : 0 < request.order.quantityLots)
    (fresh : request.order.id ∉ ((new config).run calls).1.resting.map (·.orderId)) :
    ∃ result, (((new config).run calls).1.placeOrder request.order).2 = .ok result ∧
      (place request.order (Reference.run [] calls).1).2 = .ok result ∧
      SameQueues (((new config).run calls).1.placeOrder request.order).1.resting
        (place request.order (Reference.run [] calls).1).1 ∧
      result.filledLots = traded result.fills ∧
      (Rejects request.order (Reference.run [] calls).1 → result.fills = []) ∧
      (¬ Rejects request.order (Reference.run [] calls).1 →
        PriceTime request.order (Reference.run [] calls).1 result.fills) := by
  obtain ⟨book, sound, regular, -, same⟩ := run_refines config calls fits
  obtain ⟨book', places, sound'⟩ := sound.placeOrder request.order_filledLots request.order_inRange
  have fitsNow := fits calls (prefix_refl _)
  obtain ⟨resultEq, sameAfter⟩ := regular.places (fitsNow.perm same.perm.symm) places
  obtain ⟨answerEq, sameReference⟩ := same.place
  have isPriced : ¬ (request.order.isMarket = false ∧ request.order.priceTicks ≤ 0) := by
    rintro ⟨limit, bad⟩
    rcases priced with market | positive
    · simp [limit] at market
    · omega
  have unknown : request.order.id ∉ (Reference.run [] calls).1.map (·.orderId) := by
    rwa [← (same.perm.map _).mem_iff, ← sound.resting_eq]
  have positive : Positive (Reference.run [] calls).1 := fun resting member =>
    regular.positive resting (same.perm.mem_iff.mpr member)
  have queues : SameQueues
      (((new config).run calls).1.placeOrder request.order).1.resting
      (place request.order (Reference.run [] calls).1).1 := by
    rw [sound'.resting_eq]
    exact sameAfter.trans sameReference
  have executed := place_eq_execute isPriced sized unknown
  have answered := resultEq.trans answerEq
  refine ⟨(execute request.order (Reference.run [] calls).1).2, ?_, by rw [executed], queues, ?_⟩
  · rw [answered, executed]
  · unfold execute
    by_cases rejects : Rejects request.order (Reference.run [] calls).1
    · rw [if_pos rejects]
      exact ⟨rfl, fun _ => rfl, fun executes => absurd rejects executes⟩
    · rw [if_neg rejects]
      exact ⟨rfl, fun isRejected => absurd isRejected rejects,
        fun _ => priceTime_fills sized.le positive⟩

/-- Two asks meet a bid that takes the better one and part of the other. -/
theorem placeOrder_priceTime_twoAsks :
    ∃ result, (((new ⟨4, 4⟩).run [.place (.limit 1 .sell 100 5 .gtc 0),
        .place (.limit 2 .sell 101 5 .gtc 1)]).1.placeOrder
        (Request.limit 3 .buy 101 7 .gtc 2).order).2 = .ok result ∧
      PriceTime (Request.limit 3 .buy 101 7 .gtc 2).order
        (Reference.run [] [.place (.limit 1 .sell 100 5 .gtc 0),
          .place (.limit 2 .sell 101 5 .gtc 1)]).1 result.fills := by
  have fits : ∀ pre ∈ List.inits [Call.place (.limit 1 .sell 100 5 .gtc 0),
      .place (.limit 2 .sell 101 5 .gtc 1)], Fits ⟨4, 4⟩ (Reference.run [] pre).1 := by
    decide
  obtain ⟨result, answered, -, -, -, -, priceTime⟩ := placeOrder_priceTime ⟨4, 4⟩
    [.place (.limit 1 .sell 100 5 .gtc 0), .place (.limit 2 .sell 101 5 .gtc 1)]
    (.limit 3 .buy 101 7 .gtc 2)
    (fun pre shorter => fits pre ((mem_inits _ _).mpr shorter))
    (by decide) (by decide) (by decide)
  exact ⟨result, answered, priceTime (by decide)⟩

/-- The engine answers every run as the reference matcher does, with the same queues. -/
theorem run_eq_reference (config : PoolConfig) (calls : List Call)
    (fits : ∀ pre, pre <+: calls → Fits config (Reference.run [] pre).1) :
    ((new config).run calls).2 = (Reference.run [] calls).2 ∧
      SameQueues ((new config).run calls).1.resting (Reference.run [] calls).1 := by
  obtain ⟨book, sound, -, answers, same⟩ := run_refines config calls fits
  rw [sound.resting_eq]
  exact ⟨answers, same⟩

theorem run_eq_reference_sweep :
    let calls : List Call := [.place (.limit 1 .sell 100 5 .gtc 0),
      .place (.limit 2 .buy 101 7 .gtc 1), .cancel 2]
    ((new ⟨4, 4⟩).run calls).2 = (Reference.run [] calls).2 := by
  intro calls
  have fits : ∀ pre ∈ calls.inits, Fits ⟨4, 4⟩ (Reference.run [] pre).1 := by decide
  exact (run_eq_reference ⟨4, 4⟩ calls fun pre shorter => fits pre ((mem_inits _ _).mpr shorter)).1

end MatchingEngine
end LightningX.Matching
