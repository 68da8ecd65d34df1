import LightningX.Matching.Engine.Steps

/-!
# Runs of the engine

Every run of calls from a fresh engine keeps the engine sound, keeps the book
uncrossed and, as long as the lots of a level fit in 64 bits, keeps the cached
totals exact.
-/

namespace LightningX.Matching

open List Function Ladder

variable {side : Side}

theorem Request.order_filledLots (request : Request) : request.order.filledLots = 0 := by
  cases request <;> rfl

theorem Request.order_inRange (request : Request) : InI64 request.order.quantityLots := by
  cases request with
  | limit id side price quantity tif timestamp => exact quantity.inRange
  | market id side quantity timestamp => exact quantity.inRange

/-- Everything a call can do to the book. -/
inductive Book.Responds (config : PoolConfig) (book : Book) : Call → Answer → Book → Prop
  | placed {request : Request} {result : OrderResult PlaceOrderResult} {book' : Book}
      (places : book.Places config request.order result book') :
      Responds config book (.place request) (.placed result) book'
  | cancelled {orderId : Nat} {result : OrderResult CancelOrderResult} {book' : Book}
      (cancels : book.Cancels orderId result book') :
      Responds config book (.cancel orderId) (.cancelled result) book'

namespace MatchingEngine

variable {config : PoolConfig} {engine : MatchingEngine} {book : Book}

theorem Sound.step (sound : Sound config engine [] book) (call : Call) :
    ∃ book', book.Responds config call (engine.step call).2 book' ∧
      Sound config (engine.step call).1 [] book' := by
  cases call with
  | place request =>
    obtain ⟨book', places, sound'⟩ :=
      sound.placeOrder request.order_filledLots request.order_inRange
    exact ⟨book', .placed places, sound'⟩
  | cancel orderId =>
    obtain ⟨book', cancels, sound'⟩ := sound.cancelOrder orderId
    exact ⟨book', .cancelled cancels, sound'⟩

theorem run_append (engine : MatchingEngine) (calls more : List Call) :
    engine.run (calls ++ more) =
      (((engine.run calls).1.run more).1,
        (engine.run calls).2 ++ ((engine.run calls).1.run more).2) := by
  induction calls generalizing engine with
  | nil => rfl
  | cons call calls ih => simp only [cons_append, run, ih]

/-- The state and the answers after one more call. -/
theorem run_snoc (engine : MatchingEngine) (calls : List Call) (call : Call) :
    engine.run (calls ++ [call]) =
      (((engine.run calls).1.step call).1,
        (engine.run calls).2 ++ [((engine.run calls).1.step call).2]) := by
  rw [run_append]
  rfl

/-- The invariant rule for runs: what holds of a fresh engine and is kept by
every call that answers soundly holds after every run. -/
theorem run_induction {keeps : List Call → List Answer → Book → Prop}
    (config : PoolConfig) (initial : keeps [] [] fun _ => [])
    (step : ∀ {calls answers call book answer book'},
      Sound config ((new config).run calls).1 [] book →
      Sound config ((new config).run (calls ++ [call])).1 [] book' →
      book.Responds config call answer book' → keeps calls answers book →
      keeps (calls ++ [call]) (answers ++ [answer]) book')
    (calls : List Call) :
    ∃ book, Sound config ((new config).run calls).1 [] book ∧
      keeps calls ((new config).run calls).2 book := by
  induction calls using List.reverseRecOn with
  | nil => exact ⟨_, sound_new config, initial⟩
  | append_singleton calls call ih =>
    obtain ⟨book, sound, kept⟩ := ih
    obtain ⟨book', responds, sound'⟩ := sound.step call
    have extended := run_snoc (new config) calls call
    have sound'' : Sound config ((new config).run (calls ++ [call])).1 [] book' := by rwa [extended]
    refine ⟨book', sound'', ?_⟩
    rw [extended]
    exact step sound sound'' responds kept

end MatchingEngine

/-- A price of a side does not reach a price of the opposite side. -/
def Side.Clear (side : Side) (own other : Int) : Prop :=
  match side with
  | .buy => own < other
  | .sell => other < own

theorem Side.clear_opposite : side.opposite.Clear own other ↔ side.Clear other own := by
  cases side <;> rfl

theorem Order.clear_of_not_priceMatches {order : Order} (limit : order.isMarket = false)
    (refused : order.priceMatches price = false) : order.side.Clear order.priceTicks price := by
  unfold Order.priceMatches at refused
  cases sideEq : order.side <;>
    simpa [limit, sideEq, Side.Clear] using refused

/-- Prices behind a price that is not reached are not reached. -/
theorem Side.Clear.of_shouldInsert (clear : side.Clear own best)
    (worse : side.opposite.sortOrder.shouldInsert best other = true) : side.Clear own other := by
  cases side <;>
    simp only [Side.Clear, Side.opposite, Side.sortOrder, SortOrder.shouldInsert,
      decide_eq_true_eq] at * <;>
    omega

namespace Book

/-- Every bid is below every ask. -/
def Uncrossed (book : Book) : Prop :=
  ∀ side, ∀ own ∈ book side, ∀ other ∈ book side.opposite, side.Clear own.price other.price

variable {config : PoolConfig} {book book' : Book} {order : Order}

/-- It is enough to look from one side. -/
theorem uncrossed_of_side (side : Side)
    (clear : ∀ own ∈ book side, ∀ other ∈ book side.opposite, side.Clear own.price other.price) :
    book.Uncrossed := by
  intro observed own ownMember other otherMember
  rcases side.eq_or_eq_opposite observed with rfl | rfl
  · exact clear own ownMember other otherMember
  · rw [Side.opposite_opposite] at otherMember
    exact Side.clear_opposite.mpr (clear other otherMember own ownMember)

/-- Levels that only disappear cannot cross. -/
theorem Uncrossed.of_prices (uncrossed : book.Uncrossed)
    (fewer : ∀ side, (book' side).map (·.price) ⊆ (book side).map (·.price)) : book'.Uncrossed := by
  intro side own ownMember other otherMember
  obtain ⟨oldOwn, oldOwnMember, ownPrice⟩ := mem_map.mp (fewer side (mem_map_of_mem ownMember))
  obtain ⟨oldOther, oldOtherMember, otherPrice⟩ :=
    mem_map.mp (fewer side.opposite (mem_map_of_mem otherMember))
  rw [← ownPrice, ← otherPrice]
  exact uncrossed side oldOwn oldOwnMember oldOther oldOtherMember

theorem prices_update_subset (fewer : levels.map (·.price) ⊆ (book side).map (·.price)) :
    ∀ other, (update book side levels other).map (·.price) ⊆
      (book other).map (·.price) := by
  intro other
  by_cases same : other = side
  · subst same
    rwa [update_self]
  · rw [update_of_ne same]
    exact fun _ mem => mem

section

variable (uncrossed : book.Uncrossed)
include uncrossed

/-- A limit order that is queued after everything it reaches has been swept
away does not cross the book. -/
theorem Uncrossed.sweptAndRested (sorted : Sorted order.side.sortOrder (book order.side))
    (levelsSorted : Sorted order.side.opposite.sortOrder levels) (limit : order.isMarket = false)
    (trades : Trades order.priceMatches order.quantityLots
      (book order.side.opposite) fills want levels)
    (settled : Settled order.priceMatches want levels) (left : 0 < want) :
    (Book.sweptAndRested book order want levels).Uncrossed := by
  refine uncrossed_of_side order.side fun own ownMember other otherMember => ?_
  rw [Book.sweptAndRested, update_self] at ownMember
  rw [Book.sweptAndRested, update_of_ne (Side.opposite_ne order.side), update_self] at otherMember
  rcases price_of_mem_rest sorted ownMember with isNew | ⟨old, oldMember, samePrice⟩
  · rw [isNew]
    have bestRefused := settled.resolve_left (by omega)
    cases levels with
    | nil => simp at otherMember
    | cons best worse =>
      have bestClear := Order.clear_of_not_priceMatches limit (bestRefused best (by simp))
      rcases mem_cons.mp otherMember with rfl | inWorse
      · exact bestClear
      · exact bestClear.of_shouldInsert ((pairwise_cons.mp levelsSorted).1 other inWorse)
  · obtain ⟨oldOther, oldOtherMember, otherPrice⟩ :=
      mem_map.mp (trades.prices_sublist.subset (mem_map_of_mem otherMember))
    rw [← samePrice, ← otherPrice]
    exact uncrossed order.side old oldMember oldOther oldOtherMember

theorem Uncrossed.places (sorted : ∀ side, Sorted side.sortOrder (book side))
    (sorted' : ∀ side, Sorted side.sortOrder (book' side))
    (places : book.Places config order result book') : book'.Uncrossed := by
  cases places with
  | refused => exact uncrossed
  | rejected => exact uncrossed
  | swept _ _ _ trades =>
    exact uncrossed.of_prices (prices_update_subset trades.prices_sublist.subset)
  | lost _ _ _ trades =>
    exact uncrossed.of_prices (prices_update_subset trades.prices_sublist.subset)
  | rested _ mayRest _ trades settled left =>
    have levelsSorted := sorted' order.side.opposite
    rw [Book.sweptAndRested, update_of_ne (Side.opposite_ne _), update_self] at levelsSorted
    exact uncrossed.sweptAndRested (sorted _) levelsSorted mayRest.1 trades settled left

theorem Uncrossed.cancels (cancels : book.Cancels orderId result book') : book'.Uncrossed := by
  cases cancels with
  | unknown => exact uncrossed
  | removed resting =>
    exact uncrossed.of_prices (prices_update_subset (prices_drop_sublist _ _ _).subset)

theorem Uncrossed.responds (sorted : ∀ side, Sorted side.sortOrder (book side))
    (sorted' : ∀ side, Sorted side.sortOrder (book' side))
    (responds : book.Responds config call answer book') : book'.Uncrossed := by
  cases responds with
  | placed places => exact uncrossed.places sorted sorted' places
  | cancelled cancels => exact uncrossed.cancels cancels

end

end Book

namespace MatchingEngine

/-- After every run the best bid is strictly below the best ask. -/
theorem bestBid_lt_bestAsk (config : PoolConfig) (calls : List Call) {bid ask : Int}
    (bestBid : ((new config).run calls).1.bestPriceTicks .buy = some bid)
    (bestAsk : ((new config).run calls).1.bestPriceTicks .sell = some ask) : bid < ask := by
  obtain ⟨book, sound, uncrossed⟩ := @run_induction (fun _ _ book => book.Uncrossed)
    config (by simp [Book.Uncrossed]) (fun sound sound' responds uncrossed =>
      uncrossed.responds (fun side => (sound.sides side).sorted)
        (fun side => (sound'.sides side).sorted) responds) calls
  have bestLevel : ∀ {side price},
      ((new config).run calls).1.bestPriceTicks side = some price →
        ∃ level ∈ book side, level.price = price := by
    intro side price best
    rw [bestPriceTicks, (sound.sides side).models.best_price, Option.map_eq_some_iff] at best
    obtain ⟨level, isHead, priceEq⟩ := best
    exact ⟨level, mem_of_mem_head? isHead, priceEq⟩
  obtain ⟨bidLevel, bidMember, rfl⟩ := bestLevel bestBid
  obtain ⟨askLevel, askMember, rfl⟩ := bestLevel bestAsk
  exact uncrossed .buy bidLevel bidMember askLevel askMember

theorem bestBid_lt_bestAsk_quotes :
    ((new ⟨4, 4⟩).run [.place (.limit 1 .sell 100 5 .gtc 0),
        .place (.limit 2 .buy 90 5 .gtc 1)]).1.bestPriceTicks .buy = some 90 ∧
      ((new ⟨4, 4⟩).run [.place (.limit 1 .sell 100 5 .gtc 0),
        .place (.limit 2 .buy 90 5 .gtc 1)]).1.bestPriceTicks .sell = some 100 ∧
      (90 : Int) < 100 :=
  ⟨by decide, by decide,
    bestBid_lt_bestAsk ⟨4, 4⟩ [.place (.limit 1 .sell 100 5 .gtc 0),
      .place (.limit 2 .buy 90 5 .gtc 1)] (by decide) (by decide)⟩

end MatchingEngine
end LightningX.Matching
