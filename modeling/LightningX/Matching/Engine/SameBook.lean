import LightningX.Matching.Engine.Consistency

/-!
# Engines with the same book

Two engines that hold the same book answer every sequence of calls alike,
however their pools and skip lists are laid out and whatever timestamps their
orders carry.
-/

namespace LightningX.Matching

open scoped List

variable {orderId : Nat}

namespace Ladder

variable {accepts : Int → Bool} {want firstWant secondWant : Int}
  {levels firstLevels secondLevels : List Level} {firstFills : List Fill}

/-- Trades that go on until nothing is left to trade are determined. -/
theorem Trades.unique (first : Trades accepts want levels firstFills firstWant firstLevels)
    (firstSettled : Settled accepts firstWant firstLevels)
    (second : Trades accepts want levels secondFills secondWant secondLevels)
    (secondSettled : Settled accepts secondWant secondLevels) :
    firstFills = secondFills ∧ firstWant = secondWant ∧ firstLevels = secondLevels := by
  have goesOn : ∀ {want : Int} {level : Level} {rest : List Level}, 0 < want →
      accepts level.price = true → ¬ Settled accepts want (level :: rest) := by
    rintro want level rest wanted accepted (filled | refused)
    · omega
    · simp [refused level rfl] at accepted
  induction first generalizing secondFills with
  | none want levels =>
    cases second with
    | none => exact ⟨rfl, rfl, rfl⟩
    | trade wanted accepted _ _ => exact absurd firstSettled (goesOn wanted accepted)
  | trade wanted accepted front _ ih =>
    cases second with
    | none => exact absurd secondSettled (goesOn wanted accepted)
    | trade _ _ secondFront later =>
      obtain ⟨rfl, rfl⟩ := List.cons.inj (front.symm.trans secondFront)
      obtain ⟨rfl, rfl, rfl⟩ := ih firstSettled later
      exact ⟨rfl, rfl, rfl⟩

end Ladder

def Order.stamped (order : Order) (timestamp : Nat) : Order :=
  { order with timestamp := timestamp }

namespace Book

variable {config : PoolConfig} {book firstBook secondBook : Book} {order : Order}
  {first : OrderResult PlaceOrderResult}

theorem Admits.not_refuses (admitted : book.Admits config order) :
    ¬ book.Refuses config order error := by
  intro reason
  cases reason with
  | price bad => exact admitted.price bad
  | quantity _ bad => exact absurd admitted.quantity (not_lt.mpr bad)
  | duplicate _ _ resting mem same => exact admitted.fresh resting mem same
  | exhausted full =>
    have slot := admitted.slot
    have queues := admitted.queues
    omega

/-- The book alone makes the engine turn the order down. -/
def TurnsDown (book : Book) (order : Order) : Prop :=
  order.isPostOnly ∧ book.Crosses order ∨ order.isFok ∧ ¬ book.Fillable order

theorem not_turnsDown_of_swept (notPostOnly : ¬ order.isPostOnly)
    (fillable : order.isFok → book.Fillable order) : ¬ book.TurnsDown order := by
  rintro (⟨postOnly, -⟩ | ⟨fok, short⟩)
  · exact notPostOnly postOnly
  · exact short (fillable fok)

theorem not_turnsDown_of_mayRest (mayRest : order.mayRest)
    (quiet : order.isPostOnly → ¬ book.Crosses order) : ¬ book.TurnsDown order := by
  rintro (⟨postOnly, crosses⟩ | ⟨⟨-, fok⟩, -⟩)
  · exact quiet postOnly crosses
  · have tif := mayRest.2
    simp [fok] at tif

theorem not_left_of_done {want : Int} (mayRest : order.mayRest)
    (done : want ≤ 0 ∨ ¬ order.mayRest) : ¬ 0 < want := by
  rcases done with filled | leaves
  · omega
  · exact absurd mayRest leaves

/-- What placing an admitted order does is determined by the book. -/
theorem Places.unique
    (admitted : book.Admits config order) (places : book.Places config order first firstBook)
    (other : book.Places config order second secondBook) :
    first = second ∧ firstBook = secondBook := by
  cases places with
  | refused reason => exact absurd reason admitted.not_refuses
  | rejected _ reason =>
    cases other with
    | refused reason => exact absurd reason admitted.not_refuses
    | rejected => exact ⟨rfl, rfl⟩
    | swept _ notPostOnly fillable =>
      exact absurd reason (not_turnsDown_of_swept notPostOnly fillable)
    | rested _ mayRest quiet => exact absurd reason (not_turnsDown_of_mayRest mayRest quiet)
    | lost _ mayRest quiet => exact absurd reason (not_turnsDown_of_mayRest mayRest quiet)
  | swept _ notPostOnly fillable trades settled done =>
    cases other with
    | refused reason => exact absurd reason admitted.not_refuses
    | rejected _ reason => exact absurd reason (not_turnsDown_of_swept notPostOnly fillable)
    | swept _ _ _ otherTrades otherSettled =>
      obtain ⟨rfl, rfl, rfl⟩ := trades.unique settled otherTrades otherSettled
      exact ⟨rfl, rfl⟩
    | rested _ mayRest _ otherTrades otherSettled left =>
      obtain ⟨-, rfl, -⟩ := trades.unique settled otherTrades otherSettled
      exact absurd left (not_left_of_done mayRest done)
    | lost _ mayRest _ otherTrades otherSettled left =>
      obtain ⟨-, rfl, -⟩ := trades.unique settled otherTrades otherSettled
      exact absurd left (not_left_of_done mayRest done)
  | rested _ mayRest quiet trades settled left room =>
    cases other with
    | refused reason => exact absurd reason admitted.not_refuses
    | rejected _ reason => exact absurd reason (not_turnsDown_of_mayRest mayRest quiet)
    | swept _ _ _ otherTrades otherSettled done =>
      obtain ⟨-, rfl, -⟩ := trades.unique settled otherTrades otherSettled
      exact absurd left (not_left_of_done mayRest done)
    | rested _ _ _ otherTrades otherSettled =>
      obtain ⟨rfl, rfl, rfl⟩ := trades.unique settled otherTrades otherSettled
      exact ⟨rfl, rfl⟩
    | lost _ _ _ _ _ _ full => omega
  | lost _ mayRest quiet trades settled left full =>
    cases other with
    | refused reason => exact absurd reason admitted.not_refuses
    | rejected _ reason => exact absurd reason (not_turnsDown_of_mayRest mayRest quiet)
    | swept _ _ _ otherTrades otherSettled done =>
      obtain ⟨-, rfl, -⟩ := trades.unique settled otherTrades otherSettled
      exact absurd left (not_left_of_done mayRest done)
    | rested _ _ _ _ _ _ room => omega
    | lost _ _ _ otherTrades otherSettled =>
      obtain ⟨-, -, rfl⟩ := trades.unique settled otherTrades otherSettled
      exact ⟨rfl, rfl⟩

theorem Admits.stamped (admitted : book.Admits config order) (timestamp : Nat) :
    book.Admits config (order.stamped timestamp) :=
  ⟨admitted.price, admitted.quantity, admitted.fresh, admitted.slot, admitted.queues⟩

/-- Nothing that placing an order does looks at its timestamp. -/
theorem Places.stamped (places : book.Places config order first firstBook) (timestamp : Nat) :
    book.Places config (order.stamped timestamp) first firstBook := by
  cases places with
  | refused reason =>
    refine .refused ?_
    cases reason with
    | price bad => exact .price bad
    | quantity priced bad => exact .quantity priced bad
    | duplicate priced sized resting mem same => exact .duplicate priced sized resting mem same
    | exhausted full => exact .exhausted full
  | rejected admitted reason => exact .rejected (admitted.stamped timestamp) reason
  | swept admitted notPostOnly fillable trades settled done =>
    exact .swept (admitted.stamped timestamp) notPostOnly fillable trades settled done
  | rested admitted mayRest quiet trades settled left room =>
    exact .rested (admitted.stamped timestamp) mayRest quiet trades settled left room
  | lost admitted mayRest quiet trades settled left full =>
    exact .lost (admitted.stamped timestamp) mayRest quiet trades settled left full

/-- The error of an order that the checks at the start of `place_order` stop. -/
def refusal (book : Book) (order : Order) : MatchingEngineError :=
  if order.isMarket = false ∧ order.priceTicks ≤ 0 then .invalidPrice order.priceTicks
  else if order.quantityLots ≤ 0 then .invalidQuantity order.quantityLots
  else if order.id ∈ book.resting.map (·.orderId) then .duplicateOrderId order.id
  else .orderPoolExhausted

/-- What cancelling an order does is determined by the book. -/
theorem Cancels.unique {first second : OrderResult CancelOrderResult}
    (distinct : (book.resting.map (·.orderId)).Nodup)
    (cancels : book.Cancels orderId first firstBook)
    (other : book.Cancels orderId second secondBook) : first = second ∧ firstBook = secondBook := by
  cases cancels with
  | unknown absent =>
    cases other with
    | unknown => exact ⟨rfl, rfl⟩
    | removed resting mem same => exact absurd same (absent resting mem)
  | removed resting mem same =>
    cases other with
    | unknown absent => exact absurd same (absent resting mem)
    | removed otherResting otherMember otherSame =>
      obtain rfl := List.inj_on_of_nodup_map distinct mem otherMember (same.trans otherSame.symm)
      exact ⟨rfl, rfl⟩

end Book

namespace MatchingEngine

variable {config : PoolConfig} {engine other : MatchingEngine} {book : Book} {order : Order}

/-- An order that is not admitted leaves the engine as it is. -/
theorem Sound.placeOrder_refused
    (sound : Sound config engine [] book) (refused : ¬ book.Admits config order) :
    engine.placeOrder order = (engine, .error (book.refusal order)) := by
  have known : order.id ∈ engine.orders ↔ order.id ∈ book.resting.map (·.orderId) := by
    rw [sound.mem_orders_iff, List.mem_map]
  unfold MatchingEngine.placeOrder validateOrder Book.refusal
  by_cases badPrice : order.isMarket = false ∧ order.priceTicks ≤ 0
  · simp [badPrice.1, badPrice.2]
  · have priceTest : (!order.isMarket && decide (order.priceTicks ≤ 0)) = false := by
      cases market : order.isMarket <;> simp_all
    rw [priceTest, if_neg badPrice]
    by_cases badQuantity : order.quantityLots ≤ 0
    · simp [badQuantity]
    · simp only [Bool.false_eq_true, if_false, if_neg badQuantity, known]
      by_cases duplicate : order.id ∈ book.resting.map (·.orderId)
      · simp only [duplicate, if_true]
      · have noSpace : engine.pools.hasSpaceForOrder = false := by
          rw [Bool.eq_false_iff]
          intro space
          obtain ⟨slot, queues⟩ := sound.hasSpaceForOrder_iff.mp space
          refine refused ⟨badPrice, by omega, ?_, slot, queues⟩
          intro resting mem same
          exact duplicate (List.mem_map.mpr ⟨resting, mem, same⟩)
        simp only [duplicate, if_false, noSpace, Bool.not_false, if_true]

/-- Exactly the resting orders can be cancelled. -/
theorem Sound.cancelOrder_ok_iff (sound : Sound config engine [] book) :
    (∃ result, (engine.cancelOrder orderId).2 = .ok result) ↔ orderId ∈ engine.orders := by
  obtain ⟨book', cancels, -⟩ := sound.cancelOrder orderId
  rw [sound.mem_orders_iff]
  generalize (engine.cancelOrder orderId).2 = answer at cancels
  cases cancels with
  | unknown absent =>
    constructor
    · rintro ⟨result, cancelled⟩
      cases cancelled
    · rintro ⟨resting, mem, same⟩
      exact absurd same (absent resting mem)
  | removed resting mem same => exact ⟨fun _ => ⟨resting, mem, same⟩, fun _ => ⟨_, rfl⟩⟩

def SameBook (config : PoolConfig) (engine other : MatchingEngine) : Prop :=
  ∃ book, Sound config engine [] book ∧ Sound config other [] book

namespace SameBook

section

variable (same : SameBook config engine other)
include same

theorem levels_eq (side : Side) : engine.levels side = other.levels side := by
  obtain ⟨book, sound, otherSound⟩ := same
  rw [sound.levels_eq, otherSound.levels_eq]

theorem mem_orders_iff : orderId ∈ engine.orders ↔ orderId ∈ other.orders := by
  obtain ⟨book, sound, otherSound⟩ := same
  rw [sound.mem_orders_iff, otherSound.mem_orders_iff]

theorem bestPriceTicks_eq (side : Side) :
    engine.bestPriceTicks side = other.bestPriceTicks side := by
  obtain ⟨book, sound, otherSound⟩ := same
  rw [bestPriceTicks, bestPriceTicks, (sound.sides side).models.best_price,
    (otherSound.sides side).models.best_price]

/-- An order gets the same answer from both engines, with any timestamps. -/
theorem placeOrder
    (constructed : order.filledLots = 0) (inRange : InI64 order.quantityLots) (timestamp : Nat) :
    ∃ after otherAfter answer, engine.placeOrder order = (after, answer) ∧
      other.placeOrder (order.stamped timestamp) = (otherAfter, answer) ∧
      SameBook config after otherAfter := by
  obtain ⟨book, sound, otherSound⟩ := same
  by_cases admitted : book.Admits config order
  · obtain ⟨after, places, soundAfter⟩ := sound.placeOrder constructed inRange
    obtain ⟨otherAfter, otherPlaces, otherSoundAfter⟩ :=
      @Sound.placeOrder config other book (order.stamped timestamp) otherSound constructed inRange
    obtain ⟨sameAnswer, rfl⟩ :=
      (places.stamped timestamp).unique (admitted.stamped timestamp) otherPlaces
    exact ⟨_, _, _, rfl, Prod.ext rfl sameAnswer.symm, _, soundAfter, otherSoundAfter⟩
  · have otherRefused : ¬ book.Admits config (order.stamped timestamp) := fun otherAdmitted =>
      admitted (otherAdmitted.stamped order.timestamp)
    exact ⟨_, _, _, sound.placeOrder_refused admitted,
      otherSound.placeOrder_refused otherRefused, book, sound, otherSound⟩

theorem cancelOrder (orderId : Nat) :
    ∃ after otherAfter answer, engine.cancelOrder orderId = (after, answer) ∧
      other.cancelOrder orderId = (otherAfter, answer) ∧ SameBook config after otherAfter := by
  obtain ⟨book, sound, otherSound⟩ := same
  obtain ⟨after, cancels, soundAfter⟩ := sound.cancelOrder orderId
  obtain ⟨otherAfter, otherCancels, otherSoundAfter⟩ := otherSound.cancelOrder orderId
  obtain ⟨sameAnswer, rfl⟩ := cancels.unique sound.ids_nodup otherCancels
  exact ⟨_, _, _, rfl, Prod.ext rfl sameAnswer.symm, _, soundAfter, otherSoundAfter⟩

theorem step (call : Call) :
    (engine.step call).2 = (other.step call).2 ∧
      SameBook config (engine.step call).1 (other.step call).1 := by
  cases call with
  | place request =>
    obtain ⟨after, otherAfter, answer, placed, otherPlaced, sameAfter⟩ := same.placeOrder
      request.order_filledLots request.order_inRange request.order.timestamp
    change other.placeOrder request.order = _ at otherPlaced
    simp only [MatchingEngine.step, placed, otherPlaced, true_and, sameAfter]
  | cancel orderId =>
    obtain ⟨after, otherAfter, answer, cancelled, otherCancelled, sameAfter⟩ :=
      same.cancelOrder orderId
    simp only [MatchingEngine.step, cancelled, otherCancelled, true_and, sameAfter]

/-- Engines with the same book cannot be told apart by calling them. -/
theorem run (calls : List Call) : (engine.run calls).2 = (other.run calls).2 := by
  induction calls generalizing engine other with
  | nil => rfl
  | cons call calls ih =>
    obtain ⟨sameAnswer, sameAfter⟩ := same.step call
    simp only [MatchingEngine.run, sameAnswer, ih sameAfter]

end

end SameBook
end MatchingEngine
end LightningX.Matching
