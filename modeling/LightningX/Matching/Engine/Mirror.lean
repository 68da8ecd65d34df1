import LightningX.Matching.Engine.Refinement
import LightningX.Matching.Engine.SameBook

/-!
# The two sides of the book

Exchanging buy and sell and reflecting every limit price at a constant turns a run
of calls into its mirror image.  Every operation on the abstract book commutes with
the reflection, so the engine treats the two sides alike.
-/

namespace LightningX.Matching

open List Function Ladder

/-! ## Ladders -/

/-- A level at the reflected price. -/
def Level.mirror (pivot : Int) (level : Level) : Level :=
  { level with price := pivot - level.price }

/-- A fill at the reflected price. -/
def Fill.mirror (pivot : Int) (fill : Fill) : Fill :=
  { fill with priceTicks := pivot - fill.priceTicks }

namespace Ladder

/-- A ladder at the reflected prices, in the same order. -/
def mirror (pivot : Int) (levels : List Level) : List Level :=
  levels.map (Level.mirror pivot)

variable {pivot price want want' lots : Int} {levels levels' : List Level}
  {accepts mirrored : Int → Bool} {side : Side}

theorem shouldInsert_mirror (side : Side) (first second : Int) :
    side.opposite.sortOrder.shouldInsert (pivot - first) (pivot - second) =
      side.sortOrder.shouldInsert first second := by
  cases side <;>
    simp only [Side.opposite, Side.sortOrder, SortOrder.shouldInsert, decide_eq_decide] <;>
    omega

theorem reflect_eq_iff : pivot - first = pivot - second ↔ first = second := by omega

theorem entries_mirror : entries (mirror pivot levels) = entries levels := by
  simp [entries, mirror, flatMap_map, Level.mirror]

theorem update_mirror {change : Level → Level}
    (commutes : ∀ level, change (level.mirror pivot) = (change level).mirror pivot) :
    update (pivot - price) change (mirror pivot levels) =
      mirror pivot (update price change levels) := by
  simp only [update, mirror, map_map]
  refine map_congr_left fun level _ => ?_
  have same : (level.mirror pivot).price = pivot - price ↔ level.price = price := reflect_eq_iff
  simp only [comp_apply, same]
  split_ifs
  · exact commutes level
  · rfl

theorem find_mirror :
    find (pivot - price) (mirror pivot levels) = (find price levels).map (Level.mirror pivot) := by
  rw [find, mirror, List.find?_map]
  congr 2
  funext level
  rw [comp_apply, beq_eq_beq]
  exact reflect_eq_iff

theorem insert_mirror :
    insert side.opposite.sortOrder (pivot - price) (mirror pivot levels) =
      mirror pivot (insert side.sortOrder price levels) := by
  induction levels with
  | nil => rfl
  | cons level rest ih =>
    have same := @shouldInsert_mirror pivot side level.price price
    simp only [mirror, map_cons, insert] at ih ⊢
    rw [show (level.mirror pivot).price = pivot - level.price from rfl, same]
    split_ifs
    · rw [ih, map_cons]
    · rfl

theorem rest_mirror :
    rest side.opposite.sortOrder (pivot - price) orderId lots (mirror pivot levels) =
      mirror pivot (rest side.sortOrder price orderId lots levels) := by
  rw [rest, find_mirror, Option.isSome_map, rest, insert_mirror]
  split_ifs
  · exact update_mirror fun _ => rfl
  · exact update_mirror fun _ => rfl

theorem drop_mirror :
    drop (pivot - price) orderId (mirror pivot levels) =
      mirror pivot (drop price orderId levels) := by
  rw [drop, @update_mirror pivot price levels (Level.drop orderId) fun _ => rfl, mirror,
    filter_map]
  refine congrArg (List.map (Level.mirror pivot)) (filter_congr fun level _ => ?_)
  rw [comp_apply, decide_eq_decide]
  exact or_congr_left reflect_eq_iff.not

theorem hit_mirror : hit lots (mirror pivot levels) = mirror pivot (hit lots levels) := by
  have level_hit : ∀ level : Level,
      (level.mirror pivot).hit lots = (level.hit lots).mirror pivot := by
    rintro ⟨price, total, queue⟩
    cases queue <;> rfl
  cases levels with
  | nil => rfl
  | cons level rest =>
    simp only [mirror, map_cons, hit, level_hit]
    have same : ((level.hit lots).mirror pivot).queue = (level.hit lots).queue := rfl
    rw [same]
    split_ifs <;> rfl

/-- Reflected levels trade as the levels do. -/
theorem Trades.mirror (reflects : ∀ price, mirrored (pivot - price) = accepts price)
    (trades : Trades accepts want levels fills want' levels') :
    Trades mirrored want (Ladder.mirror pivot levels) (fills.map (Fill.mirror pivot)) want'
      (Ladder.mirror pivot levels') := by
  induction trades with
  | none want levels => exact .none want _
  | @trade want level rest entry queue fills _ _ wanted accepted front _ ih =>
    rw [← hit_mirror] at ih
    exact @Trades.trade mirrored want (level.mirror pivot) (Ladder.mirror pivot rest) entry
      queue _ _ _ wanted ((reflects _).trans accepted) front ih

theorem Settled.mirror (reflects : ∀ price, mirrored (pivot - price) = accepts price)
    (settled : Settled accepts want levels) :
    Settled mirrored want (Ladder.mirror pivot levels) := by
  refine settled.imp_right fun refused level isHead => ?_
  rw [Ladder.mirror, List.head?_map] at isHead
  obtain ⟨original, isOriginal, rfl⟩ := Option.map_eq_some_iff.mp isHead
  exact (reflects _).trans (refused original isOriginal)

end Ladder

/-! ## Books -/

/-- An order of the other side at the reflected price; a market order has no price. -/
def Order.mirror (pivot : Int) (order : Order) : Order :=
  { order with
    side := order.side.opposite
    priceTicks := if order.isMarket then order.priceTicks else pivot - order.priceTicks }

/-- What `place_order` tells of the reflected order. -/
def PlaceOrderResult.mirror (pivot : Int) (result : PlaceOrderResult) : PlaceOrderResult :=
  { result with fills := result.fills.map (Fill.mirror pivot) }

/-- The reflected result; errors stay as they are. -/
def mirrorResult (pivot : Int) :
    OrderResult PlaceOrderResult → OrderResult PlaceOrderResult
  | .ok result => .ok (result.mirror pivot)
  | .error error => .error error

/-- A resting order of the reflected book. -/
def Resting.mirror (pivot : Int) (resting : Resting) : Resting :=
  { resting with side := resting.side.opposite, price := pivot - resting.price }

theorem Order.priceMatches_mirror (pivot : Int) (order : Order) (price : Int) :
    (order.mirror pivot).priceMatches (pivot - price) = order.priceMatches price := by
  unfold priceMatches mirror
  cases market : order.isMarket with
  | true => rfl
  | false =>
    cases order.side <;>
      simp only [Bool.false_eq_true, if_false, Bool.false_or, Side.opposite, decide_eq_decide] <;>
      omega

@[simp] theorem Order.mirror_side (pivot : Int) (order : Order) :
    (order.mirror pivot).side = order.side.opposite := rfl

theorem Order.mirror_mirror (pivot : Int) (order : Order) :
    (order.mirror pivot).mirror pivot = order := by
  obtain ⟨id, side, price, quantity, filled, tif, timestamp, market⟩ := order
  cases market <;> simp [mirror]

namespace Book

/-- The book with its sides exchanged and its prices reflected. -/
def mirror (pivot : Int) (book : Book) : Book :=
  fun side => Ladder.mirror pivot (book side.opposite)

variable {config : PoolConfig} {pivot : Int} {book book' : Book} {order : Order} {side : Side}

theorem mirror_opposite (side : Side) :
    book.mirror pivot side.opposite = Ladder.mirror pivot (book side) := by
  rw [mirror, Side.opposite_opposite]

theorem mirror_update :
    mirror pivot (update book side levels) =
      update (book.mirror pivot) side.opposite (Ladder.mirror pivot levels) := by
  funext other
  rcases side.eq_or_eq_opposite other with rfl | rfl
  · rw [mirror, update_of_ne (Side.opposite_ne other),
      update_of_ne (Side.opposite_ne other).symm, mirror]
  · rw [mirror, Side.opposite_opposite, update_self, update_self]

theorem resting_mirror (pivot : Int) (book : Book) :
    (book.mirror pivot).resting ~ book.resting.map (Resting.mirror pivot) := by
  have reflected : ∀ side levels, Ladder.resting side.opposite (Ladder.mirror pivot levels) =
      (Ladder.resting side levels).map (Resting.mirror pivot) := by
    intro side levels
    simp [Ladder.resting, Ladder.mirror, Level.resting, Level.mirror, Resting.mirror,
      map_flatMap, flatMap_map, comp_def]
  rw [resting, resting, map_append, ← reflected .buy, ← reflected .sell]
  exact perm_append_comm

theorem mem_resting_mirror {resting : Resting} (mem : resting ∈ book.resting) :
    resting.mirror pivot ∈ (book.mirror pivot).resting :=
  (resting_mirror pivot book).mem_iff.mpr (mem_map_of_mem mem)

theorem exists_of_mem_resting_mirror {resting : Resting}
    (mem : resting ∈ (book.mirror pivot).resting) :
    ∃ original ∈ book.resting, resting = original.mirror pivot := by
  obtain ⟨original, originalMember, rfl⟩ := mem_map.mp ((resting_mirror pivot book).mem_iff.mp mem)
  exact ⟨original, originalMember, rfl⟩

/-- Prices of limit orders that stay positive when they are reflected. -/
def Inside (pivot : Int) (order : Order) : Prop :=
  order.isMarket = true ∨ 0 < order.priceTicks ∧ order.priceTicks < pivot

theorem crosses_mirror : (book.mirror pivot).Crosses (order.mirror pivot) ↔ book.Crosses order := by
  have head : (book.mirror pivot (order.mirror pivot).side.opposite).head? =
      (book order.side.opposite).head?.map (Level.mirror pivot) := by
    rw [Order.mirror_side, mirror_opposite, Ladder.mirror, List.head?_map]
  simp only [Crosses, head, Option.mem_def, Option.map_eq_some_iff]
  constructor
  · rintro ⟨level, ⟨original, isHead, rfl⟩, accepted⟩
    exact ⟨original, isHead, (order.priceMatches_mirror pivot original.price).symm.trans accepted⟩
  · rintro ⟨level, isHead, accepted⟩
    exact ⟨level.mirror pivot, ⟨level, isHead, rfl⟩,
      (order.priceMatches_mirror pivot level.price).trans accepted⟩

theorem hasCumulative_mirror (order : Order) (levels : List Level) (available : Int) :
    hasCumulative order.quantityLots (order.mirror pivot).priceTicks order.isMarket
        ((order.mirror pivot).side == .buy) (Ladder.mirror pivot levels) available =
      hasCumulative order.quantityLots order.priceTicks order.isMarket
        (order.side == .buy) levels available := by
  induction levels generalizing available with
  | nil => rfl
  | cons level rest ih =>
    have same : SkipList.acceptable (order.mirror pivot).priceTicks order.isMarket
        ((order.mirror pivot).side == .buy) (level.mirror pivot).price =
        SkipList.acceptable order.priceTicks order.isMarket (order.side == .buy) level.price :=
      ((order.mirror pivot).acceptable_eq _).trans
        ((order.priceMatches_mirror pivot _).trans (order.acceptable_eq _).symm)
    simp only [Ladder.mirror, map_cons, hasCumulative, same] at ih ⊢
    simp only [ih, show (level.mirror pivot).total = level.total from rfl]

theorem fillable_mirror :
    (book.mirror pivot).Fillable (order.mirror pivot) ↔ book.Fillable order := by
  rw [Fillable, mirror_opposite]
  exact Eq.congr_left (hasCumulative_mirror order _ 0)

theorem ids_mirror (pivot : Int) (book : Book) :
    (book.mirror pivot).resting.map (·.orderId) ~ book.resting.map (·.orderId) := by
  have ids := (resting_mirror pivot book).map (·.orderId)
  rwa [map_map] at ids

theorem Admits.mirror (inside : Inside pivot order) (admitted : book.Admits config order) :
    (book.mirror pivot).Admits config (order.mirror pivot) where
  price := by
    rintro ⟨limit, bad⟩
    rcases inside with market | ⟨-, below⟩
    · exact absurd limit (by simp [Order.mirror, market])
    · have limit' : order.isMarket = false := limit
      simp only [Order.mirror, limit', Bool.false_eq_true, if_false] at bad
      omega
  quantity := admitted.quantity
  fresh := by
    intro resting mem
    obtain ⟨original, originalMember, rfl⟩ := exists_of_mem_resting_mirror mem
    exact admitted.fresh original originalMember
  slot := by
    rw [(resting_mirror pivot book).length_eq, length_map]
    exact admitted.slot
  queues := admitted.queues

theorem Inside.mirror (inside : Inside pivot order) : Inside pivot (order.mirror pivot) := by
  rcases inside with market | ⟨positive, below⟩
  · exact Or.inl market
  · by_cases market : order.isMarket = true
    · exact Or.inl market
    · right
      simp only [Order.mirror]
      omega

theorem mirror_mirror (pivot : Int) (book : Book) : (book.mirror pivot).mirror pivot = book := by
  funext side
  have twice : Level.mirror pivot ∘ Level.mirror pivot = id := by
    funext level
    simp [Level.mirror]
  rw [mirror, mirror, Side.opposite_opposite, Ladder.mirror, Ladder.mirror, map_map, twice, map_id]

theorem admits_mirror (inside : Inside pivot order) :
    (book.mirror pivot).Admits config (order.mirror pivot) ↔ book.Admits config order := by
  constructor
  · intro admitted
    have back := admitted.mirror inside.mirror
    rwa [mirror_mirror, Order.mirror_mirror] at back
  · exact Admits.mirror inside

/-- An order that is not admitted is refused for the same reason in both books. -/
theorem refusal_mirror (inside : Inside pivot order) :
    (book.mirror pivot).refusal (order.mirror pivot) = book.refusal order := by
  have priced : ∀ {order : Order}, Inside pivot order →
      ¬ (order.isMarket = false ∧ order.priceTicks ≤ 0) := by
    rintro order (market | ⟨positive, -⟩) ⟨limit, bad⟩
    · simp [market] at limit
    · omega
  have known : (order.mirror pivot).id ∈ (book.mirror pivot).resting.map (·.orderId) ↔
      order.id ∈ book.resting.map (·.orderId) :=
    (ids_mirror pivot book).mem_iff
  simp only [refusal, if_neg (priced inside), if_neg (priced inside.mirror), known]
  rfl

theorem sweptAndRested_mirror (limit : order.isMarket = false) (want : Int) :
    (book.mirror pivot).sweptAndRested (order.mirror pivot) want (Ladder.mirror pivot levels) =
      (book.sweptAndRested order want levels).mirror pivot := by
  have price : (order.mirror pivot).priceTicks = pivot - order.priceTicks := by
    simp [Order.mirror, limit]
  rw [sweptAndRested, sweptAndRested, mirror_update, mirror_update, price,
    ← Ladder.rest_mirror, Order.mirror_side, mirror_opposite]
  rfl

/-- Placing the reflected order does the reflected thing. -/
theorem Places.mirror (inside : Inside pivot order) (admitted : book.Admits config order)
    (places : book.Places config order result book') :
    (book.mirror pivot).Places config (order.mirror pivot) (mirrorResult pivot result)
      (book'.mirror pivot) := by
  have own : entries (book.mirror pivot (order.mirror pivot).side) = entries (book order.side) := by
    rw [Order.mirror_side, mirror_opposite, Ladder.entries_mirror]
  have swept : ∀ levels,
      Book.mirror pivot (update book order.side.opposite levels) =
      update (book.mirror pivot) (order.mirror pivot).side.opposite
        (Ladder.mirror pivot levels) := fun levels => mirror_update
  have sweeps : ∀ {fills want levels}, Trades order.priceMatches order.quantityLots
        (book order.side.opposite) fills want levels →
      Trades (order.mirror pivot).priceMatches order.quantityLots
        (book.mirror pivot (order.mirror pivot).side.opposite) (fills.map (Fill.mirror pivot))
        want (Ladder.mirror pivot levels) := by
    intro fills want levels trades
    rw [mirror_opposite]
    exact trades.mirror (order.priceMatches_mirror pivot)
  have settles : ∀ {want levels}, Settled order.priceMatches want levels →
      Settled (order.mirror pivot).priceMatches want (Ladder.mirror pivot levels) :=
    fun settled => settled.mirror (order.priceMatches_mirror pivot)
  have admitted' := admitted.mirror inside
  cases places with
  | refused reason => exact absurd reason admitted.not_refuses
  | rejected _ reason =>
    refine .rejected admitted' ?_
    rwa [crosses_mirror, fillable_mirror]
  | swept _ notPostOnly fillable trades settled done =>
    rw [swept]
    exact .swept admitted' notPostOnly (fun fok => fillable_mirror.mpr (fillable fok))
      (sweeps trades) (settles settled) done
  | rested _ mayRest quiet trades settled left room =>
    rw [← sweptAndRested_mirror mayRest.1]
    refine .rested admitted' mayRest (fun postOnly => ?_) (sweeps trades) (settles settled) left ?_
    · rw [crosses_mirror]
      exact quiet postOnly
    · rwa [own]
  | lost _ mayRest quiet trades settled left full =>
    rw [swept]
    refine .lost admitted' mayRest (fun postOnly => ?_) (sweeps trades) (settles settled) left ?_
    · rw [crosses_mirror]
      exact quiet postOnly
    · rwa [own]

theorem Cancels.mirror (cancels : book.Cancels orderId result book') :
    (book.mirror pivot).Cancels orderId result (book'.mirror pivot) := by
  cases cancels with
  | unknown absent =>
    refine .unknown fun resting mem => ?_
    obtain ⟨original, originalMember, rfl⟩ := exists_of_mem_resting_mirror mem
    exact absent original originalMember
  | removed resting mem same =>
    have removed := Cancels.removed (resting.mirror pivot)
      (@mem_resting_mirror pivot book resting mem) same
    rw [mirror_update, ← Ladder.drop_mirror, ← mirror_opposite]
    exact removed

end Book

/-! ## Runs -/

/-- The reflected request: the other side, and the reflected price of a limit order. -/
def Request.mirror (pivot : Int) : Request → Request
  | .limit id side priceTicks quantityLots timeInForce timestamp =>
    .limit id side.opposite ⟨wrapI64 (pivot - priceTicks.val), inI64_wrapI64 _⟩ quantityLots
      timeInForce timestamp
  | .market id side quantityLots timestamp => .market id side.opposite quantityLots timestamp

/-- The reflected call. -/
def Call.mirror (pivot : Int) : Call → Call
  | .place request => .place (request.mirror pivot)
  | .cancel orderId => .cancel orderId

/-- The reflected answer: the same status, quantities and makers at reflected prices. -/
def Answer.mirror (pivot : Int) : Answer → Answer
  | .placed result => .placed (mirrorResult pivot result)
  | .cancelled result => .cancelled result

/-- Limit prices that are valid prices on both sides of the reflection. -/
def Call.Inside (pivot : Int) : Call → Prop
  | .place (.limit _ _ priceTicks _ _ _) =>
    0 < priceTicks.val ∧ priceTicks.val < pivot ∧ InI64 (pivot - priceTicks.val)
  | .place (.market _ _ _ _) => True
  | .cancel _ => True

instance (pivot : Int) : DecidablePred (Call.Inside pivot)
  | .place (.limit _ _ _ _ _ _) => inferInstanceAs (Decidable (_ ∧ _))
  | .place (.market _ _ _ _) => .isTrue trivial
  | .cancel _ => .isTrue trivial

namespace MatchingEngine

variable {pivot : Int}

/-- The engines hold a book and its mirror image. -/
def Mirrored (config : PoolConfig) (pivot : Int) (engine other : MatchingEngine) : Prop :=
  ∃ book : Book, Sound config engine [] book ∧ Sound config other [] (book.mirror pivot)

namespace Mirrored

section

variable (mirrored : Mirrored config pivot engine other)
include mirrored

theorem levels_eq (side : Side) :
    other.levels side.opposite = (engine.levels side).map (Level.mirror pivot) := by
  obtain ⟨book, sound, otherSound⟩ := mirrored
  rw [sound.levels_eq, otherSound.levels_eq, Book.mirror, Side.opposite_opposite, Ladder.mirror]

theorem placeOrder {order : Order} (constructed : order.filledLots = 0)
    (inRange : InI64 order.quantityLots) (inside : Book.Inside pivot order) :
    (other.placeOrder (order.mirror pivot)).2 = mirrorResult pivot (engine.placeOrder order).2 ∧
      Mirrored config pivot (engine.placeOrder order).1
        (other.placeOrder (order.mirror pivot)).1 := by
  obtain ⟨book, sound, otherSound⟩ := mirrored
  by_cases admitted : book.Admits config order
  · obtain ⟨after, places, soundAfter⟩ := sound.placeOrder constructed inRange
    obtain ⟨otherAfter, otherPlaces, otherSoundAfter⟩ :=
      @Sound.placeOrder config other (book.mirror pivot) (order.mirror pivot) otherSound
        constructed inRange
    obtain ⟨sameAnswer, rfl⟩ :=
      otherPlaces.unique (admitted.mirror inside) (places.mirror inside admitted)
    exact ⟨sameAnswer, after, soundAfter, otherSoundAfter⟩
  · have otherRefused := (Book.admits_mirror inside).not.mpr admitted
    rw [sound.placeOrder_refused admitted, otherSound.placeOrder_refused otherRefused,
      Book.refusal_mirror inside]
    exact ⟨rfl, book, sound, otherSound⟩

theorem cancelOrder (orderId : Nat) :
    (other.cancelOrder orderId).2 = (engine.cancelOrder orderId).2 ∧
      Mirrored config pivot (engine.cancelOrder orderId).1 (other.cancelOrder orderId).1 := by
  obtain ⟨book, sound, otherSound⟩ := mirrored
  obtain ⟨after, cancels, soundAfter⟩ := sound.cancelOrder orderId
  obtain ⟨otherAfter, otherCancels, otherSoundAfter⟩ := otherSound.cancelOrder orderId
  obtain ⟨sameAnswer, rfl⟩ := otherCancels.unique otherSound.ids_nodup cancels.mirror
  exact ⟨sameAnswer, after, soundAfter, otherSoundAfter⟩

/-- One call and its mirror image. -/
theorem step {call : Call} (inside : call.Inside pivot) :
    (other.step (call.mirror pivot)).2 = (engine.step call).2.mirror pivot ∧
      Mirrored config pivot (engine.step call).1 (other.step (call.mirror pivot)).1 := by
  cases call with
  | place request =>
    have order : (request.mirror pivot).order = request.order.mirror pivot := by
      cases request with
      | limit id side price quantity tif timestamp =>
        simp only [Request.mirror, Request.order, Order.new, Order.mirror,
          wrapI64_eq inside.2.2, Bool.false_eq_true, if_false]
      | market id side quantity timestamp => rfl
    have placed := mirrored.placeOrder request.order_filledLots request.order_inRange
      (by
        cases request with
        | limit id side price quantity tif timestamp => exact Or.inr ⟨inside.1, inside.2.1⟩
        | market id side quantity timestamp => exact Or.inl rfl)
    rw [← order] at placed
    exact ⟨congrArg Answer.placed placed.1, placed.2⟩
  | cancel orderId =>
    obtain ⟨sameAnswer, after⟩ := mirrored.cancelOrder orderId
    exact ⟨congrArg Answer.cancelled sameAnswer, after⟩

theorem run {calls : List Call} (inside : ∀ call ∈ calls, call.Inside pivot) :
    (other.run (calls.map (Call.mirror pivot))).2 = (engine.run calls).2.map (Answer.mirror pivot) ∧
      Mirrored config pivot (engine.run calls).1 (other.run (calls.map (Call.mirror pivot))).1 := by
  induction calls generalizing engine other with
  | nil => exact ⟨rfl, mirrored⟩
  | cons call calls ih =>
    obtain ⟨sameAnswer, after⟩ := mirrored.step (inside call mem_cons_self)
    obtain ⟨answers, last⟩ := ih after fun later mem => inside later (mem_cons_of_mem _ mem)
    refine ⟨?_, last⟩
    simp only [map_cons, MatchingEngine.run, sameAnswer, answers]

end

end Mirrored

/-- A run of the reflected calls is the reflected run: the same answers call by call, with
the makers at reflected prices, and the reflected book. -/
theorem run_mirror (config : PoolConfig) (pivot : Int) (calls : List Call)
    (inside : ∀ call ∈ calls, call.Inside pivot) :
    ((new config).run (calls.map (Call.mirror pivot))).2 =
        ((new config).run calls).2.map (Answer.mirror pivot) ∧
      ∀ side, ((new config).run (calls.map (Call.mirror pivot))).1.levels side.opposite =
        (((new config).run calls).1.levels side).map (Level.mirror pivot) := by
  have mirrored : Mirrored config pivot (new config) (new config) :=
    ⟨fun _ => [], sound_new config, sound_new config⟩
  obtain ⟨answers, last⟩ := mirrored.run inside
  exact ⟨answers, last.levels_eq⟩

/-- Two asks and a buy that takes both of them. -/
theorem run_mirror_twoAsks :
    let calls : List Call := [.place (.limit 1 .sell 3 1 .gtc 0),
      .place (.limit 2 .sell 4 1 .gtc 1), .place (.limit 3 .buy 5 3 .gtc 2)]
    (∀ call ∈ calls, call.Inside 10) ∧
      ((new ⟨4, 4⟩).run (calls.map (Call.mirror 10))).2 =
        ((new ⟨4, 4⟩).run calls).2.map (Answer.mirror 10) :=
  ⟨by decide, (run_mirror ⟨4, 4⟩ 10 _ (by decide)).1⟩

/-- A limit price of zero is below every positive constant; it is refused while its mirror
image is accepted. -/
theorem not_run_mirror_priceZero :
    let calls : List Call := [.place (.limit 1 .buy 0 1 .gtc 0)]
    ((new ⟨4, 4⟩).run (calls.map (Call.mirror 10))).2 ≠
      ((new ⟨4, 4⟩).run calls).2.map (Answer.mirror 10) := by
  intro calls same
  have refused : ((new ⟨4, 4⟩).run calls).2 = [.placed (.error (.invalidPrice 0))] := rfl
  have accepted : ((new ⟨4, 4⟩).run (calls.map (Call.mirror 10))).2 =
      [.placed (.ok { orderId := 1, filledLots := 0, status := .accepted, fills := [] })] := rfl
  rw [refused, accepted] at same
  simp [Answer.mirror, mirrorResult] at same

end MatchingEngine
end LightningX.Matching
