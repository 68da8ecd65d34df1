import LightningX.Matching.Engine.SameBook

/-!
# Placing an order and cancelling it

An order that is queued without a trade and cancelled at once leaves the engine
with the book it had, however its pools and skip lists are laid out afterwards.
-/

namespace LightningX.Matching

open List Ladder Function

namespace Ladder

variable {order : SortOrder} {levels levels' : List Level} {accepts : Int → Bool}
  {want want' price lots : Int}

/-- The cached totals are 64-bit numbers. -/
def TotalsInRange (levels : List Level) : Prop :=
  ∀ level ∈ levels, InI64 level.total

theorem TotalsInRange.hit (inRange : TotalsInRange levels) (lots : Int) :
    TotalsInRange (hit lots levels) := by
  cases levels with
  | nil => exact inRange
  | cons level rest =>
    have restInRange : TotalsInRange rest := fun other mem => inRange other (mem_cons_of_mem _ mem)
    rw [hit]
    split_ifs with emptied
    · exact restInRange
    · intro other mem
      rcases mem_cons.mp mem with rfl | inRest
      · cases queueEq : level.queue with
        | nil => simp [Level.hit, queueEq] at emptied
        | cons entry queue =>
          obtain ⟨lower, upper⟩ := inI64_wrapI64 (level.total - lots)
          simp only [Level.hit, queueEq]
          exact ⟨by omega, by omega⟩
      · exact restInRange other inRest

theorem TotalsInRange.trades (inRange : TotalsInRange levels)
    (trades : Trades accepts want levels fills want' levels') : TotalsInRange levels' := by
  induction trades with
  | none => exact inRange
  | trade _ _ _ _ ih => exact ih (inRange.hit _)

theorem TotalsInRange.drop (inRange : TotalsInRange levels) :
    TotalsInRange (drop price orderId levels) := by
  intro level mem
  obtain ⟨original, originalMember, rfl⟩ := mem_map.mp (mem_of_mem_filter mem)
  split_ifs
  · exact inI64_wrapI64 _
  · exact inRange original originalMember

theorem TotalsInRange.rest (sorted : Sorted order levels) (inRange : TotalsInRange levels) :
    TotalsInRange (rest order price orderId lots levels) := by
  intro level mem
  rcases mem_or_eq_push_of_mem_rest sorted mem with old | ⟨target, -, -, rfl⟩
  · exact inRange level old
  · exact inI64_wrapI64 _

/-- Taking out the order that was queued last gives back its level. -/
theorem drop_push {level : Level}
    (inRange : InI64 level.total) (absent : ∀ entry ∈ level.queue, entry.orderId ≠ orderId) :
    (level.push orderId lots).drop orderId = level := by
  have split : (level.push orderId lots).queue = level.queue ++ ⟨orderId, lots⟩ :: [] := rfl
  rw [Level.drop_of_split split absent, append_nil]
  obtain ⟨turns, total⟩ := exists_wrapI64_eq (level.total + lots)
  have back : wrapI64 ((level.push orderId lots).total - lots) = level.total := by
    show wrapI64 (wrapI64 (level.total + lots) - lots) = level.total
    rw [total, show level.total + lots + 2 ^ 64 * turns - lots = level.total + 2 ^ 64 * turns
      by omega, wrapI64_add_turns, wrapI64_eq inRange]
  show { level with total := wrapI64 ((level.push orderId lots).total - lots) } = level
  rw [back]

/-- Queueing an order and taking it out again leaves the ladder as it was. -/
theorem drop_rest
    (sorted : Sorted order levels) (occupied : Occupied levels) (inRange : TotalsInRange levels)
    (absent : ∀ level ∈ levels, ∀ entry ∈ level.queue, entry.orderId ≠ orderId) :
    drop price orderId (rest order price orderId lots levels) = levels := by
  obtain ⟨lower, level, upper, restEq, rfl, split⟩ := exists_rest_split price orderId lots sorted
  rw [restEq]
  rcases split with rfl | ⟨isNew, rfl, missing⟩
  · obtain ⟨lowerNe, upperNe⟩ := sorted.split_ne
    have mem : level ∈ lower ++ level :: upper := by simp
    have dropped := @drop_append lower upper (level.push orderId lots) orderId lowerNe upperNe
    rw [drop_push (inRange level mem) (absent level mem), if_neg (occupied level mem)] at dropped
    exact dropped
  · have others := find_eq_none_iff.mp missing
    have dropped := @drop_append lower upper (level.push orderId lots) orderId
      (fun other mem => others other (by simp [mem]))
      (fun other mem => others other (by simp [mem]))
    have emptied : (level.push orderId lots).drop orderId = level := by
      rw [isNew]
      exact drop_push (by decide : InI64 0) (by simp [Level.empty])
    rw [emptied, if_pos (by rw [isNew]; rfl)] at dropped
    exact dropped

/-- A taker that still wants all it wanted has not traded. -/
theorem Trades.eq_of_want_eq (trades : Trades accepts want levels fills want' levels')
    (positive : Positive levels) (all : want ≤ want') : fills = [] ∧ levels' = levels := by
  cases trades with
  | none => exact ⟨rfl, rfl⟩
  | @trade _ level _ entry _ _ _ _ wanted _ front later =>
    have entryPositive := positive level (by simp) entry (by simp [front])
    have less := (later.fills_positive (positive.hit front (by omega))).2
    omega

end Ladder

namespace Book

variable {config : PoolConfig} {book book' : Book}

theorem totalsInRange_update (inRange : ∀ side, TotalsInRange (book side))
    (changed : TotalsInRange levels) : ∀ other, TotalsInRange (update book side levels other) := by
  intro other
  by_cases same : other = side
  · subst same
    rwa [update_self]
  · rw [update_of_ne same]
    exact inRange other

theorem totalsInRange_responds (inRange : ∀ side, TotalsInRange (book side))
    (sorted : ∀ side, Sorted side.sortOrder (book side))
    (responds : book.Responds config call answer book') : ∀ side, TotalsInRange (book' side) := by
  cases responds with
  | placed places =>
    cases places with
    | refused => exact inRange
    | rejected => exact inRange
    | swept _ _ _ trades => exact totalsInRange_update inRange ((inRange _).trades trades)
    | lost _ _ _ trades => exact totalsInRange_update inRange ((inRange _).trades trades)
    | rested _ _ _ trades =>
      exact totalsInRange_update
        (totalsInRange_update inRange ((inRange _).trades trades))
        (TotalsInRange.rest (sorted _) (inRange _))
  | cancelled cancels =>
    cases cancels with
    | unknown => exact inRange
    | removed => exact totalsInRange_update inRange (inRange _).drop

/-- An order that is accepted is queued with all its lots and nothing else happens. -/
theorem Places.of_accepted (positive : ∀ side, Positive (book side))
    (places : book.Places config order (.ok result) book') (accepted : result.status = .accepted) :
    book.Admits config order ∧ result.fills = [] ∧
      book' = update book order.side (rest order.side.sortOrder
        order.priceTicks order.id order.quantityLots (book order.side)) := by
  cases places with
  | rejected => cases accepted
  | swept =>
    simp only [report, MatchingEngine.takerStatus] at accepted
    split_ifs at accepted
  | @rested fills want levels admitted _ _ trades =>
    have unfilled : order.quantityLots ≤ want := by
      simp only [report, MatchingEngine.takerStatus] at accepted
      split_ifs at accepted
      omega
    obtain ⟨noFills, rfl⟩ := trades.eq_of_want_eq (positive _) unfilled
    obtain rfl : want = order.quantityLots :=
      le_antisymm (trades.fills_positive (positive _)).2 unfilled
    refine ⟨admitted, noFills, ?_⟩
    rw [sweptAndRested, update_eq_self]

end Book

namespace MatchingEngine

variable {config : PoolConfig} {engine : MatchingEngine} {book : Book}

/-- Placing an order that is accepted and cancelling it leads back to the same book. -/
theorem Sound.sameBook_cancelled
    (sound : Sound config engine [] book) (inRange : ∀ side, TotalsInRange (book side))
    (constructed : order.filledLots = 0) (quantityInRange : InI64 order.quantityLots)
    (placed : (engine.placeOrder order).2 = .ok result) (accepted : result.status = .accepted) :
    SameBook config ((engine.placeOrder order).1.cancelOrder order.id).1 engine := by
  obtain ⟨rested, places, restedSound⟩ := sound.placeOrder constructed quantityInRange
  rw [placed] at places
  obtain ⟨admitted, -, rfl⟩ := places.of_accepted sound.positive accepted
  have sideSound := sound.sides order.side
  have mem := (Book.resting_update_rest sideSound.sorted order.priceTicks order.id
    order.quantityLots).mem_iff.mpr mem_cons_self
  have absent : ∀ level ∈ book order.side, ∀ entry ∈ level.queue,
      entry.orderId ≠ order.id := fun level levelMember entry queued =>
    admitted.fresh _ (Book.mem_resting.mpr (mem_resting_of_mem order.side levelMember queued))
  obtain ⟨after, cancels, afterSound⟩ := restedSound.cancelOrder order.id
  obtain ⟨-, rfl⟩ := cancels.unique restedSound.ids_nodup (.removed _ mem rfl)
  rw [update_self, drop_rest sideSound.sorted sideSound.occupied
    (inRange order.side) absent, update_idem, update_eq_self] at afterSound
  exact ⟨book, afterSound, sound⟩

/-- Cancelling an order right after it was accepted takes the placing back: the levels are
what they were and every later run of calls gets the same answers. -/
theorem cancel_undoes_place (config : PoolConfig) (calls : List Call) (request : Request)
    {result : PlaceOrderResult}
    (placed : (((new config).run calls).1.placeOrder request.order).2 = .ok result)
    (accepted : result.status = .accepted) :
    (∀ side, ((((new config).run calls).1.placeOrder request.order).1.cancelOrder
        request.order.id).1.levels side = ((new config).run calls).1.levels side) ∧
      ∀ later, (((((new config).run calls).1.placeOrder request.order).1.cancelOrder
        request.order.id).1.run later).2 = (((new config).run calls).1.run later).2 := by
  obtain ⟨book, sound, inRange⟩ := @run_induction
    (fun _ _ book => ∀ side, TotalsInRange (book side)) config
    (fun _ _ member => by simp at member) (fun sound _ responds inRange =>
      Book.totalsInRange_responds inRange (fun side => (sound.sides side).sorted) responds)
    calls
  have same := sound.sameBook_cancelled inRange request.order_filledLots
    request.order_inRange placed accepted
  exact ⟨same.levels_eq, same.run⟩

/-- A second bid joins a level and is cancelled. -/
theorem cancel_undoes_place_secondBid :
    (((((new ⟨4, 4⟩).run [.place (.limit 1 .buy 100 5 .gtc 0)]).1.placeOrder
        (Request.limit 2 .buy 100 3 .gtc 1).order).1.cancelOrder 2).1.run
          [.place (.limit 3 .sell 90 9 .ioc 2)]).2 =
      (((new ⟨4, 4⟩).run [.place (.limit 1 .buy 100 5 .gtc 0)]).1.run
        [.place (.limit 3 .sell 90 9 .ioc 2)]).2 := by
  have placed : (((new ⟨4, 4⟩).run [.place (.limit 1 .buy 100 5 .gtc 0)]).1.placeOrder
      (Request.limit 2 .buy 100 3 .gtc 1).order).2 =
        .ok { orderId := 2, filledLots := 0, status := .accepted, fills := [] } := by
    decide
  exact (cancel_undoes_place ⟨4, 4⟩ [.place (.limit 1 .buy 100 5 .gtc 0)]
    (.limit 2 .buy 100 3 .gtc 1) placed rfl).2 _

end MatchingEngine
end LightningX.Matching
