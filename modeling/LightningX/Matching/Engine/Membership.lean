import LightningX.Matching.Engine.Accounting

/-!
# Which orders rest after a call

The identifiers that enter and leave the book with one placed order: the order
itself if it is queued, and makers that its fills use up.
-/

namespace LightningX.Matching

open List

namespace Ladder

variable {accepts : Int → Bool} {want want' : Int} {levels levels' : List Level} {fills : List Fill}

/-- An order that leaves a ladder during trades is a maker. -/
theorem Trades.maker_of_gone (trades : Trades accepts want levels fills want' levels')
    (rested : orderId ∈ (resting side levels).map (·.orderId)) :
    orderId ∈ (resting side levels').map (·.orderId) ∨ ∃ fill ∈ fills, fill.makerId = orderId := by
  induction trades with
  | none => exact .inl rested
  | @trade want level worse entry queue fills _ _ _ _ front _ ih =>
    by_cases isMaker : entry.orderId = orderId
    · exact .inr ⟨_, mem_cons_self, isMaker⟩
    · have stays : orderId ∈ (resting side
          (hit (min want entry.lots) (level :: worse))).map (·.orderId) := by
        rw [resting_front front, map_cons, mem_cons] at rested
        rw [resting_hit front, map_append, mem_append]
        exact .inr (rested.resolve_left (Ne.symm isMaker))
      rcases ih stays with later | ⟨fill, mem, same⟩
      · exact .inl later
      · exact .inr ⟨fill, mem_cons_of_mem _ mem, same⟩

end Ladder

theorem Book.maker_of_gone {book : Book}
    (trades : Ladder.Trades accepts want (book side) fills want' levels) :
    ∀ orderId ∈ book.resting.map (·.orderId),
      orderId ∈ (resting (Function.update book side levels)).map (·.orderId) ∨
        ∃ fill ∈ fills, fill.makerId = orderId := by
  intro orderId mem
  rw [((resting_perm book side).map (·.orderId)).mem_iff, map_append, mem_append] at mem
  rw [((resting_update book side levels).map (·.orderId)).mem_iff, map_append, mem_append]
  rcases mem with own | other
  · exact (trades.maker_of_gone own).imp_left .inl
  · exact .inl (.inr other)

/-- If there are as many queue nodes as orders, an order that is answered with an
error leaves the book as it is. -/
theorem Book.Places.book_eq_of_error {book' : Book} {order : Order} {error : MatchingEngineError}
    (places : book.Places config order (.error error) book')
    (nodes : config.orderCapacity ≤ config.queueCapacity) : book' = book := by
  cases places with
  | refused => rfl
  | lost admitted mayRest quiet trades settled left full =>
    have slot := admitted.slot
    have atMost : (Ladder.entries (book order.side)).length ≤ book.resting.length := by
      rw [← @Ladder.resting_length _ order.side, (book.resting_perm order.side).length_eq,
        length_append]
      exact Nat.le_add_right _ _
    omega

namespace MatchingEngine

open Reference

variable {config : PoolConfig} {engine : MatchingEngine} {book book' : Book} {order : Order}
  {result : PlaceOrderResult}

/-- How the identifiers of the book change with a placed order. -/
structure PlacedIds (before after : List Nat) (order : Order) (result : PlaceOrderResult) :
    Prop where
  orderId : result.orderId = order.id
  fresh : order.id ∉ before
  added : ∀ orderId ∈ after, orderId ∈ before ∨ orderId = order.id
  removed : ∀ orderId ∈ before, orderId ∈ after ∨ ∃ fill ∈ result.fills, fill.makerId = orderId
  makers : ∀ fill ∈ result.fills, fill.makerId ∈ before
  rests : order.id ∈ after ↔
    result.status = .accepted ∨ result.status = .partiallyFilled ∧ order.mayRest

/-- The orders of the book are the old ones and the placed one, if it is open,
without the makers that are used up. -/
theorem PlacedIds.mem_iff {after : List Nat} (ids : PlacedIds before after order result)
    (mayRest : result.status = .partiallyFilled → order.mayRest) (orderId : Nat) :
    (orderId ∈ before ∨ orderId = result.orderId ∧
        (result.status = .accepted ∨ result.status = .partiallyFilled)) ∧
      (orderId ∈ after ∨ ∀ fill ∈ result.fills, fill.makerId ≠ orderId) ↔
      orderId ∈ after := by
  constructor
  · rintro ⟨old | ⟨rfl, isOpen⟩, stays | notMaker⟩
    · exact stays
    · refine (ids.removed orderId old).resolve_right ?_
      rintro ⟨fill, mem, same⟩
      exact notMaker fill mem same
    · exact stays
    · rw [ids.orderId, ids.rests]
      exact isOpen.imp_right fun inPart => ⟨inPart, mayRest inPart⟩
  · intro mem
    refine ⟨?_, .inl mem⟩
    rcases ids.added orderId mem with old | rfl
    · exact .inl old
    · exact .inr ⟨ids.orderId.symm, (ids.rests.mp mem).imp_right And.left⟩

theorem status_of_swept (done : want ≤ 0 ∨ ¬ order.mayRest) :
    ¬ ((if order.isFok then .filled
        else takerStatus order (order.quantityLots - want) .rejected) = .accepted ∨
      (if order.isFok then .filled
        else takerStatus order (order.quantityLots - want) .rejected) = .partiallyFilled ∧
          order.mayRest) := by
  unfold takerStatus
  split_ifs with isFok filled traded
  · simp
  · simp
  · rintro (impossible | ⟨-, mayRest⟩)
    · cases impossible
    · exact filled (by have := done.resolve_right (not_not.mpr mayRest); omega)
  · simp

theorem status_of_rested (left : 0 < want) (mayRest : order.mayRest) :
    takerStatus order (order.quantityLots - want) .accepted = .accepted ∨
      takerStatus order (order.quantityLots - want) .accepted = .partiallyFilled ∧
        order.mayRest := by
  unfold takerStatus
  rw [if_neg (by omega)]
  split_ifs
  · exact .inr ⟨rfl, mayRest⟩
  · exact .inl rfl

theorem Sound.placedIds
    (sound : Sound config engine [] book) (places : book.Places config order (.ok result) book') :
    PlacedIds (book.resting.map (·.orderId)) (book'.resting.map (·.orderId)) order
      result := by
  have fresh : book.Admits config order → order.id ∉ book.resting.map (·.orderId) := by
    intro admitted mem
    obtain ⟨resting, isResting, same⟩ := mem_map.mp mem
    exact admitted.fresh resting isResting same
  cases places with
  | rejected admitted reason =>
    exact
      { orderId := rfl
        fresh := fresh admitted
        added := fun _ mem => .inl mem
        removed := fun _ mem => .inl mem
        makers := nofun
        rests := by simp [fresh admitted, untouched] }
  | @swept fills want levels admitted notPostOnly fillable trades settled done =>
    have fewer := Book.ids_update_subset (trades.orderIds_sublist _).subset
    exact
      { orderId := rfl
        fresh := fresh admitted
        added := fun _ mem => .inl (fewer mem)
        removed := Book.maker_of_gone trades
        makers := fun fill mem => Book.mem_ids_side (trades.makerId_mem _ fill mem)
        rests := by
          exact iff_of_false (fun mem => fresh admitted (fewer mem)) (status_of_swept done) }
  | @rested fills want levels admitted mayRest quiet trades settled left room =>
    have after : ∀ orderId,
        orderId ∈ (book.sweptAndRested order want levels).resting.map (·.orderId) ↔
          orderId = order.id ∨ orderId ∈
            (Book.resting (Function.update book order.side.opposite levels)).map (·.orderId) := by
      intro orderId
      rw [((sound.resting_sweptAndRested levels want).map (·.orderId)).mem_iff, map_cons, mem_cons]
    have fewer := Book.ids_update_subset (trades.orderIds_sublist _).subset
    exact
      { orderId := rfl
        fresh := fresh admitted
        added := fun orderId mem => ((after orderId).mp mem).symm.imp_left fun old => fewer old
        removed := fun orderId mem =>
          (Book.maker_of_gone trades orderId mem).imp_left
            fun stays => (after orderId).mpr (.inr stays)
        makers := fun fill mem => Book.mem_ids_side (trades.makerId_mem _ fill mem)
        rests := iff_of_true ((after order.id).mpr (.inl rfl)) (status_of_rested left mayRest) }

/-- The lots that an order can trade with. -/
def offered (engine : MatchingEngine) (order : Order) : Int :=
  lots (candidates order engine.resting)

section

variable (sound : Sound config engine [] book)
include sound

/-- As much is traded as is wanted and offered. -/
theorem Sound.traded_eq {fills : List Fill} {levels : List Level} (sized : 0 < order.quantityLots)
    (trades : Ladder.Trades order.priceMatches order.quantityLots
      (book order.side.opposite) fills want levels)
    (settled : Ladder.Settled order.priceMatches want levels) :
    order.quantityLots - want = min order.quantityLots (engine.offered order) := by
  have sorted := (sound.sides order.side.opposite).sorted
  have positive : Positive (candidates order book.resting) := sound.resting_positive.candidates
  have conserved := trades.conserves
  rw [offered, sound.resting_eq, ← traded_consume sized.le positive,
    Book.candidates_eq sorted, ← trades.fills_eq settled (Ladder.Sorted.closed sorted), traded]
  omega

/-- An order that is filled in part may rest, if none that may not is. -/
theorem Sound.mayRest_of_partiallyFilled (places : book.Places config order (.ok result) book')
    (whole : 0 < engine.offered order → engine.offered order < order.quantityLots →
      order.isFok ∨ order.mayRest)
    (inPart : result.status = .partiallyFilled) : order.mayRest := by
  cases places with
  | rejected => cases inPart
  | @swept fills want levels admitted notPostOnly fillable trades settled done =>
    have tradedEq := sound.traded_eq admitted.quantity trades settled
    replace inPart : (if order.isFok then OrderStatus.filled
      else takerStatus order (order.quantityLots - want) .rejected) = .partiallyFilled :=
      inPart
    unfold takerStatus at inPart
    split_ifs at inPart with isFok filled some
    exact (whole (by omega) (by omega)).resolve_left isFok
  | rested admitted mayRest => exact mayRest

theorem Sound.mem_cancelled {result : CancelOrderResult}
    (cancels : book.Cancels orderId (.ok result) book') (other : Nat) :
    other ∈ book'.resting.map (·.orderId) ↔
      other ≠ orderId ∧ other ∈ book.resting.map (·.orderId) := by
  cases cancels with
  | removed resting isResting same =>
    subst same
    have split := (sound.resting_update_drop isResting).map (·.orderId)
    have distinct := sound.ids_nodup
    rw [split.nodup_iff, map_cons, nodup_cons] at distinct
    rw [split.mem_iff, map_cons, mem_cons]
    constructor
    · intro mem
      refine ⟨?_, .inr mem⟩
      rintro rfl
      exact distinct.1 mem
    · exact fun ⟨ne, mem⟩ => mem.resolve_left ne

end

end MatchingEngine
end LightningX.Matching
