import LightningX.Matching.Engine.Refinement

/-!
# What callers are told about an order

Each order's quantity is accounted for by the answers of a run: what it traded
when it was placed, what it traded as a maker of later orders, what a cancel
returned, what still rests, and what was given up because it could not rest.
-/

namespace LightningX.Matching

open List Function
open Reference Answer Book

variable {request : Request}

abbrev Event := Call × Answer

def Answer.fills : Answer → List Fill
  | .placed (.ok result) => result.fills
  | _ => []

/-- The answer reports that a pool has no room. -/
def Answer.exhausted : Answer → Bool
  | .placed (.error .orderPoolExhausted) => true
  | .placed (.error .nodePoolExhausted) => true
  | .placed (.error .queuePoolExhausted) => true
  | _ => false

/-- The identifier of a placed order. -/
def Call.placedId : Call → Option Nat
  | .place request => some request.order.id
  | .cancel _ => none

/-- The error is that of a check an order fails before it is executed. -/
def MatchingEngineError.failsEntry : MatchingEngineError → Bool
  | .invalidPrice _ => true
  | .invalidQuantity _ => true
  | .duplicateOrderId _ => true
  | _ => false

/-- Lots of an order that are given up when its call returns: everything if it fails
a check, the unfilled rest if it is post-only and rejected or may not rest. -/
def Answer.abandoned (order : Order) : Answer → Int
  | .placed (.ok result) =>
    if result.status = .rejected ∧ order.isPostOnly ∨ ¬ order.mayRest then
      order.quantityLots - traded result.fills
    else 0
  | .placed (.error error) => if error.failsEntry then order.quantityLots else 0
  | .cancelled _ => 0

/-- Lots of an order that are queued when its call returns. -/
def Answer.queued (answer : Answer) (order : Order) : Int :=
  order.quantityLots - traded answer.fills - answer.abandoned order

namespace Answer

variable {order : Order}

theorem queued_of_gone
    (gone : result.status = .rejected ∧ order.isPostOnly ∨ ¬ order.mayRest) :
    Answer.queued (.placed (.ok result)) order = 0 := by
  rw [queued, abandoned, if_pos gone]
  exact Int.sub_self _

theorem queued_of_kept
    (kept : ¬ (result.status = .rejected ∧ order.isPostOnly ∨ ¬ order.mayRest)) :
    Answer.queued (.placed (.ok result)) order = order.quantityLots - traded result.fills := by
  rw [queued, abandoned, if_neg kept]
  exact Int.sub_zero _

end Answer

/-- A call that does not run out of room fails for a check of the order. -/
theorem Book.Refuses.failsEntry {book : Book} (refuses : Refuses config book order error)
    (room : (Answer.placed (.error error)).exhausted = false) : error.failsEntry := by
  cases refuses with
  | price | quantity | duplicate => rfl
  | exhausted => simp [Answer.exhausted] at room

namespace Event

/-- A quantity that comes with the placing of an order. -/
def ofPlaced (orderId : Nat) (lots : Answer → Order → Int) : Event → Int
  | (.place request, answer) => if request.order.id = orderId then lots answer request.order else 0
  | (.cancel _, _) => 0

def makerLots (orderId : Nat) (event : Event) : Int :=
  traded (event.2.fills.filter fun fill => decide (fill.makerId = orderId))

/-- Lots of an order that a cancel returns. -/
def cancelledLots (orderId : Nat) : Event → Int
  | (_, .cancelled (.ok result)) => if result.orderId = orderId then result.cancelledQuantity else 0
  | _ => 0

end Event

/-- Sum of a quantity over a history. -/
def total (lots : Event → Int) (events : List Event) : Int :=
  (events.map lots).sum

def restingLots (orderId : Nat) (book : List Resting) : Int :=
  lots (book.filter fun resting => decide (resting.orderId = orderId))

open Event

/-- The history says that an order can no longer trade. -/
inductive Finished (orderId : Nat) (events : List Event) : Prop
  /-- It was filled or rejected when it was placed, or could not rest. -/
  | ended (request : Request) (result : PlaceOrderResult)
      (member : (Call.place request, Answer.placed (.ok result)) ∈ events)
      (same : request.order.id = orderId)
      (ends : result.status = .filled ∨ result.status = .rejected ∨ ¬ request.order.mayRest)
  /-- Its call failed. -/
  | refused (request : Request) (error : MatchingEngineError)
      (member : (Call.place request, Answer.placed (.error error)) ∈ events)
      (same : request.order.id = orderId)
  /-- It was cancelled. -/
  | cancelled (result : CancelOrderResult)
      (member : (Call.cancel orderId, cancelled (.ok result)) ∈ events)
  /-- Its reported fills make up its quantity. -/
  | consumed (request : Request) (answer : Answer)
      (member : (Call.place request, answer) ∈ events)
      (same : request.order.id = orderId)
      (all : traded answer.fills + total (makerLots orderId) events = request.order.quantityLots)

/-! ## Sums -/

section Sums

variable {orderId : Nat} {first : List Resting}

theorem total_append (lots : Event → Int) (events : List Event) (event : Event) :
    total lots (events ++ [event]) = total lots events + lots event := by
  simp [total]

theorem restingLots_append (orderId : Nat) (first second : List Resting) :
    restingLots orderId (first ++ second) =
      restingLots orderId first + restingLots orderId second := by
  simp [restingLots, lots]

theorem restingLots_cons (orderId : Nat) (resting : Resting) (book : List Resting) :
    restingLots orderId (resting :: book) =
      (if resting.orderId = orderId then resting.lots else 0) + restingLots orderId book := by
  by_cases same : resting.orderId = orderId <;> simp [restingLots, lots, same]

theorem restingLots_perm (same : first ~ second) :
    restingLots orderId first = restingLots orderId second :=
  ((same.filter _).map _).sum_eq

/-- The orders a history places. -/
def placedIds (events : List Event) : List Nat :=
  events.filterMap fun event => event.1.placedId

theorem placedIds_place (request : Request) (answer : Answer) (events : List Event) :
    placedIds ((Call.place request, answer) :: events) = request.order.id :: placedIds events := rfl

theorem mem_placedIds_of_mem (mem : (Call.place request, answer) ∈ events) :
    request.order.id ∈ placedIds events :=
  mem_filterMap.mpr ⟨_, mem, rfl⟩

theorem total_ofPlaced_of_absent
    (lots : Answer → Order → Int) (absent : orderId ∉ placedIds events) :
    total (ofPlaced orderId lots) events = 0 := by
  refine sum_eq_zero fun value mem => ?_
  obtain ⟨⟨call, answer⟩, eventMember, rfl⟩ := mem_map.mp mem
  cases call with
  | place request =>
    refine if_neg fun same => absent ?_
    exact same ▸ mem_placedIds_of_mem eventMember
  | cancel => rfl

/-- A quantity of the only call that places an order. -/
theorem total_ofPlaced (lots : Answer → Order → Int) (distinct : (placedIds events).Nodup)
    (mem : (Call.place request, answer) ∈ events) :
    total (ofPlaced request.order.id lots) events = lots answer request.order := by
  induction events with
  | nil => simp at mem
  | cons event rest ih =>
    have split : total (ofPlaced request.order.id lots) (event :: rest) =
        event.ofPlaced request.order.id lots +
          total (ofPlaced request.order.id lots) rest := by
      simp [total]
    rw [split]
    rcases mem_cons.mp mem with rfl | inRest
    · have absent : request.order.id ∉ placedIds rest := by
        rw [placedIds_place, nodup_cons] at distinct
        exact distinct.1
      rw [total_ofPlaced_of_absent lots absent]
      simp [ofPlaced]
    · obtain ⟨call, answer⟩ := event
      cases call with
      | cancel =>
        rw [ih distinct inRest]
        simp [ofPlaced]
      | place other =>
        rw [placedIds_place, nodup_cons] at distinct
        have ne : other.order.id ≠ request.order.id := fun same =>
          distinct.1 (same ▸ mem_placedIds_of_mem inRest)
        rw [ih distinct.2 inRest]
        simp [ofPlaced, ne]

theorem traded_nonneg {fills : List Fill} (positive : ∀ fill ∈ fills, 0 < fill.lots) :
    0 ≤ traded fills :=
  sum_nonneg (by simpa using fun fill mem => (positive fill mem).le)

end Sums

/-! ## One call -/

/-- Trades take from the makers what they report. -/
theorem Ladder.Trades.restingLots_eq
    {fills : List Fill} (trades : Trades accepts want levels fills want' levels') (orderId : Nat) :
    restingLots orderId (resting side levels) = restingLots orderId (resting side levels') +
      traded (fills.filter fun fill => decide (fill.makerId = orderId)) := by
  induction trades with
  | none => simp [traded]
  | @trade want level worse entry queue fills _ _ _ _ front _ ih =>
    have after : restingLots orderId (resting side (hit (min want entry.lots)
        (level :: worse))) + (if entry.orderId = orderId then min want entry.lots else 0) =
          restingLots orderId (resting side (level :: worse)) := by
      rw [resting_hit front, resting_front front, tail_cons, restingLots_append, restingLots_cons]
      by_cases consumed : entry.lots = min want entry.lots
      · rw [if_pos consumed]
        simp only [restingLots, lots, filter_nil, map_nil, sum_nil]
        omega
      · rw [if_neg consumed, restingLots_cons]
        simp only [restingLots, lots, filter_nil, map_nil, sum_nil]
        split_ifs <;> omega
    rw [← after, ih, filter_cons]
    by_cases same : entry.orderId = orderId
    · simp only [same, decide_true, if_true, traded, map_cons, sum_cons]
      omega
    · simp [same]

namespace Book

variable {book : Book}

theorem restingLots_side (book : Book) (side : Side) (orderId : Nat) :
    restingLots orderId book.resting =
      restingLots orderId (Ladder.resting side (book side)) +
        restingLots orderId (Ladder.resting side.opposite (book side.opposite)) := by
  rw [restingLots_perm (resting_perm book side), restingLots_append]

/-- Makers lose what the taker's fills say. -/
theorem restingLots_update {fills : List Fill}
    (trades : Ladder.Trades accepts want (book side) fills want' levels) (orderId : Nat) :
    restingLots orderId book.resting =
      restingLots orderId (resting (update book side levels)) +
        traded (fills.filter fun fill => decide (fill.makerId = orderId)) := by
  rw [restingLots_side book side, restingLots_perm (resting_update book side levels),
    restingLots_append, trades.restingLots_eq]
  omega

end Book

namespace MatchingEngine

variable {config : PoolConfig} {engine : MatchingEngine} {book book' : Book} {call : Call}

theorem Sound.resting_positive (sound : Sound config engine [] book) : Positive book.resting := by
  intro resting mem
  obtain ⟨_, -, asStored⟩ := sound.linked.stored resting mem
  exact asStored.positive

/-- The orders after a sweep whose rest was queued. -/
theorem Sound.resting_sweptAndRested
    (sound : Sound config engine [] book) (levels : List Level) (want : Int) :
    (Book.sweptAndRested book order want levels).resting ~
      { orderId := order.id, side := order.side, price := order.priceTicks, lots := want } ::
        Book.resting (update book order.side.opposite levels) := by
  have ownSide : update book order.side.opposite levels order.side = book order.side :=
    update_of_ne (Side.opposite_ne _).symm _ _
  have sorted : Ladder.Sorted order.side.sortOrder
      (update book order.side.opposite levels order.side) :=
    ownSide.symm ▸ (sound.sides order.side).sorted
  have rested := Book.resting_update_rest sorted order.priceTicks order.id want
  rwa [ownSide] at rested

/-- A swept order that may rest is filled. -/
theorem filled_of_swept (mayRest : order.mayRest) (done : want ≤ 0 ∨ ¬ order.mayRest) :
    (if order.isFok then .filled
     else takerStatus order (order.quantityLots - want) .rejected) = OrderStatus.filled := by
  have notFok : ¬ order.isFok := by
    rintro ⟨-, fok⟩
    have tif := mayRest.2
    simp [fok] at tif
  have filled := done.resolve_right (not_not.mpr mayRest)
  rw [if_neg notFok]
  exact if_pos (by omega)

/-- Nothing is queued of an order that is filled or may not rest. -/
theorem queued_of_swept {fills : List Fill} (conserved : traded fills + want = order.quantityLots)
    (nonneg : 0 ≤ want) (done : want ≤ 0 ∨ ¬ order.mayRest) :
    Answer.queued (.placed (.ok (report order want
      (if order.isFok then .filled
       else takerStatus order (order.quantityLots - want) .rejected) fills))) order = 0 := by
  by_cases mayRest : order.mayRest
  · have filled := done.resolve_right (not_not.mpr mayRest)
    rw [filled_of_swept mayRest done, queued_of_kept (by simp [report, mayRest])]
    show order.quantityLots - traded fills = 0
    omega
  · exact queued_of_gone (Or.inr mayRest)

theorem takerStatus_accepted_ne_rejected :
    takerStatus order filled .accepted ≠ .rejected := by
  unfold takerStatus
  split_ifs <;> simp

/-- The rest of an order that may rest is queued. -/
theorem queued_of_rested {fills : List Fill}
    (conserved : traded fills + want = order.quantityLots) (mayRest : order.mayRest) :
    Answer.queued (.placed (.ok (report order want
      (takerStatus order (order.quantityLots - want) .accepted) fills))) order = want := by
  rw [queued_of_kept (by simp [report, takerStatus_accepted_ne_rejected, mayRest])]
  show order.quantityLots - traded fills = want
  omega

theorem gone_of_rejected {crosses fillable : Prop}
    (reason : order.isPostOnly ∧ crosses ∨ order.isFok ∧ ¬ fillable) :
    (untouched order .rejected).status = .rejected ∧ order.isPostOnly ∨ ¬ order.mayRest := by
  rcases reason with ⟨postOnly, -⟩ | ⟨⟨-, fok⟩, -⟩
  · exact Or.inl ⟨rfl, postOnly⟩
  · exact Or.inr fun mayRest => by simp [Order.mayRest, fok] at mayRest

/-- What enters the book with a call and what leaves it are what the answer
says. -/
theorem Sound.accounted
    (sound : Sound config engine [] book) (responds : book.Responds config call answer book')
    (room : answer.exhausted = false) (orderId : Nat) :
    restingLots orderId book.resting + ofPlaced orderId Answer.queued (call, answer) =
      restingLots orderId book'.resting + makerLots orderId (call, answer) +
        cancelledLots orderId (call, answer) := by
  cases responds with
  | @placed request result _ places =>
    have placed : ∀ answer : Answer, ofPlaced orderId Answer.queued
        (Call.place request, answer) =
          if request.order.id = orderId then answer.queued request.order else 0 :=
      fun _ => rfl
    have made : ∀ result : PlaceOrderResult, makerLots orderId
        (Call.place request, Answer.placed (.ok result)) =
          traded (result.fills.filter fun fill => decide (fill.makerId = orderId)) :=
      fun _ => rfl
    have nothing : ∀ result : OrderResult PlaceOrderResult,
        cancelledLots orderId (Call.place request, Answer.placed result) = 0 :=
      fun _ => rfl
    rw [nothing, add_zero, placed]
    cases places with
    | refused reason =>
      have entry := reason.failsEntry room
      simp [makerLots, Answer.queued, abandoned, Answer.fills, traded, entry]
    | rejected _ reason =>
      rw [queued_of_gone (gone_of_rejected reason)]
      simp [makerLots, Answer.fills, traded, untouched]
    | swept admitted _ _ trades _ done =>
      rw [queued_of_swept trades.conserves (trades.want_nonneg admitted.quantity.le)
        done, ite_self, add_zero]
      exact restingLots_update trades orderId
    | @rested fills want levels _ mayRest _ trades =>
      rw [queued_of_rested trades.conserves mayRest, made,
        restingLots_perm (sound.resting_sweptAndRested levels want), restingLots_cons,
        restingLots_update trades]
      simp only [report]
      omega
    | lost => simp [Answer.exhausted] at room
  | cancelled cancels =>
    have made : ∀ orderId' result, makerLots orderId
        (Call.cancel orderId', cancelled result) = 0 :=
      fun _ _ => rfl
    have placed : ∀ orderId' answer, ofPlaced orderId Answer.queued
        (Call.cancel orderId', answer) = 0 :=
      fun _ _ => rfl
    rw [made, placed, add_zero, add_zero]
    cases cancels with
    | unknown => exact (add_zero _).symm
    | removed resting mem same =>
      subst same
      rw [restingLots_perm (sound.resting_update_drop mem), restingLots_cons]
      exact add_comm _ _

end MatchingEngine

/-! ## Who is in the book -/

namespace Ladder.Trades

variable {accepts : Int → Bool} {want want' : Int} {levels levels' : List Level} {fills : List Fill}

theorem orderIds_sublist (trades : Trades accepts want levels fills want' levels') (side : Side) :
    ((resting side levels').map (·.orderId)).Sublist ((resting side levels).map (·.orderId)) := by
  induction trades with
  | none => exact List.Sublist.refl _
  | trade _ _ front _ ih => exact ih.trans (orderIds_hit_sublist front _)

/-- Makers rest in the ladder. -/
theorem makerId_mem (trades : Trades accepts want levels fills want' levels') (side : Side) :
    ∀ fill ∈ fills, fill.makerId ∈ (resting side levels).map (·.orderId) := by
  induction trades with
  | none => simp
  | @trade want level worse entry queue fills _ _ _ _ front _ ih =>
    intro fill mem
    rcases mem_cons.mp mem with rfl | later
    · rw [resting_front front]
      simp
    · exact (orderIds_hit_sublist front _).subset (ih fill later)

end Ladder.Trades

namespace Book

variable {config : PoolConfig} {book book' : Book} {call : Call}

theorem mem_ids_side :
    orderId ∈ (Ladder.resting side (book side)).map (·.orderId) →
      orderId ∈ book.resting.map (·.orderId) := by
  intro mem
  rw [((resting_perm book side).map (·.orderId)).mem_iff, map_append]
  exact mem_append_left _ mem

theorem ids_update_subset
    (fewer : (Ladder.resting side levels).map (·.orderId) ⊆
      (Ladder.resting side (book side)).map (·.orderId)) :
    (resting (update book side levels)).map (·.orderId) ⊆
      book.resting.map (·.orderId) := by
  intro orderId mem
  rw [((resting_update book side levels).map (·.orderId)).mem_iff, map_append, mem_append] at mem
  rcases mem with own | other
  · exact mem_ids_side (fewer own)
  · exact mem_ids_side other

/-- A call reports fills with orders of the book only. -/
theorem Responds.makerId_mem (responds : book.Responds config call answer book') :
    ∀ fill ∈ answer.fills, fill.makerId ∈ book.resting.map (·.orderId) := by
  cases responds with
  | placed places =>
    cases places with
    | swept _ _ _ trades => exact fun fill mem => mem_ids_side (trades.makerId_mem _ fill mem)
    | rested _ _ _ trades => exact fun fill mem => mem_ids_side (trades.makerId_mem _ fill mem)
    | refused => simp [Answer.fills]
    | rejected => simp [Answer.fills, MatchingEngine.untouched]
    | lost => simp [Answer.fills]
  | cancelled => simp [Answer.fills]

end Book

namespace MatchingEngine

variable {config : PoolConfig} {engine : MatchingEngine} {book book' : Book} {call : Call}

/-- Only a placed order is new in the book. -/
theorem Sound.ids_subset
    (sound : Sound config engine [] book) (responds : book.Responds config call answer book') :
    ∀ orderId ∈ book'.resting.map (·.orderId),
      orderId ∈ book.resting.map (·.orderId) ∨ call.placedId = some orderId := by
  intro orderId mem
  cases responds with
  | @placed request _ _ places =>
    cases places with
    | refused => exact Or.inl mem
    | rejected => exact Or.inl mem
    | swept _ _ _ trades => exact Or.inl (ids_update_subset (trades.orderIds_sublist _).subset mem)
    | lost _ _ _ trades => exact Or.inl (ids_update_subset (trades.orderIds_sublist _).subset mem)
    | @rested fills want levels _ _ _ trades =>
      rw [((sound.resting_sweptAndRested levels want).map (·.orderId)).mem_iff,
        map_cons, mem_cons] at mem
      rcases mem with rfl | old
      · exact Or.inr rfl
      · exact Or.inl (ids_update_subset (trades.orderIds_sublist _).subset old)
  | cancelled cancels =>
    cases cancels with
    | unknown => exact Or.inl mem
    | removed resting isResting same =>
      subst same
      left
      rw [((sound.resting_update_drop isResting).map (·.orderId)).mem_iff]
      exact mem_cons_of_mem _ mem

/-- A cancelled order was in the book and is not any more. -/
theorem Sound.cancelled_gone (sound : Sound config engine [] book)
    (responds : book.Responds config (.cancel orderId) (.cancelled (.ok result)) book') :
    orderId ∈ book.resting.map (·.orderId) ∧ orderId ∉ book'.resting.map (·.orderId) := by
  cases responds with
  | cancelled cancels =>
    cases cancels with
    | removed resting isResting same =>
      subst same
      have distinct := sound.ids_nodup
      rw [((sound.resting_update_drop isResting).map (·.orderId)).nodup_iff,
        map_cons, nodup_cons] at distinct
      exact ⟨mem_map_of_mem isResting, distinct.1⟩

end MatchingEngine

/-! ## Runs -/

/-- What is true of every single answer. -/
structure Event.Sensible (event : Event) : Prop where
  /-- Fills have lots. -/
  fills : ∀ fill ∈ event.2.fills, 0 < fill.lots
  /-- No more than the quantity is filled, and all of it if a filled order
  could have rested. -/
  placed : ∀ request result, event = (.place request, .placed (.ok result)) →
    traded result.fills ≤ request.order.quantityLots ∧
      (result.status = .filled → request.order.mayRest →
        traded result.fills = request.order.quantityLots)
  /-- An order that could have rested is rejected for it is post-only. -/
  rejected : ∀ request result, event = (.place request, .placed (.ok result)) →
    result.status = .rejected → request.order.mayRest → request.order.isPostOnly
  /-- A call fails for a check of the order. -/
  refused : ∀ request error, event = (.place request, .placed (.error error)) →
    error.failsEntry
  /-- A cancel returns no negative quantity. -/
  cancelled : ∀ result, event.2 = .cancelled (.ok result) → 0 ≤ result.cancelledQuantity

/-- The history of a run agrees with the book it leaves. -/
structure Ledger (events : List Event) (book : Book) : Prop where
  /-- Every resting order was placed. -/
  known : ∀ orderId ∈ book.resting.map (·.orderId), orderId ∈ placedIds events
  /-- What was queued has traded, was cancelled or rests. -/
  balance : ∀ orderId, total (ofPlaced orderId Answer.queued) events =
    total (makerLots orderId) events + total (cancelledLots orderId) events +
      restingLots orderId book.resting
  sensible : ∀ event ∈ events, event.Sensible
  /-- A cancelled order was placed and is gone. -/
  cancelled : ∀ orderId result,
    (Call.cancel orderId, cancelled (.ok result)) ∈ events →
      orderId ∈ placedIds events ∧ orderId ∉ book.resting.map (·.orderId)
  /-- Finished orders are no makers. -/
  makers : ∀ before event after, events = before ++ event :: after →
    ∀ fill ∈ event.2.fills, ¬ Finished fill.makerId before

namespace Ledger

variable {events : List Event} {book : Book}

theorem total_makerLots_nonneg (ledger : Ledger events book) :
    0 ≤ total (makerLots orderId) events := by
  apply sum_nonneg
  intro value mem
  obtain ⟨event, eventMember, rfl⟩ := mem_map.mp mem
  exact traded_nonneg fun fill fillMember =>
    (ledger.sensible event eventMember).fills fill (mem_filter.mp fillMember).1

theorem total_cancelledLots_nonneg (ledger : Ledger events book) :
    0 ≤ total (cancelledLots orderId) events := by
  apply sum_nonneg
  intro value mem
  obtain ⟨event, eventMember, rfl⟩ := mem_map.mp mem
  unfold cancelledLots
  split
  · split_ifs
    · exact (ledger.sensible _ eventMember).cancelled _ rfl
    · exact le_rfl
  · exact le_rfl

/-- What the ledger says of one order. -/
theorem balance_of_mem (ledger : Ledger events book) (distinct : (placedIds events).Nodup)
    (mem : (Call.place request, answer) ∈ events) :
    traded answer.fills + total (makerLots request.order.id) events +
        total (cancelledLots request.order.id) events +
        restingLots request.order.id book.resting + answer.abandoned request.order =
      request.order.quantityLots := by
  have balance := ledger.balance request.order.id
  rw [total_ofPlaced Answer.queued distinct mem, Answer.queued] at balance
  omega

theorem not_mem_of_restingLots (positive : Positive book.resting)
    (none : restingLots orderId book.resting ≤ 0) : orderId ∉ book.resting.map (·.orderId) := by
  intro mem
  obtain ⟨resting, isResting, rfl⟩ := mem_map.mp mem
  obtain ⟨before, after, split⟩ := append_of_mem isResting
  have nonneg : ∀ part : List Resting, part ⊆ book.resting →
      0 ≤ restingLots resting.orderId part := fun part inBook =>
    lots_nonneg fun other otherMember => positive other (inBook (mem_filter.mp otherMember).1)
  have beforeNonneg := nonneg before (by simp [split])
  have afterNonneg := nonneg after (by rw [split]; exact fun _ inAfter => by simp [inAfter])
  have lotsPositive := positive resting isResting
  rw [split, restingLots_append, restingLots_cons] at none
  omega

/-- A finished order does not rest. -/
theorem not_mem_of_finished (ledger : Ledger events book) (distinct : (placedIds events).Nodup)
    (positive : Positive book.resting) (finished : Finished orderId events) :
    orderId ∉ book.resting.map (·.orderId) := by
  have made : 0 ≤ total (makerLots orderId) events := ledger.total_makerLots_nonneg
  have returned : 0 ≤ total (cancelledLots orderId) events := ledger.total_cancelledLots_nonneg
  cases finished with
  | cancelled result mem => exact (ledger.cancelled orderId result mem).2
  | refused request error mem same =>
    subst same
    have balance := ledger.balance_of_mem distinct mem
    have nothing : traded (Answer.placed (.error error)).fills = 0 := rfl
    have everything : (Answer.placed (.error error)).abandoned request.order =
        request.order.quantityLots :=
      if_pos ((ledger.sensible _ mem).refused request error rfl)
    exact not_mem_of_restingLots positive (by omega)
  | ended request result mem same ends =>
    subst same
    have balance := ledger.balance_of_mem distinct mem
    refine not_mem_of_restingLots positive ?_
    by_cases gone : result.status = .rejected ∧ request.order.isPostOnly ∨
        ¬ request.order.mayRest
    · have queued := queued_of_gone gone
      unfold Answer.queued at queued
      omega
    · have queued := queued_of_kept gone
      obtain ⟨notRejected, mayRest⟩ := not_or.mp gone
      have sensible := ledger.sensible _ mem
      have filled := ends.resolve_right (not_or.mpr ⟨fun rejected =>
        notRejected ⟨rejected, sensible.rejected request result rfl rejected
          (not_not.mp mayRest)⟩, mayRest⟩)
      have all := (sensible.placed request result rfl).2 filled (not_not.mp mayRest)
      unfold Answer.queued at queued
      omega
  | consumed request answer mem same all =>
    subst same
    have balance := ledger.balance_of_mem distinct mem
    refine not_mem_of_restingLots positive ?_
    have tradedNonneg : 0 ≤ traded answer.fills := traded_nonneg (ledger.sensible _ mem).fills
    have abandonedNonneg : 0 ≤ answer.abandoned request.order := by
      unfold abandoned
      split
      · have atMost := ((ledger.sensible _ mem).placed request _ rfl).1
        split_ifs <;> omega
      · split_ifs <;> omega
      · exact le_rfl
    omega

end Ledger

theorem placedIds_snoc (events : List Event) (event : Event) :
    placedIds (events ++ [event]) = placedIds events ++ event.1.placedId.toList := by
  obtain ⟨call, answer⟩ := event
  cases call <;> simp [placedIds, Call.placedId]

namespace MatchingEngine

variable {config : PoolConfig} {engine : MatchingEngine} {book book' : Book} {call : Call}
  {answer : Answer}

section

variable (sound : Sound config engine [] book) (responds : book.Responds config call answer book')
include sound responds

theorem Sound.sensible (room : answer.exhausted = false) : Sensible (call, answer) := by
  cases responds with
  | @placed request _ _ places =>
    have noCancel : ∀ (placed : OrderResult PlaceOrderResult) (result : CancelOrderResult),
        Answer.placed placed = .cancelled (.ok result) → 0 ≤ result.cancelledQuantity :=
      fun _ _ impossible => by simp at impossible
    cases places with
    | refused reason =>
      refine ⟨by simp [Answer.fills], by simp, by simp, ?_, noCancel _⟩
      rintro _ _ ⟨⟩
      exact reason.failsEntry room
    | lost => simp [Answer.exhausted] at room
    | rejected admitted reason =>
      refine ⟨by simp [Answer.fills, untouched], ?_, ?_, by simp, noCancel _⟩
      · rintro _ _ ⟨⟩
        exact ⟨admitted.quantity.le, by simp [untouched]⟩
      · rintro _ _ ⟨⟩ - mayRest
        exact ((gone_of_rejected reason).resolve_right (not_not.mpr mayRest)).2
    | swept admitted _ _ trades _ done =>
      have conserved := trades.conserves
      have nonneg := trades.want_nonneg admitted.quantity.le
      refine ⟨(trades.fills_positive (sound.positive _)).1, ?_, ?_, by simp, noCancel _⟩
      · rintro _ _ ⟨⟩
        refine ⟨?_, fun _ mayRest => ?_⟩ <;> unfold report traded <;> simp only
        · omega
        · have filled := done.resolve_right (not_not.mpr mayRest)
          omega
      · rintro _ _ ⟨⟩ rejected mayRest
        simp [report, filled_of_swept mayRest done] at rejected
    | @rested fills want _ admitted _ _ trades _ left =>
      have conserved := trades.conserves
      refine ⟨(trades.fills_positive (sound.positive _)).1, ?_, ?_, by simp, noCancel _⟩
      · rintro _ _ ⟨⟩
        refine ⟨?_, fun filled _ => ?_⟩ <;> unfold report traded at * <;> simp only
        · omega
        · unfold takerStatus at filled
          split_ifs at filled with all
          omega
      · rintro _ _ ⟨⟩ rejected
        exact absurd rejected takerStatus_accepted_ne_rejected
  | cancelled cancels =>
    cases cancels with
    | unknown => exact ⟨by simp [Answer.fills], by simp, by simp, by simp, by simp⟩
    | removed resting mem =>
      refine ⟨by simp [Answer.fills], by simp, by simp, by simp, ?_⟩
      rintro _ ⟨⟩
      exact (sound.resting_positive resting mem).le

/-- One more call keeps the ledger. -/
theorem Sound.ledger (room : answer.exhausted = false)
    (distinct : (placedIds (events ++ [(call, answer)])).Nodup) (ledger : Ledger events book) :
    Ledger (events ++ [(call, answer)]) book' := by
  rw [placedIds_snoc] at distinct
  refine { known := ?_, balance := ?_, sensible := ?_, cancelled := ?_, makers := ?_ }
  · intro orderId mem
    rw [placedIds_snoc, mem_append]
    rcases sound.ids_subset responds orderId mem with old | new
    · exact Or.inl (ledger.known orderId old)
    · exact Or.inr (by simp [new])
  · intro orderId
    have before := ledger.balance orderId
    have step := sound.accounted responds room orderId
    rw [total_append, total_append, total_append]
    omega
  · intro event mem
    rcases mem_append.mp mem with old | new
    · exact ledger.sensible event old
    · rw [mem_singleton.mp new]
      exact sound.sensible responds room
  · intro orderId result mem
    rw [placedIds_snoc, mem_append]
    rcases mem_append.mp mem with old | new
    · obtain ⟨placed, gone⟩ := ledger.cancelled orderId result old
      refine ⟨Or.inl placed, fun present => ?_⟩
      rcases sound.ids_subset responds orderId present with wasThere | again
      · exact gone wasThere
      · rw [again] at distinct
        exact (nodup_append.mp distinct).2.2 orderId placed orderId (by simp) rfl
    · obtain ⟨rfl, rfl⟩ := Prod.mk.inj (mem_singleton.mp new).symm
      obtain ⟨wasThere, gone⟩ := sound.cancelled_gone responds
      exact ⟨Or.inl (ledger.known orderId wasThere), gone⟩
  · intro before event after split fill isFill finished
    rcases eq_nil_or_concat after with rfl | ⟨earlier, last, rfl⟩
    · obtain ⟨rfl, isLast⟩ := append_inj' split rfl
      obtain rfl := singleton_inj.mp isLast
      exact ledger.not_mem_of_finished distinct.of_append_left sound.resting_positive
        finished (responds.makerId_mem fill isFill)
    · rw [concat_eq_append, ← cons_append, ← append_assoc] at split
      obtain ⟨earlierSplit, -⟩ := append_inj' split rfl
      exact ledger.makers before event earlier earlierSplit fill isFill finished

end

/-- The calls of a run with their answers. -/
def history (config : PoolConfig) (calls : List Call) : List Event :=
  calls.zip ((new config).run calls).2

/-- Every run from a fresh engine keeps a ledger. -/
theorem ledger_run
    (config : PoolConfig) (calls : List Call) (distinct : (calls.filterMap Call.placedId).Nodup)
    (room : ∀ answer ∈ ((new config).run calls).2, answer.exhausted = false) :
    ∃ book, Sound config ((new config).run calls).1 [] book ∧
      (history config calls).map (·.1) = calls ∧
      (placedIds (history config calls)).Nodup ∧ Ledger (history config calls) book := by
  obtain ⟨book, sound, lengthEq, ledger⟩ := @run_induction
    (fun calls answers book => answers.length = calls.length ∧
      ((placedIds (calls.zip answers)).Nodup →
        (∀ answer ∈ answers, answer.exhausted = false) → Ledger (calls.zip answers) book)) config
    (by
      refine ⟨rfl, fun _ _ => ⟨by simp [Book.resting], fun orderId => rfl, by simp, by simp, ?_⟩⟩
      intro before event after split
      simp at split)
    (by
      rintro calls answers call book answer book' sound - responds ⟨lengthEq, ledger⟩
      have extended : (calls ++ [call]).zip (answers ++ [answer]) =
          calls.zip answers ++ [(call, answer)] :=
        zip_append lengthEq.symm
      rw [extended]
      refine ⟨by simp [lengthEq], fun distinct room => ?_⟩
      have earlier : (placedIds (calls.zip answers)).Nodup := by
        rw [placedIds_snoc] at distinct
        exact distinct.of_append_left
      exact sound.ledger responds (room answer (by simp)) distinct
        (ledger earlier fun other mem => room other (by simp [mem]))) calls
  have callsEq : (history config calls).map (·.1) = calls := map_fst_zip lengthEq.ge
  have distinctIds : (placedIds (history config calls)).Nodup := by
    have sameIds : placedIds (history config calls) =
        ((history config calls).map (·.1)).filterMap Call.placedId := by
      rw [filterMap_map]
      rfl
    rwa [sameIds, callsEq]
  exact ⟨book, sound, callsEq, distinctIds, ledger distinctIds room⟩

/-- In a run with distinct orders and enough room, what callers are told adds up
to the quantity of every order, and no finished order is a maker. -/
theorem quantity_accounted
    (config : PoolConfig) (calls : List Call) (distinct : (calls.filterMap Call.placedId).Nodup)
    (room : ∀ answer ∈ ((new config).run calls).2, answer.exhausted = false) :
    (∀ request, Call.place request ∈ calls → ∃ answer,
      (Call.place request, answer) ∈ history config calls ∧
      traded answer.fills +
          total (makerLots request.order.id) (history config calls) +
          total (cancelledLots request.order.id) (history config calls) +
          restingLots request.order.id ((new config).run calls).1.resting +
          answer.abandoned request.order =
        request.order.quantityLots) ∧
    ∀ before event after, history config calls = before ++ event :: after →
      ∀ fill ∈ event.2.fills, ¬ Finished fill.makerId before := by
  obtain ⟨book, sound, callsEq, distinctIds, ledger⟩ := ledger_run config calls distinct room
  refine ⟨fun request placed => ?_, ledger.makers⟩
  rw [← callsEq, mem_map] at placed
  obtain ⟨⟨call, answer⟩, member, rfl⟩ := placed
  rw [sound.resting_eq]
  exact ⟨answer, member, ledger.balance_of_mem distinctIds member⟩

/-- An ask trades with a bid, and what is left of it is cancelled. -/
theorem quantity_accounted_cancel :
    ∃ answer, (Call.place (.limit 1 .sell 100 5 .gtc 0), answer) ∈
        history ⟨4, 4⟩ [.place (.limit 1 .sell 100 5 .gtc 0),
          .place (.limit 2 .buy 100 3 .ioc 1), .cancel 1] ∧
      traded answer.fills +
          total (makerLots 1) (history ⟨4, 4⟩ [.place (.limit 1 .sell 100 5 .gtc 0),
            .place (.limit 2 .buy 100 3 .ioc 1), .cancel 1]) +
          total (cancelledLots 1) (history ⟨4, 4⟩
            [.place (.limit 1 .sell 100 5 .gtc 0), .place (.limit 2 .buy 100 3 .ioc 1),
              .cancel 1]) +
          restingLots 1 ((new ⟨4, 4⟩).run [.place (.limit 1 .sell 100 5 .gtc 0),
            .place (.limit 2 .buy 100 3 .ioc 1), .cancel 1]).1.resting +
          answer.abandoned (Request.limit 1 .sell 100 5 .gtc 0).order = 5 :=
  (quantity_accounted ⟨4, 4⟩ [.place (.limit 1 .sell 100 5 .gtc 0),
    .place (.limit 2 .buy 100 3 .ioc 1), .cancel 1] (by decide) (by decide)).1
    (.limit 1 .sell 100 5 .gtc 0) (by decide)

end MatchingEngine
end LightningX.Matching
