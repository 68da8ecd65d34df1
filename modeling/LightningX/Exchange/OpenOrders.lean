import LightningX.Exchange.Recovery
import LightningX.Exchange.Seed
import LightningX.Lib.Along
import LightningX.Matching.Engine.Membership

/-!
# Open orders of a thread

A thread keeps who placed each resting order and how many orders each
participant has in the book, both beside the book itself.  This file says when
the three stay in step, along messages and restarts.
-/

namespace LightningX.Exchange

open List AList Function
open Desk (SymbolRules)
open Matching Transport MatchingEngine
open Persist (OrderColumns)

/-! ## Counts -/

variable {counts : OpenCounts} {participantId : Int}

theorem getD_openCountInc (known : participantId ≠ 0) (other : Int) :
    ((openCountInc counts participantId).lookup other).getD 0 =
      (counts.lookup other).getD 0 + if other = participantId then 1 else 0 := by
  unfold openCountInc
  split_ifs with same
  · rw [same, lookup_insert, Option.getD_some]
  · rw [lookup_insert_ne same, Nat.add_zero]

theorem getD_openCountDec (known : participantId ≠ 0) (other : Int) :
    ((openCountDec counts participantId).lookup other).getD 0 =
      (counts.lookup other).getD 0 - if other = participantId then 1 else 0 := by
  unfold openCountDec
  rw [if_neg known]
  cases found : counts.lookup participantId with
  | none =>
    split_ifs with same
    · rw [same, found]
      rfl
    · rfl
  | some count =>
    simp only
    by_cases same : other = participantId
    · rw [if_pos same, same, found]
      split_ifs with last
      · rw [lookup_erase, Option.getD_none, Option.getD_some, last]
      · rw [lookup_insert, Option.getD_some, Option.getD_some]
    · rw [if_neg same, Nat.sub_zero]
      split_ifs
      · rw [lookup_erase_ne same]
      · rw [lookup_insert_ne same]

namespace FrontEnd

variable {front : FrontEnd} {owner : Nat → Int} {orderId : Nat} {nowNs : Nat} {other : Nat}
  {pools : PoolConfig} {thread : Owned}

/-- How many of some orders a participant placed. -/
def ordersOf (owner : Nat → Int) (orderIds : List Nat) (participantId : Int) : Nat :=
  orderIds.countP fun orderId => decide (owner orderId = participantId)

/-- The tracked participants are the owners, and the counts are their tracked
orders. -/
structure Lockstep (owner : Nat → Int) (front : FrontEnd) : Prop where
  owners : ∀ orderId entry, front.uidMap.lookup orderId = some entry →
    entry.1 = owner orderId ∧ owner orderId ≠ 0
  counts : ∀ participantId, (front.openCounts.lookup participantId).getD 0 =
    ordersOf owner front.uidMap.keys participantId

/-! ## Tracking -/

theorem mem_trackOrder :
    other ∈ (front.trackOrder orderId participantId stream).uidMap ↔
      other = orderId ∨ other ∈ front.uidMap := by
  simp [trackOrder]

theorem mem_untrackOrder :
    other ∈ (front.untrackOrder orderId).uidMap ↔ other ≠ orderId ∧ other ∈ front.uidMap := by
  unfold untrackOrder
  cases found : front.uidMap.lookup orderId with
  | none =>
    have absent : orderId ∉ front.uidMap := lookup_eq_none.mp found
    refine ⟨fun mem => ⟨?_, mem⟩, fun mem => mem.2⟩
    rintro rfl
    exact absent mem
  | some entry => simp

theorem mem_noteTrades (fills : List Fill) :
    other ∈ (fills.foldl (noteTrade nowNs) front).uidMap ↔
      other ∈ front.uidMap ∧
        (other ∈ front.engine.orders ∨ ∀ fill ∈ fills, fill.makerId ≠ other) := by
  induction fills generalizing front with
  | nil => simp
  | cons fill fills ih =>
    rw [foldl_cons, ih, engine_noteTrade]
    have noted : other ∈ (noteTrade nowNs front fill).uidMap ↔
        other ∈ front.uidMap ∧ (other ∈ front.engine.orders ∨ fill.makerId ≠ other) := by
      unfold noteTrade
      simp only
      split_ifs with rests
      · refine ⟨fun mem => ⟨mem, ?_⟩, fun mem => mem.1⟩
        by_cases same : fill.makerId = other
        · exact .inl (same ▸ rests)
        · exact .inr same
      · rw [mem_untrackOrder]
        constructor
        · exact fun ⟨ne, mem⟩ => ⟨mem, .inr ne.symm⟩
        · rintro ⟨mem, stays | ne⟩
          · exact ⟨fun same => rests (same ▸ stays), mem⟩
          · exact ⟨ne.symm, mem⟩
    rw [forall_mem_cons]
    tauto

namespace Lockstep

section

variable (lockstep : Lockstep owner front)
include lockstep

/-- An order that is not tracked may be given an owner. -/
theorem setOwner (untracked : orderId ∉ front.uidMap) (participantId : Int) :
    Lockstep (update owner orderId participantId) front := by
  have others : ∀ other ∈ front.uidMap.keys,
      update owner orderId participantId other = owner other := by
    intro other mem
    refine update_of_ne ?_ _ _
    rintro rfl
    exact untracked (AList.mem_keys.mpr mem)
  constructor
  · intro other entry found
    rw [others other (AList.mem_keys.mp (lookup_isSome.mp (by simp [found])))]
    exact lockstep.owners other entry found
  · intro participant
    rw [lockstep.counts]
    refine countP_congr fun other mem => ?_
    rw [others other mem]

theorem trackOrder (untracked : orderId ∉ front.uidMap) (owned : owner orderId = participantId)
    (known : participantId ≠ 0) :
    Lockstep owner (front.trackOrder orderId participantId stream) where
  owners := by
    intro other entry found
    rcases KeyedMap.lookup_insert_eq_some.mp found with ⟨rfl, rfl⟩ | ⟨-, old⟩
    · exact ⟨owned.symm, owned ▸ known⟩
    · exact lockstep.owners other entry old
  counts := by
    intro participant
    have missing : front.uidMap.lookup orderId = none := lookup_eq_none.mpr untracked
    have keys : (front.trackOrder orderId participantId stream).uidMap.keys =
        orderId :: front.uidMap.keys := by
      rw [FrontEnd.trackOrder, keys_insert, erase_of_not_mem (AList.mem_keys.not.mp untracked)]
    rw [keys, ordersOf, countP_cons, ← ordersOf, ← lockstep.counts]
    simp only [FrontEnd.trackOrder, missing, Option.isNone_none, if_true,
      getD_openCountInc known, owned, decide_eq_true_eq, @eq_comm _ participant]

theorem untrackOrder (orderId : Nat) : Lockstep owner (front.untrackOrder orderId) := by
  unfold FrontEnd.untrackOrder
  cases found : front.uidMap.lookup orderId with
  | none => exact lockstep
  | some entry =>
    obtain ⟨isOwner, known⟩ := lockstep.owners orderId _ found
    have tracked : orderId ∈ front.uidMap.keys :=
      AList.mem_keys.mp (lookup_isSome.mp (by simp [found]))
    constructor
    · intro other entry stays
      exact lockstep.owners other entry (KeyedMap.lookup_erase_eq_some.mp stays).2
    · intro participant
      rw [getD_openCountDec (isOwner ▸ known), lockstep.counts, keys_erase, ordersOf,
        ordersOf, countP_erase]
      simp [tracked, isOwner, eq_comm]

theorem noteTrades (nowNs : Nat) (fills : List Fill) :
    Lockstep owner (fills.foldl (noteTrade nowNs) front) := by
  induction fills generalizing front with
  | nil => exact lockstep
  | cons fill fills ih =>
    apply ih
    have noted : Lockstep owner
        { front with
          lastTradeTicks := fill.priceTicks
          breaker := front.breaker.onTrade nowNs fill.priceTicks } :=
      ⟨lockstep.owners, lockstep.counts⟩
    unfold noteTrade
    simp only
    split
    · exact noted
    · exact noted.untrackOrder _

end

end Lockstep

/-! ## One message -/

section Answer

variable {request : NewOrderRequest}

theorem mem_answer {other : Nat} (untracked : result.orderId ∉ front.uidMap) :
    other ∈ (front.answer request result).1.uidMap ↔
      other ∈ front.uidMap ∨ other = result.orderId ∧
        (result.status = .accepted ∨ result.status = .partiallyFilled) := by
  have others : other ∈ front.uidMap → other ≠ result.orderId := by
    rintro mem rfl
    exact untracked mem
  unfold answer
  cases result.status <;> simp [mem_trackOrder, mem_untrackOrder] <;> tauto

theorem Lockstep.answer
    (lockstep : Lockstep owner front) (untracked : result.orderId ∉ front.uidMap)
    (owned : owner result.orderId = request.participantId) (known : request.participantId ≠ 0) :
    Lockstep owner (front.answer request result).1 := by
  unfold FrontEnd.answer
  split
  · exact lockstep.trackOrder untracked owned known
  · exact lockstep.untrackOrder _
  · exact lockstep.trackOrder untracked owned known
  · exact lockstep.untrackOrder _
  · exact lockstep

end Answer

/-- The participants and the counts are in step with the book. -/
structure InStep (pools : PoolConfig) (owner : Nat → Int) (front : FrontEnd) : Prop where
  sound : front.Sound pools
  keys : ∀ orderId, orderId ∈ front.uidMap ↔ orderId ∈ front.engine.orders
  lockstep : Lockstep owner front

/-- Who placed the orders of the book after a message. -/
def ownerAfter (front : FrontEnd) (owner : Nat → Int) : InboundMsg → Nat → Int
  | .newOrder request =>
    if request.clientOrderId ∈ front.engine.orders then owner
    else update owner request.clientOrderId request.participantId
  | .cancelOrder _ => owner

/-- An order of a known participant that can be filled completely or not at all,
or whose rest can be queued. -/
def Trackable (front : FrontEnd) (nowNs : Nat) : InboundMsg → Prop
  | .newOrder request =>
    request.participantId ≠ 0 ∧
      (0 < front.engine.offered (orderOf nowNs request) →
        front.engine.offered (orderOf nowNs request) < request.quantityLots →
        (orderOf nowNs request).isFok ∨ (orderOf nowNs request).mayRest)
  | .cancelOrder _ => True

instance (front : FrontEnd) (nowNs : Nat) :
    (message : InboundMsg) → Decidable (front.Trackable nowNs message)
  | .newOrder _ => inferInstanceAs (Decidable (_ ∧ (_ → _ → _ ∨ _)))
  | .cancelOrder _ => isTrue trivial

theorem InStep.newOrder (inStep : InStep ⟨capacity, capacity⟩ owner front)
    (inRange : InI64 request.quantityLots) (trackable : front.Trackable nowNs (.newOrder request)) :
    InStep ⟨capacity, capacity⟩ (front.ownerAfter owner (.newOrder request))
      (front.newOrder nowNs request).1 := by
  obtain ⟨book, sound⟩ := inStep.sound
  obtain ⟨known, whole⟩ := trackable
  have lockstep : Lockstep (front.ownerAfter owner (.newOrder request)) front := by
    show Lockstep (if request.clientOrderId ∈ front.engine.orders then owner else _) front
    split_ifs with rests
    · exact inStep.lockstep
    · exact inStep.lockstep.setOwner ((inStep.keys _).not.mpr rests) _
  unfold FrontEnd.newOrder
  cases front.gate nowNs request with
  | some reason => exact ⟨⟨book, sound⟩, inStep.keys, lockstep⟩
  | none =>
    obtain ⟨book', places, sound'⟩ := sound.placeOrder (filledLots_orderOf nowNs request)
      (by rwa [quantityLots_orderOf])
    generalize front.engine.placeOrder (orderOf nowNs request) = placed at *
    obtain ⟨engine, result⟩ := placed
    cases result with
    | error error =>
      obtain rfl := places.book_eq_of_error le_rfl
      refine ⟨⟨_, sound'⟩, fun orderId => ?_, lockstep.owners, lockstep.counts⟩
      show orderId ∈ front.uidMap ↔ orderId ∈ engine.orders
      rw [inStep.keys, sound.mem_orders_iff, sound'.mem_orders_iff]
    | ok result =>
      have ids := sound.placedIds places
      have mayRest := sound.mayRest_of_partiallyFilled places (by rwa [quantityLots_orderOf])
      have before : ∀ orderId, orderId ∈ front.uidMap ↔ orderId ∈ book.resting.map (·.orderId) := by
        intro orderId
        rw [inStep.keys, AList.mem_keys, sound.linked.ids.mem_iff]
      have after : ∀ orderId, orderId ∈ engine.orders ↔
          orderId ∈ book'.resting.map (·.orderId) := by
        intro orderId
        rw [AList.mem_keys, sound'.linked.ids.mem_iff]
      have untracked : result.orderId ∉ front.uidMap := by
        rw [before, ids.orderId]
        exact ids.fresh
      have owned : front.ownerAfter owner (.newOrder request) result.orderId =
          request.participantId := by
        rw [inStep.keys, ids.orderId, id_orderOf] at untracked
        rw [ids.orderId, id_orderOf]
        show (if request.clientOrderId ∈ front.engine.orders then owner else _) _ = _
        rw [if_neg untracked, update_self]
      have placed : Lockstep (front.ownerAfter owner (.newOrder request))
          { front with engine := engine } :=
        ⟨lockstep.owners, lockstep.counts⟩
      refine ⟨⟨book', by simpa using sound'⟩, fun orderId => ?_,
        (placed.answer untracked owned known).noteTrades nowNs result.fills⟩
      have tracked := @mem_answer { front with engine := engine } request result orderId untracked
      rw [engine_foldl_noteTrade, mem_noteTrades, engine_answer, tracked]
      rw [before, after]
      exact ids.mem_iff mayRest orderId

theorem InStep.cancelOrder (inStep : InStep pools owner front) (request : CancelOrderRequest) :
    InStep pools owner (front.cancelOrder request).1 := by
  obtain ⟨book, sound⟩ := inStep.sound
  obtain ⟨book', cancels, sound'⟩ := sound.cancelOrder request.orderId
  unfold FrontEnd.cancelOrder
  generalize front.engine.cancelOrder request.orderId = cancelled at *
  obtain ⟨engine, result⟩ := cancelled
  have kept : Lockstep owner { front with engine := engine } :=
    ⟨inStep.lockstep.owners, inStep.lockstep.counts⟩
  cases result with
  | error error =>
    cases cancels with
    | unknown absent =>
      refine ⟨⟨_, sound'⟩, fun orderId => ?_, kept⟩
      rw [inStep.keys, sound.mem_orders_iff, sound'.mem_orders_iff]
  | ok result =>
    refine ⟨⟨book', by simpa using sound'⟩, fun orderId => ?_, kept.untrackOrder _⟩
    rw [engine_untrackOrder, mem_untrackOrder]
    rw [inStep.keys, AList.mem_keys, AList.mem_keys, sound.linked.ids.mem_iff,
      sound'.linked.ids.mem_iff, sound.mem_cancelled cancels]

theorem InStep.handle (inStep : InStep ⟨capacity, capacity⟩ owner front) (inRange : InRange message)
    (trackable : front.Trackable nowNs message) :
    InStep ⟨capacity, capacity⟩ (front.ownerAfter owner message)
      (front.handle nowNs message).1 := by
  cases message with
  | newOrder request => exact inStep.newOrder inRange trackable
  | cancelOrder request => exact inStep.cancelOrder request

/-! ## Restarts -/

theorem inStep_of_empty (sound : front.Sound pools)
    (noOrders : ∀ orderId, orderId ∉ front.engine.orders) (noParticipants : front.uidMap = ∅)
    (noCounts : front.openCounts = ∅) : InStep pools owner front where
  sound := sound
  keys := fun orderId => iff_of_false (by simp [noParticipants]) (noOrders orderId)
  lockstep := by
    constructor
    · intro orderId entry found
      simp [noParticipants] at found
    · intro participantId
      simp [noCounts, noParticipants, ordersOf]

theorem inStep_new (symbol : Nat) (limits : Limits) (breaker : CircuitBreaker)
    (pools : PoolConfig) :
    InStep pools owner (new symbol limits breaker pools) :=
  inStep_of_empty (sound_new symbol limits breaker) (by simp [new, MatchingEngine.new]) rfl rfl

theorem inStep_resumed (empty : front.engine.orders.keys = []) (breaker : CircuitBreaker) :
    InStep pools owner (front.resumed breaker pools) := by
  have noEntries : front.engine.orders.entries = [] := map_eq_nil_iff.mp empty
  have nothingSaved : front.engine.snapshotResting.orders = [] := by
    simp [MatchingEngine.snapshotResting, MatchingEngine.savedOrders, noEntries,
      StableSort.sortByKey]
  have restored : recovered pools front.engine =
      { MatchingEngine.new pools with
        nextOrderId := front.engine.nextOrderId
        tradeSequence := front.engine.tradeSequence } := by
    rw [recovered, MatchingEngine.restoreResting, nothingSaved]
    rfl
  have sound := MatchingEngine.sound_new pools
  refine inStep_of_empty ⟨fun _ => [], ?_⟩ ?_ rfl rfl
  · show MatchingEngine.Sound pools (recovered pools front.engine) [] _
    rw [restored]
    exact ⟨sound.sides, sound.stored, sound.linked, sound.orderCapacity, sound.trades,
      sound.tradeCapacity, sound.queues⟩
  · intro orderId
    show orderId ∉ (recovered pools front.engine).orders
    rw [restored]
    simp [MatchingEngine.new]

theorem inStep_seeded (none : ∀ row ∈ rows, rowOrder rules row.1 row.2 = none)
    (breaker : CircuitBreaker) : InStep pools owner (front.seeded rules breaker pools rows) := by
  have skipped : ∀ seed : Seed, ∀ own : List (Int × OrderColumns), own ⊆ rows →
      own.foldl (seedRow rules) seed = seed := by
    intro seed own
    induction own with
    | nil => exact fun _ => rfl
    | cons row own ih =>
      intro within
      have isSkipped : seedRow rules seed row = seed := by rw [seedRow, none row (within (by simp))]
      rw [foldl_cons, isSkipped]
      exact ih fun other mem => within (by simp [mem])
  have seed : seedBook pools rules front.symbol rows = (MatchingEngine.new pools, ∅) := by
    unfold seedBook
    simp only
    rw [skipped _ _ (filter_subset_self _)]
    split <;> rfl
  unfold seeded
  simp only [seed]
  exact inStep_new front.symbol front.limits breaker pools

/-! ## Runs -/

/-- A thread and, for each order, who placed it. -/
structure Owned where
  front : FrontEnd
  owner : Nat → Int

/-- What happens to a thread: a message, or a restart from a snapshot of its book
or from rows of the orders table. -/
inductive Event
  | message (nowNs : Nat) (message : InboundMsg)
  | resume (breaker : CircuitBreaker)
  | seed (rules : SymbolRules) (breaker : CircuitBreaker) (rows : List (Int × OrderColumns))

/-- Quantities are transported as `i64`. -/
def Event.InRange : Event → Prop
  | .message _ inbound => Exchange.InRange inbound
  | _ => True

instance : DecidablePred Event.InRange
  | .message _ inbound => inferInstanceAs (Decidable (Exchange.InRange inbound))
  | .resume _ => isTrue trivial
  | .seed _ _ _ => isTrue trivial

/-- Who placed the orders of the table. -/
def rowOwners (owner : Nat → Int) (rows : List (Int × OrderColumns)) : Nat → Int :=
  rows.foldl (fun owner row => update owner (row.1 % 2 ^ 64).toNat row.2.userId) owner

namespace Owned

def step (pools : PoolConfig) (thread : Owned) : Event → Owned
  | .message nowNs message =>
    { front := (thread.front.handle nowNs message).1
      owner := thread.front.ownerAfter thread.owner message }
  | .resume breaker => { thread with front := thread.front.resumed breaker pools }
  | .seed rules breaker rows =>
    { front := thread.front.seeded rules breaker pools rows
      owner := rowOwners thread.owner rows }

/-- A message that can be tracked, or a restart that restores no order. -/
def Tracks (thread : Owned) : Event → Prop
  | .message nowNs message => thread.front.Trackable nowNs message
  | .resume _ => thread.front.engine.orders.keys = []
  | .seed rules _ rows => ∀ row ∈ rows, rowOrder rules row.1 row.2 = none

instance (thread : Owned) : (event : Event) → Decidable (thread.Tracks event)
  | .message nowNs message => inferInstanceAs (Decidable (thread.front.Trackable nowNs message))
  | .resume _ => inferInstanceAs (Decidable (_ = _))
  | .seed rules _ rows =>
    inferInstanceAs (Decidable (∀ row ∈ rows, rowOrder rules row.1 row.2 = none))

/-- Every event of a run can be tracked. -/
def RunTracks (pools : PoolConfig) (thread : Owned) (events : List Event) : Prop :=
  Along (Owned.step pools) Tracks thread events
deriving Decidable

/-- How many orders of a participant rest in the book. -/
def openOrders (thread : Owned) (participantId : Int) : Nat :=
  ordersOf thread.owner thread.front.engine.orders.keys participantId

end Owned

theorem InStep.step {capacity : Nat} {thread : Owned} {event : Event}
    (inStep : InStep ⟨capacity, capacity⟩ thread.owner thread.front) (inRange : event.InRange)
    (tracks : thread.Tracks event) :
    InStep ⟨capacity, capacity⟩ (thread.step ⟨capacity, capacity⟩ event).owner
      (thread.step ⟨capacity, capacity⟩ event).front := by
  cases event with
  | message nowNs message => exact inStep.handle inRange tracks
  | resume breaker => exact inStep_resumed tracks breaker
  | seed rules breaker rows => exact inStep_seeded tracks breaker

theorem InStep.run {capacity : Nat} {thread : Owned} {events : List Event}
    (inStep : InStep ⟨capacity, capacity⟩ thread.owner thread.front)
    (inRange : ∀ event ∈ events, event.InRange)
    (tracks : thread.RunTracks ⟨capacity, capacity⟩ events) :
    InStep ⟨capacity, capacity⟩ (events.foldl (Owned.step ⟨capacity, capacity⟩) thread).owner
      (events.foldl (Owned.step ⟨capacity, capacity⟩) thread).front := by
  induction events generalizing thread with
  | nil => exact inStep
  | cons event events ih =>
    exact ih (inStep.step (inRange event (by simp)) tracks.1)
      (fun other mem => inRange other (by simp [mem])) tracks.2

/-- The orders of a participant that rest are those that are tracked. -/
theorem InStep.openCount_eq
    (inStep : InStep pools thread.owner thread.front) (participantId : Int) :
    (thread.front.openCounts.lookup participantId).getD 0 = thread.openOrders participantId := by
  have sameKeys : thread.front.uidMap.keys.Perm thread.front.engine.orders.keys := by
    refine (perm_ext_iff_of_nodup (keys_nodup _) (keys_nodup _)).mpr ?_
    intro orderId
    rw [← AList.mem_keys, ← AList.mem_keys, inStep.keys]
  rw [inStep.lockstep.counts, Owned.openOrders, ordersOf, ordersOf, sameKeys.countP_eq]

/-- Only known participants have orders in the book. -/
theorem InStep.openOrders_zero (inStep : InStep pools thread.owner thread.front) :
    thread.openOrders 0 = 0 := by
  rw [Owned.openOrders, ordersOf, countP_eq_zero]
  intro orderId mem isZero
  obtain ⟨entry, found⟩ := Option.isSome_iff_exists.mp
    (lookup_isSome.mpr ((inStep.keys orderId).mpr (AList.mem_keys.mpr mem)))
  exact (inStep.lockstep.owners orderId entry found).2 (of_decide_eq_true isZero)

/-- All checks before the one on open orders pass. -/
def Passes (front : FrontEnd) (nowNs : Nat) (request : NewOrderRequest) : Prop :=
  request.symbol = front.symbol ∧ 0 < request.quantityLots ∧
    front.breaker.isHalted nowNs = false ∧ front.outsideBand request = false ∧
      exceedsOrderLimits request.priceTicks request.quantityLots front.limits.maxOrderLots
        front.limits.maxOrderNotional = false

theorem gate_eq_nine_iff :
    front.gate nowNs request = some 9 ↔
      front.Passes nowNs request ∧ front.AtCap request.participantId := by
  rw [gate_eq_verdicts]
  unfold Passes
  split_ifs <;> simp_all

/-- The tracked orders are those of the book, the counts are those of the book, and
the limit on open orders turns down exactly the participants who have reached it. -/
structure Owned.Exact (thread : Owned) : Prop where
  keys : ∀ orderId, orderId ∈ thread.front.uidMap ↔ orderId ∈ thread.front.engine.orders
  counts : ∀ participantId,
    (thread.front.openCounts.lookup participantId).getD 0 = thread.openOrders participantId
  capped : ∀ nowNs request, thread.front.gate nowNs request = some 9 ↔
    thread.front.Passes nowNs request ∧ 0 < thread.front.limits.maxOpenOrders ∧
      thread.front.limits.maxOpenOrders ≤ thread.openOrders request.participantId

theorem InStep.exact (inStep : InStep pools thread.owner thread.front) : thread.Exact where
  keys := inStep.keys
  counts := inStep.openCount_eq
  capped := by
    intro nowNs request
    rw [gate_eq_nine_iff, AtCap, inStep.openCount_eq]
    refine and_congr_right fun _ => and_congr_right fun limited => ?_
    refine ⟨And.right, fun reached => ⟨?_, reached⟩⟩
    intro isZero
    rw [isZero, inStep.openOrders_zero] at reached
    omega

/-- In every run whose orders can be tracked and whose restarts restore no order,
the participants and the counts are those of the book. -/
theorem openOrders_exact
    (symbol : Nat) (limits : Limits) (breaker : CircuitBreaker) (capacity : Nat) (owner : Nat → Int)
    (events : List Event) (inRange : ∀ event ∈ events, event.InRange)
    (tracks : Owned.RunTracks ⟨capacity, capacity⟩
      ⟨new symbol limits breaker ⟨capacity, capacity⟩, owner⟩ events) :
    (events.foldl (Owned.step ⟨capacity, capacity⟩)
      ⟨new symbol limits breaker ⟨capacity, capacity⟩, owner⟩).Exact :=
  (@InStep.run capacity ⟨new symbol limits breaker ⟨capacity, capacity⟩, owner⟩ events
    (inStep_new symbol limits breaker ⟨capacity, capacity⟩) inRange tracks).exact

/-- An offer, two buyers of which one takes a part of it at once, and its cancel. -/
def partOfAnOffer : List Event :=
  [.message 1 (.newOrder ⟨1, 1, 100, 2, .sell, .gtc, 200, false, 7⟩),
    .message 2 (.newOrder ⟨2, 2, 100, 1, .buy, .ioc, 200, false, 7⟩),
    .message 3 (.newOrder ⟨3, 2, 99, 1, .buy, .gtc, 200, false, 7⟩),
    .message 4 (.cancelOrder ⟨1, 1, 200⟩)]

/-- A buyer who wants more than is offered, at once. -/
def moreThanOffered : List Event :=
  [.message 1 (.newOrder ⟨1, 1, 100, 1, .sell, .gtc, 200, false, 7⟩),
    .message 2 (.newOrder ⟨2, 2, 100, 2, .buy, .ioc, 200, false, 7⟩)]

/-- A thread that lets a participant have one open order. -/
def limitedThread : Owned :=
  ⟨new 7 ⟨0, 0, 0, 1⟩ (CircuitBreaker.new 0 0 0) ⟨4, 4⟩, fun _ => 0⟩

theorem openOrders_exact_partOfAnOffer :
    (partOfAnOffer.foldl (Owned.step ⟨4, 4⟩) limitedThread).Exact :=
  openOrders_exact 7 ⟨0, 0, 0, 1⟩ (CircuitBreaker.new 0 0 0) 4 (fun _ => 0)
    partOfAnOffer (by decide +kernel) (by decide +kernel)

theorem not_openOrders_exact_moreThanOffered :
    ¬ (moreThanOffered.foldl (Owned.step ⟨4, 4⟩) limitedThread).Exact := by
  intro exact
  exact absurd (exact.keys 2) (by decide +kernel)

end FrontEnd
end LightningX.Exchange
