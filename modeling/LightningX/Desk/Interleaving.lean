import LightningX.Desk.Balances
import LightningX.Desk.OrderMargins
import LightningX.Exchange.FrontEnd

/-!
# The two receive threads

One thread of a desk takes trades, looks up the users of both orders and settles
them in batches.  Another one takes order updates and forgets an order with its
last update.  They share the metadata of the orders and run in any order.
-/

namespace LightningX.Desk

open List
open Risk Transport Arithmetic State

/-- A desk with what its threads have still to take, and what the thread of the updates
has unfrozen on each account. -/
structure Threads where
  desk : State
  trades : List TradeNotification
  batch : List SettleTradeEntry
  updates : List OrderUpdateMsg
  unfrozen : UserId × Asset → Int

/-- Whose turn it is: the thread of the trades takes the next one or settles its batch,
or the thread of the updates takes the next one. -/
inductive Turn
  | trade
  | settle
  | update
  deriving DecidableEq, Repr

namespace Threads

/-- The threads before they took anything. -/
def start (desk : State) (trades : List TradeNotification) (updates : List OrderUpdateMsg) :
    Threads where
  desk := desk
  trades := trades
  batch := []
  updates := updates
  unfrozen := fun _ => 0

/-- The batch is settled. -/
def settle (config : Config) (threads : Threads) : Threads :=
  { threads with
    desk := threads.desk.settleEntries machine config threads.batch
    batch := [] }

/-- One turn.  A full batch is settled before the next trade joins it. -/
def step (config : Config) (threads : Threads) : Turn → Threads
  | .trade =>
    match threads.trades with
    | [] => threads
    | trade :: trades =>
      let entry := threads.desk.settleEntry trade
      let threads :=
        if threads.batch.length ≥ State.batchSize then threads.settle config else threads
      { threads with trades := trades, batch := threads.batch ++ [entry] }
  | .settle => threads.settle config
  | .update =>
    match threads.updates with
    | [] => threads
    | update :: updates =>
      let desk := threads.desk.onOrderUpdate machine config update
      { threads with
        desk := desk
        updates := updates
        unfrozen := fun account => threads.unfrozen account +
          ((cached threads.desk.accountCache account).frozenAtoms -
            (cached desk.accountCache account).frozenAtoms) }

/-- An interleaving of the threads. -/
def run (config : Config) (threads : Threads) (turns : List Turn) : Threads :=
  turns.foldl (step config) threads

end Threads

def RiskCall.fill? : RiskCall → Option Fill
  | .fill report => some report
  | _ => none

/-- The fills that some risk calls book: who traded at which price and how much. -/
def bookedLegs (calls : List RiskCall) : List (UserId × Int × Int) :=
  (calls.filterMap (·.fill?)).map fun report => (report.userId, report.priceTicks, report.qtyLots)

def entryFor (owner : OrderId → UserId) (trade : TradeNotification) :
    SettleTradeEntry where
  trade := trade
  takerUid := owner trade.takerOrderId
  makerUid := owner trade.makerOrderId

def makerFill (owner : OrderId → UserId) (trade : TradeNotification) : UserId × Int × Int :=
  (owner trade.makerOrderId, trade.price, trade.quantity)

def takerFill (owner : OrderId → UserId) (update : OrderUpdateMsg) : UserId × Int × Int :=
  (owner (lookupId update), update.fillPrice, update.fillQty)

/-- What a trade changes in the balances and the frozen funds of buyer and seller. -/
def legDeltas (config : Config) (owner : OrderId → UserId) (trade : TradeNotification) :
    List BalanceDelta :=
  let cost := (config.rules trade.symbol).quoteAtoms trade.price trade.quantity
  let qty := (config.rules trade.symbol).baseAtoms trade.quantity
  let (buyer, seller) :=
    match trade.side with
    | .buy => (owner trade.takerOrderId, owner trade.makerOrderId)
    | .sell => (owner trade.makerOrderId, owner trade.takerOrderId)
  [((buyer, config.quoteAsset trade.symbol), (-cost, cost)),
    ((buyer, config.baseAsset trade.symbol), (qty, 0)),
    ((seller, config.baseAsset trade.symbol), (-qty, qty)),
    ((seller, config.quoteAsset trade.symbol), (cost, 0))]

/-- A trade of lots between two placed orders, with amounts that fit. -/
@[mk_iff]
structure Placed (config : Config) (owner : OrderId → UserId) (trade : TradeNotification) :
    Prop where
  taker : owner trade.takerOrderId ≠ 0
  maker : owner trade.makerOrderId ≠ 0
  lots : 0 < trade.quantity
  cost : InI64 ((config.rules trade.symbol).quoteAtoms trade.price trade.quantity)
  qty : InI64 ((config.rules trade.symbol).baseAtoms trade.quantity)

instance (config : Config) (owner : OrderId → UserId) (trade : TradeNotification) :
    Decidable (Placed config owner trade) :=
  decidable_of_iff _ (placed_iff config owner trade).symm

def reportsLots (update : OrderUpdateMsg) : Bool :=
  reportsFill update && decide (0 < update.fillQty)

/-- The risk engine has booked one fill for the maker of each trade and one for the taker of
each update that reports lots, and no other, and the cached balances and frozen funds have
changed by what the trades change, apart from what the thread of the updates unfroze. -/
structure BookedOnce (config : Config) (owner : OrderId → UserId) (desk : State)
    (trades : List TradeNotification) (updates : List OrderUpdateMsg) (after : State)
    (unfrozen : UserId × Asset → Int) : Prop where
  fills : ∃ calls, after.risk = calls.foldl (RiskCall.apply machine) desk.risk ∧
    (bookedLegs calls).Perm
      (trades.map (makerFill owner) ++ (updates.filter reportsLots).map (takerFill owner))
  balances : ∀ account, (cached after.accountCache account).balanceAtoms =
    (cached desk.accountCache account).balanceAtoms +
      (netDelta (trades.flatMap (legDeltas config owner)) account).1
  frozen : ∀ account, (cached after.accountCache account).frozenAtoms =
    (cached desk.accountCache account).frozenAtoms -
      (netDelta (trades.flatMap (legDeltas config owner)) account).2 - unfrozen account

/-- No balance and no frozen amount is clamped when a batch is settled. -/
@[mk_iff]
structure Unclamped (config : Config) (threads : Threads) : Prop where
  inRange : BatchInRange threads.desk.accountCache
    ((resolved threads.batch).flatMap (tradeDeltas config))
  frozen : ∀ account ∈ ((resolved threads.batch).flatMap (tradeDeltas config)).map (·.1),
    0 ≤ (netDelta ((resolved threads.batch).flatMap (tradeDeltas config)) account).2 ∧
      -2 ^ 63 ≤ (cached threads.desk.accountCache account).frozenAtoms -
        (netDelta ((resolved threads.batch).flatMap (tradeDeltas config)) account).2

instance (config : Config) (threads : Threads) : Decidable (Unclamped config threads) :=
  decidable_of_iff _ (unclamped_iff config threads).symm

/-- The thread of the updates forgets an order only after the trades of the order were
taken, and finds the metadata of an order it reports lots of.  Settling clamps nothing. -/
def Orderly (config : Config) (threads : Threads) : Turn → Prop
  | .update => ∀ update ∈ threads.updates.head?, update.WellFormed ∧
      (terminal update = true → ∀ trade ∈ threads.trades,
        trade.takerOrderId ≠ lookupId update ∧ trade.makerOrderId ≠ lookupId update) ∧
      (reportsLots update = true →
        threads.desk.owned update = true ∧ threads.desk.remembers (lookupId update) = true)
  | .trade => threads.batch.length ≥ State.batchSize → Unclamped config threads
  | .settle => Unclamped config threads

instance (config : Config) (threads : Threads) :
    (turn : Turn) → Decidable (Orderly config threads turn)
  | .update => inferInstanceAs (Decidable (∀ update ∈ threads.updates.head?, _ ∧ _))
  | .trade => inferInstanceAs (Decidable (_ → _))
  | .settle => inferInstanceAs (Decidable (Unclamped _ _))

/-- So are all turns of an interleaving. -/
def RunOrderly (config : Config) (threads : Threads) (turns : List Turn) : Prop :=
  Along (Threads.step config) (Orderly config) threads turns
deriving Decidable

/-- The desk knows the users of orders, and has the metadata of all orders whose trades
were not taken yet. -/
@[mk_iff]
structure Known (owner : OrderId → UserId) (desk : State)
    (trades : List TradeNotification) : Prop where
  pending : ∀ id details, desk.pendingMeta.lookup id = some details → details.userId = owner id
  runtime : ∀ id details, desk.orderMeta.lookup id = some details → details.userId = owner id
  present : ∀ trade ∈ trades, (desk.orderMeta.lookup trade.takerOrderId).isSome ∧
    (desk.orderMeta.lookup trade.makerOrderId).isSome
  noZero : desk.core.NoZero

instance (owner : OrderId → UserId) (desk : State) (trades : List TradeNotification) :
    Decidable (Known owner desk trades) :=
  decidable_of_iff _ (known_iff owner desk trades).symm

section

variable {config : Config} {owner : OrderId → UserId} {desk : State} {trade : TradeNotification}
  {trades : List TradeNotification} {update : OrderUpdateMsg}

theorem Known.liveMeta (known : Known owner desk trades)
    (isLive : desk.liveMeta update = some details) : details.userId = owner (lookupId update) := by
  unfold State.liveMeta at isLive
  split_ifs at isLive
  rcases Option.or_eq_some_iff.mp isLive with isPending | ⟨-, isRuntime⟩
  · obtain ⟨pending, found, rfl⟩ := Option.map_eq_some_iff.mp isPending
    exact known.pending _ pending found
  · exact known.runtime _ details isRuntime

theorem bookedLegs_append (first second : List RiskCall) :
    bookedLegs (first ++ second) = bookedLegs first ++ bookedLegs second := by
  rw [bookedLegs, filterMap_append, map_append]
  rfl

/-- Orders that an update does not end stay known. -/
theorem State.isSome_onOrderUpdate {id : OrderId} (wellFormed : update.WellFormed)
    (noZero : desk.core.NoZero) (goesOn : id ≠ lookupId update ∨ terminal update = false)
    (isSome : (desk.orderMeta.lookup id).isSome) :
    ((desk.onOrderUpdate machine config update).core.orderMeta.lookup id).isSome := by
  by_cases owned : desk.owned update = true
  swap
  · rw [State.onOrderUpdate, if_pos (by simpa using owned)]
    exact isSome
  have registered := State.registered_register wellFormed noZero
  have notZero : id ≠ 0 := by
    rintro rfl
    rw [show desk.orderMeta.lookup 0 = none from noZero.runtime] at isSome
    simp at isSome
  rw [State.onOrderUpdate_of_owned owned]
  split_ifs with isTerminal
  · have ne : id ≠ lookupId update := goesOn.resolve_right (by simp [isTerminal])
    have notClient : id ≠ update.clientOrderId := by
      rcases State.clientOrderId_cases wellFormed with zero | same
      · exact zero ▸ notZero
      · exact same ▸ ne
    have notEngine : id ≠ update.orderId := by
      by_cases rejected : update.kind = .rejected
      · have zero : update.orderId = 0 := by
          simpa [OrderUpdateMsg.WellFormed, rejected] using wellFormed
        exact zero ▸ notZero
      · exact State.orderId_eq_lookupId rejected ▸ ne
    rw [AList.lookup_erase_ne notClient, AList.lookup_erase_ne notEngine, registered.runtime id ne]
    exact isSome
  · have live : update.kind ≠ .rejected := by
      intro rejected
      simp [terminal, rejected] at isTerminal
    by_cases same : id = lookupId update
    · subst same
      rw [registered.live live, State.liveMeta, if_neg live, Option.isSome_or, isSome, Bool.or_true]
    · rw [registered.runtime id same]
      exact isSome

section

variable (known : Known owner desk trades)
include known

theorem Known.onOrderUpdate
    (wellFormed : update.WellFormed)
    (afterTrades : terminal update = true → ∀ trade ∈ trades,
      trade.takerOrderId ≠ lookupId update ∧ trade.makerOrderId ≠ lookupId update) :
    Known owner (desk.onOrderUpdate machine config update) trades := by
  by_cases owned : desk.owned update = true
  swap
  · rwa [State.onOrderUpdate, if_pos (by simpa using owned)]
  have handled := @State.handled_onOrderUpdate machine config desk update wellFormed
    known.noZero owned
  refine ⟨fun id details isPending => ?_, fun id details isRuntime => ?_,
    fun trade mem => ?_, ⟨?_, ?_⟩⟩
  · rw [show (desk.onOrderUpdate machine config update).pendingMeta.lookup id = _ from
      handled.pending id] at isPending
    split_ifs at isPending
    exact known.pending id details isPending
  · rcases handled.runtime id details isRuntime with ⟨-, old⟩ | ⟨rfl, isLive⟩
    · exact known.runtime id details old
    · exact known.liveMeta isLive
  · have goesOn : ∀ id, (terminal update = true → id ≠ lookupId update) →
        id ≠ lookupId update ∨ terminal update = false := by
      intro id ends
      cases isTerminal : terminal update with
      | true => exact .inl (ends isTerminal)
      | false => exact .inr rfl
    obtain ⟨taker, maker⟩ := known.present trade mem
    exact ⟨isSome_onOrderUpdate wellFormed known.noZero
        (goesOn _ fun ends => (afterTrades ends trade mem).1) taker,
      isSome_onOrderUpdate wellFormed known.noZero
        (goesOn _ fun ends => (afterTrades ends trade mem).2) maker⟩
  · rw [handled.pending]
    split_ifs
    · rfl
    · exact known.noZero.pending
  · cases isRuntime : (desk.onOrderUpdate machine config update).core.orderMeta.lookup 0 with
    | none => rfl
    | some details =>
      rcases handled.runtime 0 details isRuntime with ⟨-, old⟩ | ⟨isZero, isLive⟩
      · rw [show desk.orderMeta.lookup 0 = none from known.noZero.runtime] at old
        simp at old
      · rw [State.liveMeta, ← isZero,
          show desk.pendingMeta.lookup 0 = none from known.noZero.pending,
          show desk.orderMeta.lookup 0 = none from known.noZero.runtime] at isLive
        simp at isLive

/-- Settling leaves the metadata alone. -/
theorem Known.settleEntries (entries : List SettleTradeEntry) :
    Known owner (desk.settleEntries machine config entries) trades := by
  have core := State.core_settleEntries machine config desk entries
  have pending : (desk.settleEntries machine config entries).pendingMeta =
      desk.pendingMeta := congrArg Core.pendingMeta core
  have runtime : (desk.settleEntries machine config entries).orderMeta = desk.orderMeta :=
    congrArg Core.orderMeta core
  refine ⟨?_, ?_, ?_, ⟨?_, ?_⟩⟩
  · rw [pending]
    exact known.pending
  · rw [runtime]
    exact known.runtime
  · rw [runtime]
    exact known.present
  · exact (congrArg (AList.lookup 0) pending).trans known.noZero.pending
  · exact (congrArg (AList.lookup 0) runtime).trans known.noZero.runtime

/-- The users of a trade are found. -/
theorem Known.settleEntry (mem : trade ∈ trades) :
    desk.settleEntry trade = entryFor owner trade := by
  have found : ∀ {id}, (desk.orderMeta.lookup id).isSome → desk.runtimeUserId id = owner id := by
    intro id isSome
    obtain ⟨details, isRuntime⟩ := Option.isSome_iff_exists.mp isSome
    rw [State.runtimeUserId, isRuntime]
    exact known.runtime id details isRuntime
  obtain ⟨taker, maker⟩ := known.present trade mem
  rw [State.settleEntry, found taker, found maker]
  rfl

theorem Known.subset (subset : fewer ⊆ trades) : Known owner desk fewer :=
  ⟨known.pending, known.runtime, fun trade mem => known.present trade (subset mem), known.noZero⟩

/-- An update that reports lots is booked once for its taker, any other one never. -/
theorem bookedLegs_callsFor
    (wellFormed : update.WellFormed)
    (finds : reportsLots update = true →
      desk.owned update = true ∧ desk.remembers (lookupId update) = true) :
    bookedLegs (desk.callsFor machine config update) =
      ([update].filter reportsLots).map (takerFill owner) := by
  have none : ∀ userId margin liqPriceTicks,
      bookedLegs (releaseCalls userId margin liqPriceTicks) = [] := by
    intro userId margin liqPriceTicks
    unfold releaseCalls
    split_ifs <;> rfl
  have closing : bookedLegs (closingCalls update (desk.pendingMeta.lookup (lookupId update))
      (desk.liveMeta update)) = [] := by
    unfold closingCalls
    split <;> first | exact none _ _ _ | rfl
  by_cases reports : reportsLots update = true
  · obtain ⟨owned, remembered⟩ := finds reports
    obtain ⟨isFill, lots⟩ : reportsFill update = true ∧ 0 < update.fillQty := by
      simpa [reportsLots] using reports
    have live : update.kind ≠ .rejected := by
      intro rejected
      simp [reportsFill, rejected] at isFill
    obtain ⟨details, isLive⟩ : ∃ details, desk.liveMeta update = some details := by
      rw [State.liveMeta, if_neg live, ← Option.isSome_iff_exists]
      simpa [State.remembers] using remembered
    have booked : (reportsFill update && decide (update.fillQty > 0)) = true := by
      simp [isFill, lots]
    rw [callsFor, updateCalls_of_fill wellFormed known.noZero isFill, isLive, takerCalls]
    simp only [filter_cons]
    split_ifs
    all_goals
      simp [bookedLegs, RiskCall.fill?, fillOf, takerFill, known.liveMeta isLive]
  · have taker : bookedLegs (takerCalls machine config update (desk.liveMeta update)) = [] := by
      unfold takerCalls
      split
      · rfl
      · rw [if_neg (by simpa [reportsLots] using reports)]
        rfl
    have empty : bookedLegs (desk.callsFor machine config update) = [] := by
      unfold callsFor
      split_ifs
      · rw [State.updateCalls_eq wellFormed known.noZero, bookedLegs_append, closing, taker]
        rfl
      · rfl
    rw [empty, filter_cons, if_neg reports]
    rfl

end

end

/-! ## Cached balances -/

namespace State

/-- The cached balance of an account, frozen or not. -/
def balanceOf (account : UserId × Asset) (desk : State) : Int :=
  (cached desk.accountCache account).balanceAtoms

variable {config : Config} {desk : State} {account : UserId × Asset}

theorem accountCache_publishAccount (userId : UserId) (asset : Asset) :
    (desk.publishAccount userId asset).accountCache = desk.accountCache := by
  unfold publishAccount
  split <;> rfl

theorem accountCache_foldl_publishAccount (accounts : List (UserId × Asset)) :
    (accounts.foldl (fun desk account => desk.publishAccount account.1 account.2)
      desk).accountCache = desk.accountCache := by
  induction accounts generalizing desk with
  | nil => rfl
  | cons first accounts ih => exact ih.trans (accountCache_publishAccount _ _)

theorem balanceAtoms_releaseCacheFrozen (cache : AccountCache) (userId : UserId) (asset : Asset)
    (amountAtoms : Int) :
    (cached (releaseCacheFrozen cache userId asset amountAtoms) account).balanceAtoms =
      (cached cache account).balanceAtoms := by
  unfold releaseCacheFrozen
  split_ifs
  · unfold cached
    rw [KeyedMap.lookup_modify]
    split_ifs
    · cases cache.lookup account with
      | none => rfl
      | some balance => exact balance.balanceAtoms_releaseAtoms amountAtoms
    · rfl
  · rfl

@[simp] theorem balanceOf_releaseFunds (userId : UserId) (asset : Asset) (amountAtoms : Int) :
    (desk.releaseFunds userId asset amountAtoms).balanceOf account = desk.balanceOf account := by
  unfold releaseFunds
  split_ifs
  · rw [balanceOf, accountCache_publishAccount]
    exact balanceAtoms_releaseCacheFrozen _ _ _ _
  · rfl

@[simp] theorem balanceOf_batchCancel (entry : CancelReleaseEntry) :
    (desk.batchCancel entry).balanceOf account = desk.balanceOf account := by
  have flushed : desk.flushCancels.balanceOf account = desk.balanceOf account := by
    have each : ∀ (accounts : List (UserId × Asset)) (total : UserId × Asset → Int) (desk : State),
        (accounts.foldl (fun desk account =>
          desk.releaseFunds account.1 account.2 (total account)) desk).balanceOf account =
          desk.balanceOf account := by
      intro accounts total desk
      induction accounts generalizing desk with
      | nil => rfl
      | cons first accounts ih => exact (ih _).trans (balanceOf_releaseFunds _ _ _)
    exact each _ _ _
  unfold batchCancel
  split_ifs
  · exact flushed
  · rfl

theorem balanceOf_bookUpdate (update : OrderUpdateMsg) (pending : Option OrderMeta) :
    (desk.bookUpdate config update pending).balanceOf account = desk.balanceOf account := by
  cases pending with
  | none =>
    show (desk.bookLive config update).balanceOf account = _
    unfold bookLive
    split
    · exact balanceOf_batchCancel _
    · unfold batchDelete; split <;> rfl
    · unfold batchDelete; split <;> rfl
    · rfl
  | some details =>
    show (desk.bookPending config update details).balanceOf account = _
    unfold bookPending
    split
    · unfold batchAccepted
      split_ifs
      · exact congrArg (fun cache => (cached cache account).balanceAtoms)
          (accountCache_foldl_publishAccount _)
      · rfl
    · rfl
    · exact balanceAtoms_releaseCacheFrozen _ _ _ _
    · unfold releaseReservation
      cases details.side
      all_goals
        simp only
        split
        · rfl
        · exact balanceOf_releaseFunds _ _ _
    · rfl

theorem accountCache_register (update : OrderUpdateMsg) :
    (desk.register update).accountCache = desk.accountCache := by
  have noted : ∀ desk : State, (desk.noteAccepted update).accountCache = desk.accountCache := by
    intro desk
    have moved : (desk.remapRuntimeOrderId update.clientOrderId update.orderId).accountCache =
        desk.accountCache := by
      unfold remapRuntimeOrderId
      split
      · split <;> rfl
      · rfl
    unfold noteAccepted
    split
    · simp only
      split
      · exact moved
      · exact moved
    · rfl
  unfold register
  simp only
  split
  · exact noted _
  · split
    · exact noted _
    · exact noted _

/-- An update changes no balance, it only unfreezes. -/
theorem balanceOf_onOrderUpdate (update : OrderUpdateMsg) :
    (desk.onOrderUpdate machine config update).balanceOf account = desk.balanceOf account := by
  have booked : ∀ risk, (({ desk.register update with risk := risk } : State).bookUpdate config
      update (desk.wsMeta update)).balanceOf account = desk.balanceOf account := by
    intro risk
    rw [balanceOf_bookUpdate]
    exact congrArg (fun cache => (cached cache account).balanceAtoms) (accountCache_register update)
  unfold onOrderUpdate
  split
  · rfl
  · simp only
    split
    · exact booked _
    · exact booked _

end State
section

variable {config : Config} {owner : OrderId → UserId} {desk : State} {trade : TradeNotification}
  {trades : List TradeNotification} {update : OrderUpdateMsg}

/-- Placed trades are booked for their makers. -/
theorem bookedLegs_makerCalls (placed : ∀ trade ∈ trades, Placed config owner trade) :
    bookedLegs ((trades.map (entryFor owner)).flatMap (makerCalls machine config)) =
      trades.map (makerFill owner) := by
  induction trades with
  | nil => rfl
  | cons trade trades ih =>
    have here := placed trade mem_cons_self
    have booked : ¬ ((entryFor owner trade).makerUid = 0 ∨
        (entryFor owner trade).trade.quantity ≤ 0) :=
      not_or.mpr ⟨here.maker, Int.not_le.mpr here.lots⟩
    rw [map_cons, flatMap_cons, bookedLegs_append, ih fun other mem =>
      placed other (mem_cons_of_mem _ mem), makerCalls, if_neg booked]
    rfl

theorem deltas_map_entryFor (placed : ∀ trade ∈ trades, Placed config owner trade) :
    (resolved (trades.map (entryFor owner))).flatMap (tradeDeltas config) =
      trades.flatMap (legDeltas config owner) := by
  have all : resolved (trades.map (entryFor owner)) = trades.map (entryFor owner) := by
    refine filter_eq_self.mpr fun entry mem => ?_
    obtain ⟨trade, inTrades, rfl⟩ := mem_map.mp mem
    exact decide_eq_true (show owner trade.takerOrderId ≠ 0 ∧ owner trade.makerOrderId ≠ 0 from
      ⟨(placed trade inTrades).taker, (placed trade inTrades).maker⟩)
  rw [all, flatMap_map]
  refine flatMap_congr fun trade mem => ?_
  have here := placed trade mem
  unfold tradeDeltas legDeltas
  have fits := And.intro here.cost here.qty
  cases isSide : trade.side
  all_goals
    simp only [entryFor, isSide]
    exact if_pos fits

theorem accountCache_settleEntries (entries : List SettleTradeEntry) :
    (desk.settleEntries machine config entries).accountCache =
      applyDeltas desk.accountCache ((resolved entries).flatMap (tradeDeltas config)) := by
  unfold settleEntries
  rw [accountCache_foldl_publishAccount]

theorem netDelta_of_not_mem (missing : account ∉ deltas.map (·.1)) :
    netDelta deltas account = 0 := by
  have none : deltas.filter (fun delta => delta.1 = account) = [] := by
    refine filter_eq_nil_iff.mpr fun delta mem same => missing ?_
    exact of_decide_eq_true same ▸ mem_map_of_mem mem
  unfold netDelta
  rw [none]
  rfl

/-- Settling a batch changes each account by what its trades change. -/
theorem Unclamped.cached_settle {threads : Threads} (unclamped : Unclamped config threads)
    (account : UserId × Asset) :
    let deltas := (resolved threads.batch).flatMap (tradeDeltas config)
    let after := cached (threads.settle config).desk.accountCache account
    after.balanceAtoms =
        (cached threads.desk.accountCache account).balanceAtoms + (netDelta deltas account).1 ∧
      after.frozenAtoms =
        (cached threads.desk.accountCache account).frozenAtoms - (netDelta deltas account).2 := by
  intro deltas after
  have isAfter : after = cached (applyDeltas threads.desk.accountCache deltas) account := by
    simp only [after, Threads.settle, accountCache_settleEntries, deltas]
  rw [isAfter, cached_applyDeltas]
  split_ifs with mem
  · obtain ⟨nonneg, fits⟩ := unclamped.inRange account mem
    obtain ⟨released, frozen⟩ := unclamped.frozen account mem
    simp only at nonneg fits
    unfold AccountBalance.applyAtomsDelta saturatingAdd
    rw [AccountBalance.balanceAtoms_releaseAtoms, AccountBalance.frozenAtoms_releaseAtoms]
    simp only [deltas]
    split_ifs <;> omega
  · rw [netDelta_of_not_mem mem]
    exact ⟨(Int.add_zero _).symm, (Int.sub_zero _).symm⟩

end

/-- How far the threads got: some trades are settled, some wait in the batch, and what
was booked are the settled trades and the updates that were taken. -/
structure Progress (config : Config) (owner : OrderId → UserId) (desk : State)
    (trades : List TradeNotification) (updates : List OrderUpdateMsg)
    (settled polled : List TradeNotification) (handled : List OrderUpdateMsg)
    (threads : Threads) : Prop where
  known : Known owner threads.desk threads.trades
  traded : trades = settled ++ polled ++ threads.trades
  batch : threads.batch = polled.map (entryFor owner)
  updated : updates = handled ++ threads.updates
  booked : BookedOnce config owner desk settled handled threads.desk threads.unfrozen

def Progresses (config : Config) (owner : OrderId → UserId) (desk : State)
    (trades : List TradeNotification) (updates : List OrderUpdateMsg) (threads : Threads) : Prop :=
  ∃ settled polled handled,
    Progress config owner desk trades updates settled polled handled threads

section

variable {config : Config} {owner : OrderId → UserId} {desk : State}
  {trades settled polled rest : List TradeNotification} {updates handled : List OrderUpdateMsg}
  {threads : Threads} {turn : Turn}

section

variable (progress : Progress config owner desk trades updates settled polled handled threads)
include progress

theorem Progress.settle (placed : ∀ trade ∈ trades, Placed config owner trade)
    (unclamped : Unclamped config threads) :
    Progress config owner desk trades updates (settled ++ polled) [] handled
      (threads.settle config) := by
  obtain ⟨known, traded, batch, updated, ⟨calls, risk, legs⟩, balances, frozen⟩ := progress
  have isPlaced : ∀ trade ∈ polled, Placed config owner trade :=
    fun trade mem => placed trade (by simp [traded, mem])
  have deltas : (resolved threads.batch).flatMap (tradeDeltas config) =
      polled.flatMap (legDeltas config owner) := by
    rw [batch, deltas_map_entryFor isPlaced]
  refine ⟨known.settleEntries _, by rw [traded, append_nil]; rfl, rfl, updated,
    ⟨calls ++ threads.batch.flatMap (makerCalls machine config), ?_, ?_⟩, fun account => ?_,
    fun account => ?_⟩
  · rw [foldl_append, ← risk]
    exact congrArg Core.risk (core_settleEntries machine config threads.desk threads.batch)
  · rw [bookedLegs_append, batch, bookedLegs_makerCalls isPlaced, map_append, append_assoc]
    refine (legs.append_right _).trans ?_
    rw [append_assoc]
    exact perm_append_comm.append_left _
  · have settles := (unclamped.cached_settle account).1
    rw [settles, deltas, balances account, flatMap_append, netDelta_append, Prod.fst_add, add_assoc]
  · have settles := (unclamped.cached_settle account).2
    have before := frozen account
    rw [deltas] at settles
    rw [settles, flatMap_append, netDelta_append, Prod.snd_add]
    show _ = _ - _ - threads.unfrozen account
    omega

/-- The next trade joins the batch. -/
theorem Progress.join (isTrades : threads.trades = trade :: rest)
    (entry : entries = threads.batch ++ [entryFor owner trade]) :
    Progress config owner desk trades updates settled (polled ++ [trade]) handled
      { threads with trades := rest, batch := entries } := by
  obtain ⟨known, traded, batch, updated, booked⟩ := progress
  refine ⟨known.subset (by simp [isTrades]), ?_, ?_, updated, booked⟩
  · rw [traded, isTrades]
    simp
  · rw [entry, batch, map_append]
    rfl

/-- The thread of the updates takes the next one. -/
theorem Progress.update {update : OrderUpdateMsg} {later : List OrderUpdateMsg}
    (isUpdates : threads.updates = update :: later)
    (orderly : Orderly config threads .update) :
    Progress config owner desk trades updates settled polled (handled ++ [update])
      (threads.step config .update) := by
  obtain ⟨wellFormed, afterTrades, finds⟩ := orderly update (by simp [isUpdates])
  obtain ⟨known, traded, batch, updated, ⟨calls, risk, legs⟩, balances, frozen⟩ := progress
  simp only [Threads.step, isUpdates]
  refine ⟨known.onOrderUpdate wellFormed afterTrades, traded, batch, by simp [updated, isUpdates],
    ⟨calls ++ threads.desk.callsFor machine config update, ?_, ?_⟩, fun account => ?_,
    fun account => ?_⟩
  · rw [foldl_append, ← risk]
    exact risk_onOrderUpdate wellFormed known.noZero
  · rw [bookedLegs_append, bookedLegs_callsFor known wellFormed finds, filter_append, map_append,
      ← append_assoc]
    exact legs.append_right _
  · exact (balanceOf_onOrderUpdate update).trans (balances account)
  · have before := frozen account
    simp only
    omega

/-- How far the threads are after a turn. -/
theorem Progress.step (placed : ∀ trade ∈ trades, Placed config owner trade)
    (orderly : Orderly config threads turn) :
    Progresses config owner desk trades updates (threads.step config turn) := by
  cases turn with
  | settle => exact ⟨_, _, _, progress.settle placed orderly⟩
  | trade =>
    unfold Threads.step
    cases isTrades : threads.trades with
    | nil => exact ⟨_, _, _, progress⟩
    | cons trade rest =>
      have entry : threads.desk.settleEntry trade = entryFor owner trade :=
        progress.known.settleEntry (by simp [isTrades])
      simp only [entry]
      split_ifs with full
      · exact ⟨_, _, _, (progress.settle placed (orderly full)).join isTrades rfl⟩
      · exact ⟨_, _, _, progress.join isTrades rfl⟩
  | update =>
    cases isUpdates : threads.updates with
    | nil =>
      unfold Threads.step
      rw [isUpdates]
      exact ⟨_, _, _, progress⟩
    | cons update rest => exact ⟨_, _, _, progress.update isUpdates orderly⟩

end

end

end LightningX.Desk
