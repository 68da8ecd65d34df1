import LightningX.Desk.Backing

/-!
# Order margin over whole runs

A desk and its ledger take step after step.  In every run whose orders enter with
their full margin reserved and trade at no more than the price it was reserved at,
order margin backs the reservations, and no fill moves more than the account holds.
-/

namespace LightningX.Desk

open List
open Matching (Side TimeInForce)
open Risk Transport Arithmetic State

variable {command : AeronCmd}

/-- A desk and its ledger. -/
structure Audited where
  desk : State
  ledger : Ledger

/-- One step of a desk and its ledger. -/
def Audited.step (config : Config) (audited : Audited) (input : Input) : Audited where
  desk := audited.desk.step machine config input
  ledger := audit machine config audited.desk audited.ledger input

/-- A run of a desk and its ledger. -/
def Audited.run (config : Config) (audited : Audited) (inputs : List Input) : Audited :=
  inputs.foldl (step config) audited

/-- The machine computes in a step what is meant. -/
def ExactStep (config : Config) (desk : State) : Input → Prop
  | .entry path => desk.enter machine config path = desk.enter exact config path
  | .update update =>
    desk.callsFor machine config update = desk.callsFor exact config update ∧
      CallsExact desk.risk (desk.callsFor exact config update)
  | .trades trades =>
    (∀ trade ∈ trades, desk.tradeCalls machine config trade =
      desk.tradeCalls exact config trade) ∧
      CallsExact desk.risk (trades.flatMap (desk.tradeCalls exact config))
  | .adl symbol order =>
    desk.risk.runAdl machine symbol (config.rules symbol).symbolConfig order =
      desk.risk.runAdl exact symbol (config.rules symbol).symbolConfig order
  | _ => True

instance (config : Config) (desk : State) :
    (input : Input) → Decidable (ExactStep config desk input)
  | .entry _ | .adl _ _ => inferInstanceAs (Decidable (_ = _))
  | .update _ => inferInstanceAs (Decidable (_ ∧ _))
  | .trades _ => inferInstanceAs (Decidable (_ ∧ _))
  | .cancel _ _ _ | .send | .flush | .sessions _ | .account _ _ | .markPrice _ _ _ => isTrue trivial

/-- New orders get new identifiers, orders are sent before updates about them
arrive, and updates and trades are such as orders can get. -/
def Covers (config : Config) (desk : State) (ledger : Ledger) : Input → Prop
  | .entry path => Fresh desk ledger (desk.assigned path) ∧ path.Admissible config
  | .send => ∀ request ∈ desk.nextOrders, (desk.pendingMeta.lookup request.clientOrderId).isSome
  | .update update => CoversUpdate desk ledger update
  | .trades trades => CoversTrades config desk ledger trades
  | _ => True

instance (config : Config) (desk : State) (ledger : Ledger) :
    (input : Input) → Decidable (Covers config desk ledger input)
  | .entry _ => inferInstanceAs (Decidable (_ ∧ _))
  | .send => inferInstanceAs (Decidable (∀ request ∈ desk.nextOrders, _ = true))
  | .update _ => inferInstanceAs (Decidable (CoversUpdate _ _ _))
  | .trades _ => inferInstanceAs (Decidable (CoversTrades _ _ _ _))
  | .cancel _ _ _ | .flush | .sessions _ | .account _ _ | .markPrice _ _ _ | .adl _ _ =>
    isTrue trivial

/-- An entry that needs a queue finds it with room. -/
def Unblocked (config : Config) (desk : State) : Input → Prop
  | .entry path => ¬ path.Blocked config desk
  | _ => True

/-- An order that enters and is no liquidation takes a path that reserves its
margin, and the margin is computed without an overflow. -/
def ReservesMargin (config : Config) : Input → Prop
  | .entry path => path.isLiquidation = false →
      path.ReservesFirst machine config ∧ path.ReservesFirst exact config
  | _ => True

instance (config : Config) : (input : Input) → Decidable (ReservesMargin config input)
  | .entry _ => inferInstanceAs (Decidable (_ → _ ∧ _))
  | .cancel _ _ _ | .send | .update _ | .flush | .trades _ | .sessions _ | .account _ _
  | .markPrice _ _ _ | .adl _ _ => isTrue trivial

/-- A step is covered, and orders enter over paths that reserve their margin. -/
@[mk_iff]
structure Backs (config : Config) (audited : Audited) (input : Input) : Prop where
  noOverflow : ExactStep config audited.desk input
  covers : Covers config audited.desk audited.ledger input
  reservesFirst : ReservesMargin config input

instance (config : Config) (audited : Audited) (input : Input) :
    Decidable (Backs config audited input) :=
  decidable_of_iff _ (backs_iff config audited input).symm

/-- What a step keeps. -/
structure Backed (config : Config) (audited : Audited) : Prop where
  funded : Funded audited.desk.risk audited.ledger
  spared : Spared config audited.ledger
  described : Described audited.desk.core audited.ledger

section

variable {config : Config} {audited : Audited} {desk : State}

theorem core_settleTrades (arith : Arithmetic) (config : Config) (desk : State)
    (trades : List TradeNotification) :
    (desk.settleTrades arith config trades).core =
      { desk.core with
        risk := (trades.flatMap (desk.tradeCalls arith config)).foldl
          (RiskCall.apply arith) desk.risk } := by
  rw [State.settleTrades, State.core_settleEntries, flatMap_map]
  rfl

theorem queued_pushCmd (noOrders : command.newOrders = []) :
    (desk.pushCmd command).core.queued = desk.core.queued := by
  simp [Core.queued, State.core, State.pushCmd, noOrders]

/-- A cancel leaves margins, metadata and the orders that wait alone. -/
theorem cancel_keeps (table : OrdersTable) (userId : UserId) (path : CancelPath) :
    let after := (desk.cancel config table userId path).1
    after.risk = desk.risk ∧ after.pendingMeta = desk.pendingMeta ∧
      after.orderMeta = desk.orderMeta ∧ after.core.queued = desk.core.queued := by
  have pushed : ∀ {command : AeronCmd}, command.newOrders = [] →
      let after := (desk.pushCancel config command).1
      after.risk = desk.risk ∧ after.pendingMeta = desk.pendingMeta ∧
        after.orderMeta = desk.orderMeta ∧ after.core.queued = desk.core.queued := by
    intro command noOrders
    unfold State.pushCancel
    split
    · exact ⟨rfl, rfl, rfl, rfl⟩
    · exact ⟨rfl, rfl, rfl, queued_pushCmd noOrders⟩
  cases path with
  | handleCancelOrder orderId =>
    simp only [cancel, State.handleCancelOrder]
    split
    · exact ⟨rfl, rfl, rfl, rfl⟩
    split
    · exact ⟨rfl, rfl, rfl, rfl⟩
    · exact pushed rfl
  | cancelOrder orderId =>
    simp only [cancel, State.cancelOrder]
    split
    · split
      · exact ⟨rfl, rfl, rfl, rfl⟩
      · exact ⟨rfl, rfl, rfl, rfl⟩
    · exact pushed rfl
  | batchCancel orderIds =>
    simp only [cancel, State.batchCancelByIds]
    split
    · exact ⟨rfl, rfl, rfl, rfl⟩
    split
    · exact ⟨rfl, rfl, rfl, rfl⟩
    · exact pushed rfl

/-- Opening an account leaves order margins and metadata alone. -/
theorem ensureAccount_keeps (userId : UserId) (usdtBalanceAtoms : Int) :
    let after := desk.ensureAccount userId usdtBalanceAtoms
    desk.risk.SameOrderMargins after.risk ∧ after.pendingMeta = desk.pendingMeta ∧
      after.orderMeta = desk.orderMeta ∧ after.core.queued = desk.core.queued := by
  unfold State.ensureAccount
  cases found : desk.risk.accounts.lookup userId with
  | some account => exact ⟨.refl _, rfl, rfl, rfl⟩
  | none => exact ⟨RiskEngine.sameOrderMargins_initializeAccount found _, rfl, rfl, rfl⟩

/-- The machine keeps the ledger that is meant. -/
theorem foldl_auditTrade_exact {trades : List TradeNotification}
    (same : ∀ trade ∈ trades, desk.tradeCalls machine config trade =
      desk.tradeCalls exact config trade) :
    trades.foldl (auditTrade machine config desk) ledger =
      trades.foldl (auditTrade exact config desk) ledger := by
  apply foldl_ext
  intro ledger trade mem
  unfold auditTrade
  rw [same trade mem]

/-- What a covered step does: the reservations stay backed, its fills move no more order
margin than the accounts hold, and order margin that no reservation explains stays. -/
structure StaysBacked (config : Config) (audited : Audited) (input : Input) : Prop where
  backed : Backed config (audited.step config input)
  clampFree : ClampFree machine audited.desk.risk (audited.desk.inputCalls machine config input)
  surplus : Unblocked config audited.desk input → ∀ userId,
    surplus (audited.step config input).desk.risk (audited.step config input).ledger userId =
      surplus audited.desk.risk audited.ledger userId

namespace Backed

section

variable (backed : Backed config ⟨desk, ledger⟩)
include backed

/-- A step that reports nothing to the risk engine and leaves the order margins. -/
theorem quiet (same : desk.risk.SameOrderMargins (desk.step machine config input).risk)
    (described : Described (desk.step machine config input).core ledger)
    (noCalls : desk.inputCalls machine config input = [])
    (noAudit : audit machine config desk ledger input = ledger) :
    StaysBacked config ⟨desk, ledger⟩ input := by
  refine ⟨?_, noCalls ▸ trivial, fun _ userId => ?_⟩
  · simp only [Audited.step, noAudit]
    exact ⟨backed.funded.of_same same, backed.spared, described⟩
  · simp only [Audited.step, noAudit]
    unfold Desk.surplus
    rw [same userId]

theorem entry (backs : Backs config ⟨desk, ledger⟩ (.entry path)) :
    StaysBacked config ⟨desk, ledger⟩ (.entry path) := by
  obtain ⟨noOverflow, ⟨fresh, admissible⟩, reservesFirst⟩ := backs
  have enters := enters_enter fresh.nodup admissible
  have inFull : ∀ order ∈ (desk.enter exact config path).2.orders,
      order.details.liqPriceTicks = 0 → order.InFull exact config := fun order =>
    inFull_enter fresh.nodup fun ordinary => (reservesFirst ordinary).2
  have exactly : desk.enter machine config path = desk.enter exact config path := noOverflow
  refine ⟨?_, trivial, ?_⟩ <;> simp only [Audited.step, State.step, audit, exactly]
  · exact ⟨backed.funded.enter fresh enters,
      backed.spared.enter (fresh.nodup.sublist enters.entered.given) inFull,
      backed.described.enter fresh enters⟩
  · exact fun unblocked userId => (surplus_enter fresh enters userId).2 unblocked

variable (scaled : config.Scaled)
include scaled

theorem update {update : OrderUpdateMsg}
    (backs : Backs config ⟨desk, ledger⟩ (.update update)) :
    StaysBacked config ⟨desk, ledger⟩ (.update update) := by
  obtain ⟨funded, spared, described⟩ := backed
  obtain ⟨⟨sameCalls, callsExact⟩, covers, -⟩ := backs
  obtain ⟨stillFunded, sameSurplus, clampFree⟩ :=
    funded.onOrderUpdate scaled spared described covers
  have risk : (desk.onOrderUpdate machine config update).risk =
      (desk.callsFor exact config update).foldl (RiskCall.apply exact) desk.risk := by
    rw [← callsExact.foldl_eq, ← sameCalls]
    exact State.risk_onOrderUpdate covers.wellFormed described.noZero
  have ledgerSame : auditUpdate machine config desk ledger update =
      auditUpdate exact config desk ledger update := by
    unfold auditUpdate
    rw [sameCalls]
  refine ⟨?_, ?_, fun _ => ?_⟩ <;> simp only [Audited.step, State.step, audit, inputCalls]
  · rw [ledgerSame]
    refine ⟨risk ▸ stillFunded, spared.onOrderUpdate funded scaled described covers, ?_⟩
    exact (described.onOrderUpdate covers.wellFormed).of_sameTerms
      (sameTerms_auditUpdate exact config desk update)
  · rw [sameCalls]
    exact callsExact.clampFree clampFree
  · rw [ledgerSame, risk]
    exact sameSurplus

theorem trades {trades : List TradeNotification}
    (backs : Backs config ⟨desk, ledger⟩ (.trades trades)) :
    StaysBacked config ⟨desk, ledger⟩ (.trades trades) := by
  obtain ⟨funded, spared, described⟩ := backed
  obtain ⟨⟨sameCalls, callsExact⟩, covers, -⟩ := backs
  obtain ⟨stillFunded, sameSurplus, clampFree, sameTerms, stillSpared⟩ :=
    funded.settleTrades scaled spared described covers
  have allCalls : trades.flatMap (desk.tradeCalls machine config) =
      trades.flatMap (desk.tradeCalls exact config) :=
    flatMap_congr sameCalls
  have core := core_settleTrades machine config desk trades
  rw [allCalls, callsExact.foldl_eq] at core
  have risk : (desk.settleTrades machine config trades).risk =
      (trades.flatMap (desk.tradeCalls exact config)).foldl (RiskCall.apply exact)
        desk.risk := congrArg Core.risk core
  have ledgerSame := @foldl_auditTrade_exact config desk ledger trades sameCalls
  refine ⟨?_, ?_, fun _ => ?_⟩ <;> simp only [Audited.step, State.step, audit, inputCalls]
  · rw [ledgerSame]
    refine ⟨risk ▸ stillFunded, stillSpared, ?_⟩
    rw [core]
    exact (described.of_sameTerms sameTerms).of_core rfl rfl fun _ => id
  · rw [allCalls]
    exact callsExact.clampFree clampFree
  · rw [ledgerSame, risk]
    exact sameSurplus

end

theorem step (scaled : config.Scaled) (backed : Backed config audited)
    (backs : Backs config audited input) : StaysBacked config audited input := by
  obtain ⟨desk, ledger⟩ := audited
  have described := backed.described
  cases input with
  | entry path => exact backed.entry backs
  | update update => exact backed.update scaled backs
  | trades trades => exact backed.trades scaled backs
  | cancel table userId path =>
    obtain ⟨risk, pending, runtime, queued⟩ := cancel_keeps table userId path
    exact backed.quiet (.of_eq risk) (described.of_core pending runtime fun _ => queued ▸ id)
      rfl rfl
  | send => exact backed.quiet (.of_eq State.risk_send) (described.send backs.covers) rfl rfl
  | flush =>
    have same : (desk.flush config).core = desk.core := core_flush
    exact backed.quiet (.of_eq (congrArg Core.risk same)) (same ▸ described) rfl rfl
  | sessions userTx =>
    exact backed.quiet (.refl _) (described.of_core rfl rfl fun _ => id) rfl rfl
  | account userId usdtBalanceAtoms =>
    obtain ⟨margins, pending, runtime, queued⟩ := ensureAccount_keeps userId usdtBalanceAtoms
    exact backed.quiet margins (described.of_core pending runtime fun _ => queued ▸ id) rfl rfl
  | markPrice symbol newPriceTicks order =>
    exact backed.quiet (RiskEngine.sameOrderMargins_updateMarkPrice _ _ _ _ _)
      (described.of_core rfl rfl fun _ => id) rfl rfl
  | adl symbol order =>
    have noOverflow := backs.noOverflow
    refine backed.quiet ?_ (described.of_core rfl rfl fun _ => id) rfl rfl
    simp only [State.step, ExactStep] at noOverflow ⊢
    rw [noOverflow]
    exact RiskEngine.sameOrderMargins_runAdl backed.funded.orderMarginOf_nonneg _ _ _

end Backed

end

/-! ## Orders reach the engine with their margin reserved -/

/-- The messages that a step publishes to the matching threads. -/
def State.published (config : Config) (desk : State) : Input → List (Symbol × InboundMsg)
  | .send => (desk.send config).2
  | _ => []

/-- The messages that a run publishes. -/
def State.publishedIn (config : Config) (desk : State) : List Input → List InboundMsg
  | [] => []
  | input :: inputs =>
    (desk.published config input).map (·.2) ++
      (desk.step machine config input).publishedIn config inputs

def State.submits (config : Config) (desk : State) : Input → List NewOrderRequest
  | .entry path => (desk.enter machine config path).2.orders.map (·.sent)
  | _ => []

/-- Every step of a run is covered, and its orders enter over paths that reserve
their margin. -/
def RunBacks (config : Config) (audited : Audited) (inputs : List Input) : Prop :=
  Along (Audited.step config) (Backs config) audited inputs
deriving Decidable

/-- Every entry of a run that is no liquidation reserves the full initial margin of
the orders it submits, what is published was submitted before, and no fill moves
more order margin than its account holds. -/
def RunSecured (config : Config) : List NewOrderRequest → State → List Input → Prop
  | _, _, [] => True
  | submitted, desk, input :: inputs =>
    (∀ path, input = .entry path → path.isLiquidation = false → desk.Secured machine config path) ∧
    (∀ symbol request, (symbol, .newOrder request) ∈ desk.published config input →
      request ∈ submitted) ∧
    ClampFree machine desk.risk (desk.inputCalls machine config input) ∧
    RunSecured config (submitted ++ desk.submits config input)
      (desk.step machine config input) inputs

section

variable {config : Config} {audited : Audited} {inputs : List Input} {desk : State}
  {symbol : Symbol}

theorem State.newOrder_not_mem_routeCancel (desk : State) (cancel : CancelOrderRequest) :
    (symbol, .newOrder request) ∉ desk.routeCancel config cancel := by
  intro mem
  unfold State.routeCancel at mem
  split at mem
  · simp at mem
  · split at mem <;> simp at mem

theorem State.mem_newOrders_of_sendCmd
    (isPublished : (symbol, .newOrder request) ∈ (desk.sendCmd config command).2) :
    request ∈ command.newOrders := by
  cases command with
  | newOrder sent =>
    simp only [State.sendCmd, State.sendOrder] at isPublished
    split at isPublished
    · simp only [mem_singleton, Prod.mk.injEq, InboundMsg.newOrder.injEq] at isPublished
      simp [AeronCmd.newOrders, isPublished.2]
    · simp at isPublished
  | cancel cancel => exact absurd isPublished (newOrder_not_mem_routeCancel _ _)
  | batchCancel cancels =>
    obtain ⟨cancel, -, mem⟩ := mem_flatMap.mp isPublished
    exact absurd mem (newOrder_not_mem_routeCancel _ _)
  | batchNewOrder requests =>
    obtain ⟨sent, mem, same⟩ := mem_map.mp isPublished
    simp only [Prod.mk.injEq, InboundMsg.newOrder.injEq] at same
    rw [← same.2]
    exact (mem_filter.mp mem).1

theorem State.mem_newOrders_of_sendLiqCmd
    (isPublished : (symbol, .newOrder request) ∈ (desk.sendLiqCmd config command).2) :
    request ∈ command.newOrders := by
  cases command with
  | newOrder sent =>
    simp only [sendLiqCmd] at isPublished
    split at isPublished
    · simp only [mem_singleton, Prod.mk.injEq, InboundMsg.newOrder.injEq] at isPublished
      simp [AeronCmd.newOrders, isPublished.2]
    · simp at isPublished
  | _ => simp [sendLiqCmd] at isPublished

/-- The send thread publishes orders that waited. -/
theorem State.mem_queued_of_send
    (isPublished : (symbol, .newOrder request) ∈ (desk.send config).2) :
    request ∈ desk.core.queued := by
  apply State.nextOrders_subset
  unfold State.send at isPublished
  unfold State.nextOrders
  cases isLiq : desk.liqCmd with
  | cons command rest =>
    simp only [isLiq] at isPublished
    exact State.mem_newOrders_of_sendLiqCmd isPublished
  | nil =>
    cases isCmd : desk.aeronCmd with
    | nil => simp [isLiq, isCmd] at isPublished
    | cons command rest =>
      simp only [isLiq, isCmd] at isPublished
      exact State.mem_newOrders_of_sendCmd isPublished

/-- What waits after a covered step waited before or was submitted in it. -/
theorem Backed.queued_step (backed : Backed config audited) (backs : Backs config audited input) :
    ∀ request ∈ (audited.desk.step machine config input).core.queued,
      request ∈ audited.desk.core.queued ∨ request ∈ audited.desk.submits config input := by
  intro request mem
  obtain ⟨noOverflow, covers, -⟩ := backs
  cases input with
  | entry path =>
    simp only [State.step, State.submits, ExactStep] at noOverflow mem ⊢
    rw [noOverflow] at mem ⊢
    have entered := (enters_enter covers.1.nodup covers.2).entered
    rcases entered.queued request mem with old | ⟨order, isOrder, rfl⟩
    · exact .inl old
    · exact .inr (mem_map_of_mem isOrder)
  | cancel table userId path => exact .inl ((cancel_keeps table userId path).2.2.2 ▸ mem)
  | send => exact .inl (State.sent_send.queued request mem)
  | update update =>
    left
    by_cases owned : audited.desk.owned update = true
    · rwa [← (State.handled_onOrderUpdate covers.wellFormed backed.described.noZero owned).queued]
    · rwa [State.step, State.onOrderUpdate, if_pos (by simpa using owned)] at mem
  | flush =>
    rw [State.step, core_flush] at mem
    exact .inl mem
  | trades trades =>
    rw [State.step, core_settleTrades] at mem
    exact .inl mem
  | sessions userTx => exact .inl mem
  | account userId usdtBalanceAtoms =>
    exact .inl ((ensureAccount_keeps userId usdtBalanceAtoms).2.2.2 ▸ mem)
  | markPrice symbol newPriceTicks order => exact .inl mem
  | adl symbol order => exact .inl mem

/-- A run whose steps are all covered is secured from any backed state on. -/
theorem Backed.runSecured (scaled : config.Scaled) (backed : Backed config audited)
    (queued : ∀ request ∈ audited.desk.core.queued, request ∈ submitted)
    (backs : RunBacks config audited inputs) : RunSecured config submitted audited.desk inputs := by
  induction inputs generalizing audited submitted with
  | nil => trivial
  | cons input inputs ih =>
    obtain ⟨first, later⟩ := backs
    obtain ⟨stillBacked, clampFree, -⟩ := backed.step scaled first
    refine ⟨?_, ?_, clampFree, ?_⟩
    · rintro path rfl notLiquidation
      exact State.secured_enter first.covers.1.nodup (first.reservesFirst notLiquidation).1
    · intro symbol request isPublished
      cases input with
      | send => exact queued request (State.mem_queued_of_send isPublished)
      | _ => simp [State.published] at isPublished
    · refine ih stillBacked (fun request mem => ?_) later
      rw [mem_append]
      exact (backed.queued_step first request mem).imp_left (queued request)

end

/-- In a secured run every step moves no more order margin than the accounts hold. -/
theorem RunSecured.clampFree {config : Config} {submitted : List NewOrderRequest} {desk : State}
    {before : List Input} {input : Input} {after : List Input}
    (secured : RunSecured config submitted desk (before ++ input :: after)) :
    ClampFree machine (desk.run machine config before).risk
      ((desk.run machine config before).inputCalls machine config input) := by
  induction before generalizing submitted desk with
  | nil => exact secured.2.2.1
  | cons first before ih => exact ih secured.2.2.2

/-- A desk that starts with accounts that hold no order margin. -/
def Audited.start (deskId : Nat) (risk : RiskEngine) (accountCache : AccountCache)
    (nextOrderId : Nat) : Audited where
  desk := State.new deskId risk accountCache nextOrderId
  ledger := ∅

theorem Backed.start {risk : RiskEngine} (noMargin : ∀ userId, risk.orderMarginOf userId = 0)
    (config : Config) (deskId : Nat) (accountCache : AccountCache) (nextOrderId : Nat) :
    Backed config (Audited.start deskId risk accountCache nextOrderId) := by
  have unknown : ∀ {id reservation} {conclusion : Prop},
      (∅ : Ledger).lookup id = some reservation → conclusion := by
    intro id reservation conclusion found
    simp at found
  refine ⟨?_, fun _ _ found => unknown found, ?_⟩
  · refine ⟨fun userId => ?_, fun _ _ found => unknown found, fun _ _ found => unknown found⟩
    show 0 ≤ risk.orderMarginOf userId - 0
    rw [noMargin]
    exact le_rfl
  · exact ⟨fun _ _ _ _ found => unknown found, fun _ _ _ _ found => unknown found,
      fun _ _ _ _ found => unknown found, nofun,
      ⟨rfl, rfl⟩, rfl⟩

/-- A desk with two funded accounts. -/
def Audited.funded : Audited :=
  .start 0 (.initialized [(4, 1000000000000), (8, 1000000000000)])
    (((∅ : AccountCache).insert (4, 2) ⟨1000000000000000, 0⟩).insert (8, 2) ⟨1000000000000000, 0⟩) 1

/-- In every run whose orders enter over paths that reserve their margin and trade at
no more than the price it was reserved at, orders reach the engine with their full
initial margin reserved, and no fill moves more order margin than its account
holds. -/
theorem runSecured_start
    {config : Config} {deskId : Nat} {risk : RiskEngine} {accountCache : AccountCache}
    {nextOrderId : Nat} {inputs : List Input} (scaled : config.Scaled)
    (noMargin : ∀ userId, risk.orderMarginOf userId = 0)
    (backs : RunBacks config (.start deskId risk accountCache nextOrderId) inputs) :
    RunSecured config [] (.new deskId risk accountCache nextOrderId) inputs :=
  (Backed.start noMargin config deskId accountCache nextOrderId).runSecured scaled
    (fun _ member => absurd member not_mem_nil) backs

/-- A bid rests, and an offer trades with a part of it. -/
def Input.partlyFilledMaker : List Input :=
  [.sessions [4, 8],
    .entry (.placeOrder none ⟨4, 7, .buy, false, .gtc, some 10000000, 100, false⟩),
    .send,
    .update (.accepted 1 1 4),
    .entry (.placeOrder none ⟨8, 7, .sell, false, .gtc, some 10000000, 60, false⟩),
    .send,
    .trades [⟨2, 1, 10000000, 60, .sell, 7⟩], .update (.filled 2 2 8 10000000 60)]

theorem runSecured_partlyFilledMaker :
    RunSecured .btcUsdt [] Audited.funded.desk Input.partlyFilledMaker :=
  runSecured_start Config.scaled_btcUsdt (RiskEngine.orderMarginOf_initialized _)
    (by decide +kernel)

/-- An offer rests, and a bid that came over REST trades with it. -/
def Input.restTaker : List Input :=
  [.sessions [4, 8],
    .entry (.placeOrder none ⟨8, 7, .sell, false, .gtc, some 10000000, 100, false⟩),
    .send,
    .update (.accepted 1 1 8),
    .entry (.handlePlaceOrder none ⟨4, 7, .buy, false, .gtc, some 10000000, 60, false⟩),
    .send, .trades [⟨2, 1, 10000000, 60, .buy, 7⟩]]

/-- A REST order reaches the engine with nothing reserved, and its fill moves margin
that the account does not hold. -/
theorem not_runSecured_restTaker :
    (.newOrder ⟨2, 4, 10000000, 60, .buy, .gtc, 0, false, 7⟩ ∈
        Audited.funded.desk.publishedIn .btcUsdt Input.restTaker) ∧
      (Audited.funded.run .btcUsdt Input.restTaker).desk.risk.orderMarginOf 4 = 0 ∧
      ¬ RunSecured .btcUsdt [] Audited.funded.desk
        (Input.restTaker ++ [.update (.filled 2 2 4 10000000 60)]) := by
  refine ⟨by decide +kernel, by decide +kernel, fun secured => ?_⟩
  have clampFree := @RunSecured.clampFree .btcUsdt [] Audited.funded.desk Input.restTaker
    (.update (.filled 2 2 4 10000000 60)) [] secured
  revert clampFree
  decide +kernel

end LightningX.Desk
