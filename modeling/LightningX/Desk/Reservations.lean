import LightningX.Desk.Run
import LightningX.Risk.OrderMargin

/-!
# What an order entry does

Each entry path either sends orders or does not.  `Entered` says what happens to
the metadata and the queues, and `Reserves` which reservations the risk engine
granted on the way.
-/

namespace LightningX.Desk

open List Submission AList
open Matching (Side TimeInForce)
open Risk Transport Arithmetic RiskEngine

variable {orders : List Submission} {risk : RiskEngine}

/-! ## Reservations -/

namespace Submission

/-- The margin that an order reserved; a liquidation order reserves nothing. -/
def reservedAtoms (order : Submission) : Int :=
  if order.details.liqPriceTicks ≠ 0 then 0 else order.details.initialMarginAtoms

/-- The price that the margin of an order is computed with. -/
def marginTicks (order : Submission) : Int :=
  if order.sent.priceTicks > 0 then order.sent.priceTicks else order.details.freezePrice

/-- The margin of an order is the initial margin of all its lots. -/
@[mk_iff]
structure InFull (arith : Arithmetic) (config : Config) (order : Submission) : Prop where
  ordinary : order.details.liqPriceTicks = 0
  margin : order.details.initialMarginAtoms =
    initialMarginAtoms arith config order.sent.symbol order.marginTicks order.sent.quantityLots

instance (arith : Arithmetic) (config : Config) (order : Submission) :
    Decidable (order.InFull arith config) :=
  decidable_of_iff _ (inFull_iff arith config order).symm

end Submission

/-- Margin that orders of a user reserved. -/
def claimed (orders : List Submission) (userId : UserId) : Int :=
  (orders.map fun order => if order.sent.participantId = userId then order.reservedAtoms else 0).sum

/-- The risk engine grants the margins of some orders, one after the other.
Between them reservations may be undone and accounts opened. -/
inductive Reserves (arith : Arithmetic) :
    RiskEngine → List Submission → RiskEngine → Prop
  | done (engine : RiskEngine) : Reserves arith engine [] engine
  | reserved {engine after : RiskEngine} {order : Submission} {orders : List Submission}
      {amount : Int}
      (granted : (engine.checkAndReserveMargin arith order.sent.participantId
        order.details.initialMarginAtoms).2 = .ok amount)
      (rest : Reserves arith (engine.checkAndReserveMargin arith order.sent.participantId
        order.details.initialMarginAtoms).1 orders after) :
      Reserves arith engine (order :: orders) after
  | undone {engine after : RiskEngine} {userId : UserId} {margin : Int}
      {orders : List Submission} {amount : Int}
      (granted : (engine.checkAndReserveMargin arith userId margin).2 = .ok amount)
      (rest : Reserves arith ((engine.checkAndReserveMargin arith userId
        margin).1.releaseOrderMargin arith userId margin) orders after) :
      Reserves arith engine orders after
  | opened {engine after : RiskEngine} {userId : UserId} {usdtBalanceAtoms : Int}
      {orders : List Submission}
      (missing : engine.accounts.lookup userId = none)
      (rest : Reserves arith (engine.initializeAccount userId usdtBalanceAtoms) orders after) :
      Reserves arith engine orders after

/-- Granted margins are added to the order margins. -/
theorem Reserves.orderMarginOf {after : RiskEngine} (reserves : Reserves exact engine orders after)
    (ordinary : ∀ order ∈ orders, order.details.liqPriceTicks = 0) (userId : UserId) :
    after.orderMarginOf userId = engine.orderMarginOf userId + claimed orders userId := by
  induction reserves with
  | done engine => simp [claimed]
  | @reserved engine after order orders amount granted _ ih =>
    have first : order.reservedAtoms = order.details.initialMarginAtoms := by
      simp [reservedAtoms, ordinary order (by simp)]
    rw [ih fun other mem => ordinary other (by simp [mem]),
      orderMarginOf_checkAndReserveMargin granted]
    simp only [claimed, map_cons, sum_cons, first, eq_comm (a := order.sent.participantId)]
    omega
  | undone granted _ ih => rw [ih ordinary, sameOrderMargins_undo granted]
  | opened missing _ ih => rw [ih ordinary, sameOrderMargins_initializeAccount missing]

/-! ## Metadata and queues -/

/-- What an entry does to metadata and queues, if it may give out some
identifiers. -/
structure Entered (ids : List OrderId) (before after : Core) (orders : List Submission) :
    Prop where
  given : (orders.map (·.sent.clientOrderId)).Sublist ids
  pendingNew : ∀ order ∈ orders,
    after.pendingMeta.lookup order.sent.clientOrderId = some order.details
  pendingOld : ∀ id ∉ ids, after.pendingMeta.lookup id = before.pendingMeta.lookup id
  runtimeNew : ∀ order ∈ orders, ∀ details,
    after.orderMeta.lookup order.sent.clientOrderId = some details →
      details.userId = order.sent.participantId ∨
        before.orderMeta.lookup order.sent.clientOrderId = some details
  runtimeOld : ∀ id ∉ ids, after.orderMeta.lookup id = before.orderMeta.lookup id
  queued : ∀ request ∈ after.queued,
    request ∈ before.queued ∨ ∃ order ∈ orders, request = order.sent

/-- An order with lots and a margin whose metadata agrees with what is sent. -/
@[mk_iff]
structure Submission.Proper (order : Submission) : Prop where
  ordinary : order.details.liqPriceTicks = 0
  nonneg : 0 ≤ order.details.initialMarginAtoms
  lots : 0 < order.sent.quantityLots
  user : order.details.userId = order.sent.participantId
  symbol : order.details.symbol = order.sent.symbol

instance (order : Submission) : Decidable order.Proper :=
  decidable_of_iff _ (proper_iff order).symm

/-- What an entry that reserves margin does.  It sends all orders it reserved
margin for unless it is blocked. -/
structure Reserving (arith : Arithmetic) (known : Submission → Prop) (blocked : Prop)
    (ids : List OrderId) (before after : Core) (orders : List Submission) : Prop where
  entered : Entered ids before after orders
  reserves : ∃ reserved, Reserves arith before.risk reserved after.risk ∧
    (orders = reserved ∨ orders = [] ∧ blocked) ∧ ∀ order ∈ reserved, known order

/-- An order has lots unless it is a liquidation order, and its metadata agrees with what
is sent. -/
structure Submission.Sound (order : Submission) : Prop where
  nonneg : 0 ≤ order.reservedAtoms
  lots : order.details.liqPriceTicks = 0 → 0 < order.sent.quantityLots
  user : order.details.userId = order.sent.participantId
  symbol : order.details.symbol = order.sent.symbol

/-- What an entry that reserves nothing does. -/
structure Unreserved (ids : List OrderId) (before after : Core) (orders : List Submission) :
    Prop where
  entered : Entered ids before after orders
  margins : before.risk.SameOrderMargins after.risk
  orders : ∀ order ∈ orders, order.reservedAtoms = 0 ∧ order.Sound

section

variable {arith : Arithmetic} {known : Submission → Prop} {blocked : Prop}
  {ids : List OrderId} {id : OrderId} {before after : Core} {order : Submission}

/-- An entry that sends nothing. -/
theorem Entered.unsent
    (pending : ∀ id ∉ ids, after.pendingMeta.lookup id = before.pendingMeta.lookup id)
    (runtime : ∀ id ∉ ids, after.orderMeta.lookup id = before.orderMeta.lookup id)
    (queued : after.queued = before.queued) : Entered ids before after [] where
  given := nil_sublist ids
  pendingNew := by simp
  pendingOld := pending
  runtimeNew := by simp
  runtimeOld := runtime
  queued := fun _ mem => .inl (queued ▸ mem)

/-- An entry that sends nothing and touches no metadata. -/
theorem Entered.nothing (pending : after.pendingMeta = before.pendingMeta)
    (runtime : after.orderMeta = before.orderMeta) (queued : after.queued = before.queued) :
    Entered ids before after [] :=
  .unsent (fun _ _ => by rw [pending]) (fun _ _ => by rw [runtime]) queued

/-- An entry that sends one order. -/
theorem Entered.single
    (given : order.sent.clientOrderId = id)
    (pending : after.pendingMeta = before.pendingMeta.insert id order.details)
    (runtime : after.orderMeta = before.orderMeta ∨
      ∃ details, details.userId = order.sent.participantId ∧
        after.orderMeta = before.orderMeta.insert id details)
    (queued : ∀ request ∈ after.queued, request ∈ before.queued ∨ request = order.sent) :
    Entered [id] before after [order] := by
  subst given
  constructor
  · simp
  · simp [pending]
  · intro other ne
    rw [pending, lookup_insert_ne (by simpa using ne)]
  · intro found isFound details isDetails
    obtain rfl := mem_singleton.mp isFound
    rcases runtime with same | ⟨live, user, isLive⟩
    · exact .inr (same ▸ isDetails)
    · rw [isLive, lookup_insert] at isDetails
      exact .inl (by rw [← Option.some.inj isDetails, user])
  · intro other ne
    rcases runtime with same | ⟨live, -, isLive⟩
    · rw [same]
    · rw [isLive, lookup_insert_ne (by simpa using ne)]
  · simpa using queued

/-- An order was noted before the entry of others. -/
theorem Entered.cons
    (isNew : order.sent.clientOrderId ∉ ids)
    (rest : Entered ids
      { before with
        risk := risk
        pendingMeta :=
          before.pendingMeta.insert order.sent.clientOrderId order.details } after orders) :
    Entered (order.sent.clientOrderId :: ids) before after (order :: orders) where
  given := rest.given.cons_cons _
  pendingNew := by
    simp only [mem_cons, forall_eq_or_imp]
    exact ⟨(rest.pendingOld _ isNew).trans (lookup_insert _), rest.pendingNew⟩
  pendingOld := by
    intro other different
    obtain ⟨ne, notIn⟩ := not_or.mp (mem_cons.not.mp different)
    exact (rest.pendingOld other notIn).trans (lookup_insert_ne ne)
  runtimeNew := by
    simp only [mem_cons, forall_eq_or_imp]
    exact ⟨fun details found => .inr ((rest.runtimeOld _ isNew).symm.trans found), rest.runtimeNew⟩
  runtimeOld := fun other different => rest.runtimeOld other (not_mem_of_not_mem_cons different)
  queued := by
    intro request mem
    rcases rest.queued request mem with old | ⟨sent, isSent, isRequest⟩
    · exact .inl old
    · exact .inr ⟨sent, by simp [isSent], isRequest⟩

/-- More identifiers could have been given out. -/
theorem Entered.widen (entered : Entered ids { before with risk := risk } after orders)
    (part : ids.Sublist wider) : Entered wider before after orders where
  given := entered.given.trans part
  pendingNew := entered.pendingNew
  pendingOld := fun id missing => entered.pendingOld id fun mem => missing (part.subset mem)
  runtimeNew := entered.runtimeNew
  runtimeOld := fun id missing => entered.runtimeOld id fun mem => missing (part.subset mem)
  queued := entered.queued

/-- An entry that reserves nothing in the end. -/
theorem Reserving.nothing
    (entered : Entered ids before after []) (reserves : Reserves arith before.risk [] after.risk) :
    Reserving arith known blocked ids before after [] where
  entered := entered
  reserves := ⟨[], reserves, .inl rfl, by simp⟩

/-- An entry that does nothing. -/
theorem Reserving.idle (core : Core) : Reserving arith known blocked ids core core [] :=
  .nothing (.nothing rfl rfl rfl) (.done _)

theorem Reserving.mono (reserving : Reserving arith known blocked ids before after orders)
    (implies : ∀ order, known order → weaker order) :
    Reserving arith weaker blocked ids before after orders := by
  obtain ⟨entered, reserved, reserves, sent, isKnown⟩ := reserving
  exact ⟨entered, reserved, reserves, sent, fun order mem => implies order (isKnown order mem)⟩

theorem Unreserved.idle (core : Core) : Unreserved ids core core [] where
  entered := .nothing rfl rfl rfl
  margins := .refl _
  orders := by simp

/-- An entry that reserves margin for one order and sends it. -/
theorem Reserving.single
    (entered : Entered [id] before after [order])
    (granted : (before.risk.checkAndReserveMargin arith order.sent.participantId
      order.details.initialMarginAtoms).2 = .ok amount)
    (risk : after.risk = (before.risk.checkAndReserveMargin arith order.sent.participantId
      order.details.initialMarginAtoms).1)
    (isKnown : known order) :
    Reserving arith known blocked [id] before after [order] where
  entered := entered
  reserves := ⟨[order], .reserved granted (risk ▸ .done _), .inl rfl, by simpa using isKnown⟩

end

/-! ## The initial margin -/

section

variable {config : Config} {symbol : Symbol} {priceTicks limitTicks quantityLots : Int}

/-- Both divisions of the initial margin at once. -/
theorem initialMarginAtoms_eq (price : 0 ≤ priceTicks) (lots : 0 ≤ quantityLots)
    (scale : 0 ≤ (config.rules symbol).notionalScale) :
    initialMarginAtoms exact config symbol priceTicks quantityLots =
      priceTicks * quantityLots * atomsPerCent /
        ((config.rules symbol).notionalScale * (config.rules symbol).defaultLeverage) := by
  have product : 0 ≤ priceTicks * quantityLots * atomsPerCent :=
    Int.mul_nonneg (Int.mul_nonneg price lots) (by decide)
  have notional : calcNotionalAtoms exact priceTicks quantityLots
      (config.rules symbol).notionalScale =
      priceTicks * quantityLots * atomsPerCent / (config.rules symbol).notionalScale :=
    Int.tdiv_eq_ediv_of_nonneg product
  unfold initialMarginAtoms firingMarginAtoms calcInitialMarginAtoms
  rw [notional, ← Int.ediv_ediv_of_nonneg scale]
  split_ifs with leverage
  · simp [leverage]
  · exact Int.tdiv_eq_ediv_of_nonneg (Int.ediv_nonneg product scale)

variable (scale : 0 ≤ (config.rules symbol).notionalScale)
include scale

theorem initialMarginAtoms_nonneg (price : 0 ≤ priceTicks) (lots : 0 ≤ quantityLots) :
    0 ≤ initialMarginAtoms exact config symbol priceTicks quantityLots := by
  rw [initialMarginAtoms_eq price lots scale]
  exact Int.ediv_nonneg (Int.mul_nonneg (Int.mul_nonneg price lots) (by decide))
    (Int.mul_nonneg scale (Int.natCast_nonneg _))

theorem initialMarginAtoms_mono (price : 0 ≤ priceTicks) (dearer : priceTicks ≤ limitTicks)
    (lots : 0 ≤ quantityLots) :
    initialMarginAtoms exact config symbol priceTicks quantityLots ≤
      initialMarginAtoms exact config symbol limitTicks quantityLots := by
  rw [initialMarginAtoms_eq price lots scale, initialMarginAtoms_eq (price.trans dearer) lots scale]
  rcases (Int.mul_nonneg scale (Int.natCast_nonneg
      (config.rules symbol).defaultLeverage)).eq_or_lt with zero | positive
  · simp [← zero]
  · refine Int.ediv_le_ediv positive ?_
    exact Int.mul_le_mul_of_nonneg_right (Int.mul_le_mul_of_nonneg_right dearer lots) (by decide)

/-- What two parts of an order cost is rounded down twice. -/
theorem initialMarginAtoms_add_le (price : 0 ≤ priceTicks) (first : 0 ≤ firstLots)
    (second : 0 ≤ secondLots) :
    initialMarginAtoms exact config symbol priceTicks firstLots +
      initialMarginAtoms exact config symbol priceTicks secondLots ≤
      initialMarginAtoms exact config symbol priceTicks (firstLots + secondLots) := by
  rw [initialMarginAtoms_eq price first scale, initialMarginAtoms_eq price second scale,
    initialMarginAtoms_eq price (Int.add_nonneg first second) scale, mul_add, add_mul]
  rcases (Int.mul_nonneg scale (Int.natCast_nonneg
      (config.rules symbol).defaultLeverage)).eq_or_lt with zero | positive
  · simp [← zero]
  · exact Int.ediv_add_ediv_le_add_ediv positive

end

namespace State

variable {arith : Arithmetic} {config : Config} {desk : State} {margin : Int}
  {request : PlaceRequest} {shape bestOpposing : Option Int} {reserved : Int} {fired : FiredTrigger}

/-- A reservation with its freeze is refused or granted as a whole. -/
theorem reserveAndFreeze_cases (arith : Arithmetic) (desk : State) (userId : UserId) (margin : Int)
    (asset : Asset) (amountAtoms : Int) :
    (∃ reason risk,
      desk.reserveAndFreeze arith userId margin asset amountAtoms =
        ({ desk with risk := risk }, .error reason) ∧
      ∀ {orders after}, Reserves arith risk orders after → Reserves arith desk.risk orders after) ∨
    ∃ reserved cache,
      (desk.risk.checkAndReserveMargin arith userId margin).2 = .ok reserved ∧
      desk.reserveAndFreeze arith userId margin asset amountAtoms =
        ({ desk with
          risk := (desk.risk.checkAndReserveMargin arith userId margin).1
          accountCache := cache }, .ok ()) := by
  unfold reserveAndFreeze
  cases outcome : desk.risk.checkAndReserveMargin arith userId margin with
  | mk risk answer =>
    cases answer with
    | error reason =>
      have same := checkAndReserveMargin_of_error (congrArg Prod.snd outcome)
      rw [outcome] at same
      exact .inl ⟨reason, risk, rfl, fun rest => same ▸ rest⟩
    | ok reserved =>
      cases freeze : tryFreezeCache desk.accountCache userId asset amountAtoms with
      | none =>
        refine .inl ⟨"Insufficient balance", _, rfl, fun rest => ?_⟩
        refine .undone (congrArg Prod.snd outcome) ?_
        rwa [outcome]
      | some cache => exact .inr ⟨reserved, cache, rfl, rfl⟩

theorem lots_of_normalizeOrderShape {rules : SymbolRules}
    (normalized : normalizeOrderShape rules request = .ok shape) : 0 < request.quantityLots := by
  by_contra none
  simp [normalizeOrderShape, Int.not_lt.mp none] at normalized

section

variable (passed : wsMargin arith config request bestOpposing = .ok (shape, margin))
include passed

/-- What the WebSocket checks of an order establish. -/
theorem wsMargin_spec :
    0 < request.quantityLots ∧ 0 < margin ∧
      margin = initialMarginAtoms arith config request.symbol
        (if shape.getD 0 > 0 then shape.getD 0 else freezePriceOf request bestOpposing)
        request.quantityLots := by
  unfold wsMargin at passed
  cases normalized : normalizeOrderShape (config.rules request.symbol) request with
  | error reason => simp [normalized] at passed
  | ok limit =>
    have lots := lots_of_normalizeOrderShape normalized
    simp only [normalized] at passed
    split_ifs at passed
    cases effective : effectivePriceTicks limit (freezePriceOf request bestOpposing) with
    | error reason => simp [effective] at passed
    | ok priceTicks =>
      simp only [effective] at passed
      split_ifs at passed with positive
      simp only [Except.ok.injEq, Prod.mk.injEq] at passed
      obtain ⟨rfl, rfl⟩ := passed
      refine ⟨lots, Int.not_le.mp positive, ?_⟩
      have price : priceTicks = if limit.getD 0 > 0 then limit.getD 0
          else freezePriceOf request bestOpposing := by
        unfold effectivePriceTicks at effective
        split_ifs at effective ⊢
        all_goals exact (Except.ok.inj effective).symm
      rw [price]

/-! ## WebSocket -/

theorem reserving_submitReserved
    (granted : (desk.risk.checkAndReserveMargin arith request.userId margin).2 = .ok reserved)
    (isRisk : risk = (desk.risk.checkAndReserveMargin arith request.userId margin).1) :
    let result := { desk with risk := risk, accountCache := cache : State }.submitReserved
      arith config request shape (freezePriceOf request bestOpposing) margin amountAtoms
    Reserving arith (fun order => order.Proper ∧ order.InFull arith config) False
      [desk.nextOrderId] desk.core result.1.core result.2.orders := by
  obtain ⟨lots, positive, inFull⟩ := wsMargin_spec passed
  subst isRisk
  unfold submitReserved
  simp only
  split
  · refine .nothing (.unsent ?_ (fun _ _ => rfl) rfl) (.undone granted (.done _))
    intro other different
    have ne : other ≠ desk.nextOrderId := by simpa using different
    exact (lookup_erase_ne ne).trans (lookup_insert_ne ne)
  · refine .single (.single rfl rfl (.inl rfl) ?_) granted rfl
      ⟨⟨rfl, positive.le, lots, rfl, rfl⟩, ⟨rfl, inFull⟩⟩
    intro other mem
    simpa [Core.queued, core, pushCmd, takeOrderId, notePending, AeronCmd.newOrders,
      or_assoc] using mem

end

theorem reserving_placeOrder (bestOpposing : Option Int) (request : PlaceRequest) :
    Reserving arith (fun order => order.Proper ∧ order.InFull arith config) False
      [desk.nextOrderId] desk.core
      (desk.placeOrder arith config bestOpposing request).1.core
      (desk.placeOrder arith config bestOpposing request).2.orders := by
  unfold placeOrder
  cases passed : wsMargin arith config request bestOpposing with
  | error reason => exact .idle _
  | ok found =>
    obtain ⟨shape, margin⟩ := found
    simp only
    split
    · unfold forwardOrder
      simp only
      split
      · exact .idle _
      · exact .idle _
    · cases desk.checkLimits config request with
      | error reason => exact .idle _
      | ok =>
        obtain ⟨reason, risk, refused, kept⟩ | ⟨reserved, cache, granted, frozen⟩ :=
          reserveAndFreeze_cases arith desk request.userId margin
            (config.quoteAsset request.symbol) (marginUsdtAtoms 100 margin)
        · simp only [refused]
          exact .nothing (.nothing rfl rfl rfl) (kept (.done risk))
        · simp only [frozen]
          exact reserving_submitReserved passed granted rfl

/-- The first phase of a batch takes identifiers in order and nothing else. -/
theorem validateOrders_spec (arith : Arithmetic) (config : Config) (desk : State) (userId : UserId)
    (orders : List (Option Int × PlaceRequest)) {count : Nat} (fits : orders.length ≤ count) :
    let result := desk.validateOrders arith config userId orders
    result.1.core = desk.core ∧
      (result.2.map (·.sent.clientOrderId)).Sublist (upcoming count desk.nextOrderId) ∧
      ∀ order ∈ result.2, order.sent.participantId = userId ∧ order.Proper ∧
        order.InFull arith config := by
  induction orders generalizing desk count with
  | nil => exact ⟨rfl, nil_sublist _, by simp [validateOrders]⟩
  | cons first rest ih =>
    unfold validateOrders
    simp only
    split
    · exact ih desk (Nat.le_of_succ_le fits)
    · rename_i shape margin passed
      obtain ⟨lots, positive, inFull⟩ := wsMargin_spec passed
      cases count with
      | zero => simp at fits
      | succ count =>
        obtain ⟨same, given, isKnown⟩ := 
          ih desk.takeOrderId (Nat.le_of_succ_le_succ fits)
        refine ⟨same, given.cons_cons _, ?_⟩
        simp only [mem_cons, forall_eq_or_imp]
        exact ⟨⟨rfl, ⟨rfl, positive.le, lots, rfl, rfl⟩, ⟨rfl, inFull⟩⟩, isKnown⟩

/-- The second phase reserves margin for the orders it keeps. -/
theorem reserveOrders_spec (arith : Arithmetic) (config : Config) (desk : State)
    (distinct : (validated.map (·.sent.clientOrderId)).Nodup)
    (users : ∀ order ∈ validated, order.sent.participantId = userId) :
    let result := desk.reserveOrders arith config userId validated
    result.2.Sublist validated ∧
      Reserves arith desk.risk result.2 result.1.risk ∧
      result.1.core.queued = desk.core.queued ∧ result.1.aeronCmd = desk.aeronCmd ∧
      Entered (validated.map (·.sent.clientOrderId)) desk.core result.1.core result.2 := by
  induction validated generalizing desk with
  | nil => exact ⟨.refl _, .done _, rfl, rfl, .nothing rfl rfl rfl⟩
  | cons order rest ih =>
    obtain ⟨isNew, restDistinct⟩ := nodup_cons.mp distinct
    have restUsers : ∀ other ∈ rest, other.sent.participantId = userId :=
      fun other mem => users other (by simp [mem])
    unfold reserveOrders
    obtain ⟨reason, risk, refused, kept⟩ | ⟨reserved, cache, granted, frozen⟩ :=
      reserveAndFreeze_cases arith desk userId order.details.initialMarginAtoms
        (config.quoteAsset order.sent.symbol) (marginUsdtAtoms 100 order.details.initialMarginAtoms)
    · simp only [refused]
      obtain ⟨part, reserves, queued, commands, entered⟩ :=
        ih { desk with risk := risk } restDistinct restUsers
      exact ⟨part.cons _, kept reserves, queued, commands, .widen entered (sublist_cons_self _ _)⟩
    · simp only [frozen]
      have isUser : order.sent.participantId = userId := users order (by simp)
      subst isUser
      obtain ⟨part, reserves, queued, commands, entered⟩ :=
        ih
          (({ desk with
            risk := _
            accountCache := cache } : State).notePending order.sent.clientOrderId
              order.details) restDistinct restUsers
      exact ⟨part.cons_cons _, .reserved granted reserves, queued, commands, .cons isNew entered⟩

theorem reserving_placeOrders (distinct : (upcoming 40 desk.nextOrderId).Nodup) (userId : UserId)
    (orders : List (Option Int × PlaceRequest)) :
    Reserving arith (fun order => order.Proper ∧ order.InFull arith config)
      (desk.aeronCmdFull config = true) (upcoming 40 desk.nextOrderId) desk.core
      (desk.placeOrders arith config userId orders).1.core
      (desk.placeOrders arith config userId orders).2.orders := by
  unfold placeOrders
  split
  · exact .idle _
  obtain ⟨same, given, isKnown⟩ := validateOrders_spec arith config desk userId
    (orders.take 40) (length_take_le 40 orders)
  generalize desk.validateOrders arith config userId (orders.take 40) = first at *
  obtain ⟨checked, validated⟩ := first
  obtain ⟨part, reserves, queued, commands, entered⟩ :=
    reserveOrders_spec arith config checked (distinct.sublist given)
      fun order mem => (isKnown order mem).1
  simp only at same given isKnown part reserves queued commands entered ⊢
  generalize checked.reserveOrders arith config userId validated = second at *
  obtain ⟨after, sent⟩ := second
  have sentKnown : ∀ order ∈ sent, order.Proper ∧ order.InFull arith config :=
    fun order mem => (isKnown order (part.subset mem)).2
  have all : Entered (upcoming 40 desk.nextOrderId) desk.core after.core sent := by
    rw [← same]
    exact .widen entered given
  have granted : Reserves arith desk.core.risk sent after.core.risk := by
    rw [← same]
    exact reserves
  have noNew : after.core.queued = desk.core.queued := by rw [queued, same]
  split
  · rename_i none
    exact .nothing (none ▸ all) (none ▸ granted)
  split
  · have commandsSame : after.aeronCmd = desk.aeronCmd :=
      commands.trans (congrArg Core.aeronCmd same)
    refine ⟨.unsent all.pendingOld all.runtimeOld noNew, sent, granted, .inr ⟨rfl, ?_⟩, sentKnown⟩
    rwa [aeronCmdFull, ← commandsSame]
  · refine ⟨⟨all.given, all.pendingNew, all.pendingOld, all.runtimeNew, all.runtimeOld, ?_⟩,
      sent, granted, .inl rfl, sentKnown⟩
    intro request mem
    have split : request ∈ after.core.queued ∨ request ∈ sent.map (·.sent) := by
      simpa [Core.queued, core, pushCmd, AeronCmd.newOrders, or_assoc] using mem
    rcases split with old | new
    · exact .inl (noNew ▸ old)
    · obtain ⟨order, isOrder, rfl⟩ := mem_map.mp new
      exact .inr ⟨order, isOrder, rfl⟩

/-! ## Forwarded orders -/

theorem reserving_receiveForwardedOrder
    {request : NewOrderRequest} {details : OrderMeta} (published : Bool) (ingressDeskId : Nat)
    (isKnown : known ⟨request, { details with liqPriceTicks := 0 }⟩) :
    let result := desk.receiveForwardedOrder arith config published ingressDeskId request details
    Reserving arith known False [request.clientOrderId] desk.core result.1.core
      result.2.orders := by
  unfold receiveForwardedOrder
  cases desk.checkForwarded arith config request with
  | error reason => exact .idle _
  | ok =>
    obtain ⟨reason, risk, refused, kept⟩ | ⟨reserved, cache, granted, frozen⟩ :=
      reserveAndFreeze_cases arith desk request.participantId
        details.initialMarginAtoms (config.quoteAsset request.symbol)
        (marginUsdtAtoms 100000000 details.initialMarginAtoms)
    · simp only [refused]
      exact .nothing (.nothing rfl rfl rfl) (kept (.done risk))
    · simp only [frozen]
      split
      · exact .single (.single rfl rfl (.inr ⟨_, rfl, rfl⟩) fun _ => .inl) granted rfl isKnown
      · refine .nothing (.unsent ?_ ?_ rfl) (.undone granted (.done _))
        · exact fun other ne => lookup_erase_ne (by simpa using ne)
        · exact fun other ne => lookup_erase_ne (by simpa using ne)

/-! ## Triggers -/

/-- Opening an account first makes no difference. -/
theorem reserving_ensureAccount {after : Core}
    (userId : UserId) (usdtBalanceAtoms : Int)
    (rest : Reserving arith known blocked ids
      (desk.ensureAccount userId usdtBalanceAtoms).core after orders) :
    Reserving arith known blocked ids desk.core after orders := by
  unfold ensureAccount at rest
  cases found : desk.risk.accounts.lookup userId with
  | some account => simpa only [found] using rest
  | none =>
    simp only [found] at rest
    obtain ⟨entered, reserved, reserves, sent, isKnown⟩ := rest
    exact ⟨⟨entered.given, entered.pendingNew, entered.pendingOld, entered.runtimeNew,
      entered.runtimeOld, entered.queued⟩, reserved, .opened found reserves, sent, isKnown⟩

theorem liqCmd_ensureAccount (userId : UserId) (usdtBalanceAtoms : Int) :
    (desk.ensureAccount userId usdtBalanceAtoms).liqCmd = desk.liqCmd := by
  unfold ensureAccount
  split <;> rfl

theorem reserving_submitTrigger {execTicks : Int}
    (granted : (desk.risk.checkAndReserveMargin arith fired.userId margin).2 = .ok reserved)
    (isRisk : risk = (desk.risk.checkAndReserveMargin arith fired.userId margin).1)
    (isKnown : ∀ desk : State,
      known ⟨desk.triggerRequest fired execTicks, triggerMeta fired execTicks margin⟩) :
    let result := { desk with risk := risk : State }.submitTrigger arith config fired
      execTicks margin
    Reserving arith known (desk.liqCmd.length ≥ config.liqCmdCap) [fired.orderId] desk.core
      result.1.core result.2.orders := by
  subst isRisk
  unfold submitTrigger
  simp only
  split
  · split
    · rename_i full
      refine ⟨.unsent ?_ ?_ rfl,
        [⟨desk.triggerRequest fired execTicks, triggerMeta fired execTicks margin⟩],
        .reserved granted (.done _), .inr ⟨rfl, full⟩, by simpa using isKnown desk⟩
      · exact fun other ne => lookup_insert_ne (by simpa using ne)
      · exact fun other ne => lookup_insert_ne (by simpa using ne)
    · refine .single (.single rfl rfl (.inr ⟨_, rfl, rfl⟩) ?_) granted rfl (isKnown _)
      intro other mem
      simp only [Core.queued, core, pushLiqCmd, flatMap_append, flatMap_singleton,
        AeronCmd.newOrders, mem_append, mem_singleton] at mem ⊢
      tauto
  · exact .nothing (.nothing rfl rfl rfl) (.undone granted (.done _))

theorem reserving_injectTriggerOrder
    (isKnown : ∀ (desk : State) (execTicks : Int), 0 < execTicks →
      known ⟨desk.triggerRequest fired execTicks, triggerMeta fired execTicks
        (initialMarginAtoms arith config fired.symbol execTicks fired.qtyLots)⟩) :
    Reserving arith known (desk.liqCmd.length ≥ config.liqCmdCap) [fired.orderId] desk.core
      (desk.injectTriggerOrder arith config fired).1.core
      (desk.injectTriggerOrder arith config fired).2.orders := by
  unfold injectTriggerOrder
  cases desk.execTicks arith fired with
  | error reason => exact .idle _
  | ok execTicks =>
    simp only
    split
    · exact .idle _
    rename_i positive
    apply reserving_ensureAccount fired.userId fired.usdtBalanceAtoms
    rw [← liqCmd_ensureAccount fired.userId fired.usdtBalanceAtoms]
    generalize desk.ensureAccount fired.userId fired.usdtBalanceAtoms = opened
    split
    · rename_i risk reason refused
      have same := checkAndReserveMargin_of_error (congrArg Prod.snd refused)
      rw [refused] at same
      refine .nothing (.nothing rfl rfl rfl) ?_
      rw [show opened.core.risk = risk from same.symm]
      exact .done risk
    · rename_i risk reserved outcome
      exact reserving_submitTrigger (congrArg Prod.snd outcome)
        (congrArg Prod.fst outcome).symm fun desk => isKnown desk execTicks (Int.not_le.mp positive)

/-! ## REST and liquidations -/

theorem core_publishRestOrderUpsert (desk : State) (orderId : OrderId) (request : PlaceRequest)
    (freezePrice : Int) (asset : Asset) :
    (desk.publishRestOrderUpsert orderId request freezePrice asset).core = desk.core := by
  unfold publishRestOrderUpsert
  rw [core_publishAccount, core_publishFrame]

theorem unreserved_submitRest (desk : State) (lots : 0 < request.quantityLots)
    (shape : Option Int) (freezePrice : Int) (asset : Asset) :
    Unreserved [desk.nextOrderId] desk.core
      (desk.submitRest config request shape freezePrice asset).1.core
      (desk.submitRest config request shape freezePrice asset).2.orders := by
  have same := core_publishRestOrderUpsert desk.takeOrderId desk.nextOrderId request
    freezePrice asset
  unfold submitRest
  simp only
  generalize desk.takeOrderId.publishRestOrderUpsert desk.nextOrderId request freezePrice
    asset = noted at same
  rw [core_takeOrderId] at same
  rw [← same]
  split
  · refine ⟨.unsent ?_ (fun _ _ => rfl) rfl, .refl _, by simp [Reply.orders]⟩
    exact fun other ne => lookup_insert_ne (by simpa using ne)
  · refine ⟨.single rfl rfl (.inl rfl) ?_, .refl _, ?_⟩
    · intro other mem
      simpa [Core.queued, core, pushCmd, notePending, AeronCmd.newOrders, or_assoc] using mem
    · simp only [Reply.orders, mem_singleton, forall_eq]
      exact ⟨rfl, le_rfl, fun _ => lots, rfl, rfl⟩

/-- A REST order is sent although nothing was reserved for it. -/
theorem unreserved_handlePlaceOrder (bestOpposing : Option Int) (request : PlaceRequest) :
    Unreserved [desk.nextOrderId] desk.core
      (desk.handlePlaceOrder config bestOpposing request).1.core
      (desk.handlePlaceOrder config bestOpposing request).2.orders := by
  unfold handlePlaceOrder
  split
  · exact .idle _
  split
  · exact .idle _
  split
  · exact .idle _
  rename_i shape normalized
  simp only
  split
  · exact .idle _
  split
  · exact .idle _
  · rename_i cache frozen
    exact unreserved_submitRest { desk with accountCache := cache }
      (lots_of_normalizeOrderShape normalized) _ _ _

theorem unreserved_liquidate (event : Liquidation) :
    Unreserved [desk.nextOrderId] desk.core (desk.liquidate arith config event).1.core
      (desk.liquidate arith config event).2.orders := by
  unfold liquidate
  split
  · exact .idle _
  rename_i isLiquidation
  simp only
  have margins : desk.risk.SameOrderMargins
      (desk.risk.setAccountStatus event.userId .liquidating) :=
    sameOrderMargins_setAccountStatus event.userId .liquidating
  split
  · refine ⟨.unsent ?_ (fun _ _ => rfl) rfl, margins, by simp [Reply.orders]⟩
    intro other different
    have ne : other ≠ desk.nextOrderId := by simpa using different
    exact (lookup_erase_ne ne).trans (lookup_insert_ne ne)
  · refine ⟨.single rfl rfl (.inl rfl) ?_, margins, ?_⟩
    · intro other mem
      simp only [Core.queued, core, pushLiqCmd, flatMap_append, flatMap_singleton,
        AeronCmd.newOrders, mem_append, mem_singleton] at mem ⊢
      tauto
    · simp only [Reply.orders, mem_singleton, forall_eq]
      exact ⟨if_pos isLiquidation, (if_pos isLiquidation).ge,
        fun ordinary => absurd ordinary isLiquidation, rfl, rfl⟩

theorem liqPriceTicks_of_liquidate {event : Liquidation}
    (mem : order ∈ (desk.liquidate arith config event).2.orders) :
    order.details.liqPriceTicks ≠ 0 := by
  unfold liquidate at mem
  split at mem
  · simp [Reply.orders] at mem
  rename_i isLiquidation
  simp only at mem
  split at mem
  · simp [Reply.orders] at mem
  · rw [Reply.orders, mem_singleton] at mem
    subst mem
    exact isLiquidation

end State

/-! ## All paths -/

theorem Submission.Proper.sound {order : Submission} (proper : order.Proper) : order.Sound where
  nonneg := by simpa [reservedAtoms, proper.ordinary] using proper.nonneg
  lots := fun _ => proper.lots
  user := proper.user
  symbol := proper.symbol

/-- What an entry does. -/
structure Enters (blocked : Prop) (ids : List OrderId) (before after : Core)
    (orders : List Submission) : Prop where
  entered : Entered ids before after orders
  margins : ∃ reserved,
    (∀ userId, after.risk.orderMarginOf userId =
      before.risk.orderMarginOf userId + claimed reserved userId) ∧
    (orders = reserved ∨ orders = [] ∧ blocked) ∧ ∀ order ∈ reserved, order.Sound

theorem Reserving.enters {after : Core}
    (reserving : Reserving exact Proper blocked ids before after orders) :
    Enters blocked ids before after orders := by
  obtain ⟨entered, reserved, reserves, sent, proper⟩ := reserving
  refine ⟨entered, reserved, ?_, sent, fun order mem => (proper order mem).sound⟩
  exact reserves.orderMarginOf fun order mem => (proper order mem).ordinary

theorem Unreserved.enters {after : Core} (unreserved : Unreserved ids before after orders) :
    Enters blocked ids before after orders := by
  refine ⟨unreserved.entered, orders, ?_, .inl rfl, ?_⟩
  · intro userId
    have none : claimed orders userId = 0 := by
      apply sum_eq_zero
      intro amount mem
      obtain ⟨order, isOrder, rfl⟩ := mem_map.mp mem
      rw [(unreserved.orders order isOrder).1, ite_self]
    rw [unreserved.margins userId, none, add_zero]
  · exact fun order mem => (unreserved.orders order mem).2

namespace EntryPath

/-- Entries of other desks are what those desks pass on, and triggers have lots. -/
def Admissible (config : Config) : EntryPath → Prop
  | .forwarded _ _ request details => Proper ⟨request, { details with liqPriceTicks := 0 }⟩
  | .trigger fired => 0 < fired.qtyLots ∧ 0 ≤ (config.rules fired.symbol).notionalScale
  | _ => True

instance (config : Config) : (path : EntryPath) → Decidable (path.Admissible config)
  | .forwarded _ _ _ _ => inferInstanceAs (Decidable (Proper _))
  | .trigger _ => inferInstanceAs (Decidable (_ ∧ _))
  | .handlePlaceOrder _ _ | .placeOrder _ _ | .placeOrders _ _ | .liquidation _ => isTrue trivial

/-- A path that reserves margin; another desk passed on the full margin. -/
def ReservesFirst (arith : Arithmetic) (config : Config) : EntryPath → Prop
  | .handlePlaceOrder _ _ => False
  | .liquidation _ => False
  | .forwarded _ _ request details =>
    InFull arith config ⟨request, { details with liqPriceTicks := 0 }⟩
  | _ => True

instance (arith : Arithmetic) (config : Config) :
    (path : EntryPath) → Decidable (path.ReservesFirst arith config)
  | .forwarded _ _ _ _ => inferInstanceAs (Decidable (InFull _ _ _))
  | .handlePlaceOrder _ _ | .liquidation _ => isFalse id
  | .placeOrder _ _ | .placeOrders _ _ | .trigger _ => isTrue trivial

/-- The queue that an entry needs after reserving is full. -/
def Blocked (config : Config) (desk : State) : EntryPath → Prop
  | .placeOrders _ _ => desk.aeronCmdFull config = true
  | .trigger _ => desk.liqCmd.length ≥ config.liqCmdCap
  | _ => False

instance (config : Config) (desk : State) :
    (path : EntryPath) → Decidable (path.Blocked config desk)
  | .placeOrders _ _ => inferInstanceAs (Decidable (_ = _))
  | .trigger _ => inferInstanceAs (Decidable (_ ≥ _))
  | .handlePlaceOrder _ _ | .placeOrder _ _ | .forwarded _ _ _ _ | .liquidation _ => isFalse id

def isLiquidation : EntryPath → Bool
  | .liquidation _ => true
  | _ => false

end EntryPath

namespace State

variable {arith : Arithmetic} {config : Config} {desk : State}

/-- The orders that an entry sends had their full initial margin reserved. -/
def Secured (arith : Arithmetic) (config : Config) (desk : State) (path : EntryPath) :
    Prop :=
  ∃ reserved, Reserves arith desk.risk reserved (desk.enter arith config path).1.risk ∧
    ((desk.enter arith config path).2.orders = reserved ∨
      (desk.enter arith config path).2.orders = []) ∧ ∀ order ∈ reserved, order.InFull arith config

theorem secured_enter (distinct : (desk.assigned path).Nodup)
    (reservesFirst : path.ReservesFirst arith config) : desk.Secured arith config path := by
  have secured : ∀ {known blocked},
      (∀ order, known order → order.InFull arith config) →
      Reserving arith known blocked (desk.assigned path) desk.core
        (desk.enter arith config path).1.core (desk.enter arith config path).2.orders →
      desk.Secured arith config path := by
    rintro known blocked inFull ⟨-, reserved, reserves, sent, isKnown⟩
    exact ⟨reserved, reserves, sent.imp_right And.left,
      fun order mem => inFull order (isKnown order mem)⟩
  cases path with
  | handlePlaceOrder bestOpposing request => exact reservesFirst.elim
  | placeOrder bestOpposing request =>
    exact secured (fun _ => And.right) (reserving_placeOrder bestOpposing request)
  | placeOrders userId orders =>
    exact secured (fun _ => And.right) (reserving_placeOrders distinct userId orders)
  | forwarded published ingressDeskId request details =>
    exact secured (fun _ => id)
      (reserving_receiveForwardedOrder published ingressDeskId reservesFirst)
  | trigger fired =>
    refine secured (fun _ => id) (reserving_injectTriggerOrder ?_)
    intro desk execTicks positive
    refine ⟨rfl, ?_⟩
    rw [marginTicks, if_pos (show (desk.triggerRequest fired
      execTicks).priceTicks > 0 from positive)]
    rfl
  | liquidation event => exact reservesFirst.elim

/-- Orders that are no liquidation orders enter with their margin reserved in full. -/
theorem inFull_enter (distinct : (desk.assigned path).Nodup)
    (reservesFirst : path.isLiquidation = false → path.ReservesFirst arith config)
    (mem : order ∈ (desk.enter arith config path).2.orders)
    (ordinary : order.details.liqPriceTicks = 0) : order.InFull arith config := by
  cases kind : path.isLiquidation with
  | false =>
    obtain ⟨reserved, -, sent, inFull⟩ := secured_enter distinct (reservesFirst kind)
    rcases sent with same | none
    · exact inFull order (same ▸ mem)
    · simp [none] at mem
  | true =>
    cases path with
    | liquidation event => exact absurd ordinary (liqPriceTicks_of_liquidate mem)
    | _ => cases kind

theorem enters_enter (distinct : (desk.assigned path).Nodup) (admissible : path.Admissible config) :
    Enters (path.Blocked config desk) (desk.assigned path) desk.core
      (desk.enter exact config path).1.core (desk.enter exact config path).2.orders := by
  cases path with
  | handlePlaceOrder bestOpposing request =>
    exact (unreserved_handlePlaceOrder bestOpposing request).enters
  | placeOrder bestOpposing request =>
    exact ((reserving_placeOrder bestOpposing request).mono fun _ => And.left).enters
  | placeOrders userId orders =>
    exact ((reserving_placeOrders distinct userId orders).mono fun _ => And.left).enters
  | forwarded published ingressDeskId request details =>
    exact (reserving_receiveForwardedOrder published ingressDeskId admissible).enters
  | trigger fired =>
    obtain ⟨lots, scale⟩ := admissible
    refine (reserving_injectTriggerOrder ?_).enters
    intro desk execTicks positive
    exact ⟨rfl, initialMarginAtoms_nonneg scale positive.le lots.le, lots, rfl, rfl⟩
  | liquidation event => exact (unreserved_liquidate event).enters

end State
end LightningX.Desk
