import LightningX.Desk.Margins

/-!
# Order margin backs the reservations

Each step of a desk takes from the order margin of an account what it takes from
the reservations in the ledger.  An order that reserved the margin of all its lots
always has enough left for those that can still trade, as long as it trades at no
more than the price it reserved margin at and is cancelled or rejected only before
it trades.
-/

namespace LightningX.Desk

open List State Option Submission
open Matching (Side TimeInForce)
open Risk Transport Arithmetic

variable {arith : Arithmetic} {details : OrderRuntimeMeta}

/-! ## Entries -/

section

variable {ledger : Ledger} {orders : List Submission} {id : OrderId}

theorem lookup_record_of_not_mem (other : id ∉ orders.map (·.sent.clientOrderId)) :
    (record ledger orders).lookup id = ledger.lookup id := by
  induction orders generalizing ledger with
  | nil => rfl
  | cons order orders ih =>
    obtain ⟨ne, later⟩ := not_or.mp (mem_cons.not.mp other)
    exact (ih later).trans (AList.lookup_insert_ne ne)

section

variable (distinct : (orders.map (·.sent.clientOrderId)).Nodup)
include distinct

theorem lookup_record_of_mem (mem : order ∈ orders) :
    (record ledger orders).lookup order.sent.clientOrderId = some order.reservation := by
  induction orders generalizing ledger with
  | nil => simp at mem
  | cons first orders ih =>
    obtain ⟨isNew, restDistinct⟩ := nodup_cons.mp distinct
    rcases mem_cons.mp mem with rfl | later
    · exact (lookup_record_of_not_mem isNew).trans (AList.lookup_insert _)
    · exact ih restDistinct later

theorem lookup_record_cases {reservation : Reservation}
    (found : (record ledger orders).lookup id = some reservation) :
    (∃ order ∈ orders, order.sent.clientOrderId = id ∧ reservation = order.reservation) ∨
      id ∉ orders.map (·.sent.clientOrderId) ∧ ledger.lookup id = some reservation := by
  by_cases mem : id ∈ orders.map (·.sent.clientOrderId)
  · obtain ⟨order, isOrder, rfl⟩ := mem_map.mp mem
    rw [lookup_record_of_mem distinct isOrder, some.injEq] at found
    exact .inl ⟨order, isOrder, rfl, found.symm⟩
  · rw [lookup_record_of_not_mem mem] at found
    exact .inr ⟨mem, found⟩

theorem held_record (isNew : ∀ id ∈ orders.map (·.sent.clientOrderId), ledger.lookup id = none)
    (userId : UserId) :
    held (record ledger orders) userId = held ledger userId + claimed orders userId := by
  induction orders generalizing ledger with
  | nil => simp [record, claimed]
  | cons order orders ih =>
    obtain ⟨notLater, restDistinct⟩ := nodup_cons.mp distinct
    have restNew : ∀ id ∈ orders.map (·.sent.clientOrderId),
        (ledger.insert order.sent.clientOrderId order.reservation).lookup id = none := by
      intro id mem
      have ne : id ≠ order.sent.clientOrderId := by
        rintro rfl
        exact notLater mem
      rw [AList.lookup_insert_ne ne]
      exact isNew id (by simp [mem_map.mp mem])
    have first : held (ledger.insert order.sent.clientOrderId order.reservation) userId =
        held ledger userId +
          if order.sent.participantId = userId then order.reservedAtoms else 0 := by
      unfold held
      rw [KeyedMap.total_insert, KeyedMap.share_of_not_mem (isNew _ (by simp)), Int.sub_zero]
      have left : order.reservation.left = order.reservedAtoms := by
        simp [Reservation.left, reservation]
      rw [left]
      rfl
    have later := ih restDistinct restNew
    rw [record, foldl_cons]
    rw [record] at later
    rw [later]
    simp only [claimed, map_cons, sum_cons]
    omega

end

end

/-- Identifiers that no order had before. -/
@[mk_iff]
structure Fresh (desk : State) (ledger : Ledger) (ids : List OrderId) : Prop where
  nodup : ids.Nodup
  nonzero : 0 ∉ ids
  unknown : ∀ id ∈ ids, ledger.lookup id = none ∧ desk.orderMeta.lookup id = none

instance (desk : State) (ledger : Ledger) (ids : List OrderId) :
    Decidable (Fresh desk ledger ids) :=
  decidable_of_iff _ (fresh_iff desk ledger ids).symm

section

variable {desk : State} {ledger : Ledger} {blocked : Prop} {ids : List OrderId} {after : Core}

theorem Enters.sound (enters : Enters blocked ids desk.core after orders) :
    ∀ order ∈ orders, order.Sound := by
  obtain ⟨reserved, -, rfl | ⟨rfl, -⟩, sound⟩ := enters.margins
  · exact sound
  · simp

theorem Described.enter (described : Described desk.core ledger) (fresh : Fresh desk ledger ids)
    (enters : Enters blocked ids desk.core after orders) :
    Described after (record ledger orders) := by
  have entered := enters.entered
  have distinct : (orders.map (·.sent.clientOrderId)).Nodup := fresh.nodup.sublist entered.given
  have isOld : ∀ {id reservation}, ledger.lookup id = some reservation → id ∉ ids := by
    intro id reservation found mem
    rw [(fresh.unknown id mem).1] at found
    simp at found
  constructor
  · intro id details reservation isPending found
    rcases lookup_record_cases distinct found with ⟨order, mem, rfl, rfl⟩ | ⟨-, old⟩
    · rw [entered.pendingNew order mem, some.injEq] at isPending
      subst isPending
      have sound := enters.sound order mem
      refine ⟨sound.user, sound.symbol, rfl, fun ordinary => ?_⟩
      have isOrdinary : order.details.liqPriceTicks = 0 := by simpa [reservation] using ordinary
      simp [reservation, reservedAtoms, isOrdinary]
    · rw [entered.pendingOld id (isOld old)] at isPending
      exact described.pending id details reservation isPending old
  · intro id details reservation isRuntime found
    rcases lookup_record_cases distinct found with ⟨order, mem, rfl, rfl⟩ | ⟨-, old⟩
    · rcases entered.runtimeNew order mem details isRuntime with user | before
      · exact user
      · have given : order.sent.clientOrderId ∈ ids := entered.given.subset (mem_map_of_mem mem)
        rw [show desk.core.orderMeta.lookup order.sent.clientOrderId = none from
          (fresh.unknown _ given).2] at before
        simp at before
    · rw [entered.runtimeOld id (isOld old)] at isRuntime
      exact described.user id details reservation isRuntime old
  · intro id details reservation isRuntime found notPending
    rcases lookup_record_cases distinct found with ⟨order, mem, rfl, rfl⟩ | ⟨-, old⟩
    · rw [entered.pendingNew order mem] at notPending
      simp at notPending
    · rw [entered.runtimeOld id (isOld old)] at isRuntime
      rw [entered.pendingOld id (isOld old)] at notPending
      exact described.runtime id details reservation isRuntime old notPending
  · intro request mem
    rcases entered.queued request mem with old | ⟨order, isOrder, rfl⟩
    · obtain ⟨reservation, found, user⟩ := described.queued request old
      refine ⟨reservation, ?_, user⟩
      rw [lookup_record_of_not_mem fun given => isOld found (entered.given.subset given)]
      exact found
    · exact ⟨order.reservation, lookup_record_of_mem distinct isOrder, rfl⟩
  · constructor
    · rw [entered.pendingOld 0 fresh.nonzero]
      exact described.noZero.pending
    · rw [entered.runtimeOld 0 fresh.nonzero]
      exact described.noZero.runtime
  · rw [lookup_record_of_not_mem fun given => fresh.nonzero (entered.given.subset given)]
    exact described.ledgerZero

theorem claimed_nonneg (sound : ∀ order ∈ reserved, order.Sound) (userId : UserId) :
    0 ≤ claimed reserved userId := by
  apply sum_nonneg
  intro amount mem
  obtain ⟨order, isOrder, rfl⟩ := mem_map.mp mem
  split_ifs
  · exact (sound order isOrder).nonneg
  · exact le_rfl

theorem surplus_enter (fresh : Fresh desk ledger ids)
    (enters : Enters blocked ids desk.core after orders) (userId : UserId) :
    surplus desk.risk ledger userId ≤ surplus after.risk (record ledger orders) userId ∧
      (¬ blocked → surplus after.risk (record ledger orders) userId =
        surplus desk.risk ledger userId) := by
  have distinct : (orders.map (·.sent.clientOrderId)).Nodup :=
    fresh.nodup.sublist enters.entered.given
  have isNew : ∀ id ∈ orders.map (·.sent.clientOrderId), ledger.lookup id = none :=
    fun id given => (fresh.unknown id (enters.entered.given.subset given)).1
  obtain ⟨reserved, margins, sent, sound⟩ := enters.margins
  have moved : after.risk.orderMarginOf userId =
      desk.risk.orderMarginOf userId + claimed reserved userId := margins userId
  have nonneg := claimed_nonneg sound userId
  rcases sent with rfl | ⟨rfl, isBlocked⟩
  · unfold surplus
    rw [held_record distinct isNew]
    constructor
    · omega
    · omega
  · unfold surplus
    rw [record, foldl_nil]
    exact ⟨by omega, fun notBlocked => absurd isBlocked notBlocked⟩

theorem Funded.enter (funded : Funded desk.risk ledger) (fresh : Fresh desk ledger ids)
    (enters : Enters blocked ids desk.core after orders) :
    Funded after.risk (record ledger orders) := by
  have distinct : (orders.map (·.sent.clientOrderId)).Nodup :=
    fresh.nodup.sublist enters.entered.given
  refine ⟨fun userId => ?_, fun id reservation found => ?_, fun id reservation found => ?_⟩
  · exact (funded.covered userId).trans (surplus_enter fresh enters userId).1
  · rcases lookup_record_cases distinct found with ⟨order, mem, rfl, rfl⟩ | ⟨-, old⟩
    · simpa [Reservation.left, reservation] using (enters.sound order mem).nonneg
    · exact funded.left id reservation old
  · rcases lookup_record_cases distinct found with ⟨order, mem, rfl, rfl⟩ | ⟨-, old⟩
    · intro isLiquidation
      have liquidation : order.details.liqPriceTicks ≠ 0 := by
        simpa [reservation] using isLiquidation
      exact ⟨if_pos liquidation, rfl⟩
    · exact funded.liquidation id reservation old

end

/-- Steps that leave order margins alone. -/
theorem Funded.of_same {after : RiskEngine} (funded : Funded engine ledger)
    (same : engine.SameOrderMargins after) : Funded after ledger := by
  refine ⟨fun userId => ?_, funded.left, funded.liquidation⟩
  unfold surplus
  rw [same userId]
  exact funded.covered userId

/-! ## Updates -/

def State.remembers (desk : State) (id : OrderId) : Bool :=
  (desk.pendingMeta.lookup id).isSome || (desk.orderMeta.lookup id).isSome

def State.rememberedMargin (desk : State) (id : OrderId) : Int :=
  ((desk.pendingMeta.lookup id).map (·.initialMarginAtoms)).getD
    (((desk.orderMeta.lookup id).map (·.initialMarginAtoms)).getD 0)

namespace Reservation

/-- The margin of some lots at the price that an order reserved margin at. -/
def marginOf (config : Config) (reservation : Reservation) (lots : Int) : Int :=
  initialMarginAtoms exact config reservation.symbol reservation.priceTicks lots

/-- A fill of lots that can still trade, at no more than the price that the order
reserved margin at. -/
def Allows (reservation : Reservation) (priceTicks lots : Int) : Prop :=
  0 ≤ priceTicks ∧ priceTicks ≤ reservation.priceTicks ∧ 0 ≤ lots ∧ lots ≤ reservation.openLots
deriving Decidable

/-- An order reserved the margin of all its lots, and what is left is enough for
those that can still trade.  A liquidation order reserves nothing. -/
structure Enough (config : Config) (reservation : Reservation) : Prop where
  whole : reservation.liquidation = false →
    reservation.reserved = reservation.marginOf config reservation.quantityLots
  left : reservation.liquidation = false →
    reservation.marginOf config reservation.openLots ≤ reservation.left

variable {config : Config} {reservation after : Reservation} {priceTicks lots : Int}

theorem marginOf_zero (config : Config) (reservation : Reservation) :
    reservation.marginOf config 0 = 0 := by
  simp [marginOf, initialMarginAtoms, firingMarginAtoms, calcNotionalAtoms,
    calcInitialMarginAtoms]

theorem marginOf_of_terms (same : after.terms = reservation.terms) (lots : Int) :
    after.marginOf config lots = reservation.marginOf config lots := by
  simp only [terms, Prod.mk.injEq] at same
  obtain ⟨-, symbol, -, -, price, -⟩ := same
  rw [marginOf, marginOf, symbol, price]

theorem Enough.of_terms (enough : reservation.Enough config)
    (same : after.terms = reservation.terms)
    (left : reservation.liquidation = false →
      reservation.marginOf config after.openLots ≤ after.left) : after.Enough config := by
  have margins : ∀ lots, after.marginOf config lots = reservation.marginOf config lots :=
    marginOf_of_terms same
  simp only [terms, Prod.mk.injEq] at same
  obtain ⟨-, -, kind, reserved, -, lots⟩ := same
  refine ⟨fun ordinary => ?_, fun ordinary => ?_⟩
  · rw [reserved, lots, margins]
    exact enough.whole (kind ▸ ordinary)
  · rw [margins]
    exact left (kind ▸ ordinary)

section

variable (scaled : config.Scaled) (allows : reservation.Allows priceTicks lots)
include scaled allows

/-- A fill costs no more than what its lots cost at the price of the reservation. -/
theorem Allows.margin_add_le :
    0 ≤ initialMarginAtoms exact config reservation.symbol priceTicks lots ∧
      0 ≤ reservation.marginOf config (reservation.openLots - lots) ∧
      initialMarginAtoms exact config reservation.symbol priceTicks lots +
          reservation.marginOf config (reservation.openLots - lots) ≤
        reservation.marginOf config reservation.openLots := by
  obtain ⟨price, limit, some, most⟩ := allows
  have scale := scaled reservation.symbol
  have rest : 0 ≤ reservation.openLots - lots := Int.sub_nonneg.mpr most
  refine ⟨initialMarginAtoms_nonneg scale price some,
    initialMarginAtoms_nonneg scale (price.trans limit) rest, ?_⟩
  have cheaper := initialMarginAtoms_mono scale price limit some
  have parts := initialMarginAtoms_add_le scale (price.trans limit) some rest
  rw [add_sub_cancel] at parts
  exact (Int.add_le_add_right cheaper _).trans parts

/-- What is left covers a fill. -/
theorem Enough.fits (enough : reservation.Enough config)
    (ordinary : reservation.liquidation = false) :
    0 ≤ initialMarginAtoms exact config reservation.symbol priceTicks lots ∧
      initialMarginAtoms exact config reservation.symbol priceTicks lots ≤ reservation.left := by
  obtain ⟨nonneg, rest, parts⟩ := allows.margin_add_le scaled
  have left := enough.left ordinary
  exact ⟨nonneg, by omega⟩

/-- After a fill there is enough for the lots that remain. -/
theorem Enough.fill (enough : reservation.Enough config)
    (ordinary : reservation.liquidation = false)
    (taken : reservation.left - initialMarginAtoms exact config reservation.symbol priceTicks
      lots ≤ kept)
    (remain : remaining = 0 ∨ remaining = reservation.openLots - lots) :
    reservation.marginOf config remaining ≤ kept := by
  obtain ⟨-, rest, parts⟩ := allows.margin_add_le scaled
  have before := enough.left ordinary
  rcases remain with rfl | rfl
  · rw [marginOf_zero]
    omega
  · omega

end

end Reservation

/-- The reservations of a ledger are enough for the lots that can still trade. -/
abbrev Spared (config : Config) (ledger : Ledger) : Prop :=
  KeyedMap.All (Reservation.Enough config) ledger

/-- Orders that reserved their margin in full enter. -/
theorem Spared.enter {ledger : Ledger} (spared : Spared config ledger)
    (distinct : (orders.map (·.sent.clientOrderId)).Nodup)
    (inFull : ∀ order ∈ orders, order.details.liqPriceTicks = 0 → order.InFull exact config) :
    Spared config (record ledger orders) := by
  intro id reservation found
  rcases lookup_record_cases distinct found with ⟨order, mem, rfl, rfl⟩ | ⟨-, old⟩
  · have whole : order.reservation.liquidation = false → order.reservation.reserved =
        order.reservation.marginOf config order.reservation.quantityLots := by
      intro ordinary
      have isOrdinary : order.details.liqPriceTicks = 0 := by simpa [reservation] using ordinary
      exact (if_neg (not_not.mpr isOrdinary)).trans (inFull order mem isOrdinary).margin
    refine ⟨whole, fun ordinary => ?_⟩
    simpa [Reservation.left, reservation] using (whole ordinary).ge
  · exact spared id reservation old

/-- An update that an order can get as it reserved margin. -/
@[mk_iff]
structure CoversUpdate (desk : State) (ledger : Ledger) (update : OrderUpdateMsg) : Prop where
  wellFormed : update.WellFormed
  sent : desk.remembers (lookupId update) = true → (ledger.lookup (lookupId update)).isSome
  /-- Only orders of which no lot has traded are cancelled or rejected, and
  liquidation orders only if their metadata carries no margin. -/
  closes : update.kind = .cancelled ∨ update.kind = .rejected →
    desk.remembers (lookupId update) = true →
    ∀ reservation ∈ ledger.lookup (lookupId update),
      (reservation.liquidation = false → reservation.openLots = reservation.quantityLots) ∧
      (reservation.liquidation = true → desk.rememberedMargin (lookupId update) ≤ 0)
  fills : reportsFill update = true →
    ∀ reservation ∈ ledger.lookup (lookupId update), reservation.liquidation = false →
      reservation.Allows update.fillPrice update.fillQty

instance (desk : State) (ledger : Ledger) (update : OrderUpdateMsg) :
    Decidable (CoversUpdate desk ledger update) :=
  decidable_of_iff _ (coversUpdate_iff desk ledger update).symm

namespace Reservation

variable {reservation : Reservation} {userId : UserId} {symbol : Symbol} {liqPriceTicks : Int}
  {config : Config}

/-- Releasing the margin of an order of which all is left. -/
theorem withinAll_releaseCalls
    (describes : reservation.Describes userId symbol liqPriceTicks margin)
    (whole : reservation.liquidation = false → reservation.reserved ≤ reservation.left)
    (liquidation : reservation.liquidation = true → margin ≤ 0)
    (rearmTicks : Int) : reservation.WithinAll (releaseCalls userId margin rearmTicks) := by
  have rearm : ∀ reservation : Reservation, reservation.WithinAll
      (if rearmTicks ≠ 0 then [.rearm userId] else []) := by
    intro reservation
    split_ifs
    · exact ⟨trivial, trivial⟩
    · exact trivial
  unfold releaseCalls
  by_cases positive : margin > 0
  · rw [if_pos positive]
    have ordinary : reservation.liquidation = false := by
      cases isLiquidation : reservation.liquidation with
      | true => exact absurd positive (Int.not_lt.mpr (liquidation isLiquidation))
      | false => rfl
    have covered : margin ≤ reservation.left := describes.margin ordinary ▸ whole ordinary
    exact ⟨⟨describes.user, by omega, covered, ordinary⟩, rearm _⟩
  · rw [if_neg positive]
    exact rearm _

theorem withinAll_takerCalls (scaled : config.Scaled)
    (describes : reservation.Describes details.userId details.symbol details.liqPriceTicks
      details.initialMarginAtoms)
    (enough : reservation.Enough config)
    (allows : reservation.liquidation = false →
      reservation.Allows update.fillPrice update.fillQty) :
    reservation.WithinAll (takerCalls exact config update (some details)) := by
  have fee : ∀ reservation : Reservation, reservation.WithinAll
      (if details.liqPriceTicks = 0 then
        [.fee details.userId (feeOf exact config details.symbol update.fillPrice
          update.fillQty (config.takerFeeBps details.symbol))]
      else []) := by
    intro reservation
    split_ifs
    · exact ⟨trivial, trivial⟩
    · exact trivial
  unfold takerCalls
  simp only
  split
  · rename_i isFill
    simp only [Bool.and_eq_true, decide_eq_true_eq] at isFill
    refine ⟨fun ordinary => ?_, fee _⟩
    have isOrdinary : details.liqPriceTicks = 0 := ordinary
    have notLiquidation : reservation.liquidation = false := by
      rw [describes.liquidation, isOrdinary]
      rfl
    obtain ⟨nonneg, covered⟩ := enough.fits scaled (allows notLiquidation) notLiquidation
    simp only [isOrdinary, describes.symbol]
    exact ⟨isFill.2, describes.user, nonneg, covered⟩
  · exact trivial

/-- What releasing leaves of a reservation. -/
theorem left_releaseCalls (userId : UserId) (margin rearmTicks : Int) :
    ((releaseCalls userId margin rearmTicks).foldl charge reservation).left =
      reservation.left - max margin 0 := by
  have rearm : ∀ reservation : Reservation,
      ((if rearmTicks ≠ 0 then [RiskCall.rearm userId] else []).foldl charge
        reservation) = reservation := by
    intro reservation
    split_ifs <;> rfl
  unfold releaseCalls
  rw [foldl_append, rearm]
  split_ifs with positive
  · simp only [foldl_cons, foldl_nil, charge, left]
    omega
  · simp only [foldl_nil]
    omega

/-- What the fill of a taker leaves. -/
theorem left_takerCalls
    (describes : reservation.Describes details.userId details.symbol details.liqPriceTicks
      details.initialMarginAtoms)
    (ordinary : reservation.liquidation = false) (isFill : reportsFill update = true)
    (lots : 0 < update.fillQty) :
    ((takerCalls exact config update (some details)).foldl charge reservation).left =
      reservation.left - initialMarginAtoms exact config reservation.symbol
        update.fillPrice update.fillQty := by
  have notLiquidation : details.liqPriceTicks = 0 := by
    have kind := describes.liquidation
    rw [ordinary] at kind
    simpa using kind.symm
  have both : (reportsFill update && decide (update.fillQty > 0)) = true := by simp [isFill, lots]
  unfold takerCalls
  simp only [if_pos both, if_pos notLiquidation, foldl_cons, foldl_nil]
  simp only [charge, fillOf, notLiquidation, if_true, left, describes.symbol]
  omega

end Reservation

section

variable {config : Config} {desk : State} {ledger : Ledger} {update : OrderUpdateMsg}
  {reservation : Reservation}

theorem State.liveMeta_eq_none (forgotten : desk.remembers (lookupId update) = false) :
    desk.liveMeta update = none := by
  unfold remembers at forgotten
  simp only [Bool.or_eq_false_iff, isSome_eq_false_iff, isNone_iff_eq_none]
    at forgotten
  unfold liveMeta
  rw [forgotten.1, forgotten.2]
  simp

/-- An order that the desk does not remember causes no risk calls. -/
theorem callsFor_of_forgotten (wellFormed : update.WellFormed) (noZero : desk.core.NoZero)
    (forgotten : desk.remembers (lookupId update) = false) :
    desk.callsFor arith config update = [] := by
  unfold callsFor
  split_ifs
  · rw [updateCalls_eq wellFormed noZero, liveMeta_eq_none forgotten]
    have notPending : desk.pendingMeta.lookup (lookupId update) = none := by
      unfold remembers at forgotten
      simp only [Bool.or_eq_false_iff, isSome_eq_false_iff, isNone_iff_eq_none] at forgotten
      exact forgotten.1
    rw [notPending]
    unfold closingCalls
    cases update.kind <;> rfl
  · rfl

theorem remembers_of_liveMeta (isLive : desk.liveMeta update = some details) :
    desk.remembers (lookupId update) = true := by
  by_contra forgotten
  rw [liveMeta_eq_none (by simpa using forgotten)] at isLive
  simp at isLive

/-- A cancel or a rejection of an order of which no lot has traded. -/
theorem withinAll_closingCalls (enough : reservation.Enough config)
    (described : Described desk.core ledger) (covers : CoversUpdate desk ledger update)
    (found : ledger.lookup (lookupId update) = some reservation) :
    reservation.WithinAll (closingCalls update (desk.pendingMeta.lookup (lookupId update))
      (desk.liveMeta update)) := by
  have release : update.kind = .cancelled ∨ update.kind = .rejected →
      ∀ {userId symbol liqPriceTicks margin},
      reservation.Describes userId symbol liqPriceTicks margin →
      desk.remembers (lookupId update) = true →
      desk.rememberedMargin (lookupId update) = margin →
      ∀ rearmTicks, reservation.WithinAll (releaseCalls userId margin rearmTicks) := by
    intro closing userId symbol liqPriceTicks margin describes remembered isMargin
    obtain ⟨untraded, liquidation⟩ := covers.closes closing remembered reservation found
    refine Reservation.withinAll_releaseCalls describes (fun ordinary => ?_)
      (isMargin ▸ liquidation)
    rw [enough.whole ordinary, ← untraded ordinary]
    exact enough.left ordinary
  cases isPending : desk.pendingMeta.lookup (lookupId update) with
  | some details =>
    have describes := described.pending _ details reservation isPending found
    have remembered : desk.remembers (lookupId update) = true := by simp [remembers, isPending]
    have isMargin : desk.rememberedMargin (lookupId update) = details.initialMarginAtoms := by
      simp [rememberedMargin, isPending]
    unfold closingCalls
    split
    · rename_i rejected isDetails
      cases isDetails
      exact release (.inr rejected) describes remembered isMargin _
    · rename_i cancelled isDetails
      cases isDetails
      exact release (.inl cancelled) describes remembered isMargin _
    · rename_i isNone _
      simp at isNone
    · trivial
  | none =>
    unfold closingCalls
    split
    · rename_i isSome
      simp at isSome
    · rename_i isSome
      simp at isSome
    · rename_i details cancelled _ isLive
      have describes := described.liveMeta found isLive
      have isMargin : desk.rememberedMargin (lookupId update) = details.initialMarginAtoms := by
        simp only [liveMeta, cancelled, isPending, reduceCtorEq, if_false,
          map_none, none_or] at isLive
        simp [rememberedMargin, isPending, isLive]
      exact release (.inl cancelled) describes (remembers_of_liveMeta isLive) isMargin _
    · trivial

/-- An update is booked as a fill or as the end of an order. -/
theorem updateCalls_of_fill (wellFormed : update.WellFormed) (noZero : desk.core.NoZero)
    (isFill : reportsFill update = true) :
    desk.updateCalls arith config update =
      takerCalls arith config update (desk.liveMeta update) := by
  rw [updateCalls_eq wellFormed noZero]
  rcases of_decide_eq_true isFill with filled | partlyFilled
  · simp [closingCalls, filled]
  · simp [closingCalls, partlyFilled]

theorem updateCalls_of_not_fill (wellFormed : update.WellFormed) (noZero : desk.core.NoZero)
    (noFill : reportsFill update = false) :
    desk.updateCalls arith config update =
      closingCalls update (desk.pendingMeta.lookup (lookupId update)) (desk.liveMeta update) := by
  have none : takerCalls arith config update (desk.liveMeta update) = [] := by
    unfold takerCalls
    cases desk.liveMeta update with
    | none => rfl
    | some details => simp [noFill]
  rw [updateCalls_eq wellFormed noZero, none, append_nil]

theorem callsFor_of_accepted (wellFormed : update.WellFormed) (noZero : desk.core.NoZero)
    (accepted : update.kind = .accepted) : desk.callsFor arith config update = [] := by
  unfold callsFor
  rw [updateCalls_of_not_fill wellFormed noZero (by simp [reportsFill, accepted])]
  simp [closingCalls, accepted]

section

variable (scaled : config.Scaled) (enough : reservation.Enough config)
  (described : Described desk.core ledger) (covers : CoversUpdate desk ledger update)
  (found : ledger.lookup (lookupId update) = some reservation)
include scaled enough described covers found

/-- The risk calls of an update take no more than what is left. -/
theorem withinAll_callsFor :
    reservation.WithinAll (desk.callsFor exact config update) := by
  unfold callsFor
  split_ifs
  swap
  · trivial
  cases isFill : reportsFill update with
  | false =>
    rw [updateCalls_of_not_fill covers.wellFormed described.noZero isFill]
    exact withinAll_closingCalls enough described covers found
  | true =>
    rw [updateCalls_of_fill covers.wellFormed described.noZero isFill]
    cases isLive : desk.liveMeta update with
    | none => trivial
    | some details =>
      exact Reservation.withinAll_takerCalls scaled (described.liveMeta found isLive) enough
        (covers.fills isFill reservation found)

/-- A fill that an update reports takes no more than its margin. -/
theorem le_left_callsFor (ordinary : reservation.liquidation = false)
    (isFill : reportsFill update = true) :
    reservation.left - initialMarginAtoms exact config reservation.symbol update.fillPrice
        update.fillQty ≤
      ((desk.callsFor exact config update).foldl .charge reservation).left := by
  have nonneg := (enough.fits scaled (covers.fills isFill reservation found ordinary) ordinary).1
  have nothing : reservation.left - initialMarginAtoms exact config reservation.symbol
      update.fillPrice update.fillQty ≤ reservation.left := Int.sub_le_self _ nonneg
  unfold callsFor
  split_ifs
  swap
  · exact nothing
  rw [updateCalls_of_fill covers.wellFormed described.noZero isFill]
  cases isLive : desk.liveMeta update with
  | none => exact nothing
  | some details =>
    by_cases lots : 0 < update.fillQty
    · rw [Reservation.left_takerCalls (described.liveMeta found isLive) ordinary isFill lots]
    · have noCalls : takerCalls exact config update (some details) = [] := by
        simp [takerCalls, lots]
      rw [noCalls]
      exact nothing

/-- After an update there is enough for the lots that remain. -/
theorem enough_update
    (nonneg : 0 ≤ ((desk.callsFor exact config update).foldl .charge reservation).left) :
    (((desk.callsFor exact config update).foldl .charge reservation).afterUpdate
      update).Enough config := by
  have same : (((desk.callsFor exact config update).foldl .charge reservation).afterUpdate
      update).terms = reservation.terms := by
    rw [Reservation.terms_afterUpdate, Reservation.terms_foldl_charge]
  refine enough.of_terms same fun ordinary => ?_
  rw [Reservation.left_afterUpdate, Reservation.openLots_afterUpdate_foldl_charge]
  cases isFill : reportsFill update with
  | true =>
    exact enough.fill scaled (covers.fills isFill reservation found ordinary) ordinary
      (le_left_callsFor scaled enough described covers found ordinary isFill)
      (Reservation.openLots_of_fill isFill)
  | false =>
    by_cases accepted : update.kind = .accepted
    · rw [callsFor_of_accepted covers.wellFormed described.noZero accepted,
        Reservation.afterUpdate, accepted]
      exact enough.left ordinary
    · rw [Reservation.openLots_of_closing isFill accepted, Reservation.marginOf_zero]
      exact nonneg

end

/-- An update takes the same from the accounts and from the ledger. -/
theorem Funded.onOrderUpdate (funded : Funded desk.risk ledger) (scaled : config.Scaled)
    (spared : Spared config ledger)
    (described : Described desk.core ledger) (covers : CoversUpdate desk ledger update) :
    let calls := desk.callsFor exact config update
    let engine := calls.foldl (RiskCall.apply exact) desk.risk
    let audited := auditUpdate exact config desk ledger update
    Funded engine audited ∧
      (∀ userId, surplus engine audited userId = surplus desk.risk ledger userId) ∧
      ClampFree exact desk.risk calls := by
  intro calls engine audited
  cases found : ledger.lookup (lookupId update) with
  | none =>
    have forgotten : desk.remembers (lookupId update) = false := by
      by_contra remembered
      have isSent := covers.sent (by simpa using remembered)
      simp [found] at isSent
    have noCalls : calls = [] := callsFor_of_forgotten covers.wellFormed described.noZero forgotten
    have sameLedger : audited = ledger := KeyedMap.modify_of_not_mem _ found
    have sameEngine : engine = desk.risk := by simp only [engine, noCalls, foldl_nil]
    rw [sameLedger, sameEngine, noCalls]
    exact ⟨funded, fun _ => rfl, trivial⟩
  | some reservation =>
    exact funded.chargeAll found
      (withinAll_callsFor scaled (spared _ _ found) described covers found)
      (fun _ => Reservation.terms_afterUpdate update)
      (fun _ => Reservation.left_afterUpdate update)
      (fun _ => Reservation.released_afterUpdate update)

theorem Spared.onOrderUpdate (spared : Spared config ledger) (funded : Funded desk.risk ledger)
    (scaled : config.Scaled) (described : Described desk.core ledger)
    (covers : CoversUpdate desk ledger update) :
    Spared config (auditUpdate exact config desk ledger update) := by
  refine KeyedMap.All.modify spared fun reservation found enough => ?_
  have within := withinAll_callsFor scaled enough described covers found
  exact enough_update scaled enough described covers found
    (Reservation.charges within (funded.left _ _ found) (funded.left_le found)).2.1

end

/-! ## Trades -/

/-- A trade that its maker can get as it reserved margin. -/
@[mk_iff]
structure CoversTrade (desk : State) (ledger : Ledger) (trade : TradeNotification) : Prop where
  sent : desk.runtimeUserId trade.makerOrderId ≠ 0 → (ledger.lookup trade.makerOrderId).isSome
  fills : ∀ reservation ∈ ledger.lookup trade.makerOrderId, reservation.liquidation = false ∧
    trade.symbol = reservation.symbol ∧ reservation.Allows trade.price trade.quantity

instance (desk : State) (ledger : Ledger) (trade : TradeNotification) :
    Decidable (CoversTrade desk ledger trade) :=
  decidable_of_iff _ (coversTrade_iff desk ledger trade).symm

/-- So is each trade of a batch. -/
def CoversTrades (config : Config) (desk : State) (ledger : Ledger)
    (trades : List TradeNotification) : Prop :=
  Along (auditTrade exact config desk) (CoversTrade desk) ledger trades
deriving Decidable

section

variable {config : Config} {desk : State} {ledger : Ledger} {engine : RiskEngine}
  {trade : TradeNotification} {reservation : Reservation}

section

variable (scaled : config.Scaled) (enough : reservation.Enough config)
  (described : Described desk.core ledger) (covers : CoversTrade desk ledger trade)
  (found : ledger.lookup trade.makerOrderId = some reservation)
include scaled enough covers found

theorem enough_trade :
    (((desk.tradeCalls exact config trade).foldl .charge reservation).afterTrade trade).Enough
      config := by
  obtain ⟨ordinary, symbol, allows⟩ := covers.fills reservation found
  refine enough.of_terms ?_ fun _ => enough.fill scaled allows ordinary ?_ (.inr ?_)
  · rw [Reservation.terms_afterTrade, Reservation.terms_foldl_charge]
  · rw [Reservation.left_afterTrade]
    unfold tradeCalls makerCalls
    split_ifs with skipped
    · exact Int.sub_le_self _ (enough.fits scaled allows ordinary).1
    · simp only [foldl_cons, foldl_nil, Reservation.charge, fillOf, settleEntry, if_true,
        Reservation.left, symbol]
      omega
  · simp only [Reservation.afterTrade, Reservation.openLots_foldl_charge.1]

include described

theorem withinAll_tradeCalls : reservation.WithinAll (desk.tradeCalls exact config trade) := by
  unfold tradeCalls makerCalls
  split_ifs with skipped
  · trivial
  · obtain ⟨isKnown, lots⟩ := not_or.mp skipped
    have known : desk.runtimeUserId trade.makerOrderId ≠ 0 := isKnown
    have positive : 0 < trade.quantity := Int.not_le.mp lots
    have user : desk.runtimeUserId trade.makerOrderId = reservation.userId := by
      unfold runtimeUserId at known ⊢
      cases isRuntime : desk.orderMeta.lookup trade.makerOrderId with
      | none => simp [isRuntime] at known
      | some details => exact described.user _ details reservation isRuntime found
    obtain ⟨ordinary, symbol, allows⟩ := covers.fills reservation found
    obtain ⟨nonneg, covered⟩ := enough.fits scaled allows ordinary
    rw [← symbol] at nonneg covered
    exact ⟨fun _ => ⟨positive, user, nonneg, covered⟩, trivial, trivial⟩

end

theorem tradeCalls_of_unknown (unknown : desk.runtimeUserId trade.makerOrderId = 0) :
    desk.tradeCalls arith config trade = [] :=
  if_pos (.inl unknown)

theorem Funded.settleTrade (funded : Funded engine ledger) (scaled : config.Scaled)
    (spared : Spared config ledger) (described : Described desk.core ledger)
    (covers : CoversTrade desk ledger trade) :
    let calls := desk.tradeCalls exact config trade
    let engine' := calls.foldl (RiskCall.apply exact) engine
    let ledger' := auditTrade exact config desk ledger trade
    Funded engine' ledger' ∧
      (∀ userId, surplus engine' ledger' userId = surplus engine ledger userId) ∧
      ClampFree exact engine calls := by
  intro calls engine' ledger'
  cases found : ledger.lookup trade.makerOrderId with
  | none =>
    have unknown : desk.runtimeUserId trade.makerOrderId = 0 := by
      by_contra known
      have isSent := covers.sent known
      simp [found] at isSent
    have noCalls : calls = [] := tradeCalls_of_unknown unknown
    have sameLedger : ledger' = ledger := KeyedMap.modify_of_not_mem _ found
    have sameEngine : engine' = engine := by simp only [engine', noCalls, foldl_nil]
    rw [sameLedger, sameEngine, noCalls]
    exact ⟨funded, fun _ => rfl, trivial⟩
  | some reservation =>
    exact funded.chargeAll found
      (withinAll_tradeCalls scaled (spared _ _ found) described covers found)
      (fun _ => Reservation.terms_afterTrade trade)
      (fun _ => Reservation.left_afterTrade trade) (fun _ => rfl)

theorem Spared.settleTrade (spared : Spared config ledger) (scaled : config.Scaled)
    (covers : CoversTrade desk ledger trade) :
    Spared config (auditTrade exact config desk ledger trade) :=
  KeyedMap.All.modify spared fun _ found enough => enough_trade scaled enough covers found

/-- A batch of trades takes the same from the accounts and from the ledger. -/
theorem Funded.settleTrades (funded : Funded engine ledger) (scaled : config.Scaled)
    (spared : Spared config ledger) (described : Described desk.core ledger)
    (covers : CoversTrades config desk ledger trades) :
    let calls := trades.flatMap (desk.tradeCalls exact config)
    let engine' := calls.foldl (RiskCall.apply exact) engine
    let ledger' := trades.foldl (auditTrade exact config desk) ledger
    Funded engine' ledger' ∧
      (∀ userId, surplus engine' ledger' userId = surplus engine ledger userId) ∧
      ClampFree exact engine calls ∧ SameTerms ledger ledger' ∧ Spared config ledger' := by
  induction trades generalizing engine ledger with
  | nil => exact ⟨funded, fun _ => rfl, trivial, fun _ => rfl, spared⟩
  | cons trade trades ih =>
    obtain ⟨firstFunded, firstSurplus, firstFree⟩ :=
      funded.settleTrade scaled spared described covers.1
    have sameTerms : SameTerms ledger (auditTrade exact config desk ledger trade) :=
      sameTerms_auditTrade exact config desk trade
    obtain ⟨laterFunded, laterSurplus, laterFree, laterTerms, laterSpared⟩ :=
      ih firstFunded (spared.settleTrade scaled covers.1) (described.of_sameTerms sameTerms)
        covers.2
    simp only [flatMap_cons, foldl_append]
    refine ⟨laterFunded, fun userId => ?_, Along.append_iff.mpr ⟨firstFree, laterFree⟩,
      sameTerms.trans laterTerms, laterSpared⟩
    exact (laterSurplus userId).trans (firstSurplus userId)

end
end LightningX.Desk
