import LightningX.Desk.OrderMargins
import LightningX.Exchange.FrontEnd
import Mathlib.Tactic.Ring

/-!
# Reservations are used up exactly

If orders trade at the very price they reserved margin at, each lot costs a whole
number of atoms, and what ends an order fills all its lots or comes before it trades,
then what is consumed and released adds up to what was reserved once the order can no
longer trade, and order margin is the sum over the unfilled lots of the live orders.
-/

namespace LightningX.Desk

open List Reservation Audited
open Matching (Side TimeInForce)
open Risk Transport Arithmetic

namespace Reservation

/-- An ordinary order that can still trade. -/
def Live (reservation : Reservation) : Prop :=
  reservation.liquidation = false ∧ 0 < reservation.openLots
deriving Decidable

/-- A price that is the one margin was reserved at, where each lot costs a whole number
of atoms. -/
def AtPrice (config : Config) (reservation : Reservation) (priceTicks : Int) : Prop :=
  priceTicks = reservation.priceTicks ∧
    (config.rules reservation.symbol).notionalScale *
      (config.rules reservation.symbol).defaultLeverage ∣ priceTicks * atomsPerCent
deriving Decidable

/-- What is left of a reservation is the margin of the lots that can still trade. -/
structure Settled (config : Config) (reservation : Reservation) : Prop where
  liquidation : reservation.liquidation = true → reservation.left = 0
  lots : reservation.liquidation = false → 0 ≤ reservation.openLots
  left : reservation.liquidation = false →
    reservation.left = reservation.marginOf config reservation.openLots

end Reservation

/-- An update about an order that can still trade finds it.  A fill is at the price of
its reservation, and one after which the order does not trade fills all its lots. -/
@[mk_iff]
structure SettlesUpdate (config : Config) (desk : State) (ledger : Ledger)
    (update : OrderUpdateMsg) : Prop where
  rejected : update.kind = .rejected →
    ∀ reservation ∈ ledger.lookup (lookupId update), reservation.Live →
      desk.owned update = true ∧ (desk.pendingMeta.lookup (lookupId update)).isSome
  cancelled : update.kind = .cancelled →
    ∀ reservation ∈ ledger.lookup (lookupId update), reservation.Live →
      desk.owned update = true ∧ desk.remembers (lookupId update) = true
  filled : reportsFill update = true →
    ∀ reservation ∈ ledger.lookup (lookupId update), reservation.Live →
      (desk.owned update = true ∧ desk.remembers (lookupId update) = true) ∧
        0 < update.fillQty ∧ reservation.AtPrice config update.fillPrice ∧
        (reservation.afterUpdate update).openLots = reservation.openLots - update.fillQty

set_option synthInstance.maxSize 512 in
instance (config : Config) (desk : State) (ledger : Ledger) (update : OrderUpdateMsg) :
    Decidable (SettlesUpdate config desk ledger update) :=
  decidable_of_iff _ (settlesUpdate_iff config desk ledger update).symm

/-- A trade finds its maker and is at the price of its reservation. -/
def SettlesTrade (config : Config) (desk : State) (ledger : Ledger)
    (trade : TradeNotification) : Prop :=
  ∀ reservation ∈ ledger.lookup trade.makerOrderId, 0 < trade.quantity →
    desk.runtimeUserId trade.makerOrderId ≠ 0 ∧ reservation.AtPrice config trade.price
deriving Decidable

/-- So does each trade of a batch. -/
def SettlesTrades (config : Config) (desk : State) (ledger : Ledger)
    (trades : List TradeNotification) : Prop :=
  Along (auditTrade exact config desk) (SettlesTrade config desk) ledger trades
deriving Decidable

/-- Updates and trades settle, and entries find the queue they need with room. -/
def Settles (config : Config) (desk : State) (ledger : Ledger) : Input → Prop
  | .entry path => ¬ path.Blocked config desk
  | .update update => SettlesUpdate config desk ledger update
  | .trades trades => SettlesTrades config desk ledger trades
  | _ => True

instance (config : Config) (desk : State) (ledger : Ledger) :
    (input : Input) → Decidable (Settles config desk ledger input)
  | .entry _ => inferInstanceAs (Decidable (¬ _))
  | .update _ => inferInstanceAs (Decidable (SettlesUpdate _ _ _ _))
  | .trades _ => inferInstanceAs (Decidable (SettlesTrades _ _ _ _))
  | .cancel _ _ _ | .send | .flush | .sessions _ | .account _ _ | .markPrice _ _ _
  | .adl _ _ => isTrue trivial

/-- What is left of each reservation is the margin of the lots that can still trade. -/
abbrev Finished (config : Config) (ledger : Ledger) : Prop :=
  KeyedMap.All (Settled config) ledger

/-- The margin of the unfilled lots of the live orders of a user. -/
def liveMargin (config : Config) (ledger : Ledger) (userId : UserId) : Int :=
  KeyedMap.total (fun _ reservation =>
    if reservation.userId = userId ∧ reservation.Live then
      reservation.marginOf config reservation.openLots
    else 0) ledger

section

variable {config : Config} {desk : State} {ledger : Ledger} {update : OrderUpdateMsg}
  {trade : TradeNotification} {trades : List TradeNotification}
  {reservation after : Reservation}

/-! ## What an event leaves of a reservation -/

namespace Reservation

theorem Settled.of_terms (settled : reservation.Settled config)
    (same : after.terms = reservation.terms) (nonneg : 0 ≤ after.left)
    (less : after.left ≤ reservation.left)
    (left : reservation.liquidation = false → 0 ≤ after.openLots ∧
      after.left = reservation.marginOf config after.openLots) : after.Settled config := by
  have kind : after.liquidation = reservation.liquidation :=
    congrArg (fun terms => terms.2.2.1) same
  refine ⟨fun isLiquidation => ?_, fun ordinary => ?_, fun ordinary => ?_⟩
  · have nothing := settled.liquidation (kind ▸ isLiquidation)
    omega
  · exact (left (kind ▸ ordinary)).1
  · rw [marginOf_of_terms same]
    exact (left (kind ▸ ordinary)).2

/-- Lots that cost a whole number of atoms cost together what they cost apart. -/
theorem AtPrice.marginOf_sub (atPrice : reservation.AtPrice config price)
    (scaled : config.Scaled) (allows : reservation.Allows price lots) :
    reservation.marginOf config reservation.openLots -
        initialMarginAtoms exact config reservation.symbol price lots =
      reservation.marginOf config (reservation.openLots - lots) := by
  obtain ⟨rfl, whole⟩ := atPrice
  obtain ⟨nonneg, -, some, most⟩ := allows
  have scale := scaled reservation.symbol
  have rest : 0 ≤ reservation.openLots - lots := Int.sub_nonneg.mpr most
  have parts : reservation.priceTicks * reservation.openLots * atomsPerCent =
      reservation.priceTicks * lots * atomsPerCent +
        reservation.priceTicks * (reservation.openLots - lots) * atomsPerCent := by ring
  have divides : (config.rules reservation.symbol).notionalScale *
      (config.rules reservation.symbol).defaultLeverage ∣
      reservation.priceTicks * lots * atomsPerCent := by
    rw [mul_right_comm]
    exact whole.mul_right lots
  unfold marginOf
  rw [initialMarginAtoms_eq nonneg (some.trans most) scale,
    initialMarginAtoms_eq nonneg some scale, initialMarginAtoms_eq nonneg rest scale, parts,
    Int.add_ediv_of_dvd_left divides, add_sub_cancel_left]

end Reservation

theorem Finished.held_eq (finished : Finished config ledger) (userId : UserId) :
    held ledger userId = liveMargin config ledger userId := by
  refine KeyedMap.total_congr fun id reservation found => ?_
  obtain ⟨liquidation, lots, left⟩ := finished id reservation found
  by_cases isUser : reservation.userId = userId
  · by_cases live : reservation.Live
    · rw [if_pos isUser, if_pos ⟨isUser, live⟩, left live.1]
    · rw [if_pos isUser, if_neg fun both => live both.2]
      cases kind : reservation.liquidation with
      | true => exact liquidation kind
      | false =>
        have closed : ¬ 0 < reservation.openLots := fun isOpen => live ⟨kind, isOpen⟩
        have none : reservation.openLots = 0 := by
          have := lots kind
          omega
        rw [left kind, none, marginOf_zero]
  · rw [if_neg isUser, if_neg (fun both => isUser both.1)]

theorem Finished.enter (finished : Finished config ledger)
    (distinct : (orders.map (·.sent.clientOrderId)).Nodup)
    (sound : ∀ order ∈ orders, order.Sound)
    (inFull : ∀ order ∈ orders, order.details.liqPriceTicks = 0 → order.InFull exact config) :
    Finished config (record ledger orders) := by
  intro id reservation found
  rcases lookup_record_cases distinct found with ⟨order, mem, rfl, rfl⟩ | ⟨-, old⟩
  · have left : order.reservation.left = order.reservedAtoms := by
      simp [left, Submission.reservation]
    have ordinary : order.reservation.liquidation = false → order.details.liqPriceTicks = 0 := by
      simp [Submission.reservation]
    refine ⟨fun isLiquidation => ?_, fun isOrdinary => ?_, fun isOrdinary => ?_⟩
    · rw [left]
      exact if_pos (by simpa [Submission.reservation] using isLiquidation)
    · exact ((sound order mem).lots (ordinary isOrdinary)).le
    · rw [left]
      exact (if_neg (not_not.mpr (ordinary isOrdinary))).trans
        (inFull order mem (ordinary isOrdinary)).margin
  · exact finished id reservation old

section

variable (scaled : config.Scaled) (enough : reservation.Enough config)
  (settled : reservation.Settled config) (described : Described desk.core ledger)
  (covers : CoversUpdate desk ledger update)
  (found : ledger.lookup (lookupId update) = some reservation)
include enough settled described covers found

/-- A cancel or a rejection that finds its order releases all that is left. -/
theorem left_closingCalls
    (closing : update.kind = .cancelled ∧ desk.remembers (lookupId update) = true ∨
      update.kind = .rejected ∧ (desk.pendingMeta.lookup (lookupId update)).isSome)
    (ordinary : reservation.liquidation = false) (nonneg : 0 ≤ reservation.left) :
    ((closingCalls update (desk.pendingMeta.lookup (lookupId update))
      (desk.liveMeta update)).foldl .charge reservation).left = 0 := by
  have remembered : desk.remembers (lookupId update) = true := by
    rcases closing with ⟨-, remembered⟩ | ⟨-, isPending⟩
    · exact remembered
    · simp [State.remembers, isPending]
  have isClosing : update.kind = .cancelled ∨ update.kind = .rejected :=
    closing.imp And.left And.left
  have whole : reservation.reserved = reservation.left := by
    rw [enough.whole ordinary, settled.left ordinary,
      (covers.closes isClosing remembered reservation found).1 ordinary]
  have releases : ∀ {userId symbol liqPriceTicks margin rearmTicks},
      reservation.Describes userId symbol liqPriceTicks margin →
      ((releaseCalls userId margin rearmTicks).foldl charge reservation).left = 0 := by
    intro userId symbol liqPriceTicks margin rearmTicks describes
    rw [left_releaseCalls, describes.margin ordinary, whole]
    omega
  cases isPending : desk.pendingMeta.lookup (lookupId update) with
  | some details =>
    have describes := described.pending _ details reservation isPending found
    rcases isClosing with cancelled | rejected
    · simp only [closingCalls, cancelled]
      exact releases describes
    · simp only [closingCalls, rejected]
      exact releases describes
  | none =>
    rcases closing with ⟨cancelled, -⟩ | ⟨-, isSome⟩
    · obtain ⟨details, isRuntime⟩ : ∃ details,
          desk.orderMeta.lookup (lookupId update) = some details := by
        simpa [State.remembers, isPending, Option.isSome_iff_exists] using remembered
      have isLive : desk.liveMeta update = some details := by
        simp [State.liveMeta, cancelled, isPending, isRuntime]
      simp only [closingCalls, cancelled, isLive]
      exact releases (described.liveMeta found isLive)
    · simp [isPending] at isSome

/-- An update that ends an order that can still trade leaves nothing of its
reservation. -/
theorem left_of_closing (settles : SettlesUpdate config desk ledger update)
    (live : reservation.Live) (nonneg : 0 ≤ reservation.left)
    (noFill : reportsFill update = false) (notAccepted : update.kind ≠ .accepted) :
    ((desk.callsFor exact config update).foldl .charge reservation).left = 0 := by
  have closing : desk.owned update = true ∧
      (update.kind = .cancelled ∧ desk.remembers (lookupId update) = true ∨
        update.kind = .rejected ∧ (desk.pendingMeta.lookup (lookupId update)).isSome) := by
    cases kind : update.kind with
    | accepted => exact absurd kind notAccepted
    | filled => simp [reportsFill, kind] at noFill
    | partialFill => simp [reportsFill, kind] at noFill
    | cancelled =>
      obtain ⟨owned, remembered⟩ := settles.cancelled kind reservation found live
      exact ⟨owned, .inl ⟨rfl, remembered⟩⟩
    | rejected =>
      obtain ⟨owned, isPending⟩ := settles.rejected kind reservation found live
      exact ⟨owned, .inr ⟨rfl, isPending⟩⟩
  unfold State.callsFor
  rw [if_pos closing.1, updateCalls_of_not_fill covers.wellFormed described.noZero noFill]
  exact left_closingCalls enough settled described covers found closing.2 live.1 nonneg

include scaled

omit enough in
/-- A fill leaves the margin of the lots that remain. -/
theorem left_of_fill (settles : SettlesUpdate config desk ledger update)
    (live : reservation.Live) (isFill : reportsFill update = true) :
    ((desk.callsFor exact config update).foldl .charge reservation).left =
      reservation.marginOf config (reservation.afterUpdate update).openLots := by
  obtain ⟨⟨owned, remembered⟩, lots, atPrice, remain⟩ :=
    settles.filled isFill reservation found live
  have notRejected : update.kind ≠ .rejected := by
    intro rejected
    simp [reportsFill, rejected] at isFill
  obtain ⟨details, isLive⟩ : ∃ details, desk.liveMeta update = some details := by
    rw [State.liveMeta, if_neg notRejected, ← Option.isSome_iff_exists]
    simpa [State.remembers] using remembered
  unfold State.callsFor
  rw [if_pos owned, updateCalls_of_fill covers.wellFormed described.noZero isFill, isLive,
    left_takerCalls (described.liveMeta found isLive) live.1 isFill lots, remain,
    settled.left live.1]
  exact atPrice.marginOf_sub scaled (covers.fills isFill reservation found live.1)

/-- After an update what is left is the margin of the lots that remain. -/
theorem settled_update (settles : SettlesUpdate config desk ledger update)
    (nonneg : 0 ≤ reservation.left)
    (still : 0 ≤ ((desk.callsFor exact config update).foldl .charge reservation).left)
    (less : ((desk.callsFor exact config update).foldl .charge reservation).left ≤
      reservation.left) :
    (((desk.callsFor exact config update).foldl .charge reservation).afterUpdate
      update).Settled config := by
  refine settled.of_terms (by rw [terms_afterUpdate, terms_foldl_charge])
    (by rwa [left_afterUpdate]) (by rwa [left_afterUpdate]) fun ordinary => ?_
  rw [left_afterUpdate, openLots_afterUpdate_foldl_charge]
  have lots := settled.lots ordinary
  cases isFill : reportsFill update with
  | true =>
    obtain ⟨-, -, some, most⟩ := covers.fills isFill reservation found ordinary
    have remain : (reservation.afterUpdate update).openLots = 0 ∨
        (reservation.afterUpdate update).openLots = reservation.openLots - update.fillQty :=
      openLots_of_fill isFill
    refine ⟨by omega, ?_⟩
    by_cases isOpen : 0 < reservation.openLots
    · exact left_of_fill scaled settled described covers found settles
        ⟨ordinary, isOpen⟩ isFill
    · have none : reservation.openLots = 0 := by omega
      have closed : (reservation.afterUpdate update).openLots = 0 := by omega
      have nothing := settled.left ordinary
      rw [none, marginOf_zero] at nothing
      rw [closed, marginOf_zero]
      omega
  | false =>
    by_cases accepted : update.kind = .accepted
    · rw [callsFor_of_accepted covers.wellFormed described.noZero accepted, afterUpdate, accepted]
      exact ⟨lots, settled.left ordinary⟩
    · rw [openLots_of_closing isFill accepted, marginOf_zero]
      refine ⟨le_rfl, ?_⟩
      by_cases isOpen : 0 < reservation.openLots
      · exact left_of_closing enough settled described covers found settles
          ⟨ordinary, isOpen⟩ nonneg isFill accepted
      · have none : reservation.openLots = 0 := by omega
        have nothing := settled.left ordinary
        rw [none, marginOf_zero] at nothing
        omega

end

theorem Finished.onOrderUpdate (finished : Finished config ledger)
    (funded : Funded desk.risk ledger) (scaled : config.Scaled) (spared : Spared config ledger)
    (described : Described desk.core ledger) (covers : CoversUpdate desk ledger update)
    (settles : SettlesUpdate config desk ledger update) :
    Finished config (auditUpdate exact config desk ledger update) := by
  refine KeyedMap.All.modify finished fun reservation found settled => ?_
  have enough := spared _ _ found
  have within := withinAll_callsFor scaled enough described covers found
  have nonneg := funded.left _ _ found
  exact settled_update scaled enough settled described covers found settles nonneg
    (charges within nonneg (funded.left_le found)).2.1 (left_foldl_charge_le within)

section

variable (finished : Finished config ledger) (funded : Funded engine ledger)
  (scaled : config.Scaled) (spared : Spared config ledger) (described : Described desk.core ledger)
include finished funded scaled spared described

theorem Finished.settleTrade (covers : CoversTrade desk ledger trade)
    (settles : SettlesTrade config desk ledger trade) :
    Finished config (auditTrade exact config desk ledger trade) := by
  refine KeyedMap.All.modify finished fun reservation found settled => ?_
  obtain ⟨ordinary, symbol, allows⟩ := covers.fills reservation found
  have within := withinAll_tradeCalls scaled (spared _ _ found) described covers found
  refine settled.of_terms (by rw [terms_afterTrade, terms_foldl_charge])
    (charges within (funded.left _ _ found) (funded.left_le found)).2.1
    (left_foldl_charge_le within) fun _ => ?_
  simp only [afterTrade, openLots_foldl_charge.1]
  refine ⟨Int.sub_nonneg.mpr allows.2.2.2, ?_⟩
  unfold State.tradeCalls State.makerCalls
  by_cases lots : 0 < trade.quantity
  · obtain ⟨known, atPrice⟩ := settles reservation found lots
    have booked : ¬ ((desk.settleEntry trade).makerUid = 0 ∨
        (desk.settleEntry trade).trade.quantity ≤ 0) :=
      not_or.mpr ⟨known, Int.not_le.mpr lots⟩
    rw [if_neg booked, ← atPrice.marginOf_sub scaled allows, ← settled.left ordinary]
    simp only [foldl_cons, foldl_nil, charge, fillOf, State.settleEntry, if_true, left, symbol]
    omega
  · have none : trade.quantity = 0 := by
      have := allows.2.2.1
      omega
    have skipped : (desk.settleEntry trade).makerUid = 0 ∨
        (desk.settleEntry trade).trade.quantity ≤ 0 := .inr none.le
    rw [if_pos skipped, none, sub_zero]
    exact settled.left ordinary

theorem Finished.settleTrades (covers : CoversTrades config desk ledger trades)
    (settles : SettlesTrades config desk ledger trades) :
    Finished config (trades.foldl (auditTrade exact config desk) ledger) := by
  induction trades generalizing engine ledger with
  | nil => exact finished
  | cons trade trades ih =>
    exact ih
      (finished.settleTrade funded scaled spared described covers.1 settles.1)
      (funded.settleTrade scaled spared described covers.1).1
      (spared.settleTrade scaled covers.1)
      (described.of_sameTerms (sameTerms_auditTrade exact config desk trade)) covers.2 settles.2

end

end

/-! ## Runs -/

/-- A step that is covered and settles. -/
@[mk_iff]
structure Completes (config : Config) (audited : Audited) (input : Input) : Prop where
  backs : Backs config audited input
  settles : Settles config audited.desk audited.ledger input

instance (config : Config) (audited : Audited) (input : Input) :
    Decidable (Completes config audited input) :=
  decidable_of_iff _ (completes_iff config audited input).symm

/-- So is every step of a run. -/
def RunCompletes (config : Config) (audited : Audited) (inputs : List Input) : Prop :=
  Along (Audited.step config) (Completes config) audited inputs
deriving Decidable

/-- What is consumed and released for an order never exceeds what it reserved and
equals it once the order can no longer trade, liquidation orders release nothing,
and order margin is the margin of the unfilled lots of the live orders. -/
structure Balanced (config : Config) (audited : Audited) : Prop where
  notExceeded : ∀ id reservation, audited.ledger.lookup id = some reservation →
    reservation.consumed + reservation.released ≤ reservation.reserved
  usedUp : ∀ id reservation, audited.ledger.lookup id = some reservation →
    reservation.openLots ≤ 0 →
    reservation.consumed + reservation.released = reservation.reserved
  liquidation : ∀ id reservation, audited.ledger.lookup id = some reservation →
    reservation.liquidation = true → reservation.released = 0
  orderMargin : ∀ userId,
    audited.desk.risk.orderMarginOf userId = liveMargin config audited.ledger userId
  nonneg : ∀ userId, 0 ≤ audited.desk.risk.orderMarginOf userId

/-- What a completed step keeps. -/
structure Exhausted (config : Config) (audited : Audited) : Prop where
  backed : Backed config audited
  finished : Finished config audited.ledger
  noSurplus : ∀ userId, surplus audited.desk.risk audited.ledger userId = 0

section

variable {config : Config} {audited : Audited}

theorem Exhausted.balanced (exhausted : Exhausted config audited) : Balanced config audited := by
  obtain ⟨⟨funded, -, -⟩, finished, noSurplus⟩ := exhausted
  refine ⟨fun id reservation found => ?_, fun id reservation found closed => ?_,
    fun id reservation found isLiquidation => ?_, fun userId => ?_, fun userId => ?_⟩
  · have nonneg := funded.left id reservation found
    unfold left at nonneg
    omega
  · obtain ⟨liquidation, lots, remains⟩ := finished id reservation found
    have nothing : reservation.left = 0 := by
      cases kind : reservation.liquidation with
      | true => exact liquidation kind
      | false =>
        have none : reservation.openLots = 0 := le_antisymm closed (lots kind)
        rw [remains kind, none, marginOf_zero]
    unfold left at nothing
    omega
  · exact (funded.liquidation id reservation found isLiquidation).2
  · rw [← finished.held_eq]
    have exactly := noSurplus userId
    unfold surplus at exactly
    omega
  · exact funded.orderMarginOf_nonneg userId

/-- A completed step leaves the margin of the lots that remain. -/
theorem Finished.step (scaled : config.Scaled) (finished : Finished config audited.ledger)
    (backed : Backed config audited) (completes : Completes config audited input) :
    Finished config (audited.step config input).ledger := by
  obtain ⟨desk, ledger⟩ := audited
  obtain ⟨funded, spared, described⟩ := backed
  obtain ⟨⟨noOverflow, covers, reservesFirst⟩, settles⟩ := completes
  simp only at finished funded spared described noOverflow covers settles
  cases input with
  | entry path =>
    have enters := State.enters_enter covers.1.nodup covers.2
    simp only [step, audit, ExactStep] at noOverflow ⊢
    rw [noOverflow]
    exact finished.enter (covers.1.nodup.sublist enters.entered.given) enters.sound fun order =>
      State.inFull_enter covers.1.nodup fun ordinary => (reservesFirst ordinary).2
  | update update =>
    have sameLedger : auditUpdate machine config desk ledger update =
        auditUpdate exact config desk ledger update := by
      unfold auditUpdate
      rw [noOverflow.1]
    simp only [step, audit, sameLedger]
    exact finished.onOrderUpdate funded scaled spared described covers settles
  | trades trades =>
    simp only [step, audit, foldl_auditTrade_exact noOverflow.1]
    exact finished.settleTrades funded scaled spared described covers settles
  | _ => exact finished

theorem Exhausted.step (scaled : config.Scaled) (exhausted : Exhausted config audited)
    (completes : Completes config audited input) : Exhausted config (audited.step config input) := by
  obtain ⟨backed, finished, noSurplus⟩ := exhausted
  obtain ⟨stillBacked, -, sameSurplus⟩ := backed.step scaled completes.backs
  refine ⟨stillBacked, finished.step scaled backed completes, fun userId => ?_⟩
  have unblocked : Unblocked config audited.desk input := by
    have settles := completes.settles
    cases input with
    | entry path => exact settles
    | _ => trivial
  rw [sameSurplus unblocked userId, noSurplus userId]

end

/-- Reservations are used up exactly in every state of a run whose steps are all
completed. -/
theorem balanced_run
    {config : Config} {deskId : Nat} {risk : RiskEngine} {accountCache : AccountCache}
    {nextOrderId : Nat} {inputs : List Input} (scaled : config.Scaled)
    (noMargin : ∀ userId, risk.orderMarginOf userId = 0)
    (completes : RunCompletes config (.start deskId risk accountCache nextOrderId) inputs)
    (count : Nat) :
    Balanced config
      ((start deskId risk accountCache nextOrderId).run config (inputs.take count)) := by
  have exhausted : Exhausted config (start deskId risk accountCache nextOrderId) := by
    refine ⟨Backed.start noMargin config deskId accountCache nextOrderId, ?_, fun userId => ?_⟩
    · intro id reservation found
      simp [start] at found
    · show risk.orderMarginOf userId - 0 = 0
      rw [noMargin]
      rfl
  refine Exhausted.balanced ?_
  exact (completes.take count).foldl (fun exhausted => exhausted.step scaled) exhausted

theorem balanced_partlyFilledMaker :
    Balanced .btcUsdt (funded.run .btcUsdt Input.partlyFilledMaker) :=
  balanced_run Config.scaled_btcUsdt (RiskEngine.orderMarginOf_initialized _)
    (show RunCompletes .btcUsdt funded Input.partlyFilledMaker by decide +kernel) 8

/-- The owner of the partly filled bid cancels the rest of it. -/
def Input.cancelledMaker : List Input :=
  Input.partlyFilledMaker ++
    [.cancel ∅ 4 (.cancelOrder 1), .send, .update (.cancelled 1 0 4 40)]

/-- The desk releases all that a partly filled maker reserved.  The updates and the
trade are those that the exchange publishes for the messages of the desk. -/
theorem not_balanced_cancelledMaker :
    ((Exchange.FrontEnd.new 7 ⟨0, 0, 0, 0⟩ (.new 0 0 0) ⟨4, 4⟩).run
        ((funded.desk.publishedIn .btcUsdt Input.cancelledMaker).map
          fun message => (0, message))).2 =
        [⟨[(0, .accepted 1 1 4)], []⟩,
          ⟨[(0, .filled 2 2 8 10000000 60)], [⟨2, 1, 10000000, 60, .sell, 7⟩]⟩,
          ⟨[(0, .cancelled 1 0 4 40)], []⟩] ∧
      ¬ Balanced .btcUsdt (funded.run .btcUsdt Input.cancelledMaker) := by
  refine ⟨by decide +kernel, fun balanced => ?_⟩
  exact absurd (balanced.nonneg 4) (by decide +kernel)

end LightningX.Desk
