import LightningX.Desk.Ledger
import LightningX.Desk.Receive

/-!
# Metadata and the ledger

The desk releases and consumes margin by what its metadata says about an order.
`Described` says that the metadata agrees with the ledger; every step keeps it,
if identifiers are new and an order is sent before updates about it arrive.
-/

namespace LightningX.Desk

open List Option Reservation KeyedMap
open Matching (Side TimeInForce)
open Risk Transport Arithmetic

namespace Reservation

/-- Metadata says what the reservation says. -/
structure Describes (reservation : Reservation) (userId : UserId) (symbol : Symbol)
    (liqPriceTicks margin : Int) : Prop where
  user : userId = reservation.userId
  symbol : symbol = reservation.symbol
  liquidation : reservation.liquidation = decide (liqPriceTicks ≠ 0)
  margin : reservation.liquidation = false → margin = reservation.reserved

theorem Describes.of_terms {reservation other : Reservation} {userId : UserId} {symbol : Symbol}
    {margin : Int} (describes : reservation.Describes userId symbol liqPriceTicks margin)
    (same : reservation.terms = other.terms) :
    other.Describes userId symbol liqPriceTicks margin := by
  simp only [terms, Prod.mk.injEq] at same
  obtain ⟨sameUser, sameSymbol, sameKind, sameMargin, -⟩ := same
  refine ⟨describes.user.trans sameUser, describes.symbol.trans sameSymbol,
    sameKind.symm.trans describes.liquidation, fun ordinary => ?_⟩
  exact (describes.margin (sameKind.trans ordinary)).trans sameMargin

end Reservation

/-- The metadata of a desk and its queues agree with the ledger. -/
structure Described (core : Core) (ledger : Ledger) : Prop where
  pending : ∀ id details reservation, core.pendingMeta.lookup id = some details →
    ledger.lookup id = some reservation →
    reservation.Describes details.userId details.symbol details.liqPriceTicks
      details.initialMarginAtoms
  user : ∀ id details reservation, core.orderMeta.lookup id = some details →
    ledger.lookup id = some reservation → details.userId = reservation.userId
  runtime : ∀ id details reservation, core.orderMeta.lookup id = some details →
    ledger.lookup id = some reservation → core.pendingMeta.lookup id = none →
    reservation.Describes details.userId details.symbol details.liqPriceTicks
      details.initialMarginAtoms
  queued : ∀ request ∈ core.queued, ∃ reservation,
    ledger.lookup request.clientOrderId = some reservation ∧
      reservation.userId = request.participantId
  noZero : core.NoZero
  ledgerZero : ledger.lookup 0 = none

/-- Two ledgers have the same orders. -/
def SameTerms (before after : Ledger) : Prop :=
  ∀ id, (after.lookup id).map terms = (before.lookup id).map terms

section

variable {before after ledger : Ledger} {id : OrderId}

theorem SameTerms.symm (same : SameTerms before after) : SameTerms after before :=
  fun id => (same id).symm

theorem SameTerms.trans (first : SameTerms before middle) (second : SameTerms middle after) :
    SameTerms before after :=
  fun id => (second id).trans (first id)

theorem SameTerms.lookup
    (same : SameTerms before after) (found : after.lookup id = some reservation) :
    ∃ old, before.lookup id = some old ∧ old.terms = reservation.terms := by
  have equal := same id
  rw [found] at equal
  exact map_eq_some_iff.mp equal.symm

theorem sameTerms_modify (keeps : ∀ reservation, (change reservation).terms = reservation.terms)
    (id : OrderId) : SameTerms ledger (modify id change ledger) := by
  intro other
  rw [lookup_modify]
  split_ifs
  · rw [Option.map_map]
    congr 1
    exact funext keeps
  · rfl

theorem sameTerms_auditUpdate (arith : Arithmetic) (config : Config) (desk : State)
    (update : OrderUpdateMsg) : SameTerms ledger (auditUpdate arith config desk ledger update) :=
  sameTerms_modify (fun _ => by rw [terms_afterUpdate, terms_foldl_charge]) _

theorem sameTerms_auditTrade (arith : Arithmetic) (config : Config) (desk : State)
    (trade : TradeNotification) : SameTerms ledger (auditTrade arith config desk ledger trade) :=
  sameTerms_modify (fun _ => by rw [terms_afterTrade, terms_foldl_charge]) _

end

namespace Described

variable {arith : Arithmetic} {config : Config} {core after : Core} {ledger : Ledger} {desk : State}
  {update : OrderUpdateMsg}

theorem of_sameTerms (described : Described core ledger) (same : SameTerms ledger changed) :
    Described core changed where
  pending := by
    intro id details reservation isPending found
    obtain ⟨old, isOld, terms⟩ := same.lookup found
    exact (described.pending id details old isPending isOld).of_terms terms
  user := by
    intro id details reservation isRuntime found
    obtain ⟨old, isOld, terms⟩ := same.lookup found
    exact (described.user id details old isRuntime isOld).trans (congrArg Prod.fst terms)
  runtime := by
    intro id details reservation isRuntime found notPending
    obtain ⟨old, isOld, terms⟩ := same.lookup found
    exact (described.runtime id details old isRuntime isOld notPending).of_terms terms
  queued := by
    intro request mem
    obtain ⟨old, isOld, user⟩ := described.queued request mem
    obtain ⟨reservation, found, terms⟩ := same.symm.lookup isOld
    exact ⟨reservation, found, (congrArg Prod.fst terms).trans user⟩
  noZero := described.noZero
  ledgerZero := by
    have none := same 0
    rw [described.ledgerZero] at none
    exact map_eq_none_iff.mp none

/-- Metadata and the orders that wait are all that matters. -/
theorem of_core (described : Described core ledger) (pending : after.pendingMeta = core.pendingMeta)
    (runtime : after.orderMeta = core.orderMeta)
    (queued : ∀ request ∈ after.queued, request ∈ core.queued) : Described after ledger where
  pending := by
    rw [pending]
    exact described.pending
  user := by
    rw [runtime]
    exact described.user
  runtime := by
    rw [pending, runtime]
    exact described.runtime
  queued := fun request mem => described.queued request (queued request mem)
  noZero := ⟨pending ▸ described.noZero.pending, runtime ▸ described.noZero.runtime⟩
  ledgerZero := described.ledgerZero

/-- What the receive thread remembers of an order describes it. -/
theorem liveMeta (described : Described desk.core ledger)
    (found : ledger.lookup (lookupId update) = some reservation)
    (isLive : desk.liveMeta update = some details) :
    reservation.Describes details.userId details.symbol details.liqPriceTicks
      details.initialMarginAtoms := by
  unfold State.liveMeta at isLive
  split_ifs at isLive
  cases isPending : desk.pendingMeta.lookup (lookupId update) with
  | some pending =>
    rw [isPending, map_some, some_or, some.injEq] at isLive
    have describes := described.pending _ pending reservation isPending found
    rw [← isLive]
    exact describes
  | none =>
    rw [isPending, map_none] at isLive
    exact described.runtime _ details reservation isLive found isPending

theorem onOrderUpdate (described : Described desk.core ledger) (wellFormed : update.WellFormed) :
    Described (desk.onOrderUpdate arith config update).core ledger := by
  by_cases owned : desk.owned update = true
  swap
  · rw [State.onOrderUpdate, if_pos (by simpa using owned)]
    exact described
  have handled : State.Handled desk update (desk.onOrderUpdate arith config update).core :=
    State.handled_onOrderUpdate wellFormed described.noZero owned
  have stillPending : ∀ id details,
      (desk.onOrderUpdate arith config update).core.pendingMeta.lookup id = some details →
      desk.pendingMeta.lookup id = some details := by
    intro id details isPending
    rw [handled.pending] at isPending
    split_ifs at isPending
    exact isPending
  constructor
  · intro id details reservation isPending
    exact described.pending id details reservation (stillPending id details isPending)
  · intro id details reservation isRuntime found
    rcases handled.runtime id details isRuntime with ⟨-, old⟩ | ⟨rfl, isLive⟩
    · exact described.user id details reservation old found
    · exact (described.liveMeta found isLive).user
  · intro id details reservation isRuntime found notPending
    rcases handled.runtime id details isRuntime with ⟨ne, old⟩ | ⟨rfl, isLive⟩
    · rw [handled.pending, if_neg ne] at notPending
      exact described.runtime id details reservation old found notPending
    · exact described.liveMeta found isLive
  · rw [handled.queued]
    exact described.queued
  · constructor
    · rw [handled.pending]
      split_ifs
      · rfl
      · exact described.noZero.pending
    · rw [eq_none_iff_forall_ne_some]
      intro details isRuntime
      rcases handled.runtime 0 details isRuntime with ⟨-, old⟩ | ⟨isZero, isLive⟩
      · rw [show desk.orderMeta.lookup 0 = none from described.noZero.runtime] at old
        simp at old
      · unfold State.liveMeta at isLive
        rw [← isZero, show desk.pendingMeta.lookup 0 = none from described.noZero.pending,
          show desk.orderMeta.lookup 0 = none from described.noZero.runtime] at isLive
        simp at isLive
  · exact described.ledgerZero

end Described

/-- The orders that the send thread takes next. -/
def State.nextOrders (desk : State) : List NewOrderRequest :=
  match desk.liqCmd, desk.aeronCmd with
  | command :: _, _ => command.newOrders
  | [], command :: _ => command.newOrders
  | [], [] => []

/-- What sending some orders does to metadata and queues. -/
structure Sent (requests : List NewOrderRequest) (before after : Core) : Prop where
  queued : ∀ request ∈ after.queued, request ∈ before.queued
  pending : ∀ id details, after.pendingMeta.lookup id = some details →
    before.pendingMeta.lookup id = some details
  runtime : ∀ id details, after.orderMeta.lookup id = some details →
    after.pendingMeta.lookup id = before.pendingMeta.lookup id ∧
      (before.orderMeta.lookup id = some details ∨
        ∃ request ∈ requests, request.clientOrderId = id ∧ details.userId = request.participantId)

namespace State

variable {config : Config} {desk : State}

theorem sent_sendOrder (request : NewOrderRequest) :
    Sent [request] desk.core (desk.sendOrder config request).1.core := by
  unfold sendOrder
  split
  · refine ⟨fun _ => id, fun _ _ => id, fun id details isRuntime => ⟨rfl, ?_⟩⟩
    rcases lookup_insert_eq_some.mp isRuntime with ⟨rfl, rfl⟩ | ⟨-, old⟩
    · exact .inr ⟨request, by simp, rfl, rfl⟩
    · exact .inl old
  · refine ⟨fun _ => id, fun id details isPending => ?_, fun id details isRuntime => ?_⟩
    · exact (lookup_erase_eq_some.mp isPending).2
    · obtain ⟨ne, kept⟩ := lookup_erase_eq_some.mp isRuntime
      rcases lookup_insert_eq_some.mp kept with ⟨same, -⟩ | ⟨-, old⟩
      · exact absurd same ne
      · exact ⟨AList.lookup_erase_ne ne, .inl old⟩

/-- The orders of a batch get preliminary metadata. -/
theorem sent_remember (requests : List NewOrderRequest) :
    Sent requests desk.core
      (requests.foldl (fun desk request =>
        desk.rememberRuntimeOrder request.clientOrderId (preliminary request)) desk).core := by
  induction requests generalizing desk with
  | nil => exact ⟨fun _ => id, fun _ _ => id, fun _ _ isRuntime => ⟨rfl, .inl isRuntime⟩⟩
  | cons first rest ih =>
    have later := @ih (desk.rememberRuntimeOrder first.clientOrderId (preliminary first))
    refine ⟨later.queued, later.pending, fun id details isRuntime => ?_⟩
    obtain ⟨samePending, old | ⟨request, mem, isId, user⟩⟩ := later.runtime id details isRuntime
    · refine ⟨samePending, ?_⟩
      rcases lookup_insert_eq_some.mp old with ⟨rfl, rfl⟩ | ⟨-, older⟩
      · exact .inr ⟨first, by simp, rfl, rfl⟩
      · exact .inl older
    · exact ⟨samePending, .inr ⟨request, by simp [mem], isId, user⟩⟩

theorem sent_nothing (desk : State) (requests : List NewOrderRequest) :
    Sent requests desk.core desk.core :=
  ⟨fun _ => id, fun _ _ => id, fun _ _ isRuntime => ⟨rfl, .inl isRuntime⟩⟩

theorem sent_sendCmd (command : AeronCmd) :
    Sent command.newOrders desk.core (desk.sendCmd config command).1.core := by
  cases command with
  | newOrder request => exact sent_sendOrder request
  | cancel request => exact sent_nothing desk _
  | batchCancel requests => exact sent_nothing desk _
  | batchNewOrder requests => exact sent_remember requests

theorem sent_sendLiqCmd (command : AeronCmd) :
    Sent command.newOrders desk.core (desk.sendLiqCmd config command).1.core := by
  cases command with
  | newOrder request =>
    refine ⟨fun _ => id, fun _ _ => id, fun id details isRuntime => ⟨rfl, ?_⟩⟩
    rcases lookup_insert_eq_some.mp isRuntime with ⟨rfl, rfl⟩ | ⟨-, old⟩
    · exact .inr ⟨request, by simp [AeronCmd.newOrders], rfl, rfl⟩
    · exact .inl old
  | cancel request => exact sent_nothing desk _
  | batchCancel requests => exact sent_nothing desk _
  | batchNewOrder requests => exact sent_nothing desk _

theorem sent_send : Sent desk.nextOrders desk.core (desk.send config).1.core := by
  unfold send nextOrders
  cases isLiq : desk.liqCmd with
  | cons command rest =>
    have sent := @sent_sendLiqCmd config { desk with liqCmd := rest } command
    refine ⟨fun request mem => ?_, sent.pending, sent.runtime⟩
    have kept := sent.queued request mem
    simp only [Core.queued, core, isLiq, cons_append, flatMap_cons, mem_append] at kept ⊢
    exact .inr kept
  | nil =>
    cases isCmd : desk.aeronCmd with
    | nil => exact sent_nothing desk _
    | cons command rest =>
      have sent := @sent_sendCmd config { desk with aeronCmd := rest, liqCmd := [] } command
      refine ⟨fun request mem => ?_, sent.pending, sent.runtime⟩
      have kept := sent.queued request mem
      simp only [Core.queued, core, isLiq, isCmd, nil_append, flatMap_cons, mem_append] at kept ⊢
      exact .inr kept

/-- The risk engine takes no part in sending. -/
theorem risk_send : (desk.send config).1.risk = desk.risk := by
  have remembered : ∀ (requests : List NewOrderRequest) (desk : State),
      (requests.foldl (fun desk request =>
        desk.rememberRuntimeOrder request.clientOrderId (preliminary request))
        desk).risk = desk.risk := by
    intro requests
    induction requests with
    | nil => exact fun _ => rfl
    | cons first rest ih => exact fun desk => ih _
  unfold send
  cases desk.liqCmd with
  | cons command rest => cases command <;> rfl
  | nil =>
    cases desk.aeronCmd with
    | nil => rfl
    | cons command rest =>
      cases command with
      | newOrder request =>
        simp only [sendCmd, sendOrder]
        split <;> rfl
      | batchNewOrder requests => exact remembered requests _
      | _ => rfl

theorem nextOrders_subset : ∀ request ∈ desk.nextOrders, request ∈ desk.core.queued := by
  intro request mem
  unfold nextOrders at mem
  unfold Core.queued core
  cases isLiq : desk.liqCmd with
  | cons command rest =>
    simp only [isLiq] at mem
    simp [mem]
  | nil =>
    cases isCmd : desk.aeronCmd with
    | nil => simp [isLiq, isCmd] at mem
    | cons command rest =>
      simp only [isLiq, isCmd] at mem
      simp [mem]

end State

/-- Orders are sent before updates about them arrive. -/
theorem Described.send {desk : State}
    (described : Described desk.core ledger)
    (stillPending : ∀ request ∈ desk.nextOrders,
      (desk.pendingMeta.lookup request.clientOrderId).isSome) :
    Described (desk.send config).1.core ledger := by
  have sent : Sent desk.nextOrders desk.core (desk.send config).1.core := State.sent_send
  constructor
  · intro id details reservation isPending
    exact described.pending id details reservation (sent.pending id details isPending)
  · intro id details reservation isRuntime found
    obtain ⟨-, old | ⟨request, mem, rfl, user⟩⟩ := sent.runtime id details isRuntime
    · exact described.user id details reservation old found
    · obtain ⟨known, isKnown, sameUser⟩ :=
        described.queued request (State.nextOrders_subset request mem)
      rw [found, some.injEq] at isKnown
      rw [user, isKnown, sameUser]
  · intro id details reservation isRuntime found notPending
    obtain ⟨samePending, old | ⟨request, mem, rfl, -⟩⟩ := sent.runtime id details isRuntime
    · exact described.runtime id details reservation old found (samePending ▸ notPending)
    · have isPending := stillPending request mem
      rw [samePending] at notPending
      rw [show desk.pendingMeta.lookup request.clientOrderId = none from notPending] at isPending
      simp at isPending
  · exact fun request mem => described.queued request (sent.queued request mem)
  · constructor
    · rw [eq_none_iff_forall_ne_some]
      intro details isPending
      have old := sent.pending 0 details isPending
      rw [described.noZero.pending] at old
      simp at old
    · rw [eq_none_iff_forall_ne_some]
      intro details isRuntime
      obtain ⟨-, old | ⟨request, mem, isZero, -⟩⟩ := sent.runtime 0 details isRuntime
      · rw [described.noZero.runtime] at old
        simp at old
      · obtain ⟨known, isKnown, -⟩ := described.queued request (State.nextOrders_subset request mem)
        rw [isZero, described.ledgerZero] at isKnown
        simp at isKnown
  · exact described.ledgerZero

end LightningX.Desk
