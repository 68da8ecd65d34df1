import LightningX.Desk.Run

/-!
# What an order update does

The exchange names an order in an update by its engine identifier, by the
identifier of the client, or by both, and both are the same number.  For such
updates this file says which metadata the receive thread finds, what it keeps
and which risk calls it makes.
-/

namespace LightningX

/-- The identifiers of an update are those the exchange fills in. -/
def Transport.OrderUpdateMsg.WellFormed (update : Transport.OrderUpdateMsg) : Prop :=
  if update.kind = .rejected then update.orderId = 0
  else
    update.clientOrderId = update.orderId ∨ update.kind = .cancelled ∧ update.clientOrderId = 0
deriving Decidable

namespace Desk

open Risk Transport AList

/-- No order has the identifier zero. -/
@[mk_iff]
structure Core.NoZero (core : Core) : Prop where
  pending : core.pendingMeta.lookup 0 = none
  runtime : core.orderMeta.lookup 0 = none

instance (core : Core) : Decidable core.NoZero :=
  decidable_of_iff _ (Core.noZero_iff core).symm

namespace State

variable {arith : Arithmetic} {config : Config} {desk : State}

/-- Apart from a rejection, an update carries the engine identifier. -/
theorem orderId_eq_lookupId (live : update.kind ≠ .rejected) : update.orderId = lookupId update :=
  (if_neg live).symm

/-- The client identifier adds nothing. -/
theorem clientOrderId_cases (wellFormed : update.WellFormed) :
    update.clientOrderId = 0 ∨ update.clientOrderId = lookupId update := by
  unfold OrderUpdateMsg.WellFormed at wellFormed
  unfold lookupId
  split_ifs at wellFormed ⊢ with rejected
  · exact .inr rfl
  · exact (wellFormed.imp_right And.right).symm

theorem wsMeta_eq (wellFormed : update.WellFormed) (noZero : desk.core.NoZero) :
    desk.wsMeta update = desk.pendingMeta.lookup (lookupId update) := by
  unfold wsMeta
  rcases clientOrderId_cases wellFormed with zero | same
  · rw [zero, show desk.pendingMeta.lookup 0 = none from noZero.pending, Option.or_none]
  · rw [same, Option.or_self]

theorem lookup_dropPending
    (wellFormed : update.WellFormed) (noZero : desk.core.NoZero) (id : OrderId) :
    (desk.dropPending update).lookup id =
      if id = lookupId update then none else desk.pendingMeta.lookup id := by
  have dropped : ∀ key, (desk.pendingMeta.erase key).lookup id =
      if id = key then none else desk.pendingMeta.lookup id := by
    intro key
    split_ifs with same
    · rw [same, lookup_erase]
    · exact lookup_erase_ne same
  unfold dropPending
  split_ifs with found same same
  · rw [same, lookup_erase]
  · exact lookup_erase_ne same
  · have missing : desk.pendingMeta.lookup (lookupId update) = none := by simpa using found
    rw [dropped, same]
    split_ifs
    · rfl
    · exact missing
  · rw [dropped]
    split_ifs with isClient
    · rcases clientOrderId_cases wellFormed with zero | isId
      · rw [isClient, zero]
        exact noZero.pending.symm
      · exact absurd (isClient.trans isId) same
    · rfl

/-- An accepted order keeps its identifier. -/
theorem core_noteAccepted (wellFormed : update.WellFormed) :
    (desk.noteAccepted update).core = desk.core := by
  unfold noteAccepted
  split_ifs with accepted
  · have same : update.clientOrderId = update.orderId := by
      simpa [OrderUpdateMsg.WellFormed, accepted] using wellFormed
    have kept : desk.remapRuntimeOrderId update.clientOrderId update.orderId = desk := by
      rw [remapRuntimeOrderId, if_neg (not_not.mpr same)]
    simp only [kept]
    split <;> rfl
  · rfl

/-- What the receive thread remembers of a live order while it handles an
update. -/
def liveMeta (desk : State) (update : OrderUpdateMsg) : Option OrderRuntimeMeta :=
  if update.kind = .rejected then none
  else
    ((desk.pendingMeta.lookup (lookupId update)).map (·.live)).or
      (desk.orderMeta.lookup (lookupId update))

/-- Registering moves the metadata of the order and nothing else. -/
structure Registered (desk : State) (update : OrderUpdateMsg) (after : Core) : Prop where
  risk : after.risk = desk.risk
  queued : after.queued = desk.core.queued
  pending : ∀ id, after.pendingMeta.lookup id =
    if id = lookupId update then none else desk.pendingMeta.lookup id
  runtime : ∀ id, id ≠ lookupId update → after.orderMeta.lookup id = desk.orderMeta.lookup id
  live : update.kind ≠ .rejected → after.orderMeta.lookup (lookupId update) = desk.liveMeta update
  rejected : update.kind = .rejected → after.orderMeta = desk.orderMeta

theorem registered_register (wellFormed : update.WellFormed) (noZero : desk.core.NoZero) :
    Registered desk update (desk.register update).core := by
  have same : ({ desk with
      pendingOrders := desk.pendingOrders.erase (lookupId update)
      : State }.noteAccepted update).core = desk.core := core_noteAccepted wellFormed
  unfold register
  simp only
  generalize { desk with
    pendingOrders := desk.pendingOrders.erase (lookupId update)
    : State }.noteAccepted update = noted at same
  have notedNoZero : noted.core.NoZero := same ▸ noZero
  have samePending : noted.pendingMeta = desk.pendingMeta := congrArg Core.pendingMeta same
  have sameRuntime : noted.orderMeta = desk.orderMeta := congrArg Core.orderMeta same
  have sameQueued : noted.core.queued = desk.core.queued := congrArg Core.queued same
  have dropped : ∀ id, (noted.dropPending update).lookup id =
      if id = lookupId update then none else desk.pendingMeta.lookup id := by
    intro id
    rw [lookup_dropPending wellFormed notedNoZero, samePending]
  rw [wsMeta_eq wellFormed notedNoZero, samePending]
  cases found : desk.pendingMeta.lookup (lookupId update) with
  | none =>
    refine ⟨congrArg Core.risk same, sameQueued, dropped, ?_, ?_, fun _ => sameRuntime⟩
    · exact fun id _ => congrArg (lookup id) sameRuntime
    · intro live
      simp only [liveMeta, if_neg live, found]
      exact congrArg (lookup _) sameRuntime
  | some details =>
    split_ifs with rejected
    · refine ⟨congrArg Core.risk same, sameQueued, dropped, ?_,
        fun live => absurd rejected live, fun _ => sameRuntime⟩
      exact fun id _ => congrArg (lookup id) sameRuntime
    · refine ⟨congrArg Core.risk same, sameQueued, dropped, ?_, ?_,
        fun isRejected => absurd isRejected rejected⟩
      · intro id ne
        have isOther : id ≠ update.orderId := by rwa [orderId_eq_lookupId rejected]
        exact (lookup_insert_ne isOther).trans (congrArg (lookup id) sameRuntime)
      · intro live
        simp only [liveMeta, if_neg live, found]
        rw [← orderId_eq_lookupId live]
        exact lookup_insert _

/-- The metadata that the risk calls of an update are made with. -/
theorem updateCalls_eq (wellFormed : update.WellFormed) (noZero : desk.core.NoZero) :
    desk.updateCalls arith config update =
      closingCalls update (desk.pendingMeta.lookup (lookupId update))
          (desk.liveMeta update) ++ takerCalls arith config update (desk.liveMeta update) := by
  have registered := registered_register wellFormed noZero
  have runtime : (desk.register update).orderMeta.lookup update.orderId = desk.liveMeta update := by
    by_cases rejected : update.kind = .rejected
    · have zero : update.orderId = 0 := by
        simpa [OrderUpdateMsg.WellFormed, rejected] using wellFormed
      rw [show (desk.register update).orderMeta = desk.orderMeta from
        registered.rejected rejected, zero, liveMeta, if_pos rejected]
      exact noZero.runtime
    · rw [orderId_eq_lookupId rejected]
      exact registered.live rejected
  rw [updateCalls, runtime, wsMeta_eq wellFormed noZero]

/-- What an update leaves of the metadata. -/
structure Handled (desk : State) (update : OrderUpdateMsg) (after : Core) : Prop where
  queued : after.queued = desk.core.queued
  pending : ∀ id, after.pendingMeta.lookup id =
    if id = lookupId update then none else desk.pendingMeta.lookup id
  runtime : ∀ id details, after.orderMeta.lookup id = some details →
    id ≠ lookupId update ∧ desk.orderMeta.lookup id = some details ∨
      id = lookupId update ∧ desk.liveMeta update = some details

theorem core_forget (update : OrderUpdateMsg) :
    (desk.forget update).core =
      { desk.core with
        orderMeta := (desk.core.orderMeta.erase update.orderId).erase update.clientOrderId } :=
  rfl

theorem onOrderUpdate_of_owned (owned : desk.owned update = true) :
    (desk.onOrderUpdate arith config update).core =
      let core := { (desk.register update).core with
        risk := (desk.updateCalls arith config update).foldl (RiskCall.apply arith)
          (desk.register update).risk }
      if terminal update then
        { core with
          orderMeta := (core.orderMeta.erase update.orderId).erase update.clientOrderId }
      else core := by
  unfold onOrderUpdate
  rw [if_neg (by simp [owned])]
  split_ifs
  · rw [core_forget, core_bookUpdate]
    rfl
  · rw [core_bookUpdate]
    rfl

/-- The risk calls of an update are all that happens to the risk engine. -/
theorem risk_onOrderUpdate (wellFormed : update.WellFormed) (noZero : desk.core.NoZero) :
    (desk.onOrderUpdate arith config update).core.risk =
      (desk.callsFor arith config update).foldl (RiskCall.apply arith) desk.risk := by
  unfold callsFor
  split_ifs with owned
  · rw [onOrderUpdate_of_owned owned]
    have same : (desk.register update).risk = desk.risk :=
      (registered_register wellFormed noZero).risk
    split_ifs <;> simp only [same]
  · unfold onOrderUpdate
    rw [if_pos (by simpa using owned)]
    rfl

theorem handled_onOrderUpdate (wellFormed : update.WellFormed) (noZero : desk.core.NoZero)
    (owned : desk.owned update = true) :
    Handled desk update (desk.onOrderUpdate arith config update).core := by
  have registered := registered_register wellFormed noZero
  rw [onOrderUpdate_of_owned owned]
  split_ifs with isTerminal
  · refine ⟨registered.queued, registered.pending, ?_⟩
    intro id details found
    obtain ⟨notClient, stillThere⟩ := KeyedMap.lookup_erase_eq_some.mp found
    obtain ⟨notEngine, kept⟩ := KeyedMap.lookup_erase_eq_some.mp stillThere
    have ne : id ≠ lookupId update := by
      rintro rfl
      unfold lookupId at notClient notEngine
      split_ifs at notClient notEngine <;> contradiction
    exact .inl ⟨ne, (registered.runtime id ne).symm.trans kept⟩
  · refine ⟨registered.queued, registered.pending, ?_⟩
    intro id details found
    have live : update.kind ≠ .rejected := by
      intro rejected
      simp [terminal, rejected] at isTerminal
    by_cases same : id = lookupId update
    · subst same
      exact .inr ⟨rfl, (registered.live live).symm.trans found⟩
    · exact .inl ⟨same, (registered.runtime id same).symm.trans found⟩

end State
end Desk
end LightningX
