import LightningX.Desk.Gates

/-!
# Connections and order updates

The receive thread of a desk handles an order update if the owner of the order is connected,
or if it still knows the order as pending or forwarded.  What it does with the update does
not depend on connections, but whether it handles the update may.
-/

namespace LightningX.Desk

open Risk Transport

/-- An order update, or the end of a burst, with the users that are connected in each of two
schedules. -/
structure Arrival where
  update : Option OrderUpdateMsg
  first : List UserId
  second : List UserId

namespace State

def connect (desk : State) (userTx : List UserId) : State :=
  { desk with userTx := userTx }

/-- The order is known apart from connections. -/
def Awaits (desk : State) (update : OrderUpdateMsg) : Prop :=
  (desk.connect []).owned update = true
deriving Decidable

section

variable (arith : Arithmetic) (config : Config)

/-- An arrival while some users are connected. -/
def hear (connected : Arrival → List UserId) (desk : State) (arrival : Arrival) : State :=
  match arrival.update with
  | none => desk.flush config
  | some update => (desk.connect (connected arrival)).onOrderUpdate arith config update

end

/-- The owner of the order is connected in both schedules or in none, or the order is known. -/
def Settled (desk : State) (arrival : Arrival) : Prop :=
  ∀ update ∈ arrival.update,
    (update.participantId ∈ arrival.first ↔ update.participantId ∈ arrival.second) ∨
      desk.Awaits update
deriving Decidable

variable {arith : Arithmetic} {config : Config} {desk : State} {update : OrderUpdateMsg}
  {userTx : List UserId}

theorem foldl_connect {α : Type} {body : State → α → State}
    (commutes : ∀ desk item, body (connect desk userTx) item = (body desk item).connect userTx)
    (items : List α) :
    items.foldl body (desk.connect userTx) = (items.foldl body desk).connect userTx := by
  induction items generalizing desk with
  | nil => rfl
  | cons item items ih => rw [List.foldl_cons, commutes, ih, List.foldl_cons]

theorem publishAccount_connect (userId : UserId) (asset : Asset) :
    (desk.connect userTx).publishAccount userId asset =
      (desk.publishAccount userId asset).connect userTx := by
  unfold publishAccount
  simp only [connect]
  split <;> rfl

theorem releaseFunds_connect (userId : UserId) (asset : Asset) (amountAtoms : Int) :
    (desk.connect userTx).releaseFunds userId asset amountAtoms =
      (desk.releaseFunds userId asset amountAtoms).connect userTx := by
  unfold releaseFunds
  split_ifs
  · exact @publishAccount_connect { desk with
      accountCache := releaseCacheFrozen desk.accountCache userId asset amountAtoms } _ _ _
  · rfl

theorem flushAccepted_connect :
    (desk.connect userTx).flushAccepted config = (desk.flushAccepted config).connect userTx := by
  unfold flushAccepted
  simp only
  rw [foldl_connect fun _ _ => publishAccount_connect _ _]
  rfl

theorem flushCancels_connect :
    (desk.connect userTx).flushCancels = desk.flushCancels.connect userTx := by
  unfold flushCancels
  simp only
  rw [foldl_connect fun _ _ => releaseFunds_connect _ _ _]
  rfl

theorem flush_connect :
    (desk.connect userTx).flush config = (desk.flush config).connect userTx := by
  unfold flush
  rw [flushAccepted_connect, ← flushCancels_connect]
  rfl

/-- A batch is flushed if it is full. -/
theorem batch_connect {α : Type} {flushed : State → State}
    (batch : State → List α) (same : batch (desk.connect userTx) = batch desk)
    (commutes : flushed (desk.connect userTx) = (flushed desk).connect userTx) :
    (if (batch (desk.connect userTx)).length ≥ batchSize then flushed (desk.connect userTx)
      else desk.connect userTx) =
      (if (batch desk).length ≥ batchSize then flushed desk else desk).connect userTx := by
  rw [same]
  split_ifs
  · exact commutes
  · rfl

theorem bookUpdate_connect (pending : Option OrderMeta) :
    (desk.connect userTx).bookUpdate config update pending =
      (desk.bookUpdate config update pending).connect userTx := by
  have delete : (desk.connect userTx).batchDelete update.orderId =
      (desk.batchDelete update.orderId).connect userTx := by
    unfold batchDelete
    rw [@batch_connect desk userTx _ flushDeletes deleteBatch rfl rfl]
    rfl
  cases pending with
  | some details =>
    simp only [bookUpdate, bookPending]
    cases update.kind with
    | accepted =>
      simp only [batchAccepted]
      rw [batch_connect acceptedBatch rfl flushAccepted_connect]
      rfl
    | partialFill => rfl
    | rejected => rfl
    | filled => rfl
    | cancelled =>
      simp only [releaseReservation]
      split_ifs
      · rfl
      · exact releaseFunds_connect _ _ _
  | none =>
    simp only [bookUpdate, bookLive]
    cases update.kind with
    | cancelled =>
      simp only [batchCancel]
      rw [batch_connect cancelBatch rfl flushCancels_connect]
      rfl
    | filled => exact delete
    | rejected => exact delete
    | accepted => rfl
    | partialFill => rfl

theorem noteAccepted_connect :
    (desk.connect userTx).noteAccepted update = (desk.noteAccepted update).connect userTx := by
  have remapped : (desk.connect userTx).remapRuntimeOrderId update.clientOrderId update.orderId =
      (desk.remapRuntimeOrderId update.clientOrderId update.orderId).connect userTx := by
    unfold remapRuntimeOrderId
    split_ifs
    · simp only [connect]
      split <;> rfl
    · rfl
  unfold noteAccepted
  rw [remapped]
  split_ifs
  · simp only [connect]
    split <;> rfl
  · rfl

theorem register_connect :
    (desk.connect userTx).register update = (desk.register update).connect userTx := by
  have noted := @noteAccepted_connect { desk with
    pendingOrders := desk.pendingOrders.erase (lookupId update) } update userTx
  unfold register
  simp only
  rw [show noteAccepted { desk.connect userTx with
    pendingOrders := (desk.connect userTx).pendingOrders.erase (lookupId update) } update = _
    from noted]
  generalize noteAccepted _ update = after
  rw [show (after.connect userTx).wsMeta update = after.wsMeta update from rfl]
  cases after.wsMeta update with
  | none => rfl
  | some details => split_ifs <;> rfl

/-- What an update does is the same for all connections under which it is handled. -/
theorem onOrderUpdate_connect (owned : (desk.connect userTx).owned update = desk.owned update) :
    (desk.connect userTx).onOrderUpdate arith config update =
      (desk.onOrderUpdate arith config update).connect userTx := by
  unfold onOrderUpdate
  rw [owned]
  by_cases skipped : desk.owned update = false
  · rw [if_pos skipped, if_pos skipped]
  · have booked := @bookUpdate_connect config { desk.register update with
      risk := (desk.updateCalls arith config update).foldl (RiskCall.apply arith)
        (desk.register update).risk } update userTx (desk.wsMeta update)
    simp only [updateCalls, register_connect] at booked ⊢
    split_ifs
    · exact congrArg (fun after => after.forget update) booked
    · exact booked

theorem owned_connect :
    (desk.connect userTx).owned update =
      (decide (update.participantId ∈ userTx) || (desk.connect []).owned update) := by
  simp only [owned, Bool.or_assoc]
  rfl

theorem hear_connect {arrival : Arrival} (settled : desk.Settled arrival) :
    ∃ connected, (desk.connect userTx).hear arith config Arrival.second arrival =
      (desk.hear arith config Arrival.first arrival).connect connected := by
  unfold hear
  cases arrives : arrival.update with
  | none => exact ⟨userTx, flush_connect⟩
  | some update =>
    refine ⟨arrival.second, @onOrderUpdate_connect _ _ (desk.connect arrival.first) _ _ ?_⟩
    have first := @owned_connect desk update arrival.first
    have second := @owned_connect desk update arrival.second
    rcases settled update arrives with alike | known
    · exact second.trans ((decide_eq_decide.mpr alike) ▸ first).symm
    · rw [known, Bool.or_true] at first second
      exact second.trans first.symm

/-- Two runs over the same updates end alike, but for the connections, if each update finds
its owner connected in both or in none, or its order known. -/
theorem foldl_hear_eq_of_settled
    (arith : Arithmetic) (config : Config) (desk : State) (arrivals : List Arrival)
    (settled : Along (hear arith config Arrival.first) Settled desk arrivals) :
    (arrivals.foldl (hear arith config Arrival.second) desk).connect [] =
      (arrivals.foldl (hear arith config Arrival.first) desk).connect [] := by
  suffices agree : ∀ userTx,
      (arrivals.foldl (hear arith config Arrival.second) (desk.connect userTx)).connect [] =
        (arrivals.foldl (hear arith config Arrival.first) desk).connect [] from agree desk.userTx
  induction arrivals generalizing desk with
  | nil => exact fun _ => rfl
  | cons arrival arrivals ih =>
    intro userTx
    obtain ⟨connected, step⟩ := @hear_connect arith config desk userTx arrival settled.1
    rw [List.foldl_cons, step]
    exact ih _ settled.2 connected

end State

/-- An order is accepted and cancelled while its owner is connected, and in a second schedule
while others are. -/
def acceptedCancelled (second : List UserId) : List Arrival :=
  [⟨some (.accepted 50 1 4), [4], second⟩, ⟨some (.cancelled 50 1 4 100), [4], second⟩,
    ⟨none, [4], second⟩]

/-- The user stays connected in both schedules. -/
theorem foldl_hear_eq_connected :
    let desk := (State.oneUser.placeOrder .machine .btcUsdt none .hundredLots).1
    ((acceptedCancelled [4, 5]).foldl (State.hear .machine .btcUsdt Arrival.second)
        desk).connect [] =
      ((acceptedCancelled [4, 5]).foldl (State.hear .machine .btcUsdt Arrival.first)
        desk).connect [] :=
  State.foldl_hear_eq_of_settled .machine .btcUsdt _ _ (by decide +kernel)

/-- The user is gone when the order is cancelled: its margin stays reserved and the desk
remembers the order. -/
theorem foldl_hear_ne_disconnected :
    let desk := (State.oneUser.placeOrder .machine .btcUsdt none .hundredLots).1
    let connected := (acceptedCancelled []).foldl (State.hear .machine .btcUsdt Arrival.first) desk
    let gone := (acceptedCancelled []).foldl (State.hear .machine .btcUsdt Arrival.second) desk
    connected.risk.accounts ≠ gone.risk.accounts ∧ connected.orderMeta ≠ gone.orderMeta ∧
      connected.frames ≠ gone.frames := by
  decide +kernel

end LightningX.Desk
