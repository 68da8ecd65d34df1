import LightningX.Desk.Reservations
import LightningX.Lib.Along

/-!
# The ledger of reservations

A ledger kept beside a run of a desk.  For each order that was sent it holds the
price and the lots that margin was reserved for, what fills consumed and what was
released, as the risk calls made for the order say, and how many lots can still
trade.
-/

namespace LightningX.Desk

open List
open Matching (Side TimeInForce)
open Risk Transport Arithmetic RiskEngine KeyedMap

/-- What became of the margin that an order reserved. -/
structure Reservation where
  userId : UserId
  symbol : Symbol
  liquidation : Bool
  immediate : Bool
  priceTicks : Int
  quantityLots : Int
  reserved : Int
  consumed : Int
  released : Int
  openLots : Int
  deriving DecidableEq, Repr

abbrev Ledger := KeyedMap OrderId Reservation

namespace Reservation

def left (reservation : Reservation) : Int :=
  reservation.reserved - reservation.consumed - reservation.released

/-- A risk call made for the order. -/
def charge (reservation : Reservation) : RiskCall → Reservation
  | .release _ amount => { reservation with released := reservation.released + amount }
  | .fill report =>
    if report.liqPriceTicks = 0 then
      { reservation with consumed := reservation.consumed + report.marginAtoms }
    else reservation
  | _ => reservation

/-- The lots that can still trade after an update.  What is left of an immediate
order does not rest. -/
def afterUpdate (reservation : Reservation) (update : OrderUpdateMsg) : Reservation :=
  match update.kind with
  | .accepted => reservation
  | .partialFill =>
    { reservation with
      openLots := if reservation.immediate then 0 else reservation.openLots - update.fillQty }
  | _ => { reservation with openLots := 0 }

/-- The lots that can still trade after a trade of the order as maker. -/
def afterTrade (reservation : Reservation) (trade : TradeNotification) : Reservation :=
  { reservation with openLots := reservation.openLots - trade.quantity }

end Reservation

def Submission.reservation (order : Submission) : Reservation where
  userId := order.sent.participantId
  symbol := order.sent.symbol
  liquidation := decide (order.details.liqPriceTicks ≠ 0)
  immediate :=
    decide (order.sent.priceTicks = 0 ∨ order.sent.timeInForce = .ioc ∨
      order.sent.timeInForce = .fok)
  priceTicks := order.marginTicks
  quantityLots := order.sent.quantityLots
  reserved := order.reservedAtoms
  consumed := 0
  released := 0
  openLots := order.sent.quantityLots

/-- The ledger after some orders were sent. -/
def record (ledger : Ledger) (orders : List Submission) : Ledger :=
  orders.foldl (fun ledger order => ledger.insert order.sent.clientOrderId order.reservation) ledger

/-- What is left of the reservations of a user. -/
def held (ledger : Ledger) (userId : UserId) : Int :=
  KeyedMap.total (fun _ reservation =>
    if reservation.userId = userId then reservation.left else 0) ledger

section

variable (arith : Arithmetic) (config : Config)

def auditUpdate (desk : State) (ledger : Ledger) (update : OrderUpdateMsg) : Ledger :=
  KeyedMap.modify (lookupId update) (fun reservation =>
    ((desk.callsFor arith config update).foldl .charge reservation).afterUpdate update)
    ledger

def auditTrade (desk : State) (ledger : Ledger) (trade : TradeNotification) : Ledger :=
  KeyedMap.modify trade.makerOrderId (fun reservation =>
    ((desk.tradeCalls arith config trade).foldl .charge reservation).afterTrade trade)
    ledger

/-- The ledger after a step. -/
def audit (desk : State) (ledger : Ledger) : Input → Ledger
  | .entry path => record ledger (desk.enter arith config path).2.orders
  | .update update => auditUpdate arith config desk ledger update
  | .trades trades => trades.foldl (auditTrade arith config desk) ledger
  | _ => ledger

end

/-- A fill moves no more order margin than the account holds. -/
def RiskCall.Unclamped (engine : RiskEngine) : RiskCall → Prop
  | .fill report => report.liqPriceTicks = 0 →
      ∀ account, engine.accounts.lookup report.userId = some account →
        report.marginAtoms ≤ account.orderMargin
  | _ => True

instance (engine : RiskEngine) : (call : RiskCall) → Decidable (call.Unclamped engine)
  | .fill report => inferInstanceAs (Decidable (report.liqPriceTicks = 0 →
      ∀ account ∈ engine.accounts.lookup report.userId, report.marginAtoms ≤ account.orderMargin))
  | .release _ _ | .rearm _ | .fee _ _ => isTrue trivial

/-- No fill of some calls moves more order margin than the account holds. -/
def ClampFree (arith : Arithmetic) (engine : RiskEngine) (calls : List RiskCall) : Prop :=
  Along (RiskCall.apply arith) (fun engine call => call.Unclamped engine) engine calls
deriving Decidable

/-- The machine computes what is meant in some calls. -/
def CallsExact (engine : RiskEngine) (calls : List RiskCall) : Prop :=
  Along (RiskCall.apply exact)
    (fun engine call => call.apply machine engine = call.apply exact engine) engine calls
deriving Decidable

theorem CallsExact.clampFree {engine : RiskEngine} {calls : List RiskCall}
    (noOverflow : CallsExact engine calls) (clampFree : ClampFree exact engine calls) :
    ClampFree machine engine calls := by
  induction calls generalizing engine with
  | nil => trivial
  | cons call calls ih =>
    refine ⟨clampFree.1, ?_⟩
    rw [noOverflow.1]
    exact ih noOverflow.2 clampFree.2

namespace Reservation

/-- A call for an order takes no more than what is left of its reservation. -/
def Within (reservation : Reservation) : RiskCall → Prop
  | .release userId amount =>
    userId = reservation.userId ∧ 0 ≤ amount ∧ amount ≤ reservation.left ∧
      reservation.liquidation = false
  | .fill report => report.liqPriceTicks = 0 →
      0 < report.qtyLots ∧ report.userId = reservation.userId ∧
        0 ≤ report.marginAtoms ∧ report.marginAtoms ≤ reservation.left
  | _ => True

/-- So does each of some calls. -/
def WithinAll (reservation : Reservation) (calls : List RiskCall) : Prop :=
  Along charge Within reservation calls

/-- What an order is, apart from what happened to its margin. -/
def terms (reservation : Reservation) : UserId × Symbol × Bool × Int × Int × Int :=
  (reservation.userId, reservation.symbol, reservation.liquidation, reservation.reserved,
    reservation.priceTicks, reservation.quantityLots)

variable {reservation : Reservation} {call : RiskCall} {calls : List RiskCall}

@[simp] theorem terms_charge : (reservation.charge call).terms = reservation.terms := by
  cases call with
  | fill report =>
    simp only [charge]
    split <;> rfl
  | _ => rfl

variable (update : OrderUpdateMsg)

@[simp] theorem terms_afterUpdate : (reservation.afterUpdate update).terms = reservation.terms := by
  unfold afterUpdate
  split <;> rfl

@[simp] theorem left_afterUpdate : (reservation.afterUpdate update).left = reservation.left := by
  unfold afterUpdate
  split <;> rfl

@[simp] theorem released_afterUpdate :
    (reservation.afterUpdate update).released = reservation.released := by
  unfold afterUpdate
  split <;> rfl

@[simp] theorem terms_afterTrade (trade : TradeNotification) :
    (reservation.afterTrade trade).terms = reservation.terms := rfl

@[simp] theorem left_afterTrade (trade : TradeNotification) :
    (reservation.afterTrade trade).left = reservation.left := rfl

theorem terms_foldl_charge : (calls.foldl charge reservation).terms = reservation.terms := by
  induction calls generalizing reservation with
  | nil => rfl
  | cons call calls ih => rw [foldl_cons, ih, terms_charge]

/-- Risk calls do not change how much can trade. -/
theorem openLots_foldl_charge :
    (calls.foldl charge reservation).openLots = reservation.openLots ∧
      (calls.foldl charge reservation).immediate = reservation.immediate := by
  induction calls generalizing reservation with
  | nil => exact ⟨rfl, rfl⟩
  | cons call calls ih =>
    have first : (reservation.charge call).openLots = reservation.openLots ∧
        (reservation.charge call).immediate = reservation.immediate := by
      cases call with
      | fill report =>
        simp only [charge]
        split <;> exact ⟨rfl, rfl⟩
      | _ => exact ⟨rfl, rfl⟩
    obtain ⟨lots, immediate⟩ := @ih (reservation.charge call)
    exact ⟨lots.trans first.1, immediate.trans first.2⟩

theorem openLots_of_fill {update : OrderUpdateMsg} (isFill : reportsFill update = true) :
    (reservation.afterUpdate update).openLots = 0 ∨
      (reservation.afterUpdate update).openLots = reservation.openLots - update.fillQty := by
  unfold afterUpdate
  rcases of_decide_eq_true isFill with filled | partlyFilled
  · exact .inl (by rw [filled])
  · rw [partlyFilled]
    exact ite_eq_or_eq _ _ _

theorem openLots_of_closing {update : OrderUpdateMsg} (noFill : reportsFill update = false)
    (notAccepted : update.kind ≠ .accepted) : (reservation.afterUpdate update).openLots = 0 := by
  unfold afterUpdate
  cases kind : update.kind with
  | accepted => exact absurd kind notAccepted
  | partialFill => simp [reportsFill, kind] at noFill
  | _ => rfl

theorem openLots_afterUpdate_foldl_charge :
    ((calls.foldl charge reservation).afterUpdate update).openLots =
      (reservation.afterUpdate update).openLots := by
  obtain ⟨lots, immediate⟩ := @openLots_foldl_charge reservation calls
  unfold afterUpdate
  cases update.kind <;> simp [lots, immediate]

theorem userId_charge : (reservation.charge call).userId = reservation.userId :=
  congrArg Prod.fst terms_charge

/-- A call within the reservation takes the same from it and from the account. -/
theorem orderMarginOf_apply (within : reservation.Within call)
    (backed : reservation.left ≤ engine.orderMarginOf reservation.userId) (userId : UserId) :
    (call.apply exact engine).orderMarginOf userId =
      engine.orderMarginOf userId -
        if userId = reservation.userId then
          reservation.left - (reservation.charge call).left
        else 0 := by
  have nothing : ∀ {after : RiskEngine}, engine.SameOrderMargins after →
      after.orderMarginOf userId = engine.orderMarginOf userId -
        if userId = reservation.userId then reservation.left - reservation.left else 0 := by
    intro after same
    rw [same userId]
    split_ifs <;> omega
  cases call with
  | release user amount =>
    obtain ⟨rfl, nonneg, fits, -⟩ := within
    have taken : reservation.left - (reservation.charge
        (.release reservation.userId amount)).left = amount := by
      simp only [left, charge]
      omega
    rw [taken]
    exact orderMarginOf_releaseOrderMargin nonneg (fits.trans backed) userId
  | rearm user => exact nothing (sameOrderMargins_setAccountStatusIf _ _ _)
  | fee user amount => exact nothing (sameOrderMargins_chargeFee _ _ _)
  | fill report =>
    by_cases ordinary : report.liqPriceTicks = 0
    · obtain ⟨lots, isUser, nonneg, fits⟩ := within ordinary
      have taken : reservation.left - (reservation.charge (.fill report)).left =
          report.marginAtoms := by
        simp only [left, charge, if_pos ordinary]
        omega
      rw [taken, ← isUser]
      exact orderMarginOf_onFill ordinary lots nonneg (isUser ▸ fits.trans backed) userId
    · rw [charge, if_neg ordinary]
      exact nothing (sameOrderMargins_onFill ordinary)

/-- A call within the reservation leaves nothing negative. -/
theorem left_charge_nonneg (within : reservation.Within call) (nonneg : 0 ≤ reservation.left) :
    0 ≤ (reservation.charge call).left := by
  cases call with
  | release user amount =>
    obtain ⟨-, -, fits, -⟩ := within
    simp only [left, charge] at fits ⊢
    omega
  | fill report =>
    simp only [charge]
    split_ifs with ordinary
    · obtain ⟨-, -, -, fits⟩ := within ordinary
      simp only [left] at fits ⊢
      omega
    · exact nonneg
  | rearm user => exact nonneg
  | fee user amount => exact nonneg

theorem unclamped (within : reservation.Within call)
    (backed : reservation.left ≤ engine.orderMarginOf reservation.userId) :
    call.Unclamped engine := by
  cases call with
  | fill report =>
    intro ordinary account found
    obtain ⟨-, isUser, -, fits⟩ := within ordinary
    rw [← orderMarginOf_of_lookup found, isUser]
    exact fits.trans backed
  | _ => trivial

section

variable (within : reservation.WithinAll calls)
include within

/-- What some calls within the reservation do. -/
theorem charges (nonneg : 0 ≤ reservation.left)
    (backed : reservation.left ≤ engine.orderMarginOf reservation.userId) :
    (∀ userId, (calls.foldl (RiskCall.apply exact) engine).orderMarginOf userId =
      engine.orderMarginOf userId -
        if userId = reservation.userId then
          reservation.left - (calls.foldl charge reservation).left
        else 0) ∧
      0 ≤ (calls.foldl charge reservation).left ∧ ClampFree exact engine calls := by
  induction calls generalizing reservation engine with
  | nil =>
    refine ⟨fun userId => ?_, nonneg, trivial⟩
    simp only [foldl_nil]
    split_ifs <;> omega
  | cons call calls ih =>
    have first := orderMarginOf_apply within.1 backed
    have sameUser : (reservation.charge call).userId = reservation.userId := userId_charge
    have stillBacked : (reservation.charge call).left ≤
        (call.apply exact engine).orderMarginOf (reservation.charge call).userId := by
      rw [sameUser, first, if_pos rfl]
      omega
    obtain ⟨rest, restNonneg, restFree⟩ := ih within.2
      (left_charge_nonneg within.1 nonneg) stillBacked
    refine ⟨fun userId => ?_, restNonneg, unclamped within.1 backed, restFree⟩
    rw [foldl_cons, rest, first, sameUser, foldl_cons]
    split_ifs <;> omega

/-- Calls within the reservation release nothing for a liquidation order. -/
theorem released_foldl_charge (isLiquidation : reservation.liquidation = true) :
    (calls.foldl charge reservation).released = reservation.released := by
  induction calls generalizing reservation with
  | nil => rfl
  | cons call calls ih =>
    have sameKind : (reservation.charge call).liquidation = reservation.liquidation :=
      congrArg (fun terms => terms.2.2.1) (@terms_charge reservation call)
    have first : (reservation.charge call).released = reservation.released := by
      cases call with
      | release user amount =>
        obtain ⟨-, -, -, ordinary⟩ := within.1
        rw [isLiquidation] at ordinary
        simp at ordinary
      | fill report =>
        simp only [charge]
        split <;> rfl
      | _ => rfl
    rw [foldl_cons, ih within.2 (sameKind.trans isLiquidation), first]

/-- Calls within the reservation only take from it. -/
theorem left_foldl_charge_le : (calls.foldl charge reservation).left ≤ reservation.left := by
  induction calls generalizing reservation with
  | nil => exact le_rfl
  | cons call calls ih =>
    refine (ih within.2).trans ?_
    cases call with
    | release user amount =>
      obtain ⟨-, nonneg, -⟩ := within.1
      simp only [left, charge]
      omega
    | fill report =>
      simp only [charge]
      split_ifs with ordinary
      · obtain ⟨-, -, nonneg, -⟩ := within.1 ordinary
        simp only [left]
        omega
      · exact le_rfl
    | _ => exact le_rfl

end

end Reservation

/-- Order margin beyond what is left of the reservations of a user. -/
def surplus (engine : RiskEngine) (ledger : Ledger) (userId : UserId) : Int :=
  engine.orderMarginOf userId - held ledger userId

/-- The accounts hold what is left of all reservations. -/
structure Funded (engine : RiskEngine) (ledger : Ledger) : Prop where
  covered : ∀ userId, 0 ≤ surplus engine ledger userId
  left : ∀ id reservation, ledger.lookup id = some reservation → 0 ≤ reservation.left
  liquidation : ∀ id reservation, ledger.lookup id = some reservation →
    reservation.liquidation = true → reservation.reserved = 0 ∧ reservation.released = 0

namespace Funded

variable {engine after : RiskEngine} {ledger : Ledger} {id : OrderId} {reservation : Reservation}

section

variable (funded : Funded engine ledger)
include funded

/-- The account of an order holds what is left of its reservation. -/
theorem left_le (found : ledger.lookup id = some reservation) :
    reservation.left ≤ engine.orderMarginOf reservation.userId := by
  have part : reservation.left ≤ held ledger reservation.userId := by
    have share : KeyedMap.share (fun (_ : OrderId) (other : Reservation) =>
        if other.userId = reservation.userId then other.left else 0) id ledger =
        reservation.left := by
      rw [share_of_lookup found, if_pos rfl]
    rw [← share]
    refine KeyedMap.share_le_total (fun other value isValue => ?_) id
    split_ifs
    · exact funded.left other value isValue
    · exact le_rfl
  have covered := funded.covered reservation.userId
  unfold surplus at covered
  omega

theorem orderMarginOf_nonneg (userId : UserId) : 0 ≤ engine.orderMarginOf userId := by
  have covered := funded.covered userId
  have nonneg : 0 ≤ held ledger userId := by
    refine KeyedMap.total_nonneg fun other value isValue => ?_
    split_ifs
    · exact funded.left other value isValue
    · exact le_rfl
  unfold surplus at covered
  omega

/-- A change of one reservation that its account follows. -/
theorem spend (found : ledger.lookup id = some reservation)
    (user : changed.userId = reservation.userId)
    (margins : ∀ userId, after.orderMarginOf userId = engine.orderMarginOf userId -
      if userId = reservation.userId then reservation.left - changed.left else 0)
    (nonneg : 0 ≤ changed.left)
    (liquidation : changed.liquidation = true → changed.reserved = 0 ∧ changed.released = 0) :
    Funded after (ledger.insert id changed) ∧
      ∀ userId, surplus after (ledger.insert id changed) userId = surplus engine ledger userId := by
  have same : ∀ userId, surplus after (ledger.insert id changed) userId =
      surplus engine ledger userId := by
    intro userId
    unfold surplus held
    rw [KeyedMap.total_insert, share_of_lookup found, margins, user]
    by_cases isUser : userId = reservation.userId
    · rw [if_pos isUser, if_pos isUser.symm, if_pos isUser.symm]
      omega
    · rw [if_neg isUser, if_neg (Ne.symm isUser), if_neg (Ne.symm isUser)]
      omega
  refine ⟨⟨fun userId => ?_, ?_, ?_⟩, same⟩
  · rw [same]
    exact funded.covered userId
  · intro other value isValue
    rcases lookup_insert_eq_some.mp isValue with ⟨-, rfl⟩ | ⟨-, old⟩
    · exact nonneg
    · exact funded.left other value old
  · intro other value isValue
    rcases lookup_insert_eq_some.mp isValue with ⟨-, rfl⟩ | ⟨-, old⟩
    · exact liquidation
    · exact funded.liquidation other value old

/-- Risk calls for one order that fit into its reservation. -/
theorem chargeAll {change : Reservation → Reservation}
    (found : ledger.lookup id = some reservation) (within : reservation.WithinAll calls)
    (terms : ∀ other, (change other).terms = other.terms)
    (left : ∀ other, (change other).left = other.left)
    (released : ∀ other, (change other).released = other.released) :
    let engine' := calls.foldl (RiskCall.apply exact) engine
    let ledger' := KeyedMap.modify id (fun reservation =>
      change (calls.foldl .charge reservation)) ledger
    Funded engine' ledger' ∧
      (∀ userId, surplus engine' ledger' userId = surplus engine ledger userId) ∧
      ClampFree exact engine calls := by
  intro engine' ledger'
  obtain ⟨margins, nonneg, clampFree⟩ := Reservation.charges within
    (funded.left id reservation found) (funded.left_le found)
  have sameTerms : (change (calls.foldl .charge reservation)).terms = reservation.terms := by
    rw [terms, Reservation.terms_foldl_charge]
  simp only [Reservation.terms, Prod.mk.injEq] at sameTerms
  obtain ⟨sameUser, -, sameKind, sameMargin, -⟩ := sameTerms
  have isInsert : ledger' = ledger.insert id (change (calls.foldl .charge reservation)) := by
    simp only [ledger', KeyedMap.modify, found]
  have stillFunded := funded.spend found sameUser
    (fun userId => (margins userId).trans (by rw [left])) (by rwa [left])
    (fun isLiquidation => by
      have liquidation := sameKind.symm.trans isLiquidation
      rw [sameMargin, released, Reservation.released_foldl_charge within liquidation]
      exact funded.liquidation id reservation found liquidation)
  rw [isInsert]
  exact ⟨stillFunded.1, stillFunded.2, clampFree⟩

end

end Funded
end LightningX.Desk
