import LightningX.Risk.Limits
import LightningX.Risk.UsedMargin

/-!
# Order margin

How the operations of the risk engine change the margin that accounts hold for
their open orders.
-/

namespace LightningX.Risk

open Arithmetic

namespace RiskEngine

/-- The order margin of a user; a missing account holds none. -/
def orderMarginOf (engine : RiskEngine) (userId : UserId) : Int :=
  ((engine.accounts.lookup userId).map (·.orderMargin)).getD 0

/-- Every account holds the same order margin. -/
def SameOrderMargins (before after : RiskEngine) : Prop :=
  ∀ userId, after.orderMarginOf userId = before.orderMarginOf userId

variable {engine after : RiskEngine} {userId : UserId} {amount : Int} {fill : Fill}

theorem orderMarginOf_of_lookup (found : engine.accounts.lookup userId = some account) :
    engine.orderMarginOf userId = account.orderMargin := by
  simp [orderMarginOf, found]

theorem SameOrderMargins.refl (engine : RiskEngine) : engine.SameOrderMargins engine :=
  fun _ => rfl

theorem SameOrderMargins.of_eq (same : after = engine) : engine.SameOrderMargins after :=
  same ▸ .refl engine

theorem SameOrderMargins.trans (first : engine.SameOrderMargins middle)
    (second : middle.SameOrderMargins after) : engine.SameOrderMargins after :=
  fun userId => (second userId).trans (first userId)

section

variable {change : AccountRiskState → AccountRiskState}
  (accounts : after.accounts = KeyedMap.modify userId change engine.accounts)
include accounts

/-- One account is changed. -/
theorem orderMarginOf_of_modify (other : UserId) :
    after.orderMarginOf other =
      if other = userId then
        ((engine.accounts.lookup userId).map fun account => (change account).orderMargin).getD 0
      else engine.orderMarginOf other := by
  rw [orderMarginOf, accounts, KeyedMap.lookup_modify]
  split_ifs with same
  · rw [same, Option.map_map]
    rfl
  · rfl

theorem sameOrderMargins_of_modify
    (keeps : ∀ account, (change account).orderMargin = account.orderMargin) :
    engine.SameOrderMargins after := by
  intro other
  rw [orderMarginOf_of_modify accounts]
  split_ifs with same
  · simp only [keeps, same]
    rfl
  · rfl

/-- Taking an amount that the account holds from its order margin. -/
theorem orderMarginOf_of_take
    (takes : ∀ account, engine.accounts.lookup userId = some account →
      (change account).orderMargin = account.orderMargin - amount)
    (nonneg : 0 ≤ amount) (held : amount ≤ engine.orderMarginOf userId) (other : UserId) :
    after.orderMarginOf other =
      engine.orderMarginOf other - if other = userId then amount else 0 := by
  rw [orderMarginOf_of_modify accounts]
  split_ifs with same
  · subst same
    cases found : engine.accounts.lookup other with
    | none =>
      simp only [orderMarginOf, found, Option.map_none, Option.getD_none] at held ⊢
      omega
    | some account =>
      rw [orderMarginOf_of_lookup found]
      exact takes account found
  · omega

end

theorem orderMarginOf_releaseOrderMargin
    (nonneg : 0 ≤ amount) (held : amount ≤ engine.orderMarginOf userId) (other : UserId) :
    (engine.releaseOrderMargin exact userId amount).orderMarginOf other =
      engine.orderMarginOf other - if other = userId then amount else 0 :=
  orderMarginOf_of_take rfl (fun _ _ => rfl) nonneg held other

theorem orderMarginOf_onFill
    (ordinary : fill.liqPriceTicks = 0) (lots : 0 < fill.qtyLots) (nonneg : 0 ≤ fill.marginAtoms)
    (held : fill.marginAtoms ≤ engine.orderMarginOf fill.userId) (other : UserId) :
    (engine.onFill exact fill).orderMarginOf other =
      engine.orderMarginOf other - if other = fill.userId then fill.marginAtoms else 0 := by
  refine orderMarginOf_of_take (accounts_onFill exact lots) ?_ nonneg held other
  intro account found
  rw [orderMarginOf_of_lookup found] at held
  rw [orderMargin_settleAccount]
  omega

/-- A liquidation fill moves none. -/
theorem sameOrderMargins_onFill (liquidation : fill.liqPriceTicks ≠ 0) :
    engine.SameOrderMargins (engine.onFill exact fill) := by
  rcases Int.lt_or_le 0 fill.qtyLots with lots | none
  · refine sameOrderMargins_of_modify (accounts_onFill exact lots) fun account => ?_
    rw [orderMargin_settleAccount, if_neg liquidation]
  · rw [onFill_of_nonpos exact none]
    exact .refl engine

variable (arith : Arithmetic)

theorem sameOrderMargins_chargeFee (userId : UserId) (fee : Int) :
    engine.SameOrderMargins (engine.chargeFee arith userId fee) := by
  unfold chargeFee
  split_ifs
  · exact .refl engine
  · exact sameOrderMargins_of_modify rfl fun _ => rfl

theorem sameOrderMargins_setAccountStatus (userId : UserId) (status : RiskStatus) :
    engine.SameOrderMargins (engine.setAccountStatus userId status) :=
  sameOrderMargins_of_modify rfl fun _ => rfl

theorem sameOrderMargins_setAccountStatusIf (userId : UserId) (expected status : RiskStatus) :
    engine.SameOrderMargins (engine.setAccountStatusIf userId expected status) := by
  refine sameOrderMargins_of_modify rfl fun account => ?_
  split_ifs <;> rfl

/-- A new account holds no order margin. -/
theorem sameOrderMargins_initializeAccount
    (missing : engine.accounts.lookup userId = none) (usdtBalanceAtoms : Int) :
    engine.SameOrderMargins (engine.initializeAccount userId usdtBalanceAtoms) := by
  intro other
  unfold orderMarginOf initializeAccount
  by_cases same : other = userId
  · subst same
    simp [missing, AccountRiskState.new]
  · simp [AList.lookup_insert_ne same]

/-- New accounts hold no order margin. -/
theorem orderMarginOf_initialized (balances : List (UserId × Int)) (userId : UserId) :
    (initialized balances).orderMarginOf userId = 0 := by
  have started : ∀ engine : RiskEngine, engine.orderMarginOf userId = 0 →
      (balances.foldl (fun engine balance => engine.initializeAccount balance.1 balance.2)
        engine).orderMarginOf userId = 0 := by
    intro engine none
    induction balances generalizing engine with
    | nil => exact none
    | cons balance balances ih =>
      apply ih
      unfold orderMarginOf initializeAccount at *
      by_cases same : userId = balance.1
      · rw [same, AList.lookup_insert]
        rfl
      · simpa [AList.lookup_insert_ne same] using none
  exact started new rfl

theorem sameOrderMargins_markHolder
    (symbol : Symbol) (markTicks notionalScale : Int) (userId : UserId) :
    engine.SameOrderMargins (engine.markHolder arith symbol markTicks notionalScale userId) := by
  unfold markHolder
  cases engine.positions.lookup (userId, symbol) with
  | none => exact .refl engine
  | some position => exact sameOrderMargins_of_modify rfl fun _ => rfl

theorem sameOrderMargins_updateMarkPrice (symbol : Symbol)
    (newPriceTicks notionalScale : Int) (order : List UserId) :
    engine.SameOrderMargins
      (engine.updateMarkPrice arith symbol newPriceTicks notionalScale order) :=
  updateMarkPrice_induct (fun _ same => same)
    (fun markTicks userId same => same.trans
      (sameOrderMargins_markHolder arith symbol markTicks notionalScale userId)) (.refl engine)

theorem sameOrderMargins_socialize (userId : UserId) :
    engine.SameOrderMargins (engine.socialize arith userId) := by
  unfold socialize
  cases found : engine.accounts.lookup userId with
  | none => exact .refl engine
  | some account =>
    intro other
    by_cases same : other = userId
    · subst same
      simp [orderMarginOf, found]
    · simp [orderMarginOf, AList.lookup_insert_ne same]

/-- The fills of a deleveraging bring no margin. -/
theorem sameOrderMargins_adlFills {fills : List Fill}
    (nonneg : ∀ userId, 0 ≤ engine.orderMarginOf userId)
    (noMargin : ∀ fill ∈ fills, fill.marginAtoms = 0) :
    engine.SameOrderMargins (fills.foldl (onFill exact) engine) := by
  induction fills generalizing engine with
  | nil => exact .refl engine
  | cons fill fills ih =>
    have none : fill.marginAtoms = 0 := noMargin fill (by simp)
    have first : engine.SameOrderMargins (engine.onFill exact fill) := by
      by_cases ordinary : fill.liqPriceTicks = 0
      · rcases Int.lt_or_le 0 fill.qtyLots with lots | noLots
        · intro other
          rw [orderMarginOf_onFill ordinary lots none.ge (none ▸ nonneg _), none]
          simp
        · rw [onFill_of_nonpos exact noLots]
          exact .refl engine
      · exact sameOrderMargins_onFill ordinary
    refine first.trans (ih ?_ fun other mem => noMargin other (by simp [mem]))
    intro userId
    rw [first userId]
    exact nonneg userId

theorem marginAtoms_of_mem_adlFillsOf
    (mem : fill ∈ engine.adlFillsOf symbol config order bankrupt) :
    fill.marginAtoms = 0 := by
  obtain ⟨pair, -, isFill⟩ := List.mem_flatMap.mp mem
  simp only [adlFills, List.mem_cons, List.not_mem_nil, or_false] at isFill
  rcases isFill with rfl | rfl <;> rfl

theorem sameOrderMargins_runAdl (nonneg : ∀ userId, 0 ≤ engine.orderMarginOf userId)
    (symbol : Symbol) (config : SymbolConfig) (order : List UserId) :
    engine.SameOrderMargins (engine.runAdl exact symbol config order).1 := by
  have loop : ∀ (bankrupts : List Bankrupt) (engine : RiskEngine),
      (∀ userId, 0 ≤ engine.orderMarginOf userId) →
      engine.SameOrderMargins (adlLoop exact symbol config order engine bankrupts).1 := by
    intro bankrupts
    induction bankrupts with
    | nil => exact fun engine _ => .refl engine
    | cons bankrupt rest ih =>
      intro engine nonneg
      have first : engine.SameOrderMargins (engine.deleverage exact symbol config order bankrupt) :=
        (sameOrderMargins_adlFills nonneg fun _ => marginAtoms_of_mem_adlFillsOf).trans
          (sameOrderMargins_socialize exact _)
      refine first.trans (ih _ fun userId => ?_)
      rw [first userId]
      exact nonneg userId
  exact loop _ engine nonneg

/-- A refused reservation changes nothing. -/
theorem checkAndReserveMargin_of_error {arith : Arithmetic}
    (refused : (engine.checkAndReserveMargin arith userId amount).2 = .error reason) :
    (engine.checkAndReserveMargin arith userId amount).1 = engine := by
  unfold checkAndReserveMargin at refused ⊢
  cases found : engine.accounts.lookup userId with
  | none => rfl
  | some account =>
    simp only [found] at refused ⊢
    split_ifs at refused ⊢ <;> rfl

section

variable (granted : (engine.checkAndReserveMargin exact userId amount).2 = .ok reserved)
include granted

/-- A successful reservation adds to the order margin. -/
theorem orderMarginOf_checkAndReserveMargin (other : UserId) :
    (engine.checkAndReserveMargin exact userId amount).1.orderMarginOf other =
      engine.orderMarginOf other + if other = userId then amount else 0 := by
  unfold checkAndReserveMargin at granted ⊢
  cases found : engine.accounts.lookup userId with
  | none => simp [found] at granted
  | some account =>
    simp only [found] at granted ⊢
    split_ifs at granted ⊢ with _ _ same <;> try simp at granted
    · subst same
      simp [orderMarginOf, found]
    · simp [orderMarginOf, AList.lookup_insert_ne same]

/-- Releasing what was just reserved undoes the reservation. -/
theorem sameOrderMargins_undo :
    engine.SameOrderMargins
      ((engine.checkAndReserveMargin exact userId amount).1.releaseOrderMargin exact userId
        amount) := by
  intro other
  unfold checkAndReserveMargin at granted ⊢
  cases found : engine.accounts.lookup userId with
  | none => simp [found] at granted
  | some account =>
    simp only [found] at granted ⊢
    split_ifs at granted ⊢
    rw [orderMarginOf_of_modify rfl]
    split_ifs with same
    · subst same
      simp [orderMarginOf, found]
    · simp [orderMarginOf, AList.lookup_insert_ne same]

end

end RiskEngine
end LightningX.Risk
