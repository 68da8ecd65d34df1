import LightningX.Risk.UsedMargin

/-!
# The zero-sum law

Every trade is meant to leave the money of the venue unchanged: the margins of
all accounts, less the cost of long positions, plus the cost of short positions,
plus the insurance fund.  `Conserves` says when a fill books exactly the value
of its lots; the two fills of a trade then cancel.
-/

namespace LightningX.Risk

open Arithmetic

def AccountRiskState.cash (account : AccountRiskState) : Int :=
  account.availableMargin + account.orderMargin + account.usedMargin

/-- The cost of a position, negative for a short one. -/
def PositionRiskState.signedCost (position : PositionRiskState) : Int :=
  match position.side with
  | .long => position.costAtoms
  | .short => -position.costAtoms

/-- A matched trade: one fill for the buyer, one for the seller. -/
structure Trade where
  buyer : UserId
  seller : UserId
  symbol : Symbol
  priceTicks : Int
  qtyLots : Int
  buyerMarginAtoms : Int
  sellerMarginAtoms : Int
  buyerLiqPriceTicks : Int
  sellerLiqPriceTicks : Int
  config : SymbolConfig
  deriving DecidableEq, Repr

namespace Trade

/-- The fill of one party. -/
def fill (trade : Trade) (userId : UserId) (orderSide : Nat)
    (marginAtoms liqPriceTicks : Int) : Fill where
  userId := userId
  symbol := trade.symbol
  orderSide := orderSide
  priceTicks := trade.priceTicks
  qtyLots := trade.qtyLots
  marginAtoms := marginAtoms
  notionalScale := trade.config.notionalScale
  leverage := trade.config.leverage
  maintenanceRateBps := trade.config.maintenanceRateBps
  liqPriceTicks := liqPriceTicks

/-- The buyer's fill. -/
def buy (trade : Trade) : Fill :=
  trade.fill trade.buyer 0 trade.buyerMarginAtoms trade.buyerLiqPriceTicks

/-- The seller's fill. -/
def sell (trade : Trade) : Fill :=
  trade.fill trade.seller 1 trade.sellerMarginAtoms trade.sellerLiqPriceTicks

end Trade

/-- The value of a fill at the price of the trade: what the other party books. -/
def Fill.tradeValue (fill : Fill) : Int :=
  calcNotionalAtoms exact fill.priceTicks fill.qtyLots fill.notionalScale

/-- What a fill books: minus the value for a buyer, plus the value for a seller. -/
def Fill.booked (fill : Fill) (value : Int) : Int :=
  match fill.side with
  | .long => -value
  | .short => value

namespace RiskEngine

/-- The money of the venue. -/
def wealth (engine : RiskEngine) : Int :=
  KeyedMap.total (fun _ account => account.cash) engine.accounts -
    KeyedMap.total (fun _ position => position.signedCost) engine.positions +
    engine.insuranceFundAtoms

/-- The account exists and has the margin of the fill in its order margin. -/
def Reserved (engine : RiskEngine) (fill : Fill) : Prop :=
  ∃ account ∈ engine.accounts.lookup fill.userId, fill.marginAtoms ≤ account.orderMargin
deriving Decidable

/-- When a fill books exactly the value of its lots. -/
@[mk_iff]
structure Conserves (engine : RiskEngine) (fill : Fill) : Prop where
  noOverflow : NoOverflow engine fill
  /-- A liquidation brings no margin and releases some of the position it
  closes. -/
  liquidation : fill.liqPriceTicks ≠ 0 →
    fill.marginAtoms = 0 ∧ 0 < (engine.positionUpdate exact fill).releasedMargin
  /-- A fill against a position releases margin that is in use, and the account is
  not being liquidated by a fill without liquidation price. -/
  closing : ∀ position ∈ engine.positions.lookup fill.key, position.side ≠ fill.side →
    ∀ account ∈ engine.accounts.lookup fill.userId,
      0 < (engine.positionUpdate exact fill).releasedMargin ∧
      (engine.positionUpdate exact fill).releasedMargin ≤ account.usedMargin ∧
      (fill.liqPriceTicks = 0 → account.status ≠ .liquidating)
  /-- A fill that turns a position round divides its margin and its value without
  remainder. -/
  flipping : ∀ position ∈ engine.positions.lookup fill.key, position.side ≠ fill.side →
    position.qtyLots < fill.qtyLots →
      (fill.marginAtoms * (fill.qtyLots - position.qtyLots)).tmod fill.qtyLots = 0 ∧
      fill.value exact position.qtyLots +
          fill.value exact (fill.qtyLots - position.qtyLots) =
        fill.value exact fill.qtyLots

instance (engine : RiskEngine) (fill : Fill) : Decidable (engine.Conserves fill) :=
  decidable_of_iff _ (conserves_iff engine fill).symm

/-- Apply a trade. -/
def trade (engine : RiskEngine) (trade : Trade) : RiskEngine :=
  (engine.onFill machine trade.buy).onFill machine trade.sell

/-- Apply a run of trades. -/
def trades (engine : RiskEngine) (trades : List Trade) : RiskEngine :=
  trades.foldl trade engine

/-- Both fills of a trade meet a condition. -/
def BothFills (meets : RiskEngine → Fill → Prop) (engine : RiskEngine) (trade : Trade) : Prop :=
  meets engine trade.buy ∧ meets (engine.onFill machine trade.buy) trade.sell

/-- Every fill of a run of trades has its margin reserved. -/
def AllReserved (engine : RiskEngine) (trades : List Trade) : Prop :=
  Along trade (BothFills Reserved) engine trades

/-- Every fill of a run of trades books the value of its lots. -/
def AllConserve (engine : RiskEngine) (trades : List Trade) : Prop :=
  Along trade (BothFills Conserves) engine trades

variable {engine : RiskEngine} {fill : Fill} {account : AccountRiskState}
  {update : PositionUpdate}

theorem cash_settleAccount (reserved : fill.marginAtoms ≤ account.orderMargin)
    (liquidation : fill.liqPriceTicks ≠ 0 → fill.marginAtoms = 0)
    (covered : 0 < update.releasedMargin → update.releasedMargin ≤ account.usedMargin)
    (unrealizedPnlDelta maintenanceMarginDelta : Int) :
    (settleAccount exact fill update unrealizedPnlDelta maintenanceMarginDelta
      account).cash = account.cash +
        if update.releasedMargin > 0 then update.realizedPnl + (flip exact fill update).2
        else 0 := by
  have orderMargin : (if fill.liqPriceTicks = 0 then
      max (account.orderMargin - fill.marginAtoms) 0 else account.orderMargin) =
        account.orderMargin - fill.marginAtoms := by
    split_ifs with ordinary
    · omega
    · omega
  unfold AccountRiskState.cash
  rw [availableMargin_settleAccount, orderMargin_settleAccount, usedMargin_settleAccount]
  split_ifs <;> omega

/-- A position that is taken off and one that is put on, as the fill that does it
books them. -/
theorem booked_value
    (updates : Updates fill existing update)
    (flipping : ∀ position ∈ existing, position.side ≠ fill.side →
      position.qtyLots < fill.qtyLots →
        (fill.marginAtoms * (fill.qtyLots - position.qtyLots)).tmod fill.qtyLots = 0 ∧
        fill.value exact position.qtyLots +
            fill.value exact (fill.qtyLots - position.qtyLots) =
          fill.value exact fill.qtyLots)
    (lots : 0 < fill.qtyLots)
    (closing : ∀ position ∈ existing, position.side ≠ fill.side → 0 < update.releasedMargin) :
    (if update.releasedMargin > 0 then update.realizedPnl + (flip exact fill update).2
      else 0) -
        ((update.position.map (·.signedCost)).getD 0 -
          (existing.map (·.signedCost)).getD 0) =
      fill.booked (fill.value exact fill.qtyLots) := by
  unfold Fill.booked
  cases updates with
  | opened side _ cost _ =>
    cases sideEq : fill.side <;>
      simp [PositionRiskState.signedCost, side, sideEq, cost]
  | increased same side _ cost _ =>
    cases sideEq : fill.side <;>
      simp [PositionRiskState.signedCost, side, same, sideEq, cost]
  | @closed before opposite qty =>
    have freed := closing before rfl opposite
    rw [flip_of_none rfl]
    cases sideEq : fill.side <;> cases beforeSide : before.side <;>
      simp_all [PositionRiskState.signedCost, realizedPnl]
  | @flipped before after opposite more side qty cost _ =>
    obtain ⟨noDust, divided⟩ := flipping before rfl opposite more
    have dust : (flip exact fill ⟨some after, before.initialMargin,
        realizedPnl exact before.side (fill.value exact before.qtyLots)
          before.costAtoms⟩).2 = 0 := by
      simp only [flip, side, if_true, qty, exact_i64, if_pos lots, noDust]
    cases sideEq : fill.side <;> cases beforeSide : before.side <;>
      simp_all [PositionRiskState.signedCost, realizedPnl]
    omega
  | @reduced before after opposite less side qty cost _ =>
    have freed := closing before rfl opposite
    rw [flip_of_ne rfl (side ▸ opposite)]
    cases sideEq : fill.side <;> cases beforeSide : before.side <;>
      simp_all [PositionRiskState.signedCost, realizedPnl]

/-- Only a fill against a position releases margin. -/
theorem opposite_of_released (updates : Updates fill existing update)
    (freed : 0 < update.releasedMargin) : ∃ position ∈ existing, position.side ≠ fill.side := by
  cases updates with
  | opened => simp at freed
  | increased => simp at freed
  | closed opposite => exact ⟨_, rfl, opposite⟩
  | flipped opposite => exact ⟨_, rfl, opposite⟩
  | reduced opposite => exact ⟨_, rfl, opposite⟩

/-- The insurance fund takes the difference between trade and settlement. -/
theorem insuranceDelta_eq (sided : fill.orderSide = 0 ∨ fill.orderSide = 1)
    (found : engine.accounts.lookup fill.userId = some account)
    (conserves : engine.Conserves fill) :
    engine.insuranceDelta exact fill (engine.positionUpdate exact fill) =
      fill.booked fill.tradeValue - fill.booked (fill.value exact fill.qtyLots) := by
  have updates := engine.updates_positionUpdate fill
  by_cases ordinary : fill.liqPriceTicks = 0
  · have sameValue : fill.value exact fill.qtyLots = fill.tradeValue := by
      simp [Fill.value, Fill.settlementPriceTicks, Fill.tradeValue, ordinary]
    rw [sameValue, Int.sub_self]
    by_cases freed : 0 < (engine.positionUpdate exact fill).releasedMargin
    · obtain ⟨position, isPosition, opposite⟩ := opposite_of_released updates freed
      have running := (conserves.closing position isPosition opposite account found).2.2 ordinary
      rw [insuranceDelta, if_pos freed, if_neg (not_not.mpr ordinary), found, if_neg]
      exact fun liquidating => running (Option.some.inj liquidating)
    · rw [insuranceDelta, if_neg freed]
  · have freed := (conserves.liquidation ordinary).2
    have settled : fill.value exact fill.qtyLots =
        calcNotionalAtoms exact fill.liqPriceTicks fill.qtyLots fill.notionalScale := by
      simp [Fill.value, Fill.settlementPriceTicks, ordinary]
    rw [insuranceDelta, if_pos freed, if_pos ordinary, settled]
    rcases sided with buy | sell
    · have side : fill.side = .long := by simp [Fill.side, buy]
      simp only [Fill.booked, side, Fill.tradeValue, exact_i64]
      omega
    · have side : fill.side = .short := by simp [Fill.side, sell]
      simp only [sell, Fill.booked, side, Fill.tradeValue, exact_i64, if_true]

/-- A fill changes the money of the venue by what it books. -/
theorem Conserves.wealth_onFill
    (conserves : engine.Conserves fill) (reserved : engine.Reserved fill)
    (sided : fill.orderSide = 0 ∨ fill.orderSide = 1) (lots : 0 < fill.qtyLots) :
    (engine.onFill machine fill).wealth = engine.wealth + fill.booked fill.tradeValue := by
  obtain ⟨account, found, enough⟩ := reserved
  have updates := engine.updates_positionUpdate fill
  have booked := booked_value updates conserves.flipping lots
    fun position isPosition opposite =>
      (conserves.closing position isPosition opposite account found).1
  have cash := cash_settleAccount enough (fun liquidation =>
      (conserves.liquidation liquidation).1) (fun freed => by
      obtain ⟨position, isPosition, opposite⟩ := opposite_of_released updates freed
      exact (conserves.closing position isPosition opposite account found).2.1)
    (engine.positionDelta exact fill (·.unrealizedPnl))
    (engine.positionDelta exact fill (·.maintenanceMargin))
  have fund := insuranceDelta_eq sided found conserves
  rw [conserves.noOverflow, wealth, accounts_onFill exact lots, positions_onFill exact lots,
    insuranceFundAtoms_onFill exact lots, KeyedMap.total_modify _ found,
    total_storePosition, wealth]
  unfold KeyedMap.share
  simp only [exact_i64]
  omega

/-- A trade whose fills book their value leaves the money of the venue as it is. -/
theorem wealth_trade {trade : Trade} (reserved : engine.BothFills Reserved trade)
    (conserves : engine.BothFills Conserves trade) :
    (engine.trade trade).wealth = engine.wealth := by
  rcases Int.lt_or_le 0 trade.qtyLots with lots | none
  · rw [RiskEngine.trade, conserves.2.wealth_onFill reserved.2 (Or.inr rfl) lots,
      conserves.1.wealth_onFill reserved.1 (Or.inl rfl) lots]
    exact Int.neg_add_cancel_right _ _
  · rw [RiskEngine.trade, onFill_of_nonpos machine (show trade.sell.qtyLots ≤ 0 from none),
      onFill_of_nonpos machine (show trade.buy.qtyLots ≤ 0 from none)]

/-- Every run of trades whose fills book their value leaves the money of the
venue as it is. -/
theorem wealth_trades {trades : List Trade} (reserved : engine.AllReserved trades)
    (conserve : engine.AllConserve trades) : (engine.trades trades).wealth = engine.wealth := by
  induction trades generalizing engine with
  | nil => rfl
  | cons trade trades ih =>
    exact (ih reserved.2 conserve.2).trans (wealth_trade reserved.1 conserve.1)

/-- Two funded accounts with reserved margin. -/
def twoTraders : RiskEngine :=
  (((initialized [(1, 1000), (2, 1000)]).checkAndReserveMargin machine 1 500).1
    |>.checkAndReserveMargin machine 2 500).1

/-- Four lots are traded and two of them are traded back. -/
theorem wealth_trades_halved :
    (twoTraders.trades
      [⟨1, 2, 7, 100, 4, 40, 40, 0, 0, ⟨1000000, 10, 50⟩⟩,
        ⟨2, 1, 7, 110, 2, 22, 22, 0, 0, ⟨1000000, 10, 50⟩⟩]).wealth = twoTraders.wealth :=
  wealth_trades
    ⟨⟨by decide, by decide⟩, ⟨by decide, by decide⟩, trivial⟩
    ⟨⟨⟨rfl, by decide, by decide, by decide⟩, rfl, by decide, by decide, by decide⟩,
      ⟨⟨rfl, by decide, by decide, by decide⟩, rfl, by decide, by decide, by decide⟩, trivial⟩

/-- One lot is bought at 100, three are sold at 104.  Both parties turn their
position round; the remainder of dividing their margin by three is credited to
both, and four atoms appear. -/
theorem wealth_flip_ne :
    twoTraders.AllReserved
        [⟨1, 2, 7, 100, 1, 10, 10, 0, 0, ⟨1000000, 10, 50⟩⟩,
          ⟨2, 1, 7, 104, 3, 31, 31, 0, 0, ⟨1000000, 10, 50⟩⟩] ∧
      (twoTraders.trades
        [⟨1, 2, 7, 100, 1, 10, 10, 0, 0, ⟨1000000, 10, 50⟩⟩,
          ⟨2, 1, 7, 104, 3, 31, 31, 0, 0, ⟨1000000, 10, 50⟩⟩]).wealth =
        twoTraders.wealth + 4 :=
  ⟨⟨⟨by decide, by decide⟩, ⟨by decide, by decide⟩, trivial⟩, by decide⟩

end RiskEngine
end LightningX.Risk
