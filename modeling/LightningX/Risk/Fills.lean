import LightningX.Lib.Along
import LightningX.Risk.Engine

/-!
# What a fill does

A fill opens a position, adds to it, closes it, turns it round or reduces it.
`Updates` lists these cases with the fields that carry money; the invariants of
the risk engine are derived from it.  Everything here is about exact
arithmetic, and `NoOverflow` says of a fill that the machine computes the same.
-/

namespace LightningX.Risk

open Arithmetic KeyedMap

/-- The machine computes what is meant. -/
def NoOverflow (engine : RiskEngine) (fill : Fill) : Prop :=
  engine.onFill machine fill = engine.onFill exact fill
deriving Decidable

/-- What a fill can do to a position. -/
inductive Updates (fill : Fill) : Option PositionRiskState → PositionUpdate → Prop
  | opened {after : PositionRiskState}
      (side : after.side = fill.side)
      (qty : after.qtyLots = fill.qtyLots)
      (cost : after.costAtoms = fill.value exact fill.qtyLots)
      (margin : after.initialMargin = fill.marginAtoms) :
      Updates fill none { position := some after, releasedMargin := 0, realizedPnl := 0 }
  | increased {before after : PositionRiskState}
      (same : before.side = fill.side)
      (side : after.side = before.side)
      (qty : after.qtyLots = before.qtyLots + fill.qtyLots)
      (cost : after.costAtoms = before.costAtoms + fill.value exact fill.qtyLots)
      (margin : after.initialMargin = before.initialMargin + fill.marginAtoms) :
      Updates fill (some before) { position := some after, releasedMargin := 0, realizedPnl := 0 }
  | closed {before : PositionRiskState}
      (opposite : before.side ≠ fill.side)
      (qty : fill.qtyLots = before.qtyLots) :
      Updates fill (some before)
        { position := none
          releasedMargin := before.initialMargin
          realizedPnl := realizedPnl exact before.side (fill.value exact before.qtyLots)
            before.costAtoms }
  | flipped {before after : PositionRiskState}
      (opposite : before.side ≠ fill.side)
      (more : before.qtyLots < fill.qtyLots)
      (side : after.side = fill.side)
      (qty : after.qtyLots = fill.qtyLots - before.qtyLots)
      (cost : after.costAtoms = fill.value exact (fill.qtyLots - before.qtyLots))
      (margin : after.initialMargin =
        (fill.marginAtoms * (fill.qtyLots - before.qtyLots)).tdiv fill.qtyLots) :
      Updates fill (some before)
        { position := some after
          releasedMargin := before.initialMargin
          realizedPnl := realizedPnl exact before.side (fill.value exact before.qtyLots)
            before.costAtoms }
  | reduced {before after : PositionRiskState}
      (opposite : before.side ≠ fill.side)
      (less : fill.qtyLots < before.qtyLots)
      (side : after.side = before.side)
      (qty : after.qtyLots = before.qtyLots - fill.qtyLots)
      (cost : after.costAtoms = before.costAtoms -
        (before.costAtoms * fill.qtyLots).tdiv before.qtyLots)
      (margin : after.initialMargin = before.initialMargin -
        (before.initialMargin * fill.qtyLots).tdiv before.qtyLots) :
      Updates fill (some before)
        { position := some after
          releasedMargin := (before.initialMargin * fill.qtyLots).tdiv before.qtyLots
          realizedPnl := realizedPnl exact before.side (fill.value exact fill.qtyLots)
            ((before.costAtoms * fill.qtyLots).tdiv before.qtyLots) }

theorem updates_computePositionUpdate (existing : Option PositionRiskState) (fill : Fill) :
    Updates fill existing (computePositionUpdate exact existing fill) := by
  cases existing with
  | none => exact .opened rfl rfl rfl rfl
  | some before =>
    rw [computePositionUpdate]
    split_ifs with same enough
    · exact .increased same rfl rfl rfl rfl
    · rcases Int.lt_or_eq_of_le enough with more | equal
      · have remaining : exact.i64 (fill.qtyLots - before.qtyLots) ≠ 0 :=
          (Int.sub_pos_of_lt more).ne'
        simp only [closePosition, if_neg remaining]
        exact .flipped same more rfl rfl rfl rfl
      · have nothing : exact.i64 (fill.qtyLots - before.qtyLots) = 0 :=
          Int.sub_eq_zero_of_eq equal.symm
        simp only [closePosition, if_pos nothing]
        exact .closed same equal.symm
    · exact .reduced same (by omega) rfl rfl rfl rfl

namespace RiskEngine

variable {engine : RiskEngine} {fill : Fill}

theorem updates_positionUpdate (engine : RiskEngine) (fill : Fill) :
    Updates fill (engine.positions.lookup fill.key) (engine.positionUpdate exact fill) :=
  updates_computePositionUpdate _ _

variable (arith : Arithmetic)

theorem onFill_of_nonpos (none : fill.qtyLots ≤ 0) : engine.onFill arith fill = engine :=
  if_pos none

theorem accounts_onFill (lots : 0 < fill.qtyLots) :
    (engine.onFill arith fill).accounts = modify fill.userId
      (settleAccount arith fill (engine.positionUpdate arith fill)
        (engine.positionDelta arith fill (·.unrealizedPnl))
        (engine.positionDelta arith fill (·.maintenanceMargin))) engine.accounts := by
  rw [onFill, if_neg (by omega)]

theorem positions_onFill (lots : 0 < fill.qtyLots) :
    (engine.onFill arith fill).positions = storePosition engine.positions fill.key
      (engine.positionUpdate arith fill).position := by
  rw [onFill, if_neg (by omega)]

theorem insuranceFundAtoms_onFill (lots : 0 < fill.qtyLots) :
    (engine.onFill arith fill).insuranceFundAtoms = arith.i64 (engine.insuranceFundAtoms +
      engine.insuranceDelta arith fill (engine.positionUpdate arith fill)) := by
  rw [onFill, if_neg (by omega)]

theorem total_storePosition (measure : UserId × Symbol → PositionRiskState → Int)
    (positions : KeyedMap (UserId × Symbol) PositionRiskState) (key : UserId × Symbol)
    (position : Option PositionRiskState) :
    total measure (storePosition positions key position) =
      total measure positions - share measure key positions +
        (position.map (measure key)).getD 0 := by
  cases position with
  | some position => exact total_insert measure key position positions
  | none =>
    rw [storePosition, total_erase]
    exact (Int.add_zero _).symm

theorem lookup_storePosition (positions : KeyedMap (UserId × Symbol) PositionRiskState)
    (key other : UserId × Symbol) (position : Option PositionRiskState) :
    (storePosition positions key position).lookup other =
      if other = key then position else positions.lookup other := by
  cases position with
  | some position =>
    split_ifs with same
    · rw [same]
      exact AList.lookup_insert positions
    · exact AList.lookup_insert_ne same
  | none =>
    split_ifs with same
    · rw [same]
      exact AList.lookup_erase key positions
    · exact AList.lookup_erase_ne same

/-- What new mark prices and the marking of each holder keep. -/
theorem updateMarkPrice_induct {arith : Arithmetic} {holds : RiskEngine → Prop}
    (prices : ∀ {engine : RiskEngine} (markPrices : KeyedMap Symbol Int), holds engine →
      holds { engine with markPrices := markPrices })
    (mark : ∀ {engine : RiskEngine} (markTicks : Int) (userId : UserId), holds engine →
      holds (engine.markHolder arith symbol markTicks notionalScale userId))
    (start : holds engine) :
    holds (engine.updateMarkPrice arith symbol newPriceTicks notionalScale order) := by
  unfold updateMarkPrice
  split_ifs
  · exact start
  · exact List.foldlRecOn order _ (prices _ start) fun _ held userId _ => mark _ userId held

section

variable {account : AccountRiskState} {update : PositionUpdate}
  (unrealizedPnlDelta maintenanceMarginDelta : Int)

theorem usedMargin_settleAccount :
    (settleAccount exact fill update unrealizedPnlDelta maintenanceMarginDelta
      account).usedMargin =
      if update.releasedMargin > 0 then
        max (account.usedMargin - update.releasedMargin) 0 + (flip exact fill update).1
      else account.usedMargin + fill.marginAtoms := by
  simp only [settleAccount, settleMargins]
  split_ifs <;> rfl

theorem availableMargin_settleAccount :
    (settleAccount exact fill update unrealizedPnlDelta maintenanceMarginDelta
      account).availableMargin =
      if update.releasedMargin > 0 then
        account.availableMargin + fill.marginAtoms + update.releasedMargin +
          update.realizedPnl - (flip exact fill update).1 + (flip exact fill update).2
      else account.availableMargin := by
  simp only [settleAccount, settleMargins]
  split_ifs <;> rfl

theorem orderMargin_settleAccount :
    (settleAccount exact fill update unrealizedPnlDelta maintenanceMarginDelta
      account).orderMargin =
      if fill.liqPriceTicks = 0 then max (account.orderMargin - fill.marginAtoms) 0
      else account.orderMargin := by
  simp only [settleAccount, settleMargins]
  split_ifs <;> rfl

theorem flip_of_side (position : update.position = some after) (side : after.side = fill.side) :
    (flip exact fill update).1 = after.initialMargin := by
  simp [flip, position, side]

theorem flip_of_ne (position : update.position = some after) (side : after.side ≠ fill.side) :
    flip exact fill update = (0, 0) := by
  simp [flip, position, side]

theorem flip_of_none (position : update.position = none) : flip exact fill update = (0, 0) := by
  simp [flip, position]

end

end RiskEngine
end LightningX.Risk
