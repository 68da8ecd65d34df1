import LightningX.Desk.Margins
import LightningX.Desk.RiskTick
import LightningX.Lib.Earmarks

/-!
# Liquidation orders in flight

The risk tick, the loop that sends liquidation orders, the answers of the exchange to them,
deleveraging and the other fills, in any order.  Each liquidation that waits to be sent or to
be answered is an earmark on the lots of a position.  The earmarks stay backed as long as no
tick starts a second liquidation of a user while the first is in flight, and other fills
leave the lots that are earmarked.
-/

namespace LightningX.Desk

open Matching (Side)
open Risk Transport Arithmetic Earmarks RiskEngine

/-- A desk, the liquidations that its tick task has still to send, and the liquidation orders
that the exchange has not answered.  A liquidation order is immediate, so that there is one
answer. -/
structure Liquidator where
  desk : State
  emitted : List Liquidation
  inFlight : List Submission

/-- What happens around liquidations. -/
inductive LiquidatorEvent
  | markPrice (symbol : Symbol) (newPriceTicks : Int) (order : List UserId)
  | tick (order : List (UserId × Symbol))
  | submit (trusted : Bool)
  | send
  | answer (order : Submission) (update : OrderUpdateMsg)
  | other (call : RiskCall)
  | reserve (userId : UserId) (margin : Int)
  | adl (symbol : Symbol) (order : List UserId)

/-- What the receive thread asks of the risk engine for the answer to a liquidation order. -/
def answerCalls (config : Config) (order : Submission) (update : OrderUpdateMsg) :
    List RiskCall :=
  closingCalls update (some order.details) (some order.details.live) ++
    takerCalls machine config update (some order.details.live)

namespace Liquidator

variable (config : Config)

/-- The tick task goes on with the next liquidation.  Without an index source, or with a
stale mark, nothing is sent. -/
def submit (liquidator : Liquidator) (trusted : Bool) : Liquidator :=
  match liquidator.emitted with
  | [] => liquidator
  | event :: rest =>
    if trusted then
      let (desk, reply) := liquidator.desk.liquidate machine config event
      { desk := desk, emitted := rest, inFlight := reply.orders ++ liquidator.inFlight }
    else { liquidator with emitted := rest }

def step (liquidator : Liquidator) : LiquidatorEvent → Liquidator
  | .markPrice symbol newPriceTicks order =>
    { liquidator with
      desk := { liquidator.desk with
        risk := liquidator.desk.risk.updateMarkPrice machine symbol newPriceTicks
          (config.rules symbol).notionalScale order } }
  | .tick order =>
    let (risk, events) := liquidator.desk.risk.runRiskTick machine order
    { liquidator with desk := { liquidator.desk with risk := risk }, emitted := events }
  | .submit trusted => liquidator.submit config trusted
  | .send => { liquidator with desk := (liquidator.desk.send config).1 }
  | .answer order update =>
    { liquidator with
      desk := { liquidator.desk with
        risk := (answerCalls config order update).foldl (RiskCall.apply machine)
          liquidator.desk.risk }
      inFlight := liquidator.inFlight.erase order }
  | .other call =>
    { liquidator with
      desk := { liquidator.desk with risk := call.apply machine liquidator.desk.risk } }
  | .reserve userId margin =>
    { liquidator with
      desk := { liquidator.desk with
        risk := (liquidator.desk.risk.checkAndReserveMargin machine userId margin).1 } }
  | .adl symbol order =>
    { liquidator with
      desk := { liquidator.desk with
        risk := (liquidator.desk.risk.runAdl machine symbol
          (config.rules symbol).symbolConfig order).1 } }

/-- The event can happen: the tick task sends all liquidations of a tick before the next and
visits each position once; the exchange answers an order in flight and fills no more than
its lots; other orders are no liquidations. -/
def Occurs (liquidator : Liquidator) : LiquidatorEvent → Prop
  | .tick order => liquidator.emitted = [] ∧ order.Perm liquidator.desk.risk.positions.keys
  | .answer order update =>
    order ∈ liquidator.inFlight ∧ update.kind ≠ .accepted ∧
      (reportsFill update = true → 0 < update.fillQty ∧ update.fillQty ≤ order.sent.quantityLots)
  | .other (.fill report) => report.liqPriceTicks = 0
  | .other (.rearm _) => False
  | _ => True

instance (liquidator : Liquidator) :
    (event : LiquidatorEvent) → Decidable (liquidator.Occurs event)
  | .tick _ => inferInstanceAs (Decidable (_ ∧ _))
  | .answer _ _ => inferInstanceAs (Decidable (_ ∧ _))
  | .other (.fill _) => inferInstanceAs (Decidable (_ = _))
  | .other (.rearm _) => isFalse id
  | .other (.release _ _) | .other (.fee _ _) | .markPrice _ _ _ | .submit _ | .send
  | .reserve _ _ | .adl _ _ => isTrue trivial

end Liquidator

/-- The lots that a liquidation will close. -/
def Liquidation.mark (event : Liquidation) : ((UserId × Symbol) × Side) × Int :=
  (((event.userId, event.symbol), State.closingSide event.side), event.qtyLots)

/-- The lots that an order closes. -/
def Submission.mark (order : Submission) : ((UserId × Symbol) × Side) × Int :=
  (((order.sent.participantId, order.sent.symbol), order.sent.side), order.sent.quantityLots)

/-- A fill leaves the lots that are earmarked, or nothing is. -/
def Spares (marks : List (((UserId × Symbol) × Side) × Int)) (engine : RiskEngine)
    (fill : Fill) : Prop :=
  fill.Fits (engine.holding fill.key) ∧
    (sum (fill.key, fill.bookSide) marks = 0 ∨
      sum (fill.key, fill.bookSide) marks + fill.qtyLots ≤
        engine.closable (fill.key, fill.bookSide))
deriving Decidable

/-- So does each fill of a list. -/
def AllSpare (marks : List (((UserId × Symbol) × Side) × Int)) (engine : RiskEngine)
    (fills : List Fill) : Prop :=
  Along (RiskEngine.onFill machine) (Spares marks) engine fills
deriving Decidable

/-- So does each fill of the deleveraging of some holders. -/
def AdlSpares (marks : List (((UserId × Symbol) × Side) × Int)) (symbol : Symbol)
    (config : SymbolConfig) (order : List UserId) (engine : RiskEngine)
    (bankrupts : List Bankrupt) : Prop :=
  Along (fun engine bankrupt => engine.deleverage machine symbol config order bankrupt)
    (fun engine bankrupt =>
      AllSpare marks engine (engine.adlFillsOf symbol config order bankrupt)) engine bankrupts
deriving Decidable

namespace Liquidator

/-- The lots that liquidations will close, whether sent or not. -/
def marks (liquidator : Liquidator) : List (((UserId × Symbol) × Side) × Int) :=
  liquidator.emitted.map (·.mark) ++ liquidator.inFlight.map (·.mark)

variable (config : Config)

/-- No user with a liquidation order in flight enters `LiquidationPending` again, and fills
of other orders leave the lots that are to be closed. -/
def Careful (liquidator : Liquidator) : LiquidatorEvent → Prop
  | .tick _ =>
    ∀ order ∈ liquidator.inFlight,
      liquidator.desk.risk.entersPending machine order.sent.participantId = false
  | .other (.fill report) => Spares liquidator.marks liquidator.desk.risk report
  | .adl symbol order =>
    AdlSpares liquidator.marks symbol (config.rules symbol).symbolConfig order
      liquidator.desk.risk (liquidator.desk.risk.bankrupts symbol order)
  | _ => True

instance (liquidator : Liquidator) :
    (event : LiquidatorEvent) → Decidable (liquidator.Careful config event)
  | .tick _ => inferInstanceAs (Decidable (∀ order ∈ _, _))
  | .other (.fill _) => inferInstanceAs (Decidable (Spares _ _ _))
  | .adl _ _ => inferInstanceAs (Decidable (AdlSpares _ _ _ _ _ _))
  | .other (.release _ _) | .other (.fee _ _) | .other (.rearm _) | .markPrice _ _ _
  | .submit _ | .send | .answer _ _ | .reserve _ _ => isTrue trivial

/-- Every event of a run can happen. -/
def RunOccurs (liquidator : Liquidator) (events : List LiquidatorEvent) : Prop :=
  Along (Liquidator.step config) Occurs liquidator events
deriving Decidable

def RunCareful (liquidator : Liquidator) (events : List LiquidatorEvent) : Prop :=
  Along (Liquidator.step config) (Careful config) liquidator events
deriving Decidable

/-- The lots of the liquidation orders in flight. -/
def lotsInFlight (liquidator : Liquidator) (key : UserId × Symbol) : Int :=
  ((liquidator.inFlight.filter fun order =>
    (order.sent.participantId, order.sent.symbol) = key).map (·.sent.quantityLots)).sum

def positionLots (liquidator : Liquidator) (key : UserId × Symbol) : Int :=
  ((liquidator.desk.risk.positions.lookup key).map (·.qtyLots)).getD 0

end Liquidator

/-! ## Fills -/

section

variable {marks : List (((UserId × Symbol) × Side) × Int)}

/-- The lots of all positions are positive, and those that liquidations will close are
there. -/
structure Holds (marks : List (((UserId × Symbol) × Side) × Int)) (engine : RiskEngine) :
    Prop where
  positive : engine.AllPositive
  backed : Earmarks.Backed engine.closable marks

section

variable (holds : Holds marks engine)
include holds

theorem Holds.of_sameHoldings (same : engine.SameHoldings after) :
    Holds marks after where
  positive := holds.positive.of_sameHoldings same
  backed := holds.backed.mono fun key => (RiskEngine.closable_of_sameHoldings same key).ge

theorem Holds.onFill (spares : Spares marks engine fill) :
    Holds marks (engine.onFill machine fill) := by
  by_cases lots : 0 < fill.qtyLots
  · obtain ⟨positive, leaves⟩ := closable_onFill holds.positive lots spares.1
    exact ⟨positive, holds.backed.withdraw (closable_nonneg positive) leaves spares.2⟩
  · rw [RiskEngine.onFill_of_nonpos machine (by omega)]
    exact holds

theorem Holds.foldl_onFill (spare : AllSpare marks engine fills) :
    Holds marks (fills.foldl (RiskEngine.onFill machine) engine) :=
  spare.foldl (fun holds spares => holds.onFill spares) holds

theorem Holds.adlLoop {bankrupts : List Bankrupt}
    (spare : AdlSpares marks symbol config order engine bankrupts) :
    Holds marks (RiskEngine.adlLoop machine symbol config order engine bankrupts).1 := by
  induction bankrupts generalizing engine with
  | nil => exact holds
  | cons bankrupt rest ih =>
    have deleveraged := (holds.foldl_onFill spare.1).of_sameHoldings
      (RiskEngine.sameHoldings_socialize machine bankrupt.userId)
    exact ih deleveraged spare.2

end

end

/-- A call that reports no fill leaves the lots alone. -/
theorem RiskCall.sameHoldings_apply {call : RiskCall} (noFill : ∀ report, call ≠ .fill report)
    (engine : RiskEngine) : engine.SameHoldings (call.apply machine engine) := by
  cases call with
  | release userId amount => exact fun _ => rfl
  | rearm userId => exact fun _ => rfl
  | fill report => exact absurd rfl (noFill report)
  | fee userId amount => exact sameHoldings_chargeFee machine userId amount

theorem sameHoldings_foldl_apply {calls : List RiskCall}
    (noFill : ∀ call ∈ calls, ∀ report, call ≠ .fill report) (engine : RiskEngine) :
    engine.SameHoldings (calls.foldl (RiskCall.apply machine) engine) := by
  induction calls generalizing engine with
  | nil => exact fun _ => rfl
  | cons call calls ih =>
    have rest := ih
      (fun other mem => noFill other (List.mem_cons_of_mem _ mem)) (call.apply machine engine)
    intro key
    rw [List.foldl_cons, rest key]
    exact RiskCall.sameHoldings_apply (noFill call List.mem_cons_self) engine key

/-! ## Liquidation orders -/

/-- The metadata of a liquidation order fits the order. -/
structure Submission.Liquidates (order : Submission) : Prop where
  userId : order.details.userId = order.sent.participantId
  symbol : order.details.symbol = order.sent.symbol
  side : order.details.side = order.sent.side
  priced : order.details.liqPriceTicks ≠ 0

/-- A tranche is a part of the position or the whole of it. -/
theorem liquidationTrancheLots_bounds
    (positive : 0 < lots) (inRange : InI64 lots) (nonneg : 0 ≤ bps) :
    0 < liquidationTrancheLots machine lots bps ∧
      liquidationTrancheLots machine lots bps ≤ lots := by
  unfold liquidationTrancheLots
  by_cases whole : bps ≥ 10000 ∨ lots ≤ 0
  · rw [if_pos whole]
    exact ⟨positive, le_rfl⟩
  · have product : 0 ≤ lots * bps := Int.mul_nonneg positive.le nonneg
    have bounded : lots * bps ≤ lots * 10000 := Int.mul_le_mul_of_nonneg_left (by omega) positive.le
    have upper := inRange.2
    have wide : machine.i128 (lots * bps) = lots * bps := Int.bmod_eq_of_le (by omega) (by omega)
    have small : (lots * bps).tdiv 10000 ≤ lots := by
      rw [Int.tdiv_eq_ediv_of_nonneg product]
      omega
    have notNegative : 0 ≤ (lots * bps).tdiv 10000 := Int.tdiv_nonneg product (by decide)
    have narrow : machine.i64 ((lots * bps).tdiv 10000) = (lots * bps).tdiv 10000 :=
      wrapI64_eq ⟨by omega, by omega⟩
    simp only [wide]
    split_ifs <;> omega

/-- The loop of the tick task sends nothing, or one order for a tranche. -/
theorem State.liquidate_cases (desk : State) (config : Config) (event : Liquidation) :
    desk.risk.SameHoldings (desk.liquidate machine config event).1.risk ∧
      ((desk.liquidate machine config event).2.orders = [] ∨
        ∃ order : Submission, (desk.liquidate machine config event).2.orders = [order] ∧
          order.Liquidates ∧
          order.mark = (event.mark.1,
            liquidationTrancheLots machine event.qtyLots config.liqTrancheBps)) := by
  unfold State.liquidate
  by_cases unpriced : event.liqPriceTicks = 0
  · rw [if_pos unpriced]
    exact ⟨fun _ => rfl, .inl rfl⟩
  · simp only
    split_ifs
    · exact ⟨fun _ => rfl, .inl rfl⟩
    · exact ⟨fun _ => rfl, .inr ⟨_, rfl, ⟨rfl, rfl, rfl, unpriced⟩, rfl⟩⟩

theorem inI64_of_le_closable {engine : RiskEngine} (positive : engine.AllPositive) (some : 0 < lots)
    (within : lots ≤ engine.closable key) : InI64 lots := by
  obtain ⟨held, isHeld, -⟩ := holding_of_closable (some.trans_le within)
  have upper := (positive key.1 held _ isHeld).2.2
  exact ⟨by omega, by omega⟩

theorem closable_liquidationOf {engine : RiskEngine}
    (found : engine.positions.lookup key = some position) :
    engine.closable (liquidationOf key position).mark.1 = position.qtyLots := by
  have held : engine.holding key = some (position.side, position.qtyLots) := by
    rw [holding, found]
    rfl
  simp [closable, Liquidation.mark, liquidationOf, held, closableLots]

/-- A liquidation of a tick closes the whole of a position of a user who enters
`LiquidationPending`. -/
theorem mem_runRiskTick {engine : RiskEngine} :
    event ∈ (engine.runRiskTick machine order).2 ↔
      ∃ key ∈ order, ∃ position, engine.entersPending machine key.1 = true ∧
        engine.positions.lookup key = some position ∧
        event = liquidationOf key position := by
  simp only [runRiskTick, List.mem_filterMap]
  constructor
  · rintro ⟨key, mem, isEvent⟩
    split_ifs at isEvent with enters
    obtain ⟨position, found, rfl⟩ := Option.map_eq_some_iff.mp isEvent
    exact ⟨key, mem, position, enters, found, rfl⟩
  · rintro ⟨key, mem, position, enters, found, rfl⟩
    refine ⟨key, mem, ?_⟩
    rw [if_pos enters, found]
    rfl

/-- The liquidations of a tick are backed, as no position is closed twice. -/
theorem backed_runRiskTick {engine : RiskEngine}
    (positive : engine.AllPositive) (once : order.Nodup) :
    Earmarks.Backed engine.closable ((engine.runRiskTick machine order).2.map (·.mark)) := by
  constructor
  · intro mark mem
    obtain ⟨event, isEvent, rfl⟩ := List.mem_map.mp mem
    obtain ⟨key, -, position, -, found, rfl⟩ := mem_runRiskTick.mp isEvent
    have held : engine.holding key = some (position.side, position.qtyLots) := by
      rw [holding, found]
      rfl
    exact (positive key _ _ held).1
  · intro key
    induction order with
    | nil => exact closable_nonneg positive key
    | cons first order ih =>
      obtain ⟨fresh, rest⟩ := List.nodup_cons.mp once
      have bound := ih rest
      cases isFirst : (if engine.entersPending machine first.1 then
          (engine.positions.lookup first).map (liquidationOf first)
        else none) with
      | none =>
        simp only [runRiskTick, List.filterMap_cons, isFirst]
        exact bound
      | some event =>
        have step : (engine.runRiskTick machine (first :: order)).2 =
            event :: (engine.runRiskTick machine order).2 := by
          simp only [runRiskTick, List.filterMap_cons, isFirst]
        rw [step, List.map_cons, sum_cons]
        split_ifs at isFirst with enters
        obtain ⟨position, found, rfl⟩ := Option.map_eq_some_iff.mp isFirst
        split_ifs with same
        · have others : sum key ((engine.runRiskTick machine order).2.map (·.mark)) = 0 := by
            apply sum_eq_zero
            intro mark mem isKey
            obtain ⟨event, isEvent, rfl⟩ := List.mem_map.mp mem
            obtain ⟨other, visited, position, -, -, rfl⟩ := mem_runRiskTick.mp isEvent
            have equal : other = first := congrArg Prod.fst (isKey.trans same.symm)
            exact fresh (equal ▸ visited)
          rw [others, Int.add_zero, ← same, closable_liquidationOf found]
          exact le_rfl
        · rw [Int.zero_add]
          exact bound

namespace Liquidator

variable {config : Config} {liquidator : Liquidator}

/-- The liquidations that wait are backed by positions, and orders in flight come from the
loop of the tick task. -/
structure Kept (liquidator : Liquidator) : Prop where
  holds : Holds liquidator.marks liquidator.desk.risk
  orders : ∀ order ∈ liquidator.inFlight, order.Liquidates

theorem Kept.of_risk (kept : liquidator.Kept) (holds : Holds liquidator.marks risk) :
    Kept { liquidator with desk := { liquidator.desk with risk := risk } } :=
  ⟨holds, kept.orders⟩

theorem Kept.submit (kept : liquidator.Kept) (tranche : 0 ≤ config.liqTrancheBps) (trusted : Bool) :
    (liquidator.submit config trusted).Kept := by
  unfold Liquidator.submit
  obtain ⟨⟨positive, backed⟩, orders⟩ := kept
  cases isEmitted : liquidator.emitted with
  | nil => exact ⟨⟨positive, backed⟩, orders⟩
  | cons event rest =>
    have marks : liquidator.marks =
        event.mark :: (rest.map (·.mark) ++ liquidator.inFlight.map (·.mark)) := by
      rw [Liquidator.marks, isEmitted]
      rfl
    rw [marks] at backed
    cases trusted with
    | false => exact ⟨⟨positive, backed.tail⟩, orders⟩
    | true =>
      simp only [if_true]
      obtain ⟨same, nothing | ⟨order, isOrder, liquidates, isMark⟩⟩ :=
        liquidator.desk.liquidate_cases config event
      · rw [nothing]
        exact ⟨Holds.of_sameHoldings ⟨positive, backed.tail⟩ same, orders⟩
      · have lots : 0 < event.qtyLots := backed.positive event.mark List.mem_cons_self
        have inRange := inI64_of_le_closable positive lots backed.head_le
        obtain ⟨some, part⟩ := liquidationTrancheLots_bounds lots inRange tranche
        have smaller : Earmarks.Backed liquidator.desk.risk.closable
            (rest.map (·.mark) ++ order.mark :: liquidator.inFlight.map (·.mark)) := by
          rw [isMark]
          exact (backed.shrink some part).perm List.perm_middle.symm
        rw [isOrder]
        refine ⟨Holds.of_sameHoldings ⟨positive, smaller⟩ same, ?_⟩
        intro other mem
        rcases List.mem_cons.mp mem with rfl | old
        · exact liquidates
        · exact orders other old

theorem Kept.tick
    (kept : liquidator.Kept) (done : liquidator.emitted = []) (once : order.Nodup)
    (careful : ∀ order ∈ liquidator.inFlight,
      liquidator.desk.risk.entersPending machine order.sent.participantId = false) :
    (liquidator.step config (.tick order)).Kept := by
  obtain ⟨⟨positive, backed⟩, orders⟩ := kept
  have same : liquidator.desk.risk.SameHoldings
      (liquidator.desk.risk.runRiskTick machine order).1 := fun _ => rfl
  have marks : liquidator.marks = liquidator.inFlight.map (·.mark) := by
    rw [Liquidator.marks, done]
    rfl
  rw [marks] at backed
  have together := (backed_runRiskTick positive once).append backed (fun key => by
    cases enters : liquidator.desk.risk.entersPending machine key.1.1 with
    | true =>
      refine .inr (sum_eq_zero fun mark mem isKey => ?_)
      obtain ⟨sent, isSent, rfl⟩ := List.mem_map.mp mem
      have not := careful sent isSent
      rw [show sent.sent.participantId = key.1.1 from congrArg (·.1.1) isKey, enters] at not
      cases not
    | false =>
      refine .inl (sum_eq_zero fun mark mem isKey => ?_)
      obtain ⟨event, isEvent, rfl⟩ := List.mem_map.mp mem
      obtain ⟨visited, -, position, does, -, rfl⟩ := mem_runRiskTick.mp isEvent
      rw [show visited.1 = key.1.1 from congrArg (·.1.1) isKey, enters] at does
      cases does)
  exact ⟨Holds.of_sameHoldings ⟨positive, together⟩ same, orders⟩

section

variable {order : Submission}

def report (config : Config) (order : Submission) (update : OrderUpdateMsg) : Fill :=
  fillOf machine config order.details.userId order.details.symbol order.details.side
    update.fillPrice update.fillQty order.details.liqPriceTicks

theorem bookSide_fillOf
    (userId : UserId) (symbol : Symbol) (side : Side) (priceTicks qtyLots liqPriceTicks : Int) :
    (fillOf machine config userId symbol side priceTicks qtyLots liqPriceTicks).bookSide =
      side := by
  cases side <;> rfl

theorem mark_report (liquidates : order.Liquidates) :
    ((report config order update).key, (report config order update).bookSide) = order.mark.1 := by
  have side : (report config order update).bookSide = order.details.side :=
    bookSide_fillOf _ _ _ _ _ _
  rw [side, liquidates.side]
  simp only [report, fillOf, Fill.key, Submission.mark, liquidates.userId, liquidates.symbol]

theorem answerCalls_of_fill (priced : order.details.liqPriceTicks ≠ 0)
    (reports : reportsFill update = true) (lots : 0 < update.fillQty) :
    answerCalls config order update = [.fill (report config order update)] := by
  have closing : closingCalls update (some order.details) (some order.details.live) = [] := by
    unfold closingCalls
    rcases of_decide_eq_true reports with isKind | isKind <;> rw [isKind]
  have sameTicks : order.details.live.liqPriceTicks = order.details.liqPriceTicks := rfl
  simp only [answerCalls, closing, takerCalls, reports, lots, sameTicks, if_neg priced]
  rfl

theorem answerCalls_of_noFill (reports : reportsFill update = false) :
    ∀ call ∈ answerCalls config order update, ∀ report, call ≠ .fill report := by
  have taker : takerCalls machine config update (some order.details.live) = [] := by
    simp [takerCalls, reports]
  have releasing (userId : UserId) (margin liqPriceTicks : Int) :
      ∀ call ∈ releaseCalls userId margin liqPriceTicks, ∀ report, call ≠ .fill report := by
    rintro call mem report rfl
    unfold releaseCalls at mem
    split_ifs at mem <;> simp at mem
  intro call mem
  rw [answerCalls, taker, List.append_nil] at mem
  unfold closingCalls at mem
  cases isKind : update.kind <;> rw [isKind] at mem
  case rejected => exact releasing _ _ _ call mem
  case cancelled => exact releasing _ _ _ call mem
  all_goals cases mem

/-- The lots of an order in flight are those of a position that it closes. -/
theorem Kept.backs (kept : liquidator.Kept) (mem : order ∈ liquidator.inFlight) :
    Earmarks.Backed liquidator.desk.risk.closable (order.mark ::
      (liquidator.emitted.map (·.mark) ++ (liquidator.inFlight.erase order).map (·.mark))) := by
  have first := ((List.perm_cons_erase mem).map (·.mark)).append_left
    (liquidator.emitted.map (·.mark))
  exact kept.holds.backed.perm (first.trans List.perm_middle)

section

variable (kept : liquidator.Kept) (occurs : liquidator.Occurs (.answer order update))
  (reports : reportsFill update = true)
include kept occurs reports

/-- The report of a fill is about a position of the other side with enough lots. -/
theorem Kept.fits :
    ∃ held qty, liquidator.desk.risk.holding (report config order update).key = some (held, qty) ∧
      State.closingSide held = order.sent.side ∧ held ≠ (report config order update).side ∧
      update.fillQty ≤ qty ∧
      (report config order update).Fits
        (liquidator.desk.risk.holding (report config order update).key) := by
  obtain ⟨mem, -, fills⟩ := occurs
  obtain ⟨lots, within⟩ := fills reports
  have isMark := @mark_report config order update (kept.orders order mem)
  have enough : update.fillQty ≤ liquidator.desk.risk.closable order.mark.1 :=
    within.trans (kept.backs mem).head_le
  obtain ⟨held, isHeld, closes⟩ := holding_of_closable (lots.trans_le enough)
  rw [← isMark] at isHeld closes
  have opposite := ((report config order update).closingSide_eq_iff held).mp closes
  refine ⟨held, _, isHeld, closes.trans (congrArg Prod.snd isMark), opposite, ?_, ?_⟩
  · rwa [isMark]
  · refine ⟨inI64_of_le_closable kept.holds.positive lots enough, ?_⟩
    intro both same isSide
    rw [isHeld] at same
    cases same
    exact absurd isSide opposite

theorem Kept.risk_answer :
    (liquidator.step config (.answer order update)).desk.risk =
      liquidator.desk.risk.onFill machine (report config order update) := by
  obtain ⟨mem, -, fills⟩ := occurs
  have calls := @answerCalls_of_fill config order update (kept.orders order mem).priced
    reports (fills reports).1
  simp only [step, calls]
  rfl

/-- The fill of a liquidation order in flight takes its lots from a position and leaves the
side. -/
theorem Kept.reduces :
    ∃ held qty, liquidator.desk.risk.holding order.mark.1.1 = some (held, qty) ∧
      State.closingSide held = order.sent.side ∧ update.fillQty ≤ qty ∧
      (liquidator.step config (.answer order update)).desk.risk.holding order.mark.1.1 =
        if update.fillQty = qty then none else some (held, qty - update.fillQty) := by
  obtain ⟨held, qty, isHeld, closes, opposite, within, fits⟩ :=
    @Kept.fits update config liquidator order kept occurs reports
  have lots : 0 < (report config order update).qtyLots := (occurs.2.2 reports).1
  have isKey : (report config order update).key = order.mark.1.1 :=
    congrArg Prod.fst (mark_report (kept.orders order occurs.1))
  have turns := turns_filledHolding (kept.holds.positive _) lots fits
  rw [kept.risk_answer occurs reports, ← isKey, RiskEngine.holding_onFill machine lots, if_pos rfl]
  refine ⟨held, qty, isHeld, closes, within, ?_⟩
  rw [isHeld] at turns ⊢
  generalize filledHolding machine (some (held, qty)) (report config order update).side
    (report config order update).qtyLots = after at turns ⊢
  have sameLots : (report config order update).qtyLots = update.fillQty := rfl
  cases turns with
  | increased qty inRange => exact absurd rfl opposite
  | closed isOpposite => exact (if_pos sameLots.symm).symm
  | flipped isOpposite less => omega
  | reduced isOpposite more => rw [if_neg (by omega), sameLots]

end

theorem Kept.answer (kept : liquidator.Kept) (occurs : liquidator.Occurs (.answer order update)) :
    (liquidator.step config (.answer order update)).Kept := by
  have backed := kept.backs occurs.1
  have orders : ∀ other ∈ liquidator.inFlight.erase order, other.Liquidates :=
    fun other mem => kept.orders other (List.mem_of_mem_erase mem)
  cases reports : reportsFill update with
  | false =>
    have same := sameHoldings_foldl_apply
      (@answerCalls_of_noFill config order update reports) liquidator.desk.risk
    exact ⟨Holds.of_sameHoldings ⟨kept.holds.positive, backed.tail⟩ same, orders⟩
  | true =>
    obtain ⟨-, -, -, -, -, -, fits⟩ := @Kept.fits update config liquidator order kept occurs reports
    obtain ⟨lots, within⟩ := occurs.2.2 reports
    obtain ⟨positive, leaves⟩ := closable_onFill kept.holds.positive lots fits
    rw [mark_report (kept.orders order occurs.1)] at leaves
    refine ⟨?_, orders⟩
    rw [kept.risk_answer occurs reports]
    exact ⟨positive, backed.spend within leaves⟩

end

/-- An event that occurs and is careful keeps the liquidations backed. -/
theorem Kept.step {event : LiquidatorEvent} (kept : liquidator.Kept)
    (tranche : 0 ≤ config.liqTrancheBps) (occurs : liquidator.Occurs event)
    (careful : liquidator.Careful config event) : (liquidator.step config event).Kept := by
  cases event with
  | markPrice symbol newPriceTicks order =>
    exact kept.of_risk (kept.holds.of_sameHoldings
      (RiskEngine.sameHoldings_updateMarkPrice machine symbol newPriceTicks _ order))
  | tick order => exact kept.tick occurs.1 (occurs.2.nodup_iff.mpr (AList.keys_nodup _)) careful
  | submit trusted => exact kept.submit tranche trusted
  | send =>
    refine ⟨?_, kept.orders⟩
    exact kept.holds.of_sameHoldings
      (RiskEngine.sameHoldings_of_positions (congrArg (·.positions) State.risk_send))
  | answer order update => exact kept.answer occurs
  | other call =>
    refine kept.of_risk ?_
    cases call with
    | fill report => exact kept.holds.onFill careful
    | _ => exact kept.holds.of_sameHoldings (RiskCall.sameHoldings_apply (by rintro _ ⟨⟩) _)
  | reserve userId margin =>
    exact kept.of_risk (kept.holds.of_sameHoldings
      (RiskEngine.sameHoldings_checkAndReserveMargin machine userId margin))
  | adl symbol order => exact kept.of_risk (kept.holds.adlLoop careful)

theorem lotsInFlight_eq (key : UserId × Symbol) :
    liquidator.lotsInFlight key =
      sum (key, .buy) (liquidator.inFlight.map (·.mark)) +
        sum (key, .sell) (liquidator.inFlight.map (·.mark)) := by
  unfold lotsInFlight
  induction liquidator.inFlight with
  | nil => rfl
  | cons order orders ih =>
    rw [List.map_cons, List.filter_cons]
    by_cases same : (order.sent.participantId, order.sent.symbol) = key
    · rw [if_pos (decide_eq_true same), List.map_cons, List.sum_cons, ih]
      simp only [Submission.mark, same]
      cases order.sent.side <;> simp <;> omega
    · rw [if_neg (by simpa using same), ih]
      simp [Submission.mark, same]

theorem positionLots_eq (key : UserId × Symbol) :
    liquidator.positionLots key =
      liquidator.desk.risk.closable (key, .buy) + liquidator.desk.risk.closable (key, .sell) := by
  unfold positionLots closable holding
  cases liquidator.desk.risk.positions.lookup key with
  | none => rfl
  | some position =>
    simp only [Option.map_some, closableLots]
    cases position.side <;> simp [State.closingSide]

theorem Kept.covers (kept : liquidator.Kept) (key : UserId × Symbol) :
    liquidator.lotsInFlight key ≤ liquidator.positionLots key := by
  have backed := kept.holds.backed.right
  rw [lotsInFlight_eq, positionLots_eq]
  exact Int.add_le_add (backed.enough _) (backed.enough _)

theorem Kept.run {events : List LiquidatorEvent}
    (kept : liquidator.Kept) (tranche : 0 ≤ config.liqTrancheBps)
    (occur : liquidator.RunOccurs config events) (careful : liquidator.RunCareful config events) :
    ∀ reached ∈ events.scanl (Liquidator.step config) liquidator, reached.Kept := by
  induction events generalizing liquidator with
  | nil =>
    intro reached mem
    rw [List.scanl_nil, List.mem_singleton] at mem
    exact mem ▸ kept
  | cons event events ih =>
    intro reached mem
    rw [List.scanl_cons] at mem
    rcases List.mem_cons.mp mem with rfl | later
    · exact kept
    · exact ih (kept.step tranche occur.1 careful.1) occur.2 careful.2 reached later

/-- A desk with no liquidation under way. -/
def starting (desk : State) : Liquidator where
  desk := desk
  emitted := []
  inFlight := []

/-- In a careful run the liquidation orders in flight never have more lots than the position
of the user, and each of their fills takes lots from the position without turning it. -/
theorem run_lotsInFlight_le {desk : State} {events : List LiquidatorEvent}
    (tranche : 0 ≤ config.liqTrancheBps) (positive : desk.risk.AllPositive)
    (occur : (starting desk).RunOccurs config events)
    (careful : (starting desk).RunCareful config events) :
    ∀ reached ∈ events.scanl (step config) (starting desk),
      (∀ key, reached.lotsInFlight key ≤ reached.positionLots key) ∧
      ∀ order update, reached.Occurs (.answer order update) → reportsFill update = true →
        ∃ held qty, reached.desk.risk.holding order.mark.1.1 = some (held, qty) ∧
          State.closingSide held = order.sent.side ∧ update.fillQty ≤ qty ∧
          (reached.step config (.answer order update)).desk.risk.holding order.mark.1.1 =
            if update.fillQty = qty then none else some (held, qty - update.fillQty) := by
  have begins : (starting desk).Kept :=
    ⟨⟨positive, .nil (closable_nonneg positive)⟩,
      fun _ member => absurd member List.not_mem_nil⟩
  intro reached member
  have kept := begins.run tranche occur careful reached member
  exact ⟨kept.covers, fun order update => kept.reduces⟩

/-- A user with the margin for a hundred lots to buy and for forty to sell. -/
def stretched : State :=
  .new 0 (.initialized [(4, 134800000)]) ∅ 1

/-- The user buys and leaves an order to sell, the mark falls, and the position is
liquidated. -/
def liquidated : List LiquidatorEvent :=
  [.reserve 4 100000000,
    .other (.fill (fillOf machine .btcUsdt 4 7 .buy 10000000 100 0)),
    .reserve 4 34800000,
    .markPrice 7 4000000 [4],
    .markPrice 7 2320000 [4],
    .tick [(4, 7)], .submit true]

/-- The answer of the exchange to the liquidation order. -/
def filledAnswer : OrderUpdateMsg :=
  .filled 9 1 4 9005000 100

theorem run_lotsInFlight_le_liquidated :
    (starting stretched).RunCareful .btcUsdt liquidated ∧
      ∀ reached ∈ liquidated.scanl (step .btcUsdt) (starting stretched),
        ∀ key, reached.lotsInFlight key ≤ reached.positionLots key := by
  refine ⟨by decide +kernel, fun reached member => ?_⟩
  exact (@run_lotsInFlight_le .btcUsdt stretched liquidated (by decide)
    (fun _ _ _ found => by cases found) (by decide +kernel) (by decide +kernel) reached member).1

/-- While the liquidation order is in flight the order of the user sells its forty lots.
The liquidation order then has more lots than the position, and its fill turns it. -/
theorem not_lotsInFlight_le :
    let events := liquidated ++
      [.other (.fill (fillOf machine .btcUsdt 4 7 .sell 8700000 40 0))]
    let reached := events.foldl (step .btcUsdt) (starting stretched)
    (starting stretched).RunOccurs .btcUsdt events ∧
      reached.positionLots (4, 7) < reached.lotsInFlight (4, 7) ∧
      ∀ order ∈ reached.inFlight, reached.Occurs (.answer order filledAnswer) ∧
        (reached.step .btcUsdt (.answer order filledAnswer)).desk.risk.holding (4, 7) =
          some (.short, 40) := by
  decide +kernel

end Liquidator
end LightningX.Desk
