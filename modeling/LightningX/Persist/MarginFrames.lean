import LightningX.Persist.WriterLoop

/-!
# Margin frames

`desk/risk_persist.rs`: the frames with the margin state that a fill left behind,
and when the tables mirror the risk engine.
-/

namespace LightningX.Persist

open Risk

variable {engine : RiskEngine} {datum : Datum}

def positionSideCode : PositionSide → Nat
  | .long => 0
  | .short => 1

def riskStatusCode : RiskStatus → Nat
  | .normal => 0
  | .marginCall => 1
  | .liquidationPending => 2
  | .liquidating => 3
  | .liquidated => 4
  | .bankruptcy => 5

/-- What a margin frame is about. -/
inductive Datum
  | position (userId : UserId) (symbol : Symbol)
  | account (userId : UserId)
  | fund
  deriving DecidableEq

/-- What `margin_state_frames` reads, in its order. -/
def marginStateData (userId : UserId) (symbol : Symbol) : List Datum :=
  [.position userId symbol, .account userId, .fund]

/-- The frame of `margin_state_frames` about one of its data. -/
def marginFrame (engine : RiskEngine) : Datum → Option Payload
  | .position userId symbol =>
    match engine.positions.lookup (userId, symbol) with
    | some position =>
      some (.positionUpsert {
        userId := userId
        symbol := symbol
        side := positionSideCode position.side
        leverage := position.leverage
        qtyLots := position.qtyLots
        entryPriceTicks := position.entryPriceTicks
        usedMarginAtoms := position.initialMargin
        costAtoms := position.costAtoms })
    | none => some (.positionDelete userId symbol)
  | .account userId =>
    (engine.accounts.lookup userId).map fun account =>
      .riskAccountSet {
        userId := userId
        equityAtoms := account.equity
        usedMarginAtoms := account.usedMargin
        orderMarginAtoms := account.orderMargin
        status := riskStatusCode account.status }
  | .fund => some (.insuranceFundSet engine.insuranceFundAtoms)

/-- Only an account that the engine does not know has no frame. -/
theorem exists_account_of_marginFrame_eq_none (noFrame : marginFrame engine datum = none) :
    ∃ userId, datum = .account userId ∧ engine.accounts.lookup userId = none := by
  cases datum with
  | position userId symbol =>
    cases found : engine.positions.lookup (userId, symbol) <;>
      simp [marginFrame, found] at noFrame
  | account userId => exact ⟨userId, rfl, Option.map_eq_none_iff.mp noFrame⟩
  | fund => cases noFrame

def Payload.rows (payload : Payload) : List Row :=
  match payload.row with
  | .error _ => []
  | .ok row => [row]

def positionColumns (position : PositionRiskState) : PositionColumns where
  side := position.side
  qtyLots := position.qtyLots
  entryPriceTicks := position.entryPriceTicks
  leverage := position.leverage
  usedMarginAtoms := position.initialMargin
  costAtoms := position.costAtoms

/-- The tables hold what the engine holds. -/
def Mirrors (engine : RiskEngine) (tables : MarginTables) : Datum → Prop
  | .position userId symbol =>
    tables.positions.lookup (userId, symbol) =
      (engine.positions.lookup (userId, symbol)).map positionColumns
  | .account userId =>
    (tables.riskAccounts.lookup userId).map (·.equityAtoms) =
      (engine.accounts.lookup userId).map (·.equity)
  | .fund => tables.insuranceFundAtoms = engine.insuranceFundAtoms

theorem mirrors_position_iff (engine : RiskEngine) (tables : MarginTables) (userId : UserId)
    (symbol : Symbol) :
    Mirrors engine tables (.position userId symbol) ↔
      tables.positions.lookup (userId, symbol) =
        (engine.positions.lookup (userId, symbol)).map positionColumns := Iff.rfl

theorem mirrors_account_iff (engine : RiskEngine) (tables : MarginTables) (userId : UserId) :
    Mirrors engine tables (.account userId) ↔
      (tables.riskAccounts.lookup userId).map (·.equityAtoms) =
        (engine.accounts.lookup userId).map (·.equity) := Iff.rfl

/-- The equity of every user, the fund and all positions are the same in the engine and
in the tables. -/
def Agrees (engine : RiskEngine) (tables : MarginTables) : Prop :=
  ∀ datum, Mirrors engine tables datum

section

variable (arith : Arithmetic) (db : Database)

theorem margin_applyEach_position (op : PositionOp) :
    (db.applyEach arith [.position op]).margin =
      { db.margin with positions := db.positions.write op.write } :=
  Database.margin_applyEach arith (rfl : db.margin = db.margin) (by simp [Row.funding?])

theorem margin_applyEach_riskAccount (row : RiskAccountRow) :
    (db.applyEach arith [.riskAccount row]).margin =
      { db.margin with
        riskAccounts := db.riskAccounts.write ⟨row.userId, fun _ => some row.columns⟩ } :=
  Database.margin_applyEach arith (rfl : db.margin = db.margin) (by simp [Row.funding?])

theorem rows_marginFrame_position (engine : RiskEngine) (userId : UserId) (symbol : Symbol)
    (isFrame : marginFrame engine (.position userId symbol) = some payload) :
    payload.rows = [.position {
      userId := userId
      symbol := symbol
      columns := (engine.positions.lookup (userId, symbol)).map positionColumns }] := by
  cases found : engine.positions.lookup (userId, symbol) with
  | none =>
    simp only [marginFrame, found] at isFrame
    cases isFrame
    rfl
  | some position =>
    simp only [marginFrame, found] at isFrame
    cases isFrame
    cases side : position.side <;>
      simp [positionColumns, side] <;> rfl

theorem rows_marginFrame_account (engine : RiskEngine) (userId : UserId)
    (isFrame : marginFrame engine (.account userId) = some payload) :
    ∃ account, engine.accounts.lookup userId = some account ∧
      payload.rows = [.riskAccount {
        userId := userId
        columns := {
          equityAtoms := account.equity
          usedMarginAtoms := account.usedMargin
          orderMarginAtoms := account.orderMargin
          status := account.status } }] := by
  obtain ⟨account, found, rfl⟩ := Option.map_eq_some_iff.mp isFrame
  refine ⟨account, found, ?_⟩
  cases status : account.status <;>
    simp [Payload.rows, Payload.row] <;> rfl

/-- A frame that is up to date brings its datum up to date, and touches no other. -/
theorem mirrors_marginFrame (isFrame : marginFrame engine datum = some payload) :
    Mirrors engine (db.applyEach arith payload.rows).margin datum ∧
      ∀ other, Mirrors engine db.margin other →
        Mirrors engine (db.applyEach arith payload.rows).margin other := by
  cases datum with
  | position userId symbol =>
    rw [rows_marginFrame_position engine userId symbol isFrame, margin_applyEach_position]
    have here : Mirrors engine { db.margin with
        positions := db.positions.write
          (PositionOp.write {
            userId := userId
            symbol := symbol
            columns := (engine.positions.lookup (userId, symbol)).map positionColumns }) }
        (.position userId symbol) := by
      rw [mirrors_position_iff, Table.lookup_write]
      exact if_pos rfl
    refine ⟨here, fun other mirrors => ?_⟩
    cases other with
    | position otherUser otherSymbol =>
      by_cases same : (otherUser, otherSymbol) = (userId, symbol)
      · obtain ⟨rfl, rfl⟩ := Prod.mk.inj same
        exact here
      · rw [mirrors_position_iff, Table.lookup_write]
        exact (if_neg same).trans mirrors
    | account otherUser => exact mirrors
    | fund => exact mirrors
  | account userId =>
    obtain ⟨account, found, isRow⟩ := rows_marginFrame_account engine userId isFrame
    rw [isRow, margin_applyEach_riskAccount]
    refine ⟨?_, fun other mirrors => ?_⟩
    · rw [mirrors_account_iff, Table.lookup_write, if_pos rfl, found]
      rfl
    · cases other with
      | position otherUser otherSymbol => exact mirrors
      | account otherUser =>
        rw [mirrors_account_iff, Table.lookup_write]
        split_ifs with same
        · subst same
          rw [found]
          rfl
        · exact mirrors
      | fund => exact mirrors
  | fund =>
    cases isFrame
    refine ⟨rfl, fun other mirrors => ?_⟩
    cases other with
    | position otherUser otherSymbol => exact mirrors
    | account otherUser => exact mirrors
    | fund => rfl

end

/-- Two engines hold the same of a datum. -/
def SameAt (engine next : RiskEngine) : Datum → Prop
  | .position userId symbol =>
    next.positions.lookup (userId, symbol) = engine.positions.lookup (userId, symbol)
  | .account userId => next.accounts.lookup userId = engine.accounts.lookup userId
  | .fund => next.insuranceFundAtoms = engine.insuranceFundAtoms

theorem SameAt.mirrors (same : SameAt engine next datum) (mirrors : Mirrors engine tables datum) :
    Mirrors next tables datum := by
  cases datum with
  | position userId symbol =>
    rw [mirrors_position_iff, same]
    exact mirrors
  | account userId =>
    rw [mirrors_account_iff, same]
    exact mirrors
  | fund => exact mirrors.trans same.symm

variable (arith : Arithmetic)

/-- A fill changes its position, its account and the fund. -/
theorem sameAt_onFill
    (engine : RiskEngine) (fill : Fill) (other : datum ∉ marginStateData fill.userId fill.symbol) :
    SameAt engine (engine.onFill arith fill) datum := by
  unfold RiskEngine.onFill
  by_cases nothing : fill.qtyLots ≤ 0
  · rw [if_pos nothing]
    cases datum <;> rfl
  · rw [if_neg nothing]
    cases datum with
    | position userId symbol =>
      have ne : (userId, symbol) ≠ fill.key := by
        intro same
        obtain ⟨rfl, rfl⟩ := Prod.mk.inj same
        simp [marginStateData] at other
      show (RiskEngine.storePosition _ _ _).lookup _ = _
      unfold RiskEngine.storePosition
      split
      · exact AList.lookup_insert_ne ne
      · exact AList.lookup_erase_ne ne
    | account userId =>
      have ne : userId ≠ fill.userId := by
        rintro rfl
        simp [marginStateData] at other
      show (KeyedMap.modify _ _ _).lookup _ = _
      rw [KeyedMap.lookup_modify, if_neg ne]
    | fund => simp [marginStateData] at other

/-- A fee changes an account and the fund. -/
theorem sameAt_chargeFee (engine : RiskEngine) (userId : UserId) (symbol : Symbol) (fee : Int)
    (other : datum ∉ marginStateData userId symbol) :
    SameAt engine (engine.chargeFee arith userId fee) datum := by
  unfold RiskEngine.chargeFee
  split_ifs with nothing
  · cases datum <;> rfl
  · cases datum with
    | position otherUser otherSymbol => rfl
    | account otherUser =>
      have ne : otherUser ≠ userId := by
        rintro rfl
        simp [marginStateData] at other
      show (KeyedMap.modify _ _ _).lookup _ = _
      rw [KeyedMap.lookup_modify, if_neg ne]
    | fund => simp [marginStateData] at other

end LightningX.Persist
