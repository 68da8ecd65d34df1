import LightningX.Persist.Batch

/-!
# The database and its flush

The tables `desk/pg_store.rs` writes and the statements of a flush, with the
funding settlements of `desk/funding.rs`.  A statement is a list of writes to a
table; it takes no account of constraints here.  A flush that fails anywhere is
rolled back.  Times of change and serial numbers of rows are left out, and the
rows a query returns come in no particular order.
-/

namespace LightningX.Persist

open Desk (Asset DbOrderStatus)
open Risk (PositionSide Symbol UserId calcNotionalAtoms)

structure FundingDelta where
  userId : UserId
  equityDeltaAtoms : Int
  deriving DecidableEq

structure FundingSettlement where
  deltas : Multiset FundingDelta
  longPaidAtoms : Int
  shortReceivedAtoms : Int
  residueAtoms : Int

/-- Sum of equity changes. -/
def deltaSum (deltas : Multiset FundingDelta) : Int :=
  (deltas.map (·.equityDeltaAtoms)).sum

def FundingSettlement.deltaOf (settlement : FundingSettlement) (userId : UserId) : Int :=
  deltaSum (settlement.deltas.filter fun delta => delta.userId = userId)

/-- A position as far as funding goes. -/
abbrev OpenInterest := UserId × PositionSide × Int

section

variable (arith : Arithmetic)

def computePayment (qtyLots markTicks notionalScale rateE9 : Int) : Int :=
  arith.i64
    ((arith.i128 (calcNotionalAtoms arith markTicks qtyLots notionalScale * rateE9)).tdiv
      1000000000)

/-- The change of one position's owner: a long pays, a short receives. -/
def fundingDelta (markTicks notionalScale rateE9 : Int) (position : OpenInterest) :
    FundingDelta where
  userId := position.1
  equityDeltaAtoms :=
    let payment := computePayment arith position.2.2 markTicks notionalScale rateE9
    match position.2.1 with
    | .long => arith.i64 (-payment)
    | .short => payment

def computeSettlement (positions : Multiset OpenInterest)
    (markTicks notionalScale rateE9 : Int) : FundingSettlement :=
  let deltas :=
    if rateE9 = 0 then 0
    else
      (positions.map (fundingDelta arith markTicks notionalScale rateE9)).filter
        fun delta => delta.equityDeltaAtoms ≠ 0
  { deltas := deltas
    longPaidAtoms := arith.i64 (-deltaSum (deltas.filter fun delta => delta.equityDeltaAtoms < 0))
    shortReceivedAtoms :=
      arith.i64 (deltaSum (deltas.filter fun delta => 0 < delta.equityDeltaAtoms))
    residueAtoms := arith.i64 (-deltaSum deltas) }

/-- A row of `funding_history`. -/
structure FundingRecord where
  symbol : Symbol
  rateE9 : Int
  markPriceTicks : Int
  settledAtMs : Int
  longPaidAtoms : Int
  shortReceivedAtoms : Int
  fundResidueAtoms : Int
  deriving DecidableEq

/-- The tables, by primary key; the insurance fund has one row. -/
@[ext]
structure Database where
  orders : Table Int OrderColumns
  accounts : Table (UserId × Asset) AccountColumns
  trades : Table (Int × Int) TradeColumns
  matchingEvents : Table (Int × Nat) MatchingEventPayload
  positions : Table (UserId × Symbol) PositionColumns
  riskAccounts : Table UserId RiskAccountColumns
  insuranceFundAtoms : Int
  fundingHistory : List FundingRecord
  fundingState : Table Symbol (Int × Int)
  checkpoints : Table Nat Int
  deriving DecidableEq

/-- The tables after the migrations. -/
def Database.new : Database where
  orders := ∅
  accounts := ∅
  trades := ∅
  matchingEvents := ∅
  positions := ∅
  riskAccounts := ∅
  insuranceFundAtoms := 0
  fundingHistory := []
  fundingState := ∅
  checkpoints := ∅

/-- `INSERT INTO orders … ON CONFLICT (id) DO UPDATE`: a row that exists keeps all
but its status and filled amount. -/
def upsertOrder (columns : OrderColumns) : Option OrderColumns → Option OrderColumns
  | none => some columns
  | some row => some { row with filledAtoms := columns.filledAtoms, status := columns.status }

/-- `UPDATE orders`. -/
def fillOrder (fill : FillRow) (row : Option OrderColumns) : Option OrderColumns :=
  row.map fun columns => { columns with filledAtoms := fill.filledAtoms, status := fill.status }

def flushUpserts (rows : List UpsertRow) : List (Write Int OrderColumns) :=
  (Table.keepLast (·.id) rows).map fun row => ⟨row.id, upsertOrder row.columns⟩

def flushDeletes (ids : List Int) : List (Write Int OrderColumns) :=
  ids.dedup.map fun id => ⟨id, fun _ => none⟩

def flushFills (rows : List FillRow) : List (Write Int OrderColumns) :=
  (Table.keepLast (·.id) rows).map fun row => ⟨row.id, fillOrder row⟩

def flushAccounts (rows : List AccountRow) :
    List (Write (UserId × Asset) AccountColumns) :=
  (Table.keepLast (fun row => (row.userId, row.asset)) rows).map fun row =>
    ⟨(row.userId, row.asset), fun _ => some row.columns⟩

/-- `flush_trades`: a trade that is there already is kept. -/
def flushTrades (rows : List TradeRow) : List (Write (Int × Int) TradeColumns) :=
  rows.map fun row => ⟨(row.buyOrderId, row.sellOrderId), (·.or (some row.columns))⟩

def flushMatchingEvents (rows : List MatchingEventPayload) :
    List (Write (Int × Nat) MatchingEventPayload) :=
  rows.map fun row => ⟨(row.responseStreamId, row.sequence), (·.or (some row))⟩

def PositionOp.write (op : PositionOp) : Write (UserId × Symbol) PositionColumns :=
  ⟨(op.userId, op.symbol), fun _ => op.columns⟩

/-- `flush_positions`: the operations that are kept insert first and delete then. -/
def flushPositions (ops : List PositionOp) :
    List (Write (UserId × Symbol) PositionColumns) :=
  let kept := Table.keepLast (fun op => (op.userId, op.symbol)) ops
  (kept.filter (·.columns.isSome)).map PositionOp.write ++
    (kept.filter (·.columns.isNone)).map PositionOp.write

def flushRiskAccounts (rows : List RiskAccountRow) :
    List (Write UserId RiskAccountColumns) :=
  (Table.keepLast (·.userId) rows).map fun row => ⟨row.userId, fun _ => some row.columns⟩

/-- `flush_checkpoints`: a checkpoint never moves back. -/
def flushCheckpoints (pending : Table Nat Nat) (checkpoints : Table Nat Int) :
    Table Nat Int :=
  Table.mapRows (fun publisherId (seq : Nat) =>
    match checkpoints.lookup publisherId with
    | none => wrapI64 seq
    | some last => max last (wrapI64 seq)) pending ∪ checkpoints

def loadCheckpoints (checkpoints : Table Nat Int) : Table Nat Nat :=
  checkpoints.mapRows fun _ last => last.toNat

namespace Database

/-- `SELECT user_id, side, qty_lots FROM positions WHERE symbol = $1`. -/
def openInterest (db : Database) (symbol : Symbol) : Multiset OpenInterest :=
  (db.positions.entries.filter fun entry => entry.1.2 = symbol).map fun entry =>
    (entry.1.1, entry.2.side, entry.2.qtyLots)

/-- `apply_funding_settlement`.  A user without a margin account is left out, and
the fund takes what remains. -/
def applyFundingSettlement (db : Database) (payload : FundingSettledPayload) : Database :=
  let settlement :=
    computeSettlement arith (db.openInterest payload.symbol) payload.markPriceTicks
      payload.notionalScale payload.rateE9
  let orphans := settlement.deltas.filter fun delta => delta.userId ∉ db.riskAccounts
  let residueAtoms := arith.i64 (settlement.residueAtoms + deltaSum orphans)
  { db with
    riskAccounts := db.riskAccounts.mapRows fun userId row =>
      { row with equityAtoms := row.equityAtoms + settlement.deltaOf userId }
    insuranceFundAtoms := db.insuranceFundAtoms + residueAtoms
    fundingHistory := db.fundingHistory ++ [{
      symbol := payload.symbol
      rateE9 := payload.rateE9
      markPriceTicks := payload.markPriceTicks
      settledAtMs := payload.settledAtMs
      longPaidAtoms := settlement.longPaidAtoms
      shortReceivedAtoms := settlement.shortReceivedAtoms
      fundResidueAtoms := residueAtoms }]
    fundingState :=
      db.fundingState.insert payload.symbol (payload.nextSettlementAtMs, payload.rateE9) }

/-- The statements of a flush before the funding settlement. -/
def flushRows (db : Database) (queues : Queues) : Database :=
  { db with
    orders :=
      ((db.orders.writes (flushUpserts queues.upserts)).writes
        (flushDeletes queues.deletes)).writes (flushFills queues.fills)
    accounts := db.accounts.writes (flushAccounts queues.accounts)
    trades := db.trades.writes (flushTrades queues.trades)
    matchingEvents := db.matchingEvents.writes (flushMatchingEvents queues.matchingEvents)
    positions := db.positions.writes (flushPositions queues.positionOps)
    riskAccounts := db.riskAccounts.writes (flushRiskAccounts queues.riskAccounts)
    insuranceFundAtoms := queues.insuranceFundAtoms.getD db.insuranceFundAtoms }

/-- All statements of a flush but the checkpoints. -/
def flushQueues (db : Database) (queues : Queues) : Database :=
  match queues.pendingFunding with
  | none => db.flushRows queues
  | some payload => (db.flushRows queues).applyFundingSettlement arith payload

/-- The transaction of a flush. -/
def commit (db : Database) (batch : PgWriteBatch) : Database :=
  { db.flushQueues arith batch.queues with
    checkpoints := flushCheckpoints batch.pendingMaxSeq db.checkpoints }

end Database

/-- The places where a flush waits for the database. -/
inductive FlushPoint
  | begin
  | upserts
  | deletes
  | fills
  | accounts
  | trades
  | matchingEvents
  | positions
  | riskAccounts
  | insuranceFund
  | funding
  | checkpoints
  | commit
  deriving DecidableEq

/-- The funding settlement has been taken out of the batch by then. -/
def FlushPoint.afterTake : FlushPoint → Bool
  | funding | checkpoints | commit => true
  | _ => false

namespace PgWriteBatch

/-- The batch after its transaction committed: the floors are raised and the
queues cleared. -/
def committed (batch : PgWriteBatch) : PgWriteBatch :=
  { batch with
    queues := .empty
    appliedSeq :=
      batch.pendingMaxSeq.mapRows (fun publisherId seq =>
        max seq ((batch.appliedSeq.lookup publisherId).getD 0)) ∪ batch.appliedSeq
    pendingMaxSeq := ∅ }

/-- The batch after its transaction failed: everything is kept for the next
attempt, except a funding settlement that was taken already. -/
def failed (batch : PgWriteBatch) (point : FlushPoint) : PgWriteBatch :=
  if point.afterTake then
    { batch with queues := { batch.queues with pendingFunding := none } }
  else batch

/-- `flush`, which fails at the given point if there is one. -/
def flush (db : Database) (batch : PgWriteBatch) (failure : Option FlushPoint) :
    Database × PgWriteBatch :=
  match failure with
  | none => (db.commit arith batch, batch.committed)
  | some point => (db, batch.failed point)

end PgWriteBatch
end
end LightningX.Persist
