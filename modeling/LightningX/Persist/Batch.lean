import LightningX.Persist.Frames

/-!
# The write batch

`PgWriteBatch` in `desk/pg_store.rs`: frames are admitted by their sequence
numbers, turned into rows and queued by kind until the next flush.
-/

namespace LightningX.Persist

open Row

def journalRestartJump : Nat := 2 ^ 40

/-- The rows waiting in a batch. -/
structure Queues where
  pendingFunding : Option FundingSettledPayload
  upserts : List UpsertRow
  deletes : List Int
  fills : List FillRow
  accounts : List AccountRow
  trades : List TradeRow
  matchingEvents : List MatchingEventPayload
  positionOps : List PositionOp
  riskAccounts : List RiskAccountRow
  insuranceFundAtoms : Option Int
  deriving DecidableEq

namespace Row

/-- The row of an order to insert. -/
def upsert? : Row → Option UpsertRow
  | upsert row => some row
  | _ => none

/-- The order to delete. -/
def delete? : Row → Option Int
  | delete id => some id
  | _ => none

/-- The order to update. -/
def fill? : Row → Option FillRow
  | fill row => some row
  | _ => none

/-- The balance to set. -/
def account? : Row → Option AccountRow
  | account row => some row
  | _ => none

/-- The trade to insert. -/
def trade? : Row → Option TradeRow
  | trade row => some row
  | _ => none

def matchingEvent? : Row → Option MatchingEventPayload
  | matchingEvent row => some row
  | _ => none

/-- The position to set or delete. -/
def position? : Row → Option PositionOp
  | position op => some op
  | _ => none

/-- The margin account to set. -/
def riskAccount? : Row → Option RiskAccountRow
  | riskAccount row => some row
  | _ => none

/-- The balance of the fund to set. -/
def insuranceFund? : Row → Option Int
  | insuranceFund balanceAtoms => some balanceAtoms
  | _ => none

/-- The funding settlement to apply. -/
def funding? : Row → Option FundingSettledPayload
  | funding payload => some payload
  | _ => none

end Row

namespace Queues

/-- Nothing is waiting. -/
def empty : Queues where
  pendingFunding := none
  upserts := []
  deletes := []
  fills := []
  accounts := []
  trades := []
  matchingEvents := []
  positionOps := []
  riskAccounts := []
  insuranceFundAtoms := none

variable (queues : Queues)

/-- Queue a row.  The last balance of the fund wins. -/
def add : Row → Queues
  | .upsert row => { queues with upserts := queues.upserts ++ [row] }
  | .delete id => { queues with deletes := queues.deletes ++ [id] }
  | .fill row => { queues with fills := queues.fills ++ [row] }
  | .account row => { queues with accounts := queues.accounts ++ [row] }
  | .trade row => { queues with trades := queues.trades ++ [row] }
  | .matchingEvent row => { queues with matchingEvents := queues.matchingEvents ++ [row] }
  | .position op => { queues with positionOps := queues.positionOps ++ [op] }
  | .riskAccount row => { queues with riskAccounts := queues.riskAccounts ++ [row] }
  | .insuranceFund balanceAtoms => { queues with insuranceFundAtoms := some balanceAtoms }
  | .funding payload => { queues with pendingFunding := some payload }

def len : Nat :=
  queues.upserts.length + queues.deletes.length + queues.fills.length +
    queues.accounts.length + queues.trades.length + queues.matchingEvents.length +
    queues.positionOps.length + queues.riskAccounts.length +
    queues.insuranceFundAtoms.toList.length + queues.pendingFunding.toList.length

/-- Queue rows in their order. -/
def addAll (rows : List Row) : Queues :=
  rows.foldl add queues

@[simp] theorem addAll_nil : queues.addAll [] = queues := rfl

@[simp] theorem addAll_cons (row : Row) (rows : List Row) :
    queues.addAll (row :: rows) = (queues.add row).addAll rows := rfl

/-- Each kind of rows is queued in order; of fund balances and settlements the last
is kept. -/
theorem addAll_eq (rows : List Row) :
    queues.addAll rows = {
      pendingFunding := (rows.filterMap funding?).getLast?.or queues.pendingFunding
      upserts := queues.upserts ++ rows.filterMap upsert?
      deletes := queues.deletes ++ rows.filterMap delete?
      fills := queues.fills ++ rows.filterMap fill?
      accounts := queues.accounts ++ rows.filterMap account?
      trades := queues.trades ++ rows.filterMap trade?
      matchingEvents := queues.matchingEvents ++ rows.filterMap matchingEvent?
      positionOps := queues.positionOps ++ rows.filterMap position?
      riskAccounts := queues.riskAccounts ++ rows.filterMap riskAccount?
      insuranceFundAtoms :=
        (rows.filterMap insuranceFund?).getLast?.or queues.insuranceFundAtoms } := by
  induction rows generalizing queues with
  | nil => simp
  | cons row rest ih =>
    rw [addAll_cons, ih]
    cases row <;>
      simp [add, funding?, upsert?, delete?, fill?, account?,
        trade?, matchingEvent?, position?, riskAccount?,
        insuranceFund?, List.filterMap_cons, List.getLast?_cons]

theorem addAll_append (first second : List Row) :
    queues.addAll (first ++ second) = (queues.addAll first).addAll second :=
  List.foldl_append

end Queues

/-- `PgWriteBatch`.  Sequence numbers are kept by publisher. -/
structure PgWriteBatch where
  queues : Queues
  skipped : List SkipReason
  appliedSeq : Table Nat Nat
  pendingMaxSeq : Table Nat Nat
  duplicateSeqFrames : Nat
  seqGapFrames : Nat
  publisherRestarts : Nat

namespace PgWriteBatch

/-- `new`, followed by `set_applied_floors`. -/
def new (floors : Table Nat Nat) : PgWriteBatch where
  queues := .empty
  skipped := []
  appliedSeq := floors
  pendingMaxSeq := ∅
  duplicateSeqFrames := 0
  seqGapFrames := 0
  publisherRestarts := 0

variable (batch : PgWriteBatch)

/-- The highest sequence number a publisher's frames were admitted with. -/
def highest (publisherId : Nat) : Nat :=
  (batch.pendingMaxSeq.lookup publisherId).getD ((batch.appliedSeq.lookup publisherId).getD 0)

/-- Count a jump of sequence numbers. -/
def countJump (pending jump : Nat) : PgWriteBatch :=
  if pending > 0 ∧ jump > 1 then
    if jump > journalRestartJump then
      { batch with publisherRestarts := batch.publisherRestarts + 1 }
    else { batch with seqGapFrames := batch.seqGapFrames + (jump - 1) }
  else batch

def admitSeq (publisherId seq : Nat) : PgWriteBatch × Bool :=
  if seq = 0 then (batch, true)
  else
    let pending := batch.highest publisherId
    if seq ≤ pending then
      ({ batch with duplicateSeqFrames := batch.duplicateSeqFrames + 1 }, false)
    else
      let counted := batch.countJump pending (seq - pending)
      ({ counted with pendingMaxSeq := counted.pendingMaxSeq.insert publisherId seq }, true)

/-- Queue a row, or count why there is none. -/
def enqueue : Except SkipReason Row → PgWriteBatch × Bool
  | .error reason => ({ batch with skipped := reason :: batch.skipped }, false)
  | .ok row => ({ batch with queues := batch.queues.add row }, true)

def push (frame : PersistFrame) : PgWriteBatch × Bool :=
  match batch.admitSeq frame.publisherId frame.seq.toNat with
  | (batch, false) => (batch, false)
  | (batch, true) => batch.enqueue frame.payload.row

end PgWriteBatch
end LightningX.Persist
