import LightningX.Lib.CheckedTable
import LightningX.Persist.BatchSplit

/-!
# The constraints of the schema

The `CHECK` and `UNIQUE` constraints of the tables that `pg-writer` writes, as
the migrations leave them.  A flush whose rows violate one is rolled back, and
its batch is kept for the next attempt.
-/

namespace LightningX.Persist

open List Table RiskAccountColumns Function
open Desk (Asset)
open Risk (Symbol UserId)

/-! ## Constraints -/

def OrderColumns.Checked (columns : OrderColumns) : Prop :=
  0 ≤ columns.quantityAtoms ∧ 0 ≤ columns.filledAtoms ∧ columns.filledAtoms ≤ columns.quantityAtoms
deriving Decidable

def AccountColumns.Checked (columns : AccountColumns) : Prop :=
  0 ≤ columns.balanceAtoms ∧ 0 ≤ columns.frozenAtoms ∧ columns.frozenAtoms ≤ columns.balanceAtoms
deriving Decidable

/-- The check of `trades`; fees are not written. -/
def TradeColumns.Checked (columns : TradeColumns) : Prop :=
  0 ≤ columns.priceAtoms ∧ 0 ≤ columns.qtyAtoms
deriving Decidable

def PositionColumns.Checked (columns : PositionColumns) : Prop :=
  0 < columns.qtyLots ∧ 0 < columns.entryPriceTicks ∧
    (1 ≤ columns.leverage ∧ columns.leverage ≤ 125) ∧
    0 ≤ columns.usedMarginAtoms ∧ 0 ≤ columns.costAtoms
deriving Decidable

def RiskAccountColumns.Checked (columns : RiskAccountColumns) : Prop :=
  0 ≤ columns.usedMarginAtoms ∧ 0 ≤ columns.orderMarginAtoms
deriving Decidable

/-- Two orders of a user with one client order id. -/
def OrderColumns.Clashes (first second : OrderColumns) : Prop :=
  first.clientOrderId ≠ none ∧ first.userId = second.userId ∧
    first.clientOrderId = second.clientOrderId
deriving Decidable

/-- `idx_orders_user_client_order_id`. -/
def UniqueClientOrderIds (orders : Table Int OrderColumns) : Prop :=
  ∀ id ∈ orders.keys, ∀ row ∈ orders.lookup id, ∀ other ∈ orders.keys,
    ∀ otherRow ∈ orders.lookup other, row.Clashes otherRow → id = other
deriving Decidable

/-- The constraints of `orders`. -/
def OrdersValid (orders : Table Int OrderColumns) : Prop :=
  orders.All OrderColumns.Checked ∧ UniqueClientOrderIds orders
deriving Decidable

/-- The tables satisfy their constraints. -/
structure Database.Valid (db : Database) : Prop where
  orders : OrdersValid db.orders
  accounts : db.accounts.All AccountColumns.Checked
  trades : db.trades.All TradeColumns.Checked
  positions : db.positions.All PositionColumns.Checked
  riskAccounts : db.riskAccounts.All Checked
  fundingHistory : ∀ record ∈ db.fundingHistory, 0 < record.markPriceTicks

/-! ## Statements -/

def proposeUpserts (rows : List UpsertRow) : List (Proposal Int OrderColumns) :=
  (keepLast (·.id) rows).map fun row => ⟨⟨row.id, upsertOrder row.columns⟩, some row.columns⟩

def proposeFills (rows : List FillRow) : List (Proposal Int OrderColumns) :=
  (keepLast (·.id) rows).map fun row => ⟨⟨row.id, fillOrder row⟩, none⟩

def proposeAccounts (rows : List AccountRow) :
    List (Proposal (UserId × Asset) AccountColumns) :=
  (keepLast (fun row => (row.userId, row.asset)) rows).map fun row =>
    ⟨⟨(row.userId, row.asset), fun _ => some row.columns⟩, some row.columns⟩

def proposeTrades (rows : List TradeRow) : List (Proposal (Int × Int) TradeColumns) :=
  rows.map fun row =>
    ⟨⟨(row.buyOrderId, row.sellOrderId), (·.or (some row.columns))⟩, some row.columns⟩

/-- `flush_positions` with the rows it proposes. -/
def proposePositions (ops : List PositionOp) :
    List (Proposal (UserId × Symbol) PositionColumns) :=
  let kept := keepLast (fun op => (op.userId, op.symbol)) ops
  (kept.filter (·.columns.isSome) ++ kept.filter (·.columns.isNone)).map fun op =>
    ⟨op.write, op.columns⟩

def proposeRiskAccounts (rows : List RiskAccountRow) :
    List (Proposal UserId RiskAccountColumns) :=
  (keepLast (·.userId) rows).map fun row =>
    ⟨⟨row.userId, fun _ => some row.columns⟩, some row.columns⟩

section

variable (arith : Arithmetic)

/-- The flush violates no constraint. -/
@[mk_iff]
structure Database.FlushPasses (db : Database) (queues : Queues) : Prop where
  upserts : Passes OrdersValid OrderColumns.Checked db.orders (proposeUpserts queues.upserts)
  fills : Passes OrdersValid OrderColumns.Checked
    ((db.orders.writes (flushUpserts queues.upserts)).writes (flushDeletes queues.deletes))
    (proposeFills queues.fills)
  accounts : Passes (All AccountColumns.Checked) AccountColumns.Checked
    db.accounts (proposeAccounts queues.accounts)
  trades : Passes (All TradeColumns.Checked) TradeColumns.Checked
    db.trades (proposeTrades queues.trades)
  positions : Passes (All PositionColumns.Checked) PositionColumns.Checked
    db.positions (proposePositions queues.positionOps)
  riskAccounts : Passes (All Checked)
    Checked db.riskAccounts (proposeRiskAccounts queues.riskAccounts)
  funding : ∀ payload ∈ queues.pendingFunding, 0 < payload.markPriceTicks ∧
    ((db.flushRows queues).applyFundingSettlement arith payload).riskAccounts.All
      Checked

instance (db : Database) (queues : Queues) : Decidable (db.FlushPasses arith queues) :=
  decidable_of_iff _ (Database.flushPasses_iff arith db queues).symm

end

/-! ## Rows that fit -/

/-- The rows to insert fit the orders: amounts are in range, and client order ids are
new, also among these rows. -/
@[mk_iff]
structure UpsertsFit (orders : Table Int OrderColumns) (rows : List UpsertRow) : Prop where
  checked : ∀ row ∈ rows, row.columns.Checked
  updates : ∀ row ∈ rows, ∀ existing ∈ orders.lookup row.id,
    row.columns.filledAtoms ≤ existing.quantityAtoms
  inserts : ∀ row ∈ rows, orders.lookup row.id = none →
    ∀ other ∈ orders.keys, ∀ existing ∈ orders.lookup other, ¬ row.columns.Clashes existing
  together : rows.Pairwise fun first second => orders.lookup first.id = none →
    orders.lookup second.id = none → ¬ second.columns.Clashes first.columns

instance (orders : Table Int OrderColumns) (rows : List UpsertRow) :
    Decidable (UpsertsFit orders rows) :=
  decidable_of_iff _ (upsertsFit_iff orders rows).symm

/-- The order that a fill finds: the row that is there, or the last one inserted by the
batch, unless the batch deletes it. -/
def fillTarget (orders : Table Int OrderColumns) (queues : Queues) (id : Int) :
    Option OrderColumns :=
  if id ∈ queues.deletes then none
  else (orders.lookup id).or
    (((queues.upserts.filter fun row => row.id = id).getLast?).map (·.columns))

/-- The rows of a batch fit the database. -/
@[mk_iff]
structure Database.Fits (db : Database) (queues : Queues) : Prop where
  upserts : UpsertsFit db.orders (keepLast (·.id) queues.upserts)
  fills : ∀ row ∈ keepLast (·.id) queues.fills,
    ∀ target ∈ fillTarget db.orders queues row.id,
      0 ≤ row.filledAtoms ∧ row.filledAtoms ≤ target.quantityAtoms
  accounts : ∀ row ∈ keepLast (fun row => (row.userId, row.asset)) queues.accounts,
    row.columns.Checked
  trades : ∀ row ∈ queues.trades, row.columns.Checked
  positions : ∀ op ∈ keepLast (fun op => (op.userId, op.symbol)) queues.positionOps,
    ∀ columns ∈ op.columns, columns.Checked
  riskAccounts : ∀ row ∈ keepLast (·.userId) queues.riskAccounts, row.columns.Checked
  funding : ∀ payload ∈ queues.pendingFunding, 0 < payload.markPriceTicks

instance (db : Database) (queues : Queues) : Decidable (db.Fits queues) :=
  decidable_of_iff _ (Database.fits_iff db queues).symm

/-! ## Orders -/

theorem uniqueClientOrderIds_iff (orders : Table Int OrderColumns) :
    UniqueClientOrderIds orders ↔
      ∀ id row other otherRow, orders.lookup id = some row →
        orders.lookup other = some otherRow → row.Clashes otherRow → id = other := by
  constructor
  · intro unique id row other otherRow found otherFound
    exact unique id (Finmap.mem_keys.mpr (Finmap.mem_of_lookup_eq_some found)) row found
      other (Finmap.mem_keys.mpr (Finmap.mem_of_lookup_eq_some otherFound)) otherRow otherFound
  · intro unique id _ row found other _ otherRow otherFound
    exact unique id row other otherRow found otherFound

theorem OrderColumns.Clashes.symm {second : OrderColumns} (clashes : first.Clashes second) :
    second.Clashes first :=
  ⟨clashes.2.2 ▸ clashes.1, clashes.2.1.symm, clashes.2.2.symm⟩

/-- A write that keeps owner and client order id of the row keeps ids unique. -/
theorem UniqueClientOrderIds.write
    (unique : UniqueClientOrderIds orders)
    {write : Write Int OrderColumns}
    (keeps : ∀ row ∈ write.change (orders.lookup write.key),
      ∃ old ∈ orders.lookup write.key,
        old.userId = row.userId ∧ old.clientOrderId = row.clientOrderId) :
    UniqueClientOrderIds (orders.write write) := by
  have earlier : ∀ id row, (orders.write write).lookup id = some row →
      ∃ old, orders.lookup id = some old ∧
        old.userId = row.userId ∧ old.clientOrderId = row.clientOrderId := by
    intro id row found
    rw [lookup_write] at found
    split_ifs at found with here
    · subst here
      exact keeps row found
    · exact ⟨row, found, rfl, rfl⟩
  rw [uniqueClientOrderIds_iff] at unique ⊢
  intro id row other otherRow found otherFound clashes
  obtain ⟨old, oldFound, sameUser, sameId⟩ := earlier id row found
  obtain ⟨otherOld, otherOldFound, otherUser, otherId⟩ := earlier other otherRow otherFound
  refine unique id old other otherOld oldFound otherOldFound ?_
  unfold OrderColumns.Clashes at clashes ⊢
  rw [sameUser, sameId, otherUser, otherId]
  exact clashes

/-- No order of the table has the owner and client order id of these columns. -/
def NoClash (orders : Table Int OrderColumns) (columns : OrderColumns) : Prop :=
  ∀ other existing, orders.lookup other = some existing → ¬ columns.Clashes existing

theorem noClash_iff_keys (orders : Table Int OrderColumns) (columns : OrderColumns) :
    (∀ other ∈ orders.keys, ∀ existing ∈ orders.lookup other,
      ¬ columns.Clashes existing) ↔ NoClash orders columns := by
  constructor
  · intro none other existing found
    exact none other (Finmap.mem_keys.mpr (Finmap.mem_of_lookup_eq_some found)) existing found
  · intro none other _ existing found
    exact none other existing found

section

variable {orders : Table Int OrderColumns} (row : UpsertRow)

theorem noClash_upsert (columns : OrderColumns) :
    NoClash (orders.write ⟨row.id, upsertOrder row.columns⟩) columns ↔
      NoClash orders columns ∧ (orders.lookup row.id = none → ¬ columns.Clashes row.columns) := by
  cases found : orders.lookup row.id with
  | none =>
    constructor
    · intro none
      refine ⟨fun other existing otherFound => none other existing ?_, fun _ => ?_⟩
      · rw [lookup_write, if_neg]
        · exact otherFound
        · rintro rfl
          simp [found] at otherFound
      · refine none row.id row.columns ?_
        rw [lookup_write, if_pos rfl, found]
        rfl
    · rintro ⟨none, notRow⟩ other existing otherFound
      rw [lookup_write] at otherFound
      split_ifs at otherFound with here
      · subst here
        rw [found] at otherFound
        cases otherFound
        exact notRow rfl
      · exact none other existing otherFound
  | some old =>
    simp only [reduceCtorEq, false_implies, and_true]
    constructor
    · intro none other existing otherFound
      by_cases here : other = row.id
      · subst here
        rw [found] at otherFound
        cases otherFound
        refine none row.id
          { old with filledAtoms := row.columns.filledAtoms, status := row.columns.status } ?_
        rw [lookup_write, if_pos rfl, found]
        rfl
      · refine none other existing ?_
        rw [lookup_write, if_neg here]
        exact otherFound
    · intro none other existing otherFound
      rw [lookup_write] at otherFound
      split_ifs at otherFound with here
      · subst here
        rw [found] at otherFound
        cases otherFound
        exact none row.id old found
      · exact none other existing otherFound

/-- When a row to insert leaves the orders valid. -/
theorem OrdersValid.upsert_iff (valid : OrdersValid orders) (checked : row.columns.Checked) :
    OrdersValid (orders.write ⟨row.id, upsertOrder row.columns⟩) ↔
      (∀ existing ∈ orders.lookup row.id, row.columns.filledAtoms ≤ existing.quantityAtoms) ∧
      (orders.lookup row.id = none → NoClash orders row.columns) := by
  obtain ⟨all, unique⟩ := valid
  unfold OrdersValid
  rw [all.write_iff]
  cases found : orders.lookup row.id with
  | some old =>
    have oldChecked := all row.id old found
    have keeps : UniqueClientOrderIds (orders.write ⟨row.id, upsertOrder row.columns⟩) := by
      apply unique.write
      intro next isNext
      rw [found] at isNext ⊢
      cases isNext
      exact ⟨old, rfl, rfl, rfl⟩
    simp only [keeps, and_true, reduceCtorEq, false_implies, upsertOrder, Option.mem_def,
      Option.some.injEq, forall_eq']
    unfold OrderColumns.Checked at oldChecked checked ⊢
    simp only
    omega
  | none =>
    simp only [upsertOrder, Option.mem_def, Option.some.injEq, forall_eq', checked,
      true_and, reduceCtorEq, false_implies, implies_true, forall_const]
    rw [uniqueClientOrderIds_iff] at unique ⊢
    have after : ∀ id columns,
        (orders.write ⟨row.id, upsertOrder row.columns⟩).lookup id = some columns ↔
          if id = row.id then columns = row.columns else orders.lookup id = some columns := by
      intro id columns
      rw [lookup_write]
      split_ifs with here
      · subst here
        rw [found]
        exact ⟨fun same => (Option.some.inj same).symm, fun same => congrArg some same.symm⟩
      · rfl
    simp only [after]
    constructor
    · intro distinct other existing otherFound clashes
      have ne : other ≠ row.id := by
        rintro rfl
        simp [found] at otherFound
      refine ne (distinct row.id row.columns other existing ?_ ?_ clashes).symm
      · rw [if_pos rfl]
      · rw [if_neg ne]
        exact otherFound
    · intro none id first other second isFirst isSecond clashes
      split_ifs at isFirst isSecond with here there there
      · rw [here, there]
      · subst isFirst
        exact absurd clashes (none other second isSecond)
      · subst isSecond
        exact absurd clashes.symm (none id first isFirst)
      · exact unique id first other second isFirst isSecond clashes

end

/-- The rows that are left fit once the first one is in the table. -/
theorem upsertsFit_cons_iff (distinct : ∀ other ∈ rest, row.id ≠ other.id) :
    UpsertsFit orders (row :: rest) ↔
      row.columns.Checked ∧
      ((∀ existing ∈ orders.lookup row.id,
          row.columns.filledAtoms ≤ existing.quantityAtoms) ∧
        (orders.lookup row.id = none → NoClash orders row.columns)) ∧
      UpsertsFit (orders.write ⟨row.id, upsertOrder row.columns⟩) rest := by
  have same : ∀ other ∈ rest,
      (orders.write ⟨row.id, upsertOrder row.columns⟩).lookup other.id =
        orders.lookup other.id := by
    intro other mem
    rw [lookup_write, if_neg (distinct other mem).symm]
  simp only [upsertsFit_iff, noClash_iff_keys, forall_mem_cons, pairwise_cons]
  have updates : (∀ other ∈ rest, ∀ existing ∈
        (orders.write ⟨row.id, upsertOrder row.columns⟩).lookup other.id,
          other.columns.filledAtoms ≤ existing.quantityAtoms) ↔
      ∀ other ∈ rest, ∀ existing ∈ orders.lookup other.id,
        other.columns.filledAtoms ≤ existing.quantityAtoms :=
    forall₂_congr fun other mem => by rw [same other mem]
  have inserts : (∀ other ∈ rest,
        (orders.write ⟨row.id, upsertOrder row.columns⟩).lookup other.id = none →
          NoClash (orders.write ⟨row.id, upsertOrder row.columns⟩) other.columns) ↔
      (∀ other ∈ rest, orders.lookup other.id = none → NoClash orders other.columns) ∧
      ∀ other ∈ rest, orders.lookup row.id = none → orders.lookup other.id = none →
        ¬ other.columns.Clashes row.columns := by
    rw [← forall₂_and]
    refine forall₂_congr fun other mem => ?_
    rw [same other mem, noClash_upsert]
    tauto
  have together : (rest.Pairwise fun first second =>
        (orders.write ⟨row.id, upsertOrder row.columns⟩).lookup first.id = none →
        (orders.write ⟨row.id, upsertOrder row.columns⟩).lookup second.id = none →
          ¬ second.columns.Clashes first.columns) ↔
      rest.Pairwise fun first second => orders.lookup first.id = none →
        orders.lookup second.id = none → ¬ second.columns.Clashes first.columns := by
    refine List.Pairwise.iff_of_mem fun firstMember secondMember => ?_
    rw [same _ firstMember, same _ secondMember]
  tauto

theorem OrdersValid.passes_upserts_iff (valid : OrdersValid orders)
    (distinct : rows.Pairwise fun first second => first.id ≠ second.id) :
    Passes OrdersValid OrderColumns.Checked orders
        (rows.map fun row => ⟨⟨row.id, upsertOrder row.columns⟩, some row.columns⟩) ↔
      UpsertsFit orders rows := by
  induction rows generalizing orders with
  | nil => simp [Passes, upsertsFit_iff]
  | cons row rest ih =>
    obtain ⟨here, distinctRest⟩ := pairwise_cons.mp distinct
    have proposed : (∀ columns ∈ some row.columns, columns.Checked) ↔ row.columns.Checked := by simp
    rw [upsertsFit_cons_iff here]
    show (∀ columns ∈ some row.columns, columns.Checked) ∧ _ ∧ _ ↔ _
    rw [proposed]
    refine and_congr_right fun checked => ?_
    rw [← valid.upsert_iff row checked]
    exact and_congr_right fun validAfter => ih validAfter distinctRest

theorem OrdersValid.passes_fills_iff (valid : OrdersValid orders) {rows : List FillRow}
    (distinct : rows.Pairwise fun first second => first.id ≠ second.id) :
    Passes OrdersValid OrderColumns.Checked orders
        (rows.map fun row => ⟨⟨row.id, fillOrder row⟩, none⟩) ↔
      ∀ row ∈ rows, ∀ target ∈ orders.lookup row.id,
        0 ≤ row.filledAtoms ∧ row.filledAtoms ≤ target.quantityAtoms := by
  induction rows generalizing orders with
  | nil => simp [Passes]
  | cons row rest ih =>
    obtain ⟨here, distinctRest⟩ := pairwise_cons.mp distinct
    have unique : UniqueClientOrderIds (orders.write ⟨row.id, fillOrder row⟩) := by
      apply valid.2.write
      intro next isNext
      obtain ⟨old, found, rfl⟩ := Option.map_eq_some_iff.mp isNext
      exact ⟨old, found, rfl, rfl⟩
    have fits : OrdersValid (orders.write ⟨row.id, fillOrder row⟩) ↔
        ∀ target ∈ orders.lookup row.id,
          0 ≤ row.filledAtoms ∧ row.filledAtoms ≤ target.quantityAtoms := by
      unfold OrdersValid
      rw [valid.1.write_iff]
      simp only [unique]
      cases found : orders.lookup row.id with
      | none => simp [fillOrder]
      | some old =>
        have oldChecked := valid.1 row.id old found
        simp [fillOrder, OrderColumns.Checked, oldChecked.1]
    have same : ∀ other ∈ rest,
        (orders.write ⟨row.id, fillOrder row⟩).lookup other.id = orders.lookup other.id := by
      intro other mem
      rw [lookup_write, if_neg (here other mem).symm]
    rw [map_cons, Passes, forall_mem_cons, ← fits]
    simp only [Option.mem_def, reduceCtorEq, false_implies, implies_true, true_and]
    refine and_congr_right fun validAfter => ?_
    rw [ih validAfter distinctRest]
    exact forall₂_congr fun other mem => by rw [same other mem]; rfl

theorem OrdersValid.deletes (valid : OrdersValid orders) (ids : List Int) :
    OrdersValid (orders.writes (flushDeletes ids)) := by
  unfold flushDeletes
  generalize ids.dedup = list
  induction list generalizing orders with
  | nil => exact valid
  | cons id rest ih => refine ih ⟨(valid.1.write_iff _).mpr (by simp), valid.2.write (by simp)⟩

/-- What a fill finds after the rows that are inserted and deleted. -/
theorem quantity_fillTarget (orders : Table Int OrderColumns) (queues : Queues) (id : Int) :
    ((((orders.writes (flushUpserts queues.upserts)).writes
        (flushDeletes queues.deletes)).lookup id).map (·.quantityAtoms)) =
      (fillTarget orders queues id).map (·.quantityAtoms) := by
  unfold fillTarget flushUpserts
  rw [lookup_writes, lookup_writes, cell_flushDeletes,
    cell_map (fun row : UpsertRow => row.id) (fun row => upsertOrder row.columns),
    filter_keepLast]
  split_ifs
  · rfl
  · cases (queues.upserts.filter fun row => row.id = id).getLast? with
    | none => simp
    | some row => cases orders.lookup id <;> rfl

theorem forall_fillTarget_iff (orders : Table Int OrderColumns) (queues : Queues) (id : Int)
    (fits : Int → Prop) :
    (∀ target ∈ ((orders.writes (flushUpserts queues.upserts)).writes
        (flushDeletes queues.deletes)).lookup id, fits target.quantityAtoms) ↔
      ∀ target ∈ fillTarget orders queues id, fits target.quantityAtoms := by
  have mapped (found : Option OrderColumns) :
      (∀ target ∈ found, fits target.quantityAtoms) ↔
        ∀ quantity ∈ found.map (·.quantityAtoms), fits quantity := by
    simp
  rw [mapped, mapped, quantity_fillTarget]

/-! ## The whole flush -/

theorem toWrite_proposeUpserts (rows : List UpsertRow) :
    (proposeUpserts rows).map (·.toWrite) = flushUpserts rows := by
  simp [proposeUpserts, flushUpserts]

theorem toWrite_proposeFills (rows : List FillRow) :
    (proposeFills rows).map (·.toWrite) = flushFills rows := by
  simp [proposeFills, flushFills]

theorem toWrite_proposeAccounts (rows : List AccountRow) :
    (proposeAccounts rows).map (·.toWrite) = flushAccounts rows := by
  simp [proposeAccounts, flushAccounts]

theorem toWrite_proposeTrades (rows : List TradeRow) :
    (proposeTrades rows).map (·.toWrite) = flushTrades rows := by
  simp [proposeTrades, flushTrades]

theorem toWrite_proposePositions (ops : List PositionOp) :
    (proposePositions ops).map (·.toWrite) = flushPositions ops := by
  simp [proposePositions, flushPositions, comp_def]

theorem toWrite_proposeRiskAccounts (rows : List RiskAccountRow) :
    (proposeRiskAccounts rows).map (·.toWrite) = flushRiskAccounts rows := by
  simp [proposeRiskAccounts, flushRiskAccounts]

section

variable (arith : Arithmetic)

namespace Database

variable {db : Database} (valid : db.Valid) (queues : Queues)

/-- A settlement changes no column that is checked. -/
theorem all_riskAccounts_applyFundingSettlement
    (all : db.riskAccounts.All Checked) (payload : FundingSettledPayload) :
    (db.applyFundingSettlement arith payload).riskAccounts.All Checked := by
  intro userId row found
  simp only [applyFundingSettlement] at found
  rw [lookup_mapRows] at found
  obtain ⟨old, oldFound, rfl⟩ := Option.map_eq_some_iff.mp found
  exact all userId old oldFound

include valid

theorem Valid.passes_trades_iff :
    Passes (All TradeColumns.Checked) TradeColumns.Checked db.trades
        (proposeTrades queues.trades) ↔
      ∀ row ∈ queues.trades, row.columns.Checked := by
  unfold proposeTrades
  rw [valid.trades.passes_iff]
  · simp
  · rw [forall_mem_map]
    intro row _ checked old oldChecked written isWritten
    cases old with
    | none => exact checked written isWritten
    | some existing => exact oldChecked written isWritten

theorem Valid.passes_positions_iff :
    Passes (All PositionColumns.Checked) PositionColumns.Checked db.positions
        (proposePositions queues.positionOps) ↔
      ∀ op ∈ keepLast (fun op => (op.userId, op.symbol)) queues.positionOps,
        ∀ columns ∈ op.columns, columns.Checked := by
  refine (valid.positions.passes_overwrite_iff
    (fun op : PositionOp => (op.userId, op.symbol)) (·.columns) _).trans ?_
  constructor
  · intro all op mem columns found
    refine all op (mem_append_left _ (mem_filter.mpr ⟨mem, ?_⟩)) columns found
    rw [Option.mem_def.mp found]
    rfl
  · intro all op mem
    rcases mem_append.mp mem with kept | kept
    · exact all op (mem_filter.mp kept).1
    · exact all op (mem_filter.mp kept).1

/-- A flush passes if its rows fit, and only then. -/
theorem Valid.flushPasses_iff_fits : db.FlushPasses arith queues ↔ db.Fits queues := by
  have upserts : Passes OrdersValid OrderColumns.Checked db.orders
      (proposeUpserts queues.upserts) ↔ UpsertsFit db.orders (keepLast (·.id) queues.upserts) :=
    valid.orders.passes_upserts_iff (pairwise_keepLast _ _)
  have accounts : Passes (All AccountColumns.Checked) AccountColumns.Checked
      db.accounts (proposeAccounts queues.accounts) ↔
        ∀ row ∈ keepLast (fun row => (row.userId, row.asset)) queues.accounts,
          row.columns.Checked :=
    (valid.accounts.passes_overwrite_iff (fun row : AccountRow => (row.userId, row.asset))
      (fun row => some row.columns) _).trans (by simp)
  have riskAccounts : Passes (All Checked)
      Checked db.riskAccounts (proposeRiskAccounts queues.riskAccounts) ↔
        ∀ row ∈ keepLast (·.userId) queues.riskAccounts, row.columns.Checked :=
    (valid.riskAccounts.passes_overwrite_iff (fun row : RiskAccountRow => row.userId)
      (fun row => some row.columns) _).trans (by simp)
  rw [flushPasses_iff, fits_iff, upserts, accounts, valid.passes_trades_iff,
    valid.passes_positions_iff]
  refine and_congr_right fun fits => and_congr ?_ (and_congr_right fun _ =>
    and_congr_right fun _ => and_congr_right fun _ => ?_)
  · have passes := (upserts.mpr fits).valid_writes valid.orders
    rw [toWrite_proposeUpserts] at passes
    have fills := (passes.deletes queues.deletes).passes_fills_iff
      (pairwise_keepLast (fun row : FillRow => row.id) queues.fills)
    refine fills.trans (forall₂_congr fun row _ => ?_)
    exact forall_fillTarget_iff db.orders queues row.id fun quantity =>
      0 ≤ row.filledAtoms ∧ row.filledAtoms ≤ quantity
  · rw [riskAccounts]
    refine and_congr_right fun checked => forall₂_congr fun payload _ => ?_
    have passes := (riskAccounts.mpr checked).valid_writes valid.riskAccounts
    rw [toWrite_proposeRiskAccounts] at passes
    exact and_iff_left (all_riskAccounts_applyFundingSettlement arith passes payload)

/-- A flush that passes leaves a database that satisfies its constraints. -/
theorem Valid.flushQueues (passes : db.FlushPasses arith queues) :
    (db.flushQueues arith queues).Valid := by
  have orders := passes.upserts.valid_writes valid.orders
  rw [toWrite_proposeUpserts] at orders
  have filled := passes.fills.valid_writes (orders.deletes queues.deletes)
  rw [toWrite_proposeFills] at filled
  have accounts := passes.accounts.valid_writes valid.accounts
  rw [toWrite_proposeAccounts] at accounts
  have trades := passes.trades.valid_writes valid.trades
  rw [toWrite_proposeTrades] at trades
  have positions := passes.positions.valid_writes valid.positions
  rw [toWrite_proposePositions] at positions
  have riskAccounts := passes.riskAccounts.valid_writes valid.riskAccounts
  rw [toWrite_proposeRiskAccounts] at riskAccounts
  unfold Database.flushQueues
  cases waits : queues.pendingFunding with
  | none => exact ⟨filled, accounts, trades, positions, riskAccounts, valid.fundingHistory⟩
  | some payload =>
    obtain ⟨positive, settled⟩ := passes.funding payload waits
    refine ⟨filled, accounts, trades, positions, settled, fun record mem => ?_⟩
    rcases mem_append.mp mem with old | new
    · exact valid.fundingHistory record old
    · rw [mem_singleton.mp new]
      exact positive

omit valid in
theorem valid_new : Database.new.Valid where
  orders := by decide +kernel
  accounts := by decide +kernel
  trades := by decide +kernel
  positions := by decide +kernel
  riskAccounts := by decide +kernel
  fundingHistory := by decide +kernel

/-- From a database that satisfies its constraints, a batch can be flushed exactly if
its rows fit, and then the constraints hold again. -/
theorem Valid.flushPasses_iff (batch : PgWriteBatch) :
    (db.FlushPasses arith batch.queues ↔ db.Fits batch.queues) ∧
      (db.FlushPasses arith batch.queues → (db.commit arith batch).Valid) := by
  refine ⟨valid.flushPasses_iff_fits arith batch.queues, fun passes => ?_⟩
  have next := valid.flushQueues arith batch.queues passes
  exact ⟨next.orders, next.accounts, next.trades, next.positions, next.riskAccounts,
    next.fundingHistory⟩

end Database
end

/-- A bid of user 4 whose client order id is `a`. -/
def PersistFrame.bidNamed (id : Int) (seq : UInt64) : PersistFrame where
  publisherId := 0
  seq := seq
  payload := .orderUpsert {
    id := id
    userId := 4
    symbol := 7
    side := 0
    status := 0
    orderType := packStr 16 [108, 105, 109, 105, 116]
    price := .ofAtoms 10000000000000
    qty := .ofAtoms 10000
    filled := .ofAtoms 0
    freezePrice := .ofAtoms 0
    clientOrderId := packStr 32 [97]
    createdAtMs := 1700000000000 }

namespace Database

open PersistFrame

theorem flushPasses_accepted :
    Database.new.FlushPasses .machine
      ((PgWriteBatch.new ∅).pushAll [bidNamed 1 1, bidTraded 2]).queues :=
  ((valid_new.flushPasses_iff .machine
    ((PgWriteBatch.new ∅).pushAll [bidNamed 1 1, bidTraded 2])).1).mpr (by decide +kernel)

/-- A client used its order id twice. -/
theorem not_flushPasses_clientOrderIdTwice :
    ¬ Database.new.FlushPasses .machine
      ((PgWriteBatch.new ∅).pushAll [bidNamed 1 1, bidNamed 2 2]).queues := by
  decide +kernel

end Database

/-! ## Batches and single frames -/

namespace Writer

section

variable (arith : Arithmetic)

/-- The frames and what the batch has kept violate no constraint. -/
def Passes (writer : Writer) (frames : List PersistFrame) : Prop :=
  writer.db.FlushPasses arith (writer.batch.pushAll frames).queues
deriving Decidable

/-- A flush that violates a constraint is rolled back, and the batch is kept. -/
def commitBatch (writer : Writer) (frames : List PersistFrame) : Writer :=
  if writer.Passes arith frames then writer.flushBatch arith frames
  else { writer with batch := writer.batch.pushAll frames }

def commitBatches (writer : Writer) (batches : List (List PersistFrame)) : Writer :=
  batches.foldl (commitBatch arith) writer

/-- One frame at a time. -/
def commitEach (writer : Writer) (frames : List PersistFrame) : Writer :=
  writer.commitBatches arith (frames.map ([·]))

/-- After each flush the database is the one that the frames so far leave one at a time. -/
def CommitsFreely (db : Database) (batches : List (List PersistFrame)) : Prop :=
  ∀ count, ((start db).commitBatches arith (batches.take count)).db =
    ((start db).commitEach arith (batches.take count).flatten).db

/-- No flush of the run violates a constraint. -/
def RunPasses (writer : Writer) (batches : List (List PersistFrame)) : Prop :=
  Along (flushBatch arith) (Passes arith) writer batches
deriving Decidable

variable {writer : Writer} {batches : List (List PersistFrame)}

theorem commitBatches_eq (passes : writer.RunPasses arith batches) :
    writer.commitBatches arith batches = writer.flushBatches arith batches := by
  induction batches generalizing writer with
  | nil => rfl
  | cons frames batches ih =>
    obtain ⟨here, later⟩ := passes
    rw [flushBatches_cons, ← ih later, commitBatches, foldl_cons, commitBatch, if_pos here]
    rfl

theorem RunPasses.earlier {first : List (List PersistFrame)}
    (passes : writer.RunPasses arith batches) (starts : first <+: batches) :
    writer.RunPasses arith first := by
  obtain ⟨rest, rfl⟩ := starts
  exact (Along.append_iff.mp passes).1

/-- Where no flush violates a constraint, cutting a stream into batches makes no difference to
the database after any of them exactly if every batch is mergeable when it is flushed. -/
theorem commitsFreely_iff_runMergeable {db : Database}
    (plain : ∀ frames ∈ batches, Plain frames) (passes : (start db).RunPasses arith batches)
    (alone : (start db).RunPasses arith (batches.flatten.map ([·]))) :
    CommitsFreely arith db batches ↔ RunMergeable arith (start db) batches := by
  have synced : Synced (start db) (start db) :=
    ⟨settled_start db, settled_start db, rfl, fun _ => rfl⟩
  rw [← synced.splitsFreely_iff arith plain]
  refine forall_congr' fun count => ?_
  have begins : batches.take count <+: batches := take_prefix count batches
  have cut : (batches.take count).flatten <+: batches.flatten :=
    ⟨(batches.drop count).flatten, by rw [← flatten_append, take_append_drop]⟩
  rw [commitBatches_eq arith (passes.earlier arith begins), commitEach,
    commitBatches_eq arith (alone.earlier arith (cut.map _)), flushEach]

end

open PersistFrame

/-- Frames in the order of the order's life may be cut anywhere. -/
theorem commitsFreely_acceptedFirst :
    CommitsFreely .machine .new [[bidAccepted 1, bidTraded 2], [bidDeleted 3]] :=
  (@commitsFreely_iff_runMergeable .machine [[bidAccepted 1, bidTraded 2], [bidDeleted 3]] .new
    (by decide +kernel) (by decide +kernel) (by decide +kernel)).mpr (by decide +kernel)

/-- The trade thread published its fill before the update thread flushed the
acceptance.  Alone the fill finds no row; in one batch it is applied last. -/
theorem not_commitsFreely_tradedFirst :
    ¬ CommitsFreely .machine .new [[bidTraded 1, bidAccepted 2]] := by
  intro free
  exact absurd (free 1) (by decide +kernel)

end Writer
end LightningX.Persist
