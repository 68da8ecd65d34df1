import LightningX.Lib.Along
import LightningX.Persist.OrderRows

/-!
# Cutting the stream into batches

A flush writes its rows kind by kind and keeps the last row of each key.  This
module compares the database after each flush with the database that the same
frames leave when each is flushed alone.
-/

namespace LightningX.Persist

open List Table Row Queues Database PgWriteBatch
open Desk (Asset)
open Risk (Symbol UserId)

/-- The writer with its database. -/
structure Writer where
  db : Database
  batch : PgWriteBatch

/-- A writer that just loaded its checkpoints. -/
def Writer.start (db : Database) : Writer where
  db := db
  batch := .new (loadCheckpoints db.checkpoints)

section

variable (arith : Arithmetic)

namespace Writer

def flushBatch (writer : Writer) (frames : List PersistFrame) : Writer :=
  let (db, batch) := (writer.batch.pushAll frames).flush arith writer.db none
  { db := db, batch := batch }

def flushBatches (writer : Writer) (batches : List (List PersistFrame)) : Writer :=
  batches.foldl (flushBatch arith) writer

def flushEach (writer : Writer) (frames : List PersistFrame) : Writer :=
  writer.flushBatches arith (frames.map ([·]))

@[simp] theorem flushBatches_nil (writer : Writer) : writer.flushBatches arith [] = writer := rfl

@[simp] theorem flushBatches_cons (writer : Writer) (frames : List PersistFrame)
    (batches : List (List PersistFrame)) :
    writer.flushBatches arith (frames :: batches) =
      (writer.flushBatch arith frames).flushBatches arith batches := rfl

@[simp] theorem flushEach_cons (writer : Writer) (frame : PersistFrame)
    (frames : List PersistFrame) :
    writer.flushEach arith (frame :: frames) =
      (writer.flushBatch arith [frame]).flushEach arith frames := rfl

theorem flushEach_append (writer : Writer) (first second : List PersistFrame) :
    writer.flushEach arith (first ++ second) =
      (writer.flushEach arith first).flushEach arith second := by
  unfold flushEach flushBatches
  rw [map_append, foldl_append]

end Writer

/-! ## Rows one after the other -/

/-- The order a row is about, and what it does to it. -/
def Row.orderOp : Row → Option (Int × OrderOp)
  | upsert row => some (row.id, .upsert row.columns)
  | delete id => some (id, .delete)
  | fill row => some (row.id, .fill row)
  | _ => none

variable (id : Int)

def orderOps (rows : List Row) : List OrderOp :=
  ((rows.filterMap orderOp).filter fun op => op.1 = id).map (·.2)

theorem orderOps_cons (row : Row) (rows : List Row) :
    orderOps id (row :: rows) =
      (row.orderOp.toList.filter fun op => op.1 = id).map (·.2) ++ orderOps id rows := by
  unfold orderOps
  cases op : row.orderOp with
  | none => simp [op]
  | some pair => by_cases mine : pair.1 = id <;> simp [op, mine]

theorem upserts_orderOps (rows : List Row) :
    OrderOp.upserts (orderOps id rows) =
      ((rows.filterMap upsert?).filter fun row => row.id = id).map (·.columns) := by
  induction rows with
  | nil => rfl
  | cons row rest ih =>
    unfold OrderOp.upserts at ih ⊢
    rw [orderOps_cons, filterMap_append, ih, filterMap_cons]
    cases row with
    | upsert row =>
      by_cases mine : row.id = id <;>
        simp [orderOp, upsert?, OrderOp.upsert?, mine]
    | delete other =>
      by_cases mine : other = id <;>
        simp [orderOp, upsert?, OrderOp.upsert?]
    | fill row =>
      by_cases mine : row.id = id <;>
        simp [orderOp, upsert?, OrderOp.upsert?]
    | _ => simp [orderOp, upsert?]

theorem fills_orderOps (rows : List Row) :
    OrderOp.fills (orderOps id rows) = (rows.filterMap fill?).filter fun row => row.id = id := by
  induction rows with
  | nil => rfl
  | cons row rest ih =>
    unfold OrderOp.fills at ih ⊢
    rw [orderOps_cons, filterMap_append, ih, filterMap_cons]
    cases row with
    | upsert row => by_cases mine : row.id = id <;> simp [orderOp, fill?, OrderOp.fill?]
    | delete other => by_cases mine : other = id <;> simp [orderOp, fill?, OrderOp.fill?]
    | fill row => by_cases mine : row.id = id <;> simp [orderOp, fill?, OrderOp.fill?, mine]
    | _ => simp [orderOp, fill?]

theorem delete_mem_orderOps (rows : List Row) :
    OrderOp.delete ∈ orderOps id rows ↔ id ∈ rows.filterMap delete? := by
  induction rows with
  | nil => simp [orderOps]
  | cons row rest ih =>
    rw [orderOps_cons, mem_append, ih]
    cases row with
    | upsert row => by_cases mine : row.id = id <;> simp [orderOp, delete?]
    | delete other =>
      by_cases mine : other = id
      · simp [orderOp, delete?, mine]
      · simp [orderOp, delete?, mine, Ne.symm mine]
    | fill row => by_cases mine : row.id = id <;> simp [orderOp, delete?]
    | _ => simp [orderOp, delete?]

def orderWrites (rows : List Row) : List (Write Int OrderColumns) :=
  (rows.filterMap orderOp).map fun op => ⟨op.1, op.2.change⟩

theorem changes_cell_orderWrites (rows : List Row) (row : Option OrderColumns) :
    changes (cell id (orderWrites rows)) row = OrderOp.sequential (orderOps id rows) row := by
  unfold orderWrites OrderOp.sequential orderOps
  rw [cell_map (fun op : Int × OrderOp => op.1) (fun op => op.2.change), map_map]
  rfl

def orderFlush (queues : Queues) : List (Write Int OrderColumns) :=
  flushUpserts queues.upserts ++ flushDeletes queues.deletes ++ flushFills queues.fills

theorem cell_flushDeletes (ids : List Int) :
    cell id (flushDeletes ids) = if id ∈ ids then [fun _ => none] else [] := by
  unfold flushDeletes
  rw [cell_map (fun id : Int => id) (fun _ _ => none)]
  have single : ids.dedup.filter (fun other => other = id) = if id ∈ ids then [id] else [] := by
    have counted := count_dedup ids id
    rw [filter_eq, counted]
    split_ifs <;> rfl
  rw [single]
  split_ifs <;> rfl

theorem changes_cell_orderFlush (rows : List Row) (row : Option OrderColumns) :
    changes (cell id (orderFlush (empty.addAll rows))) row =
      OrderOp.batched (orderOps id rows) row := by
  unfold orderFlush OrderOp.batched flushUpserts flushFills
  rw [addAll_eq]
  simp only [empty, nil_append]
  rw [cell_append, cell_append, cell_flushDeletes,
    cell_map (fun row : UpsertRow => row.id) (fun row => upsertOrder row.columns),
    cell_map (fun row : FillRow => row.id) fillOrder,
    filter_keepLast, filter_keepLast, upserts_orderOps, fills_orderOps]
  simp only [delete_mem_orderOps, List.getLast?_map]
  cases ((rows.filterMap upsert?).filter fun row => row.id = id).getLast? <;> rfl

/-- Set a position or delete it; there is one operation for each key. -/
theorem writes_flushPositions (table : Table (UserId × Symbol) PositionColumns)
    (ops : List PositionOp) :
    table.writes (flushPositions ops) = table.writes (ops.map PositionOp.write) := by
  rw [writes_eq_iff]
  intro target
  unfold flushPositions PositionOp.write
  rw [cell_append,
    cell_map (fun op : PositionOp => (op.userId, op.symbol)) (fun op _ => op.columns),
    cell_map (fun op : PositionOp => (op.userId, op.symbol)) (fun op _ => op.columns),
    cell_map (fun op : PositionOp => (op.userId, op.symbol)) (fun op _ => op.columns),
    filter_comm, filter_keepLast, filter_comm, filter_keepLast,
    changes_constant (fun op : PositionOp => op.columns) (ops.filter _)]
  cases (ops.filter fun op => (op.userId, op.symbol) = target).getLast? with
  | none => rfl
  | some op => cases kept : op.columns <;> simp [kept]

namespace Database

/-- Flush rows one after the other. -/
def applyEach (db : Database) (rows : List Row) : Database :=
  rows.foldl (fun db row => db.flushQueues arith (empty.add row)) db

/-- What the rows of a batch do to the tables, apart from `orders`. -/
def applyRest (db : Database) (rows : List Row) : Database :=
  { db with
    accounts := db.accounts.writes ((rows.filterMap account?).map fun row =>
      ⟨(row.userId, row.asset), fun _ => some row.columns⟩)
    trades := db.trades.writes (flushTrades (rows.filterMap trade?))
    matchingEvents := db.matchingEvents.writes (flushMatchingEvents (rows.filterMap matchingEvent?))
    positions := db.positions.writes ((rows.filterMap position?).map PositionOp.write)
    riskAccounts := db.riskAccounts.writes ((rows.filterMap riskAccount?).map fun row =>
      ⟨row.userId, fun _ => some row.columns⟩)
    insuranceFundAtoms := (rows.filterMap insuranceFund?).getLast?.getD db.insuranceFundAtoms }

section

variable (db : Database)

theorem flushRows_addAll (rows : List Row) :
    db.flushRows (empty.addAll rows) =
      { db.applyRest rows with
        orders := db.orders.writes (orderFlush (empty.addAll rows)) } := by
  unfold flushRows applyRest orderFlush flushAccounts flushRiskAccounts
  rw [writes_append, writes_append, addAll_eq]
  simp only [empty, nil_append, Option.or_none]
  rw [writes_keepLast (fun row : AccountRow => (row.userId, row.asset))
      (fun row => some row.columns),
    writes_keepLast (fun row : RiskAccountRow => row.userId)
      (fun row => some row.columns), writes_flushPositions]

theorem applyRest_append (first second : List Row) :
    db.applyRest (first ++ second) = (db.applyRest first).applyRest second := by
  simp only [applyRest, flushTrades, flushMatchingEvents, filterMap_append,
    map_append, writes_append, List.getLast?_append, Option.getD_or]

theorem flushQueues_single (plain : row.funding? = none) :
    db.flushQueues arith (empty.add row) =
      { db.applyRest [row] with orders := db.orders.writes (orderWrites [row]) } := by
  have noFunding : (empty.add row).pendingFunding = none := by
    cases row <;> first | rfl | simp [funding?] at plain
  have sameWrites : orderFlush (empty.add row) = orderWrites [row] := by
    cases row <;> simp [orderFlush, orderWrites, add, empty, flushUpserts,
      flushDeletes, flushFills, keepLast, orderOp, OrderOp.change]
  unfold flushQueues
  rw [noFunding]
  have flushed := db.flushRows_addAll [row]
  rw [addAll_cons, addAll_nil, sameWrites] at flushed
  exact flushed

/-- Rows flushed alone are written in their order. -/
theorem applyEach_eq (plain : ∀ row ∈ rows, row.funding? = none) :
    db.applyEach arith rows =
      { db.applyRest rows with orders := db.orders.writes (orderWrites rows) } := by
  induction rows generalizing db with
  | nil => rfl
  | cons row rest ih =>
    have plainRest : ∀ row ∈ rest, row.funding? = none :=
      fun row mem => plain row (mem_cons_of_mem _ mem)
    have split : db.applyRest (row :: rest) = (db.applyRest [row]).applyRest rest :=
      db.applyRest_append [row] rest
    show applyEach arith (db.flushQueues arith (empty.add row)) rest = _
    rw [ih _ plainRest, flushQueues_single arith db (plain row mem_cons_self), split]
    have writes : orderWrites (row :: rest) = orderWrites [row] ++ orderWrites rest := by
      unfold orderWrites
      rw [← map_append, ← filterMap_append]
      rfl
    rw [writes, writes_append]
    rfl

/-- When a flush leaves what its rows leave one after the other. -/
theorem flushQueues_eq_applyEach_iff (plain : ∀ row ∈ rows, row.funding? = none) :
    db.flushQueues arith (empty.addAll rows) = db.applyEach arith rows ↔
      ∀ id, OrderOp.Mergeable (db.orders.lookup id) (orderOps id rows) := by
  have noFunding : (empty.addAll rows).pendingFunding = none := by
    have none : rows.filterMap funding? = [] := filterMap_eq_nil_iff.mpr plain
    rw [addAll_eq, none]
    rfl
  unfold flushQueues
  rw [noFunding]
  rw [flushRows_addAll, applyEach_eq arith db plain]
  simp only [mk.injEq, and_true]
  rw [writes_eq_iff]
  simp only [changes_cell_orderFlush, changes_cell_orderWrites, OrderOp.batched_eq_sequential_iff]

theorem flushQueues_empty : db.flushQueues arith .empty = db := rfl

/-- The tables of rows do not depend on the checkpoints. -/
theorem flushQueues_setCheckpoints (queues : Queues) (checkpoints : Table Nat Int) :
    { db with checkpoints := checkpoints : Database }.flushQueues arith queues =
      { db.flushQueues arith queues with checkpoints := checkpoints } := by
  unfold flushQueues
  cases queues.pendingFunding <;> rfl

theorem checkpoints_flushQueues (queues : Queues) :
    (db.flushQueues arith queues).checkpoints = db.checkpoints := by
  unfold flushQueues
  cases queues.pendingFunding <;> rfl

theorem applyEach_setCheckpoints (rows : List Row) (checkpoints : Table Nat Int) :
    { db with checkpoints := checkpoints : Database }.applyEach arith rows =
      { db.applyEach arith rows with checkpoints := checkpoints } := by
  induction rows generalizing db with
  | nil => rfl
  | cons row rest ih =>
    show applyEach arith (flushQueues arith _ (empty.add row)) rest = _
    rw [flushQueues_setCheckpoints, ih]
    rfl

theorem checkpoints_applyEach (rows : List Row) :
    (db.applyEach arith rows).checkpoints = db.checkpoints := by
  induction rows generalizing db with
  | nil => rfl
  | cons row rest ih => exact (ih _).trans (checkpoints_flushQueues arith db _)

theorem applyEach_append (first second : List Row) :
    db.applyEach arith (first ++ second) = (db.applyEach arith first).applyEach arith second :=
  foldl_append

/-- At most one row is flushed at a time. -/
theorem flushQueues_addAll_of_length_le_one (short : rows.length ≤ 1) :
    db.flushQueues arith (empty.addAll rows) = db.applyEach arith rows := by
  cases rows with
  | nil => exact flushQueues_empty arith db
  | cons row rest =>
    obtain rfl : rest = [] := length_eq_zero_iff.mp (by simpa using short)
    rfl

end

theorem setCheckpoints_eq_iff {other : Database}
    (same : db.checkpoints = other.checkpoints) (first second : Table Nat Int) :
    { db with checkpoints := first : Database } = { other with checkpoints := second } ↔
      db = other ∧ first = second := by
  constructor
  · intro equal
    refine ⟨?_, congrArg checkpoints equal⟩
    have restored :=
      congrArg (fun db : Database => { db with checkpoints := other.checkpoints }) equal
    rw [← same] at restored
    exact restored.trans (by rw [same])
  · rintro ⟨rfl, rfl⟩
    rfl

end Database

/-! ## Batches -/

namespace Writer

variable {frames : List PersistFrame}

/-- Nothing waits, and the checkpoints are covered by the numbers admitted. -/
structure Settled (writer : Writer) : Prop where
  queues : writer.batch.queues = .empty
  pending : writer.batch.pendingMaxSeq = ∅
  covered : ∀ publisherId, ∀ last ∈ writer.db.checkpoints.lookup publisherId,
    last ≤ writer.batch.highest publisherId

theorem settled_start (db : Database) : (start db).Settled where
  queues := rfl
  pending := rfl
  covered := by
    intro publisherId last found
    obtain found : db.checkpoints.lookup publisherId = some last := found
    show last ≤ ((((∅ : Table Nat Nat).lookup publisherId).getD
      (((loadCheckpoints db.checkpoints).lookup publisherId).getD 0) : Nat) : Int)
    unfold loadCheckpoints
    rw [lookup_mapRows, found]
    exact Int.self_le_toNat last

def admitted (writer : Writer) (frames : List PersistFrame) : List PersistFrame :=
  writer.batch.admitted frames

/-- The rows of a batch. -/
def rows (writer : Writer) (frames : List PersistFrame) : List Row :=
  (writer.admitted frames).flatMap PersistFrame.rows

namespace Settled

variable {writer : Writer} (settled : writer.Settled)
include settled

theorem monotone : writer.batch.Monotone :=
  PgWriteBatch.monotone_of_pending_empty settled.pending

theorem highest_flushBatch (frames : List PersistFrame) (publisherId : Nat) :
    (writer.flushBatch arith frames).batch.highest publisherId =
      (writer.batch.pushAll frames).highest publisherId :=
  PgWriteBatch.highest_committed (settled.monotone.pushAll frames) publisherId

theorem db_flushBatch (frames : List PersistFrame) :
    (writer.flushBatch arith frames).db =
      { writer.db.flushQueues arith (empty.addAll (writer.rows frames)) with
        checkpoints :=
          flushCheckpoints (writer.batch.pushAll frames).pendingMaxSeq writer.db.checkpoints } := by
  show writer.db.commit arith _ = _
  unfold commit rows admitted
  rw [PgWriteBatch.queues_pushAll, settled.queues]

/-- A flush raises the checkpoint of a publisher to its last number. -/
theorem checkpoints_flushBatch (frames : List PersistFrame) (publisherId : Nat) :
    (writer.flushBatch arith frames).db.checkpoints.lookup publisherId =
      (sequenceOf publisherId (writer.admitted frames)).getLast?.elim
        (writer.db.checkpoints.lookup publisherId)
        (raiseCheckpoint (writer.db.checkpoints.lookup publisherId)) := by
  rw [settled.db_flushBatch arith]
  rw [lookup_flushCheckpoints, PgWriteBatch.pendingMaxSeq_pushAll, settled.pending,
    Finmap.lookup_empty, Option.or_none]
  rfl

theorem flushBatch (frames : List PersistFrame) : (writer.flushBatch arith frames).Settled where
  queues := rfl
  pending := rfl
  covered := by
    intro publisherId last found
    rw [settled.checkpoints_flushBatch arith] at found
    rw [settled.highest_flushBatch arith]
    have grows := writer.batch.highest_le_highest_pushAll frames publisherId
    have known := settled.covered publisherId
    cases isLast : (sequenceOf publisherId (writer.admitted frames)).getLast? with
    | none =>
      rw [isLast] at found
      have := known last found
      omega
    | some seq =>
      rw [isLast] at found
      have bounded := ((writer.batch.sequenceOf_admitted publisherId frames).2 seq
        (mem_of_getLast? isLast)).2
      have wrapped : wrapI64 seq ≤ seq := by
        have : seq < 2 ^ 64 := by
          obtain ⟨frame, -, rfl⟩ := mem_map.mp (mem_of_getLast? isLast)
          exact frame.seq.toNat_lt
        rw [wrapI64_natCast this]
        split_ifs <;> omega
      cases before : writer.db.checkpoints.lookup publisherId with
      | none =>
        rw [before] at found
        obtain rfl : wrapI64 seq = last := Option.some.inj found
        omega
      | some earlier =>
        have := known earlier before
        rw [before] at found
        obtain rfl : max earlier (wrapI64 seq) = last := Option.some.inj found
        omega

end Settled

/-- What flushing each frame alone does. -/
structure EachFlushed (writer next : Writer) (frames : List PersistFrame) : Prop where
  settled : next.Settled
  highest : ∀ publisherId, next.batch.highest publisherId =
    (writer.batch.pushAll frames).highest publisherId
  db : next.db = { writer.db.applyEach arith (writer.rows frames) with
    checkpoints := next.db.checkpoints }
  checkpoints : ∀ publisherId, next.db.checkpoints.lookup publisherId =
    raiseAll (writer.db.checkpoints.lookup publisherId)
      (sequenceOf publisherId (writer.admitted frames))

theorem Settled.eachFlushed (settled : writer.Settled) (frames : List PersistFrame) :
    EachFlushed arith writer (writer.flushEach arith frames) frames := by
  induction frames generalizing writer with
  | nil => refine ⟨settled, fun _ => rfl, rfl, fun _ => rfl⟩
  | cons frame rest ih =>
    have each := ih (settled.flushBatch arith [frame])
    have here : ∀ publisherId, (writer.flushBatch arith [frame]).batch.highest publisherId =
        (writer.batch.push frame).1.highest publisherId :=
      settled.highest_flushBatch arith [frame]
    have laterAdmitted : (writer.flushBatch arith [frame]).admitted rest =
        (writer.batch.push frame).1.admitted rest :=
      admitted_congr here rest
    have split : writer.admitted (frame :: rest) =
        writer.admitted [frame] ++ (writer.flushBatch arith [frame]).admitted rest := by
      rw [laterAdmitted]
      unfold admitted
      rw [admitted_cons]
      simp [PgWriteBatch.admitted]
    have splitRows : writer.rows (frame :: rest) =
        writer.rows [frame] ++ (writer.flushBatch arith [frame]).rows rest := by
      unfold rows
      rw [split, flatMap_append]
    have short : (writer.rows [frame]).length ≤ 1 := by
      unfold rows admitted
      rw [admitted_cons]
      split_ifs
      · simpa [PgWriteBatch.admitted] using frame.length_rows_le
      · simp [PgWriteBatch.admitted]
    rw [flushEach_cons]
    refine ⟨each.settled, fun publisherId => ?_, ?_, fun publisherId => ?_⟩
    · rw [each.highest]
      exact highest_pushAll_congr here rest publisherId
    · refine each.db.trans ?_
      rw [settled.db_flushBatch arith, flushQueues_addAll_of_length_le_one arith _ short,
        applyEach_setCheckpoints, ← applyEach_append, ← splitRows]
    · rw [each.checkpoints, settled.checkpoints_flushBatch arith, split, sequenceOf_append]
      unfold raiseAll
      rw [foldl_append]
      congr 1
      unfold admitted
      rw [admitted_cons, sequenceOf_append, PgWriteBatch.sequenceOf_admits]
      split_ifs <;> rfl

/-- The numbers of each publisher do not cross the sign of the checkpoint column. -/
def SameSign (frames : List PersistFrame) : Prop :=
  ∀ first ∈ frames, ∀ second ∈ frames, first.publisherId = second.publisherId →
    first.seq.toNat ≠ 0 → first.seq.toNat < 2 ^ 63 → second.seq.toNat < 2 ^ 63

instance (frames : List PersistFrame) : Decidable (SameSign frames) :=
  inferInstanceAs (Decidable (∀ first ∈ frames, ∀ second ∈ frames, _))

theorem sameSign_iff (frames : List PersistFrame) :
    SameSign frames ↔ ∀ publisherId,
      ∀ first ∈ sequenceOf publisherId frames,
      ∀ second ∈ sequenceOf publisherId frames, first < 2 ^ 63 → second < 2 ^ 63 := by
  unfold sequenceOf
  simp only [mem_map, mem_filter, decide_eq_true_eq]
  constructor
  · rintro same publisherId _ ⟨first, ⟨firstMember, mine, sequenced⟩, rfl⟩ _
      ⟨second, ⟨secondMember, its, -⟩, rfl⟩ low
    exact same first firstMember second secondMember (mine.trans its.symm) sequenced low
  · intro same first firstMember second secondMember publisher sequenced low
    by_cases unsequenced : second.seq.toNat = 0
    · omega
    · exact same first.publisherId _ ⟨first, ⟨firstMember, rfl, sequenced⟩, rfl⟩ _
        ⟨second, ⟨secondMember, publisher.symm, unsequenced⟩, rfl⟩ low

/-- A batch leaves what its frames leave one by one: this holds for the rows of each
order, and for the numbers of each publisher. -/
def Mergeable (writer : Writer) (frames : List PersistFrame) : Prop :=
  (∀ id ∈ ((writer.rows frames).filterMap orderOp).map (·.1),
    OrderOp.Mergeable (writer.db.orders.lookup id) (orderOps id (writer.rows frames))) ∧
  SameSign (writer.admitted frames)

instance (writer : Writer) (frames : List PersistFrame) :
    Decidable (writer.Mergeable frames) :=
  inferInstanceAs (Decidable (_ ∧ _))

/-- An order that is not in the batch is left alone. -/
theorem mergeable_iff (writer : Writer) (frames : List PersistFrame) :
    writer.Mergeable frames ↔
      (∀ id, OrderOp.Mergeable (writer.db.orders.lookup id) (orderOps id (writer.rows frames))) ∧
      SameSign (writer.admitted frames) := by
  refine and_congr ⟨fun all id => ?_, fun all id _ => all id⟩ Iff.rfl
  by_cases present : id ∈ ((writer.rows frames).filterMap orderOp).map (·.1)
  · exact all id present
  · have none : orderOps id (writer.rows frames) = [] := by
      unfold orderOps
      rw [map_eq_nil_iff, filter_eq_nil_iff]
      intro op mem mine
      exact present (mem_map.mpr ⟨op, mem, of_decide_eq_true mine⟩)
    rw [none]
    simp [OrderOp.Mergeable, OrderOp.upserts]

/-- Two writers with the same database that admit the same frames. -/
structure Synced (writer other : Writer) : Prop where
  settled : writer.Settled
  otherSettled : other.Settled
  db : writer.db = other.db
  highest : ∀ publisherId, writer.batch.highest publisherId = other.batch.highest publisherId

/-- The frames hold no funding settlement. -/
def Plain (frames : List PersistFrame) : Prop :=
  ∀ frame ∈ frames, frame.isFunding = false

instance (frames : List PersistFrame) : Decidable (Plain frames) :=
  inferInstanceAs (Decidable (∀ frame ∈ frames, _))

theorem exists_of_map_eq_ok {α β : Type} {make : α → β} {result : Except SkipReason α} {value : β}
    (mapped : result.map make = .ok value) : ∃ inner, make inner = value := by
  cases result with
  | error reason => cases mapped
  | ok inner => exact ⟨inner, Except.ok.inj mapped⟩

theorem funding_eq_none_of_mem_rows {frame : PersistFrame} (plain : frame.isFunding = false)
    (mem : row ∈ frame.rows) : row.funding? = none := by
  have decoded := PersistFrame.mem_rows_iff.mp mem
  unfold PersistFrame.isFunding at plain
  cases kind : frame.payload with
  | fundingSettled settled => simp [kind] at plain
  | orderDelete id => rw [kind] at decoded; cases decoded; rfl
  | positionDelete userId symbol => rw [kind] at decoded; cases decoded; rfl
  | insuranceFundSet balanceAtoms => rw [kind] at decoded; cases decoded; rfl
  | unknownKind => rw [kind] at decoded; cases decoded
  | _ =>
    rw [kind] at decoded
    obtain ⟨inner, rfl⟩ := exists_of_map_eq_ok decoded
    rfl

theorem plain_rows {writer : Writer} (plain : Plain frames) :
    ∀ row ∈ writer.rows frames, row.funding? = none := by
  intro row mem
  obtain ⟨frame, admitted, mine⟩ := mem_flatMap.mp mem
  exact funding_eq_none_of_mem_rows
    (plain frame (writer.batch.admitted_subset frames admitted)) mine

namespace Synced

variable {writer other : Writer} (synced : Synced writer other)
include synced

theorem rows_eq (frames : List PersistFrame) : writer.rows frames = other.rows frames := by
  unfold rows admitted
  rw [admitted_congr synced.highest]

/-- The checkpoints after a batch agree with those after its frames alone. -/
theorem checkpoints_eq_iff (frames : List PersistFrame) :
    flushCheckpoints (writer.batch.pushAll frames).pendingMaxSeq writer.db.checkpoints =
        (other.flushEach arith frames).db.checkpoints ↔
      SameSign (writer.admitted frames) := by
  have each := synced.otherSettled.eachFlushed arith frames
  rw [eq_iff_lookup, sameSign_iff]
  apply forall_congr'
  intro publisherId
  have batched := synced.settled.checkpoints_flushBatch arith frames publisherId
  rw [synced.settled.db_flushBatch arith] at batched
  rw [batched, each.checkpoints, ← synced.db]
  have sameAdmitted : other.admitted frames = writer.admitted frames :=
    (admitted_congr synced.highest frames).symm
  rw [sameAdmitted]
  obtain ⟨rising, above⟩ := writer.batch.sequenceOf_admitted publisherId frames
  refine raise_getLast_eq_raiseAll_iff rising (fun seq mem => ⟨(above seq mem).1, ?_⟩)
    (synced.settled.covered publisherId)
  obtain ⟨frame, -, rfl⟩ := mem_map.mp mem
  exact frame.seq.toNat_lt

/-- When a batch leaves what its frames leave alone. -/
theorem flushBatch_eq_iff (plain : Plain frames) :
    (writer.flushBatch arith frames).db = (other.flushEach arith frames).db ↔
      writer.Mergeable frames := by
  have each := synced.otherSettled.eachFlushed arith frames
  rw [synced.settled.db_flushBatch arith, each.db,
    setCheckpoints_eq_iff
      ((checkpoints_flushQueues arith _ _).trans
        ((congrArg checkpoints synced.db).trans
          (checkpoints_applyEach arith _ _).symm)),
    synced.checkpoints_eq_iff arith, ← synced.rows_eq, ← synced.db,
    flushQueues_eq_applyEach_iff arith _ (plain_rows plain), mergeable_iff]

theorem next (same : (writer.flushBatch arith frames).db = (other.flushEach arith frames).db) :
    Synced (writer.flushBatch arith frames) (other.flushEach arith frames) where
  settled := synced.settled.flushBatch arith frames
  otherSettled := (synced.otherSettled.eachFlushed arith frames).settled
  db := same
  highest publisherId := by
    rw [synced.settled.highest_flushBatch arith,
      (synced.otherSettled.eachFlushed arith frames).highest]
    exact highest_pushAll_congr synced.highest frames publisherId

end Synced

/-- Every batch is mergeable when it is flushed. -/
def RunMergeable (writer : Writer) (batches : List (List PersistFrame)) : Prop :=
  Along (flushBatch arith) Mergeable writer batches
deriving Decidable

/-- After each flush the database is the one that the frames so far leave alone. -/
def SplitsFreely (writer other : Writer) (batches : List (List PersistFrame)) : Prop :=
  ∀ count, (writer.flushBatches arith (batches.take count)).db =
    (other.flushEach arith (batches.take count).flatten).db

theorem Synced.splitsFreely_iff
    (synced : Synced writer other) (plain : ∀ frames ∈ batches, Plain frames) :
    SplitsFreely arith writer other batches ↔ RunMergeable arith writer batches := by
  induction batches generalizing writer other with
  | nil => simp [SplitsFreely, RunMergeable, Along, flushEach, synced.db]
  | cons frames batches ih =>
    have here := synced.flushBatch_eq_iff arith (plain frames mem_cons_self)
    have plainRest : ∀ frames ∈ batches, Plain frames :=
      fun frames mem => plain frames (mem_cons_of_mem _ mem)
    rw [RunMergeable, Along, ← here]
    constructor
    · intro free
      have first : (writer.flushBatch arith frames).db = (other.flushEach arith frames).db := by
        simpa using free 1
      refine ⟨first, (ih (synced.next arith first) plainRest).mp ?_⟩
      intro count
      have later := free (count + 1)
      rwa [take_succ_cons, flatten_cons, flushEach_append] at later
    · rintro ⟨first, rest⟩ count
      cases count with
      | zero => exact synced.db
      | succ count =>
        rw [take_succ_cons, flatten_cons, flushEach_append]
        exact (ih (synced.next arith first) plainRest).mpr rest count

end Writer
end

/-! ## Frames of one order -/

namespace PersistFrame

/-- A bid of 100 lots of `BTC_USDT` by user 4 is accepted as order 1. -/
def bidAccepted (seq : UInt64) : PersistFrame where
  publisherId := 0
  seq := seq
  payload := .orderUpsert {
    id := 1
    userId := 4
    symbol := 7
    side := 0
    status := 0
    orderType := packStr 16 [108, 105, 109, 105, 116]
    price := .ofAtoms 10000000000000
    qty := .ofAtoms 10000
    filled := .ofAtoms 0
    freezePrice := .ofAtoms 0
    clientOrderId := packStr 32 []
    createdAtMs := 1700000000000 }

def bidTraded (seq : UInt64) : PersistFrame where
  publisherId := 0
  seq := seq
  payload := .orderFillUpdate { id := 1, filled := .ofAtoms 6000, status := 1 }

/-- The bid is over. -/
def bidDeleted (seq : UInt64) : PersistFrame where
  publisherId := 0
  seq := seq
  payload := .orderDelete 1

end PersistFrame
end LightningX.Persist
