import LightningX.Persist.BatchSplit

/-!
# What a writer holds and what it committed

A writer loses nothing but what is in its memory.  This module follows each frame
from the batch to the database: through failed flushes, which may drop the
funding settlement they took, and through restarts, which drop the batch.
-/

namespace LightningX.Persist

open List Database Queues PgWriteBatch PersistFrame

section

variable (arith : Arithmetic) {frame : PersistFrame}

namespace Writer

def push (writer : Writer) (frame : PersistFrame) : Writer :=
  { writer with batch := (writer.batch.push frame).1 }

/-- `flush_now` of `bin/pg_writer.rs`. -/
def flushNow (writer : Writer) (outcome : Option FlushPoint) : Writer :=
  if writer.batch.queues.len = 0 then writer
  else
    let (db, batch) := writer.batch.flush arith writer.db outcome
    { db := db, batch := batch }

theorem flushNow_of_len_ne_zero {writer : Writer}
    (filled : writer.batch.queues.len ≠ 0) (outcome : Option FlushPoint) :
    writer.flushNow arith outcome =
      { db := (writer.batch.flush arith writer.db outcome).1
        batch := (writer.batch.flush arith writer.db outcome).2 } := by
  unfold flushNow
  rw [if_neg filled]

/-- The checkpoint of a publisher, as the writer would load it. -/
def floor (writer : Writer) (publisherId : Nat) : Nat :=
  ((loadCheckpoints writer.db.checkpoints).lookup publisherId).getD 0

end Writer

/-- The frames that are not funding settlements. -/
def unsettled (frames : List PersistFrame) : List PersistFrame :=
  frames.filter fun frame => frame.isFunding = false

variable (db : Database)

/-- Write the rows of frames in one transaction. -/
def Database.flushFrames (frames : List PersistFrame) : Database :=
  db.flushQueues arith (empty.addAll (frames.flatMap rows))

/-- A writer with the frames its batch holds, and with the frames of each
transaction it committed. -/
structure TrackedWriter where
  writer : Writer
  committed : List (List PersistFrame)
  pending : List PersistFrame

namespace TrackedWriter

/-- A writer that just loaded its checkpoints. -/
def start : TrackedWriter where
  writer := .start db
  committed := []
  pending := []

/-- Push a frame.  The batch holds one settlement: the last. -/
def push (tracked : TrackedWriter) (frame : PersistFrame) : TrackedWriter :=
  { tracked with
    writer := tracked.writer.push frame
    pending :=
      if (tracked.writer.batch.push frame).2 then
        (if frame.isFunding then unsettled tracked.pending else tracked.pending) ++ [frame]
      else tracked.pending }

/-- Attempt a flush.  An attempt that fails late has taken the settlement. -/
def flushNow (tracked : TrackedWriter) (outcome : Option FlushPoint) : TrackedWriter :=
  if tracked.writer.batch.queues.len = 0 then tracked
  else
    match outcome with
    | none => {
        writer := tracked.writer.flushNow arith none
        committed := tracked.committed ++ [tracked.pending]
        pending := [] }
    | some point => {
        writer := tracked.writer.flushNow arith (some point)
        committed := tracked.committed
        pending := if point.afterTake then unsettled tracked.pending else tracked.pending }

/-- Crash and start again. -/
def restart (tracked : TrackedWriter) : TrackedWriter where
  writer := .start tracked.writer.db
  committed := tracked.committed
  pending := []

/-- All frames whose rows are in the database. -/
def applied (tracked : TrackedWriter) : List PersistFrame :=
  tracked.committed.flatten

theorem writer_flushNow (tracked : TrackedWriter) (outcome : Option FlushPoint) :
    (tracked.flushNow arith outcome).writer = tracked.writer.flushNow arith outcome := by
  unfold flushNow
  split_ifs with empty
  · unfold Writer.flushNow
    rw [if_pos empty]
  · cases outcome <;> rfl

end TrackedWriter

theorem PersistFrame.rows_of_isFunding (isFunding : frame.isFunding) :
    ∃ payload, frame.rows = [.funding payload] := by
  unfold PersistFrame.isFunding at isFunding
  unfold rows
  cases kind : frame.payload with
  | fundingSettled payload => exact ⟨payload, rfl⟩
  | _ => simp [kind] at isFunding

namespace Queues

variable (queues : Queues)

def withoutFunding : Queues :=
  { queues with pendingFunding := none }

theorem withoutFunding_addAll {rows : List Row}
    (plain : ∀ row ∈ rows, row.funding? = none) (queues : Queues) :
    (queues.addAll rows).withoutFunding = queues.withoutFunding.addAll rows := by
  induction rows generalizing queues with
  | nil => rfl
  | cons row rest ih =>
    rw [addAll_cons, ih (fun row mem => plain row (mem_cons_of_mem _ mem))]
    have here := plain row mem_cons_self
    cases row <;> first | rfl | simp [Row.funding?] at here

/-- Dropping the settlements drops their rows and no others. -/
theorem withoutFunding_addAll_rows (frames : List PersistFrame) :
    (queues.addAll (frames.flatMap rows)).withoutFunding =
      queues.withoutFunding.addAll ((unsettled frames).flatMap rows) := by
  induction frames generalizing queues with
  | nil => rfl
  | cons frame rest ih =>
    rw [flatMap_cons, addAll_append, ih]
    cases kind : frame.isFunding with
    | true =>
      obtain ⟨payload, isRow⟩ := rows_of_isFunding kind
      simp only [unsettled, kind, isRow, filter_cons]
      rfl
    | false =>
      rw [withoutFunding_addAll fun row => Writer.funding_eq_none_of_mem_rows kind]
      simp [unsettled, kind, addAll_append]

theorem len_add (row : Row) : 0 < (queues.add row).len ∧ queues.len ≤ (queues.add row).len := by
  cases row <;> simp [add, len]

theorem len_le_len_addAll (rows : List Row) : queues.len ≤ (queues.addAll rows).len := by
  induction rows generalizing queues with
  | nil => exact le_rfl
  | cons row rest ih => exact (queues.len_add row).2.trans (ih _)

theorem eq_nil_of_len_addAll {queues : Queues} {rows : List Row}
    (empty : (queues.addAll rows).len = 0) : rows = [] := by
  cases rows with
  | nil => rfl
  | cons row rest =>
    have positive := (queues.len_add row).1
    have grows := (queues.add row).len_le_len_addAll rest
    rw [addAll_cons] at empty
    omega

end Queues

namespace PgWriteBatch

variable (batch : PgWriteBatch) (point : FlushPoint)

theorem appliedSeq_failed : (batch.failed point).appliedSeq = batch.appliedSeq := by
  unfold failed
  split_ifs <;> rfl

theorem pendingMaxSeq_failed : (batch.failed point).pendingMaxSeq = batch.pendingMaxSeq := by
  unfold failed
  split_ifs <;> rfl

theorem highest_failed (publisherId : Nat) :
    (batch.failed point).highest publisherId = batch.highest publisherId := by
  unfold highest
  rw [appliedSeq_failed, pendingMaxSeq_failed]

/-- `push` accepts the frames that are admitted and can be decoded. -/
theorem push_eq_true_iff (frame : PersistFrame) :
    (batch.push frame).2 = true ↔ batch.Admits frame ∧ frame.rows ≠ [] := by
  have wellFormed : ∀ other : PgWriteBatch,
      (other.enqueue frame.payload.row).2 = true ↔ frame.rows ≠ [] := by
    intro other
    unfold rows enqueue
    cases frame.payload.row <;> simp
  unfold push admitSeq Admits
  by_cases unsequenced : frame.seq.toNat = 0
  · simp [unsequenced, wellFormed]
  · by_cases duplicate : frame.seq.toNat ≤ batch.highest frame.publisherId
    · simp [unsequenced, duplicate]
    · simp [unsequenced, duplicate, wellFormed, not_le.mp duplicate]

end PgWriteBatch

namespace TrackedWriter

/-- The queues hold the rows of the frames that are pending, and the tables those of
the transactions. -/
structure Booked (first : Database) (tracked : TrackedWriter) : Prop where
  queues : tracked.writer.batch.queues = empty.addAll (tracked.pending.flatMap rows)
  wellFormed : ∀ frame ∈ tracked.pending, frame.rows ≠ []
  db : tracked.writer.db =
    { tracked.committed.foldl (flushFrames arith) first with
      checkpoints := tracked.writer.db.checkpoints }

theorem booked_start : (start db).Booked arith db where
  queues := rfl
  wellFormed := by simp [start]
  db := rfl

namespace Booked

variable {first : Database} {tracked : TrackedWriter} (booked : tracked.Booked arith first)
include booked

theorem unsettled_queues :
    tracked.writer.batch.queues.withoutFunding =
      empty.addAll ((unsettled tracked.pending).flatMap rows) := by
  rw [booked.queues, withoutFunding_addAll_rows]
  rfl

/-- A settlement waits if and only if its frame is pending. -/
theorem isSome_pendingFunding_iff :
    tracked.writer.batch.queues.pendingFunding.isSome ↔
      ∃ frame ∈ tracked.pending, frame.isFunding := by
  rw [booked.queues, addAll_eq]
  simp only [empty, Option.or_none, List.getLast?_isSome, ne_eq, filterMap_eq_nil_iff, not_forall]
  constructor
  · rintro ⟨row, mem, settles⟩
    obtain ⟨frame, isPending, isRow⟩ := mem_flatMap.mp mem
    refine ⟨frame, isPending, ?_⟩
    by_contra plain
    exact settles (Writer.funding_eq_none_of_mem_rows (by simpa using plain) isRow)
  · rintro ⟨frame, isPending, isFunding⟩
    obtain ⟨payload, isRow⟩ := rows_of_isFunding isFunding
    refine ⟨.funding payload, mem_flatMap.mpr ⟨frame, isPending, ?_⟩, by simp [Row.funding?]⟩
    rw [isRow]
    exact mem_singleton_self _

/-- Nothing is dropped when no settlement waits. -/
theorem unsettled_pending (none : tracked.writer.batch.queues.pendingFunding = none) :
    unsettled tracked.pending = tracked.pending := by
  refine filter_eq_self.mpr fun frame mem => ?_
  have waits := booked.isSome_pendingFunding_iff.not.mp (by simp [none])
  simpa using fun isFunding => waits ⟨frame, mem, isFunding⟩

theorem push (frame : PersistFrame) : (tracked.push frame).Booked arith first := by
  have pushed := pushed_push tracked.writer.batch frame
  have accepts := push_eq_true_iff tracked.writer.batch frame
  unfold TrackedWriter.push
  split_ifs with accepted isFunding
  · obtain ⟨admits, -⟩ := accepts.mp accepted
    obtain ⟨payload, isRow⟩ := rows_of_isFunding isFunding
    refine ⟨?_, ?_, booked.db⟩
    · show (tracked.writer.batch.push frame).1.queues = _
      rw [pushed.queues, if_pos admits, flatMap_append, addAll_append,
        ← booked.unsettled_queues, flatMap_singleton, isRow]
      rfl
    · intro other mem
      rcases mem_append.mp mem with old | new
      · exact booked.wellFormed other (mem_of_mem_filter old)
      · rw [mem_singleton.mp new, isRow]
        simp
  · obtain ⟨admits, wellFormed⟩ := accepts.mp accepted
    refine ⟨?_, ?_, booked.db⟩
    · show (tracked.writer.batch.push frame).1.queues = _
      rw [pushed.queues, if_pos admits, flatMap_append, addAll_append,
        ← booked.queues, flatMap_singleton]
    · intro other mem
      rcases mem_append.mp mem with old | new
      · exact booked.wellFormed other old
      · rw [mem_singleton.mp new]
        exact wellFormed
  · refine ⟨?_, booked.wellFormed, booked.db⟩
    show (tracked.writer.batch.push frame).1.queues = _
    rw [pushed.queues]
    split_ifs with admits
    · have malformed : frame.rows = [] := by
        by_contra wellFormed
        exact accepted (accepts.mpr ⟨admits, wellFormed⟩)
      rw [malformed]
      exact booked.queues
    · exact booked.queues

theorem flushNow (outcome : Option FlushPoint) :
    (tracked.flushNow arith outcome).Booked arith first := by
  unfold TrackedWriter.flushNow
  split_ifs with empty
  · exact booked
  · have flushed := Writer.flushNow_of_len_ne_zero arith empty
    cases outcome with
    | none =>
      have tables : tracked.writer.db.flushFrames arith tracked.pending =
          { flushFrames arith
              (tracked.committed.foldl (flushFrames arith) first)
              tracked.pending with
            checkpoints := tracked.writer.db.checkpoints } := by
        unfold flushFrames
        rw [← flushQueues_setCheckpoints]
        exact congrArg (flushQueues arith · _) booked.db
      simp only [flushed]
      refine ⟨rfl, by simp, ?_⟩
      show tracked.writer.db.commit arith tracked.writer.batch = _
      rw [foldl_append]
      unfold commit
      rw [booked.queues]
      unfold flushFrames at tables
      rw [tables]
      rfl
    | some point =>
      simp only [flushed]
      refine ⟨?_, ?_, booked.db⟩
      · show (tracked.writer.batch.failed point).queues = _
        unfold PgWriteBatch.failed
        split_ifs
        · exact booked.unsettled_queues
        · exact booked.queues
      · intro frame mem
        apply booked.wellFormed
        split_ifs at mem
        · exact mem_of_mem_filter mem
        · exact mem

theorem restart : tracked.restart.Booked arith first where
  queues := rfl
  wellFormed := by simp [TrackedWriter.restart]
  db := booked.db

end Booked

/-- A frame that is accepted waits behind the others, of which a settlement may be
dropped. -/
theorem pending_push (tracked : TrackedWriter) (frame : PersistFrame) :
    ((tracked.writer.batch.push frame).2 = false ∧
        (tracked.push frame).pending = tracked.pending) ∨
      ((tracked.writer.batch.push frame).2 = true ∧
        ∃ kept, kept.Sublist tracked.pending ∧ (tracked.push frame).pending = kept ++ [frame]) := by
  unfold push
  cases accepted : (tracked.writer.batch.push frame).2 with
  | false => exact .inl ⟨rfl, rfl⟩
  | true =>
    refine .inr ⟨rfl, if frame.isFunding then unsettled tracked.pending else tracked.pending,
      ?_, rfl⟩
    split_ifs
    · exact filter_sublist
    · exact List.Sublist.refl _

/-- Frames of one publisher are taken with rising numbers, if they have any. -/
def Before (first second : PersistFrame) : Prop :=
  first.publisherId = second.publisherId → second.seq.toNat = 0 ∨ first.seq.toNat < second.seq.toNat

/-- The checkpoints tell the frames that were committed from those that wait. -/
structure Numbered (tracked : TrackedWriter) : Prop where
  monotone : tracked.writer.batch.Monotone
  floors : ∀ publisherId, tracked.writer.floor publisherId =
    (tracked.writer.batch.appliedSeq.lookup publisherId).getD 0
  small : ∀ publisherId, ∀ seq ∈ tracked.writer.batch.pendingMaxSeq.lookup publisherId, seq < 2 ^ 63
  applied : ∀ frame ∈ tracked.applied, frame.seq.toNat ≤ tracked.writer.floor frame.publisherId
  pending : ∀ frame ∈ tracked.pending,
    (frame.seq.toNat = 0 ∨ tracked.writer.floor frame.publisherId < frame.seq.toNat) ∧
      frame.seq.toNat ≤ tracked.writer.batch.highest frame.publisherId
  rising : (tracked.applied ++ tracked.pending).Pairwise Before

theorem numbered_start : (start db).Numbered where
  monotone := monotone_of_pending_empty rfl
  floors _ := rfl
  small publisherId seq found := by
    obtain found : (∅ : Table Nat Nat).lookup publisherId = some seq := found
    simp at found
  applied := by simp [start, TrackedWriter.applied]
  pending := by simp [start]
  rising := by simp [start, TrackedWriter.applied]

namespace Numbered

variable {tracked : TrackedWriter} (numbered : tracked.Numbered)
include numbered

theorem floor_le_highest (publisherId : Nat) :
    tracked.writer.floor publisherId ≤ tracked.writer.batch.highest publisherId := by
  rw [numbered.floors]
  unfold highest
  cases found : tracked.writer.batch.pendingMaxSeq.lookup publisherId with
  | none => exact le_rfl
  | some seq => exact numbered.monotone publisherId seq found

/-- Numbers are known up to the highest. -/
theorem le_highest (known : frame ∈ tracked.applied ++ tracked.pending) :
    frame.seq.toNat ≤ tracked.writer.batch.highest frame.publisherId := by
  rcases mem_append.mp known with applied | pending
  · exact (numbered.applied frame applied).trans (numbered.floor_le_highest _)
  · exact (numbered.pending frame pending).2

theorem push {frame : PersistFrame} (small : frame.seq.toNat < 2 ^ 63) :
    (tracked.push frame).Numbered := by
  have pushed := pushed_push tracked.writer.batch frame
  have accepts := push_eq_true_iff tracked.writer.batch frame
  have grows := PgWriteBatch.highest_le_highest_push tracked.writer.batch frame
  refine ⟨numbered.monotone.push frame, fun publisherId => ?_, ?_, numbered.applied, ?_, ?_⟩
  · exact (numbered.floors publisherId).trans (by
      show _ = ((tracked.writer.batch.push frame).1.appliedSeq.lookup publisherId).getD 0
      rw [pushed.appliedSeq])
  · intro publisherId seq found
    obtain found : (tracked.writer.batch.push frame).1.pendingMaxSeq.lookup publisherId =
      some seq := found
    rw [pushed.pendingMaxSeq] at found
    split_ifs at found
    · cases found
      exact small
    · exact numbered.small publisherId seq found
  · intro other mem
    rcases tracked.pending_push frame with ⟨-, same⟩ | ⟨accepted, kept, sublist, same⟩
    · rw [same] at mem
      have := numbered.pending other mem
      exact ⟨this.1, this.2.trans (grows _)⟩
    · rw [same] at mem
      rcases mem_append.mp mem with old | new
      · have := numbered.pending other (sublist.subset old)
        exact ⟨this.1, this.2.trans (grows _)⟩
      · obtain rfl := mem_singleton.mp new
        have floor := numbered.floor_le_highest other.publisherId
        have raised : (tracked.writer.batch.push other).1.highest other.publisherId =
            max (tracked.writer.batch.highest other.publisherId) other.seq.toNat := by
          rw [PgWriteBatch.highest_push, if_pos rfl]
        refine ⟨((accepts.mp accepted).1).imp_right floor.trans_lt, ?_⟩
        show _ ≤ (tracked.writer.batch.push other).1.highest other.publisherId
        omega
  · rcases tracked.pending_push frame with ⟨-, same⟩ | ⟨accepted, kept, sublist, same⟩
    · rw [same]
      exact numbered.rising
    · have shorter : (tracked.applied ++ kept).Sublist (tracked.applied ++ tracked.pending) :=
        sublist.append_left _
      rw [same, ← append_assoc, pairwise_append]
      refine ⟨numbered.rising.sublist shorter, pairwise_singleton _ _, ?_⟩
      intro other known new isNew mine
      obtain rfl := mem_singleton.mp isNew
      have := numbered.le_highest (shorter.subset known)
      rw [mine] at this
      exact (accepts.mp accepted).1.imp_right this.trans_lt

/-- A commit moves the checkpoints to the highest numbers. -/
theorem floor_commit (publisherId : Nat) :
    ((loadCheckpoints
        (tracked.writer.db.commit arith tracked.writer.batch).checkpoints).lookup
          publisherId).getD 0 =
      tracked.writer.batch.highest publisherId := by
  have floors := numbered.floors publisherId
  unfold Writer.floor loadCheckpoints at floors
  rw [Table.lookup_mapRows] at floors
  unfold loadCheckpoints commit highest
  rw [Table.lookup_mapRows, lookup_flushCheckpoints]
  cases found : tracked.writer.batch.pendingMaxSeq.lookup publisherId with
  | none => exact floors
  | some seq =>
    have small := numbered.small publisherId seq found
    have above := numbered.monotone publisherId seq found
    have exact : wrapI64 seq = seq := by rw [wrapI64_natCast (by omega), if_pos small]
    unfold raiseCheckpoint
    cases last : tracked.writer.db.checkpoints.lookup publisherId with
    | none => simp [exact]
    | some last =>
      rw [last] at floors
      simp only [Option.map_some, Option.getD_some] at floors
      simp only [Option.elim_some, Option.map_some, Option.getD_some, exact]
      omega

theorem flushNow (outcome : Option FlushPoint) : (tracked.flushNow arith outcome).Numbered := by
  unfold TrackedWriter.flushNow
  split_ifs with empty
  · exact numbered
  · have flushed := Writer.flushNow_of_len_ne_zero arith empty
    cases outcome with
    | none =>
      simp only [flushed]
      have floor := numbered.floor_commit arith
      have highest := PgWriteBatch.highest_committed numbered.monotone
      refine ⟨monotone_of_pending_empty rfl, fun publisherId => ?_, ?_, ?_,
        by simp, ?_⟩
      · exact (floor publisherId).trans (highest publisherId).symm
      · intro publisherId seq found
        obtain found : (∅ : Table Nat Nat).lookup publisherId = some seq := found
        simp at found
      · intro frame mem
        have known : frame ∈ tracked.applied ++ tracked.pending := by
          simpa [TrackedWriter.applied] using mem
        exact (numbered.le_highest known).trans (floor _).ge
      · simpa [TrackedWriter.applied] using numbered.rising
    | some point =>
      simp only [flushed]
      have kept : (if point.afterTake then unsettled tracked.pending
          else tracked.pending).Sublist tracked.pending := by
        split_ifs
        · exact filter_sublist
        · exact List.Sublist.refl _
      have applied := tracked.writer.batch.appliedSeq_failed point
      have pendingMax := tracked.writer.batch.pendingMaxSeq_failed point
      refine ⟨?_, fun publisherId => ?_, ?_, numbered.applied, ?_, ?_⟩
      · show (tracked.writer.batch.failed point).Monotone
        unfold PgWriteBatch.Monotone
        rw [applied, pendingMax]
        exact numbered.monotone
      · show _ = ((tracked.writer.batch.failed point).appliedSeq.lookup publisherId).getD 0
        rw [applied]
        exact numbered.floors publisherId
      · show ∀ publisherId, ∀ seq ∈
          (tracked.writer.batch.failed point).pendingMaxSeq.lookup publisherId, seq < 2 ^ 63
        rw [pendingMax]
        exact numbered.small
      · intro frame mem
        show _ ∧ _ ≤ (tracked.writer.batch.failed point).highest frame.publisherId
        rw [PgWriteBatch.highest_failed]
        exact numbered.pending frame (kept.subset mem)
      · exact numbered.rising.sublist (kept.append_left _)

theorem restart : tracked.restart.Numbered where
  monotone := monotone_of_pending_empty rfl
  floors _ := rfl
  small publisherId seq found := by
    obtain found : (∅ : Table Nat Nat).lookup publisherId = some seq := found
    simp at found
  applied := numbered.applied
  pending := by simp [TrackedWriter.restart]
  rising := by
    simpa [TrackedWriter.restart, TrackedWriter.applied] using
      (pairwise_append.mp numbered.rising).1

end Numbered

end TrackedWriter
end
end LightningX.Persist
