import LightningX.Persist.Database

/-!
# Admission of frames

What `push` does to a batch, in terms of the highest sequence number admitted
from each publisher.  A flush that commits moves these numbers from the batch
to the floors; it does not change them.
-/

namespace LightningX.Persist

open List Option

variable {second first : Nat} {seqs : List Nat}

/-- The rows that a frame adds: one if it is admitted and well formed. -/
def PersistFrame.rows (frame : PersistFrame) : List Row :=
  match frame.payload.row with
  | .error _ => []
  | .ok row => [row]

theorem PersistFrame.mem_rows_iff {frame : PersistFrame} :
    row ∈ frame.rows ↔ frame.payload.row = .ok row := by
  unfold rows
  cases frame.payload.row <;> simp [eq_comm]

theorem PersistFrame.length_rows_le (frame : PersistFrame) : frame.rows.length ≤ 1 := by
  unfold rows
  split <;> simp

namespace PgWriteBatch

variable {batch : PgWriteBatch} {other : PgWriteBatch}

/-- `admit_seq` lets the frame in. -/
def Admits (batch : PgWriteBatch) (frame : PersistFrame) : Prop :=
  frame.seq.toNat = 0 ∨ batch.highest frame.publisherId < frame.seq.toNat
deriving Decidable

/-- Push frames in their order. -/
def pushAll (batch : PgWriteBatch) (frames : List PersistFrame) : PgWriteBatch :=
  frames.foldl (fun batch frame => (batch.push frame).1) batch

/-- The frames that are admitted when they are pushed in their order. -/
def admitted (batch : PgWriteBatch) : List PersistFrame → List PersistFrame
  | [] => []
  | frame :: rest =>
    if batch.Admits frame then frame :: admitted (batch.push frame).1 rest
    else admitted (batch.push frame).1 rest

@[simp] theorem pushAll_cons (batch : PgWriteBatch) (frame : PersistFrame)
    (rest : List PersistFrame) :
    batch.pushAll (frame :: rest) = (batch.push frame).1.pushAll rest := rfl

theorem admitted_cons (batch : PgWriteBatch) (frame : PersistFrame) (rest : List PersistFrame) :
    batch.admitted (frame :: rest) =
      (if batch.Admits frame then [frame] else []) ++ (batch.push frame).1.admitted rest := by
  rw [admitted]
  split_ifs <;> rfl

@[simp] theorem queues_countJump (batch : PgWriteBatch) (pending jump : Nat) :
    (batch.countJump pending jump).queues = batch.queues := by
  unfold countJump
  split_ifs <;> rfl

@[simp] theorem appliedSeq_countJump (batch : PgWriteBatch) (pending jump : Nat) :
    (batch.countJump pending jump).appliedSeq = batch.appliedSeq := by
  unfold countJump
  split_ifs <;> rfl

@[simp] theorem pendingMaxSeq_countJump (batch : PgWriteBatch) (pending jump : Nat) :
    (batch.countJump pending jump).pendingMaxSeq = batch.pendingMaxSeq := by
  unfold countJump
  split_ifs <;> rfl

/-- What `push` does to the parts of a batch that matter later. -/
structure Pushed (batch next : PgWriteBatch) (frame : PersistFrame) : Prop where
  queues : next.queues = batch.queues.addAll (if batch.Admits frame then frame.rows else [])
  appliedSeq : next.appliedSeq = batch.appliedSeq
  pendingMaxSeq : ∀ publisherId, next.pendingMaxSeq.lookup publisherId =
    if publisherId = frame.publisherId ∧ batch.highest publisherId < frame.seq.toNat then
      some frame.seq.toNat
    else batch.pendingMaxSeq.lookup publisherId

theorem enqueue_queues (batch : PgWriteBatch) (frame : PersistFrame) :
    (batch.enqueue frame.payload.row).1.queues = batch.queues.addAll frame.rows := by
  unfold PersistFrame.rows
  cases frame.payload.row <;> rfl

theorem enqueue_appliedSeq (batch : PgWriteBatch) (result : Except SkipReason Row) :
    (batch.enqueue result).1.appliedSeq = batch.appliedSeq := by
  cases result <;> rfl

theorem enqueue_pendingMaxSeq (batch : PgWriteBatch) (result : Except SkipReason Row) :
    (batch.enqueue result).1.pendingMaxSeq = batch.pendingMaxSeq := by
  cases result <;> rfl

theorem pushed_push (batch : PgWriteBatch) (frame : PersistFrame) :
    Pushed batch (batch.push frame).1 frame := by
  unfold push admitSeq
  by_cases unsequenced : frame.seq.toNat = 0
  · have admits : batch.Admits frame := .inl unsequenced
    rw [if_pos unsequenced]
    refine ⟨?_, enqueue_appliedSeq _ _, fun publisherId => ?_⟩
    · rw [if_pos admits]
      exact enqueue_queues _ _
    · rw [enqueue_pendingMaxSeq, if_neg]
      omega
  · rw [if_neg unsequenced]
    by_cases duplicate : frame.seq.toNat ≤ batch.highest frame.publisherId
    · have refused : ¬ batch.Admits frame := by
        unfold Admits
        omega
      rw [if_pos duplicate]
      refine ⟨?_, rfl, fun publisherId => ?_⟩
      · rw [if_neg refused]
        rfl
      · rw [if_neg]
        rintro ⟨rfl, higher⟩
        omega
    · have admits : batch.Admits frame := .inr (by omega)
      rw [if_neg duplicate]
      refine ⟨?_, ?_, fun publisherId => ?_⟩
      · rw [if_pos admits]
        simp [enqueue_queues]
      · simp [enqueue_appliedSeq]
      · simp only [enqueue_pendingMaxSeq, pendingMaxSeq_countJump]
        by_cases mine : publisherId = frame.publisherId
        · subst mine
          rw [if_pos ⟨rfl, by omega⟩, Finmap.lookup_insert]
        · rw [if_neg (by tauto), Finmap.lookup_insert_of_ne _ mine]

/-- A frame raises the highest number of its publisher, or leaves it. -/
theorem highest_push (batch : PgWriteBatch) (frame : PersistFrame) (publisherId : Nat) :
    (batch.push frame).1.highest publisherId =
      if publisherId = frame.publisherId then
        max (batch.highest publisherId) frame.seq.toNat
      else batch.highest publisherId := by
  have pushed := pushed_push batch frame
  unfold highest
  rw [pushed.pendingMaxSeq, pushed.appliedSeq]
  by_cases mine : publisherId = frame.publisherId
  · rw [if_pos mine]
    by_cases higher : batch.highest publisherId < frame.seq.toNat
    · rw [if_pos ⟨mine, higher⟩]
      unfold highest at higher
      simp only [getD_some]
      omega
    · rw [if_neg (by tauto)]
      unfold highest at higher
      omega
  · rw [if_neg (by tauto), if_neg mine]

/-- Batches that are above all floors. -/
def Monotone (batch : PgWriteBatch) : Prop :=
  ∀ publisherId seq, batch.pendingMaxSeq.lookup publisherId = some seq →
    (batch.appliedSeq.lookup publisherId).getD 0 ≤ seq

theorem Monotone.push {batch : PgWriteBatch} (monotone : batch.Monotone) (frame : PersistFrame) :
    (batch.push frame).1.Monotone := by
  have pushed := pushed_push batch frame
  intro publisherId seq found
  rw [pushed.pendingMaxSeq] at found
  rw [pushed.appliedSeq]
  split_ifs at found with raised
  · obtain ⟨rfl, higher⟩ := raised
    cases found
    have floor : (batch.appliedSeq.lookup frame.publisherId).getD 0 ≤
        batch.highest frame.publisherId := by
      unfold highest
      cases pending : batch.pendingMaxSeq.lookup frame.publisherId with
      | none => exact le_rfl
      | some seq => exact monotone _ _ pending
    omega
  · exact monotone _ _ found

theorem Monotone.pushAll (monotone : batch.Monotone) (frames : List PersistFrame) :
    (batch.pushAll frames).Monotone := by
  induction frames generalizing batch with
  | nil => exact monotone
  | cons frame rest ih => exact ih (monotone.push frame)

theorem monotone_of_pending_empty (empty : batch.pendingMaxSeq = ∅) : batch.Monotone := by
  intro publisherId seq found
  simp [empty] at found

/-- A commit moves the highest numbers to the floors. -/
theorem highest_committed (monotone : batch.Monotone) (publisherId : Nat) :
    batch.committed.highest publisherId = batch.highest publisherId := by
  unfold highest committed
  simp only [Finmap.lookup_empty, getD_none]
  rw [Table.lookup_union, Table.lookup_mapRows]
  cases pending : batch.pendingMaxSeq.lookup publisherId with
  | none => rfl
  | some seq =>
    have above := monotone publisherId seq pending
    simp only [map_some, some_or, getD_some]
    omega

/-- Which frames are admitted depends on the highest numbers alone. -/
theorem admitted_congr (same : ∀ publisherId, batch.highest publisherId = other.highest publisherId)
    (frames : List PersistFrame) : batch.admitted frames = other.admitted frames := by
  induction frames generalizing batch other with
  | nil => rfl
  | cons frame rest ih =>
    have next : (batch.push frame).1.admitted rest = (other.push frame).1.admitted rest := by
      apply ih
      intro publisherId
      rw [highest_push, highest_push, same]
    have admits : batch.Admits frame ↔ other.Admits frame := by
      unfold Admits
      rw [same]
    rw [admitted_cons, admitted_cons, next]
    by_cases mine : batch.Admits frame
    · rw [if_pos mine, if_pos (admits.mp mine)]
    · rw [if_neg mine, if_neg (fun its => mine (admits.mpr its))]

theorem admitted_subset (batch : PgWriteBatch) (frames : List PersistFrame) :
    batch.admitted frames ⊆ frames := by
  induction frames generalizing batch with
  | nil => exact List.Subset.refl _
  | cons frame rest ih =>
    rw [admitted_cons]
    refine append_subset.mpr ⟨?_, ?_⟩
    · split_ifs <;> simp
    · exact List.Subset.trans (ih _) (subset_cons_self _ _)

theorem highest_pushAll_congr
    (same : ∀ publisherId, batch.highest publisherId = other.highest publisherId)
    (frames : List PersistFrame) (publisherId : Nat) :
    (batch.pushAll frames).highest publisherId = (other.pushAll frames).highest publisherId := by
  induction frames generalizing batch other with
  | nil => exact same publisherId
  | cons frame rest ih =>
    apply ih
    intro publisherId
    rw [highest_push, highest_push, same]

/-- The queues hold the rows of the frames that were admitted. -/
theorem queues_pushAll (batch : PgWriteBatch) (frames : List PersistFrame) :
    (batch.pushAll frames).queues =
      batch.queues.addAll ((batch.admitted frames).flatMap PersistFrame.rows) := by
  induction frames generalizing batch with
  | nil => rfl
  | cons frame rest ih =>
    rw [pushAll_cons, ih, (pushed_push batch frame).queues,
      admitted_cons, flatMap_append, Queues.addAll_append]
    split_ifs <;> simp

/-- The sequence numbers of a publisher's frames, without those it did not number. -/
def sequenceOf (publisherId : Nat) (frames : List PersistFrame) : List Nat :=
  (frames.filter fun frame =>
    frame.publisherId = publisherId ∧ frame.seq.toNat ≠ 0).map (·.seq.toNat)

theorem sequenceOf_append (publisherId : Nat) (first second : List PersistFrame) :
    sequenceOf publisherId (first ++ second) =
      sequenceOf publisherId first ++ sequenceOf publisherId second := by
  simp [sequenceOf]

/-- A frame counts if it raises the highest number of its publisher. -/
theorem sequenceOf_admits (batch : PgWriteBatch) (publisherId : Nat) (frame : PersistFrame) :
    sequenceOf publisherId (if batch.Admits frame then [frame] else []) =
      if publisherId = frame.publisherId ∧ batch.highest publisherId < frame.seq.toNat then
        [frame.seq.toNat]
      else [] := by
  by_cases mine : publisherId = frame.publisherId
  · subst mine
    by_cases higher : batch.highest frame.publisherId < frame.seq.toNat
    · have admits : batch.Admits frame := .inr higher
      have sequenced : frame.seq.toNat ≠ 0 := by omega
      simp [admits, higher, sequenceOf, sequenced]
    · have notAdmitted : batch.Admits frame → frame.seq.toNat = 0 :=
        fun admits => admits.resolve_right higher
      by_cases admits : batch.Admits frame
      · simp [sequenceOf, notAdmitted admits]
      · simp [admits, higher, sequenceOf]
  · by_cases admits : batch.Admits frame
    · simp [mine, sequenceOf, Ne.symm mine]
    · simp [admits, mine, sequenceOf]

theorem highest_le_highest_push (batch : PgWriteBatch) (frame : PersistFrame) (publisherId : Nat) :
    batch.highest publisherId ≤ (batch.push frame).1.highest publisherId := by
  rw [highest_push]
  split_ifs <;> omega

theorem highest_le_highest_pushAll (batch : PgWriteBatch) (frames : List PersistFrame)
    (publisherId : Nat) :
    batch.highest publisherId ≤ (batch.pushAll frames).highest publisherId := by
  induction frames generalizing batch with
  | nil => exact le_rfl
  | cons frame rest ih => exact (highest_le_highest_push batch frame publisherId).trans (ih _)

/-- The numbers a publisher's frames are admitted with rise. -/
theorem sequenceOf_admitted (batch : PgWriteBatch) (publisherId : Nat)
    (frames : List PersistFrame) :
    (sequenceOf publisherId (batch.admitted frames)).Pairwise (· < ·) ∧
      ∀ seq ∈ sequenceOf publisherId (batch.admitted frames),
        batch.highest publisherId < seq ∧ seq ≤ (batch.pushAll frames).highest publisherId := by
  induction frames generalizing batch with
  | nil => simp [admitted, sequenceOf]
  | cons frame rest ih =>
    obtain ⟨rising, above⟩ := ih (batch.push frame).1
    have grows := highest_le_highest_push batch frame publisherId
    have bounded := highest_le_highest_pushAll (batch.push frame).1 rest publisherId
    have later : ∀ seq ∈ sequenceOf publisherId ((batch.push frame).1.admitted rest),
        batch.highest publisherId < seq ∧
          seq ≤ ((batch.push frame).1.pushAll rest).highest publisherId :=
      fun seq mem => ⟨grows.trans_lt (above seq mem).1, (above seq mem).2⟩
    rw [admitted_cons, sequenceOf_append, sequenceOf_admits, pushAll_cons]
    split_ifs with raised
    · have highest := highest_push batch frame publisherId
      rw [if_pos raised.1] at highest
      refine ⟨pairwise_cons.mpr ⟨fun seq mem => ?_, rising⟩, fun seq mem => ?_⟩
      · have := (above seq mem).1
        omega
      · rcases mem_cons.mp mem with rfl | mem
        · exact ⟨raised.2, by omega⟩
        · exact later seq mem
    · exact ⟨rising, later⟩

/-- The batch holds the last number admitted. -/
theorem pendingMaxSeq_pushAll (batch : PgWriteBatch) (publisherId : Nat)
    (frames : List PersistFrame) :
    (batch.pushAll frames).pendingMaxSeq.lookup publisherId =
      (sequenceOf publisherId (batch.admitted frames)).getLast?.or
        (batch.pendingMaxSeq.lookup publisherId) := by
  induction frames generalizing batch with
  | nil => rfl
  | cons frame rest ih =>
    rw [pushAll_cons, ih, (pushed_push batch frame).pendingMaxSeq,
      admitted_cons, sequenceOf_append, sequenceOf_admits, List.getLast?_append, Option.or_assoc]
    congr 1
    split_ifs <;> rfl

end PgWriteBatch

variable (checkpoint : Option Int)

/-- The checkpoint of a publisher after a flush. -/
def raiseCheckpoint (seq : Nat) : Option Int :=
  match checkpoint with
  | none => some (wrapI64 seq)
  | some last => some (max last (wrapI64 seq))

theorem lookup_flushCheckpoints (pending : Table Nat Nat) (checkpoints : Table Nat Int)
    (publisherId : Nat) :
    (flushCheckpoints pending checkpoints).lookup publisherId =
      (pending.lookup publisherId).elim (checkpoints.lookup publisherId)
        (raiseCheckpoint (checkpoints.lookup publisherId)) := by
  unfold flushCheckpoints
  rw [Table.lookup_union, Table.lookup_mapRows]
  cases pending.lookup publisherId with
  | none => rfl
  | some seq => cases checkpoints.lookup publisherId <;> rfl

/-- Flush numbers one after the other. -/
def raiseAll (seqs : List Nat) : Option Int :=
  seqs.foldl raiseCheckpoint checkpoint

/-- Numbers keep their order below half the range, where their sign changes. -/
theorem wrapI64_le_wrapI64 (le : first ≤ second) (bounded : second < 2 ^ 64)
    (sameHalf : first < 2 ^ 63 → second < 2 ^ 63) : wrapI64 first ≤ wrapI64 second := by
  rw [wrapI64_natCast (le.trans_lt bounded), wrapI64_natCast bounded]
  split_ifs <;> omega

theorem raiseCheckpoint_raiseCheckpoint
    (le : wrapI64 first ≤ wrapI64 second) (checkpoint : Option Int) :
    raiseCheckpoint (raiseCheckpoint checkpoint first) second =
      raiseCheckpoint checkpoint second := by
  cases checkpoint with
  | none => simp only [raiseCheckpoint, max_eq_right le]
  | some last => simp only [raiseCheckpoint, max_assoc, max_eq_right le]

/-- A checkpoint covers all numbers flushed. -/
theorem wrapI64_le_raiseAll (bound : Int)
    (covered : (∃ last ∈ checkpoint, bound ≤ last) ∨ ∃ seq ∈ seqs, bound ≤ wrapI64 seq) :
    ∃ last ∈ raiseAll checkpoint seqs, bound ≤ last := by
  induction seqs generalizing checkpoint with
  | nil =>
    rcases covered with known | ⟨seq, mem, -⟩
    · exact known
    · simp at mem
  | cons first rest ih =>
    apply ih (raiseCheckpoint checkpoint first)
    rcases covered with ⟨last, found, le⟩ | ⟨seq, mem, le⟩
    · left
      obtain rfl : checkpoint = some last := found
      exact ⟨max last (wrapI64 first), rfl, le_max_of_le_left le⟩
    · rcases mem_cons.mp mem with rfl | mem
      · left
        cases checkpoint with
        | none => exact ⟨_, rfl, le⟩
        | some last => exact ⟨_, rfl, le_max_of_le_right le⟩
      · exact .inr ⟨seq, mem, le⟩

/-- Rising numbers may be flushed together unless the sign of the column comes
between them. -/
theorem raise_getLast_eq_raiseAll_iff {checkpoint : Option Int}
    (rising : seqs.Pairwise (· < ·)) (bounded : ∀ seq ∈ seqs, floor < seq ∧ seq < 2 ^ 64)
    (covered : ∀ last ∈ checkpoint, last ≤ floor) :
    seqs.getLast?.elim checkpoint (raiseCheckpoint checkpoint) = raiseAll checkpoint seqs ↔
      ∀ first ∈ seqs, ∀ second ∈ seqs, first < 2 ^ 63 → second < 2 ^ 63 := by
  constructor
  · intro same first firstMember second secondMember low
    by_contra high
    obtain ⟨last, isLast⟩ : ∃ last, seqs.getLast? = some last := by
      cases seqs with
      | nil => simp at firstMember
      | cons head tail => exact ⟨_, List.getLast?_cons⟩
    have lastMember := mem_of_getLast? isLast
    have secondLe : second ≤ last := by
      obtain ⟨before, rfl⟩ := List.getLast?_eq_some_iff.mp isLast
      rcases mem_append.mp secondMember with earlier | here
      · exact ((pairwise_append.mp rising).2.2 second earlier last (by simp)).le
      · exact (mem_singleton.mp here).le
    have firstWrap : (first : Int) ≤ wrapI64 first := by
      rw [wrapI64_natCast (bounded first firstMember).2, if_pos low]
    obtain ⟨value, found, le⟩ := wrapI64_le_raiseAll checkpoint (first : Int)
      (.inr ⟨first, firstMember, firstWrap⟩)
    rw [← same, isLast] at found
    have lastBounded := (bounded last lastMember).2
    have firstAbove := (bounded first firstMember).1
    have lastWrap : wrapI64 last < 0 := by
      rw [wrapI64_natCast lastBounded]
      omega
    cases checkpoint with
    | none =>
      obtain rfl : wrapI64 last = value := some.inj found
      omega
    | some known =>
      have := covered known rfl
      obtain rfl : max known (wrapI64 last) = value := some.inj found
      omega
  · intro sameHalf
    induction seqs generalizing checkpoint with
    | nil => rfl
    | cons first rest ih =>
      cases rest with
      | nil => rfl
      | cons second rest =>
        have le : wrapI64 first ≤ wrapI64 second :=
          wrapI64_le_wrapI64
            ((pairwise_cons.mp rising).1 second (by simp)).le
            (bounded second (by simp)).2 (sameHalf first (by simp) second (by simp))
        have reduced : raiseAll checkpoint (first :: second :: rest) =
            raiseAll checkpoint (second :: rest) := by
          unfold raiseAll
          rw [foldl_cons, foldl_cons, raiseCheckpoint_raiseCheckpoint le, foldl_cons]
        rw [reduced]
        exact ih (pairwise_cons.mp rising).2
          (fun seq mem => bounded seq (mem_cons_of_mem _ mem)) covered
          (fun one oneMember other otherMember =>
            sameHalf one (mem_cons_of_mem _ oneMember) other
              (mem_cons_of_mem _ otherMember))

end LightningX.Persist
