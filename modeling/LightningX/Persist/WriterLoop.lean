import LightningX.Lib.Along
import LightningX.Persist.Tracked

/-!
# The loop of pg-writer

The main loop of `bin/pg_writer.rs`: frames are pushed one by one, a batch is
flushed when it is full or old, and a funding settlement is flushed alone.  A
flush that fails leaves the batch for the next attempt.
-/

namespace LightningX.Persist

open List Database PgWriteBatch
open Risk (Symbol UserId)

variable {frame : PersistFrame}

/-! ## Margin tables -/

/-- The tables a funding settlement reads and writes. -/
structure MarginTables where
  positions : Table (UserId × Symbol) PositionColumns
  riskAccounts : Table UserId RiskAccountColumns
  insuranceFundAtoms : Int
  fundingHistory : List FundingRecord
  fundingState : Table Symbol (Int × Int)
  deriving DecidableEq

def Database.margin (db : Database) : MarginTables where
  positions := db.positions
  riskAccounts := db.riskAccounts
  insuranceFundAtoms := db.insuranceFundAtoms
  fundingHistory := db.fundingHistory
  fundingState := db.fundingState

/-- The frame changes a margin table. -/
def PersistFrame.isMargin (frame : PersistFrame) : Bool :=
  match frame.payload with
  | .positionUpsert _ | .positionDelete _ _ | .riskAccountSet _ | .insuranceFundSet _
  | .fundingSettled _ => true
  | _ => false

/-- The row sets no margin table. -/
structure Row.Quiet (row : Row) : Prop where
  position : row.position? = none
  riskAccount : row.riskAccount? = none
  insuranceFund : row.insuranceFund? = none

theorem PersistFrame.isFunding_eq_false_of_isMargin (plain : frame.isMargin = false) :
    frame.isFunding = false := by
  unfold isMargin at plain
  unfold isFunding
  cases kind : frame.payload <;> simp_all

theorem PersistFrame.quiet_of_isMargin (plain : frame.isMargin = false) :
    ∀ row ∈ frame.rows, row.Quiet := by
  intro row mem
  have decoded := mem_rows_iff.mp mem
  unfold isMargin at plain
  cases kind : frame.payload with
  | orderDelete id => rw [kind] at decoded; cases decoded; exact ⟨rfl, rfl, rfl⟩
  | unknownKind => rw [kind] at decoded; cases decoded
  | orderUpsert payload | orderFillUpdate payload | accountSet payload
  | tradeInsert payload | matchingEvent payload =>
    rw [kind] at decoded
    obtain ⟨inner, rfl⟩ := Writer.exists_of_map_eq_ok decoded
    exact ⟨rfl, rfl, rfl⟩
  | _ => simp [kind] at plain

section

variable (arith : Arithmetic) {db other : Database}

namespace Database

theorem margin_applyFundingSettlement
    (same : db.margin = other.margin) (payload : FundingSettledPayload) :
    (db.applyFundingSettlement arith payload).margin =
      (other.applyFundingSettlement arith payload).margin := by
  have positions : db.positions = other.positions := congrArg MarginTables.positions same
  have riskAccounts : db.riskAccounts = other.riskAccounts :=
    congrArg MarginTables.riskAccounts same
  have fund : db.insuranceFundAtoms = other.insuranceFundAtoms :=
    congrArg MarginTables.insuranceFundAtoms same
  have history : db.fundingHistory = other.fundingHistory :=
    congrArg MarginTables.fundingHistory same
  have state : db.fundingState = other.fundingState := congrArg MarginTables.fundingState same
  simp only [applyFundingSettlement, openInterest, margin, positions, riskAccounts, fund,
    history, state]

theorem margin_applyRest (same : db.margin = other.margin) (rows : List Row) :
    (db.applyRest rows).margin = (other.applyRest rows).margin := by
  simp only [margin, MarginTables.mk.injEq] at same
  simp only [applyRest, margin, same]

theorem margin_applyRest_of_quiet (db : Database) (quiet : ∀ row ∈ rows, row.Quiet) :
    (db.applyRest rows).margin = db.margin := by
  have positions : rows.filterMap Row.position? = [] :=
    filterMap_eq_nil_iff.mpr fun row mem => (quiet row mem).position
  have riskAccounts : rows.filterMap Row.riskAccount? = [] :=
    filterMap_eq_nil_iff.mpr fun row mem => (quiet row mem).riskAccount
  have fund : rows.filterMap Row.insuranceFund? = [] :=
    filterMap_eq_nil_iff.mpr fun row mem => (quiet row mem).insuranceFund
  simp only [applyRest, positions, riskAccounts, fund]
  rfl

theorem margin_flushRows (db : Database) (rows : List Row) :
    (db.flushRows (Queues.empty.addAll rows)).margin = (db.applyRest rows).margin := by
  rw [flushRows_addAll]
  rfl

/-- Rows without a settlement may be flushed together. -/
theorem margin_applyEach
    (same : db.margin = other.margin) (plain : ∀ row ∈ rows, row.funding? = none) :
    (other.applyEach arith rows).margin = (db.applyRest rows).margin := by
  rw [applyEach_eq arith other plain]
  exact (margin_applyRest same rows).symm

end Database

/-- No frame that changes a margin table comes after a settlement. -/
def SettlesLast (frames : List PersistFrame) : Prop :=
  frames.Pairwise fun first second => first.isFunding → second.isMargin = false

theorem exists_first_settlement {frames : List PersistFrame}
    (settles : ∃ frame ∈ frames, frame.isFunding) :
    ∃ plain settlement quiet, frames = plain ++ settlement :: quiet ∧
      settlement.isFunding ∧ ∀ frame ∈ plain, frame.isFunding = false := by
  induction frames with
  | nil => simp at settles
  | cons frame rest ih =>
    cases kind : frame.isFunding with
    | true => exact ⟨[], frame, rest, rfl, kind, by simp⟩
    | false =>
      have later : ∃ frame ∈ rest, frame.isFunding := by
        obtain ⟨other, mem, isFunding⟩ := settles
        rcases mem_cons.mp mem with rfl | later
        · simp [kind] at isFunding
        · exact ⟨other, later, isFunding⟩
      obtain ⟨plain, settlement, quiet, rfl, isFunding, noneBefore⟩ := ih later
      refine ⟨frame :: plain, settlement, quiet, rfl, isFunding, fun other mem => ?_⟩
      rcases mem_cons.mp mem with rfl | before
      · exact kind
      · exact noneBefore other before

theorem plain_flatMap_rows {frames : List PersistFrame}
    (plain : ∀ frame ∈ frames, frame.isFunding = false) :
    ∀ row ∈ frames.flatMap PersistFrame.rows, row.funding? = none := by
  intro row mem
  obtain ⟨frame, isFrame, isRow⟩ := mem_flatMap.mp mem
  exact Writer.funding_eq_none_of_mem_rows (plain frame isFrame) isRow

/-- A batch whose settlement comes last leaves the margin tables as its frames do one
by one. -/
theorem SettlesLast.margin_flushFrames
    (settlesLast : SettlesLast frames) (same : db.margin = other.margin) :
    (db.flushFrames arith frames).margin =
      (other.applyEach arith (frames.flatMap PersistFrame.rows)).margin := by
  unfold flushFrames flushQueues
  by_cases settles : ∃ frame ∈ frames, frame.isFunding
  · obtain ⟨plain, settlement, quiet, rfl, isFunding, noneBefore⟩ := exists_first_settlement settles
    obtain ⟨payload, isRow⟩ := PersistFrame.rows_of_isFunding isFunding
    have noneAfter : ∀ frame ∈ quiet, frame.isMargin = false := fun frame mem =>
      (pairwise_cons.mp (pairwise_append.mp settlesLast).2.1).1 frame mem isFunding
    have plainRows := plain_flatMap_rows noneBefore
    have quietRows := plain_flatMap_rows fun frame mem =>
      PersistFrame.isFunding_eq_false_of_isMargin (noneAfter frame mem)
    have quietAfter : ∀ row ∈ quiet.flatMap PersistFrame.rows, row.Quiet := by
      intro row mem
      obtain ⟨frame, isFrame, mine⟩ := mem_flatMap.mp mem
      exact PersistFrame.quiet_of_isMargin (noneAfter frame isFrame) row mine
    rw [flatMap_append, flatMap_cons, isRow, singleton_append]
    generalize plain.flatMap PersistFrame.rows = before at *
    generalize quiet.flatMap PersistFrame.rows = after at *
    have waits : (Queues.empty.addAll (before ++ .funding payload :: after)).pendingFunding =
        some payload := by
      rw [Queues.addAll_eq, filterMap_append, filterMap_cons,
        filterMap_eq_nil_iff.mpr plainRows, filterMap_eq_nil_iff.mpr quietRows]
      rfl
    have restQuiet : ∀ row ∈ Row.funding payload :: after, row.Quiet := by
      intro row mem
      rcases mem_cons.mp mem with rfl | later
      · exact ⟨rfl, rfl, rfl⟩
      · exact quietAfter row later
    have sameBefore :
        (db.flushRows (Queues.empty.addAll (before ++ .funding payload :: after))).margin =
          (other.applyEach arith before).margin := by
      rw [margin_flushRows, applyRest_append, margin_applyRest_of_quiet _ restQuiet,
        margin_applyEach arith same plainRows]
    rw [waits, applyEach_append]
    show _ = (applyEach arith
      ((other.applyEach arith before).applyFundingSettlement arith payload) after).margin
    rw [margin_applyEach arith rfl quietRows, margin_applyRest_of_quiet _ quietAfter]
    exact margin_applyFundingSettlement arith sameBefore payload
  · have plainRows := @plain_flatMap_rows frames (by simpa using settles)
    have waits : (Queues.empty.addAll (frames.flatMap PersistFrame.rows)).pendingFunding =
        none := by
      rw [Queues.addAll_eq, filterMap_eq_nil_iff.mpr plainRows]
      rfl
    rw [waits, margin_applyEach arith same plainRows]
    exact margin_flushRows db _

/-- Only the frames that change a margin table matter for these. -/
theorem margin_applyEach_filter (same : db.margin = other.margin) (frames : List PersistFrame) :
    (db.applyEach arith (frames.flatMap PersistFrame.rows)).margin =
      (other.applyEach arith
        ((frames.filter PersistFrame.isMargin).flatMap PersistFrame.rows)).margin := by
  induction frames generalizing db other with
  | nil => exact same
  | cons frame rest ih =>
    have alone : SettlesLast [frame] := pairwise_singleton _ _
    have sameAfter : (db.applyEach arith frame.rows).margin =
        (other.applyEach arith frame.rows).margin := by
      have first := alone.margin_flushFrames arith (rfl : db.margin = db.margin)
      have second := alone.margin_flushFrames arith same
      rw [flatMap_singleton] at first second
      exact first.symm.trans second
    rw [flatMap_cons, applyEach_append]
    cases kind : frame.isMargin with
    | true =>
      rw [filter_cons_of_pos kind, flatMap_cons, applyEach_append]
      exact ih sameAfter
    | false =>
      rw [filter_cons_of_neg (by simp [kind])]
      refine ih (Eq.trans ?_ same)
      rw [margin_applyEach arith rfl fun row mem =>
          Writer.funding_eq_none_of_mem_rows
            (PersistFrame.isFunding_eq_false_of_isMargin kind) mem,
        margin_applyRest_of_quiet _ (PersistFrame.quiet_of_isMargin kind)]

/-! ## The loop -/

/-- A turn of the loop, with the outcome of each flush it may attempt: a frame, or
the time trigger. -/
inductive Turn
  | pop (frame : PersistFrame) (before after size : Option FlushPoint)
  | time (outcome : Option FlushPoint)

def Turn.frame? : Turn → Option PersistFrame
  | pop frame _ _ _ => some frame
  | time _ => none

namespace Writer

/-- The flush before a settlement. -/
def flushBefore (writer : Writer) (frame : PersistFrame) (outcome : Option FlushPoint) :
    Writer :=
  if frame.isFunding ∧ 0 < writer.batch.queues.len then writer.flushNow arith outcome
  else writer

/-- The flush of a settlement. -/
def flushAfter (writer : Writer) (frame : PersistFrame) (outcome : Option FlushPoint) :
    Writer :=
  if frame.isFunding then writer.flushNow arith outcome else writer

def flushFull (writer : Writer) (maxBatch : Nat) (outcome : Option FlushPoint) : Writer :=
  if maxBatch ≤ writer.batch.queues.len then writer.flushNow arith outcome else writer

def turn (maxBatch : Nat) (writer : Writer) : Turn → Writer
  | .pop frame before after size =>
    (((writer.flushBefore arith frame before).push frame).flushAfter arith frame
      after).flushFull arith maxBatch size
  | .time outcome => writer.flushNow arith outcome

def turns (maxBatch : Nat) (writer : Writer) (list : List Turn) : Writer :=
  list.foldl (turn arith maxBatch) writer

def accepts (writer : Writer) : Turn → List PersistFrame
  | .pop frame before _ _ =>
    if ((writer.flushBefore arith frame before).batch.push frame).2 then [frame] else []
  | .time _ => []

def accepted (maxBatch : Nat) (writer : Writer) : List Turn → List PersistFrame
  | [] => []
  | turn :: rest =>
    writer.accepts arith turn ++ accepted maxBatch (writer.turn arith maxBatch turn) rest

/-- The frames are applied exactly once: the tables are what transactions leave that
hold them in order, settlements see what the frames before them leave, and the
checkpoints are numbers of frames and cover all that are accepted. -/
structure ExactlyOnce (first last : Writer) (frames accepted : List PersistFrame) :
    Prop where
  transactions : ∃ batches : List (List PersistFrame), batches.flatten = accepted ∧
    last.db = { batches.foldl (flushFrames arith) first.db with
      checkpoints := last.db.checkpoints }
  margin : last.db.margin = (first.db.applyEach arith (accepted.flatMap PersistFrame.rows)).margin
  covered : ∀ frame ∈ accepted, frame.seq.toNat ≤ last.floor frame.publisherId
  precise : ∀ publisherId, last.floor publisherId = first.floor publisherId ∨
    ∃ frame ∈ frames, frame.publisherId = publisherId ∧ frame.seq.toNat = last.floor publisherId

/-- While a settlement waits in the batch no flush fails after taking it, and no frame
that changes a margin table is pushed. -/
def KeepsSettlement (writer : Writer) : Turn → Prop
  | .pop frame before after size =>
    (writer.batch.queues.pendingFunding.isSome → frame.isMargin → frame.isFunding ∧ before = none) ∧
    (writer.batch.queues.pendingFunding.isSome ∨ frame.isFunding →
      ∀ outcome ∈ [after, size], ∀ point ∈ outcome, point.afterTake = false)
  | .time outcome =>
    writer.batch.queues.pendingFunding.isSome → ∀ point ∈ outcome, point.afterTake = false

instance (writer : Writer) : (turn : Turn) → Decidable (writer.KeepsSettlement turn)
  | .pop _ _ _ _ => inferInstanceAs (Decidable (_ ∧ _))
  | .time _ => inferInstanceAs (Decidable (_ → _))

/-- Each turn keeps the settlement, if there is one. -/
def KeepsSettlements (maxBatch : Nat) (writer : Writer) (list : List Turn) : Prop :=
  Along (Writer.turn arith maxBatch) KeepsSettlement writer list
deriving Decidable

end Writer

/-! ## Frames on their way -/

/-- Every accepted frame is in the database or waits, and only there. -/
structure TrackedWriter.OnTrack (first : Writer) (frames accepted : List PersistFrame)
    (tracked : TrackedWriter) : Prop where
  booked : tracked.Booked arith first.db
  numbered : tracked.Numbered
  all : tracked.applied ++ tracked.pending = accepted
  settlesLast : SettlesLast tracked.pending
  margin : tracked.writer.db.margin =
    (first.db.applyEach arith (tracked.applied.flatMap PersistFrame.rows)).margin
  numbers : ∀ publisherId, ∀ seq ∈ tracked.writer.batch.pendingMaxSeq.lookup publisherId,
    ∃ frame ∈ frames, frame.publisherId = publisherId ∧ frame.seq.toNat = seq
  floor : ∀ publisherId, tracked.writer.floor publisherId = first.floor publisherId ∨
    ∃ frame ∈ frames, frame.publisherId = publisherId ∧
      frame.seq.toNat = tracked.writer.floor publisherId

namespace TrackedWriter

theorem onTrack_start (db : Database) : (start db).OnTrack arith (.start db) [] [] where
  booked := booked_start arith db
  numbered := numbered_start db
  all := rfl
  settlesLast := List.Pairwise.nil
  margin := rfl
  numbers publisherId seq found := by
    obtain found : (∅ : Table Nat Nat).lookup publisherId = some seq := found
    simp at found
  floor _ := .inl rfl

namespace OnTrack

variable
  {first : Writer}
  {frames accepted : List PersistFrame}
  {tracked : TrackedWriter}
  (onTrack : tracked.OnTrack arith first frames accepted)
include onTrack

/-- A flush that does not lose the settlement. -/
theorem flushNow {outcome : Option FlushPoint}
    (keeps : tracked.writer.batch.queues.pendingFunding.isSome →
      ∀ point ∈ outcome, point.afterTake = false) :
    (tracked.flushNow arith outcome).OnTrack arith first frames accepted := by
  have booked := onTrack.booked.flushNow arith outcome
  have numbered := onTrack.numbered.flushNow arith outcome
  unfold TrackedWriter.flushNow at booked numbered ⊢
  split_ifs at booked numbered ⊢ with empty
  · exact onTrack
  · have flushed := Writer.flushNow_of_len_ne_zero arith empty
    cases outcome with
    | none =>
      simp only [flushed] at booked numbered ⊢
      refine ⟨booked, numbered, ?_, List.Pairwise.nil, ?_, ?_, fun publisherId => ?_⟩
      · simpa [applied] using onTrack.all
      · show (tracked.writer.db.commit arith tracked.writer.batch).margin = _
        have committed : (tracked.writer.db.commit arith tracked.writer.batch).margin =
            (tracked.writer.db.flushFrames arith tracked.pending).margin := by
          unfold commit
          rw [onTrack.booked.queues]
          rfl
        rw [committed, onTrack.settlesLast.margin_flushFrames arith onTrack.margin,
          ← applyEach_append]
        simp [applied]
      · intro publisherId seq found
        obtain found : (∅ : Table Nat Nat).lookup publisherId = some seq := found
        simp at found
      · have known : ∀ number, number = tracked.writer.batch.highest publisherId →
            number = first.floor publisherId ∨
              ∃ frame ∈ frames, frame.publisherId = publisherId ∧ frame.seq.toNat = number := by
          rintro _ rfl
          unfold highest
          cases found : tracked.writer.batch.pendingMaxSeq.lookup publisherId with
          | none =>
            rw [← onTrack.numbered.floors]
            exact onTrack.floor publisherId
          | some seq => exact .inr (onTrack.numbers publisherId seq found)
        exact known _ (onTrack.numbered.floor_commit arith publisherId)
    | some point =>
      have nothingLost : (if point.afterTake then unsettled tracked.pending
          else tracked.pending) = tracked.pending := by
        cases waits : tracked.writer.batch.queues.pendingFunding with
        | none => rw [onTrack.booked.unsettled_pending arith waits, ite_self]
        | some payload =>
          rw [keeps (by rw [waits]; rfl) point rfl]
          rfl
      simp only [flushed, nothingLost] at booked numbered ⊢
      refine ⟨booked, numbered, onTrack.all, onTrack.settlesLast, onTrack.margin, ?_, onTrack.floor⟩
      show ∀ publisherId, ∀ seq ∈
        (tracked.writer.batch.failed point).pendingMaxSeq.lookup publisherId, _
      rw [pendingMaxSeq_failed]
      exact onTrack.numbers

/-- A frame that may follow what waits. -/
theorem push {frame : PersistFrame} (small : frame.seq.toNat < 2 ^ 63)
    (follows : tracked.writer.batch.queues.pendingFunding.isSome → frame.isMargin = false) :
    (tracked.push frame).OnTrack arith first (frames ++ [frame])
      (accepted ++ if (tracked.writer.batch.push frame).2 then [frame] else []) := by
  have pushed := pushed_push tracked.writer.batch frame
  have pending : (tracked.push frame).pending = tracked.pending ++
      if (tracked.writer.batch.push frame).2 then [frame] else [] := by
    unfold TrackedWriter.push
    split_ifs with isAccepted isFunding
    · cases waits : tracked.writer.batch.queues.pendingFunding with
      | none => rw [onTrack.booked.unsettled_pending arith waits]
      | some payload =>
        have plain := PersistFrame.isFunding_eq_false_of_isMargin (follows (by rw [waits]; rfl))
        rw [plain] at isFunding
        cases isFunding
    · rfl
    · exact (append_nil _).symm
  refine ⟨onTrack.booked.push arith frame, onTrack.numbered.push small, ?_, ?_,
    onTrack.margin, ?_, fun publisherId => ?_⟩
  · show tracked.applied ++ (tracked.push frame).pending = _
    rw [pending, ← append_assoc, onTrack.all]
  · rw [pending]
    refine pairwise_append.mpr ⟨onTrack.settlesLast, ?_, ?_⟩
    · split_ifs
      · exact pairwise_singleton _ _
      · exact List.Pairwise.nil
    · intro earlier mem later isLater isFunding
      have isFrame : later = frame := by
        split_ifs at isLater
        · exact mem_singleton.mp isLater
        · simp at isLater
      rw [isFrame]
      exact follows ((onTrack.booked.isSome_pendingFunding_iff arith).mpr ⟨earlier, mem, isFunding⟩)
  · intro publisherId seq found
    obtain found : (tracked.writer.batch.push frame).1.pendingMaxSeq.lookup publisherId =
      some seq := found
    rw [pushed.pendingMaxSeq] at found
    split_ifs at found with raised
    · exact ⟨frame, mem_append_right _ (mem_singleton_self _), raised.1.symm, Option.some.inj found⟩
    · obtain ⟨other, mem, same⟩ := onTrack.numbers publisherId seq found
      exact ⟨other, mem_append_left _ mem, same⟩
  · rcases onTrack.floor publisherId with same | ⟨other, mem, same⟩
    · exact .inl same
    · exact .inr ⟨other, mem_append_left _ mem, same⟩

end OnTrack
end TrackedWriter

namespace Writer

variable {outcome : Option FlushPoint}

/-- The frames of a writer can be followed. -/
def OnTrack (first : Writer) (frames accepted : List PersistFrame) (writer : Writer) : Prop :=
  ∃ tracked : TrackedWriter, tracked.writer = writer ∧ tracked.OnTrack arith first frames accepted

theorem len_ne_zero_of_pendingFunding {queues : Queues} (waits : queues.pendingFunding.isSome) :
    queues.len ≠ 0 := by
  obtain ⟨payload, found⟩ := Option.isSome_iff_exists.mp waits
  simp [Queues.len, found]

/-- No flush brings a settlement. -/
theorem pendingFunding_flushNow {writer : Writer}
    (waits : (writer.flushNow arith outcome).batch.queues.pendingFunding.isSome) :
    outcome ≠ none ∧ writer.batch.queues.pendingFunding.isSome := by
  unfold flushNow at waits
  split_ifs at waits with empty
  · exact absurd empty (len_ne_zero_of_pendingFunding waits)
  · cases outcome with
    | none => simp [flush, committed, Queues.empty] at waits
    | some point =>
      refine ⟨by simp, ?_⟩
      obtain waits : (writer.batch.failed point).queues.pendingFunding.isSome := waits
      unfold failed at waits
      split_ifs at waits
      · simp at waits
      · exact waits

theorem pendingFunding_flushBefore {writer : Writer}
    (waits : (writer.flushBefore arith frame outcome).batch.queues.pendingFunding.isSome) :
    (frame.isFunding → outcome ≠ none) ∧ writer.batch.queues.pendingFunding.isSome := by
  unfold flushBefore at waits
  split_ifs at waits with flushes
  · obtain ⟨fails, before⟩ := pendingFunding_flushNow arith waits
    exact ⟨fun _ => fails, before⟩
  · refine ⟨fun isFunding => absurd ⟨isFunding, ?_⟩ flushes, waits⟩
    exact Nat.pos_of_ne_zero (len_ne_zero_of_pendingFunding waits)

theorem pendingFunding_push {writer : Writer}
    (waits : (writer.push frame).batch.queues.pendingFunding.isSome) :
    writer.batch.queues.pendingFunding.isSome ∨ frame.isFunding := by
  obtain waits : (writer.batch.push frame).1.queues.pendingFunding.isSome := waits
  rw [(pushed_push writer.batch frame).queues] at waits
  cases kind : frame.isFunding with
  | true => exact .inr rfl
  | false =>
    left
    have plain : ∀ row ∈ (if writer.batch.Admits frame then frame.rows else []),
        row.funding? = none := by
      intro row mem
      split_ifs at mem
      · exact Writer.funding_eq_none_of_mem_rows kind mem
      · simp at mem
    rw [Queues.addAll_eq, filterMap_eq_nil_iff.mpr plain] at waits
    exact waits

namespace OnTrack

variable
  {first writer : Writer}
  {frames accepted : List PersistFrame}
  (onTrack : OnTrack arith first frames accepted writer)
include onTrack

theorem flushNow {outcome : Option FlushPoint}
    (keeps : writer.batch.queues.pendingFunding.isSome →
      ∀ point ∈ outcome, point.afterTake = false) :
    OnTrack arith first frames accepted (writer.flushNow arith outcome) := by
  obtain ⟨tracked, rfl, onTrack⟩ := onTrack
  exact ⟨tracked.flushNow arith outcome, tracked.writer_flushNow arith outcome,
    onTrack.flushNow arith keeps⟩

theorem push {frame : PersistFrame} (small : frame.seq.toNat < 2 ^ 63)
    (follows : writer.batch.queues.pendingFunding.isSome → frame.isMargin = false) :
    OnTrack arith first (frames ++ [frame])
      (accepted ++ if (writer.batch.push frame).2 then [frame] else []) (writer.push frame) := by
  obtain ⟨tracked, rfl, onTrack⟩ := onTrack
  exact ⟨tracked.push frame, rfl, onTrack.push arith small follows⟩

theorem flushAfter
    (frame : PersistFrame)
    (keeps : writer.batch.queues.pendingFunding.isSome →
      ∀ point ∈ outcome, point.afterTake = false) :
    OnTrack arith first frames accepted (writer.flushAfter arith frame outcome) := by
  unfold Writer.flushAfter
  split_ifs
  · exact onTrack.flushNow arith keeps
  · exact onTrack

theorem flushFull
    (maxBatch : Nat)
    (keeps : writer.batch.queues.pendingFunding.isSome →
      ∀ point ∈ outcome, point.afterTake = false) :
    OnTrack arith first frames accepted (writer.flushFull arith maxBatch outcome) := by
  unfold Writer.flushFull
  split_ifs
  · exact onTrack.flushNow arith keeps
  · exact onTrack

/-- One turn keeps the frames on their way. -/
theorem turn {turn : Turn}
    (maxBatch : Nat) (small : ∀ frame ∈ turn.frame?, frame.seq.toNat < 2 ^ 63)
    (keeps : writer.KeepsSettlement turn) :
    OnTrack arith first (frames ++ turn.frame?.toList)
      (accepted ++ writer.accepts arith turn) (writer.turn arith maxBatch turn) := by
  cases turn with
  | time outcome =>
    show OnTrack arith first (frames ++ []) (accepted ++ []) (writer.flushNow arith outcome)
    rw [append_nil, append_nil]
    exact onTrack.flushNow arith keeps
  | pop frame before after size =>
    obtain ⟨follows, kept⟩ := keeps
    have beforeOnTrack :
        OnTrack arith first frames accepted (writer.flushBefore arith frame before) := by
      unfold flushBefore
      split_ifs with flushes
      · refine onTrack.flushNow arith fun waits point fails => ?_
        have isMargin : frame.isMargin := by
          by_contra plain
          have := PersistFrame.isFunding_eq_false_of_isMargin (by simpa using plain)
          simp [this] at flushes
        rw [(follows waits isMargin).2] at fails
        cases fails
      · exact onTrack
    have pushed := beforeOnTrack.push arith (small frame rfl) fun waits => by
      obtain ⟨fails, before⟩ := pendingFunding_flushBefore arith waits
      by_contra isMargin
      have settles := follows before (by simpa using isMargin)
      exact fails settles.1 settles.2
    have waiting : ((writer.flushBefore arith frame before).push
        frame).batch.queues.pendingFunding.isSome →
          writer.batch.queues.pendingFunding.isSome ∨ frame.isFunding := fun waits =>
      (pendingFunding_push waits).imp_left fun earlier =>
        (pendingFunding_flushBefore arith earlier).2
    have afterOnTrack := pushed.flushAfter arith frame fun waits =>
      kept (waiting waits) after (by simp)
    refine afterOnTrack.flushFull arith maxBatch fun waits => kept (waiting ?_) size (by simp)
    unfold Writer.flushAfter at waits
    split_ifs at waits
    · exact (pendingFunding_flushNow arith waits).2
    · exact waits

/-- Turns keep the frames on their way. -/
theorem turns
    (maxBatch : Nat) (small : ∀ frame ∈ list.filterMap Turn.frame?, frame.seq.toNat < 2 ^ 63)
    (keeps : KeepsSettlements arith maxBatch writer list) :
    OnTrack arith first (frames ++ list.filterMap Turn.frame?)
      (accepted ++ writer.accepted arith maxBatch list) (writer.turns arith maxBatch list) := by
  induction list generalizing writer frames accepted with
  | nil =>
    show OnTrack arith first (frames ++ []) (accepted ++ []) writer
    rw [append_nil, append_nil]
    exact onTrack
  | cons turn rest ih =>
    obtain ⟨here, later⟩ := keeps
    have split : (turn :: rest).filterMap Turn.frame? =
        turn.frame?.toList ++ rest.filterMap Turn.frame? := by
      cases found : turn.frame? <;> simp [found]
    rw [split] at small ⊢
    have next := onTrack.turn arith maxBatch
      (fun frame found => small frame (mem_append_left _ (by simpa using found))) here
    have whole := ih next (fun frame mem => small frame (mem_append_right _ mem)) later
    rw [append_assoc, append_assoc] at whole
    exact whole

/-- When nothing waits, everything that was accepted is in the database. -/
theorem exactlyOnce (empty : writer.batch.queues.len = 0) :
    ExactlyOnce arith first writer frames accepted := by
  obtain ⟨tracked, rfl, onTrack⟩ := onTrack
  have nonePending : tracked.pending = [] := by
    rw [onTrack.booked.queues] at empty
    have noRows := flatMap_eq_nil_iff.mp (Queues.eq_nil_of_len_addAll empty)
    exact eq_nil_iff_forall_not_mem.mpr fun frame mem =>
      onTrack.booked.wellFormed frame mem (noRows frame mem)
  have all : tracked.applied = accepted := by rw [← onTrack.all, nonePending, append_nil]
  refine ⟨⟨tracked.committed, all, onTrack.booked.db⟩, ?_, ?_, onTrack.floor⟩
  · rw [← all]
    exact onTrack.margin
  · rw [← all]
    exact onTrack.numbered.applied

end OnTrack

theorem len_flushNow_none (writer : Writer) :
    (writer.flushNow arith none).batch.queues.len = 0 := by
  unfold flushNow
  split_ifs with empty
  · exact empty
  · rfl

/-- In every run that keeps its settlements, every accepted frame is applied exactly
once after a last successful flush. -/
theorem exactlyOnce_of_keepsSettlements (maxBatch : Nat) (db : Database) {list : List Turn}
    (small : ∀ frame ∈ list.filterMap Turn.frame?, frame.seq.toNat < 2 ^ 63)
    (keeps : KeepsSettlements arith maxBatch (start db) list) :
    ExactlyOnce arith (start db) (((start db).turns arith maxBatch list).flushNow arith none)
      (list.filterMap Turn.frame?) ((start db).accepted arith maxBatch list) := by
  have begun : OnTrack arith (start db) [] [] (start db) :=
    ⟨.start db, rfl, TrackedWriter.onTrack_start arith db⟩
  have ran := begun.turns arith maxBatch small keeps
  have flushed : OnTrack arith (start db) (list.filterMap Turn.frame?)
      ((start db).accepted arith maxBatch list)
      (((start db).turns arith maxBatch list).flushNow arith none) :=
    ran.flushNow arith nofun
  exact flushed.exactlyOnce arith (len_flushNow_none arith _)

end Writer
end

/-- A funding settlement of `BTC_USDT`. -/
def PersistFrame.settled (seq : UInt64) : PersistFrame where
  publisherId := 0
  seq := seq
  payload := .fundingSettled {
    symbol := 7
    rateE9 := 100000
    markPriceTicks := 5000000
    notionalScale := 10
    settledAtMs := 1700000000000
    nextSettlementAtMs := 1700028800000 }

namespace Writer

open PersistFrame

/-- The database is away until the time trigger. -/
theorem exactlyOnce_retried :
    ExactlyOnce .machine (start .new)
      (((start .new).turns .machine 5000 [.pop (bidAccepted 1) none none none,
        .pop (settled 2) (some .begin) (some .begin) none, .time (some .upserts),
        .pop (bidTraded 3) none none none, .time none]).flushNow .machine none)
      [bidAccepted 1, settled 2, bidTraded 3]
      ((start .new).accepted .machine 5000 [.pop (bidAccepted 1) none none none,
        .pop (settled 2) (some .begin) (some .begin) none, .time (some .upserts),
        .pop (bidTraded 3) none none none, .time none]) :=
  exactlyOnce_of_keepsSettlements .machine 5000 .new (by decide +kernel) (by decide +kernel)

/-- The transaction of a settlement fails when it commits.  The settlement is gone, and
the next flush moves the checkpoint past it. -/
theorem not_exactlyOnce_commitFails :
    ¬ ExactlyOnce .machine (start .new)
      (((start .new).turns .machine 5000 [.pop (settled 1) none (some .commit) none,
        .pop (bidDeleted 2) none none none]).flushNow .machine none)
      [settled 1, bidDeleted 2]
      ((start .new).accepted .machine 5000 [.pop (settled 1) none (some .commit) none,
        .pop (bidDeleted 2) none none none]) := by
  intro once
  exact absurd once.margin (by decide +kernel)

end Writer
end LightningX.Persist
