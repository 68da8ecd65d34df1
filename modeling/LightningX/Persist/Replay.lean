import LightningX.Lib.Along
import LightningX.Persist.Tracked

/-!
# Replays, crashes and restarts

Frames may reach `pg-writer` again, from any earlier point, and the writer may
crash at any time.  A frame is taken if its number is above the checkpoint and
above the numbers that wait.
-/

namespace LightningX.Persist

open List PgWriteBatch

/-- What happens to a writer. -/
inductive Event
  | deliver (frame : PersistFrame)
  | flush (outcome : Option FlushPoint)
  | restart
  deriving DecidableEq

/-- The frame that is delivered. -/
def Event.frame? : Event → Option PersistFrame
  | deliver frame => some frame
  | _ => none

/-- The frames of all publishers, in the order in which they were numbered. -/
structure Published (frames : List PersistFrame) : Prop where
  numbered : ∀ frame ∈ frames, frame.seq.toNat ≠ 0
  rising : frames.Pairwise fun first second =>
    first.publisherId = second.publisherId → first.seq.toNat < second.seq.toNat

theorem Published.eq_of_seq_eq (published : Published frames) (mem : frame ∈ frames)
    (otherMember : other ∈ frames) (samePublisher : frame.publisherId = other.publisherId)
    (sameSeq : frame.seq.toNat = other.seq.toNat) : frame = other := by
  by_contra ne
  have apart : frames.Pairwise fun first second =>
      first.publisherId = second.publisherId → first.seq.toNat ≠ second.seq.toNat :=
    published.rising.imp fun below mine => (below mine).ne
  have symmetric : Std.Symm fun first second : PersistFrame =>
      first.publisherId = second.publisherId → first.seq.toNat ≠ second.seq.toNat :=
    ⟨fun _ _ differ mine equal => differ mine.symm equal.symm⟩
  exact apart.forall mem otherMember ne samePublisher sameSeq

/-- Each publisher's frames are delivered for the first time in their order. -/
def FirstInOrder (frames : List PersistFrame) (events : List Event) : Prop :=
  ∀ publisherId ∈ frames.map (·.publisherId),
    ((events.filterMap Event.frame?).eraseDups.filter (·.publisherId = publisherId)) <+:
      frames.filter (·.publisherId = publisherId)

instance (frames : List PersistFrame) (events : List Event) :
    Decidable (FirstInOrder frames events) :=
  inferInstanceAs (Decidable (∀ publisherId ∈ _, _))

section

variable (arith : Arithmetic)

namespace TrackedWriter

def step (tracked : TrackedWriter) : Event → TrackedWriter
  | .deliver frame => tracked.push frame
  | .flush outcome => tracked.flushNow arith outcome
  | .restart => tracked.restart

def run (tracked : TrackedWriter) (events : List Event) : TrackedWriter :=
  events.foldl (step arith) tracked

/-- A frame that can be decoded is only rejected if it is known. -/
def RejectsOnly (known : TrackedWriter → List PersistFrame) (tracked : TrackedWriter)
    (events : List Event) : Prop :=
  Along (step arith) (fun tracked event => ∀ frame ∈ event.frame?,
    frame.rows = [] ∨ tracked.writer.batch.Admits frame ∨ frame ∈ known tracked) tracked events
deriving Decidable

def taken (tracked : TrackedWriter) : List PersistFrame :=
  tracked.applied ++ tracked.pending

/-- A frame is delivered when the frames before it are taken, and no settlement is
dropped from the batch. -/
def Orderly (frames : List PersistFrame) (tracked : TrackedWriter) : Event → Prop
  | .deliver frame =>
    (∀ earlier ∈ frames, earlier.publisherId = frame.publisherId →
      earlier.seq.toNat < frame.seq.toNat → earlier.rows ≠ [] → earlier ∈ tracked.taken) ∧
    (frame.isFunding ∧ tracked.writer.batch.Admits frame →
      tracked.writer.batch.queues.pendingFunding = none)
  | .flush outcome =>
    tracked.writer.batch.queues.pendingFunding = none ∨ ∀ point ∈ outcome, point.afterTake = false
  | .restart => True

instance (frames : List PersistFrame) (tracked : TrackedWriter) :
    (event : Event) → Decidable (tracked.Orderly frames event)
  | .deliver _ => inferInstanceAs (Decidable (_ ∧ _))
  | .flush _ => inferInstanceAs (Decidable (_ ∨ _))
  | .restart => isTrue trivial

/-- Every event of the run is orderly when it happens. -/
def RunOrderly (frames : List PersistFrame) (tracked : TrackedWriter)
    (events : List Event) : Prop :=
  Along (step arith) (Orderly frames) tracked events
deriving Decidable

/-- What holds in every history of published frames with numbers below 2^63. -/
structure Sound (first : Database) (frames : List PersistFrame)
    (tracked : TrackedWriter) : Prop where
  booked : tracked.Booked arith first
  numbered : tracked.Numbered
  taken : tracked.taken ⊆ frames

theorem taken_push (tracked : TrackedWriter) (frame : PersistFrame) :
    (tracked.push frame).taken ⊆ tracked.taken ++ [frame] := by
  intro other mem
  rcases mem_append.mp mem with applied | pending
  · exact mem_append_left _ (mem_append_left _ applied)
  · rcases tracked.pending_push frame with ⟨-, same⟩ | ⟨-, kept, sublist, same⟩
    · rw [same] at pending
      exact mem_append_left _ (mem_append_right _ pending)
    · rw [same] at pending
      rcases mem_append.mp pending with old | new
      · exact mem_append_left _ (mem_append_right _ (sublist.subset old))
      · exact mem_append_right _ new

theorem taken_flushNow (tracked : TrackedWriter) (outcome : Option FlushPoint) :
    (tracked.flushNow arith outcome).taken ⊆ tracked.taken := by
  intro frame mem
  unfold flushNow at mem
  split_ifs at mem
  · exact mem
  · cases outcome with
    | none => simpa [taken, applied] using mem
    | some point =>
      rcases mem_append.mp mem with applied | pending
      · exact mem_append_left _ applied
      · refine mem_append_right _ ?_
        simp only at pending
        split_ifs at pending
        · exact mem_of_mem_filter pending
        · exact pending

theorem Sound.step {first : Database} {frames : List PersistFrame} {tracked : TrackedWriter}
    (sound : tracked.Sound arith first frames)
    {event : Event} (known : ∀ frame ∈ event.frame?, frame ∈ frames ∧ frame.seq.toNat < 2 ^ 63) :
    (tracked.step arith event).Sound arith first frames := by
  cases event with
  | deliver frame =>
    obtain ⟨mem, small⟩ := known frame rfl
    refine ⟨sound.booked.push arith frame, sound.numbered.push small, ?_⟩
    refine List.Subset.trans (tracked.taken_push frame) ?_
    exact append_subset.mpr ⟨sound.taken, by simpa using mem⟩
  | flush outcome =>
    exact ⟨sound.booked.flushNow arith outcome, sound.numbered.flushNow arith outcome,
      List.Subset.trans (tracked.taken_flushNow arith outcome) sound.taken⟩
  | restart =>
    refine ⟨sound.booked.restart arith, sound.numbered.restart, ?_⟩
    refine List.Subset.trans ?_ sound.taken
    show tracked.applied ++ [] ⊆ tracked.taken
    rw [append_nil]
    exact subset_append_left _ _

theorem sound_start (db : Database) (frames : List PersistFrame) :
    (start db).Sound arith db frames where
  booked := booked_start arith db
  numbered := numbered_start db
  taken := by simp [start, taken, applied]

theorem Sound.run {first : Database} {frames : List PersistFrame} {tracked : TrackedWriter}
    (sound : tracked.Sound arith first frames) {events : List Event}
    (known : ∀ frame ∈ events.filterMap Event.frame?, frame ∈ frames ∧ frame.seq.toNat < 2 ^ 63) :
    (tracked.run arith events).Sound arith first frames := by
  induction events generalizing tracked with
  | nil => exact sound
  | cons event rest ih =>
    refine ih (sound.step arith fun frame isFrame => ?_) (fun frame mem => known frame ?_)
    · refine known frame (mem_filterMap.mpr ⟨event, mem_cons_self, isFrame⟩)
    · obtain ⟨other, later, isFrame⟩ := mem_filterMap.mp mem
      exact mem_filterMap.mpr ⟨other, mem_cons_of_mem _ later, isFrame⟩

theorem Sound.nodup_applied {tracked : TrackedWriter} (sound : tracked.Sound arith first frames)
    (published : Published frames) : tracked.applied.Nodup := by
  have rising := (pairwise_append.mp sound.numbered.rising).1
  refine (List.Pairwise.and_mem.mp rising).imp ?_
  rintro frame other ⟨mem, -, before⟩ rfl
  have isPublished := sound.taken (mem_append_left _ mem)
  rcases before rfl with unsequenced | less
  · exact published.numbered frame isPublished unsequenced
  · exact lt_irrefl _ less

/-- All frames up to the highest numbers are taken. -/
def Complete (frames : List PersistFrame) (tracked : TrackedWriter) : Prop :=
  ∀ frame ∈ frames, frame.rows ≠ [] →
    frame.seq.toNat ≤ tracked.writer.batch.highest frame.publisherId → frame ∈ tracked.taken

namespace Complete

variable
  {first : Database}
  {frames : List PersistFrame}
  {tracked : TrackedWriter}
  (complete : tracked.Complete frames)
  (sound : tracked.Sound arith first frames)
  (published : Published frames)
include complete sound published

theorem push {frame : PersistFrame} (mem : frame ∈ frames)
    (orderly : tracked.Orderly frames (.deliver frame)) : (tracked.push frame).Complete frames := by
  obtain ⟨earlierTaken, room⟩ := orderly
  have accepts := push_eq_true_iff tracked.writer.batch frame
  have kept : tracked.taken ⊆ (tracked.push frame).taken := by
    refine append_subset.mpr ⟨subset_append_left _ _, ?_⟩
    refine List.Subset.trans ?_ (subset_append_right _ _)
    unfold TrackedWriter.push
    split_ifs with accepted isFunding
    · rw [sound.booked.unsettled_pending arith (room ⟨isFunding, (accepts.mp accepted).1⟩)]
      exact subset_append_left _ _
    · exact subset_append_left _ _
    · exact List.Subset.refl _
  intro other isPublished wellFormed low
  obtain low : other.seq.toNat ≤
    (tracked.writer.batch.push frame).1.highest other.publisherId := low
  rw [highest_push] at low
  by_cases old : other.seq.toNat ≤ tracked.writer.batch.highest other.publisherId
  · exact kept (complete other isPublished wellFormed old)
  · split_ifs at low with mine
    · rcases Nat.lt_or_ge other.seq.toNat frame.seq.toNat with below | atLeast
      · exact kept (earlierTaken other isPublished mine below wellFormed)
      · have here : other = frame := published.eq_of_seq_eq isPublished mem mine (by omega)
        have accepted : (tracked.writer.batch.push frame).2 = true := by
          rw [← here] at accepts ⊢
          exact accepts.mpr ⟨.inr (by omega), wellFormed⟩
        rw [here]
        refine mem_append_right _ ?_
        unfold TrackedWriter.push
        simp [accepted]
    · exact absurd low old

omit published in
theorem flushNow {outcome : Option FlushPoint} (orderly : tracked.Orderly frames (.flush outcome)) :
    (tracked.flushNow arith outcome).Complete frames := by
  intro frame isPublished wellFormed low
  unfold TrackedWriter.flushNow at low ⊢
  split_ifs at low ⊢ with empty
  · exact complete frame isPublished wellFormed low
  · have flushed := Writer.flushNow_of_len_ne_zero arith empty
    cases outcome with
    | none =>
      simp only [flushed] at low
      obtain low : frame.seq.toNat ≤ tracked.writer.batch.committed.highest frame.publisherId := low
      rw [highest_committed sound.numbered.monotone] at low
      have known := complete frame isPublished wellFormed low
      simpa [taken, applied] using known
    | some point =>
      simp only [flushed] at low
      obtain low : frame.seq.toNat ≤
        (tracked.writer.batch.failed point).highest frame.publisherId := low
      rw [highest_failed] at low
      have known := complete frame isPublished wellFormed low
      have nothingLost : (if point.afterTake then unsettled tracked.pending
          else tracked.pending) = tracked.pending := by
        rcases orderly with none | early
        · rw [sound.booked.unsettled_pending arith none, ite_self]
        · rw [early point rfl]
          rfl
      show frame ∈ tracked.applied ++
        if point.afterTake then unsettled tracked.pending else tracked.pending
      rw [nothingLost]
      exact known

/-- After a crash the checkpoints decide, and they cover what was committed. -/
theorem restart : tracked.restart.Complete frames := by
  intro frame isPublished wellFormed low
  obtain low : frame.seq.toNat ≤ tracked.writer.floor frame.publisherId := low
  have highest := sound.numbered.floor_le_highest frame.publisherId
  have known := complete frame isPublished wellFormed (low.trans highest)
  show frame ∈ tracked.applied ++ []
  rw [append_nil]
  refine (mem_append.mp known).resolve_right fun pending => ?_
  rcases (sound.numbered.pending frame pending).1 with unsequenced | above
  · exact published.numbered frame isPublished unsequenced
  · omega

theorem step {event : Event} (known : ∀ frame ∈ event.frame?, frame ∈ frames)
    (orderly : tracked.Orderly frames event) : (tracked.step arith event).Complete frames := by
  cases event with
  | deliver frame => exact complete.push arith sound published (known frame rfl) orderly
  | flush outcome => exact complete.flushNow arith sound orderly
  | restart => exact complete.restart arith sound published

omit sound published in
/-- A frame that is refused has a number that is not new. -/
theorem mem_taken_of_not_admits {frame : PersistFrame} (isPublished : frame ∈ frames)
    (wellFormed : frame.rows ≠ []) (refused : ¬ tracked.writer.batch.Admits frame) :
    frame ∈ tracked.taken := by
  unfold Admits at refused
  exact complete frame isPublished wellFormed (by omega)

end Complete

theorem Complete.rejectsOnly (complete : tracked.Complete frames)
    (sound : tracked.Sound arith first frames) (published : Published frames)
    (known : ∀ frame ∈ events.filterMap Event.frame?, frame ∈ frames ∧ frame.seq.toNat < 2 ^ 63)
    (orderly : RunOrderly arith frames tracked events) :
    RejectsOnly arith taken tracked events := by
  induction events generalizing tracked with
  | nil => trivial
  | cons event rest ih =>
    obtain ⟨here, later⟩ := orderly
    have knownHere : ∀ frame ∈ event.frame?, frame ∈ frames ∧ frame.seq.toNat < 2 ^ 63 :=
      fun frame isFrame => known frame (mem_filterMap.mpr ⟨event, mem_cons_self, isFrame⟩)
    refine ⟨fun frame isFrame => ?_, ?_⟩
    · by_cases malformed : frame.rows = []
      · exact .inl malformed
      · by_cases admits : tracked.writer.batch.Admits frame
        · exact .inr (.inl admits)
        · exact .inr (.inr (complete.mem_taken_of_not_admits
            (knownHere frame isFrame).1 malformed admits))
    · refine ih
        (complete.step arith sound published (fun frame isFrame => (knownHere frame isFrame).1)
          here) (sound.step arith knownHere) (fun frame mem => known frame ?_) later
      obtain ⟨other, isLater, isFrame⟩ := mem_filterMap.mp mem
      exact mem_filterMap.mpr ⟨other, mem_cons_of_mem _ isLater, isFrame⟩

/-- Whatever is replayed and whenever the writer crashes, no frame is applied twice.
If frames reach the writer when those before them are taken, a frame is only
rejected if it is applied or waits in the batch. -/
theorem nodup_applied_and_rejectsOnly_taken (db : Database) {frames : List PersistFrame}
    {events : List Event} (published : Published frames)
    (known : ∀ frame ∈ events.filterMap Event.frame?, frame ∈ frames ∧ frame.seq.toNat < 2 ^ 63) :
    ((start db).run arith events).applied.Nodup ∧
      ((start db).run arith events).Booked arith db ∧
      ((∀ frame ∈ frames, (start db).writer.floor frame.publisherId < frame.seq.toNat) →
        RunOrderly arith frames (start db) events → RejectsOnly arith taken (start db) events) := by
  have sound := sound_start arith db frames
  have soundAfter := sound.run arith known
  refine ⟨soundAfter.nodup_applied arith published, soundAfter.booked, fun fresh orderly => ?_⟩
  have complete : (start db).Complete frames := by
    intro frame isPublished _ low
    have above := fresh frame isPublished
    exact absurd above low.not_gt
  exact complete.rejectsOnly arith sound published known orderly

open PersistFrame

/-- A crash loses the first frame; it is replayed before the second. -/
theorem rejectsOnly_taken_replayed :
    RejectsOnly .machine taken (start .new)
      [.deliver (bidAccepted 1), .restart, .deliver (bidAccepted 1), .deliver (bidDeleted 2),
        .flush none, .deliver (bidAccepted 1)] :=
  (@nodup_applied_and_rejectsOnly_taken .machine .new [bidAccepted 1, bidDeleted 2] _
    ⟨by decide +kernel, by decide +kernel⟩ (by decide +kernel)).2.2
    (by decide +kernel) (by decide +kernel)

/-- Copies of a frame that waits are rejected.  And after a crash that loses the first
frame, the second one moves the checkpoint beyond it. -/
theorem not_rejectsOnly_applied_inOrder :
    (FirstInOrder [bidAccepted 1] [.deliver (bidAccepted 1), .deliver (bidAccepted 1)] ∧
      ¬ RejectsOnly .machine applied (start .new)
        [.deliver (bidAccepted 1), .deliver (bidAccepted 1)]) ∧
    FirstInOrder [bidAccepted 1, bidDeleted 2]
      [.deliver (bidAccepted 1), .restart, .deliver (bidDeleted 2), .flush none,
        .deliver (bidAccepted 1)] ∧
    ¬ RejectsOnly .machine applied (start .new)
      [.deliver (bidAccepted 1), .restart, .deliver (bidDeleted 2), .flush none,
        .deliver (bidAccepted 1)] := by
  decide +kernel

end TrackedWriter
end
end LightningX.Persist
