import LightningX.Exchange.Journal
import LightningX.Exchange.Recovery
import LightningX.Lib.Interleaving

/-!
# Recovery from several recordings

Several publishers send orders for one symbol.  The thread takes their frames as
they come; the archive keeps one recording for each session.  After a restart the
recordings are replayed one after the other, in the order in which they were
created, from a snapshot on or from the start.
-/

namespace LightningX.Exchange

open Matching Transport Interleaving FrontEnd CircuitBreaker
open List

/-- A frame, and when the live and the recovering thread handle it. -/
structure Frame where
  size : ℕ+
  message : InboundMsg
  liveNs : Nat
  replayNs : Nat
  deriving DecidableEq

/-- The frame as input of the recovering and of the live thread. -/
def Frame.timed (frame : Frame) : TwiceTimed where
  early := frame.replayNs
  late := frame.liveNs
  message := frame.message

/-- A recording, and where the live subscription of the restarted thread joined its
session if that is still active. -/
structure Stream where
  start : Nat
  frames : List Frame
  join : Option Nat
  deriving DecidableEq

variable {stream : Stream}

namespace Stream

/-- The frames of a recording by position. -/
def log (stream : Stream) : FrameLog :=
  ⟨stream.start, stream.frames.map (·.size)⟩

/-- The frames that were consumed before the restart. -/
def consumed (stream : Stream) : Nat :=
  (stream.join.getD stream.frames.length)

@[simp] theorem length_log (stream : Stream) : stream.log.length = stream.frames.length := by
  simp [log, FrameLog.length]

def maxRecorded (stream : Stream) : Nat :=
  stream.log.position stream.frames.length

/-- The replay of a recording that is newer than the snapshot: up to the join
position if its session is active, else in full. -/
def replayWhole (stream : Stream) : List Nat :=
  replayed stream.log (replayBoundedTo stream.start stream.maxRecorded
    (stream.join.map stream.log.position))

/-- The replay of the recording that the snapshot was stored with. -/
def replayTail (stream : Stream) (recorded : Nat) : List Nat :=
  match replayFrom stream.start stream.maxRecorded (stream.log.position recorded) with
  | .ok range => replayed stream.log range
  | .error _ => []

theorem replayWhole_eq (joined : stream.consumed ≤ stream.frames.length) :
    stream.replayWhole = List.range stream.consumed := by
  have within : stream.consumed ≤ stream.log.length := by rwa [length_log]
  have bound : ((stream.join.map stream.log.position).map (min stream.maxRecorded)).getD
      stream.maxRecorded = stream.log.position stream.consumed := by
    unfold consumed at *
    cases joinedAt : stream.join with
    | none => rfl
    | some join =>
      rw [joinedAt] at within
      exact min_eq_right ((FrameLog.position_le_iff within (by simp)).mpr (by simpa using within))
  have whole := @replayed_between stream.log 0 stream.consumed (Nat.zero_le _) within
  rw [Nat.sub_zero, ← range_eq_range'] at whole
  rw [← whole, replayWhole, replayBoundedTo, bound]
  rfl

theorem replayTail_eq (within : recorded ≤ stream.frames.length) :
    stream.replayTail recorded = List.range' recorded (stream.frames.length - recorded) := by
  have notBefore : ¬ stream.log.position recorded < stream.start := by simp [FrameLog.position, log]
  have tail := @replayed_between stream.log recorded stream.frames.length within (by simp)
  rw [← tail, replayTail, replayFrom]
  unfold maxRecorded
  split_ifs <;> rfl

end Stream

/-- A snapshot: how many of the consumed frames it reflects, the newest recording
when it was taken, and how many frames of that had been recorded. -/
structure Saved where
  reflected : Nat
  recording : Nat
  recorded : Nat
  deriving DecidableEq

def consumedOf (streams : List Stream) (index : Nat) : Nat :=
  (streams[index]?.map Stream.consumed).getD 0

/-- The recordings at a restart, the frames in the order in which the live thread
consumed them, and the last snapshot. -/
structure Restart where
  streams : List Stream
  taken : List (Nat × Nat)
  saved : Option Saved
  joined : ∀ stream ∈ streams, stream.consumed ≤ stream.frames.length
  inTurn : ∀ index, part index taken = List.range (consumedOf streams index)
  recording : ∀ snapshot ∈ saved, ∃ stream ∈ streams[snapshot.recording]?,
    snapshot.recorded ≤ stream.frames.length
  newest : ∀ snapshot ∈ saved, ∀ entry ∈ taken.take snapshot.reflected, entry.1 ≤ snapshot.recording

namespace Restart

variable {restart : Restart} {index : Nat}

/-- The frames that the snapshot reflects. -/
def reflected (restart : Restart) : List (Nat × Nat) :=
  restart.taken.take ((restart.saved.map Saved.reflected).getD 0)

/-- What is replayed of a recording. -/
def replayOf (restart : Restart) (index : Nat) : List Nat :=
  match restart.streams[index]? with
  | none => []
  | some stream =>
    match restart.saved with
    | none => stream.replayWhole
    | some snapshot =>
      if index < snapshot.recording then []
      else if index = snapshot.recording then stream.replayTail snapshot.recorded
      else stream.replayWhole

/-- The frames that are replayed. -/
def replays (restart : Restart) : List (Nat × Nat) :=
  Interleaving.inTurn restart.streams.length restart.replayOf

/-- All frames that the recovered thread reflects. -/
def applied (restart : Restart) : List (Nat × Nat) :=
  restart.reflected ++ restart.replays

/-- How many frames of a stream the snapshot reflects. -/
def reflectedOf (restart : Restart) (index : Nat) : Nat :=
  (part index restart.reflected).length

theorem part_reflected (index : Nat) :
    part index restart.reflected = List.range (restart.reflectedOf index) := by
  have split := restart.inTurn index
  rw [← take_append_drop ((restart.saved.map Saved.reflected).getD 0) restart.taken,
    part_append] at split
  have cut := congrArg (List.take (part index restart.reflected).length) split
  rw [reflected, take_left, take_range] at cut
  rw [reflectedOf, reflected, cut, length_range]

theorem part_applied (index : Nat) :
    part index restart.applied =
      List.range (restart.reflectedOf index) ++ restart.replayOf index := by
  rw [applied, part_append, part_reflected, replays, part_inTurn]
  split_ifs with within
  · rfl
  · have missing : restart.streams[index]? = none := List.getElem?_eq_none (Nat.le_of_not_lt within)
    rw [replayOf, missing]

/-- The snapshot reflects the older recordings in full.  Of the newest one it
reflects what had been recorded, and nothing has been recorded since the live
subscription joined; or it reflects all of it and nothing is replayed. -/
def Covered (restart : Restart) : Prop :=
  ∀ snapshot ∈ restart.saved,
    (∀ index < snapshot.recording, restart.reflectedOf index = consumedOf restart.streams index) ∧
    ∀ stream ∈ restart.streams[snapshot.recording]?,
      restart.reflectedOf snapshot.recording = snapshot.recorded ∧
          stream.frames.length = stream.consumed ∨
        stream.frames.length = snapshot.recorded ∧
          restart.reflectedOf snapshot.recording = stream.consumed

theorem range_perm_range_iff : List.range first ~ List.range second ↔ first = second := by
  refine ⟨fun same => ?_, fun same => same ▸ .refl _⟩
  simpa using same.length_eq

/-- Without a snapshot all recordings are replayed up to the live frames. -/
theorem replayOf_unsaved (unsaved : restart.saved = none) (index : Nat) :
    restart.replayOf index = List.range (consumedOf restart.streams index) := by
  unfold replayOf consumedOf
  cases found : restart.streams[index]? with
  | none => rfl
  | some stream =>
    rw [unsaved]
    exact stream.replayWhole_eq (restart.joined stream (mem_of_getElem? found))

section

variable (saved : restart.saved = some snapshot)
include saved

theorem reflectedOf_newer (newer : snapshot.recording < index) : restart.reflectedOf index = 0 := by
  rw [reflectedOf, length_eq_zero_iff, eq_nil_iff_forall_not_mem]
  intro frame mem
  have isOlder := restart.newest snapshot saved (index, frame) (by
    have := mem_part.mp mem
    rwa [reflected, saved] at this)
  exact absurd newer (Nat.not_lt.mpr isOlder)

theorem replayOf_older (older : index < snapshot.recording) : restart.replayOf index = [] := by
  unfold replayOf
  split
  · rfl
  · rw [saved]
    exact if_pos older

theorem replayOf_recording (found : restart.streams[snapshot.recording]? = some stream)
    (within : snapshot.recorded ≤ stream.frames.length) :
    restart.replayOf snapshot.recording =
      List.range' snapshot.recorded (stream.frames.length - snapshot.recorded) := by
  rw [← stream.replayTail_eq within, replayOf, found, saved]
  simp

theorem replayOf_newer (newer : snapshot.recording < index) :
    restart.replayOf index = List.range (consumedOf restart.streams index) := by
  unfold replayOf consumedOf
  cases found : restart.streams[index]? with
  | none => rfl
  | some stream =>
    rw [saved]
    simp only [if_neg (Nat.not_lt.mpr newer.le), if_neg newer.ne']
    exact stream.replayWhole_eq (restart.joined stream (mem_of_getElem? found))

end

/-- Every consumed frame is applied exactly once if and only if the snapshot covers
what is not replayed. -/
theorem applied_perm_iff : restart.applied ~ restart.taken ↔ restart.Covered := by
  rw [perm_iff_part]
  simp only [part_applied, restart.inTurn]
  cases saved : restart.saved with
  | none =>
    have nothing : ∀ index, restart.reflectedOf index = 0 := by
      intro index
      simp [reflectedOf, reflected, saved, part]
    refine iff_of_true (fun index => ?_) ?_
    · rw [replayOf_unsaved saved, nothing]
      exact .refl _
    · intro snapshot isSaved
      simp [saved] at isSaved
  | some snapshot =>
    obtain ⟨stream, found, within⟩ := restart.recording snapshot saved
    have isConsumed : consumedOf restart.streams snapshot.recording = stream.consumed := by
      rw [consumedOf, found]
      rfl
    have atRecording : List.range (restart.reflectedOf snapshot.recording) ++
          restart.replayOf snapshot.recording ~
        List.range (consumedOf restart.streams snapshot.recording) ↔
        restart.reflectedOf snapshot.recording = snapshot.recorded ∧
            stream.frames.length = stream.consumed ∨
          stream.frames.length = snapshot.recorded ∧
            restart.reflectedOf snapshot.recording = stream.consumed := by
      rw [replayOf_recording saved found within, FrameLog.range_append_range'_perm_iff]
      omega
    constructor
    · intro same isSaved isSnapshot
      obtain rfl : snapshot = isSaved := by simpa [saved] using isSnapshot
      refine ⟨fun index older => ?_, fun other isFound => ?_⟩
      · have whole := same index
        rwa [replayOf_older saved older, append_nil, range_perm_range_iff] at whole
      · obtain rfl : stream = other := by
          rw [found] at isFound
          exact Option.some.inj isFound
        exact atRecording.mp (same snapshot.recording)
    · intro covered index
      obtain ⟨older, newest⟩ := covered snapshot saved
      rcases Nat.lt_trichotomy index snapshot.recording with before | rfl | after
      · rw [replayOf_older saved before, append_nil, older index before]
      · exact atRecording.mpr (newest stream found)
      · rw [replayOf_newer saved after, reflectedOf_newer saved after]
        exact .refl _

/-- The sessions were consumed one after the other, in the order of their
recordings. -/
def InOrder (restart : Restart) : Prop :=
  restart.taken = Interleaving.inTurn restart.streams.length
    fun index => List.range (consumedOf restart.streams index)

theorem pairwise_replayOf (index : Nat) : (restart.replayOf index).Pairwise (· < ·) := by
  cases saved : restart.saved with
  | none =>
    rw [replayOf_unsaved saved]
    exact pairwise_lt_range
  | some snapshot =>
    obtain ⟨stream, found, within⟩ := restart.recording snapshot saved
    rcases Nat.lt_trichotomy index snapshot.recording with before | rfl | after
    · rw [replayOf_older saved before]
      exact .nil
    · rw [replayOf_recording saved found within]
      exact pairwise_lt_range'
    · rw [replayOf_newer saved after]
      exact pairwise_lt_range

/-- What the snapshot reflects comes before what is replayed. -/
theorem reflected_before_replays (covered : restart.Covered)
    (isReflected : entry ∈ restart.reflected) (isReplayed : other ∈ restart.replays) :
    Prod.Lex (· < ·) (· < ·) entry other := by
  obtain ⟨-, isReplay⟩ := mem_inTurn.mp isReplayed
  cases saved : restart.saved with
  | none => simp [reflected, saved] at isReflected
  | some snapshot =>
    obtain ⟨stream, found, within⟩ := restart.recording snapshot saved
    have notNewer : entry.1 ≤ snapshot.recording := by
      refine restart.newest snapshot saved entry ?_
      rwa [reflected, saved] at isReflected
    have notOlder : snapshot.recording ≤ other.1 := by
      by_contra older
      rw [replayOf_older saved (Nat.lt_of_not_le older)] at isReplay
      exact absurd isReplay not_mem_nil
    rw [Prod.lex_def]
    rcases Nat.lt_or_eq_of_le (notNewer.trans notOlder) with before | same
    · exact .inl before
    · have isRecording : other.1 = snapshot.recording := by omega
      have early : entry.2 < restart.reflectedOf snapshot.recording := by
        rw [← mem_range, ← part_reflected, mem_part, ← isRecording, ← same]
        exact isReflected
      rw [isRecording, replayOf_recording saved found within, mem_range'_1] at isReplay
      have newest := (covered snapshot saved).2 stream found
      exact .inr ⟨same, by omega⟩

/-- Sessions that were consumed one after the other are recovered in the order in
which they were consumed. -/
theorem applied_eq_taken (covered : restart.Covered) (inOrder : restart.InOrder) :
    restart.applied = restart.taken := by
  have takenOrdered : restart.taken.Pairwise (Prod.Lex (· < ·) (· < ·)) := by
    rw [show restart.taken = _ from inOrder]
    exact pairwise_inTurn fun _ _ => pairwise_lt_range
  have appliedOrdered : restart.applied.Pairwise (Prod.Lex (· < ·) (· < ·)) := by
    refine pairwise_append.mpr ⟨?_, pairwise_inTurn fun index _ =>
      restart.pairwise_replayOf index, fun entry isReflected other isReplayed =>
        reflected_before_replays covered isReflected isReplayed⟩
    exact takenOrdered.sublist (take_sublist _ _)
  refine List.Perm.eq_of_pairwise ?_ appliedOrdered takenOrdered (applied_perm_iff.mpr covered)
  intro entry other _ _ before after
  omega

/-- The frames of a list of numbers, as inputs of the recovering and of the live
thread. -/
def inputs (restart : Restart) (entries : List (Nat × Nat)) : List TwiceTimed :=
  (entries.filterMap fun entry =>
    restart.streams[entry.1]?.bind fun stream => stream.frames[entry.2]?).map Frame.timed

section Threads

variable (symbol : Nat) (limits : Limits) (breaker : CircuitBreaker) (pools : PoolConfig)
  (restart : Restart)

/-- The live thread before the crash. -/
def live : FrontEnd :=
  ((new symbol limits breaker pools).run ((restart.inputs restart.taken).map (·.atLate))).1

/-- The live thread when the snapshot was taken. -/
def checkpoint : FrontEnd :=
  ((new symbol limits breaker pools).run ((restart.inputs restart.reflected).map (·.atLate))).1

/-- The restarted thread before the replay. -/
def restored : FrontEnd :=
  match restart.saved with
  | none => new symbol limits breaker pools
  | some _ => resumed breaker pools (restart.checkpoint symbol limits breaker pools)

/-- The restarted thread after the replay. -/
def recovered : FrontEnd :=
  ((restart.restored symbol limits breaker pools).run
    ((restart.inputs restart.replays).map (·.atEarly))).1

/-- The sessions were consumed one after the other, the snapshot covers what is not
replayed and keeps the queues, and the restarted thread agrees with the live one on
each replayed frame. -/
structure Recoverable : Prop where
  covered : restart.Covered
  inOrder : restart.InOrder
  inTimeOrder : (restart.checkpoint symbol limits breaker pools).engine.InTimeOrder
  agrees : RunAgrees (restart.restored symbol limits breaker pools)
    (restart.checkpoint symbol limits breaker pools) (restart.inputs restart.replays)

end Threads

variable {symbol : Nat} {limits : Limits} {breaker : CircuitBreaker}

theorem inputs_append (first second : List (Nat × Nat)) :
    restart.inputs (first ++ second) = restart.inputs first ++ restart.inputs second := by
  simp [inputs]

section

variable (inRange : ∀ stream ∈ restart.streams, ∀ frame ∈ stream.frames, InRange frame.message)
include inRange

theorem inRange_inputs (entries : List (Nat × Nat)) :
    ∀ input ∈ restart.inputs entries, InRange input.message := by
  intro input mem
  obtain ⟨frame, isFrame, rfl⟩ := mem_map.mp mem
  obtain ⟨entry, -, found⟩ := mem_filterMap.mp isFrame
  obtain ⟨stream, isStream, atEntry⟩ := Option.bind_eq_some_iff.mp found
  exact inRange stream (mem_of_getElem? isStream) frame (mem_of_getElem? atEntry)

/-- The restarted thread has the book of the snapshot. -/
theorem twins_restored
    (inTimeOrder : (restart.checkpoint symbol limits breaker pools).engine.InTimeOrder) :
    Twins pools (restart.restored symbol limits breaker pools)
      (restart.checkpoint symbol limits breaker pools) := by
  cases saved : restart.saved with
  | none =>
    have nothing : restart.reflected = [] := by simp [reflected, saved]
    rw [restored, checkpoint, nothing, saved]
    exact ⟨⟨_, MatchingEngine.sound_new pools, MatchingEngine.sound_new pools⟩, rfl⟩
  | some snapshot =>
    rw [restored, saved]
    refine resumed_twins ?_ inTimeOrder
    intro message mem
    obtain ⟨input, isInput, rfl⟩ := mem_map.mp mem
    exact inRange_inputs inRange _ input isInput

end

/-- Every consumed frame is applied exactly once if and only if the snapshot covers
what is not replayed; and if the live order is that of the recordings and the
restarted thread agrees with the live one, it ends with the same book. -/
theorem recovered_same (symbol : Nat) (limits : Limits) (breaker : CircuitBreaker)
    (pools : PoolConfig) (restart : Restart)
    (inRange : ∀ stream ∈ restart.streams, ∀ frame ∈ stream.frames, InRange frame.message) :
    (restart.applied ~ restart.taken ↔ restart.Covered) ∧
      (restart.Recoverable symbol limits breaker pools →
        restart.applied ~ restart.taken ∧
          ∀ side, (restart.recovered symbol limits breaker pools).engine.levels side =
            (restart.live symbol limits breaker pools).engine.levels side) := by
  refine ⟨applied_perm_iff, fun recoverable => ?_⟩
  have sameFrames := applied_eq_taken recoverable.covered recoverable.inOrder
  refine ⟨.of_eq sameFrames, ?_⟩
  have twins := (twins_restored inRange recoverable.inTimeOrder).run recoverable.agrees
    (inRange_inputs inRange _)
  have continued : restart.live symbol limits breaker pools =
      ((restart.checkpoint symbol limits breaker pools).run
        ((restart.inputs restart.replays).map (·.atLate))).1 := by
    rw [live, ← sameFrames, applied, inputs_append, map_append, run_append]
    rfl
  rw [continued]
  exact twins.engines.levels_eq

/-- A recording of one offer of one lot, of a session that has ended. -/
def oneOffer (orderId : Nat) (nowNs : Nat) : Stream where
  start := 0
  frames := [⟨96, .newOrder ⟨orderId, 1, 100, 1, .sell, .gtc, 200, false, 7⟩, nowNs, 50⟩]
  join := none

/-- Two desks that offer at one price.  The thread took the order of the first
recording first and saved its book after it. -/
def oneAfterTheOther : Restart where
  streams := [oneOffer 1 10, oneOffer 2 20]
  taken := [(0, 0), (1, 0)]
  saved := some ⟨1, 0, 1⟩
  joined := by decide
  inTurn
    | 0 => rfl
    | 1 => rfl
    | index + 2 => by simp [part, consumedOf]
  recording := by decide
  newest := by decide

/-- The same desks.  The thread took the order of the second recording first. -/
def crossing : Restart where
  streams := [oneOffer 1 20, oneOffer 2 10]
  taken := [(1, 0), (0, 0)]
  saved := none
  joined := by decide
  inTurn
    | 0 => rfl
    | 1 => rfl
    | index + 2 => by simp [part, consumedOf]
  recording := by simp
  newest := by simp

theorem recovered_same_oneAfterTheOther :
    oneAfterTheOther.applied ~ oneAfterTheOther.taken ∧
      ∀ side, (oneAfterTheOther.recovered 7 ⟨0, 0, 0, 0⟩ (new 0 0 0) ⟨4, 4⟩).engine.levels side =
        (oneAfterTheOther.live 7 ⟨0, 0, 0, 0⟩ (new 0 0 0) ⟨4, 4⟩).engine.levels side := by
  refine (recovered_same 7 ⟨0, 0, 0, 0⟩ (new 0 0 0) ⟨4, 4⟩ oneAfterTheOther
    (by decide +kernel)).2 ⟨?_, rfl, by decide +kernel, by decide +kernel⟩
  rintro snapshot ⟨⟩
  exact ⟨by decide +kernel, by decide +kernel⟩

/-- Every frame is applied once, but the queue is in another order. -/
theorem not_recovered_same_crossing :
    ¬ (crossing.applied ~ crossing.taken ∧
      ∀ side, (crossing.recovered 7 ⟨0, 0, 0, 0⟩ (new 0 0 0) ⟨4, 4⟩).engine.levels side =
        (crossing.live 7 ⟨0, 0, 0, 0⟩ (new 0 0 0) ⟨4, 4⟩).engine.levels side) := by
  rintro ⟨-, sameLevels⟩
  exact absurd (sameLevels .sell) (by decide +kernel)

end Restart
end LightningX.Exchange
