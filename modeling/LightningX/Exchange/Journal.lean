import LightningX.Lib.Along
import LightningX.Lib.FrameLog

/-!
# The journal of a session

The input frames of a publisher session are recorded by the archive while the
matching thread takes them from its own subscription.  A snapshot is stored with
the recorded position; after a crash the thread replays the recording from there
and goes on with its new subscription.  The model follows the snapshot and replay
phases of `bin/exchange_engine.rs` and `transport/journal.rs`.
-/

namespace LightningX.Exchange

open List FrameLog

/-- `replay_from`: the part of a recording from a position on, if there is any. -/
def replayFrom (startPosition maxRecorded fromPosition : Nat) :
    Except String (Option (Nat × Nat)) :=
  if fromPosition < startPosition then
    .error (s!"replay gap: from_position={fromPosition} < " ++
      s!"recording.start_position={startPosition}; increase journal retention")
  else if maxRecorded ≤ fromPosition then .ok none
  else .ok (some (fromPosition, maxRecorded))

/-- `replay_bounded_to`: a recording up to a position, if there is any. -/
def replayBoundedTo (startPosition maxRecorded : Nat) (upper : Option Nat) :
    Option (Nat × Nat) :=
  let boundedTo := (upper.map (min maxRecorded)).getD maxRecorded
  if boundedTo ≤ startPosition then none else some (startPosition, boundedTo)

def replayed (log : FrameLog) : Option (Nat × Nat) → List Nat
  | none => []
  | some (lower, upper) => log.between lower upper

theorem replayed_between {log : FrameLog} {first last : Nat}
    (ordered : first ≤ last) (within : last ≤ log.length) :
    replayed log (if log.position last ≤ log.position first then none
      else some (log.position first, log.position last)) =
      List.range' first (last - first) := by
  split_ifs with nothing
  · rw [position_le_iff within (by omega)] at nothing
    rw [Nat.sub_eq_zero_of_le nothing]
    rfl
  · exact between_position ordered within

/-- A publisher session, its recording and the thread that takes its frames.
Frames are numbered in the order in which they are sent. -/
structure Session where
  log : FrameLog
  /-- How many frames the archive has recorded. -/
  recorded : Nat
  /-- The next frame of the live subscription. -/
  next : Nat
  /-- The frames that the engine reflects, in the order in which it took them. -/
  applied : List Nat
  /-- The last snapshot: the frames it reflects, and the position it is stored with. -/
  saved : Option (List Nat × Nat)
  /-- The thread is restarted and has not replayed the recording yet. -/
  restoring : Bool
  deriving DecidableEq

/-- What happens to a session. -/
inductive SessionStep
  | send (size : ℕ+)
  | record
  | consume
  | snapshot
  | restart
  | replay
  deriving DecidableEq

namespace Session

/-- A session whose publication starts at a position. -/
def new (start : Nat) : Session where
  log := ⟨start, []⟩
  recorded := 0
  next := 0
  applied := []
  saved := none
  restoring := false

variable {session : Session}

def recordedPosition (session : Session) : Nat :=
  session.log.position session.recorded

/-- What the restarted thread replays.  With a snapshot the replay has no upper
bound; without one it stops where the live subscription joined. -/
def replay (session : Session) : List Nat :=
  match session.saved with
  | some (_, position) =>
    match replayFrom session.log.start session.recordedPosition position with
    | .ok range => replayed session.log range
    | .error _ => []
  | none =>
    replayed session.log (replayBoundedTo session.log.start session.recordedPosition
      (some (session.log.position session.next)))

/-- One step.  A restarted thread joins the live stream at its end. -/
def step (session : Session) : SessionStep → Session
  | .send size => { session with log := session.log.push size }
  | .record =>
    if session.recorded < session.log.length then
      { session with recorded := session.recorded + 1 }
    else session
  | .consume =>
    if session.restoring = false ∧ session.next < session.log.length then
      { session with
        next := session.next + 1
        applied := session.applied ++ [session.next] }
    else session
  | .snapshot =>
    if session.restoring = false then
      { session with saved := some (session.applied, session.recordedPosition) }
    else session
  | .restart =>
    { session with
      next := session.log.length
      applied := (session.saved.map Prod.fst).getD []
      restoring := true }
  | .replay =>
    if session.restoring = true then
      { session with
        applied := session.applied ++ session.replay
        restoring := false }
    else session

/-- The engine reflects every frame before the next one, each once. -/
def Exact (session : Session) : Prop :=
  session.restoring = false → session.applied = List.range session.next
deriving Decidable

/-- The engine is exact before a run and after every step of it. -/
def RunExact (session : Session) (steps : List SessionStep) : Prop :=
  session.Exact ∧ Along step (fun session step => (session.step step).Exact) session steps
deriving Decidable

/-- The archive had recorded what the snapshot reflects and has now recorded the
frames before the live ones; or it has recorded nothing since, and the snapshot
reflects all frames before the live ones. -/
def Fits (session : Session) : SessionStep → Prop
  | .replay => session.restoring = true →
      match session.saved with
      | none => session.next ≤ session.recorded
      | some (reflected, position) =>
        session.log.position reflected.length = position ∧
            session.recorded = session.next ∨
          session.recordedPosition = position ∧ reflected.length = session.next
  | _ => True

/-- Every replay of a run fits. -/
def RunFits (session : Session) (steps : List SessionStep) : Prop :=
  Along step Fits session steps

/-- What holds of a session whose engine was exact so far. -/
structure Regular (session : Session) : Prop where
  recorded : session.recorded ≤ session.log.length
  next : session.next ≤ session.log.length
  exact : session.Exact
  restored : session.restoring = true → session.applied = (session.saved.map Prod.fst).getD []
  saved : ∀ reflected position, session.saved = some (reflected, position) →
    reflected = List.range reflected.length ∧ reflected.length ≤ session.log.length ∧
      ∃ count ≤ session.recorded, position = session.log.position count

theorem regular_new (start : Nat) : (new start).Regular where
  recorded := le_rfl
  next := le_rfl
  exact := fun _ => rfl
  restored := nofun
  saved := nofun

/-- From a snapshot on, the frames recorded since its position are replayed. -/
theorem replay_saved {count : Nat}
    (saved : session.saved = some (reflected, session.log.position count))
    (ordered : count ≤ session.recorded) (within : session.recorded ≤ session.log.length) :
    session.replay = List.range' count (session.recorded - count) := by
  have notBefore : ¬ session.log.position count < session.log.start := by simp [position]
  rw [← replayed_between ordered within]
  unfold replay replayFrom
  rw [saved]
  simp only [if_neg notBefore]
  unfold recordedPosition
  split_ifs <;> rfl

/-- Without a snapshot, the recorded frames before the live ones are replayed. -/
theorem replay_unsaved
    (unsaved : session.saved = none) (recordedWithin : session.recorded ≤ session.log.length)
    (nextWithin : session.next ≤ session.log.length) :
    session.replay = List.range (min session.recorded session.next) := by
  have bound : min session.recordedPosition (session.log.position session.next) =
      session.log.position (min session.recorded session.next) := by
    unfold recordedPosition
    rcases Nat.le_total session.recorded session.next with before | after
    · rw [min_eq_left before, min_eq_left ((position_le_iff recordedWithin nextWithin).mpr before)]
    · rw [min_eq_right after, min_eq_right ((position_le_iff nextWithin recordedWithin).mpr after)]
  have whole := @replayed_between session.log 0 (min session.recorded session.next)
    (Nat.zero_le _) (by omega)
  rw [position_zero, Nat.sub_zero, ← range_eq_range'] at whole
  rw [← whole]
  unfold replay replayBoundedTo
  rw [unsaved]
  simp only [Option.map_some, Option.getD_some, bound]

section

variable (regular : session.Regular)
include regular

/-- A replay makes the engine exact exactly when it fits. -/
theorem Regular.exact_replay_iff (restoring : session.restoring = true) :
    session.applied ++ session.replay = List.range session.next ↔ session.Fits .replay := by
  rw [regular.restored restoring]
  unfold Fits
  simp only [restoring, true_implies]
  cases saved : session.saved with
  | none =>
    rw [replay_unsaved saved regular.recorded regular.next]
    simp only [Option.map_none, Option.getD_none, nil_append]
    refine ⟨fun same => ?_, fun enough => by rw [min_eq_right enough]⟩
    have lengths := congrArg List.length same
    simp only [length_range] at lengths
    omega
  | some snapshot =>
    obtain ⟨reflected, position⟩ := snapshot
    obtain ⟨isRange, within, count, ordered, rfl⟩ := regular.saved reflected position saved
    rw [replay_saved saved ordered regular.recorded]
    simp only [Option.map_some, Option.getD_some]
    rw [isRange, range_append_range'_eq_iff, length_range, recordedPosition,
      position_inj within (ordered.trans regular.recorded),
      position_inj regular.recorded (ordered.trans regular.recorded)]
    omega

theorem Regular.step {step : SessionStep} (fits : session.Fits step) :
    (session.step step).Regular := by
  cases step with
  | send size =>
    exact
      { recorded := by
          show session.recorded ≤ (session.log.push size).length
          rw [length_push]
          exact regular.recorded.trans (Nat.le_succ _)
        next := by
          show session.next ≤ (session.log.push size).length
          rw [length_push]
          exact regular.next.trans (Nat.le_succ _)
        exact := regular.exact
        restored := regular.restored
        saved := by
          intro reflected position saved
          obtain ⟨isRange, within, count, ordered, rfl⟩ := regular.saved reflected position saved
          refine ⟨isRange, ?_, count, ordered, ?_⟩
          · show reflected.length ≤ (session.log.push size).length
            rw [length_push]
            exact within.trans (Nat.le_succ _)
          · exact (position_push (ordered.trans regular.recorded) size).symm }
  | record =>
    unfold Session.step
    simp only
    split_ifs with more
    · exact
        { recorded := more
          next := regular.next
          exact := regular.exact
          restored := regular.restored
          saved := by
            intro reflected position saved
            obtain ⟨isRange, within, count, ordered, isPosition⟩ :=
              regular.saved reflected position saved
            exact ⟨isRange, within, count, ordered.trans (Nat.le_succ _), isPosition⟩ }
    · exact regular
  | consume =>
    unfold Session.step
    simp only
    split_ifs with available
    · exact
        { recorded := regular.recorded
          next := available.2
          exact := by
            intro live
            rw [regular.exact available.1, range_succ]
          restored := fun restoring => by simp [available.1] at restoring
          saved := regular.saved }
    · exact regular
  | snapshot =>
    unfold Session.step
    simp only
    split_ifs with live
    · refine ⟨regular.recorded, regular.next, regular.exact, ?_, ?_⟩
      · exact fun restoring => by simp [live] at restoring
      · rintro reflected position saved
        cases saved
        have applied := regular.exact live
        refine ⟨?_, ?_, session.recorded, le_rfl, rfl⟩
        · rw [applied, length_range]
        · rw [applied, length_range]
          exact regular.next
    · exact regular
  | restart =>
    exact
      { recorded := regular.recorded
        next := le_rfl
        exact := nofun
        restored := fun _ => rfl
        saved := regular.saved }
  | replay =>
    unfold Session.step
    simp only
    split_ifs with restoring
    · exact
        { recorded := regular.recorded
          next := regular.next
          exact := fun _ => (regular.exact_replay_iff restoring).mpr fits
          restored := nofun
          saved := regular.saved }
    · exact regular

theorem Regular.fits_of_exact {step : SessionStep} (exact : (session.step step).Exact) :
    session.Fits step := by
  cases step with
  | replay =>
    by_cases restoring : session.restoring = true
    · rw [← regular.exact_replay_iff restoring]
      unfold Session.step at exact
      simp only [if_pos restoring] at exact
      exact exact rfl
    · exact fun isRestoring => absurd isRestoring restoring
  | _ => trivial

theorem Regular.runExact_iff : session.RunExact steps ↔ session.RunFits steps := by
  constructor
  · rintro ⟨-, exact⟩
    exact exact.imp (fun regular exact => regular.step (regular.fits_of_exact exact))
      (fun regular exact => regular.fits_of_exact exact) regular
  · intro fits
    refine ⟨regular.exact, ?_⟩
    exact fits.imp (fun regular fits => regular.step fits)
      (fun regular fits => (regular.step fits).exact) regular

end

/-- Along a run every frame is applied exactly once if and only if every replay
fits the snapshot before it. -/
theorem journal_runExact_iff (start : Nat) (steps : List SessionStep) :
    (new start).RunExact steps ↔ (new start).RunFits steps :=
  (regular_new start).runExact_iff

/-- The archive records a frame that the thread has not taken when it takes the
snapshot. -/
def recordedAhead : List SessionStep :=
  [.send 64, .record, .consume, .send 64, .record, .snapshot, .consume, .restart, .replay]

theorem not_runExact_recordedAhead : ¬ (new 0).RunExact recordedAhead := by decide +kernel

end Session
end LightningX.Exchange
