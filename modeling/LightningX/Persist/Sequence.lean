import LightningX.Persist.Admission

/-!
# Sequence numbers across restarts of a desk

The drain thread of `bin/desk_server.rs` numbers the frames of a desk process,
starting from the clock.  Its consumers, `pg-writer` and `redis-writer`, take a
number that is not above the last one for a duplicate.
-/

namespace LightningX.Persist

open List

variable {publisherId : Nat}

/-- One life of a desk process: the clock at its start, in nanoseconds since the
epoch, none before the epoch; and what it publishes. -/
structure Lifetime where
  clockNanos : Option Nat
  payloads : List Payload
  deriving DecidableEq

namespace Lifetime

/-- The initial `persist_seq`. -/
def seed (life : Lifetime) : UInt64 :=
  match life.clockNanos with
  | none => 1
  | some nanos => UInt64.ofNat nanos

/-- The number of the first frame, if there is one. -/
def first (life : Lifetime) : Nat :=
  (life.seed + 1).toNat

/-- The number of the last frame. -/
def last (life : Lifetime) : Option Nat :=
  if life.payloads = [] then none else some (life.first + life.payloads.length - 1)

end Lifetime

/-- The loop of the drain thread. -/
def drain (publisherId : Nat) (persistSeq : UInt64) : List Payload → List PersistFrame
  | [] => []
  | payload :: rest =>
    { publisherId := publisherId, seq := persistSeq + 1, payload := payload } ::
      drain publisherId (persistSeq + 1) rest

/-- The frames of a desk over its lives. -/
def stream (publisherId : Nat) (lives : List Lifetime) : List PersistFrame :=
  lives.flatMap fun life => drain publisherId life.seed life.payloads

/-- The live loop of `redis-writer` skips the frame. -/
def redisSkips (floors : Table Nat Nat) (frame : PersistFrame) : Bool :=
  decide (frame.seq.toNat ≠ 0 ∧ frame.seq.toNat ≤ (floors.lookup frame.publisherId).getD 0)

/-- The floors after a frame; `applied` tells whether `apply_frame` succeeded. -/
def redisFloors (floors : Table Nat Nat) (frame : PersistFrame) (applied : Bool) :
    Table Nat Nat :=
  if redisSkips floors frame = false ∧ applied ∧ frame.seq.toNat ≠ 0 then
    floors.insert frame.publisherId frame.seq.toNat
  else floors

def redisSkipped (floors : Table Nat Nat) : List (PersistFrame × Bool) → List PersistFrame
  | [] => []
  | (frame, applied) :: rest =>
    (if redisSkips floors frame then [frame] else []) ++
      redisSkipped (redisFloors floors frame applied) rest

/-- The numbers of the frames. -/
def seqs (frames : List PersistFrame) : List Nat :=
  frames.map (·.seq.toNat)

/-- Later frames have higher numbers. -/
def Rising (frames : List PersistFrame) : Prop :=
  (seqs frames).Pairwise (· < ·)

/-- No consumer takes a frame for a duplicate, and the numbers rise. -/
structure Kept (frames : List PersistFrame) : Prop where
  byPgWriter : (PgWriteBatch.new ∅).admitted frames = frames
  byRedisWriter : ∀ run : List (PersistFrame × Bool), run.map (·.1) = frames →
    redisSkipped ∅ run = []
  rising : Rising frames

/-- A desk that publishes anything starts above all numbers published before, and
does not run out of numbers. -/
def Ahead (last : Option Nat) : List Lifetime → Prop
  | [] => True
  | life :: rest =>
    (life.payloads = [] ∨
      (∀ number ∈ last, number < life.first) ∧ life.first + life.payloads.length ≤ 2 ^ 64) ∧
    Ahead (life.last.or last) rest

instance Ahead.decide (last : Option Nat) :
    (lives : List Lifetime) → Decidable (Ahead last lives)
  | [] => isTrue trivial
  | life :: rest =>
    have := Ahead.decide (life.last.or last) rest
    inferInstanceAs (Decidable (_ ∧ _))

theorem seqs_append (first second : List PersistFrame) :
    seqs (first ++ second) = seqs first ++ seqs second :=
  map_append

theorem toNat_add_one (number : UInt64) : (number + 1).toNat = (number.toNat + 1) % 2 ^ 64 :=
  UInt64.toNat_add number 1

theorem seqs_drain_cons (publisherId : Nat) (seed : UInt64) (payload : Payload)
    (rest : List Payload) :
    seqs (drain publisherId seed (payload :: rest)) =
      (seed + 1).toNat :: seqs (drain publisherId (seed + 1) rest) := rfl

/-- Numbers that do not run out go up one by one. -/
theorem mem_seqs_drain_iff {publisherId : Nat} {seed : UInt64} {payloads : List Payload}
    (fits : (seed + 1).toNat + payloads.length ≤ 2 ^ 64) (number : Nat) :
    number ∈ seqs (drain publisherId seed payloads) ↔
      (seed + 1).toNat ≤ number ∧ number < (seed + 1).toNat + payloads.length := by
  induction payloads generalizing seed with
  | nil =>
    simp only [drain, seqs, map_nil, not_mem_nil, length_nil, false_iff]
    omega
  | cons payload rest ih =>
    rw [seqs_drain_cons, mem_cons]
    rw [length_cons] at fits
    rw [length_cons]
    cases rest with
    | nil =>
      simp only [drain, seqs, map_nil, not_mem_nil, length_nil, or_false]
      omega
    | cons next rest =>
      rw [length_cons] at fits
      have step := toNat_add_one (seed + 1)
      rw [ih (by rw [length_cons]; omega)]
      omega

/-- The frames of one life rise unless the numbers run out. -/
theorem rising_drain_iff (publisherId : Nat) (seed : UInt64) (payloads : List Payload) :
    Rising (drain publisherId seed payloads) ↔
      payloads = [] ∨ (seed + 1).toNat + payloads.length ≤ 2 ^ 64 := by
  induction payloads generalizing seed with
  | nil => simp [drain, Rising, seqs]
  | cons payload rest ih =>
    unfold Rising at ih ⊢
    rw [seqs_drain_cons, pairwise_cons, ih, length_cons]
    have step := toNat_add_one (seed + 1)
    cases rest with
    | nil =>
      simp [drain, seqs]
      omega
    | cons next rest =>
      simp only [reduceCtorEq, false_or]
      constructor
      · rintro ⟨below, fits⟩
        have := below (seed + 1 + 1).toNat (by rw [seqs_drain_cons]; simp)
        omega
      · intro fits
        have fitsRest :
            (seed + 1 + 1).toNat + (next :: rest).length ≤ 2 ^ 64 := by omega
        refine ⟨fun number mem => ?_, fitsRest⟩
        have := (mem_seqs_drain_iff fitsRest number).mp mem
        omega

theorem stream_cons (publisherId : Nat) (life : Lifetime) (rest : List Lifetime) :
    stream publisherId (life :: rest) =
      drain publisherId life.seed life.payloads ++ stream publisherId rest := rfl

/-- Numbers rise across lives exactly if each life starts above the ones before. -/
theorem rising_stream_iff (publisherId : Nat) (last : Option Nat) (lives : List Lifetime) :
    (∀ number ∈ last, ∀ seq ∈ seqs (stream publisherId lives), number < seq) ∧
        Rising (stream publisherId lives) ↔
      Ahead last lives := by
  induction lives generalizing last with
  | nil => simp [stream, seqs, Rising, Ahead]
  | cons life rest ih =>
    unfold Ahead
    rw [← ih, stream_cons]
    by_cases silent : life.payloads = []
    · simp [silent, drain, Lifetime.last]
    · have positive : 0 < life.payloads.length := length_pos_iff.mpr silent
      have hasLast : life.last.or last = some (life.first + life.payloads.length - 1) := by
        simp [Lifetime.last, silent]
      have risingHere := rising_drain_iff publisherId life.seed life.payloads
      rw [hasLast]
      unfold Rising at risingHere ⊢
      rw [seqs_append, pairwise_append, risingHere]
      simp only [silent, false_or, Option.mem_def, Option.some.injEq, forall_eq', mem_append]
      constructor
      · rintro ⟨above, fits, risingRest, below⟩
        have mem := @mem_seqs_drain_iff publisherId _ _ fits
        have firstMember := (mem life.first).mpr ⟨le_rfl, by unfold Lifetime.first; omega⟩
        have lastMember := (mem (life.first + life.payloads.length - 1)).mpr
          ⟨by unfold Lifetime.first; omega, by unfold Lifetime.first; omega⟩
        exact ⟨⟨fun number found => above number found _ (.inl firstMember), fits⟩,
          fun seq mem => below _ lastMember seq mem, risingRest⟩
      · rintro ⟨⟨above, fits⟩, below, risingRest⟩
        refine ⟨fun number found seq mem => ?_, fits, risingRest, ?_⟩
        · have := above number found
          rcases mem with here | later
          · have := (mem_seqs_drain_iff fits seq).mp here
            unfold Lifetime.first at *
            omega
          · have := below seq later
            omega
        · intro seq here other later
          have := (mem_seqs_drain_iff fits seq).mp here
          have := below other later
          unfold Lifetime.first at *
          omega

theorem publisherId_stream (mem : frame ∈ stream publisherId lives) :
    frame.publisherId = publisherId := by
  obtain ⟨life, -, drained⟩ := mem_flatMap.mp mem
  generalize life.seed = seed at drained
  generalize life.payloads = payloads at drained
  induction payloads generalizing seed with
  | nil => simp [drain] at drained
  | cons payload rest ih =>
    rcases mem_cons.mp drained with rfl | later
    · rfl
    · exact ih (seed + 1) later

/-- `pg-writer` admits frames whose numbers rise above what it has. -/
theorem admitted_of_rising {batch : PgWriteBatch}
    (mine : ∀ frame ∈ frames, frame.publisherId = publisherId) (rising : Rising frames)
    (above : ∀ seq ∈ seqs frames, seq = 0 ∨ batch.highest publisherId < seq) :
    batch.admitted frames = frames := by
  induction frames generalizing batch with
  | nil => rfl
  | cons frame rest ih =>
    obtain ⟨below, risingRest⟩ := pairwise_cons.mp rising
    have publisher := mine frame mem_cons_self
    have admits : batch.Admits frame := by
      unfold PgWriteBatch.Admits
      rw [publisher]
      exact above _ (mem_cons_self)
    rw [PgWriteBatch.admitted_cons, if_pos admits, singleton_append]
    congr 1
    refine ih (fun frame mem => mine frame (mem_cons_of_mem _ mem))
      risingRest (fun seq mem => .inr ?_)
    have higher : frame.seq.toNat < seq := below seq mem
    rw [PgWriteBatch.highest_push, if_pos publisher.symm]
    rcases above seq (mem_cons_of_mem _ mem) with zero | highest
    · omega
    · omega

/-- `redis-writer` skips no frame whose number rises above what it has. -/
theorem redisSkipped_of_rising (mine : ∀ frame ∈ run.map (·.1), frame.publisherId = publisherId)
    (rising : Rising (run.map (·.1)))
    (above : ∀ seq ∈ seqs (run.map (·.1)), seq = 0 ∨ (floors.lookup publisherId).getD 0 < seq) :
    redisSkipped floors run = [] := by
  induction run generalizing floors with
  | nil => rfl
  | cons turn rest ih =>
    obtain ⟨frame, applied⟩ := turn
    obtain ⟨below, risingRest⟩ := pairwise_cons.mp rising
    have publisher : frame.publisherId = publisherId := mine frame mem_cons_self
    have kept : redisSkips floors frame = false := by
      unfold redisSkips
      rw [publisher]
      have := above frame.seq.toNat mem_cons_self
      simp only [decide_eq_false_iff_not]
      omega
    unfold redisSkipped
    rw [kept]
    refine ih (fun frame mem => mine frame (mem_cons_of_mem _ mem))
      risingRest (fun seq mem => .inr ?_)
    have higher : frame.seq.toNat < seq := below seq mem
    unfold redisFloors
    split_ifs
    · rw [publisher, Finmap.lookup_insert]
      exact higher
    · rcases above seq (mem_cons_of_mem _ mem) with zero | floor
      · omega
      · exact floor

/-- No consumer discards a frame and the numbers rise, exactly if every life of the
desk that publishes starts above the numbers of the lives before. -/
theorem kept_iff_ahead (publisherId : Nat) (lives : List Lifetime) :
    Kept (stream publisherId lives) ↔ Ahead none lives := by
  rw [← rising_stream_iff publisherId none lives]
  constructor
  · intro kept
    exact ⟨by simp, kept.rising⟩
  · rintro ⟨-, rising⟩
    refine ⟨?_, ?_, rising⟩
    · refine admitted_of_rising (fun _ => publisherId_stream) rising ?_
      intro seq _
      rcases Nat.eq_zero_or_pos seq with zero | positive
      · exact .inl zero
      · exact .inr positive
    · rintro run same
      rw [← same] at rising
      have mine : ∀ frame ∈ run.map (·.1), frame.publisherId = publisherId := by
        rw [same]
        exact fun frame member => publisherId_stream member
      refine redisSkipped_of_rising mine rising ?_
      intro seq _
      rcases Nat.eq_zero_or_pos seq with zero | positive
      · exact .inl zero
      · exact .inr positive

/-- The clock was set back by a second before a restart. -/
theorem not_kept_clockSetBack :
    ¬ Kept (stream 0 [
      { clockNanos := some 1700000000000000000, payloads := [.orderDelete 1] },
      { clockNanos := some 1699999999000000000, payloads := [.orderDelete 2] }]) := by
  intro kept
  exact absurd kept.byPgWriter (by decide +kernel)

end LightningX.Persist
