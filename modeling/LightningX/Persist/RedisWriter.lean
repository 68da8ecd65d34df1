import LightningX.Lib.Along
import LightningX.Persist.Sequence

/-!
# The floors of `redis-writer`

`bin/redis_writer.rs` raises the floor of a publisher with every frame it has applied and
stores the floors now and then.  After a restart the journal is replayed from the stored
floors.  Both loops, of the replay and of the live stream, handle a frame alike.
-/

namespace LightningX.Persist

/-- The writer and the floors stored in Redis, with the frames that came and those applied. -/
structure RedisWriter where
  floors : Table Nat Nat
  stored : Table Nat Nat
  delivered : List PersistFrame
  applied : List PersistFrame

/-- What happens to the writer; floors that cannot be loaded are taken to be zero. -/
inductive RedisEvent
  | deliver (frame : PersistFrame) (succeeds : Bool)
  | store
  | load (succeeds : Bool)

namespace RedisWriter

def start : RedisWriter := ⟨∅, ∅, [], []⟩

def step (writer : RedisWriter) : RedisEvent → RedisWriter
  | .deliver frame succeeds =>
    { writer with
      floors := redisFloors writer.floors frame succeeds
      delivered := frame :: writer.delivered
      applied := if redisSkips writer.floors frame = false ∧ succeeds then frame :: writer.applied
        else writer.applied }
  | .store => { writer with stored := writer.floors ∪ writer.stored }
  | .load succeeds => { writer with floors := if succeeds then writer.stored else ∅ }

/-- A replay from the stored floors skips no frame that was not applied. -/
def Recoverable (writer : RedisWriter) : Prop :=
  ∀ frame ∈ writer.delivered, frame ∉ writer.applied → redisSkips writer.stored frame = false

/-- A new frame has a higher number than those of its publisher before it, and a frame is
applied when all those with lower numbers have been. -/
def Orderly (writer : RedisWriter) : RedisEvent → Prop
  | .deliver frame succeeds =>
    (frame.seq.toNat = 0 ∨ frame ∈ writer.delivered ∨ ∀ other ∈ writer.delivered,
      other.publisherId = frame.publisherId → other.seq.toNat < frame.seq.toNat) ∧
    (succeeds → ∀ other ∈ writer.delivered, other.publisherId = frame.publisherId →
      other.seq.toNat ≤ frame.seq.toNat → other = frame ∨ other ∈ writer.applied)
  | _ => True

/-- The floors are numbers of frames that came, and all up to them were applied. -/
structure Behind (writer : RedisWriter) (floors : Table Nat Nat) : Prop where
  applied : ∀ frame ∈ writer.delivered, redisSkips floors frame = true → frame ∈ writer.applied
  reached : ∀ publisherId, ∀ number ∈ floors.lookup publisherId, ∃ frame ∈ writer.delivered,
    frame.publisherId = publisherId ∧ frame.seq.toNat = number

variable {writer : RedisWriter} {floors : Table Nat Nat} {frame : PersistFrame} {succeeds : Bool}

theorem behind_empty : writer.Behind ∅ :=
  ⟨fun frame _ skipped => by simp [redisSkips] at skipped, fun _ _ found => by simp at found⟩

/-- `HSET` replaces the floors of some publishers and keeps those of the others. -/
theorem Behind.union {kept : Table Nat Nat} (behind : writer.Behind floors)
    (others : writer.Behind kept) :
    writer.Behind (floors ∪ kept) := by
  have either : ∀ publisherId, (floors ∪ kept).lookup publisherId = floors.lookup publisherId ∨
      (floors ∪ kept).lookup publisherId = kept.lookup publisherId := by
    intro publisherId
    by_cases present : publisherId ∈ floors
    · exact .inl (Finmap.lookup_union_left present)
    · exact .inr (Finmap.lookup_union_right present)
  refine ⟨fun frame mem skipped => ?_, fun publisherId number found => ?_⟩
  · unfold redisSkips at skipped
    rcases either frame.publisherId with same | same <;> rw [same] at skipped
    · exact behind.applied frame mem skipped
    · exact others.applied frame mem skipped
  · rcases either publisherId with same | same <;> rw [same] at found
    · exact behind.reached publisherId number found
    · exact others.reached publisherId number found

/-- Floors stay behind when a frame comes. -/
theorem Behind.deliver (behind : writer.Behind floors)
    (orderly : writer.Orderly (.deliver frame succeeds)) :
    (writer.step (.deliver frame succeeds)).Behind floors := by
  have kept : writer.applied ⊆ (writer.step (.deliver frame succeeds)).applied := by
    simp only [step]
    split_ifs
    · exact List.subset_cons_self _ _
    · exact List.Subset.refl _
  refine ⟨fun other mem skipped => ?_, fun publisherId number found => ?_⟩
  · rcases List.mem_cons.mp mem with rfl | earlier
    · obtain ⟨numbered, low⟩ := of_decide_eq_true skipped
      rcases orderly.1 with zero | again | higher
      · exact absurd zero numbered
      · exact kept (behind.applied other again skipped)
      · cases found : floors.lookup other.publisherId with
        | none => simp [found] at low; omega
        | some number =>
          obtain ⟨last, lastMember, mine, rfl⟩ := behind.reached _ number found
          have := higher last lastMember mine
          simp only [found, Option.getD_some] at low
          omega
    · exact kept (behind.applied other earlier skipped)
  · obtain ⟨last, lastMember, mine⟩ := behind.reached publisherId number found
    exact ⟨last, List.mem_cons_of_mem _ lastMember, mine⟩

/-- The floors after a frame that comes in order. -/
theorem Behind.redisFloors (behind : writer.Behind writer.floors)
    (orderly : writer.Orderly (.deliver frame succeeds)) :
    (writer.step (.deliver frame succeeds)).Behind (redisFloors writer.floors frame succeeds) := by
  have unchanged := behind.deliver orderly
  unfold Persist.redisFloors
  split_ifs with raised
  · obtain ⟨taken, succeeded, numbered⟩ := raised
    refine ⟨fun other mem skipped => ?_, fun publisherId number found => ?_⟩
    · by_cases mine : other.publisherId = frame.publisherId
      · have low := (of_decide_eq_true skipped).2
        rw [mine, Finmap.lookup_insert, Option.getD_some] at low
        simp only [step, taken, succeeded, and_self, if_true, List.mem_cons]
        rcases List.mem_cons.mp mem with same | earlier
        · exact .inl same
        · exact orderly.2 succeeded other earlier mine low
      · refine unchanged.applied other mem ?_
        rwa [redisSkips, Finmap.lookup_insert_of_ne _ mine] at skipped
    · by_cases mine : publisherId = frame.publisherId
      · rw [mine, Finmap.lookup_insert, Option.mem_some_iff] at found
        exact ⟨frame, List.mem_cons_self, mine.symm, found⟩
      · rw [Finmap.lookup_insert_of_ne _ mine] at found
        exact unchanged.reached publisherId number found
  · exact unchanged

/-- Frames that come and are applied in order are not lost by a restart. -/
theorem recoverable_of_orderly (events : List RedisEvent)
    (orderly : Along step Orderly start events) : (events.foldl step start).Recoverable := by
  have sound := @Along.foldl _ _ step Orderly start events
    (fun writer => writer.Behind writer.floors ∧ writer.Behind writer.stored)
    (fun {writer event} behind orderly => by
      cases event with
      | deliver frame succeeds => exact ⟨behind.1.redisFloors orderly, behind.2.deliver orderly⟩
      | store =>
        have both := behind.1.union behind.2
        exact ⟨⟨behind.1.applied, behind.1.reached⟩, both.applied, both.reached⟩
      | load succeeds =>
        refine ⟨?_, behind.2.applied, behind.2.reached⟩
        cases succeeds with
        | true => exact ⟨behind.2.applied, behind.2.reached⟩
        | false => exact behind_empty)
    ⟨behind_empty, behind_empty⟩ orderly
  intro frame mem unapplied
  exact Bool.eq_false_iff.mpr fun skipped => unapplied (sound.2.applied frame mem skipped)

/-- A failed frame is tried again before the next one. -/
theorem recoverable_of_orderly_retry :
    ([RedisEvent.deliver ⟨0, 1, .orderDelete 1⟩ false, .deliver ⟨0, 1, .orderDelete 1⟩ true,
      .deliver ⟨0, 2, .orderDelete 2⟩ true, .store].foldl step start).Recoverable := by
  refine recoverable_of_orderly _ ⟨?_, ?_, ?_, trivial, trivial⟩ <;>
    simp [Orderly, step, start, redisSkips, Persist.redisFloors]

/-- A frame fails and the next one succeeds: a restart skips the first. -/
theorem not_recoverable_afterNext :
    ¬ ([RedisEvent.deliver ⟨0, 1, .orderDelete 1⟩ false,
      .deliver ⟨0, 2, .orderDelete 2⟩ true, .store].foldl step start).Recoverable := by
  intro recoverable
  exact absurd (recoverable ⟨0, 1, .orderDelete 1⟩ (by decide) (by decide)) (by decide)

end RedisWriter
end LightningX.Persist
