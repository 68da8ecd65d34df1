import LightningX.Lib.Along
import LightningX.Lib.KeyedMap

/-!
# Order identifiers

Every desk process hands out order identifiers from an atomic counter of its
own.  At its start it sets the counter past the largest identifier in the
orders table and past the slabs of the desks with smaller numbers.  The table
is all that desks and their lifetimes share, and rows of finished orders are
deleted from it.
-/

namespace LightningX.Desk

open List KeyedMap

/-- Number of identifiers in the slab of a desk. -/
def slabSize : Nat := 1000000000

/-- The `id` column: a `BIGINT` that holds identifiers. -/
abbrev RowId := Fin (2 ^ 63)

/-- `SELECT COALESCE(MAX(id), 0) FROM orders`. -/
def maxDbId (rows : List RowId) : Nat :=
  ((rows.map Fin.val).max?).getD 0

/-- `initial_id`, in 64-bit arithmetic. -/
def initialId (deskId : Nat) (rows : List RowId) : Nat :=
  (maxDbId rows + 1 + deskId * slabSize) % 2 ^ 64

/-- The counter of a running desk and its value at the start. -/
structure IdCounter where
  initial : Nat
  next : Nat
  deriving DecidableEq, Repr

/-- `next_order_id` starts at `initial_id`. -/
def IdCounter.start (deskId : Nat) (rows : List RowId) : IdCounter where
  initial := initialId deskId rows
  next := initialId deskId rows

def IdCounter.fetchAdd (counter : IdCounter) : IdCounter :=
  { counter with next := (counter.next + 1) % 2 ^ 64 }

/-- The orders table, the running desks and all identifiers handed out so far,
last first. -/
structure Identifiers where
  rows : List RowId
  desks : KeyedMap Nat IdCounter
  issued : List Nat

/-- What can happen: processes start and crash, identifiers are handed out to
orders of any kind, rows come and go. -/
inductive IdStep
  | start (deskId : Nat)
  | crash (deskId : Nat)
  | allocate (deskId : Nat)
  | insert (row : RowId)
  | delete (row : RowId)
  deriving DecidableEq, Repr

namespace Identifiers

/-- No rows, no desks. -/
def empty : Identifiers where
  rows := []
  desks := ∅
  issued := []

def step (state : Identifiers) : IdStep → Identifiers
  | .start deskId => { state with desks := state.desks.insert deskId (.start deskId state.rows) }
  | .crash deskId => { state with desks := state.desks.erase deskId }
  | .allocate deskId =>
    match state.desks.lookup deskId with
    | none => state
    | some counter =>
      { state with
        desks := state.desks.insert deskId counter.fetchAdd
        issued := counter.next :: state.issued }
  | .insert row => { state with rows := row :: state.rows }
  | .delete row => { state with rows := state.rows.filter (· ≠ row) }

def run (state : Identifiers) (steps : List IdStep) : Identifiers :=
  steps.foldl step state

/-- The slab of a starting desk holds no identifier that was handed out and
none that another running desk may still hand out. -/
structure StartsFresh (state : Identifiers) (deskId : Nat) : Prop where
  issued : ∀ id ∈ state.issued, id < initialId deskId state.rows ∨
    initialId deskId state.rows + slabSize ≤ id
  desks : ∀ other counter, other ≠ deskId → state.desks.lookup other = some counter →
    counter.initial + slabSize ≤ initialId deskId state.rows ∨
      initialId deskId state.rows + slabSize ≤ counter.next

/-- Every start of a run finds a fresh slab. -/
def AllFresh (state : Identifiers) (steps : List IdStep) : Prop :=
  Along step (fun state step => ∀ deskId, step = .start deskId →
    deskId < 32 ∧ state.StartsFresh deskId) state steps

/-- The identifiers that a desk may still hand out lie in its slab, are new and
are no other desk's. -/
structure Sound (state : Identifiers) : Prop where
  nodup : state.issued.Nodup
  ordered : ∀ deskId counter, state.desks.lookup deskId = some counter →
    counter.initial ≤ counter.next
  bounded : ∀ deskId counter, state.desks.lookup deskId = some counter →
    counter.initial + slabSize < 2 ^ 64
  unused : ∀ deskId counter, state.desks.lookup deskId = some counter →
    ∀ id ∈ state.issued, id < counter.next ∨ counter.initial + slabSize ≤ id
  apart : ∀ deskId counter other otherCounter, deskId ≠ other →
    state.desks.lookup deskId = some counter →
    state.desks.lookup other = some otherCounter →
    counter.initial + slabSize ≤ otherCounter.next ∨ otherCounter.initial + slabSize ≤ counter.next

theorem sound_empty : empty.Sound where
  nodup := nodup_nil
  ordered := by simp [empty]
  bounded := by simp [empty]
  unused := by simp [empty]
  apart := by simp [empty]

variable {state : Identifiers}

theorem initialId_bound (rows : List RowId) (small : deskId < 32) :
    initialId deskId rows + slabSize < 2 ^ 64 := by
  have rowsBound : maxDbId rows < 2 ^ 63 := by
    unfold maxDbId
    cases largest : (rows.map Fin.val).max? with
    | none => decide
    | some id =>
      obtain ⟨row, -, rfl⟩ := mem_map.mp (List.max?_mem largest)
      exact row.isLt
  have fits : maxDbId rows + 1 + deskId * slabSize < 2 ^ 64 := by
    unfold slabSize
    omega
  rw [initialId, Nat.mod_eq_of_lt fits]
  unfold slabSize
  omega

namespace Sound

/-- Only rows changed. -/
theorem of_rows (sound : state.Sound) (rows : List RowId) :
    ({ state with rows := rows } : Identifiers).Sound where
  nodup := sound.nodup
  ordered := sound.ordered
  bounded := sound.bounded
  unused := sound.unused
  apart := sound.apart

theorem start (sound : state.Sound) (small : deskId < 32) (fresh : state.StartsFresh deskId) :
    (state.step (.start deskId)).Sound where
  nodup := sound.nodup
  ordered := by
    intro other counter running
    rcases lookup_insert_eq_some.mp running with ⟨-, rfl⟩ | ⟨-, before⟩
    · exact le_rfl
    · exact sound.ordered other counter before
  bounded := by
    intro other counter running
    rcases lookup_insert_eq_some.mp running with ⟨-, rfl⟩ | ⟨-, before⟩
    · exact initialId_bound state.rows small
    · exact sound.bounded other counter before
  unused := by
    intro other counter running id isIssued
    rcases lookup_insert_eq_some.mp running with ⟨-, rfl⟩ | ⟨-, before⟩
    · exact fresh.issued id isIssued
    · exact sound.unused other counter before id isIssued
  apart := by
    intro first firstCounter second secondCounter ne firstRuns secondRuns
    rcases lookup_insert_eq_some.mp firstRuns with
      ⟨rfl, rfl⟩ | ⟨firstOther, firstBefore⟩ <;>
    rcases lookup_insert_eq_some.mp secondRuns with
      ⟨rfl, rfl⟩ | ⟨secondOther, secondBefore⟩
    · exact absurd rfl ne
    · exact (fresh.desks second secondCounter secondOther secondBefore).symm
    · exact fresh.desks first firstCounter firstOther firstBefore
    · exact sound.apart first firstCounter second secondCounter ne firstBefore secondBefore

theorem crash (sound : state.Sound) (deskId : Nat) : (state.step (.crash deskId)).Sound where
  nodup := sound.nodup
  ordered := by
    intro other counter running
    exact sound.ordered other counter (lookup_erase_eq_some.mp running).2
  bounded := by
    intro other counter running
    exact sound.bounded other counter (lookup_erase_eq_some.mp running).2
  unused := by
    intro other counter running
    exact sound.unused other counter (lookup_erase_eq_some.mp running).2
  apart := by
    intro first firstCounter second secondCounter ne firstRuns secondRuns
    exact sound.apart first firstCounter second secondCounter ne
      (lookup_erase_eq_some.mp firstRuns).2 (lookup_erase_eq_some.mp secondRuns).2

/-- The next identifier of a slab that is not used up is new. -/
theorem allocate (sound : state.Sound) (running : state.desks.lookup deskId = some counter)
    (left : counter.next < counter.initial + slabSize) : (state.step (.allocate deskId)).Sound := by
  have bounded := sound.bounded deskId counter running
  have ordered := sound.ordered deskId counter running
  have next : counter.fetchAdd = { counter with next := counter.next + 1 } := by
    rw [IdCounter.fetchAdd, Nat.mod_eq_of_lt (by omega)]
  have after : state.step (.allocate deskId) =
      { state with
        desks := state.desks.insert deskId { counter with next := counter.next + 1 }
        issued := counter.next :: state.issued } := by
    simp only [step, running, next]
  rw [after]
  constructor
  · refine nodup_cons.mpr ⟨?_, sound.nodup⟩
    intro already
    have := sound.unused deskId counter running counter.next already
    omega
  · intro other otherCounter otherRuns
    rcases lookup_insert_eq_some.mp otherRuns with ⟨-, rfl⟩ | ⟨-, before⟩
    · exact Nat.le_succ_of_le ordered
    · exact sound.ordered other otherCounter before
  · intro other otherCounter otherRuns
    rcases lookup_insert_eq_some.mp otherRuns with ⟨-, rfl⟩ | ⟨-, before⟩
    · exact bounded
    · exact sound.bounded other otherCounter before
  · intro other otherCounter otherRuns id isIssued
    rcases lookup_insert_eq_some.mp otherRuns with ⟨-, rfl⟩ | ⟨ne, before⟩ <;>
    rcases mem_cons.mp isIssued with rfl | earlier
    · exact .inl (Nat.lt_succ_self _)
    · exact (sound.unused deskId counter running id earlier).imp_left Nat.lt_succ_of_lt
    · have := sound.apart other otherCounter deskId counter ne before running
      omega
    · exact sound.unused other otherCounter before id earlier
  · intro first firstCounter second secondCounter ne firstRuns secondRuns
    rcases lookup_insert_eq_some.mp firstRuns with
      ⟨rfl, rfl⟩ | ⟨firstOther, firstBefore⟩ <;>
    rcases lookup_insert_eq_some.mp secondRuns with
      ⟨rfl, rfl⟩ | ⟨secondOther, secondBefore⟩
    · exact absurd rfl ne
    · exact (sound.apart first counter second secondCounter ne running
        secondBefore).imp_right Nat.le_succ_of_le
    · exact (sound.apart first firstCounter second counter ne firstBefore
        running).imp_left Nat.le_succ_of_le
    · exact sound.apart first firstCounter second secondCounter ne firstBefore secondBefore

end Sound

/-- The desks have room for what the steps still allocate. -/
def Within (state : Identifiers) (steps : List IdStep) : Prop :=
  ∀ deskId counter, state.desks.lookup deskId = some counter →
    counter.next + steps.count (.allocate deskId) < counter.initial + slabSize

theorem Sound.step {next : IdStep} {steps : List IdStep}
    (sound : state.Sound) (within : state.Within (next :: steps))
    (fresh : ∀ deskId, next = .start deskId → deskId < 32 ∧ state.StartsFresh deskId) :
    (state.step next).Sound := by
  cases next with
  | start deskId =>
    obtain ⟨small, freshSlab⟩ := fresh deskId rfl
    exact sound.start small freshSlab
  | crash deskId => exact sound.crash deskId
  | allocate deskId =>
    cases running : state.desks.lookup deskId with
    | none =>
      have unchanged : state.step (.allocate deskId) = state := by
        simp only [Identifiers.step, running]
      rwa [unchanged]
    | some counter =>
      have room := within deskId counter running
      exact sound.allocate running (by omega)
  | insert row => exact sound.of_rows _
  | delete row => exact sound.of_rows _

/-- Each step leaves room for the rest. -/
theorem Within.step {next : IdStep} {steps : List IdStep} (within : state.Within (next :: steps))
    (sound : state.Sound) (few : ∀ deskId, (next :: steps).count (.allocate deskId) < slabSize) :
    (state.step next).Within steps := by
  have fewer : ∀ deskId, steps.count (.allocate deskId) ≤
      (next :: steps).count (.allocate deskId) :=
    fun deskId => count_le_count_cons
  intro deskId counter running
  cases next with
  | start starting =>
    rcases lookup_insert_eq_some.mp running with ⟨rfl, rfl⟩ | ⟨-, before⟩
    · have := few deskId
      have := fewer deskId
      show initialId deskId state.rows + _ < initialId deskId state.rows + _
      omega
    · have := within deskId counter before
      have := fewer deskId
      omega
  | crash crashing =>
    have := within deskId counter (lookup_erase_eq_some.mp running).2
    have := fewer deskId
    omega
  | allocate allocating =>
    cases found : state.desks.lookup allocating with
    | none =>
      simp only [Identifiers.step, found] at running
      have := within deskId counter running
      have := fewer deskId
      omega
    | some old =>
      simp only [Identifiers.step, found] at running
      rcases lookup_insert_eq_some.mp running with ⟨rfl, rfl⟩ | ⟨-, before⟩
      · have room := within deskId old found
        have bounded := sound.bounded deskId old found
        rw [count_cons_self] at room
        have next : old.fetchAdd.next = old.next + 1 := Nat.mod_eq_of_lt (by omega)
        show old.fetchAdd.next + _ < old.initial + _
        omega
      · have := within deskId counter before
        have := fewer deskId
        omega
  | insert row =>
    have := within deskId counter running
    have := fewer deskId
    omega
  | delete row =>
    have := within deskId counter running
    have := fewer deskId
    omega

theorem Sound.run {steps : List IdStep} (sound : state.Sound) (within : state.Within steps)
    (few : ∀ deskId, steps.count (.allocate deskId) < slabSize) (fresh : state.AllFresh steps) :
    (state.run steps).Sound := by
  induction steps generalizing state with
  | nil => exact sound
  | cons next steps ih =>
    refine ih (sound.step within fresh.1) (within.step sound few) ?_ fresh.2
    exact fun deskId => count_le_count_cons.trans_lt (few deskId)

/-- No identifier is handed out twice, on any desk at any time, in a run whose
starts all find a fresh slab. -/
theorem issued_nodup (steps : List IdStep)
    (few : ∀ deskId, steps.count (.allocate deskId) < slabSize) (fresh : empty.AllFresh steps) :
    (empty.run steps).issued.Nodup := by
  have within : empty.Within steps := by
    intro deskId counter running
    simp [empty] at running
  exact (sound_empty.run within few fresh).nodup

/-- Two desks that start on an empty table. -/
theorem issued_nodup_twoDesks :
    (empty.run [.start 0, .start 1, .allocate 0, .allocate 1, .allocate 0]).issued =
        [2, 1000000001, 1] ∧
      (empty.run [.start 0, .start 1, .allocate 0, .allocate 1, .allocate 0]).issued.Nodup := by
  refine ⟨by decide, issued_nodup _ ?_ ?_⟩
  · intro deskId
    exact count_le_length.trans_lt (by decide)
  · refine ⟨?_, ?_, ?_, ?_, ?_, trivial⟩
    · rintro deskId ⟨⟩
      exact ⟨by decide, by simp [empty], by simp [empty]⟩
    · rintro deskId ⟨⟩
      refine ⟨by decide, by simp [empty, step], ?_⟩
      intro other counter different running
      rcases lookup_insert_eq_some.mp running with ⟨rfl, rfl⟩ | ⟨-, before⟩
      · exact .inl (by decide)
      · simp [empty] at before
    all_goals exact nofun

/-- A finished order leaves no trace: the desk that restarts hands out its
identifier again. -/
theorem issued_not_nodup :
    (∀ deskId, List.count (IdStep.allocate deskId) [.start 0, .allocate 0, .insert 1,
        .delete 1, .crash 0, .start 0, .allocate 0] < slabSize) ∧
      ¬ (empty.run [.start 0, .allocate 0, .insert 1, .delete 1, .crash 0, .start 0,
        .allocate 0]).issued.Nodup := by
  refine ⟨?_, by decide⟩
  intro deskId
  exact count_le_length.trans_lt (by decide)

/-- A desk that restarts after a row of the next desk enters that desk's slab. -/
example : ¬ (empty.run [.start 0, .start 1, .allocate 1, .insert 1000000001, .crash 0,
    .start 0, .allocate 0, .allocate 1]).issued.Nodup := by
  decide

end Identifiers
end LightningX.Desk
