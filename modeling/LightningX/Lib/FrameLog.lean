import Mathlib.Data.List.Range
import Mathlib.Data.PNat.Basic

/-!
# Logs of frames

A log of frames that are addressed by their positions in bytes, and what is read
between two positions of it.
-/

namespace LightningX

open List

/-- A log that starts at a position and holds frames of some sizes. -/
structure FrameLog where
  start : Nat
  sizes : List ℕ+
  deriving DecidableEq

namespace FrameLog

variable {log : FrameLog} {first last : Nat} {count prior : Nat}

/-- How many frames the log has. -/
def length (log : FrameLog) : Nat :=
  log.sizes.length

/-- The position behind a number of frames. -/
def position (log : FrameLog) (count : Nat) : Nat :=
  log.start + ((log.sizes.take count).map PNat.val).sum

/-- The frames that begin between two positions. -/
def between (log : FrameLog) (lower upper : Nat) : List Nat :=
  (List.range log.length).filter fun index =>
    decide (lower ≤ log.position index ∧ log.position index < upper)

def push (log : FrameLog) (size : ℕ+) : FrameLog :=
  { log with sizes := log.sizes ++ [size] }

@[simp] theorem length_push (size : ℕ+) : (log.push size).length = log.length + 1 := by
  simp [length, push]

@[simp] theorem position_zero : log.position 0 = log.start := by simp [position]

theorem position_push (within : count ≤ log.length) (size : ℕ+) :
    (log.push size).position count = log.position count := by
  rw [position, position, push, take_append_of_le_length within]

theorem position_lt_succ {count : Nat} (within : count < log.length) :
    log.position count < log.position (count + 1) := by
  have split := take_append_getElem (l := log.sizes) within
  rw [position, position, ← split, map_append, sum_append]
  have positive := (log.sizes[count]).pos
  simp only [map_cons, sum_cons]
  omega

theorem position_lt (before : first < last) (within : last ≤ log.length) :
    log.position first < log.position last := by
  induction last with
  | zero => omega
  | succ last ih =>
    have step := @position_lt_succ log last (by omega)
    by_cases same : first = last
    · rwa [same]
    · exact (ih (by omega) (by omega)).trans step

section

variable (firstWithin : first ≤ log.length) (lastWithin : last ≤ log.length)
include firstWithin lastWithin

theorem position_lt_iff : log.position first < log.position last ↔ first < last := by
  refine ⟨fun before => ?_, fun before => position_lt before lastWithin⟩
  by_contra notBefore
  rcases Nat.eq_or_lt_of_not_lt notBefore with same | after
  · rw [same] at before
    omega
  · have := position_lt after firstWithin
    omega

theorem position_le_iff : log.position first ≤ log.position last ↔ first ≤ last := by
  rw [← not_lt, position_lt_iff lastWithin firstWithin, not_lt]

theorem position_inj : log.position first = log.position last ↔ first = last := by
  rw [le_antisymm_iff, position_le_iff firstWithin lastWithin,
    position_le_iff lastWithin firstWithin, ← le_antisymm_iff]

end

theorem filter_range (ordered : first ≤ last) (within : last ≤ count) :
    (List.range count).filter (fun index => decide (first ≤ index ∧ index < last)) =
      List.range' first (last - first) := by
  obtain ⟨middle, rfl⟩ := Nat.exists_eq_add_of_le ordered
  obtain ⟨rest, rfl⟩ := Nat.exists_eq_add_of_le within
  have split : List.range (first + middle + rest) =
      List.range' 0 first ++ List.range' first middle ++ List.range' (first + middle) rest := by
    rw [range_eq_range', ← List.range'_append_1, ← List.range'_append_1]
    simp
  rw [split, filter_append, filter_append]
  have below : (List.range' 0 first).filter
      (fun index => decide (first ≤ index ∧ index < first + middle)) = [] := by
    refine filter_eq_nil_iff.mpr fun index mem => ?_
    have := mem_range'_1.mp mem
    simp
    omega
  have inside : (List.range' first middle).filter
      (fun index => decide (first ≤ index ∧ index < first + middle)) =
        List.range' first middle := by
    refine filter_eq_self.mpr fun index mem => ?_
    have := mem_range'_1.mp mem
    simp
    omega
  have above : (List.range' (first + middle) rest).filter
      (fun index => decide (first ≤ index ∧ index < first + middle)) = [] := by
    refine filter_eq_nil_iff.mpr fun index mem => ?_
    have := mem_range'_1.mp mem
    simp
    omega
  rw [below, inside, above, append_nil, nil_append, Nat.add_sub_cancel_left]

/-- The first frames and a later segment are all first frames if the segment is empty
or continues them. -/
theorem range_append_range'
    (continues : prior = first ∧ first + count = total ∨ count = 0 ∧ prior = total) :
    List.range prior ++ List.range' first count = List.range total := by
  rcases continues with ⟨rfl, rfl⟩ | ⟨rfl, rfl⟩
  · rw [range_eq_range', range_eq_range', ← List.range'_append_1, Nat.zero_add]
  · simp

theorem range_append_range'_perm_iff :
    (List.range prior ++ List.range' first count).Perm (List.range total) ↔
      prior = first ∧ first + count = total ∨ count = 0 ∧ prior = total := by
  refine ⟨fun same => ?_, fun continues => .of_eq (range_append_range' continues)⟩
  have lengths : prior + count = total := by simpa using same.length_eq
  by_cases none : count = 0
  · exact .inr ⟨none, by omega⟩
  · have members : ∀ index, index < prior ∨ first ≤ index ∧ index < first + count ↔
        index < total := by
      intro index
      simpa using same.mem_iff (a := index)
    have apart : ∀ index < prior, ¬ (first ≤ index ∧ index < first + count) := by
      have distinct := (same.nodup_iff.mpr nodup_range)
      intro index isPrior isLater
      exact (nodup_append.mp distinct).2.2 index (mem_range.mpr isPrior) index
        (mem_range'_1.mpr isLater) rfl
    have noOverlap : ¬ first < prior := fun less => apart first less ⟨le_rfl, by omega⟩
    have noGap : ¬ prior < first := by
      intro less
      have isMember := (members prior).mpr
        (less.trans ((members first).mp (.inr ⟨le_rfl, by omega⟩)))
      omega
    exact .inl ⟨by omega, by omega⟩

theorem range_append_range'_eq_iff :
    List.range prior ++ List.range' first count = List.range total ↔
      prior = first ∧ first + count = total ∨ count = 0 ∧ prior = total :=
  ⟨fun same => range_append_range'_perm_iff.mp (.of_eq same), range_append_range'⟩

/-- Between the positions behind two numbers of frames are the frames between. -/
theorem between_position (ordered : first ≤ last) (within : last ≤ log.length) :
    log.between (log.position first) (log.position last) = List.range' first (last - first) := by
  rw [← filter_range ordered within]
  refine filter_congr fun index mem => ?_
  have isFrame := mem_range.mp mem
  exact decide_eq_decide.mpr (and_congr (position_le_iff (by omega) (by omega))
    (position_lt_iff (by omega) (by omega)))

end FrameLog
end LightningX
