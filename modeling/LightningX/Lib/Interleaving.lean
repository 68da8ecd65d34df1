import Mathlib.Data.List.Perm.Basic
import Mathlib.Data.List.Range

/-!
# Interleavings

Lists of elements that are tagged with the stream they come from: the part of a
stream in such a list, and the list in which the streams follow one another.
-/

namespace LightningX.Interleaving

open List

variable {α : Type} {index count : Nat} {first : List (Nat × α)} {parts : Nat → List α}

/-- The elements of one stream. -/
def part (index : Nat) (list : List (Nat × α)) : List α :=
  (list.filter fun entry => decide (entry.1 = index)).map Prod.snd

/-- The streams one after the other. -/
def inTurn (count : Nat) (parts : Nat → List α) : List (Nat × α) :=
  (List.range count).flatMap fun index => (parts index).map (Prod.mk index)

@[simp] theorem part_append :
    part index (first ++ second) = part index first ++ part index second := by
  simp [part]

theorem mem_part : value ∈ part index first ↔ (index, value) ∈ first := by
  simp only [part, mem_map, mem_filter, decide_eq_true_eq]
  constructor
  · rintro ⟨entry, ⟨mem, rfl⟩, rfl⟩
    exact mem
  · exact fun mem => ⟨(index, value), ⟨mem, rfl⟩, rfl⟩

theorem part_tagged (values : List α) :
    part index (values.map (Prod.mk other)) = if other = index then values else [] := by
  unfold part
  split_ifs with same
  · rw [filter_eq_self.mpr (by simp [same]), map_map]
    exact map_id' values
  · rw [filter_eq_nil_iff.mpr (by simp [same])]
    rfl

theorem inTurn_succ (parts : Nat → List α) :
    inTurn (count + 1) parts = inTurn count parts ++ (parts count).map (Prod.mk count) := by
  simp [inTurn, range_succ]

theorem part_inTurn (parts : Nat → List α) :
    part index (inTurn count parts) = if index < count then parts index else [] := by
  induction count with
  | zero => rfl
  | succ count ih =>
    rw [inTurn_succ, part_append, ih, part_tagged]
    by_cases same : count = index
    · subst same
      simp
    · have : index < count + 1 ↔ index < count := by omega
      simp [same, this]

theorem mem_inTurn : entry ∈ inTurn count parts ↔ entry.1 < count ∧ entry.2 ∈ parts entry.1 := by
  rw [← mem_part, part_inTurn]
  split_ifs with within <;> simp [within]

theorem count_part [DecidableEq α] (list : List (Nat × α)) (value : α) :
    (part index list).count value = list.count (index, value) := by
  induction list with
  | nil => rfl
  | cons entry list ih =>
    obtain ⟨other, found⟩ := entry
    have split : part index ((other, found) :: list) =
        part index [(other, found)] ++ part index list :=
      @part_append α index [(other, found)] list
    rw [split, count_append, ih]
    by_cases same : other = index
    · simp [part, same, count_cons, Nat.add_comm]
    · simp [part, same]

/-- Lists with the same elements have the same elements of every stream. -/
theorem perm_iff_part [DecidableEq α] :
    first ~ second ↔ ∀ index, part index first ~ part index second := by
  constructor
  · exact fun same index => (same.filter _).map _
  · intro sameParts
    rw [perm_iff_count]
    rintro ⟨index, value⟩
    rw [← count_part, ← count_part, (sameParts index).count_eq]

/-- Streams that are in order stay so one after the other. -/
theorem pairwise_inTurn (ordered : ∀ index < count, (parts index).Pairwise before) :
    (inTurn count parts).Pairwise (Prod.Lex (· < ·) before) := by
  rw [inTurn, pairwise_flatMap]
  constructor
  · intro index mem
    rw [pairwise_map]
    exact (ordered index (mem_range.mp mem)).imp fun isBefore => .right _ isBefore
  · refine pairwise_lt_range.imp fun {early late} less entry mem other otherMember => ?_
    obtain ⟨_, -, rfl⟩ := mem_map.mp mem
    obtain ⟨_, -, rfl⟩ := mem_map.mp otherMember
    exact .left _ _ less

/-- The first streams come before the others. -/
theorem inTurn_split (parts : Nat → List α) (within : bound ≤ count) :
    ∃ rest : List (Nat × α),
      inTurn count parts = inTurn bound parts ++ rest ∧ ∀ entry ∈ rest, bound ≤ entry.1 := by
  induction count, within using Nat.le_induction with
  | base => exact ⟨[], (append_nil _).symm, by simp⟩
  | succ count within ih =>
    obtain ⟨rest, split, above⟩ := ih
    refine ⟨rest ++ (parts count).map (Prod.mk count), ?_, ?_⟩
    · rw [inTurn_succ, split, append_assoc]
    · intro entry mem
      obtain mem | mem := mem_append.mp mem
      · exact above entry mem
      · obtain ⟨_, -, rfl⟩ := mem_map.mp mem
        exact within

/-- What is left of the streams after some elements holds the first ones as a whole
exactly when it is as long as they are. -/
theorem part_take_inTurn_iff [DecidableEq α] {length : Nat} (parts : Nat → List α)
    (within : bound ≤ count) :
    (∀ index < bound, part index ((inTurn count parts).take length) = parts index) ↔
      (inTurn bound parts).length ≤ length := by
  obtain ⟨rest, split, above⟩ := inTurn_split parts within
  rw [split]
  constructor
  · intro whole
    by_contra! short
    rw [take_append_of_le_length short.le] at whole
    have same : (inTurn bound parts).take length ~ inTurn bound parts := by
      rw [perm_iff_part]
      intro index
      rw [part_inTurn]
      split_ifs with isFirst
      · rw [whole index isFirst]
      · have none : part index ((inTurn bound parts).take length) = [] := by
          rw [eq_nil_iff_forall_not_mem]
          intro value mem
          exact isFirst (mem_inTurn.mp (mem_of_mem_take (mem_part.mp mem))).1
        rw [none]
    have := same.length_eq
    rw [length_take] at this
    omega
  · intro long index isFirst
    have none : part index (rest.take (length - (inTurn bound parts).length)) = [] := by
      rw [eq_nil_iff_forall_not_mem]
      intro value mem
      exact absurd (above _ (mem_of_mem_take (mem_part.mp mem))) (by simpa using isFirst)
    rw [take_append, take_of_length_le long, part_append, none, append_nil,
      part_inTurn, if_pos isFirst]

end LightningX.Interleaving
