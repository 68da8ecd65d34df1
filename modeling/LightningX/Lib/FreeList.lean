import Mathlib.Data.List.Perm.Basic
import Mathlib.Data.List.Range
import Mathlib.Data.List.Nodup

/-!
# Free lists

A pool hands out the indices below its capacity.  At every moment each index
is either on the free list or in use, and in exactly one of the two.  The
free list is a stack whose top is the head of the list.
-/

namespace LightningX

/-- Every index below `capacity` is exactly once free or in use. -/
def Partition (free used : List Nat) (capacity : Nat) : Prop :=
  (free ++ used).Perm (List.range capacity)

namespace Partition

variable {free used : List Nat} {capacity index : Nat}

/-- All indices of a fresh pool are free. -/
theorem of_perm_range (perm : free.Perm (List.range capacity)) : Partition free [] capacity := by
  simpa [Partition] using perm

section

variable (partition : Partition free used capacity)
include partition

theorem nodup_append : (free ++ used).Nodup :=
  partition.nodup_iff.mpr List.nodup_range

theorem nodup_used : used.Nodup :=
  partition.nodup_append.of_append_right

/-- The indices in use are in bounds. -/
theorem lt_of_mem_used (mem : index ∈ used) : index < capacity := by
  have inRange : index ∈ List.range capacity := partition.mem_iff.mp (by simp [mem])
  exact List.mem_range.mp inRange

/-- The free indices are in bounds. -/
theorem lt_of_mem_free (mem : index ∈ free) : index < capacity := by
  have inRange : index ∈ List.range capacity := partition.mem_iff.mp (by simp [mem])
  exact List.mem_range.mp inRange

theorem not_mem_used (mem : index ∈ free) : index ∉ used := by
  intro usedMember
  exact (List.nodup_append.mp partition.nodup_append).2.2 index mem index usedMember rfl

theorem length_add_length : free.length + used.length = capacity := by
  have lengths := partition.length_eq
  simpa using lengths

/-- The order in which the used indices are listed is immaterial. -/
theorem perm_used (perm : used'.Perm used) : Partition free used' capacity :=
  (perm.append_left free).trans partition

end

/-- Taking the top of the free list. -/
theorem acquire (partition : Partition (index :: free) used capacity) :
    Partition free (index :: used) capacity :=
  List.perm_middle.trans partition

theorem release (partition : Partition free (index :: used) capacity) :
    Partition (index :: free) used capacity :=
  List.perm_middle.symm.trans partition

/-- Growing the pool by one index that is in use at once. -/
theorem grow (partition : Partition free used capacity) :
    Partition free (capacity :: used) (capacity + 1) := by
  rw [Partition, List.range_succ]
  refine List.perm_middle.trans ?_
  exact (partition.cons capacity).trans (List.perm_append_singleton _ _).symm

end Partition
end LightningX
