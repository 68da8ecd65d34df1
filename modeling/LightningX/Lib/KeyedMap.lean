import Mathlib.Data.List.AList
import Mathlib.Algebra.Order.Ring.Int
import Mathlib.Algebra.Order.BigOperators.Group.List

/-!
# Maps and sums over them

A finite map from keys to values, and how the sum of a quantity over all its
entries changes when one entry changes.
-/

namespace LightningX

open List AList

/-- A finite map. -/
abbrev KeyedMap (κ α : Type) := AList fun _ : κ => α

namespace KeyedMap

variable [DecidableEq κ] {measure : κ → α → Int} {map : KeyedMap κ α} {key other : κ}

instance [DecidableEq α] : DecidableEq (KeyedMap κ α) :=
  fun _ _ => decidable_of_iff _ AList.ext_iff.symm

/-- Change the value of a key that is present. -/
def modify (key : κ) (change : α → α) (map : KeyedMap κ α) : KeyedMap κ α :=
  match map.lookup key with
  | none => map
  | some value => map.insert key (change value)

def restrict (stays : κ → Bool) (map : KeyedMap κ α) : KeyedMap κ α where
  entries := map.entries.filter fun entry => stays entry.1
  nodupKeys := map.nodupKeys.sublist filter_sublist

/-- Sum of a quantity over a map. -/
def total (measure : κ → α → Int) (map : KeyedMap κ α) : Int :=
  (map.entries.map fun entry => measure entry.1 entry.2).sum

/-- The part of a key in the sum. -/
def share (measure : κ → α → Int) (key : κ) (map : KeyedMap κ α) : Int :=
  ((map.lookup key).map (measure key)).getD 0

/-- What holds of all entries. -/
theorem forall_lookup_iff {holds : κ → α → Prop} :
    (∀ key value, map.lookup key = some value → holds key value) ↔
      ∀ entry ∈ map.entries, holds entry.1 entry.2 :=
  ⟨fun all entry mem => all entry.1 entry.2 (mem_lookup_iff.mpr mem),
    fun all key value found => all ⟨key, value⟩ (mem_lookup_iff.mp found)⟩

instance {holds : κ → α → Prop} [∀ key value, Decidable (holds key value)] :
    Decidable (∀ key value, map.lookup key = some value → holds key value) :=
  decidable_of_iff _ forall_lookup_iff.symm

/-- All values of a map meet a condition. -/
def All (holds : α → Prop) (map : KeyedMap κ α) : Prop :=
  ∀ key value, map.lookup key = some value → holds value

theorem lookup_insert_eq_some :
    (map.insert key value).lookup other = some found ↔
      other = key ∧ found = value ∨ other ≠ key ∧ map.lookup other = some found := by
  by_cases same : other = key
  · subst same
    simp [eq_comm]
  · simp [same]

theorem lookup_erase_eq_some :
    (map.erase key).lookup other = some found ↔ other ≠ key ∧ map.lookup other = some found := by
  by_cases same : other = key
  · subst same
    simp
  · simp [same]

theorem share_of_lookup (found : map.lookup key = some value) :
    share measure key map = measure key value := by
  simp [share, found]

theorem share_of_not_mem (missing : map.lookup key = none) : share measure key map = 0 := by
  simp [share, missing]

theorem total_erase (measure : κ → α → Int) (key : κ) (map : KeyedMap κ α) :
    total measure (map.erase key) = total measure map - share measure key map := by
  by_cases present : key ∈ map
  · obtain ⟨value, before, after, -, entries, erased⟩ := exists_of_kerase (mem_keys.mp present)
    have found : map.lookup key = some value := by
      refine mem_lookup_iff.mpr ?_
      rw [entries]
      simp
    have rest : (map.erase key).entries = before ++ after := erased
    rw [share_of_lookup found, total, total, rest, entries]
    simp only [map_append, map_cons, sum_append, sum_cons]
    omega
  · have missing : map.lookup key = none := AList.lookup_eq_none.mpr present
    have same : (map.erase key).entries = map.entries :=
      kerase_of_notMem_keys (mem_keys.not.mp present)
    rw [share_of_not_mem missing, total, total, same, Int.sub_zero]

theorem total_insert (measure : κ → α → Int) (key : κ) (value : α) (map : KeyedMap κ α) :
    total measure (map.insert key value) =
      total measure map - share measure key map + measure key value := by
  rw [← total_erase, total, AList.entries_insert, map_cons]
  exact Int.add_comm _ _

theorem lookup_modify (key other : κ) (change : α → α) (map : KeyedMap κ α) :
    (modify key change map).lookup other =
      if other = key then (map.lookup other).map change else map.lookup other := by
  unfold modify
  cases found : map.lookup key with
  | none =>
    split_ifs with same
    · rw [same, found]
      rfl
    · rfl
  | some value =>
    split_ifs with same
    · rw [same, found, lookup_insert]
      rfl
    · exact lookup_insert_ne same

theorem All.modify {holds : α → Prop} (all : All holds map)
    (changed : ∀ value ∈ map.lookup key, holds value → holds (change value)) :
    All holds (modify key change map) := by
  intro other value found
  rw [lookup_modify] at found
  split_ifs at found with same
  · obtain ⟨old, isOld, rfl⟩ := Option.map_eq_some_iff.mp found
    exact changed old (same ▸ isOld) (all other old isOld)
  · exact all other value found

theorem lookup_restrict (stays : κ → Bool) (map : KeyedMap κ α) (key : κ) :
    (restrict stays map).lookup key = if stays key then map.lookup key else none := by
  apply Option.ext
  intro value
  rw [← Option.mem_def, mem_lookup_iff]
  unfold restrict
  split_ifs with kept
  · rw [← Option.mem_def, mem_lookup_iff]
    simp [kept]
  · simp [kept]

/-- Changing a value changes the sum by the difference. -/
theorem total_modify (change : α → α) (found : map.lookup key = some value) :
    total measure (modify key change map) =
      total measure map + (measure key (change value) - measure key value) := by
  simp only [modify, found]
  rw [total_insert, share_of_lookup found]
  omega

theorem modify_of_not_mem (change : α → α) (missing : map.lookup key = none) :
    modify key change map = map := by
  simp only [modify, missing]

/-- Entries that measure the same have the same sum. -/
theorem total_congr {other : κ → α → Int}
    (same : ∀ key value, map.lookup key = some value → measure key value = other key value) :
    total measure map = total other map := by
  unfold total
  congr 1
  apply map_congr_left
  intro entry mem
  exact same entry.1 entry.2 (mem_lookup_iff.mpr mem)

section

variable (nonneg : ∀ key value, map.lookup key = some value → 0 ≤ measure key value)
include nonneg

theorem total_nonneg : 0 ≤ total measure map := by
  apply sum_nonneg
  intro part mem
  obtain ⟨entry, entryMember, rfl⟩ := mem_map.mp mem
  exact nonneg entry.1 entry.2 (mem_lookup_iff.mpr entryMember)

/-- A part is at most the whole. -/
theorem share_le_total (key : κ) : share measure key map ≤ total measure map := by
  have others : 0 ≤ total measure (map.erase key) := by
    apply total_nonneg
    intro other value found
    have ne : other ≠ key := by
      rintro rfl
      simp at found
    rw [lookup_erase_ne ne] at found
    exact nonneg other value found
  rw [total_erase] at others
  omega

end

end KeyedMap
end LightningX
