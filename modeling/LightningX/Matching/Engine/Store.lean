import LightningX.Matching.Engine.Defs

/-!
# The order store

The map from identifiers to pool indices and the pool behind it, read as one
partial function from identifiers to orders.
-/

namespace LightningX.Matching

open List AList ObjectPool

namespace OrderMap

/-- Every entry of the map has its own slot of the pool, and no other slot is
allocated. -/
def Stored (orders : OrderMap) (pool : ObjectPool Order) : Prop :=
  pool.Owns (orders.entries.map (·.2))

/-- The order stored under an identifier. -/
def read (orders : OrderMap) (pool : ObjectPool Order) (id : Nat) : Option Order :=
  (orders.lookup id).bind pool.get

variable {orders : OrderMap} {pool pool' : ObjectPool Order} {id other index : Nat}

theorem Stored.slot_mem (found : orders.lookup id = some index) :
    index ∈ orders.entries.map (·.2) :=
  mem_map_of_mem (mem_lookup_iff.mp found)

section

variable (stored : Stored orders pool)
include stored

/-- A known identifier has an order. -/
theorem Stored.exists_order (mem : id ∈ orders) :
    ∃ index order, orders.lookup id = some index ∧ pool.get index = some order := by
  obtain ⟨index, found⟩ := Option.isSome_iff_exists.mp (lookup_isSome.mpr mem)
  have bound := stored.lt_length (Stored.slot_mem found)
  exact ⟨index, pool.objects[index], found, by simp [ObjectPool.get]⟩

/-- Different identifiers have different slots. -/
theorem Stored.slot_ne (found : orders.lookup id = some index)
    (otherFound : orders.lookup other = some otherIndex) (ne : other ≠ id) :
    otherIndex ≠ index := by
  rintro rfl
  have distinct := stored.partition.nodup_used
  have same := inj_on_of_nodup_map distinct (mem_lookup_iff.mp found)
    (mem_lookup_iff.mp otherFound) rfl
  exact ne (congrArg Sigma.fst same).symm

theorem Stored.allocated_eq_length : pool.allocated = orders.keys.length := by
  rw [stored.allocated_eq]
  simp [AList.keys, List.keys]

/-- Writing one order. -/
theorem Stored.modify (found : orders.lookup id = some index) (change : Order → Order) :
    Stored orders (pool.modify index change) ∧
      read orders (pool.modify index change) id = (read orders pool id).map change ∧
      ∀ other, other ≠ id →
        read orders (pool.modify index change) other = read orders pool other := by
  refine ⟨Owns.modify stored index change, ?_, ?_⟩
  · simp [read, found, ObjectPool.get_modify_self]
  · intro other ne
    unfold read
    cases otherFound : orders.lookup other with
    | none => rfl
    | some otherIndex => exact get_modify_ne change (stored.slot_ne found otherFound ne)

/-- Forgetting one order. -/
theorem Stored.erase (found : orders.lookup id = some index) :
    Stored (orders.erase id) (pool.release index) ∧
      ∀ other, other ≠ id →
        read (orders.erase id) (pool.release index) other = read orders pool other := by
  constructor
  · have mem : id ∈ orders.entries.keys := mem_keys.mp (lookup_isSome.mp (by simp [found]))
    obtain ⟨slot, front, back, -, entriesEq, erasedEq⟩ := exists_of_kerase mem
    have slotEq : slot = index := by
      have stays : orders.lookup id = some slot := mem_lookup_iff.mpr (by simp [entriesEq])
      exact Option.some.inj (stays.symm.trans found)
    apply Owns.release
    refine Owns.perm stored ?_
    have remaining : (orders.erase id).entries = front ++ back := erasedEq
    rw [remaining, entriesEq, slotEq, map_append, map_append]
    exact perm_middle.symm
  · intro other ne
    simp only [read, lookup_erase_ne ne]
    rfl

/-- Storing one order in a fresh slot. -/
theorem Stored.insert
    (unknown : id ∉ orders) (acquired : pool.acquire = some (pool', index)) (order : Order) :
    Stored (orders.insert id index) (pool'.modify index fun _ => order) ∧
      read (orders.insert id index) (pool'.modify index fun _ => order) id = some order ∧
      ∀ other, other ≠ id →
        read (orders.insert id index) (pool'.modify index fun _ => order) other =
          read orders pool other := by
  obtain ⟨owns, fresh, content, -⟩ := acquire_spec stored acquired
  have bound : index < pool'.objects.length := owns.lt_length (by simp)
  refine ⟨?_, ?_, ?_⟩
  · unfold Stored
    rw [entries_insert_of_notMem unknown]
    exact owns.modify index _
  · simp [read, ObjectPool.get, ObjectPool.modify, bound]
  · intro other ne
    simp only [read, lookup_insert_ne ne]
    cases otherFound : orders.lookup other with
    | none => rfl
    | some otherIndex =>
      have notFresh : otherIndex ≠ index := by
        rintro rfl
        exact fresh (Stored.slot_mem otherFound)
      simp only [Option.bind_some]
      rw [get_modify_ne _ notFresh, ObjectPool.get, content]
      rfl

/-- Giving back a fresh slot that was written but never entered in the map. -/
theorem Stored.undo (acquired : pool.acquire = some (pool', index)) (order : Order) :
    Stored orders ((pool'.modify index fun _ => order).release index) ∧
      ∀ other,
        read orders ((pool'.modify index fun _ => order).release index) other =
          read orders pool other := by
  obtain ⟨owns, fresh, content, -⟩ := acquire_spec stored acquired
  refine ⟨(owns.modify index _).release, ?_⟩
  intro other
  unfold read
  cases otherFound : orders.lookup other with
  | none => rfl
  | some otherIndex =>
    have notFresh : otherIndex ≠ index := by
      rintro rfl
      exact fresh (Stored.slot_mem otherFound)
    simp only [Option.bind_some, ObjectPool.get_release]
    rw [get_modify_ne _ notFresh, ObjectPool.get, content]
    rfl

end

end OrderMap
end LightningX.Matching
