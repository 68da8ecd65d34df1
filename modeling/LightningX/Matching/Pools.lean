import LightningX.Lib.FreeList
import LightningX.Matching.Order

/-!
# Object pools

`matching/pools.rs`: fixed-capacity pools for orders, trades and queues.  The
free list is a stack with its top first.  Objects of free slots keep their old
content until the slot is written again.
-/

namespace LightningX.Matching

structure ObjectPool (α : Type) where
  objects : List α
  freeIndices : List Nat
  capacity : Nat
  allocated : Nat
  deriving DecidableEq, Repr

namespace ObjectPool

/-- `ObjectPool::new`; index zero is handed out first. -/
def new (unused : α) (capacity : Nat) : ObjectPool α where
  objects := List.replicate capacity unused
  freeIndices := List.range capacity
  capacity := capacity
  allocated := 0

def acquire (pool : ObjectPool α) : Option (ObjectPool α × Nat) :=
  match pool.freeIndices with
  | [] => none
  | index :: rest =>
    some ({ pool with
      freeIndices := rest
      allocated := pool.allocated + 1 }, index)

def release (pool : ObjectPool α) (index : Nat) : ObjectPool α :=
  { pool with
    freeIndices := index :: pool.freeIndices
    allocated := pool.allocated - 1 }

def get (pool : ObjectPool α) (index : Nat) : Option α :=
  pool.objects[index]?

/-- Write through `ObjectPool::get_mut`. -/
def modify (pool : ObjectPool α) (index : Nat) (change : α → α) :
    ObjectPool α :=
  { pool with objects := pool.objects.modify index change }

def allocatedCount (pool : ObjectPool α) : Nat :=
  pool.allocated

def availableCount (pool : ObjectPool α) : Nat :=
  pool.capacity - pool.allocated

end ObjectPool

structure Pools where
  orders : ObjectPool Order
  trades : ObjectPool Trade
  queues : ObjectPool (List Nat)
  deriving DecidableEq, Repr

namespace Pools

/-- `Pools::new`; there are as many trade slots as order slots. -/
def new (orderCapacity queueCapacity : Nat) : Pools where
  orders := ObjectPool.new Order.default orderCapacity
  trades := ObjectPool.new Trade.default orderCapacity
  queues := ObjectPool.new [] queueCapacity

def hasSpaceForOrder (pools : Pools) : Bool :=
  decide (0 < pools.orders.availableCount) && decide (0 < pools.queues.availableCount)

end Pools

namespace ObjectPool

variable {pool pool' : ObjectPool α} {used : List Nat}

/-- The pool is sound and exactly the slots `used` are allocated. -/
structure Owns (pool : ObjectPool α) (used : List Nat) : Prop where
  partition : Partition pool.freeIndices used pool.capacity
  objects_length : pool.objects.length = pool.capacity
  allocated_eq : pool.allocated = used.length

theorem owns_new (unused : α) (capacity : Nat) : (new unused capacity).Owns [] where
  partition := Partition.of_perm_range (List.Perm.refl _)
  objects_length := by simp [new]
  allocated_eq := rfl

section

variable (owns : pool.Owns used)
include owns

theorem Owns.perm (perm : used'.Perm used) : pool.Owns used' where
  partition := owns.partition.perm_used perm
  objects_length := owns.objects_length
  allocated_eq := owns.allocated_eq.trans perm.length_eq.symm

theorem Owns.lt_length (mem : index ∈ used) : index < pool.objects.length := by
  rw [owns.objects_length]
  exact owns.partition.lt_of_mem_used mem

/-- `acquire` takes a slot that was free. -/
theorem acquire_spec (acquired : pool.acquire = some (pool', index)) :
    pool'.Owns (index :: used) ∧ index ∉ used ∧
      pool'.objects = pool.objects ∧ pool'.capacity = pool.capacity := by
  unfold acquire at acquired
  split at acquired
  · simp at acquired
  next top rest freeEq =>
    obtain ⟨rfl, rfl⟩ := acquired
    have partition := owns.partition
    rw [freeEq] at partition
    refine ⟨⟨partition.acquire, owns.objects_length, ?_⟩, ?_, rfl, rfl⟩
    · simp [owns.allocated_eq]
    · exact partition.not_mem_used (by simp)

/-- `acquire` fails exactly when every slot is in use. -/
theorem acquire_eq_none_iff : pool.acquire = none ↔ used.length = pool.capacity := by
  have lengths := owns.partition.length_add_length
  unfold acquire
  split
  next freeEq =>
    rw [freeEq] at lengths
    simpa using lengths
  next top rest freeEq =>
    rw [freeEq] at lengths
    simp only [List.length_cons] at lengths
    simp only [reduceCtorEq, false_iff]
    omega

end

theorem Owns.release (owns : pool.Owns (index :: used)) : (pool.release index).Owns used where
  partition := owns.partition.release
  objects_length := owns.objects_length
  allocated_eq := by
    have allocated := owns.allocated_eq
    simp only [List.length_cons] at allocated
    simp only [ObjectPool.release]
    omega

/-- Releasing several slots. -/
theorem Owns.releaseAll (owns : pool.Owns (indices ++ used)) :
    (indices.foldl ObjectPool.release pool).Owns used ∧
      (indices.foldl ObjectPool.release pool).capacity = pool.capacity := by
  induction indices generalizing pool with
  | nil => exact ⟨owns, rfl⟩
  | cons index rest ih => exact ih (Owns.release owns)

theorem Owns.modify (owns : pool.Owns used) (target : Nat) (change : α → α) :
    (pool.modify target change).Owns used where
  partition := owns.partition
  objects_length := by simpa [ObjectPool.modify] using owns.objects_length
  allocated_eq := owns.allocated_eq

@[simp] theorem capacity_modify (change : α → α) :
    (pool.modify index change).capacity = pool.capacity := rfl

@[simp] theorem capacity_release : (pool.release index).capacity = pool.capacity := rfl

@[simp] theorem get_release (other : Nat) : (pool.release index).get other = pool.get other := rfl

theorem get_modify_self (change : α → α) :
    (pool.modify index change).get index = (pool.get index).map change := by
  simp [get, modify]

theorem get_modify_ne (change : α → α) (ne : index ≠ target) :
    (pool.modify target change).get index = pool.get index := by
  simp [get, modify, ne.symm]

end ObjectPool
end LightningX.Matching
