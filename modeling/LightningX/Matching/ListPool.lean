import LightningX.Lib.FreeList
import LightningX.Lib.Path

/-!
# Pooled order queues

`matching/list_pool.rs`: the orders of one price form a doubly linked list
whose nodes live in a pool shared by all prices of a book side.  Indices into
the pool are natural numbers and the free list is a stack with its top first.
The second half of the file says which list of pool indices a `PooledList`
represents and proves that every operation acts on that list.
-/

namespace LightningX.Matching

open List
open LightningX.Path

structure ListNode where
  orderId : Nat
  quantityLots : Int
  next : Option Nat
  prev : Option Nat
  deriving DecidableEq, Repr

def ListNode.default : ListNode where
  orderId := 0
  quantityLots := 0
  next := none
  prev := none

structure ListNodePool where
  nodes : List ListNode
  freeIndices : List Nat
  allocated : Nat
  capacity : Nat
  deriving DecidableEq, Repr

namespace ListNodePool

/-- `ListNodePool::new`; the last index is handed out first. -/
def new (capacity : Nat) : ListNodePool where
  nodes := List.replicate capacity ListNode.default
  freeIndices := (List.range capacity).reverse
  allocated := 0
  capacity := capacity

def acquire (pool : ListNodePool) (orderId : Nat) (quantityLots : Int) :
    Option (ListNodePool × Nat) :=
  match pool.freeIndices with
  | [] => none
  | index :: rest =>
    some ({ pool with
      nodes := pool.nodes.set index
        { orderId := orderId, quantityLots := quantityLots,
          next := none, prev := none }
      freeIndices := rest
      allocated := pool.allocated + 1 }, index)

def release (pool : ListNodePool) (index : Nat) : ListNodePool :=
  { pool with
    freeIndices := index :: pool.freeIndices
    allocated := pool.allocated - 1 }

def get (pool : ListNodePool) (index : Nat) : Option ListNode :=
  pool.nodes[index]?

/-- Write through `ListNodePool::get_mut`. -/
def modify (pool : ListNodePool) (index : Nat) (change : ListNode → ListNode) :
    ListNodePool :=
  { pool with nodes := pool.nodes.modify index change }

def setNext (pool : ListNodePool) (index : Nat) (link : Option Nat) :
    ListNodePool :=
  pool.modify index fun node => { node with next := link }

def setPrev (pool : ListNodePool) (index : Nat) (link : Option Nat) :
    ListNodePool :=
  pool.modify index fun node => { node with prev := link }

/-- Successor link of a node. -/
def nextOf (pool : ListNodePool) (index : Nat) : Option Nat :=
  (pool.get index).bind (·.next)

/-- Predecessor link of a node. -/
def prevOf (pool : ListNodePool) (index : Nat) : Option Nat :=
  (pool.get index).bind (·.prev)

end ListNodePool

structure PooledList where
  head : Option Nat
  tail : Option Nat
  count : Nat
  deriving DecidableEq, Repr

namespace PooledList

def new : PooledList where
  head := none
  tail := none
  count := 0

def isEmpty (list : PooledList) : Bool :=
  list.count == 0

def pushBack (list : PooledList) (index : Nat) (pool : ListNodePool) :
    PooledList × ListNodePool :=
  match list.tail with
  | some last =>
    ({ list with tail := some index, count := list.count + 1 },
      (pool.setNext last (some index)).setPrev index (some last))
  | none => ({ head := some index, tail := some index, count := list.count + 1 }, pool)

def remove (list : PooledList) (index : Nat) (pool : ListNodePool) :
    PooledList × ListNodePool :=
  match pool.prevOf index, pool.nextOf index with
  | none, none => ({ head := none, tail := none, count := list.count - 1 }, pool)
  | none, some next =>
    ({ list with head := some next, count := list.count - 1 }, pool.setPrev next none)
  | some prev, none =>
    ({ list with tail := some prev, count := list.count - 1 }, pool.setNext prev none)
  | some prev, some next =>
    ({ list with count := list.count - 1 },
      (pool.setNext prev (some next)).setPrev next (some prev))

def front (list : PooledList) : Option Nat :=
  list.head

def clear (_ : PooledList) : PooledList :=
  new

end PooledList

/-- The payload of a queue node: an order and its visible lots. -/
structure Entry where
  orderId : Nat
  lots : Int
  deriving DecidableEq, Repr

namespace ListNodePool

variable {target : Nat} {orderId : Nat} {quantityLots : Int}

/-- Payload stored at an index. -/
def entry (pool : ListNodePool) (index : Nat) : Entry :=
  let node := pool.nodes.getD index ListNode.default
  { orderId := node.orderId, lots := node.quantityLots }

/-- The pool is sound and exactly the indices `used` are allocated. -/
structure Owns (pool : ListNodePool) (used : List Nat) : Prop where
  partition : Partition pool.freeIndices used pool.capacity
  nodes_length : pool.nodes.length = pool.capacity
  allocated_eq : pool.allocated = used.length

/-- Two pools agree on the content of a node. -/
def SameNode (pool pool' : ListNodePool) (index : Nat) : Prop :=
  pool'.get index = pool.get index

variable {pool pool' : ListNodePool} {used : List Nat}

theorem owns_new (capacity : Nat) : (new capacity).Owns [] where
  partition := Partition.of_perm_range (reverse_perm _)
  nodes_length := by simp [new]
  allocated_eq := rfl

theorem Owns.lt_length (owns : pool.Owns used) (mem : index ∈ used) :
    index < pool.nodes.length := by
  rw [owns.nodes_length]
  exact owns.partition.lt_of_mem_used mem

theorem Owns.perm (owns : pool.Owns used) (perm : used'.Perm used) : pool.Owns used' where
  partition := owns.partition.perm_used perm
  nodes_length := owns.nodes_length
  allocated_eq := owns.allocated_eq.trans perm.length_eq.symm

section

variable (same : SameNode pool pool' index)
include same

theorem SameNode.nextOf : pool'.nextOf index = pool.nextOf index := by
  rw [ListNodePool.nextOf, ListNodePool.nextOf, same]

theorem SameNode.prevOf : pool'.prevOf index = pool.prevOf index := by
  rw [ListNodePool.prevOf, ListNodePool.prevOf, same]

theorem SameNode.entry : pool'.entry index = pool.entry index := by
  have equal : pool'.nodes[index]? = pool.nodes[index]? := same
  simp [ListNodePool.entry, equal]

end

/-- A write elsewhere leaves a node alone. -/
theorem sameNode_modify (change : ListNode → ListNode) (ne : index ≠ target) :
    SameNode pool (pool.modify target change) index := by
  simp [SameNode, get, modify, ne.symm]

theorem get_modify_self (change : ListNode → ListNode) :
    (pool.modify index change).get index = (pool.get index).map change := by
  simp [get, modify]

@[simp] theorem entry_setNext (target : Nat) (link : Option Nat) :
    (pool.setNext target link).entry index = pool.entry index := by
  by_cases same : index = target
  · subst same
    simp only [entry, setNext, modify, getD_eq_getElem?_getD, List.getElem?_modify]
    cases pool.nodes[index]? <;> rfl
  · exact (sameNode_modify _ same).entry

@[simp] theorem entry_setPrev (target : Nat) (link : Option Nat) :
    (pool.setPrev target link).entry index = pool.entry index := by
  by_cases same : index = target
  · subst same
    simp only [entry, setPrev, modify, getD_eq_getElem?_getD, List.getElem?_modify]
    cases pool.nodes[index]? <;> rfl
  · exact (sameNode_modify _ same).entry

@[simp] theorem prevOf_setNext (target : Nat) (link : Option Nat) :
    (pool.setNext target link).prevOf index = pool.prevOf index := by
  by_cases same : index = target
  · subst same
    simp only [prevOf, setNext, get_modify_self]
    cases pool.get index <;> rfl
  · exact (sameNode_modify _ same).prevOf

@[simp] theorem nextOf_setPrev (target : Nat) (link : Option Nat) :
    (pool.setPrev target link).nextOf index = pool.nextOf index := by
  by_cases same : index = target
  · subst same
    simp only [nextOf, setPrev, get_modify_self]
    cases pool.get index <;> rfl
  · exact (sameNode_modify _ same).nextOf

theorem nextOf_setNext_ne (link : Option Nat) (ne : index ≠ target) :
    (pool.setNext target link).nextOf index = pool.nextOf index :=
  (sameNode_modify _ ne).nextOf

theorem prevOf_setPrev_ne (link : Option Nat) (ne : index ≠ target) :
    (pool.setPrev target link).prevOf index = pool.prevOf index :=
  (sameNode_modify _ ne).prevOf

theorem nextOf_setNext_self (link : Option Nat) (bound : index < pool.nodes.length) :
    (pool.setNext index link).nextOf index = link := by
  rw [nextOf, setNext, get_modify_self]
  simp [get, bound]

theorem prevOf_setPrev_self (link : Option Nat) (bound : index < pool.nodes.length) :
    (pool.setPrev index link).prevOf index = link := by
  rw [prevOf, setPrev, get_modify_self]
  simp [get, bound]

@[simp] theorem length_setNext (target : Nat) (link : Option Nat) :
    (pool.setNext target link).nodes.length = pool.nodes.length := by
  simp [setNext, modify]

/-- Changing nodes does not change which indices are allocated. -/
theorem Owns.modify (owns : pool.Owns used) (target : Nat) (change : ListNode → ListNode) :
    (pool.modify target change).Owns used where
  partition := owns.partition
  nodes_length := by simpa [ListNodePool.modify] using owns.nodes_length
  allocated_eq := owns.allocated_eq

/-- What `acquire` gives: a fresh, unlinked node with the given payload. -/
theorem acquire_spec
    (owns : pool.Owns used) (acquired : pool.acquire orderId quantityLots = some (pool', index)) :
    pool'.Owns (index :: used) ∧ index ∉ used ∧
      pool'.get index = some
        { orderId := orderId, quantityLots := quantityLots,
          next := none, prev := none } ∧
      (∀ other, other ≠ index → SameNode pool pool' other) ∧
      pool'.capacity = pool.capacity := by
  unfold acquire at acquired
  split at acquired
  · simp at acquired
  next top rest freeEq =>
    simp only [Option.some.injEq, Prod.mk.injEq] at acquired
    obtain ⟨rfl, rfl⟩ := acquired
    have partition := owns.partition
    rw [freeEq] at partition
    have bound : top < pool.nodes.length := by
      rw [owns.nodes_length]
      exact partition.lt_of_mem_free (by simp)
    refine ⟨⟨partition.acquire, ?_, ?_⟩, ?_, ?_, ?_, rfl⟩
    · simpa using owns.nodes_length
    · simp [owns.allocated_eq]
    · exact partition.not_mem_used (by simp)
    · simp [get, bound]
    · intro other ne
      simp [SameNode, get, Ne.symm ne]

/-- `acquire` fails exactly when every index is in use. -/
theorem acquire_eq_none_iff (owns : pool.Owns used) :
    pool.acquire orderId quantityLots = none ↔ used.length = pool.capacity := by
  have lengths := owns.partition.length_add_length
  unfold acquire
  split
  next freeEq =>
    rw [freeEq] at lengths
    simpa using lengths
  next top rest freeEq =>
    rw [freeEq] at lengths
    simp only [length_cons] at lengths
    simp only [reduceCtorEq, false_iff]
    omega

theorem Owns.release (owns : pool.Owns (index :: used)) : (pool.release index).Owns used where
  partition := owns.partition.release
  nodes_length := owns.nodes_length
  allocated_eq := by
    have allocated := owns.allocated_eq
    simp only [length_cons] at allocated
    simp only [ListNodePool.release]
    omega

theorem sameNode_release (index other : Nat) : SameNode pool (pool.release index) other := rfl

end ListNodePool

namespace PooledList

open ListNodePool

variable {back front : List Nat} {other cell : Nat}

/-- The list runs through exactly the pool indices `cells`, in that order. -/
structure Rep (list : PooledList) (pool : ListNodePool) (cells : List Nat) :
    Prop where
  forward : Segment pool.nextOf cells none
  backward : Segment pool.prevOf cells.reverse none
  head_eq : list.head = cells.head?
  tail_eq : list.tail = cells.getLast?
  count_eq : list.count = cells.length

variable {list : PooledList} {pool pool' : ListNodePool}

theorem rep_new (pool : ListNodePool) : new.Rep pool [] := by constructor <;> simp [new]

section

variable (rep : list.Rep pool cells)
include rep

/-- A list only depends on the links of its own nodes. -/
theorem Rep.congr_links (nexts : ∀ index ∈ cells, pool'.nextOf index = pool.nextOf index)
    (prevs : ∀ index ∈ cells, pool'.prevOf index = pool.prevOf index) : list.Rep pool' cells where
  forward := rep.forward.congr nexts
  backward := rep.backward.congr fun index mem => prevs index (by simpa using mem)
  head_eq := rep.head_eq
  tail_eq := rep.tail_eq
  count_eq := rep.count_eq

theorem Rep.congr (same : ∀ index ∈ cells, SameNode pool pool' index) : list.Rep pool' cells :=
  rep.congr_links (fun index mem => (same index mem).nextOf)
    fun index mem => (same index mem).prevOf

theorem Rep.isEmpty_iff : list.isEmpty = true ↔ cells = [] := by
  simp [isEmpty, rep.count_eq]

/-- `push_back` appends its node. -/
theorem Rep.pushBack (distinct : (cells ++ [index]).Nodup)
    (bounds : ∀ cell ∈ cells ++ [index], cell < pool.nodes.length)
    (noNext : pool.nextOf index = none) (noPrev : pool.prevOf index = none) :
    (list.pushBack index pool).1.Rep (list.pushBack index pool).2 (cells ++ [index]) := by
  rcases eq_nil_or_concat cells with rfl | ⟨front, last, rfl⟩
  · have noTail : list.tail = none := by simpa using rep.tail_eq
    constructor <;>
      simp [PooledList.pushBack, noTail, noNext, noPrev, rep.count_eq]
  · simp only [concat_eq_append, append_assoc] at *
    have hasTail : list.tail = some last := by simpa using rep.tail_eq
    have lastBound : last < pool.nodes.length := bounds last (by simp)
    have indexBound : index < pool.nodes.length := bounds index (by simp)
    have lastNe : last ≠ index := by
      intro equal
      simp [equal, nodup_append] at distinct
    have frontNe : ∀ cell ∈ front, cell ≠ last ∧ cell ≠ index := by
      intro cell mem
      have apart := (nodup_append.mp distinct).2.2 cell mem
      exact ⟨apart last (by simp), apart index (by simp)⟩
    have lastNext : pool.nextOf last = none := by simpa using rep.forward.next_eq
    simp only [PooledList.pushBack, hasTail]
    constructor
    · refine rep.forward.splice ?_ ?_ ?_
      · intro cell mem
        rw [nextOf_setPrev, nextOf_setNext_ne _ (frontNe cell (by simpa using mem)).1]
      · rw [nextOf_setPrev, nextOf_setNext_self _ lastBound]
      · rw [nextOf_setPrev, nextOf_setNext_ne _ lastNe.symm, noNext, lastNext]
    · have reversed : Segment pool.prevOf (last :: front.reverse) none := by
        simpa using rep.backward
      simp only [reverse_append]
      refine ⟨?_, reversed.congr ?_⟩
      · rw [prevOf_setPrev_self]
        · rfl
        · simpa using indexBound
      · intro cell mem
        have ne : cell ≠ index := by
          rcases mem_cons.mp mem with rfl | inFront
          · exact lastNe
          · exact (frontNe cell (by simpa using inFront)).2
        rw [prevOf_setPrev_ne _ ne, prevOf_setNext]
    · simp [rep.head_eq]
    · simp
    · simp [rep.count_eq]

theorem Rep.pushBack_sameNode (outside : other ∉ cells) (ne : other ≠ index) :
    SameNode pool (list.pushBack index pool).2 other := by
  unfold PooledList.pushBack
  split
  next last hasTail =>
    have lastMember : last ∈ cells := mem_of_getLast? (rep.tail_eq.symm.trans hasTail)
    have notLast : other ≠ last := fun equal => outside (equal ▸ lastMember)
    exact (sameNode_modify _ ne).trans (sameNode_modify _ notLast)
  · rfl

end

@[simp] theorem pushBack_entry (index other : Nat) :
    (list.pushBack index pool).2.entry other = pool.entry other := by
  unfold PooledList.pushBack
  split <;> simp

/-- `push_back` only writes links. -/
theorem owns_pushBack (owns : pool.Owns used) (index : Nat) :
    (list.pushBack index pool).2.Owns used := by
  unfold PooledList.pushBack
  split
  · exact (owns.modify _ _).modify _ _
  · exact owns

@[simp] theorem pushBack_capacity (index : Nat) :
    (list.pushBack index pool).2.capacity = pool.capacity := by
  unfold PooledList.pushBack
  split <;> rfl

/-- Write the successor of an optional node. -/
def linkNext (pool : ListNodePool) (target link : Option Nat) : ListNodePool :=
  target.elim pool fun index => pool.setNext index link

/-- Write the predecessor of an optional node. -/
def linkPrev (pool : ListNodePool) (target link : Option Nat) : ListNodePool :=
  target.elim pool fun index => pool.setPrev index link

/-- The four branches of `remove` join the two neighbours. -/
theorem remove_eq (index : Nat) :
    list.remove index pool =
      ({ head := if pool.prevOf index = none then pool.nextOf index
           else list.head
         tail := if pool.nextOf index = none then pool.prevOf index
           else list.tail
         count := list.count - 1 },
        linkPrev (linkNext pool (pool.prevOf index) (pool.nextOf index))
          (pool.nextOf index) (pool.prevOf index)) := by
  unfold remove
  cases pool.prevOf index <;> cases pool.nextOf index <;> rfl

theorem nextOf_linkPrev (target link : Option Nat) (cell : Nat) :
    (linkPrev pool target link).nextOf cell = pool.nextOf cell := by
  cases target <;> simp [linkPrev]

theorem prevOf_linkNext (target link : Option Nat) (cell : Nat) :
    (linkNext pool target link).prevOf cell = pool.prevOf cell := by
  cases target <;> simp [linkNext]

theorem nextOf_linkNext_ne (link : Option Nat) (ne : target ≠ some cell) :
    (linkNext pool target link).nextOf cell = pool.nextOf cell := by
  cases target with
  | none => rfl
  | some index => exact nextOf_setNext_ne _ fun equal => ne (by rw [equal])

theorem prevOf_linkPrev_ne (link : Option Nat) (ne : target ≠ some cell) :
    (linkPrev pool target link).prevOf cell = pool.prevOf cell := by
  cases target with
  | none => rfl
  | some index => exact prevOf_setPrev_ne _ fun equal => ne (by rw [equal])

@[simp] theorem length_linkNext (target link : Option Nat) :
    (linkNext pool target link).nodes.length = pool.nodes.length := by
  cases target <;> simp [linkNext]

section

variable (rep : list.Rep pool (front ++ index :: back))
include rep

/-- The neighbours stored in a node of the list. -/
theorem Rep.neighbours : pool.nextOf index = back.head? ∧ pool.prevOf index = front.getLast? := by
  constructor
  · simpa using rep.forward.next_eq
  · have reversed :
        Segment pool.prevOf (back.reverse ++ index :: front.reverse) none := by
      simpa using rep.backward
    simpa using reversed.next_eq

/-- `remove` drops its node. -/
theorem Rep.remove (distinct : (front ++ index :: back).Nodup)
    (bounds : ∀ cell ∈ front ++ index :: back, cell < pool.nodes.length) :
    (list.remove index pool).1.Rep (list.remove index pool).2 (front ++ back) := by
  obtain ⟨atNext, atPrev⟩ := rep.neighbours
  obtain ⟨frontDistinct, restDistinct, apart⟩ := nodup_append.mp distinct
  rw [remove_eq, atNext, atPrev]
  constructor
  · rcases eq_nil_or_concat front with rfl | ⟨front, last, rfl⟩
    · refine rep.forward.2.congr fun cell mem => ?_
      rw [nextOf_linkPrev]
      rfl
    · simp only [concat_eq_append, append_assoc] at *
      refine rep.forward.unlink ?_ ?_
      · intro cell mem
        rw [nextOf_linkPrev, nextOf_linkNext_ne]
        intro equal
        simp only [List.getLast?_append, List.getLast?_singleton,
          Option.some_or, Option.some.injEq] at equal
        subst equal
        rcases mem_append.mp mem with inFront | inBack
        · exact (nodup_append.mp frontDistinct).2.2 last inFront last (by simp) rfl
        · exact apart last (by simp) last (by simp [inBack]) rfl
      · rw [nextOf_linkPrev, atNext]
        simp only [List.getLast?_append]
        exact nextOf_setNext_self _ (bounds last (by simp))
  · have reversed :
        Segment pool.prevOf (back.reverse ++ index :: front.reverse) none := by
      simpa using rep.backward
    rw [reverse_append]
    cases back with
    | nil =>
      refine reversed.2.congr fun cell mem => ?_
      exact prevOf_linkNext _ _ _
    | cons first back =>
      simp only [reverse_cons, append_assoc, List.head?_cons] at *
      refine reversed.unlink ?_ ?_
      · intro cell mem
        rw [prevOf_linkPrev_ne, prevOf_linkNext]
        intro equal
        simp only [Option.some.injEq] at equal
        subst equal
        rcases mem_append.mp mem with inBack | inFront
        · simp at restDistinct
          exact restDistinct.2.1 (by simpa using inBack)
        · exact apart first (by simpa using inFront) first (by simp) rfl
      · rw [atPrev]
        exact prevOf_setPrev_self _ (by simpa using bounds first (by simp))
  · rcases eq_nil_or_concat front with rfl | ⟨front, last, rfl⟩
    · simp
    · cases front <;> simp [rep.head_eq]
  · cases back with
    | nil => simp
    | cons first back => simp [rep.tail_eq]
  · simp [rep.count_eq]

/-- Nodes outside the list are not touched by `remove`. -/
theorem Rep.remove_sameNode (outside : other ∉ front ++ index :: back) :
    SameNode pool (list.remove index pool).2 other := by
  obtain ⟨atNext, atPrev⟩ := rep.neighbours
  have notLast : ∀ last, front.getLast? = some last → other ≠ last := by
    rintro last atLast rfl
    exact outside (by simp [mem_of_getLast? atLast])
  have notFirst : ∀ first, back.head? = some first → other ≠ first := by
    rintro first atFirst rfl
    exact outside (by simp [mem_of_mem_head? atFirst])
  rw [remove_eq, atNext, atPrev]
  cases hasLast : front.getLast? with
  | none =>
    cases hasFirst : back.head? with
    | none => rfl
    | some first => exact sameNode_modify _ (notFirst first hasFirst)
  | some last =>
    have stepOne : SameNode pool (pool.setNext last back.head?) other :=
      sameNode_modify _ (notLast last hasLast)
    cases hasFirst : back.head? with
    | none => rw [hasFirst] at stepOne; exact stepOne
    | some first =>
      rw [hasFirst] at stepOne
      exact (sameNode_modify _ (notFirst first hasFirst)).trans stepOne

end

@[simp] theorem remove_entry (index other : Nat) :
    (list.remove index pool).2.entry other = pool.entry other := by
  unfold PooledList.remove
  split <;> simp

@[simp] theorem remove_capacity (index : Nat) :
    (list.remove index pool).2.capacity = pool.capacity := by
  unfold PooledList.remove
  split <;> rfl

/-- `remove` only writes links. -/
theorem owns_remove (owns : pool.Owns used) (index : Nat) :
    (list.remove index pool).2.Owns used := by
  unfold PooledList.remove
  split
  · exact owns
  · exact owns.modify _ _
  · exact owns.modify _ _
  · exact (owns.modify _ _).modify _ _

end PooledList
end LightningX.Matching
