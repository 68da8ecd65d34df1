import LightningX.Matching.SkipList.Defs

/-!
# Searching the skip list

Which list of slots a skip list represents, and the result of every search.
A slot is an arena index together with the pool indices of its queue.  Tier
`tier` of the skip list links exactly the slots whose tower reaches it, so the
representation needs only one list of slots and the towers' heights.
-/

namespace LightningX.Matching

open List
open LightningX.Path

namespace SortOrder

variable (order : SortOrder) {first : Int}

@[simp] theorem shouldInsert_self (price : Int) : order.shouldInsert price price = false := by
  cases order <;> simp [shouldInsert]

section

variable (early : order.shouldInsert first second = true)
include early

theorem shouldInsert_trans (late : order.shouldInsert second third = true) :
    order.shouldInsert first third = true := by
  cases order <;> simp only [shouldInsert, decide_eq_true_eq] at * <;> omega

theorem shouldInsert_asymm : order.shouldInsert second first = false := by
  cases order <;>
    simp only [shouldInsert, decide_eq_true_eq, decide_eq_false_iff_not] at * <;>
    omega

theorem ne_of_shouldInsert : first ≠ second := by
  rintro rfl
  simp at early

end

/-- Two prices are equal or one of them comes first. -/
theorem shouldInsert_total (first second : Int) :
    order.shouldInsert first second = true ∨ first = second ∨
      order.shouldInsert second first = true := by
  cases order <;> simp only [shouldInsert, decide_eq_true_eq] <;> omega

end SortOrder

/-- A level of the skip list: its node and the nodes of its queue. -/
structure Slot where
  node : Nat
  cells : List Nat

namespace SkipList

variable {tier high low current : Nat}

/-- The arena indices of the slots whose tower reaches `tier`. -/
def tierNodes (list : SkipList) (tier : Nat) (slots : List Slot) : List Nat :=
  (slots.map (·.node)).filter fun index => decide (tier ≤ (list.node index).level)

/-- The skip list holds exactly `slots`, in order.  The pool indices `leaked`
are allocated but belong to no queue. -/
structure Rep (list : SkipList) (slots : List Slot) (leaked : List Nat) :
    Prop where
  tiers : ∀ tier, Segment (list.next tier) (0 :: list.tierNodes tier slots) none
  queues : ∀ slot ∈ slots, (list.node slot.node).orders.Rep list.listPool slot.cells
  sorted : slots.Pairwise fun first second =>
    list.order.shouldInsert (list.price first.node) (list.price second.node) = true
  level_le : ∀ slot ∈ slots, (list.node slot.node).level ≤ list.level
  level_lt : list.level < maxLevel
  count_eq : list.count = slots.length
  arena : Partition list.freeNodes (0 :: slots.map (·.node)) list.arena.length
  pool : list.listPool.Owns (slots.flatMap (·.cells) ++ leaked)

variable {list : SkipList} {slots lower upper : List Slot} {leaked : List Nat}
  {price : Int}

@[simp] theorem tierNodes_nil (tier : Nat) : list.tierNodes tier [] = [] := rfl

theorem tierNodes_append (tier : Nat) (lower upper : List Slot) :
    list.tierNodes tier (lower ++ upper) =
      list.tierNodes tier lower ++ list.tierNodes tier upper := by
  simp [tierNodes]

theorem mem_tierNodes :
    index ∈ list.tierNodes tier slots ↔
      (∃ slot ∈ slots, slot.node = index) ∧ tier ≤ (list.node index).level := by
  simp [tierNodes]

/-- A tower that reaches a tier reaches the tiers below it. -/
theorem tierNodes_subset_of_le (le : low ≤ high) :
    list.tierNodes high slots ⊆ list.tierNodes low slots := by
  intro index mem
  rw [mem_tierNodes] at mem ⊢
  exact ⟨mem.1, le.trans mem.2⟩

theorem tierNodes_zero (slots : List Slot) : list.tierNodes 0 slots = slots.map (·.node) := by
  simp [tierNodes]

/-- A search stops exactly at the nodes that are not before the price. -/
theorem stops_eq (price : Int) (index : Nat) :
    list.stops price index = !list.order.shouldInsert (list.price index) price := by
  unfold stops
  rcases list.order.shouldInsert_total (list.price index) price with
    before | equal | after
  · have ne := list.order.ne_of_shouldInsert before
    simp [before, list.order.shouldInsert_asymm before, ne]
  · simp [equal]
  · simp [after, list.order.shouldInsert_asymm after]

/-- The slots before a price and the remaining ones. -/
structure Split (list : SkipList) (price : Int) (lower upper : List Slot) :
    Prop where
  before : ∀ slot ∈ lower, list.order.shouldInsert (list.price slot.node) price = true
  after : ∀ slot ∈ upper, list.order.shouldInsert (list.price slot.node) price = false

theorem Rep.exists_split (rep : list.Rep slots leaked) (price : Int) :
    ∃ lower upper, slots = lower ++ upper ∧ list.Split price lower upper := by
  have sorted := rep.sorted
  clear rep
  induction slots with
  | nil => exact ⟨[], [], rfl, ⟨by simp, by simp⟩⟩
  | cons slot rest ih =>
    obtain ⟨headBefore, restSorted⟩ := pairwise_cons.mp sorted
    cases position : list.order.shouldInsert (list.price slot.node) price with
    | true =>
      obtain ⟨lower, upper, rfl, split⟩ := ih restSorted
      refine ⟨slot :: lower, upper, rfl, ⟨?_, split.after⟩⟩
      intro other mem
      rcases mem_cons.mp mem with rfl | inLower
      · exact position
      · exact split.before other inLower
    | false =>
      refine ⟨[], slot :: rest, rfl, ⟨by simp, ?_⟩⟩
      intro other mem
      rcases mem_cons.mp mem with rfl | inRest
      · exact position
      · by_contra notFalse
        rw [Bool.not_eq_false] at notFalse
        rw [list.order.shouldInsert_trans (headBefore other inRest) notFalse] at position
        simp at position

theorem Rep.distinct (rep : list.Rep slots leaked) : (0 :: slots.map (·.node)).Nodup :=
  rep.arena.nodup_used

theorem Rep.length_lt (rep : list.Rep slots leaked) : slots.length < list.arena.length := by
  have lengths := rep.arena.length_add_length
  simp only [length_cons, length_map] at lengths
  omega

/-- The last node passed on a tier by a search that ends before `upper`. -/
def lastPassed (list : SkipList) (lower : List Slot) (tier : Nat) : Nat :=
  (0 :: list.tierNodes tier lower).getLast (by simp)

theorem lastPassed_mem (lower : List Slot) (tier : Nat) :
    list.lastPassed lower tier ∈ 0 :: list.tierNodes tier lower :=
  getLast_mem _

/-- The inner loop ends at the last node before the price, wherever on the
tier it starts. -/
theorem Rep.walk_eq (rep : list.Rep (lower ++ upper) leaked) (split : list.Split price lower upper)
    (start : current ∈ 0 :: list.tierNodes tier lower) :
    list.walk price tier current = list.lastPassed lower tier := by
  have segment := rep.tiers tier
  rw [tierNodes_append, ← cons_append] at segment
  obtain ⟨front, passed, splitting⟩ := append_of_mem start
  rw [splitting, append_assoc, segment_append] at segment
  have bound : passed.length ≤ list.arena.length := by
    have lengths := congrArg List.length splitting
    have towerBound : (list.tierNodes tier lower).length ≤ lower.length := by
      simpa [tierNodes] using
        length_filter_le (fun index => decide (tier ≤ (list.node index).level))
          (lower.map (·.node))
    have slotsBound := rep.length_lt
    simp only [length_cons, length_append] at lengths slotsBound
    omega
  have passedBefore : ∀ other ∈ passed, list.stops price other = false := by
    intro other mem
    have tailEq : list.tierNodes tier lower = (front ++ current :: passed).tail := by
      rw [← splitting, tail_cons]
    have inTier : other ∈ list.tierNodes tier lower := by
      rw [tailEq]
      cases front <;> simp [mem]
    obtain ⟨⟨slot, slotMember, rfl⟩, -⟩ := mem_tierNodes.mp inTier
    rw [stops_eq, split.before slot slotMember]
    rfl
  have stopsAfter : ∀ other ∈ (list.tierNodes tier upper).head?, list.stops price other = true := by
    intro other mem
    obtain ⟨⟨slot, slotMember, rfl⟩, -⟩ := mem_tierNodes.mp (mem_of_mem_head? mem)
    rw [stops_eq, split.after slot slotMember]
    rfl
  unfold walk
  rw [Path.walk_eq segment.2 passedBefore stopsAfter bound]
  simp only [lastPassed, splitting]
  rw [getLast_append_of_ne_nil]

/-- The successor of the last node passed is the first one kept back. -/
theorem Rep.next_lastPassed (rep : list.Rep (lower ++ upper) leaked) (tier : Nat) :
    list.next tier (list.lastPassed lower tier) = (list.tierNodes tier upper).head? := by
  have segment := rep.tiers tier
  rw [tierNodes_append, ← cons_append] at segment
  have splitting := dropLast_append_getLast (l := 0 :: list.tierNodes tier lower) (by simp)
  rw [← splitting, append_assoc] at segment
  simpa [lastPassed] using segment.next_eq

theorem lastPassed_mem_of_le (le : low ≤ high) :
    list.lastPassed lower high ∈ 0 :: list.tierNodes low lower := by
  rcases mem_cons.mp (list.lastPassed_mem lower high) with atHead | inTier
  · simp [atHead]
  · exact mem_cons_of_mem _ (tierNodes_subset_of_le le inTier)

/-- The first of the remaining slots, if it has the price looked for. -/
def headAt (list : SkipList) (price : Int) (upper : List Slot) : Option Nat :=
  match upper with
  | [] => none
  | slot :: _ => if list.price slot.node = price then some slot.node else none

/-- Only the first remaining slot can have the price. -/
theorem Rep.price_ne_of_mem_tail (rep : list.Rep (lower ++ slot :: rest) leaked)
    (split : list.Split price lower (slot :: rest)) (mem : other ∈ rest) :
    list.price other.node ≠ price := by
  intro equal
  have ordered := (pairwise_append.mp rep.sorted).2.1
  have before := (pairwise_cons.mp ordered).1 other mem
  rw [equal, split.after slot (by simp)] at before
  simp at before

section

variable (rep : list.Rep (lower ++ upper) leaked) (split : list.Split price lower upper)
include rep split

/-- What the outer loop of `find_update` collects. -/
theorem Rep.descend_eq (bound current : Nat)
    (start : current ∈ 0 :: list.tierNodes (bound - 1) lower) :
    (∀ tier, tier < bound →
      (list.descend price bound current).1.lookup tier = some (list.lastPassed lower tier)) ∧
    (∀ tier, bound ≤ tier → (list.descend price bound current).1.lookup tier = none) ∧
    (0 < bound → (list.descend price bound current).2 = list.lastPassed lower 0) := by
  induction bound generalizing current with
  | zero => simp [descend]
  | succ tier ih =>
    have reached := rep.walk_eq split (by simpa using start)
    have below := ih (list.lastPassed lower tier) (lastPassed_mem_of_le (Nat.sub_le tier 1))
    simp only [descend, reached, lookup_cons]
    refine ⟨?_, ?_, ?_⟩
    · intro other small
      by_cases same : other = tier
      · simp [same]
      · have smaller : other < tier := by omega
        simp [beq_eq_false_iff_ne.mpr same, below.1 other smaller]
    · intro other large
      have ne : other ≠ tier := by omega
      simp [beq_eq_false_iff_ne.mpr ne, below.2.1 other (by omega)]
    · intro _
      cases tier with
      | zero => simp [descend]
      | succ tier => exact below.2.2 (by omega)

/-- `find_update` returns the last node before the price on every tier. -/
theorem Rep.findUpdate_eq (tier : Nat) :
    (list.findUpdate price).1 tier = list.lastPassed lower tier := by
  have found := rep.descend_eq split (list.level + 1) 0 (by simp)
  simp only [findUpdate]
  by_cases small : tier < list.level + 1
  · simp [found.1 tier small]
  · have none := found.2.1 tier (by omega)
    have empty : list.tierNodes tier lower = [] := by
      rw [eq_nil_iff_forall_not_mem]
      intro index mem
      obtain ⟨⟨slot, slotMember, rfl⟩, reaches⟩ := mem_tierNodes.mp mem
      have bounded := rep.level_le slot (by simp [slotMember])
      omega
    simp [none, lastPassed, empty]

/-- `levelAt` finds the level of a price. -/
theorem Rep.levelAt_eq_headAt : list.levelAt price = list.headAt price upper := by
  have found := rep.descend_eq split (list.level + 1) 0 (by simp)
  unfold levelAt
  rw [found.2.2 (by omega), rep.next_lastPassed]
  cases upper <;> rfl

/-- `get_node_at_price` finds the level of a price. -/
theorem Rep.getNodeLoop_eq_headAt (start : current ∈ 0 :: list.tierNodes (bound - 1) lower)
    (positive : 0 < bound) : list.getNodeLoop price bound current = list.headAt price upper := by
  induction bound generalizing current with
  | zero => simp at positive
  | succ tier ih =>
    have reached := rep.walk_eq split (by simpa using start)
    have goOn : 0 < tier →
        list.getNodeLoop price tier (list.lastPassed lower tier) =
          list.headAt price upper := fun more =>
      ih (lastPassed_mem_of_le (Nat.sub_le tier 1)) more
    simp only [getNodeLoop, reached, rep.next_lastPassed]
    cases upper with
    | nil =>
      cases tier with
      | zero => simp [getNodeLoop, headAt]
      | succ tier => simpa using goOn (by omega)
    | cons slot rest =>
      by_cases reaches : tier ≤ (list.node slot.node).level
      · have first : list.tierNodes tier (slot :: rest) =
            slot.node :: list.tierNodes tier rest := by
          simp [tierNodes, reaches]
        simp only [first, List.head?_cons]
        by_cases hit : list.price slot.node = price
        · simp [headAt, hit]
        · simp only [hit]
          cases tier with
          | zero => simp [getNodeLoop, headAt, hit]
          | succ tier => exact goOn (by omega)
      · have more : 0 < tier := by omega
        have skipped : list.tierNodes tier (slot :: rest) = list.tierNodes tier rest := by
          simp [tierNodes, reaches]
        rw [skipped]
        cases ahead : (list.tierNodes tier rest).head? with
        | none => exact goOn more
        | some following =>
          obtain ⟨⟨other, otherMember, rfl⟩, -⟩ := mem_tierNodes.mp (mem_of_mem_head? ahead)
          have ne := rep.price_ne_of_mem_tail split otherMember
          simpa [ne] using goOn more

theorem Rep.getNodeAtPrice_eq_headAt : list.getNodeAtPrice price = list.headAt price upper :=
  rep.getNodeLoop_eq_headAt split (by simp) (by omega)

end

theorem Rep.best_eq (rep : list.Rep slots leaked) : list.best = (slots.map (·.node)).head? := by
  have segment := rep.tiers 0
  rw [tierNodes_zero] at segment
  simpa [best] using segment.1

/-- The loop of `best_with_orders` skips the empty queues. -/
theorem Rep.bestWithOrders_eq (rep : list.Rep slots leaked) :
    list.bestWithOrders = (slots.find? fun slot => !slot.cells.isEmpty).map (·.node) := by
  have segment := rep.tiers 0
  rw [tierNodes_zero] at segment
  have loop : ∀ (rest : List Slot) (current fuel : Nat),
      Segment (list.next 0) (current :: rest.map (·.node)) none →
      (∀ slot ∈ rest, (list.node slot.node).orders.Rep list.listPool slot.cells) →
      rest.length < fuel →
      list.bestWithOrdersLoop fuel current =
        (rest.find? fun slot => !slot.cells.isEmpty).map (·.node) := by
    intro rest
    induction rest with
    | nil =>
      intro current fuel linked _ enough
      cases fuel with
      | zero => simp at enough
      | succ fuel =>
        have atEnd : list.next 0 current = none := by simpa using linked.1
        simp [bestWithOrdersLoop, atEnd]
    | cons slot rest ih =>
      intro current fuel linked queues enough
      cases fuel with
      | zero => simp at enough
      | succ fuel =>
        have ahead : list.next 0 current = some slot.node := by simpa using linked.1
        have emptyIff := (queues slot (by simp)).isEmpty_iff
        have tail := ih slot.node fuel linked.2
          (fun other mem => queues other (by simp [mem])) (by simpa using enough)
        simp only [bestWithOrdersLoop, ahead]
        by_cases empty : slot.cells = []
        · simp [empty, emptyIff.mpr empty, tail]
        · have notEmpty : (list.node slot.node).orders.isEmpty = false := by
            rw [Bool.eq_false_iff]
            exact fun isEmpty => empty (emptyIff.mp isEmpty)
          simp [isEmpty_eq_false_iff.mpr empty, notEmpty]
  have bounded := rep.length_lt
  exact loop slots 0 _ segment rep.queues (by omega)

end SkipList
end LightningX.Matching
