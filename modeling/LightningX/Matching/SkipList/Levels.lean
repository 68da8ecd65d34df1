import LightningX.Matching.SkipList.Search

/-!
# Inserting and removing price levels

`insert_level` splices a new node into every tier its tower reaches and
`remove_level` unlinks one.  Both loops write one tier per step and only
forward pointers, so each is described by the successor function it leaves
behind; the splicing and unlinking themselves are the segment lemmas.
-/

namespace LightningX.Matching

open List
open LightningX.Path

variable {tier : Nat}

namespace SkipListNode

/-- The two nodes differ at most in their forward pointers. -/
structure SameFields (node node' : SkipListNode) : Prop where
  priceTicks : node'.priceTicks = node.priceTicks
  totalQuantityLots : node'.totalQuantityLots = node.totalQuantityLots
  orders : node'.orders = node.orders
  level : node'.level = node.level

theorem SameFields.refl (node : SkipListNode) : SameFields node node :=
  ⟨rfl, rfl, rfl, rfl⟩

theorem SameFields.trans (early : SameFields first second) (late : SameFields second third) :
    SameFields first third :=
  ⟨late.1.trans early.1, late.2.trans early.2, late.3.trans early.3, late.4.trans early.4⟩

theorem sameFields_setNext (node : SkipListNode) (tier : Nat) (link : Option Nat) :
    SameFields node (node.setNext tier link) :=
  ⟨rfl, rfl, rfl, rfl⟩

theorem next_setNext_self (node : SkipListNode) (link : Option Nat) (bound : tier < maxLevel) :
    (node.setNext tier link).next tier = link := by
  simp [next, setNext, bound]

theorem next_setNext_ne (node : SkipListNode) (link : Option Nat) (ne : other ≠ tier) :
    (node.setNext tier link).next other = node.next other := by
  simp [next, setNext, Vector.getElem?_setIfInBounds_ne ne.symm]

@[simp] theorem next_new (price : Int) (level tier : Nat) : (new price level).next tier = none := by
  simp only [next, new]
  cases found : (Vector.replicate maxLevel (none : Option Nat))[tier]? with
  | none => rfl
  | some link =>
    have mem := Vector.getElem?_eq_some_iff.mp found
    obtain ⟨bound, rfl⟩ := mem
    simp

end SkipListNode

open SkipListNode

namespace SkipList

variable {list list' : SkipList} {slots lower upper : List Slot} {leaked : List Nat} {price : Int}
  {index other : Nat} (change : SkipListNode → SkipListNode)

theorem node_modifyNode_self (bound : index < list.arena.length) :
    (list.modifyNode index change).node index = change (list.node index) := by
  simp [node, modifyNode, bound]

theorem node_modifyNode_ne (ne : other ≠ index) :
    (list.modifyNode index change).node other = list.node other := by
  simp [node, modifyNode, ne.symm]

@[simp] theorem length_modifyNode :
    (list.modifyNode index change).arena.length = list.arena.length := by
  simp [modifyNode]

/-- `list'` differs from `list` at most in forward pointers. -/
structure LinksOnly (list list' : SkipList) : Prop where
  fields : ∀ index, SameFields (list.node index) (list'.node index)
  length : list'.arena.length = list.arena.length
  level : list'.level = list.level
  count : list'.count = list.count
  order : list'.order = list.order
  listPool : list'.listPool = list.listPool
  freeNodes : list'.freeNodes = list.freeNodes
  bestPrice : list'.bestPrice = list.bestPrice

namespace LinksOnly

theorem refl (list : SkipList) : LinksOnly list list :=
  ⟨fun _ => SameFields.refl _, rfl, rfl, rfl, rfl, rfl, rfl, rfl⟩

theorem trans (early : LinksOnly first second) (late : LinksOnly second third) :
    LinksOnly first third :=
  ⟨fun index => (early.fields index).trans (late.fields index),
    late.length.trans early.length, late.level.trans early.level,
    late.count.trans early.count, late.order.trans early.order,
    late.listPool.trans early.listPool, late.freeNodes.trans early.freeNodes,
    late.bestPrice.trans early.bestPrice⟩

theorem modifyNode (list : SkipList) (index tier : Nat) (link : Option Nat) :
    LinksOnly list (list.modifyNode index fun node => node.setNext tier link) := by
  refine ⟨fun other => ?_, by simp, rfl, rfl, rfl, rfl, rfl, rfl⟩
  by_cases same : other = index
  · subst same
    by_cases bound : other < list.arena.length
    · rw [node_modifyNode_self _ bound]
      exact sameFields_setNext _ _ _
    · have absent : list.arena[other]? = none := List.getElem?_eq_none (Nat.le_of_not_gt bound)
      simp [SkipList.node, SkipList.modifyNode, absent, SameFields.refl]
  · rw [node_modifyNode_ne _ same]
    exact SameFields.refl _

end LinksOnly

/-- One pointer write, seen through the successor function. -/
theorem next_modifyNode
    (bound : index < list.arena.length) (tierBound : tier < maxLevel) (tier' cell : Nat) :
    (list.modifyNode index fun node => node.setNext tier link).next tier' cell =
      if tier' = tier ∧ cell = index then link else list.next tier' cell := by
  by_cases sameCell : cell = index
  · subst sameCell
    rw [next, node_modifyNode_self _ bound]
    by_cases sameTier : tier' = tier
    · subst sameTier
      simp [next_setNext_self _ _ tierBound]
    · simp [next_setNext_ne _ _ sameTier, sameTier, next]
  · rw [next, node_modifyNode_ne _ sameCell]
    simp [sameCell, next]

/-- A loop that changes the pointers of every tier it visits, and of each tier once. -/
theorem foldl_tiers
    (links : ∀ list tier, LinksOnly list (step list tier))
    {change : Nat → Nat → Option Nat}
    {tiers : List Nat} (distinct : tiers.Nodup)
    (changes : ∀ tier ∈ tiers, ∀ list' : SkipList, list'.arena.length = list.arena.length →
      list'.next tier = list.next tier → ∀ tier' cell, (step list' tier).next tier' cell =
        if tier' = tier then change tier cell else list'.next tier' cell) :
    LinksOnly list (tiers.foldl step list) ∧
      ∀ tier cell, (tiers.foldl step list).next tier cell =
        if tier ∈ tiers then change tier cell else list.next tier cell := by
  induction tiers generalizing list with
  | nil => exact ⟨LinksOnly.refl _, by simp⟩
  | cons first rest ih =>
    obtain ⟨firstFresh, restDistinct⟩ := nodup_cons.mp distinct
    have stepNext := changes first mem_cons_self list rfl rfl
    obtain ⟨restLinks, nexts⟩ := @ih (step list first) restDistinct
      fun tier mem list' length same => by
        refine changes tier (mem_cons_of_mem _ mem) list'
          (length.trans (links list first).length) ?_
        have ne : tier ≠ first := fun equal => firstFresh (equal ▸ mem)
        rw [same]
        funext cell
        rw [stepNext, if_neg ne]
    refine ⟨(links list first).trans restLinks, fun tier cell => ?_⟩
    rw [foldl_cons, nexts, stepNext]
    by_cases same : tier = first
    · subst same
      simp
    · simp [same]

/-- The loop of `insert_level` splices `index` in after the update node of
every tier it visits. -/
theorem foldl_spliceTier (list : SkipList) (update : Nat → Nat) (index : Nat) (tiers : List Nat)
    (distinct : tiers.Nodup) (tierBounds : ∀ tier ∈ tiers, tier < maxLevel)
    (updateBounds : ∀ tier, update tier < list.arena.length)
    (indexBound : index < list.arena.length) :
    LinksOnly list (tiers.foldl (spliceTier update index) list) ∧
      ∀ tier cell, (tiers.foldl (spliceTier update index) list).next tier cell =
        if tier ∈ tiers then
          if cell = update tier then some index
          else if cell = index then list.next tier (update tier)
          else list.next tier cell
        else list.next tier cell := by
  refine foldl_tiers (fun _ _ => (LinksOnly.modifyNode _ _ _ _).trans
    (LinksOnly.modifyNode _ _ _ _)) distinct fun tier mem list' length same tier' cell => ?_
  have bound := tierBounds tier mem
  rw [next_modifyNode (by simpa [length] using updateBounds tier) bound,
    next_modifyNode (by rwa [length]) bound]
  by_cases isTier : tier' = tier
  · subst isTier
    simp [same]
  · simp [isTier]

/-- The loop of `remove_level` lets the update node of every tier it visits
skip the target, where it points to it. -/
theorem foldl_unlinkTier (list : SkipList) (update : Nat → Nat) (target : Nat) (tiers : List Nat)
    (distinct : tiers.Nodup) (tierBounds : ∀ tier ∈ tiers, tier < maxLevel)
    (updateBounds : ∀ tier, update tier < list.arena.length)
    (points : ∀ tier ∈ tiers, list.next tier (update tier) = some target) :
    LinksOnly list (tiers.foldl (unlinkTier update target) list) ∧
      ∀ tier cell, (tiers.foldl (unlinkTier update target) list).next tier cell =
        if tier ∈ tiers then
          if cell = update tier then list.next tier target else list.next tier cell
        else list.next tier cell := by
  refine foldl_tiers (fun list tier => ?_) distinct fun tier mem list' length same tier' cell => ?_
  · unfold unlinkTier
    split
    · exact LinksOnly.modifyNode _ _ _ _
    · exact LinksOnly.refl _
  · unfold unlinkTier
    rw [same, if_pos (points tier mem),
      next_modifyNode (by simpa [length] using updateBounds tier) (tierBounds tier mem)]
    by_cases isTier : tier' = tier
    · subst isTier
      simp [same]
    · simp [isTier]

/-- A tower is never taller than the promotions granted. -/
theorem promotions_le (budget : Nat) (bits : UInt64) : promotions budget bits ≤ budget := by
  induction budget generalizing bits with
  | zero => simp [promotions]
  | succ budget ih =>
    unfold promotions
    split
    · exact Nat.succ_le_succ (ih _)
    · omega

theorem randomLevel_lt (list : SkipList) : list.randomLevel.2 < maxLevel := by
  have bounded := promotions_le (maxLevel - 1)
  exact Nat.lt_of_le_of_lt (bounded _) (by decide)

/-- `takeNode` places the fresh node at an index that was not in use. -/
theorem takeNode_spec (fresh : SkipListNode)
    (arena : Partition list.freeNodes nodes list.arena.length) : let taken := list.takeNode fresh
    Partition taken.1.freeNodes (taken.2 :: nodes) taken.1.arena.length ∧
      taken.2 ∉ nodes ∧ taken.2 < taken.1.arena.length ∧
      taken.1.node taken.2 = fresh ∧
      (∀ cell ∈ nodes, taken.1.node cell = list.node cell) ∧
      taken.1.level = list.level ∧ taken.1.count = list.count ∧
      taken.1.order = list.order ∧ taken.1.listPool = list.listPool ∧
      taken.1.bestPrice = list.bestPrice := by
  unfold takeNode
  split
  next top rest freeEq =>
    rw [freeEq] at arena
    have bound := arena.lt_of_mem_free (mem_cons_self (a := top))
    have notUsed := arena.not_mem_used (mem_cons_self (a := top))
    refine ⟨?_, notUsed, by simpa using bound, ?_, ?_, rfl, rfl, rfl, rfl, rfl⟩
    · simpa using arena.acquire
    · simp [node, bound]
    · intro cell mem
      have ne : top ≠ cell := fun equal => notUsed (equal ▸ mem)
      simp [node, ne]
  next freeEq =>
    refine ⟨?_, ?_, by simp, ?_, ?_, rfl, rfl, rfl, rfl, rfl⟩
    · simpa using arena.grow
    · intro mem
      exact absurd (arena.lt_of_mem_used mem) (by omega)
    · simp [node]
    · intro cell mem
      have bound := arena.lt_of_mem_used mem
      simp [node, List.getElem?_append, bound]

theorem mem_nodes_of_mem_tier {tier cell : Nat} (mem : cell ∈ 0 :: list.tierNodes tier slots) :
    cell ∈ 0 :: slots.map (·.node) := by
  rcases mem_cons.mp mem with rfl | inTier
  · simp
  · obtain ⟨⟨slot, slotMember, rfl⟩, -⟩ := mem_tierNodes.mp inTier
    exact mem_cons_of_mem _ (mem_map_of_mem slotMember)

theorem lastPassed_mem_nodes (tier : Nat) :
    list.lastPassed lower tier ∈ 0 :: (lower ++ upper).map (·.node) := by
  apply @mem_nodes_of_mem_tier list _ tier
  rw [tierNodes_append]
  exact mem_append_left _ (list.lastPassed_mem lower tier)

/-- A node on a tier that is split after the last node passed. -/
theorem mem_nodes_of_mem_split
    (split : 0 :: list.tierNodes tier lower = front ++ [list.lastPassed lower tier])
    (mem : cell ∈ front ++ list.lastPassed lower tier :: list.tierNodes tier upper) :
    cell ∈ 0 :: (lower ++ upper).map (·.node) := by
  apply @mem_nodes_of_mem_tier list _ tier
  rw [tierNodes_append, ← cons_append, split]
  simpa using mem

/-- The nodes of a tier are distinct. -/
theorem Rep.tier_nodup (rep : list.Rep slots leaked) (tier : Nat) :
    (0 :: list.tierNodes tier slots).Nodup := by
  have distinct := rep.distinct
  rw [nodup_cons] at distinct ⊢
  refine ⟨fun mem => ?_, distinct.2.filter _⟩
  obtain ⟨⟨slot, slotMember, isHead⟩, -⟩ := mem_tierNodes.mp mem
  exact distinct.1 (mem_map.mpr ⟨slot, slotMember, isHead⟩)

/-- A tier seen from the last node passed. -/
theorem Rep.tier_split (rep : list.Rep (lower ++ upper) leaked) (tier : Nat) :
    ∃ front, 0 :: list.tierNodes tier lower = front ++ [list.lastPassed lower tier] ∧
      Segment (list.next tier)
        (front ++ list.lastPassed lower tier :: list.tierNodes tier upper) none ∧
      (front ++ list.lastPassed lower tier :: list.tierNodes tier upper).Nodup := by
  have splitting := dropLast_append_getLast (l := 0 :: list.tierNodes tier lower) (by simp)
  have segment := rep.tiers tier
  have distinct := rep.tier_nodup tier
  rw [tierNodes_append, ← cons_append, ← splitting, append_assoc] at segment distinct
  exact ⟨_, splitting.symm, segment, distinct⟩

/-- No remaining slot has the price when the first one has not. -/
theorem Rep.price_before_upper (rep : list.Rep (lower ++ upper) leaked)
    (split : list.Split price lower upper) (absent : list.headAt price upper = none) :
    ∀ slot ∈ upper, list.order.shouldInsert price (list.price slot.node) = true := by
  intro slot mem
  have ne : list.price slot.node ≠ price := by
    cases upper with
    | nil => simp at mem
    | cons first rest =>
      rcases mem_cons.mp mem with rfl | inRest
      · intro equal
        simp [headAt, equal] at absent
      · exact rep.price_ne_of_mem_tail split inRest
  rcases list.order.shouldInsert_total (list.price slot.node) price with
    before | equal | after
  · rw [split.after slot mem] at before
    simp at before
  · exact absurd equal ne
  · exact after

theorem tierNodes_of_sameFields {cells : List Nat}
    (fields : ∀ cell ∈ 0 :: cells, SameFields (list.node cell) (list'.node cell)) (tier : Nat)
    (within : slots.map (·.node) ⊆ cells) :
    list'.tierNodes tier slots = list.tierNodes tier slots := by
  apply filter_congr
  intro cell mem
  rw [(fields cell (mem_cons_of_mem _ (within mem))).level]

/-- The shape of the list after a node has been spliced in between `lower` and
`upper` on the tiers up to `newLevel`. -/
structure Spliced (list list' : SkipList) (lower upper : List Slot)
    (price : Int) (index newLevel : Nat) : Prop where
  fields : ∀ cell ∈ 0 :: (lower ++ upper).map (·.node),
    SameFields (list.node cell) (list'.node cell)
  next_old : ∀ tier, ∀ cell ∈ 0 :: (lower ++ upper).map (·.node),
    list'.next tier cell =
      if tier ≤ newLevel ∧ cell = list.lastPassed lower tier then some index
      else list.next tier cell
  next_new : ∀ tier ≤ newLevel, list'.next tier index = list.next tier (list.lastPassed lower tier)
  node_price : list'.price index = price
  node_level : (list'.node index).level = newLevel
  node_orders : (list'.node index).orders = PooledList.new
  newLevel_lt : newLevel < maxLevel
  level : list'.level = max list.level newLevel
  count : list'.count = list.count + 1
  order : list'.order = list.order
  listPool : list'.listPool = list.listPool
  arena : Partition list'.freeNodes (index :: 0 :: (lower ++ upper).map (·.node)) list'.arena.length

namespace Spliced

theorem tiers (spliced : Spliced list list' lower upper price index newLevel)
    (rep : list.Rep (lower ++ upper) leaked) (tier : Nat) :
    Segment (list'.next tier) (0 :: list'.tierNodes tier (lower ++ ⟨index, []⟩ :: upper)) none := by
  obtain ⟨front, lowerEq, segment, distinct⟩ := rep.tier_split tier
  have known : ∀ cell ∈ front ++ list.lastPassed lower tier ::
      list.tierNodes tier upper, cell ∈ 0 :: (lower ++ upper).map (·.node) :=
    fun cell mem => mem_nodes_of_mem_split lowerEq mem
  have apart : ∀ cell ∈ front ++ list.tierNodes tier upper, cell ≠ list.lastPassed lower tier := by
    rintro cell mem rfl
    exact (nodup_cons.mp (perm_middle.nodup_iff.mp distinct)).1 mem
  have lowerSame := @tierNodes_of_sameFields _ _ lower _ spliced.fields tier (by simp)
  have upperSame := @tierNodes_of_sameFields _ _ upper _ spliced.fields tier (by simp)
  rw [tierNodes_append, lowerSame, ← cons_append, lowerEq]
  by_cases reaches : tier ≤ newLevel
  · have newTier : list'.tierNodes tier (⟨index, []⟩ :: upper) =
        index :: list.tierNodes tier upper := by
      rw [← upperSame]
      simp [tierNodes, spliced.node_level, reaches]
    rw [newTier, append_assoc]
    refine segment.splice ?_ ?_ ?_
    · intro cell mem
      have old : cell ∈ front ++ list.lastPassed lower tier :: list.tierNodes tier upper := by
        rcases mem_append.mp mem with inFront | inUpper
        · simp [inFront]
        · simp [inUpper]
      rw [spliced.next_old tier cell (known cell old)]
      simp [apart cell mem]
    · rw [spliced.next_old tier _ (known _ (by simp))]
      simp [reaches]
    · exact spliced.next_new tier reaches
  · have newTier : list'.tierNodes tier (⟨index, []⟩ :: upper) = list.tierNodes tier upper := by
      rw [← upperSame]
      simp [tierNodes, spliced.node_level, reaches]
    rw [newTier, append_assoc]
    refine segment.congr fun cell mem => ?_
    rw [spliced.next_old tier cell (known cell mem)]
    simp [reaches]

/-- The new list represents the old slots with the new one in between. -/
theorem rep (spliced : Spliced list list' lower upper price index newLevel)
    (rep : list.Rep (lower ++ upper) leaked) (split : list.Split price lower upper)
    (absent : list.headAt price upper = none) :
    list'.Rep (lower ++ ⟨index, []⟩ :: upper) leaked := by
  have fields : ∀ slot ∈ lower ++ upper, SameFields (list.node slot.node) (list'.node slot.node) :=
    fun slot mem => spliced.fields slot.node
      (mem_cons_of_mem _ (mem_map_of_mem mem))
  have prices : ∀ slot ∈ lower ++ upper, list'.price slot.node = list.price slot.node :=
    fun slot mem => (fields slot mem).priceTicks
  have cases : ∀ slot ∈ lower ++ ⟨index, []⟩ :: upper,
      slot = ⟨index, []⟩ ∨ slot ∈ lower ++ upper := by
    intro slot mem
    simp only [mem_append, mem_cons] at mem ⊢
    tauto
  refine
    { tiers := spliced.tiers rep
      queues := ?_, sorted := ?_, level_le := ?_, level_lt := ?_
      count_eq := ?_, arena := ?_, pool := ?_ }
  · intro slot mem
    rcases cases slot mem with rfl | old
    · rw [spliced.node_orders]
      exact PooledList.rep_new _
    · rw [(fields slot old).orders, spliced.listPool]
      exact rep.queues slot old
  · obtain ⟨lowerSorted, upperSorted, across⟩ := pairwise_append.mp rep.sorted
    have later := rep.price_before_upper split absent
    rw [spliced.order]
    refine pairwise_append.mpr ⟨?_, pairwise_cons.mpr ⟨?_, ?_⟩, ?_⟩
    · refine lowerSorted.imp_of_mem fun firstMember secondMember ordered => ?_
      rw [prices _ (by simp [firstMember]), prices _ (by simp [secondMember])]
      exact ordered
    · intro slot mem
      rw [prices slot (by simp [mem]), spliced.node_price]
      exact later slot mem
    · refine upperSorted.imp_of_mem fun firstMember secondMember ordered => ?_
      rw [prices _ (by simp [firstMember]), prices _ (by simp [secondMember])]
      exact ordered
    · intro first firstMember second secondMember
      rw [prices first (by simp [firstMember])]
      rcases mem_cons.mp secondMember with rfl | inUpper
      · rw [spliced.node_price]
        exact split.before first firstMember
      · rw [prices second (by simp [inUpper])]
        exact across first firstMember second inUpper
  · intro slot mem
    rw [spliced.level]
    rcases cases slot mem with rfl | old
    · rw [spliced.node_level]
      exact le_max_right _ _
    · rw [(fields slot old).level]
      exact (rep.level_le slot old).trans (le_max_left _ _)
  · rw [spliced.level]
    exact max_lt rep.level_lt spliced.newLevel_lt
  · rw [spliced.count, rep.count_eq]
    simp only [length_append, length_cons]
    omega
  · refine spliced.arena.perm_used ?_
    simp only [map_append]
    exact (perm_middle.cons 0).trans (List.Perm.swap _ _ _)
  · rw [spliced.listPool]
    have pool := rep.pool
    simpa using pool

end Spliced

/-- The list with a node for a new level that no tier links yet. -/
structure Extended (list list' : SkipList) (nodes : List Nat) (price : Int)
    (index newLevel : Nat) : Prop where
  old : ∀ cell ∈ nodes, list'.node cell = list.node cell
  new : list'.node index = SkipListNode.new price newLevel
  fresh : index ∉ nodes
  bound : index < list'.arena.length
  level : list'.level = max list.level newLevel
  count : list'.count = list.count
  order : list'.order = list.order
  listPool : list'.listPool = list.listPool
  bestPrice : list'.bestPrice = list.bestPrice
  arena : Partition list'.freeNodes (index :: nodes) list'.arena.length

/-- A node is taken and the level is raised. -/
theorem extended_takeNode
    (takeEq : list.takeNode (SkipListNode.new price newLevel) = (taken, index))
    (arena : Partition list.freeNodes nodes list.arena.length) :
    Extended list (if newLevel > taken.level then { taken with level := newLevel } else taken)
      nodes price index newLevel := by
  have spec := takeNode_spec (SkipListNode.new price newLevel) arena
  simp only [takeEq] at spec
  obtain ⟨arena, fresh, bound, new, old, level, count, order, listPool, bestPrice⟩ := spec
  have lifted : (if newLevel > taken.level then { taken with level := newLevel } else taken) =
      { taken with level := max list.level newLevel } := by
    split
    next higher => rw [max_eq_right (by omega)]
    next lower => rw [max_eq_left (by omega), ← level]
  rw [lifted]
  exact ⟨old, new, fresh, bound, rfl, count, order, listPool, bestPrice, arena⟩

section

variable {extension : SkipList} (extended : Extended list extension
  (0 :: (lower ++ upper).map (·.node)) price index newLevel) (small : newLevel < maxLevel)
include extended small

/-- The new node follows the last node passed on each of its tiers. -/
theorem Extended.foldl_spliceTier :
    let final := (List.range (newLevel + 1)).foldl (spliceTier (list.lastPassed lower) index)
      extension
    LinksOnly extension final ∧
      (∀ tier, ∀ cell ∈ 0 :: (lower ++ upper).map (·.node), final.next tier cell =
        if tier ≤ newLevel ∧ cell = list.lastPassed lower tier then some index
        else list.next tier cell) ∧
      ∀ tier ≤ newLevel, final.next tier index = list.next tier (list.lastPassed lower tier) := by
  have lastKnown := @lastPassed_mem_nodes list lower upper
  have same : ∀ tier, ∀ cell ∈ 0 :: (lower ++ upper).map (·.node),
      extension.next tier cell = list.next tier cell := by
    intro tier cell mem
    rw [next, extended.old cell mem, next]
  obtain ⟨links, nexts⟩ := SkipList.foldl_spliceTier extension (list.lastPassed lower) index
    (List.range (newLevel + 1)) nodup_range
    (fun tier mem => by
      have reaches := mem_range.mp mem
      omega)
    (fun tier => extended.arena.lt_of_mem_used (mem_cons_of_mem _ (lastKnown tier)))
    extended.bound
  simp only [mem_range, Nat.lt_succ_iff] at nexts
  refine ⟨links, fun tier cell mem => ?_, fun tier reaches => ?_⟩
  · have ne : cell ≠ index := fun equal => extended.fresh (equal ▸ mem)
    rw [nexts, if_neg ne, same tier cell mem, ← ite_and]
  · have ne : index ≠ list.lastPassed lower tier :=
      fun equal => extended.fresh (equal ▸ lastKnown tier)
    rw [nexts, if_pos reaches, if_neg ne, if_pos rfl, same tier _ (lastKnown tier)]

theorem Extended.spliced :
    let final := (List.range (newLevel + 1)).foldl (spliceTier (list.lastPassed lower) index)
      extension
    Spliced list { final with count := final.count + 1 } lower upper price index newLevel ∧
      (final.node index).totalQuantityLots = 0 ∧ final.bestPrice = list.bestPrice := by
  obtain ⟨links, nextOld, nextNew⟩ := extended.foldl_spliceTier small
  have newFields := links.fields index
  rw [extended.new] at newFields
  refine ⟨?_, newFields.totalQuantityLots, links.bestPrice.trans extended.bestPrice⟩
  exact
    { fields := fun cell mem => extended.old cell mem ▸ links.fields cell
      next_old := nextOld
      next_new := nextNew
      node_price := newFields.priceTicks
      node_level := newFields.level
      node_orders := newFields.orders
      newLevel_lt := small
      level := links.level.trans extended.level
      count := congrArg (· + 1) (links.count.trans extended.count)
      order := links.order.trans extended.order
      listPool := links.listPool.trans extended.listPool
      arena := by
        have arena := extended.arena
        rw [← links.freeNodes, ← links.length] at arena
        exact arena }

end

/-- Drawing a level only changes the generator. -/
theorem exists_randomLevel (list : SkipList) : ∃ rngState newLevel,
    list.randomLevel = ({ list with rngState := rngState }, newLevel) ∧ newLevel < maxLevel :=
  ⟨_, _, rfl, list.randomLevel_lt⟩

/-- The update nodes are the last ones passed, whatever the state of the generator. -/
theorem Rep.findUpdate_rngState (rep : list.Rep (lower ++ upper) leaked)
    (split : list.Split price lower upper) (rngState : UInt64) :
    (findUpdate { list with rngState := rngState } price).1 = list.lastPassed lower := by
  have drawnRep : Rep { list with rngState := rngState } (lower ++ upper) leaked :=
    ⟨rep.tiers, rep.queues, rep.sorted, rep.level_le, rep.level_lt, rep.count_eq, rep.arena,
      rep.pool⟩
  funext tier
  rw [drawnRep.findUpdate_eq ⟨split.before, split.after⟩]
  rfl

/-- Inserting a price that has no level adds an empty level in its place. -/
theorem Rep.insertLevel (rep : list.Rep (lower ++ upper) leaked)
    (split : list.Split price lower upper) (absent : list.headAt price upper = none) :
    ∃ list' index newLevel, list.insertLevel price = (list', .ok ()) ∧
      Spliced list list' lower upper price index newLevel ∧
      (list'.node index).totalQuantityLots = 0 ∧ list'.bestPrice = list.bestPrice := by
  have missing : (list.getNodeAtPrice price).isSome = false := by
    rw [rep.getNodeAtPrice_eq_headAt split, absent]
    rfl
  obtain ⟨rngState, newLevel, drawEq, small⟩ := list.exists_randomLevel
  obtain ⟨taken, index, takeEq⟩ : ∃ taken index,
      takeNode { list with rngState := rngState } (SkipListNode.new price newLevel) =
        (taken, index) :=
    ⟨_, _, rfl⟩
  have drawn := extended_takeNode takeEq rep.arena
  have extended : Extended list (if newLevel > taken.level then
      { taken with level := newLevel } else taken)
      (0 :: (lower ++ upper).map (·.node)) price index newLevel :=
    ⟨drawn.old, drawn.new, drawn.fresh, drawn.bound, drawn.level, drawn.count, drawn.order,
      drawn.listPool, drawn.bestPrice, drawn.arena⟩
  obtain ⟨spliced, nothing, best⟩ := extended.spliced small
  refine ⟨_, index, newLevel, ?_, spliced, nothing, best⟩
  simp only [SkipList.insertLevel, missing, Bool.false_eq_true, if_false, drawEq, takeEq,
    rep.findUpdate_rngState split]

/-- The shape of the list after the node of `slot` has been unlinked. -/
structure Unlinked (list list' : SkipList) (lower : List Slot) (slot : Slot)
    (rest : List Slot) : Prop where
  fields : ∀ cell ∈ 0 :: (lower ++ rest).map (·.node), SameFields (list.node cell) (list'.node cell)
  next : ∀ tier, ∀ cell ∈ 0 :: (lower ++ rest).map (·.node),
    list'.next tier cell =
      if tier ≤ (list.node slot.node).level ∧
          cell = list.lastPassed lower tier then list.next tier slot.node
      else list.next tier cell
  level_le : list'.level ≤ list.level
  level_above : ∀ tier, list'.level < tier → tier ≤ list.level → list'.next tier 0 = none
  count : list'.count = list.count - 1
  order : list'.order = list.order
  listPool : list'.listPool = list.listPool
  bestPrice : list'.bestPrice = list.bestPrice
  freeNodes : list'.freeNodes = slot.node :: list.freeNodes
  length : list'.arena.length = list.arena.length

namespace Unlinked

variable {slot : Slot}

theorem tiers (unlinked : Unlinked list list' lower slot rest)
    (rep : list.Rep (lower ++ slot :: rest) leaked) (tier : Nat) :
    Segment (list'.next tier) (0 :: list'.tierNodes tier (lower ++ rest)) none := by
  obtain ⟨front, lowerEq, segment, distinct⟩ := rep.tier_split tier
  rw [tierNodes_of_sameFields unlinked.fields tier (List.Subset.refl _), tierNodes_append,
    ← cons_append, lowerEq, append_assoc]
  have known : ∀ cell ∈ front ++ list.lastPassed lower tier ::
      list.tierNodes tier rest, cell ∈ 0 :: (lower ++ rest).map (·.node) :=
    fun cell mem => mem_nodes_of_mem_split lowerEq mem
  by_cases reaches : tier ≤ (list.node slot.node).level
  · have oldTier : list.tierNodes tier (slot :: rest) = slot.node :: list.tierNodes tier rest := by
      simp [tierNodes, reaches]
    rw [oldTier] at segment distinct
    have apart : ∀ cell ∈ front ++ list.tierNodes tier rest, cell ≠ list.lastPassed lower tier := by
      rintro cell mem rfl
      have first := (nodup_cons.mp (perm_middle.nodup_iff.mp distinct)).1
      apply first
      rcases mem_append.mp mem with inFront | inRest
      · simp [inFront]
      · simp [inRest]
    refine segment.unlink ?_ ?_
    · intro cell mem
      have old : cell ∈ front ++ list.lastPassed lower tier :: list.tierNodes tier rest := by
        rcases mem_append.mp mem with inFront | inRest
        · simp [inFront]
        · simp [inRest]
      rw [unlinked.next tier cell (known cell old)]
      simp [apart cell mem]
    · rw [unlinked.next tier _ (known _ (by simp))]
      simp [reaches]
  · have oldTier : list.tierNodes tier (slot :: rest) = list.tierNodes tier rest := by
      simp [tierNodes, reaches]
    rw [oldTier] at segment
    refine segment.congr fun cell mem => ?_
    rw [unlinked.next tier cell (known cell (by simpa using mem))]
    simp [reaches]

/-- The new list represents the remaining slots; the queue of the removed one
has leaked. -/
theorem rep (unlinked : Unlinked list list' lower slot rest)
    (rep : list.Rep (lower ++ slot :: rest) leaked) :
    list'.Rep (lower ++ rest) (slot.cells ++ leaked) := by
  have within : ∀ other ∈ lower ++ rest, other ∈ lower ++ slot :: rest := by
    intro other mem
    rcases mem_append.mp mem with inLower | inRest
    · simp [inLower]
    · simp [inRest]
  have fields : ∀ other ∈ lower ++ rest,
      SameFields (list.node other.node) (list'.node other.node) :=
    fun other mem => unlinked.fields other.node
      (mem_cons_of_mem _ (mem_map_of_mem mem))
  have sublist : (lower ++ rest).Sublist (lower ++ slot :: rest) :=
    (sublist_cons_self slot rest).append_left lower
  refine
    { tiers := unlinked.tiers rep
      queues := ?_, sorted := ?_, level_le := ?_, level_lt := ?_
      count_eq := ?_, arena := ?_, pool := ?_ }
  · intro other mem
    rw [(fields other mem).orders, unlinked.listPool]
    exact rep.queues other (within other mem)
  · rw [unlinked.order]
    refine (rep.sorted.sublist sublist).imp_of_mem
      fun firstMember secondMember ordered => ?_
    rw [price, price, (fields _ firstMember).priceTicks, (fields _ secondMember).priceTicks]
    exact ordered
  · intro other mem
    rw [(fields other mem).level]
    by_contra tooTall
    have atHead := unlinked.level_above (list.node other.node).level (by omega)
      (rep.level_le other (within other mem))
    have tier := unlinked.tiers rep (list.node other.node).level
    have inTier : other.node ∈ list'.tierNodes (list.node other.node).level (lower ++ rest) := by
      rw [mem_tierNodes, (fields other mem).level]
      exact ⟨⟨other, mem, rfl⟩, le_refl _⟩
    obtain ⟨first, remaining, tierEq⟩ := exists_cons_of_ne_nil (ne_nil_of_mem inTier)
    rw [tierEq] at tier
    simp [atHead] at tier
  · exact Nat.lt_of_le_of_lt unlinked.level_le rep.level_lt
  · rw [unlinked.count, rep.count_eq]
    simp
  · rw [unlinked.freeNodes, unlinked.length]
    apply Partition.release
    refine rep.arena.perm_used ?_
    simp only [map_append]
    exact (List.Perm.swap _ _ _).trans (perm_middle.symm.cons 0)
  · rw [unlinked.listPool]
    refine rep.pool.perm ?_
    simp only [flatMap_append, flatMap_cons, append_assoc]
    refine List.Perm.append_left _ ?_
    rw [← append_assoc, ← append_assoc]
    exact perm_append_comm.append_right _

end Unlinked

/-- The level found by shrinking from above: every tier skipped is empty. -/
theorem shrinkLevel_spec (list : SkipList) (level : Nat) :
    list.shrinkLevel level ≤ level ∧
      ∀ tier, list.shrinkLevel level < tier → tier ≤ level → list.next tier 0 = none := by
  induction level with
  | zero =>
    refine ⟨le_refl _, fun tier above below => ?_⟩
    omega
  | succ level ih =>
    unfold shrinkLevel
    split
    next isEmpty =>
      refine ⟨ih.1.trans (Nat.le_succ _), ?_⟩
      intro tier above below
      by_cases top : tier = level + 1
      · rw [top]
        exact isEmpty
      · exact ih.2 tier above (by omega)
    next =>
      refine ⟨le_refl _, fun tier above below => ?_⟩
      omega

/-- Removing a level that exists unlinks it. -/
theorem Rep.removeLevel (rep : list.Rep (lower ++ slot :: rest) leaked)
    (split : list.Split price lower (slot :: rest)) (hit : list.price slot.node = price) :
    ∃ list', list.removeLevel price = (list', .ok ()) ∧ Unlinked list list' lower slot rest := by
  have updates : ∀ tier, (list.findUpdate price).1 tier = list.lastPassed lower tier :=
    rep.findUpdate_eq split
  have heightLt : (list.node slot.node).level < maxLevel :=
    Nat.lt_of_le_of_lt (rep.level_le slot (by simp)) rep.level_lt
  have atZero : list.next 0 (list.lastPassed lower 0) = some slot.node := by
    rw [rep.next_lastPassed]
    rfl
  have known := @lastPassed_mem_nodes list lower (slot :: rest)
  obtain ⟨links, nexts⟩ := foldl_unlinkTier list (list.findUpdate price).1
    slot.node (List.range ((list.node slot.node).level + 1)) nodup_range
    (fun tier mem => by
      have small := mem_range.mp mem
      omega)
    (fun tier => by
      rw [updates]
      exact rep.arena.lt_of_mem_used (known tier))
    (fun tier mem => by
      have small := mem_range.mp mem
      have reaches : tier ≤ (list.node slot.node).level := by omega
      rw [updates, rep.next_lastPassed]
      simp [tierNodes, reaches])
  obtain ⟨final, finalEq⟩ : ∃ final,
      (List.range ((list.node slot.node).level + 1)).foldl
        (unlinkTier (list.findUpdate price).1 slot.node) list = final := ⟨_, rfl⟩
  rw [finalEq] at links nexts
  simp only [updates, mem_range, Nat.lt_succ_iff] at nexts
  obtain ⟨shrinkLe, shrinkAbove⟩ := final.shrinkLevel_spec final.level
  have distinct := rep.distinct
  have apart : ∀ cell ∈ 0 :: (lower ++ rest).map (·.node), cell ≠ slot.node := by
    rintro cell mem rfl
    simp only [map_append] at distinct mem
    have moved := (perm_middle.cons 0).nodup_iff.mp distinct
    have swapped := (List.Perm.swap slot.node 0 _).nodup_iff.mp moved
    exact (nodup_cons.mp swapped).1 mem
  have kept : ∀ cell ∈ 0 :: (lower ++ rest).map (·.node),
      (final.retireNode slot.node).node cell = final.node cell :=
    fun cell mem => node_modifyNode_ne _ (apart cell mem)
  refine ⟨final.retireNode slot.node, ?_, ?_⟩
  · simp only [SkipList.removeLevel, updates, atZero, hit, ne_eq,
      not_true_eq_false, if_false, finalEq]
  · refine
      { fields := ?_, next := ?_, level_le := ?_, level_above := ?_
        count := ?_, order := links.order, listPool := links.listPool
        bestPrice := links.bestPrice, freeNodes := ?_, length := ?_ }
    · intro cell mem
      rw [kept cell mem]
      exact links.fields cell
    · intro tier cell mem
      rw [SkipList.next, kept cell mem, ite_and]
      exact nexts tier cell
    · exact shrinkLe.trans (le_of_eq links.level)
    · intro tier above below
      rw [SkipList.next, kept 0 (by simp)]
      exact shrinkAbove tier above (by rw [links.level]; exact below)
    · exact congrArg (· - 1) links.count
    · exact congrArg (slot.node :: ·) links.freeNodes
    · refine (length_modifyNode _).trans ?_
      exact links.length

end SkipList
end LightningX.Matching
