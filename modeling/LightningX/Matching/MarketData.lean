import LightningX.Lib.Binary64
import Mathlib.Data.List.Chain
import Mathlib.Data.List.Nodup

/-!
# Differences of depth snapshots

`compute_depth_diff` and `compute_level2_diff` of `matching/market_data.rs` write the levels
that were deleted, changed or added between two snapshots into an array that holds as many
changes as a snapshot holds levels.  Quantities are doubles, and their difference is rounded.
-/

namespace LightningX.Matching.MarketData

open List

/-- An integer price and the quantity at it. -/
abbrev Level := Int × ℚ

/-- The double `1e-10`. -/
def tolerance : ℚ :=
  (7737125245533627 : Int) * 2 ^ (-86 : Int)

example : tolerance = Binary64.nearest (1 / 10 ^ 10) := by decide +kernel

/-- The least difference of quantities that is rounded to more. -/
def noticeable : ℚ :=
  ((7737125245533627 : Int) + 1 / 2) * 2 ^ (-86 : Int)

/-- What the first loop writes for a level of the previous snapshot. -/
def outdated (curr : List Level) (old : Level) : Option Level :=
  match curr.find? (·.1 = old.1) with
  | some level =>
    if |Binary64.nearest (level.2 - old.2)| > tolerance then some (old.1, level.2) else none
  | none => some (old.1, 0)

/-- What the second loop writes for a level of the current snapshot. -/
def added (prev : List Level) (level : Level) : Option Level :=
  if (prev.find? (·.1 = level.1)).isSome then none else some level

/-- What both loops write, one after the other. -/
def written (prev curr : List Level) : List Level :=
  prev.filterMap (outdated curr) ++ curr.filterMap (added prev)

/-- `compute_depth_diff` with room for 50 changes and `compute_level2_diff` for 400: one more
is out of bounds and stops the program. -/
def computeDiff (capacity : Nat) (prev curr : List Level) : Option (List Level) :=
  if (written prev curr).length ≤ capacity then some (written prev curr) else none

/-- A snapshot with at most so many levels on each side. -/
structure Snapshot (capacity : Nat) where
  bids : List Level
  asks : List Level
  bidsSorted : bids.Pairwise fun first second => second.1 < first.1
  asksSorted : asks.Pairwise fun first second => first.1 < second.1
  positive : ∀ level ∈ bids ++ asks, 0 < level.2
  few : bids.length ≤ capacity ∧ asks.length ≤ capacity

/-- `consume_depth50_snapshot` and `consume_level2_snapshot`: the snapshot to compare the next
one with, and the changes of bids and asks. -/
def consumeSnapshot {capacity : Nat} (prev event : Snapshot capacity) :
    Option (Snapshot capacity × List Level × List Level) := do
  let bids ← computeDiff capacity prev.bids event.bids
  let asks ← computeDiff capacity prev.asks event.asks
  some (event, bids, asks)

/-- The quantities of one side; zero where there is no level. -/
def quantityAt (levels : List Level) (price : Int) : ℚ :=
  (levels.find? (·.1 = price)).elim 0 Prod.snd

/-- Set the quantity at the price of each change. -/
def applyChanges (quantities : Int → ℚ) (changes : List Level) : Int → ℚ :=
  changes.foldl (fun quantities change => Function.update quantities change.1 change.2) quantities

/-- The changes of one side lead from the previous snapshot to the current one. -/
def Reconstructs (capacity : Nat) (prev curr : List Level) : Prop :=
  ∃ changes, computeDiff capacity prev curr = some changes ∧
    applyChanges (quantityAt prev) changes = quantityAt curr

/-- No snapshot of a sequence stops the program, and the changes returned for each lead to it
from the one before. -/
def Reproduces {capacity : Nat} : Snapshot capacity → List (Snapshot capacity) → Prop
  | _, [] => True
  | prev, event :: events =>
    ∃ next bids asks, consumeSnapshot prev event = some (next, bids, asks) ∧
      applyChanges (quantityAt prev.bids) bids = quantityAt event.bids ∧
      applyChanges (quantityAt prev.asks) asks = quantityAt event.asks ∧
      Reproduces next events

abbrev prices (levels : List Level) : List Int :=
  levels.map Prod.fst

/-- A level is still there, with a quantity that counts as equal. -/
def Kept (curr : List Level) (old : Level) : Prop :=
  old.1 ∈ prices curr ∧ |quantityAt curr old.1 - old.2| < noticeable
deriving Decidable

/-- The levels that are not kept and those at new prices fit into the array, and a quantity
that counts as equal is equal. -/
def Clear (capacity : Nat) (prev curr : List Level) : Prop :=
  prev.countP (¬ Kept curr ·) + curr.countP (·.1 ∉ prices prev) ≤ capacity ∧
    ∀ old ∈ prev, Kept curr old → quantityAt curr old.1 = old.2

section

variable {capacity : Nat} {prev levels : List Level} {price : Int}

theorem find?_eq_none_iff_notMem : levels.find? (·.1 = price) = none ↔ price ∉ prices levels := by
  simp only [find?_eq_none, decide_eq_true_eq, mem_map, not_exists, not_and]

theorem quantityAt_of_notMem (absent : price ∉ prices levels) : quantityAt levels price = 0 := by
  rw [quantityAt, find?_eq_none_iff_notMem.mpr absent, Option.elim_none]

theorem quantityAt_of_mem (distinct : (prices levels).Nodup) (member : level ∈ levels) :
    quantityAt levels level.1 = level.2 := by
  cases found : levels.find? (·.1 = level.1) with
  | none => exact absurd (find?_eq_none.mp found level member) (by simp)
  | some other =>
    have same : other = level := inj_on_of_nodup_map distinct (mem_of_find?_eq_some found) member
      (by simpa using find?_some found)
    rw [quantityAt, found, same, Option.elim_some]

theorem abs_nearest_gt_iff (difference : ℚ) :
    |Binary64.nearest difference| > tolerance ↔ ¬ |difference| < noticeable :=
  not_le.symm.trans
    (Binary64.abs_nearest_le_iff (by decide) (by decide) (by decide) (by decide) difference).not

theorem outdated_eq :
    outdated curr old = if Kept curr old then none else some (old.1, quantityAt curr old.1) := by
  have absent := @find?_eq_none_iff_notMem curr old.1
  by_cases present : old.1 ∈ prices curr
  · obtain ⟨level, found⟩ := Option.ne_none_iff_exists'.mp (absent.not.mpr (not_not.mpr present))
    simp only [outdated, Kept, quantityAt, found, present, true_and, Option.elim_some,
      abs_nearest_gt_iff, ite_not]
  · rw [if_neg fun kept => present kept.1]
    simp only [outdated, quantityAt, absent.mpr present, Option.elim_none]

theorem added_eq : added prev level = if level.1 ∈ prices prev then none else some level := by
  simp only [added, ← Option.ne_none_iff_isSome, ne_eq, find?_eq_none_iff_notMem, not_not]

theorem length_written :
    (written prev curr).length = prev.countP (¬ Kept curr ·) + curr.countP (·.1 ∉ prices prev) := by
  rw [written, length_append, length_filterMap_eq_countP, length_filterMap_eq_countP]
  refine congrArg₂ _ (countP_congr fun old _ => ?_) (countP_congr fun level _ => ?_)
  · rw [outdated_eq]
    split_ifs with kept <;> simp [kept]
  · rw [added_eq]
    split_ifs with known <;> simp [known]

/-- One loop sets the quantities of the levels it does not skip. -/
theorem applyChanges_filterMap
    [DecidablePred skips]
    {after : Int → ℚ}
    (writes : ∀ level ∈ levels,
      change level = if skips level then none else some (level.1, after level.1)) :
    applyChanges before (levels.filterMap change) price =
      if ∃ level ∈ levels, ¬ skips level ∧ level.1 = price then after price
      else before price := by
  induction levels generalizing before with
  | nil => simp [applyChanges]
  | cons level levels ih =>
    rw [forall_mem_cons] at writes
    simp only [filterMap_cons, writes.1, exists_mem_cons_iff]
    by_cases skipped : skips level
    · simp only [skipped, if_true, ih writes.2, not_true_eq_false, false_and, false_or]
    · simp only [skipped, not_false_eq_true, true_and]
      refine (ih writes.2).trans ?_
      by_cases here : level.1 = price
      · simp [here]
      · simp only [here, false_or, Function.update_of_ne (Ne.symm here)]

/-- Snapshots at distinct prices. -/
theorem reconstructs_iff_clear
    (prevDistinct : (prices prev).Nodup) (currDistinct : (prices curr).Nodup) :
    Reconstructs capacity prev curr ↔ Clear capacity prev curr := by
  have applied (price : Int) : applyChanges (quantityAt prev) (written prev curr) price =
      if ∃ level ∈ curr, level.1 ∉ prices prev ∧ level.1 = price then quantityAt curr price
      else if ∃ old ∈ prev, ¬ Kept curr old ∧ old.1 = price then quantityAt curr price
      else quantityAt prev price := by
    rw [applyChanges, written, foldl_append, ← applyChanges_filterMap fun _ _ => outdated_eq]
    exact applyChanges_filterMap fun level member => by
      rw [added_eq, quantityAt_of_mem currDistinct member]
  unfold Reconstructs computeDiff
  rw [length_written]
  constructor
  · rintro ⟨changes, returned, reached⟩
    split_ifs at returned with fits
    cases returned
    refine ⟨fits, fun old member kept => ?_⟩
    rw [← reached, applied, if_neg, if_neg, quantityAt_of_mem prevDistinct member]
    · rintro ⟨other, toOther, gone, same⟩
      exact gone (inj_on_of_nodup_map prevDistinct toOther member same ▸ kept)
    · rintro ⟨level, -, unknown, same⟩
      exact unknown (same ▸ mem_map_of_mem member)
  · rintro ⟨fits, clear⟩
    refine ⟨_, if_pos fits, funext fun price => (applied price).trans ?_⟩
    split_ifs with fresh gone
    · rfl
    · rfl
    · by_cases known : price ∈ prices prev
      · obtain ⟨old, member, rfl⟩ := mem_map.mp known
        have kept : Kept curr old := by_contra fun lost => gone ⟨old, member, lost, rfl⟩
        rw [quantityAt_of_mem prevDistinct member, clear old member kept]
      · rw [quantityAt_of_notMem known, quantityAt_of_notMem]
        intro present
        obtain ⟨level, member, rfl⟩ := mem_map.mp present
        exact fresh ⟨level, member, known, rfl⟩

end

/-- A sequence of snapshots is reproduced if and only if each pair is clear on both sides. -/
theorem reproduces_iff_clear {capacity : Nat}
    (prev : Snapshot capacity) (events : List (Snapshot capacity)) :
    Reproduces prev events ↔
      (prev :: events).IsChain fun before after =>
        Clear capacity before.bids after.bids ∧ Clear capacity before.asks after.asks := by
  have bidsDistinct (snapshot : Snapshot capacity) : (prices snapshot.bids).Nodup :=
    pairwise_map.mpr (snapshot.bidsSorted.imp fun below => below.ne')
  have asksDistinct (snapshot : Snapshot capacity) : (prices snapshot.asks).Nodup :=
    pairwise_map.mpr (snapshot.asksSorted.imp fun below => below.ne)
  induction events generalizing prev with
  | nil => simp [Reproduces]
  | cons event events ih =>
    have later : Reproduces event events ↔ _ := ih event
    rw [isChain_cons_cons, ← later, ← reconstructs_iff_clear (bidsDistinct _) (bidsDistinct _),
      ← reconstructs_iff_clear (asksDistinct _) (asksDistinct _)]
    constructor
    · rintro ⟨next, bids, asks, consumed, toBids, toAsks, later⟩
      simp only [consumeSnapshot, Option.bind_eq_bind, Option.bind_eq_some_iff] at consumed
      obtain ⟨_, bidsDiff, _, asksDiff, returned⟩ := consumed
      cases returned
      exact ⟨⟨⟨_, bidsDiff, toBids⟩, _, asksDiff, toAsks⟩, later⟩
    · rintro ⟨⟨⟨bids, bidsDiff, toBids⟩, asks, asksDiff, toAsks⟩, later⟩
      refine ⟨event, bids, asks, ?_, toBids, toAsks, later⟩
      simp only [consumeSnapshot, bidsDiff, asksDiff, Option.bind_eq_bind, Option.bind_some]

def fiftyAsks (price : Int) : Snapshot 50 where
  bids := []
  asks := (range 50).map fun offset : Nat => (price + offset, 1)
  bidsSorted := .nil
  asksSorted := pairwise_map.mpr (pairwise_lt_range.imp fun below => by simpa using below)
  positive := by simp
  few := by simp

/-- Fifty asks are replaced by fifty others: the change after the fiftieth is out of bounds. -/
theorem not_reproduces_fiftyAsks : ¬ Reproduces (fiftyAsks 100) [fiftyAsks 200] := by
  have stops : computeDiff 50 (fiftyAsks 100).asks (fiftyAsks 200).asks = none := by decide +kernel
  rintro ⟨next, bids, asks, consumed, -⟩
  simp [consumeSnapshot, stops] at consumed

end LightningX.Matching.MarketData
