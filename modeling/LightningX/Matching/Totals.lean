import LightningX.Matching.Book
import Mathlib.Algebra.Order.BigOperators.Group.List

/-!
# Exact totals

The cached total of a level is the sum of its queue as long as that sum fits
in 64 bits.
-/

namespace LightningX.Matching

open List

def Level.lots (level : Level) : Int :=
  (level.queue.map (·.lots)).sum

/-- The cached total is the sum of the queue and fits. -/
structure Level.Counted (level : Level) : Prop where
  positive : ∀ entry ∈ level.queue, 0 < entry.lots
  exact : level.total = level.lots
  fits : level.lots ≤ i64Max

namespace Level

variable {level : Level} {entry : Entry} {rest : List Entry} {lots : Int}

theorem lots_nonneg {queue : List Entry} (positive : ∀ entry ∈ queue, 0 < entry.lots) :
    0 ≤ (queue.map (·.lots)).sum := by
  apply sum_nonneg
  intro value mem
  obtain ⟨entry, entryMember, rfl⟩ := mem_map.mp mem
  exact (positive entry entryMember).le

theorem Counted.hit (counted : level.Counted) (front : level.queue = entry :: rest)
    (positive : 0 < lots) (atMost : lots ≤ entry.lots) : (level.hit lots).Counted := by
  have restPositive : ∀ other ∈ rest, 0 < other.lots := fun other mem =>
    counted.positive other (by simp [front, mem])
  have restNonneg := lots_nonneg restPositive
  have sum : level.lots = entry.lots + (rest.map (·.lots)).sum := by simp [Level.lots, front]
  have exact := counted.exact
  have fits := counted.fits
  have hitLots : (level.hit lots).lots = level.lots - lots := by
    simp only [Level.lots, Level.hit, front, map_cons, sum_cons]
    split_ifs with consumed
    · omega
    · simp only [map_cons, sum_cons]
      omega
  have hitTotal : (level.hit lots).total = level.lots - lots := by
    simp only [Level.hit, front]
    rw [wrapI64_of_le_max (by omega) (by omega)]
    omega
  refine ⟨?_, by rw [hitTotal, hitLots], by omega⟩
  intro other mem
  simp only [Level.hit, front] at mem
  split_ifs at mem with consumed
  · exact restPositive other mem
  · rcases mem_cons.mp mem with rfl | inRest
    · show 0 < entry.lots - lots
      omega
    · exact restPositive other inRest

theorem push_lots : (level.push orderId lots).lots = level.lots + lots := by
  simp [Level.lots, Level.push]

theorem Counted.push (counted : level.Counted) (positive : 0 < lots)
    (fits : (level.push orderId lots).lots ≤ i64Max) : (level.push orderId lots).Counted := by
  have nonneg := lots_nonneg counted.positive
  refine ⟨?_, ?_, fits⟩
  · intro entry mem
    rcases mem_append.mp mem with inQueue | isNew
    · exact counted.positive entry inQueue
    · rw [mem_singleton.mp isNew]
      exact positive
  · rw [push_lots] at fits ⊢
    show wrapI64 (level.total + lots) = _
    rw [counted.exact]
    refine wrapI64_of_le_max ?_ fits
    unfold Level.lots
    omega

theorem counted_empty (price : Int) : (Level.empty price).Counted :=
  ⟨by simp [Level.empty], rfl, by simp [Level.empty, Level.lots, i64Max]⟩

/-- What is left in a queue after the first entry of an order was erased. -/
theorem sum_eraseP (test : Entry → Bool) (queue : List Entry) :
    ((queue.eraseP test).map (·.lots)).sum =
      (queue.map (·.lots)).sum - ((queue.find? test).map (·.lots)).getD 0 := by
  induction queue with
  | nil => rfl
  | cons entry rest ih =>
    by_cases hit : test entry = true
    · simp [hit]
    · simp [hit]
      omega

theorem Counted.drop (counted : level.Counted) : (level.drop orderId).Counted := by
  have dropLots : (level.drop orderId).lots = level.lots -
      ((level.queue.find? (·.orderId == orderId)).map (·.lots)).getD 0 :=
    sum_eraseP _ _
  have positive : ∀ entry ∈ (level.drop orderId).queue, 0 < entry.lots :=
    fun entry mem => counted.positive entry (mem_of_mem_eraseP mem)
  have nonneg : 0 ≤ (level.drop orderId).lots := lots_nonneg positive
  have dropped : 0 ≤ ((level.queue.find? (·.orderId == orderId)).map (·.lots)).getD 0 := by
    cases found : level.queue.find? (·.orderId == orderId) with
    | none => simp
    | some entry => exact (counted.positive entry (mem_of_find?_eq_some found)).le
  have fits := counted.fits
  refine ⟨positive, ?_, by omega⟩
  show wrapI64 (level.total - _) = _
  rw [counted.exact, ← dropLots]
  exact wrapI64_of_le_max nonneg (by omega)

end Level

namespace Ladder

def Counted (levels : List Level) : Prop :=
  ∀ level ∈ levels, level.Counted

variable {order : SortOrder} {levels levels' : List Level} {price lots : Int}

theorem Trades.counted (trades : Trades accepts want levels fills want' levels')
    (counted : Counted levels) : Counted levels' := by
  refine trades.induction ?_ (fun counted level mem => (counted level mem).positive) counted
  intro lots level rest entry queue front positive atMost counted
  have restCounted : Counted rest := fun other mem => counted other (mem_cons_of_mem _ mem)
  rw [hit]
  split_ifs
  · exact restCounted
  · intro other mem
    rcases mem_cons.mp mem with rfl | inRest
    · exact (counted level (by simp)).hit front positive atMost
    · exact restCounted other inRest

theorem Counted.drop (counted : Counted levels) : Counted (Ladder.drop price orderId levels) := by
  intro level mem
  obtain ⟨original, originalMember, rfl⟩ := mem_map.mp (mem_of_mem_filter mem)
  split_ifs
  · exact (counted original originalMember).drop
  · exact counted original originalMember

theorem Counted.rest (sorted : Sorted order levels) (counted : Counted levels) (positive : 0 < lots)
    (fits : ∀ level ∈ Ladder.rest order price orderId lots levels, level.lots ≤ i64Max) :
    Counted (Ladder.rest order price orderId lots levels) := by
  intro level mem
  rcases mem_or_eq_push_of_mem_rest sorted mem with old | ⟨target, -, old | rfl, rfl⟩
  · exact counted level old
  · exact (counted target old).push positive (fits _ mem)
  · exact (Level.counted_empty price).push positive (fits _ mem)

end Ladder
end LightningX.Matching
