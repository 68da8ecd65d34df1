import LightningX.Matching.Ladder
import LightningX.Matching.Order

/-!
# Sweeping a ladder

What matching does to the opposite side of the book, without the engine
around it: a taker that wants some lots trades with the front order of the
best level again and again.
-/

namespace LightningX.Matching

open List

/-- A trade of `lots` with the front order of a level. -/
def Level.hit (lots : Int) (level : Level) : Level :=
  match level.queue with
  | [] => level
  | entry :: rest =>
    { level with
      total := max (wrapI64 (level.total - lots)) 0
      queue :=
        if entry.lots = lots then rest
        else { entry with lots := entry.lots - lots } :: rest }

@[simp] theorem Level.hit_price (lots : Int) (level : Level) :
    (level.hit lots).price = level.price := by
  unfold Level.hit
  split <;> rfl

namespace Ladder

variable {level : Level}

/-- A trade of `lots` with the front order of the best level, which disappears
with its last order. -/
def hit (lots : Int) : List Level → List Level
  | [] => []
  | level :: rest => if (level.hit lots).queue = [] then rest else level.hit lots :: rest

/-- Trades of a taker that wants `want` lots and accepts some prices. -/
inductive Trades (accepts : Int → Bool) :
    Int → List Level → List Fill → Int → List Level → Prop
  | none (want : Int) (levels : List Level) : Trades accepts want levels [] want levels
  | trade {want : Int} {level : Level} {rest : List Level} {entry : Entry}
      {queue : List Entry} {fills : List Fill} {want' : Int} {levels' : List Level}
      (wanted : 0 < want)
      (accepted : accepts level.price = true)
      (front : level.queue = entry :: queue)
      (later : Trades accepts (want - min want entry.lots)
        (hit (min want entry.lots) (level :: rest)) fills want' levels') :
      Trades accepts want (level :: rest)
        ({ makerId := entry.orderId, priceTicks := level.price,
           lots := min want entry.lots } :: fills) want' levels'

/-- Nothing is left to trade. -/
def Settled (accepts : Int → Bool) (want : Int) (levels : List Level) : Prop :=
  want ≤ 0 ∨ ∀ level ∈ levels.head?, accepts level.price = false

variable {accepts : Int → Bool} {want want' want'' : Int} {levels levels' levels'' : List Level}
  {fills : List Fill}

theorem Trades.append (first : Trades accepts want levels fills want' levels')
    (second : Trades accepts want' levels' fills' want'' levels'') :
    Trades accepts want levels (fills ++ fills') want'' levels'' := by
  induction first with
  | none => exact second
  | trade wanted accepted front _ ih => exact .trade wanted accepted front (ih second)

/-- Every lot wanted is traded or still wanted. -/
theorem Trades.conserves (trades : Trades accepts want levels fills want' levels') :
    (fills.map (·.lots)).sum + want' = want := by
  induction trades with
  | none => simp
  | trade _ _ _ _ ih =>
    simp only [map_cons, sum_cons]
    omega

theorem Trades.want_nonneg (trades : Trades accepts want levels fills want' levels')
    (nonneg : 0 ≤ want) : 0 ≤ want' := by
  induction trades with
  | none => exact nonneg
  | trade _ _ _ _ ih =>
    apply ih
    omega

/-- After a trade the best level is still the best, or its price is gone. -/
theorem find_hit (sorted : Sorted order (level :: worse)) (lots : Int) :
    ((hit lots (level :: worse)).head?.map (·.price) = some level.price ∧
      find level.price (hit lots (level :: worse)) = some (level.hit lots)) ∨
    find level.price (hit lots (level :: worse)) = none := by
  rw [hit]
  split_ifs
  · right
    exact find_eq_none_iff.mpr sorted.price_ne_of_mem_tail
  · left
    simp [find]

theorem prices_hit_sublist (lots : Int) (levels : List Level) :
    ((hit lots levels).map (·.price)).Sublist (levels.map (·.price)) := by
  cases levels with
  | nil => exact List.Sublist.refl _
  | cons level worse =>
    rw [hit]
    split_ifs
    · exact sublist_cons_self _ _
    · simp

theorem Trades.prices_sublist (trades : Trades accepts want levels fills want' levels') :
    (levels'.map (·.price)).Sublist (levels.map (·.price)) := by
  induction trades with
  | none => exact List.Sublist.refl _
  | trade _ _ _ _ ih => exact ih.trans (prices_hit_sublist _ _)

/-- Trades that remove a level shorten the ladder. -/
theorem Trades.length_lt (trades : Trades accepts want levels fills want' levels')
    (mem : level ∈ levels) (gone : find level.price levels' = Option.none) :
    levels'.length < levels.length := by
  have fewer := trades.prices_sublist
  have le : levels'.length ≤ levels.length := by simpa using fewer.length_le
  refine lt_of_le_of_ne le fun equal => ?_
  have same := fewer.eq_of_length (by simpa using equal)
  have priceMember : level.price ∈ levels'.map (·.price) := same ▸ mem_map_of_mem mem
  obtain ⟨other, otherMember, otherPrice⟩ := mem_map.mp priceMember
  exact find_eq_none_iff.mp gone other otherMember otherPrice

/-- Every queued order has lots left. -/
def Positive (levels : List Level) : Prop :=
  ∀ level ∈ levels, ∀ entry ∈ level.queue, 0 < entry.lots

/-- The invariant rule for trades: a property of ladders with positive entries
that single trades keep. -/
theorem Trades.induction {keeps : List Level → Prop}
    (step : ∀ {lots : Int} {level : Level} {rest : List Level} {entry : Entry}
      {queue : List Entry}, level.queue = entry :: queue → 0 < lots →
        lots ≤ entry.lots → keeps (level :: rest) → keeps (hit lots (level :: rest)))
    (positive : ∀ {levels : List Level}, keeps levels → Positive levels)
    (trades : Trades accepts want levels fills want' levels') (initial : keeps levels) :
    keeps levels' := by
  induction trades with
  | none => exact initial
  | @trade want level rest entry queue _ _ _ wanted _ front _ ih =>
    apply ih
    have entryPositive := positive initial level (by simp) entry (by simp [front])
    exact step front (by omega) (by omega) initial

theorem Positive.hit {lots : Int} {rest : List Level} {entry : Entry} {queue : List Entry}
    (front : level.queue = entry :: queue) (atMost : lots ≤ entry.lots)
    (positive : Positive (level :: rest)) : Positive (hit lots (level :: rest)) := by
  have restPositive : Positive rest := fun other mem => positive other (mem_cons_of_mem _ mem)
  rw [Ladder.hit]
  split_ifs
  · exact restPositive
  · intro other mem
    rcases mem_cons.mp mem with rfl | inRest
    · intro queued queuedMember
      have queuePositive : ∀ other ∈ queue, 0 < other.lots := fun other inQueue =>
        positive level (by simp) other (by simp [front, inQueue])
      simp only [Level.hit, front] at queuedMember
      split_ifs at queuedMember with consumed
      · exact queuePositive queued queuedMember
      · rcases mem_cons.mp queuedMember with rfl | inQueue
        · show 0 < entry.lots - lots
          omega
        · exact queuePositive queued inQueue
    · exact restPositive other inRest

/-- Each fill has lots, so the wanted lots only shrink. -/
theorem Trades.fills_positive (trades : Trades accepts want levels fills want' levels')
    (positive : Positive levels) : (∀ fill ∈ fills, 0 < fill.lots) ∧ want' ≤ want := by
  induction trades with
  | none => simp
  | @trade want level rest entry queue _ _ _ wanted _ front _ ih =>
    have entryPositive := positive level (by simp) entry (by simp [front])
    obtain ⟨later, less⟩ := ih (positive.hit front (by omega))
    refine ⟨?_, by omega⟩
    intro fill mem
    rcases mem_cons.mp mem with rfl | inFills
    · show 0 < min want entry.lots
      omega
    · exact later fill inFills

end Ladder
end LightningX.Matching
