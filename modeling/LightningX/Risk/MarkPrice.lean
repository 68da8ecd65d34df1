import LightningX.Risk.Closing

/-!
# The mark under a feed

`update_mark_price` weighs the new price against nine times the old mark and cuts the remainder
off.  As long as the weighted sum fits, the new mark lies between the two.  Under a constant
price the mark comes down to it, but from below it stops some ticks short.
-/

namespace LightningX.Risk

/-- The weighted mark. -/
def ewma (priceTicks oldTicks : Int) : Int := (priceTicks + 9 * oldTicks).tdiv 10

/-- A positive price whose tenfold is an `i64`. -/
def Weighable (priceTicks : Int) : Prop := 0 < priceTicks ∧ InI64 (10 * priceTicks)
deriving Decidable

/-- A call of `update_mark_price` for a symbol. -/
structure MarkUpdate where
  priceTicks : Int
  notionalScale : Int
  order : List UserId

theorem ewma_spec (priced : 0 < priceTicks) (oldTicks : Int) :
    min oldTicks priceTicks ≤ ewma priceTicks oldTicks ∧
      ewma priceTicks oldTicks ≤ max oldTicks priceTicks ∧
      (oldTicks < priceTicks → ewma priceTicks oldTicks < priceTicks) ∧
      (priceTicks < oldTicks → ewma priceTicks oldTicks < oldTicks) := by
  unfold ewma
  rw [Int.tdiv_eq_ediv, show Int.sign 10 = 1 from rfl]
  split_ifs <;> omega

/-- From above the remainder that is cut off brings the mark down. -/
theorem exists_iterate_ewma_eq (priced : 0 < priceTicks) (oldTicks : Int)
    (above : priceTicks ≤ oldTicks) : ∃ count, (ewma priceTicks)^[count] oldTicks = priceTicks := by
  obtain rfl | higher := above.eq_or_lt
  · exact ⟨0, rfl⟩
  · have spec := ewma_spec priced oldTicks
    obtain ⟨count, reached⟩ := exists_iterate_ewma_eq priced (ewma priceTicks oldTicks) (by omega)
    exact ⟨count + 1, reached⟩
termination_by (oldTicks - priceTicks).toNat
decreasing_by omega

/-- From below the mark stays below. -/
theorem iterate_ewma_lt (priced : 0 < priceTicks) (below : oldTicks < priceTicks) (count : Nat) :
    (ewma priceTicks)^[count] oldTicks < priceTicks := by
  induction count generalizing oldTicks with
  | zero => exact below
  | succ count ih => exact ih ((ewma_spec priced oldTicks).2.2.1 below)

namespace RiskEngine

variable (symbol : Symbol) (engine : RiskEngine)

/-- Handle an update. -/
def markStep (update : MarkUpdate) : RiskEngine :=
  engine.updateMarkPrice .machine symbol update.priceTicks update.notionalScale update.order

/-- The mark, and that its tenfold is an `i64`. -/
def MarkedAt (ticks : Int) : Prop :=
  engine.markPrices.lookup symbol = some ticks ∧ InI64 (10 * ticks)
deriving Decidable

/-- The new mark lies between the old mark and the price. -/
def MarksBetween (update : MarkUpdate) : Prop :=
  ∃ old ∈ engine.markPrices.lookup symbol,
    ∃ new ∈ (engine.markStep symbol update).markPrices.lookup symbol,
      min old update.priceTicks ≤ new ∧ new ≤ max old update.priceTicks

/-- After some number of updates to a price, that price is the mark. -/
def SettlesAt (priceTicks : Int) : Prop :=
  ∃ count, ∀ updates : List MarkUpdate, updates.length = count →
    (∀ update ∈ updates, update.priceTicks = priceTicks) →
      (updates.foldl (markStep symbol) engine).markPrices.lookup symbol = some priceTicks

variable {symbol engine}

theorem MarkedAt.markStep {update : MarkUpdate} (marked : engine.MarkedAt symbol oldTicks)
    (priced : Weighable update.priceTicks) :
    (engine.markStep symbol update).MarkedAt symbol (ewma update.priceTicks oldTicks) := by
  obtain ⟨found, fits⟩ := marked
  obtain ⟨positive, priceFits⟩ := priced
  have spec := ewma_spec positive oldTicks
  unfold InI64 at fits priceFits
  refine ⟨?_, by omega, by omega⟩
  unfold RiskEngine.markStep
  rw [markPrices_updateMarkPrice positive found, wrapI64_eq ⟨by omega, by omega⟩, ewma]

theorem MarkedAt.foldl {updates : List MarkUpdate} (marked : engine.MarkedAt symbol oldTicks)
    (priced : Weighable priceTicks)
    (constant : ∀ update ∈ updates, update.priceTicks = priceTicks) :
    (updates.foldl (RiskEngine.markStep symbol) engine).MarkedAt symbol
      ((ewma priceTicks)^[updates.length] oldTicks) := by
  induction updates generalizing engine oldTicks with
  | nil => exact marked
  | cons update updates ih =>
    obtain ⟨rfl, others⟩ := List.forall_mem_cons.mp constant
    exact ih (marked.markStep priced) others

theorem MarkedAt.settlesAt_iff (marked : engine.MarkedAt symbol oldTicks)
    (priced : Weighable priceTicks) :
    engine.SettlesAt symbol priceTicks ↔ priceTicks ≤ oldTicks := by
  constructor
  · rintro ⟨count, settles⟩
    by_contra below
    have constant : ∀ update ∈ List.replicate count (MarkUpdate.mk priceTicks 1 []),
        update.priceTicks = priceTicks := by
      simp
    have reached := settles _ List.length_replicate constant
    rw [(marked.foldl priced constant).1] at reached
    exact (iterate_ewma_lt priced.1 (by omega) _).ne (Option.some.inj reached)
  · intro above
    obtain ⟨count, reached⟩ := exists_iterate_ewma_eq priced.1 _ above
    refine ⟨count, ?_⟩
    rintro updates rfl constant
    rw [(marked.foldl priced constant).1, reached]

/-- Every mark lies between the mark before and the price, and a constant price becomes the mark
if and only if the mark does not start below it. -/
theorem marksBetween_and_settlesAt_iff (marked : engine.MarkedAt symbol oldTicks) :
    (∀ updates : List MarkUpdate, (∀ update ∈ updates, Weighable update.priceTicks) →
      Along (markStep symbol) (MarksBetween symbol) engine updates) ∧
    ∀ priceTicks, Weighable priceTicks →
      (engine.SettlesAt symbol priceTicks ↔ priceTicks ≤ oldTicks) := by
  refine ⟨?_, fun _ => marked.settlesAt_iff⟩
  intro updates priced
  induction updates generalizing engine oldTicks with
  | nil => trivial
  | cons update updates ih =>
    obtain ⟨first, others⟩ := List.forall_mem_cons.mp priced
    have next := marked.markStep first
    obtain ⟨lower, upper, -⟩ := ewma_spec first.1 oldTicks
    exact ⟨⟨_, marked.1, _, next.1, lower, upper⟩, ih next others⟩

/-- A mark of 91 ticks. -/
def markedAt91 : RiskEngine := { new with markPrices := AList.insert 7 91 ∅ }

theorem settlesAt_ninety : markedAt91.SettlesAt 7 90 :=
  ((@marksBetween_and_settlesAt_iff 7 markedAt91 91 (by decide)).2 90 (by decide)).mpr (by decide)

/-- The mark never comes up from 91 to 100 ticks. -/
theorem not_settlesAt_hundred : ¬ markedAt91.SettlesAt 7 100 := by
  have marked : markedAt91.MarkedAt 7 91 := by decide
  rw [marked.settlesAt_iff (by decide)]
  decide

end RiskEngine
end LightningX.Risk
