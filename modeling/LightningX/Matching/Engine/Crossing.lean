import LightningX.Matching.Engine.Invariant

/-!
# Orders that do not cross the book

An order trades only if the best price of the other side is one at which it may
trade.  Nothing is asked of the engine here.
-/

namespace LightningX.Matching.MatchingEngine

variable {result : PlaceOrderResult}

/-- The best order of the other side has a price at which an order may trade. -/
def crosses (engine : MatchingEngine) (order : Order) : Bool :=
  match (engine.book order.side.opposite).getBestPriceCached.2 with
  | none => false
  | some price => order.priceMatches price

variable {engine : MatchingEngine}

theorem fillsBuf_matchLevels {loop : MatchLoop} (apart : loop.engine.crosses order = false)
    (fuel : Nat) : (matchLevels order fuel loop).1.engine.fillsBuf = loop.engine.fillsBuf := by
  cases fuel with
  | zero => rfl
  | succ fuel =>
    unfold crosses at apart
    simp only [matchLevels]
    split_ifs
    · rfl
    · cases best : (loop.engine.book order.side.opposite).getBestPriceCached.2 with
      | none => simp
      | some price =>
        rw [best] at apart
        simp [apart]

theorem fillsBuf_matchOrder {answer : OrderResult Int} (apart : engine.crosses order = false)
    (matched : engine.matchOrder order = (after, answer)) : after.fillsBuf = [] := by
  have reset : ({ engine with affectedMakersBuf := [], fillsBuf := [] } :
      MatchingEngine).crosses order = false := by
    rw [← apart, crosses, crosses]
    cases order.side <;> rfl
  have kept := @fillsBuf_matchLevels order ⟨_, 0, []⟩ reset
    ((engine.book order.side.opposite).arena.length + 1)
  simp only [matchOrder] at matched
  split at matched <;>
    next levels =>
      rw [levels] at kept
      cases matched
      exact kept

theorem fillsBuf_addToBook : (engine.addToBook order).1.fillsBuf = engine.fillsBuf := by
  unfold addToBook
  split_ifs
  · rfl
  · cases engine.pools.orders.acquire with
    | none => rfl
    | some slot =>
      simp only
      split <;> simp

theorem fills_handleImmediate (apart : engine.crosses order = false)
    (placed : (engine.handleImmediate order).2 = .ok result) : result.fills = [] := by
  unfold handleImmediate at placed
  split at placed <;> cases placed
  next matched => exact fillsBuf_matchOrder apart matched

theorem fills_handlePostOnly (placed : (engine.handlePostOnly order).2 = .ok result) :
    result.fills = [] := by
  unfold handlePostOnly at placed
  split_ifs at placed
  · cases placed
    rfl
  · split at placed <;> cases placed
    rfl

section

variable (apart : engine.crosses order = false)
include apart

theorem fills_handleFok (placed : (engine.handleFok order).2 = .ok result) : result.fills = [] := by
  unfold handleFok at placed
  split_ifs at placed
  · cases placed
    rfl
  · split at placed <;> cases placed
    next matched => exact fillsBuf_matchOrder apart matched

theorem fills_handleGtc (placed : (engine.handleGtc order).2 = .ok result) : result.fills = [] := by
  unfold handleGtc at placed
  split at placed
  · cases placed
  next matched =>
    have none := fillsBuf_matchOrder apart matched
    simp only at placed
    split at placed <;> cases placed
    split_ifs
    · rw [fillsBuf_addToBook, none]
    · exact none

/-- An order that does not cross the book does not trade. -/
theorem fills_eq_nil (placed : (engine.placeOrder order).2 = .ok result) : result.fills = [] := by
  have reset : ({ engine with affectedMakersBuf := [] } : MatchingEngine).crosses order =
      false := by
    rw [← apart, crosses, crosses]
    cases order.side <;> rfl
  unfold placeOrder at placed
  split at placed
  · cases placed
  · split_ifs at placed
    · exact fills_handleImmediate reset placed
    · split at placed
      · exact fills_handlePostOnly placed
      · exact fills_handleFok reset placed
      · exact fills_handleImmediate reset placed
      · exact fills_handleGtc reset placed

end

end LightningX.Matching.MatchingEngine
