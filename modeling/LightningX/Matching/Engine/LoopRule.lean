import LightningX.Matching.Engine.Invariant

/-!
# A rule for the loops of `match_order`

What the single updates of an iteration keep is kept by the whole loop.  Nothing
is asked of the engine here, so the rule also covers the iterations that remove an
identifier nobody knows, and a trade that finds no free slot.
-/

namespace LightningX.Matching.MatchingEngine

variable {engine : MatchingEngine}

/-- The updates of `match_order` keep a property of the engine, except that a trade
without a free slot ends the loop with another one. -/
structure LoopRule (order : Order) (keeps fails : MatchingEngine → Prop) : Prop where
  setBook : ∀ engine side list, keeps engine → keeps (engine.setBook side list)
  unlink : ∀ engine orderId, keeps engine →
    keeps { engine with orders := engine.orders.erase orderId }
  forget : ∀ engine orderId, keeps engine → keeps (engine.forget orderId)
  trade : ∀ engine fill trades index, keeps engine →
    (engine.applyFill order fill).pools.trades.acquire = some (trades, index) →
    keeps ((engine.applyFill order fill).recordTrade order.id fill trades index)
  noSlot : ∀ engine fill, keeps engine →
    (engine.applyFill order fill).pools.trades.acquire = none →
    fails (engine.applyFill order fill)

/-- Where a loop may end. -/
def EndsWith (keeps fails : MatchingEngine → Prop) {α : Type}
    (outcome : MatchingEngine × OrderResult α) : Prop :=
  match outcome.2 with
  | .ok _ => keeps outcome.1
  | .error _ => fails outcome.1

namespace LoopRule

variable {order : Order} {keeps fails : MatchingEngine → Prop} {loop : MatchLoop}

section

variable (rule : LoopRule order keeps fails)
include rule

theorem retireFilled (holds : keeps engine) (side : Side) (price : Int) (orderId : Nat) :
    keeps (engine.retireFilled side price orderId) := by
  unfold MatchingEngine.retireFilled
  split
  · split
    · exact rule.forget _ _ (rule.setBook _ _ _ holds)
    · exact holds
  · exact holds

theorem executeTrade
    (holds : keeps loop.engine) (bestPrice : Int) (counterId : Nat) (counter : Order) :
    EndsWith keeps fails
      ((executeTrade order bestPrice counterId counter loop).1.engine,
        (executeTrade order bestPrice counterId counter loop).2) := by
  unfold MatchingEngine.executeTrade
  simp only
  split
  · rename_i acquired
    exact rule.noSlot _ _ holds acquired
  · rename_i trades index acquired
    exact rule.retireFilled (rule.trade _ _ _ _ holds acquired) _ _ _

theorem matchLevel (holds : keeps loop.engine) (bestPrice : Int) (fuel : Nat) :
    EndsWith keeps fails ((matchLevel order bestPrice fuel loop).1.engine,
      (matchLevel order bestPrice fuel loop).2) := by
  induction fuel generalizing loop with
  | zero => exact holds
  | succ fuel ih =>
    unfold MatchingEngine.matchLevel
    simp only
    split
    · exact holds
    · split
      · exact holds
      · split
        · exact ih (rule.setBook _ _ _ holds)
        · split
          · exact ih (rule.unlink _ _ (rule.setBook _ _ _ holds))
          · split
            · exact ih (rule.forget _ _ (rule.setBook _ _ _ holds))
            · rename_i counterId _ _ _ _ _ counter _ _
              have traded := rule.executeTrade holds bestPrice counterId counter
              split
              · rename_i executed
                rw [executed] at traded
                exact ih traded
              · rename_i executed
                rw [executed] at traded
                exact traded

theorem matchLevels (holds : keeps loop.engine) (fuel : Nat) :
    EndsWith keeps fails ((matchLevels order fuel loop).1.engine,
      (matchLevels order fuel loop).2) := by
  induction fuel generalizing loop with
  | zero => exact holds
  | succ fuel ih =>
    unfold MatchingEngine.matchLevels
    simp only
    split
    · exact holds
    · have cached := rule.setBook loop.engine order.side.opposite
        (loop.engine.book order.side.opposite).getBestPriceCached.1 holds
      split
      · exact cached
      · split
        · rename_i price _ _
          have swept := @LoopRule.matchLevel order keeps fails { loop with
            engine := loop.engine.setBook order.side.opposite
              (loop.engine.book order.side.opposite).getBestPriceCached.1 } rule cached
            price ((loop.engine.book
              order.side.opposite).getBestPriceCached.1.listPool.nodes.length + 1)
          split
          · rename_i matched
            rw [matched] at swept
            exact ih swept
          · rename_i matched
            rw [matched] at swept
            exact swept
        · exact cached

/-- The rule for `match_order`, which gives the trade slots back at its end. -/
theorem matchOrder
    (release : ∀ engine trades, keeps engine → keeps { engine with pools.trades := trades })
    (holds : keeps { engine with affectedMakersBuf := [], fillsBuf := [] }) :
    EndsWith keeps fails (engine.matchOrder order) := by
  have swept := @LoopRule.matchLevels order keeps fails ⟨_, 0, []⟩ rule holds
    ((engine.book order.side.opposite).arena.length + 1)
  unfold MatchingEngine.matchOrder
  simp only
  split
  · rename_i matched
    rw [matched] at swept
    exact release _ _ swept
  · rename_i matched
    rw [matched] at swept
    exact swept

end

end LoopRule

@[simp] theorem tradeSequence_setBook (engine : MatchingEngine) (side : Side)
    (list : SkipList) : (engine.setBook side list).tradeSequence = engine.tradeSequence := by
  cases side <;> rfl

theorem tradeSequence_forget (engine : MatchingEngine) (orderId : Nat) :
    (engine.forget orderId).tradeSequence = engine.tradeSequence ∧
      (engine.forget orderId).fillsBuf = engine.fillsBuf := by
  unfold forget
  split <;> exact ⟨rfl, rfl⟩

theorem tradeSequence_fillResting (engine : MatchingEngine) (orderId : Nat) (lots : Int) :
    (engine.fillResting orderId lots).tradeSequence = engine.tradeSequence ∧
      (engine.fillResting orderId lots).fillsBuf = engine.fillsBuf := by
  unfold fillResting
  split <;> exact ⟨rfl, rfl⟩

theorem tradeSequence_applyFill (engine : MatchingEngine) (order : Order) (fill : Fill) :
    (engine.applyFill order fill).tradeSequence = engine.tradeSequence ∧
      (engine.applyFill order fill).fillsBuf = engine.fillsBuf ++ [fill] := by
  have taker := (engine.noteFill fill).tradeSequence_fillResting order.id fill.lots
  have maker := ((engine.noteFill fill).fillResting order.id
    fill.lots).tradeSequence_fillResting fill.makerId fill.lots
  simp only [applyFill, tradeSequence_setBook, fillsBuf_setBook]
  exact ⟨maker.1.trans taker.1, maker.2.trans taker.2⟩

theorem tradeSequence_matchOrder (matched : engine.matchOrder order = (engine', .ok filled)) :
    engine'.tradeSequence = engine.tradeSequence + engine'.fillsBuf.length := by
  have rule : LoopRule order
      (fun other => other.tradeSequence = engine.tradeSequence + other.fillsBuf.length)
      fun _ => True :=
    { setBook := fun other side list holds => by simpa using holds
      unlink := fun other orderId holds => holds
      forget := fun other orderId holds => by
        rw [(other.tradeSequence_forget orderId).1, (other.tradeSequence_forget orderId).2]
        exact holds
      trade := fun other fill trades index holds _ => by
        show (other.applyFill order fill).tradeSequence + 1 =
          engine.tradeSequence + (other.applyFill order fill).fillsBuf.length
        rw [(other.tradeSequence_applyFill order fill).1,
          (other.tradeSequence_applyFill order fill).2, holds, List.length_append,
          List.length_singleton, Nat.add_assoc]
      noSlot := fun _ _ _ _ => trivial }
  have counted := rule.matchOrder (fun _ _ holds => holds)
    (rfl : engine.tradeSequence = engine.tradeSequence + 0)
  rw [matched] at counted
  exact counted

end LightningX.Matching.MatchingEngine
