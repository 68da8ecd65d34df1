import LightningX.Matching.Engine.Pairs
import LightningX.Persist.TradeSettlement

/-!
# One row for each trade

`trades` has one row for each pair of orders, and both `flush_trades` and
`settle_trade_atoms` pass over a pair that has its row.  Two orders trade at most once with
each other, so they pass over no trade of the matching engine.
-/

namespace LightningX

open List

namespace Matching

/-- The columns `buy_order_id` and `sell_order_id`: the identifiers cast to `i64`. -/
def Execution.pair (execution : Execution) : Int × Int :=
  (wrapI64 execution.buyOrderId, wrapI64 execution.sellOrderId)

/-- Different `u64` are different when cast to `i64`. -/
theorem wrapI64_injOn {first second : Nat} (firstFits : first < 2 ^ 64)
    (secondFits : second < 2 ^ 64) (same : wrapI64 first = wrapI64 second) : first = second := by
  obtain ⟨firstTurns, firstEq⟩ := exists_wrapI64_eq first
  obtain ⟨secondTurns, secondEq⟩ := exists_wrapI64_eq second
  omega

/-- The trades of a run in which orders have their own identifiers have different pairs. -/
theorem MatchingEngine.pairs_nodup (config : PoolConfig) (distinct : (placedBy calls).Nodup)
    (ids : ∀ orderId ∈ placedBy calls, orderId < 2 ^ 64) :
    (((new config).tradeHistory calls).map Execution.pair).Nodup := by
  obtain ⟨book, -, paired⟩ := paired_run config distinct
  have fits : ∀ execution ∈ (new config).tradeHistory calls,
      execution.buyOrderId < 2 ^ 64 ∧ execution.sellOrderId < 2 ^ 64 := fun execution mem =>
    ⟨ids _ (paired.placed execution mem _ (Sym2.mem_mk_left _ _)),
      ids _ (paired.placed execution mem _ (Sym2.mem_mk_right _ _))⟩
  refine pairwise_map.mpr ((pairwise_map.mp paired.once).imp_of_mem ?_)
  intro first second isFirst isSecond apart same
  obtain ⟨buyEq, sellEq⟩ := Prod.mk.inj same
  refine apart ?_
  rw [Execution.orders, Execution.orders,
    wrapI64_injOn (fits first isFirst).1 (fits second isSecond).1 buyEq,
    wrapI64_injOn (fits first isFirst).2 (fits second isSecond).2 sellEq]

end Matching

namespace Persist

open Matching (Call Execution MatchingEngine PoolConfig placedBy)

/-- Calls with other pairs leave the pair of a call unrecorded. -/
theorem Database.recordTrade_isSome {db : Database} (isPair : settlement.pair = some pair)
    (free : pair ∉ db.trades) (others : ∀ other ∈ earlier, other.pair ≠ some pair) :
    (recordTrade (db.settleAll earlier).trades settlement).isSome = true := by
  have unrecorded : pair ∉ (db.settleAll earlier).trades := by
    rw [mem_trades_settleAll]
    rintro (recorded | ⟨other, isSettled, samePair⟩)
    · exact free recorded
    · exact others other ((db.settled_sublist earlier).subset isSettled) samePair
  unfold recordTrade
  unfold TradeSettlement.pair at isPair
  cases isRecord : settlement.trade with
  | none => rfl
  | some record =>
    rw [isRecord] at isPair
    cases isPair
    simp [unrecorded]

/-- In a run that gives every order its own identifier two orders trade at most once with
each other.  Whatever order the trades arrive in, `flush_trades` stores the row of every one
and `settle_trade_atoms` takes none for a repetition. -/
theorem trades_recorded (config : PoolConfig) (calls : List Call)
    (distinct : (placedBy calls).Nodup) (ids : ∀ orderId ∈ placedBy calls, orderId < 2 ^ 64) :
    (((MatchingEngine.new config).tradeHistory calls).map Execution.orders).Nodup ∧
      ∀ delivered, delivered ~ (MatchingEngine.new config).tradeHistory calls →
      ∀ db : Database, (∀ execution ∈ delivered, execution.pair ∉ db.trades) →
        (∀ columns : Execution → TradeColumns, ∀ execution ∈ delivered,
          (db.trades.writes (flushTrades (delivered.map fun execution =>
            ⟨execution.pair.1, execution.pair.2, columns execution⟩))).lookup execution.pair =
              some (columns execution)) ∧
        ∀ settlement : Execution → TradeSettlement,
          (∀ execution ∈ delivered, (settlement execution).pair = some execution.pair) →
          ∀ before execution rest, delivered = before ++ execution :: rest →
            (recordTrade (db.settleAll (before.map settlement)).trades
              (settlement execution)).isSome = true := by
  obtain ⟨book, -, paired⟩ := MatchingEngine.paired_run config distinct
  refine ⟨paired.once, fun delivered same db free => ?_⟩
  have pairs : (delivered.map Execution.pair).Nodup :=
    (same.map _).nodup_iff.mpr (MatchingEngine.pairs_nodup config distinct ids)
  refine ⟨fun columns execution member => ?_, fun settlement isPair => ?_⟩
  · have stored := Table.lookup_writes_of_nodup Execution.pair columns pairs member
      (Finmap.lookup_eq_none.mpr (free execution member))
    have rows : flushTrades (delivered.map fun execution =>
        ⟨execution.pair.1, execution.pair.2, columns execution⟩) =
        delivered.map fun execution => ⟨execution.pair, (·.or (some (columns execution)))⟩ := by
      rw [flushTrades, map_map]
      refine map_congr_left fun execution _ => ?_
      rw [Function.comp_apply]
    rw [rows, stored]
  · rintro before execution rest rfl
    rw [map_append, nodup_append] at pairs
    refine Database.recordTrade_isSome (isPair execution (by simp)) (free execution (by simp)) ?_
    intro other member samePair
    obtain ⟨earlier, isEarlier, rfl⟩ := mem_map.mp member
    rw [isPair earlier (by simp [isEarlier])] at samePair
    exact pairs.2.2 _ (mem_map_of_mem isEarlier) _ (by simp) (Option.some.inj samePair)

/-- An order that trades as taker and then as maker. -/
theorem trades_recorded_takerThenMaker :
    (((MatchingEngine.new ⟨4, 4⟩).tradeHistory [.place (.limit 1 .sell 100 2 .gtc 0),
      .place (.limit 2 .buy 100 5 .gtc 1), .place (.limit 3 .sell 100 1 .ioc 2),
      .place (.limit 4 .sell 90 9 .ioc 3)]).map Execution.orders).Nodup :=
  (trades_recorded ⟨4, 4⟩ _ (by decide) (by decide)).1

end Persist
end LightningX
