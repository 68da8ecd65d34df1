import LightningX.Exchange.FrontEnd
import LightningX.Persist.Frames
import Mathlib.Algebra.Order.Ring.Rat

/-!
# Books seeded from the orders table

How `main` of `bin/exchange_engine.rs` fills the books of its threads from the
rows of open orders when no journal is configured.  Releasing the funds of
orders in crossed books is left out.
-/

namespace LightningX.Exchange

open Desk (DbOrderStatus SymbolRules)
open Matching
open Persist (Bytes OrderColumns)
open Binary64 (roundHalfAway)

def toUnits (value step : Int) : Option Int :=
  if value ≤ 0 ∨ step ≤ 0 then none
  else
    let units : Rat := value / step
    if units > 2 ^ 63 then none
    else
      let rounded := roundHalfAway units
      if |units - rounded| < max |units| 1 / 1000000000 then
        some (min rounded (2 ^ 63 - 1))
      else none

/-- The text `market`. -/
def marketType : Bytes := [109, 97, 114, 107, 101, 116]

/-- The text `ioc`. -/
def iocType : Bytes := [105, 111, 99]

/-- The order is selected by `status IN ('PENDING', 'TRADING')`. -/
def isOpenStatus : DbOrderStatus → Bool
  | .pending | .trading => true
  | _ => false

variable (rules : SymbolRules)

/-- The order of a row, if it can be restored. -/
def rowOrder (id : Int) (columns : OrderColumns) : Option Order :=
  if columns.orderType = marketType ∨
      columns.orderType = iocType ∧ columns.priceAtoms = none then none
  else
    let remaining := columns.quantityAtoms - columns.filledAtoms
    if remaining ≤ 0 then none
    else do
      let priceTicks ← toUnits (columns.priceAtoms.getD 0) rules.priceTickAtoms
      let quantityLots ← toUnits remaining rules.quantityStepAtoms
      return Order.new (id % 2 ^ 64).toNat columns.side priceTicks quantityLots .gtc 0

/-- The engine and the participants restored so far. -/
abbrev Seed := MatchingEngine × KeyedMap Nat (Int × Nat)

/-- `order_update_stream_for_desk(0)`, the stream on which restored orders are
answered. -/
def seedStream : Nat := 200

/-- One row of the restore loop. -/
def seedRow (seed : Seed) (row : Int × OrderColumns) : Seed :=
  match rowOrder rules row.1 row.2 with
  | none => seed
  | some order =>
    match seed.1.addToBook order with
    | (engine, .ok ()) => (engine, seed.2.insert order.id (row.2.userId, seedStream))
    | (engine, .error _) => (engine, seed.2)

/-- The best bid is not below the best ask. -/
def isCrossed (engine : MatchingEngine) : Bool :=
  match (engine.book .buy).getTopLevels 1, (engine.book .sell).getTopLevels 1 with
  | (bid, _) :: _, (ask, _) :: _ => decide (bid ≥ ask)
  | _, _ => false

/-- The engine and the participants of a symbol after the restore.  The rows are
in the order of their identifiers. -/
def seedBook (config : PoolConfig) (rules : SymbolRules) (symbol : Nat)
    (rows : List (Int × OrderColumns)) : Seed :=
  let own := rows.filter fun row => isOpenStatus row.2.status ∧ row.2.symbol = symbol
  let seed := own.foldl (seedRow rules) (MatchingEngine.new config, ∅)
  if isCrossed seed.1 then (MatchingEngine.new config, ∅) else seed

/-- The thread that is started with a seeded book. -/
def FrontEnd.seeded (breaker : CircuitBreaker) (config : PoolConfig)
    (rows : List (Int × OrderColumns)) (front : FrontEnd) : FrontEnd :=
  let seed := seedBook config rules front.symbol rows
  { FrontEnd.new front.symbol front.limits breaker config with
    engine := seed.1
    uidMap := seed.2 }

end LightningX.Exchange
