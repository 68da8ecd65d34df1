import LightningX.Lib.I64

/-!
# Margin arithmetic

`desk/risk/types.rs` and `desk/risk/calc.rs`.  Money is counted in atoms,
prices in ticks and quantities in lots.  Division truncates towards zero.  The
functions take the arithmetic as a parameter: the program runs them with
`Arithmetic.machine`, and `Arithmetic.exact` says what they are meant to
compute.  A zero scale, or a zero leverage in `calc_bankruptcy_price_ticks`,
is a division by zero in the source; configured values are positive.
-/

namespace LightningX.Risk

inductive RiskStatus
  | normal
  | marginCall
  | liquidationPending
  | liquidating
  | liquidated
  | bankruptcy
  deriving DecidableEq, Repr

inductive PositionSide
  | long
  | short
  deriving DecidableEq, Repr

def atomsPerCent : Int := 1000000

section

variable (arith : Arithmetic)

def calcNotionalAtoms (priceTicks qtyLots notionalScale : Int) : Int :=
  arith.i64 ((arith.i128 (priceTicks * qtyLots * atomsPerCent)).tdiv notionalScale)

def calcInitialMarginAtoms (notionalAtoms : Int) (leverage : Nat) : Int :=
  if leverage = 0 then 0 else notionalAtoms.tdiv leverage

def calcMaintenanceMarginAtoms (notionalAtoms rateBps : Int) : Int :=
  arith.i64 ((arith.i128 (notionalAtoms * rateBps)).tdiv 10000)

def calcLiquidationPriceTicks (entryTicks : Int) (leverage : Nat)
    (maintenanceRateBps : Int) (side : PositionSide) : Int :=
  if leverage = 0 then 0
  else
    let factor :=
      match side with
      | .long => leverage * 10000 - 10000 + maintenanceRateBps
      | .short => leverage * 10000 + 10000 - maintenanceRateBps
    arith.i64 ((arith.i128 (entryTicks * factor)).tdiv (leverage * 10000))

def calcBankruptcyPriceTicks (entryTicks : Int) (leverage : Nat) (side : PositionSide) :
    Int :=
  let factor : Int :=
    match side with
    | .long => leverage - 1
    | .short => leverage + 1
  arith.i64 ((arith.i128 (entryTicks * factor)).tdiv leverage)

def calcUnrealizedPnlAtoms (side : PositionSide)
    (qtyLots entryPriceTicks markPriceTicks notionalScale : Int) : Int :=
  let diff :=
    match side with
    | .long => arith.i64 (markPriceTicks - entryPriceTicks)
    | .short => arith.i64 (entryPriceTicks - markPriceTicks)
  arith.i64 ((arith.i128 (diff * qtyLots * atomsPerCent)).tdiv notionalScale)

end

end LightningX.Risk
