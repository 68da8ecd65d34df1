import LightningX.Desk.State
import LightningX.Lib.Binary64
import LightningX.Lib.Table

/-!
# Persist frames and their decoding

The frames a desk publishes for its writers (`transport/persist_event.rs`) and
how `PgWriteBatch::push` in `desk/pg_store.rs` turns a frame into a row.  A
floating point number is its value; operations round.  The names of symbols and assets are
numbers, where 0 stands for bytes that do not spell a name.  Padding and the
layout of frames in memory are left out.
-/

namespace LightningX.Persist

open Binary64
open Desk (Asset DbOrderStatus)
open Matching (Side)
open Risk (PositionSide RiskStatus Symbol UserId)

abbrev Bytes := List UInt8

/-- `pack_str`: a text cut to `length` bytes and padded with zeros. -/
def packStr (length : Nat) (text : Bytes) : Bytes :=
  text.take length ++ List.replicate (length - text.length) 0

/-- The ranges of the bytes that complete a character, by its first byte. -/
def continuation (first : UInt8) : Option (List (UInt8 × UInt8)) :=
  if first ≤ 0x7F then some []
  else if 0xC2 ≤ first ∧ first ≤ 0xDF then some [(0x80, 0xBF)]
  else if first = 0xE0 then some [(0xA0, 0xBF), (0x80, 0xBF)]
  else if first = 0xED then some [(0x80, 0x9F), (0x80, 0xBF)]
  else if 0xE1 ≤ first ∧ first ≤ 0xEF then some [(0x80, 0xBF), (0x80, 0xBF)]
  else if first = 0xF0 then some [(0x90, 0xBF), (0x80, 0xBF), (0x80, 0xBF)]
  else if 0xF1 ≤ first ∧ first ≤ 0xF3 then
    some [(0x80, 0xBF), (0x80, 0xBF), (0x80, 0xBF)]
  else if first = 0xF4 then some [(0x80, 0x8F), (0x80, 0xBF), (0x80, 0xBF)]
  else none

/-- The next byte of a text, with the ranges of the bytes that are still to come. -/
def utf8Step (pending : List (UInt8 × UInt8)) (byte : UInt8) :
    Option (List (UInt8 × UInt8)) :=
  match pending with
  | [] => continuation byte
  | (low, high) :: rest => if low ≤ byte ∧ byte ≤ high then some rest else none

/-- `str::from_utf8` succeeds. -/
def validUtf8 (bytes : Bytes) : Bool :=
  decide (bytes.foldlM utf8Step [] = some [])

/-- `unpack_str`: the bytes before the first zero, or nothing if they are not text. -/
def unpackStr (bytes : Bytes) : Bytes :=
  let text := bytes.takeWhile (· ≠ 0)
  if validUtf8 text then text else []

/-- An `f64`. -/
inductive WireFloat
  | finite (value : Rat)
  | nonFinite
  deriving DecidableEq

namespace WireFloat

def isZero (number : WireFloat) : Bool :=
  decide (number = finite 0)

/-- `AmountAtoms::from_f64_round`; the cast of `2 ^ 63` saturates. -/
def toAtoms : WireFloat → Option Int
  | nonFinite => none
  | finite value =>
    let scaled := roundHalfAway (nearest (value * 100000000))
    if scaled > 2 ^ 63 ∨ scaled < -2 ^ 63 then none
    else some (min scaled (2 ^ 63 - 1))

/-- `AmountAtoms::to_f64`. -/
def ofAtoms (atoms : Int) : WireFloat :=
  finite (nearest (nearest atoms / 100000000))

/-- The error of an amount after the division by the scale and the multiplication. -/
theorem abs_sub_scaled_lt {atoms : ℚ} (large : 1 ≤ |atoms|) (small : |atoms| + 1 ≤ 2 ^ 51) :
    |nearest (nearest (atoms / 100000000) * 100000000) - atoms| < 1 / 2 := by
  have nonzero : atoms ≠ 0 := abs_pos.mp (by linarith)
  have scale : |(100000000 : ℚ)| = 100000000 := abs_of_pos (by decide)
  have first : |atoms / 100000000 - nearest (atoms / 100000000)| ≤
      |atoms / 100000000| / 2 ^ 53 := by
    refine abs_sub_nearest_le_mul ((by decide : (-1022 : Int) ≤ -27).trans (le_log ?_ ?_))
    · exact div_ne_zero nonzero (by decide)
    · rw [abs_div, scale, le_div_iff₀ (by decide)]
      exact le_trans (by decide +kernel) large
  generalize nearest (atoms / 100000000) = sent at first ⊢
  have back : |atoms - sent * 100000000| ≤ |atoms| / 2 ^ 53 := by
    have split : atoms - sent * 100000000 = (atoms / 100000000 - sent) * 100000000 := by
      rw [sub_mul, div_mul_cancel₀ _ (by decide)]
    rw [abs_div, scale] at first
    rw [split, abs_mul, scale]
    linarith
  have near := abs_sub_abs_le_abs_sub atoms (sent * 100000000)
  have far := abs_sub_abs_le_abs_sub (sent * 100000000) atoms
  rw [abs_sub_comm _ atoms] at far
  have second := @abs_sub_nearest_le_mul (sent * 100000000) <|
    (by decide : (-1022 : Int) ≤ -1).trans (le_log (abs_pos.mp (by linarith)) (by
      rw [zpow_neg_one]
      linarith))
  have sum := abs_sub_le (nearest (sent * 100000000)) (sent * 100000000) atoms
  rw [abs_sub_comm _ (sent * 100000000), abs_sub_comm (sent * 100000000) atoms] at sum
  linarith

/-- Amounts below `2 ^ 51` come back from their doubles. -/
theorem toAtoms_ofAtoms {atoms : Int} (small : |atoms| < 2 ^ 51) :
    (ofAtoms atoms).toAtoms = some atoms := by
  by_cases zero : atoms = 0
  · subst zero
    decide +kernel
  have whole : nearest atoms = atoms := nearest_intCast (small.trans (by decide))
  have rounded := roundHalfAway_eq (@abs_sub_scaled_lt atoms
    (by exact_mod_cast Int.one_le_abs zero) (by exact_mod_cast small))
  obtain ⟨lower, upper⟩ := abs_lt.mp small
  unfold ofAtoms toAtoms
  rw [whole]
  simp only [rounded]
  rw [if_neg (by omega), min_eq_left (by omega)]

end WireFloat

structure OrderUpsertPayload where
  id : Int
  userId : UserId
  symbol : Symbol
  side : Nat
  status : Nat
  orderType : Bytes
  price : WireFloat
  qty : WireFloat
  filled : WireFloat
  freezePrice : WireFloat
  clientOrderId : Bytes
  createdAtMs : Int
  deriving DecidableEq

structure OrderFillUpdatePayload where
  id : Int
  filled : WireFloat
  status : Nat
  deriving DecidableEq

structure AccountSetPayload where
  userId : UserId
  asset : Asset
  balance : WireFloat
  frozen : WireFloat
  balanceAtoms : Int
  frozenAtoms : Int
  deriving DecidableEq

structure TradeInsertPayload where
  buyOrderId : Int
  sellOrderId : Int
  symbol : Symbol
  price : WireFloat
  qty : WireFloat
  tsMs : Int
  deriving DecidableEq

structure MatchingEventPayload where
  sequence : Nat
  responseStreamId : Int
  eventKind : Nat
  orderId : Int
  clientOrderId : Int
  participantId : Int
  counterpartyOrderId : Int
  symbol : Symbol
  priceTicks : Int
  quantityLots : Int
  remainingLots : Int
  tsNs : Nat
  deriving DecidableEq

structure PositionUpsertPayload where
  userId : UserId
  symbol : Symbol
  side : Nat
  leverage : Nat
  qtyLots : Int
  entryPriceTicks : Int
  usedMarginAtoms : Int
  costAtoms : Int
  deriving DecidableEq

structure RiskAccountSetPayload where
  userId : UserId
  equityAtoms : Int
  usedMarginAtoms : Int
  orderMarginAtoms : Int
  status : Nat
  deriving DecidableEq

structure FundingSettledPayload where
  symbol : Symbol
  rateE9 : Int
  markPriceTicks : Int
  notionalScale : Int
  settledAtMs : Int
  nextSettlementAtMs : Int
  deriving DecidableEq

/-- The payload of a frame, by `PersistKind`. -/
inductive Payload
  | orderUpsert (payload : OrderUpsertPayload)
  | orderDelete (id : Int)
  | orderFillUpdate (payload : OrderFillUpdatePayload)
  | accountSet (payload : AccountSetPayload)
  | tradeInsert (payload : TradeInsertPayload)
  | matchingEvent (payload : MatchingEventPayload)
  | positionUpsert (payload : PositionUpsertPayload)
  | positionDelete (userId : UserId) (symbol : Symbol)
  | riskAccountSet (payload : RiskAccountSetPayload)
  | insuranceFundSet (balanceAtoms : Int)
  | fundingSettled (payload : FundingSettledPayload)
  | unknownKind
  deriving DecidableEq

structure PersistFrame where
  publisherId : Nat
  seq : UInt64
  payload : Payload
  deriving DecidableEq

def PersistFrame.isFunding (frame : PersistFrame) : Bool :=
  match frame.payload with
  | .fundingSettled _ => true
  | _ => false

structure OrderColumns where
  userId : UserId
  symbol : Symbol
  side : Side
  orderType : Bytes
  priceAtoms : Option Int
  quantityAtoms : Int
  filledAtoms : Int
  status : DbOrderStatus
  freezePriceAtoms : Int
  clientOrderId : Option Bytes
  createdAt : Int
  deriving DecidableEq

structure UpsertRow where
  id : Int
  columns : OrderColumns
  deriving DecidableEq

structure FillRow where
  id : Int
  filledAtoms : Int
  status : DbOrderStatus
  deriving DecidableEq

structure AccountColumns where
  balanceAtoms : Int
  frozenAtoms : Int
  deriving DecidableEq

structure AccountRow where
  userId : UserId
  asset : Asset
  columns : AccountColumns
  deriving DecidableEq

structure TradeColumns where
  symbol : Symbol
  priceAtoms : Int
  qtyAtoms : Int
  createdAt : Int
  deriving DecidableEq

structure TradeRow where
  buyOrderId : Int
  sellOrderId : Int
  columns : TradeColumns
  deriving DecidableEq

structure PositionColumns where
  side : PositionSide
  qtyLots : Int
  entryPriceTicks : Int
  leverage : Nat
  usedMarginAtoms : Int
  costAtoms : Int
  deriving DecidableEq

/-- `PositionOp`, with the row it leaves; none for `Delete`. -/
structure PositionOp where
  userId : UserId
  symbol : Symbol
  columns : Option PositionColumns
  deriving DecidableEq

structure RiskAccountColumns where
  equityAtoms : Int
  usedMarginAtoms : Int
  orderMarginAtoms : Int
  status : RiskStatus
  deriving DecidableEq

structure RiskAccountRow where
  userId : UserId
  columns : RiskAccountColumns
  deriving DecidableEq

/-- What a frame becomes in a batch. -/
inductive Row
  | upsert (row : UpsertRow)
  | delete (id : Int)
  | fill (row : FillRow)
  | account (row : AccountRow)
  | trade (row : TradeRow)
  | matchingEvent (row : MatchingEventPayload)
  | position (op : PositionOp)
  | riskAccount (row : RiskAccountRow)
  | insuranceFund (balanceAtoms : Int)
  | funding (payload : FundingSettledPayload)
  deriving DecidableEq

/-- Why a frame is skipped: the fields of `SkipCounts`. -/
inductive SkipReason
  | unknownKind
  | upsertBadStatus
  | upsertBadTimestamp
  | upsertEmptyString
  | fillBadStatus
  | accountEmptyAsset
  | tradeEmptySymbol
  | tradeBadTimestamp
  | matchingEmptySymbol
  | matchingBadTimestamp
  | payloadDecodeFailed
  | amountAtomsInvalid
  deriving DecidableEq

def statusStr : Nat → Option DbOrderStatus
  | 0 => some .pending
  | 1 => some .trading
  | 2 => some .completed
  | 3 => some .canceled
  | 4 => some .rejected
  | _ => none

def sideStr (code : Nat) : Side :=
  if code = 0 then .buy else .sell

def positionSideOf : Nat → Option PositionSide
  | 0 => some .long
  | 1 => some .short
  | _ => none

def riskStatusOf : Nat → Option RiskStatus
  | 0 => some .normal
  | 1 => some .marginCall
  | 2 => some .liquidationPending
  | 3 => some .liquidating
  | 4 => some .liquidated
  | 5 => some .bankruptcy
  | _ => none

/-- `from_unix_ms`: the milliseconds a `DateTime` can hold. -/
def fromUnixMs (ms : Int) : Option Int :=
  if -8334601228800000 ≤ ms ∧ ms ≤ 8210266876799999 then some ms else none

/-- An optional value, or the reason to skip. -/
def orSkip {α : Type} (reason : SkipReason) : Option α → Except SkipReason α
  | none => .error reason
  | some value => .ok value

/-- A text that may not be empty. -/
def nonEmpty {α : Type} (reason : SkipReason) (empty : Bool) (value : α) :
    Except SkipReason α :=
  if empty then .error reason else .ok value

/-- `push_upsert`.  A price of zero is a market order. -/
def pushUpsert (payload : OrderUpsertPayload) : Except SkipReason UpsertRow := do
  let status ← orSkip .upsertBadStatus (statusStr payload.status)
  let createdAt ← orSkip .upsertBadTimestamp (fromUnixMs payload.createdAtMs)
  let orderType := unpackStr payload.orderType
  let clientOrderId := unpackStr payload.clientOrderId
  let symbol ← nonEmpty .upsertEmptyString
    (decide (payload.symbol = 0 ∨ orderType = [])) payload.symbol
  let quantityAtoms ← orSkip .amountAtomsInvalid payload.qty.toAtoms
  let filledAtoms ← orSkip .amountAtomsInvalid payload.filled.toAtoms
  let priceAtoms ←
    if payload.price.isZero then .ok none
    else (orSkip .amountAtomsInvalid payload.price.toAtoms).map some
  let freezePriceAtoms ← orSkip .amountAtomsInvalid payload.freezePrice.toAtoms
  return {
    id := payload.id
    columns := {
      userId := payload.userId
      symbol := symbol
      side := sideStr payload.side
      orderType := orderType
      priceAtoms := priceAtoms
      quantityAtoms := quantityAtoms
      filledAtoms := filledAtoms
      status := status
      freezePriceAtoms := freezePriceAtoms
      clientOrderId := if clientOrderId = [] then none else some clientOrderId
      createdAt := createdAt } }

def pushFill (payload : OrderFillUpdatePayload) : Except SkipReason FillRow := do
  let status ← orSkip .fillBadStatus (statusStr payload.status)
  let filledAtoms ← orSkip .amountAtomsInvalid payload.filled.toAtoms
  return { id := payload.id, filledAtoms := filledAtoms, status := status }

/-- The atoms of a frame, or those of its floating point number if it has none. -/
def atomsOrFloat (atoms : Int) (number : WireFloat) : Except SkipReason Int :=
  if atoms = 0 ∧ number.isZero = false then orSkip .payloadDecodeFailed number.toAtoms
  else .ok atoms

def pushAccount (payload : AccountSetPayload) : Except SkipReason AccountRow := do
  let asset ← nonEmpty .accountEmptyAsset (decide (payload.asset = 0)) payload.asset
  let balanceAtoms ← atomsOrFloat payload.balanceAtoms payload.balance
  let frozenAtoms ← atomsOrFloat payload.frozenAtoms payload.frozen
  return {
    userId := payload.userId
    asset := asset
    columns := { balanceAtoms := balanceAtoms, frozenAtoms := frozenAtoms } }

def pushTrade (payload : TradeInsertPayload) : Except SkipReason TradeRow := do
  let symbol ← nonEmpty .tradeEmptySymbol (decide (payload.symbol = 0)) payload.symbol
  let createdAt ← orSkip .tradeBadTimestamp (fromUnixMs payload.tsMs)
  let priceAtoms ← orSkip .amountAtomsInvalid payload.price.toAtoms
  let qtyAtoms ← orSkip .amountAtomsInvalid payload.qty.toAtoms
  return {
    buyOrderId := payload.buyOrderId
    sellOrderId := payload.sellOrderId
    columns := {
      symbol := symbol
      priceAtoms := priceAtoms
      qtyAtoms := qtyAtoms
      createdAt := createdAt } }

def pushMatchingEvent (payload : MatchingEventPayload) :
    Except SkipReason MatchingEventPayload :=
  if payload.symbol = 0 then .error .matchingEmptySymbol
  else if payload.sequence > 2 ^ 63 - 1 ∨ payload.tsNs > 2 ^ 63 - 1 then
    .error .matchingBadTimestamp
  else .ok payload

/-- The row of a `PositionUpsert` frame. -/
def pushPosition (payload : PositionUpsertPayload) : Except SkipReason PositionOp := do
  let side ← orSkip .payloadDecodeFailed (positionSideOf payload.side)
  return {
    userId := payload.userId
    symbol := payload.symbol
    columns := some {
      side := side
      qtyLots := payload.qtyLots
      entryPriceTicks := payload.entryPriceTicks
      leverage := payload.leverage
      usedMarginAtoms := payload.usedMarginAtoms
      costAtoms := payload.costAtoms } }

/-- The row of a `RiskAccountSet` frame. -/
def pushRiskAccount (payload : RiskAccountSetPayload) :
    Except SkipReason RiskAccountRow := do
  let status ← orSkip .payloadDecodeFailed (riskStatusOf payload.status)
  return {
    userId := payload.userId
    columns := {
      equityAtoms := payload.equityAtoms
      usedMarginAtoms := payload.usedMarginAtoms
      orderMarginAtoms := payload.orderMarginAtoms
      status := status } }

/-- What `push` makes of a frame that is admitted. -/
def Payload.row : Payload → Except SkipReason Row
  | orderUpsert payload => (pushUpsert payload).map .upsert
  | orderDelete id => .ok (.delete id)
  | orderFillUpdate payload => (pushFill payload).map .fill
  | accountSet payload => (pushAccount payload).map .account
  | tradeInsert payload => (pushTrade payload).map .trade
  | matchingEvent payload => (pushMatchingEvent payload).map .matchingEvent
  | positionUpsert payload => (pushPosition payload).map .position
  | positionDelete userId symbol =>
    .ok (.position { userId := userId, symbol := symbol, columns := none })
  | riskAccountSet payload => (pushRiskAccount payload).map .riskAccount
  | insuranceFundSet balanceAtoms => .ok (.insuranceFund balanceAtoms)
  | fundingSettled payload => .ok (.funding payload)
  | unknownKind => .error .unknownKind

end LightningX.Persist
