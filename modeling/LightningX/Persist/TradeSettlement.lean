import LightningX.Lib.Along
import LightningX.Persist.AccountRepository

/-!
# Settling trades in the database

`settle_trade_atoms` of `desk/account_repository.rs`: the row of the trade and the four
legs of its payment in one transaction.  A repeated pair of orders is taken for a repeated
call and changes nothing.  The audit rows and the foreign key of `accounts` are left out.
-/

namespace LightningX.Persist

open List AccountColumns
open Desk (Asset)
open Risk (Symbol UserId)

/-! ## Amounts -/

def amountScale : Int := 100000000

/-- `AmountAtoms::checked_mul_scaled`. -/
def checkedMulScaled (first second : Int) : Except String Int :=
  if first < 0 ∨ second < 0 then .error "negative amount in scaled multiply"
  else
    let scaled := (first * second + amountScale / 2) / amountScale
    if scaled > i64Max then .error "amount overflows i64 atoms" else .ok scaled

/-- `AmountAtoms::checked_add` and `checked_sub`, of the exact result. -/
def checkedAtoms (atoms : Int) : Except String Int :=
  if InI64 atoms then .ok atoms else .error "amount overflows i64 atoms"

/-! ## Statements -/

structure SettleTradeRecord where
  symbol : Symbol
  buyOrderId : Int
  sellOrderId : Int
  deriving DecidableEq

/-- The unique columns of a trade. -/
def SettleTradeRecord.pair (record : SettleTradeRecord) : Int × Int :=
  (record.buyOrderId, record.sellOrderId)

/-- The arguments of `settle_trade_atoms`, and the time of the call. -/
structure TradeSettlement where
  buyerId : UserId
  sellerId : UserId
  baseAsset : Asset
  quoteAsset : Asset
  price : Int
  quantity : Int
  buyFee : Int
  sellFee : Int
  trade : Option SettleTradeRecord
  now : Int
  deriving DecidableEq

/-- The unique columns of the trade, if it is recorded. -/
def TradeSettlement.pair (settlement : TradeSettlement) : Option (Int × Int) :=
  settlement.trade.map SettleTradeRecord.pair

/-- `INSERT INTO trades … ON CONFLICT DO NOTHING`; nothing for a repeated pair. -/
def recordTrade (trades : Table (Int × Int) TradeColumns) (settlement : TradeSettlement) :
    Option (Table (Int × Int) TradeColumns) :=
  match settlement.trade with
  | none => some trades
  | some record =>
    if record.pair ∈ trades then none
    else
      some (trades.write ⟨record.pair, fun _ => some {
        symbol := record.symbol
        priceAtoms := settlement.price
        qtyAtoms := settlement.quantity
        createdAt := settlement.now }⟩)

/-- A row of `accounts` that the database takes, or not. -/
def storeAccount (accounts : Table Account AccountColumns) (account : Account)
    (columns : AccountColumns) : Except String (Table Account AccountColumns) :=
  if columns.Storable then .ok (accounts.write ⟨account, fun _ => some columns⟩)
  else .error "the database refuses the row"

/-- `UPDATE accounts` of a debit: without a row it matches nothing and succeeds. -/
def debitFrozen (accounts : Table Account AccountColumns) (account : Account) (atoms : Int) :
    Except String (Table Account AccountColumns) :=
  match accounts.lookup account with
  | none => .ok accounts
  | some row => storeAccount accounts account (Funds.debit atoms row)

/-- `INSERT INTO accounts … ON CONFLICT DO UPDATE` of a credit.  The row proposed is checked
also when there is one already. -/
def creditBalance (accounts : Table Account AccountColumns) (account : Account) (atoms : Int) :
    Except String (Table Account AccountColumns) :=
  let proposed : AccountColumns := { balanceAtoms := atoms, frozenAtoms := 0 }
  if proposed.Storable then
    storeAccount accounts account
      (match accounts.lookup account with
       | none => proposed
       | some row => { row with balanceAtoms := row.balanceAtoms + atoms })
  else .error "the database refuses the row"

def settleLegs (accounts : Table Account AccountColumns) (settlement : TradeSettlement)
    (buyerDebit sellerCredit : Int) : Except String (Table Account AccountColumns) := do
  let accounts ← debitFrozen accounts (settlement.buyerId, settlement.quoteAsset) buyerDebit
  let accounts ←
    creditBalance accounts (settlement.buyerId, settlement.baseAsset) settlement.quantity
  let accounts ←
    debitFrozen accounts (settlement.sellerId, settlement.baseAsset) settlement.quantity
  creditBalance accounts (settlement.sellerId, settlement.quoteAsset) sellerCredit

namespace Database

def settleTradeAtoms (db : Database) (settlement : TradeSettlement) :
    Except String Database := do
  let cost ← checkedMulScaled settlement.price settlement.quantity
  let buyerDebit ← checkedAtoms (cost + settlement.buyFee)
  let sellerCredit ← checkedAtoms (cost - settlement.sellFee)
  if sellerCredit < 0 then .error "sell fee exceeds trade cost"
  else
    match recordTrade db.trades settlement with
    | none => return db
    | some trades =>
      let accounts ← settleLegs db.accounts settlement buyerDebit sellerCredit
      return { db with
        accounts := accounts
        trades := trades }

/-- The database after a call; a call that fails is rolled back. -/
def settle (db : Database) (settlement : TradeSettlement) : Database :=
  match db.settleTradeAtoms settlement with
  | .ok after => after
  | .error _ => db

/-- The database after some calls. -/
def settleAll (db : Database) (settlements : List TradeSettlement) : Database :=
  settlements.foldl settle db

/-- The call moves money: it succeeds and its pair is new. -/
def Settles (db : Database) (settlement : TradeSettlement) : Prop :=
  (recordTrade db.trades settlement).isSome = true ∧ (db.settleTradeAtoms settlement).isOk = true
deriving Decidable

/-- The calls of a run that move money. -/
def settled (db : Database) : List TradeSettlement → List TradeSettlement
  | [] => []
  | settlement :: rest =>
    if db.Settles settlement then settlement :: (db.settle settlement).settled rest
    else (db.settle settlement).settled rest

end Database

/-- The balances of an asset, of all users together. -/
def balanceSum (asset : Asset) (accounts : Table Account AccountColumns) : Int :=
  accounts.total fun account row => if account.2 = asset then row.balanceAtoms else 0

def feeSum (asset : Asset) (settlements : List TradeSettlement) : Int :=
  (settlements.map fun settlement =>
    if settlement.quoteAsset = asset then settlement.buyFee + settlement.sellFee else 0).sum

/-! ## Balances -/

def inAsset (account : Account) (atoms : Int) (asset : Asset) : Int :=
  if account.2 = asset then atoms else 0

/-- Statements that keep rows and checks, and change the balances of each asset by some
amount. -/
structure Moves (before after : Table Account AccountColumns) (change : Asset → Int) :
    Prop where
  rows : ∀ account ∈ before, account ∈ after
  checked : before.All Checked → after.All Checked
  sums : ∀ asset, balanceSum asset after = balanceSum asset before + change asset

section

variable {accounts before middle after : Table Account AccountColumns} {account : Account}
  {change : Asset → Int}

theorem Moves.trans (first : Moves before middle change) (second : Moves middle after later) :
    Moves before after fun asset => change asset + later asset where
  rows account present := second.rows account (first.rows account present)
  checked valid := second.checked (first.checked valid)
  sums asset := by
    rw [second.sums, first.sums]
    omega

theorem moves_storeAccount (stored : storeAccount accounts account columns = .ok after) :
    Moves accounts after (inAsset account
      (columns.balanceAtoms - ((accounts.lookup account).map (·.balanceAtoms)).getD 0)) := by
  unfold storeAccount at stored
  split_ifs at stored with storable
  · cases stored
    refine ⟨fun other present => ?_, fun valid => ?_, fun asset => ?_⟩
    · rw [← Finmap.lookup_isSome, Table.lookup_write]
      split_ifs
      · rfl
      · exact Finmap.lookup_isSome.mpr present
    · refine (valid.write_iff _).mpr fun row isRow => ?_
      rw [← Option.some.inj isRow]
      exact storable.1
    · rw [balanceSum, Table.total_write, balanceSum, inAsset, Table.share, Table.share]
      cases accounts.lookup account with
      | none =>
        simp only [Option.map_some, Option.map_none, Option.getD_some, Option.getD_none]
        split_ifs <;> omega
      | some row =>
        simp only [Option.map_some, Option.getD_some]
        split_ifs <;> omega

theorem moves_debitFrozen
    (present : account ∈ accounts) (done : debitFrozen accounts account atoms = .ok after) :
    Moves accounts after (inAsset account (-atoms)) := by
  obtain ⟨row, found⟩ := Option.isSome_iff_exists.mp (Finmap.lookup_isSome.mpr present)
  rw [debitFrozen, found] at done
  have moved := moves_storeAccount done
  rw [found] at moved
  have paid : (Funds.debit atoms row).balanceAtoms - row.balanceAtoms = -atoms := by
    show row.balanceAtoms - atoms - row.balanceAtoms = -atoms
    omega
  rwa [Option.map_some, Option.getD_some, paid] at moved

theorem moves_creditBalance (done : creditBalance accounts account atoms = .ok after) :
    Moves accounts after (inAsset account atoms) := by
  unfold creditBalance at done
  simp only at done
  split_ifs at done
  · have moved := moves_storeAccount done
    cases found : accounts.lookup account with
    | none =>
      rw [found] at moved
      simpa using moved
    | some row =>
      rw [found] at moved
      simpa using moved

end

/-! ## Settlements -/

theorem bind_eq_ok_iff {ε β : Type} {first : Except ε α} {next : α → Except ε β} {result : β} :
    (first >>= next) = .ok result ↔ ∃ value, first = .ok value ∧ next value = .ok result := by
  cases first with
  | error error =>
    constructor
    · rintro ⟨⟩
    · rintro ⟨_, ⟨⟩, -⟩
  | ok value =>
    constructor
    · exact fun done => ⟨value, rfl, done⟩
    · rintro ⟨_, ⟨⟩, done⟩
      exact done

/-- The rows that the debits of a settlement are booked on exist. -/
def TradeSettlement.Booked (settlement : TradeSettlement)
    (accounts : Table Account AccountColumns) : Prop :=
  (settlement.buyerId, settlement.quoteAsset) ∈ accounts ∧
    (settlement.sellerId, settlement.baseAsset) ∈ accounts
deriving Decidable

/-- If both debits have a row, the legs cancel but for what the seller does not get. -/
theorem moves_settleLegs {after : Table Account AccountColumns}
    (booked : settlement.Booked accounts)
    (done : settleLegs accounts settlement buyerDebit sellerCredit = .ok after) :
    Moves accounts after fun asset =>
      if settlement.quoteAsset = asset then sellerCredit - buyerDebit else 0 := by
  obtain ⟨first, paidQuote, done⟩ := bind_eq_ok_iff.mp done
  obtain ⟨second, gotBase, done⟩ := bind_eq_ok_iff.mp done
  obtain ⟨third, paidBase, gotQuote⟩ := bind_eq_ok_iff.mp done
  have moved := moves_debitFrozen booked.1 paidQuote
  have moved := moved.trans (moves_creditBalance gotBase)
  have moved := moved.trans (moves_debitFrozen (moved.rows _ booked.2) paidBase)
  have moved := moved.trans (moves_creditBalance gotQuote)
  refine ⟨moved.rows, moved.checked, fun asset => ?_⟩
  rw [moved.sums asset]
  unfold inAsset
  split_ifs <;> omega

theorem mem_recordTrade {after : Table (Int × Int) TradeColumns}
    (recorded : recordTrade trades settlement = some after) (pair : Int × Int) :
    pair ∈ after ↔ pair ∈ trades ∨ settlement.pair = some pair := by
  unfold recordTrade at recorded
  unfold TradeSettlement.pair
  cases isRecord : settlement.trade with
  | none =>
    rw [isRecord] at recorded
    cases recorded
    simp
  | some record =>
    rw [isRecord] at recorded
    simp only at recorded
    split_ifs at recorded with repeated
    cases recorded
    rw [← Finmap.lookup_isSome, Table.lookup_write, ← Finmap.lookup_isSome, Option.map_some]
    split_ifs with same
    · simp [same]
    · simp [Ne.symm same]

namespace Database

variable {db after : Database} {settlement : TradeSettlement} {pair : Int × Int}

/-- What a call that succeeds does: nothing for a repeated pair, the four legs otherwise. -/
theorem settleTradeAtoms_ok (done : db.settleTradeAtoms settlement = .ok after) :
    recordTrade db.trades settlement = none ∧ after = db ∨
      ∃ trades accounts cost, recordTrade db.trades settlement = some trades ∧
        settleLegs db.accounts settlement (cost + settlement.buyFee)
          (cost - settlement.sellFee) = .ok accounts ∧
        after = { db with accounts := accounts, trades := trades } := by
  have exact_of_checked : ∀ {atoms checked : Int}, checkedAtoms atoms = .ok checked →
      checked = atoms := by
    intro atoms checked isChecked
    unfold checkedAtoms at isChecked
    split_ifs at isChecked
    exact (Except.ok.inj isChecked).symm
  obtain ⟨cost, -, done⟩ := bind_eq_ok_iff.mp done
  obtain ⟨buyerDebit, isDebit, done⟩ := bind_eq_ok_iff.mp done
  obtain ⟨sellerCredit, isCredit, done⟩ := bind_eq_ok_iff.mp done
  obtain rfl := exact_of_checked isDebit
  obtain rfl := exact_of_checked isCredit
  split_ifs at done
  cases recorded : recordTrade db.trades settlement with
  | none =>
    rw [recorded] at done
    exact Or.inl ⟨rfl, (Except.ok.inj done).symm⟩
  | some trades =>
    rw [recorded] at done
    obtain ⟨accounts, legs, isAfter⟩ := bind_eq_ok_iff.mp done
    exact Or.inr ⟨trades, accounts, cost, rfl, legs, (Except.ok.inj isAfter).symm⟩

/-- A call that does not move money changes nothing. -/
theorem settle_of_not_settles (idle : ¬ db.Settles settlement) : db.settle settlement = db := by
  unfold settle
  cases done : db.settleTradeAtoms settlement with
  | error => rfl
  | ok after =>
    rcases settleTradeAtoms_ok done with ⟨-, rfl⟩ | ⟨trades, accounts, cost, recorded, -, -⟩
    · rfl
    · refine absurd ⟨?_, ?_⟩ idle
      · rw [recorded]
        rfl
      · rw [done]
        rfl

/-- What a call that moves money does to the tables. -/
theorem Settles.settle_eq (settles : db.Settles settlement) :
    ∃ trades accounts cost, recordTrade db.trades settlement = some trades ∧
      settleLegs db.accounts settlement (cost + settlement.buyFee)
        (cost - settlement.sellFee) = .ok accounts ∧
      db.settle settlement = { db with accounts := accounts, trades := trades } := by
  obtain ⟨isNew, isOk⟩ := settles
  unfold settle
  cases done : db.settleTradeAtoms settlement with
  | error => simp [done, Except.toBool] at isOk
  | ok after =>
    rcases settleTradeAtoms_ok done with ⟨repeated, -⟩ | moved
    · simp [repeated] at isNew
    · exact moved

/-- The pair of the call is recorded, or the rows of its debits exist. -/
def Booked (db : Database) (settlement : TradeSettlement) : Prop :=
  recordTrade db.trades settlement = none ∨ settlement.Booked db.accounts
deriving Decidable

/-- Every call of a run finds its pair recorded or its rows. -/
def RunBooked (db : Database) (settlements : List TradeSettlement) : Prop :=
  Along settle Booked db settlements
deriving Decidable

/-- The balances after a call whose debits have their rows. -/
theorem moves_settle (booked : db.Booked settlement) :
    Moves db.accounts (db.settle settlement).accounts fun asset =>
      if db.Settles settlement ∧ settlement.quoteAsset = asset then
        -(settlement.buyFee + settlement.sellFee)
      else 0 := by
  by_cases settles : db.Settles settlement
  · obtain ⟨trades, accounts, cost, recorded, legs, after⟩ := settles.settle_eq
    have rows : settlement.Booked db.accounts := by
      refine booked.resolve_left fun repeated => ?_
      rw [repeated] at recorded
      cases recorded
    have moved := moves_settleLegs rows legs
    rw [after]
    refine ⟨moved.rows, moved.checked, fun asset => ?_⟩
    rw [moved.sums asset]
    simp only [settles, true_and]
    split_ifs <;> omega
  · rw [settle_of_not_settles settles]
    refine ⟨fun _ present => present, id, fun asset => ?_⟩
    rw [if_neg fun both => settles both.1, Int.add_zero]

/-- The trades after a call. -/
theorem mem_trades_settle (pair : Int × Int) :
    pair ∈ (db.settle settlement).trades ↔
      pair ∈ db.trades ∨ db.Settles settlement ∧ settlement.pair = some pair := by
  by_cases settles : db.Settles settlement
  · obtain ⟨trades, accounts, cost, recorded, -, after⟩ := settles.settle_eq
    rw [after, mem_recordTrade recorded]
    simp [settles]
  · rw [settle_of_not_settles settles]
    simp [settles]

/-- A call that moves money has a pair that is not recorded. -/
theorem Settles.fresh (settles : db.Settles settlement) (isPair : settlement.pair = some pair) :
    pair ∉ db.trades := by
  have isNew := settles.1
  unfold recordTrade at isNew
  unfold TradeSettlement.pair at isPair
  cases isRecord : settlement.trade with
  | none => simp [isRecord] at isPair
  | some record =>
    rw [isRecord] at isNew isPair
    cases isPair
    intro repeated
    simp [repeated] at isNew

/-- The balances after a run. -/
theorem moves_settleAll (booked : db.RunBooked settlements) :
    Moves db.accounts (db.settleAll settlements).accounts fun asset =>
      -feeSum asset (db.settled settlements) := by
  induction settlements generalizing db with
  | nil => exact ⟨fun _ present => present, id, fun asset => by simp [settled, feeSum, settleAll]⟩
  | cons settlement rest ih =>
    have moved := (moves_settle booked.1).trans (ih booked.2)
    refine ⟨moved.rows, moved.checked, fun asset => ?_⟩
    rw [settleAll, foldl_cons, ← settleAll, moved.sums asset, settled]
    by_cases settles : db.Settles settlement
    · simp only [settles, if_true, true_and, feeSum, map_cons, sum_cons]
      split_ifs <;> omega
    · simp [settles]

/-- The trades after a run are those before and those of the calls that moved money. -/
theorem mem_trades_settleAll (settlements : List TradeSettlement) (pair : Int × Int) :
    pair ∈ (db.settleAll settlements).trades ↔
      pair ∈ db.trades ∨ ∃ settlement ∈ db.settled settlements, settlement.pair = some pair := by
  induction settlements generalizing db with
  | nil => simp [settleAll, settled]
  | cons settlement rest ih =>
    rw [settleAll, foldl_cons, ← settleAll, ih, mem_trades_settle, settled]
    by_cases settles : db.Settles settlement
    · simp [settles, or_assoc]
    · simp [settles]

theorem fresh_of_mem_settled (mem : settlement ∈ db.settled settlements)
    (isPair : settlement.pair = some pair) : pair ∉ db.trades := by
  induction settlements generalizing db with
  | nil => cases mem
  | cons first rest ih =>
    have later : settlement ∈ (db.settle first).settled rest → pair ∉ db.trades :=
      fun inRest early => ih inRest ((mem_trades_settle pair).mpr (Or.inl early))
    rw [settled] at mem
    split_ifs at mem with settles
    · rcases mem_cons.mp mem with rfl | inRest
      · exact settles.fresh isPair
      · exact later inRest
    · exact later mem

theorem settled_sublist (db : Database) (settlements : List TradeSettlement) :
    (db.settled settlements).Sublist settlements := by
  induction settlements generalizing db with
  | nil => exact List.Sublist.slnil
  | cons settlement rest ih =>
    rw [settled]
    split_ifs
    · exact (ih _).cons_cons settlement
    · exact (ih _).cons settlement

/-- No pair of orders moves money twice. -/
theorem pairwise_settled (db : Database) (settlements : List TradeSettlement) :
    (db.settled settlements).Pairwise fun first second =>
      ∀ pair, first.pair = some pair → second.pair ≠ some pair := by
  induction settlements generalizing db with
  | nil => exact List.Pairwise.nil
  | cons settlement rest ih =>
    rw [settled]
    split_ifs with settles
    · refine pairwise_cons.mpr ⟨fun later mem pair isPair samePair => ?_, ih _⟩
      exact fresh_of_mem_settled mem samePair
        ((mem_trades_settle pair).mpr (Or.inr ⟨settles, isPair⟩))
    · exact ih _

/-- The pair of a call that succeeds is recorded. -/
theorem mem_trades_of_ok (isOk : (db.settleTradeAtoms settlement).isOk = true)
    (isPair : settlement.pair = some pair) : pair ∈ (db.settle settlement).trades := by
  rw [mem_trades_settle]
  by_cases repeated : pair ∈ db.trades
  · exact Or.inl repeated
  · refine Or.inr ⟨⟨?_, isOk⟩, isPair⟩
    unfold recordTrade
    unfold TradeSettlement.pair at isPair
    cases isRecord : settlement.trade with
    | none => rfl
    | some record =>
      rw [isRecord] at isPair
      cases isPair
      simp [repeated]

theorem settleAll_append (db : Database) (first second : List TradeSettlement) :
    db.settleAll (first ++ second) = (db.settleAll first).settleAll second :=
  foldl_append

/-- In a run whose debits find their rows, the balances of each asset change by the fees of
the trades paid in it, once for each pair of orders, calls that fail change nothing, and the
checks of `accounts` hold. -/
theorem settleAll_conserves (db : Database) (settlements : List TradeSettlement)
    (recorded : ∀ settlement ∈ settlements, settlement.trade.isSome = true)
    (valid : db.accounts.All Checked) (booked : db.RunBooked settlements) :
    (∀ asset, balanceSum asset (db.settleAll settlements).accounts =
        balanceSum asset db.accounts - feeSum asset (db.settled settlements)) ∧
      (∀ asset, (∀ settlement ∈ settlements, settlement.quoteAsset ≠ asset) →
        feeSum asset (db.settled settlements) = 0) ∧
      ((db.settled settlements).map TradeSettlement.pair).Nodup ∧
      (∀ before settlement rest, settlements = before ++ settlement :: rest →
        ((db.settleAll before).settleTradeAtoms settlement).isOk = true →
        ∃ pair, settlement.pair = some pair ∧ (pair ∈ db.trades ∨
          ∃ earlier ∈ db.settled settlements, earlier.pair = some pair)) ∧
      (∀ before settlement rest, settlements = before ++ settlement :: rest →
        ((db.settleAll before).settleTradeAtoms settlement).isOk = false →
        db.settleAll (before ++ [settlement]) = db.settleAll before) ∧
      (db.settleAll settlements).accounts.All Checked := by
  have moved := moves_settleAll booked
  have subset := db.settled_sublist settlements
  have pairOf : ∀ settlement ∈ settlements, ∃ pair, settlement.pair = some pair := by
    intro settlement member
    obtain ⟨record, isRecord⟩ := Option.isSome_iff_exists.mp (recorded settlement member)
    exact ⟨record.pair, by rw [TradeSettlement.pair, isRecord]; rfl⟩
  refine ⟨moved.sums, fun asset others => ?_, ?_, ?_, ?_, moved.checked valid⟩
  · refine sum_eq_zero fun fees member => ?_
    obtain ⟨settlement, isSettled, rfl⟩ := mem_map.mp member
    exact if_neg (others settlement (subset.subset isSettled))
  · refine pairwise_map.mpr ((db.pairwise_settled settlements).imp_of_mem ?_)
    intro first second isFirst _ apart same
    obtain ⟨pair, isPair⟩ := pairOf first (subset.subset isFirst)
    exact apart pair isPair (same ▸ isPair)
  · intro before settlement rest split isOk
    obtain ⟨pair, isPair⟩ := pairOf settlement (by simp [split])
    refine ⟨pair, isPair, (mem_trades_settleAll settlements pair).mp ?_⟩
    have now := mem_trades_of_ok isOk isPair
    rw [split, settleAll_append]
    exact (mem_trades_settleAll rest pair).mpr (Or.inl now)
  · intro before settlement rest _ failed
    rw [settleAll_append]
    refine settle_of_not_settles fun settles => ?_
    rw [settles.2] at failed
    cases failed

/-- A trade between two users that hold what they pay, and its repetition. -/
theorem settleAll_conserves_repeated :
    let db : Database := { Database.new with
      accounts := (Table.write (Table.write ∅ ⟨(1, 2), fun _ => some ⟨600, 600⟩⟩)
        ⟨(2, 1), fun _ => some ⟨5, 5⟩⟩) }
    let trade : TradeSettlement := {
      buyerId := 1
      sellerId := 2
      baseAsset := 1
      quoteAsset := 2
      price := 10000000000
      quantity := 5
      buyFee := 2
      sellFee := 3
      trade := some ⟨7, 11, 12⟩
      now := 0 }
    balanceSum 2 (db.settleAll [trade, trade]).accounts =
      balanceSum 2 db.accounts - feeSum 2 (db.settled [trade, trade]) :=
  (settleAll_conserves _ _ (by decide) (by decide +kernel) (by decide +kernel)).1 2

/-- A seller without a row of the base asset: the buyer is credited lots that nobody
delivers. -/
theorem not_settleAll_conserves_noRow :
    let db : Database := { Database.new with
      accounts := Table.write ∅ ⟨(1, 2), fun _ => some ⟨600, 600⟩⟩ }
    let trade : TradeSettlement := {
      buyerId := 1
      sellerId := 2
      baseAsset := 1
      quoteAsset := 2
      price := 10000000000
      quantity := 5
      buyFee := 2
      sellFee := 3
      trade := some ⟨7, 11, 12⟩
      now := 0 }
    db.accounts.All Checked ∧ (db.settleTradeAtoms trade).isOk = true ∧
      balanceSum 1 db.accounts = 0 ∧ balanceSum 1 (db.settleAll [trade]).accounts = 5 := by
  decide +kernel

end Database
end LightningX.Persist
