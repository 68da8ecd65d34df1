import LightningX.Lib.Threads
import LightningX.Persist.Constraints

/-!
# Deposits and withdrawals

The transactions of `desk/account_repository.rs` on `accounts`, `chain_deposits` and
`withdrawals`.  Each is one step here; one that fails changes nothing.  Addresses, hashes
of sent transactions, reasons of failure and the audit rows are only stored, and left out.
-/

namespace LightningX.Persist

open List
open Desk (Asset)
open Risk (UserId)

abbrev Account := UserId × Asset

/-- A row of `chain_deposits`; texts are numbers. -/
structure ChainDeposit where
  chain : Nat
  txHash : Nat
  logIndex : Int
  account : Account
  amountAtoms : Int
  deriving DecidableEq

/-- The unique columns of a deposit. -/
def ChainDeposit.transfer (deposit : ChainDeposit) : Nat × Nat × Int :=
  (deposit.chain, deposit.txHash, deposit.logIndex)

/-- The states of a withdrawal. -/
inductive WithdrawalStatus
  | pending
  | approved
  | broadcast
  | confirmed
  | failed
  | cancelled
  deriving DecidableEq

def WithdrawalStatus.text : WithdrawalStatus → String
  | pending => "pending"
  | approved => "approved"
  | broadcast => "broadcast"
  | confirmed => "confirmed"
  | failed => "failed"
  | cancelled => "cancelled"

/-- A row of `withdrawals`; its number is its place. -/
structure Withdrawal where
  account : Account
  amountAtoms : Int
  feeAtoms : Int
  status : WithdrawalStatus
  deriving DecidableEq

namespace Withdrawal

/-- What the withdrawal freezes. -/
def totalAtoms (withdrawal : Withdrawal) : Int :=
  withdrawal.amountAtoms + withdrawal.feeAtoms

/-- What is frozen for the withdrawal now. -/
def pendingAtoms (withdrawal : Withdrawal) : Int :=
  match withdrawal.status with
  | .pending | .approved | .broadcast => withdrawal.totalAtoms
  | _ => 0

/-- What has left the exchange. -/
def debitedAtoms (withdrawal : Withdrawal) : Int :=
  match withdrawal.status with
  | .confirmed => withdrawal.totalAtoms
  | _ => 0

end Withdrawal

/-- The tables of the repository. -/
structure Funds where
  accounts : Table Account AccountColumns
  chainDeposits : List ChainDeposit
  withdrawals : List Withdrawal
  deriving DecidableEq

/-- The row passes the checks of its table and fits its columns. -/
def AccountColumns.Storable (columns : AccountColumns) : Prop :=
  columns.Checked ∧ InI64 columns.balanceAtoms
deriving Decidable

namespace Funds

variable {funds after : Funds} {id : Nat} {withdrawal : Withdrawal} {account : Account}
  {columns : AccountColumns} {status current : WithdrawalStatus}

/-- The amounts of an account; one that has no row has nothing. -/
def row (funds : Funds) (account : Account) : AccountColumns :=
  (funds.accounts.lookup account).getD ⟨0, 0⟩

/-- Store a row of `accounts`, if the database takes it. -/
def store (funds : Funds) (account : Account) (columns : AccountColumns) :
    Except String Funds :=
  if columns.Storable then
    .ok { funds with accounts := funds.accounts.write ⟨account, fun _ => some columns⟩ }
  else .error "the database refuses the row"

/-- `credit_chain_deposit`: whether it is credited now, and the balance. -/
def creditChainDeposit (funds : Funds) (deposit : ChainDeposit) :
    Except String (Funds × Bool × Int) :=
  if deposit.amountAtoms ≤ 0 then .error "deposit amount must be positive"
  else if ∃ earlier ∈ funds.chainDeposits, earlier.transfer = deposit.transfer then
    .ok (funds, false, (funds.row deposit.account).balanceAtoms)
  else
    let row := funds.row deposit.account
    let balanceAtoms := row.balanceAtoms + deposit.amountAtoms
    (store { funds with chainDeposits := funds.chainDeposits ++ [deposit] } deposit.account
      { row with balanceAtoms := balanceAtoms }).map fun funds => (funds, true, balanceAtoms)

/-- `request_withdrawal`: the row after the freeze. -/
def requestWithdrawal (funds : Funds) (account : Account) (amountAtoms feeAtoms : Int) :
    Except String (Funds × AccountColumns) :=
  if amountAtoms ≤ 0 ∨ feeAtoms < 0 then
    .error "withdrawal amount must be positive, fee non-negative"
  else if ¬ InI64 (amountAtoms + feeAtoms) then .error "amount + fee overflow"
  else
    match funds.accounts.lookup account with
    | none => .error s!"insufficient {account.2} balance to withdraw"
    | some row =>
      if row.balanceAtoms - row.frozenAtoms ≥ amountAtoms + feeAtoms then
        let frozen := { row with frozenAtoms := row.frozenAtoms + (amountAtoms + feeAtoms) }
        (store { funds with withdrawals := funds.withdrawals ++ [{
          account := account
          amountAtoms := amountAtoms
          feeAtoms := feeAtoms
          status := .pending }] } account frozen).map fun funds => (funds, frozen)
      else .error s!"insufficient {account.2} balance to withdraw"

def setWithdrawalStatus (funds : Funds) (id : Nat) (current next : WithdrawalStatus) :
    Funds × Bool :=
  match funds.withdrawals[id]? with
  | none => (funds, false)
  | some withdrawal =>
    if withdrawal.status = current then
      ({ funds with
        withdrawals := funds.withdrawals.set id { withdrawal with status := next } }, true)
    else (funds, false)

/-- The last statements of a confirmation and of a failure. -/
def closeWithdrawal (funds : Funds) (id : Nat) (withdrawal : Withdrawal)
    (change : Int → AccountColumns → AccountColumns) (status : WithdrawalStatus) :
    Except String (Funds × Bool) :=
  if InI64 withdrawal.totalAtoms then
    let closed := { funds with
      withdrawals := funds.withdrawals.set id { withdrawal with status := status } }
    match funds.accounts.lookup withdrawal.account with
    | none => .ok (closed, true)
    | some row =>
      (closed.store withdrawal.account (change withdrawal.totalAtoms row)).map fun funds =>
        (funds, true)
  else
    .error (s!"withdrawal total overflow: amount={withdrawal.amountAtoms} " ++
      s!"fee={withdrawal.feeAtoms}")

/-- The debit of a confirmed withdrawal. -/
def debit (totalAtoms : Int) (row : AccountColumns) : AccountColumns where
  balanceAtoms := row.balanceAtoms - totalAtoms
  frozenAtoms := row.frozenAtoms - totalAtoms

/-- The release of a failed withdrawal. -/
def unfreeze (totalAtoms : Int) (row : AccountColumns) : AccountColumns :=
  { row with frozenAtoms := row.frozenAtoms - totalAtoms }

def confirmWithdrawal (funds : Funds) (id : Nat) : Except String (Funds × Bool) :=
  match funds.withdrawals[id]? with
  | none => .error s!"withdrawal {id} not found"
  | some withdrawal =>
    match withdrawal.status with
    | .confirmed => .ok (funds, false)
    | .approved | .broadcast => funds.closeWithdrawal id withdrawal debit .confirmed
    | status => .error s!"withdrawal {id} not in a confirmable state ({status.text})"

def failWithdrawal (funds : Funds) (id : Nat) : Except String (Funds × Bool) :=
  match funds.withdrawals[id]? with
  | none => .error s!"withdrawal {id} not found"
  | some withdrawal =>
    match withdrawal.status with
    | .failed | .cancelled => .ok (funds, false)
    | .confirmed => .error s!"withdrawal {id} already confirmed — cannot fail"
    | _ => funds.closeWithdrawal id withdrawal unfreeze .failed

def creditedOf (funds : Funds) (account : Account) : Int :=
  ((funds.chainDeposits.filter fun deposit => deposit.account = account).map (·.amountAtoms)).sum

/-- A quantity of an account's withdrawals. -/
def withdrawalsOf (funds : Funds) (measure : Withdrawal → Int) (account : Account) : Int :=
  ((funds.withdrawals.map fun withdrawal =>
    if withdrawal.account = account then measure withdrawal else 0)).sum

open Withdrawal

/-- What is frozen for the withdrawals of an account. -/
def pendingOf (funds : Funds) (account : Account) : Int :=
  funds.withdrawalsOf pendingAtoms account

/-- The confirmed withdrawals of an account. -/
def debitedOf (funds : Funds) (account : Account) : Int :=
  funds.withdrawalsOf debitedAtoms account

/-- What an account has to hold, if trading alone leaves it with `traded`. -/
def due (funds : Funds) (traded : AccountColumns) (account : Account) : AccountColumns where
  balanceAtoms := traded.balanceAtoms + funds.creditedOf account - funds.debitedOf account
  frozenAtoms := traded.frozenAtoms + funds.pendingOf account

/-- The transaction of an account keeps its books, and touches no other account. -/
structure Posts (before after : Funds) (account : Account) : Prop where
  balanced : ∀ traded, before.row account = before.due traded account →
    after.row account = after.due traded account
  others : ∀ other ≠ account, after.accounts.lookup other = before.accounts.lookup other
  due : ∀ other ≠ account, ∀ traded, after.due traded other = before.due traded other
  rows : ∀ other, other ∈ before.accounts → other ∈ after.accounts
  withdrawals : ∀ withdrawal ∈ after.withdrawals, withdrawal.account = account ∨
    ∃ earlier ∈ before.withdrawals, earlier.account = withdrawal.account

theorem withdrawalsOf_set (found : funds.withdrawals[id]? = some withdrawal)
    (status : WithdrawalStatus) (measure : Withdrawal → Int) (account : Account) :
    withdrawalsOf { funds with
      withdrawals := funds.withdrawals.set id { withdrawal with status := status } }
        measure account =
      funds.withdrawalsOf measure account +
        if withdrawal.account = account then
          measure { withdrawal with status := status } - measure withdrawal
        else 0 := by
  refine (Threads.sum_map_set found _ _).trans ?_
  simp only [withdrawalsOf]
  split_ifs <;> omega

theorem eq_of_map_store {β : Type} {make : Funds → β}
    {value : β} (stored : (funds.store account columns).map make = .ok value) :
    make { funds with accounts := funds.accounts.write ⟨account, fun _ => some columns⟩ } =
      value := by
  unfold store at stored
  split_ifs at stored
  · exact Except.ok.inj stored
  · cases stored

/-- A row is written together with the records that account for its change. -/
theorem Posts.of_write {before recorded : Funds} {account : Account} {columns : AccountColumns}
    (sameAccounts : recorded.accounts = before.accounts)
    (books : ∀ traded, before.row account = before.due traded account →
      columns = recorded.due traded account)
    (due : ∀ other ≠ account, ∀ traded, recorded.due traded other = before.due traded other)
    (withdrawals : ∀ withdrawal ∈ recorded.withdrawals, withdrawal.account = account ∨
      ∃ earlier ∈ before.withdrawals, earlier.account = withdrawal.account) :
    Posts before
      { recorded with
        accounts := recorded.accounts.write ⟨account, fun _ => some columns⟩ } account where
  balanced traded balanced := by
    have written : (recorded.accounts.write ⟨account, fun _ => some columns⟩).lookup account =
        some columns := by
      rw [Table.lookup_write, if_pos rfl]
    unfold row
    rw [written]
    exact books traded balanced
  others other ne := by rw [Table.lookup_write, if_neg ne, sameAccounts]
  due := due
  rows other present := by
    rw [← Finmap.lookup_isSome, Table.lookup_write]
    split_ifs
    · rfl
    · rw [sameAccounts]
      exact Finmap.lookup_isSome.mpr present
  withdrawals := withdrawals

theorem row_write (funds : Funds) (account : Account) (columns : AccountColumns) :
    row { funds with accounts := funds.accounts.write ⟨account, fun _ => some columns⟩ }
      account = columns := by
  unfold row
  rw [Table.lookup_write, if_pos rfl]
  rfl

theorem mem_write (accounts : Table Account AccountColumns) (account : Account)
    (columns : AccountColumns) : account ∈ accounts.write ⟨account, fun _ => some columns⟩ := by
  rw [← Finmap.lookup_isSome, Table.lookup_write, if_pos rfl]
  rfl

theorem creditedOf_append (funds : Funds) (deposit : ChainDeposit) (account : Account) :
    creditedOf { funds with chainDeposits := funds.chainDeposits ++ [deposit] } account =
      funds.creditedOf account +
        if deposit.account = account then deposit.amountAtoms else 0 := by
  unfold creditedOf
  split_ifs with same <;> simp [same]

theorem withdrawalsOf_append (funds : Funds) (withdrawal : Withdrawal)
    (measure : Withdrawal → Int) (account : Account) :
    withdrawalsOf { funds with withdrawals := funds.withdrawals ++ [withdrawal] } measure
        account =
      funds.withdrawalsOf measure account +
        if withdrawal.account = account then measure withdrawal else 0 := by
  simp [withdrawalsOf]

theorem posts_credit (funds : Funds) (deposit : ChainDeposit) :
    Posts funds
      { funds with
        accounts := funds.accounts.write ⟨deposit.account, fun _ => some
          { funds.row deposit.account with
            balanceAtoms := (funds.row deposit.account).balanceAtoms + deposit.amountAtoms }⟩
        chainDeposits := funds.chainDeposits ++ [deposit] } deposit.account := by
  refine @Posts.of_write funds { funds with chainDeposits := funds.chainDeposits ++ [deposit] }
    deposit.account _ rfl (fun traded balanced => ?_) (fun other ne traded => ?_)
    fun withdrawal mem => .inr ⟨withdrawal, mem, rfl⟩
  · rw [balanced]
    simp only [due, creditedOf_append, if_pos]
    rw [AccountColumns.mk.injEq]
    refine ⟨?_, rfl⟩
    show _ = traded.balanceAtoms + _ - funds.debitedOf deposit.account
    omega
  · simp only [due, creditedOf_append, if_neg ne.symm, add_zero]
    rfl

variable {row : AccountColumns}

/-- A freeze together with its withdrawal. -/
theorem posts_freeze
    (found : funds.accounts.lookup account = some row) (amountAtoms feeAtoms : Int) :
    Posts funds
      { funds with
        accounts := funds.accounts.write ⟨account, fun _ => some
          { row with frozenAtoms := row.frozenAtoms + (amountAtoms + feeAtoms) }⟩
        withdrawals := funds.withdrawals ++
          [⟨account, amountAtoms, feeAtoms, .pending⟩] } account := by
  refine @Posts.of_write funds { funds with withdrawals := funds.withdrawals ++
      [⟨account, amountAtoms, feeAtoms, .pending⟩] } account _ rfl
    (fun traded balanced => ?_) (fun other ne traded => ?_) fun withdrawal mem => ?_
  · have isRow : row = funds.due traded account := by
      rw [← balanced]
      simp [Funds.row, found]
    rw [isRow]
    simp only [due, pendingOf, debitedOf, withdrawalsOf_append, if_pos,
      debitedAtoms, add_zero, pendingAtoms, totalAtoms]
    rw [AccountColumns.mk.injEq]
    exact ⟨rfl, by omega⟩
  · simp only [due, pendingOf, debitedOf, withdrawalsOf_append, if_neg ne.symm, add_zero]
    rfl
  · obtain earlier | new := mem_append.mp mem
    · exact .inr ⟨withdrawal, earlier, rfl⟩
    · obtain rfl := mem_singleton.mp new
      exact .inl rfl

/-- A row that changes as its books do when a withdrawal gets a new status. -/
theorem posts_close
    (found : funds.withdrawals[id]? = some withdrawal)
    (isRow : funds.accounts.lookup withdrawal.account = some row)
    (books : columns =
      { balanceAtoms := row.balanceAtoms -
          (debitedAtoms { withdrawal with status := status } -
            withdrawal.debitedAtoms)
        frozenAtoms := row.frozenAtoms +
          (pendingAtoms { withdrawal with status := status } -
            withdrawal.pendingAtoms) }) :
    Posts funds
      { funds with
        accounts := funds.accounts.write ⟨withdrawal.account, fun _ => some columns⟩
        withdrawals := funds.withdrawals.set id { withdrawal with status := status } }
      withdrawal.account := by
  refine @Posts.of_write funds { funds with
      withdrawals := funds.withdrawals.set id { withdrawal with status := status } }
    withdrawal.account _ rfl (fun traded balanced => ?_) (fun other ne traded => ?_)
    fun other mem => ?_
  · have atRow : row = funds.due traded withdrawal.account := by
      rw [← balanced]
      simp [Funds.row, isRow]
    rw [books, atRow]
    simp only [due, pendingOf, debitedOf, withdrawalsOf_set found, if_pos]
    rw [AccountColumns.mk.injEq]
    constructor
    · show _ = traded.balanceAtoms + funds.creditedOf withdrawal.account - _
      omega
    · omega
  · simp only [due, pendingOf, debitedOf, withdrawalsOf_set found, if_neg ne.symm, add_zero]
    rfl
  · obtain earlier | rfl := mem_or_eq_of_mem_set mem
    · exact .inr ⟨other, earlier, rfl⟩
    · exact .inl rfl

theorem posts_creditChainDeposit
    (credited : funds.creditChainDeposit deposit = .ok (after, true, balanceAtoms)) :
    Posts funds after deposit.account ∧ deposit.account ∈ after.accounts ∧
      balanceAtoms = (after.row deposit.account).balanceAtoms := by
  unfold creditChainDeposit at credited
  split_ifs at credited with notPositive repeated
  · simp at credited
  · obtain ⟨rfl, -, rfl⟩ := eq_of_map_store credited
    rw [row_write]
    exact ⟨posts_credit funds deposit, mem_write funds.accounts _ _, rfl⟩

theorem posts_requestWithdrawal {amountAtoms feeAtoms : Int}
    (requested : funds.requestWithdrawal account amountAtoms feeAtoms = .ok (after, columns)) :
    Posts funds after account ∧ account ∈ after.accounts ∧ columns = after.row account := by
  unfold requestWithdrawal at requested
  split_ifs at requested
  cases found : funds.accounts.lookup account with
  | none => simp [found] at requested
  | some row =>
    simp only [found] at requested
    split_ifs at requested
    · obtain ⟨rfl, rfl⟩ := eq_of_map_store requested
      rw [row_write]
      exact ⟨posts_freeze found amountAtoms feeAtoms, mem_write funds.accounts _ _, rfl⟩

section

variable (found : funds.withdrawals[id]? = some withdrawal)
  (present : withdrawal.account ∈ funds.accounts)
include found present

/-- Closing a withdrawal changes the row as the books of its account. -/
theorem posts_closeWithdrawal
    (books : ∀ row, change withdrawal.totalAtoms row =
      { balanceAtoms := row.balanceAtoms -
          (debitedAtoms { withdrawal with status := status } -
            withdrawal.debitedAtoms)
        frozenAtoms := row.frozenAtoms +
          (pendingAtoms { withdrawal with status := status } -
            withdrawal.pendingAtoms) })
    (closed : funds.closeWithdrawal id withdrawal change status = .ok (after, changed)) :
    Posts funds after withdrawal.account := by
  obtain ⟨row, isRow⟩ := Option.isSome_iff_exists.mp (Finmap.lookup_isSome.mpr present)
  unfold closeWithdrawal at closed
  split_ifs at closed
  simp only [isRow] at closed
  obtain ⟨rfl, -⟩ := eq_of_map_store closed
  exact posts_close found isRow (books row)

theorem posts_confirmWithdrawal (confirmed : funds.confirmWithdrawal id = .ok (after, true)) :
    Posts funds after withdrawal.account := by
  simp only [confirmWithdrawal, found] at confirmed
  split at confirmed
  · simp at confirmed
  · rename_i isApproved
    refine posts_closeWithdrawal found present (fun row => ?_) confirmed
    simp [debit, debitedAtoms, pendingAtoms, totalAtoms, isApproved, sub_eq_add_neg]
  · rename_i isBroadcast
    refine posts_closeWithdrawal found present (fun row => ?_) confirmed
    simp [debit, debitedAtoms, pendingAtoms, totalAtoms, isBroadcast, sub_eq_add_neg]
  · cases confirmed

theorem posts_failWithdrawal (failed : funds.failWithdrawal id = .ok (after, true)) :
    Posts funds after withdrawal.account := by
  simp only [failWithdrawal, found] at failed
  cases status : withdrawal.status <;> simp only [status] at failed
  case confirmed => cases failed
  case failed => simp at failed
  case cancelled => simp at failed
  all_goals
    refine posts_closeWithdrawal found present (fun row => ?_) failed
    simp [unfreeze, debitedAtoms, pendingAtoms, status, sub_eq_add_neg]

end

/-- A status that keeps what is frozen and what is debited keeps the books. -/
theorem due_setWithdrawalStatus {next : WithdrawalStatus} (funds : Funds) (id : Nat)
    (samePending : ∀ withdrawal : Withdrawal, withdrawal.status = current →
      pendingAtoms { withdrawal with status := next } = withdrawal.pendingAtoms)
    (sameDebited : ∀ withdrawal : Withdrawal, withdrawal.status = current →
      debitedAtoms { withdrawal with status := next } = withdrawal.debitedAtoms)
    (traded : AccountColumns) (account : Account) :
    (funds.setWithdrawalStatus id current next).1.due traded account =
      funds.due traded account := by
  unfold setWithdrawalStatus
  cases found : funds.withdrawals[id]? with
  | none => rfl
  | some withdrawal =>
    simp only
    split_ifs with isCurrent
    · simp only [due, pendingOf, debitedOf, withdrawalsOf_set found,
        samePending withdrawal isCurrent, sameDebited withdrawal isCurrent, sub_self, ite_self,
        add_zero]
      rfl
    · rfl

theorem exists_of_mem_setWithdrawalStatus {next : WithdrawalStatus}
    (mem : withdrawal ∈ (funds.setWithdrawalStatus id current next).1.withdrawals) :
    ∃ earlier ∈ funds.withdrawals, earlier.account = withdrawal.account := by
  unfold setWithdrawalStatus at mem
  cases found : funds.withdrawals[id]? with
  | none =>
    simp only [found] at mem
    exact ⟨withdrawal, mem, rfl⟩
  | some old =>
    simp only [found] at mem
    split_ifs at mem
    · obtain earlier | rfl := mem_or_eq_of_mem_set mem
      · exact ⟨withdrawal, earlier, rfl⟩
      · exact ⟨old, mem_of_getElem? found, rfl⟩
    · exact ⟨withdrawal, mem, rfl⟩

theorem accounts_setWithdrawalStatus (funds : Funds) (id : Nat) (current next : WithdrawalStatus) :
    (funds.setWithdrawalStatus id current next).1.accounts = funds.accounts := by
  unfold setWithdrawalStatus
  split
  · rfl
  · split_ifs <;> rfl

end Funds
end LightningX.Persist
