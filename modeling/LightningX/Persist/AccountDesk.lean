import LightningX.Lib.Along
import LightningX.Persist.AccountRepository

/-!
# Accounts in memory and in the database

A desk changes balances in its cache and publishes what they are; `pg-writer` stores
the frames later.  The handlers of deposits and withdrawals in `desk/api.rs` change the
rows themselves, drop the user from the cache and publish the rows.  A login loads the
cache.  All this runs in threads that take their steps in any order.  The amounts that are
sent from the cache pass through doubles, and come back if they are below `2 ^ 51`.
-/

namespace LightningX.Persist

open Desk (AccountBalance AccountCache Asset releaseCacheFrozen tryFreezeCache)
open Risk (UserId)

/-- The columns of a cached balance. -/
def columnsOf (balance : AccountBalance) : AccountColumns where
  balanceAtoms := balance.balanceAtoms
  frozenAtoms := balance.frozenAtoms

/-- The atoms that `account_set_payload` makes of the doubles of a cached balance. -/
def accountSetPayload (balance : AccountBalance) : Option AccountColumns := do
  let balanceAtoms ← (WireFloat.ofAtoms balance.balanceAtoms).toAtoms
  let frozenAtoms ← (WireFloat.ofAtoms balance.frozenAtoms).toAtoms
  some { balanceAtoms := balanceAtoms, frozenAtoms := frozenAtoms }

def balanceOf (columns : AccountColumns) : AccountBalance where
  balanceAtoms := columns.balanceAtoms
  frozenAtoms := columns.frozenAtoms

def dropUser (userId : UserId) (cache : AccountCache) : AccountCache :=
  KeyedMap.restrict (fun account => account.1 ≠ userId) cache

/-- What a thread still has to do. -/
inductive AccountTask
  /-- Publish a balance after a freeze of the amount. -/
  | snapshot (account : Account) (amountAtoms : Int)
  /-- Publish the amounts that were read. -/
  | publish (account : Account) (columns : AccountColumns)
  /-- Drop the user after a transaction that returned some of the amounts. -/
  | evict (account : Account) (balanceAtoms frozenAtoms : Option Int)
  /-- Read the amounts that are missing. -/
  | select (account : Account) (balanceAtoms : Option Int)
  /-- Put the rows that were read into the cache. -/
  | store (userId : UserId) (rows : List (Account × AccountColumns))
  | done
  deriving DecidableEq

namespace AccountTask

/-- Publish a cached balance. -/
def publishBalance (account : Account) (balance : AccountBalance) : AccountTask :=
  (accountSetPayload balance).elim done (publish account)

/-- The user a thread works for. -/
def userId? : AccountTask → Option UserId
  | snapshot account _ | publish account _ | evict account _ _ | select account _ => some account.1
  | store userId _ => some userId
  | done => none

/-- The user whose cached balances are about to be dropped, or loaded. -/
def handler? : AccountTask → Option UserId
  | evict account _ _ | select account _ => some account.1
  | store userId _ => some userId
  | _ => none

/-- The account whose amounts the thread holds. -/
def held? : AccountTask → Option Account
  | publish account _ => some account
  | _ => none

/-- The account the thread freezes for. -/
def frozen? : AccountTask → Option (Account × Int)
  | snapshot account amountAtoms => some (account, amountAtoms)
  | _ => none

end AccountTask

/-- What orders do to balances. -/
inductive Movement
  | freeze (account : Account) (amountAtoms : Int)
  | release (account : Account) (amountAtoms : Int)
  | settle (account : Account) (balanceAtoms frozenReleaseAtoms : Int)
  deriving DecidableEq

namespace Movement

/-- The account that changes. -/
def account : Movement → Account
  | freeze account _ | release account _ | settle account _ _ => account

/-- The change of a balance. -/
def balanceAtoms (target : Account) : Movement → Int
  | settle account balanceAtoms _ => if account = target then balanceAtoms else 0
  | _ => 0

/-- The change of the funds frozen for open orders; there is no negative amount. -/
def frozenAtoms (target : Account) : Movement → Int
  | freeze account amountAtoms => if account = target then max amountAtoms 0 else 0
  | release account amountAtoms | settle account _ amountAtoms =>
    if account = target then -max amountAtoms 0 else 0

theorem eq_zero_of_ne {movement : Movement} (ne : target ≠ movement.account) :
    movement.balanceAtoms target = 0 ∧ movement.frozenAtoms target = 0 := by
  cases movement with
  | freeze account amountAtoms | release account amountAtoms => exact ⟨rfl, if_neg ne.symm⟩
  | settle account balanceAtoms frozenReleaseAtoms => exact ⟨if_neg ne.symm, if_neg ne.symm⟩

end Movement

/-- The tables, the cache, the threads, the frames on their way, and what orders did. -/
structure AccountDesk where
  funds : Funds
  cache : AccountCache
  tasks : List AccountTask
  stream : List AccountRow
  movements : List Movement
  deriving DecidableEq

/-- What happens next. -/
inductive AccountStep
  | freeze (account : Account) (amountAtoms : Int)
  | giveUp (index : Nat)
  | release (account : Account) (amountAtoms : Int)
  | settle (account : Account) (balanceAtoms frozenReleaseAtoms : Int)
  | proceed (index : Nat)
  | drain (count : Nat)
  | deposit (deposit : ChainDeposit)
  | request (account : Account) (amountAtoms feeAtoms : Int)
  | approve (id : Nat)
  | broadcast (id : Nat)
  | confirm (id : Nat)
  | fail (id : Nat)
  | load (userId : UserId) (assets : List Asset)

namespace AccountDesk

def start (accounts : Table Account AccountColumns) (cache : AccountCache) : AccountDesk where
  funds := { accounts := accounts, chainDeposits := [], withdrawals := [] }
  cache := cache
  tasks := []
  stream := []
  movements := []

/-- A thread takes its next step. -/
def proceed (desk : AccountDesk) (index : Nat) : AccountTask → AccountDesk
  | .snapshot account _ =>
    { desk with
      tasks := desk.tasks.set index
        ((desk.cache.lookup account).elim .done (.publishBalance account)) }
  | .publish account columns =>
    { desk with
      tasks := desk.tasks.set index .done
      stream := desk.stream ++
        [{ userId := account.1, asset := account.2, columns := columns }] }
  | .evict account balanceAtoms frozenAtoms =>
    { desk with
      cache := dropUser account.1 desk.cache
      tasks := desk.tasks.set index
        (match balanceAtoms, frozenAtoms with
        | some balanceAtoms, some frozenAtoms => .publish account ⟨balanceAtoms, frozenAtoms⟩
        | _, _ => .select account balanceAtoms) }
  | .select account balanceAtoms =>
    { desk with
      tasks := desk.tasks.set index
        (match balanceAtoms, desk.funds.accounts.lookup account with
        | some balanceAtoms, _ =>
          .publish account ⟨balanceAtoms, (desk.funds.row account).frozenAtoms⟩
        | none, some row => .publish account row
        | none, none => .done) }
  | .store _ rows =>
    { desk with
      cache := rows.foldl (fun cache entry => cache.insert entry.1 (balanceOf entry.2)) desk.cache
      tasks := desk.tasks.set index .done }
  | .done => desk

/-- The rows a query for a user returns, in the order of their assets. -/
def select (desk : AccountDesk) (userId : UserId) (assets : List Asset) :
    List (Account × AccountColumns) :=
  assets.filterMap fun asset =>
    (desk.funds.accounts.lookup (userId, asset)).map fun row => ((userId, asset), row)

/-- The handler of a transaction that changed the rows. -/
def follow (desk : AccountDesk) (funds : Funds) (account : Account)
    (balanceAtoms frozenAtoms : Option Int) : AccountDesk :=
  { desk with
    funds := funds
    tasks := desk.tasks ++ [.evict account balanceAtoms frozenAtoms] }

/-- The handler of a withdrawal's last status. -/
def close (desk : AccountDesk) (id : Nat) (result : Except String (Funds × Bool)) :
    AccountDesk :=
  match desk.funds.withdrawals[id]?, result with
  | some withdrawal, .ok (funds, true) => desk.follow funds withdrawal.account none none
  | _, _ => desk

def step (desk : AccountDesk) : AccountStep → AccountDesk
  | .freeze account amountAtoms =>
    match tryFreezeCache desk.cache account.1 account.2 amountAtoms with
    | none => desk
    | some cache =>
      { desk with
        cache := cache
        tasks := desk.tasks ++ [.snapshot account amountAtoms]
        movements := desk.movements ++ [.freeze account amountAtoms] }
  | .giveUp index =>
    -- The order cannot be sent, and its freeze is taken back without a frame.
    match desk.tasks[index]? with
    | some (.snapshot account amountAtoms) =>
      { desk with
        cache := releaseCacheFrozen desk.cache account.1 account.2 amountAtoms
        tasks := desk.tasks.set index .done
        movements := desk.movements ++ [.release account amountAtoms] }
    | _ => desk
  | .release account amountAtoms =>
    let cache := releaseCacheFrozen desk.cache account.1 account.2 amountAtoms
    { desk with
      cache := cache
      tasks := desk.tasks ++
        if InI64 amountAtoms then
          (cache.lookup account).toList.map (.publishBalance account)
        else []
      movements := desk.movements ++ [.release account amountAtoms] }
  | .settle account balanceAtoms frozenReleaseAtoms =>
    let balance := ((desk.cache.lookup account).getD ⟨0, 0⟩).applyAtomsDelta balanceAtoms
      frozenReleaseAtoms
    { desk with
      cache := desk.cache.insert account balance
      tasks := desk.tasks ++ [.publishBalance account balance]
      movements := desk.movements ++ [.settle account balanceAtoms frozenReleaseAtoms] }
  | .proceed index => (desk.tasks[index]?).elim desk (desk.proceed index)
  | .drain count =>
    -- A batch with a row that the table refuses is kept.
    let batch := desk.stream.take count
    if ∀ row ∈ Table.keepLast (fun row : AccountRow => (row.userId, row.asset)) batch,
        row.columns.Checked then
      { desk with
        funds := { desk.funds with
          accounts := desk.funds.accounts.writes (flushAccounts batch) }
        stream := desk.stream.drop count }
    else desk
  | .deposit deposit =>
    match desk.funds.creditChainDeposit deposit with
    | .ok (funds, true, balanceAtoms) => desk.follow funds deposit.account (some balanceAtoms) none
    | _ => desk
  | .request account amountAtoms feeAtoms =>
    match desk.funds.requestWithdrawal account amountAtoms feeAtoms with
    | .ok (funds, row) => desk.follow funds account (some row.balanceAtoms) (some row.frozenAtoms)
    | .error _ => desk
  | .approve id => { desk with funds := (desk.funds.setWithdrawalStatus id .pending .approved).1 }
  | .broadcast id =>
    { desk with funds := (desk.funds.setWithdrawalStatus id .approved .broadcast).1 }
  | .confirm id => desk.close id (desk.funds.confirmWithdrawal id)
  | .fail id => desk.close id (desk.funds.failWithdrawal id)
  | .load userId assets =>
    if ∀ account ∈ desk.funds.accounts.keys, account.1 = userId → account.2 ∈ assets then
      { desk with tasks := desk.tasks ++ [.store userId (desk.select userId assets)] }
    else desk

def run (desk : AccountDesk) (steps : List AccountStep) : AccountDesk :=
  steps.foldl step desk

/-- The settlements of an account. -/
def settledOf (desk : AccountDesk) (account : Account) : Int :=
  (desk.movements.map (Movement.balanceAtoms account)).sum

/-- The freezes of an account less what was released. -/
def openedOf (desk : AccountDesk) (account : Account) : Int :=
  (desk.movements.map (Movement.frozenAtoms account)).sum

/-- What trading alone leaves in an account. -/
def traded (initial : Table Account AccountColumns) (desk : AccountDesk) (account : Account) :
    AccountColumns :=
  let row := (initial.lookup account).getD ⟨0, 0⟩
  { balanceAtoms := row.balanceAtoms + desk.settledOf account
    frozenAtoms := row.frozenAtoms + desk.openedOf account }

/-- What an account should hold. -/
def due (initial : Table Account AccountColumns) (desk : AccountDesk) (account : Account) :
    AccountColumns :=
  desk.funds.due (desk.traded initial account) account

/-- What an account holds once all frames are stored. -/
def landing (desk : AccountDesk) (account : Account) : AccountColumns :=
  ((desk.funds.accounts.writes (desk.stream.map fun row =>
    ⟨(row.userId, row.asset), fun _ => some row.columns⟩)).lookup account).getD ⟨0, 0⟩

/-- No thread works for the user, and no frame of the user is on its way. -/
def Quiet (desk : AccountDesk) (userId : UserId) : Prop :=
  (∀ task ∈ desk.tasks, task.userId? ≠ some userId) ∧ ∀ row ∈ desk.stream, row.userId ≠ userId
deriving Decidable

/-- The cached balance may change: no handler is about to drop or load the user, and no
thread holds the old amounts. -/
def Free (desk : AccountDesk) (account : Account) : Prop :=
  (∀ task ∈ desk.tasks, task.handler? ≠ some account.1) ∧
    ∀ task ∈ desk.tasks, task.held? ≠ some account
deriving Decidable

/-- The amounts come back from their doubles. -/
def Sendable (balance : AccountBalance) : Prop :=
  |balance.balanceAtoms| < 2 ^ 51 ∧ |balance.frozenAtoms| < 2 ^ 51
deriving Decidable

/-- The balance is not clamped. -/
def Exact (balance : AccountBalance) (balanceAtoms frozenReleaseAtoms : Int) : Prop :=
  0 ≤ balance.balanceAtoms + balanceAtoms ∧ InI64 (balance.balanceAtoms + balanceAtoms) ∧
    -2 ^ 63 ≤ balance.frozenAtoms - frozenReleaseAtoms
deriving Decidable

/-- A step at its right time. -/
def Timely (desk : AccountDesk) : AccountStep → Prop
  | .freeze account _ => desk.Free account
  | .giveUp index =>
    ∀ task ∈ desk.tasks[index]?, ∀ freeze ∈ task.frozen?,
      desk.Free freeze.1 ∧ InI64 freeze.2 ∧
        ∀ balance ∈ desk.cache.lookup freeze.1,
          -2 ^ 63 ≤ balance.frozenAtoms - freeze.2 ∧
            ((∃ other ∈ desk.tasks.eraseIdx index, other.frozen?.map Prod.fst = some freeze.1) ∨
              desk.landing freeze.1 = columnsOf (balance.releaseAtoms freeze.2))
  | .release account amountAtoms =>
    desk.Free account ∧ InI64 amountAtoms ∧ (desk.cache.lookup account).isSome ∧
      ∀ balance ∈ desk.cache.lookup account,
        -2 ^ 63 ≤ balance.frozenAtoms - amountAtoms ∧ Sendable (balance.releaseAtoms amountAtoms)
  | .settle account balanceAtoms frozenReleaseAtoms =>
    desk.Free account ∧
      ((desk.cache.lookup account).isSome ∨
        desk.funds.accounts.lookup account = none ∧
          ∀ row ∈ desk.stream, (row.userId, row.asset) ≠ account) ∧
      Exact ((desk.cache.lookup account).getD ⟨0, 0⟩) balanceAtoms frozenReleaseAtoms ∧
      Sendable (((desk.cache.lookup account).getD ⟨0, 0⟩).applyAtomsDelta balanceAtoms
        frozenReleaseAtoms)
  | .proceed index =>
    ∀ task ∈ desk.tasks[index]?, ∀ freeze ∈ task.frozen?,
      ∀ balance ∈ desk.cache.lookup freeze.1, Sendable balance
  | .deposit deposit => desk.Quiet deposit.account.1
  | .request account _ _ => desk.Quiet account.1
  | .confirm id | .fail id =>
    ∀ withdrawal ∈ desk.funds.withdrawals[id]?, desk.Quiet withdrawal.account.1
  | .load userId _ => desk.Quiet userId
  | .drain _ | .approve _ | .broadcast _ => True

instance (desk : AccountDesk) : (step : AccountStep) → Decidable (desk.Timely step)
  | .freeze _ _ => inferInstanceAs (Decidable (desk.Free _))
  | .giveUp _ | .proceed _ => inferInstanceAs (Decidable (∀ task ∈ _, _))
  | .release _ _ | .settle _ _ _ => inferInstanceAs (Decidable (_ ∧ _))
  | .deposit _ | .request _ _ _ | .load _ _ => inferInstanceAs (Decidable (desk.Quiet _))
  | .confirm _ | .fail _ => inferInstanceAs (Decidable (∀ withdrawal ∈ _, _))
  | .drain _ | .approve _ | .broadcast _ => isTrue trivial

/-- Every step of the run is timely when it is taken. -/
def RunTimely (desk : AccountDesk) (steps : List AccountStep) : Prop :=
  Along step Timely desk steps
deriving Decidable

end AccountDesk
end LightningX.Persist
