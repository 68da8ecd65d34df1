import LightningX.Persist.AccountRepository

/-!
# Deposits and withdrawals over whole runs

The calls of the deposit watcher, of the users and of the chain service, in any order and
repeated at will.  A withdrawal is closed once, a transfer on a chain is credited once, and
the rows of `accounts` follow the records of both.
-/

namespace LightningX.Persist

open List Withdrawal

/-- A call of the repository.  The status moves are those of `handle_withdrawal_status`. -/
inductive FundsCall
  | credit (deposit : ChainDeposit)
  | request (account : Account) (amountAtoms feeAtoms : Int)
  | approve (id : Nat)
  | broadcast (id : Nat)
  | confirm (id : Nat)
  | fail (id : Nat)
  deriving DecidableEq

def FundsCall.credited? : FundsCall × Bool → Option ChainDeposit
  | (.credit deposit, true) => some deposit
  | _ => none

/-- The final status a call gives, and the withdrawal that gets it. -/
def FundsCall.closes? : FundsCall → Option (Nat × WithdrawalStatus)
  | .confirm id => some (id, .confirmed)
  | .fail id => some (id, .failed)
  | _ => none

namespace Funds

variable {account : Account}

/-- Carry out a call, and whether it has changed anything; one that fails has not. -/
def apply (funds : Funds) : FundsCall → Funds × Bool
  | .credit deposit =>
    match funds.creditChainDeposit deposit with
    | .ok (after, credited, _) => (after, credited)
    | .error _ => (funds, false)
  | .request account amountAtoms feeAtoms =>
    match funds.requestWithdrawal account amountAtoms feeAtoms with
    | .ok (after, _) => (after, true)
    | .error _ => (funds, false)
  | .approve id => funds.setWithdrawalStatus id .pending .approved
  | .broadcast id => funds.setWithdrawalStatus id .approved .broadcast
  | .confirm id => (funds.confirmWithdrawal id).toOption.getD (funds, false)
  | .fail id => (funds.failWithdrawal id).toOption.getD (funds, false)

/-- A run, with what each call has changed. -/
def applyAll (funds : Funds) : List FundsCall → Funds × List (FundsCall × Bool)
  | [] => (funds, [])
  | call :: calls =>
    let (after, changed) := funds.apply call
    let (last, history) := after.applyAll calls
    (last, (call, changed) :: history)

/-- The deposit is valid: the amount is positive, and the database takes the row with it. -/
def Takes (funds : Funds) (deposit : ChainDeposit) : Prop :=
  0 < deposit.amountAtoms ∧
    AccountColumns.Storable { funds.row deposit.account with
      balanceAtoms := (funds.row deposit.account).balanceAtoms + deposit.amountAtoms }
deriving Decidable

/-- The tables before any deposit or withdrawal. -/
def start (accounts : Table Account AccountColumns) : Funds where
  accounts := accounts
  chainDeposits := []
  withdrawals := []

def totalBalance (accounts : Table Account AccountColumns) : Int :=
  accounts.total fun _ row => row.balanceAtoms

def creditedTotal (funds : Funds) : Int :=
  (funds.chainDeposits.map (·.amountAtoms)).sum

def debitedTotal (funds : Funds) : Int :=
  (funds.withdrawals.map debitedAtoms).sum

/-! ## What a call does -/

open FundsCall

/-- Everything a call can do.  In each case but the first something changes. -/
inductive Does (funds : Funds) : FundsCall → Funds × Bool → Prop
  | nothing {call : FundsCall} : Does funds call (funds, false)
  | credits {deposit : ChainDeposit}
      (fresh : ∀ earlier ∈ funds.chainDeposits, earlier.transfer ≠ deposit.transfer) :
      Does funds (.credit deposit)
        ({ funds with
          accounts := funds.accounts.write ⟨deposit.account, fun _ => some
            { funds.row deposit.account with
              balanceAtoms := (funds.row deposit.account).balanceAtoms + deposit.amountAtoms }⟩
          chainDeposits := funds.chainDeposits ++ [deposit] }, true)
  | freezes {account : Account} {amountAtoms feeAtoms : Int} {row : AccountColumns}
      (found : funds.accounts.lookup account = some row) :
      Does funds (.request account amountAtoms feeAtoms)
        ({ funds with
          accounts := funds.accounts.write ⟨account, fun _ => some
            { row with frozenAtoms := row.frozenAtoms + (amountAtoms + feeAtoms) }⟩
          withdrawals := funds.withdrawals ++ [⟨account, amountAtoms, feeAtoms, .pending⟩] },
          true)
  | moves {call : FundsCall} {id : Nat} {withdrawal : Withdrawal} {next : WithdrawalStatus}
      (keeps : call.closes? = none)
      (credits : credited? (call, true) = none)
      (found : funds.withdrawals[id]? = some withdrawal)
      (pending : withdrawal.status = .pending ∧ next = .approved ∨
        withdrawal.status = .approved ∧ next = .broadcast) :
      Does funds call
        ({ funds with
          withdrawals := funds.withdrawals.set id { withdrawal with status := next } }, true)
  | closes {call : FundsCall} {id : Nat} {withdrawal : Withdrawal} {next : WithdrawalStatus}
      {row : AccountColumns} {change : Int → AccountColumns → AccountColumns}
      (closing : call.closes? = some (id, next))
      (found : funds.withdrawals[id]? = some withdrawal)
      (isOpen : withdrawal.status = .pending ∨ withdrawal.status = .approved ∨
        withdrawal.status = .broadcast)
      (kind : next = .confirmed ∧ change = debit ∨ next = .failed ∧ change = unfreeze)
      (hasRow : funds.accounts.lookup withdrawal.account = some row) :
      Does funds call
        ({ funds with
          accounts := funds.accounts.write ⟨withdrawal.account, fun _ => some
            (change withdrawal.totalAtoms row)⟩
          withdrawals := funds.withdrawals.set id { withdrawal with status := next } }, true)

variable {funds after : Funds} {call : FundsCall} {changed : Bool}

theorem does_setWithdrawalStatus {id : Nat} {current next : WithdrawalStatus}
    (keeps : call.closes? = none) (credits : credited? (call, true) = none)
    (allowed : current = .pending ∧ next = .approved ∨ current = .approved ∧ next = .broadcast) :
    Does funds call (funds.setWithdrawalStatus id current next) := by
  unfold setWithdrawalStatus
  cases found : funds.withdrawals[id]? with
  | none => exact .nothing
  | some withdrawal =>
    simp only
    split_ifs with isCurrent
    · exact .moves keeps credits found (isCurrent ▸ allowed)
    · exact .nothing

/-- Closing a withdrawal of an account with a row. -/
theorem does_closeWithdrawal {id : Nat} {withdrawal : Withdrawal} {next : WithdrawalStatus}
    {change : Int → AccountColumns → AccountColumns} (closing : call.closes? = some (id, next))
    (found : funds.withdrawals[id]? = some withdrawal)
    (isOpen : withdrawal.status = .pending ∨ withdrawal.status = .approved ∨
      withdrawal.status = .broadcast)
    (kind : next = .confirmed ∧ change = debit ∨ next = .failed ∧ change = unfreeze)
    (present : withdrawal.account ∈ funds.accounts) :
    Does funds call
      ((funds.closeWithdrawal id withdrawal change next).toOption.getD (funds, false)) := by
  obtain ⟨row, hasRow⟩ := Option.isSome_iff_exists.mp (Finmap.lookup_isSome.mpr present)
  unfold closeWithdrawal
  split_ifs
  · simp only [hasRow, store]
    split_ifs
    · exact .closes closing found isOpen kind hasRow
    · exact .nothing
  · exact .nothing

/-- A call does one of the things `Does` lists, if withdrawals belong to accounts with
rows. -/
theorem does_apply (present : ∀ withdrawal ∈ funds.withdrawals, withdrawal.account ∈ funds.accounts)
    (call : FundsCall) : Does funds call (funds.apply call) := by
  cases call with
  | credit deposit =>
    unfold apply creditChainDeposit
    simp only [store]
    split_ifs with notPositive repeated storable
    · exact .nothing
    · exact .nothing
    · exact .credits fun earlier mem same => repeated ⟨earlier, mem, same⟩
    · exact .nothing
  | request account amountAtoms feeAtoms =>
    cases found : funds.accounts.lookup account with
    | none =>
      simp only [apply, requestWithdrawal, found]
      split_ifs <;> exact .nothing
    | some row =>
      simp only [apply, requestWithdrawal, found, store]
      split_ifs
      · exact .nothing
      · exact .freezes found
      · exact .nothing
      · exact .nothing
      · exact .nothing
  | approve id => exact does_setWithdrawalStatus rfl rfl (.inl ⟨rfl, rfl⟩)
  | broadcast id => exact does_setWithdrawalStatus rfl rfl (.inr ⟨rfl, rfl⟩)
  | confirm id =>
    cases found : funds.withdrawals[id]? with
    | none =>
      simp only [apply, confirmWithdrawal, found]
      exact .nothing
    | some withdrawal =>
      have row := present withdrawal (mem_of_getElem? found)
      have closed := @does_closeWithdrawal funds (.confirm id) id withdrawal .confirmed debit
        rfl found
      cases status : withdrawal.status <;>
        simp only [apply, confirmWithdrawal, found, status]
      case approved => exact closed (.inr (.inl status)) (.inl ⟨rfl, rfl⟩) row
      case broadcast => exact closed (.inr (.inr status)) (.inl ⟨rfl, rfl⟩) row
      all_goals exact .nothing
  | fail id =>
    cases found : funds.withdrawals[id]? with
    | none =>
      simp only [apply, failWithdrawal, found]
      exact .nothing
    | some withdrawal =>
      have row := present withdrawal (mem_of_getElem? found)
      have closed := @does_closeWithdrawal funds (.fail id) id withdrawal .failed unfreeze rfl found
      cases status : withdrawal.status <;>
        simp only [apply, failWithdrawal, found, status]
      case pending => exact closed (.inl status) (.inr ⟨rfl, rfl⟩) row
      case approved => exact closed (.inr (.inl status)) (.inr ⟨rfl, rfl⟩) row
      case broadcast => exact closed (.inr (.inr status)) (.inr ⟨rfl, rfl⟩) row
      all_goals exact .nothing

theorem applyAll_append (funds : Funds) (calls later : List FundsCall) :
    funds.applyAll (calls ++ later) =
      (((funds.applyAll calls).1.applyAll later).1,
        (funds.applyAll calls).2 ++ ((funds.applyAll calls).1.applyAll later).2) := by
  induction calls generalizing funds with
  | nil => rfl
  | cons call calls ih => simp only [cons_append, applyAll, ih]

/-- After a valid deposit call its transfer is recorded, by this call or by an earlier one. -/
theorem Takes.mem_transfers {deposit : ChainDeposit} (takes : funds.Takes deposit) :
    deposit.transfer ∈
      (funds.apply (.credit deposit)).1.chainDeposits.map ChainDeposit.transfer := by
  simp only [apply, creditChainDeposit, if_neg (not_le.mpr takes.1), store, if_pos takes.2]
  split_ifs with repeated
  · obtain ⟨earlier, mem, same⟩ := repeated
    exact mem_map.mpr ⟨earlier, mem, same⟩
  · exact mem_map.mpr ⟨deposit, mem_append_right _ (mem_singleton.mpr rfl), rfl⟩

/-! ## What is kept -/

theorem Posts.balanced_all {traded : Account → AccountColumns} (posts : Posts funds after account)
    (balanced : ∀ account, funds.row account = funds.due (traded account) account) :
    ∀ account, after.row account = after.due (traded account) account := by
  intro other
  by_cases same : other = account
  · subst same
    exact posts.balanced _ (balanced other)
  · rw [posts.due other same, ← balanced other, row, row, posts.others other same]

theorem totalBalance_write (funds : Funds) (account : Account) (columns : AccountColumns) :
    totalBalance (funds.accounts.write ⟨account, fun _ => some columns⟩) =
      totalBalance funds.accounts + columns.balanceAtoms - (funds.row account).balanceAtoms := by
  rw [totalBalance, Table.total_write, row]
  cases funds.accounts.lookup account <;> rfl

/-- How often a withdrawal was given a final status. -/
def closings (history : List (FundsCall × Bool)) (id : Nat) (status : WithdrawalStatus) : Nat :=
  history.countP fun event => event.2 && decide (event.1.closes? = some (id, status))

def statusOf (records : List Withdrawal) (id : Nat) : Option WithdrawalStatus :=
  (records[id]?).map status

/-- The withdrawals with a final status are those that a call has closed, once. -/
def Closed (history : List (FundsCall × Bool)) (records : List Withdrawal) : Prop :=
  ∀ id status, closings history id status =
    if (status = .confirmed ∨ status = .failed) ∧ statusOf records id = some status then 1
    else 0

/-- What holds after every run: rows, records and the history agree. -/
structure Kept (initial : Table Account AccountColumns) (funds : Funds)
    (history : List (FundsCall × Bool)) : Prop where
  present : ∀ withdrawal ∈ funds.withdrawals, withdrawal.account ∈ funds.accounts
  balanced : ∀ account, funds.row account = funds.due ((start initial).row account) account
  total : totalBalance funds.accounts =
    totalBalance initial + funds.creditedTotal - funds.debitedTotal
  deposits : history.filterMap credited? = funds.chainDeposits
  transfers : (funds.chainDeposits.map ChainDeposit.transfer).Nodup
  closed : Closed history funds.withdrawals

variable {initial : Table Account AccountColumns} {history : List (FundsCall × Bool)} {id : Nat}
  {withdrawal : Withdrawal} {next : WithdrawalStatus}

theorem kept_start (initial : Table Account AccountColumns) : Kept initial (start initial) [] where
  present := by simp [start]
  balanced account := by simp [due, creditedOf, debitedOf, pendingOf, withdrawalsOf, start]
  total := by simp [creditedTotal, debitedTotal, start]
  deposits := rfl
  transfers := nodup_nil
  closed id status := by simp [closings, start, statusOf]

theorem closings_snoc (event : FundsCall × Bool) (id : Nat) (status : WithdrawalStatus) :
    closings (history ++ [event]) id status = closings history id status +
      if event.2 = true ∧ event.1.closes? = some (id, status) then 1 else 0 := by
  simp [closings]

theorem statusOf_set
    (found : funds.withdrawals[id]? = some withdrawal) (next : WithdrawalStatus) (other : Nat) :
    statusOf (funds.withdrawals.set id { withdrawal with status := next }) other =
      if id = other then some next else statusOf funds.withdrawals other := by
  rw [statusOf, List.getElem?_set]
  split_ifs with same fits
  · rfl
  · rw [List.getElem?_eq_none (by omega)] at found
    cases found
  · rfl

/-- An event that closes nothing, after which the same withdrawals are closed. -/
theorem Closed.quiet
    (closed : Closed history funds.withdrawals) (quiet : changed = false ∨ call.closes? = none)
    (same : ∀ id status, status = .confirmed ∨ status = .failed →
      (statusOf records id = some status ↔ statusOf funds.withdrawals id = some status)) :
    Closed (history ++ [(call, changed)]) records := by
  intro id status
  have none : ¬ (changed = true ∧ call.closes? = some (id, status)) := by
    rintro ⟨rfl, closing⟩
    rcases quiet with isFalse | notClosing
    · cases isFalse
    · rw [notClosing] at closing
      cases closing
  rw [closings_snoc, if_neg none, closed id status]
  exact if_congr (and_congr_right fun final => (same id status final).symm) rfl rfl

/-- An event that closes an open withdrawal. -/
theorem Closed.close (closed : Closed history funds.withdrawals)
    (closing : call.closes? = some (id, next)) (found : funds.withdrawals[id]? = some withdrawal)
    (isOpen : withdrawal.status ≠ .confirmed ∧ withdrawal.status ≠ .failed)
    (final : next = .confirmed ∨ next = .failed) :
    Closed (history ++ [(call, true)])
      (funds.withdrawals.set id { withdrawal with status := next }) := by
  intro other status
  rw [closings_snoc, closed other status, statusOf_set found, closing]
  by_cases same : id = other
  · subst same
    have before : ¬ ((status = .confirmed ∨ status = .failed) ∧
        statusOf funds.withdrawals id = some status) := by
      rintro ⟨isFinal, isStatus⟩
      rw [statusOf, found] at isStatus
      cases isStatus
      exact isFinal.elim isOpen.1 isOpen.2
    rw [if_neg before, if_pos rfl, Nat.zero_add]
    refine if_congr ?_ rfl rfl
    simp only [true_and, Option.some.injEq, Prod.mk.injEq]
    exact ⟨fun isNext => ⟨isNext ▸ final, isNext⟩, fun both => both.2⟩
  · simp [same]

theorem Posts.present (posts : Posts funds after account) (hasRow : account ∈ after.accounts)
    (present : ∀ withdrawal ∈ funds.withdrawals, withdrawal.account ∈ funds.accounts) :
    ∀ withdrawal ∈ after.withdrawals, withdrawal.account ∈ after.accounts := by
  intro withdrawal mem
  rcases posts.withdrawals withdrawal mem with rfl | ⟨earlier, isEarlier, same⟩
  · exact hasRow
  · exact posts.rows _ (same ▸ present earlier isEarlier)

namespace Kept

section

variable (kept : Kept initial funds history)
include kept

/-- A call that credits nothing adds no deposit to the history. -/
theorem deposits_snoc (none : credited? event = none) :
    (history ++ [event]).filterMap credited? = funds.chainDeposits := by
  rw [filterMap_append, kept.deposits]
  simp [none]

theorem nothing (call : FundsCall) : Kept initial funds (history ++ [(call, false)]) :=
  ⟨kept.present, kept.balanced, kept.total, kept.deposits_snoc (by cases call <;> rfl),
    kept.transfers, kept.closed.quiet (Or.inl rfl) fun _ _ _ => Iff.rfl⟩

theorem credits (fresh : ∀ earlier ∈ funds.chainDeposits, earlier.transfer ≠ deposit.transfer) :
    Kept initial
      { funds with
        accounts := funds.accounts.write ⟨deposit.account, fun _ => some
          { funds.row deposit.account with
            balanceAtoms := (funds.row deposit.account).balanceAtoms + deposit.amountAtoms }⟩
        chainDeposits := funds.chainDeposits ++ [deposit] }
      (history ++ [(.credit deposit, true)]) := by
  have posts := posts_credit funds deposit
  refine ⟨posts.present (mem_write _ _ _) kept.present, posts.balanced_all kept.balanced,
    ?_, ?_, ?_, kept.closed.quiet (Or.inr rfl) fun _ _ _ => Iff.rfl⟩
  · rw [totalBalance_write, kept.total]
    simp only [creditedTotal, debitedTotal, map_append, sum_append, map_cons,
      map_nil, sum_cons, sum_nil]
    omega
  · rw [filterMap_append, kept.deposits]
    rfl
  · rw [map_append, map_cons, map_nil, ← concat_eq_append]
    refine kept.transfers.concat fun again => ?_
    obtain ⟨earlier, isEarlier, same⟩ := mem_map.mp again
    exact fresh earlier isEarlier same

theorem freezes {row : AccountColumns}
    (found : funds.accounts.lookup account = some row) (amountAtoms feeAtoms : Int) :
    Kept initial
      { funds with
        accounts := funds.accounts.write ⟨account, fun _ => some
          { row with frozenAtoms := row.frozenAtoms + (amountAtoms + feeAtoms) }⟩
        withdrawals := funds.withdrawals ++ [⟨account, amountAtoms, feeAtoms, .pending⟩] }
      (history ++ [(.request account amountAtoms feeAtoms, true)]) := by
  have posts := posts_freeze found amountAtoms feeAtoms
  refine ⟨posts.present (mem_write _ _ _) kept.present, posts.balanced_all kept.balanced,
    ?_, kept.deposits_snoc rfl, kept.transfers,
    kept.closed.quiet (Or.inr rfl) fun id status final => ?_⟩
  · have isRow : (funds.row account).balanceAtoms = row.balanceAtoms := by
      rw [Funds.row, found]
      rfl
    rw [totalBalance_write, kept.total]
    simp only [creditedTotal, debitedTotal, map_append, sum_append, map_cons,
      map_nil, sum_cons, sum_nil, debitedAtoms]
    omega
  · rw [statusOf, statusOf, List.getElem?_append]
    split_ifs with earlier
    · rfl
    · rw [List.getElem?_eq_none (Nat.le_of_not_lt earlier)]
      cases id - funds.withdrawals.length with
      | zero => rcases final with rfl | rfl <;> simp
      | succ more => rfl

theorem moves
    (keeps : call.closes? = none) (credits : credited? (call, true) = none)
    (found : funds.withdrawals[id]? = some withdrawal)
    (pending : withdrawal.status = .pending ∧ next = .approved ∨
      withdrawal.status = .approved ∧ next = .broadcast) :
    Kept initial
      { funds with
        withdrawals := funds.withdrawals.set id { withdrawal with status := next } }
      (history ++ [(call, true)]) := by
  obtain ⟨samePending, sameDebited⟩ :
      pendingAtoms { withdrawal with status := next } = withdrawal.pendingAtoms ∧
        debitedAtoms { withdrawal with status := next } = withdrawal.debitedAtoms := by
    rcases pending with ⟨status, rfl⟩ | ⟨status, rfl⟩ <;>
      simp [pendingAtoms, debitedAtoms, totalAtoms, status]
  refine ⟨fun other mem => ?_, fun account => ?_, ?_, kept.deposits_snoc credits,
    kept.transfers, kept.closed.quiet (Or.inr keeps) fun other status final => ?_⟩
  · rcases mem_or_eq_of_mem_set mem with earlier | rfl
    · exact kept.present other earlier
    · exact kept.present withdrawal (mem_of_getElem? found)
  · refine (kept.balanced account).trans ?_
    simp only [due, pendingOf, debitedOf, withdrawalsOf_set found, samePending, sameDebited,
      sub_self, ite_self, add_zero]
    rfl
  · rw [debitedTotal, Threads.sum_map_set found, sameDebited, sub_self, add_zero]
    exact kept.total
  · rw [statusOf_set found]
    split_ifs with same
    · subst same
      rw [statusOf, found]
      rcases pending with ⟨isStatus, rfl⟩ | ⟨isStatus, rfl⟩ <;>
        rcases final with rfl | rfl <;> simp [isStatus]
    · rfl

theorem closes {row : AccountColumns}
    (closing : call.closes? = some (id, next)) (credits : credited? (call, true) = none)
    (found : funds.withdrawals[id]? = some withdrawal)
    (isOpen : withdrawal.status = .pending ∨ withdrawal.status = .approved ∨
      withdrawal.status = .broadcast)
    (kind : next = .confirmed ∧ change = debit ∨ next = .failed ∧ change = unfreeze)
    (hasRow : funds.accounts.lookup withdrawal.account = some row) :
    Kept initial
      { funds with
        accounts := funds.accounts.write ⟨withdrawal.account, fun _ => some
          (change withdrawal.totalAtoms row)⟩
        withdrawals := funds.withdrawals.set id { withdrawal with status := next } }
      (history ++ [(call, true)]) := by
  have books : change withdrawal.totalAtoms row =
      { balanceAtoms := row.balanceAtoms -
          (debitedAtoms { withdrawal with status := next } - withdrawal.debitedAtoms)
        frozenAtoms := row.frozenAtoms +
          (pendingAtoms { withdrawal with status := next } -
            withdrawal.pendingAtoms) } := by
    rcases kind with ⟨rfl, rfl⟩ | ⟨rfl, rfl⟩ <;> rcases isOpen with status | status | status <;>
      simp [debit, unfreeze, debitedAtoms, pendingAtoms, totalAtoms, status, sub_eq_add_neg]
  have posts := posts_close found hasRow books
  have notFinal : withdrawal.status ≠ .confirmed ∧ withdrawal.status ≠ .failed := by
    rcases isOpen with status | status | status <;> simp [status]
  refine ⟨posts.present (mem_write _ _ _) kept.present, posts.balanced_all kept.balanced, ?_,
    kept.deposits_snoc credits, kept.transfers,
    kept.closed.close closing found notFinal (kind.imp And.left And.left)⟩
  have isRow : (funds.row withdrawal.account).balanceAtoms = row.balanceAtoms := by
    rw [Funds.row, hasRow]
    rfl
  have debited : debitedTotal { funds with
      accounts := funds.accounts.write ⟨withdrawal.account, fun _ => some
        (change withdrawal.totalAtoms row)⟩
      withdrawals := funds.withdrawals.set id { withdrawal with status := next } } = _ :=
    Threads.sum_map_set found _ _
  rw [debited, totalBalance_write, kept.total, books, debitedTotal]
  simp only [creditedTotal]
  omega

/-- Each call keeps rows, records and history in agreement. -/
theorem step (call : FundsCall) :
    Kept initial (funds.apply call).1 (history ++ [(call, (funds.apply call).2)]) := by
  have does := does_apply kept.present call
  generalize funds.apply call = outcome at does
  cases does with
  | nothing => exact kept.nothing call
  | credits fresh => exact kept.credits fresh
  | freezes found => exact kept.freezes found _ _
  | moves keeps credits found pending => exact kept.moves keeps credits found pending
  | closes closing found isOpen kind hasRow =>
    refine kept.closes closing ?_ found isOpen kind hasRow
    cases call <;> first | rfl | cases closing

theorem run (calls : List FundsCall) :
    Kept initial (funds.applyAll calls).1 (history ++ (funds.applyAll calls).2) := by
  induction calls generalizing funds history with
  | nil =>
    rw [applyAll, append_nil]
    exact kept
  | cons call calls ih =>
    have later := ih (kept.step call)
    rwa [append_assoc] at later

end

end Kept

/-- A transfer with a valid call among those of a run is credited once. -/
theorem count_credited (initial : Table Account AccountColumns) {calls before : List FundsCall}
    {deposit : ChainDeposit} (called : before ++ [.credit deposit] <+: calls)
    (takes : ((start initial).applyAll before).1.Takes deposit) :
    ((((start initial).applyAll calls).2.filterMap credited?).map
      ChainDeposit.transfer).count deposit.transfer = 1 := by
  obtain ⟨later, rfl⟩ := called
  have all := (kept_start initial).run (before ++ [.credit deposit] ++ later)
  have credited := (kept_start initial).run (before ++ [.credit deposit])
  rw [nil_append] at all credited
  refine count_eq_one_of_mem (all.deposits ▸ all.transfers) ?_
  rw [applyAll_append, filterMap_append, map_append, credited.deposits, applyAll_append]
  exact mem_append_left _ takes.mem_transfers

/-- Whatever is called how often and in which order: a withdrawal is confirmed or failed at
most once in all, an account has its own amounts with what deposits and withdrawals have
added, a transfer is never credited twice, it is credited if a call for it is valid, and the
balances change by the deposits credited and the withdrawals confirmed only. -/
theorem applyAll_exact (initial : Table Account AccountColumns) (calls : List FundsCall) :
    let funds := ((start initial).applyAll calls).1
    let history := ((start initial).applyAll calls).2
    (∀ id, closings history id .confirmed + closings history id .failed ≤ 1) ∧
      (∀ account, funds.row account =
        { balanceAtoms := ((start initial).row account).balanceAtoms +
            funds.creditedOf account - funds.debitedOf account
          frozenAtoms := ((start initial).row account).frozenAtoms + funds.pendingOf account }) ∧
      ((history.filterMap credited?).map ChainDeposit.transfer).Nodup ∧
      (∀ before deposit, before ++ [.credit deposit] <+: calls →
        ((start initial).applyAll before).1.Takes deposit →
        ((history.filterMap credited?).map ChainDeposit.transfer).count deposit.transfer = 1) ∧
      history.filterMap credited? = funds.chainDeposits ∧
      (∀ id status, status = .confirmed ∨ status = .failed →
        (closings history id status = 1 ↔ statusOf funds.withdrawals id = some status)) ∧
      totalBalance funds.accounts =
        totalBalance initial + funds.creditedTotal - funds.debitedTotal := by
  intro funds history
  have kept : Kept initial funds history := (kept_start initial).run calls
  refine ⟨fun id => ?_, kept.balanced, ?_, fun _ _ => count_credited initial, kept.deposits,
    fun id status final => ?_, kept.total⟩
  · rw [kept.closed id .confirmed, kept.closed id .failed]
    by_cases confirmed : statusOf funds.withdrawals id = some .confirmed
    · simp [confirmed]
    · simp only [confirmed, and_false, if_false]
      split_ifs <;> omega
  · rw [kept.deposits]
    exact kept.transfers
  · rw [kept.closed id status]
    simp [final]

end Funds
end LightningX.Persist
