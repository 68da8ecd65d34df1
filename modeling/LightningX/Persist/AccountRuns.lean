import LightningX.Persist.AccountSteps

/-!
# Runs with deposits and withdrawals

The transactions of deposits and withdrawals keep the books of an account, and in
every timely run nothing of it is lost or counted twice.
-/

namespace LightningX.Persist

open List Withdrawal
open Desk (AccountBalance AccountCache Asset)
open Risk (UserId)

namespace AccountDesk

open AccountTask

namespace Sound

variable (sound : Sound initial desk)
include sound

variable {account : Account}

/-- A batch leaves what is stored once the rest of the stream is. -/
theorem drain (count : Nat) : Sound initial (desk.step (.drain count)) := by
  simp only [step]
  split_ifs
  · have stored : ∀ table : Table Account AccountColumns,
        table.writes (flushAccounts (desk.stream.take count)) =
          table.writes ((desk.stream.take count).map fun row =>
            ⟨(row.userId, row.asset), fun _ => some row.columns⟩) :=
      Table.writes_keepLast (fun row : AccountRow => (row.userId, row.asset))
        (fun row => some row.columns) _
    refine ⟨sound.cached, sound.right, sound.snapshots, fun account => ?_, sound.compatible,
      fun task mem userId handles row isRow => ?_, fun withdrawal mem => ?_⟩
    · have landed := sound.landing account
      unfold AccountDesk.landing at landed ⊢
      rw [← take_append_drop count desk.stream, map_append, Table.writes_append] at landed
      rw [stored]
      exact landed
    · exact sound.quiet task mem userId handles row (mem_of_mem_drop isRow)
    · have present := sound.withdrawals withdrawal mem
      rw [stored]
      exact Table.mem_writes_map (fun row : AccountRow => (row.userId, row.asset)) _ _ present
  · exact sound

/-- A handler starts while nothing of its user is under way. -/
theorem compatible_handler (quiet : desk.Quiet userId) (works : new.userId? = some userId)
    (handles : new.handler? = some userId) : (desk.tasks ++ [new]).Pairwise Compatible := by
  refine Threads.pairwise_append sound.compatible fun task mem other => ⟨?_, ?_⟩
  · intro taskHandles same
    rw [works] at same
    cases same
    exact quiet.1 task mem (userId?_of_handler taskHandles)
  · intro newHandles same
    rw [handles] at newHandles
    exact quiet.1 task mem (same.trans newHandles.symm)

/-- A transaction and the start of its handler. -/
theorem follow
    (quiet : desk.Quiet account.1)
    {funds : Funds} (posts : Funds.Posts desk.funds funds account)
    (present : (∃ withdrawal ∈ funds.withdrawals, withdrawal.account = account) →
      account ∈ funds.accounts)
    (right : (∀ atoms ∈ balanceAtoms, atoms = (funds.row account).balanceAtoms) ∧
      ∀ atoms ∈ frozenAtoms, atoms = (funds.row account).frozenAtoms) :
    Sound initial (desk.follow funds account balanceAtoms frozenAtoms) := by
  have sameDue : ∀ other ≠ account,
      (desk.follow funds account balanceAtoms frozenAtoms).due initial other =
        desk.due initial other :=
    fun other ne => posts.due other ne _
  have balanced : funds.row account =
      (desk.follow funds account balanceAtoms frozenAtoms).due initial account :=
    posts.balanced _ (sound.row_of_quiet quiet)
  have isNew : AccountTask.evict account balanceAtoms frozenAtoms ∈
      desk.tasks ++ [.evict account balanceAtoms frozenAtoms] :=
    mem_append_right _ (mem_singleton_self _)
  have old : ∀ task ∈ desk.tasks ++ [.evict account balanceAtoms frozenAtoms],
      task ∈ desk.tasks ∨ task = .evict account balanceAtoms frozenAtoms :=
    fun task mem => (mem_append.mp mem).imp_right mem_singleton.mp
  refine ⟨fun other balance isCached => ?_, fun task mem => ?_,
    fun other amountAtoms mem => ?_, fun other => ?_,
    sound.compatible_handler quiet rfl rfl, fun task mem userId handles => ?_,
    fun withdrawal mem => ?_⟩
  · by_cases same : other.1 = account.1
    · exact .inr ⟨account.2, balanceAtoms, frozenAtoms, by rw [same]; exact isNew⟩
    · rw [sameDue other fun equal => same (congrArg Prod.fst equal)]
      exact (sound.cached other balance isCached).imp_right (·.mono (subset_append_left _ _))
  · obtain earlier | rfl := old task mem
    · refine (sound.right task earlier).congr sameDue
        (fun handles => quiet.1 task earlier (userId?_of_handler handles)) fun holds => ?_
      exact quiet.1 task earlier (userId?_of_held holds)
    · rw [balanced] at right
      exact right
  · obtain earlier | new := old _ mem
    · exact sound.snapshots other amountAtoms earlier
    · cases new
  · by_cases same : other = account
    · subst same
      left
      rw [← balanced]
      exact landing_eq_row fun row isRow equal => quiet.2 row isRow (congrArg Prod.fst equal)
    · rw [sameDue other same,
        @landing_congr desk (desk.follow funds account balanceAtoms frozenAtoms) other
          (posts.others other same) rfl]
      exact (sound.landing other).imp_right (·.mono rfl (subset_append_left _ _))
  · obtain earlier | rfl := old task mem
    · exact sound.quiet task earlier userId handles
    · cases handles
      exact quiet.2
  · obtain isAccount | ⟨earlier, isEarlier, sameAccount⟩ := posts.withdrawals withdrawal mem
    · rw [isAccount]
      exact present ⟨withdrawal, mem, isAccount⟩
    · rw [← sameAccount]
      exact posts.rows _ (sound.withdrawals earlier isEarlier)

theorem deposit {deposit : ChainDeposit} (quiet : desk.Quiet deposit.account.1) :
    Sound initial (desk.step (.deposit deposit)) := by
  simp only [step]
  split
  · rename_i funds balanceAtoms credited
    obtain ⟨posts, present, isBalance⟩ := Funds.posts_creditChainDeposit credited
    refine sound.follow quiet posts (fun _ => present) ⟨fun atoms isAtoms => ?_, by simp⟩
    cases isAtoms
    exact isBalance
  · exact sound

theorem request (quiet : desk.Quiet account.1) (amountAtoms feeAtoms : Int) :
    Sound initial (desk.step (.request account amountAtoms feeAtoms)) := by
  simp only [step]
  split
  · rename_i funds row requested
    obtain ⟨posts, present, rfl⟩ := Funds.posts_requestWithdrawal requested
    refine sound.follow quiet posts (fun _ => present) ⟨fun atoms isAtoms => ?_,
      fun atoms isAtoms => ?_⟩
    · exact (Option.some.inj isAtoms).symm
    · exact (Option.some.inj isAtoms).symm
  · exact sound

/-- The handler of a withdrawal whose transaction keeps the books. -/
theorem close {id : Nat}
    (quiet : ∀ withdrawal ∈ desk.funds.withdrawals[id]?, desk.Quiet withdrawal.account.1)
    (posts : ∀ withdrawal funds, desk.funds.withdrawals[id]? = some withdrawal →
      withdrawal.account ∈ desk.funds.accounts → result = .ok (funds, true) →
      Funds.Posts desk.funds funds withdrawal.account) :
    Sound initial (desk.close id result) := by
  unfold AccountDesk.close
  split
  · rename_i withdrawal funds found
    have present := sound.withdrawals withdrawal (mem_of_getElem? found)
    have posted := posts withdrawal funds found present rfl
    exact sound.follow (quiet withdrawal found) posted (fun _ => posted.rows _ present)
      ⟨by simp, by simp⟩
  · exact sound

/-- A status that changes no account. -/
theorem setWithdrawalStatus {next : WithdrawalStatus} (id : Nat)
    (samePending : ∀ withdrawal : Withdrawal, withdrawal.status = current →
      pendingAtoms { withdrawal with status := next } = withdrawal.pendingAtoms)
    (sameDebited : ∀ withdrawal : Withdrawal, withdrawal.status = current →
      debitedAtoms { withdrawal with status := next } = withdrawal.debitedAtoms) :
    Sound initial { desk with
      funds := (desk.funds.setWithdrawalStatus id current next).1 } := by
  have sameDue : AccountDesk.due initial { desk with
      funds := (desk.funds.setWithdrawalStatus id current next).1 } = desk.due initial :=
    funext fun account =>
      Funds.due_setWithdrawalStatus desk.funds id samePending sameDebited _ account
  refine ⟨fun account balance isCached => ?_, fun task mem => ?_, sound.snapshots,
    fun account => ?_, sound.compatible, sound.quiet, fun withdrawal mem => ?_⟩
  · rw [sameDue]
    exact sound.cached account balance isCached
  · rw [sameDue]
    exact sound.right task mem
  · rw [sameDue]
    unfold AccountDesk.landing
    rw [Funds.accounts_setWithdrawalStatus]
    exact sound.landing account
  · rw [Funds.accounts_setWithdrawalStatus]
    obtain ⟨earlier, isEarlier, sameAccount⟩ := Funds.exists_of_mem_setWithdrawalStatus mem
    rw [← sameAccount]
    exact sound.withdrawals earlier isEarlier

theorem load (quiet : desk.Quiet userId) (assets : List Asset) :
    Sound initial (desk.step (.load userId assets)) := by
  simp only [step]
  split_ifs
  · have old : ∀ task ∈ desk.tasks ++ [.store userId (desk.select userId assets)],
        task ∈ desk.tasks ∨ task = .store userId (desk.select userId assets) :=
      fun task mem => (mem_append.mp mem).imp_right mem_singleton.mp
    refine ⟨fun account balance isCached => ?_, fun task mem => ?_,
      fun account amountAtoms mem => ?_, fun account => ?_,
      sound.compatible_handler quiet rfl rfl, fun task mem other handles => ?_,
      sound.withdrawals⟩
    · exact (sound.cached account balance isCached).imp_right (·.mono (subset_append_left _ _))
    · obtain earlier | rfl := old task mem
      · exact sound.right task earlier
      · intro entry isEntry
        obtain ⟨asset, -, isRow⟩ := mem_filterMap.mp isEntry
        obtain ⟨row, found, rfl⟩ := Option.map_eq_some_iff.mp isRow
        refine ⟨rfl, ?_⟩
        have isRow : desk.funds.row (userId, asset) = row := by simp [Funds.row, found]
        exact isRow.symm.trans (@row_of_quiet _ _ sound (userId, asset) quiet)
    · obtain earlier | new := old _ mem
      · exact sound.snapshots account amountAtoms earlier
      · cases new
    · exact (sound.landing account).imp_right (·.mono rfl (subset_append_left _ _))
    · obtain earlier | rfl := old task mem
      · exact sound.quiet task earlier other handles
      · cases handles
        exact quiet.2
  · exact sound

theorem step {step : AccountStep} (timely : desk.Timely step) : Sound initial (desk.step step) := by
  cases step with
  | freeze account amountAtoms => exact sound.freeze timely amountAtoms
  | giveUp index => exact sound.giveUp timely
  | release account amountAtoms => exact sound.release timely
  | settle account balanceAtoms frozenReleaseAtoms => exact sound.settle timely
  | proceed index => exact sound.proceed timely
  | drain count => exact sound.drain count
  | deposit deposit => exact sound.deposit timely
  | request account amountAtoms feeAtoms => exact sound.request timely amountAtoms feeAtoms
  | approve id =>
    exact sound.setWithdrawalStatus id
      (fun withdrawal isPending => by simp [pendingAtoms, isPending]; rfl)
      (fun withdrawal isPending => by simp [debitedAtoms, isPending])
  | broadcast id =>
    exact sound.setWithdrawalStatus id
      (fun withdrawal isApproved => by simp [pendingAtoms, isApproved]; rfl)
      (fun withdrawal isApproved => by simp [debitedAtoms, isApproved])
  | confirm id =>
    exact sound.close timely fun withdrawal funds found present =>
      Funds.posts_confirmWithdrawal found present
  | fail id =>
    exact sound.close timely fun withdrawal funds found present =>
      Funds.posts_failWithdrawal found present
  | load userId assets => exact sound.load timely assets

end Sound

/-- A timely run. -/
theorem Sound.run {initial : Table Account AccountColumns} {desk : AccountDesk}
    (sound : Sound initial desk) {steps : List AccountStep} (timely : desk.RunTimely steps) :
    Sound initial (desk.run steps) :=
  timely.foldl (fun sound timely => sound.step timely) sound

theorem sound_start {cache : AccountCache}
    (loaded : ∀ account balance, cache.lookup account = some balance →
      accounts.lookup account = some (columnsOf balance)) :
    Sound accounts (start accounts cache) := by
  have due : ∀ account, (start accounts cache).due accounts account =
      (accounts.lookup account).getD ⟨0, 0⟩ := by
    intro account
    simp [AccountDesk.due, Funds.due, traded, settledOf, openedOf, start, Funds.creditedOf,
      Funds.debitedOf, Funds.pendingOf, Funds.withdrawalsOf]
  refine ⟨fun account balance found => .inl ?_, by simp [start], by simp [start],
    fun account => .inl ?_, List.Pairwise.nil, by simp [start], by simp [start]⟩
  · rw [due, loaded account balance found]
    rfl
  · rw [due]
    rfl

end AccountDesk
end LightningX.Persist
