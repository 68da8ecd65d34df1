import LightningX.Persist.AccountDesk

/-!
# Steps of orders and threads

While balances of a user change in the cache, the table lags behind and a thread or a
frame will bring it up to date; while a handler works on the rows of a user, nothing
else of that user is under way.
-/

namespace LightningX.Persist

open List Option Threads Table Movement
open Desk (AccountBalance AccountCache Asset releaseCacheFrozen tryFreezeCache)
open Risk (UserId)

variable {balance : AccountBalance} {amountAtoms : Int} {cache : AccountCache} {account : Account}
  {task : AccountTask} {userId : UserId} {frozenReleaseAtoms balanceAtoms : Int}

/-! ## Balances -/

theorem columnsOf_releaseAtoms
    (fits : -2 ^ 63 ≤ balance.frozenAtoms - amountAtoms) :
    columnsOf (balance.releaseAtoms amountAtoms) =
      { balanceAtoms := balance.balanceAtoms
        frozenAtoms := balance.frozenAtoms - max amountAtoms 0 } := by
  unfold AccountBalance.releaseAtoms
  split_ifs with nothing
  · simp [columnsOf, max_eq_right nothing]
  · unfold columnsOf
    rw [max_eq_left fits, max_eq_left (not_le.mp nothing).le]

theorem columnsOf_applyAtomsDelta
    (fits : AccountDesk.Exact balance balanceAtoms frozenReleaseAtoms) :
    columnsOf (balance.applyAtomsDelta balanceAtoms frozenReleaseAtoms) =
      { balanceAtoms := balance.balanceAtoms + balanceAtoms
        frozenAtoms := balance.frozenAtoms - max frozenReleaseAtoms 0 } := by
  obtain ⟨nonneg, inRange, release⟩ := fits
  have sum : max (Risk.saturatingAdd balance.balanceAtoms balanceAtoms) 0 =
      balance.balanceAtoms + balanceAtoms := by
    unfold Risk.saturatingAdd i64Max
    unfold InI64 at inRange
    omega
  unfold AccountBalance.applyAtomsDelta
  rw [sum]
  exact @columnsOf_releaseAtoms
    { balance with balanceAtoms := balance.balanceAtoms + balanceAtoms } _ release

theorem lookup_releaseCacheFrozen
    (cache : AccountCache) (account other : Account) (inRange : InI64 amountAtoms) :
    (releaseCacheFrozen cache account.1 account.2 amountAtoms).lookup other =
      if other = account then
        (cache.lookup other).map fun balance => balance.releaseAtoms amountAtoms
      else cache.lookup other := by
  unfold releaseCacheFrozen
  rw [if_pos inRange]
  exact KeyedMap.lookup_modify _ _ _ _

/-- A freeze that succeeds, unless there is nothing to freeze. -/
theorem tryFreezeCache_eq_some {next : AccountCache}
    (frozen : tryFreezeCache cache account.1 account.2 amountAtoms = some next) :
    amountAtoms ≤ 0 ∧ next = cache ∨
      0 < amountAtoms ∧ ∃ balance, cache.lookup account = some balance ∧
        next = cache.insert account
          { balance with frozenAtoms := balance.frozenAtoms + amountAtoms } := by
  unfold tryFreezeCache at frozen
  split_ifs at frozen with nothing inRange
  · exact .inl ⟨nothing, (some.inj frozen).symm⟩
  · obtain ⟨balance, found, mapped⟩ := bind_eq_some_iff.mp frozen
    obtain ⟨after, isAfter, rfl⟩ := map_eq_some_iff.mp mapped
    unfold AccountBalance.tryFreezeAtoms at isAfter
    split_ifs at isAfter
    cases isAfter
    exact .inr ⟨not_le.mp nothing, balance, found, rfl⟩

theorem lookup_foldl_insert
    (rows : List (Account × AccountColumns)) (cache : AccountCache)
    (found : (rows.foldl (fun cache entry => cache.insert entry.1 (balanceOf entry.2))
      cache).lookup account = some balance) :
    cache.lookup account = some balance ∨
      ∃ columns, (account, columns) ∈ rows ∧ balance = balanceOf columns := by
  induction rows generalizing cache with
  | nil => exact .inl found
  | cons entry rest ih =>
    obtain earlier | ⟨columns, mem, rfl⟩ := ih _ found
    · obtain ⟨rfl, rfl⟩ | ⟨-, before⟩ := KeyedMap.lookup_insert_eq_some.mp earlier
      · exact .inr ⟨entry.2, mem_cons_self, rfl⟩
      · exact .inl before
    · exact .inr ⟨columns, mem_cons_of_mem _ mem, rfl⟩

theorem isSome_lookup_foldl_insert
    (rows : List (Account × AccountColumns)) (present : (cache.lookup account).isSome) :
    ((rows.foldl (fun cache entry => cache.insert entry.1 (balanceOf entry.2))
      cache).lookup account).isSome := by
  induction rows generalizing cache with
  | nil => exact present
  | cons entry rest ih =>
    refine ih ?_
    by_cases same : account = entry.1
    · rw [same, AList.lookup_insert]
      rfl
    · rw [AList.lookup_insert_ne same]
      exact present

/-! ## Threads -/

namespace AccountTask

/-- What the thread has read is what the accounts should hold. -/
def Right (due : Account → AccountColumns) : AccountTask → Prop
  | publish account columns => columns = due account
  | evict account balanceAtoms frozenAtoms =>
    (∀ atoms ∈ balanceAtoms, atoms = (due account).balanceAtoms) ∧
      ∀ atoms ∈ frozenAtoms, atoms = (due account).frozenAtoms
  | select account balanceAtoms => ∀ atoms ∈ balanceAtoms, atoms = (due account).balanceAtoms
  | store userId rows => ∀ entry ∈ rows, entry.1.1 = userId ∧ entry.2 = due entry.1
  | _ => True

theorem publishBalance_eq (sendable : AccountDesk.Sendable balance) :
    publishBalance account balance = publish account (columnsOf balance) := by
  unfold publishBalance accountSetPayload
  rw [WireFloat.toAtoms_ofAtoms sendable.1, WireFloat.toAtoms_ofAtoms sendable.2]
  rfl

theorem exists_snapshot_of_frozen (freezes : task.frozen?.map Prod.fst = some account) :
    ∃ amountAtoms, task = .snapshot account amountAtoms := by
  cases task <;> simp [frozen?] at freezes
  subst freezes
  exact ⟨_, rfl⟩

/-- Two threads that may run together: a handler has its user for itself. -/
def Compatible (first second : AccountTask) : Prop :=
  ∀ userId, (first.handler? = some userId → second.userId? ≠ some userId) ∧
    (second.handler? = some userId → first.userId? ≠ some userId)

instance : Std.Symm Compatible :=
  ⟨fun _ _ compatible userId => (compatible userId).symm⟩

theorem userId?_of_handler (handles : task.handler? = some userId) :
    task.userId? = some userId := by
  cases task <;> first | exact handles | cases handles

theorem userId?_of_held (holds : task.held? = some account) : task.userId? = some account.1 := by
  cases task with
  | publish other columns =>
    cases holds
    rfl
  | _ => cases holds

theorem Right.congr {next : Account → AccountColumns}
    (same : ∀ other ≠ account, next other = due other)
    (notHandler : task.handler? ≠ some account.1) (notHeld : task.held? ≠ some account)
    (right : task.Right due) : task.Right next := by
  cases task with
  | snapshot other amountAtoms => trivial
  | done => trivial
  | publish other columns =>
    refine right.trans (same other fun equal => notHeld ?_).symm
    rw [equal]
    rfl
  | evict other balanceAtoms frozenAtoms =>
    have ne : other ≠ account := fun equal => notHandler (by rw [equal]; rfl)
    simp only [Right, same other ne]
    exact right
  | select other balanceAtoms =>
    have ne : other ≠ account := fun equal => notHandler (by rw [equal]; rfl)
    simp only [Right, same other ne]
    exact right
  | store userId rows =>
    intro entry mem
    obtain ⟨isUser, isDue⟩ := right entry mem
    refine ⟨isUser, isDue.trans (same entry.1 fun equal => notHandler ?_).symm⟩
    rw [← equal, isUser]
    rfl

/-- A thread that goes on has no more for itself than before. -/
theorem Compatible.proceed {old new other : AccountTask}
    (users : new.userId? = old.userId? ∨ new.userId? = none)
    (handlers : new.handler? = old.handler? ∨ new.handler? = none)
    (compatible : old.Compatible other) : new.Compatible other := by
  intro userId
  constructor
  · intro handles
    obtain same | none := handlers
    · exact (compatible userId).1 (same ▸ handles)
    · simp [none] at handles
  · intro handles works
    obtain same | none := users
    · exact (compatible userId).2 handles (same ▸ works)
    · simp [none] at works

end AccountTask

namespace AccountDesk

open AccountTask

variable {index : Nat} {old : AccountTask}

/-- A thread at work publishes the account. -/
def Publishes (desk : AccountDesk) (account : Account) : Prop :=
  (∃ columns, .publish account columns ∈ desk.tasks) ∨
    (desk.cache.lookup account).isSome ∧ ∃ amountAtoms, .snapshot account amountAtoms ∈ desk.tasks

/-- A thread is about to drop the user from the cache. -/
def Evicts (desk : AccountDesk) (userId : UserId) : Prop :=
  ∃ asset balanceAtoms frozenAtoms, .evict (userId, asset) balanceAtoms frozenAtoms ∈ desk.tasks

/-- What holds at every moment of a timely run. -/
structure Sound (initial : Table Account AccountColumns) (desk : AccountDesk) : Prop where
  cached : ∀ account balance, desk.cache.lookup account = some balance →
    columnsOf balance = desk.due initial account ∨ desk.Evicts account.1
  right : ∀ task ∈ desk.tasks, task.Right (desk.due initial)
  snapshots : ∀ account amountAtoms, .snapshot account amountAtoms ∈ desk.tasks →
    0 < amountAtoms → (desk.cache.lookup account).isSome
  landing : ∀ account, desk.landing account = desk.due initial account ∨ desk.Publishes account
  compatible : desk.tasks.Pairwise Compatible
  quiet : ∀ task ∈ desk.tasks, ∀ userId, task.handler? = some userId →
    ∀ row ∈ desk.stream, row.userId ≠ userId
  withdrawals : ∀ withdrawal ∈ desk.funds.withdrawals, withdrawal.account ∈ desk.funds.accounts

/-! ## Landing -/

theorem landing_eq_row {desk : AccountDesk}
    (noFrame : ∀ row ∈ desk.stream, (row.userId, row.asset) ≠ account) :
    desk.landing account = desk.funds.row account := by
  unfold landing
  rw [lookup_writes]
  have none : cell account (desk.stream.map fun row =>
      (⟨(row.userId, row.asset), fun _ => some row.columns⟩ : Write Account AccountColumns)) =
        [] := by
    unfold cell
    rw [map_eq_nil_iff, filter_eq_nil_iff]
    intro write mem
    obtain ⟨row, isRow, rfl⟩ := mem_map.mp mem
    simpa using noFrame row isRow
  rw [none]
  rfl

theorem landing_congr {desk next : AccountDesk} {account : Account}
    (sameRow : next.funds.accounts.lookup account = desk.funds.accounts.lookup account)
    (sameStream : next.stream = desk.stream) : next.landing account = desk.landing account := by
  unfold landing
  rw [lookup_writes, lookup_writes, sameRow, sameStream]

theorem landing_publish {desk next : AccountDesk} (sameFunds : next.funds = desk.funds)
    {row : AccountRow} (published : next.stream = desk.stream ++ [row]) (account : Account) :
    next.landing account =
      if account = (row.userId, row.asset) then row.columns else desk.landing account := by
  unfold landing
  rw [sameFunds, published, map_append, writes_append, map_singleton,
    writes_cons, writes_nil, lookup_write]
  split_ifs <;> rfl

/-! ## What is due -/

/-- The desk after a movement. -/
def moved (desk : AccountDesk) (cache : AccountCache) (tasks : List AccountTask)
    (movement : Movement) : AccountDesk :=
  { desk with
    cache := cache
    tasks := tasks
    movements := desk.movements ++ [movement] }

theorem due_moved (initial : Table Account AccountColumns) (desk : AccountDesk)
    (cache : AccountCache) (tasks : List AccountTask) (movement : Movement) (account : Account) :
    (desk.moved cache tasks movement).due initial account =
      { balanceAtoms := (desk.due initial account).balanceAtoms + movement.balanceAtoms account
        frozenAtoms := (desk.due initial account).frozenAtoms + movement.frozenAtoms account } := by
  unfold due traded settledOf openedOf Funds.due moved
  simp only [map_append, sum_append, map_singleton, sum_singleton]
  rw [AccountColumns.mk.injEq]
  constructor <;> omega

theorem Publishes.exists_task {desk : AccountDesk} (publishes : desk.Publishes account) :
    ∃ task ∈ desk.tasks, task.handler? = none ∧ task.userId? = some account.1 := by
  obtain ⟨columns, mem⟩ | ⟨-, amountAtoms, mem⟩ := publishes
  · exact ⟨_, mem, rfl, rfl⟩
  · exact ⟨_, mem, rfl, rfl⟩

theorem Publishes.set {desk : AccountDesk}
    (publishes : desk.Publishes account) (found : desk.tasks[index]? = some old) (new : AccountTask)
    (notHeld : old.held? ≠ some account) (notFrozen : old.frozen?.map Prod.fst ≠ some account)
    (kept : (desk.cache.lookup account).isSome → (cache.lookup account).isSome) :
    Publishes { desk with cache := cache, tasks := desk.tasks.set index new } account := by
  obtain ⟨columns, mem⟩ | ⟨cached, amountAtoms, mem⟩ := publishes
  · obtain rfl | later := eq_or_mem_set found new mem
    · exact absurd rfl notHeld
    · exact .inl ⟨columns, later⟩
  · obtain rfl | later := eq_or_mem_set found new mem
    · exact absurd rfl notFrozen
    · exact .inr ⟨kept cached, amountAtoms, later⟩

/-- More threads run. -/
theorem Publishes.mono {desk next : AccountDesk} (publishes : desk.Publishes account)
    (sameCache : next.cache = desk.cache) (grows : desk.tasks ⊆ next.tasks) :
    next.Publishes account := by
  unfold Publishes
  rw [sameCache]
  exact publishes.imp (.imp fun _ mem => grows mem) (.imp_right (.imp fun _ mem => grows mem))

theorem Evicts.mono {desk next : AccountDesk} (evicts : desk.Evicts userId)
    (grows : desk.tasks ⊆ next.tasks) : next.Evicts userId :=
  evicts.imp fun _ => .imp fun _ => .imp fun _ mem => grows mem

theorem Evicts.set {desk : AccountDesk}
    (evicts : desk.Evicts userId) (found : desk.tasks[index]? = some old) (new : AccountTask)
    (notOld : ∀ asset balanceAtoms frozenAtoms,
      .evict (userId, asset) balanceAtoms frozenAtoms ≠ old) :
    Evicts { desk with tasks := desk.tasks.set index new } userId := by
  obtain ⟨asset, balanceAtoms, frozenAtoms, mem⟩ := evicts
  exact ⟨asset, balanceAtoms, frozenAtoms,
    (eq_or_mem_set found new mem).resolve_left (notOld _ _ _)⟩

namespace Sound

variable
  {initial : Table Account AccountColumns}
  {desk : AccountDesk}
  (sound : Sound initial desk)
include sound

theorem eq_of_handler (mem : task ∈ desk.tasks) (handles : task.handler? = some userId)
    (isOther : other ∈ desk.tasks) (works : other.userId? = some userId) : task = other := by
  by_contra ne
  exact (sound.compatible.forall mem isOther ne userId).1 handles works

theorem row_eq_due (noTask : ¬ desk.Publishes account)
    (noFrame : ∀ row ∈ desk.stream, (row.userId, row.asset) ≠ account) :
    desk.funds.row account = desk.due initial account := by
  rw [← landing_eq_row noFrame]
  exact (sound.landing account).resolve_right noTask

theorem row_of_quiet {account : Account} (quiet : desk.Quiet account.1) :
    desk.funds.row account = desk.due initial account := by
  refine sound.row_eq_due (fun publishes => ?_) fun row mem same => ?_
  · obtain ⟨task, mem, -, works⟩ := publishes.exists_task
    exact quiet.1 task mem works
  · exact quiet.2 row mem (congrArg Prod.fst same)

/-- Nothing of a handler's user is published by others. -/
theorem ne_of_publishes (mem : task ∈ desk.tasks) (handles : task.handler? = some userId)
    (publishes : desk.Publishes account) : account.1 ≠ userId := by
  rintro rfl
  obtain ⟨other, isOther, noHandler, works⟩ := publishes.exists_task
  obtain rfl := sound.eq_of_handler mem handles isOther works
  rw [noHandler] at handles
  cases handles

theorem row_of_handler {task : AccountTask} (mem : task ∈ desk.tasks) {account : Account}
    (handles : task.handler? = some account.1) :
    desk.funds.row account = desk.due initial account :=
  sound.row_eq_due (fun publishes => sound.ne_of_publishes mem handles publishes rfl)
    fun row isRow same => sound.quiet task mem account.1 handles row isRow (congrArg Prod.fst same)

theorem cached_of_free (noHandler : ∀ task ∈ desk.tasks, task.handler? ≠ some account.1)
    (found : desk.cache.lookup account = some balance) :
    columnsOf balance = desk.due initial account := by
  refine (sound.cached account balance found).resolve_right ?_
  rintro ⟨asset, balanceAtoms, frozenAtoms, mem⟩
  exact noHandler _ mem rfl

/-! ## Orders -/

/-- A change of one cached balance. -/
theorem move
    (free : desk.Free account)
    {tasks : List AccountTask} (isAccount : movement.account = account)
    (others : ∀ other ≠ account, cache.lookup other = desk.cache.lookup other)
    (value : ∀ balance, cache.lookup account = some balance →
      columnsOf balance = (desk.moved cache tasks movement).due initial account)
    (kept : (desk.cache.lookup account).isSome → (cache.lookup account).isSome)
    (new : ∀ task ∈ tasks, task ∈ desk.tasks ∨
      task.handler? = none ∧ task.Right ((desk.moved cache tasks movement).due initial) ∧
        ∀ other amountAtoms, task = .snapshot other amountAtoms → 0 < amountAtoms →
          (cache.lookup other).isSome)
    (compatible : tasks.Pairwise Compatible)
    (stays : ∀ task ∈ desk.tasks, task ∈ tasks ∨
      ∃ amountAtoms, task = .snapshot account amountAtoms)
    (lands : desk.landing account = (desk.moved cache tasks movement).due initial account ∨
      (desk.moved cache tasks movement).Publishes account) :
    Sound initial (desk.moved cache tasks movement) := by
  have sameDue : ∀ other ≠ account,
      (desk.moved cache tasks movement).due initial other = desk.due initial other := by
    intro other ne
    rw [← isAccount] at ne
    rw [due_moved, (eq_zero_of_ne ne).1, (eq_zero_of_ne ne).2, add_zero, add_zero]
  refine ⟨fun other balance found => ?_, fun task mem => ?_,
    fun other amountAtoms mem positive => ?_, fun other => ?_, compatible,
    fun task mem userId handles row isRow => ?_, sound.withdrawals⟩
  · by_cases same : other = account
    · subst same
      exact .inl (value balance found)
    · obtain found : cache.lookup other = some balance := found
      rw [others other same] at found
      rw [sameDue other same]
      refine (sound.cached other balance found).imp_right ?_
      rintro ⟨asset, balanceAtoms, frozenAtoms, mem⟩
      exact ⟨asset, balanceAtoms, frozenAtoms, (stays _ mem).resolve_right (by simp)⟩
  · obtain old | ⟨-, right, -⟩ := new task mem
    · exact (sound.right task old).congr sameDue (free.1 task old) (free.2 task old)
    · exact right
  · obtain old | ⟨-, -, cached⟩ := new _ mem
    · have before := sound.snapshots other amountAtoms old positive
      by_cases same : other = account
      · subst same
        exact kept before
      · show (cache.lookup other).isSome
        rw [others other same]
        exact before
    · exact cached other amountAtoms rfl positive
  · by_cases same : other = account
    · subst same
      exact lands
    · rw [sameDue other same]
      refine (sound.landing other).imp_right ?_
      rintro (⟨columns, mem⟩ | ⟨cached, amountAtoms, mem⟩)
      · exact .inl ⟨columns, (stays _ mem).resolve_right (by simp)⟩
      · rw [← others other same] at cached
        exact .inr ⟨cached, amountAtoms, (stays _ mem).resolve_right (by simp [same])⟩
  · obtain old | ⟨noHandler, -⟩ := new task mem
    · exact sound.quiet task old userId handles row isRow
    · rw [noHandler] at handles
      cases handles

theorem compatible_append {account : Account}
    (noHandler : ∀ task ∈ desk.tasks, task.handler? ≠ some account.1)
    {new : AccountTask} (plain : new.handler? = none) (works : new.userId? = some account.1) :
    (desk.tasks ++ [new]).Pairwise Compatible := by
  refine pairwise_append sound.compatible fun task mem userId => ⟨?_, ?_⟩
  · intro handles same
    rw [works] at same
    exact noHandler task mem (handles.trans same.symm)
  · intro handles
    rw [plain] at handles
    cases handles

theorem freeze (free : desk.Free account) (amountAtoms : Int) :
    Sound initial (desk.step (.freeze account amountAtoms)) := by
  simp only [step]
  split
  · exact sound
  · rename_i cache frozen
    show Sound initial (desk.moved cache _ _)
    have compatible := @compatible_append _ _ sound _ free.1 (.snapshot account amountAtoms) rfl rfl
    have stays : ∀ task ∈ desk.tasks, task ∈ desk.tasks ++ [.snapshot account amountAtoms] ∨
        ∃ amountAtoms, task = .snapshot account amountAtoms :=
      fun task mem => .inl (mem_append_left _ mem)
    obtain ⟨nothing, rfl⟩ | ⟨positive, balance, found, rfl⟩ := tryFreezeCache_eq_some frozen
    · have sameDue : (desk.moved desk.cache (desk.tasks ++ [.snapshot account amountAtoms])
          (.freeze account amountAtoms)).due initial account = desk.due initial account := by
        rw [due_moved]
        simp [Movement.balanceAtoms, frozenAtoms, max_eq_right nothing]
      refine sound.move free rfl (fun _ _ => rfl) (fun balance found => ?_) id
        (fun task mem => ?_) compatible stays ?_
      · rw [sameDue]
        exact sound.cached_of_free free.1 found
      · refine (mem_append.mp mem).imp_right fun new => ?_
        obtain rfl := mem_singleton.mp new
        refine ⟨rfl, trivial, fun other amount same positive => ?_⟩
        obtain ⟨-, rfl⟩ := AccountTask.snapshot.inj same
        omega
      · rw [sameDue]
        exact (sound.landing account).imp_right (·.mono rfl (subset_append_left _ _))
    · have inserted : (desk.cache.insert account
          { balance with frozenAtoms := balance.frozenAtoms + amountAtoms }).lookup account =
            some { balance with frozenAtoms := balance.frozenAtoms + amountAtoms } :=
        AList.lookup_insert _
      have isCached := isSome_of_eq_some inserted
      refine sound.move free rfl
        (fun _ => AList.lookup_insert_ne) (fun after isAfter => ?_)
        (fun _ => isCached) (fun task mem => ?_) compatible stays
        (.inr (.inr ⟨isCached, amountAtoms, mem_append_right _ (mem_singleton_self _)⟩))
      · cases inserted.symm.trans isAfter
        rw [due_moved, ← sound.cached_of_free free.1 found]
        simp [columnsOf, Movement.balanceAtoms, frozenAtoms, max_eq_left positive.le]
      · refine (mem_append.mp mem).imp_right fun new => ?_
        obtain rfl := mem_singleton.mp new
        refine ⟨rfl, trivial, fun other amount same positive => ?_⟩
        obtain ⟨rfl, -⟩ := AccountTask.snapshot.inj same
        exact isCached

/-- A change of a cached balance that is published at once. -/
theorem move_publish
    (free : desk.Free account) (isAccount : movement.account = account)
    (others : ∀ other ≠ account, cache.lookup other = desk.cache.lookup other)
    (found : cache.lookup account = some balance)
    (value : columnsOf balance =
      { balanceAtoms := (desk.due initial account).balanceAtoms + movement.balanceAtoms account
        frozenAtoms := (desk.due initial account).frozenAtoms + movement.frozenAtoms account }) :
    Sound initial
      (desk.moved cache (desk.tasks ++ [.publish account (columnsOf balance)]) movement) := by
  rw [← due_moved initial desk cache (desk.tasks ++ [.publish account (columnsOf balance)])]
    at value
  refine sound.move free isAccount others (fun other isOther => ?_)
    (fun _ => isSome_of_eq_some found) (fun task mem => ?_)
    (sound.compatible_append free.1 rfl rfl)
    (fun task mem => .inl (mem_append_left _ mem))
    (.inr (.inl ⟨_, mem_append_right _ (mem_singleton_self _)⟩))
  · cases found.symm.trans isOther
    exact value
  · refine (mem_append.mp mem).imp_right fun new => ?_
    obtain rfl := mem_singleton.mp new
    exact ⟨rfl, value, by simp⟩

theorem release (timely : desk.Timely (.release account amountAtoms)) :
    Sound initial (desk.step (.release account amountAtoms)) := by
  obtain ⟨free, inRange, isCached, fits⟩ := timely
  obtain ⟨balance, found⟩ := isSome_iff_exists.mp isCached
  have after := lookup_releaseCacheFrozen desk.cache account account inRange
  rw [if_pos rfl, found] at after
  obtain ⟨unclamped, sendable⟩ := fits balance found
  simp only [step]
  rw [if_pos inRange, after, Option.map_some, toList_some, map_singleton,
    publishBalance_eq sendable]
  refine sound.move_publish free rfl (fun other ne => ?_) after ?_
  · rw [lookup_releaseCacheFrozen _ account other inRange, if_neg ne]
  · rw [columnsOf_releaseAtoms unclamped, ← sound.cached_of_free free.1 found]
    simp [columnsOf, Movement.balanceAtoms, frozenAtoms, sub_eq_add_neg]

theorem settle (timely : desk.Timely (.settle account balanceAtoms frozenReleaseAtoms)) :
    Sound initial (desk.step (.settle account balanceAtoms frozenReleaseAtoms)) := by
  obtain ⟨free, known, fits, sendable⟩ := timely
  have before : columnsOf ((desk.cache.lookup account).getD ⟨0, 0⟩) = desk.due initial account := by
    cases found : desk.cache.lookup account with
    | some balance => exact sound.cached_of_free free.1 found
    | none =>
      obtain ⟨noRow, noFrame⟩ := known.resolve_left (by simp [found])
      have row : desk.funds.row account = ⟨0, 0⟩ := by simp [Funds.row, noRow]
      rw [← sound.row_eq_due ?_ noFrame, row]
      · rfl
      · rintro (⟨columns, mem⟩ | ⟨cached, -⟩)
        · exact free.2 _ mem rfl
        · simp [found] at cached
  simp only [step, publishBalance_eq sendable]
  refine sound.move_publish free rfl
    (fun _ => AList.lookup_insert_ne) (AList.lookup_insert _) ?_
  rw [columnsOf_applyAtomsDelta fits, ← before]
  simp [columnsOf, Movement.balanceAtoms, frozenAtoms, sub_eq_add_neg]

theorem giveUp (timely : desk.Timely (.giveUp index)) :
    Sound initial (desk.step (.giveUp index)) := by
  simp only [step]
  split
  · rename_i account amountAtoms found
    obtain ⟨free, inRange, lands⟩ := timely _ found _ rfl
    show Sound initial (desk.moved _ _ _)
    have compatible := pairwise_set found
      (fun other => @Compatible.proceed _ .done _ (.inr rfl) (.inr rfl)) sound.compatible
    have stays : ∀ task ∈ desk.tasks, task ∈ desk.tasks.set index .done ∨
        ∃ amountAtoms, task = .snapshot account amountAtoms := by
      intro task mem
      obtain rfl | later := eq_or_mem_set found .done mem
      · exact .inr ⟨amountAtoms, rfl⟩
      · exact .inl later
    have new : ∀ task ∈ desk.tasks.set index .done, task ∈ desk.tasks ∨ task = .done :=
      fun task mem => mem_or_eq_of_mem_set mem
    have others : ∀ other ≠ account,
        (releaseCacheFrozen desk.cache account.1 account.2 amountAtoms).lookup other =
          desk.cache.lookup other := by
      intro other ne
      rw [lookup_releaseCacheFrozen _ account other inRange, if_neg ne]
    have after := lookup_releaseCacheFrozen desk.cache account account inRange
    rw [if_pos rfl] at after
    cases cached : desk.cache.lookup account with
    | none =>
      rw [cached] at after
      have nothing : amountAtoms ≤ 0 := by
        by_contra positive
        have := sound.snapshots account amountAtoms (mem_of_getElem? found) (by omega)
        simp [cached] at this
      refine sound.move free rfl others (by simp [after]) (by simp [cached])
        (fun task mem => (new task mem).imp_right ?_) compatible stays (.inl ?_)
      · rintro rfl
        exact ⟨rfl, trivial, by simp⟩
      · rw [due_moved]
        simp only [Movement.balanceAtoms, frozenAtoms, if_pos, max_eq_right nothing,
          neg_zero, add_zero]
        refine (sound.landing account).resolve_right ?_
        rintro (⟨columns, mem⟩ | ⟨isCached, -⟩)
        · exact free.2 _ mem rfl
        · simp [cached] at isCached
    | some balance =>
      obtain ⟨fits, alternatives⟩ := lands balance cached
      rw [cached] at after
      have value : columnsOf (balance.releaseAtoms amountAtoms) =
          (desk.moved (releaseCacheFrozen desk.cache account.1 account.2 amountAtoms)
            (desk.tasks.set index .done) (.release account amountAtoms)).due initial
              account := by
        rw [columnsOf_releaseAtoms fits, due_moved, ← sound.cached_of_free free.1 cached]
        simp [columnsOf, Movement.balanceAtoms, frozenAtoms, sub_eq_add_neg]
      refine sound.move free rfl others (fun other isOther => ?_)
        (fun _ => isSome_of_eq_some after)
        (fun task mem => (new task mem).imp_right ?_) compatible stays ?_
      · cases after.symm.trans isOther
        exact value
      · rintro rfl
        exact ⟨rfl, trivial, by simp⟩
      · obtain ⟨other, mem, freezes⟩ | landed := alternatives
        · obtain ⟨amount, rfl⟩ := exists_snapshot_of_frozen freezes
          obtain ⟨place, ne, isOther⟩ := mem_eraseIdx_iff_getElem?.mp mem
          refine .inr (.inr ⟨isSome_of_eq_some after, amount, ?_⟩)
          exact mem_iff_getElem?.mpr
            ⟨place, (List.getElem?_set_ne ne.symm).trans isOther⟩
        · exact .inl (landed.trans value)
  · exact sound

/-! ## Threads -/

/-- A thread that does not drop a user goes on. -/
theorem cached_set (found : desk.tasks[index]? = some old)
    (notEvict : ∀ account balanceAtoms frozenAtoms, .evict account balanceAtoms frozenAtoms ≠ old)
    {new : AccountTask} {account : Account} {balance : AccountBalance}
    (isCached : desk.cache.lookup account = some balance) :
    columnsOf balance = desk.due initial account ∨
      Evicts { desk with tasks := desk.tasks.set index new } account.1 :=
  (sound.cached account balance isCached).imp_right (·.set found new fun _ => notEvict _)

/-- A thread goes on, and changes neither a row nor what is due. -/
theorem advance
    (found : desk.tasks[index]? = some old) (new : AccountTask)
    (users : new.userId? = old.userId? ∨ new.userId? = none)
    (handlers : new.handler? = old.handler? ∨ new.handler? = none)
    (right : new.Right (desk.due initial)) (notSnapshot : new.frozen? = none)
    (cached : ∀ account balance, cache.lookup account = some balance →
      columnsOf balance = desk.due initial account ∨
        Evicts { desk with tasks := desk.tasks.set index new } account.1)
    (kept : ∀ account amountAtoms, .snapshot account amountAtoms ∈ desk.tasks.set index new →
      (desk.cache.lookup account).isSome → (cache.lookup account).isSome)
    (published : ∀ account, desk.Publishes account →
      desk.landing account = desk.due initial account ∨
        Publishes { desk with cache := cache, tasks := desk.tasks.set index new } account) :
    Sound initial { desk with cache := cache, tasks := desk.tasks.set index new } := by
  have isTask := mem_of_getElem? found
  refine ⟨cached, fun task mem => ?_, fun account amountAtoms mem positive => ?_,
    fun account => (sound.landing account).elim .inl (published account),
    pairwise_set found (fun other => Compatible.proceed users handlers)
      sound.compatible, fun task mem userId handles row isRow => ?_, sound.withdrawals⟩
  · obtain earlier | rfl := mem_or_eq_of_mem_set mem
    · exact sound.right task earlier
    · exact right
  · obtain earlier | rfl := mem_or_eq_of_mem_set mem
    · exact kept account amountAtoms mem (sound.snapshots account amountAtoms earlier positive)
    · cases notSnapshot
  · obtain earlier | rfl := mem_or_eq_of_mem_set mem
    · exact sound.quiet task earlier userId handles row isRow
    · obtain same | none := handlers
      · exact sound.quiet old isTask userId (same ▸ handles) row isRow
      · rw [none] at handles
        cases handles

theorem snapshot (found : desk.tasks[index]? = some (.snapshot account amountAtoms))
    (sendable : ∀ balance ∈ desk.cache.lookup account, Sendable balance) :
    Sound initial (desk.proceed index (.snapshot account amountAtoms)) := by
  have isTask := mem_of_getElem? found
  have noHandler : ∀ task ∈ desk.tasks, task.handler? ≠ some account.1 := by
    intro task mem handles
    obtain rfl := sound.eq_of_handler mem handles isTask rfl
    cases handles
  have others : ∀ new other, other ≠ account → desk.Publishes other →
      Publishes { desk with tasks := desk.tasks.set index new } other :=
    fun new other ne publishes =>
      publishes.set found new (by simp [held?]) (by simpa [frozen?] using ne.symm) id
  unfold proceed
  cases cached : desk.cache.lookup account with
  | none =>
    simp only [cached]
    refine sound.advance found .done (.inr rfl) (.inr rfl) trivial rfl
      (fun _ _ => sound.cached_set found (by simp)) (fun _ _ _ => id) fun other publishes => ?_
    by_cases same : other = account
    · subst same
      obtain ⟨columns, mem⟩ | ⟨isCached, -⟩ := publishes
      · refine .inr (.inl ⟨columns, ?_⟩)
        exact (eq_or_mem_set found .done mem).resolve_left (by simp)
      · simp [cached] at isCached
    · exact .inr (others .done other same publishes)
  | some balance =>
    simp only [cached, Option.elim_some, publishBalance_eq (sendable balance cached)]
    refine sound.advance found (.publish account (columnsOf balance)) (.inl rfl) (.inl rfl)
      (sound.cached_of_free noHandler cached) rfl
      (fun _ _ => sound.cached_set found (by simp)) (fun _ _ _ => id) fun other publishes => .inr ?_
    by_cases same : other = account
    · subst same
      exact .inl ⟨_, mem_set_self found _⟩
    · exact others _ other same publishes

theorem publish (found : desk.tasks[index]? = some (.publish account columns)) :
    Sound initial (desk.proceed index (.publish account columns)) := by
  have isTask := mem_of_getElem? found
  have old : ∀ task ∈ desk.tasks.set index .done, task ∈ desk.tasks ∨ task = .done :=
    fun task mem => mem_or_eq_of_mem_set mem
  refine ⟨fun _ _ => sound.cached_set found (by simp), fun task mem => ?_,
    fun other amountAtoms mem => ?_, fun other => ?_,
    pairwise_set found
      (fun other => @Compatible.proceed _ .done _ (.inr rfl) (.inr rfl)) sound.compatible,
    fun task mem userId handles row isRow => ?_, sound.withdrawals⟩
  · obtain earlier | rfl := old task mem
    · exact sound.right task earlier
    · trivial
  · obtain earlier | new := old _ mem
    · exact sound.snapshots other amountAtoms earlier
    · cases new
  · rw [@landing_publish desk (desk.proceed index (.publish account columns)) rfl _ rfl]
    by_cases same : other = account
    · subst same
      rw [if_pos rfl]
      exact .inl (sound.right _ isTask)
    · rw [if_neg same]
      exact (sound.landing other).imp_right fun publishes =>
        publishes.set found .done (by simpa [held?] using Ne.symm same) (by simp [frozen?]) id
  · obtain earlier | rfl := old task mem
    · obtain stored | new := mem_append.mp isRow
      · exact sound.quiet task earlier userId handles row stored
      · obtain rfl := mem_singleton.mp new
        intro same
        obtain rfl := sound.eq_of_handler earlier handles isTask (by rw [← same]; rfl)
        cases handles
    · cases handles

theorem evict {balanceAtoms frozenAtoms : Option Int}
    (found : desk.tasks[index]? = some (.evict account balanceAtoms frozenAtoms)) :
    Sound initial (desk.proceed index (.evict account balanceAtoms frozenAtoms)) := by
  have isTask := mem_of_getElem? found
  obtain ⟨rightBalance, rightFrozen⟩ := sound.right _ isTask
  have dropped : ∀ other : Account, (dropUser account.1 desk.cache).lookup other =
      if other.1 ≠ account.1 then desk.cache.lookup other else none := by
    intro other
    unfold dropUser
    rw [KeyedMap.lookup_restrict]
    simp
  have cached : ∀ new other balance, (dropUser account.1 desk.cache).lookup other = some balance →
      columnsOf balance = desk.due initial other ∨
        Evicts { desk with tasks := desk.tasks.set index new } other.1 := by
    intro new other balance isCached
    rw [dropped] at isCached
    split_ifs at isCached with ne
    refine (sound.cached other balance isCached).imp_right (·.set found new ?_)
    rintro asset _ _ ⟨⟩
    exact ne rfl
  have kept : ∀ new : AccountTask, new.frozen? = none → ∀ other amountAtoms,
      .snapshot other amountAtoms ∈ desk.tasks.set index new →
      (desk.cache.lookup other).isSome → ((dropUser account.1 desk.cache).lookup other).isSome := by
    intro new notSnapshot other amountAtoms mem isCached
    rw [dropped, if_pos]
    · exact isCached
    · obtain earlier | rfl := mem_or_eq_of_mem_set mem
      · intro same
        exact absurd (sound.eq_of_handler isTask rfl earlier (by rw [← same]; rfl)) (by simp)
      · cases notSnapshot
  have published : ∀ new other, desk.Publishes other →
      Publishes { desk with
        cache := dropUser account.1 desk.cache
        tasks := desk.tasks.set index new } other := by
    intro new other publishes
    have ne := sound.ne_of_publishes isTask rfl publishes
    refine publishes.set found new (by simp [held?]) (by simp [frozen?]) fun isCached => ?_
    rw [dropped, if_pos ne]
    exact isCached
  have selects : Sound initial { desk with
      cache := dropUser account.1 desk.cache
      tasks := desk.tasks.set index (.select account balanceAtoms) } :=
    sound.advance found (.select account balanceAtoms) (.inl rfl) (.inl rfl) rightBalance rfl
      (cached _) (kept _ rfl) fun other publishes => .inr (published _ other publishes)
  cases balanceAtoms with
  | none => exact selects
  | some balanceAtoms =>
    cases frozenAtoms with
    | none => exact selects
    | some frozenAtoms =>
      refine sound.advance found (.publish account ⟨balanceAtoms, frozenAtoms⟩) (.inl rfl)
        (.inr rfl) ?_ rfl (cached _) (kept _ rfl)
        fun other publishes => .inr (published _ other publishes)
      simp only [Right]
      rw [rightBalance _ rfl, rightFrozen _ rfl]

theorem select {balanceAtoms : Option Int}
    (found : desk.tasks[index]? = some (.select account balanceAtoms)) :
    Sound initial (desk.proceed index (.select account balanceAtoms)) := by
  have isTask := mem_of_getElem? found
  have rightBalance : ∀ atoms ∈ balanceAtoms,
      atoms = (desk.due initial account).balanceAtoms := sound.right _ isTask
  have row := @row_of_handler _ _ sound _ isTask account rfl
  have advance : ∀ new : AccountTask,
      (new.userId? = some account.1 ∨ new.userId? = none) → new.handler? = none →
      new.Right (desk.due initial) → new.frozen? = none →
      Sound initial { desk with tasks := desk.tasks.set index new } := by
    intro new users noHandler right notSnapshot
    refine sound.advance found new users (.inr noHandler) right notSnapshot
      (fun _ _ => sound.cached_set found (by simp)) (fun _ _ _ => id)
      fun other publishes => .inr ?_
    exact publishes.set found new (by simp [held?]) (by simp [frozen?]) id
  cases balanceAtoms with
  | some balanceAtoms =>
    refine advance (.publish account ⟨balanceAtoms, (desk.funds.row account).frozenAtoms⟩)
      (.inl rfl) rfl ?_ rfl
    simp only [Right]
    rw [rightBalance _ rfl, row]
  | none =>
    unfold proceed
    cases isRow : desk.funds.accounts.lookup account with
    | some columns =>
      simp only [isRow]
      refine advance (.publish account columns) (.inl rfl) rfl ?_ rfl
      simp only [Right]
      rw [← row]
      simp [Funds.row, isRow]
    | none =>
      simp only [isRow]
      exact advance .done (.inr rfl) rfl trivial rfl

theorem store (found : desk.tasks[index]? = some (.store userId rows)) :
    Sound initial (desk.proceed index (.store userId rows)) := by
  have isTask := mem_of_getElem? found
  refine sound.advance found .done (.inr rfl) (.inr rfl) trivial rfl
    (fun account balance isCached => ?_)
    (fun account _ _ present => isSome_lookup_foldl_insert rows present)
    fun account publishes => .inr (publishes.set found .done (by simp [held?]) (by simp [frozen?])
      fun present => isSome_lookup_foldl_insert rows present)
  obtain before | ⟨columns, mem, rfl⟩ := lookup_foldl_insert rows desk.cache isCached
  · exact sound.cached_set found (by simp) before
  · exact .inl (sound.right _ isTask _ mem).2

theorem proceed (timely : desk.Timely (.proceed index)) :
    Sound initial (desk.step (.proceed index)) := by
  cases found : desk.tasks[index]? with
  | none => simpa [step, found] using sound
  | some task =>
    simp only [step, found]
    cases task with
    | snapshot account amountAtoms => exact sound.snapshot found (timely _ found _ rfl)
    | publish account columns => exact sound.publish found
    | evict account balanceAtoms frozenAtoms => exact sound.evict found
    | select account balanceAtoms => exact sound.select found
    | store userId rows => exact sound.store found
    | done => exact sound

end Sound
end AccountDesk
end LightningX.Persist
