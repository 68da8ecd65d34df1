import LightningX.Desk.Updates
import LightningX.Lib.Along
import Mathlib.Data.List.Dedup
import Mathlib.Algebra.BigOperators.Group.Finset.Piecewise
import Mathlib.Algebra.Order.BigOperators.Group.List
import Mathlib.Algebra.Group.Prod

/-!
# Frozen and settled balances

`AccountBalance` clamps the balance and the frozen part each for itself.  The frozen part stays
between zero and the balance if and only if no call takes away more than is there, and
settlements keep the total of an asset as long as no balance is clamped.
-/

namespace LightningX.Desk

open Risk

inductive BalanceCall
  | freeze (amountAtoms : Int)
  | release (amountAtoms : Int)
  | settle (balanceDeltaAtoms frozenReleaseAtoms : Int)

namespace AccountBalance

/-- Handle a call; a freeze that is refused changes nothing. -/
def step (balance : AccountBalance) : BalanceCall → AccountBalance
  | .freeze amountAtoms => (balance.tryFreezeAtoms amountAtoms).getD balance
  | .release amountAtoms => balance.releaseAtoms amountAtoms
  | .settle balanceDeltaAtoms frozenReleaseAtoms =>
    balance.applyAtomsDelta balanceDeltaAtoms frozenReleaseAtoms

/-- The frozen part lies between zero and the balance. -/
def Sound (balance : AccountBalance) : Prop :=
  0 ≤ balance.frozenAtoms ∧ balance.frozenAtoms ≤ balance.balanceAtoms
deriving Decidable

/-- No more is released than is frozen, and what stays frozen is covered. -/
def Covered (balance : AccountBalance) : BalanceCall → Prop
  | .freeze _ => True
  | .release amountAtoms => amountAtoms ≤ balance.frozenAtoms
  | .settle balanceDeltaAtoms frozenReleaseAtoms =>
    frozenReleaseAtoms ≤ balance.frozenAtoms ∧
      (balance.frozenAtoms = max frozenReleaseAtoms 0 ∨
        balance.frozenAtoms - max frozenReleaseAtoms 0 ≤
          balance.balanceAtoms + balanceDeltaAtoms)

theorem balanceAtoms_releaseAtoms (balance : AccountBalance) (amountAtoms : Int) :
    (balance.releaseAtoms amountAtoms).balanceAtoms = balance.balanceAtoms := by
  unfold releaseAtoms
  split_ifs <;> rfl

theorem frozenAtoms_releaseAtoms (balance : AccountBalance) (amountAtoms : Int) :
    (balance.releaseAtoms amountAtoms).frozenAtoms =
      if amountAtoms ≤ 0 then balance.frozenAtoms
      else max (balance.frozenAtoms - amountAtoms) (-2 ^ 63) := by
  unfold releaseAtoms
  split_ifs <;> rfl

theorem step_spec {balance : AccountBalance} (fits : balance.balanceAtoms ≤ i64Max)
    (sound : balance.Sound) (call : BalanceCall) :
    (balance.step call).balanceAtoms ≤ i64Max ∧
      ((balance.step call).Sound ↔ balance.Covered call) := by
  cases call with
  | freeze =>
    simp only [step, tryFreezeAtoms, Covered, iff_true]
    split
    · exact ⟨fits, sound⟩
    · split
      · rename_i enough
        unfold availableAtoms at enough
        unfold Sound at *
        dsimp only [Option.getD_some]
        omega
      · exact ⟨fits, sound⟩
  | release =>
    unfold step Covered Sound at *
    rw [balanceAtoms_releaseAtoms, frozenAtoms_releaseAtoms]
    split_ifs <;> omega
  | settle =>
    unfold step applyAtomsDelta saturatingAdd Covered Sound at *
    simp only [balanceAtoms_releaseAtoms, frozenAtoms_releaseAtoms]
    split_ifs <;> omega

end AccountBalance

/-- An account and what a settlement changes in it. -/
abbrev BalanceDelta := (UserId × Asset) × (Int × Int)

/-- The cached balance of an account. -/
def cached (cache : AccountCache) (account : UserId × Asset) : AccountBalance :=
  (cache.lookup account).getD ⟨0, 0⟩

/-- Apply the change of one account. -/
def settleAccount (cache : AccountCache) (delta : BalanceDelta) : AccountCache :=
  cache.insert delta.1 ((cached cache delta.1).applyAtomsDelta delta.2.1 delta.2.2)

/-- The settled balance fits and is not clamped. -/
def SettlesInRange (cache : AccountCache) (delta : BalanceDelta) : Prop :=
  let balanceAtoms := (cached cache delta.1).balanceAtoms + delta.2.1
  0 ≤ balanceAtoms ∧ balanceAtoms ≤ i64Max
deriving Decidable

def totalOf (cache : AccountCache) (asset : Asset) : Int :=
  KeyedMap.total (fun account balance => if account.2 = asset then balance.balanceAtoms else 0)
    cache

def changeOf (deltas : List BalanceDelta) (asset : Asset) : Int :=
  (deltas.map fun delta => if delta.1.2 = asset then delta.2.1 else 0).sum

/-- The net change of each account. -/
def netDeltas (deltas : List BalanceDelta) : List BalanceDelta :=
  (deltas.map (·.1)).dedup.map fun account => (account, State.netDelta deltas account)

/-- No balance is clamped by the net change of its account. -/
def BatchInRange (cache : AccountCache) (deltas : List BalanceDelta) : Prop :=
  ∀ account ∈ deltas.map (·.1), SettlesInRange cache (account, State.netDelta deltas account)
deriving Decidable

/-- `BatchSettleTrade` applies the net change of each account. -/
theorem applyDeltas_eq (cache : AccountCache) (deltas : List BalanceDelta) :
    State.applyDeltas cache deltas = (netDeltas deltas).foldl settleAccount cache := by
  unfold netDeltas
  rw [List.foldl_map]
  rfl

theorem netDelta_cons (delta : BalanceDelta) (deltas : List BalanceDelta)
    (account : UserId × Asset) :
    State.netDelta (delta :: deltas) account =
      (if delta.1 = account then delta.2 else 0) + State.netDelta deltas account := by
  unfold State.netDelta
  rw [List.filter_cons]
  by_cases same : delta.1 = account
  · simp [same, Prod.ext_iff]
  · simp [same]

theorem netDelta_append (first second : List BalanceDelta) (account : UserId × Asset) :
    State.netDelta (first ++ second) account =
      State.netDelta first account + State.netDelta second account := by
  induction first with
  | nil => exact (zero_add (State.netDelta second account)).symm
  | cons delta first ih => rw [List.cons_append, netDelta_cons, ih, netDelta_cons, add_assoc]

/-- Net changes add up to the changes. -/
theorem changeOf_netDeltas (deltas : List BalanceDelta) (asset : Asset) :
    changeOf (netDeltas deltas) asset = changeOf deltas asset := by
  have regroup : ∀ accounts : Finset (UserId × Asset), (∀ delta ∈ deltas, delta.1 ∈ accounts) →
      (∑ account ∈ accounts, if account.2 = asset then (State.netDelta deltas account).1 else 0) =
        changeOf deltas asset := by
    intro accounts known
    induction deltas with
    | nil => simp [changeOf, State.netDelta]
    | cons delta deltas ih =>
      have rest := ih fun other mem => known other (List.mem_cons_of_mem _ mem)
      have own : delta.1 ∈ accounts := known delta List.mem_cons_self
      unfold changeOf at rest ⊢
      have first : ∀ account, (if account.2 = asset then
          (State.netDelta (delta :: deltas) account).1 else 0) =
          (if delta.1 = account then if delta.1.2 = asset then delta.2.1 else 0 else 0) +
            if account.2 = asset then (State.netDelta deltas account).1 else 0 := by
        intro account
        rw [netDelta_cons, Prod.fst_add]
        split_ifs <;> simp_all
      rw [Finset.sum_congr rfl fun account _ => first account, Finset.sum_add_distrib,
        Finset.sum_ite_eq, if_pos own, rest, List.map_cons, List.sum_cons]
  unfold changeOf netDeltas
  rw [List.map_map, ← List.sum_toFinset _ (List.nodup_dedup _)]
  refine regroup _ fun delta mem => ?_
  exact List.mem_toFinset.mpr (List.mem_dedup.mpr (List.mem_map_of_mem mem))

section

variable {cache : AccountCache}

theorem cached_settleAccount (cache : AccountCache) (change : BalanceDelta)
    (account : UserId × Asset) :
    cached (settleAccount cache change) account =
      if account = change.1 then (cached cache account).applyAtomsDelta change.2.1 change.2.2
      else cached cache account := by
  split_ifs with same
  · rw [same, cached, settleAccount, AList.lookup_insert]
    rfl
  · rw [cached, settleAccount, AList.lookup_insert_ne same]
    rfl

section

variable {accounts : List (UserId × Asset)} (distinct : accounts.Nodup)
  (net : UserId × Asset → Int × Int)
include distinct

/-- Each account is changed once. -/
theorem cached_foldl_settleAccount (account : UserId × Asset) :
    cached ((accounts.map fun account => (account, net account)).foldl settleAccount cache)
        account =
      if account ∈ accounts then
        (cached cache account).applyAtomsDelta (net account).1 (net account).2
      else cached cache account := by
  induction accounts generalizing cache with
  | nil => rfl
  | cons first rest ih =>
    obtain ⟨notLater, restDistinct⟩ := List.nodup_cons.mp distinct
    rw [List.map_cons, List.foldl_cons, ih restDistinct, cached_settleAccount]
    by_cases same : account = first
    · subst same
      rw [if_neg notLater, if_pos rfl, if_pos List.mem_cons_self]
    · rw [if_neg same]
      simp only [List.mem_cons, same, false_or]

/-- What is in range at first is so at its turn. -/
theorem along_settlesInRange
    (inRange : ∀ account ∈ accounts, SettlesInRange cache (account, net account)) :
    Along settleAccount SettlesInRange cache
      (accounts.map fun account => (account, net account)) := by
  induction accounts generalizing cache with
  | nil => trivial
  | cons first rest ih =>
    obtain ⟨notLater, restDistinct⟩ := List.nodup_cons.mp distinct
    refine ⟨inRange first List.mem_cons_self, ih restDistinct fun account mem => ?_⟩
    have other : account ≠ first := fun same => notLater (same ▸ mem)
    unfold SettlesInRange
    rw [cached_settleAccount, if_neg other]
    exact inRange account (List.mem_cons_of_mem _ mem)

end

theorem cached_applyDeltas (cache : AccountCache) (deltas : List BalanceDelta)
    (account : UserId × Asset) :
    cached (State.applyDeltas cache deltas) account =
      if account ∈ deltas.map (·.1) then
        (cached cache account).applyAtomsDelta (State.netDelta deltas account).1
          (State.netDelta deltas account).2
      else cached cache account := by
  rw [applyDeltas_eq, netDeltas, cached_foldl_settleAccount (List.nodup_dedup _)]
  simp only [List.mem_dedup]

end

theorem totalOf_foldl (inRange : Along settleAccount SettlesInRange cache deltas) (asset : Asset) :
    totalOf (deltas.foldl settleAccount cache) asset =
      totalOf cache asset + changeOf deltas asset := by
  induction deltas generalizing cache with
  | nil => exact (Int.add_zero _).symm
  | cons delta deltas ih =>
    obtain ⟨⟨nonneg, fits⟩, later⟩ := inRange
    rw [List.foldl_cons, ih later]
    unfold totalOf settleAccount changeOf AccountBalance.applyAtomsDelta saturatingAdd
    rw [KeyedMap.total_insert, List.map_cons, List.sum_cons, KeyedMap.share,
      AccountBalance.balanceAtoms_releaseAtoms]
    unfold cached at nonneg fits ⊢
    cases found : cache.lookup delta.1 <;> simp only [found, Option.getD_none, Option.getD_some,
      Option.map_none, Option.map_some] at * <;> split_ifs <;> omega

/-- A settlement that clamps no balance changes the totals by what it says. -/
theorem totalOf_applyDeltas (inRange : BatchInRange cache deltas) (asset : Asset) :
    totalOf (State.applyDeltas cache deltas) asset =
      totalOf cache asset + changeOf deltas asset := by
  have along := along_settlesInRange (List.nodup_dedup _) (State.netDelta deltas)
    fun account mem => inRange account (List.mem_dedup.mp mem)
  change Along settleAccount SettlesInRange cache (netDeltas deltas) at along
  rw [applyDeltas_eq, totalOf_foldl along, changeOf_netDeltas]

/-- The frozen part stays between zero and the balance if and only if every call is covered, and
settlements that add up to zero keep the total of every asset if no balance is clamped. -/
theorem run_sound_iff_and_conserves (balance : AccountBalance) (calls : List BalanceCall)
    (cache : AccountCache) (batches : List (List BalanceDelta)) :
    (balance.balanceAtoms ≤ i64Max → balance.Sound →
      (Along AccountBalance.step (fun balance call => (balance.step call).Sound) balance calls ↔
        Along AccountBalance.step AccountBalance.Covered balance calls)) ∧
    ((∀ asset, changeOf batches.flatten asset = 0) →
      Along State.applyDeltas BatchInRange cache batches →
      ∀ asset, totalOf (batches.foldl State.applyDeltas cache) asset = totalOf cache asset) := by
  constructor
  · intro fits sound
    induction calls generalizing balance with
    | nil => rfl
    | cons call calls ih =>
      obtain ⟨next, here⟩ := AccountBalance.step_spec fits sound call
      constructor
      · rintro ⟨after, later⟩
        exact ⟨here.mp after, (ih _ next after).mp later⟩
      · rintro ⟨covered, later⟩
        exact ⟨here.mpr covered, (ih _ next (here.mpr covered)).mpr later⟩
  · intro zero inRange asset
    have total : totalOf (batches.foldl State.applyDeltas cache) asset =
        totalOf cache asset + changeOf batches.flatten asset := by
      clear zero
      induction batches generalizing cache with
      | nil => exact (Int.add_zero _).symm
      | cons deltas batches ih =>
        rw [List.foldl_cons, ih _ inRange.2, totalOf_applyDeltas inRange.1, List.flatten_cons]
        simp only [changeOf, List.map_append, List.sum_append]
        omega
    rw [total, zero, Int.add_zero]

/-- An account freezes and settles, and another one gets what it paid. -/
theorem sound_settled :
    (AccountBalance.step (AccountBalance.step ⟨10, 5⟩ (.freeze 2)) (.settle (-3) 3)).Sound ∧
      ∀ asset, totalOf (State.applyDeltas ((∅ : AccountCache).insert (1, 2) ⟨10, 5⟩)
        [((1, 2), (-3, 3)), ((4, 2), (3, 0))]) asset =
          totalOf ((∅ : AccountCache).insert (1, 2) ⟨10, 5⟩) asset := by
  obtain ⟨sound, conserves⟩ := run_sound_iff_and_conserves ⟨10, 5⟩
    [.freeze 2, .settle (-3) 3] ((∅ : AccountCache).insert (1, 2) ⟨10, 5⟩)
    [[((1, 2), (-3, 3)), ((4, 2), (3, 0))]]
  refine ⟨((sound (by decide) (by decide)).mpr
    ⟨trivial, ⟨by decide, .inr (by decide)⟩, trivial⟩).2.1, conserves (fun asset => ?_)
    (by decide)⟩
  simp only [changeOf, List.flatten_cons, List.flatten_nil, List.append_nil, List.map_cons,
    List.map_nil]
  split_ifs <;> rfl

/-- More is released than is frozen, and a settlement is larger than the balance. -/
theorem not_sound_and_not_conserves :
    ¬ (AccountBalance.step ⟨10, 5⟩ (.release 6)).Sound ∧
      totalOf (State.applyDeltas ∅ [((1, 2), (-5, 0)), ((2, 2), (5, 0))]) 2 ≠ totalOf ∅ 2 := by
  decide

end LightningX.Desk
