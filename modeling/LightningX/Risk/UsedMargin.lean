import LightningX.Risk.Fills

/-!
# Used margin and the margins of positions

The used margin of an account is meant to be the sum of the initial margins of
its positions.  A fill against a position that releases no margin breaks this
when it brings margin of its own; every run without such fills keeps it.
-/

namespace LightningX.Risk

open Arithmetic Option KeyedMap

namespace RiskEngine

variable {existing : Option PositionRiskState}

/-- Sum of the initial margins of a user's positions. -/
def positionMargin (engine : RiskEngine) (userId : UserId) : Int :=
  total (fun key position => if key.1 = userId then position.initialMargin else 0)
    engine.positions

/-- Accounts and positions agree on margins. -/
structure MarginsAgree (engine : RiskEngine) : Prop where
  used : ∀ userId account, engine.accounts.lookup userId = some account →
    account.usedMargin = engine.positionMargin userId
  positions : ∀ key position, engine.positions.lookup key = some position →
    0 ≤ position.initialMargin ∧ 0 < position.qtyLots

/-- A fill that brings margin against a position releases margin of it. -/
structure Releases (engine : RiskEngine) (fill : Fill) : Prop where
  noOverflow : NoOverflow engine fill
  nonneg : 0 ≤ fill.marginAtoms
  released : ∀ position ∈ engine.positions.lookup fill.key, position.side ≠ fill.side →
    fill.marginAtoms = 0 ∨ 0 < (engine.positionUpdate exact fill).releasedMargin

variable {engine : RiskEngine} {fill : Fill} {account : AccountRiskState}

/-- A pro rata share lies between zero and the whole. -/
theorem tdiv_share_bounds {parts : Int}
    (wholeNonneg : 0 ≤ whole) (partNonneg : 0 ≤ part) (partLe : part ≤ parts) :
    0 ≤ (whole * part).tdiv parts ∧ (whole * part).tdiv parts ≤ whole := by
  have product : 0 ≤ whole * part := Int.mul_nonneg wholeNonneg partNonneg
  rw [Int.tdiv_eq_ediv_of_nonneg product]
  rcases Int.lt_or_eq_of_le (partNonneg.trans partLe) with positive | zero
  · refine ⟨Int.ediv_nonneg product positive.le, ?_⟩
    exact Int.ediv_le_of_le_mul positive (Int.mul_le_mul_of_nonneg_left partLe wholeNonneg)
  · rw [← zero, Int.ediv_zero]
    exact ⟨le_rfl, wholeNonneg⟩

/-- A fill changes the margins of its user's positions only. -/
theorem positionMargin_onFill (lots : 0 < fill.qtyLots) (userId : UserId) :
    (engine.onFill exact fill).positionMargin userId = engine.positionMargin userId +
      if fill.userId = userId then
        ((engine.positionUpdate exact fill).position.map (·.initialMargin)).getD 0 -
          ((engine.positions.lookup fill.key).map (·.initialMargin)).getD 0
      else 0 := by
  have ofUser : ∀ position : Option PositionRiskState,
      (position.map fun found => if fill.key.1 = userId then found.initialMargin else 0).getD 0 =
      if fill.userId = userId then (position.map (·.initialMargin)).getD 0 else 0 := by
    intro position
    cases position with
    | none => simp
    | some found => rfl
  rw [positionMargin, positions_onFill exact lots, total_storePosition, positionMargin,
    share, ofUser, ofUser]
  split_ifs <;> omega

section

variable (updates : Updates fill existing update) (lots : 0 < fill.qtyLots)
  (nonneg : 0 ≤ fill.marginAtoms)
include updates lots nonneg

theorem usedMargin_follows
    (sound : ∀ before ∈ existing, 0 ≤ before.initialMargin ∧
      before.initialMargin ≤ account.usedMargin)
    (released : ∀ before ∈ existing, before.side ≠ fill.side →
      fill.marginAtoms = 0 ∨ 0 < update.releasedMargin) :
    (if update.releasedMargin > 0 then
        max (account.usedMargin - update.releasedMargin) 0 + (flip exact fill update).1
      else account.usedMargin + fill.marginAtoms) =
      account.usedMargin + ((update.position.map (·.initialMargin)).getD 0 -
        (existing.map (·.initialMargin)).getD 0) := by
  cases updates with
  | opened _ _ _ margin => simp [margin]
  | increased _ _ _ _ margin =>
    simp only [lt_irrefl, if_false, map_some, getD_some]
    omega
  | @closed before opposite =>
    obtain ⟨marginNonneg, covered⟩ := sound before rfl
    have freed := released before rfl opposite
    rw [flip_of_none rfl]
    simp only [map_none, getD_none, map_some, getD_some] at freed ⊢
    split_ifs <;> omega
  | @flipped before after opposite _ side _ _ margin =>
    obtain ⟨marginNonneg, covered⟩ := sound before rfl
    have freed := released before rfl opposite
    rw [flip_of_side rfl side]
    simp only [map_some, getD_some, margin] at freed ⊢
    split_ifs with positive
    · omega
    · have noMargin := freed.resolve_right positive
      rw [noMargin, Int.zero_mul, Int.zero_tdiv]
      omega
  | @reduced before after opposite less side _ _ margin =>
    obtain ⟨marginNonneg, covered⟩ := sound before rfl
    have freed := released before rfl opposite
    have bounds := tdiv_share_bounds marginNonneg lots.le less.le
    rw [flip_of_ne rfl (side ▸ opposite)]
    simp only [map_some, getD_some] at freed ⊢
    split_ifs <;> omega

/-- Positions keep a margin that is not negative, and lots. -/
theorem positions_follow
    (sound : ∀ before ∈ existing, 0 ≤ before.initialMargin ∧ 0 < before.qtyLots) :
    ∀ after ∈ update.position, 0 ≤ after.initialMargin ∧ 0 < after.qtyLots := by
  intro position isPosition
  cases updates with
  | opened _ qty _ margin =>
    obtain rfl := mem_some.mp isPosition
    omega
  | @increased before after _ _ qty _ margin =>
    obtain rfl := mem_some.mp isPosition
    have old := sound before rfl
    omega
  | closed => simp at isPosition
  | @flipped before after _ more _ qty _ margin =>
    obtain rfl := mem_some.mp isPosition
    have old := sound before rfl
    refine ⟨?_, by omega⟩
    rw [margin]
    exact (tdiv_share_bounds nonneg (by omega) (by omega)).1
  | @reduced before after _ less _ qty _ margin =>
    obtain rfl := mem_some.mp isPosition
    have old := sound before rfl
    have bounds := tdiv_share_bounds old.1 lots.le less.le
    omega

end

/-- A fill that releases margin where it has to keeps the margins in agreement. -/
theorem MarginsAgree.onFill (agree : engine.MarginsAgree) (releases : engine.Releases fill) :
    (engine.onFill machine fill).MarginsAgree := by
  rw [releases.noOverflow]
  rcases Int.lt_or_le 0 fill.qtyLots with lots | none
  swap
  · rwa [onFill_of_nonpos exact none]
  have updates := engine.updates_positionUpdate fill
  constructor
  · intro userId account found
    rw [positionMargin_onFill lots]
    rw [accounts_onFill exact lots, lookup_modify] at found
    split_ifs at found with same
    · subst same
      obtain ⟨before, foundBefore, rfl⟩ := map_eq_some_iff.mp found
      rw [if_pos rfl, usedMargin_settleAccount, ← agree.used _ _ foundBefore]
      refine usedMargin_follows updates lots releases.nonneg ?_ releases.released
      intro position isPosition
      refine ⟨(agree.positions _ _ isPosition).1, ?_⟩
      rw [agree.used _ _ foundBefore]
      have share : share (fun key position =>
          if key.1 = fill.userId then position.initialMargin else 0) fill.key
          engine.positions = position.initialMargin := by
        rw [share_of_lookup isPosition]
        exact if_pos rfl
      rw [← share]
      apply share_le_total
      intro key other otherFound
      split_ifs
      · exact (agree.positions key other otherFound).1
      · exact le_rfl
    · rw [if_neg (Ne.symm same), add_zero]
      exact agree.used userId account found
  · intro key position found
    rw [positions_onFill exact lots, lookup_storePosition] at found
    split_ifs at found with same
    · exact positions_follow updates lots releases.nonneg
        (fun before isBefore => agree.positions _ _ isBefore) position found
    · exact agree.positions key position found

end RiskEngine

/-- The operations that change margins or positions. -/
inductive Operation
  | fill (fill : Fill)
  | adl (symbol : Symbol) (config : SymbolConfig) (order : List UserId)
  | markPrice (symbol : Symbol) (newPriceTicks notionalScale : Int) (order : List UserId)
  deriving DecidableEq

namespace RiskEngine

variable (balances : List (UserId × Int))

/-- Accounts with their balances and no positions. -/
def initialized : RiskEngine :=
  balances.foldl (fun engine balance => engine.initializeAccount balance.1 balance.2) new

/-- Fresh accounts are all that is there. -/
theorem initialized_eq :
    ∃ accounts, initialized balances = { new with accounts := accounts } ∧
      ∀ userId account, accounts.lookup userId = some account →
        ∃ balance, account = AccountRiskState.new balance := by
  refine List.foldlRecOn balances _ (motive := fun engine => ∃ accounts,
    engine = { new with accounts := accounts } ∧ ∀ userId account,
      accounts.lookup userId = some account → ∃ balance, account = AccountRiskState.new balance)
    ⟨∅, rfl, fun _ _ found => by cases found⟩ ?_
  rintro _ ⟨accounts, rfl, fresh⟩ balance -
  refine ⟨_, rfl, fun userId account found => ?_⟩
  rcases lookup_insert_eq_some.mp found with ⟨-, rfl⟩ | ⟨-, old⟩
  · exact ⟨balance.2, rfl⟩
  · exact fresh userId account old

def operate (engine : RiskEngine) : Operation → RiskEngine
  | .fill fill => engine.onFill machine fill
  | .adl symbol config order => (engine.runAdl machine symbol config order).1
  | .markPrice symbol newPriceTicks notionalScale order =>
    engine.updateMarkPrice machine symbol newPriceTicks notionalScale order

def run (engine : RiskEngine) (operations : List Operation) : RiskEngine :=
  operations.foldl operate engine

/-- Every fill of a list releases margin where it has to. -/
def FillsRelease (engine : RiskEngine) (fills : List Fill) : Prop :=
  Along (onFill machine) Releases engine fills

/-- So does every fill of the deleveraging of some holders. -/
def AdlReleases (symbol : Symbol) (config : SymbolConfig) (order : List UserId)
    (engine : RiskEngine) (bankrupts : List Bankrupt) : Prop :=
  Along (fun engine bankrupt => engine.deleverage machine symbol config order bankrupt)
    (fun engine bankrupt =>
      FillsRelease engine (engine.adlFillsOf symbol config order bankrupt)) engine bankrupts

/-- So does every fill of an operation. -/
def OperationReleases (engine : RiskEngine) : Operation → Prop
  | .fill fill => engine.Releases fill
  | .adl symbol config order =>
    AdlReleases symbol config order engine (engine.bankrupts symbol order)
  | .markPrice _ _ _ _ => True

/-- So does every fill of a run. -/
def RunReleases (engine : RiskEngine) (operations : List Operation) : Prop :=
  Along operate OperationReleases engine operations

namespace MarginsAgree

variable {engine engine' : RiskEngine}

section

variable (agree : engine.MarginsAgree)
include agree

/-- Margins are all that matters. -/
theorem of_margins
    (accounts : ∀ userId account, engine'.accounts.lookup userId = some account →
      ∃ before, engine.accounts.lookup userId = some before ∧
        account.usedMargin = before.usedMargin)
    (margins : ∀ userId, engine'.positionMargin userId = engine.positionMargin userId)
    (positions : ∀ key position, engine'.positions.lookup key = some position →
      0 ≤ position.initialMargin ∧ 0 < position.qtyLots) :
    engine'.MarginsAgree where
  used := by
    intro userId account found
    obtain ⟨before, foundBefore, sameUsed⟩ := accounts userId account found
    rw [sameUsed, margins, agree.used userId before foundBefore]
  positions := positions

theorem socialize (userId : UserId) : (engine.socialize machine userId).MarginsAgree := by
  unfold RiskEngine.socialize
  cases found : engine.accounts.lookup userId with
  | none => exact agree
  | some account =>
    refine agree.of_margins ?_ (fun _ => rfl) agree.positions
    intro other after foundAfter
    by_cases same : other = userId
    · subst same
      simp only [AList.lookup_insert, some.injEq] at foundAfter
      exact ⟨account, found, by rw [← foundAfter]⟩
    · simp only [AList.lookup_insert_ne same] at foundAfter
      exact ⟨after, foundAfter, rfl⟩

theorem foldl_onFill (release : FillsRelease engine fills) :
    (fills.foldl (RiskEngine.onFill machine) engine).MarginsAgree :=
  release.foldl (fun agree releases => agree.onFill releases) agree

theorem adlLoop {symbol : Symbol} {config : SymbolConfig} {order : List UserId}
    {bankrupts : List Bankrupt} (release : AdlReleases symbol config order engine bankrupts) :
    (adlLoop machine symbol config order engine bankrupts).1.MarginsAgree := by
  induction bankrupts generalizing engine with
  | nil => exact agree
  | cons bankrupt rest ih => exact ih ((agree.foldl_onFill release.1).socialize _) release.2

theorem markHolder (symbol : Symbol) (markTicks notionalScale : Int) (userId : UserId) :
    (engine.markHolder machine symbol markTicks notionalScale userId).MarginsAgree := by
  unfold RiskEngine.markHolder
  cases found : engine.positions.lookup (userId, symbol) with
  | none => exact agree
  | some position =>
    refine agree.of_margins ?_ ?_ ?_
    · intro other account foundAccount
      rw [lookup_modify] at foundAccount
      split_ifs at foundAccount
      · obtain ⟨before, foundBefore, rfl⟩ := map_eq_some_iff.mp foundAccount
        exact ⟨before, foundBefore, rfl⟩
      · exact ⟨account, foundAccount, rfl⟩
    · intro other
      rw [positionMargin, total_insert, share_of_lookup found]
      exact Int.sub_add_cancel _ _
    · intro key other foundOther
      by_cases same : key = (userId, symbol)
      · subst same
        simp only [AList.lookup_insert, some.injEq] at foundOther
        rw [← foundOther]
        exact agree.positions _ position found
      · simp only [AList.lookup_insert_ne same] at foundOther
        exact agree.positions key other foundOther

theorem updateMarkPrice
    (symbol : Symbol) (newPriceTicks notionalScale : Int) (order : List UserId) :
    (engine.updateMarkPrice machine symbol newPriceTicks notionalScale order).MarginsAgree :=
  updateMarkPrice_induct (fun _ agree => ⟨agree.used, agree.positions⟩)
    (fun markTicks userId agree => agree.markHolder symbol markTicks notionalScale userId) agree

theorem operate (releases : engine.OperationReleases operation) :
    (engine.operate operation).MarginsAgree := by
  cases operation with
  | fill fill => exact agree.onFill releases
  | adl symbol config order => exact agree.adlLoop releases
  | markPrice symbol newPriceTicks notionalScale order =>
    exact agree.updateMarkPrice symbol newPriceTicks notionalScale order

theorem run {operations : List Operation} (releases : engine.RunReleases operations) :
    (engine.run operations).MarginsAgree :=
  releases.foldl (fun agree releases => agree.operate releases) agree

end

theorem initialized : (initialized balances).MarginsAgree := by
  obtain ⟨accounts, isInitial, fresh⟩ := initialized_eq balances
  rw [isInitial]
  refine ⟨fun userId account found => ?_, fun key position found => ?_⟩
  · obtain ⟨balance, rfl⟩ := fresh userId account found
    rfl
  · rw [new, AList.lookup_empty] at found
    cases found

end MarginsAgree

/-- In every run whose fills release margin where they have to, the used margin
of each account is the sum of the initial margins of its positions. -/
theorem usedMargin_eq_positionMargin
    {balances : List (UserId × Int)} {operations : List Operation} {userId : UserId}
    {account : AccountRiskState} (releases : (initialized balances).RunReleases operations)
    (found : ((initialized balances).run operations).accounts.lookup userId = some account) :
    account.usedMargin = ((initialized balances).run operations).positionMargin userId :=
  ((MarginsAgree.initialized balances).run releases).used userId account found

/-- A position is opened with ten lots and half of it is closed again. -/
theorem usedMargin_eq_positionMargin_halved :
    ((((initialized [(1, 100)]).run
      [.fill ⟨1, 7, 0, 3, 10, 3, 1000000, 10, 50, 0⟩,
        .fill ⟨1, 7, 1, 4, 5, 2, 1000000, 10, 50, 0⟩]).accounts.lookup 1).map
          (·.usedMargin)) =
      some (((initialized [(1, 100)]).run
        [.fill ⟨1, 7, 0, 3, 10, 3, 1000000, 10, 50, 0⟩,
          .fill ⟨1, 7, 1, 4, 5, 2, 1000000, 10, 50, 0⟩]).positionMargin 1) := by
  have releases : (initialized [(1, 100)]).RunReleases
      [.fill ⟨1, 7, 0, 3, 10, 3, 1000000, 10, 50, 0⟩,
        .fill ⟨1, 7, 1, 4, 5, 2, 1000000, 10, 50, 0⟩] :=
    ⟨⟨rfl, by decide, by decide⟩, ⟨rfl, by decide, by decide⟩, trivial⟩
  cases found : ((initialized [(1, 100)]).run
      [.fill ⟨1, 7, 0, 3, 10, 3, 1000000, 10, 50, 0⟩,
        .fill ⟨1, 7, 1, 4, 5, 2, 1000000, 10, 50, 0⟩]).accounts.lookup 1 with
  | none => exact absurd found (by decide)
  | some account => exact congrArg some (usedMargin_eq_positionMargin releases found)

/-- Ten lots are bought at three ticks, one is sold at ten.  The sale brings one
atom of margin and releases none, so four atoms are in use for a position of
three. -/
theorem usedMargin_ne_positionMargin :
    (((initialized [(1, 100)]).run
      [.fill ⟨1, 7, 0, 3, 10, 3, 1000000, 10, 50, 0⟩,
        .fill ⟨1, 7, 1, 10, 1, 1, 1000000, 10, 50, 0⟩]).accounts.lookup 1).map
          (·.usedMargin) = some 4 ∧
      ((initialized [(1, 100)]).run
        [.fill ⟨1, 7, 0, 3, 10, 3, 1000000, 10, 50, 0⟩,
          .fill ⟨1, 7, 1, 10, 1, 1, 1000000, 10, 50, 0⟩]).positionMargin 1 = 3 := by
  decide

end RiskEngine
end LightningX.Risk
