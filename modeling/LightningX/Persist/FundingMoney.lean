import LightningX.Lib.Along
import LightningX.Persist.Funding
import Mathlib.Algebra.BigOperators.Group.Finset.Piecewise
import Mathlib.Algebra.Order.Ring.Abs
import Mathlib.Tactic.Linarith

/-!
# Money in fees and settlements

`charge_fee` and `apply_in_memory` book every amount twice, to an account if there is one and to
the insurance fund in any case.  Together they move money between the accounts and the fund if
and only if the amounts of users without an account cancel out.
-/

namespace LightningX.Persist

open Risk Arithmetic

/-- A call of `charge_fee`, or of `apply_in_memory` for a computed settlement. -/
inductive Charge
  | fee (userId : UserId) (feeAtoms : Int)
  | funding (positions : List OpenInterest) (payload : FundingSettledPayload)

/-- Handle a call. -/
def Charge.apply (engine : RiskEngine) : Charge → RiskEngine
  | .fee userId feeAtoms => engine.chargeFee machine userId feeAtoms
  | .funding positions payload =>
    applyResidue ((fundingDeltas positions payload).foldl applyDelta engine)
      (settlementOf positions payload).residueAtoms

/-- The amounts for the accounts. -/
def Charge.deltas : Charge → List FundingDelta
  | .fee userId feeAtoms => if feeAtoms = 0 then [] else [⟨userId, -feeAtoms⟩]
  | .funding positions payload => fundingDeltas positions payload

/-- The equities and the insurance fund. -/
def money (engine : RiskEngine) : Int :=
  KeyedMap.total (fun _ account => account.equity) engine.accounts + engine.insuranceFundAtoms

/-- The amounts of users without an account. -/
def orphaned (engine : RiskEngine) (charge : Charge) : Int :=
  deltaSum (charge.deltas.filter fun delta => (engine.accounts.lookup delta.userId).isNone)

def EquityFits (engine : RiskEngine) (delta : FundingDelta) : Prop :=
  ∀ account ∈ engine.accounts.lookup delta.userId, InI64 (account.equity + delta.equityDeltaAtoms)
deriving Decidable

/-- No sum of the call leaves the 64-bit range. -/
def Charge.Fits (engine : RiskEngine) (charge : Charge) : Prop :=
  Along applyDelta EquityFits engine charge.deltas ∧ InI64 (-deltaSum charge.deltas) ∧
    InI64 (engine.insuranceFundAtoms - deltaSum charge.deltas)
deriving Decidable

theorem insuranceFundAtoms_foldl (engine : RiskEngine) (deltas : List FundingDelta) :
    (deltas.foldl applyDelta engine).insuranceFundAtoms = engine.insuranceFundAtoms :=
  List.foldlRecOn deltas applyDelta (motive := fun after : RiskEngine =>
    after.insuranceFundAtoms = engine.insuranceFundAtoms) rfl fun _ same _ _ => same

/-- What is not orphaned reaches the accounts. -/
theorem money_foldl (fits : Along applyDelta EquityFits engine deltas) :
    money (deltas.foldl applyDelta engine) = money engine + deltaSum deltas -
      deltaSum (deltas.filter fun delta => (engine.accounts.lookup delta.userId).isNone) := by
  induction deltas generalizing engine with
  | nil => simp
  | cons delta deltas ih =>
    have others (userId : UserId) : ((applyDelta engine delta).accounts.lookup userId).isNone =
        (engine.accounts.lookup userId).isNone := by
      unfold applyDelta
      rw [KeyedMap.lookup_modify]
      split_ifs <;> simp
    rw [List.foldl_cons, ih fits.2]
    simp only [others, List.filter_cons]
    cases found : engine.accounts.lookup delta.userId with
    | none =>
      have same : money (applyDelta engine delta) = money engine := by
        unfold applyDelta
        rw [KeyedMap.modify_of_not_mem _ found]
      simp [deltaSum]
      omega
    | some account =>
      have changed : money (applyDelta engine delta) = money engine + delta.equityDeltaAtoms := by
        unfold money applyDelta
        rw [KeyedMap.total_modify _ found]
        simp only [machine, wrapI64_eq (fits.1 account found)]
        omega
      simp [deltaSum]
      omega

theorem Charge.apply_eq (fits : InI64 (-deltaSum charge.deltas)) :
    Charge.apply engine charge = applyResidue (charge.deltas.foldl applyDelta engine)
      (-deltaSum charge.deltas) := by
  cases charge with
  | fee userId feeAtoms =>
    by_cases free : feeAtoms = 0 <;>
      simp [Charge.apply, deltas, RiskEngine.chargeFee, applyResidue, free, deltaSum, applyDelta,
        Int.sub_eq_add_neg]
  | funding positions payload =>
    have residue : (settlementOf positions payload).residueAtoms =
        machine.i64 (-deltaSum (settlementOf positions payload).deltas) := rfl
    rw [Charge.apply, residue, deltas_settlementOf]
    exact congrArg _ (wrapI64_eq fits)

/-- Accounts and fund keep their money if and only if the orphaned amounts cancel out. -/
theorem money_apply_iff (fits : charge.Fits engine) :
    money (charge.apply engine) = money engine ↔ orphaned engine charge = 0 := by
  obtain ⟨along, sum, fund⟩ := fits
  have booked : money (applyResidue (charge.deltas.foldl applyDelta engine)
      (-deltaSum charge.deltas)) =
        money (charge.deltas.foldl applyDelta engine) - deltaSum charge.deltas := by
    unfold applyResidue
    split_ifs with none
    · omega
    · unfold money
      rw [insuranceFundAtoms_foldl, ← Int.sub_eq_add_neg]
      simp only [machine, wrapI64_eq fund]
      omega
  rw [Charge.apply_eq sum, booked, money_foldl along, orphaned]
  omega

theorem money_apply_fee :
    money (Charge.apply (RiskEngine.initializeAccount .new 1 100) (.fee 1 5)) =
      money (RiskEngine.initializeAccount .new 1 100) :=
  (money_apply_iff (by decide)).mpr (by decide)

/-- The fee of a user without an account. -/
theorem money_apply_ne_orphan : money (Charge.apply .new (.fee 1 5)) ≠ money .new := by decide

def lotsOf (side : PositionSide) (positions : Multiset OpenInterest) : Int :=
  ((positions.filter fun position => position.2.1 = side).map (·.2.2)).sum

/-- The equities and the insurance fund in the tables. -/
def Database.money (db : Database) : Int :=
  Table.total (fun _ row => row.equityAtoms) db.riskAccounts + db.insuranceFundAtoms

theorem abs_sub_mul_tdiv_le (value : Int) (positive : 0 < divisor) :
    |value - divisor * value.tdiv divisor| ≤ divisor - 1 := by
  have split := Int.mul_tdiv_add_tmod value divisor
  have upper := Int.tmod_lt_of_pos value positive
  have lower := Int.lt_tmod_of_pos value positive
  rw [abs_le]
  omega

variable {markTicks notionalScale : Int}

/-- Two truncations cut off less than two atoms. -/
theorem abs_payment_le (scale : 1 ≤ notionalScale) (rate : |rateE9| ≤ 1000000000) (qtyLots : Int) :
    |markTicks * atomsPerCent * rateE9 * qtyLots - notionalScale * 1000000000 *
        computePayment exact qtyLots markTicks notionalScale rateE9| ≤
      2 * (notionalScale * 1000000000) - 1 := by
  let atoms := (markTicks * qtyLots * atomsPerCent).tdiv notionalScale
  let cash := (atoms * rateE9).tdiv 1000000000
  have value : |markTicks * qtyLots * atomsPerCent - notionalScale * atoms| ≤ notionalScale - 1 :=
    abs_sub_mul_tdiv_le _ (by omega)
  have paid : |atoms * rateE9 - 1000000000 * cash| ≤ 1000000000 - 1 :=
    abs_sub_mul_tdiv_le _ (by decide)
  calc |markTicks * atomsPerCent * rateE9 * qtyLots - notionalScale * 1000000000 * cash|
      = |rateE9 * (markTicks * qtyLots * atomsPerCent - notionalScale * atoms) +
          notionalScale * (atoms * rateE9 - 1000000000 * cash)| := by congr 1; linarith
    _ ≤ |rateE9| * |markTicks * qtyLots * atomsPerCent - notionalScale * atoms| +
          |notionalScale| * |atoms * rateE9 - 1000000000 * cash| := by
      rw [← abs_mul, ← abs_mul]
      exact abs_add_le _ _
    _ ≤ 1000000000 * (notionalScale - 1) + notionalScale * (1000000000 - 1) := by
      rw [abs_of_nonneg (by omega : 0 ≤ notionalScale)]
      gcongr
    _ ≤ _ := by linarith

/-- The deltas add up to what is cut off and to the lots without a counterpart. -/
theorem abs_deltaSum_le {worth unit bound : Int} (cut : ∀ qtyLots, |worth * qtyLots -
      unit * computePayment exact qtyLots markTicks notionalScale rateE9| ≤ bound)
    (positions : Multiset OpenInterest) :
    |unit * deltaSum ((positions.map (fundingDelta exact markTicks notionalScale rateE9)).filter
          fun delta => delta.equityDeltaAtoms ≠ 0) -
        worth * (lotsOf .short positions - lotsOf .long positions)| ≤ positions.card * bound := by
  induction positions using Multiset.induction with
  | empty => simp [deltaSum, lotsOf]
  | cons position positions ih =>
    obtain ⟨userId, side, qtyLots⟩ := position
    have here := abs_le.mp (cut qtyLots)
    rw [abs_le] at ih ⊢
    cases side <;>
      by_cases zero : computePayment exact qtyLots markTicks notionalScale rateE9 = 0 <;>
      simp [fundingDelta, deltaSum, lotsOf, zero] at * <;> constructor <;> linarith

/-- Each delta reaches the row of its user. -/
theorem total_deltaOf (table : Table UserId RiskAccountColumns) (deltas : Multiset FundingDelta) :
    Table.total (fun userId _ => deltaSum (deltas.filter (·.userId = userId))) table =
      deltaSum (deltas.filter (·.userId ∈ table)) := by
  have sums (measure : UserId → Int) :
      Table.total (fun userId _ => measure userId) table = ∑ userId ∈ table.keys, measure userId :=
    congrArg Multiset.sum (Multiset.map_map measure Sigma.fst table.entries).symm
  rw [sums]
  induction deltas using Multiset.induction with
  | empty => simp [deltaSum]
  | cons delta deltas ih =>
    have split (holds : UserId → Prop) [DecidablePred holds] :
        deltaSum ((delta ::ₘ deltas).filter (holds ·.userId)) =
          (if holds delta.userId then delta.equityDeltaAtoms else 0) +
            deltaSum (deltas.filter (holds ·.userId)) := by
      by_cases meets : holds delta.userId <;> simp [deltaSum, meets]
    simp only [fun userId => split (· = userId), split (· ∈ table), Finset.sum_add_distrib,
      Finset.sum_ite_eq, ih, Finmap.mem_keys]

/-- The residue of matched positions is less than two atoms for each of them, and the tables keep
their money whoever has no account. -/
theorem abs_residue_lt_and_conserves :
    (∀ (positions : Multiset OpenInterest) (markTicks notionalScale rateE9 : Int),
      positions ≠ 0 → lotsOf .long positions = lotsOf .short positions → 1 ≤ notionalScale →
      |rateE9| ≤ 1000000000 →
      computeSettlement machine positions markTicks notionalScale rateE9 =
        computeSettlement exact positions markTicks notionalScale rateE9 →
      |(computeSettlement machine positions markTicks notionalScale rateE9).residueAtoms| <
        2 * positions.card) ∧
    ∀ (db : Database) (payload : FundingSettledPayload),
      db.applyFundingSettlement machine payload = db.applyFundingSettlement exact payload →
      (db.applyFundingSettlement machine payload).money = db.money := by
  constructor
  · intro positions markTicks notionalScale rateE9 some matched scale rate fits
    have count : 0 < (positions.card : Int) := by exact_mod_cast Multiset.card_pos.mpr some
    rw [fits]
    unfold computeSettlement
    simp only [exact_i64, abs_neg]
    split_ifs with free
    · simp only [deltaSum, Multiset.map_zero, Multiset.sum_zero, abs_zero]
      omega
    · have cut := abs_deltaSum_le (@abs_payment_le markTicks _ _ scale rate) positions
      rw [matched, sub_self, mul_zero, sub_zero, abs_mul, abs_of_pos (by omega)] at cut
      nlinarith
  · intro db payload fits
    rw [fits]
    let settlement := computeSettlement exact (db.openInterest payload.symbol)
      payload.markPriceTicks payload.notionalScale payload.rateE9
    have rows : Table.total (fun _ row => row.equityAtoms)
        (db.applyFundingSettlement exact payload).riskAccounts =
          Table.total (fun _ row => row.equityAtoms) db.riskAccounts +
            Table.total (fun userId _ => settlement.deltaOf userId) db.riskAccounts := by
      unfold Table.total
      rw [← Multiset.sum_map_add]
      exact congrArg Multiset.sum (Multiset.map_map _ _ _)
    have reached := total_deltaOf db.riskAccounts settlement.deltas
    have parts : deltaSum (settlement.deltas.filter (·.userId ∈ db.riskAccounts)) +
        deltaSum (settlement.deltas.filter (·.userId ∉ db.riskAccounts)) =
          deltaSum settlement.deltas := by
      unfold deltaSum
      rw [← Multiset.sum_add, ← Multiset.map_add, Multiset.filter_add_not]
    have fund : (db.applyFundingSettlement exact payload).insuranceFundAtoms =
        db.insuranceFundAtoms + (-deltaSum settlement.deltas +
          deltaSum (settlement.deltas.filter (·.userId ∉ db.riskAccounts))) := rfl
    unfold Database.money
    rw [rows]
    unfold FundingSettlement.deltaOf
    omega

/-- The rows of two positions that match, and the account of one of their users. -/
def pairRows : Database :=
  let position : PositionColumns := {
    side := .long
    qtyLots := 3
    entryPriceTicks := 7
    leverage := 10
    usedMarginAtoms := 0
    costAtoms := 21 }
  { Database.new with
    positions := Finmap.insert (2, 7) { position with side := .short }
      (Finmap.insert (1, 7) position ∅)
    riskAccounts := Finmap.insert 1 ⟨1000, 0, 0, .normal⟩ ∅ }

/-- The two positions are settled, one of them against the insurance fund. -/
theorem abs_residue_lt_pair :
    |(computeSettlement machine {(1, .long, 3), (2, .short, 3)} 7 1000 100000).residueAtoms| <
        2 * 2 ∧
      (pairRows.applyFundingSettlement machine ⟨7, 100000, 7000000, 1000, 0, 0⟩).money = 1000 :=
  ⟨abs_residue_lt_and_conserves.1 _ _ _ _ (by decide) (by decide) (by decide) (by decide)
      (by rfl),
    (abs_residue_lt_and_conserves.2 pairRows ⟨7, 100000, 7000000, 1000, 0, 0⟩
      (by decide +kernel)).trans (by decide +kernel)⟩

/-- Without positions nothing is left. -/
theorem not_abs_residue_lt_empty :
    ¬ |(computeSettlement machine 0 7 1000 100000).residueAtoms| <
      2 * (0 : Multiset OpenInterest).card := by
  decide

end LightningX.Persist
