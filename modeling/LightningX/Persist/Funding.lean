import LightningX.Persist.MarginFrames

/-!
# Funding settlements among fills

The funding loop of `bin/desk_server.rs` computes a settlement from the positions
of the risk engine, applies it there and publishes one frame, from which
`pg-writer` computes it again.  Meanwhile fill threads change the engine and
publish what they read from it.
-/

namespace LightningX.Persist

open List
open Risk Arithmetic

variable {db : Database} {engine : RiskEngine} {payload : FundingSettledPayload}

def openPositions (engine : RiskEngine) (symbol : Symbol) : List OpenInterest :=
  (engine.positions.entries.filter fun entry => entry.1.2 = symbol).map fun entry =>
    (entry.1.1, entry.2.side, entry.2.qtyLots)

/-- The deltas of `compute_settlement`, in the order of the positions. -/
def fundingDeltas (positions : List OpenInterest) (payload : FundingSettledPayload) :
    List FundingDelta :=
  if payload.rateE9 = 0 then []
  else
    (positions.map (fundingDelta machine payload.markPriceTicks payload.notionalScale
      payload.rateE9)).filter fun delta => delta.equityDeltaAtoms ≠ 0

def settlementOf (positions : Multiset OpenInterest) (payload : FundingSettledPayload) :
    FundingSettlement :=
  computeSettlement machine positions payload.markPriceTicks payload.notionalScale payload.rateE9

theorem deltas_settlementOf (positions : List OpenInterest) (payload : FundingSettledPayload) :
    (settlementOf positions payload).deltas = fundingDeltas positions payload := by
  unfold settlementOf computeSettlement fundingDeltas
  split_ifs <;> rfl

/-- The loop body of `apply_in_memory`. -/
def applyDelta (engine : RiskEngine) (delta : FundingDelta) : RiskEngine :=
  { engine with
    accounts := KeyedMap.modify delta.userId
      (fun account =>
        { account with
          equity := machine.i64 (account.equity + delta.equityDeltaAtoms)
          availableMargin := machine.i64 (account.availableMargin + delta.equityDeltaAtoms) })
      engine.accounts }

/-- The end of `apply_in_memory`. -/
def applyResidue (engine : RiskEngine) (residueAtoms : Int) : RiskEngine :=
  if residueAtoms = 0 then engine
  else
    { engine with
      insuranceFundAtoms := machine.i64 (engine.insuranceFundAtoms + residueAtoms) }

/-- A fill on its way: the fee still to be charged, what is still to be read for its
frames, and the frames still to be published. -/
structure FillTask where
  userId : UserId
  symbol : Symbol
  fee : Option Int
  toRead : List Datum
  toPublish : List (Datum × Payload)

/-- The fill is through. -/
def FillTask.Done (task : FillTask) : Prop :=
  task.fee = none ∧ task.toRead = [] ∧ task.toPublish = []
deriving Decidable

/-- The funding loop: what is still to be applied and the frame still to be published. -/
inductive FundingTask
  | idle
  | settling (deltas : List FundingDelta) (residueAtoms : Int)
      (payload : FundingSettledPayload)
  | settled (payload : FundingSettledPayload)
  deriving DecidableEq

namespace FundingTask

/-- The delta to be applied next. -/
def delta? : FundingTask → Option FundingDelta
  | settling (delta :: _) _ _ => some delta
  | _ => none

/-- The residue, if it is to be applied next. -/
def residue? : FundingTask → Option Int
  | settling [] residueAtoms _ => some residueAtoms
  | _ => none

end FundingTask

/-- A desk with its threads and the frames it published. -/
structure FundingDesk where
  engine : RiskEngine
  fills : List FillTask
  funding : FundingTask
  stream : List Payload

/-- What a thread does next. -/
inductive FundingStep
  | fill (fill : Fill) (fee : Int)
  | charge (index : Nat)
  | read (index : Nat)
  | publish (index : Nat)
  | compute (payload : FundingSettledPayload)
  | applyDelta
  | applyResidue
  | publishSettled

namespace FundingDesk

/-- A desk at rest. -/
def start (engine : RiskEngine) : FundingDesk where
  engine := engine
  fills := []
  funding := .idle
  stream := []

def charge (desk : FundingDesk) (index : Nat) (task : FillTask) : FundingDesk :=
  match task.fee with
  | none => desk
  | some fee =>
    { desk with
      engine := desk.engine.chargeFee machine task.userId fee
      fills := desk.fills.set index { task with fee := none } }

/-- `margin_state_frames` reads the next datum. -/
def read (desk : FundingDesk) (index : Nat) (task : FillTask) : FundingDesk :=
  match task.fee, task.toRead with
  | none, datum :: rest =>
    { desk with
      fills := desk.fills.set index { task with
        toRead := rest
        toPublish := task.toPublish ++
          (marginFrame desk.engine datum).toList.map fun payload => (datum, payload) } }
  | _, _ => desk

/-- `publish_frame` of the next frame, once all are read. -/
def publish (desk : FundingDesk) (index : Nat) (task : FillTask) : FundingDesk :=
  match task.fee, task.toRead, task.toPublish with
  | none, [], (_, payload) :: rest =>
    { desk with
      fills := desk.fills.set index { task with toPublish := rest }
      stream := desk.stream ++ [payload] }
  | _, _, _ => desk

/-- One step; a thread that is not there does nothing. -/
def step (desk : FundingDesk) : FundingStep → FundingDesk
  | .fill fill fee =>
    { desk with
      engine := desk.engine.onFill machine fill
      fills := desk.fills ++ [{
        userId := fill.userId
        symbol := fill.symbol
        fee := some fee
        toRead := marginStateData fill.userId fill.symbol
        toPublish := [] }] }
  | .charge index => (desk.fills[index]?).elim desk (desk.charge index)
  | .read index => (desk.fills[index]?).elim desk (desk.read index)
  | .publish index => (desk.fills[index]?).elim desk (desk.publish index)
  | .compute payload =>
    match desk.funding with
    | .idle =>
      let positions := openPositions desk.engine payload.symbol
      { desk with
        funding := .settling (fundingDeltas positions payload)
          (settlementOf positions payload).residueAtoms payload }
    | _ => desk
  | .applyDelta =>
    match desk.funding with
    | .settling (delta :: rest) residueAtoms payload =>
      { desk with
        engine := Persist.applyDelta desk.engine delta
        funding := .settling rest residueAtoms payload }
    | _ => desk
  | .applyResidue =>
    match desk.funding with
    | .settling [] residueAtoms payload =>
      { desk with
        engine := Persist.applyResidue desk.engine residueAtoms
        funding := .settled payload }
    | _ => desk
  | .publishSettled =>
    match desk.funding with
    | .settled payload =>
      { desk with
        funding := .idle
        stream := desk.stream ++ [.fundingSettled payload] }
    | _ => desk

def run (desk : FundingDesk) (steps : List FundingStep) : FundingDesk :=
  steps.foldl step desk

/-- No thread is under way. -/
def AtRest (desk : FundingDesk) : Prop :=
  desk.funding = .idle ∧ ∀ task ∈ desk.fills, task.Done
deriving Decidable

/-- The margin tables after the published frames. -/
def tables (db : Database) (desk : FundingDesk) : MarginTables :=
  (db.applyEach machine (desk.stream.flatMap Payload.rows)).margin

/-- The engine may change: no settlement is under way, and no thread holds frames that
it has read and not published. -/
def Free (desk : FundingDesk) : Prop :=
  desk.funding = .idle ∧ ∀ task ∈ desk.fills, task.toPublish = []
deriving Decidable

/-- A step at its right time. -/
def Timely (desk : FundingDesk) : FundingStep → Prop
  | .fill _ _ | .charge _ => desk.Free
  | .compute payload =>
    (∀ task ∈ desk.fills, task.Done) ∧
      ∀ position ∈ openPositions desk.engine payload.symbol,
        (desk.engine.accounts.lookup position.1).isSome
  | .applyDelta =>
    ∀ delta ∈ desk.funding.delta?, ∀ account ∈ desk.engine.accounts.lookup delta.userId,
      InI64 (account.equity + delta.equityDeltaAtoms)
  | .applyResidue =>
    ∀ residueAtoms ∈ desk.funding.residue?, InI64 (desk.engine.insuranceFundAtoms + residueAtoms)
  | _ => True

instance (desk : FundingDesk) : (step : FundingStep) → Decidable (desk.Timely step)
  | .fill _ _ | .charge _ => inferInstanceAs (Decidable desk.Free)
  | .compute _ => inferInstanceAs (Decidable (_ ∧ _))
  | .applyDelta => inferInstanceAs (Decidable (∀ delta ∈ _, _))
  | .applyResidue => inferInstanceAs (Decidable (∀ residueAtoms ∈ _, _))
  | .read _ | .publish _ | .publishSettled => isTrue trivial

/-- Every step of the run is timely when it is taken. -/
def RunTimely (desk : FundingDesk) (steps : List FundingStep) : Prop :=
  Along FundingDesk.step Timely desk steps
deriving Decidable

end FundingDesk

/-- The table holds the positions of the engine. -/
theorem openInterest_eq (agrees : Agrees engine db.margin) (symbol : Symbol) :
    db.openInterest symbol = openPositions engine symbol := by
  have same : db.positions =
      Table.mapRows (fun _ => positionColumns) engine.positions.toFinmap := by
    rw [Table.eq_iff_lookup]
    rintro ⟨userId, otherSymbol⟩
    rw [Table.lookup_mapRows]
    exact agrees (.position userId otherSymbol)
  unfold Database.openInterest
  rw [same]
  simp only [Table.mapRows, AList.toFinmap_entries, Multiset.map_coe, Multiset.filter_coe,
    filter_map, map_map]
  rfl

theorem exists_position_of_mem_fundingDeltas (mem : delta ∈ fundingDeltas positions payload) :
    ∃ position ∈ positions, position.1 = delta.userId := by
  unfold fundingDeltas at mem
  split_ifs at mem
  · simp at mem
  · obtain ⟨position, isPosition, rfl⟩ := mem_map.mp (mem_filter.mp mem).1
    exact ⟨position, isPosition, rfl⟩

theorem i64_residueAtoms (positions : Multiset OpenInterest) (payload : FundingSettledPayload) :
    machine.i64 (settlementOf positions payload).residueAtoms =
      (settlementOf positions payload).residueAtoms :=
  wrapI64_eq (inI64_wrapI64 _)

def sumFor (userId : UserId) (deltas : List FundingDelta) : Int :=
  deltaSum (deltas.filter fun delta => delta.userId = userId : List FundingDelta)

theorem sumFor_append (userId : UserId) (first second : List FundingDelta) :
    sumFor userId (first ++ second) = sumFor userId first + sumFor userId second := by
  simp [sumFor, deltaSum]

/-- The engine after a settlement agrees with the tables after its frame, if both had
the same positions before. -/
theorem agrees_settlement
    (agrees : Agrees base db.margin)
    (holders : ∀ position ∈ openPositions base payload.symbol,
      (base.accounts.lookup position.1).isSome)
    (positions : engine.positions = base.positions)
    (equity : ∀ userId, (engine.accounts.lookup userId).map (·.equity) =
      (base.accounts.lookup userId).map fun account =>
        account.equity + sumFor userId (fundingDeltas (openPositions base payload.symbol) payload))
    (fund : engine.insuranceFundAtoms = base.insuranceFundAtoms +
      (settlementOf (openPositions base payload.symbol) payload).residueAtoms) :
    Agrees engine (db.applyFundingSettlement machine payload).margin := by
  have settlement : computeSettlement machine (db.openInterest payload.symbol)
      payload.markPriceTicks payload.notionalScale payload.rateE9 =
        settlementOf (openPositions base payload.symbol) payload := by
    rw [openInterest_eq agrees]
    rfl
  have noOrphans : ((settlementOf (openPositions base payload.symbol) payload).deltas.filter
      fun delta => delta.userId ∉ db.riskAccounts) = 0 := by
    rw [Multiset.filter_eq_nil]
    intro delta mem orphan
    rw [deltas_settlementOf] at mem
    obtain ⟨position, isPosition, same⟩ := exists_position_of_mem_fundingDeltas mem
    have known := holders position isPosition
    have mirrored : (db.riskAccounts.lookup position.1).map (·.equityAtoms) =
      (base.accounts.lookup position.1).map (·.equity) := agrees (.account position.1)
    rw [← Option.isSome_map (f := fun account : AccountRiskState => account.equity),
      ← mirrored, Option.isSome_map, same] at known
    exact orphan (Finmap.lookup_isSome.mp known)
  intro datum
  cases datum with
  | position userId symbol =>
    rw [mirrors_position_iff, positions]
    exact agrees (.position userId symbol)
  | account userId =>
    have mirrored : (db.riskAccounts.lookup userId).map (·.equityAtoms) =
      (base.accounts.lookup userId).map (·.equity) := agrees (.account userId)
    have delta : (settlementOf (openPositions base payload.symbol) payload).deltaOf userId =
        sumFor userId (fundingDeltas (openPositions base payload.symbol) payload) := by
      unfold FundingSettlement.deltaOf sumFor
      rw [deltas_settlementOf, Multiset.filter_coe]
    rw [mirrors_account_iff, equity]
    simp only [Database.margin, Database.applyFundingSettlement, settlement]
    rw [Table.lookup_mapRows, delta]
    cases found : db.riskAccounts.lookup userId <;>
      cases known : base.accounts.lookup userId <;>
      simp [found, known] at mirrored ⊢
    exact mirrored
  | fund =>
    have before : db.insuranceFundAtoms = base.insuranceFundAtoms := agrees .fund
    show (db.applyFundingSettlement machine payload).insuranceFundAtoms = _
    simp only [Database.applyFundingSettlement, settlement]
    rw [noOrphans, fund, before]
    have sum : deltaSum 0 = 0 := rfl
    rw [sum, add_zero, i64_residueAtoms]

end LightningX.Persist
