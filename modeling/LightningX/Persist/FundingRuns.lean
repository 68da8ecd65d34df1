import LightningX.Lib.Threads
import LightningX.Persist.Funding

/-!
# Runs with funding settlements

What the tables miss of the engine is on its way while no settlement is under way,
and during a settlement it is the settlement itself.
-/

namespace LightningX.Persist

open List
open Risk Arithmetic

/-- The fill still has to bring the datum up to date. -/
def FillTask.Holds (task : FillTask) (datum : Datum) : Prop :=
  datum ∈ task.toRead ∨ datum ∈ task.toPublish.map Prod.fst

theorem FillTask.Done.not_holds {task : FillTask} (done : task.Done) (datum : Datum) :
    ¬ task.Holds datum := by
  obtain ⟨-, noneToRead, noneToPublish⟩ := done
  simp [Holds, noneToRead, noneToPublish]

/-! ## Accounts -/

section

variable (arith : Arithmetic) (engine : RiskEngine)

theorem lookup_accounts_onFill_eq_none_iff (fill : Fill) (userId : UserId) :
    (engine.onFill arith fill).accounts.lookup userId = none ↔
      engine.accounts.lookup userId = none := by
  unfold RiskEngine.onFill
  by_cases nothing : fill.qtyLots ≤ 0
  · rw [if_pos nothing]
  · rw [if_neg nothing]
    rw [KeyedMap.lookup_modify]
    split_ifs <;> simp

theorem lookup_accounts_chargeFee_eq_none_iff (payer : UserId) (fee : Int) (userId : UserId) :
    (engine.chargeFee arith payer fee).accounts.lookup userId = none ↔
      engine.accounts.lookup userId = none := by
  unfold RiskEngine.chargeFee
  split_ifs
  · rfl
  · rw [KeyedMap.lookup_modify]
    split_ifs <;> simp

end

namespace FundingDesk

/-! ## Between settlements -/

/-- What the tables miss is held by a thread, and what a thread has read is true. -/
structure Covered (db : Database) (desk : FundingDesk) : Prop where
  fresh : ∀ task ∈ desk.fills, ∀ entry ∈ task.toPublish,
    marginFrame desk.engine entry.1 = some entry.2
  whole : ∀ task ∈ desk.fills, task.fee ≠ none →
    task.toRead = marginStateData task.userId task.symbol
  absent : ∀ userId, desk.engine.accounts.lookup userId = none →
    Mirrors desk.engine (desk.tables db) (.account userId)
  held : ∀ datum, Mirrors desk.engine (desk.tables db) datum ∨ ∃ task ∈ desk.fills, task.Holds datum

theorem Covered.of_agrees (agrees : Agrees desk.engine (desk.tables db))
    (done : ∀ task ∈ desk.fills, task.Done) : Covered db desk where
  fresh task mem entry isEntry := by simp [(done task mem).2.2] at isEntry
  whole task mem notCharged := absurd (done task mem).1 notCharged
  absent userId _ := agrees (.account userId)
  held datum := .inl (agrees datum)

theorem tables_append (db : Database) (desk : FundingDesk) (payload : Payload) :
    tables db { desk with stream := desk.stream ++ [payload] } =
      ((db.applyEach machine (desk.stream.flatMap Payload.rows)).applyEach machine
        payload.rows).margin := by
  unfold tables
  rw [flatMap_append, Database.applyEach_append, flatMap_singleton]

namespace Covered

variable (covered : Covered db desk)
include covered

theorem agrees (done : ∀ task ∈ desk.fills, task.Done) : Agrees desk.engine (desk.tables db) := by
  intro datum
  refine (covered.held datum).resolve_right ?_
  rintro ⟨task, mem, holds⟩
  exact (done task mem).not_holds datum holds

theorem fill (free : desk.Free) (fill : Fill) (fee : Int) :
    Covered db (desk.step (.fill fill fee)) where
  fresh task mem entry isEntry := by
    obtain earlier | new := mem_append.mp mem
    · simp [free.2 task earlier] at isEntry
    · obtain rfl := mem_singleton.mp new
      simp at isEntry
  whole task mem notCharged := by
    obtain earlier | new := mem_append.mp mem
    · exact covered.whole task earlier notCharged
    · obtain rfl := mem_singleton.mp new
      rfl
  absent userId none := by
    have before := (lookup_accounts_onFill_eq_none_iff machine desk.engine fill userId).mp none
    have same : SameAt desk.engine (desk.engine.onFill machine fill) (.account userId) :=
      none.trans before.symm
    exact same.mirrors (covered.absent userId before)
  held datum := by
    by_cases touched : datum ∈ marginStateData fill.userId fill.symbol
    · exact .inr ⟨_, mem_append_right _ (mem_singleton_self _), .inl touched⟩
    · obtain mirrors | ⟨task, mem, holds⟩ := covered.held datum
      · exact .inl ((sameAt_onFill machine desk.engine fill touched).mirrors mirrors)
      · exact .inr ⟨task, mem_append_left _ mem, holds⟩

variable {index : Nat} {task : FillTask} (found : desk.fills[index]? = some task)
include found

theorem charge (free : desk.Free) : Covered db (desk.charge index task) := by
  unfold FundingDesk.charge
  split
  · exact covered
  · rename_i fee isFee
    have isTask := mem_of_getElem? found
    have whole := covered.whole task isTask (by simp [isFee])
    refine ⟨fun other mem entry isEntry => ?_, fun other mem notCharged => ?_,
      fun userId none => ?_, fun datum => ?_⟩
    · obtain earlier | rfl := mem_or_eq_of_mem_set mem
      · simp [free.2 other earlier] at isEntry
      · simp [free.2 task isTask] at isEntry
    · obtain earlier | rfl := mem_or_eq_of_mem_set mem
      · exact covered.whole other earlier notCharged
      · exact absurd rfl notCharged
    · have before :=
        (lookup_accounts_chargeFee_eq_none_iff machine desk.engine task.userId fee userId).mp none
      have same : SameAt desk.engine (desk.engine.chargeFee machine task.userId fee)
        (.account userId) := none.trans before.symm
      exact same.mirrors (covered.absent userId before)
    · by_cases touched : datum ∈ marginStateData task.userId task.symbol
      · have holds : task.Holds datum := .inl (whole ▸ touched)
        exact Threads.exists_mem_set found (fun _ => .inr holds) ⟨task, isTask, holds⟩
      · obtain mirrors | held := covered.held datum
        · exact .inl ((sameAt_chargeFee machine desk.engine task.userId task.symbol fee
            touched).mirrors mirrors)
        · exact Threads.exists_mem_set found .inr held

theorem read : Covered db (desk.read index task) := by
  unfold FundingDesk.read
  split
  · rename_i datum rest charged isNext
    have isTask := mem_of_getElem? found
    refine ⟨fun other mem entry isEntry => ?_, fun other mem notCharged => ?_,
      covered.absent, fun wanted => ?_⟩
    · obtain earlier | rfl := mem_or_eq_of_mem_set mem
      · exact covered.fresh other earlier entry isEntry
      · obtain earlier | new := mem_append.mp isEntry
        · exact covered.fresh task isTask entry earlier
        · obtain ⟨payload, isFrame, rfl⟩ := mem_map.mp new
          exact Option.mem_toList.mp isFrame
    · obtain earlier | rfl := mem_or_eq_of_mem_set mem
      · exact covered.whole other earlier notCharged
      · exact absurd charged notCharged
    · obtain mirrors | held := covered.held wanted
      · exact .inl mirrors
      · refine Threads.exists_mem_set found ?_ held
        rintro (unread | unpublished)
        · rw [isNext] at unread
          obtain rfl | later := mem_cons.mp unread
          · cases isFrame : marginFrame desk.engine wanted with
            | some payload => exact .inr (.inr (by simp))
            | none =>
              obtain ⟨userId, rfl, unknown⟩ := exists_account_of_marginFrame_eq_none isFrame
              exact .inl (covered.absent userId unknown)
          · exact .inr (.inl later)
        · refine .inr (.inr ?_)
          rw [map_append]
          exact mem_append_left _ unpublished
  · exact covered

theorem publish : Covered db (desk.publish index task) := by
  unfold FundingDesk.publish
  split
  · rename_i datum payload rest charged allRead isNext
    have isTask := mem_of_getElem? found
    have isFrame : marginFrame desk.engine datum = some payload :=
      covered.fresh task isTask (datum, payload) (by simp [isNext])
    obtain ⟨here, others⟩ := mirrors_marginFrame machine
      (db.applyEach machine (desk.stream.flatMap Payload.rows)) isFrame
    rw [← tables_append db desk payload] at here
    have others : ∀ other, Mirrors desk.engine (desk.tables db) other →
        Mirrors desk.engine (tables db { desk with stream := desk.stream ++ [payload] }) other := by
      rw [tables_append db desk payload]
      exact others
    refine ⟨fun other mem entry isEntry => ?_, fun other mem notCharged => ?_,
      fun userId none => others _ (covered.absent userId none), fun wanted => ?_⟩
    · obtain earlier | rfl := mem_or_eq_of_mem_set mem
      · exact covered.fresh other earlier entry isEntry
      · exact covered.fresh task isTask entry (isNext ▸ mem_cons_of_mem _ isEntry)
    · obtain earlier | rfl := mem_or_eq_of_mem_set mem
      · exact covered.whole other earlier notCharged
      · exact absurd charged notCharged
    · obtain mirrors | held := covered.held wanted
      · exact .inl (others wanted mirrors)
      · refine Threads.exists_mem_set found ?_ held
        rintro (unread | unpublished)
        · simp [allRead] at unread
        · rw [isNext] at unpublished
          obtain rfl | later := mem_cons.mp unpublished
          · exact .inl here
          · exact .inr (.inr later)
  · exact covered

end Covered

/-! ## During a settlement -/

/-- The tables are those of an earlier engine, and only the settlement has changed it
since. -/
structure Underway (db : Database) (desk : FundingDesk) (base : RiskEngine)
    (payload : FundingSettledPayload) (applied : List FundingDelta) (residueAtoms : Int) :
    Prop where
  done : ∀ task ∈ desk.fills, task.Done
  agrees : Agrees base (desk.tables db)
  holders : ∀ position ∈ openPositions base payload.symbol, (base.accounts.lookup position.1).isSome
  positions : desk.engine.positions = base.positions
  equity : ∀ userId, (desk.engine.accounts.lookup userId).map (·.equity) =
    (base.accounts.lookup userId).map fun account => account.equity + sumFor userId applied
  fund : desk.engine.insuranceFundAtoms = base.insuranceFundAtoms + residueAtoms

/-- What holds at every moment of a timely run. -/
inductive Sound (db : Database) (desk : FundingDesk) : Prop
  | idle
      (isIdle : desk.funding = .idle)
      (covered : Covered db desk)
  | settling (base : RiskEngine) (applied deltas : List FundingDelta)
      (payload : FundingSettledPayload)
      (isSettling : desk.funding = .settling deltas
        (settlementOf (openPositions base payload.symbol) payload).residueAtoms payload)
      (all : applied ++ deltas = fundingDeltas (openPositions base payload.symbol) payload)
      (underway : Underway db desk base payload applied 0)
  | settled (base : RiskEngine) (payload : FundingSettledPayload)
      (isSettled : desk.funding = .settled payload)
      (underway : Underway db desk base payload
        (fundingDeltas (openPositions base payload.symbol) payload)
        (settlementOf (openPositions base payload.symbol) payload).residueAtoms)

/-- The fills that are through do nothing. -/
theorem step_thread_of_done {desk : FundingDesk} (done : ∀ task ∈ desk.fills, task.Done)
    (index : Nat) : desk.step (.read index) = desk ∧ desk.step (.publish index) = desk := by
  cases found : desk.fills[index]? with
  | none => simp [step, found]
  | some task =>
    obtain ⟨charged, allRead, allPublished⟩ := done task (mem_of_getElem? found)
    simp [step, found, read, publish, allRead, allPublished]

theorem sumFor_singleton (userId : UserId) (delta : FundingDelta) :
    sumFor userId [delta] = if delta.userId = userId then delta.equityDeltaAtoms else 0 := by
  unfold sumFor deltaSum
  split_ifs with same <;> simp [same]

namespace Underway

variable {db : Database} {desk : FundingDesk} {base : RiskEngine} {payload : FundingSettledPayload}

theorem compute (covered : Covered db desk) (timely : desk.Timely (.compute payload)) :
    Underway db desk desk.engine payload [] 0 where
  done := timely.1
  agrees := covered.agrees timely.1
  holders := timely.2
  positions := rfl
  equity userId := by simp [sumFor, deltaSum]
  fund := (add_zero _).symm

theorem applyDelta
    (underway : Underway db desk base payload applied 0)
    (fits : ∀ account ∈ desk.engine.accounts.lookup delta.userId,
      InI64 (account.equity + delta.equityDeltaAtoms))
    (funding : FundingTask) :
    Underway db
      { desk with engine := Persist.applyDelta desk.engine delta, funding := funding }
      base payload (applied ++ [delta]) 0 where
  done := underway.done
  agrees := underway.agrees
  holders := underway.holders
  positions := underway.positions
  equity userId := by
    have before := underway.equity userId
    show ((KeyedMap.modify _ _ _).lookup userId).map _ = _
    rw [KeyedMap.lookup_modify, sumFor_append, sumFor_singleton]
    split_ifs with same opposite opposite
    · subst same
      cases found : desk.engine.accounts.lookup delta.userId with
      | none =>
        cases known : base.accounts.lookup delta.userId <;>
          simp [found, known] at before ⊢
      | some account =>
        have exact := wrapI64_eq (fits account found)
        cases known : base.accounts.lookup delta.userId <;>
          simp [found, known] at before ⊢
        rw [← add_assoc, ← before]
        exact exact
    · exact absurd same.symm opposite
    · exact absurd opposite.symm same
    · rw [add_zero]
      exact before
  fund := underway.fund

theorem applyResidue (underway : Underway db desk base payload applied 0)
    (fits : InI64 (desk.engine.insuranceFundAtoms + residueAtoms)) (funding : FundingTask) :
    Underway db
      { desk with
        engine := Persist.applyResidue desk.engine residueAtoms
        funding := funding }
      base payload applied residueAtoms := by
  have fund := underway.fund
  rw [add_zero] at fund
  unfold Persist.applyResidue
  split_ifs with nothing
  · subst nothing
    exact { underway with }
  · refine { underway with fund := ?_ }
    show wrapI64 _ = _
    rw [wrapI64_eq fits, fund]

theorem publishSettled
    (underway : Underway db desk base payload
      (fundingDeltas (openPositions base payload.symbol) payload)
      (settlementOf (openPositions base payload.symbol) payload).residueAtoms) :
    Covered db
      { desk with
        funding := .idle
        stream := desk.stream ++ [.fundingSettled payload] } := by
  refine .of_agrees ?_ underway.done
  have after := agrees_settlement underway.agrees underway.holders underway.positions
    underway.equity underway.fund
  show Agrees desk.engine
    (tables db { desk with stream := desk.stream ++ [.fundingSettled payload] })
  rw [tables_append]
  exact after

end Underway

/-! ## Runs -/

/-- What a fill does, if it is there, keeps the data covered. -/
theorem Covered.elim {index : Nat} {act : FillTask → FundingDesk} (covered : Covered db desk)
    (keeps : ∀ task, desk.fills[index]? = some task → Covered db (act task)) :
    Covered db ((desk.fills[index]?).elim desk act) := by
  cases found : desk.fills[index]? with
  | none => exact covered
  | some task => exact keeps task found

/-- The fills leave the funding loop alone. -/
theorem funding_thread (desk : FundingDesk) (index : Nat) :
    (desk.step (.charge index)).funding = desk.funding ∧
      (desk.step (.read index)).funding = desk.funding ∧
      (desk.step (.publish index)).funding = desk.funding := by
  cases found : desk.fills[index]? with
  | none => simp only [step, found, Option.elim_none, and_self]
  | some task =>
    simp only [step, found, Option.elim_some]
    refine ⟨?_, ?_, ?_⟩
    · unfold charge
      split <;> rfl
    · unfold read
      split <;> rfl
    · unfold publish
      split <;> rfl

namespace Sound

variable {db : Database} {desk : FundingDesk}

section

variable (sound : Sound db desk)
include sound

theorem covered (isIdle : desk.funding = .idle) : Covered db desk := by
  cases sound with
  | idle _ covered => exact covered
  | settling base applied deltas payload isSettling =>
    exact absurd (isIdle.symm.trans isSettling) (by simp)
  | settled base payload isSettled => exact absurd (isIdle.symm.trans isSettled) (by simp)

theorem charge (free : desk.Free) (index : Nat) : Sound db (desk.step (.charge index)) :=
  have covered := sound.covered free.1
  .idle ((funding_thread desk index).1.trans free.1)
    (covered.elim fun _ found => covered.charge found free)

/-- During a settlement the fills are through. -/
theorem thread {after : FundingDesk} (funding : after.funding = desk.funding)
    (covers : Covered db desk → Covered db after)
    (rests : (∀ task ∈ desk.fills, task.Done) → after = desk) : Sound db after := by
  cases sound with
  | idle isIdle covered => exact .idle (funding.trans isIdle) (covers covered)
  | settling base applied deltas payload isSettling all underway =>
    rw [rests underway.done]
    exact .settling base applied deltas payload isSettling all underway
  | settled base payload isSettled underway =>
    rw [rests underway.done]
    exact .settled base payload isSettled underway

theorem read (index : Nat) : Sound db (desk.step (.read index)) :=
  sound.thread (funding_thread desk index).2.1
    (fun covered => covered.elim fun _ found => covered.read found)
    fun done => (step_thread_of_done done index).1

theorem publish (index : Nat) : Sound db (desk.step (.publish index)) :=
  sound.thread (funding_thread desk index).2.2
    (fun covered => covered.elim fun _ found => covered.publish found)
    fun done => (step_thread_of_done done index).2

theorem compute (timely : desk.Timely (.compute payload)) :
    Sound db (desk.step (.compute payload)) := by
  cases isFunding : desk.funding with
  | idle =>
    simp only [FundingDesk.step, isFunding]
    exact .settling desk.engine [] _ payload rfl (nil_append _)
      { Underway.compute (sound.covered isFunding) timely with }
  | settling | settled =>
    simp only [FundingDesk.step, isFunding]
    exact sound

theorem applyDelta (timely : desk.Timely .applyDelta) : Sound db (desk.step .applyDelta) := by
  cases sound with
  | idle isIdle covered =>
    simp only [FundingDesk.step, isIdle]
    exact .idle isIdle covered
  | settled base payload isSettled underway =>
    simp only [FundingDesk.step, isSettled]
    exact .settled base payload isSettled underway
  | settling base applied deltas payload isSettling all underway =>
    cases deltas with
    | nil =>
      simp only [FundingDesk.step, isSettling]
      exact .settling base applied [] payload isSettling all underway
    | cons delta rest =>
      simp only [FundingDesk.step, isSettling]
      have fits := timely delta (by rw [isSettling]; rfl)
      refine .settling base (applied ++ [delta]) rest payload rfl ?_ (underway.applyDelta fits _)
      rw [append_assoc]
      exact all

theorem applyResidue (timely : desk.Timely .applyResidue) :
    Sound db (desk.step .applyResidue) := by
  cases sound with
  | idle isIdle covered =>
    simp only [FundingDesk.step, isIdle]
    exact .idle isIdle covered
  | settled base payload isSettled underway =>
    simp only [FundingDesk.step, isSettled]
    exact .settled base payload isSettled underway
  | settling base applied deltas payload isSettling all underway =>
    cases deltas with
    | cons delta rest =>
      simp only [FundingDesk.step, isSettling]
      exact .settling base applied (delta :: rest) payload isSettling all underway
    | nil =>
      simp only [FundingDesk.step, isSettling]
      rw [append_nil] at all
      subst all
      have fits := timely _ (by rw [isSettling]; rfl)
      exact .settled base payload rfl (underway.applyResidue fits _)

theorem publishSettled : Sound db (desk.step .publishSettled) := by
  cases sound with
  | idle isIdle covered =>
    simp only [FundingDesk.step, isIdle]
    exact .idle isIdle covered
  | settling base applied deltas payload isSettling all underway =>
    simp only [FundingDesk.step, isSettling]
    exact .settling base applied deltas payload isSettling all underway
  | settled base payload isSettled underway =>
    simp only [FundingDesk.step, isSettled]
    exact .idle rfl underway.publishSettled

/-- A timely step. -/
theorem step {next : FundingStep} (timely : desk.Timely next) : Sound db (desk.step next) := by
  cases next with
  | fill fill fee => exact .idle timely.1 ((sound.covered timely.1).fill timely fill fee)
  | charge index => exact sound.charge timely index
  | read index => exact sound.read index
  | publish index => exact sound.publish index
  | compute payload => exact sound.compute timely
  | applyDelta => exact sound.applyDelta timely
  | applyResidue => exact sound.applyResidue timely
  | publishSettled => exact sound.publishSettled

/-- A timely run. -/
theorem run (timely : desk.RunTimely steps) : Sound db (desk.run steps) :=
  Along.foldl (fun sound timely => sound.step timely) sound timely

theorem agrees (atRest : desk.AtRest) : Agrees desk.engine (desk.tables db) :=
  (sound.covered atRest.1).agrees atRest.2

end

end Sound

theorem sound_start {engine : RiskEngine} (agrees : Agrees engine db.margin) :
    Sound db (start engine) :=
  .idle rfl (.of_agrees agrees (by simp [start]))

/-- What the loop of pg-writer leaves of the published frames. -/
theorem margin_turns {desk : FundingDesk}
    (small : ∀ frame ∈ list.filterMap Turn.frame?, frame.seq.toNat < 2 ^ 63)
    (keeps : Writer.KeepsSettlements machine maxBatch (.start db) list)
    (received : (((Writer.start db).accepted machine maxBatch list).filter
      PersistFrame.isMargin).map PersistFrame.payload = desk.stream) :
    (((Writer.start db).turns machine maxBatch list).flushNow machine none).db.margin =
      desk.tables db := by
  have begun : Writer.OnTrack machine (.start db) [] [] (.start db) :=
    ⟨.start db, rfl, TrackedWriter.onTrack_start machine db⟩
  have ran := begun.turns machine maxBatch small keeps
  have flushed := @Writer.OnTrack.flushNow machine _ _ _ _ ran none
    nofun
  rw [(flushed.exactlyOnce machine (Writer.len_flushNow_none machine _)).margin,
    margin_applyEach_filter machine rfl]
  unfold tables
  rw [← received, flatMap_map]
  rfl

/-- In every timely run, whenever the threads are at rest, the engine agrees with the
tables after its frames, and so with those that the loop of pg-writer leaves, if it
accepts all frames and keeps its settlements. -/
theorem agrees_of_runTimely {db : Database} {engine : RiskEngine} (agrees : Agrees engine db.margin)
    {steps : List FundingStep} (timely : (start engine).RunTimely steps)
    (atRest : ((start engine).run steps).AtRest) :
    Agrees ((start engine).run steps).engine (((start engine).run steps).tables db) ∧
      ∀ (maxBatch : Nat) (list : List Turn),
        (∀ frame ∈ list.filterMap Turn.frame?, frame.seq.toNat < 2 ^ 63) →
        Writer.KeepsSettlements machine maxBatch (.start db) list →
        (((Writer.start db).accepted machine maxBatch list).filter
          PersistFrame.isMargin).map PersistFrame.payload = ((start engine).run steps).stream →
        Agrees ((start engine).run steps).engine
          (((Writer.start db).turns machine maxBatch list).flushNow machine none).db.margin := by
  have sameNow := ((sound_start agrees).run timely).agrees atRest
  refine ⟨sameNow, fun maxBatch list small keeps received => ?_⟩
  rw [margin_turns small keeps received]
  exact sameNow

/-! ## Two traders -/

/-- Two traders with their margin, and their rows. -/
def traders : RiskEngine :=
  (RiskEngine.new.initializeAccount 3 1000000000).initializeAccount 4 1000000000

def traderRows : Database :=
  let row : RiskAccountColumns := {
    equityAtoms := 1000000000
    usedMarginAtoms := 0
    orderMarginAtoms := 0
    status := .normal }
  { Database.new with
    riskAccounts := Finmap.insert 4 row (Finmap.insert 3 row ∅) }

theorem agrees_traders : Agrees traders traderRows.margin := by
  intro datum
  cases datum with
  | position userId symbol => rfl
  | account userId =>
    rw [mirrors_account_iff]
    by_cases fourth : userId = 4
    · subst fourth
      decide +kernel
    · by_cases third : userId = 3
      · subst third
        decide +kernel
      · simp only [traders, traderRows, Database.margin, RiskEngine.initializeAccount]
        rw [Finmap.lookup_insert_of_ne _ fourth, Finmap.lookup_insert_of_ne _ third,
          AList.lookup_insert_ne fourth, AList.lookup_insert_ne third]
        rfl
  | fund => rfl

/-- A fill of ten lots of `BTC_USDT`. -/
def tenLots (userId : UserId) (orderSide : Nat) : FundingStep :=
  .fill {
    userId := userId
    symbol := 7
    orderSide := orderSide
    priceTicks := 5000000
    qtyLots := 10
    marginAtoms := 50000000
    notionalScale := 10
    leverage := 10
    maintenanceRateBps := 50
    liqPriceTicks := 0 } 250000

/-- A fill reads its data and publishes its frames. -/
def publishAll (index : Nat) : List FundingStep :=
  [.read index, .read index, .read index, .publish index, .publish index, .publish index]

/-- The two traders trade with each other. -/
def traded : List FundingStep :=
  [tenLots 3 0, tenLots 4 1, .charge 0, .charge 1] ++ publishAll 0 ++ publishAll 1

/-- The funding loop settles, up to its frame. -/
def settles : List FundingStep :=
  [.compute {
    symbol := 7
    rateE9 := 100000
    markPriceTicks := 5000000
    notionalScale := 10
    settledAtMs := 1700000000000
    nextSettlementAtMs := 1700028800000 }, .applyDelta, .applyDelta, .applyResidue]

theorem agrees_traded_settled :
    Agrees ((start traders).run (traded ++ settles ++ [.publishSettled])).engine
      (((start traders).run (traded ++ settles ++ [.publishSettled])).tables traderRows) :=
  (agrees_of_runTimely agrees_traders (by decide +kernel) (by decide +kernel)).1

/-- A fill publishes its frames after the settlement is applied and before its frame:
the table holds the settlement twice. -/
theorem not_agrees_fillBeforeFrame :
    let steps := traded ++ settles ++ [tenLots 4 1, .charge 2] ++ publishAll 2 ++
      [.publishSettled]
    ((start traders).run steps).AtRest ∧
      ¬ Agrees ((start traders).run steps).engine
        (((start traders).run steps).tables traderRows) := by
  refine ⟨by decide +kernel, fun agrees => ?_⟩
  exact absurd ((mirrors_account_iff _ _ _).mp (agrees (.account 4))) (by decide +kernel)

end FundingDesk
end LightningX.Persist
