import LightningX.Desk.OrderMargins
import LightningX.Exchange.Lease
import LightningX.Exchange.Numbering

/-!
# Fencing at a desk

Engines publish under the epochs they hold, also after they have lost the lease
without knowing it, and their messages reach a desk in any order.  The receive
thread of the desk drops an order update whose epoch is below the highest it has
seen; the trade thread settles every trade.
-/

namespace LightningX.Exchange

open List Desk
open Transport (OrderUpdateMsg TradeNotification)

/-- A desk, and what its receive thread has seen of the leaders. -/
structure Receiver where
  desk : State
  lastOrderUpdateEpoch : Nat
  lastOrderUpdateSeq : Nat
  fencedDropCount : Nat
  orderUpdateGapCount : Nat
  deriving DecidableEq

namespace Receiver

/-- A desk that has seen no leader. -/
def new (desk : State) : Receiver where
  desk := desk
  lastOrderUpdateEpoch := 0
  lastOrderUpdateSeq := 0
  fencedDropCount := 0
  orderUpdateGapCount := 0

/-- A higher epoch restarts the sequence; a gap is only counted. -/
def track (receiver : Receiver) (epoch seq : Nat) : Receiver :=
  let receiver :=
    if epoch > receiver.lastOrderUpdateEpoch then
      { receiver with lastOrderUpdateEpoch := epoch, lastOrderUpdateSeq := 0 }
    else receiver
  { receiver with
    lastOrderUpdateSeq := seq
    orderUpdateGapCount :=
      if seq ≠ min (receiver.lastOrderUpdateSeq + 1) (2 ^ 64 - 1) then
        receiver.orderUpdateGapCount + 1
      else receiver.orderUpdateGapCount }

section

variable (arith : Arithmetic) (config : Config)

def handleUpdate (receiver : Receiver) (update : OrderUpdateMsg) : Receiver :=
  { receiver with desk := receiver.desk.onOrderUpdate arith config update }

def onUpdate (receiver : Receiver) (sequence : Nat) (update : OrderUpdateMsg) : Receiver :=
  if sequence ≠ 0 then
    let (epoch, seq) := splitEpoch sequence
    if epoch < receiver.lastOrderUpdateEpoch then
      { receiver with fencedDropCount := receiver.fencedDropCount + 1 }
    else (receiver.track epoch seq).handleUpdate arith config update
  else receiver.handleUpdate arith config update

/-- A batch of trades arrives. -/
def onTrades (receiver : Receiver) (trades : List TradeNotification) : Receiver :=
  { receiver with desk := receiver.desk.settleTrades arith config trades }

end

variable {arith : Arithmetic} {config : Config} {receiver : Receiver} {sequence : Nat}

@[simp] theorem lastOrderUpdateEpoch_track (receiver : Receiver) (epoch seq : Nat) :
    (receiver.track epoch seq).lastOrderUpdateEpoch = max receiver.lastOrderUpdateEpoch epoch := by
  simp only [track]
  split_ifs with higher <;> simp <;> omega

/-- The fence: an update with a lower epoch leaves the desk as it is. -/
theorem desk_onUpdate_of_lt
    (stamped : sequence ≠ 0) (lower : (splitEpoch sequence).1 < receiver.lastOrderUpdateEpoch) :
    (receiver.onUpdate arith config sequence update).desk = receiver.desk := by
  simp only [onUpdate, if_pos stamped, if_pos lower]

theorem epoch_le_onUpdate (stamped : sequence ≠ 0) :
    receiver.lastOrderUpdateEpoch ≤
        (receiver.onUpdate arith config sequence update).lastOrderUpdateEpoch ∧
      (splitEpoch sequence).1 ≤
        (receiver.onUpdate arith config sequence update).lastOrderUpdateEpoch := by
  simp only [onUpdate]
  split_ifs with lower
  · exact ⟨le_rfl, lower.le⟩
  · simp [handleUpdate]

end Receiver

/-- A published message with the term it comes from. -/
structure Message where
  term : Term
  output : Output
  deriving DecidableEq

namespace Message

variable (message : Message)

/-- The sequence and the content of an order update. -/
def update? : Option (Nat × OrderUpdateMsg) :=
  match message.output.notice with
  | .update _ update => some (message.output.sequence, update)
  | .trade _ => none

/-- The content of a trade. -/
def trade? : Option TradeNotification :=
  match message.output.notice with
  | .update _ _ => none
  | .trade trade => some trade

/-- The fencing token of a message: trades carry none. -/
def token : Option Nat :=
  message.update?.map fun update => (splitEpoch update.1).1

end Message

/-- The engines, all that they have published, the desk, and the terms whose updates
and trades it has taken. -/
structure Cluster where
  election : Election
  published : List Message
  receiver : Receiver
  updated : List Term
  traded : List Term

/-- What happens: to the lease, a message is published with some number, the desk takes
an update or a batch of trades out of all that was published, or anything else at the
desk. -/
inductive ClusterStep
  | election (step : ElectionStep)
  | publish (engine number : Nat) (notice : Notice)
  | update (index : Nat)
  | trades (indexes : List Nat)
  | desk (input : Input)

namespace Cluster

def start (desk : State) : Cluster where
  election := .new
  published := []
  receiver := .new desk
  updated := []
  traded := []

/-- A running engine whose threads have read an epoch publishes under it. -/
def publish (cluster : Cluster) (index number : Nat) (notice : Notice) : Cluster :=
  match cluster.election.engines[index]? with
  | none => cluster
  | some engine =>
    match engine.seen with
    | none => cluster
    | some epoch =>
      if engine.running then
        { cluster with
          published := cluster.published ++
            [⟨⟨index, epoch⟩, ⟨notice.stamp epoch number, notice⟩⟩] }
      else cluster

/-- The trades among the messages at some places. -/
def batch (cluster : Cluster) (indexes : List Nat) : List (Term × TradeNotification) :=
  indexes.filterMap fun index =>
    cluster.published[index]?.bind fun message =>
      message.trade?.map fun trade => (message.term, trade)

section

variable (arith : Arithmetic) (config : Config)

def takeUpdate (cluster : Cluster) (index : Nat) : Cluster :=
  match cluster.published[index]? with
  | none => cluster
  | some message =>
    match message.update? with
    | none => cluster
    | some (sequence, update) =>
      { cluster with
        receiver := cluster.receiver.onUpdate arith config sequence update
        updated := message.term :: cluster.updated }

def settle (cluster : Cluster) (batch : List (Term × TradeNotification)) : Cluster :=
  { cluster with
    receiver := cluster.receiver.onTrades arith config (batch.map Prod.snd)
    traded := batch.map Prod.fst ++ cluster.traded }

def step (cluster : Cluster) : ClusterStep → Cluster
  | .election step => { cluster with election := cluster.election.step step }
  | .publish index number notice => cluster.publish index number notice
  | .update index => cluster.takeUpdate arith config index
  | .trades indexes => cluster.settle arith config (cluster.batch indexes)
  | .desk input =>
    { cluster with
      receiver := { cluster.receiver with
        desk := cluster.receiver.desk.step arith config input } }

def run (cluster : Cluster) (steps : List ClusterStep) : Cluster :=
  steps.foldl (step arith config) cluster

/-- A term began before another. -/
def Earlier (cluster : Cluster) (term later : Term) : Prop :=
  later ∈ cluster.election.terms ∧
    cluster.election.terms.idxOf term < cluster.election.terms.idxOf later
deriving Decidable

/-- The terms of which the desk has taken a message. -/
def taken (cluster : Cluster) : List Term :=
  cluster.updated ++ cluster.traded

/-- The desk has taken a message of a later term. -/
def Stale (cluster : Cluster) (term : Term) : Prop :=
  ∃ later ∈ cluster.taken, cluster.Earlier term later
deriving Decidable

/-- What is left of a batch without the trades that come after one of a later term. -/
def fresh (cluster : Cluster) :
    List Term → List (Term × TradeNotification) → List (Term × TradeNotification)
  | _, [] => []
  | taken, entry :: batch =>
    if ∃ later ∈ taken, cluster.Earlier entry.1 later then
      cluster.fresh (entry.1 :: taken) batch
    else entry :: cluster.fresh (entry.1 :: taken) batch

/-- Stale messages leave the desk as it is. -/
def Fenced (cluster : Cluster) : ClusterStep → Prop
  | .update index => ∀ message ∈ cluster.published[index]?, cluster.Stale message.term →
      (cluster.takeUpdate arith config index).receiver.desk = cluster.receiver.desk
  | .trades indexes =>
    (cluster.settle arith config (cluster.batch indexes)).receiver.desk =
      (cluster.settle arith config
        (cluster.fresh cluster.taken (cluster.batch indexes))).receiver.desk
  | _ => True

/-- Stale messages leave the desk as it is in every step. -/
def RunFenced (cluster : Cluster) (steps : List ClusterStep) : Prop :=
  Along (Cluster.step arith config) (Fenced arith config) cluster steps

/-- Messages of different terms carry different tokens. -/
def DistinctTokens (cluster : Cluster) : Prop :=
  ∀ message ∈ cluster.published, ∀ other ∈ cluster.published,
    message.term ≠ other.term → ∀ token ∈ message.token, other.token ≠ some token

/-- The condition on a step: no trade is stale, and a stale update comes after an
update of a later term. -/
def Guarded (cluster : Cluster) : ClusterStep → Prop
  | .election step => cluster.election.Proper step
  | .publish _ _ _ => True
  | .update index => ∀ message ∈ cluster.published[index]?, cluster.Stale message.term →
      ∃ later ∈ cluster.updated, cluster.Earlier message.term later
  | .trades indexes => cluster.fresh cluster.taken (cluster.batch indexes) = cluster.batch indexes
  | .desk _ => True

/-- The condition on a run. -/
def RunGuarded (cluster : Cluster) (steps : List ClusterStep) : Prop :=
  Along (Cluster.step arith config) Guarded cluster steps

end

/-- Messages come from terms and carry their epochs, and the desk has seen the epochs
of the updates it has taken. -/
structure Sound (cluster : Cluster) : Prop where
  election : cluster.election.Sound
  published : ∀ message ∈ cluster.published, message.term ∈ cluster.election.terms ∧
    ∃ number, message.output.sequence = message.output.notice.stamp message.term.epoch number
  updated : ∀ term ∈ cluster.updated, term.epoch ≤ cluster.receiver.lastOrderUpdateEpoch

theorem sound_start (desk : State) : (start desk).Sound where
  election := Election.sound_new
  published := by simp [start]
  updated := by simp [start]

variable {arith : Arithmetic} {config : Config} {cluster : Cluster}

section

variable (sound : cluster.Sound)
include sound

/-- The token of an update is the epoch of its term. -/
theorem Sound.token {sequence : Nat}
    (mem : message ∈ cluster.published) (isUpdate : message.update? = some (sequence, update)) :
    sequence ≠ 0 ∧ (splitEpoch sequence).1 = message.term.epoch := by
  obtain ⟨isTerm, number, stamped⟩ := sound.published message mem
  obtain ⟨positive, bounded⟩ := sound.election.small _ isTerm
  have split : (splitEpoch sequence).1 = message.term.epoch := by
    unfold Message.update? at isUpdate
    split at isUpdate
    · rename_i stream content isNotice
      obtain ⟨rfl, rfl⟩ := Prod.mk.inj (Option.some.inj isUpdate)
      rw [stamped, isNotice, Notice.stamp, splitEpoch_stampEpoch]
      exact Nat.mod_eq_of_lt bounded
    · cases isUpdate
  refine ⟨?_, split⟩
  rintro rfl
  rw [← split] at positive
  exact absurd positive (by decide)

theorem Sound.epoch_lt (earlier : cluster.Earlier term later) : term.epoch < later.epoch := by
  obtain ⟨isLater, before⟩ := earlier
  have within := idxOf_lt_length_of_mem isLater
  have ordered := pairwise_iff_getElem.mp sound.election.rising _ _
    (before.trans within) within before
  rwa [getElem_idxOf, getElem_idxOf] at ordered

/-- Different terms publish under different tokens. -/
theorem Sound.distinctTokens : cluster.DistinctTokens := by
  intro message mem other otherMember ne token isToken sameToken
  obtain ⟨⟨sequence, update⟩, isUpdate, rfl⟩ := Option.map_eq_some_iff.mp isToken
  obtain ⟨⟨otherSequence, otherUpdate⟩, isOther, same⟩ := Option.map_eq_some_iff.mp sameToken
  refine ne (sound.election.eq_of_epoch_eq (sound.published message mem).1
    (sound.published other otherMember).1 ?_)
  rw [← (sound.token mem isUpdate).2, ← (sound.token otherMember isOther).2]
  exact same.symm

theorem Sound.fenced {step : ClusterStep} (guarded : cluster.Guarded step) :
    cluster.Fenced arith config step := by
  cases step with
  | election step => trivial
  | publish index number notice => trivial
  | desk input => trivial
  | trades indexes =>
    show (cluster.settle arith config _).receiver.desk = _
    rw [show cluster.fresh cluster.taken (cluster.batch indexes) = _ from guarded]
  | update index =>
    intro message found stale
    obtain ⟨later, isUpdated, earlier⟩ := guarded message found stale
    have isMessage : cluster.published[index]? = some message := found
    simp only [takeUpdate, isMessage]
    split
    · rfl
    · rename_i sequence update isUpdate
      obtain ⟨stamped, token⟩ := sound.token (mem_of_getElem? found) isUpdate
      refine Receiver.desk_onUpdate_of_lt stamped ?_
      rw [token]
      exact (sound.epoch_lt earlier).trans_le (sound.updated later isUpdated)

theorem Sound.publish (index number : Nat) (notice : Notice) :
    (cluster.publish index number notice).Sound := by
  unfold Cluster.publish
  split
  · exact sound
  · rename_i engine isEngine
    split
    · exact sound
    · rename_i epoch isSeen
      split_ifs
      · refine ⟨sound.election, fun message mem => ?_, sound.updated⟩
        obtain old | new := mem_append.mp mem
        · exact sound.published message old
        · rw [mem_singleton.mp new]
          exact ⟨sound.election.held index engine isEngine epoch (.inr isSeen), number, rfl⟩
      · exact sound

theorem Sound.takeUpdate (index : Nat) : (cluster.takeUpdate arith config index).Sound := by
  unfold Cluster.takeUpdate
  split
  · exact sound
  · rename_i message isMessage
    split
    · exact sound
    · rename_i sequence update isUpdate
      obtain ⟨stamped, token⟩ := sound.token (mem_of_getElem? isMessage) isUpdate
      obtain ⟨seenBefore, seenNow⟩ := @Receiver.epoch_le_onUpdate arith config
        cluster.receiver sequence update stamped
      refine ⟨sound.election, sound.published, fun term mem => ?_⟩
      obtain rfl | old := mem_cons.mp mem
      · exact token ▸ seenNow
      · exact (sound.updated term old).trans seenBefore

/-- Every step under which processes have names of their own and epochs are not used
up. -/
theorem Sound.step {step : ClusterStep} (guarded : cluster.Guarded step) :
    (cluster.step arith config step).Sound := by
  cases step with
  | election step =>
    refine ⟨sound.election.step guarded, fun message mem => ?_, sound.updated⟩
    exact (sound.published message mem).imp_left
      fun isTerm => Election.terms_subset_step _ _ isTerm
  | publish index number notice => exact sound.publish index number notice
  | update index => exact sound.takeUpdate index
  | trades indexes => exact ⟨sound.election, sound.published, sound.updated⟩
  | desk input => exact ⟨sound.election, sound.published, sound.updated⟩

theorem Sound.run {steps : List ClusterStep} (guarded : cluster.RunGuarded arith config steps) :
    cluster.RunFenced arith config steps ∧ (cluster.run arith config steps).Sound :=
  ⟨guarded.imp (fun sound guarded => sound.step guarded)
      (fun sound guarded => sound.fenced guarded) sound,
    guarded.foldl (fun sound guarded => sound.step guarded) sound⟩

end

/-- In a run whose steps are guarded, stale messages never change the desk, and
different terms publish under different tokens. -/
theorem run_fenced (desk : State) (steps : List ClusterStep)
    (guarded : (start desk).RunGuarded arith config steps) :
    (start desk).RunFenced arith config steps ∧
      ((start desk).run arith config steps).DistinctTokens := by
  obtain ⟨fenced, sound⟩ := (sound_start desk).run guarded
  exact ⟨fenced, sound.distinctTokens⟩

theorem RunFenced.last {step : ClusterStep}
    (fenced : cluster.RunFenced arith config (steps ++ [step])) :
    (cluster.run arith config steps).Fenced arith config step :=
  (Along.append_iff.mp fenced).2.1

instance Guarded.decide (cluster : Cluster) : DecidablePred cluster.Guarded
  | .election step => Election.Proper.decide cluster.election step
  | .publish _ _ _ => isTrue trivial
  | .update index =>
    inferInstanceAs (Decidable (∀ message ∈ cluster.published[index]?,
      cluster.Stale message.term → ∃ later ∈ cluster.updated, cluster.Earlier message.term later))
  | .trades indexes =>
    inferInstanceAs (Decidable (cluster.fresh cluster.taken (cluster.batch indexes) =
      cluster.batch indexes))
  | .desk _ => isTrue trivial

instance (arith : Arithmetic) (config : Config) (cluster : Cluster) (steps : List ClusterStep) :
    Decidable (cluster.RunGuarded arith config steps) :=
  Along.decide cluster steps

/-- Two processes; the first leads and accepts a bid, and an offer for a part of it
reaches the engines.  Its trade is published before the lease is lost, and the second
process then leads and rejects an order. -/
def takeover : List ClusterStep :=
  [.desk (.sessions [4, 8]),
    .desk (.entry (.placeOrder none ⟨4, 7, .buy, false, .gtc, some 10000000, 100, false⟩)),
    .desk .send,
    .election (.start (holderName 17 "a")),
    .election (.start (holderName 18 "b")),
    .election (.tick 0 0 6 true),
    .election (.read 0),
    .publish 0 1 (.update 200 (.accepted 1 1 4)),
    .update 0,
    .desk (.entry (.placeOrder none ⟨8, 7, .sell, false, .gtc, some 10000000, 60, false⟩)),
    .desk .send,
    .publish 0 1 (.trade ⟨2, 1, 10000000, 60, .sell, 7⟩),
    .publish 0 2 (.update 200 (.filled 2 2 8 10000000 60)),
    .election (.tick 1 7 6 true),
    .election (.read 1),
    .publish 1 1 (.update 200 (.rejected 3 4 2)), .update 3]

/-- A delayed update of the first leader is dropped. -/
theorem run_fenced_lateUpdate :
    (start Audited.funded.desk).RunFenced .machine .btcUsdt
        (takeover ++ [.update 2]) ∧
      ((start Audited.funded.desk).run .machine .btcUsdt
        (takeover ++ [.update 2])).DistinctTokens :=
  run_fenced Audited.funded.desk (takeover ++ [.update 2]) (by decide +kernel)

/-- A process that leads, and one that is started again with its identifier and host. -/
def restarted : List ClusterStep :=
  [.election (.start (holderName 1 "a")),
    .election (.tick 0 0 6 true),
    .election (.read 0),
    .publish 0 1 (.update 200 (.accepted 1 1 4)),
    .election (.start (holderName 1 "a")),
    .election (.tick 1 3 6 true),
    .election (.read 1), .publish 1 1 (.update 200 (.accepted 2 2 8))]

/-- A delayed trade of the first leader is settled, and a process that is started again
leads under the epoch it had before. -/
theorem not_run_fenced_lateTrade :
    ¬ (start Audited.funded.desk).RunFenced .machine .btcUsdt
        (takeover ++ [.trades [1]]) ∧
      ¬ ((start Audited.funded.desk).run .machine .btcUsdt restarted).DistinctTokens := by
  constructor
  · intro fenced
    have same := congrArg (fun desk => desk.accountCache.lookup (4, 2)) fenced.last
    exact absurd same (by decide +kernel)
  · intro distinct
    exact distinct ⟨⟨0, 1⟩, ⟨stampEpoch 1 1, .update 200 (.accepted 1 1 4)⟩⟩
      (by decide +kernel) ⟨⟨1, 1⟩, ⟨stampEpoch 1 1, .update 200 (.accepted 2 2 8)⟩⟩
      (by decide +kernel) (by decide) 1 (by decide +kernel) (by decide +kernel)

end Cluster
end LightningX.Exchange
