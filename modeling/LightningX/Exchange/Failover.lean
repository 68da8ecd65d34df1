import LightningX.Exchange.Clocks
import LightningX.Exchange.Publish
import LightningX.Lib.Interleaving

/-!
# Failover

Two processes take the same inputs.  The leader publishes until it stops, at any
point and also between two outputs of one input.  The standby applies the inputs
silently and publishes from the input on at which it finds itself the leader.
-/

namespace LightningX.Exchange

open Matching Interleaving
open FrontEnd (TwiceTimed oneLot)

/-- A failover: what the two processes are before the inputs, how many outputs of
the leader get out, and how many inputs the standby takes before it leads. -/
structure Failover where
  leader : Sender
  standby : Sender
  leaderEpoch : Nat
  standbyEpoch : Nat
  inputs : List TwiceTimed
  sent : Nat
  promoted : Nat

namespace Failover

/-- The inputs as the leader takes them. -/
def leaderTurns (failover : Failover) : List Turn :=
  failover.inputs.map fun input =>
    { live := true, epoch := failover.leaderEpoch, nowNs := input.early,
      message := input.message }

/-- The inputs as the standby takes them. -/
def standbyTurns (failover : Failover) : List Turn :=
  failover.inputs.mapIdx fun index input =>
    { live := decide (failover.promoted ≤ index), epoch := failover.standbyEpoch,
      nowNs := input.late, message := input.message }

/-- What the leader has to tell about an input. -/
def leaderOwes (failover : Failover) (index : Nat) : List Notice :=
  (failover.leader.owed failover.leaderTurns).getD index []

/-- What the standby has to tell about an input. -/
def standbyOwes (failover : Failover) (index : Nat) : List Notice :=
  (failover.standby.owed failover.standbyTurns).getD index []

/-- The notices that the leader gets out, each with the number of its input. -/
def leaderSent (failover : Failover) : List (Nat × Notice) :=
  (inTurn failover.inputs.length fun index =>
    ((failover.leader.run failover.leaderTurns).2.getD index []).map Output.notice).take
      failover.sent

/-- The notices that the standby publishes, each with the number of its input. -/
def standbySent (failover : Failover) : List (Nat × Notice) :=
  inTurn failover.inputs.length fun index =>
    ((failover.standby.run failover.standbyTurns).2.getD index []).map Output.notice

/-- All that there is to tell about an input has been published by one of the two. -/
def Complete (failover : Failover) : Prop :=
  ∀ index < failover.inputs.length,
    part index failover.leaderSent = failover.leaderOwes index ∨
      failover.promoted ≤ index ∧ part index failover.standbySent = failover.standbyOwes index

/-- The outputs of the leader for the inputs that the standby takes silently. -/
def backlog (failover : Failover) : Nat :=
  (inTurn (min failover.promoted failover.inputs.length) failover.leaderOwes).length

variable (failover : Failover)

theorem leaderSent_eq :
    failover.leaderSent =
      (inTurn failover.inputs.length failover.leaderOwes).take failover.sent := by
  have blocks : ∀ index < failover.inputs.length,
      ((failover.leader.run failover.leaderTurns).2.getD index []).map Output.notice =
        failover.leaderOwes index := by
    intro index within
    rw [Sender.run_notices]
    simp [leaderTurns, leaderOwes, within]
  rw [leaderSent, inTurn]
  congr 1
  exact List.flatMap_congr fun index mem => by rw [blocks index (List.mem_range.mp mem)]

/-- From its promotion on the standby publishes all it has to tell. -/
theorem part_standbySent (within : index < failover.inputs.length)
    (leads : failover.promoted ≤ index) :
    part index failover.standbySent = failover.standbyOwes index := by
  rw [standbySent, part_inTurn, Sender.run_notices]
  simp [standbyTurns, standbyOwes, within, leads]

/-- Nothing is lost in a failover exactly when the leader has published all outputs
of the inputs that the standby took silently. -/
theorem complete_iff : failover.Complete ↔ failover.backlog ≤ failover.sent := by
  rw [backlog, ← part_take_inTurn_iff failover.leaderOwes (Nat.min_le_right _ _), ← leaderSent_eq]
  constructor
  · intro complete index isSilent
    obtain published | ⟨leads, -⟩ := complete index (by omega)
    · exact published
    · omega
  · intro published index within
    by_cases leads : failover.promoted ≤ index
    · exact .inr ⟨leads, failover.part_standbySent within leads⟩
    · exact .inl (published index (by omega))

/-- A leader that stops after the first of two orders that trade with one another,
while the standby has applied both. -/
def stoppedBetween : Failover where
  leader := ⟨FrontEnd.new 7 ⟨0, 0, 0, 0⟩ (.new 0 0 0) ⟨4, 4⟩, .new 1⟩
  standby := ⟨FrontEnd.new 7 ⟨0, 0, 0, 0⟩ (.new 0 0 0) ⟨4, 4⟩, .new 1⟩
  leaderEpoch := 1
  standbyEpoch := 2
  inputs := [⟨1, 1, oneLot 1 1 100 .sell⟩, ⟨2, 2, oneLot 2 2 100 .buy⟩]
  sent := 1
  promoted := 2

/-- The trade and the fill are then published by nobody. -/
theorem not_complete_stoppedBetween :
    ¬ stoppedBetween.Complete ∧
      part 1 stoppedBetween.leaderSent = [] ∧ part 1 stoppedBetween.standbySent = [] ∧
      (stoppedBetween.leaderOwes 1).length = 2 := by
  refine ⟨?_, by decide +kernel, by decide +kernel, by decide +kernel⟩
  intro complete
  obtain published | ⟨leads, -⟩ := complete 1 (by decide)
  · exact absurd published (by decide +kernel)
  · exact absurd leads (by decide)

end Failover
end LightningX.Exchange
