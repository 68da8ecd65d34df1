import LightningX.Exchange.Fencing

/-!
# Gaps in the order updates

Every matching thread numbers its own updates on a response stream, and the desk at the end
of the stream counts a gap whenever a number is not the next one.  When one thread publishes on
the stream, the count says how often messages were lost.
-/

namespace LightningX.Exchange

open Transport (OrderUpdateMsg)

/-- The numbers that threads have given on a response stream, the desk that reads it, and how
many messages were lost. -/
structure Feed where
  ouSeqs : Nat → Nat
  receiver : Receiver
  lost : Nat

/-- A thread publishes an update, which the desk may or may not see. -/
structure Publication where
  thread : Nat
  update : OrderUpdateMsg
  delivered : Bool

namespace Feed

def start (desk : Desk.State) : Feed where
  ouSeqs := fun _ => 0
  receiver := .new desk
  lost := 0

section

variable (arith : Arithmetic) (config : Desk.Config) (epoch : Nat)

/-- `publish_order_update` under the epoch of the leader, and the desk. -/
def step (feed : Feed) (publication : Publication) : Feed :=
  let seq := feed.ouSeqs publication.thread + 1
  { ouSeqs := Function.update feed.ouSeqs publication.thread seq
    receiver :=
      if publication.delivered then
        feed.receiver.onUpdate arith config (stampEpoch epoch seq) publication.update
      else feed.receiver
    lost := if publication.delivered then feed.lost else feed.lost + 1 }

def run (feed : Feed) (publications : List Publication) : Feed :=
  publications.foldl (step arith config epoch) feed

end

/-- The first thread publishes, and its numbers do not wrap around. -/
def Alone (feed : Feed) (publication : Publication) : Prop :=
  publication.thread = 0 ∧ feed.ouSeqs 0 + 1 < 2 ^ epochShift
deriving Decidable

/-- What the desk has seen of the first thread. -/
structure Follows (feed : Feed) (epoch : Nat) : Prop where
  epoch_le : feed.receiver.lastOrderUpdateEpoch ≤ epoch % 2 ^ 16
  unseen : feed.receiver.lastOrderUpdateEpoch < epoch % 2 ^ 16 →
    feed.receiver.lastOrderUpdateSeq = 0
  seen : feed.receiver.lastOrderUpdateSeq ≤ feed.ouSeqs 0

/-- The delivered messages that come right after a lost one. -/
def gaps (lost : Bool) : List Publication → Nat
  | [] => 0
  | publication :: rest =>
    (if publication.delivered && lost then 1 else 0) + gaps (! publication.delivered) rest

/-- After a lost message the next one arrives. -/
def Noticed : List Publication → Prop
  | [] => True
  | publication :: rest =>
    (publication.delivered = true ∨ ∃ next ∈ rest.head?, next.delivered = true) ∧ Noticed rest

variable {arith : Arithmetic} {config : Desk.Config} {feed : Feed} {epoch : Nat}
  {publication : Publication} {publications : List Publication}

/-- The desk sees the next message of the thread. -/
theorem onUpdate_stamped (follows : feed.Follows epoch) (small : feed.ouSeqs 0 + 1 < 2 ^ epochShift)
    (update : OrderUpdateMsg) :
    feed.receiver.onUpdate arith config (stampEpoch epoch (feed.ouSeqs 0 + 1)) update =
      { feed.receiver with
        desk := feed.receiver.desk.onOrderUpdate arith config update
        lastOrderUpdateEpoch := epoch % 2 ^ 16
        lastOrderUpdateSeq := feed.ouSeqs 0 + 1
        orderUpdateGapCount :=
          feed.receiver.orderUpdateGapCount +
            if feed.receiver.lastOrderUpdateSeq = feed.ouSeqs 0 then 0 else 1 } := by
  have split := splitEpoch_stampEpoch epoch (feed.ouSeqs 0 + 1)
  rw [Nat.mod_eq_of_lt small] at split
  have stamped : stampEpoch epoch (feed.ouSeqs 0 + 1) ≠ 0 := by
    intro zero
    rw [zero] at split
    exact absurd (congrArg Prod.snd split) (by simp [splitEpoch])
  have restarted : (if epoch % 2 ^ 16 > feed.receiver.lastOrderUpdateEpoch then
      { feed.receiver with lastOrderUpdateEpoch := epoch % 2 ^ 16, lastOrderUpdateSeq := 0 }
      else feed.receiver) = { feed.receiver with lastOrderUpdateEpoch := epoch % 2 ^ 16 } := by
    split_ifs with first
    · simp only [follows.unseen first]
    · simp only [← follows.epoch_le.antisymm (Nat.not_lt.mp first)]
  have next : feed.ouSeqs 0 + 1 ≠ min (feed.receiver.lastOrderUpdateSeq + 1) (2 ^ 64 - 1) ↔
      feed.receiver.lastOrderUpdateSeq ≠ feed.ouSeqs 0 := by
    unfold epochShift at small
    omega
  unfold Receiver.onUpdate
  rw [if_pos stamped, split]
  simp only [if_neg (Nat.not_lt.mpr follows.epoch_le), Receiver.track, restarted, next,
    Receiver.handleUpdate]
  by_cases same : feed.receiver.lastOrderUpdateSeq = feed.ouSeqs 0 <;> simp [same]

theorem Follows.step (follows : feed.Follows epoch) (alone : feed.Alone publication) :
    (feed.step arith config epoch publication).Follows epoch := by
  obtain ⟨isThread, small⟩ := alone
  obtain ⟨epochLe, unseen, seen⟩ := id follows
  simp only [Feed.step, isThread, onUpdate_stamped follows small]
  cases publication.delivered with
  | true => exact ⟨le_rfl, fun less => absurd less (lt_irrefl _), by simp⟩
  | false => exact ⟨epochLe, unseen, by simpa using Nat.le_succ_of_le seen⟩

/-- The count rises by one at a delivered message after a lost one. -/
theorem gapCount_run (follows : feed.Follows epoch)
    (alone : Along (Feed.step arith config epoch) Alone feed publications) :
    (feed.run arith config epoch publications).receiver.orderUpdateGapCount =
      feed.receiver.orderUpdateGapCount +
        gaps (decide (feed.receiver.lastOrderUpdateSeq ≠ feed.ouSeqs 0)) publications := by
  induction publications generalizing feed with
  | nil => rfl
  | cons publication rest ih =>
    obtain ⟨first, later⟩ := alone
    have seen := follows.seen
    refine (ih (follows.step first) later).trans ?_
    obtain ⟨isThread, small⟩ := first
    simp only [Feed.step, isThread, onUpdate_stamped follows small, gaps]
    cases publication.delivered with
    | true =>
      by_cases same : feed.receiver.lastOrderUpdateSeq = feed.ouSeqs 0 <;>
        simp [same, Nat.add_assoc]
    | false =>
      have behind : feed.receiver.lastOrderUpdateSeq ≠ feed.ouSeqs 0 + 1 := by omega
      simp [behind]

theorem lost_run (feed : Feed) (publications : List Publication) :
    (feed.run arith config epoch publications).lost =
      feed.lost + publications.countP (! ·.delivered) := by
  induction publications generalizing feed with
  | nil => rfl
  | cons publication rest ih =>
    refine (ih _).trans ?_
    cases same : publication.delivered <;> simp [Feed.step, same, Nat.add_comm, Nat.add_assoc]

/-- At most every lost message is counted, and each of them exactly if a delivered one follows
it at once. -/
theorem gaps_le_and_eq_iff (lost : Bool) (publications : List Publication) :
    gaps lost publications ≤ publications.countP (! ·.delivered) + lost.toNat ∧
      (gaps lost publications = publications.countP (! ·.delivered) + lost.toNat ↔
        (lost = true → ∃ next ∈ publications.head?, next.delivered = true) ∧
          Noticed publications) := by
  induction publications generalizing lost with
  | nil => cases lost <;> simp [gaps, Noticed]
  | cons publication rest ih =>
    cases delivered : publication.delivered with
    | true =>
      obtain ⟨le, precise⟩ := ih false
      simp only [Bool.toNat_false, Nat.add_zero, Bool.false_eq_true, false_imp_iff,
        true_and] at le precise
      cases lost <;> simp [gaps, Noticed, delivered, ← precise, le, Nat.add_comm 1]
    | false =>
      obtain ⟨le, precise⟩ := ih true
      simp only [Bool.toNat_true, true_imp_iff] at le precise
      cases lost with
      | true =>
        simp only [gaps, List.countP_cons, List.head?_cons, delivered]
        simp [delivered]
        omega
      | false => simpa [gaps, Noticed, delivered, le] using precise

/-- The count of the desk, with one thread on the stream: it rises when a message arrives after
a lost one, and is the number of lost messages exactly if after each of them the next one has
arrived. -/
theorem gapCount_eq_lost_iff {desk : Desk.State} {publications : List Publication}
    (alone : Along (step arith config epoch) Alone (start desk) publications) :
    let feed := (start desk).run arith config epoch publications
    feed.receiver.orderUpdateGapCount = gaps false publications ∧
      (feed.receiver.orderUpdateGapCount = feed.lost ↔ Noticed publications) := by
  intro feed
  have count : feed.receiver.orderUpdateGapCount = gaps false publications :=
    (gapCount_run ⟨Nat.zero_le _, fun _ => rfl, le_rfl⟩ alone).trans (Nat.zero_add _)
  have lost : feed.lost = publications.countP (! ·.delivered) :=
    (lost_run _ publications).trans (Nat.zero_add _)
  refine ⟨count, ?_⟩
  rw [count, lost]
  simpa using (gaps_le_and_eq_iff false publications).2

def rejection (thread : Nat) (delivered : Bool) : Publication where
  thread := thread
  update := .rejected 1 1 0
  delivered := delivered

theorem gapCount_eq_lost_one :
    let feed := (start (.new 0 .new ∅ 1)).run .machine .btcUsdt 3
      [rejection 0 true, rejection 0 false, rejection 0 true]
    feed.receiver.orderUpdateGapCount = 1 ∧ feed.receiver.orderUpdateGapCount = feed.lost := by
  obtain ⟨count, lost⟩ := @gapCount_eq_lost_iff .machine .btcUsdt 3 (.new 0 .new ∅ 1)
    [rejection 0 true, rejection 0 false, rejection 0 true] (by decide)
  exact ⟨count, lost.mpr (by simp [Noticed, rejection])⟩

/-- Two threads number their first messages alike, and the second one counts as a gap. -/
theorem gapCount_of_two_threads :
    let feed := (start (.new 0 .new ∅ 1)).run .machine .btcUsdt 3
      [rejection 0 true, rejection 1 true]
    feed.receiver.orderUpdateGapCount = 1 ∧ feed.lost = 0 := by
  decide

end Feed
end LightningX.Exchange
