import LightningX.Exchange.Numbering
import LightningX.Lib.Along
import LightningX.Persist.Database

/-!
# The keys of matching events

The desks record every output of the matching threads in `matching_events`, whose
key is a stream and a sequence number; a row whose key is there already is
ignored.  Each thread counts for itself, from zero when its process starts, while
the streams are shared by all symbols and the rows stay.
-/

namespace LightningX.Exchange

open List Sender
open Persist (MatchingEventPayload pushMatchingEvent flushMatchingEvents)

/-- The matching threads of all processes so far, and what they have published, each
output with the thread it comes from. -/
structure Fleet where
  threads : List Sender
  outputs : List (Nat × Output)

/-- A process starts a thread for a symbol, or a thread takes an input.  A thread
that has ended takes no more. -/
inductive FleetStep
  | start (front : FrontEnd) (streams : Nat)
  | turn (thread : Nat) (turn : Turn)

namespace Fleet

def step (fleet : Fleet) : FleetStep → Fleet
  | .start front streams => { fleet with threads := fleet.threads ++ [⟨front, .new streams⟩] }
  | .turn thread turn =>
    match fleet.threads[thread]? with
    | none => fleet
    | some sender =>
      { threads := fleet.threads.set thread (sender.handle turn).1
        outputs := fleet.outputs ++ (sender.handle turn).2.map (Prod.mk thread) }

theorem step_turn {fleet : Fleet} (isThread : fleet.threads[thread]? = some sender) (turn : Turn) :
    fleet.step (.turn thread turn) =
      { threads := fleet.threads.set thread (sender.handle turn).1
        outputs := fleet.outputs ++ (sender.handle turn).2.map (Prod.mk thread) } := by
  simp only [step, isThread]

def run (fleet : Fleet) (steps : List FleetStep) : Fleet :=
  steps.foldl step fleet

/-- The numbers of all threads are in range. -/
def InRange (fleet : Fleet) : Prop :=
  ∀ sender ∈ fleet.threads, sender.counters.InRange
deriving Decidable

/-- No other thread has published on a stream of the answer under the epoch, nor a
trade that the thread has not counted if the message may trade. -/
@[mk_iff apart_iff]
structure Apart (fleet : Fleet) (thread : Nat) (turn : Turn) (sender : Sender) : Prop where
  updates : ∀ entry ∈ fleet.outputs, entry.1 ≠ thread →
    (splitEpoch entry.2.sequence).1 = turn.epoch →
    entry.2.notice.stream ∉ (sender.front.answerStreams turn.message).map
      (publishedOn sender.counters.ouSeqs.length)
  trades : sender.front.mayTrade turn.nowNs turn.message = true →
    ∀ entry ∈ fleet.outputs, entry.1 ≠ thread → entry.2.notice.stream = tradeStream →
      entry.2.sequence ≤ sender.counters.tradeSeq

/-- The condition on a step. -/
def Separate (fleet : Fleet) : FleetStep → Prop
  | .start _ streams => 0 < streams
  | .turn thread turn =>
    ∀ sender ∈ fleet.threads[thread]?, turn.live = true →
      turn.epoch < 2 ^ 15 ∧ fleet.Apart thread turn sender

/-- The condition on a run. -/
def RunSeparate (fleet : Fleet) (steps : List FleetStep) : Prop :=
  fleet.InRange ∧
    Along step (fun fleet step => fleet.Separate step ∧ (fleet.step step).InRange) fleet steps

/-- All outputs have different keys, and their numbers have been counted. -/
structure Numbered (fleet : Fleet) : Prop where
  streams : ∀ sender ∈ fleet.threads, 0 < sender.counters.ouSeqs.length
  counted : ∀ entry ∈ fleet.outputs, ∃ sender epoch number,
    fleet.threads[entry.1]? = some sender ∧
      entry.2.notice.Routed sender.counters.ouSeqs.length ∧
      epoch < 2 ^ 15 ∧ entry.2.sequence = entry.2.notice.stamp epoch number ∧
      number ≤ entry.2.notice.count sender.counters
  distinct : (fleet.outputs.map fun entry => entry.2.key).Nodup

variable {fleet : Fleet}

theorem Numbered.start (numbered : fleet.Numbered) {streams : Nat} (some : 0 < streams)
    (front : FrontEnd) : (fleet.step (.start front streams)).Numbered where
  streams := by
    intro sender mem
    obtain old | new := mem_append.mp mem
    · exact numbered.streams sender old
    · obtain rfl := mem_singleton.mp new
      simpa [Counters.new] using some
  counted := by
    intro entry mem
    obtain ⟨sender, epoch, number, isThread, rest⟩ := numbered.counted entry mem
    refine ⟨sender, epoch, number, ?_, rest⟩
    exact (List.getElem?_append_left (List.getElem?_eq_some_iff.mp isThread).1).trans isThread
  distinct := numbered.distinct

section Turn

variable {thread : Nat} {turn : Turn}

section

variable (numbered : fleet.Numbered) (inRange : fleet.InRange)
  (isThread : fleet.threads[thread]? = some sender)
include numbered inRange isThread

/-- No earlier output has the key of a new one. -/
theorem Numbered.key_ne (epochs : turn.epoch < 2 ^ 15) (apart : fleet.Apart thread turn sender)
    (inRangeAfter : (sender.handle turn).1.counters.InRange) (old : entry ∈ fleet.outputs)
    (new : output ∈ (sender.handle turn).2) : entry.2.key ≠ output.key := by
  intro sameKey
  have isSender := mem_of_getElem? isThread
  obtain ⟨-, isNotice, number, stamped, fresh, within⟩ :=
    number_of_mem_handle (numbered.streams sender isSender) new
  obtain ⟨owner, epoch, oldNumber, isOwner, oldRouted, oldEpochs, oldStamped, oldWithin⟩ :=
    numbered.counted entry old
  obtain ⟨sameStream, sameSequence⟩ := Output.key_eq_iff.mp sameKey
  have routed := routed_of_mem_notices (numbered.streams sender isSender) isNotice
  have small := within.trans_lt (inRangeAfter.count_lt _)
  have oldSmall := oldWithin.trans_lt ((inRange owner (mem_of_getElem? isOwner)).count_lt _)
  obtain ⟨rfl, isTradeOrSame⟩ := Notice.stamp_inj oldRouted routed oldEpochs epochs oldSmall
    small sameStream (by rw [← stamped, ← oldStamped, sameSequence])
  by_cases mine : entry.1 = thread
  · obtain rfl : owner = sender := Option.some.inj (by rw [← isOwner, mine, isThread])
    rw [Notice.count_eq _ oldRouted routed sameStream] at oldWithin
    omega
  · obtain ⟨isTrade, mayTrade⟩ | isAnswer := stream_of_mem_notices isNotice
    · have counted := apart.trades mayTrade entry old mine (sameStream.trans isTrade)
      obtain ⟨notification, same⟩ := Notice.eq_trade routed isTrade
      rw [sameSequence, stamped, same] at counted
      rw [same] at fresh
      exact absurd fresh (not_lt.mpr counted)
    · have isUpdate : entry.2.notice.stream ≠ tradeStream := by
        obtain ⟨stream, -, same⟩ := mem_map.mp isAnswer
        rw [sameStream, ← same]
        exact publishedOn_ne_tradeStream _ _
      refine apart.updates entry old mine ?_ (sameStream ▸ isAnswer)
      rw [oldStamped, Notice.splitEpoch_stamp isUpdate oldEpochs]
      exact isTradeOrSame.resolve_left isUpdate

/-- A thread that takes an input. -/
theorem Numbered.takes
    (separate : turn.live = true → turn.epoch < 2 ^ 15 ∧ fleet.Apart thread turn sender)
    (inRangeAfter : (sender.handle turn).1.counters.InRange) :
    (fleet.step (.turn thread turn)).Numbered := by
  have within := (List.getElem?_eq_some_iff.mp isThread).1
  have isSome := numbered.streams sender (mem_of_getElem? isThread)
  rw [step_turn isThread]
  constructor
  · intro other mem
    obtain old | rfl := mem_or_eq_of_mem_set mem
    · exact numbered.streams other old
    · rwa [length_ouSeqs_handle]
  · intro entry mem
    obtain old | new := mem_append.mp mem
    · obtain ⟨owner, epoch, number, isOwner, routed, epochs, stamped, counted⟩ :=
        numbered.counted entry old
      by_cases mine : entry.1 = thread
      · obtain rfl : owner = sender := Option.some.inj (by rw [← isOwner, mine, isThread])
        refine ⟨(owner.handle turn).1, epoch, number, ?_, ?_, epochs, stamped,
          counted.trans (count_le_handle _)⟩
        · rw [mine, List.getElem?_set_self within]
        · rwa [length_ouSeqs_handle]
      · refine ⟨owner, epoch, number, ?_, routed, epochs, stamped, counted⟩
        rw [List.getElem?_set_ne (Ne.symm mine), isOwner]
    · obtain ⟨output, isOutput, rfl⟩ := mem_map.mp new
      obtain ⟨live, isNotice, number, stamped, -, counted⟩ := number_of_mem_handle isSome isOutput
      refine ⟨_, turn.epoch, number, List.getElem?_set_self within, ?_, (separate live).1,
        stamped, counted⟩
      rw [length_ouSeqs_handle]
      exact routed_of_mem_notices isSome isNotice
  · rw [map_append, map_map, nodup_append]
    refine ⟨numbered.distinct, nodup_handle isSome (fun live => (separate live).1) inRangeAfter, ?_⟩
    intro key oldKey other newKey
    obtain ⟨entry, old, rfl⟩ := mem_map.mp oldKey
    obtain ⟨output, new, rfl⟩ := mem_map.mp newKey
    obtain ⟨epochs, apart⟩ := separate (number_of_mem_handle isSome new).1
    exact numbered.key_ne inRange isThread epochs apart inRangeAfter old new

end

end Turn

theorem Numbered.step {next : FleetStep} (numbered : fleet.Numbered) (inRange : fleet.InRange)
    (separate : fleet.Separate next) (inRangeAfter : (fleet.step next).InRange) :
    (fleet.step next).Numbered := by
  cases next with
  | start front streams => exact numbered.start separate front
  | turn thread turn =>
    cases isThread : fleet.threads[thread]? with
    | none =>
      simp only [Fleet.step, isThread]
      exact numbered
    | some sender =>
      rw [step_turn isThread] at inRangeAfter
      refine numbered.takes inRange isThread (separate sender isThread) ?_
      exact inRangeAfter _ (mem_set (List.getElem?_eq_some_iff.mp isThread).1 _)

/-- In a run whose steps keep the threads apart, no two outputs have the same key. -/
theorem Numbered.run (numbered : fleet.Numbered) {steps : List FleetStep}
    (separate : fleet.RunSeparate steps) :
    (fleet.run steps).Numbered ∧ (fleet.run steps).InRange := by
  refine @Along.foldl _ _ _ _ _ _ (fun fleet => fleet.Numbered ∧ fleet.InRange) ?_
    ⟨numbered, separate.1⟩ separate.2
  rintro fleet next ⟨numbered, inRange⟩ ⟨separate, inRangeAfter⟩
  exact ⟨numbered.step inRange separate inRangeAfter, inRangeAfter⟩

/-- What a desk knows of an output besides its key. -/
abbrev Details :=
  Output → { payload : MatchingEventPayload // payload.symbol ≠ 0 ∧ payload.tsNs ≤ 2 ^ 63 - 1 }

def event (details : Details) (output : Output) : MatchingEventPayload :=
  { (details output).1 with
    responseStreamId := output.key.1
    sequence := output.key.2 }

/-- The table after the events of all outputs. -/
def matchingEvents (fleet : Fleet) (details : Details) :
    Table (Int × Nat) MatchingEventPayload :=
  (∅ : Table (Int × Nat) MatchingEventPayload).writes
    (flushMatchingEvents (fleet.outputs.filterMap fun entry =>
      (pushMatchingEvent (event details entry.2)).toOption))

/-- No two outputs have the same key, and every output has its row. -/
def Recorded (fleet : Fleet) (details : Details) : Prop :=
  (fleet.outputs.map fun entry => entry.2.key).Nodup ∧
    ∀ entry ∈ fleet.outputs,
      (fleet.matchingEvents details).lookup entry.2.key = some (event details entry.2)

theorem pushMatchingEvent_event (small : output.sequence < 2 ^ 63) :
    pushMatchingEvent (event details output) = .ok (event details output) := by
  have known : (event details output).symbol ≠ 0 := (details output).2.1
  have late : (event details output).tsNs ≤ 2 ^ 63 - 1 := (details output).2.2
  have early : (event details output).sequence ≤ 2 ^ 63 - 1 := Nat.le_sub_one_of_lt small
  have stored : ¬ ((event details output).sequence > 2 ^ 63 - 1 ∨
      (event details output).tsNs > 2 ^ 63 - 1) :=
    not_or.mpr ⟨not_lt.mpr early, not_lt.mpr late⟩
  rw [pushMatchingEvent, if_neg known, if_neg stored]

/-- Outputs with different keys all have their rows. -/
theorem Numbered.recorded
    (numbered : fleet.Numbered) (inRange : fleet.InRange) (details : Details) :
    fleet.Recorded details := by
  refine ⟨numbered.distinct, fun entry mem => ?_⟩
  have pushed : (fleet.outputs.filterMap fun entry =>
      (pushMatchingEvent (event details entry.2)).toOption) =
        fleet.outputs.map fun entry => event details entry.2 := by
    rw [← filterMap_eq_map]
    refine filterMap_congr fun entry mem => ?_
    obtain ⟨sender, epoch, number, isThread, -, epochs, stamped, counted⟩ :=
      numbered.counted entry mem
    have small := counted.trans_lt ((inRange sender (mem_of_getElem? isThread)).count_lt _)
    rw [pushMatchingEvent_event (stamped ▸ Notice.stamp_lt epochs small)]
    rfl
  rw [matchingEvents, pushed, flushMatchingEvents, map_map]
  exact Table.lookup_writes_of_nodup (fun entry : Nat × Output => entry.2.key)
    (fun entry => event details entry.2) numbered.distinct mem rfl

/-- In a run whose steps keep the threads apart, all outputs have different keys, and
each has its row. -/
theorem outputs_recorded (steps : List FleetStep) (separate : RunSeparate ⟨[], []⟩ steps)
    (details : Details) : (run ⟨[], []⟩ steps).Recorded details := by
  have numbered : Numbered ⟨[], []⟩ := ⟨by simp, by simp, nodup_nil⟩
  obtain ⟨numberedAfter, inRange⟩ := numbered.run separate
  exact numberedAfter.recorded inRange details

instance (fleet : Fleet) (thread : Nat) (turn : Turn) (sender : Sender) :
    Decidable (fleet.Apart thread turn sender) :=
  decidable_of_iff _ (apart_iff fleet thread turn sender).symm

instance Separate.decide (fleet : Fleet) : DecidablePred fleet.Separate
  | .start _ streams => inferInstanceAs (Decidable (0 < streams))
  | .turn thread turn =>
    inferInstanceAs (Decidable (∀ sender ∈ fleet.threads[thread]?, turn.live = true →
      turn.epoch < 2 ^ 15 ∧ fleet.Apart thread turn sender))

instance (fleet : Fleet) (steps : List FleetStep) : Decidable (fleet.RunSeparate steps) :=
  inferInstanceAs (Decidable (_ ∧ _))

/-- A thread of a symbol starts with an empty book and two response streams. -/
def opens (symbol : Nat) : FleetStep :=
  .start (FrontEnd.new symbol ⟨0, 0, 0, 0⟩ (.new 0 0 0) ⟨4, 4⟩) 2

/-- A thread takes an offer of one lot from a desk. -/
def offer (thread symbol orderId stream epoch : Nat) : FleetStep :=
  .turn thread ⟨true, epoch, 0, .newOrder ⟨orderId, 1, 100, 1, .sell, .gtc, stream, false, symbol⟩⟩

/-- A desk that knows nothing but the symbol. -/
def plain : Details := fun _ => ⟨⟨0, 0, 0, 0, 0, 0, 0, 7, 0, 0, 0, 0⟩, by decide⟩

/-- Two symbols with a desk each, and a restart under a new epoch. -/
theorem outputs_recorded_desksApart :
    (run ⟨[], []⟩ [opens 7, opens 8, offer 0 7 1 200 1, offer 1 8 2 201 1, opens 7,
      offer 2 7 3 200 2]).Recorded plain :=
  outputs_recorded _ (by decide +kernel) plain

/-- Two symbols that answer the same desk give their first updates the same key. -/
theorem not_recorded_sharedDesk :
    ¬ (run ⟨[], []⟩ [opens 7, opens 8, offer 0 7 1 200 0, offer 1 8 2 200 0]).Recorded
      plain := by
  intro recorded
  exact absurd recorded.1 (by decide +kernel)

end Fleet

end LightningX.Exchange
