import LightningX.Exchange.Publish
import LightningX.Matching.Engine.Crossing

/-!
# The numbers of outputs

A thread numbers its trades and the updates of each response stream.  What it
publishes with one input carries numbers that it has not used before on the
stream, and the streams are known from the input.
-/

namespace LightningX.Exchange

open List
open Matching Transport

variable {message : InboundMsg}

def tradeStream : Nat := 3

namespace Notice

/-- The stream under which a notice is recorded. -/
def stream : Notice → Nat
  | trade _ => tradeStream
  | update stream _ => stream

/-- The sequence of a notice with a number: trades carry no epoch. -/
def stamp (epoch number : Nat) : Notice → Nat
  | trade _ => number
  | update _ _ => stampEpoch epoch number

/-- The stream of an update is one of the response streams. -/
def Routed (streams : Nat) : Notice → Prop
  | trade _ => True
  | update stream _ => orderUpdateStreamBase ≤ stream ∧ stream - orderUpdateStreamBase < streams

/-- How far a thread has counted on the stream of a notice. -/
def count (counters : Counters) : Notice → Nat
  | trade _ => counters.tradeSeq
  | update stream _ => counters.ouSeqs.getD (stream - orderUpdateStreamBase) 0

/-- The numbers that neither wrap nor exceed a column of the table. -/
def limit : Notice → Nat
  | trade _ => 2 ^ 63
  | update _ _ => 2 ^ epochShift

variable {streams otherStreams epoch otherEpoch number otherNumber : Nat}
  {notice other : Notice}

theorem both_of_stream_eq (routed : notice.Routed streams) (otherRouted : other.Routed otherStreams)
    (same : notice.stream = other.stream) :
    (∃ first second, notice = .trade first ∧ other = .trade second) ∨
      ∃ stream first second, notice = .update stream first ∧ other = .update stream second := by
  cases notice with
  | trade first =>
    cases other with
    | trade second => exact .inl ⟨first, second, rfl, rfl⟩
    | update stream _ =>
      obtain rfl : tradeStream = stream := same
      exact absurd otherRouted.1 (by decide)
  | update stream first =>
    cases other with
    | trade _ =>
      obtain rfl : stream = tradeStream := same
      exact absurd routed.1 (by decide)
    | update otherStream second =>
      obtain rfl : stream = otherStream := same
      exact .inr ⟨stream, first, second, rfl, rfl⟩

theorem count_eq (counters : Counters) (routed : notice.Routed streams)
    (otherRouted : other.Routed otherStreams) (same : notice.stream = other.stream) :
    notice.count counters = other.count counters := by
  obtain ⟨_, _, rfl, rfl⟩ | ⟨_, _, _, rfl, rfl⟩ := both_of_stream_eq routed otherRouted same
  · rfl
  · rfl

/-- Notices with the same key have the same number and, unless they are trades, the
same epoch. -/
theorem stamp_inj (routed : notice.Routed streams) (otherRouted : other.Routed otherStreams)
    (epochs : epoch < 2 ^ 15) (otherEpochs : otherEpoch < 2 ^ 15) (small : number < notice.limit)
    (otherSmall : otherNumber < other.limit) (same : notice.stream = other.stream)
    (stamps : notice.stamp epoch number = other.stamp otherEpoch otherNumber) :
    number = otherNumber ∧ (notice.stream = tradeStream ∨ epoch = otherEpoch) := by
  obtain ⟨_, _, rfl, rfl⟩ | ⟨_, _, _, rfl, rfl⟩ := both_of_stream_eq routed otherRouted same
  · exact ⟨stamps, .inl rfl⟩
  · obtain ⟨sameEpoch, sameNumber⟩ := stampEpoch_inj
      (epochs.trans (by decide)) (otherEpochs.trans (by decide)) small otherSmall stamps
    exact ⟨sameNumber, .inr sameEpoch⟩

/-- A stamped number fits in a column of the table. -/
theorem stamp_lt (epochs : epoch < 2 ^ 15) (small : number < notice.limit) :
    notice.stamp epoch number < 2 ^ 63 := by
  cases notice with
  | trade notification => exact small
  | update stream message =>
    rw [stamp, stampEpoch_eq]
    unfold epochShift at *
    omega

theorem eq_trade (routed : notice.Routed streams) (isTrade : notice.stream = tradeStream) :
    ∃ notification, notice = .trade notification := by
  cases notice with
  | trade notification => exact ⟨notification, rfl⟩
  | update stream message =>
    obtain rfl : stream = tradeStream := isTrade
    exact absurd routed.1 (by decide)

theorem splitEpoch_stamp (isUpdate : notice.stream ≠ tradeStream) (epochs : epoch < 2 ^ 15)
    (number : Nat) : (splitEpoch (notice.stamp epoch number)).1 = epoch := by
  cases notice with
  | trade notification => exact absurd rfl isUpdate
  | update stream message =>
    rw [stamp, splitEpoch_stampEpoch]
    exact Nat.mod_eq_of_lt (epochs.trans (by decide))

end Notice

theorem routed_of_mem_notices (some : 0 < streams) (mem : notice ∈ notices streams published) :
    notice.Routed streams := by
  obtain trade | update := mem_append.mp mem
  · obtain ⟨_, -, rfl⟩ := mem_map.mp trade
    trivial
  · obtain ⟨_, -, rfl⟩ := mem_map.mp update
    refine ⟨Nat.le_add_right _ _, ?_⟩
    rw [Nat.add_sub_cancel_left, responseStreamIndex]
    split_ifs with within
    · exact within.2
    · exact some

namespace Counters

variable {counters : Counters} {live : Bool} {epoch : Nat} {notice other : Notice}

/-- The counters are within the numbers that can be told apart and stored. -/
def InRange (counters : Counters) : Prop :=
  counters.tradeSeq < 2 ^ 63 ∧ ∀ seq ∈ counters.ouSeqs, seq < 2 ^ epochShift
deriving Decidable

theorem InRange.count_lt (inRange : counters.InRange) (notice : Notice) :
    notice.count counters < notice.limit := by
  cases notice with
  | trade notification => exact inRange.1
  | update stream message =>
    rw [Notice.count, getD_eq_getElem?_getD]
    cases found : counters.ouSeqs[stream - orderUpdateStreamBase]? with
    | none => exact Nat.two_pow_pos _
    | some seq => exact inRange.2 seq (mem_of_getElem? found)

/-- What is published carries the next number of its stream. -/
theorem publish_live (routed : notice.Routed counters.ouSeqs.length) :
    (counters.publish true epoch notice).2 =
        [⟨notice.stamp epoch (notice.count counters + 1), notice⟩] ∧
      notice.count (counters.publish true epoch notice).1 = notice.count counters + 1 := by
  cases notice with
  | trade notification => exact ⟨rfl, rfl⟩
  | update stream message =>
    have found := List.getElem?_eq_getElem routed.2
    simp [publish, found, Notice.stamp, Notice.count, List.getElem?_set_self routed.2]

theorem count_le_publish :
    other.count counters ≤ other.count (counters.publish live epoch notice).1 := by
  cases notice with
  | trade notification =>
    cases other with
    | trade _ => exact Nat.le_succ _
    | update _ _ => exact le_rfl
  | update stream message =>
    unfold publish
    split_ifs
    · simp only
      split
      · rename_i seq found
        cases other with
        | trade _ => exact le_rfl
        | update otherStream _ =>
          simp only [Notice.count, getD_eq_getElem?_getD, List.getElem?_set]
          split_ifs with same within
          · rw [← same, found]
            exact Nat.le_succ _
          · rw [List.getElem?_eq_none (by omega)]
          · exact le_rfl
      · exact le_rfl
    · exact le_rfl

theorem count_le_publishAll (notices : List Notice) :
    other.count counters ≤ other.count (counters.publishAll live epoch notices).1 := by
  induction notices generalizing counters with
  | nil => exact le_rfl
  | cons notice notices ih => exact count_le_publish.trans ih

theorem routed_publish {notices : List Notice}
    (routed : ∀ other ∈ notice :: notices, other.Routed counters.ouSeqs.length)
    (mem : other ∈ notices) :
    other.Routed (counters.publish live epoch notice).1.ouSeqs.length := by
  rw [length_ouSeqs_publish]
  exact routed other (mem_cons_of_mem _ mem)

/-- An output has a number that was not yet used on its stream. -/
theorem number_of_mem_publishAll {notices : List Notice}
    (routed : ∀ notice ∈ notices, notice.Routed counters.ouSeqs.length)
    (mem : output ∈ (counters.publishAll true epoch notices).2) :
    output.notice ∈ notices ∧
      ∃ number, output.sequence = output.notice.stamp epoch number ∧
        output.notice.count counters < number ∧
        number ≤ output.notice.count (counters.publishAll true epoch notices).1 := by
  induction notices generalizing counters with
  | nil => cases mem
  | cons notice notices ih =>
    obtain ⟨published, counted⟩ := @publish_live counters epoch notice (routed notice mem_cons_self)
    rw [publishAll_cons] at mem ⊢
    obtain here | later := mem_append.mp mem
    · rw [published, mem_singleton] at here
      subst here
      refine ⟨mem_cons_self, _, rfl, Nat.lt_succ_self _, ?_⟩
      rw [← counted]
      exact count_le_publishAll notices
    · obtain ⟨isNotice, number, stamped, fresh, within⟩ :=
        ih (fun other mem => routed_publish routed mem) later
      exact ⟨mem_cons_of_mem _ isNotice, number, stamped, count_le_publish.trans_lt fresh, within⟩

end Counters

/-- The key of the row of an output in `matching_events`. -/
def Output.key (output : Output) : Int × Nat :=
  (output.notice.stream, output.sequence)

theorem Output.key_eq_iff {output other : Output} :
    output.key = other.key ↔
      output.notice.stream = other.notice.stream ∧ output.sequence = other.sequence := by
  rw [key, key, Prod.mk.injEq, Int.natCast_inj]

/-- The outputs of one answer have different keys. -/
theorem Counters.nodup_publishAll {counters : Counters} {notices : List Notice}
    (epochs : epoch < 2 ^ 15) (routed : ∀ notice ∈ notices, notice.Routed counters.ouSeqs.length)
    (inRange : (counters.publishAll true epoch notices).1.InRange) :
    ((counters.publishAll true epoch notices).2.map Output.key).Nodup := by
  induction notices generalizing counters with
  | nil => exact nodup_nil
  | cons notice notices ih =>
    obtain ⟨published, counted⟩ := @publish_live counters epoch notice (routed notice mem_cons_self)
    rw [publishAll_cons] at inRange ⊢
    rw [map_append, published, map_singleton, singleton_append, nodup_cons]
    refine ⟨fun again => ?_, ih (fun other mem => routed_publish routed mem) inRange⟩
    obtain ⟨output, later, sameKey⟩ := mem_map.mp again
    obtain ⟨isNotice, number, stamped, fresh, within⟩ :=
      number_of_mem_publishAll (fun other mem => routed_publish routed mem) later
    obtain ⟨sameStream, sameSequence⟩ := Output.key_eq_iff.mp sameKey
    have isRouted := routed _ (mem_cons_of_mem _ isNotice)
    have isHere := routed notice mem_cons_self
    have bounded : notice.count counters + 1 < notice.limit := by
      rw [← counted]
      exact (count_le_publishAll notices).trans_lt (inRange.count_lt notice)
    obtain ⟨sameNumber, -⟩ := Notice.stamp_inj isRouted isHere epochs epochs
      (within.trans_lt (inRange.count_lt _)) bounded sameStream (stamped ▸ sameSequence)
    rw [Notice.count_eq _ isRouted isHere sameStream] at fresh
    omega

namespace FrontEnd

/-- The streams on which a message may be answered. -/
def answerStreams (front : FrontEnd) : InboundMsg → List Nat
  | .newOrder request => [request.responseStreamId]
  | .cancelOrder request =>
    [request.responseStreamId,
      ((front.uidMap.lookup request.orderId).map Prod.snd).getD request.responseStreamId]

/-- The message is an order that crosses the book. -/
def mayTrade (front : FrontEnd) (nowNs : Nat) : InboundMsg → Bool
  | .newOrder request => front.engine.crosses (orderOf nowNs request)
  | .cancelOrder _ => false

variable {front : FrontEnd}

theorem mem_answerStreams (mem : update ∈ (front.handle nowNs message).2.updates) :
    update.1 ∈ front.answerStreams message := by
  cases message with
  | newOrder request =>
    rw [answerStreams, mem_singleton]
    simp only [handle, newOrder] at mem
    split at mem
    · rw [mem_singleton.mp mem]
    · split at mem
      · rw [mem_singleton.mp mem]
      · rw [mem_singleton.mp mem]
  | cancelOrder request =>
    simp only [handle, cancelOrder] at mem
    rw [answerStreams, mem_cons, mem_singleton]
    split at mem
    · right
      rw [mem_singleton.mp mem]
      cases front.uidMap.lookup request.orderId <;> rfl
    · left
      split_ifs at mem
      · rw [mem_singleton.mp mem]
      · cases mem

theorem mayTrade_of_trade (mem : trade ∈ (front.handle nowNs message).2.trades) :
    front.mayTrade nowNs message = true := by
  cases message with
  | newOrder request =>
    simp only [handle, newOrder] at mem
    split at mem
    · cases mem
    · split at mem
      · cases mem
      · rename_i engine result placed
        by_contra apart
        have none := MatchingEngine.fills_eq_nil (Bool.eq_false_iff.mpr apart)
          (congrArg Prod.snd placed)
        simp [none] at mem
  | cancelOrder request =>
    simp only [handle, cancelOrder] at mem
    split at mem <;> cases mem

end FrontEnd

/-- Where a thread with some response streams publishes what is for a stream. -/
def publishedOn (streams stream : Nat) : Nat :=
  orderUpdateStreamBase + responseStreamIndex stream streams

theorem publishedOn_ne_tradeStream (streams stream : Nat) :
    publishedOn streams stream ≠ tradeStream := by
  unfold publishedOn orderUpdateStreamBase tradeStream
  omega

theorem stream_of_mem_notices {front : FrontEnd}
    (mem : notice ∈ notices streams (front.handle nowNs message).2) :
    notice.stream = tradeStream ∧ front.mayTrade nowNs message = true ∨
      notice.stream ∈ (front.answerStreams message).map (publishedOn streams) := by
  obtain trade | update := mem_append.mp mem
  · obtain ⟨_, isTrade, rfl⟩ := mem_map.mp trade
    exact .inl ⟨rfl, FrontEnd.mayTrade_of_trade isTrade⟩
  · obtain ⟨_, isUpdate, rfl⟩ := mem_map.mp update
    exact .inr (mem_map.mpr ⟨_, FrontEnd.mem_answerStreams isUpdate, rfl⟩)

namespace Sender

variable {sender : Sender}

@[simp] theorem length_ouSeqs_handle :
    (sender.handle turn).1.counters.ouSeqs.length = sender.counters.ouSeqs.length :=
  Counters.length_ouSeqs_publishAll _ _ _ _

theorem count_le_handle (notice : Notice) :
    notice.count sender.counters ≤ notice.count (sender.handle turn).1.counters :=
  Counters.count_le_publishAll _

/-- What a thread publishes with an input. -/
theorem number_of_mem_handle {output : Output}
    (some : 0 < sender.counters.ouSeqs.length) (mem : output ∈ (sender.handle turn).2) :
    turn.live = true ∧
      output.notice ∈ notices sender.counters.ouSeqs.length
        (sender.front.handle turn.nowNs turn.message).2 ∧
      ∃ number, output.sequence = output.notice.stamp turn.epoch number ∧
        output.notice.count sender.counters < number ∧
        number ≤ output.notice.count (sender.handle turn).1.counters := by
  rw [outputs_handle] at mem
  rw [counters_handle]
  cases live : turn.live with
  | false =>
    have silent := Counters.publishAll_notices sender.counters false turn.epoch
      (notices sender.counters.ouSeqs.length (sender.front.handle turn.nowNs turn.message).2)
    rw [live, map_eq_nil_iff.mp silent] at mem
    cases mem
  | true =>
    rw [live] at mem
    exact ⟨rfl, Counters.number_of_mem_publishAll
      (fun _ isNotice => routed_of_mem_notices some isNotice) mem⟩

/-- The outputs of one input have different keys. -/
theorem nodup_handle
    (some : 0 < sender.counters.ouSeqs.length) (epochs : turn.live = true → turn.epoch < 2 ^ 15)
    (inRange : (sender.handle turn).1.counters.InRange) :
    ((sender.handle turn).2.map Output.key).Nodup := by
  cases outputs : (sender.handle turn).2 with
  | nil => exact nodup_nil
  | cons output rest =>
    have live : turn.live = true :=
      (@number_of_mem_handle sender turn output some (outputs ▸ mem_cons_self)).1
    rw [← outputs]
    rw [outputs_handle, live]
    rw [counters_handle, live] at inRange
    exact Counters.nodup_publishAll (epochs live)
      (fun _ isNotice => routed_of_mem_notices some isNotice) inRange

end Sender

end LightningX.Exchange
