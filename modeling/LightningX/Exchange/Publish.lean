import LightningX.Exchange.FrontEnd

/-!
# What leaves a matching thread

The outputs of `bin/exchange_engine.rs` with their sequence numbers.  A thread
numbers the updates of each response stream and its trades; updates carry the
epoch of the leader in their high bits.  While a thread replays its journal or is
a standby, it publishes nothing.
-/

namespace LightningX.Exchange

open Matching Transport Nat

def epochShift : Nat := 48

def seqMask : Nat := 2 ^ epochShift - 1

def stampEpoch (epoch seq : Nat) : Nat :=
  ((epoch &&& 0xFFFF) <<< epochShift) ||| (seq &&& seqMask)

def splitEpoch (stamped : Nat) : Nat × Nat :=
  ((stamped >>> epochShift) % 2 ^ 16, stamped &&& seqMask)

theorem stampEpoch_eq (epoch seq : Nat) :
    stampEpoch epoch seq = epoch % 2 ^ 16 * 2 ^ epochShift + seq % 2 ^ epochShift := by
  have low : seq &&& seqMask = seq % 2 ^ epochShift := and_two_pow_sub_one_eq_mod _ _
  have high : epoch &&& 0xFFFF = epoch % 2 ^ 16 := and_two_pow_sub_one_eq_mod epoch 16
  rw [stampEpoch, low, high, ← shiftLeft_add_eq_or_of_lt (mod_lt _ (by decide)), shiftLeft_eq]

theorem splitEpoch_stampEpoch (epoch seq : Nat) :
    splitEpoch (stampEpoch epoch seq) = (epoch % 2 ^ 16, seq % 2 ^ epochShift) := by
  have isSeq : seq % 2 ^ epochShift < 2 ^ epochShift := mod_lt _ (by decide)
  have low : ∀ stamped, stamped &&& seqMask = stamped % 2 ^ epochShift :=
    fun _ => and_two_pow_sub_one_eq_mod _ _
  rw [stampEpoch_eq, splitEpoch, low, shiftRight_eq_div_pow, add_comm,
    add_mul_div_right _ _ (by decide), div_eq_of_lt isSeq, zero_add,
    mod_mod, add_mul_mod_self_right, mod_mod]

/-- Stamped numbers are distinct as long as neither part wraps. -/
theorem stampEpoch_inj (epochs : epoch < 2 ^ 16) (otherEpochs : otherEpoch < 2 ^ 16)
    (seqs : seq < 2 ^ epochShift) (otherSeqs : otherSeq < 2 ^ epochShift)
    (same : stampEpoch epoch seq = stampEpoch otherEpoch otherSeq) :
    epoch = otherEpoch ∧ seq = otherSeq := by
  have parts := congrArg splitEpoch same
  rw [splitEpoch_stampEpoch, splitEpoch_stampEpoch, Prod.mk.injEq, mod_eq_of_lt epochs,
    mod_eq_of_lt otherEpochs, mod_eq_of_lt seqs, mod_eq_of_lt otherSeqs] at parts
  exact parts

/-- What a thread has to tell: a trade, or an update on a response stream. -/
inductive Notice
  | trade (notification : TradeNotification)
  | update (stream : Nat) (message : OrderUpdateMsg)
  deriving DecidableEq

/-- A published notice with its sequence number. -/
structure Output where
  sequence : Nat
  notice : Notice
  deriving DecidableEq

def orderUpdateStreamBase : Nat := 200

def responseStreamIndex (streamId publishers : Nat) : Nat :=
  if orderUpdateStreamBase ≤ streamId ∧ streamId - orderUpdateStreamBase < publishers then
    streamId - orderUpdateStreamBase
  else 0

/-- The notices of an answer, in the order in which they are published. -/
def notices (streams : Nat) (published : Published) : List Notice :=
  published.trades.map Notice.trade ++ published.updates.map fun update =>
    .update (orderUpdateStreamBase + responseStreamIndex update.1 streams) update.2

/-- The counters of a thread: `ou_seqs` by response stream, and `trade_seq`. -/
structure Counters where
  ouSeqs : List Nat
  tradeSeq : Nat
  deriving DecidableEq, Repr

namespace Counters

/-- The counters of a thread that starts with some response streams. -/
def new (streams : Nat) : Counters where
  ouSeqs := List.replicate streams 0
  tradeSeq := 0

/-- The publication of one notice.  Trades are counted also while nothing is
published. -/
def publish (counters : Counters) (live : Bool) (epoch : Nat) : Notice → Counters × List Output
  | .trade notification =>
    ({ counters with tradeSeq := counters.tradeSeq + 1 },
      if live then [⟨counters.tradeSeq + 1, .trade notification⟩] else [])
  | .update stream message =>
    if live then
      let index := stream - orderUpdateStreamBase
      match counters.ouSeqs[index]? with
      | some seq =>
        ({ counters with ouSeqs := counters.ouSeqs.set index (seq + 1) },
          [⟨stampEpoch epoch (seq + 1), .update stream message⟩])
      | none => (counters, [⟨0, .update stream message⟩])
    else (counters, [])

/-- The publication of several notices. -/
def publishAll (counters : Counters) (live : Bool) (epoch : Nat) :
    List Notice → Counters × List Output
  | [] => (counters, [])
  | notice :: notices =>
    let (counters, outputs) := counters.publish live epoch notice
    let (counters, later) := counters.publishAll live epoch notices
    (counters, outputs ++ later)

section

variable (counters : Counters) (live : Bool) (epoch : Nat)

theorem publishAll_cons (notice : Notice) (notices : List Notice) :
    counters.publishAll live epoch (notice :: notices) =
      (((counters.publish live epoch notice).1.publishAll live epoch notices).1,
        (counters.publish live epoch notice).2 ++
          ((counters.publish live epoch notice).1.publishAll live epoch notices).2) := rfl

theorem publish_notice (notice : Notice) :
    (counters.publish live epoch notice).2.map Output.notice = if live then [notice] else [] := by
  cases notice with
  | trade notification => cases live <;> rfl
  | update stream message =>
    cases live
    · rfl
    · simp only [publish, if_true]
      split <;> rfl

theorem publishAll_notices (notices : List Notice) :
    (counters.publishAll live epoch notices).2.map Output.notice =
      if live then notices else [] := by
  induction notices generalizing counters with
  | nil => simp [publishAll]
  | cons notice notices ih =>
    simp only [publishAll_cons, List.map_append, publish_notice, ih]
    cases live <;> rfl

@[simp] theorem length_ouSeqs_publish (notice : Notice) :
    (counters.publish live epoch notice).1.ouSeqs.length = counters.ouSeqs.length := by
  cases notice with
  | trade notification => rfl
  | update stream message =>
    cases live
    · rfl
    · simp only [publish, if_true]
      split <;> simp

@[simp] theorem length_ouSeqs_publishAll (notices : List Notice) :
    (counters.publishAll live epoch notices).1.ouSeqs.length = counters.ouSeqs.length := by
  induction notices generalizing counters with
  | nil => rfl
  | cons notice notices ih => rw [publishAll_cons, ih, length_ouSeqs_publish]

end

end Counters

/-- A matching thread with its counters. -/
structure Sender where
  front : FrontEnd
  counters : Counters

/-- An input, when it is handled, and whether and under which epoch its answer is
published. -/
structure Turn where
  live : Bool
  epoch : Nat
  nowNs : Nat
  message : InboundMsg
  deriving DecidableEq

namespace Sender

/-- One input. -/
def handle (sender : Sender) (turn : Turn) : Sender × List Output :=
  let (front, published) := sender.front.handle turn.nowNs turn.message
  let (counters, outputs) :=
    sender.counters.publishAll turn.live turn.epoch
      (notices sender.counters.ouSeqs.length published)
  (⟨front, counters⟩, outputs)

theorem outputs_handle (sender : Sender) (turn : Turn) :
    (sender.handle turn).2 =
      (sender.counters.publishAll turn.live turn.epoch
        (notices sender.counters.ouSeqs.length
          (sender.front.handle turn.nowNs turn.message).2)).2 := rfl

theorem counters_handle (sender : Sender) (turn : Turn) :
    (sender.handle turn).1.counters =
      (sender.counters.publishAll turn.live turn.epoch
        (notices sender.counters.ouSeqs.length
          (sender.front.handle turn.nowNs turn.message).2)).1 := rfl

def run (sender : Sender) : List Turn → Sender × List (List Output)
  | [] => (sender, [])
  | turn :: turns =>
    let (sender, outputs) := sender.handle turn
    let (sender, later) := sender.run turns
    (sender, outputs :: later)

/-- What a thread has to tell about each input, published or not. -/
def owed (sender : Sender) (turns : List Turn) : List (List Notice) :=
  (sender.front.run (turns.map fun turn => (turn.nowNs, turn.message))).2.map
    (notices sender.counters.ouSeqs.length)

/-- A thread publishes all it has to tell about an input, or nothing. -/
theorem run_notices (sender : Sender) (turns : List Turn) (index : Nat) :
    ((sender.run turns).2.getD index []).map Output.notice =
      if (turns[index]?.map Turn.live).getD false then (sender.owed turns).getD index []
      else [] := by
  induction turns generalizing sender index with
  | nil => rfl
  | cons turn turns ih =>
    cases index with
    | zero => exact Counters.publishAll_notices _ _ _ _
    | succ index =>
      have later : (sender.owed (turn :: turns)).getD (index + 1) [] =
          ((sender.handle turn).1.owed turns).getD index [] := by
        simp [owed, FrontEnd.run, handle]
      rw [later]
      exact ih (sender.handle turn).1 index

end Sender
end LightningX.Exchange
