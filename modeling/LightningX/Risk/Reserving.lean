import LightningX.Lib.I64
import LightningX.Lib.Threads
import Mathlib.Algebra.Order.BigOperators.Group.List

/-!
# Concurrent reservations of margin

Calls of `check_and_reserve_margin` on one account, and the `release_order_margin` that undoes
each, as sequences of the atomic steps that threads take in any order.  A reservation lowers
the available margin by a compare-and-swap and raises the order margin afterwards.
-/

namespace LightningX.Risk.Reserving

open List

/-- How far a call has come.  The release of a reservation goes on from `reserved`. -/
inductive Phase
  | called
  | loaded (cur : Int)
  | swapped
  | reserved
  | refused
  | returned
  | released
  deriving DecidableEq

/-- A call and the margin it asks for. -/
structure Call where
  marginAtoms : Int
  phase : Phase

/-- The two cells of an account and the calls made on it. -/
structure Cells where
  availableMargin : Int
  orderMargin : Int
  calls : List Call

/-- A new call, or the next atomic step of one.  A weak exchange may fail for no reason. -/
inductive Event
  | call (marginAtoms : Int)
  | next (index : Nat) (spurious : Bool)
  deriving DecidableEq

namespace Call

/-- The next atomic step: the two cells and the phase after it. -/
def next (available order : Int) (spurious : Bool) (call : Call) : Int × Int × Phase :=
  match call.phase with
  | .called =>
    (available, order, if available < call.marginAtoms then .refused else .loaded available)
  | .loaded cur =>
    if spurious = true ∨ available ≠ cur then (available, order, .called)
    else (wrapI64 (cur - call.marginAtoms), order, .swapped)
  | .swapped => (available, wrapI64 (order + call.marginAtoms), .reserved)
  | .reserved => (wrapI64 (available + call.marginAtoms), order, .returned)
  | .returned => (available, wrapI64 (order - call.marginAtoms), .released)
  | phase => (available, order, phase)

/-- Margin the call has taken from the available margin. -/
def taken (call : Call) : Int :=
  if call.phase = .swapped ∨ call.phase = .reserved then call.marginAtoms else 0

/-- Margin the call has added to the order margin. -/
def booked (call : Call) : Int :=
  if call.phase = .reserved ∨ call.phase = .returned then call.marginAtoms else 0

/-- A call that is not negative and has seen enough margin before it exchanges. -/
def Sensible (call : Call) : Prop :=
  0 ≤ call.marginAtoms ∧ ∀ cur, call.phase = .loaded cur → call.marginAtoms ≤ cur

/-- A step moves margin between the cells and the call. -/
theorem next_spec {available order : Int} {spurious : Bool} {call : Call} (sensible : call.Sensible)
    (nonneg : 0 ≤ available) (sameAvailable : wrapI64 available = available)
    (sameOrder : wrapI64 order = order) : let after := call.next available order spurious
    let later : Call := ⟨call.marginAtoms, after.2.2⟩
    after.1 = wrapI64 (available + (call.taken - later.taken)) ∧
      after.2.1 = wrapI64 (order + (later.booked - call.booked)) ∧
      later.taken - call.taken ≤ available ∧ later.Sensible := by
  obtain ⟨amount, phase⟩ := call
  obtain ⟨positive, enough⟩ : 0 ≤ amount ∧ _ := sensible
  cases phase with
  | called =>
    by_cases short : available < amount
    · simp [next, taken, booked, Sensible, short, sameAvailable, sameOrder, nonneg, positive]
    · simp [next, taken, booked, Sensible, short, sameAvailable, sameOrder, nonneg, positive,
        not_lt.mp short]
  | loaded cur =>
    by_cases fails : spurious = true ∨ available ≠ cur
    · simp [next, taken, booked, Sensible, fails, sameAvailable, sameOrder, nonneg, positive]
    · obtain ⟨rfl, rfl⟩ : spurious = false ∧ available = cur := by simpa using fails
      simpa [next, taken, booked, Sensible, sub_eq_add_neg, sameOrder, positive] using enough
  | reserved =>
    simp [next, taken, booked, Sensible]
    omega
  | _ =>
    simp [next, taken, booked, Sensible, sub_eq_add_neg, sameAvailable, sameOrder, nonneg, positive]

/-- A call is refused at a moment with too little available margin. -/
theorem available_lt_of_refused {call : Call} (pending : call.phase ≠ .refused)
    (refused : (call.next available order spurious).2.2 = .refused) :
    available < call.marginAtoms := by
  obtain ⟨amount, phase⟩ := call
  cases phase with
  | called => simpa [next] using refused
  | loaded cur =>
    by_cases fails : spurious = true ∨ available ≠ cur <;> simp [next, fails] at refused
  | refused => exact absurd rfl pending
  | _ => simp [next] at refused

end Call

namespace Cells

/-- A step of the system. -/
def step (cells : Cells) : Event → Cells
  | .call amount => { cells with calls := cells.calls ++ [⟨amount, .called⟩] }
  | .next index spurious =>
    match cells.calls[index]? with
    | none => cells
    | some call =>
      let (available, order, phase) := call.next cells.availableMargin cells.orderMargin spurious
      ⟨available, order, cells.calls.set index { call with phase := phase }⟩

/-- Margin that reservations hold. -/
def reserved (cells : Cells) : Int :=
  (cells.calls.map Call.taken).sum

/-- No call is under way. -/
def Idle (cells : Cells) : Prop :=
  ∀ call ∈ cells.calls, call.phase = .reserved ∨ call.phase = .refused ∨ call.phase = .released

/-- What holds between the atomic steps. -/
structure Sound (availableMargin orderMargin : Int) (cells : Cells) : Prop where
  available : cells.availableMargin + cells.reserved = availableMargin
  order : cells.orderMargin = wrapI64 (orderMargin + (cells.calls.map Call.booked).sum)
  nonneg : 0 ≤ cells.availableMargin
  sensible : ∀ call ∈ cells.calls, call.Sensible

variable {availableMargin orderMargin : Int} {cells : Cells}

theorem reserved_nonneg (sensible : ∀ call ∈ cells.calls, call.Sensible) : 0 ≤ cells.reserved := by
  refine List.sum_nonneg fun taken mem => ?_
  obtain ⟨call, isCall, rfl⟩ := mem_map.mp mem
  unfold Call.taken
  split_ifs
  · exact (sensible call isCall).1
  · exact le_rfl

theorem Sound.step (sound : Sound availableMargin orderMargin cells)
    (inRange : availableMargin ≤ i64Max) (event : Event)
    (request : ∀ amount, event = .call amount → 0 ≤ amount) :
    Sound availableMargin orderMargin (cells.step event) := by
  obtain ⟨available, order, nonneg, sensible⟩ := sound
  have before := reserved_nonneg sensible
  cases event with
  | call amount =>
    refine ⟨?_, ?_, nonneg, ?_⟩
    · simpa [Cells.step, reserved, Call.taken] using available
    · simpa [Cells.step, Call.booked] using order
    · simpa [Cells.step, or_imp, forall_and] using ⟨sensible, request amount rfl, by simp⟩
  | next index spurious =>
    cases found : cells.calls[index]? with
    | none => simpa only [Cells.step, found] using ⟨available, order, nonneg, sensible⟩
    | some call =>
      have spec := @Call.next_spec _ cells.orderMargin spurious _
        (sensible call (mem_of_getElem? found)) nonneg (wrapI64_of_le_max nonneg (by omega))
        (by rw [order, wrapI64_eq (inI64_wrapI64 _)])
      rcases after : call.next cells.availableMargin cells.orderMargin spurious with
        ⟨nextAvailable, nextOrder, phase⟩
      simp only [after] at spec
      obtain ⟨isAvailable, isOrder, fits, later⟩ := spec
      have allSensible : ∀ other ∈ cells.calls.set index ⟨call.marginAtoms, phase⟩,
          other.Sensible := by
        intro other mem
        obtain earlier | rfl := mem_or_eq_of_mem_set mem
        · exact sensible other earlier
        · exact later
      have left := @reserved_nonneg ⟨0, 0, _⟩ allSensible
      simp only [Cells.step, found, after]
      simp only [reserved, Threads.sum_map_set found] at available left isAvailable isOrder
      rw [wrapI64_of_le_max (by omega) (by omega)] at isAvailable
      refine ⟨?_, ?_, ?_, allSensible⟩
      · simp only [reserved, Threads.sum_map_set found]
        omega
      · simp only [isOrder, order, Threads.sum_map_set found, wrapI64, Int.bmod_add_bmod, add_assoc]
      · simp only
        omega

theorem booked_of_idle (idle : cells.Idle) :
    (cells.calls.map Call.booked).sum = cells.reserved := by
  refine congrArg List.sum (map_congr_left fun call mem => ?_)
  rcases idle call mem with phase | phase | phase <;> simp [Call.booked, Call.taken, phase]

/-- Requests that are not negative, in any interleaving. -/
theorem run_reserves (availableMargin orderMargin : I64) (events : List Event)
    (solvent : 0 ≤ availableMargin.val) (requests : ∀ amount, .call amount ∈ events → 0 ≤ amount) :
    let cells := events.foldl step ⟨availableMargin.val, orderMargin.val, []⟩
    0 ≤ cells.availableMargin ∧ cells.reserved ≤ availableMargin.val ∧
      (cells.Idle → wrapI64 (cells.availableMargin + cells.orderMargin) =
        wrapI64 (availableMargin.val + orderMargin.val)) ∧
      ∀ call ∈ cells.calls, ∀ spurious, call.phase ≠ .refused →
        (call.next cells.availableMargin cells.orderMargin spurious).2.2 = .refused →
          cells.availableMargin < call.marginAtoms := by
  intro cells
  have sound : Sound availableMargin.val orderMargin.val cells := by
    refine foldlRecOn events step ?_ fun before sound event mem =>
      sound.step availableMargin.inRange.2 event ?_
    · exact ⟨add_zero _, by simp [wrapI64_eq orderMargin.inRange], solvent, by simp⟩
    · exact fun amount isCall => requests amount (isCall ▸ mem)
  have total := sound.available
  refine ⟨sound.nonneg, ?_, fun idle => ?_, fun _ _ _ => Call.available_lt_of_refused⟩
  · have := sound.nonneg
    omega
  · rw [sound.order, booked_of_idle idle, wrapI64, wrapI64, Int.add_bmod_bmod]
    congr 1
    omega

/-- Two calls for the last five atoms in turn. -/
theorem run_reserves_race :
    0 ≤ (foldl step ⟨5, 0, []⟩ [.call 5, .call 5, .next 0 false, .next 1 false, .next 1 false,
      .next 0 false]).availableMargin :=
  (run_reserves ⟨5, by decide⟩ ⟨0, by decide⟩ _ (by decide) (by simp)).1

/-- A negative request raises the available margin; its release after another call has taken
the surplus leaves less than nothing. -/
theorem run_reserves_negative :
    (foldl step ⟨0, 0, []⟩ [.call (-5), .next 0 false, .next 0 false, .next 0 false, .call 5,
      .next 1 false, .next 1 false, .next 1 false, .next 0 false]).availableMargin = -5 := by
  decide

end Cells
end LightningX.Risk.Reserving
