import LightningX.Lib.Along
import Mathlib.Algebra.Order.Ring.Int

/-!
# The rate limiter

`SharedRateLimiter` for one user and operation class.  Seconds are unsigned, so a clock that
steps back fills the bucket, and buckets are saved every two seconds, so a restart forgets what
was taken since.  As long as neither happens, no more requests pass than the burst and the
refill allow.
-/

namespace LightningX.Desk

structure RateLimitPolicy where
  requestsPerSecond : Nat
  burstCapacity : Nat

/-- `TokenBucket`; its policy is the limiter's. -/
structure TokenBucket where
  tokens : Nat
  lastUpdate : Nat
  deriving DecidableEq

/-- The bucket in memory, the one last saved, the first and the largest clock reading, and the
number of accepted requests. -/
structure Limiter where
  bucket : Option TokenBucket
  saved : Option TokenBucket
  readings : Option (Nat × Nat)
  accepted : Nat

/-- A request and a snapshot at a clock reading, or a restart that restores what was saved. -/
inductive LimiterEvent
  | request (now : Nat)
  | snapshot (now : Nat)
  | restart

namespace Limiter

variable (policy : RateLimitPolicy) (limiter : Limiter)

/-- A process that has seen no request. -/
def new : Limiter := ⟨none, none, none, 0⟩

/-- `refill`, of a new bucket if there is none; the difference of two `u64` wraps around. -/
def refill (now : Nat) : TokenBucket :=
  let bucket := limiter.bucket.getD ⟨policy.burstCapacity, now⟩
  let elapsed := (now + 2 ^ 64 - bucket.lastUpdate) % 2 ^ 64
  ⟨min (bucket.tokens + elapsed * policy.requestsPerSecond) policy.burstCapacity, now⟩

/-- The readings with one more. -/
def read (now : Nat) : Nat × Nat :=
  limiter.readings.elim (now, now) fun (first, largest) => (first, max largest now)

/-- `try_consume`, `snapshot` and `restore`. -/
def step : LimiterEvent → Limiter
  | .request now =>
    let bucket := limiter.refill policy now
    let limiter := { limiter with readings := some (limiter.read now) }
    if 1 ≤ bucket.tokens then
      { limiter with
        bucket := some { bucket with tokens := bucket.tokens - 1 }
        accepted := limiter.accepted + 1 }
    else { limiter with bucket := some bucket }
  | .snapshot now =>
    if limiter.bucket.isNone then limiter
    else
      let bucket := limiter.refill policy now
      { limiter with bucket := bucket, saved := bucket, readings := some (limiter.read now) }
  | .restart =>
    { limiter with
      bucket := limiter.saved.map fun saved =>
        { saved with tokens := min saved.tokens policy.burstCapacity } }

/-- The clock has not stepped back, and nothing is lost in a restart. -/
def Careful : LimiterEvent → Prop
  | .request now | .snapshot now =>
    now < 2 ^ 64 ∧ ∀ bucket ∈ limiter.bucket, bucket.lastUpdate ≤ now
  | .restart => limiter.saved = limiter.bucket

instance : (event : LimiterEvent) → Decidable (limiter.Careful event)
  | .request _ | .snapshot _ => inferInstanceAs (Decidable (_ ∧ _))
  | .restart => inferInstanceAs (Decidable (_ = _))

/-- The difference of the clock readings in `refill` underflows: with overflow checks the call
panics. -/
def Underflows : LimiterEvent → Prop
  | .request now | .snapshot now => ∃ bucket ∈ limiter.bucket, now < bucket.lastUpdate
  | .restart => False

/-- The burst and the refill between the first and the largest reading. -/
def allowance : Nat :=
  policy.burstCapacity +
    policy.requestsPerSecond * limiter.readings.elim 0 fun (first, largest) => largest - first

/-- What is accepted and what is left is covered by the burst and the refill. -/
def Counted : Prop :=
  match limiter.bucket, limiter.readings with
  | none, none => limiter.accepted = 0
  | some bucket, some (first, largest) =>
    first ≤ bucket.lastUpdate ∧ bucket.lastUpdate ≤ largest ∧
      limiter.accepted + bucket.tokens ≤
        policy.burstCapacity + policy.requestsPerSecond * (bucket.lastUpdate - first)
  | _, _ => False

variable {policy limiter}

theorem Counted.refill (counted : limiter.Counted policy) (inRange : now < 2 ^ 64)
    (after : ∀ bucket ∈ limiter.bucket, bucket.lastUpdate ≤ now) :
    (limiter.read now).1 ≤ now ∧ now ≤ (limiter.read now).2 ∧
      limiter.accepted + (limiter.refill policy now).tokens ≤
        policy.burstCapacity + policy.requestsPerSecond * (now - (limiter.read now).1) := by
  obtain ⟨bucket, saved, readings, accepted⟩ := limiter
  match bucket, readings, counted with
  | none, none, counted => simp_all [Counted, read, Limiter.refill]
  | some bucket, some (first, largest), ⟨before, within, left⟩ =>
    have later := after bucket rfl
    have elapsed : (now + 2 ^ 64 - bucket.lastUpdate) % 2 ^ 64 = now - bucket.lastUpdate := by omega
    have refills : policy.requestsPerSecond * (now - first) =
        policy.requestsPerSecond * (bucket.lastUpdate - first) +
          (now - bucket.lastUpdate) * policy.requestsPerSecond := by
      rw [Nat.mul_comm (now - _), ← Nat.mul_add]
      congr 1
      omega
    simp only [read, Limiter.refill, Option.elim_some, Option.getD_some, elapsed] at left ⊢
    omega

theorem Counted.step (counted : limiter.Counted policy) (careful : limiter.Careful event) :
    (limiter.step policy event).Counted policy := by
  cases event with
  | request now =>
    have refilled := counted.refill careful.1 careful.2
    unfold Limiter.step
    dsimp only
    split_ifs
    · refine ⟨refilled.1, refilled.2.1, ?_⟩
      change limiter.accepted + 1 + ((limiter.refill policy now).tokens - 1) ≤
        policy.burstCapacity + policy.requestsPerSecond * (now - (limiter.read now).1)
      omega
    · exact refilled
  | snapshot now =>
    unfold Limiter.step
    split_ifs
    · exact counted
    · exact counted.refill careful.1 careful.2
  | restart =>
    obtain ⟨bucket, saved, readings, accepted⟩ := limiter
    obtain rfl : saved = bucket := careful
    match saved, readings, counted with
    | none, none, counted => exact counted
    | some bucket, some readings, ⟨before, within, left⟩ =>
      exact ⟨before, within, Nat.le_trans (Nat.add_le_add_left (Nat.min_le_left _ _) _) left⟩

theorem Careful.not_underflows (careful : limiter.Careful event) : ¬ limiter.Underflows event := by
  cases event with
  | request now | snapshot now =>
    rintro ⟨bucket, present, back⟩
    exact absurd (careful.2 bucket present) (by omega)
  | restart => exact id

theorem Counted.accepted_le (counted : limiter.Counted policy) :
    limiter.accepted ≤ limiter.allowance policy := by
  obtain ⟨bucket, saved, readings, accepted⟩ := limiter
  match bucket, readings, counted with
  | none, none, counted => exact counted ▸ Nat.zero_le _
  | some bucket, some (first, largest), ⟨before, within, left⟩ =>
    have wider := Nat.mul_le_mul_left policy.requestsPerSecond (Nat.sub_le_sub_right within first)
    simp only [allowance, Option.elim_some] at left ⊢
    omega

/-- Without a step back of the clock and without losses in a restart no more requests are
accepted than the burst and the refill allow, and no call panics. -/
theorem accepted_le_allowance (careful : Along (step policy) Careful new events) :
    (events.foldl (step policy) new).accepted ≤
        (events.foldl (step policy) new).allowance policy ∧
      Along (step policy) (fun limiter event => ¬ limiter.Underflows event) new events := by
  have counted : (events.foldl (step policy) new).Counted policy :=
    Along.foldl Counted.step rfl careful
  exact ⟨counted.accepted_le,
    careful.imp (@Counted.step policy) (fun _ careful => careful.not_underflows) rfl⟩

theorem accepted_le_allowance_restarted :
    ([.request 10, .request 10, .snapshot 11, .restart, .request 12].foldl
        (step ⟨1, 1⟩) new).accepted ≤ 1 + 1 * (12 - 10) ∧
      Along (step ⟨1, 1⟩) (fun limiter event => ¬ limiter.Underflows event) new
        [.request 10, .request 10, .snapshot 11, .restart, .request 12] :=
  accepted_le_allowance (by decide)

/-- A clock that steps back and a restart each fill the bucket again. -/
theorem not_accepted_le_allowance :
    ¬ ([.request 10, .request 9].foldl (step ⟨1, 1⟩) new).accepted ≤ 1 + 1 * (10 - 10) ∧
      ¬ ([.request 9, .snapshot 10, .request 10, .restart, .request 10].foldl
        (step ⟨1, 1⟩) new).accepted ≤ 1 + 1 * (10 - 9) := by
  decide

end Limiter
end LightningX.Desk
