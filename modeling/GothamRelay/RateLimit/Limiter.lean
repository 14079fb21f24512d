import Mathlib.Algebra.Order.Ring.Rat
import GothamRelay.Time

namespace GothamRelay

/-! The token bucket and daily quota of one relay. The `f64` fields are exact
rationals here. -/

def wireBytesPerPacket : UInt64 := 2064

def quotaWindow : Duration := Duration.fromSecs (24 * 60 * 60)

inductive ThrottleReason where
  | rate
  | dailyQuota
  deriving DecidableEq, Repr

inductive RateDecision where
  | allow
  | throttled (reason : ThrottleReason)
  deriving DecidableEq, Repr

def RateDecision.isAllowed : RateDecision → Bool
  | .allow => true
  | .throttled _ => false

structure RateLimiter where
  maxPps : ℚ
  burst : ℚ
  tokens : ℚ
  lastRefill : Instant
  maxBytesPerDay : UInt64
  bytesUsed : UInt64
  windowStart : Instant

namespace RateLimiter

def new (maxPps : ℚ) (maxBytesPerDay : UInt64) (now : Instant) :
    RateLimiter :=
  let maxPps := max maxPps 0
  let burst := if maxPps > 0 then maxPps * 2 else 0
  { maxPps, burst, tokens := burst, lastRefill := now, maxBytesPerDay,
    bytesUsed := 0, windowStart := now }

def unlimited (now : Instant) : RateLimiter := new 0 0 now

def isUnlimited (limiter : RateLimiter) : Bool :=
  limiter.maxPps = 0 ∧ limiter.maxBytesPerDay = 0

def asSecsF64 (duration : Duration) : ℚ := (duration : ℚ) / nanosPerSec

def windowElapsed (limiter : RateLimiter) (now : Instant) : Bool :=
  limiter.maxBytesPerDay > 0 ∧
    now.durationSince limiter.windowStart ≥ quotaWindow

def refilled (limiter : RateLimiter) (now : Instant) : ℚ :=
  min (limiter.tokens +
    asSecsF64 (now.durationSince limiter.lastRefill) * limiter.maxPps)
    limiter.burst

/-- A throttled call writes nothing back, not even a window that has ended. -/
def checkAt (limiter : RateLimiter) (_packetLen : Nat) (now : Instant) :
    RateDecision × RateLimiter :=
  let ended := limiter.windowElapsed now
  let bytesUsed := if ended then 0 else limiter.bytesUsed
  let windowStart := if ended then now else limiter.windowStart
  let charged := saturatingAdd bytesUsed wireBytesPerPacket
  if limiter.maxBytesPerDay > 0 ∧ charged > limiter.maxBytesPerDay then
    (.throttled .dailyQuota, limiter)
  else
    let tokens := limiter.refilled now
    if limiter.maxPps > 0 ∧ tokens < 1 then
      (.throttled .rate, limiter)
    else
      let metered :=
        if limiter.maxPps > 0 then
          { limiter with tokens := tokens - 1, lastRefill := now }
        else limiter
      (.allow,
        if limiter.maxBytesPerDay > 0 then
          { metered with bytesUsed := charged, windowStart }
        else metered)

private theorem isUnlimited_iff (limiter : RateLimiter) :
    limiter.isUnlimited = true ↔
      limiter.maxPps = 0 ∧ limiter.maxBytesPerDay = 0 := by
  simp [isUnlimited]

theorem isUnlimited_unlimited (now : Instant) :
    (unlimited now).isUnlimited = true := by
  simp [isUnlimited_iff, unlimited, new]

theorem checkAt_of_isUnlimited {limiter : RateLimiter}
    (exempt : limiter.isUnlimited = true) (packetLen : Nat) (now : Instant) :
    limiter.checkAt packetLen now = (.allow, limiter) := by
  obtain ⟨pps, quota⟩ := limiter.isUnlimited_iff.mp exempt
  simp [checkAt, pps, quota]

/-! ## The three ways a call ends -/

def chargedBytes (limiter : RateLimiter) (now : Instant) : UInt64 :=
  saturatingAdd (if limiter.windowElapsed now then 0 else limiter.bytesUsed)
    wireBytesPerPacket

def OverQuota (limiter : RateLimiter) (now : Instant) : Prop :=
  limiter.maxBytesPerDay > 0 ∧
    limiter.chargedBytes now > limiter.maxBytesPerDay

def Short (limiter : RateLimiter) (now : Instant) : Prop :=
  limiter.maxPps > 0 ∧ limiter.refilled now < 1

def spent (limiter : RateLimiter) (now : Instant) : RateLimiter where
  maxPps := limiter.maxPps
  burst := limiter.burst
  tokens := if limiter.maxPps > 0 then limiter.refilled now - 1
    else limiter.tokens
  lastRefill := if limiter.maxPps > 0 then now else limiter.lastRefill
  maxBytesPerDay := limiter.maxBytesPerDay
  bytesUsed := if limiter.maxBytesPerDay > 0 then limiter.chargedBytes now
    else limiter.bytesUsed
  windowStart := if limiter.maxBytesPerDay > 0 ∧ limiter.windowElapsed now
    then now else limiter.windowStart

private theorem checkAt_of_overQuota {limiter : RateLimiter} {now : Instant}
    (exceeded : limiter.OverQuota now) (packetLen : Nat) :
    limiter.checkAt packetLen now = (.throttled .dailyQuota, limiter) :=
  if_pos exceeded

theorem checkAt_of_short {limiter : RateLimiter} {now : Instant}
    (within : ¬limiter.OverQuota now) (short : limiter.Short now)
    (packetLen : Nat) :
    limiter.checkAt packetLen now = (.throttled .rate, limiter) :=
  (if_neg within).trans (if_pos short)

theorem checkAt_of_enough {limiter : RateLimiter} {now : Instant}
    (within : ¬limiter.OverQuota now) (enough : ¬limiter.Short now)
    (packetLen : Nat) :
    limiter.checkAt packetLen now = (.allow, limiter.spent now) := by
  refine ((if_neg within).trans (if_neg enough)).trans ?_
  by_cases metered : limiter.maxPps > 0 <;>
    by_cases budgeted : limiter.maxBytesPerDay > 0
  · by_cases ended : limiter.windowElapsed now <;>
      simp [spent, chargedBytes, metered, budgeted, ended]
  · simp [spent, metered, budgeted]
  · by_cases ended : limiter.windowElapsed now <;>
      simp [spent, chargedBytes, metered, budgeted, ended]
  · simp [spent, metered, budgeted]

inductive Checked (limiter : RateLimiter) (now : Instant) :
    RateDecision × RateLimiter → Prop where
  | overQuota (exceeded : limiter.OverQuota now) :
      Checked limiter now (.throttled .dailyQuota, limiter)
  | short (within : ¬limiter.OverQuota now) (short : limiter.Short now) :
      Checked limiter now (.throttled .rate, limiter)
  | allow (within : ¬limiter.OverQuota now) (enough : ¬limiter.Short now) :
      Checked limiter now (.allow, limiter.spent now)

theorem checked_checkAt (limiter : RateLimiter) (packetLen : Nat)
    (now : Instant) :
    limiter.Checked now (limiter.checkAt packetLen now) := by
  by_cases exceeded : limiter.OverQuota now
  · rw [checkAt_of_overQuota exceeded]
    exact .overQuota exceeded
  · by_cases short : limiter.Short now
    · rw [checkAt_of_short exceeded short]
      exact .short exceeded short
    · rw [checkAt_of_enough exceeded short]
      exact .allow exceeded short

/-- The calls of `check_at` one after the other: when each was and what it
returned. -/
def checkAll : RateLimiter → List (Nat × Instant) →
    List (Instant × RateDecision)
  | _, [] => []
  | limiter, (packetLen, now) :: calls =>
      let checked := limiter.checkAt packetLen now
      (now, checked.1) :: checkAll checked.2 calls

def allowedIn (start stop : Instant) (entry : Instant × RateDecision) :
    Bool :=
  entry.2.isAllowed && start ≤ entry.1 && entry.1 ≤ stop

end RateLimiter

end GothamRelay
