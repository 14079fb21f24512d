import GothamRelay.Data.TokenBucket
import GothamRelay.RateLimit.Limiter

namespace GothamRelay

open Data

namespace RateLimiter

/-! The limiter writes its tokens back only when it allows a packet. It is
nevertheless a token bucket. -/

def bucket (limiter : RateLimiter) : Bucket ℚ :=
  ⟨limiter.tokens, limiter.lastRefill⟩

/-- Tokens a nanosecond. -/
def tokenRate (maxPps : ℚ) : ℚ := maxPps / nanosPerSec

theorem tokenRate_nonneg {maxPps : ℚ} (nonneg : 0 ≤ maxPps) :
    0 ≤ tokenRate maxPps :=
  div_nonneg nonneg (Nat.cast_nonneg _)

theorem asSecsF64_mul (duration : Duration) (maxPps : ℚ) :
    asSecsF64 duration * maxPps = (duration : ℚ) * tokenRate maxPps := by
  rw [asSecsF64, tokenRate]
  ring

private theorem refilled_eq_level (limiter : RateLimiter) (now : Instant) :
    limiter.refilled now =
      limiter.bucket.level (tokenRate limiter.maxPps) limiter.burst now := by
  rw [refilled, asSecsF64_mul]
  rfl

theorem burst_new (maxPps : ℚ) (maxBytesPerDay : UInt64) (now : Instant) :
    (new maxPps maxBytesPerDay now).burst =
      (new maxPps maxBytesPerDay now).maxPps * 2 := by
  simp only [new]
  split
  · rfl
  · rename_i unmetered
    rw [le_antisymm (not_lt.mp unmetered) (le_max_right _ _), zero_mul]

structure Metered (maxPps : ℚ) (limiter : RateLimiter) : Prop where
  maxPps_eq : limiter.maxPps = maxPps
  burst_eq : limiter.burst = maxPps * 2

theorem metered_new {maxPps : ℚ} (positive : 0 < maxPps)
    (maxBytesPerDay : UInt64) (now : Instant) :
    Metered maxPps (new maxPps maxBytesPerDay now) := by
  have maxPps_eq : (new maxPps maxBytesPerDay now).maxPps = maxPps :=
    max_eq_left positive.le
  refine ⟨maxPps_eq, ?_⟩
  rw [burst_new, maxPps_eq]

theorem Metered.spent {maxPps : ℚ} {limiter : RateLimiter}
    (metered : Metered maxPps limiter) (now : Instant) :
    Metered maxPps (limiter.spent now) :=
  ⟨metered.maxPps_eq, metered.burst_eq⟩

theorem Metered.refilled_eq {maxPps : ℚ} {limiter : RateLimiter}
    (metered : Metered maxPps limiter) (now : Instant) :
    limiter.refilled now =
      limiter.bucket.level (tokenRate maxPps) (maxPps * 2) now := by
  rw [refilled_eq_level, metered.maxPps_eq, metered.burst_eq]

private theorem Metered.bucket_spent {maxPps : ℚ} (positive : 0 < maxPps)
    {limiter : RateLimiter} (metered : Metered maxPps limiter)
    (now : Instant) :
    (limiter.spent now).bucket =
      ⟨limiter.bucket.level (tokenRate maxPps) (maxPps * 2) now - 1, now⟩ := by
  have counts : limiter.maxPps > 0 := by
    rw [metered.maxPps_eq]
    exact positive
  rw [bucket, RateLimiter.spent]
  simp only [if_pos counts, metered.refilled_eq]

end RateLimiter

def RateDecision.passedQuota : RateDecision → Bool
  | .throttled .dailyQuota => false
  | _ => true

namespace RateLimiter

/-- The requests that a log makes to a bucket: a call that is over the quota
wants no token. -/
def wanted (entry : Instant × RateDecision) : Nat × Bool :=
  (entry.1, entry.2.passedQuota)

def granted (entry : Instant × RateDecision) : Nat × Bool :=
  (entry.1, entry.2.isAllowed)

private theorem Metered.offer_checked {maxPps : ℚ} (positive : 0 < maxPps)
    {limiter : RateLimiter} (metered : Metered maxPps limiter)
    {reference : Bucket ℚ} {now : Instant}
    (agree : Bucket.Agree (tokenRate maxPps) (maxPps * 2) now limiter.bucket
      reference)
    (settled : reference.Settled (maxPps * 2) now)
    {result : RateDecision × RateLimiter}
    (checked : limiter.Checked now result) :
    (reference.offer (tokenRate maxPps) (maxPps * 2) now
        result.1.passedQuota).1 = result.1.isAllowed ∧
      Bucket.Agree (tokenRate maxPps) (maxPps * 2) now result.2.bucket
        (reference.offer (tokenRate maxPps) (maxPps * 2) now
          result.1.passedQuota).2 ∧
      Metered maxPps result.2 := by
  have level_eq : limiter.refilled now =
      reference.level (tokenRate maxPps) (maxPps * 2) now := by
    rw [metered.refilled_eq]
    exact agree now (Nat.le_refl _)
  have written := agree.written (tokenRate_nonneg positive.le) settled
  have counts : limiter.maxPps > 0 := by
    rw [metered.maxPps_eq]
    exact positive
  cases checked with
  | overQuota exceeded =>
      rw [Bucket.offer, if_neg (fun taken => Bool.noConfusion taken.1)]
      exact ⟨rfl, written, metered⟩
  | short within short =>
      have empty := short.2
      rw [level_eq] at empty
      rw [Bucket.offer, if_neg (fun taken => not_le.mpr empty taken.2)]
      exact ⟨rfl, written, metered⟩
  | allow within enough =>
      have full : 1 ≤ limiter.refilled now :=
        not_lt.mp fun short => enough ⟨counts, short⟩
      rw [level_eq] at full
      rw [Bucket.offer, if_pos ⟨rfl, full⟩]
      refine ⟨rfl, ?_, metered.spent now⟩
      rw [metered.bucket_spent positive, agree now (Nat.le_refl _)]
      exact Bucket.Agree.refl now _

theorem offerAll_checkAll {maxPps : ℚ} (positive : 0 < maxPps)
    {calls : List (Nat × Instant)}
    (ordered : (calls.map Prod.snd).Pairwise (· ≤ ·))
    {limiter : RateLimiter} (metered : Metered maxPps limiter)
    {reference : Bucket ℚ} {now : Instant}
    (agree : Bucket.Agree (tokenRate maxPps) (maxPps * 2) now limiter.bucket
      reference)
    (future : ∀ time ∈ calls.map Prod.snd, now ≤ time)
    (settled : ∀ time ∈ calls.map Prod.snd,
      reference.Settled (maxPps * 2) time) :
    reference.offerAll (tokenRate maxPps) (maxPps * 2)
        ((limiter.checkAll calls).map wanted) =
      (limiter.checkAll calls).map granted := by
  -- The invariant of the induction: the limiter and the bucket agree from the
  -- last call on, and the bucket has been written at it.
  induction calls generalizing limiter reference now with
  | nil => rfl
  | cons call calls ih =>
      obtain ⟨packetLen, moment⟩ := call
      obtain ⟨first, ordered⟩ := List.pairwise_cons.mp ordered
      obtain ⟨decision, agree, metered⟩ := metered.offer_checked positive
        (agree.later (future moment List.mem_cons_self))
        (settled moment List.mem_cons_self)
        (limiter.checked_checkAt packetLen moment)
      have rest := ih ordered metered agree first fun time member =>
        .inl ((Nat.le_of_eq (Bucket.offer_since _ _ _)).trans
          (first time member))
      rw [checkAll, List.map_cons, List.map_cons, wanted, granted,
        Bucket.offerAll, decision, rest]

theorem countP_allowedIn (start stop : Instant)
    (log : List (Instant × RateDecision)) :
    log.countP (allowedIn start stop) =
      (log.map granted).countP (Bucket.takes start stop) := by
  rw [List.countP_map]
  rfl

theorem checkAll_times (limiter : RateLimiter) (calls : List (Nat × Instant)) :
    (limiter.checkAll calls).map Prod.fst = calls.map Prod.snd := by
  induction calls generalizing limiter with
  | nil => rfl
  | cons call calls ih => rw [checkAll, List.map_cons, ih, List.map_cons]

/-- For any quota, the limiter is the bucket that starts full, holds twice the
rate and is written down at every call. -/
theorem limiter_is_token_bucket {maxPps : ℚ} (positive : 0 < maxPps)
    (maxBytesPerDay : UInt64) (created : Instant)
    {calls : List (Nat × Instant)}
    (ordered : (calls.map Prod.snd).Pairwise (· ≤ ·)) :
    (∀ {start stop : Instant}, start ≤ stop →
      ((((new maxPps maxBytesPerDay created).checkAll calls).countP
          (allowedIn start stop) : Nat) : ℚ) ≤
        2 * maxPps + maxPps * asSecsF64 (stop.durationSince start)) ∧
    Bucket.offerAll (tokenRate maxPps) (2 * maxPps) ⟨2 * maxPps, created⟩
        (((new maxPps maxBytesPerDay created).checkAll calls).map wanted) =
      ((new maxPps maxBytesPerDay created).checkAll calls).map granted := by
  have metered := metered_new positive maxBytesPerDay created
  have bucket_eq : (new maxPps maxBytesPerDay created).bucket =
      ⟨maxPps * 2, created⟩ :=
    congrArg (Bucket.mk · created) metered.burst_eq
  have simulates := offerAll_checkAll positive ordered metered
    (Bucket.Agree.refl 0 _) (fun _ _ => Nat.zero_le _)
    (fun _ _ => .inr (le_of_eq (congrArg Bucket.tokens bucket_eq).symm))
  rw [bucket_eq] at simulates
  rw [mul_comm 2 maxPps]
  refine ⟨?_, simulates⟩
  intro start stop order
  have requests : ((((new maxPps maxBytesPerDay created).checkAll calls).map
      wanted).map Prod.fst).Pairwise (· ≤ ·) := by
    rw [List.map_map]
    change (((new maxPps maxBytesPerDay created).checkAll calls).map
      Prod.fst).Pairwise (· ≤ ·)
    rw [checkAll_times]
    exact ordered
  have capacity_nonneg : 0 ≤ maxPps * 2 := by linarith
  have bound := Bucket.taken_le (tokenRate_nonneg positive.le)
    capacity_nonneg requests order
    (show 0 ≤ (Bucket.mk (maxPps * 2) created).tokens from capacity_nonneg)
  rw [simulates, ← countP_allowedIn, ← asSecsF64_mul] at bound
  rw [mul_comm maxPps (asSecsF64 _)]
  exact bound

/-- A call over the quota, one without a token and calls that are allowed. -/
theorem sample_limiter_is_token_bucket :
    (new 1 6192 0).checkAll [(0, 0), (0, 0), (0, 0), (0, 1000000000),
        (0, 1000000000)] =
      [(0, .allow), (0, .allow), (0, .throttled .rate),
        (1000000000, .allow), (1000000000, .throttled .dailyQuota)] ∧
      ((((new 1 6192 0).checkAll [(0, 0), (0, 0), (0, 0), (0, 1000000000),
          (0, 1000000000)]).countP (allowedIn 0 1000000000) : Nat) : ℚ) ≤
        2 * 1 + 1 * asSecsF64 1000000000 :=
  ⟨by decide +kernel, (limiter_is_token_bucket one_pos 6192 0
    (by decide)).1 (Nat.zero_le _)⟩

end RateLimiter

end GothamRelay
