import GothamRelay.RateLimit.Bucket

namespace GothamRelay

open Data

/-! Limiters without a quota that cannot be told apart. -/

namespace RateLimiter

structure Plain (maxPps : ℚ) (limiter : RateLimiter) : Prop where
  metered : Metered (max maxPps 0) limiter
  quota : limiter.maxBytesPerDay = 0
  tokens_nonneg : 0 ≤ limiter.tokens

theorem plain_new (maxPps : ℚ) (now : Instant) :
    Plain maxPps (new maxPps 0 now) := by
  refine ⟨⟨rfl, burst_new maxPps 0 now⟩, rfl, ?_⟩
  change 0 ≤ (new maxPps 0 now).burst
  rw [burst_new]
  exact mul_nonneg (le_max_right _ _) (by decide)

private theorem Plain.not_overQuota {maxPps : ℚ} {limiter : RateLimiter}
    (plain : Plain maxPps limiter) (now : Instant) :
    ¬limiter.OverQuota now := by
  intro exceeded
  have positive := exceeded.1
  rw [plain.quota] at positive
  exact absurd positive (by decide)

theorem Plain.checkAt {maxPps : ℚ} {limiter : RateLimiter}
    (plain : Plain maxPps limiter) (packetLen : Nat) (now : Instant) :
    Plain maxPps (limiter.checkAt packetLen now).2 := by
  have checked := limiter.checked_checkAt packetLen now
  generalize limiter.checkAt packetLen now = result at checked
  cases checked with
  | overQuota exceeded => exact plain
  | short within short => exact plain
  | allow within enough =>
      refine ⟨plain.metered.spent now, plain.quota, ?_⟩
      simp only [spent]
      split
      · rename_i counts
        have full : 1 ≤ limiter.refilled now :=
          not_lt.mp fun short => enough ⟨counts, short⟩
        linarith
      · exact plain.tokens_nonneg

theorem checkAt_lastRefill_le {limiter : RateLimiter} {now moment : Instant}
    (past : limiter.lastRefill ≤ moment) (order : now ≤ moment)
    (packetLen : Nat) :
    (limiter.checkAt packetLen now).2.lastRefill ≤ moment := by
  have checked := limiter.checked_checkAt packetLen now
  generalize limiter.checkAt packetLen now = result at checked
  cases checked with
  | overQuota exceeded => exact past
  | short within short => exact past
  | allow within enough =>
      simp only [spent]
      split
      · exact order
      · exact past

def Twin (maxPps : ℚ) (now : Instant) (first second : RateLimiter) : Prop :=
  Bucket.Agree (tokenRate (max maxPps 0)) (max maxPps 0 * 2) now first.bucket
    second.bucket

theorem Twin.checkAt {maxPps : ℚ} {now : Instant}
    {first second : RateLimiter} (twin : Twin maxPps now first second)
    (firstPlain : Plain maxPps first) (secondPlain : Plain maxPps second)
    (packetLen : Nat) :
    (first.checkAt packetLen now).1 = (second.checkAt packetLen now).1 ∧
      Twin maxPps now (first.checkAt packetLen now).2
        (second.checkAt packetLen now).2 := by
  have refilled_eq : first.refilled now = second.refilled now := by
    rw [firstPlain.metered.refilled_eq, secondPlain.metered.refilled_eq]
    exact twin now (Nat.le_refl _)
  have pps_eq : first.maxPps = second.maxPps :=
    firstPlain.metered.maxPps_eq.trans secondPlain.metered.maxPps_eq.symm
  have short_iff : first.Short now ↔ second.Short now := by
    rw [Short, Short, refilled_eq, pps_eq]
  have firstWithin := firstPlain.not_overQuota now
  have secondWithin := secondPlain.not_overQuota now
  by_cases short : first.Short now
  · rw [checkAt_of_short firstWithin short,
      checkAt_of_short secondWithin (short_iff.mp short)]
    exact ⟨rfl, twin⟩
  · rw [checkAt_of_enough firstWithin short,
      checkAt_of_enough secondWithin (fun other => short (short_iff.mpr other))]
    refine ⟨rfl, ?_⟩
    by_cases counts : second.maxPps > 0
    · have same : (first.spent now).bucket = (second.spent now).bucket := by
        simp only [bucket, spent, pps_eq, if_pos counts, refilled_eq]
      rw [Twin, same]
      exact Bucket.Agree.refl now _
    · have firstSame : (first.spent now).bucket = first.bucket := by
        simp only [bucket, spent, pps_eq, if_neg counts]
      have secondSame : (second.spent now).bucket = second.bucket := by
        simp only [bucket, spent, if_neg counts]
      rw [Twin, firstSame, secondSame]
      exact twin

theorem Plain.twin_new {maxPps : ℚ} {limiter : RateLimiter}
    (plain : Plain maxPps limiter) {now : Instant}
    (rested : limiter.lastRefill + Duration.fromSecs 2 ≤ now) :
    Twin maxPps now limiter (new maxPps 0 now) := by
  have rate_nonneg : 0 ≤ tokenRate (max maxPps 0) :=
    tokenRate_nonneg (le_max_right _ _)
  have filled : (((Duration.fromSecs 2 : Nat) : ℚ)) *
      tokenRate (max maxPps 0) = max maxPps 0 * 2 := by
    rw [tokenRate, Duration.fromSecs, nanosPerSec]
    push_cast
    ring
  have waited : Duration.fromSecs 2 ≤ now - limiter.lastRefill :=
    Nat.le_sub_of_add_le' rested
  have long := Bucket.gained_mono rate_nonneg waited
  rw [filled] at long
  have new_eq : (new maxPps 0 now).bucket = ⟨max maxPps 0 * 2, now⟩ :=
    congrArg (Bucket.mk · now) (burst_new maxPps 0 now)
  rw [Twin, new_eq]
  exact Bucket.agree_of_refilled rate_nonneg plain.tokens_nonneg long

end RateLimiter

end GothamRelay
