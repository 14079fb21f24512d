import GothamRelay.RateLimit.Bucket

namespace GothamRelay

namespace RateLimiter

/-! Traffic that keeps to the configured rate. -/

/-- Every packet allowed so far is at least `1 / max_pps` seconds ago, as for
the first call on a fresh limiter. -/
def Spaced (maxPps : ℚ) (log : List (Instant × RateDecision))
    (now : Instant) : Prop :=
  ∀ entry ∈ log, entry.2 = .allow →
    1 / maxPps ≤ asSecsF64 (now.durationSince entry.1)

def Rested (maxPps : ℚ) (limiter : RateLimiter) (now : Instant) : Prop :=
  1 ≤ limiter.tokens ∨
    1 / maxPps ≤ asSecsF64 (now.durationSince limiter.lastRefill)

private theorem one_le_refilled {maxPps : ℚ} (positive : 0 < maxPps)
    (holds : 1 / 2 ≤ maxPps) {limiter : RateLimiter}
    (metered : Metered maxPps limiter) (tokens_nonneg : 0 ≤ limiter.tokens)
    {now : Instant} (rested : limiter.Rested maxPps now) :
    1 ≤ limiter.refilled now := by
  have gained_nonneg :
      0 ≤ asSecsF64 (now.durationSince limiter.lastRefill) * maxPps :=
    mul_nonneg (div_nonneg (Nat.cast_nonneg _) (Nat.cast_nonneg _))
      positive.le
  rw [refilled, metered.maxPps_eq, metered.burst_eq]
  apply le_min
  · cases rested with
    | inl whole => linarith
    | inr waited =>
        have gained := (div_le_iff₀ positive).mp waited
        linarith
  · linarith

private theorem refilled_lt_one {maxPps : ℚ} (slow : maxPps < 1 / 2)
    {limiter : RateLimiter} (metered : Metered maxPps limiter)
    (now : Instant) : limiter.refilled now < 1 := by
  rw [refilled, metered.burst_eq]
  apply lt_of_le_of_lt (min_le_right _ _)
  linarith

private theorem not_shed_of_spaced {maxPps : ℚ} (positive : 0 < maxPps)
    (holds : 1 / 2 ≤ maxPps) {calls : List (Nat × Instant)}
    {limiter : RateLimiter} (metered : Metered maxPps limiter)
    (tokens_nonneg : 0 ≤ limiter.tokens) {now : Instant}
    (rested : limiter.Rested maxPps now)
    {before after : List (Instant × RateDecision)} {decision : RateDecision}
    (log : limiter.checkAll calls = before ++ (now, decision) :: after)
    (spaced : Spaced maxPps before now) : decision ≠ .throttled .rate := by
  -- The invariant of the induction: tokens are never negative, and a limiter
  -- without a whole token was last written when it allowed a packet.
  induction calls generalizing limiter before with
  | nil =>
      cases before <;> cases log
  | cons call calls ih =>
      obtain ⟨packetLen, moment⟩ := call
      have checked := limiter.checked_checkAt packetLen moment
      rw [checkAll] at log
      generalize limiter.checkAt packetLen moment = result at checked log
      cases before with
      | nil =>
          cases log
          intro shed
          cases checked with
          | short within short =>
              exact not_lt.mpr (one_le_refilled positive holds metered
                tokens_nonneg rested) short.2
          | overQuota exceeded => cases shed
          | allow within enough => cases shed
      | cons entry before =>
          obtain ⟨first, rest⟩ := List.cons.inj log
          have later : Spaced maxPps before now := fun entry member =>
            spaced entry (List.mem_cons_of_mem _ member)
          cases checked with
          | overQuota exceeded =>
              exact ih metered tokens_nonneg rested rest later
          | short within short =>
              exact ih metered tokens_nonneg rested rest later
          | allow within enough =>
              have counts : limiter.maxPps > 0 := by
                rw [metered.maxPps_eq]
                exact positive
              have full : 1 ≤ limiter.refilled moment :=
                not_lt.mp fun short => enough ⟨counts, short⟩
              have waited := spaced entry List.mem_cons_self
              rw [← first] at waited
              refine ih (metered.spent moment) ?_ (.inr ?_) rest later
              · simp only [spent, if_pos counts]
                exact sub_nonneg.mpr full
              · simp only [spent, if_pos counts]
                exact waited rfl

private theorem slow_limiter_sheds_first {maxPps : ℚ} (positive : 0 < maxPps)
    (slow : maxPps < 1 / 2) (created now : Instant) (packetLen : Nat) :
    (new maxPps 0 created).checkAll [(packetLen, now)] =
      [(now, .throttled .rate)] := by
  have metered := metered_new positive 0 created
  have counts : (new maxPps 0 created).maxPps > 0 := by
    rw [metered.maxPps_eq]
    exact positive
  have within : ¬(new maxPps 0 created).OverQuota now :=
    fun exceeded => UInt64.lt_irrefl 0 exceeded.1
  rw [checkAll, checkAt_of_short within
    ⟨counts, refilled_lt_one slow metered now⟩, checkAll]

/-- A limiter never sheds for rate what keeps to the rate exactly when its
burst, twice the rate, holds a whole token. -/
theorem spaced_never_shed_iff {maxPps : ℚ} (positive : 0 < maxPps) :
    (∀ (maxBytesPerDay : UInt64) (created : Instant)
        (calls : List (Nat × Instant)),
      (calls.map Prod.snd).Pairwise (· ≤ ·) →
      ∀ (before after : List (Instant × RateDecision)) (now : Instant)
        (decision : RateDecision),
        (new maxPps maxBytesPerDay created).checkAll calls =
            before ++ (now, decision) :: after →
          Spaced maxPps before now → decision ≠ .throttled .rate) ↔
      1 / 2 ≤ maxPps := by
  constructor
  · intro admits
    by_contra slow
    refine admits 0 0 [(0, 0)] (List.pairwise_singleton _ _) [] [] 0
      (.throttled .rate)
      (slow_limiter_sheds_first positive (not_le.mp slow) 0 0 0) ?_ rfl
    intro entry member
    exact absurd member List.not_mem_nil
  · intro holds maxBytesPerDay created calls _ before after now decision log
    have metered := metered_new positive maxBytesPerDay created
    have full : (new maxPps maxBytesPerDay created).tokens = maxPps * 2 :=
      metered.burst_eq
    apply not_shed_of_spaced positive holds metered _ (.inl _) log
    · rw [full]
      linarith
    · rw [full]
      linarith

theorem half_pps_never_shed :
    Spaced (1 / 2) [(0, .allow)] 2000000000 ∧
      ∀ decision, (new (1 / 2) 0 0).checkAll [(0, 0), (0, 2000000000)] =
          [(0, .allow), (2000000000, decision)] →
        decision ≠ .throttled .rate := by
  have spaced : Spaced (1 / 2) [(0, .allow)] 2000000000 := by
    intro entry member allowed
    cases List.mem_singleton.mp member
    norm_num [asSecsF64, Instant.durationSince, nanosPerSec]
  refine ⟨spaced, ?_⟩
  intro decision log
  exact (spaced_never_shed_iff (by norm_num : (0 : ℚ) < 1 / 2)).mpr le_rfl
    0 0 [(0, 0), (0, 2000000000)] (by decide) [(0, .allow)] [] 2000000000
    decision log spaced

/-- The first call on a limiter of a quarter of a packet a second. -/
theorem quarter_pps_sheds_first :
    Spaced (1 / 4) [] 0 ∧
      (new (1 / 4) 0 0).checkAll [(0, 0)] = [(0, .throttled .rate)] :=
  ⟨fun _ member => absurd member List.not_mem_nil,
    slow_limiter_sheds_first (by norm_num) (by norm_num) 0 0 0⟩

end RateLimiter

end GothamRelay
