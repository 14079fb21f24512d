import GothamRelay.RateLimit.Bucket

namespace GothamRelay.RateLimiter

/-! The daily quota. A window begins with the first packet that is allowed
24 hours or more after the last one began, so that two of them can meet inside
24 hours, and no three. -/

structure Budgeted (maxBytesPerDay : UInt64) (limiter : RateLimiter) :
    Prop where
  quota_eq : limiter.maxBytesPerDay = maxBytesPerDay
  used_le : limiter.bytesUsed.toNat ≤ maxBytesPerDay.toNat

private theorem budgeted_new (maxPps : ℚ) (maxBytesPerDay : UInt64)
    (created : Instant) :
    Budgeted maxBytesPerDay (new maxPps maxBytesPerDay created) :=
  ⟨rfl, Nat.zero_le _⟩

inductive Billed (limiter : RateLimiter) (now : Instant) :
    RateDecision × RateLimiter → Prop where
  | refused (reason : ThrottleReason) :
      Billed limiter now (.throttled reason, limiter)
  | charged {after : RateLimiter}
      (used : after.bytesUsed.toNat =
        limiter.bytesUsed.toNat + wireBytesPerPacket.toNat)
      (same : after.windowStart = limiter.windowStart) :
      Billed limiter now (.allow, after)
  | renewed {after : RateLimiter}
      (ended : limiter.windowStart + quotaWindow ≤ now)
      (used : after.bytesUsed.toNat = wireBytesPerPacket.toNat)
      (start : after.windowStart = now) :
      Billed limiter now (.allow, after)

private theorem toNat_saturatingAdd_of_le {left right bound : UInt64}
    (finite : bound.toNat + 1 < UInt64.size)
    (fits : saturatingAdd left right ≤ bound) :
    (saturatingAdd left right).toNat = left.toNat + right.toNat := by
  apply toNat_saturatingAdd
  apply Classical.byContradiction
  intro large
  rw [UInt64.le_iff_toNat_le, saturatingAdd, if_neg large] at fits
  have top : (UInt64.ofNat (UInt64.size - 1)).toNat = UInt64.size - 1 := rfl
  omega

private theorem windowElapsed_iff {limiter : RateLimiter} {now : Instant}
    (positive : 0 < limiter.maxBytesPerDay) :
    limiter.windowElapsed now = true ↔
      limiter.windowStart + quotaWindow ≤ now := by
  have shift (start window moment : Nat) (long : 0 < window) :
      window ≤ moment - start ↔ start + window ≤ moment := by
    omega
  rw [← shift _ quotaWindow now (by decide)]
  simp only [windowElapsed, Instant.durationSince, decide_eq_true_eq,
    ge_iff_le, gt_iff_lt, positive, true_and]

theorem Budgeted.checked {maxBytesPerDay : UInt64}
    (positive : 0 < maxBytesPerDay)
    (finite : maxBytesPerDay.toNat + 1 < UInt64.size)
    {limiter : RateLimiter} (budgeted : Budgeted maxBytesPerDay limiter)
    {now : Instant} {result : RateDecision × RateLimiter}
    (checked : limiter.Checked now result) :
    limiter.Billed now result ∧ Budgeted maxBytesPerDay result.2 := by
  obtain ⟨rfl, used_le⟩ := budgeted
  cases checked with
  | overQuota exceeded => exact ⟨.refused _, rfl, used_le⟩
  | short within short => exact ⟨.refused _, rfl, used_le⟩
  | allow within enough =>
      have fits : limiter.chargedBytes now ≤ limiter.maxBytesPerDay :=
        UInt64.not_lt.mp fun exceeded => within ⟨positive, exceeded⟩
      have used : (limiter.spent now).bytesUsed =
          limiter.chargedBytes now :=
        if_pos positive
      have sum_eq : (limiter.chargedBytes now).toNat = _ :=
        toNat_saturatingAdd_of_le finite fits
      refine ⟨?_, rfl, ?_⟩
      · cases ended : limiter.windowElapsed now with
        | true =>
            apply Billed.renewed ((windowElapsed_iff positive).mp ended)
            · rw [used, sum_eq, ended]
              rfl
            · exact if_pos ⟨positive, ended⟩
        | false =>
            apply Billed.charged
            · rw [used, sum_eq, ended]
              rfl
            · simp [spent, ended]
      · rw [used]
        exact UInt64.le_iff_toNat_le.mp fits

section Window

open Data

variable {maxBytesPerDay : UInt64} (positive : 0 < maxBytesPerDay)
  (finite : maxBytesPerDay.toNat + 1 < UInt64.size)
  {calls : List (Nat × Instant)} {start stop : Instant}

private theorem allowed_of_late (limiter : RateLimiter)
    (late : ∀ time ∈ calls.map Prod.snd, stop < time) :
    (limiter.checkAll calls).countP (allowedIn start stop) = 0 := by
  rw [countP_allowedIn]
  apply Bucket.countP_takes_of_late
  rw [List.map_map]
  change ∀ time ∈ (limiter.checkAll calls).map Prod.fst, stop < time
  rw [checkAll_times]
  exact late

private theorem countP_checkAll_cons_le (limiter : RateLimiter)
    (calls : List (Nat × Instant)) (start stop : Instant) (packetLen : Nat)
    (now : Instant) :
    (limiter.checkAll ((packetLen, now) :: calls)).countP
        (allowedIn start stop) ≤
      ((limiter.checkAt packetLen now).2.checkAll calls).countP
          (allowedIn start stop) +
        (if (limiter.checkAt packetLen now).1.isAllowed then 1 else 0) := by
  rw [checkAll, countP_allowedIn, countP_allowedIn, List.map_cons]
  exact Bucket.countP_takes_cons_le _ _ start stop

include positive finite in
private theorem allowed_le_left
    (ordered : (calls.map Prod.snd).Pairwise (· ≤ ·))
    (start : Instant) {limiter : RateLimiter}
    (budgeted : Budgeted maxBytesPerDay limiter)
    (running : stop < limiter.windowStart + quotaWindow) :
    (limiter.checkAll calls).countP (allowedIn start stop) *
        wireBytesPerPacket.toNat + limiter.bytesUsed.toNat ≤
      maxBytesPerDay.toNat := by
  induction calls generalizing limiter with
  | nil =>
      rw [checkAll, List.countP_nil, Nat.zero_mul, Nat.zero_add]
      exact budgeted.used_le
  | cons call calls ih =>
      obtain ⟨packetLen, moment⟩ := call
      obtain ⟨first, later⟩ := List.pairwise_cons.mp ordered
      cases Nat.lt_or_ge stop moment with
      | inl late =>
          rw [allowed_of_late, Nat.zero_mul, Nat.zero_add]
          · exact budgeted.used_le
          · exact List.forall_mem_cons.mpr ⟨late, fun time rest =>
              Nat.lt_of_lt_of_le late (first time rest)⟩
      | inr inside =>
          have counted := limiter.countP_checkAll_cons_le calls start stop
            packetLen moment
          obtain ⟨billed, kept⟩ := budgeted.checked positive finite
            (limiter.checked_checkAt packetLen moment)
          generalize limiter.checkAt packetLen moment = result at *
          cases billed with
          | refused reason =>
              have rest := ih later budgeted running
              have unbilled := Nat.mul_le_mul_right wireBytesPerPacket.toNat
                counted
              exact Nat.le_trans (Nat.add_le_add_right unbilled _) rest
          | charged used same =>
              have rest := ih later kept (by rwa [same])
              have billed := Nat.mul_le_mul_right wireBytesPerPacket.toNat
                counted
              simp only [RateDecision.isAllowed, if_true, Nat.add_mul,
                Nat.one_mul] at billed
              simp only [used] at rest
              omega
          | renewed ended used begun =>
              exact absurd (Nat.le_trans ended inside)
                (Nat.not_le.mpr running)

include positive finite in
private theorem allowed_le_twice
    (ordered : (calls.map Prod.snd).Pairwise (· ≤ ·))
    (future : ∀ time ∈ calls.map Prod.snd, start ≤ time)
    (brief : stop < start + quotaWindow) {limiter : RateLimiter}
    (budgeted : Budgeted maxBytesPerDay limiter) :
    (limiter.checkAll calls).countP (allowedIn start stop) *
        wireBytesPerPacket.toNat + limiter.bytesUsed.toNat ≤
      2 * maxBytesPerDay.toNat := by
  -- From the first instant of the interval on, the window it finds may end
  -- once, and the next one then outlasts the interval.
  induction calls generalizing limiter with
  | nil =>
      rw [checkAll, List.countP_nil, Nat.zero_mul, Nat.zero_add]
      have used_le := budgeted.used_le
      omega
  | cons call calls ih =>
      obtain ⟨packetLen, moment⟩ := call
      obtain ⟨first, later⟩ := List.pairwise_cons.mp ordered
      have counted := limiter.countP_checkAll_cons_le calls start stop
        packetLen moment
      obtain ⟨billed, kept⟩ := budgeted.checked positive finite
        (limiter.checked_checkAt packetLen moment)
      have next : ∀ time ∈ calls.map Prod.snd, start ≤ time :=
        fun time member => future time (List.mem_cons_of_mem _ member)
      have bytes := Nat.mul_le_mul_right wireBytesPerPacket.toNat counted
      generalize limiter.checkAt packetLen moment = result at *
      cases billed with
      | refused reason =>
          exact Nat.le_trans (Nat.add_le_add_right bytes _)
            (ih later next budgeted)
      | charged used same =>
          have rest := ih later next kept
          simp only [RateDecision.isAllowed, if_true, Nat.add_mul,
            Nat.one_mul] at bytes
          simp only [used] at rest
          omega
      | @renewed after ended used begun =>
          have running : stop < after.windowStart + quotaWindow := by
            rw [begun]
            exact Nat.lt_of_lt_of_le brief
              (Nat.add_le_add_right (future moment List.mem_cons_self) _)
          have rest := allowed_le_left positive finite later start kept
            running
          have used_le := budgeted.used_le
          simp only [RateDecision.isAllowed, if_true, Nat.add_mul,
            Nat.one_mul] at bytes
          simp only [used] at rest
          omega

end Window

theorem daily_quota_at_most_doubles {maxBytesPerDay : UInt64}
    (positive : 0 < maxBytesPerDay)
    (finite : maxBytesPerDay.toNat + 1 < UInt64.size) (maxPps : ℚ)
    (created : Instant) {calls : List (Nat × Instant)}
    (ordered : (calls.map Prod.snd).Pairwise (· ≤ ·)) {start stop : Instant}
    (brief : stop < start + quotaWindow) :
    ((new maxPps maxBytesPerDay created).checkAll calls).countP
        (allowedIn start stop) * wireBytesPerPacket.toNat ≤
      2 * maxBytesPerDay.toNat := by
  have budgeted := budgeted_new maxPps maxBytesPerDay created
  generalize new maxPps maxBytesPerDay created = limiter at budgeted
  -- Calls before the interval count for nothing, whatever they leave.
  induction calls generalizing limiter with
  | nil =>
      rw [checkAll, List.countP_nil, Nat.zero_mul]
      exact Nat.zero_le _
  | cons call calls ih =>
      obtain ⟨packetLen, moment⟩ := call
      obtain ⟨first, later⟩ := List.pairwise_cons.mp ordered
      cases Nat.lt_or_ge moment start with
      | inl early =>
          have kept := (budgeted.checked positive finite
            (limiter.checked_checkAt packetLen moment)).2
          have uncounted : allowedIn start stop
              (moment, (limiter.checkAt packetLen moment).1) = false := by
            simp only [allowedIn, Nat.not_le.mpr early, decide_false,
              Bool.and_false, Bool.false_and]
          rw [checkAll, List.countP_cons, uncounted]
          exact ih later _ kept
      | inr inside =>
          have future : ∀ time ∈ ((packetLen, moment) :: calls).map Prod.snd,
              start ≤ time :=
            List.forall_mem_cons.mpr ⟨inside, fun time rest =>
              Nat.le_trans inside (first time rest)⟩
          exact Nat.le_of_add_right_le
            (allowed_le_twice positive finite ordered future brief budgeted)

/-- A window of one packet: its packet comes just before the next window, which
has one of its own. -/
def meetingWindows : List (Nat × Instant) :=
  [(2048, quotaWindow - 1), (2048, quotaWindow)]

theorem meetingWindows_at_most_doubles :
    ((new 0 2064 0).checkAll meetingWindows).countP
        (allowedIn (quotaWindow - 1) quotaWindow) *
          wireBytesPerPacket.toNat ≤ 2 * (2064 : UInt64).toNat :=
  daily_quota_at_most_doubles (by decide) (by decide) 0 0 (by decide)
    (by decide)

private theorem checkAt_of_largest_quota {limiter : RateLimiter}
    (unmetered : limiter.maxPps = 0)
    (largest : limiter.maxBytesPerDay.toNat = UInt64.size - 1)
    (packetLen : Nat) (now : Instant) :
    limiter.checkAt packetLen now = (.allow, limiter.spent now) := by
  apply checkAt_of_enough
  · intro exceeded
    have above := UInt64.lt_iff_toNat_lt.mp exceeded.2
    have top := (limiter.chargedBytes now).toNat_lt_size
    rw [largest] at above
    omega
  · intro short
    have positive := short.1
    rw [unmetered] at positive
    exact absurd positive (lt_irrefl 0)

private theorem checkAll_of_largest_quota {limiter : RateLimiter}
    (unmetered : limiter.maxPps = 0)
    (largest : limiter.maxBytesPerDay.toNat = UInt64.size - 1)
    (packets : Nat) (now : Instant) :
    (limiter.checkAll (List.replicate packets (2048, now))).countP
      (allowedIn now now) = packets := by
  induction packets generalizing limiter with
  | zero => rfl
  | succ packets ih =>
      rw [List.replicate_succ, checkAll,
        checkAt_of_largest_quota unmetered largest]
      have counts : allowedIn now now (now, RateDecision.allow) = true := by
        simp [allowedIn, RateDecision.isAllowed]
      rw [List.countP_cons_of_pos counts, ih]
      · exact unmetered
      · exact largest

theorem daily_quota_exceeded_within_a_day :
    (((new 0 2064 0).checkAll meetingWindows).countP
        (allowedIn (quotaWindow - 1) quotaWindow) *
          wireBytesPerPacket.toNat = 2 * (2064 : UInt64).toNat ∧
      quotaWindow < quotaWindow - 1 + quotaWindow) ∧
    ∃ packets, 2 * (UInt64.size - 1) <
      ((new 0 18446744073709551615 0).checkAll
        (List.replicate packets (2048, 0))).countP (allowedIn 0 0) *
          wireBytesPerPacket.toNat := by
  refine ⟨⟨by decide +kernel, by decide⟩, UInt64.size, ?_⟩
  rw [checkAll_of_largest_quota (by decide +kernel) rfl]
  decide

end GothamRelay.RateLimiter
