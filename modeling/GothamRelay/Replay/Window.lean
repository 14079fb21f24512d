import GothamRelay.Replay.Alignment

namespace GothamRelay.ReplayCache

open Data
open Data.SlidingWindow

/-! The cache against its purpose: over any sequence of calls at non-decreasing
times it blocks exactly the keys in the sliding window of what it accepted. -/

def capacity (cache : ReplayCache) : Nat := max cache.maxSize 1

structure Refines (cache : ReplayCache) (log : Log Gamma) (now : Instant) :
    Prop where
  aligned : cache.Aligned
  chronological : Chronological log
  past : ∀ entry ∈ log, entry.2 ≤ now
  suffix : cache.queue <:+ log
  window_eq : ∀ later, now ≤ later →
    cache.queue.filter (live cache.ttl later) =
      window cache.capacity cache.ttl log later

theorem refines_new (maxSize : Nat) (ttl : Duration) (now : Instant) :
    Refines (new maxSize ttl) [] now where
  aligned := aligned_new maxSize ttl
  chronological := List.Pairwise.nil
  past := by simp
  suffix := List.suffix_refl _
  window_eq := by simp [new, window]

theorem Refines.later {cache : ReplayCache} {log : Log Gamma}
    {now later : Instant} (refines : Refines cache log now)
    (le : now ≤ later) : Refines cache log later where
  aligned := refines.aligned
  chronological := refines.chronological
  past := fun entry member => (refines.past entry member).trans le
  suffix := refines.suffix
  window_eq := fun instant le' => refines.window_eq instant (le.trans le')

theorem Refines.sweptQueue_eq {cache : ReplayCache} {log : Log Gamma}
    {now : Instant} (refines : Refines cache log now) :
    cache.sweptQueue now = window cache.capacity cache.ttl log now := by
  rw [sweptQueue, dropWhile_not_live
    (refines.chronological.sublist refines.suffix.sublist)]
  exact refines.window_eq now (Nat.le_refl now)

private theorem Refines.evictedQueue_filter {cache : ReplayCache}
    {log : Log Gamma} {now later : Instant} (refines : Refines cache log now)
    (le : now ≤ later) :
    (cache.evictedQueue now).filter (live cache.ttl later) =
      (log.rtake (cache.capacity - 1)).filter (live cache.ttl later) := by
  obtain ⟨spare, capacity_eq⟩ : ∃ spare, cache.capacity = spare + 1 :=
    ⟨cache.capacity - 1, by unfold capacity; omega⟩
  have evicted := @filter_live_evicted _ spare cache.ttl now later log
    refines.chronological le
  rw [capacity_eq, Nat.add_sub_cancel, ← evicted, evictedQueue,
    refines.sweptQueue_eq, capacity_eq]
  cases maxSize_eq : cache.maxSize with
  | zero =>
      have spare_eq : spare = 0 := by
        rw [capacity, maxSize_eq] at capacity_eq
        omega
      subst spare
      cases window (0 + 1) cache.ttl log now <;> simp
  | succ size =>
      have spare_eq : spare = size := by
        rw [capacity, maxSize_eq] at capacity_eq
        omega
      rw [spare_eq]

theorem Refines.insert {cache after : ReplayCache} {log : Log Gamma}
    {now : Instant} {key : Gamma} (refines : Refines cache log now)
    (queue_eq : after.queue = cache.evictedQueue now ++ [(key, now)])
    (ttl_eq : after.ttl = cache.ttl)
    (maxSize_eq : after.maxSize = cache.maxSize)
    (aligned : after.Aligned) :
    Refines after (log ++ [(key, now)]) now where
  aligned := aligned
  chronological := by
    rw [Chronological, List.pairwise_append]
    refine ⟨refines.chronological, List.pairwise_singleton _ _, ?_⟩
    intro entry member last lastMember
    rw [List.mem_singleton.mp lastMember]
    exact refines.past entry member
  past := by
    intro entry member
    rcases List.mem_append.mp member with member | member
    · exact refines.past entry member
    · rw [List.mem_singleton.mp member]
  suffix := by
    obtain ⟨dropped, whole⟩ :=
      (cache.evictedQueue_suffix now).trans refines.suffix
    exact ⟨dropped, by rw [queue_eq, ← List.append_assoc, whole]⟩
  window_eq := by
    intro later le
    have capacity_eq : after.capacity = cache.capacity - 1 + 1 := by
      simp only [capacity, maxSize_eq]
      omega
    rw [queue_eq, ttl_eq, capacity_eq, window, List.rtake_concat_succ,
      List.filter_append, List.filter_append,
      refines.evictedQueue_filter le]

theorem Refines.sweepExpired {cache : ReplayCache} {log : Log Gamma}
    {now : Instant} (refines : Refines cache log now) :
    Refines (cache.sweepExpired now) log now where
  aligned := refines.aligned.sweepExpired now
  chronological := refines.chronological
  past := refines.past
  suffix := by
    rw [sweepExpired_queue]
    exact (cache.sweptQueue_suffix now).trans refines.suffix
  window_eq := by
    intro later le
    rw [sweepExpired_queue, sweepExpired_ttl, refines.sweptQueue_eq, window,
      filter_live_filter_live le]
    rfl

/-- One call against the abstract log: it answers `Replay` exactly when the
key is blocked, and only an accepted key extends the log. -/
theorem Refines.checkAndInsertAt {cache : ReplayCache} {log : Log Gamma}
    {now : Instant} (refines : Refines cache log now) (key : Gamma) :
    (Blocked cache.capacity cache.ttl log key now ∧
      ∃ after, cache.checkAndInsertAt key now = (.replay, after) ∧
        after.ttl = cache.ttl ∧ after.maxSize = cache.maxSize ∧
        Refines after log now) ∨
    (¬ Blocked cache.capacity cache.ttl log key now ∧
      ∃ after, cache.checkAndInsertAt key now = (.fresh, after) ∧
        after.ttl = cache.ttl ∧ after.maxSize = cache.maxSize ∧
        Refines after (log ++ [(key, now)]) now) := by
  rcases checkAndInsertAt_cases refines.aligned key now with
    ⟨queued, checked⟩ |
      ⟨unqueued, after, checked, queue_eq, ttl_eq, maxSize_eq, aligned⟩
  · rw [refines.sweptQueue_eq] at queued
    exact Or.inl ⟨queued, _, checked, rfl, rfl, refines.sweepExpired⟩
  · rw [refines.sweptQueue_eq] at unqueued
    exact Or.inr ⟨unqueued, after, checked, ttl_eq, maxSize_eq,
      refines.insert queue_eq ttl_eq maxSize_eq aligned⟩

def history (cache : ReplayCache) (calls : List (Gamma × Instant)) :
    List ((Gamma × Instant) × ReplayCheck) :=
  calls.zip (cache.checkAll calls).1

def accepted (history : List ((Gamma × Instant) × ReplayCheck)) : Log Gamma :=
  (history.filter fun call => call.2 = .fresh).map Prod.fst

@[simp] theorem accepted_nil : accepted [] = [] := rfl

@[simp] theorem accepted_cons_fresh (call : Gamma × Instant)
    (rest : List ((Gamma × Instant) × ReplayCheck)) :
    accepted ((call, .fresh) :: rest) = call :: accepted rest := by
  simp [accepted]

@[simp] theorem accepted_cons_replay (call : Gamma × Instant)
    (rest : List ((Gamma × Instant) × ReplayCheck)) :
    accepted ((call, .replay) :: rest) = accepted rest := by
  simp [accepted]

theorem accepted_append (first second :
    List ((Gamma × Instant) × ReplayCheck)) :
    accepted (first ++ second) = accepted first ++ accepted second := by
  simp [accepted]

@[simp] theorem history_nil (cache : ReplayCache) : cache.history [] = [] :=
  rfl

@[simp] theorem history_cons (cache : ReplayCache) (key : Gamma)
    (now : Instant) (calls : List (Gamma × Instant)) :
    cache.history ((key, now) :: calls) =
      ((key, now), (cache.checkAndInsertAt key now).1) ::
        (cache.checkAndInsertAt key now).2.history calls := rfl

theorem mem_of_history_eq {cache : ReplayCache}
    {calls : List (Gamma × Instant)}
    {before after : List ((Gamma × Instant) × ReplayCheck)}
    {call : Gamma × Instant} {verdict : ReplayCheck}
    (split : cache.history calls = before ++ (call, verdict) :: after) :
    call ∈ calls := by
  have member : (call, verdict) ∈ cache.history calls := by simp [split]
  exact (List.of_mem_zip member).1

theorem mem_accepted_iff {history : List ((Gamma × Instant) × ReplayCheck)}
    {call : Gamma × Instant} :
    call ∈ accepted history ↔ (call, .fresh) ∈ history := by
  simp [accepted]

private theorem accepted_split {calls : List ((Gamma × Instant) × ReplayCheck)}
    {before after : Log Gamma} {call : Gamma × Instant} :
    accepted calls = before ++ call :: after ↔
      ∃ earlier between, calls = earlier ++ (call, .fresh) :: between ∧
        accepted earlier = before ∧ accepted between = after := by
  constructor
  · intro split
    induction calls generalizing before with
    | nil => cases before <;> cases split
    | cons head rest ih =>
        obtain ⟨headCall, verdict⟩ := head
        cases verdict with
        | fresh =>
            rw [accepted_cons_fresh] at split
            cases before with
            | nil =>
                obtain ⟨rfl, rfl⟩ := List.cons.inj split
                exact ⟨[], rest, rfl, rfl, rfl⟩
            | cons first before =>
                obtain ⟨rfl, rest_eq⟩ := List.cons.inj split
                obtain ⟨earlier, between, rfl, rfl, rfl⟩ := ih rest_eq
                exact ⟨(headCall, .fresh) :: earlier, between, rfl,
                  accepted_cons_fresh _ _, rfl⟩
        | replay =>
            rw [accepted_cons_replay] at split
            obtain ⟨earlier, between, rfl, rfl, rfl⟩ := ih split
            exact ⟨(headCall, .replay) :: earlier, between, rfl,
              accepted_cons_replay _ _, rfl⟩
  · rintro ⟨earlier, between, rfl, rfl, rfl⟩
    rw [accepted_append, accepted_cons_fresh]

/-- The cache after a whole run refines the log of what the run accepted. -/
theorem Refines.checkAll {cache : ReplayCache} {log : Log Gamma}
    {now finish : Instant} {calls : List (Gamma × Instant)}
    (refines : Refines cache log now) (ordered : Chronological calls)
    (future : ∀ call ∈ calls, now ≤ call.2)
    (le : now ≤ finish) (past : ∀ call ∈ calls, call.2 ≤ finish) :
    Refines (cache.checkAll calls).2 (log ++ accepted (cache.history calls))
        finish ∧
      (cache.checkAll calls).2.ttl = cache.ttl ∧
      (cache.checkAll calls).2.maxSize = cache.maxSize := by
  induction calls generalizing cache log now with
  | nil =>
      rw [history_nil, accepted_nil, List.append_nil]
      exact ⟨refines.later le, rfl, rfl⟩
  | cons call calls ih =>
      obtain ⟨key, time⟩ := call
      obtain ⟨later, ordered⟩ := List.pairwise_cons.mp ordered
      have current := refines.later (future (key, time) List.mem_cons_self)
      have past' : ∀ call ∈ calls, call.2 ≤ finish := fun call member =>
        past call (List.mem_cons_of_mem _ member)
      have time_le : time ≤ finish := past (key, time) List.mem_cons_self
      rw [history_cons]
      change Refines ((cache.checkAndInsertAt key time).2.checkAll calls).2 _ _
        ∧ ((cache.checkAndInsertAt key time).2.checkAll calls).2.ttl = _ ∧
          ((cache.checkAndInsertAt key time).2.checkAll calls).2.maxSize = _
      rcases current.checkAndInsertAt key with
        ⟨_, after, checked, ttl_eq, maxSize_eq, refined⟩ |
          ⟨_, after, checked, ttl_eq, maxSize_eq, refined⟩
      · rw [checked, accepted_cons_replay, ← ttl_eq, ← maxSize_eq]
        exact ih refined ordered later time_le past'
      · rw [checked, accepted_cons_fresh, ← ttl_eq, ← maxSize_eq,
          List.append_cons]
        exact ih refined ordered later time_le past'

/-- Every verdict of a run is the abstract one: blocked by the window of the
log as it stood before that call. -/
theorem Refines.verdict_iff {cache : ReplayCache} {log : Log Gamma}
    {now : Instant} {calls : List (Gamma × Instant)}
    (refines : Refines cache log now) (ordered : Chronological calls)
    (future : ∀ call ∈ calls, now ≤ call.2)
    {earlier later : List ((Gamma × Instant) × ReplayCheck)}
    {key : Gamma} {time : Instant} {verdict : ReplayCheck}
    (split : cache.history calls =
      earlier ++ ((key, time), verdict) :: later) :
    verdict = .replay ↔
      Blocked cache.capacity cache.ttl (log ++ accepted earlier) key time := by
  induction calls generalizing cache log now earlier with
  | nil => cases earlier <;> cases split
  | cons call calls ih =>
      obtain ⟨headKey, headTime⟩ := call
      obtain ⟨newer, ordered⟩ := List.pairwise_cons.mp ordered
      have current :=
        refines.later (future (headKey, headTime) List.mem_cons_self)
      rw [history_cons] at split
      rcases current.checkAndInsertAt headKey with
        ⟨blocked, after, checked, ttl_eq, maxSize_eq, refined⟩ |
          ⟨admitted, after, checked, ttl_eq, maxSize_eq, refined⟩
      · rw [checked] at split
        cases earlier with
        | nil =>
            obtain ⟨head_eq, _⟩ := List.cons.inj split
            cases head_eq
            rw [accepted_nil, List.append_nil]
            exact ⟨fun _ => blocked, fun _ => rfl⟩
        | cons first earlier =>
            obtain ⟨rfl, rest_eq⟩ := List.cons.inj split
            rw [accepted_cons_replay]
            have verdict_iff := ih refined ordered newer rest_eq
            rwa [capacity, maxSize_eq, ttl_eq] at verdict_iff
      · rw [checked] at split
        cases earlier with
        | nil =>
            obtain ⟨head_eq, _⟩ := List.cons.inj split
            cases head_eq
            rw [accepted_nil, List.append_nil]
            exact ⟨fun verdict => (nomatch verdict),
              fun blocked => absurd blocked admitted⟩
        | cons first earlier =>
            obtain ⟨rfl, rest_eq⟩ := List.cons.inj split
            rw [accepted_cons_fresh, List.append_cons]
            have verdict_iff := ih refined ordered newer rest_eq
            rwa [capacity, maxSize_eq, ttl_eq] at verdict_iff

/-- A call returns `Replay` exactly when an earlier call with the same key
returned `Fresh` at most `ttl` before, with fewer than `max(max_size, 1)`
calls that returned `Fresh` strictly between the two. -/
theorem replay_iff_accepted_in_window (maxSize : Nat) (ttl : Duration)
    (calls : List (Gamma × Instant))
    (ordered : calls.Pairwise fun first second => first.2 ≤ second.2)
    (earlier later : List ((Gamma × Instant) × ReplayCheck))
    (key : Gamma) (time : Instant) (verdict : ReplayCheck)
    (split : (new maxSize ttl).history calls =
      earlier ++ ((key, time), verdict) :: later) :
    verdict = .replay ↔
      ∃ before acceptedAt between,
        earlier = before ++ ((key, acceptedAt), .fresh) :: between ∧
        time - acceptedAt ≤ ttl ∧
        (between.filter fun call => call.2 = .fresh).length <
          max maxSize 1 := by
  have verdict_iff := (refines_new maxSize ttl 0).verdict_iff ordered
    (fun call _ => Nat.zero_le call.2) split
  rw [verdict_iff, List.nil_append, blocked_iff]
  constructor
  · rintro ⟨before, acceptedAt, after, log_eq, short, recent⟩
    obtain ⟨earlier', between, rfl, rfl, rfl⟩ := accepted_split.mp log_eq
    rw [accepted, List.length_map] at short
    exact ⟨earlier', acceptedAt, between, rfl, recent, short⟩
  · rintro ⟨before, acceptedAt, between, rfl, recent, short⟩
    refine ⟨accepted before, acceptedAt, accepted between,
      accepted_split.mpr ⟨before, between, rfl, rfl, rfl⟩, ?_, recent⟩
    rw [accepted, List.length_map]
    exact short

theorem replay_after_one_acceptance_between :
    (new 2 10).history [(.replicate 16 1, 0), (.replicate 16 2, 3),
        (.replicate 16 1, 10)] =
      [((.replicate 16 1, 0), .fresh), ((.replicate 16 2, 3), .fresh)] ++
        ((.replicate 16 1, 10), .replay) :: [] ∧
    ∃ before acceptedAt between,
      [((Bytes.replicate 16 1, 0), ReplayCheck.fresh),
        ((Bytes.replicate 16 2, 3), .fresh)] =
        before ++ ((Bytes.replicate 16 1, acceptedAt), .fresh) :: between ∧
      10 - acceptedAt ≤ 10 ∧
      (between.filter fun call => call.2 = .fresh).length < max 2 1 :=
  ⟨by decide, (replay_iff_accepted_in_window 2 10
    [(.replicate 16 1, 0), (.replicate 16 2, 3), (.replicate 16 1, 10)]
    (by decide) _ [] _ 10 .replay (by decide)).mp rfl⟩

end GothamRelay.ReplayCache
