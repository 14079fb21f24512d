import GothamRelay.Data.IndexedQueue
import GothamRelay.Data.SlidingWindow
import GothamRelay.Replay.Cache

namespace GothamRelay.ReplayCache

open Data
open Data.SlidingWindow

/-! What one call does to the queue. The map is only an index of it, so that
every later argument is about the queue. -/

def Aligned (cache : ReplayCache) : Prop := Indexes cache.map cache.queue

theorem aligned_new (maxSize : Nat) (ttl : Duration) :
    (new maxSize ttl).Aligned :=
  Indexes.empty

theorem Aligned.len_eq {cache : ReplayCache} (aligned : cache.Aligned) :
    cache.len = cache.queue.length :=
  aligned.length_keys

private theorem sweep_fst (ttl : Duration) (now : Instant)
    (queue : List (Gamma × Instant)) (map : AList fun _ : Gamma => Instant) :
    (sweep ttl now queue map).1 =
      queue.dropWhile fun entry => !live ttl now entry := by
  induction queue generalizing map with
  | nil => rfl
  | cons entry rest ih =>
      by_cases expired : now.durationSince entry.2 > ttl
      · have stale : live ttl now entry = false := by
          rw [← Bool.not_eq_true, live_iff]
          exact Nat.not_le.mpr expired
        simp only [sweep, if_pos expired, List.dropWhile_cons, stale, ih,
          Bool.not_false, if_true]
      · have fresh : live ttl now entry = true :=
          live_iff.mpr (Nat.not_lt.mp expired)
        simp only [sweep, if_neg expired, List.dropWhile_cons, fresh,
          Bool.not_true, Bool.false_eq_true, if_false]

private theorem indexes_sweep (ttl : Duration) (now : Instant)
    {queue : List (Gamma × Instant)} {map : AList fun _ : Gamma => Instant}
    (indexes : Indexes map queue) :
    Indexes (sweep ttl now queue map).2 (sweep ttl now queue map).1 := by
  induction queue generalizing map with
  | nil => exact indexes
  | cons entry rest ih =>
      by_cases expired : now.durationSince entry.2 > ttl
      · simp only [sweep, if_pos expired]
        exact ih indexes.eraseFront
      · simp only [sweep, if_neg expired]
        exact indexes

theorem mem_of_mem_sweep (ttl : Duration) (now : Instant)
    (queue : List (Gamma × Instant)) {map : AList fun _ : Gamma => Instant}
    {key : Gamma} (member : key ∈ (sweep ttl now queue map).2) :
    key ∈ map := by
  induction queue generalizing map with
  | nil => exact member
  | cons entry rest ih =>
      by_cases expired : now.durationSince entry.2 > ttl
      · simp only [sweep, if_pos expired] at member
        exact (AList.mem_erase.mp (ih member)).2
      · simp only [sweep, if_neg expired] at member
        exact member

/-- Whatever state the cache is in, a key it does not hold is fresh. -/
theorem checkAndInsertAt_of_notMem {cache : ReplayCache} {key : Gamma}
    (absent : key ∉ cache.map) (now : Instant) :
    (cache.checkAndInsertAt key now).1 = .fresh := by
  have stillAbsent : key ∉ (cache.sweepExpired now).map :=
    fun member => absent (mem_of_mem_sweep _ _ _ member)
  rw [checkAndInsertAt, if_neg stillAbsent]

def sweptQueue (cache : ReplayCache) (now : Instant) :
    List (Gamma × Instant) :=
  cache.queue.dropWhile fun entry => !live cache.ttl now entry

@[simp] theorem sweepExpired_queue (cache : ReplayCache) (now : Instant) :
    (cache.sweepExpired now).queue = cache.sweptQueue now :=
  sweep_fst cache.ttl now cache.queue cache.map

@[simp] theorem sweepExpired_maxSize (cache : ReplayCache) (now : Instant) :
    (cache.sweepExpired now).maxSize = cache.maxSize := rfl

@[simp] theorem sweepExpired_ttl (cache : ReplayCache) (now : Instant) :
    (cache.sweepExpired now).ttl = cache.ttl := rfl

theorem Aligned.sweepExpired {cache : ReplayCache} (aligned : cache.Aligned)
    (now : Instant) : (cache.sweepExpired now).Aligned :=
  indexes_sweep cache.ttl now aligned

@[simp] theorem popFront_queue (cache : ReplayCache) :
    cache.popFront.queue = cache.queue.tail := by
  unfold popFront
  split <;> simp [*]

@[simp] theorem popFront_maxSize (cache : ReplayCache) :
    cache.popFront.maxSize = cache.maxSize := by
  unfold popFront
  split <;> rfl

@[simp] theorem popFront_ttl (cache : ReplayCache) :
    cache.popFront.ttl = cache.ttl := by
  unfold popFront
  split <;> rfl

theorem Aligned.popFront {cache : ReplayCache} (aligned : cache.Aligned) :
    cache.popFront.Aligned := by
  unfold ReplayCache.popFront
  split
  · exact aligned
  · rename_i key ts rest queue_eq
    rw [Aligned, queue_eq] at aligned
    exact aligned.eraseFront

theorem Aligned.pushBack {cache : ReplayCache} (aligned : cache.Aligned)
    {key : Gamma} (absent : key ∉ cache.map) (ts : Instant) :
    (cache.pushBack key ts).Aligned :=
  aligned.insertBack absent ts

def evictedQueue (cache : ReplayCache) (now : Instant) :
    List (Gamma × Instant) :=
  if cache.maxSize ≤ (cache.sweptQueue now).length then
    (cache.sweptQueue now).tail
  else
    cache.sweptQueue now

theorem sweptQueue_suffix (cache : ReplayCache) (now : Instant) :
    cache.sweptQueue now <:+ cache.queue :=
  List.dropWhile_suffix _

theorem evictedQueue_suffix_sweptQueue (cache : ReplayCache) (now : Instant) :
    cache.evictedQueue now <:+ cache.sweptQueue now := by
  rw [evictedQueue]
  split
  · exact List.tail_suffix _
  · exact List.suffix_refl _

theorem evictedQueue_suffix (cache : ReplayCache) (now : Instant) :
    cache.evictedQueue now <:+ cache.queue :=
  (cache.evictedQueue_suffix_sweptQueue now).trans
    (cache.sweptQueue_suffix now)

/-- Everything `check_and_insert_at` can do to an aligned cache. -/
theorem checkAndInsertAt_cases {cache : ReplayCache}
    (aligned : cache.Aligned) (key : Gamma) (now : Instant) :
    (key ∈ (cache.sweptQueue now).map Prod.fst ∧
      cache.checkAndInsertAt key now = (.replay, cache.sweepExpired now)) ∨
    (key ∉ (cache.sweptQueue now).map Prod.fst ∧
      ∃ after, cache.checkAndInsertAt key now = (.fresh, after) ∧
        after.queue = cache.evictedQueue now ++ [(key, now)] ∧
        after.ttl = cache.ttl ∧ after.maxSize = cache.maxSize ∧
        after.Aligned) := by
  have swept := aligned.sweepExpired now
  have mem_iff := swept.mem_iff key
  rw [sweepExpired_queue] at mem_iff
  by_cases member : key ∈ (cache.sweepExpired now).map
  · refine Or.inl ⟨mem_iff.mp member, ?_⟩
    simp only [checkAndInsertAt, if_pos member]
  · refine Or.inr ⟨fun queued => member (mem_iff.mpr queued), ?_⟩
    simp only [checkAndInsertAt, if_neg member, swept.len_eq,
      sweepExpired_queue, sweepExpired_maxSize, ge_iff_le]
    by_cases full : cache.maxSize ≤ (cache.sweptQueue now).length
    · have absent : key ∉ (cache.sweepExpired now).popFront.map := by
        rw [swept.popFront.mem_iff, popFront_queue, sweepExpired_queue]
        intro queued
        exact member (mem_iff.mpr
          (List.map_subset _ (List.tail_sublist _).subset queued))
      refine ⟨_, rfl, ?_, ?_, ?_, ?_⟩
      · simp [pushBack, evictedQueue, full]
      · simp [pushBack, full]
      · simp [pushBack, full]
      · simp only [if_pos full]
        exact swept.popFront.pushBack absent now
    · refine ⟨_, rfl, ?_, ?_, ?_, ?_⟩
      · simp [pushBack, evictedQueue, full]
      · simp [pushBack, full]
      · simp [pushBack, full]
      · simp only [if_neg full]
        exact swept.pushBack member now

end GothamRelay.ReplayCache
