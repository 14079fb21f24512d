import GothamRelay.Replay.Restore

namespace GothamRelay.ReplayCache

open Data
open Data.SlidingWindow

/-! Caches reached by any calls, at instants in any order and with entries to
restore that need not have come from a cache. -/

inductive Call where
  | check (key : Gamma) (now : Instant)
  | restore (entries : List (Gamma × UInt64)) (now : Instant)
      (nowUnix : UInt64)

def call (cache : ReplayCache) : Call → ReplayCache
  | .check key now => (cache.checkAndInsertAt key now).2
  | .restore entries now nowUnix => (cache.restoreAt entries now nowUnix).2

def callAll (cache : ReplayCache) (calls : List Call) : ReplayCache :=
  calls.foldl call cache

/-- What every call keeps. A cache of capacity zero still holds the key it was
asked about last. -/
structure Represented (maxSize : Nat) (cache : ReplayCache) : Prop where
  aligned : cache.Aligned
  maxSize_eq : cache.maxSize = maxSize
  bounded : cache.queue.length ≤ max maxSize 1

theorem represented_new (maxSize : Nat) (ttl : Duration) :
    Represented maxSize (new maxSize ttl) :=
  ⟨aligned_new maxSize ttl, rfl, Nat.zero_le _⟩

/-! ## Checks -/

private theorem length_evictedQueue_lt (cache : ReplayCache) (now : Instant)
    (bounded : cache.queue.length ≤ max cache.maxSize 1) :
    (cache.evictedQueue now).length < max cache.maxSize 1 := by
  have swept := (cache.sweptQueue_suffix now).length_le
  rw [evictedQueue]
  split
  · rw [List.length_tail]
    omega
  · omega

theorem Represented.checkAndInsertAt {maxSize : Nat} {cache : ReplayCache}
    (represented : Represented maxSize cache) (key : Gamma) (now : Instant) :
    Represented maxSize (cache.checkAndInsertAt key now).2 := by
  obtain ⟨aligned, rfl, bounded⟩ := represented
  rcases checkAndInsertAt_cases aligned key now with
    ⟨_, checked⟩ | ⟨_, after, checked, queue_eq, _, maxSize_eq, kept⟩
  · rw [checked]
    refine ⟨aligned.sweepExpired now, rfl, ?_⟩
    rw [sweepExpired_queue]
    exact Nat.le_trans (cache.sweptQueue_suffix now).length_le bounded
  · rw [checked]
    refine ⟨kept, maxSize_eq, ?_⟩
    rw [queue_eq, List.length_append, List.length_singleton]
    exact cache.length_evictedQueue_lt now bounded

/-! ## Restoring -/

theorem Represented.restoreAt {maxSize : Nat} {cache : ReplayCache}
    (represented : Represented maxSize cache)
    (entries : List (Gamma × UInt64)) (now : Instant) (nowUnix : UInt64) :
    Represented maxSize (cache.restoreAt entries now nowUnix).2 := by
  obtain ⟨aligned, rfl, bounded⟩ := represented
  obtain ⟨_, queue_eq, adopted, _, maxSize_eq⟩ :=
    restoreAt_spec entries now nowUnix aligned
  refine ⟨adopted, maxSize_eq, ?_⟩
  have fits := length_rtake_le
    (cache.restoreCandidates entries now nowUnix)
    (cache.maxSize - cache.queue.length)
  rw [queue_eq, List.length_append]
  omega

theorem Represented.call {maxSize : Nat} {cache : ReplayCache}
    (represented : Represented maxSize cache) (call : Call) :
    Represented maxSize (cache.call call) := by
  cases call with
  | check key now => exact represented.checkAndInsertAt key now
  | restore entries now nowUnix =>
      exact represented.restoreAt entries now nowUnix

private theorem Represented.callAll {maxSize : Nat} {cache : ReplayCache}
    (represented : Represented maxSize cache) (calls : List Call) :
    Represented maxSize (cache.callAll calls) := by
  induction calls generalizing cache with
  | nil => exact represented
  | cons call calls ih => exact ih (represented.call call)

theorem cache_indexes_bounded_queue (maxSize : Nat) (ttl : Duration)
    (calls : List Call) :
    (((new maxSize ttl).callAll calls).queue.map Prod.fst).Nodup ∧
      (∀ key ts, ((new maxSize ttl).callAll calls).map.lookup key = some ts ↔
        (key, ts) ∈ ((new maxSize ttl).callAll calls).queue) ∧
      ((new maxSize ttl).callAll calls).len =
        ((new maxSize ttl).callAll calls).queue.length ∧
      ((new maxSize ttl).callAll calls).len ≤ max maxSize 1 := by
  have represented := (represented_new maxSize ttl).callAll calls
  have len_eq := represented.aligned.len_eq
  refine ⟨represented.aligned.nodup, represented.aligned.lookup_iff, len_eq,
    ?_⟩
  rw [len_eq]
  exact represented.bounded

end GothamRelay.ReplayCache
