import GothamRelay.Data.Transition
import GothamRelay.Replay.Sightings

namespace GothamRelay.ReplayCache

open Data
open Data.SlidingWindow

/-! Checks and restores at non-decreasing instants. The sweep and the eviction
look at the front of the queue only, so that both rest on its order. -/

def Call.instant : Call → Instant
  | .check _ now => now
  | .restore _ now _ => now

structure History where
  cache : ReplayCache
  clock : Instant

namespace History

def start (maxSize : Nat) (ttl : Duration) : History where
  cache := new maxSize ttl
  clock := 0

def step (history : History) (call : Call) : Option History :=
  some ⟨history.cache.call call, call.instant⟩

def InOrder (history : History) (call : Call) : Prop :=
  history.clock ≤ call.instant

end History

/-- Nothing cached is newer than an entry that the call could adopt. -/
def RestoresLater (cache : ReplayCache) : Call → Prop
  | .check _ _ => True
  | .restore entries now nowUnix =>
      ∀ key ts, (key, ts) ∈ entries → entryAge nowUnix ts ≤ cache.ttl →
        key ∉ cache.map → ∀ cached ∈ cache.queue,
          cached.2 ≤ restoredInstant now (entryAge nowUnix ts)

structure History.Sorted (ttl : Duration) (history : History) : Prop where
  aligned : history.cache.Aligned
  ttl_eq : history.cache.ttl = ttl
  ordered : Chronological history.cache.queue
  past : ∀ entry ∈ history.cache.queue, entry.2 ≤ history.clock

private theorem restoredInstant_le (now : Instant) (age : Duration) :
    restoredInstant now age ≤ now := by
  rw [restoredInstant, Instant.checkedSub]
  split
  · exact Nat.sub_le now age
  · exact Nat.le_refl now

namespace History.Sorted

variable {ttl : Duration} {history : History}

theorem check (sorted : history.Sorted ttl) (key : Gamma) {now : Instant}
    (later : history.clock ≤ now) :
    Sorted ttl ⟨(history.cache.checkAndInsertAt key now).2, now⟩ := by
  obtain ⟨aligned, ttl_eq, ordered, past⟩ := sorted
  have swept := history.cache.sweptQueue_suffix now
  rcases checkAndInsertAt_cases aligned key now with
    ⟨_, checked⟩ | ⟨_, after, checked, queue_eq, after_ttl, _, kept⟩
  · rw [checked]
    refine ⟨aligned.sweepExpired now, ttl_eq, ?_, ?_⟩
    · rw [sweepExpired_queue]
      exact ordered.sublist swept.sublist
    · intro entry member
      rw [sweepExpired_queue] at member
      exact Nat.le_trans (past entry (swept.subset member)) later
  · have suffix := history.cache.evictedQueue_suffix now
    have before : ∀ entry ∈ history.cache.evictedQueue now, entry.2 ≤ now :=
      fun entry member =>
        Nat.le_trans (past entry (suffix.subset member)) later
    rw [checked]
    refine ⟨kept, after_ttl.trans ttl_eq, ?_, ?_⟩
    · rw [queue_eq, Chronological, List.pairwise_append]
      refine ⟨ordered.sublist suffix.sublist, List.pairwise_singleton _ _, ?_⟩
      intro entry member new isNew
      rw [List.mem_singleton.mp isNew]
      exact before entry member
    · intro entry member
      rw [queue_eq] at member
      rcases List.mem_append.mp member with old | new
      · exact before entry old
      · rw [List.mem_singleton.mp new]

theorem restore (sorted : history.Sorted ttl)
    {entries : List (Gamma × UInt64)} {now : Instant} {nowUnix : UInt64}
    (later : history.clock ≤ now)
    (newer : history.cache.RestoresLater (.restore entries now nowUnix)) :
    Sorted ttl ⟨(history.cache.restoreAt entries now nowUnix).2, now⟩ := by
  obtain ⟨aligned, ttl_eq, ordered, past⟩ := sorted
  obtain ⟨_, queue_eq, kept, after_ttl, _⟩ :=
    restoreAt_spec entries now nowUnix aligned
  have suffix := rtake_suffix
    (history.cache.restoreCandidates entries now nowUnix)
    (history.cache.maxSize - history.cache.queue.length)
  have candidates :=
    history.cache.chronological_restoreCandidates entries now nowUnix
  refine ⟨kept, after_ttl.trans ttl_eq, ?_, ?_⟩
  · rw [queue_eq, Chronological, List.pairwise_append]
    refine ⟨ordered, candidates.sublist suffix.sublist, ?_⟩
    rintro cached old ⟨key, instant⟩ added
    have candidate := suffix.subset added
    obtain ⟨ts, listed, within, rfl⟩ :=
      exists_of_mem_restoreCandidates candidate
    have uncached := (history.cache.restoreCandidates_spec entries now
      nowUnix).2 _ candidate
    exact newer key ts listed within uncached cached old
  · rintro ⟨key, instant⟩ member
    rw [queue_eq] at member
    rcases List.mem_append.mp member with old | added
    · exact Nat.le_trans (past _ old) later
    · obtain ⟨ts, _, _, rfl⟩ :=
        exists_of_mem_restoreCandidates (suffix.subset added)
      exact restoredInstant_le now _

theorem of_step (sorted : history.Sorted ttl) {call : Call}
    {after : History} (inOrder : history.InOrder call)
    (newer : history.cache.RestoresLater call)
    (taken : history.step call = some after) : after.Sorted ttl := by
  cases taken
  cases call with
  | check key now => exact sorted.check key inOrder
  | restore entries now nowUnix => exact sorted.restore inOrder newer

theorem sweptQueue_eq (sorted : history.Sorted ttl) (now : Instant) :
    history.cache.sweptQueue now =
      history.cache.queue.filter (live ttl now) := by
  rw [sweptQueue, sorted.ttl_eq]
  exact dropWhile_not_live sorted.ordered

private theorem live_of_check (sorted : history.Sorted ttl) (key : Gamma)
    (now : Instant) :
    ∀ entry ∈ (history.cache.checkAndInsertAt key now).2.queue,
      now.durationSince entry.2 ≤ ttl := by
  have fresh : ∀ entry ∈ history.cache.sweptQueue now,
      now.durationSince entry.2 ≤ ttl := by
    intro entry member
    rw [sorted.sweptQueue_eq] at member
    exact live_iff.mp (List.mem_filter.mp member).2
  rcases checkAndInsertAt_cases sorted.aligned key now with
    ⟨_, checked⟩ | ⟨_, after, checked, queue_eq, _⟩
  · rw [checked]
    intro entry member
    rw [sweepExpired_queue] at member
    exact fresh entry member
  · rw [checked, queue_eq]
    intro entry member
    rcases List.mem_append.mp member with old | new
    · exact fresh entry
        ((history.cache.evictedQueue_suffix_sweptQueue now).subset old)
    · rw [List.mem_singleton.mp new, Instant.durationSince, Nat.sub_self]
      exact Nat.zero_le ttl

private theorem evicted_oldest (sorted : history.Sorted ttl) {key : Gamma}
    {now : Instant} {gone : Gamma × Instant}
    (cached : gone ∈ history.cache.sweptQueue now)
    (removed : gone ∉ (history.cache.checkAndInsertAt key now).2.queue) :
    ∀ entry ∈ history.cache.sweptQueue now, gone.2 ≤ entry.2 := by
  rcases checkAndInsertAt_cases sorted.aligned key now with
    ⟨_, checked⟩ | ⟨_, after, checked, queue_eq, _⟩
  · rw [checked, sweepExpired_queue] at removed
    exact absurd cached removed
  · rw [checked, queue_eq] at removed
    have dropped : gone ∉ history.cache.evictedQueue now :=
      fun kept => removed (List.mem_append_left _ kept)
    have ordered : Chronological (history.cache.sweptQueue now) :=
      sorted.ordered.sublist (history.cache.sweptQueue_suffix now).sublist
    rw [evictedQueue] at dropped
    split at dropped
    · cases swept : history.cache.sweptQueue now with
      | nil => exact fun _ member => absurd member List.not_mem_nil
      | cons front rest =>
          rw [swept] at cached dropped ordered
          cases (List.mem_cons.mp cached).resolve_right dropped
          intro entry member
          rcases List.mem_cons.mp member with rfl | later
          · exact Nat.le_refl _
          · exact (List.pairwise_cons.mp ordered).1 entry later
    · exact absurd cached dropped

end History.Sorted

/-- In every run of checks and restores at non-decreasing instants in which no
restore adopts an entry older than one that is cached, a check leaves nothing
that has expired and evicts the oldest entry. -/
theorem expiry_and_eviction_oldest_first (maxSize : Nat) (ttl : Duration)
    {calls : List Call} {history : History}
    (trace : Trace History.step
      (fun before call => before.InOrder call ∧
        before.cache.RestoresLater call)
      (.start maxSize ttl) calls history)
    (key : Gamma) (now : Instant) (later : history.clock ≤ now) :
    let swept := history.cache.sweepExpired now
    let checked := (history.cache.checkAndInsertAt key now).2
    (∀ other ts, checked.map.lookup other = some ts →
        now.durationSince ts ≤ ttl) ∧
      ∀ gone oldest, swept.map.lookup gone = some oldest →
        checked.map.lookup gone = none →
          ∀ other ts, swept.map.lookup other = some ts → oldest ≤ ts := by
  have sorted : history.Sorted ttl := by
    apply trace.invariant fun _ history => history.Sorted ttl
    · exact ⟨aligned_new maxSize ttl, rfl, List.Pairwise.nil,
        fun _ member => absurd member List.not_mem_nil⟩
    · intro done before after call sorted permitted taken
      exact sorted.of_step permitted.1 permitted.2 taken
  have sweptAligned := sorted.aligned.sweepExpired now
  have checkedAligned := (sorted.check key later).aligned
  constructor
  · intro other ts found
    rw [checkedAligned.lookup_iff] at found
    exact sorted.live_of_check key now _ found
  · intro gone oldest cached removed other ts found
    rw [sweptAligned.lookup_iff, sweepExpired_queue] at cached found
    have dropped : (gone, oldest) ∉
        (history.cache.checkAndInsertAt key now).2.queue := by
      intro kept
      rw [(checkedAligned.lookup_iff gone oldest).mpr kept] at removed
      cases removed
    exact sorted.evicted_oldest cached dropped (other, ts) found

/-- The first key is seen, and a snapshot with the second one is restored into
the cache, at 100 seconds of both clocks. -/
def sampleCalls (seenAt : UInt64) : List Call :=
  [.check (Bytes.replicate 16 1) (Duration.fromSecs 100),
    .restore [(Bytes.replicate 16 2, seenAt)] (Duration.fromSecs 100) 100]

def sampleHistory (maxSize : Nat) (seenAt : UInt64) : History :=
  (Trace.exec History.step (.start maxSize (Duration.fromSecs 60))
    (sampleCalls seenAt)).getD (.start maxSize (Duration.fromSecs 60))

/-- The restored key is as new as the cached one. -/
theorem sampleHistory_evicts_oldest :
    ((sampleHistory 2 100).cache.checkAndInsertAt (Bytes.replicate 16 3)
        (Duration.fromSecs 101)).2.map.lookup (Bytes.replicate 16 1) = none ∧
      ∀ other ts, ((sampleHistory 2 100).cache.sweepExpired
          (Duration.fromSecs 101)).map.lookup other = some ts →
        Duration.fromSecs 100 ≤ ts := by
  have removed : ((sampleHistory 2 100).cache.checkAndInsertAt
      (Bytes.replicate 16 3) (Duration.fromSecs 101)).2.map.lookup
        (Bytes.replicate 16 1) = none := by
    decide +kernel
  have trace : Trace History.step
      (fun before call => before.InOrder call ∧
        before.cache.RestoresLater call)
      (.start 2 (Duration.fromSecs 60)) (sampleCalls 100)
      (sampleHistory 2 100) := by
    refine Trace.of_permitted ⟨⟨Nat.zero_le _, trivial⟩,
      ⟨⟨Nat.le_refl _, ?_⟩, trivial⟩⟩ (by decide +kernel)
    intro key ts listed within uncached
    cases List.mem_singleton.mp listed
    decide +kernel
  exact ⟨removed, (expiry_and_eviction_oldest_first 2 _ trace
    (Bytes.replicate 16 3) (Duration.fromSecs 101) (by decide +kernel)).2
      (Bytes.replicate 16 1) (Duration.fromSecs 100) (by decide +kernel)
      removed⟩

/-- The restored key was seen 50 seconds before. It is still cached when it is
65 seconds old, and the key seen at 100 seconds is evicted before it. -/
theorem back_dated_restore_breaks_order :
    Trace History.step History.InOrder (.start 4 (Duration.fromSecs 60))
        (sampleCalls 50) (sampleHistory 4 50) ∧
      ((sampleHistory 4 50).cache.checkAndInsertAt (Bytes.replicate 16 3)
        (Duration.fromSecs 115)).2.map.lookup (Bytes.replicate 16 2) =
          some (Duration.fromSecs 50) ∧
      ¬Instant.durationSince (Duration.fromSecs 115) (Duration.fromSecs 50) ≤
        Duration.fromSecs 60 ∧
      Trace History.step History.InOrder (.start 2 (Duration.fromSecs 60))
        (sampleCalls 50) (sampleHistory 2 50) ∧
      ((sampleHistory 2 50).cache.sweepExpired
        (Duration.fromSecs 101)).map.lookup (Bytes.replicate 16 1) =
          some (Duration.fromSecs 100) ∧
      ((sampleHistory 2 50).cache.checkAndInsertAt (Bytes.replicate 16 3)
        (Duration.fromSecs 101)).2.map.lookup (Bytes.replicate 16 1) =
          none ∧
      ((sampleHistory 2 50).cache.sweepExpired
        (Duration.fromSecs 101)).map.lookup (Bytes.replicate 16 2) =
          some (Duration.fromSecs 50) := by
  have permitted (maxSize : Nat) :
      Trace.Permitted History.step History.InOrder
        (.start maxSize (Duration.fromSecs 60)) (sampleCalls 50) :=
    ⟨Nat.zero_le _, Nat.le_refl _, trivial⟩
  exact ⟨Trace.of_permitted (permitted 4) rfl, by decide +kernel, by decide,
    Trace.of_permitted (permitted 2) rfl, by decide +kernel,
    by decide +kernel, by decide +kernel⟩

end GothamRelay.ReplayCache
