import GothamRelay.Replay.Adoption

namespace GothamRelay.ReplayCache

open Data
open Data.SlidingWindow

/-! How long a key stays protected that a restored list has several times. -/

private theorem retainUnseen_oldest {map : AList fun _ : Gamma => Instant}
    {seen : List Gamma} {entries : List (Gamma × Instant)}
    (ordered : Chronological entries) {key : Gamma} {kept other : Instant}
    (member : (key, kept) ∈ retainUnseen map seen entries)
    (listed : (key, other) ∈ entries) : kept ≤ other := by
  induction entries generalizing seen with
  | nil => exact absurd listed List.not_mem_nil
  | cons entry rest ih =>
      obtain ⟨entryKey, ts⟩ := entry
      obtain ⟨first, ordered⟩ := List.pairwise_cons.mp ordered
      have unseen := (retainUnseen_spec map seen _).2 _ member
      rw [retainUnseen] at member
      split at member
      · cases List.mem_cons.mp member with
        | inl head =>
            cases head
            rcases List.mem_cons.mp listed with same | later
            · cases same
              exact Nat.le_refl _
            · exact first _ later
        | inr tail =>
            rcases List.mem_cons.mp listed with same | later
            · cases same
              have again := (retainUnseen_spec map (key :: seen) rest).2 _ tail
              exact absurd List.mem_cons_self again.2
            · exact ih ordered tail later
      · rename_i stale
        rcases List.mem_cons.mp listed with same | later
        · cases same
          exact absurd unseen stale
        · exact ih ordered member later

section Restored

variable {maxSize : Nat} {ttl : Duration} {entries : List (Gamma × UInt64)}
  {now : Instant} {nowUnix : UInt64}

private theorem restoreAt_new_queue
    (fits : ((new maxSize ttl).adoptableKeys entries nowUnix).length ≤
      maxSize) :
    ((new maxSize ttl).restoreAt entries now nowUnix).2.queue =
      (new maxSize ttl).restoreCandidates entries now nowUnix := by
  obtain ⟨_, queue_eq, _⟩ :=
    restoreAt_spec entries now nowUnix (aligned_new maxSize ttl)
  rw [queue_eq, List.rtake, length_restoreCandidates]
  have skip : ((new maxSize ttl).adoptableKeys entries nowUnix).length -
      ((new maxSize ttl).maxSize - (new maxSize ttl).queue.length) = 0 :=
    Nat.sub_eq_zero_of_le fits
  rw [skip, List.drop_zero]
  rfl

private theorem replay_iff_restored
    (fits : ((new maxSize ttl).adoptableKeys entries nowUnix).length ≤
      maxSize) (key : Gamma) (check : Instant) :
    (((new maxSize ttl).restoreAt entries now nowUnix).2.checkAndInsertAt
        key check).1 = .replay ↔
      ∃ instant, (key, instant) ∈
          (new maxSize ttl).restoreCandidates entries now nowUnix ∧
        check - instant ≤ ttl := by
  obtain ⟨_, _, aligned, ttl_eq, _⟩ :=
    restoreAt_spec entries now nowUnix (aligned_new maxSize ttl)
  have swept : ((new maxSize ttl).restoreAt entries now
        nowUnix).2.sweptQueue check =
      ((new maxSize ttl).restoreCandidates entries now nowUnix).filter
        (live ttl check) := by
    rw [sweptQueue, restoreAt_new_queue fits, ttl_eq]
    exact dropWhile_not_live
      ((new maxSize ttl).chronological_restoreCandidates entries now nowUnix)
  have present : key ∈ (((new maxSize ttl).restoreCandidates entries now
        nowUnix).filter (live ttl check)).map Prod.fst ↔
      ∃ instant, (key, instant) ∈
          (new maxSize ttl).restoreCandidates entries now nowUnix ∧
        check - instant ≤ ttl := by
    rw [List.mem_map]
    constructor
    · rintro ⟨⟨_, instant⟩, member, rfl⟩
      obtain ⟨listed, fresh⟩ := List.mem_filter.mp member
      exact ⟨instant, listed, live_iff.mp fresh⟩
    · rintro ⟨instant, listed, fresh⟩
      exact ⟨(key, instant),
        List.mem_filter.mpr ⟨listed, live_iff.mpr fresh⟩, rfl⟩
  rw [← present, ← swept]
  rcases checkAndInsertAt_cases aligned key check with
    ⟨queued, checked⟩ | ⟨unqueued, after, checked, _⟩
  · rw [checked]
    exact ⟨fun _ => queued, fun _ => rfl⟩
  · rw [checked]
    constructor
    · intro verdict
      cases verdict
    · intro queued
      exact absurd queued unqueued

private theorem restoreCandidates_oldest {cache : ReplayCache} {key : Gamma}
    {instant : Instant}
    (member : (key, instant) ∈ cache.restoreCandidates entries now nowUnix)
    {ts : UInt64} (listed : (key, ts) ∈ entries)
    (within : entryAge nowUnix ts ≤ cache.ttl) :
    instant ≤ restoredInstant now (entryAge nowUnix ts) := by
  apply retainUnseen_oldest (List.pairwise_insertionSort _ _) member
  rw [List.mem_insertionSort]
  exact mem_filterMap_restoredEntry.mpr ⟨ts, listed, within, rfl⟩

private theorem le_protected_until {time age span : Nat} (fits : age ≤ time)
    (within : age ≤ span) : time ≤ time - age + span := by
  omega

private theorem age_eq_of_fresh {time instant young old span : Nat}
    (fits : old ≤ time) (order : young ≤ old) (before : instant ≤ time - old)
    (fresh : time - young + span - instant ≤ span) : old = young := by
  omega

/-- A restored key is protected for the TTL after its last sighting exactly
when no other sighting within the TTL is older. -/
theorem restored_key_protected_iff
    (fits : ((new maxSize ttl).adoptableKeys entries nowUnix).length ≤
      maxSize)
    (represented : ∀ entry ∈ entries, entryAge nowUnix entry.2 ≤ now)
    {key : Gamma} {last : UInt64} (listed : (key, last) ∈ entries)
    (within : entryAge nowUnix last ≤ ttl)
    (latest : ∀ ts, (key, ts) ∈ entries →
      entryAge nowUnix last ≤ entryAge nowUnix ts) :
    (∀ check, now ≤ check → check ≤ now - entryAge nowUnix last + ttl →
        (((new maxSize ttl).restoreAt entries now nowUnix).2.checkAndInsertAt
          key check).1 = .replay) ↔
      ∀ ts, (key, ts) ∈ entries → entryAge nowUnix ts ≤ ttl →
        entryAge nowUnix ts = entryAge nowUnix last := by
  have lastFits : entryAge nowUnix last ≤ now :=
    represented (key, last) listed
  constructor
  · intro protectedKey ts other live
    have atEnd := protectedKey (now - entryAge nowUnix last + ttl)
      (le_protected_until lastFits within) (Nat.le_refl _)
    obtain ⟨instant, member, fresh⟩ :=
      (replay_iff_restored fits key _).mp atEnd
    have older := restoreCandidates_oldest member other live
    have otherFits : entryAge nowUnix ts ≤ now := represented (key, ts) other
    rw [restoredInstant_of_le otherFits] at older
    exact age_eq_of_fresh otherFits (latest ts other) older fresh
  · intro same check _ early
    apply (replay_iff_restored fits key check).mpr
    have adoptable : key ∈ ((new maxSize ttl).restoreCandidates entries now
        nowUnix).map Prod.fst :=
      mem_keys_restoreCandidates.mpr
        ⟨⟨last, listed, within⟩, AList.notMem_empty key⟩
    obtain ⟨⟨_, instant⟩, member, rfl⟩ := List.mem_map.mp adoptable
    obtain ⟨ts, other, live, instant_eq⟩ :=
      exists_of_mem_restoreCandidates member
    rw [same ts other live, restoredInstant_of_le lastFits] at instant_eq
    refine ⟨instant, member, ?_⟩
    rw [instant_eq]
    exact Nat.sub_le_of_le_add (Nat.le_trans early (Nat.le_of_eq
      (Nat.add_comm _ _)))

end Restored

def sampleKey : Gamma := Bytes.replicate 16 1

/-- What a check of the key returns after a list was restored 100 seconds after
the start, at 1000 seconds of the wall clock, with a TTL of a minute. -/
def sampleVerdict (entries : List (Gamma × UInt64)) (secs : Nat) :
    ReplayCheck :=
  (((new 4 (Duration.fromSecs 60)).restoreAt entries (Duration.fromSecs 100)
    1000).2.checkAndInsertAt sampleKey (Duration.fromSecs secs)).1

/-- The other sighting of the key has expired. -/
theorem sample_key_protected :
    sampleVerdict [(sampleKey, 930), (sampleKey, 990)] 150 = .replay := by
  apply (restored_key_protected_iff (by decide +kernel) ?_
    (List.mem_cons_of_mem _ List.mem_cons_self) (by decide) ?_).mpr
  · intro ts listed within
    rcases List.mem_cons.mp listed with first | second
    · cases first
      exact absurd within (by decide)
    · cases List.mem_singleton.mp second
      rfl
  · decide
  · decide
  · intro entry listed
    rcases List.mem_cons.mp listed with rfl | second
    · decide
    · cases List.mem_singleton.mp second
      decide
  · intro ts listed
    rcases List.mem_cons.mp listed with first | second
    · cases first
      decide
    · cases List.mem_singleton.mp second
      exact Nat.le_refl _

/-- The key was last seen 10 seconds ago, so that it should be protected for
another 50, but the sighting 50 seconds ago is the one that is kept. -/
theorem repeated_key_protection_shortened :
    Duration.fromSecs 150 ≤ Duration.fromSecs 100 - entryAge 1000 990 +
        Duration.fromSecs 60 ∧
      sampleVerdict [(sampleKey, 950), (sampleKey, 990)] 111 = .fresh ∧
      sampleVerdict [(sampleKey, 950), (sampleKey, 990)] 150 = .fresh :=
  ⟨by decide, by decide +kernel, by decide +kernel⟩

end GothamRelay.ReplayCache
