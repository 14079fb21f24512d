import Mathlib.Data.List.Dedup
import GothamRelay.Replay.History

namespace GothamRelay.ReplayCache

open Data
open Data.SlidingWindow

/-! What `restore_at` adopts of a list in any order, with repeated, expired,
future and cached keys. -/

def entryAge (nowUnix ts : UInt64) : Duration :=
  Duration.fromSecs (nowUnix.toNat - ts.toNat)

theorem mem_filterMap_restoredEntry {ttl : Duration} {now instant : Instant}
    {nowUnix : UInt64} {entries : List (Gamma × UInt64)} {key : Gamma} :
    (key, instant) ∈ entries.filterMap (restoredEntry ttl now nowUnix) ↔
      ∃ ts, (key, ts) ∈ entries ∧ entryAge nowUnix ts ≤ ttl ∧
        instant = restoredInstant now (entryAge nowUnix ts) := by
  rw [List.mem_filterMap]
  constructor
  · rintro ⟨⟨other, ts⟩, member, restored⟩
    rw [restoredEntry_eq other ts rfl] at restored
    split at restored
    · cases restored
    · rename_i live
      cases restored
      exact ⟨ts, member, Nat.not_lt.mp live, rfl⟩
  · rintro ⟨ts, member, live, rfl⟩
    refine ⟨(key, ts), member, ?_⟩
    rw [restoredEntry_eq key ts rfl]
    exact if_neg (Nat.not_lt.mpr live)

theorem restoredInstant_of_le {now : Instant} {age : Duration}
    (represented : age ≤ now) : restoredInstant now age = now - age := by
  rw [restoredInstant, Instant.checkedSub, if_pos represented, Option.getD_some]

private theorem age_restoredInstant_le (now : Instant) (age : Duration) :
    now.durationSince (restoredInstant now age) ≤ age := by
  rw [restoredInstant, Instant.checkedSub, Instant.durationSince]
  split
  · rename_i represented
    rw [Option.getD_some, Nat.sub_sub_self represented]
  · rw [Option.getD_none, Nat.sub_self]
    exact Nat.zero_le age

section Candidates

variable {cache : ReplayCache} {entries : List (Gamma × UInt64)}
  {now : Instant} {nowUnix : UInt64}

theorem exists_of_mem_restoreCandidates {key : Gamma} {instant : Instant}
    (member : (key, instant) ∈ cache.restoreCandidates entries now nowUnix) :
    ∃ ts, (key, ts) ∈ entries ∧ entryAge nowUnix ts ≤ cache.ttl ∧
      instant = restoredInstant now (entryAge nowUnix ts) := by
  have sorted := (retainUnseen_sublist _ _ _).subset member
  rw [List.mem_insertionSort] at sorted
  exact mem_filterMap_restoredEntry.mp sorted

theorem mem_keys_restoreCandidates {key : Gamma} :
    key ∈ (cache.restoreCandidates entries now nowUnix).map Prod.fst ↔
      (∃ ts, (key, ts) ∈ entries ∧ entryAge nowUnix ts ≤ cache.ttl) ∧
        key ∉ cache.map := by
  have keys : key ∈ ((entries.filterMap
        (restoredEntry cache.ttl now nowUnix)).insertionSort
          fun first second => first.2 ≤ second.2).map Prod.fst ↔
      ∃ ts, (key, ts) ∈ entries ∧ entryAge nowUnix ts ≤ cache.ttl := by
    rw [List.mem_map]
    constructor
    · rintro ⟨⟨_, instant⟩, member, rfl⟩
      rw [List.mem_insertionSort] at member
      obtain ⟨ts, listed, live, _⟩ := mem_filterMap_restoredEntry.mp member
      exact ⟨ts, listed, live⟩
    · rintro ⟨ts, listed, live⟩
      refine ⟨(key, restoredInstant now (entryAge nowUnix ts)), ?_, rfl⟩
      rw [List.mem_insertionSort]
      exact mem_filterMap_restoredEntry.mpr ⟨ts, listed, live, rfl⟩
  rw [restoreCandidates, mem_keys_retainUnseen, keys]
  simp only [List.not_mem_nil, not_false_eq_true, and_true]

def adoptableKeys (cache : ReplayCache) (entries : List (Gamma × UInt64))
    (nowUnix : UInt64) : List Gamma :=
  ((entries.filter fun entry =>
      entryAge nowUnix entry.2 ≤ cache.ttl ∧ entry.1 ∉ cache.map).map
    Prod.fst).dedup

private theorem mem_adoptableKeys {key : Gamma} :
    key ∈ cache.adoptableKeys entries nowUnix ↔
      (∃ ts, (key, ts) ∈ entries ∧ entryAge nowUnix ts ≤ cache.ttl) ∧
        key ∉ cache.map := by
  rw [adoptableKeys, List.mem_dedup, List.mem_map]
  constructor
  · rintro ⟨⟨_, ts⟩, member, rfl⟩
    obtain ⟨listed, wanted⟩ := List.mem_filter.mp member
    obtain ⟨live, uncached⟩ := of_decide_eq_true wanted
    exact ⟨⟨ts, listed, live⟩, uncached⟩
  · rintro ⟨⟨ts, listed, live⟩, uncached⟩
    exact ⟨(key, ts),
      List.mem_filter.mpr ⟨listed, decide_eq_true ⟨live, uncached⟩⟩, rfl⟩

theorem length_restoreCandidates (now : Instant) :
    (cache.restoreCandidates entries now nowUnix).length =
      (cache.adoptableKeys entries nowUnix).length := by
  have same : ((cache.restoreCandidates entries now nowUnix).map
      Prod.fst).Perm (cache.adoptableKeys entries nowUnix) := by
    apply (List.perm_ext_iff_of_nodup
      (cache.restoreCandidates_spec entries now nowUnix).1
      (List.nodup_dedup _)).mpr
    intro key
    exact mem_keys_restoreCandidates.trans mem_adoptableKeys.symm
  rw [← same.length_eq, List.length_map]

private theorem instant_of_mem_restoreCandidates
    (nodup : (entries.map Prod.fst).Nodup) {key : Gamma} {ts : UInt64}
    (listed : (key, ts) ∈ entries) {instant : Instant}
    (member : (key, instant) ∈ cache.restoreCandidates entries now nowUnix) :
    instant = restoredInstant now (entryAge nowUnix ts) := by
  obtain ⟨other, alsoListed, _, rfl⟩ := exists_of_mem_restoreCandidates member
  have same := List.inj_on_of_nodup_map nodup alsoListed listed rfl
  cases same
  rfl

end Candidates

private theorem le_of_mem_rtake {entries : List (Gamma × Instant)}
    (ordered : Chronological entries) {count : Nat}
    {kept other : Gamma × Instant} (member : kept ∈ entries.rtake count)
    (listed : other ∈ entries) (left : other ∉ entries.rtake count) :
    other.2 ≤ kept.2 := by
  have split := List.take_append_drop (entries.length - count) entries
  rw [← split, Chronological, List.pairwise_append] at ordered
  rw [← split, List.mem_append] at listed
  exact ordered.2.2 other (listed.resolve_right left) kept member

/-- `restore_at` appends to the queue, leaves every cached entry alone, adopts
only keys of the list, with the instant their age says, as many of those within
the TTL as there is room for, and of those, when no key is repeated, the
youngest. -/
theorem restore_adopts_newest {cache : ReplayCache}
    (aligned : cache.Aligned) (entries : List (Gamma × UInt64))
    (now : Instant) (nowUnix : UInt64) :
    let restored := cache.restoreAt entries now nowUnix
    ∃ added, restored.2.queue = cache.queue ++ added ∧
      (∀ key ts, cache.map.lookup key = some ts →
        restored.2.map.lookup key = some ts) ∧
      (∀ key instant, restored.2.map.lookup key = some instant →
        cache.map.lookup key = some instant ∨ (key, instant) ∈ added) ∧
      (∀ entry ∈ added, now.durationSince entry.2 ≤ cache.ttl ∧
        restored.2.map.lookup entry.1 = some entry.2 ∧
        entry.1 ∉ cache.map ∧
        ∃ ts, (entry.1, ts) ∈ entries ∧ entryAge nowUnix ts ≤ cache.ttl ∧
          entry.2 = restoredInstant now (entryAge nowUnix ts)) ∧
      (added.map Prod.fst).Nodup ∧
      restored.1 = added.length ∧ restored.2.len = cache.len + restored.1 ∧
      restored.1 = min (cache.maxSize - cache.len)
        (cache.adoptableKeys entries nowUnix).length ∧
      ((entries.map Prod.fst).Nodup →
        (∀ entry ∈ entries, entryAge nowUnix entry.2 ≤ now) →
        (∀ adopted ∈ entries, adopted.1 ∈ added.map Prod.fst →
          ∀ other ∈ entries, entryAge nowUnix other.2 ≤ cache.ttl →
            other.1 ∉ cache.map → other.1 ∉ added.map Prod.fst →
              entryAge nowUnix adopted.2 ≤ entryAge nowUnix other.2) ∧
        Chronological added) := by
  intro restored
  obtain ⟨count, queue_eq, after, _, _⟩ :=
    restoreAt_spec entries now nowUnix aligned
  have suffix := rtake_suffix (cache.restoreCandidates entries now nowUnix)
    (cache.maxSize - cache.queue.length)
  have ordered := cache.chronological_restoreCandidates entries now nowUnix
  refine ⟨(cache.restoreCandidates entries now nowUnix).rtake
    (cache.maxSize - cache.queue.length), queue_eq, ?_, ?_, ?_, ?_, count, ?_,
    ?_, ?_⟩
  · intro key ts found
    rw [after.lookup_iff, queue_eq]
    exact List.mem_append_left _ ((aligned.lookup_iff key ts).mp found)
  · intro key instant found
    rw [after.lookup_iff, queue_eq, List.mem_append] at found
    exact found.imp_left (aligned.lookup_iff key instant).mpr
  · intro entry member
    have candidate := suffix.subset member
    obtain ⟨ts, listed, live, instant⟩ :=
      exists_of_mem_restoreCandidates candidate
    refine ⟨?_, ?_, ?_, ts, listed, live, instant⟩
    · rw [instant]
      exact (age_restoredInstant_le now _).trans live
    · rw [after.lookup_iff, queue_eq]
      exact List.mem_append_right _ member
    · exact (mem_keys_restoreCandidates.mp (List.mem_map_of_mem candidate)).2
  · exact (cache.restoreCandidates_spec entries now nowUnix).1.sublist
      (suffix.sublist.map Prod.fst)
  · rw [after.len_eq, queue_eq, List.length_append, aligned.len_eq, count]
  · rw [count, aligned.len_eq, ← length_restoreCandidates now, List.rtake,
      List.length_drop]
    omega
  · intro nodup represented
    refine ⟨?_, ordered.sublist suffix.sublist⟩
    rintro ⟨key, ts⟩ listed adopted ⟨otherKey, otherTs⟩ otherListed live
      uncached left
    obtain ⟨⟨_, instant⟩, member, rfl⟩ := List.mem_map.mp adopted
    have instant_eq :=
      instant_of_mem_restoreCandidates nodup listed (suffix.subset member)
    obtain ⟨⟨_, otherInstant⟩, otherMember, rfl⟩ := List.mem_map.mp
      (mem_keys_restoreCandidates.mpr ⟨⟨otherTs, otherListed, live⟩, uncached⟩)
    have otherInstant_eq :=
      instant_of_mem_restoreCandidates nodup otherListed otherMember
    have older := le_of_mem_rtake ordered member otherMember fun kept =>
      left (List.mem_map_of_mem kept)
    have fits := represented _ listed
    have otherFits := represented _ otherListed
    rw [restoredInstant_of_le fits] at instant_eq
    rw [restoredInstant_of_le otherFits] at otherInstant_eq
    rw [instant_eq, otherInstant_eq] at older
    exact Nat.le_of_sub_le_sub_left fits older

def sampleCache : ReplayCache :=
  ((new 3 (Duration.fromSecs 60)).checkAndInsertAt (Bytes.replicate 16 1)
    (Duration.fromSecs 1000)).2

/-- Five entries for two places, of which one is cached, one is expired and one
is dated in the future. -/
def sampleEntries : List (Gamma × UInt64) :=
  [(Bytes.replicate 16 2, 1010), (Bytes.replicate 16 1, 990),
    (Bytes.replicate 16 3, 100), (Bytes.replicate 16 4, 970),
    (Bytes.replicate 16 5, 950)]

def sampleAdopted : List (Gamma × Instant) :=
  [(Bytes.replicate 16 4, Duration.fromSecs 970),
    (Bytes.replicate 16 2, Duration.fromSecs 1000)]

theorem sampleEntries_adopted :
    let restored := sampleCache.restoreAt sampleEntries
      (Duration.fromSecs 1000) 1000
    restored.2.queue = sampleCache.queue ++ sampleAdopted ∧ restored.1 = 2 ∧
      (∀ entry ∈ sampleAdopted, entry.1 ∉ sampleCache.map ∧
        ∃ ts, (entry.1, ts) ∈ sampleEntries ∧
          entry.2 = restoredInstant (Duration.fromSecs 1000)
            (entryAge 1000 ts)) ∧
      Chronological sampleAdopted := by
  intro restored
  obtain ⟨added, queue_eq, _, _, adopted, _, count, _, _, youngest⟩ :=
    restore_adopts_newest
      ((represented_new 3 (Duration.fromSecs 60)).checkAndInsertAt _ _).aligned
      sampleEntries (Duration.fromSecs 1000) 1000
  have queue : restored.2.queue = sampleCache.queue ++ sampleAdopted := by
    decide +kernel
  obtain rfl : added = sampleAdopted :=
    List.append_cancel_left (queue_eq.symm.trans queue)
  refine ⟨queue_eq, count, ?_, (youngest (by decide) (by decide)).2⟩
  intro entry member
  obtain ⟨_, _, uncached, ts, listed, _, instant⟩ := adopted entry member
  exact ⟨uncached, ts, listed, instant⟩

end GothamRelay.ReplayCache
