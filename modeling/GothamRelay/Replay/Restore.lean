import GothamRelay.Replay.Alignment

namespace GothamRelay.ReplayCache

open Data
open Data.SlidingWindow

theorem retainUnseen_spec (map : AList fun _ : Gamma => Instant)
    (seen : List Gamma) (entries : List (Gamma × Instant)) :
    ((retainUnseen map seen entries).map Prod.fst).Nodup ∧
      ∀ entry ∈ retainUnseen map seen entries,
        entry.1 ∉ map ∧ entry.1 ∉ seen := by
  induction entries generalizing seen with
  | nil =>
      exact ⟨List.nodup_nil, fun _ member => absurd member List.not_mem_nil⟩
  | cons entry rest ih =>
      obtain ⟨key, ts⟩ := entry
      rw [retainUnseen]
      split
      · rename_i fresh
        obtain ⟨nodup, unseen⟩ := ih (key :: seen)
        constructor
        · rw [List.map_cons, List.nodup_cons]
          refine ⟨?_, nodup⟩
          intro kept
          obtain ⟨other, member, same⟩ := List.mem_map.mp kept
          apply (unseen other member).2
          rw [same]
          exact List.mem_cons_self
        · intro other member
          rcases List.mem_cons.mp member with rfl | member
          · exact fresh
          · obtain ⟨uncached, new⟩ := unseen other member
            exact ⟨uncached, fun old => new (List.mem_cons_of_mem _ old)⟩
      · exact ih seen

theorem retainUnseen_sublist (map : AList fun _ : Gamma => Instant)
    (seen : List Gamma) (entries : List (Gamma × Instant)) :
    (retainUnseen map seen entries).Sublist entries := by
  induction entries generalizing seen with
  | nil => exact List.Sublist.slnil
  | cons entry rest ih =>
      rw [retainUnseen]
      split
      · exact (ih _).cons_cons entry
      · exact (ih _).cons entry

theorem mem_keys_retainUnseen {map : AList fun _ : Gamma => Instant}
    {seen : List Gamma} {entries : List (Gamma × Instant)} {key : Gamma} :
    key ∈ (retainUnseen map seen entries).map Prod.fst ↔
      key ∈ entries.map Prod.fst ∧ key ∉ map ∧ key ∉ seen := by
  induction entries generalizing seen with
  | nil => simp [retainUnseen]
  | cons entry rest ih =>
      obtain ⟨other, ts⟩ := entry
      rw [retainUnseen]
      split
      · rename_i fresh
        rw [List.map_cons, List.map_cons, List.mem_cons, List.mem_cons, ih,
          List.mem_cons, not_or]
        by_cases same : key = other
        · subst other
          simp [fresh]
        · simp [same]
      · rename_i stale
        rw [ih, List.map_cons, List.mem_cons]
        by_cases same : key = other
        · subst other
          simp [stale]
        · simp [same]

private theorem retainUnseen_eq_self {map : AList fun _ : Gamma => Instant}
    {seen : List Gamma} {entries : List (Gamma × Instant)}
    (nodup : (entries.map Prod.fst).Nodup)
    (uncached : ∀ entry ∈ entries, entry.1 ∉ map)
    (unseen : ∀ entry ∈ entries, entry.1 ∉ seen) :
    retainUnseen map seen entries = entries := by
  induction entries generalizing seen with
  | nil => rfl
  | cons entry rest ih =>
      obtain ⟨single, nodup⟩ := List.nodup_cons.mp nodup
      have headUncached := uncached entry List.mem_cons_self
      have headUnseen := unseen entry List.mem_cons_self
      rw [retainUnseen, if_pos ⟨headUncached, headUnseen⟩]
      congr 1
      apply ih nodup
      · exact fun other member =>
          uncached other (List.mem_cons_of_mem _ member)
      · intro other member queued
        rcases List.mem_cons.mp queued with same | queued
        · apply single
          rw [← same]
          exact List.mem_map_of_mem member
        · exact unseen other (List.mem_cons_of_mem _ member) queued

/-- The insertion loop of `restore_at` on distinct keys that are not cached:
it appends as many entries as there is room for. -/
private theorem adopt_spec {cache : ReplayCache} (aligned : cache.Aligned)
    {entries : List (Gamma × Instant)}
    (nodup : (entries.map Prod.fst).Nodup)
    (uncached : ∀ entry ∈ entries, entry.1 ∉ cache.map) :
    (cache.adopt entries).1 =
        (entries.take (cache.maxSize - cache.queue.length)).length ∧
      (cache.adopt entries).2.queue =
        cache.queue ++ entries.take (cache.maxSize - cache.queue.length) ∧
      (cache.adopt entries).2.Aligned ∧
      (cache.adopt entries).2.ttl = cache.ttl ∧
      (cache.adopt entries).2.maxSize = cache.maxSize := by
  induction entries generalizing cache with
  | nil => simpa [adopt] using aligned
  | cons entry rest ih =>
      obtain ⟨key, ts⟩ := entry
      obtain ⟨single, nodup⟩ := List.nodup_cons.mp nodup
      by_cases full : cache.len ≥ cache.maxSize
      · have none : cache.maxSize - cache.queue.length = 0 := by
          rw [← aligned.len_eq]
          exact Nat.sub_eq_zero_of_le full
        rw [adopt, if_pos full, none]
        simpa using aligned
      · have absent := uncached (key, ts) List.mem_cons_self
        have pushed := aligned.pushBack absent ts
        have restUncached : ∀ entry ∈ rest,
            entry.1 ∉ (cache.pushBack key ts).map := by
          intro other member cached
          rcases (AList.mem_insert _).mp cached with same | cached
          · apply single
            change key ∈ rest.map Prod.fst
            rw [← same]
            exact List.mem_map_of_mem member
          · exact uncached other (List.mem_cons_of_mem _ member) cached
        have adopted : cache.adopt ((key, ts) :: rest) =
            (((cache.pushBack key ts).adopt rest).1 + 1,
              ((cache.pushBack key ts).adopt rest).2) := by
          rw [adopt, if_neg full]
        obtain ⟨count, queue_eq, after, ttl_eq, maxSize_eq⟩ :=
          ih pushed nodup restUncached
        have room : cache.maxSize - cache.queue.length =
            cache.maxSize - (cache.queue.length + 1) + 1 := by
          rw [aligned.len_eq] at full
          omega
        have longer : (cache.pushBack key ts).queue.length =
            cache.queue.length + 1 := by
          simp [pushBack]
        rw [longer] at count queue_eq
        rw [adopted, room, List.take_succ_cons]
        refine ⟨congrArg Nat.succ count, ?_, after, ttl_eq, maxSize_eq⟩
        refine queue_eq.trans ?_
        simp [pushBack]

section Candidates

variable (cache : ReplayCache) (entries : List (Gamma × UInt64))
  (now : Instant) (nowUnix : UInt64)

theorem restoreCandidates_spec :
    ((cache.restoreCandidates entries now nowUnix).map Prod.fst).Nodup ∧
      ∀ entry ∈ cache.restoreCandidates entries now nowUnix,
        entry.1 ∉ cache.map := by
  obtain ⟨nodup, unseen⟩ := retainUnseen_spec cache.map []
    ((entries.filterMap (restoredEntry cache.ttl now nowUnix)).insertionSort
      fun first second => first.2 ≤ second.2)
  exact ⟨nodup, fun entry member => (unseen entry member).1⟩

theorem chronological_restoreCandidates :
    Chronological (cache.restoreCandidates entries now nowUnix) :=
  (List.pairwise_insertionSort _ _).sublist (retainUnseen_sublist _ _ _)

/-- `restore_at` appends the newest candidates, as many as there is room
for. -/
theorem restoreAt_spec {cache : ReplayCache} (aligned : cache.Aligned) :
    let added := (cache.restoreCandidates entries now nowUnix).rtake
      (cache.maxSize - cache.queue.length)
    (cache.restoreAt entries now nowUnix).1 = added.length ∧
      (cache.restoreAt entries now nowUnix).2.queue = cache.queue ++ added ∧
      (cache.restoreAt entries now nowUnix).2.Aligned ∧
      (cache.restoreAt entries now nowUnix).2.ttl = cache.ttl ∧
      (cache.restoreAt entries now nowUnix).2.maxSize = cache.maxSize := by
  intro added
  obtain ⟨nodup, uncached⟩ :=
    cache.restoreCandidates_spec entries now nowUnix
  have suffix := rtake_suffix (cache.restoreCandidates entries now nowUnix)
    (cache.maxSize - cache.queue.length)
  have adopts := adopt_spec aligned
    (nodup.sublist (suffix.sublist.map Prod.fst))
    (fun entry member => uncached entry (suffix.subset member))
  rw [List.take_of_length_le (length_rtake_le _ _)] at adopts
  have unfolded : cache.restoreAt entries now nowUnix = cache.adopt added := by
    rw [restoreAt, aligned.len_eq]
    rfl
  rw [unfolded]
  exact adopts

end Candidates

theorem restoredEntry_eq {ttl age : Duration} {now : Instant}
    {nowUnix : UInt64} (key : Gamma) (ts : UInt64)
    (age_eq : Duration.fromSecs (nowUnix.toNat - ts.toNat) = age) :
    restoredEntry ttl now nowUnix (key, ts) =
      if age > ttl then none else some (key, restoredInstant now age) := by
  subst age
  rw [restoredEntry, toNat_saturatingSub]

theorem restoreAt_new {maxSize : Nat} {ttl : Duration}
    {entries : List (Gamma × UInt64)} {now : Instant} {nowUnix : UInt64}
    {restored : List (Gamma × Instant)}
    (restored_eq : entries.filterMap (restoredEntry ttl now nowUnix) =
      restored)
    (ordered : Chronological restored)
    (nodup : (restored.map Prod.fst).Nodup)
    (fits : restored.length ≤ maxSize) :
    ((new maxSize ttl).restoreAt entries now nowUnix).1 = restored.length ∧
      ((new maxSize ttl).restoreAt entries now nowUnix).2.queue = restored ∧
      ((new maxSize ttl).restoreAt entries now nowUnix).2.Aligned ∧
      ((new maxSize ttl).restoreAt entries now nowUnix).2.ttl = ttl ∧
      ((new maxSize ttl).restoreAt entries now nowUnix).2.maxSize =
        maxSize := by
  have sorted : restored.insertionSort
      (fun first second => first.2 ≤ second.2) = restored :=
    List.Pairwise.insertionSort_eq ordered
  have uncached : ∀ entry ∈ restored, entry.1 ∉ (new maxSize ttl).map :=
    fun entry _ => AList.notMem_empty entry.1
  have retained : retainUnseen (new maxSize ttl).map [] restored = restored :=
    retainUnseen_eq_self nodup uncached (by simp)
  have candidates : (new maxSize ttl).restoreCandidates entries now nowUnix =
      restored := by
    rw [restoreCandidates]
    change retainUnseen _ [] ((entries.filterMap
      (restoredEntry ttl now nowUnix)).insertionSort _) = restored
    rw [restored_eq, sorted, retained]
  obtain ⟨count, queue_eq, aligned, ttl_eq, maxSize_eq⟩ :=
    restoreAt_spec entries now nowUnix (aligned_new maxSize ttl)
  have all : restored.rtake ((new maxSize ttl).maxSize -
      (new maxSize ttl).queue.length) = restored := by
    have skip : restored.length - ((new maxSize ttl).maxSize -
        (new maxSize ttl).queue.length) = 0 :=
      Nat.sub_eq_zero_of_le fits
    rw [List.rtake, skip, List.drop_zero]
  rw [candidates, all] at count queue_eq
  exact ⟨count, queue_eq, aligned, ttl_eq, maxSize_eq⟩

end GothamRelay.ReplayCache
