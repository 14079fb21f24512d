import GothamRelay.Replay.Persist
import GothamRelay.Replay.Restore
import GothamRelay.Replay.Window

namespace GothamRelay

open Data
open Data.SlidingWindow

/-! A relay that saves its replay cache, restarts and loads it again. Ages are
cut to whole seconds when they are saved and derived again from a second wall
clock reading when they are loaded. -/

/-- A run of calls, the instants of the save and of the load, and what the wall
clock reads at both: `wall` nanoseconds at the save, and as many more at the
load as the monotonic clock has advanced. -/
structure Restart where
  maxSize : Nat
  ttl : Duration
  calls : List (Gamma × Instant)
  saveAt : Instant
  loadAt : Instant
  wall : Nat
  saveUnix : UInt64
  loadUnix : UInt64
  maxSize_pos : 1 ≤ maxSize
  ordered : calls.Pairwise fun first second => first.2 ≤ second.2
  called : ∀ call ∈ calls, call.2 ≤ saveAt
  restarted : saveAt ≤ loadAt
  saveUnix_eq : saveUnix.toNat = wall / nanosPerSec
  loadUnix_eq : loadUnix.toNat = (wall + (loadAt - saveAt)) / nanosPerSec

namespace Restart

def saved (restart : Restart) : ReplayCache :=
  ((ReplayCache.new restart.maxSize restart.ttl).checkAll restart.calls).2

def file (restart : Restart) : List UInt8 :=
  Persist.encode restart.saved restart.saveAt restart.saveUnix

def load (restart : Restart) : Except IoError Nat × ReplayCache :=
  Persist.load (ReplayCache.new restart.maxSize restart.ttl)
    (.ok restart.file) restart.loadAt restart.loadUnix

/-- Neither subtraction from a clock goes below what the clock can show: not
the wall-clock time of an encoded entry, not the instant of an adopted one. -/
structure NoUnderflow (restart : Restart) : Prop where
  encoded : ∀ entry ∈ restart.saved.queue,
    restart.saveAt - entry.2 ≤ restart.ttl →
      (restart.saveAt - entry.2) / nanosPerSec ≤ restart.saveUnix.toNat
  adopted : ∀ entry ∈ restart.saved.snapshotAt restart.saveAt restart.saveUnix,
    Duration.fromSecs (restart.loadUnix.toNat - entry.2.toNat) ≤
        restart.ttl →
      Duration.fromSecs (restart.loadUnix.toNat - entry.2.toNat) ≤
        restart.loadAt

def log (restart : Restart) : Log Gamma :=
  ReplayCache.accepted
    ((ReplayCache.new restart.maxSize restart.ttl).history restart.calls)

private theorem saved_refines (restart : Restart) :
    restart.saved.Refines restart.log restart.saveAt ∧
      restart.saved.ttl = restart.ttl ∧
      restart.saved.maxSize = restart.maxSize :=
  (ReplayCache.refines_new restart.maxSize restart.ttl 0).checkAll
    restart.ordered (fun call _ => Nat.zero_le call.2)
    (Nat.zero_le restart.saveAt) restart.called

def restoredAge (restart : Restart) (ts : Instant) : Duration :=
  Duration.fromSecs (restart.loadUnix.toNat -
    (restart.saveUnix.toNat - (restart.saveAt - ts) / nanosPerSec))

def restoredAt (restart : Restart) (ts : Instant) : Instant :=
  restart.loadAt - restart.restoredAge ts

def survives (restart : Restart) (entry : Gamma × Instant) : Bool :=
  live restart.ttl restart.saveAt entry &&
    decide (restart.restoredAge entry.2 ≤ restart.ttl)

def restoredOf (restart : Restart) (queue : List (Gamma × Instant)) :
    List (Gamma × Instant) :=
  (queue.filter restart.survives).map fun entry =>
    (entry.1, restart.restoredAt entry.2)

def restored (restart : Restart) : List (Gamma × Instant) :=
  restart.restoredOf restart.saved.queue

private theorem survives_iff (restart : Restart) (entry : Gamma × Instant) :
    restart.survives entry = true ↔
      restart.saveAt - entry.2 ≤ restart.ttl ∧
        restart.restoredAge entry.2 ≤ restart.ttl := by
  rw [survives, Bool.and_eq_true, live_iff, decide_eq_true_iff]

private theorem snapshot_eq (restart : Restart) :
    restart.saved.snapshotAt restart.saveAt restart.saveUnix =
      (restart.saved.queue.filter (live restart.ttl restart.saveAt)).map
        fun entry => (entry.1, saturatingSub restart.saveUnix
          ((restart.saveAt - entry.2) / nanosPerSec)) := by
  rw [ReplayCache.snapshotAt, restart.saved_refines.2.1]
  rfl

private theorem restoredEntry_saved (restart : Restart)
    (entry : Gamma × Instant)
    (representable : restart.restoredAge entry.2 ≤ restart.ttl →
      restart.restoredAge entry.2 ≤ restart.loadAt) :
    ReplayCache.restoredEntry restart.ttl restart.loadAt restart.loadUnix
        (entry.1, saturatingSub restart.saveUnix
          ((restart.saveAt - entry.2) / nanosPerSec)) =
      if decide (restart.restoredAge entry.2 ≤ restart.ttl) = true then
        some (entry.1, restart.restoredAt entry.2)
      else none := by
  have age_eq : Duration.fromSecs (restart.loadUnix.toNat -
      (saturatingSub restart.saveUnix
        ((restart.saveAt - entry.2) / nanosPerSec)).toNat) =
      restart.restoredAge entry.2 := by
    rw [toNat_saturatingSub, restoredAge]
  rw [ReplayCache.restoredEntry_eq _ _ age_eq]
  by_cases young : restart.restoredAge entry.2 ≤ restart.ttl
  · rw [if_neg (Nat.not_lt.mpr young), if_pos (decide_eq_true young),
      ReplayCache.restoredInstant, Instant.checkedSub,
      if_pos (representable young), Option.getD_some, restoredAt]
  · rw [if_pos (Nat.not_le.mp young), if_neg]
    rw [decide_eq_true_iff]
    exact young

private theorem filterMap_ite_some (keep : α → Bool) (image : α → β)
    (list : List α) :
    (list.filterMap fun entry =>
      if keep entry = true then some (image entry) else none) =
      (list.filter keep).map image := by
  induction list with
  | nil => rfl
  | cons entry rest ih =>
      cases kept : keep entry <;> simp [kept, ih]

private theorem restoredEntry_snapshot (restart : Restart)
    (sound : restart.NoUnderflow) :
    (restart.saved.snapshotAt restart.saveAt restart.saveUnix).filterMap
        (ReplayCache.restoredEntry restart.ttl restart.loadAt
          restart.loadUnix) =
      restart.restored := by
  have bounded := sound.adopted
  rw [snapshot_eq] at bounded ⊢
  have restored_eq : restart.restored =
      ((restart.saved.queue.filter (live restart.ttl restart.saveAt)).filter
        fun entry => decide (restart.restoredAge entry.2 ≤ restart.ttl)).map
          fun entry => (entry.1, restart.restoredAt entry.2) := by
    rw [List.filter_filter, restored, restoredOf]
    congr 2
    funext entry
    exact Bool.and_comm _ _
  rw [List.filterMap_map, restored_eq, ← filterMap_ite_some]
  apply List.filterMap_congr
  intro entry member
  have entryBounded := bounded _ (List.mem_map_of_mem member)
  rw [toNat_saturatingSub, ← restoredAge] at entryBounded
  rw [Function.comp_apply, restart.restoredEntry_saved entry entryBounded]

private theorem queue_chronological (restart : Restart) :
    Chronological restart.saved.queue :=
  restart.saved_refines.1.chronological.sublist
    restart.saved_refines.1.suffix.sublist

private theorem queue_past (restart : Restart) {entry : Gamma × Instant}
    (member : entry ∈ restart.saved.queue) : entry.2 ≤ restart.saveAt :=
  restart.saved_refines.1.past entry
    (restart.saved_refines.1.suffix.subset member)

private theorem restoredAt_mono (restart : Restart) {first second : Instant}
    (le : first ≤ second) :
    restart.restoredAt first ≤ restart.restoredAt second := by
  have older : (restart.saveAt - second) / nanosPerSec ≤
      (restart.saveAt - first) / nanosPerSec :=
    Nat.div_le_div_right (Nat.sub_le_sub_left le _)
  exact Nat.sub_le_sub_left (Nat.mul_le_mul_right _
    (Nat.sub_le_sub_left (Nat.sub_le_sub_left older _) _)) _

private theorem restored_chronological (restart : Restart) :
    Chronological restart.restored := by
  rw [Chronological, restored, restoredOf, List.pairwise_map]
  apply (restart.queue_chronological.sublist List.filter_sublist).imp
  exact fun le => restart.restoredAt_mono le

private theorem restored_keys_sublist (restart : Restart) :
    (restart.restored.map Prod.fst).Sublist
      (restart.saved.queue.map Prod.fst) := by
  rw [restored, restoredOf, List.map_map]
  exact List.filter_sublist.map Prod.fst

private theorem restored_fits (restart : Restart) :
    restart.restored.length ≤ restart.maxSize := by
  obtain ⟨refines, ttl_eq, maxSize_eq⟩ := restart.saved_refines
  have window_eq := refines.window_eq restart.saveAt (Nat.le_refl _)
  have bound := length_window_le restart.saved.capacity restart.ttl
    restart.saveAt restart.log
  rw [ttl_eq] at window_eq
  rw [← window_eq] at bound
  have capacity_eq : restart.saved.capacity = restart.maxSize := by
    rw [ReplayCache.capacity, maxSize_eq]
    exact Nat.max_eq_left restart.maxSize_pos
  have fewer : restart.restored.length ≤ (restart.saved.queue.filter
      (live restart.ttl restart.saveAt)).length := by
    rw [restored, restoredOf, List.length_map]
    apply List.Sublist.length_le
    apply List.monotone_filter_right
    intro entry survives
    exact live_iff.mpr ((restart.survives_iff entry).mp survives).1
  rw [← capacity_eq]
  exact fewer.trans bound

private theorem load_refines (restart : Restart) (sound : restart.NoUnderflow) :
    restart.load.1 = .ok restart.restored.length ∧
      restart.load.2.queue = restart.restored ∧
      restart.load.2.ttl = restart.ttl ∧
      restart.load.2.capacity = restart.maxSize ∧
      restart.load.2.Refines restart.restored restart.loadAt := by
  obtain ⟨count, queue_eq, aligned, ttl_eq, maxSize_eq⟩ :=
    ReplayCache.restoreAt_new (restart.restoredEntry_snapshot sound)
      restart.restored_chronological
      (restart.saved_refines.1.aligned.nodup.sublist
        restart.restored_keys_sublist)
      restart.restored_fits
  have load_eq : restart.load =
      (.ok ((ReplayCache.new restart.maxSize restart.ttl).restoreAt
          (restart.saved.snapshotAt restart.saveAt restart.saveUnix)
          restart.loadAt restart.loadUnix).1,
        ((ReplayCache.new restart.maxSize restart.ttl).restoreAt
          (restart.saved.snapshotAt restart.saveAt restart.saveUnix)
          restart.loadAt restart.loadUnix).2) := by
    simp only [load, file, Persist.load, Persist.parse_encode]
  have capacity_eq : restart.load.2.capacity = restart.maxSize := by
    rw [load_eq, ReplayCache.capacity, maxSize_eq]
    exact Nat.max_eq_left restart.maxSize_pos
  have loaded : restart.load.2.queue = restart.restored := by
    rw [load_eq, queue_eq]
  refine ⟨?_, ?_, ?_, capacity_eq, ?_⟩
  · rw [load_eq, count]
  · exact loaded
  · rw [load_eq, ttl_eq]
  · constructor
    · rw [load_eq]
      exact aligned
    · exact restart.restored_chronological
    · intro entry member
      obtain ⟨survivor, _, rfl⟩ := List.mem_map.mp member
      exact Nat.sub_le _ _
    · exact loaded ▸ List.suffix_refl _
    · intro later _
      rw [capacity_eq, window, List.rtake,
        Nat.sub_eq_zero_of_le restart.restored_fits, List.drop_zero, load_eq,
        queue_eq]

/-- The two roundings together: an age that is saved and derived again is
less than a second too long and less than two seconds too short. -/
private theorem rounded_age_bounds {wall save load ts : Nat} (past : ts ≤ save)
    (restarted : save ≤ load)
    (encoded : (save - ts) / nanosPerSec ≤ wall / nanosPerSec) :
    ((wall + (load - save)) / nanosPerSec -
        (wall / nanosPerSec - (save - ts) / nanosPerSec)) * nanosPerSec <
        load - ts + nanosPerSec ∧
      load - ts < ((wall + (load - save)) / nanosPerSec -
        (wall / nanosPerSec - (save - ts) / nanosPerSec)) * nanosPerSec +
          2 * nanosPerSec := by
  unfold nanosPerSec at *
  omega

private theorem restoredAge_bounds (restart : Restart)
    (sound : restart.NoUnderflow)
    {entry : Gamma × Instant} (member : entry ∈ restart.saved.queue)
    (fresh : restart.saveAt - entry.2 ≤ restart.ttl) :
    restart.restoredAge entry.2 < restart.loadAt - entry.2 + nanosPerSec ∧
      restart.loadAt - entry.2 <
        restart.restoredAge entry.2 + 2 * nanosPerSec := by
  have encoded := sound.encoded entry member fresh
  rw [restart.saveUnix_eq] at encoded
  rw [restoredAge, Duration.fromSecs, restart.saveUnix_eq,
    restart.loadUnix_eq]
  exact rounded_age_bounds (restart.queue_past member) restart.restarted
    encoded

private theorem restored_of_young (restart : Restart)
    (sound : restart.NoUnderflow)
    {entry : Gamma × Instant} {checkedAt : Instant}
    (member : entry ∈ restart.saved.queue)
    (afterLoad : restart.loadAt ≤ checkedAt)
    (young : checkedAt - entry.2 + nanosPerSec ≤ restart.ttl) :
    restart.survives entry = true ∧
      checkedAt - restart.restoredAt entry.2 ≤ restart.ttl := by
  have past := restart.queue_past member
  have restarted := restart.restarted
  have fresh : restart.saveAt - entry.2 ≤ restart.ttl :=
    (Nat.sub_le_sub_right (restarted.trans afterLoad) _).trans
      ((Nat.le_add_right _ _).trans young)
  obtain ⟨short, _⟩ := restart.restoredAge_bounds sound member fresh
  have arithmetic : ∀ {ttl now load ts age second : Nat}, ts ≤ load →
      load ≤ now → now - ts + second ≤ ttl → age < load - ts + second →
      age ≤ ttl ∧ now - (load - age) ≤ ttl := by
    intro ttl now load ts age second _ _ _ _
    omega
  obtain ⟨kept, recent⟩ :=
    arithmetic (past.trans restarted) afterLoad young short
  exact ⟨(restart.survives_iff entry).mpr ⟨fresh, kept⟩, recent⟩

private theorem restoredAt_of_old (restart : Restart)
    (sound : restart.NoUnderflow)
    {entry : Gamma × Instant} {checkedAt : Instant}
    (member : entry ∈ restart.saved.queue)
    (fresh : restart.saveAt - entry.2 ≤ restart.ttl)
    (afterLoad : restart.loadAt ≤ checkedAt)
    (old : restart.ttl + 2 * nanosPerSec < checkedAt - entry.2) :
    restart.ttl < checkedAt - restart.restoredAt entry.2 := by
  have past := (restart.queue_past member).trans restart.restarted
  obtain ⟨_, long⟩ := restart.restoredAge_bounds sound member fresh
  have arithmetic : ∀ {ttl now load ts age second : Nat}, ts ≤ load →
      load ≤ now → ttl + 2 * second < now - ts →
      load - ts < age + 2 * second → ttl < now - (load - age) := by
    intro ttl now load ts age second _ _ _ _
    omega
  exact arithmetic past afterLoad old long

private theorem length_le_of_suffixes {log back later : Log Gamma}
    {entry : Gamma × Instant} (suffix : entry :: back <:+ log)
    (other : entry :: later <:+ log) (single : entry ∉ back) :
    back.length ≤ later.length := by
  by_contra longer
  have inside : entry :: later <:+ back := by
    apply List.suffix_of_suffix_length_le other
      ((List.suffix_cons entry back).trans suffix)
    rw [List.length_cons]
    omega
  exact single (inside.subset List.mem_cons_self)

private theorem blocked_of_young (restart : Restart)
    (sound : restart.NoUnderflow) {key : Gamma} {acceptedAt checkedAt : Instant}
    {earlier since : List ((Gamma × Instant) × ReplayCheck)} {log : Log Gamma}
    (accepted_eq : (ReplayCache.new restart.maxSize restart.ttl).history
      restart.calls = earlier ++ ((key, acceptedAt), .fresh) :: since)
    (member : (key, acceptedAt) ∈ restart.saved.queue)
    (afterLoad : restart.loadAt ≤ checkedAt)
    (young : checkedAt - acceptedAt + nanosPerSec ≤ restart.ttl)
    (few : (ReplayCache.accepted since).length + log.length <
      restart.maxSize) :
    Blocked restart.maxSize restart.ttl (restart.restored ++ log) key
      checkedAt := by
  obtain ⟨refines, _, _⟩ := restart.saved_refines
  obtain ⟨front, back, queue_eq⟩ := List.append_of_mem member
  have single : (key, acceptedAt) ∉ back := by
    intro again
    have nodup := refines.aligned.nodup
    rw [queue_eq, List.map_append, List.map_cons] at nodup
    exact (List.nodup_cons.mp (List.Nodup.of_append_right nodup)).1
      (List.mem_map_of_mem (f := Prod.fst) again)
  have backSuffix : (key, acceptedAt) :: back <:+ restart.log := by
    apply List.IsSuffix.trans _ refines.suffix
    rw [queue_eq]
    exact List.suffix_append front _
  have sinceSuffix : (key, acceptedAt) :: ReplayCache.accepted since <:+
      restart.log := by
    rw [Restart.log, accepted_eq, ReplayCache.accepted_append,
      ReplayCache.accepted_cons_fresh]
    exact List.suffix_append _ _
  have shorter := length_le_of_suffixes backSuffix sinceSuffix single
  obtain ⟨survives, recent⟩ :=
    restart.restored_of_young sound member afterLoad young
  have restored_eq : restart.restored = restart.restoredOf front ++
      (key, restart.restoredAt acceptedAt) :: restart.restoredOf back := by
    rw [restored, queue_eq, restoredOf, List.filter_append,
      List.filter_cons_of_pos survives, List.map_append, List.map_cons]
    rfl
  have backLength : (restart.restoredOf back).length ≤ back.length := by
    rw [restoredOf, List.length_map]
    exact List.length_filter_le _ back
  rw [blocked_iff, restored_eq, List.append_assoc, List.cons_append]
  refine ⟨_, _, _, rfl, ?_, recent⟩
  rw [List.length_append]
  exact Nat.lt_of_le_of_lt
    (Nat.add_le_add_right (backLength.trans shorter) _) few

private theorem not_blocked_of_old (restart : Restart)
    (sound : restart.NoUnderflow)
    {key : Gamma} {acceptedAt checkedAt : Instant} {log : Log Gamma}
    (member : (key, acceptedAt) ∈ restart.saved.queue)
    (afterLoad : restart.loadAt ≤ checkedAt)
    (old : restart.ttl + 2 * nanosPerSec < checkedAt - acceptedAt)
    (unaccepted : ∀ time, (key, time) ∉ log) :
    ¬ Blocked restart.maxSize restart.ttl (restart.restored ++ log) key
      checkedAt := by
  intro blocked
  obtain ⟨before, time, after, split, _, recent⟩ := blocked_iff.mp blocked
  have found : (key, time) ∈ restart.restored ++ log := by simp [split]
  rcases List.mem_append.mp found with found | found
  · obtain ⟨⟨survivorKey, ts⟩, survivor, entry_eq⟩ := List.mem_map.mp found
    obtain ⟨rfl, rfl⟩ := Prod.mk.inj entry_eq
    obtain ⟨queued, survives⟩ := List.mem_filter.mp survivor
    have same : ts = acceptedAt :=
      restart.saved_refines.1.aligned.eq_of_mem queued member
    subst ts
    have fresh := ((restart.survives_iff _).mp survives).1
    have expired := restart.restoredAt_of_old sound member fresh afterLoad old
    exact Nat.not_le.mpr expired recent
  · exact unaccepted time found

/-- Across a restart a key is blocked for at least its TTL less one second,
unless `max_size` acceptances follow, and for at most its TTL plus two seconds;
the keys that come back keep their order in the queue. -/
theorem replay_protection_survives_restart (restart : Restart)
    (sound : restart.NoUnderflow) :
    restart.load.1 = .ok restart.load.2.queue.length ∧
    (restart.load.2.queue.map Prod.fst).Sublist
      (restart.saved.queue.map Prod.fst) ∧
    ∀ (key : Gamma) (acceptedAt : Instant)
      (earlier since : List ((Gamma × Instant) × ReplayCheck)),
      (ReplayCache.new restart.maxSize restart.ttl).history restart.calls =
        earlier ++ ((key, acceptedAt), .fresh) :: since →
      (key, acceptedAt) ∈ restart.saved.queue →
      ∀ calls : List (Gamma × Instant),
        (calls.Pairwise fun first second => first.2 ≤ second.2) →
        (∀ call ∈ calls, restart.loadAt ≤ call.2) →
        ∀ (before after : List ((Gamma × Instant) × ReplayCheck))
          (checkedAt : Instant) (verdict : ReplayCheck),
          restart.load.2.history calls =
            before ++ ((key, checkedAt), verdict) :: after →
          (checkedAt - acceptedAt + nanosPerSec ≤ restart.ttl →
            (since.filter fun call => call.2 = .fresh).length +
              (before.filter fun call => call.2 = .fresh).length <
                restart.maxSize →
            verdict = .replay) ∧
          (restart.ttl + 2 * nanosPerSec < checkedAt - acceptedAt →
            (∀ time, ((key, time), .fresh) ∉ before) →
            verdict = .fresh) := by
  obtain ⟨count, queue_eq, ttl_eq, capacity_eq, refines⟩ :=
    restart.load_refines sound
  refine ⟨by rw [count, queue_eq], by
    rw [queue_eq]
    exact restart.restored_keys_sublist, ?_⟩
  intro key acceptedAt earlier since accepted_eq member calls ordered
    afterLoad before after checkedAt verdict split
  have verdict_iff := refines.verdict_iff ordered afterLoad split
  rw [ttl_eq, capacity_eq] at verdict_iff
  have checkAfterLoad : restart.loadAt ≤ checkedAt :=
    afterLoad _ (ReplayCache.mem_of_history_eq split)
  constructor
  · intro young few
    apply verdict_iff.mpr
    apply restart.blocked_of_young sound accepted_eq member checkAfterLoad
      young
    simpa only [ReplayCache.accepted, List.length_map] using few
  · intro old unaccepted
    have open_ : ¬ Blocked restart.maxSize restart.ttl
        (restart.restored ++ ReplayCache.accepted before) key checkedAt := by
      apply restart.not_blocked_of_old sound member checkAfterLoad old
      intro time found
      exact unaccepted time (ReplayCache.mem_accepted_iff.mp found)
    cases verdict with
    | fresh => rfl
    | replay => exact absurd (verdict_iff.mp rfl) open_

/-- Two keys accepted 9 s and 7.5 s before a save, loaded again 10.7 s later,
with half seconds on the wall clock. -/
def sampleRestart : Restart where
  maxSize := 4
  ttl := 300000000000
  calls := [(.replicate 16 1, 1000000000), (.replicate 16 2, 2500000000)]
  saveAt := 10000000000
  loadAt := 20700000000
  wall := 1000000500000000
  saveUnix := 1000000
  loadUnix := 1000011
  maxSize_pos := by decide
  ordered := by decide
  called := by decide
  restarted := by decide
  saveUnix_eq := by decide
  loadUnix_eq := by decide

private theorem sampleRestart_noUnderflow : sampleRestart.NoUnderflow where
  encoded := by decide +kernel
  adopted := by decide +kernel

theorem sampleRestart_still_blocks :
    sampleRestart.NoUnderflow ∧
      (sampleRestart.load.2.checkAndInsertAt (.replicate 16 1)
        250000000000).1 = .replay :=
  ⟨sampleRestart_noUnderflow,
    ((replay_protection_survives_restart sampleRestart
      sampleRestart_noUnderflow).2.2 (.replicate 16 1) 1000000000 []
      [((.replicate 16 2, 2500000000), .fresh)] (by decide +kernel)
      (by decide +kernel) [(.replicate 16 1, 250000000000)]
      (List.pairwise_singleton _ _) (by decide +kernel) [] [] 250000000000 _
      rfl).1 (by decide +kernel) (by decide +kernel)⟩

end Restart

end GothamRelay
