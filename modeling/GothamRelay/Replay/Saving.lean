import GothamRelay.Process.Relay
import GothamRelay.Replay.WriteEncoded

namespace GothamRelay

open Data
open Persist

/-! The replay cache on its way to the disk: the periodic task and the shutdown
save encode it under the relay lock, and write it with `write_encoded`. -/

def Relay.encodeReplay (relay : Relay) (now : Instant) (nowUnix : UInt64) :
    Option (List UInt8 × Path) :=
  relay.replayPath.map fun path =>
    (Persist.encode relay.replayCache now nowUnix, path)

def Persist.Writers.returned (writers : Writers) : Option Nat → Bool
  | none => true
  | some call =>
      match writers.calls[call]? with
      | some ⟨_, .returned _⟩ => true
      | _ => false

def Persist.CallPhase.isWaiting : CallPhase → Bool
  | .waiting => true
  | _ => false

def Persist.Writers.waits (writers : Writers) : List Bool :=
  writers.calls.map fun call => call.phase.isWaiting

/-- A relay that is saved to `path`. Its calls of `write_encoded` are in the
order in which their buffers were encoded; `tick` is the last one of the
periodic task and `shutdown` that of the shutdown save. -/
structure Saving (path : Path) (ρ : Type) where
  relay : Relay
  persists : relay.replayPath = some path
  rng : ρ
  writers : Writers
  tick : Option Nat
  shutdown : Option Nat

inductive SavingAction where
  | packet (arrival : Arrival)
  | tick (now : Instant) (nowUnix : UInt64)
  | shutdown (now : Instant) (nowUnix : UInt64)
  | write (action : WriteAction)

namespace Saving

variable {path : Path} {ρ : Type}

/-- `persist_replay` writes under the relay lock, so nothing else is done with
the relay until its call has returned. -/
def relayFree (state : Saving path ρ) : Bool :=
  state.writers.returned state.shutdown

def packet (crypto : CryptoGotham) (sampling : Sampling ρ)
    (state : Saving path ρ) (arrival : Arrival) : Saving path ρ :=
  { state with
    relay := (state.relay.process crypto sampling state.rng arrival).2.1
    persists := (state.relay.process_replayPath crypto sampling state.rng
      arrival).trans state.persists
    rng := (state.relay.process crypto sampling state.rng arrival).2.2 }

/-- The path that comes with the buffer is `path`, by `persists`. -/
def step (crypto : CryptoGotham) (sampling : Sampling ρ)
    (state : Saving path ρ) : SavingAction → Option (Saving path ρ)
  | .packet arrival =>
      if state.relayFree then some (state.packet crypto sampling arrival)
      else none
  | .tick now nowUnix =>
      -- The task awaits its write before the next tick.
      if state.relayFree ∧ state.writers.returned state.tick then
        (state.relay.encodeReplay now nowUnix).map fun encoded =>
          { state with
            writers := state.writers.call encoded.1
            tick := some state.writers.calls.length }
      else none
  | .shutdown now nowUnix =>
      if state.shutdown.isNone then
        (state.relay.encodeReplay now nowUnix).map fun encoded =>
          { state with
            writers := state.writers.call encoded.1
            shutdown := some state.writers.calls.length }
      else none
  -- Calls are made only by the two tasks.
  | .write (.call _) => none
  | .write action =>
      (state.writers.step path action).map fun writers =>
        { state with writers }

def start (relay : Relay) (persists : relay.replayPath = some path) (rng : ρ)
    (fs : FileSystem Path) : Saving path ρ where
  relay := relay
  persists := persists
  rng := rng
  writers := .start fs
  tick := none
  shutdown := none

inductive Stepped (crypto : CryptoGotham) (sampling : Sampling ρ)
    (state : Saving path ρ) : SavingAction → Saving path ρ → Prop where
  | packet (arrival : Arrival) :
      Stepped crypto sampling state (.packet arrival)
        (state.packet crypto sampling arrival)
  | tick (now : Instant) (nowUnix : UInt64) :
      Stepped crypto sampling state (.tick now nowUnix)
        { state with
          writers := state.writers.call
            (Persist.encode state.relay.replayCache now nowUnix)
          tick := some state.writers.calls.length }
  | shutdown (now : Instant) (nowUnix : UInt64)
      (first : state.shutdown = none) :
      Stepped crypto sampling state (.shutdown now nowUnix)
        { state with
          writers := state.writers.call
            (Persist.encode state.relay.replayCache now nowUnix)
          shutdown := some state.writers.calls.length }
  | write {action : WriteAction} {writers : Writers}
      (stepped : state.writers.Stepped path action writers)
      (running : ∀ buf, action ≠ .call buf) :
      Stepped crypto sampling state (.write action) { state with writers }

private theorem encodeReplay_eq {relay : Relay}
    (persists : relay.replayPath = some path) (now : Instant)
    (nowUnix : UInt64) :
    relay.encodeReplay now nowUnix =
      some (Persist.encode relay.replayCache now nowUnix, path) := by
  rw [Relay.encodeReplay, persists, Option.map_some]

theorem stepped_of_step {crypto : CryptoGotham} {sampling : Sampling ρ}
    {state after : Saving path ρ} {action : SavingAction}
    (taken : state.step crypto sampling action = some after) :
    Stepped crypto sampling state action after := by
  rw [step.eq_def] at taken
  split at taken
  · split at taken <;> cases taken
    exact .packet _
  · rw [encodeReplay_eq state.persists] at taken
    split at taken <;> cases taken
    exact .tick _ _
  · rw [encodeReplay_eq state.persists] at taken
    split at taken <;> cases taken
    rename_i first
    exact .shutdown _ _ (Option.isNone_iff_eq_none.mp first)
  · cases taken
  · rename_i running
    obtain ⟨writers, stepped, rfl⟩ := Option.map_eq_some_iff.mp taken
    exact .write (Writers.stepped_of_step stepped) running

/-! ## Writes in the order of their encodings -/

def keysIn (bytes : List UInt8) : List Gamma :=
  match Persist.parse bytes with
  | .ok entries => entries.map Prod.fst
  | .error _ => []

def savedKeys (state : Saving path ρ) : List Gamma :=
  match state.shutdown with
  | none => []
  | some call => ((state.writers.bufs[call]?).map keysIn).getD []

/-- A call takes the lock only when none that was encoded before it still
waits for it, and a tick after the shutdown save finds what that has saved
still live in the cache. -/
def Orderly (state : Saving path ρ) : SavingAction → Prop
  | .write (.lock call) =>
      ∀ earlier < call, state.writers.waits[earlier]? ≠ some true
  | .tick now _ =>
      ∀ key ∈ state.savedKeys, ∃ entry ∈ state.relay.replayCache.queue,
        entry.1 = key ∧
          now.durationSince entry.2 ≤ state.relay.replayCache.ttl
  | _ => True

instance decidableOrderly (state : Saving path ρ) :
    ∀ action, Decidable (state.Orderly action)
  | .write (.lock call) =>
      inferInstanceAs (Decidable (∀ earlier < call, _ ≠ _))
  | .tick now _ =>
      inferInstanceAs (Decidable (∀ key ∈ state.savedKeys,
        ∃ entry ∈ state.relay.replayCache.queue, entry.1 = key ∧
          now.durationSince entry.2 ≤ state.relay.replayCache.ttl))
  | .packet _ => isTrue trivial
  | .shutdown _ _ => isTrue trivial
  | .write (.call _) => isTrue trivial
  | .write (.openTmp _) => isTrue trivial
  | .write (.setPermissions _) => isTrue trivial
  | .write (.write _ _) => isTrue trivial
  | .write (.sync _) => isTrue trivial
  | .write (.rename _) => isTrue trivial
  | .write (.fail _ _) => isTrue trivial

private theorem waits_of_getElem {writers : Writers} {call : Nat}
    {buf : List UInt8}
    {phase : CallPhase} (found : writers.calls[call]? = some ⟨buf, phase⟩) :
    writers.waits[call]? = some phase.isWaiting := by
  rw [Writers.waits, List.getElem?_map, found, Option.map_some]

private theorem waits_setCall {writers : Writers} {call : Nat}
    {buf : List UInt8} {phase next : CallPhase}
    (found : writers.calls[call]? = some ⟨buf, phase⟩)
    (same : next.isWaiting = phase.isWaiting) :
    (writers.setCall call buf next).waits = writers.waits :=
  map_set_of_eq found same

private theorem waits_call (writers : Writers) (buf : List UInt8) :
    (writers.call buf).waits = writers.waits ++ [true] := by
  rw [Writers.waits, Writers.call, List.map_append]
  rfl

structure Ordered (waits : List Bool) (holder : Option Nat)
    (completed : List Nat) : Prop where
  taken : ∀ {earlier later : Nat}, waits[earlier]? = some false →
    waits[later]? = some true → earlier < later
  done : ∀ {call : Nat}, call ∈ completed → waits[call]? = some false
  below : ∀ {call : Nat}, holder = some call → ∀ other ∈ completed, other < call
  increasing : completed.Pairwise (· < ·)

section Ordered

variable {waits : List Bool} {holder : Option Nat} {completed : List Nat}

theorem Ordered.call (ordered : Ordered waits holder completed) :
    Ordered (waits ++ [true]) holder completed := by
  refine ⟨?_, ?_, ordered.below, ordered.increasing⟩
  · intro earlier later done waiting
    cases getElem?_append_singleton_cases done with
    | inl new => cases new
    | inr old =>
        have inside := (List.getElem?_eq_some_iff.mp old).1
        cases Nat.lt_or_ge later waits.length with
        | inl known =>
            rw [List.getElem?_append_left known] at waiting
            exact ordered.taken old waiting
        | inr new => exact Nat.lt_of_lt_of_le inside new
  · intro call member
    have old := ordered.done member
    rw [List.getElem?_append_left (List.getElem?_eq_some_iff.mp old).1]
    exact old

private theorem Ordered.acquire (ordered : Ordered waits none completed)
    {call : Nat} (waited : waits[call]? = some true)
    (turn : ∀ earlier < call, waits[earlier]? ≠ some true) :
    Ordered (waits.set call false) (some call) completed := by
  refine ⟨?_, ?_, ?_, ordered.increasing⟩
  · intro earlier later done waiting
    cases getElem?_set_cases waiting with
    | inl here => cases here.2
    | inr still =>
        cases getElem?_set_cases done with
        | inl here =>
            rw [here.1]
            exact Nat.lt_of_le_of_ne
              (Nat.le_of_not_lt fun before => turn later before still.2)
              still.1.symm
        | inr old => exact ordered.taken old.2 still.2
  · intro other member
    have done := ordered.done member
    have ne : call ≠ other := by
      intro same
      rw [← same, waited] at done
      cases done
    rw [List.getElem?_set_ne ne]
    exact done
  · intro other locked earlier member
    cases locked
    exact ordered.taken (ordered.done member) waited

theorem Ordered.advance (ordered : Ordered waits holder completed)
    {later : List Bool} (same : later = waits) :
    Ordered later holder completed := by
  rw [same]
  exact ordered

private theorem Ordered.release (ordered : Ordered waits holder completed) :
    Ordered waits none completed :=
  ⟨ordered.taken, ordered.done, nofun, ordered.increasing⟩

theorem Ordered.complete {call : Nat}
    (ordered : Ordered waits (some call) completed)
    (served : waits[call]? = some false) :
    Ordered waits none (completed ++ [call]) := by
  refine ⟨ordered.taken, ?_, nofun, ?_⟩
  · intro other member
    cases List.mem_append.mp member with
    | inl old => exact ordered.done old
    | inr new =>
        rw [List.mem_singleton.mp new]
        exact served
  · rw [List.pairwise_append]
    refine ⟨ordered.increasing, List.pairwise_singleton _ _, ?_⟩
    intro other member last isLast
    rw [List.mem_singleton.mp isLast]
    exact ordered.below rfl other member

private theorem Ordered.le_last (ordered : Ordered waits holder completed)
    {call last : Nat} (member : call ∈ completed)
    (isLast : completed.getLast? = some last) : call ≤ last := by
  obtain ⟨earlier, rfl⟩ := List.getLast?_eq_some_iff.mp isLast
  cases List.mem_append.mp member with
  | inl before =>
      exact Nat.le_of_lt ((List.pairwise_append.mp ordered.increasing).2.2
        call before last (List.mem_singleton_self last))
  | inr same => exact Nat.le_of_eq (List.mem_singleton.mp same)

end Ordered

private theorem ordered_of_stepped {before : Option (List UInt8)}
    {writers after : Writers} {action : WriteAction}
    (ordered : Ordered writers.waits writers.lock writers.completed)
    (sound : Writers.Sound path before writers)
    (turn : ∀ call, action = .lock call →
      ∀ earlier < call, writers.waits[earlier]? ≠ some true)
    (stepped : writers.Stepped path action after) :
    Ordered after.waits after.lock after.completed := by
  cases stepped with
  | call buf => exact ordered.call.advance (waits_call writers buf)
  | @lock call buf found free =>
      rw [free] at ordered
      exact (ordered.acquire (waits_of_getElem found) (turn call rfl)).advance
        List.map_set
  | openTmp found => exact ordered.advance (waits_setCall found rfl)
  | setPermissions found => exact ordered.advance (waits_setCall found rfl)
  | write found fits => exact ordered.advance (waits_setCall found rfl)
  | sync found => exact ordered.advance (waits_setCall found rfl)
  | rename found renamed =>
      rw [sound.holder found rfl] at ordered
      exact (ordered.complete (waits_of_getElem found)).advance
        (waits_setCall found rfl)
  | @fail call buf phase action error found holding =>
      refine ordered.release.advance (waits_setCall found ?_)
      cases phase with
      | waiting => cases holding
      | _ => rfl

/-! ## What the shutdown save has saved -/

private theorem bufs_of_stepped {writers after : Writers} {action : WriteAction}
    (stepped : writers.Stepped path action after)
    (running : ∀ buf, action ≠ .call buf) : after.bufs = writers.bufs := by
  cases stepped with
  | call buf => exact absurd rfl (running buf)
  | lock found free => exact Writers.bufs_setCall found _
  | openTmp found => exact Writers.bufs_setCall found _
  | setPermissions found => exact Writers.bufs_setCall found _
  | write found fits => exact Writers.bufs_setCall found _
  | sync found => exact Writers.bufs_setCall found _
  | rename found renamed => exact Writers.bufs_setCall found _
  | fail error found holding => exact Writers.bufs_setCall found _

private theorem mem_keysIn_encode {cache : ReplayCache} {now : Instant}
    {nowUnix : UInt64} {key : Gamma} {ts : Instant}
    (queued : (key, ts) ∈ cache.queue)
    (live : now.durationSince ts ≤ cache.ttl) :
    key ∈ keysIn (Persist.encode cache now nowUnix) := by
  simp only [keysIn, Persist.parse_encode, ReplayCache.snapshotAt,
    List.map_map]
  refine List.mem_map.mpr ⟨(key, ts), ?_, rfl⟩
  exact List.mem_filter.mpr ⟨queued, decide_eq_true live⟩

structure Kept (bufs : List (List UInt8)) (shutdown : Option Nat) :
    Prop where
  known : ∀ {call : Nat}, shutdown = some call → call < bufs.length
  later : ∀ {call next : Nat} {saved encoded : List UInt8},
    shutdown = some call → bufs[call]? = some saved → call < next →
      bufs[next]? = some encoded → ∀ key ∈ keysIn saved, key ∈ keysIn encoded

theorem Kept.tick {bufs : List (List UInt8)} {shutdown : Option Nat}
    (kept : Kept bufs shutdown) {buf : List UInt8}
    (holds : ∀ {call : Nat} {saved : List UInt8}, shutdown = some call →
      bufs[call]? = some saved → ∀ key ∈ keysIn saved, key ∈ keysIn buf) :
    Kept (bufs ++ [buf]) shutdown := by
  refine ⟨?_, ?_⟩
  · intro call isShutdown
    have inside := kept.known isShutdown
    simp only [List.length_append, List.length_singleton]
    omega
  · intro call next saved encoded isShutdown hadSaved before hadEncoded
    rw [List.getElem?_append_left (kept.known isShutdown)] at hadSaved
    cases getElem?_append_singleton_cases hadEncoded with
    | inl new =>
        rw [new]
        exact holds isShutdown hadSaved
    | inr old => exact kept.later isShutdown hadSaved before old

private theorem kept_shutdown (bufs : List (List UInt8)) (buf : List UInt8) :
    Kept (bufs ++ [buf]) (some bufs.length) := by
  refine ⟨?_, ?_⟩
  · intro call isShutdown
    cases isShutdown
    simp
  · intro call next saved encoded isShutdown _ before hadEncoded
    cases isShutdown
    have inside := (List.getElem?_eq_some_iff.mp hadEncoded).1
    simp only [List.length_append, List.length_singleton] at inside
    omega

structure Safe (before : Option (List UInt8)) (state : Saving path ρ) :
    Prop where
  sound : state.writers.Sound path before
  ordered : Ordered state.writers.waits state.writers.lock
    state.writers.completed
  kept : Kept state.writers.bufs state.shutdown

private theorem bufs_call (writers : Writers) (buf : List UInt8) :
    (writers.call buf).bufs = writers.bufs ++ [buf] := by
  rw [Writers.bufs, Writers.call, List.map_append]
  rfl

theorem Safe.of_stepped {crypto : CryptoGotham} {sampling : Sampling ρ}
    {before : Option (List UInt8)} {state after : Saving path ρ}
    {action : SavingAction} (separate : path.tmp ≠ path)
    (safe : state.Safe before) (orderly : state.Orderly action)
    (stepped : Stepped crypto sampling state action after) :
    after.Safe before := by
  cases stepped with
  | packet arrival => exact ⟨safe.sound, safe.ordered, safe.kept⟩
  | tick now nowUnix =>
      refine ⟨safe.sound.call _, safe.ordered.call.advance (waits_call _ _),
        ?_⟩
      rw [bufs_call]
      refine safe.kept.tick ?_
      intro call saved isShutdown hadSaved key member
      have known : key ∈ state.savedKeys := by
        rw [savedKeys, isShutdown]
        simpa only [hadSaved, Option.map_some, Option.getD_some] using member
      obtain ⟨⟨_, ts⟩, queued, rfl, live⟩ := orderly key known
      exact mem_keysIn_encode queued live
  | shutdown now nowUnix first =>
      refine ⟨safe.sound.call _, safe.ordered.call.advance (waits_call _ _),
        ?_⟩
      rw [bufs_call, ← List.length_map WriteCall.buf]
      exact kept_shutdown _ _
  | @write action writers stepped running =>
      refine ⟨safe.sound.of_stepped separate stepped, ordered_of_stepped
        safe.ordered safe.sound ?_ stepped, ?_⟩
      · intro call isLock
        subst action
        exact orderly
      · rw [bufs_of_stepped stepped running]
        exact safe.kept

structure Forward (before : Option (List UInt8)) (state : Saving path ρ) :
    Prop where
  increasing : state.writers.completed.Pairwise (· < ·)
  content : state.writers.fs.read path = state.writers.latest before
  saved : ∀ {call : Nat} {saved : List UInt8},
    state.shutdown = some call → call ∈ state.writers.completed →
      state.writers.bufs[call]? = some saved →
        ∃ file, state.writers.fs.read path = some file ∧
          ∀ key ∈ keysIn saved, key ∈ keysIn file

theorem Safe.forward {before : Option (List UInt8)} {state : Saving path ρ}
    (safe : state.Safe before) : state.Forward before := by
  refine ⟨safe.ordered.increasing, safe.sound.content, ?_⟩
  intro call saved isShutdown completed hadSaved
  obtain ⟨last, isLast⟩ : ∃ last,
      state.writers.completed.getLast? = some last :=
    Option.isSome_iff_exists.mp
      (List.getLast?_isSome.mpr (List.ne_nil_of_mem completed))
  obtain ⟨file, had, read⟩ := safe.sound.read_last isLast
  refine ⟨file, read, ?_⟩
  cases Nat.eq_or_lt_of_le (safe.ordered.le_last completed isLast) with
  | inl same =>
      subst last
      cases had.symm.trans hadSaved
      exact fun _ member => member
  | inr later => exact safe.kept.later isShutdown hadSaved later had

theorem replay_snapshot_never_goes_back (crypto : CryptoGotham)
    (sampling : Sampling ρ) (separate : path.extension ≠ some "tmp")
    (relay : Relay) (persists : relay.replayPath = some path) (rng : ρ)
    (fs : FileSystem Path) {actions : List SavingAction}
    {state : Saving path ρ}
    (trace : Trace (step crypto sampling) Orderly
      (start relay persists rng fs) actions state) :
    state.Forward (fs.read path) := by
  have safe : state.Safe (fs.read path) := by
    apply trace.invariant fun _ state => state.Safe (fs.read path)
    · exact ⟨Writers.sound_start path fs, ⟨nofun, nofun, nofun, .nil⟩,
        ⟨nofun, nofun⟩⟩
    · intro _ before after action safe orderly taken
      exact safe.of_stepped (Path.tmp_ne separate) orderly
        (stepped_of_step taken)
  exact safe.forward

def sampleCrypto : CryptoGotham :=
  .plain 2 [{ RoutingRecord.zero with flag := 1 }]

def samplePath : Path := ⟨"", "replay", some "bin"⟩

def sampleRelay : Relay :=
  { Relay.new (Bytes.replicate 32 7) 4 1000 0 0 with
    replayPath := some samplePath }

def sampleStart : Saving samplePath Unit :=
  start sampleRelay rfl () .empty

def sampleWrite (call : Nat) (length : Nat) : List SavingAction :=
  [.write (.lock call), .write (.openTmp call),
    .write (.setPermissions call), .write (.write call length),
    .write (.sync call), .write (.rename call)]

/-- A tick encodes the empty cache, a packet is accepted, and the shutdown
save encodes the cache with its key. -/
def sampleEncodes : List SavingAction :=
  [.tick 1 10, .packet ⟨[3, 0, 0, 5, 6], 2, 2⟩, .shutdown 3 10]

def sampleRun (actions : List SavingAction) : Saving samplePath Unit :=
  (Trace.exec (step sampleCrypto .plain) sampleStart actions).getD sampleStart

/-- The tick takes `WRITE_LOCK` before the shutdown save, and another tick
follows. -/
def tickFirst : List SavingAction :=
  sampleEncodes ++ sampleWrite 0 8 ++ sampleWrite 1 32 ++ [.tick 4 10] ++
    sampleWrite 2 32

theorem tickFirst_keeps_saved_key :
    (sampleRun tickFirst).writers.completed = [0, 1, 2] ∧
      (sampleRun tickFirst).Forward none :=
  ⟨by decide +kernel, replay_snapshot_never_goes_back sampleCrypto .plain
    (by decide) sampleRelay rfl () .empty
    (Trace.of_permitted (by decide +kernel) (by decide +kernel))⟩

def shutdownFirst : List SavingAction :=
  sampleEncodes ++ sampleWrite 1 32 ++ sampleWrite 0 8

/-- Both calls have returned, and the key that the shutdown save had written
is gone from the file. -/
theorem late_tick_loses_saved_key :
    ∃ state : Saving samplePath Unit,
      Trace (step sampleCrypto .plain) (fun _ _ => True) sampleStart
        shutdownFirst state ∧
      state.shutdown = some 1 ∧ state.writers.completed = [1, 0] ∧
      state.writers.returned (some 0) = true ∧
      state.writers.returned (some 1) = true ∧
      (state.writers.bufs[1]?).map keysIn = some [Bytes.replicate 16 0] ∧
      (state.writers.fs.read samplePath).map keysIn = some [] :=
  ⟨sampleRun shutdownFirst,
    Trace.of_possible (by decide +kernel),
    by decide +kernel⟩

end Saving

end GothamRelay
