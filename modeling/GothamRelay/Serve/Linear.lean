import GothamRelay.Process.Admission
import GothamRelay.Serve.Accounting

namespace GothamRelay

open Data
open Data.SlidingWindow

variable {Source ρ : Type}

/-! ## The packets that a sequence of calls accepts -/

namespace Relay

def acceptances (crypto : CryptoGotham) (sampling : Sampling ρ) :
    Relay → ρ → List Arrival → List Arrival
  | _, _, [] => []
  | relay, rng, arrival :: arrivals =>
      let processed := relay.process crypto sampling rng arrival
      (if processed.1.admitted then [arrival] else []) ++
        acceptances crypto sampling processed.2.1 processed.2.2 arrivals

private theorem spaced_acceptances (crypto : CryptoGotham)
    (sampling : Sampling ρ)
    {relay : Relay} (rng : ρ) {clock : Instant} {prior accepted : Log Gamma}
    {arrivals : List Arrival}
    (refines : relay.replayCache.Refines (prior ++ accepted) clock)
    (ordered : (clock :: arrivals.map Arrival.replayNow).Pairwise (· ≤ ·))
    (spaced : Spaced relay.replayCache.capacity relay.replayCache.ttl
      accepted) :
    Spaced relay.replayCache.capacity relay.replayCache.ttl
      (accepted ++ (relay.acceptances crypto sampling rng arrivals).map
        (Arrival.entry crypto)) := by
  -- The induction goes along the calls. What the cache has accepted so far is
  -- split into what it had accepted before the first of them and `accepted`.
  induction arrivals generalizing relay rng clock accepted with
  | nil =>
      rw [acceptances, List.map_nil, List.append_nil]
      exact spaced
  | cons arrival arrivals ih =>
      obtain ⟨after, ordered⟩ := List.pairwise_cons.mp ordered
      obtain ⟨ttl_eq, maxSize_eq, refined, free⟩ :=
        (relay.process_admission crypto sampling rng arrival).refines
          (refines.later (after _ List.mem_cons_self))
      have capacity_eq :
          (relay.process crypto sampling rng arrival).2.1.replayCache.capacity =
            relay.replayCache.capacity := by
        rw [ReplayCache.capacity, ReplayCache.capacity, maxSize_eq]
      rw [acceptances, List.map_append, ← List.append_assoc, ← capacity_eq,
        ← ttl_eq]
      cases admitted : (relay.process crypto sampling rng
          arrival).1.admitted with
      | false =>
          rw [admitted, if_neg Bool.false_ne_true, List.append_nil] at refined
          rw [if_neg Bool.false_ne_true, List.map_nil, List.append_nil]
          apply ih _ refined ordered
          rw [capacity_eq, ttl_eq]
          exact spaced
      | true =>
          rw [admitted, if_pos rfl, List.append_assoc] at refined
          rw [if_pos rfl, List.map_singleton]
          apply ih _ refined ordered
          rw [capacity_eq, ttl_eq]
          have unblocked := fun blocked =>
            free admitted (Blocked.prepend blocked prior)
          rw [← arrival.entry_time crypto] at unblocked
          exact spaced.concat unblocked

private theorem acceptances_eq_filter (crypto : CryptoGotham)
    (sampling : Sampling ρ) (relay : Relay) (rng : ρ) (calls : List α)
    (arrival : α → Arrival) (outcome : α → ProcessOutcome)
    (outcomes_eq : calls.map outcome =
      relay.outcomes crypto sampling rng (calls.map arrival)) :
    relay.acceptances crypto sampling rng (calls.map arrival) =
      (calls.filter fun call => (outcome call).admitted).map arrival := by
  induction calls generalizing relay rng with
  | nil => rfl
  | cons call calls ih =>
      obtain ⟨first, rest⟩ := List.cons.inj outcomes_eq
      rw [List.map_cons, acceptances, ih _ _ rest, ← first,
        List.filter_cons]
      split <;> rfl

/-- Two accepted calls with the same packet are more than `ttl` apart or have
as many acceptances between them as the cache can hold. -/
theorem accepted_apart (crypto : CryptoGotham) (sampling : Sampling ρ)
    {relay : Relay} (rng : ρ) {clock : Instant} {prior : Log Gamma}
    (refines : relay.replayCache.Refines prior clock) {calls : List α}
    {arrival : α → Arrival} {outcome : α → ProcessOutcome}
    (outcomes_eq : calls.map outcome =
      relay.outcomes crypto sampling rng (calls.map arrival))
    (ordered : (clock :: calls.map
      fun call => (arrival call).replayNow).Pairwise (· ≤ ·))
    {first second : Nat} {earlier later : α} (before : first < second)
    (hadFirst : (calls.filter fun call =>
      (outcome call).admitted)[first]? = some earlier)
    (hadSecond : (calls.filter fun call =>
      (outcome call).admitted)[second]? = some later)
    (same : (arrival earlier).packet = (arrival later).packet) :
    relay.replayCache.ttl <
        (arrival later).replayNow - (arrival earlier).replayNow ∨
      relay.replayCache.capacity ≤ second - first - 1 := by
  have chronological : (clock ::
      (calls.map arrival).map Arrival.replayNow).Pairwise (· ≤ ·) := by
    rw [List.map_map]
    exact ordered
  rw [← List.append_nil prior] at refines
  have spaced := spaced_acceptances crypto sampling rng refines chronological
    (spaced_nil _ _)
  rw [List.nil_append, acceptances_eq_filter crypto sampling relay rng calls
    arrival outcome outcomes_eq, List.map_map] at spaced
  have apart := spaced first second
    ((arrival earlier).entry crypto) ((arrival later).entry crypto) before
    (by
      rw [List.getElem?_map]
      exact congrArg (Option.map _) hadFirst)
    (by
      rw [List.getElem?_map]
      exact congrArg (Option.map _) hadSecond)
    (Arrival.entry_key same)
  rwa [Arrival.entry_time, Arrival.entry_time] at apart

end Relay

namespace RelayServer

variable [DecidableEq Source]

/-! ## The server does what a single caller would -/

/-- The calls of `process`, taken in the order in which the relay was locked,
are a sequential run from the relay the server started with. -/
structure Linear (crypto : CryptoGotham) (sampling : Sampling ρ)
    (relay : Relay) (rng : ρ) (server : RelayServer Source ρ) : Prop where
  outcomes : server.processed.map Processed.outcome =
    relay.outcomes crypto sampling rng
      (server.processed.map Processed.arrival)
  state : (server.relay, server.rng) =
    settled (fun state => Relay.process crypto sampling state.1 state.2)
      (relay, rng) (server.processed.map Processed.arrival)

theorem Linear.process {crypto : CryptoGotham} {sampling : Sampling ρ}
    {relay : Relay} {rng : ρ} {server : RelayServer Source ρ}
    (linear : server.Linear crypto sampling relay rng) (index : Nat)
    (ingress : Ingress Source) (packet : Received)
    (limiterNow replayNow now : Instant) :
    (server.process crypto sampling index ingress packet limiterNow replayNow
      now).Linear crypto sampling relay rng := by
  constructor
  · simp only [RelayServer.process, List.map_append, List.map_cons,
      List.map_nil]
    rw [Relay.outcomes, outputs_concat, ← linear.state, linear.outcomes]
    rfl
  · simp only [RelayServer.process, List.map_append, List.map_cons,
      List.map_nil]
    rw [settled_concat, ← linear.state]

def Owed (server : RelayServer Source ρ) (number : Nat)
    (departure : Departure) (due : Instant) : Prop :=
  ∃ done ∈ server.processed, done.number = number ∧
    ∃ delay, done.outcome.departure = some (delay, departure) ∧
      done.arrival.replayNow + delay ≤ due

/-- The clock does not run backwards between the replay check and the spawn. -/
def Timely (_ : RelayServer Source ρ) : ServerAction Source → Prop
  | .process _ _ replayNow now => replayNow ≤ now
  | _ => True

instance decidableTimely (server : RelayServer Source ρ) :
    ∀ action, Decidable (server.Timely action)
  | .accept _ => isTrue trivial
  | .read _ _ => isTrue trivial
  | .close _ => isTrue trivial
  | .check _ _ _ => isTrue trivial
  | .process _ _ replayNow now => Nat.decLe replayNow now
  | .wake _ _ _ => isTrue trivial

structure Justified (server : RelayServer Source ρ) : Prop where
  held : ∀ worker ∈ server.workers, ∀ packet,
    worker.phase = .checking packet ∨ worker.phase = .processing packet →
      server.received[packet.number]? = some (worker.ingress, packet.bytes)
  processed : ∀ done ∈ server.processed, ∃ ingress,
    server.received[done.number]? = some (ingress, done.arrival.packet)
  sleepers : ∀ sleeper ∈ server.sleepers,
    server.Owed sleeper.number sleeper.departure sleeper.due
  departed : ∀ left ∈ server.departed,
    server.Owed left.number left.departure left.now

theorem Owed.mono {server after : RelayServer Source ρ} {number : Nat}
    {departure : Departure} {due later : Instant}
    (owed : server.Owed number departure due)
    (kept : server.processed ⊆ after.processed) (order : due ≤ later) :
    after.Owed number departure later := by
  obtain ⟨done, member, number_eq, delay, departs, waited⟩ := owed
  exact ⟨done, kept member, number_eq, delay, departs,
    Nat.le_trans waited order⟩

private theorem Justified.of_workers {server after : RelayServer Source ρ}
    (justified : server.Justified)
    (held : ∀ worker ∈ after.workers, ∀ packet,
      worker.phase = .checking packet ∨ worker.phase = .processing packet →
        after.received[packet.number]? = some (worker.ingress, packet.bytes))
    (received : server.received <+: after.received)
    (processed : after.processed = server.processed)
    (sleepers : after.sleepers = server.sleepers)
    (departed : after.departed = server.departed) : after.Justified where
  held := held
  processed done member := by
    rw [processed] at member
    obtain ⟨ingress, read⟩ := justified.processed done member
    exact ⟨ingress, getElem?_of_isPrefix received read⟩
  sleepers sleeper member := by
    rw [sleepers] at member
    exact (justified.sleepers sleeper member).mono (processed ▸ List.Subset.refl _)
      (Nat.le_refl _)
  departed left member := by
    rw [departed] at member
    exact (justified.departed left member).mono (processed ▸ List.Subset.refl _)
      (Nat.le_refl _)

private theorem Justified.held_setPhase {server : RelayServer Source ρ}
    (justified : server.Justified) (index : Nat) (ingress : Ingress Source)
    {phase : WorkerPhase}
    (fresh : ∀ packet, phase = .checking packet ∨
      phase = .processing packet →
        server.received[packet.number]? = some (ingress, packet.bytes)) :
    ∀ worker ∈ (server.setPhase index ingress phase).workers, ∀ packet,
      worker.phase = .checking packet ∨ worker.phase = .processing packet →
        server.received[packet.number]? =
          some (worker.ingress, packet.bytes) := by
  intro worker member packet holds
  cases List.mem_or_eq_of_mem_set member with
  | inl old => exact justified.held worker old packet holds
  | inr new =>
      subst worker
      exact fresh packet holds

theorem Justified.read {server : RelayServer Source ρ}
    (justified : server.Justified) (index : Nat) (ingress : Ingress Source)
    (bytes : List UInt8) : (server.read index ingress bytes).Justified := by
  have front : server.received <+: (server.read index ingress bytes).received :=
    List.prefix_append _ _
  refine justified.of_workers ?_ front rfl rfl rfl
  intro worker member packet holds
  cases List.mem_or_eq_of_mem_set member with
  | inl old =>
      exact getElem?_of_isPrefix front (justified.held worker old packet holds)
  | inr new =>
      subst worker
      have same : ⟨server.received.length, bytes⟩ = packet := by
        cases ingress <;> simpa [Ingress.afterRead] using holds
      subst packet
      exact List.getElem?_concat_length

theorem Justified.check {server : RelayServer Source ρ}
    (justified : server.Justified) {index : Nat} {src : Source}
    {packet : Received} (call : SourceCall Source)
    (checked : RateDecision × PerSourceLimiter Source)
    (found : server.workers[index]? =
      some ⟨.connection src, .checking packet⟩) :
    (server.check index src packet call checked).Justified := by
  refine justified.of_workers ?_ (List.prefix_refl _) rfl rfl rfl
  apply justified.held_setPhase
  intro other holds
  have kept := justified.held _ (List.mem_of_getElem? found) packet (.inl rfl)
  split at holds
  · have same : packet = other := by simpa using holds
    exact same ▸ kept
  · simp at holds

theorem Justified.process {crypto : CryptoGotham} {sampling : Sampling ρ}
    {server : RelayServer Source ρ} (justified : server.Justified)
    {index : Nat} {ingress : Ingress Source} {packet : Received}
    (limiterNow : Instant) {replayNow now : Instant} (timely : replayNow ≤ now)
    (found : server.workers[index]? = some ⟨ingress, .processing packet⟩) :
    (server.process crypto sampling index ingress packet limiterNow replayNow
      now).Justified := by
  have more : server.processed ⊆ (server.process crypto sampling index ingress
      packet limiterNow replayNow now).processed :=
    List.subset_append_left _ _
  constructor
  · apply justified.held_setPhase
    simp
  · intro done member
    cases List.mem_append.mp member with
    | inl old => exact justified.processed done old
    | inr new =>
        rw [List.mem_singleton.mp new]
        exact ⟨ingress, justified.held _ (List.mem_of_getElem? found) packet
          (.inr rfl)⟩
  · intro sleeper member
    cases List.mem_append.mp member with
    | inl old => exact (justified.sleepers sleeper old).mono more (Nat.le_refl _)
    | inr new =>
        rw [sleeperOf, Option.mem_toList] at new
        obtain ⟨timed, departs, rfl⟩ := Option.map_eq_some_iff.mp new
        exact ⟨_, List.mem_append_right _ List.mem_cons_self, rfl, timed.1,
          departs, Nat.add_le_add_right timely _⟩
  · intro left member
    exact (justified.departed left member).mono more (Nat.le_refl _)

theorem Justified.wake {server : RelayServer Source ρ}
    (justified : server.Justified) {index : Nat} {sleeper : Sleeper}
    (succeeds : Bool) {now : Instant}
    (found : server.sleepers[index]? = some sleeper)
    (due : sleeper.due ≤ now) :
    (server.wake index sleeper succeeds now).Justified := by
  have owed := justified.sleepers sleeper (List.mem_of_getElem? found)
  rw [RelayServer.wake.eq_def]
  split
  · exact ⟨justified.held, justified.processed,
      fun other member => justified.sleepers other
        (List.mem_of_mem_eraseIdx member), justified.departed⟩
  · refine ⟨justified.held, justified.processed,
      fun other member => justified.sleepers other
        (List.mem_of_mem_eraseIdx member), ?_⟩
    intro left member
    cases List.mem_append.mp member with
    | inl old => exact justified.departed left old
    | inr new =>
        rw [List.mem_singleton.mp new]
        exact owed.mono (List.Subset.refl _) due

/-! ## Whole runs -/

theorem Justified.of_step {crypto : CryptoGotham} {sampling : Sampling ρ}
    {before after : RelayServer Source ρ} {action : ServerAction Source}
    (justified : before.Justified) (timely : before.Timely action)
    (taken : before.step crypto sampling action = some after) :
    after.Justified := by
  cases stepped_of_step taken with
  | accept ingress =>
      refine justified.of_workers ?_ (List.prefix_refl _) rfl rfl rfl
      intro worker member packet holds
      cases List.mem_append.mp member with
      | inl old => exact justified.held worker old packet holds
      | inr new =>
          rw [List.mem_singleton.mp new] at holds
          simp at holds
  | read bytes found => exact justified.read _ _ bytes
  | close found =>
      refine justified.of_workers ?_ (List.prefix_refl _) rfl rfl rfl
      apply justified.held_setPhase
      simp
  | check found decided => exact justified.check _ _ found
  | process found => exact justified.process _ timely found
  | wake succeeds found due => exact justified.wake succeeds found due

theorem Linear.of_step {crypto : CryptoGotham} {sampling : Sampling ρ}
    {relay : Relay} {rng : ρ} {before after : RelayServer Source ρ}
    {action : ServerAction Source}
    (linear : before.Linear crypto sampling relay rng)
    (taken : before.step crypto sampling action = some after) :
    after.Linear crypto sampling relay rng := by
  cases stepped_of_step taken with
  | accept ingress => exact { linear with }
  | read bytes found => exact { linear with }
  | close found => exact { linear with }
  | check found decided => exact { linear with }
  | process found => exact linear.process _ _ _ _ _ _
  | wake succeeds found due =>
      rw [RelayServer.wake.eq_def]
      split <;> exact { linear with }

/-- What the server hands out is what a relay hands out that is given the same
packets one after the other, and no sooner than the delay of the packet. -/
structure Serves (crypto : CryptoGotham) (sampling : Sampling ρ)
    (relay : Relay) (rng : ρ) (server : RelayServer Source ρ) : Prop where
  outcomes : server.processed.map Processed.outcome =
    relay.outcomes crypto sampling rng
      (server.processed.map Processed.arrival)
  read : ∀ done ∈ server.processed, ∃ ingress,
    server.received[done.number]? = some (ingress, done.arrival.packet)
  departed : ∀ left ∈ server.departed, ∃ done ∈ server.processed,
    done.number = left.number ∧
      ∃ delay, done.outcome.departure = some (delay, left.departure) ∧
        done.arrival.replayNow + delay ≤ left.now

theorem justified_start (relay : Relay) (rng : ρ)
    (limiter : PerSourceLimiter Source) (hasDelivery : Bool) :
    (start relay rng limiter hasDelivery).Justified where
  held _ member := absurd member List.not_mem_nil
  processed _ member := absurd member List.not_mem_nil
  sleepers _ member := absurd member List.not_mem_nil
  departed _ member := absurd member List.not_mem_nil

theorem linear_of_trace {crypto : CryptoGotham} {sampling : Sampling ρ}
    {relay : Relay} {rng : ρ} {limiter : PerSourceLimiter Source}
    {hasDelivery : Bool}
    {allowed : RelayServer Source ρ → ServerAction Source → Prop}
    {actions : List (ServerAction Source)} {server : RelayServer Source ρ}
    (trace : Trace (step crypto sampling) allowed
      (start relay rng limiter hasDelivery) actions server) :
    server.Linear crypto sampling relay rng := by
  apply trace.invariant fun _ server => server.Linear crypto sampling relay rng
  · exact ⟨rfl, rfl⟩
  · intro _ before after action linear _ taken
    exact linear.of_step taken

private theorem justified_of_trace {crypto : CryptoGotham}
    {sampling : Sampling ρ}
    {relay : Relay} {rng : ρ} {limiter : PerSourceLimiter Source}
    {hasDelivery : Bool} {actions : List (ServerAction Source)}
    {server : RelayServer Source ρ}
    (trace : Trace (step crypto sampling) Timely
      (start relay rng limiter hasDelivery) actions server) :
    server.Justified := by
  apply trace.invariant fun _ server => server.Justified
  · exact justified_start relay rng limiter hasDelivery
  · intro _ before after action justified timely taken
    exact justified.of_step timely taken

theorem server_serves_as_one_caller (crypto : CryptoGotham)
    (sampling : Sampling ρ) (relay : Relay) (rng : ρ)
    (limiter : PerSourceLimiter Source) (hasDelivery : Bool)
    {actions : List (ServerAction Source)} {server : RelayServer Source ρ}
    (trace : Trace (step crypto sampling) Timely
      (start relay rng limiter hasDelivery) actions server) :
    server.Serves crypto sampling relay rng where
  outcomes := (linear_of_trace trace).outcomes
  read := (justified_of_trace trace).processed
  departed := (justified_of_trace trace).departed

private theorem sampleServer_trace :
    Trace (step sampleCrypto .plain) Timely sampleStart sampleActions
      sampleServer :=
  Trace.of_permitted (by decide +kernel) (by decide +kernel)

theorem sample_server_serves_as_one_caller :
    sampleServer.departed.map Departed.departure =
        [.deliver [6],
          .send ⟨Bytes.replicate 4 0, 9⟩ (Bytes.replicate 32 0) [3, 2, 0, 4]] ∧
      sampleServer.Serves sampleCrypto .plain
        (Relay.new (Bytes.replicate 32 7) 8 10 0 0) () :=
  ⟨by decide +kernel, server_serves_as_one_caller sampleCrypto .plain
    (Relay.new (Bytes.replicate 32 7) 8 10 0 0) () (.new 1 0 2) true
    sampleServer_trace⟩

/-! ## A packet leaves once while it is remembered -/

def accepted (server : RelayServer Source ρ) : List Processed :=
  server.processed.filter fun done => done.outcome.admitted

/-- Every departure is owed to an accepted packet of its own, and two copies of
one packet are accepted more than `ttl` apart or with `capacity` other
acceptances between them. -/
structure LeavesOnce (capacity : Nat) (ttl : Duration)
    (server : RelayServer Source ρ) : Prop where
  once : (server.departed.map Departed.number).Nodup
  owed : ∀ left ∈ server.departed, ∃ done ∈ server.accepted,
    done.number = left.number ∧ ∃ ingress,
      server.received[left.number]? = some (ingress, done.arrival.packet)
  repeated : ∀ {first second : Nat} {earlier later : Processed},
    first < second → server.accepted[first]? = some earlier →
      server.accepted[second]? = some later →
        earlier.arrival.packet = later.arrival.packet →
          ttl < later.arrival.replayNow - earlier.arrival.replayNow ∨
            capacity ≤ second - first - 1

private theorem admitted_of_departure {outcome : ProcessOutcome}
    {timed : Duration × Departure}
    (departs : outcome.departure = some timed) : outcome.admitted = true := by
  cases outcome with
  | drop reason => cases departs
  | forward nextAddr nextNodeId delay viaRendezvous packet => rfl
  | deliverLocal delay payload => rfl

/-- The relay lock puts the calls into the order of the clock. -/
theorem copies_leave_only_when_forgotten (crypto : CryptoGotham)
    (sampling : Sampling ρ) (relay : Relay) (rng : ρ)
    (limiter : PerSourceLimiter Source) (hasDelivery : Bool)
    {clock : Instant} {prior : Log Gamma}
    (refines : relay.replayCache.Refines prior clock)
    {actions : List (ServerAction Source)} {server : RelayServer Source ρ}
    (trace : Trace (step crypto sampling) Timely
      (start relay rng limiter hasDelivery) actions server)
    (ordered : (clock :: server.processed.map
      fun done => done.arrival.replayNow).Pairwise (· ≤ ·)) :
    server.LeavesOnce relay.replayCache.capacity relay.replayCache.ttl := by
  have linear := linear_of_trace trace
  have justified := justified_of_trace trace
  constructor
  · have places_nodup := (accounted_of_trace trace).nodup
    rw [places, List.append_assoc, List.nodup_append] at places_nodup
    exact (List.nodup_append.mp places_nodup.2.1).1
  · intro left member
    obtain ⟨done, processed, number_eq, delay, departs, _⟩ :=
      justified.departed left member
    refine ⟨done, List.mem_filter.mpr ⟨processed, ?_⟩, number_eq, ?_⟩
    · exact admitted_of_departure departs
    · rw [← number_eq]
      exact justified.processed done processed
  · intro first second earlier later before hadFirst hadSecond same
    exact Relay.accepted_apart crypto sampling rng refines linear.outcomes
      ordered before hadFirst hadSecond same

theorem sample_copies_leave_only_when_forgotten :
    sampleServer.accepted.map Processed.number = [1, 0, 3] ∧
      sampleServer.LeavesOnce 8 10 :=
  ⟨by decide +kernel, copies_leave_only_when_forgotten sampleCrypto .plain
    (Relay.new (Bytes.replicate 32 7) 8 10 0 0) () (.new 1 0 2) true
    (ReplayCache.refines_new 8 10 0) sampleServer_trace (by decide +kernel)⟩

end RelayServer

end GothamRelay
