import GothamRelay.Data.Ledger
import GothamRelay.Serve.Workers

namespace GothamRelay

open Data

variable {Source ρ : Type}

def WorkerPhase.held : WorkerPhase → List Nat
  | .checking packet => [packet.number]
  | .processing packet => [packet.number]
  | .reading => []
  | .ended => []

private theorem Ingress.held_afterRead (ingress : Ingress Source)
    (packet : Received) : (ingress.afterRead packet).held = [packet.number] := by
  cases ingress <;> rfl

namespace RelayServer

variable [DecidableEq Source]

/-! ## Where a packet can be -/

def held (server : RelayServer Source ρ) : List Nat :=
  server.workers.flatMap fun worker => worker.phase.held

def throttled (server : RelayServer Source ρ) : List Nat :=
  (server.checks.filter fun check => !check.decision.isAllowed).map
    Checked.number

def dropped (server : RelayServer Source ρ) : List Nat :=
  (server.processed.filter fun done => done.outcome.departure.isNone).map
    Processed.number

def asleep (server : RelayServer Source ρ) : List Nat :=
  server.sleepers.map Sleeper.number

def departures (server : RelayServer Source ρ) : List Nat :=
  server.departed.map Departed.number

def gone (server : RelayServer Source ρ) : List Nat :=
  (server.departed.filter fun left => left.succeeded).map Departed.number

def failed (server : RelayServer Source ρ) : List Nat :=
  (server.departed.filter fun left => !left.succeeded).map Departed.number

private theorem gone_append_failed_perm (server : RelayServer Source ρ) :
    (server.gone ++ server.failed).Perm server.departures := by
  rw [gone, failed, ← List.map_append]
  exact (List.filter_append_perm _ server.departed).map Departed.number

def places (server : RelayServer Source ρ) : List Nat :=
  server.held ++ server.throttled ++ server.dropped ++ server.asleep ++
    server.departures ++ server.discarded

private theorem count_places (server : RelayServer Source ρ) (item : Nat) :
    server.places.count item =
      server.held.count item + server.throttled.count item +
        server.dropped.count item + server.asleep.count item +
        server.departures.count item + server.discarded.count item := by
  simp only [places, List.count_append]

private theorem count_held_setPhase {server : RelayServer Source ρ}
    {index : Nat} {ingress : Ingress Source} {before : WorkerPhase}
    (found : server.workers[index]? = some ⟨ingress, before⟩)
    (after : WorkerPhase) (item : Nat) :
    (server.setPhase index ingress after).held.count item +
        before.held.count item =
      server.held.count item + after.held.count item :=
  count_flatMap_set (fun worker : Worker Source => worker.phase.held) found
    ⟨ingress, after⟩ item

/-! ## One step moves at most one packet -/

private theorem accounted_read {server : RelayServer Source ρ} {index : Nat}
    {ingress : Ingress Source} (bytes : List UInt8)
    (found : server.workers[index]? = some ⟨ingress, .reading⟩)
    (accounted : Accounted server.received.length server.places) :
    Accounted (server.read index ingress bytes).received.length
      (server.read index ingress bytes).places := by
  have length_eq : (server.read index ingress bytes).received.length =
      server.received.length + 1 := List.length_append
  rw [length_eq]
  refine accounted.added fun item => ?_
  have moved := count_held_setPhase found
    (ingress.afterRead ⟨server.received.length, bytes⟩) item
  rw [Ingress.held_afterRead] at moved
  rw [count_places, List.count_cons, count_places]
  simp only [WorkerPhase.held, List.count_nil, List.count_singleton] at moved
  simp only [read, held, throttled, dropped, asleep, departures, setPhase]
    at moved ⊢
  omega

private theorem accounted_check {server : RelayServer Source ρ} {index : Nat}
    {src : Source} {packet : Received} (call : SourceCall Source)
    (checked : RateDecision × PerSourceLimiter Source)
    (found : server.workers[index]? =
      some ⟨.connection src, .checking packet⟩)
    (accounted : Accounted server.received.length server.places) :
    Accounted (server.check index src packet call checked).received.length
      (server.check index src packet call checked).places := by
  change Accounted server.received.length _
  refine accounted.moved fun item => ?_
  have moved := count_held_setPhase found
    (if checked.1.isAllowed then .processing packet else .reading) item
  rw [count_places, count_places]
  cases allowed : checked.1.isAllowed with
  | true =>
      simp only [allowed, if_true, WorkerPhase.held] at moved
      simp only [check, allowed, if_true, held, throttled, dropped, asleep,
        departures, setPhase, List.filter_append, List.filter_cons,
        List.filter_nil, Bool.not_true, Bool.false_eq_true, if_false,
        List.append_nil] at moved ⊢
      omega
  | false =>
      simp only [allowed, Bool.false_eq_true, if_false, WorkerPhase.held]
        at moved
      simp only [check, allowed, Bool.false_eq_true, if_false, held,
        throttled, dropped, asleep, departures, setPhase, List.filter_append,
        List.filter_cons, List.filter_nil, Bool.not_false, if_true,
        List.map_append, List.count_append, List.map_cons, List.map_nil,
        List.count_nil] at moved ⊢
      omega

private theorem accounted_process {crypto : CryptoGotham}
    {sampling : Sampling ρ}
    {server : RelayServer Source ρ} {index : Nat} {ingress : Ingress Source}
    {packet : Received} (limiterNow replayNow now : Instant)
    (found : server.workers[index]? = some ⟨ingress, .processing packet⟩)
    (accounted : Accounted server.received.length server.places) :
    let after := server.process crypto sampling index ingress packet
      limiterNow replayNow now
    Accounted after.received.length after.places := by
  change Accounted server.received.length _
  refine accounted.moved fun item => ?_
  have moved := count_held_setPhase found .reading item
  simp only [WorkerPhase.held, List.count_nil] at moved
  rw [count_places, count_places]
  cases departs : (server.relay.process crypto sampling server.rng
      ⟨packet.bytes, limiterNow, replayNow⟩).1.departure with
  | none =>
      simp only [process, departs, sleeperOf, held, throttled, dropped,
        asleep, departures, setPhase, List.filter_append, List.filter_cons,
        List.filter_nil, Option.isNone_none, if_true, Option.map_none,
        Option.toList_none, List.append_nil, List.map_append,
        List.count_append, List.map_cons, List.map_nil] at moved ⊢
      omega
  | some timed =>
      simp only [process, departs, sleeperOf, held, throttled, dropped,
        asleep, departures, setPhase, List.filter_append, List.filter_cons,
        List.filter_nil, Option.isNone_some, Bool.false_eq_true, if_false,
        Option.map_some, Option.toList_some, List.append_nil,
        List.map_append, List.count_append, List.map_cons, List.map_nil]
        at moved ⊢
      omega

private theorem accounted_wake {server : RelayServer Source ρ} {index : Nat}
    {sleeper : Sleeper} (succeeds : Bool) (now : Instant)
    (found : server.sleepers[index]? = some sleeper)
    (accounted : Accounted server.received.length server.places) :
    Accounted (server.wake index sleeper succeeds now).received.length
      (server.wake index sleeper succeeds now).places := by
  have moved := count_map_eraseIdx Sleeper.number found
  rw [wake.eq_def]
  split
  · refine accounted.moved fun item => ?_
    have taken := moved item
    rw [count_places, count_places]
    simp only [held, throttled, dropped, asleep, departures, List.count_append]
    omega
  · refine accounted.moved fun item => ?_
    have taken := moved item
    rw [count_places, count_places]
    simp only [held, throttled, dropped, asleep, departures, List.map_append,
      List.count_append, List.map_cons, List.map_nil]
    omega

private theorem accounted_of_step {crypto : CryptoGotham}
    {sampling : Sampling ρ}
    {before after : RelayServer Source ρ} {action : ServerAction Source}
    (taken : before.step crypto sampling action = some after)
    (accounted : Accounted before.received.length before.places) :
    Accounted after.received.length after.places := by
  cases stepped_of_step taken with
  | accept ingress =>
      refine accounted.moved fun item => ?_
      rw [count_places, count_places]
      simp only [held, throttled, dropped, asleep, departures,
        List.flatMap_append, List.flatMap_cons, List.flatMap_nil,
        WorkerPhase.held, List.append_nil]
  | read bytes found => exact accounted_read bytes found accounted
  | close found =>
      refine accounted.moved fun item => ?_
      have moved := count_held_setPhase found .ended item
      simp only [WorkerPhase.held, List.count_nil, Nat.add_zero] at moved
      rw [count_places, count_places, moved]
      rfl
  | check found decided => exact accounted_check _ _ found accounted
  | process found => exact accounted_process _ _ _ found accounted
  | wake succeeds found due => exact accounted_wake _ _ found accounted

theorem accounted_of_trace {crypto : CryptoGotham} {sampling : Sampling ρ}
    {relay : Relay} {rng : ρ} {limiter : PerSourceLimiter Source}
    {hasDelivery : Bool}
    {allowed : RelayServer Source ρ → ServerAction Source → Prop}
    {actions : List (ServerAction Source)} {server : RelayServer Source ρ}
    (trace : Trace (step crypto sampling) allowed
      (start relay rng limiter hasDelivery) actions server) :
    Accounted server.received.length server.places := by
  apply trace.invariant fun _ server =>
    Accounted server.received.length server.places
  · exact Accounted.empty
  · intro _ before after action accounted _ taken
    exact accounted_of_step taken accounted

def sampleCrypto : CryptoGotham :=
  .plain 1
    [{ RoutingRecord.zero with flag := 1, delayMicros := 1 },
      { RoutingRecord.zero with nextPort := 9, delayMicros := 2 },
      { RoutingRecord.zero with flag := 2, delayMicros := 3 }]

def sampleStart : RelayServer Bool Unit :=
  start (Relay.new (Bytes.replicate 32 7) 8 10 0 0) () (.new 1 0 2) true

/-- The neighbour's packet comes twice and cannot be sent on, and the next one
of the connection comes too soon. -/
def sampleActions : List (ServerAction Bool) :=
  [.accept (.connection true), .accept .rendezvous,
    .read 0 [3, 1, 0, 5], .read 1 [3, 0, 0, 6],
    .check 0 none 0, .process 1 0 0 1, .process 0 1 2 2,
    .read 0 [3, 1, 0, 5], .read 1 [3, 2, 0, 7],
    .check 0 none 2, .process 0 3 3 3, .process 1 4 4 5,
    .read 0 [3, 0, 0, 8], .check 0 none 6, .read 1 [3, 1, 1, 9],
    .wake 0 true 1001, .wake 0 false 2005]

def sampleServer : RelayServer Bool Unit :=
  (Trace.exec (step sampleCrypto .plain) sampleStart sampleActions).getD
    sampleStart

end RelayServer

end GothamRelay
