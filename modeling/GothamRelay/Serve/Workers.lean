import GothamRelay.Data.Transition
import GothamRelay.Process.Relay
import GothamRelay.RateLimit.PerSource

namespace GothamRelay

open Data

/-! The tasks that feed one relay: any number of calls of `serve_connection`,
the loop of `run_rendezvous_inbound`, and the tasks these spawn to wait for the
delay of a packet. The limiter and the relay are locked one after the other,
and between two steps of a task the others may run. -/

variable {Source ρ : Type}

/-- The loop a packet is read by. Only a connection has a source whose rate is
limited. -/
inductive Ingress (Source : Type) where
  | connection (src : Source)
  | rendezvous

/-- A packet in the hands of a loop, with its position among all that were
read. -/
structure Received where
  number : Nat
  bytes : List UInt8

inductive WorkerPhase where
  | reading
  | checking (packet : Received)
  | processing (packet : Received)
  | ended

structure Worker (Source : Type) where
  ingress : Ingress Source
  phase : WorkerPhase

inductive Departure where
  | deliver (payload : List UInt8)
  | push (nextNodeId : Key) (packet : List UInt8)
  | send (nextAddr : SocketAddrV4) (nextNodeId : Key) (packet : List UInt8)
  deriving DecidableEq

def ProcessOutcome.departure : ProcessOutcome → Option (Duration × Departure)
  | .drop _ => none
  | .deliverLocal delay payload => some (delay, .deliver payload)
  | .forward nextAddr nextNodeId delay viaRendezvous packet =>
      some (delay,
        if viaRendezvous then .push nextNodeId packet
        else .send nextAddr nextNodeId packet)

/-- Only a push or a send can fail: the one finds no live tunnel, and both may
return an error, which is logged and forgotten. -/
def Departure.result (succeeds : Bool) : Departure → Bool
  | .deliver _ => true
  | .push _ _ => succeeds
  | .send _ _ _ => succeeds

structure Sleeper where
  number : Nat
  due : Instant
  departure : Departure

structure Checked (Source : Type) where
  number : Nat
  call : SourceCall Source
  decision : RateDecision

structure Processed where
  number : Nat
  arrival : Arrival
  outcome : ProcessOutcome

structure Departed where
  number : Nat
  departure : Departure
  now : Instant
  succeeded : Bool

/-- `received`, `checks`, `processed`, `departed` and `discarded` record what
happened, in order. Nothing reads them. -/
structure RelayServer (Source ρ : Type) [DecidableEq Source] where
  relay : Relay
  rng : ρ
  limiter : PerSourceLimiter Source
  hasDelivery : Bool
  workers : List (Worker Source)
  sleepers : List Sleeper
  received : List (Ingress Source × List UInt8)
  checks : List (Checked Source)
  processed : List Processed
  departed : List Departed
  discarded : List Nat

inductive ServerAction (Source : Type) where
  | accept (ingress : Ingress Source)
  | read (worker : Nat) (bytes : List UInt8)
  | close (worker : Nat)
  | check (worker : Nat) (victim : Option Source) (now : Instant)
  | process (worker : Nat) (limiterNow replayNow now : Instant)
  | wake (sleeper : Nat) (succeeds : Bool) (now : Instant)

def perSourceMaxPps : ℚ := 200

def perSourceMaxTracked : Nat := 4096

def perSourceLimiter [DecidableEq Source] : PerSourceLimiter Source :=
  .new perSourceMaxPps 0 perSourceMaxTracked

/-- A rendezvous packet goes straight to the relay. -/
def Ingress.afterRead (packet : Received) : Ingress Source → WorkerPhase
  | .connection _ => .checking packet
  | .rendezvous => .processing packet

namespace RelayServer

variable [DecidableEq Source]

/-- The limiter is shared by all servers of the process, so that it may have
been in use. -/
def start (relay : Relay) (rng : ρ) (limiter : PerSourceLimiter Source)
    (hasDelivery : Bool) : RelayServer Source ρ where
  relay := relay
  rng := rng
  limiter := limiter
  hasDelivery := hasDelivery
  workers := []
  sleepers := []
  received := []
  checks := []
  processed := []
  departed := []
  discarded := []

def setPhase (server : RelayServer Source ρ) (index : Nat)
    (ingress : Ingress Source) (phase : WorkerPhase) : RelayServer Source ρ :=
  { server with workers := server.workers.set index ⟨ingress, phase⟩ }

def read (server : RelayServer Source ρ) (index : Nat)
    (ingress : Ingress Source) (bytes : List UInt8) : RelayServer Source ρ :=
  { server.setPhase index ingress
      (ingress.afterRead ⟨server.received.length, bytes⟩) with
    received := server.received ++ [(ingress, bytes)] }

/-- A packet that is not allowed is forgotten, and the loop reads on. -/
def check (server : RelayServer Source ρ) (index : Nat) (src : Source)
    (packet : Received) (call : SourceCall Source)
    (checked : RateDecision × PerSourceLimiter Source) :
    RelayServer Source ρ :=
  { server.setPhase index (.connection src)
      (if checked.1.isAllowed then .processing packet else .reading) with
    limiter := checked.2
    checks := server.checks ++ [⟨packet.number, call, checked.1⟩] }

def sleeperOf (number : Nat) (outcome : ProcessOutcome) (now : Instant) :
    List Sleeper :=
  (outcome.departure.map fun timed =>
    ⟨number, now + timed.1, timed.2⟩).toList

def process (crypto : CryptoGotham) (sampling : Sampling ρ)
    (server : RelayServer Source ρ) (index : Nat) (ingress : Ingress Source)
    (packet : Received) (limiterNow replayNow now : Instant) :
    RelayServer Source ρ :=
  let arrival : Arrival := ⟨packet.bytes, limiterNow, replayNow⟩
  let processed := server.relay.process crypto sampling server.rng arrival
  { server.setPhase index ingress .reading with
    relay := processed.2.1
    rng := processed.2.2
    sleepers := server.sleepers ++ sleeperOf packet.number processed.1 now
    processed := server.processed ++ [⟨packet.number, arrival, processed.1⟩] }

/-- Without a handler a payload for this relay goes nowhere. -/
def wake (server : RelayServer Source ρ) (index : Nat) (sleeper : Sleeper)
    (succeeds : Bool) (now : Instant) : RelayServer Source ρ :=
  let sleepers := server.sleepers.eraseIdx index
  match sleeper.departure, server.hasDelivery with
  | .deliver _, false =>
      { server with
        sleepers, discarded := server.discarded ++ [sleeper.number] }
  | departure, _ =>
      { server with
        sleepers
        departed := server.departed ++
          [⟨sleeper.number, departure, now, departure.result succeeds⟩] }

def step (crypto : CryptoGotham) (sampling : Sampling ρ)
    (server : RelayServer Source ρ) :
    ServerAction Source → Option (RelayServer Source ρ)
  | .accept ingress =>
      some { server with workers := server.workers ++ [⟨ingress, .reading⟩] }
  | .read index bytes =>
      match server.workers[index]? with
      | some ⟨ingress, .reading⟩ => some (server.read index ingress bytes)
      | _ => none
  -- Any error of the read ends the loop.
  | .close index =>
      match server.workers[index]? with
      | some ⟨ingress, .reading⟩ => some (server.setPhase index ingress .ended)
      | _ => none
  | .check index victim now =>
      match server.workers[index]? with
      | some ⟨.connection src, .checking packet⟩ =>
          (server.limiter.checkAt victim src packet.bytes.length now).map
            (server.check index src packet
              ⟨src, victim, packet.bytes.length, now⟩)
      | _ => none
  | .process index limiterNow replayNow now =>
      match server.workers[index]? with
      | some ⟨ingress, .processing packet⟩ =>
          some (server.process crypto sampling index ingress packet limiterNow
            replayNow now)
      | _ => none
  | .wake index succeeds now =>
      match server.sleepers[index]? with
      | some sleeper =>
          if sleeper.due ≤ now then
            some (server.wake index sleeper succeeds now)
          else none
      | none => none

inductive Stepped (crypto : CryptoGotham) (sampling : Sampling ρ)
    (server : RelayServer Source ρ) :
    ServerAction Source → RelayServer Source ρ → Prop where
  | accept (ingress : Ingress Source) :
      Stepped crypto sampling server (.accept ingress)
        { server with workers := server.workers ++ [⟨ingress, .reading⟩] }
  | read {index : Nat} {ingress : Ingress Source} (bytes : List UInt8)
      (found : server.workers[index]? = some ⟨ingress, .reading⟩) :
      Stepped crypto sampling server (.read index bytes)
        (server.read index ingress bytes)
  | close {index : Nat} {ingress : Ingress Source}
      (found : server.workers[index]? = some ⟨ingress, .reading⟩) :
      Stepped crypto sampling server (.close index)
        (server.setPhase index ingress .ended)
  | check {index : Nat} {src : Source} {packet : Received}
      {victim : Option Source} {now : Instant}
      {checked : RateDecision × PerSourceLimiter Source}
      (found : server.workers[index]? =
        some ⟨.connection src, .checking packet⟩)
      (decided : server.limiter.checkAt victim src packet.bytes.length now =
        some checked) :
      Stepped crypto sampling server (.check index victim now)
        (server.check index src packet
          ⟨src, victim, packet.bytes.length, now⟩ checked)
  | process {index : Nat} {ingress : Ingress Source} {packet : Received}
      {limiterNow replayNow now : Instant}
      (found : server.workers[index]? = some ⟨ingress, .processing packet⟩) :
      Stepped crypto sampling server
        (.process index limiterNow replayNow now)
        (server.process crypto sampling index ingress packet limiterNow
          replayNow now)
  | wake {index : Nat} {sleeper : Sleeper} (succeeds : Bool) {now : Instant}
      (found : server.sleepers[index]? = some sleeper)
      (due : sleeper.due ≤ now) :
      Stepped crypto sampling server (.wake index succeeds now)
        (server.wake index sleeper succeeds now)

theorem stepped_of_step {crypto : CryptoGotham} {sampling : Sampling ρ}
    {server after : RelayServer Source ρ} {action : ServerAction Source}
    (taken : server.step crypto sampling action = some after) :
    Stepped crypto sampling server action after := by
  cases action with
  | accept ingress =>
      cases taken
      exact .accept ingress
  | read index bytes =>
      rw [step] at taken
      split at taken <;> cases taken
      rename_i found
      exact .read bytes found
  | close index =>
      rw [step] at taken
      split at taken <;> cases taken
      rename_i found
      exact .close found
  | check index victim now =>
      rw [step] at taken
      split at taken
      · rename_i found
        obtain ⟨checked, decided, rfl⟩ := Option.map_eq_some_iff.mp taken
        exact .check found decided
      · cases taken
  | process index limiterNow replayNow now =>
      rw [step] at taken
      split at taken <;> cases taken
      rename_i found
      exact .process found
  | wake index succeeds now =>
      rw [step] at taken
      split at taken
      · rename_i found
        split at taken <;> cases taken
        rename_i due
        exact .wake succeeds found due
      · cases taken

end RelayServer

end GothamRelay
