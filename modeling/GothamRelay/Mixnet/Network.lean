import GothamRelay.Data.Transition
import GothamRelay.Mixnet.Legs

namespace GothamRelay

open Data

/-! Clients that ship packets through any number of relays, amid the packets of
others. The network takes its time, loses packets and repeats them. -/

variable {ρ : Type}

/-- A call of `ship_path`. -/
structure Sending (crypto : ClientCrypto ρ) where
  client : GothamClient
  rng : ρ
  path : SelectedPath
  payload : crypto.Payload
  now : Instant

/-- A packet for the relay with the key `nodeId`, which does not leave before
`due`. Nothing reads the number of the message that it is a packet of, and the
number of relays behind it. -/
structure Flight where
  message : Option Nat
  hop : Nat
  nodeId : Key
  due : Instant
  packet : List UInt8

/-- A call of `process`, and when the task for its outcome began to sleep. -/
structure Handled where
  relay : Nat
  message : Option Nat
  hop : Nat
  arrival : Arrival
  now : Instant
  outcome : ProcessOutcome

/-- `sent`, `handled` and `lost` record what happened. Nothing reads them. -/
structure Mixnet (crypto : ClientCrypto ρ) where
  relays : List (Relay × ρ)
  flights : List Flight
  sent : List (Sending crypto)
  handled : List Handled
  lost : List (Option Nat)

inductive MixnetAction (crypto : ClientCrypto ρ) where
  | ship (sending : Sending crypto)
  | inject (nodeId : Key) (packet : List UInt8) (now : Instant)
  | copy (flight : Nat)
  | lose (flight : Nat)
  | arrive (flight relay : Nat) (limiterNow replayNow now : Instant)

def Handled.onward (done : Handled) : List Flight :=
  match done.outcome with
  | .forward _ nextNodeId delay _ packet =>
      [⟨done.message, done.hop + 1, nextNodeId, done.now + delay, packet⟩]
  | .drop _ | .deliverLocal _ _ => []

namespace Mixnet

variable {crypto : ClientCrypto ρ}

def start (relays : List (Relay × ρ)) : Mixnet crypto :=
  ⟨relays, [], [], [], []⟩

def ship (net : Mixnet crypto) (sending : Sending crypto)
    (shipment : GothamClient.Shipment) : Mixnet crypto :=
  { net with
    flights := net.flights ++
      [⟨some net.sent.length, 0, shipment.entryPk, sending.now,
        shipment.packet⟩]
    sent := net.sent ++ [sending] }

def lose (net : Mixnet crypto) (index : Nat) (flight : Flight) :
    Mixnet crypto :=
  { net with
    flights := net.flights.eraseIdx index
    lost := net.lost ++ [flight.message] }

def arrive (sampling : Sampling ρ) (net : Mixnet crypto) (index : Nat)
    (flight : Flight) (relay : Nat) (state : Relay × ρ)
    (limiterNow replayNow now : Instant) : Mixnet crypto :=
  let arrival : Arrival := ⟨flight.packet, limiterNow, replayNow⟩
  let processed := state.1.process crypto.toCryptoGotham sampling state.2
    arrival
  let done : Handled :=
    ⟨relay, flight.message, flight.hop, arrival, now, processed.1⟩
  { net with
    relays := net.relays.set relay processed.2
    flights := net.flights.eraseIdx index ++ done.onward
    handled := net.handled ++ [done] }

/-- A packet is lost when its connection fails, when its next relay has no
tunnel or when that relay throttles its source. It arrives nowhere but at a
relay that has the key it is for. -/
def step (sampling : Sampling ρ) (net : Mixnet crypto) :
    MixnetAction crypto → Option (Mixnet crypto)
  | .ship sending =>
      match sending.client.shipPath crypto sampling sending.rng sending.path
          sending.payload with
      | .error _ => none
      | .ok shipment => some (net.ship sending shipment)
  | .inject nodeId packet now =>
      some { net with
        flights := net.flights ++ [⟨none, 0, nodeId, now, packet⟩] }
  | .copy index =>
      (net.flights[index]?).map fun flight =>
        { net with flights := net.flights ++ [flight] }
  | .lose index => (net.flights[index]?).map (net.lose index)
  | .arrive index relay limiterNow replayNow now =>
      match net.flights[index]?, net.relays[relay]? with
      | some flight, some state =>
          if state.1.identityPublicKey crypto.toCryptoGotham = flight.nodeId ∧
              flight.due ≤ limiterNow ∧ limiterNow ≤ replayNow ∧
              replayNow ≤ now then
            some (net.arrive sampling index flight relay state limiterNow
              replayNow now)
          else none
      | _, _ => none

inductive Stepped (sampling : Sampling ρ) (net : Mixnet crypto) :
    MixnetAction crypto → Mixnet crypto → Prop where
  | ship {sending : Sending crypto} {shipment : GothamClient.Shipment}
      (shipped : sending.client.shipPath crypto sampling sending.rng
        sending.path sending.payload = .ok shipment) :
      Stepped sampling net (.ship sending) (net.ship sending shipment)
  | inject (nodeId : Key) (packet : List UInt8) (now : Instant) :
      Stepped sampling net (.inject nodeId packet now)
        { net with
          flights := net.flights ++ [⟨none, 0, nodeId, now, packet⟩] }
  | copy {index : Nat} {flight : Flight}
      (found : net.flights[index]? = some flight) :
      Stepped sampling net (.copy index)
        { net with flights := net.flights ++ [flight] }
  | lose {index : Nat} {flight : Flight}
      (found : net.flights[index]? = some flight) :
      Stepped sampling net (.lose index) (net.lose index flight)
  | arrive {index relay : Nat} {flight : Flight} {state : Relay × ρ}
      {limiterNow replayNow now : Instant}
      (found : net.flights[index]? = some flight)
      (running : net.relays[relay]? = some state)
      (identity : state.1.identityPublicKey crypto.toCryptoGotham =
        flight.nodeId)
      (waited : flight.due ≤ now) :
      Stepped sampling net (.arrive index relay limiterNow replayNow now)
        (net.arrive sampling index flight relay state limiterNow replayNow
          now)

theorem stepped_of_step {sampling : Sampling ρ}
    {net after : Mixnet crypto} {action : MixnetAction crypto}
    (taken : net.step sampling action = some after) :
    Stepped sampling net action after := by
  cases action with
  | ship sending =>
      rw [step] at taken
      split at taken <;> cases taken
      rename_i shipped
      exact .ship shipped
  | inject nodeId packet now =>
      cases taken
      exact .inject nodeId packet now
  | copy index =>
      obtain ⟨flight, found, rfl⟩ := Option.map_eq_some_iff.mp taken
      exact .copy found
  | lose index =>
      obtain ⟨flight, found, rfl⟩ := Option.map_eq_some_iff.mp taken
      exact .lose found
  | arrive index relay limiterNow replayNow now =>
      rw [step] at taken
      split at taken
      · rename_i flight state found running
        split at taken <;> cases taken
        rename_i permitted
        obtain ⟨identity, due, checked, spawned⟩ := permitted
        exact .arrive found running identity
          (due.trans (checked.trans spawned))
      · cases taken

end Mixnet

end GothamRelay
