import GothamRelay.Process.Relay

namespace GothamRelay

open Data

inductive SocketAddr where
  | v4 (addr : SocketAddrV4)
  | v6 (ip : Bytes 16) (port : UInt16)

/-- What the client asks of a relay descriptor: the results of its accessors
and of parsing its address. -/
structure RelayDescriptor where
  kemPubkeyBytes : Except GothamError Key
  hasRendezvous : Bool
  ipv4Octets : Except GothamError (Bytes 4)
  port : Except GothamError UInt16
  addr : Except Unit SocketAddr

structure SelectedPath where
  entry : RelayDescriptor
  rest : List RelayDescriptor

def SelectedPath.hops (path : SelectedPath) : List RelayDescriptor :=
  path.entry :: path.rest

inductive ClientError where
  | payloadTooLarge
  | badHopCount
  | pathSelection
  | badDirectory (text : String)
  | crypto
  deriving DecidableEq

structure ClientCrypto (ρ : Type) extends CryptoGotham where
  trailerLen : Nat
  modeBalanced : UInt8
  flagIsLastHop : UInt8
  flagViaRendezvous : UInt8
  /-- `RoutingRecord::default`. -/
  defaultRecord : RoutingRecord
  deriveRouteSecrets : ρ → List Key →
    Except GothamError (List Key × List SubKeys × ρ)
  fillBytes : ρ → (width : Nat) → Bytes width × ρ
  wrapHeader : ρ → UInt8 → List Key → List SubKeys → List RoutingRecord →
    Bytes trailerLen → Except GothamError (Header × ρ)

namespace CryptoGotham

def maxPayloadSize (crypto : CryptoGotham) : Nat :=
  crypto.packetSize - crypto.headerLen

abbrev Payload (crypto : CryptoGotham) :=
  { payload : List UInt8 // payload.length ≤ crypto.maxPayloadSize }

def Payload.padded {crypto : CryptoGotham} (payload : crypto.Payload) :
    List UInt8 :=
  payload.val ++
    List.replicate (crypto.maxPayloadSize - payload.val.length) 0

/-- `for sub in sub_keys.iter().rev()`: the last hop's layer goes on first. -/
def wrapLayers (crypto : CryptoGotham) (subKeys : List crypto.SubKeys)
    (region : List UInt8) : List UInt8 :=
  subKeys.reverse.foldl (fun region sub => crypto.encrypt sub region) region

end CryptoGotham

structure GothamClient where
  meanHopDelayMicros : UInt64

namespace GothamClient

/-- At least one microsecond, since zero asks the relay to draw. -/
def senderHopDelayMicros (sampling : Sampling ρ)
    (scheduler : PoissonScheduler) (rng : ρ) : UInt32 × ρ :=
  let drawn := scheduler.nextDelay sampling rng
  let micros := min drawn.1.asMicros (UInt32.size - 1)
  (UInt32.ofNat (max micros 1), drawn.2)

def routingRecord (crypto : ClientCrypto ρ) :
    Option RelayDescriptor → Except ClientError RoutingRecord
  | none => .ok { crypto.defaultRecord with flag := crypto.flagIsLastHop }
  | some next => do
      let nextNodeId ← next.kemPubkeyBytes.mapError fun _ =>
        ClientError.badDirectory "next node id"
      if next.hasRendezvous then
        return { crypto.defaultRecord with
          nextNodeId, flag := crypto.flagViaRendezvous }
      let nextIpv4 ← next.ipv4Octets.mapError fun _ =>
        ClientError.badDirectory "non-ipv4 next addr"
      let nextPort ← next.port.mapError fun _ =>
        ClientError.badDirectory "bad next port"
      return { crypto.defaultRecord with nextNodeId, nextIpv4, nextPort }

def routingRecords (crypto : ClientCrypto ρ) (sampling : Sampling ρ)
    (scheduler : PoissonScheduler) :
    ρ → List RelayDescriptor → Except ClientError (List RoutingRecord × ρ)
  | rng, [] => .ok ([], rng)
  | rng, _ :: rest => do
      let record ← routingRecord crypto rest.head?
      let drawn := senderHopDelayMicros sampling scheduler rng
      let later ← routingRecords crypto sampling scheduler drawn.2 rest
      return ({ record with delayMicros := drawn.1 } :: later.1, later.2)

/-- The arguments of the call of `forward_packet`. -/
structure Shipment where
  entryAddr : SocketAddr
  entryPk : Key
  packet : List UInt8

def shipPath (crypto : ClientCrypto ρ) (sampling : Sampling ρ)
    (client : GothamClient) (rng : ρ) (path : SelectedPath)
    (payload : crypto.Payload) : Except ClientError Shipment := do
  let recipientPks ← (path.hops.mapM
    RelayDescriptor.kemPubkeyBytes).mapError fun _ =>
      ClientError.badDirectory "relay kem pubkey malformed"
  let secrets ← (crypto.deriveRouteSecrets rng recipientPks).mapError fun _ =>
    ClientError.crypto
  let records ← routingRecords crypto sampling
    (PoissonScheduler.new client.meanHopDelayMicros) secrets.2.2 path.hops
  let trailer := crypto.fillBytes records.2 crypto.trailerLen
  let header ← (crypto.wrapHeader trailer.2 crypto.modeBalanced secrets.1
    secrets.2.1 records.1 trailer.1).mapError fun _ => ClientError.crypto
  let packet := (crypto.encode header.1).val ++
    crypto.wrapLayers secrets.2.1 payload.padded
  let entryAddr ← path.entry.addr.mapError fun _ =>
    ClientError.badDirectory "entry addr parse"
  let entryPk ← path.entry.kemPubkeyBytes.mapError fun _ =>
    ClientError.badDirectory "entry kem pk"
  return { entryAddr, entryPk, packet }

/-- `send`, with the path selection as a parameter. -/
def send (crypto : ClientCrypto ρ) (sampling : Sampling ρ)
    (client : GothamClient) (rng : ρ)
    (pick : ρ → Nat → Except Unit (SelectedPath × ρ)) (hopCount : Nat)
    (payload : List UInt8) : Except ClientError Shipment :=
  if fits : payload.length ≤ crypto.maxPayloadSize then
    if 3 ≤ hopCount ∧ hopCount ≤ 5 then do
      let picked ← (pick rng hopCount).mapError fun _ =>
        ClientError.pathSelection
      client.shipPath crypto sampling picked.2 picked.1 ⟨payload, fits⟩
    else
      .error .badHopCount
  else
    .error .payloadTooLarge

/-- `send_to_exit`: the checks of `send`, and a path that ends at the exit. -/
def sendToExit (crypto : ClientCrypto ρ) (sampling : Sampling ρ)
    (client : GothamClient) (rng : ρ)
    (pickToExit : ρ → Nat → RelayDescriptor →
      Except Unit (SelectedPath × ρ)) (hopCount : Nat)
    (exit : RelayDescriptor) (payload : List UInt8) :
    Except ClientError Shipment :=
  client.send crypto sampling rng
    (fun rng hopCount => pickToExit rng hopCount exit) hopCount payload

end GothamClient

end GothamRelay
