import GothamRelay.Replay.Cache

namespace GothamRelay

open Data

/-! What the relay and the client call in `crypto_gotham`. -/

abbrev Key := Bytes 32

inductive GothamError where
  | badMac
  | other
  deriving DecidableEq, Repr

structure RoutingRecord where
  nextIpv4 : Bytes 4
  nextPort : UInt16
  nextNodeId : Key
  nextGamma : Gamma
  delayMicros : UInt32
  flag : UInt8
  deriving DecidableEq

def RoutingRecord.zero : RoutingRecord where
  nextIpv4 := Bytes.replicate 4 0
  nextPort := 0
  nextNodeId := Bytes.replicate 32 0
  nextGamma := Bytes.replicate 16 0
  delayMicros := 0
  flag := 0

structure Unwrapped (Header : Type) where
  record : RoutingRecord
  nextHeader : Header

/-- The primitives, as pure functions on types the relay does not look into.
`lioness` works in place on a slice, so it keeps the length. -/
structure CryptoGotham where
  Header : Type
  SubKeys : Type
  packetSize : Nat
  headerLen : Nat
  headerLen_le : headerLen ≤ packetSize
  versionLegacy : UInt8
  version : Header → UInt8
  alpha : Header → Key
  gamma : Header → Gamma
  encode : Header → Bytes headerLen
  decode : Bytes headerLen → Except GothamError Header
  x25519 : Key → Key → Key
  publicKey : Key → Key
  deriveHopSubkeys : Key → Except GothamError SubKeys
  unwrapHeader : Header → SubKeys → Except GothamError (Unwrapped Header)
  isLastHop : RoutingRecord → Bool
  isViaRendezvous : RoutingRecord → Bool
  encrypt : SubKeys → List UInt8 → List UInt8
  decrypt : SubKeys → List UInt8 → List UInt8
  length_encrypt : ∀ subKeys region,
    (encrypt subKeys region).length = region.length
  length_decrypt : ∀ subKeys region,
    (decrypt subKeys region).length = region.length

/-- An instance without secrecy, on which the model can be run: a header is its
version, the index of the hop and a check byte. -/
def CryptoGotham.plain (payloadSize : Nat) (records : List RoutingRecord) :
    CryptoGotham where
  Header := Bytes 3
  SubKeys := UInt8
  packetSize := 3 + payloadSize
  headerLen := 3
  headerLen_le := Nat.le_add_right 3 payloadSize
  versionLegacy := 2
  version header := header.val.getD 0 0
  alpha header := Bytes.replicate 32 (header.val.getD 1 0)
  gamma header := Bytes.replicate 16 (header.val.getD 1 0)
  encode header := header
  decode bytes := .ok bytes
  x25519 _ peer := peer
  publicKey secret := secret
  deriveHopSubkeys shared := .ok (shared.val.getD 0 0)
  unwrapHeader header _ :=
    if header.val.getD 2 0 ≠ 0 then
      .error .badMac
    else
      match records[(header.val.getD 1 0).toNat]? with
      | none => .error .other
      | some record =>
          .ok ⟨record, ⟨[header.val.getD 0 0, header.val.getD 1 0 + 1, 0], rfl⟩⟩
  isLastHop record := record.flag = 1
  isViaRendezvous record := record.flag = 2
  encrypt subKeys region := region.map (· + subKeys)
  decrypt subKeys region := region.map (· - subKeys)
  length_encrypt _ _ := List.length_map _
  length_decrypt _ _ := List.length_map _

end GothamRelay
