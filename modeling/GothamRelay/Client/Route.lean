import Mathlib.Data.List.Forall2
import GothamRelay.Client.ShipPath

namespace GothamRelay

open Data

/-! ## What is assumed of the primitives -/

variable {ρ : Type}

/-- The route secrets of a sender are the ones the recipients will derive. -/
inductive Agreed (crypto : CryptoGotham) :
    List Key → List Key → List crypto.SubKeys → Prop where
  | nil : Agreed crypto [] [] []
  | cons {recipient alpha : Key} {subKeys : crypto.SubKeys}
      (derives : ∀ secret, crypto.publicKey secret = recipient →
        crypto.deriveHopSubkeys (crypto.x25519 secret alpha) = .ok subKeys)
      (rest : Agreed crypto recipients alphas keys) :
      Agreed crypto (recipient :: recipients) (alpha :: alphas)
        (subKeys :: keys)

/-- A header whose layers come off one by one, each giving its record up to
`next_gamma`, which the wrapping may fill in. -/
inductive Onion (crypto : CryptoGotham) :
    crypto.Header → List Key → List crypto.SubKeys → List RoutingRecord →
      Prop where
  | nil (header : crypto.Header) : Onion crypto header [] [] []
  | cons {header next : crypto.Header} {subKeys : crypto.SubKeys}
      {record : RoutingRecord} (nextGamma : Gamma)
      (unwraps : crypto.unwrapHeader header subKeys =
        .ok ⟨{ record with nextGamma }, next⟩)
      (rest : Onion crypto next alphas keys records) :
      Onion crypto header (crypto.alpha header :: alphas) (subKeys :: keys)
        (record :: records)

structure ClientCrypto.Laws (crypto : ClientCrypto ρ) : Prop where
  defaultRecord_eq : crypto.defaultRecord = .zero
  decode_encode : ∀ header, crypto.decode (crypto.encode header) = .ok header
  decrypt_encrypt : ∀ subKeys region,
    crypto.decrypt subKeys (crypto.encrypt subKeys region) = region
  agreed : ∀ {rng rng' recipients alphas subKeys},
    crypto.deriveRouteSecrets rng recipients = .ok (alphas, subKeys, rng') →
      Agreed crypto.toCryptoGotham recipients alphas subKeys
  onion : ∀ {rng rng' recipients alphas subKeys},
    crypto.deriveRouteSecrets rng recipients = .ok (alphas, subKeys, rng') →
      ∀ {rng rng' mode records trailer header},
        records.length = recipients.length →
          crypto.wrapHeader rng mode alphas subKeys records trailer =
              .ok (header, rng') →
            Onion crypto.toCryptoGotham header alphas subKeys records
  isLastHop_last : ∀ record : RoutingRecord,
    record.flag = crypto.flagIsLastHop → crypto.isLastHop record = true
  isLastHop_next : ∀ record : RoutingRecord,
    record.flag = 0 ∨ record.flag = crypto.flagViaRendezvous →
      crypto.isLastHop record = false
  isViaRendezvous_via : ∀ record : RoutingRecord,
    record.flag = crypto.flagViaRendezvous →
      crypto.isViaRendezvous record = true
  isViaRendezvous_zero : ∀ record : RoutingRecord,
    record.flag = 0 → crypto.isViaRendezvous record = false

/-! ## The hops of a path -/

/-- A hop as its descriptor gives it: a rendezvous hop has no address. -/
structure Hop where
  kem : Key
  endpoint : Option SocketAddrV4

structure RelayDescriptor.Describes (descriptor : RelayDescriptor)
    (hop : Hop) : Prop where
  kem : descriptor.kemPubkeyBytes = .ok hop.kem
  hasRendezvous : descriptor.hasRendezvous = hop.endpoint.isNone
  endpoint : ∀ addr, hop.endpoint = some addr →
    descriptor.ipv4Octets = .ok addr.ip ∧ descriptor.port = .ok addr.port

namespace Hop

def unspecified : SocketAddrV4 := ⟨Bytes.replicate 4 0, 0⟩

def addr (hop : Hop) : SocketAddrV4 := hop.endpoint.getD unspecified

def recordTo (crypto : ClientCrypto ρ) (hop : Hop) (delayMicros : UInt32) :
    RoutingRecord :=
  { crypto.defaultRecord with
    nextIpv4 := (hop.endpoint.map SocketAddrV4.ip).getD
      crypto.defaultRecord.nextIpv4
    nextPort := (hop.endpoint.map SocketAddrV4.port).getD
      crypto.defaultRecord.nextPort
    nextNodeId := hop.kem
    delayMicros
    flag := if hop.endpoint.isNone then crypto.flagViaRendezvous
      else crypto.defaultRecord.flag }

def lastRecord (crypto : ClientCrypto ρ) (delayMicros : UInt32) :
    RoutingRecord :=
  { crypto.defaultRecord with delayMicros, flag := crypto.flagIsLastHop }

def records (crypto : ClientCrypto ρ) :
    List Hop → List UInt32 → List RoutingRecord
  | [], [delay] => [lastRecord crypto delay]
  | next :: rest, delay :: delays =>
      next.recordTo crypto delay :: records crypto rest delays
  | _, _ => []

theorem length_records (crypto : ClientCrypto ρ) {hops : List Hop}
    {delays : List UInt32} (enough : delays.length = hops.length + 1) :
    (records crypto hops delays).length = hops.length + 1 := by
  induction hops generalizing delays with
  | nil =>
      obtain ⟨delay, rfl⟩ := List.length_eq_one_iff.mp enough
      rfl
  | cons next rest ih =>
      cases delays with
      | nil => cases enough
      | cons delay delays =>
          rw [records, List.length_cons,
            ih (Nat.succ.inj enough), List.length_cons]

end Hop

namespace GothamClient

def drawDelays (sampling : Sampling ρ) (scheduler : PoissonScheduler) :
    ρ → Nat → List UInt32 × ρ
  | rng, 0 => ([], rng)
  | rng, count + 1 =>
      let drawn := senderHopDelayMicros sampling scheduler rng
      let later := drawDelays sampling scheduler drawn.2 count
      (drawn.1 :: later.1, later.2)

private theorem senderHopDelayMicros_ne_zero (sampling : Sampling ρ)
    (scheduler : PoissonScheduler) (rng : ρ) :
    (senderHopDelayMicros sampling scheduler rng).1 ≠ 0 := by
  intro zero
  have value := congrArg UInt32.toNat zero
  have bound : ∀ micros : Nat,
      max (min micros (UInt32.size - 1)) 1 < UInt32.size := by
    intro micros
    have size : UInt32.size = 4294967296 := rfl
    omega
  rw [senderHopDelayMicros, UInt32.toNat_ofNat_of_lt' (bound _)] at value
  have positive := Nat.le_max_right
    (min (scheduler.nextDelay sampling rng).1.asMicros (UInt32.size - 1)) 1
  rw [value] at positive
  exact absurd positive (by decide)

theorem drawDelays_ne_zero (sampling : Sampling ρ)
    (scheduler : PoissonScheduler) (rng : ρ) (count : Nat) :
    ∀ delay ∈ (drawDelays sampling scheduler rng count).1, delay ≠ 0 := by
  induction count generalizing rng with
  | zero => exact fun delay member => absurd member List.not_mem_nil
  | succ count ih =>
      intro delay member
      cases List.mem_cons.mp member with
      | inl head =>
          exact head ▸ senderHopDelayMicros_ne_zero sampling scheduler rng
      | inr tail => exact ih _ delay tail

theorem length_drawDelays (sampling : Sampling ρ)
    (scheduler : PoissonScheduler) (rng : ρ) (count : Nat) :
    (drawDelays sampling scheduler rng count).1.length = count := by
  induction count generalizing rng with
  | zero => rfl
  | succ count ih => exact congrArg Nat.succ (ih _)

private theorem routingRecord_of_describes (crypto : ClientCrypto ρ)
    {next : RelayDescriptor} {hop : Hop} (described : next.Describes hop) :
    routingRecord crypto (some next) =
      .ok (hop.recordTo crypto crypto.defaultRecord.delayMicros) := by
  cases endpoint : hop.endpoint with
  | none =>
      have rendezvous := described.hasRendezvous
      rw [endpoint] at rendezvous
      simp only [routingRecord, described.kem, rendezvous]
      simp only [Hop.recordTo, endpoint]
      rfl
  | some addr =>
      have rendezvous := described.hasRendezvous
      rw [endpoint] at rendezvous
      obtain ⟨ip, port⟩ := described.endpoint addr endpoint
      simp only [routingRecord, described.kem, rendezvous, ip, port]
      simp only [Hop.recordTo, endpoint]
      rfl

theorem routingRecords_of_describes (crypto : ClientCrypto ρ)
    (sampling : Sampling ρ) (scheduler : PoissonScheduler)
    {rest : List RelayDescriptor} {hops : List Hop}
    (described : List.Forall₂ RelayDescriptor.Describes rest hops)
    (entry : RelayDescriptor) (rng : ρ) :
    let drawn := drawDelays sampling scheduler rng (hops.length + 1)
    routingRecords crypto sampling scheduler rng (entry :: rest) =
      .ok (Hop.records crypto hops drawn.1, drawn.2) := by
  induction described generalizing entry rng with
  | nil => rfl
  | @cons next hop rest hops head tail ih =>
      have later := ih next (senderHopDelayMicros sampling scheduler rng).2
      rw [routingRecords, List.head?_cons,
        routingRecord_of_describes crypto head]
      simp only [bind, Except.bind, later]
      rfl

theorem mapM_kemPubkeyBytes {rest : List RelayDescriptor} {hops : List Hop}
    (described : List.Forall₂ RelayDescriptor.Describes rest hops) :
    rest.mapM RelayDescriptor.kemPubkeyBytes = .ok (hops.map Hop.kem) := by
  induction described with
  | nil => rfl
  | cons head tail ih =>
      rw [List.mapM_cons, head.kem, ih]
      rfl

/-- `ship_path` succeeds whenever the descriptors are well formed and the two
cryptographic steps succeed, and this is the packet it ships. -/
theorem shipPath_of_describes (crypto : ClientCrypto ρ)
    (sampling : Sampling ρ) (client : GothamClient) {rng : ρ}
    {path : SelectedPath} (payload : crypto.Payload) {entryKem : Key}
    {entryAddr : SocketAddr} {hops : List Hop}
    (identified : path.entry.kemPubkeyBytes = .ok entryKem)
    (parsed : path.entry.addr = .ok entryAddr)
    (described : List.Forall₂ RelayDescriptor.Describes path.rest hops)
    {alphas : List Key} {subKeys : List crypto.SubKeys} {afterSecrets : ρ}
    (derived : crypto.deriveRouteSecrets rng (entryKem :: hops.map Hop.kem) =
      .ok (alphas, subKeys, afterSecrets))
    {delays : List UInt32} {afterDelays : ρ}
    (drawn : drawDelays sampling
      (PoissonScheduler.new client.meanHopDelayMicros) afterSecrets
        (hops.length + 1) = (delays, afterDelays))
    {trailer : Bytes crypto.trailerLen} {afterTrailer : ρ}
    (filled : crypto.fillBytes afterDelays crypto.trailerLen =
      (trailer, afterTrailer))
    {header : crypto.Header} {afterHeader : ρ}
    (wrapped : crypto.wrapHeader afterTrailer crypto.modeBalanced alphas
      subKeys (Hop.records crypto hops delays) trailer =
        .ok (header, afterHeader)) :
    client.shipPath crypto sampling rng path payload =
      .ok
        { entryAddr
          entryPk := entryKem
          packet := (crypto.encode header).val ++
            crypto.wrapLayers subKeys payload.padded } := by
  have recipients : path.hops.mapM RelayDescriptor.kemPubkeyBytes =
      .ok (entryKem :: hops.map Hop.kem) := by
    rw [SelectedPath.hops, List.mapM_cons, identified,
      mapM_kemPubkeyBytes described]
    rfl
  have records := routingRecords_of_describes crypto sampling
    (PoissonScheduler.new client.meanHopDelayMicros) described path.entry
    afterSecrets
  simp only [drawn] at records
  rw [shipPath, recipients]
  simp only [Except.mapError, bind, Except.bind, pure, Except.pure]
  rw [derived]
  simp only
  rw [SelectedPath.hops, records]
  simp only [filled]
  rw [wrapped]
  simp only [identified, parsed]

end GothamClient

end GothamRelay
