import GothamRelay.Client.Route
import GothamRelay.Replay.Alignment

namespace GothamRelay

open Data

variable {ρ : Type}

namespace CryptoGotham

theorem wrapLayers_cons (crypto : CryptoGotham) (sub : crypto.SubKeys)
    (subKeys : List crypto.SubKeys) (region : List UInt8) :
    crypto.wrapLayers (sub :: subKeys) region =
      crypto.encrypt sub (crypto.wrapLayers subKeys region) := by
  simp only [wrapLayers, List.foldl_reverse, List.foldr_cons]

theorem length_wrapLayers (crypto : CryptoGotham)
    (subKeys : List crypto.SubKeys) (region : List UInt8) :
    (crypto.wrapLayers subKeys region).length = region.length := by
  induction subKeys with
  | nil => rfl
  | cons sub subKeys ih => rw [wrapLayers_cons, crypto.length_encrypt, ih]

theorem Payload.length_padded {crypto : CryptoGotham}
    (payload : crypto.Payload) :
    payload.padded.length = crypto.maxPayloadSize := by
  rw [padded, List.length_append, List.length_replicate,
    Nat.add_sub_cancel' payload.property]

theorem length_packet {crypto : CryptoGotham} (header : crypto.Header)
    {region : List UInt8} (sized : region.length = crypto.maxPayloadSize) :
    ((crypto.encode header).val ++ region).length = crypto.packetSize := by
  rw [List.length_append, (crypto.encode header).property, sized,
    maxPayloadSize, Nat.add_sub_cancel' crypto.headerLen_le]

def headersAlong (crypto : CryptoGotham) :
    crypto.Header → List crypto.SubKeys → List crypto.Header
  | _, [] => []
  | header, sub :: subKeys =>
      header ::
        match crypto.unwrapHeader header sub with
        | .ok unwrapped => crypto.headersAlong unwrapped.nextHeader subKeys
        | .error _ => []

private theorem headersAlong_of_unwraps {crypto : CryptoGotham}
    {header : crypto.Header} {sub : crypto.SubKeys}
    {unwrapped : Unwrapped crypto.Header}
    (unwraps : crypto.unwrapHeader header sub = .ok unwrapped)
    (subKeys : List crypto.SubKeys) :
    crypto.headersAlong header (sub :: subKeys) =
      header :: crypto.headersAlong unwrapped.nextHeader subKeys := by
  rw [headersAlong, unwraps]

end CryptoGotham

namespace Relay

def cappedDelay (delayMicros : UInt32) : Duration :=
  min (Duration.fromMicros delayMicros.toNat) maxHopDelay

theorem afterUnwrap_of_unseen {crypto : CryptoGotham}
    (sampling : Sampling ρ) {relay : Relay} (rng : ρ) {arrival : Arrival}
    {header : crypto.Header} (subKeys : crypto.SubKeys)
    {unwrapped : Unwrapped crypto.Header}
    (unseen : crypto.gamma header ∉ relay.replayCache.map)
    (timed : unwrapped.record.delayMicros ≠ 0) :
    (relay.afterUnwrap crypto sampling rng arrival header subKeys
        unwrapped).1 =
      relay.route crypto unwrapped (cappedDelay unwrapped.record.delayMicros)
        (crypto.decrypt subKeys
          (arrival.packet.drop crypto.headerLen)) := by
  have fresh := ReplayCache.checkAndInsertAt_of_notMem unseen
    arrival.replayNow
  simp only [afterUnwrap, fresh, reduceCtorEq, if_false, hopDelay,
    if_neg timed]
  rfl

theorem checkVersion_of_accepts {crypto : CryptoGotham}
    (sampling : Sampling ρ) {relay : Relay} (rng : ρ) (arrival : Arrival)
    {header : crypto.Header}
    (accepts : relay.acceptHeaderV2 = true ∨
      crypto.version header ≠ crypto.versionLegacy) :
    relay.checkVersion crypto sampling rng arrival header =
        relay.authenticate crypto sampling rng arrival header ∨
      relay.checkVersion crypto sampling rng arrival header =
        relay.countLegacy.authenticate crypto sampling rng arrival header := by
  by_cases legacy : crypto.version header = crypto.versionLegacy
  · have accepted := accepts.resolve_right (not_not_intro legacy)
    right
    rw [checkVersion, if_pos legacy, accepted]
    rfl
  · left
    rw [checkVersion, if_neg legacy]

end Relay

structure Station (ρ : Type) where
  relay : Relay
  rng : ρ
  limiterNow : Instant
  replayNow : Instant

namespace Station

def process (crypto : CryptoGotham) (sampling : Sampling ρ)
    (station : Station ρ) (packet : List UInt8) : ProcessOutcome :=
  (station.relay.process crypto sampling station.rng
    ⟨packet, station.limiterNow, station.replayNow⟩).1

structure Ready (crypto : CryptoGotham) (station : Station ρ) (kem : Key)
    (header : crypto.Header) : Prop where
  identity : station.relay.identityPublicKey crypto = kem
  exempt : station.relay.rateLimiter.isUnlimited = true
  accepts : station.relay.acceptHeaderV2 = true ∨
    crypto.version header ≠ crypto.versionLegacy
  unseen : crypto.gamma header ∉ station.relay.replayCache.map

def relayAlong (crypto : CryptoGotham) (sampling : Sampling ρ) :
    List (Station ρ) → List UInt8 → List ProcessOutcome
  | [], _ => []
  | station :: stations, packet =>
      let outcome := station.process crypto sampling packet
      outcome ::
        match outcome with
        | .forward _ _ _ _ next => relayAlong crypto sampling stations next
        | _ => []

private theorem process_of_ready {crypto : CryptoGotham} (sampling : Sampling ρ)
    {station : Station ρ} {kem : Key} {header : crypto.Header}
    (ready : station.Ready crypto kem header)
    (decodes : crypto.decode (crypto.encode header) = .ok header)
    {subKeys : crypto.SubKeys}
    (derives : ∀ secret, crypto.publicKey secret = kem →
      crypto.deriveHopSubkeys
        (crypto.x25519 secret (crypto.alpha header)) = .ok subKeys)
    {unwrapped : Unwrapped crypto.Header}
    (unwraps : crypto.unwrapHeader header subKeys = .ok unwrapped)
    (timed : unwrapped.record.delayMicros ≠ 0) {region : List UInt8}
    (sized : region.length = crypto.maxPayloadSize) :
    station.process crypto sampling ((crypto.encode header).val ++ region) =
      station.relay.route crypto unwrapped
        (Relay.cappedDelay unwrapped.record.delayMicros)
        (crypto.decrypt subKeys region) := by
  have derived := derives station.relay.identitySk ready.identity
  have peeled :
      ((crypto.encode header).val ++ region).drop crypto.headerLen =
        region :=
    List.drop_left' (crypto.encode header).property
  have decoded : crypto.decode (Bytes.ofSlice crypto.headerLen
      ((crypto.encode header).val ++ region)) = .ok header := by
    rw [Bytes.ofSlice_append, decodes]
  rw [process, Relay.process_of_decoded ready.exempt
    (crypto.length_packet header sized) decoded]
  cases Relay.checkVersion_of_accepts sampling station.rng
      ⟨_, station.limiterNow, station.replayNow⟩ ready.accepts with
  | inl same =>
      rw [same, Relay.authenticate_of_unwrapped derived unwraps,
        Relay.afterUnwrap_of_unseen sampling station.rng subKeys ready.unseen
          timed, peeled]
  | inr counted =>
      have derivedCounted : crypto.deriveHopSubkeys
          (crypto.x25519 station.relay.countLegacy.identitySk
            (crypto.alpha header)) = .ok subKeys := derived
      have unseenCounted : crypto.gamma header ∉
          station.relay.countLegacy.replayCache.map := ready.unseen
      rw [counted, Relay.authenticate_of_unwrapped derivedCounted unwraps,
        Relay.afterUnwrap_of_unseen sampling station.rng subKeys unseenCounted
          timed, peeled]
      rfl

end Station

/-- The outcomes along a path of which the hops after the first are given. -/
inductive Delivered (crypto : CryptoGotham) (payload : List UInt8) :
    List Hop → List UInt32 → List ProcessOutcome → Prop where
  | exit (delay : UInt32) :
      Delivered crypto payload [] [delay]
        [.deliverLocal (Relay.cappedDelay delay) payload]
  | forward (next : Hop) (delay : UInt32) {packet : List UInt8}
      (sized : packet.length = crypto.packetSize)
      (rest : Delivered crypto payload hops delays outcomes) :
      Delivered crypto payload (next :: hops) (delay :: delays)
        (.forward next.addr next.kem (Relay.cappedDelay delay)
          next.endpoint.isNone packet :: outcomes)

section Laws

variable {crypto : ClientCrypto ρ} (laws : crypto.Laws)

include laws

private theorem flag_recordTo_of_endpoint {hop : Hop} {addr : SocketAddrV4}
    (endpoint : hop.endpoint = some addr) (delay : UInt32) :
    (hop.recordTo crypto delay).flag = 0 := by
  have flag := congrArg RoutingRecord.flag laws.defaultRecord_eq
  refine Eq.trans ?_ flag
  simp [Hop.recordTo, endpoint]

theorem flag_recordTo (hop : Hop) (delay : UInt32) :
    (hop.recordTo crypto delay).flag = 0 ∨
      (hop.recordTo crypto delay).flag = crypto.flagViaRendezvous := by
  cases endpoint : hop.endpoint with
  | none => exact .inr (by simp [Hop.recordTo, endpoint])
  | some addr => exact .inl (flag_recordTo_of_endpoint laws endpoint delay)

private theorem addr_recordTo (hop : Hop) (delay : UInt32) :
    (⟨(hop.recordTo crypto delay).nextIpv4,
      (hop.recordTo crypto delay).nextPort⟩ : SocketAddrV4) = hop.addr := by
  cases endpoint : hop.endpoint with
  | none =>
      simp only [Hop.recordTo, Hop.addr, endpoint, laws.defaultRecord_eq]
      rfl
  | some addr =>
      simp only [Hop.recordTo, Hop.addr, endpoint]
      rfl

theorem route_lastRecord (relay : Relay) (delay : UInt32) (nextGamma : Gamma)
    (next : crypto.Header) (delayed : Duration) (region : List UInt8) :
    relay.route crypto.toCryptoGotham
        ⟨{ Hop.lastRecord crypto delay with nextGamma }, next⟩ delayed region =
      .deliverLocal delayed region := by
  have last := laws.isLastHop_last
    { Hop.lastRecord crypto delay with nextGamma } rfl
  rw [Relay.route, if_pos last]

private theorem isViaRendezvous_recordTo (hop : Hop) (delay : UInt32)
    (nextGamma : Gamma) :
    crypto.isViaRendezvous { hop.recordTo crypto delay with nextGamma } =
      hop.endpoint.isNone := by
  cases endpoint : hop.endpoint with
  | none =>
      apply laws.isViaRendezvous_via
      simp [Hop.recordTo, endpoint]
  | some addr =>
      apply laws.isViaRendezvous_zero
      exact flag_recordTo_of_endpoint laws endpoint delay

theorem route_recordTo {relay : Relay} {hop : Hop}
    (distinct : relay.identityPublicKey crypto.toCryptoGotham ≠ hop.kem)
    (delay : UInt32) (nextGamma : Gamma) (next : crypto.Header)
    (delayed : Duration) (region : List UInt8) :
    relay.route crypto.toCryptoGotham
        ⟨{ hop.recordTo crypto delay with nextGamma }, next⟩ delayed region =
      .forward hop.addr hop.kem delayed hop.endpoint.isNone
        ((crypto.encode next).val ++ region) := by
  have notLast := laws.isLastHop_next
    { hop.recordTo crypto delay with nextGamma }
    (flag_recordTo laws hop delay)
  have via := isViaRendezvous_recordTo laws hop delay nextGamma
  simp only [Relay.route, notLast, Bool.false_eq_true, if_false, via,
    addr_recordTo laws]
  exact if_neg distinct.symm

private theorem process_layer (sampling : Sampling ρ) {station : Station ρ}
    {kem : Key} {header : crypto.Header}
    (ready : station.Ready crypto.toCryptoGotham kem header)
    {sub : crypto.SubKeys}
    (derives : ∀ secret, crypto.publicKey secret = kem →
      crypto.deriveHopSubkeys
        (crypto.x25519 secret (crypto.alpha header)) = .ok sub)
    {unwrapped : Unwrapped crypto.Header}
    (unwraps : crypto.unwrapHeader header sub = .ok unwrapped)
    (timed : unwrapped.record.delayMicros ≠ 0) {region : List UInt8}
    (sized : region.length = crypto.maxPayloadSize)
    (subKeys : List crypto.SubKeys) :
    station.process crypto.toCryptoGotham sampling
        ((crypto.encode header).val ++
          crypto.wrapLayers (sub :: subKeys) region) =
      station.relay.route crypto.toCryptoGotham unwrapped
        (Relay.cappedDelay unwrapped.record.delayMicros)
        (crypto.wrapLayers subKeys region) := by
  have layered : (crypto.wrapLayers (sub :: subKeys) region).length =
      crypto.maxPayloadSize :=
    (crypto.length_wrapLayers _ region).trans sized
  rw [Station.process_of_ready sampling ready (laws.decode_encode header)
    derives unwraps timed layered, crypto.wrapLayers_cons,
    laws.decrypt_encrypt]

private theorem delivered_of_ready (sampling : Sampling ρ) {region : List UInt8}
    (sized : region.length = crypto.maxPayloadSize) {hops : List Hop}
    {kem : Key} {header : crypto.Header} {alphas : List Key}
    {subKeys : List crypto.SubKeys} {delays : List UInt32}
    {stations : List (Station ρ)}
    (counted : delays.length = hops.length + 1)
    (timed : ∀ delay ∈ delays, delay ≠ 0)
    (distinct : List.IsChain (· ≠ ·) (kem :: hops.map Hop.kem))
    (agreed : Agreed crypto.toCryptoGotham (kem :: hops.map Hop.kem) alphas
      subKeys)
    (onion : Onion crypto.toCryptoGotham header alphas subKeys
      (Hop.records crypto hops delays))
    (ready : List.Forall₂
      (fun (station : Station ρ) (hop : Key × crypto.Header) =>
        station.Ready crypto.toCryptoGotham hop.1 hop.2) stations
      ((kem :: hops.map Hop.kem).zip (crypto.headersAlong header subKeys))) :
    Delivered crypto.toCryptoGotham region hops delays
      (Station.relayAlong crypto.toCryptoGotham sampling stations
        ((crypto.encode header).val ++ crypto.wrapLayers subKeys region)) := by
  -- The induction over the hops: the header still has the layers of the
  -- remaining hops on it, and so has the payload.
  induction hops generalizing kem header alphas subKeys delays stations with
  | nil =>
      obtain ⟨delay, rfl⟩ := List.length_eq_one_iff.mp counted
      obtain _ | ⟨derives, agreed⟩ := agreed
      obtain _ | ⟨nextGamma, unwraps, onion⟩ := onion
      cases onion
      rw [CryptoGotham.headersAlong_of_unwraps unwraps] at ready
      obtain _ | ⟨here, ready⟩ := ready
      have outcome := process_layer laws sampling here derives unwraps
        (timed delay List.mem_cons_self) sized []
      rw [route_lastRecord laws] at outcome
      cases ready
      rw [Station.relayAlong, outcome]
      exact .exit delay
  | cons next hops ih =>
      obtain _ | ⟨delay, delays⟩ := delays
      · cases counted
      obtain _ | ⟨sub, subKeys⟩ := subKeys
      · cases agreed
      obtain _ | ⟨derives, agreed⟩ := agreed
      obtain _ | ⟨nextGamma, unwraps, onion⟩ := onion
      rw [CryptoGotham.headersAlong_of_unwraps unwraps] at ready
      obtain _ | ⟨here, ready⟩ := ready
      obtain ⟨apart, distinct⟩ := List.isChain_cons_cons.mp distinct
      have outcome := process_layer laws sampling here derives unwraps
        (timed delay List.mem_cons_self) sized subKeys
      rw [route_recordTo laws (here.identity.symm ▸ apart)] at outcome
      have rest := ih (Nat.succ.inj counted)
        (fun later member => timed later (List.mem_cons_of_mem _ member))
        distinct agreed onion ready
      rw [Station.relayAlong, outcome]
      exact .forward next delay
        (crypto.length_packet _
          ((crypto.length_wrapLayers _ region).trans sized)) rest

end Laws

/-- The packet is built, and every relay of the path finds in it what the
client meant for it. -/
theorem wrapped_packet_unwraps_along_path (crypto : ClientCrypto ρ)
    (laws : crypto.Laws) (sampling : Sampling ρ) (client : GothamClient)
    (rng : ρ) (path : SelectedPath) (payload : crypto.Payload)
    {entryKem : Key} {entryAddr : SocketAddr} {hops : List Hop}
    (identified : path.entry.kemPubkeyBytes = .ok entryKem)
    (parsed : path.entry.addr = .ok entryAddr)
    (described : List.Forall₂ RelayDescriptor.Describes path.rest hops)
    (distinct : List.IsChain (· ≠ ·) (entryKem :: hops.map Hop.kem))
    {alphas : List Key} {subKeys : List crypto.SubKeys} {afterSecrets : ρ}
    (derived : crypto.deriveRouteSecrets rng (entryKem :: hops.map Hop.kem) =
      .ok (alphas, subKeys, afterSecrets))
    {delays : List UInt32} {afterDelays : ρ}
    (drawn : GothamClient.drawDelays sampling
      (PoissonScheduler.new client.meanHopDelayMicros) afterSecrets
        (hops.length + 1) = (delays, afterDelays))
    {trailer : Bytes crypto.trailerLen} {afterTrailer : ρ}
    (filled : crypto.fillBytes afterDelays crypto.trailerLen =
      (trailer, afterTrailer))
    {header : crypto.Header} {afterHeader : ρ}
    (wrapped : crypto.wrapHeader afterTrailer crypto.modeBalanced alphas
      subKeys (Hop.records crypto hops delays) trailer =
        .ok (header, afterHeader))
    (stations : List (Station ρ))
    (ready : List.Forall₂
      (fun (station : Station ρ) (hop : Key × crypto.Header) =>
        station.Ready crypto.toCryptoGotham hop.1 hop.2) stations
      ((entryKem :: hops.map Hop.kem).zip
        (crypto.headersAlong header subKeys))) :
    ∃ shipment,
      client.shipPath crypto sampling rng path payload = .ok shipment ∧
      shipment.entryAddr = entryAddr ∧ shipment.entryPk = entryKem ∧
      shipment.packet.length = crypto.packetSize ∧
      Delivered crypto.toCryptoGotham payload.padded hops delays
        (Station.relayAlong crypto.toCryptoGotham sampling stations
          shipment.packet) := by
  have shipped := GothamClient.shipPath_of_describes crypto sampling client
    payload identified parsed described derived drawn filled wrapped
  have counted : delays.length = hops.length + 1 := by
    have length := GothamClient.length_drawDelays sampling
      (PoissonScheduler.new client.meanHopDelayMicros) afterSecrets
      (hops.length + 1)
    rwa [drawn] at length
  have timed : ∀ delay ∈ delays, delay ≠ 0 := by
    have positive := GothamClient.drawDelays_ne_zero sampling
      (PoissonScheduler.new client.meanHopDelayMicros) afterSecrets
      (hops.length + 1)
    rwa [drawn] at positive
  have layered := (crypto.length_wrapLayers subKeys payload.padded).trans
    payload.length_padded
  have recorded : (Hop.records crypto hops delays).length =
      (entryKem :: hops.map Hop.kem).length := by
    rw [Hop.length_records crypto counted, List.length_cons, List.length_map]
  exact ⟨_, shipped, rfl, rfl, crypto.length_packet header layered,
    delivered_of_ready laws sampling payload.length_padded counted timed
      distinct (laws.agreed derived) (laws.onion derived recorded wrapped)
      ready⟩

namespace ClientCrypto

def plainSecrets : UInt8 → List Key → List Key × List UInt8
  | _, [] => ([], [])
  | index, _ :: recipients =>
      let later := plainSecrets (index + 1) recipients
      (Bytes.replicate 32 index :: later.1, index :: later.2)

def plain (records : List RoutingRecord) : ClientCrypto Unit where
  toCryptoGotham := CryptoGotham.plain 2 records
  trailerLen := 0
  modeBalanced := 1
  flagIsLastHop := 1
  flagViaRendezvous := 2
  defaultRecord := .zero
  deriveRouteSecrets _ recipients :=
    let secrets := plainSecrets 0 recipients
    .ok (secrets.1, secrets.2, ())
  fillBytes _ width := (Bytes.replicate width 0, ())
  wrapHeader _ _ alphas (subKeys : List UInt8) wrapped _ :=
    if wrapped = records ∧
        plainSecrets 0 (records.map RoutingRecord.nextNodeId) =
          (alphas, subKeys) then
      .ok (⟨[3, 0, 0], rfl⟩, ())
    else .error .other

private theorem agreed_plainSecrets (records : List RoutingRecord)
    (index : UInt8) (recipients : List Key) :
    Agreed (CryptoGotham.plain 2 records) recipients
      (plainSecrets index recipients).1 (plainSecrets index recipients).2 := by
  induction recipients generalizing index with
  | nil => exact .nil
  | cons recipient recipients ih =>
      exact .cons (fun _ _ => rfl) (ih (index + 1))

end ClientCrypto

namespace Station

/-! Three hops, of which the second is reached through its rendezvous. -/

def sampleHops : List Hop :=
  [⟨Bytes.replicate 32 2, none⟩,
    ⟨Bytes.replicate 32 3, some ⟨⟨[10, 0, 0, 3], rfl⟩, 9003⟩⟩]

def sampleRecords : List RoutingRecord :=
  [{ RoutingRecord.zero with
      nextNodeId := Bytes.replicate 32 2, delayMicros := 250000, flag := 2 },
    { RoutingRecord.zero with
      nextIpv4 := ⟨[10, 0, 0, 3], rfl⟩, nextPort := 9003
      nextNodeId := Bytes.replicate 32 3, delayMicros := 250000 },
    { RoutingRecord.zero with delayMicros := 250000, flag := 1 }]

def sampleCrypto : ClientCrypto Unit := .plain sampleRecords

theorem sampleCrypto_laws : sampleCrypto.Laws where
  defaultRecord_eq := rfl
  decode_encode _ := rfl
  decrypt_encrypt subKeys region := by
    change (region.map _).map _ = region
    rw [List.map_map]
    conv_rhs => rw [← List.map_id region]
    apply List.map_congr_left
    intro byte _
    exact UInt8.add_sub_cancel byte subKeys
  agreed := by
    intro rng rng' recipients alphas subKeys derived
    cases derived
    exact ClientCrypto.agreed_plainSecrets sampleRecords 0 recipients
  onion := by
    intro _ _ _ alphas subKeys _ rng rng' mode records trailer header _ wrapped
    simp only [sampleCrypto, ClientCrypto.plain] at wrapped
    split at wrapped
    case isTrue same =>
      obtain ⟨rfl, secrets⟩ := same
      cases wrapped
      cases secrets
      exact .cons _ rfl (.cons _ rfl (.cons _ rfl (.nil _)))
    case isFalse => cases wrapped
  isLastHop_last record last := decide_eq_true last
  isLastHop_next record next := by
    apply decide_eq_false
    cases next with
    | inl zero => rw [zero]; decide
    | inr via => rw [via]; decide
  isViaRendezvous_via record via := decide_eq_true via
  isViaRendezvous_zero record zero := by
    apply decide_eq_false
    rw [zero]
    decide

def sampleDescriptor (kem : Key) (endpoint : Option SocketAddrV4) :
    RelayDescriptor where
  kemPubkeyBytes := .ok kem
  hasRendezvous := endpoint.isNone
  ipv4Octets := .ok (endpoint.getD Hop.unspecified).ip
  port := .ok (endpoint.getD Hop.unspecified).port
  addr := .ok (.v4 (endpoint.getD Hop.unspecified))

theorem sampleDescriptor_describes (hop : Hop) :
    (sampleDescriptor hop.kem hop.endpoint).Describes hop where
  kem := rfl
  hasRendezvous := rfl
  endpoint := by
    intro addr endpoint
    simp [sampleDescriptor, endpoint]

def samplePath : SelectedPath where
  entry := sampleDescriptor (Bytes.replicate 32 1) (some Hop.unspecified)
  rest := sampleHops.map fun hop => sampleDescriptor hop.kem hop.endpoint

def sampleStation (secret : Key) : Station Unit where
  relay := Relay.new secret 4 1000 0 0
  rng := ()
  limiterNow := 0
  replayNow := 0

private theorem sampleStation_ready (secret : Key)
    (header : sampleCrypto.Header) :
    (sampleStation secret).Ready sampleCrypto.toCryptoGotham secret
      header where
  identity := rfl
  exempt := RateLimiter.isUnlimited_unlimited 0
  accepts := .inl rfl
  unseen := AList.notMem_empty _

theorem sample_packet_unwraps_along_path :
    ∃ shipment,
      GothamClient.shipPath sampleCrypto .plain ⟨500000⟩ ()
        samplePath ⟨[7], by decide⟩ = .ok shipment ∧
      shipment.entryAddr = .v4 Hop.unspecified ∧
      shipment.entryPk = Bytes.replicate 32 1 ∧
      shipment.packet.length = sampleCrypto.packetSize ∧
      Delivered sampleCrypto.toCryptoGotham [7, 0] sampleHops
        [250000, 250000, 250000]
        (relayAlong sampleCrypto.toCryptoGotham .plain
          [sampleStation (Bytes.replicate 32 1),
            sampleStation (Bytes.replicate 32 2),
            sampleStation (Bytes.replicate 32 3)] shipment.packet) := by
  have drawn : GothamClient.drawDelays .plain
      (PoissonScheduler.new 500000) () (sampleHops.length + 1) =
        ([250000, 250000, 250000], ()) := by
    decide +kernel
  have wrapped : sampleCrypto.wrapHeader () 1
      [Bytes.replicate 32 0, Bytes.replicate 32 1, Bytes.replicate 32 2]
      ([0, 1, 2] : List UInt8)
      (Hop.records sampleCrypto sampleHops [250000, 250000, 250000])
      (Bytes.replicate 0 0) =
        .ok ((⟨[3, 0, 0], rfl⟩ : Bytes 3), ()) := by
    rfl
  refine wrapped_packet_unwraps_along_path sampleCrypto sampleCrypto_laws
    .plain ⟨500000⟩ () samplePath ⟨[7], by decide⟩ rfl rfl ?_ ?_ rfl
    drawn rfl wrapped _ ?_
  · exact .cons (sampleDescriptor_describes _)
      (.cons (sampleDescriptor_describes _) .nil)
  · decide
  · exact .cons (sampleStation_ready (Bytes.replicate 32 1) _)
      (.cons (sampleStation_ready (Bytes.replicate 32 2) _)
        (.cons (sampleStation_ready (Bytes.replicate 32 3) _) .nil))

end Station

end GothamRelay
