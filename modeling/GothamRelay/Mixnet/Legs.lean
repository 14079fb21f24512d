import GothamRelay.Client.Unwrap

namespace GothamRelay

open Data

variable {ρ : Type}

/-! ## What a client has wrapped -/

/-- The header of a packet, the keys of its layers and the records in it, those
of the entry first. -/
structure Wrapped (crypto : ClientCrypto ρ) where
  header : crypto.Header
  subKeys : List crypto.SubKeys
  records : List RoutingRecord

namespace CryptoGotham

/-- A packet that has the layers of `subKeys` on its payload. -/
def packet (crypto : CryptoGotham) (region : List UInt8)
    (header : crypto.Header) (subKeys : List crypto.SubKeys) : List UInt8 :=
  (crypto.encode header).val ++ crypto.wrapLayers subKeys region

def packetsAlong (crypto : CryptoGotham) (region : List UInt8) :
    crypto.Header → List crypto.SubKeys → List (List UInt8)
  | _, [] => []
  | header, sub :: subKeys =>
      crypto.packet region header (sub :: subKeys) ::
        match crypto.unwrapHeader header sub with
        | .ok unwrapped =>
            crypto.packetsAlong region unwrapped.nextHeader subKeys
        | .error _ => []

theorem packetsAlong_of_unwraps {crypto : CryptoGotham} (region : List UInt8)
    {header : crypto.Header} {sub : crypto.SubKeys}
    {unwrapped : Unwrapped crypto.Header}
    (unwraps : crypto.unwrapHeader header sub = .ok unwrapped)
    (subKeys : List crypto.SubKeys) :
    crypto.packetsAlong region header (sub :: subKeys) =
      crypto.packet region header (sub :: subKeys) ::
        crypto.packetsAlong region unwrapped.nextHeader subKeys := by
  rw [packetsAlong, unwraps]

end CryptoGotham

theorem exists_of_bind_ok {first : Except ε α} {next : α → Except ε β}
    {result : β} (done : first >>= next = .ok result) :
    ∃ value, first = .ok value ∧ next value = .ok result := by
  cases first with
  | error error => cases done
  | ok value => exact ⟨value, rfl, done⟩

theorem ok_of_mapError_ok {first : Except ε α} {convert : ε → ε'} {value : α}
    (done : first.mapError convert = .ok value) : first = .ok value := by
  cases first with
  | error error => cases done
  | ok result =>
      cases done
      rfl

namespace GothamClient

/-- `ship_path` up to the header. -/
def wrap (crypto : ClientCrypto ρ) (sampling : Sampling ρ)
    (client : GothamClient) (rng : ρ) (path : SelectedPath) :
    Except ClientError (Wrapped crypto) := do
  let recipientPks ← (path.hops.mapM
    RelayDescriptor.kemPubkeyBytes).mapError fun _ =>
      ClientError.badDirectory "relay kem pubkey malformed"
  let secrets ← (crypto.deriveRouteSecrets rng recipientPks).mapError fun _ =>
    ClientError.crypto
  let records ← routingRecords crypto sampling
    (PoissonScheduler.new client.meanHopDelayMicros) secrets.2.2 path.hops
  let trailer := crypto.fillBytes records.2 crypto.trailerLen
  let header ← (crypto.wrapHeader trailer.2 crypto.modeBalanced secrets.1
    secrets.2.1 records.1 trailer.1).mapError fun _ => ClientError.crypto
  return ⟨header.1, secrets.2.1, records.1⟩

theorem shipPath_eq (crypto : ClientCrypto ρ) (sampling : Sampling ρ)
    (client : GothamClient) (rng : ρ) (path : SelectedPath)
    (payload : crypto.Payload) :
    client.shipPath crypto sampling rng path payload = (do
      let wrapped ← client.wrap crypto sampling rng path
      let entryAddr ← path.entry.addr.mapError fun _ =>
        ClientError.badDirectory "entry addr parse"
      let entryPk ← path.entry.kemPubkeyBytes.mapError fun _ =>
        ClientError.badDirectory "entry kem pk"
      return {
        entryAddr
        entryPk
        packet := crypto.packet payload.padded wrapped.header
          wrapped.subKeys }) := by
  simp only [shipPath, wrap, bind_assoc, pure_bind, CryptoGotham.packet]

private theorem describes_of_routingRecord {crypto : ClientCrypto ρ}
    {next : RelayDescriptor} {record : RoutingRecord}
    (done : routingRecord crypto (some next) = .ok record) :
    ∃ hop, next.Describes hop := by
  obtain ⟨kem, identified, done⟩ := exists_of_bind_ok done
  have known := ok_of_mapError_ok identified
  cases rendezvous : next.hasRendezvous with
  | true => exact ⟨⟨kem, none⟩, known, rendezvous, nofun⟩
  | false =>
      simp only [rendezvous, Bool.false_eq_true, if_false] at done
      obtain ⟨ip, octets, done⟩ := exists_of_bind_ok done
      obtain ⟨port, ported, done⟩ := exists_of_bind_ok done
      refine ⟨⟨kem, some ⟨ip, port⟩⟩, known, rendezvous, ?_⟩
      rintro addr ⟨⟩
      exact ⟨ok_of_mapError_ok octets, ok_of_mapError_ok ported⟩

private theorem describes_of_routingRecords {crypto : ClientCrypto ρ}
    {sampling : Sampling ρ} {scheduler : PoissonScheduler}
    {entry : RelayDescriptor} {rest : List RelayDescriptor} {rng : ρ}
    {records : List RoutingRecord × ρ}
    (done : routingRecords crypto sampling scheduler rng (entry :: rest) =
      .ok records) :
    ∃ hops, List.Forall₂ RelayDescriptor.Describes rest hops := by
  induction rest generalizing entry rng records with
  | nil => exact ⟨[], .nil⟩
  | cons next rest ih =>
      obtain ⟨record, found, done⟩ := exists_of_bind_ok done
      obtain ⟨later, recorded, done⟩ := exists_of_bind_ok done
      obtain ⟨hop, described⟩ := describes_of_routingRecord found
      obtain ⟨hops, described'⟩ := ih recorded
      exact ⟨hop :: hops, .cons described described'⟩

end GothamClient

/-! ## A packet on its way to a relay -/

/-- The header is for the relay with the key `kem`, and the layers of that
relay and of the hops after it are still on it. -/
structure Layered (crypto : ClientCrypto ρ) (kem : Key) (hops : List Hop)
    (delays : List UInt32) (header : crypto.Header)
    (subKeys : List crypto.SubKeys) : Prop where
  counted : delays.length = hops.length + 1
  timed : ∀ delay ∈ delays, delay ≠ 0
  secrets : ∃ alphas,
    Agreed crypto.toCryptoGotham (kem :: hops.map Hop.kem) alphas subKeys ∧
      Onion crypto.toCryptoGotham header alphas subKeys
        (Hop.records crypto hops delays)

theorem Layered.packetsAlong_eq {crypto : ClientCrypto ρ} {kem : Key}
    {hops : List Hop} {delays : List UInt32} {header : crypto.Header}
    {subKeys : List crypto.SubKeys}
    (layered : Layered crypto kem hops delays header subKeys)
    (region : List UInt8) :
    ∃ rest, crypto.packetsAlong region header subKeys =
      crypto.packet region header subKeys :: rest := by
  obtain ⟨alphas, agreed, onion⟩ := layered.secrets
  cases agreed
  exact ⟨_, rfl⟩

private theorem Hop.delays_records (crypto : ClientCrypto ρ) {hops : List Hop}
    {delays : List UInt32} (counted : delays.length = hops.length + 1) :
    (Hop.records crypto hops delays).map RoutingRecord.delayMicros =
      delays := by
  induction hops generalizing delays with
  | nil =>
      obtain ⟨delay, rfl⟩ := List.length_eq_one_iff.mp counted
      rfl
  | cons next hops ih =>
      obtain _ | ⟨delay, delays⟩ := delays
      · cases counted
      · exact congrArg (delay :: ·) (ih (Nat.succ.inj counted))

namespace GothamClient

theorem map_kemPubkeyBytes {rest : List RelayDescriptor} {hops : List Hop}
    (described : List.Forall₂ RelayDescriptor.Describes rest hops) :
    rest.map RelayDescriptor.kemPubkeyBytes = (hops.map Hop.kem).map .ok := by
  induction described with
  | nil => rfl
  | cons head tail ih =>
      rw [List.map_cons, List.map_cons, List.map_cons, head.kem, ih]

/-- Whatever the descriptors are, a header that is built is one that the relays
of the path can take apart. -/
theorem layered_of_wrap {crypto : ClientCrypto ρ} (laws : crypto.Laws)
    {sampling : Sampling ρ} {client : GothamClient} {rng : ρ}
    {path : SelectedPath} {wrapped : Wrapped crypto}
    (done : client.wrap crypto sampling rng path = .ok wrapped) :
    ∃ kem hops, path.entry.kemPubkeyBytes = .ok kem ∧
      List.Forall₂ RelayDescriptor.Describes path.rest hops ∧
      Layered crypto kem hops
        (wrapped.records.map RoutingRecord.delayMicros) wrapped.header
        wrapped.subKeys := by
  obtain ⟨recipients, identified, done⟩ := exists_of_bind_ok done
  obtain ⟨⟨alphas, subKeys, afterSecrets⟩, derived, done⟩ :=
    exists_of_bind_ok done
  obtain ⟨⟨records, afterRecords⟩, recorded, done⟩ := exists_of_bind_ok done
  obtain ⟨header, built, done⟩ := exists_of_bind_ok done
  cases done
  have known := ok_of_mapError_ok identified
  rw [SelectedPath.hops, List.mapM_cons] at known
  obtain ⟨kem, entry, known⟩ := exists_of_bind_ok known
  obtain ⟨hops, described⟩ := describes_of_routingRecords recorded
  rw [mapM_kemPubkeyBytes described] at known
  cases known
  have routed := routingRecords_of_describes crypto sampling
    (PoissonScheduler.new client.meanHopDelayMicros) described path.entry
    afterSecrets
  rw [SelectedPath.hops] at recorded
  rw [recorded] at routed
  cases routed
  have counted := length_drawDelays sampling
    (PoissonScheduler.new client.meanHopDelayMicros) afterSecrets
    (hops.length + 1)
  have sized : (Hop.records crypto hops (drawDelays sampling
      (PoissonScheduler.new client.meanHopDelayMicros) afterSecrets
      (hops.length + 1)).1).length = (kem :: hops.map Hop.kem).length := by
    rw [Hop.length_records crypto counted, List.length_cons, List.length_map]
  have secrets := ok_of_mapError_ok derived
  refine ⟨kem, hops, entry, described, ?_⟩
  rw [Hop.delays_records crypto counted]
  exact
    { counted
      timed := drawDelays_ne_zero _ _ _ _
      secrets := ⟨alphas, laws.agreed secrets,
        laws.onion secrets sized (ok_of_mapError_ok built)⟩ }

end GothamClient

/-! ## One relay -/

namespace RateLimiter

theorem isUnlimited_checkAt (limiter : RateLimiter) (packetLen : Nat)
    (now : Instant) :
    (limiter.checkAt packetLen now).2.isUnlimited = limiter.isUnlimited := by
  have checked := limiter.checked_checkAt packetLen now
  generalize limiter.checkAt packetLen now = result at checked
  cases checked <;> rfl

private theorem isUnlimited_of_throttled {limiter : RateLimiter}
    {packetLen : Nat} {now : Instant}
    (throttled : (limiter.checkAt packetLen now).1.isAllowed = false) :
    limiter.isUnlimited = false := by
  cases exempt : limiter.isUnlimited with
  | false => rfl
  | true =>
      rw [checkAt_of_isUnlimited exempt] at throttled
      cases throttled

end RateLimiter

namespace Relay

/-- The outcome of `process` for a packet whose header belongs to the relay:
one of the reasons to refuse it, or where it is routed. -/
inductive Taken (crypto : CryptoGotham) (relay : Relay)
    (header : crypto.Header) (routed : ProcessOutcome) :
    ProcessOutcome → Prop where
  | rateLimited (limited : relay.rateLimiter.isUnlimited = false) :
      Taken crypto relay header routed (.drop .rateLimited)
  | strict (strict : relay.acceptHeaderV2 = false)
      (legacy : crypto.version header = crypto.versionLegacy) :
      Taken crypto relay header routed (.drop .malformed)
  | replay (seen : crypto.gamma header ∈ relay.replayCache.map) :
      Taken crypto relay header routed (.drop .replay)
  | routed : Taken crypto relay header routed routed

private theorem Taken.of_same {crypto : CryptoGotham} {relay other : Relay}
    {header : crypto.Header} {routed outcome : ProcessOutcome}
    (taken : Taken crypto other header routed outcome)
    (limits : other.rateLimiter.isUnlimited = relay.rateLimiter.isUnlimited)
    (strict : other.acceptHeaderV2 = relay.acceptHeaderV2)
    (cache : other.replayCache = relay.replayCache) :
    Taken crypto relay header routed outcome := by
  cases taken with
  | rateLimited limited => exact .rateLimited (limits ▸ limited)
  | strict refuses legacy => exact .strict (strict ▸ refuses) legacy
  | replay seen => exact .replay (cache ▸ seen)
  | routed => exact .routed

section Taken

variable {crypto : CryptoGotham} (sampling : Sampling ρ) (relay : Relay)
  (rng : ρ) (arrival : Arrival) {header : crypto.Header}
  {subKeys : crypto.SubKeys} {unwrapped : Unwrapped crypto.Header}

private theorem taken_afterUnwrap (timed : unwrapped.record.delayMicros ≠ 0) :
    relay.Taken crypto header
      (relay.route crypto unwrapped (cappedDelay unwrapped.record.delayMicros)
        (crypto.decrypt subKeys (arrival.packet.drop crypto.headerLen)))
      (relay.afterUnwrap crypto sampling rng arrival header subKeys
        unwrapped).1 := by
  by_cases seen : crypto.gamma header ∈ relay.replayCache.map
  · cases verdict : (relay.replayCache.checkAndInsertAt (crypto.gamma header)
        arrival.replayNow).1 with
    | replay =>
        simp only [afterUnwrap, verdict, if_true]
        exact .replay seen
    | fresh =>
        simp only [afterUnwrap, verdict, reduceCtorEq, if_false, hopDelay,
          if_neg timed]
        exact .routed
  · rw [afterUnwrap_of_unseen sampling rng subKeys seen timed]
    exact .routed

private theorem taken_checkVersion
    (derived : crypto.deriveHopSubkeys
      (crypto.x25519 relay.identitySk (crypto.alpha header)) = .ok subKeys)
    (unwraps : crypto.unwrapHeader header subKeys = .ok unwrapped)
    (timed : unwrapped.record.delayMicros ≠ 0) :
    relay.Taken crypto header
      (relay.route crypto unwrapped (cappedDelay unwrapped.record.delayMicros)
        (crypto.decrypt subKeys (arrival.packet.drop crypto.headerLen)))
      (relay.checkVersion crypto sampling rng arrival header).1 := by
  by_cases accepts : relay.acceptHeaderV2 = true ∨
      crypto.version header ≠ crypto.versionLegacy
  · cases checkVersion_of_accepts sampling rng arrival accepts with
    | inl same =>
        rw [same, authenticate_of_unwrapped derived unwraps]
        exact relay.taken_afterUnwrap sampling rng arrival timed
    | inr counted =>
        have derivedCounted : crypto.deriveHopSubkeys
            (crypto.x25519 relay.countLegacy.identitySk
              (crypto.alpha header)) = .ok subKeys := derived
        rw [counted, authenticate_of_unwrapped derivedCounted unwraps]
        exact (relay.countLegacy.taken_afterUnwrap sampling rng arrival
          timed).of_same rfl rfl rfl
  · obtain ⟨strict, legacy⟩ := not_or.mp accepts
    rw [checkVersion, if_pos (not_not.mp legacy),
      Bool.eq_false_iff.mpr strict]
    exact .strict (Bool.eq_false_iff.mpr strict) (not_not.mp legacy)

private theorem taken_process
    (sized : arrival.packet.length = crypto.packetSize) (decoded : crypto.decode
      (Bytes.ofSlice crypto.headerLen arrival.packet) = .ok header)
    (derived : crypto.deriveHopSubkeys
      (crypto.x25519 relay.identitySk (crypto.alpha header)) = .ok subKeys)
    (unwraps : crypto.unwrapHeader header subKeys = .ok unwrapped)
    (timed : unwrapped.record.delayMicros ≠ 0) :
    relay.Taken crypto header
      (relay.route crypto unwrapped (cappedDelay unwrapped.record.delayMicros)
        (crypto.decrypt subKeys (arrival.packet.drop crypto.headerLen)))
      (relay.process crypto sampling rng arrival).1 := by
  rw [process, if_neg (not_not_intro sized)]
  cases allowed : (relay.rateLimiter.checkAt arrival.packet.length
      arrival.limiterNow).1.isAllowed with
  | false =>
      simp only [allowed, Bool.not_false, if_true]
      exact .rateLimited (RateLimiter.isUnlimited_of_throttled allowed)
  | true =>
      simp only [allowed, Bool.not_true, Bool.false_eq_true, if_false, decoded]
      let metered : Relay :=
        { relay with rateLimiter := (relay.rateLimiter.checkAt
            arrival.packet.length arrival.limiterNow).2 }
      have derivedMetered : crypto.deriveHopSubkeys
          (crypto.x25519 metered.identitySk (crypto.alpha header)) =
            .ok subKeys := derived
      exact (metered.taken_checkVersion sampling rng arrival derivedMetered
        unwraps timed).of_same
        (RateLimiter.isUnlimited_checkAt _ _ _) rfl rfl

end Taken

end Relay

inductive Passed (crypto : ClientCrypto ρ) (region : List UInt8)
    (relay : Relay) (header : crypto.Header) :
    List Hop → List UInt32 → List crypto.SubKeys → ProcessOutcome →
      Prop where
  | rateLimited {hops delays subKeys}
      (limited : relay.rateLimiter.isUnlimited = false) :
      Passed crypto region relay header hops delays subKeys
        (.drop .rateLimited)
  | strict {hops delays subKeys} (strict : relay.acceptHeaderV2 = false)
      (legacy : crypto.version header = crypto.versionLegacy) :
      Passed crypto region relay header hops delays subKeys
        (.drop .malformed)
  | replay {hops delays subKeys}
      (seen : crypto.gamma header ∈ relay.replayCache.map) :
      Passed crypto region relay header hops delays subKeys (.drop .replay)
  | policyDenied {next hops delays subKeys}
      (same : relay.identityPublicKey crypto.toCryptoGotham = next.kem) :
      Passed crypto region relay header (next :: hops) delays subKeys
        (.drop .policyDenied)
  | deliver {sub delay} :
      Passed crypto region relay header [] [delay] [sub]
        (.deliverLocal (Relay.cappedDelay delay) region)
  | forward {next : Hop} {hops delay delays sub subKeys unwrapped}
      (unwraps : crypto.unwrapHeader header sub = .ok unwrapped)
      (layered : Layered crypto next.kem hops delays unwrapped.nextHeader
        subKeys) :
      Passed crypto region relay header (next :: hops) (delay :: delays)
        (sub :: subKeys)
        (.forward next.addr next.kem (Relay.cappedDelay delay)
          next.endpoint.isNone
          (crypto.packet region unwrapped.nextHeader subKeys))

private theorem Passed.of_taken {crypto : ClientCrypto ρ} {region : List UInt8}
    {relay : Relay} {header : crypto.Header} {hops : List Hop}
    {delays : List UInt32} {subKeys : List crypto.SubKeys}
    {routed outcome : ProcessOutcome}
    (taken : relay.Taken crypto.toCryptoGotham header routed outcome)
    (passed : Passed crypto region relay header hops delays subKeys routed) :
    Passed crypto region relay header hops delays subKeys outcome := by
  cases taken with
  | rateLimited limited => exact .rateLimited limited
  | strict strict legacy => exact .strict strict legacy
  | replay seen => exact .replay seen
  | routed => exact passed

section Laws

variable {crypto : ClientCrypto ρ} (laws : crypto.Laws)

include laws

private theorem taken_layer (sampling : Sampling ρ) (relay : Relay) (rng : ρ)
    {header : crypto.Header} {sub : crypto.SubKeys}
    (derives : ∀ secret,
      crypto.publicKey secret =
          relay.identityPublicKey crypto.toCryptoGotham →
        crypto.deriveHopSubkeys
          (crypto.x25519 secret (crypto.alpha header)) = .ok sub)
    {unwrapped : Unwrapped crypto.Header}
    (unwraps : crypto.unwrapHeader header sub = .ok unwrapped)
    (timed : unwrapped.record.delayMicros ≠ 0) {region : List UInt8}
    (sized : region.length = crypto.maxPayloadSize)
    (subKeys : List crypto.SubKeys) (limiterNow replayNow : Instant) :
    relay.Taken crypto.toCryptoGotham header
      (relay.route crypto.toCryptoGotham unwrapped
        (Relay.cappedDelay unwrapped.record.delayMicros)
        (crypto.wrapLayers subKeys region))
      (relay.process crypto.toCryptoGotham sampling rng
        ⟨crypto.packet region header (sub :: subKeys), limiterNow,
          replayNow⟩).1 := by
  have layered : (crypto.wrapLayers (sub :: subKeys) region).length =
      crypto.maxPayloadSize :=
    (crypto.length_wrapLayers _ region).trans sized
  have decoded : crypto.decode (Bytes.ofSlice crypto.headerLen
      (crypto.packet region header (sub :: subKeys))) = .ok header := by
    rw [CryptoGotham.packet, Bytes.ofSlice_append, laws.decode_encode]
  have peeled : (crypto.packet region header (sub :: subKeys)).drop
      crypto.headerLen = crypto.wrapLayers (sub :: subKeys) region :=
    List.drop_left' (crypto.encode header).property
  have taken := relay.taken_process sampling rng
    ⟨crypto.packet region header (sub :: subKeys), limiterNow, replayNow⟩
    (crypto.length_packet header layered) decoded
    (derives relay.identitySk rfl) unwraps timed
  rwa [peeled, crypto.wrapLayers_cons, laws.decrypt_encrypt] at taken

private theorem route_own {relay : Relay} {hop : Hop}
    (same : relay.identityPublicKey crypto.toCryptoGotham = hop.kem)
    (delay : UInt32) (nextGamma : Gamma) (next : crypto.Header)
    (delayed : Duration) (region : List UInt8) :
    relay.route crypto.toCryptoGotham
        ⟨{ hop.recordTo crypto delay with nextGamma }, next⟩ delayed region =
      .drop .policyDenied := by
  have notLast := laws.isLastHop_next
    { hop.recordTo crypto delay with nextGamma }
    (flag_recordTo laws hop delay)
  simp only [Relay.route, notLast, Bool.false_eq_true, if_false]
  exact if_pos same.symm

theorem passed_of_layered (sampling : Sampling ρ) (relay : Relay) (rng : ρ)
    {hops : List Hop} {delays : List UInt32} {header : crypto.Header}
    {subKeys : List crypto.SubKeys}
    (layered : Layered crypto
      (relay.identityPublicKey crypto.toCryptoGotham) hops delays header
      subKeys)
    {region : List UInt8} (sized : region.length = crypto.maxPayloadSize)
    (limiterNow replayNow : Instant) :
    Passed crypto region relay header hops delays subKeys
      (relay.process crypto.toCryptoGotham sampling rng
        ⟨crypto.packet region header subKeys, limiterNow, replayNow⟩).1 := by
  obtain ⟨counted, timed, alphas, agreed, onion⟩ := layered
  cases hops with
  | nil =>
      obtain ⟨delay, rfl⟩ := List.length_eq_one_iff.mp counted
      obtain _ | ⟨derives, agreed⟩ := agreed
      obtain _ | ⟨nextGamma, unwraps, onion⟩ := onion
      cases onion
      have taken := taken_layer laws sampling relay rng derives unwraps
        (timed delay List.mem_cons_self) sized [] limiterNow replayNow
      rw [route_lastRecord laws] at taken
      exact .of_taken taken .deliver
  | cons next hops =>
      obtain _ | ⟨delay, delays⟩ := delays
      · cases counted
      obtain _ | ⟨sub, subKeys⟩ := subKeys
      · cases agreed
      obtain _ | ⟨derives, agreed⟩ := agreed
      obtain _ | ⟨nextGamma, unwraps, onion⟩ := onion
      have taken := taken_layer laws sampling relay rng derives unwraps
        (timed delay List.mem_cons_self) sized subKeys limiterNow replayNow
      refine .of_taken taken ?_
      by_cases same :
          relay.identityPublicKey crypto.toCryptoGotham = next.kem
      · rw [route_own laws same]
        exact .policyDenied same
      · rw [route_recordTo laws same]
        exact .forward unwraps
          { counted := Nat.succ.inj counted
            timed := fun later member =>
              timed later (List.mem_cons_of_mem _ member)
            secrets := ⟨_, agreed, onion⟩ }

end Laws

end GothamRelay
