import GothamRelay.Client.Route
import GothamRelay.Cover.Conservation

namespace GothamRelay

open Data

/-! What the entry relay sees of the ticks: a packet, and the hop count that
its header carries in clear. -/

variable {Mode ρ : Type}

/-- What a client sends with: the draws and the path selection. -/
structure CoverNetwork (ρ : Type) where
  client : GothamClient
  sampling : Sampling ρ
  pick : ρ → Nat → Except Unit (SelectedPath × ρ)
  pickToExit : ρ → Nat → RelayDescriptor → Except Unit (SelectedPath × ρ)

namespace CoverNetwork

def forwarded (network : CoverNetwork ρ) (crypto : SealingCrypto ρ)
    (made : LoopCall ρ) : Except ClientError GothamClient.Shipment :=
  match made.call with
  | .send hopCount payload =>
      network.client.send crypto.toClientCrypto network.sampling made.rng
        network.pick hopCount payload
  | .sendToExit hopCount exit payload =>
      network.client.sendToExit crypto.toClientCrypto network.sampling
        made.rng network.pickToExit hopCount exit payload

def seenHopCount {crypto : SealingCrypto ρ} (hopCount : crypto.Header → Nat)
    (packet : List UInt8) : Option Nat :=
  match crypto.decode (Bytes.ofSlice crypto.headerLen packet) with
  | .ok header => some (hopCount header)
  | .error _ => none

def seenPackets {crypto : SealingCrypto ρ} (hopCount : crypto.Header → Nat) :
    Except ClientError GothamClient.Shipment → List (Option Nat)
  | .ok shipment => [seenHopCount hopCount shipment.packet]
  | .error _ => []

end CoverNetwork

def CoverLoop.seen (state : CoverLoop Mode ρ) (network : CoverNetwork ρ)
    {crypto : SealingCrypto ρ} (hopCount : crypto.Header → Nat) :
    List (List (Option Nat)) :=
  state.calls.map fun made =>
    CoverNetwork.seenPackets hopCount (network.forwarded crypto made)

/-! ## What is assumed of the primitives and of the path selection -/

/-- A header says in clear how many records it was wrapped for. -/
structure SealingCrypto.CountsHops (crypto : SealingCrypto ρ)
    (hopCount : crypto.Header → Nat) : Prop where
  decode_encode : ∀ header, crypto.decode (crypto.encode header) = .ok header
  counts : ∀ {rng mode alphas subKeys records trailer header after},
    crypto.wrapHeader rng mode alphas subKeys records trailer =
        .ok (header, after) →
      hopCount header = records.length
  roomy : dummyPayloadSize ≤ crypto.maxPayloadSize

/-- The secrets of a route over these keys can be derived, and a header with a
record for each key can be wrapped with them. -/
def SealingCrypto.Routes (crypto : SealingCrypto ρ) (recipients : List Key) :
    Prop :=
  ∀ rng, ∃ alphas subKeys after,
    crypto.deriveRouteSecrets rng recipients = .ok (alphas, subKeys, after) ∧
      ∀ rng mode (records : List RoutingRecord) trailer,
        records.length = recipients.length →
          ∃ header after,
            crypto.wrapHeader rng mode alphas subKeys records trailer =
              .ok (header, after)

/-- The keys and addresses of the relays parse, and there is a route over the
keys. -/
structure SelectedPath.WellFormed (path : SelectedPath)
    (crypto : SealingCrypto ρ) (hopCount : Nat) : Prop where
  length_eq : path.hops.length = hopCount
  entryAddr : ∃ addr, path.entry.addr = .ok addr
  routed : ∃ entryKem hops, path.entry.kemPubkeyBytes = .ok entryKem ∧
    List.Forall₂ RelayDescriptor.Describes path.rest hops ∧
      crypto.Routes (entryKem :: hops.map Hop.kem)

def Selects (crypto : SealingCrypto ρ)
    (pick : ρ → Nat → Except Unit (SelectedPath × ρ)) : Prop :=
  ∀ rng hopCount, 3 ≤ hopCount → hopCount ≤ 5 →
    ∃ path after, pick rng hopCount = .ok (path, after) ∧
      path.WellFormed crypto hopCount

/-! ## One send -/

namespace CoverNetwork

variable {crypto : SealingCrypto ρ} {hopCount : crypto.Header → Nat}

private theorem seenHopCount_encode (counts : crypto.CountsHops hopCount)
    (header : crypto.Header) (region : List UInt8) :
    seenHopCount hopCount ((crypto.encode header).val ++ region) =
      some (hopCount header) := by
  rw [seenHopCount, Bytes.ofSlice_append, counts.decode_encode]

private theorem shipPath_seen (counts : crypto.CountsHops hopCount)
    (sampling : Sampling ρ) (client : GothamClient) (rng : ρ)
    {path : SelectedPath} {hops : Nat}
    (wellFormed : path.WellFormed crypto hops) (payload : crypto.Payload) :
    ∃ shipment,
      client.shipPath crypto.toClientCrypto sampling rng path payload =
          .ok shipment ∧
        seenHopCount hopCount shipment.packet = some hops := by
  obtain ⟨length_eq, ⟨entryAddr, parsed⟩,
    ⟨entryKem, rest, identified, described, routes⟩⟩ := wellFormed
  have count : rest.length + 1 = hops := by
    rw [← length_eq, SelectedPath.hops, List.length_cons,
      described.length_eq]
  obtain ⟨alphas, subKeys, afterSecrets, derived, wraps⟩ := routes rng
  obtain ⟨delays, afterDelays, drawn⟩ : ∃ delays after,
      GothamClient.drawDelays sampling
        (PoissonScheduler.new client.meanHopDelayMicros) afterSecrets
        (rest.length + 1) = (delays, after) :=
    ⟨_, _, rfl⟩
  have records : (Hop.records crypto.toClientCrypto rest delays).length =
      hops := by
    rw [Hop.length_records, count]
    rw [← congrArg (fun out => out.1.length) drawn]
    exact GothamClient.length_drawDelays _ _ _ _
  obtain ⟨header, afterHeader, wrapped⟩ := wraps
    (crypto.fillBytes afterDelays crypto.trailerLen).2 crypto.modeBalanced
    (Hop.records crypto.toClientCrypto rest delays)
    (crypto.fillBytes afterDelays crypto.trailerLen).1 (by
      rw [records, List.length_cons, List.length_map, count])
  refine ⟨_, GothamClient.shipPath_of_describes crypto.toClientCrypto
    sampling client payload identified parsed described derived drawn rfl
    wrapped, ?_⟩
  rw [seenHopCount_encode counts, counts.counts wrapped, records]

private theorem seenPackets_send (counts : crypto.CountsHops hopCount)
    (sampling : Sampling ρ) (client : GothamClient)
    {pick : ρ → Nat → Except Unit (SelectedPath × ρ)}
    (selects : Selects crypto pick) (rng : ρ) (hops : Nat) {payload : List UInt8}
    (fits : payload.length ≤ crypto.maxPayloadSize) :
    seenPackets hopCount (client.send crypto.toClientCrypto sampling rng pick
        hops payload) =
      if 3 ≤ hops ∧ hops ≤ 5 then [some hops] else [] := by
  rw [GothamClient.send, dif_pos fits]
  split
  · rename_i range
    obtain ⟨path, after, picked, wellFormed⟩ :=
      selects rng hops range.1 range.2
    obtain ⟨shipment, shipped, seen⟩ := shipPath_seen counts sampling client
      after wellFormed ⟨payload, fits⟩
    rw [picked]
    simp only [Except.mapError, bind, Except.bind, shipped, seenPackets, seen]
  · rfl

end CoverNetwork

/-! ## Whole runs -/

/-- A packet that asks for nothing a decoy does not: it fits, it has the usual
number of hops, and its exit can be reached. -/
structure QueuedPacket.Unremarkable (packet : QueuedPacket)
    (config : CoverConfig Mode ρ) (network : CoverNetwork ρ) : Prop where
  fits : packet.payload.length ≤ config.crypto.maxPayloadSize
  hops : packet.hops = none ∨ packet.hops = some config.defaultHopCount
  exit : ∀ {exit : RelayDescriptor}, packet.exit = some exit →
    Selects config.crypto fun rng hopCount =>
      network.pickToExit rng hopCount exit

theorem QueuedPacket.Unremarkable.seen {packet : QueuedPacket}
    {config : CoverConfig Mode ρ} {network : CoverNetwork ρ}
    (unremarkable : packet.Unremarkable config network)
    {hopCount : config.crypto.Header → Nat}
    (counts : config.crypto.CountsHops hopCount)
    (selects : Selects config.crypto network.pick) {made : LoopCall ρ}
    (called : made.call = packet.clientCall config.defaultHopCount) :
    CoverNetwork.seenPackets hopCount (network.forwarded config.crypto made) =
      if 3 ≤ config.defaultHopCount ∧ config.defaultHopCount ≤ 5 then
        [some config.defaultHopCount]
      else [] := by
  have usual : packet.hops.getD config.defaultHopCount =
      config.defaultHopCount := by
    cases unremarkable.hops with
    | inl absent => rw [absent, Option.getD_none]
    | inr same => rw [same, Option.getD_some]
  rw [CoverNetwork.forwarded, called, clientCall, usual]
  cases exit : packet.exit with
  | none =>
      exact CoverNetwork.seenPackets_send counts _ _ selects _ _
        unremarkable.fits
  | some exit =>
      exact CoverNetwork.seenPackets_send counts _ _ (unremarkable.exit exit)
        _ _ unremarkable.fits

namespace CoverLoop

def DecoysDefault (config : CoverConfig Mode ρ) (state : CoverLoop Mode ρ) :
    Prop :=
  ∀ made ∈ state.calls, made.source = none →
    ∃ rng, made.call = .send config.defaultHopCount
      (buildCoverPayload config.crypto rng).1

theorem DecoysDefault.of_stepped {config : CoverConfig Mode ρ}
    {state after : CoverLoop Mode ρ} {action : LoopAction ρ}
    (decoys : DecoysDefault config state)
    (stepped : Stepped config state action after) :
    DecoysDefault config after := by
  cases stepped with
  | push packet => exact decoys
  | cancel => exact decoys
  | move idle next expecting => exact decoys
  | starve rng popping empty => exact decoys
  | sent result sending => exact decoys
  | decoyed result sending => exact decoys
  | pop rng popping first =>
      intro made member none
      cases List.mem_append.mp member with
      | inl old => exact decoys made old none
      | inr new =>
          rw [List.mem_singleton.mp new] at none
          cases none
  | decoy rng decoying =>
      intro made member none
      cases List.mem_append.mp member with
      | inl old => exact decoys made old none
      | inr new =>
          rw [List.mem_singleton.mp new]
          exact ⟨rng, rfl⟩

private theorem seen_of_trace {config : CoverConfig Mode ρ}
    {network : CoverNetwork ρ} {hopCount : config.crypto.Header → Nat}
    (counts : config.crypto.CountsHops hopCount)
    (selects : Selects config.crypto network.pick) {actions : List (LoopAction ρ)}
    {state : CoverLoop Mode ρ}
    (trace : Trace (step config) (fun _ _ => True) start actions state)
    (unremarkable : ∀ packet ∈ state.pushed,
      packet.Unremarkable config network) :
    state.seen network hopCount = List.replicate state.calls.length
      (if 3 ≤ config.defaultHopCount ∧ config.defaultHopCount ≤ 5 then
        [some config.defaultHopCount]
      else []) := by
  have faithful := faithful_of_trace trace
  have decoys : DecoysDefault config state := by
    apply trace.invariant fun _ state => DecoysDefault config state
    · exact fun _ member => absurd member List.not_mem_nil
    · intro _ _ _ _ decoys _ taken
      exact decoys.of_stepped (stepped_of_step taken)
  rw [List.eq_replicate_iff]
  refine ⟨List.length_map _, ?_⟩
  intro tick member
  obtain ⟨made, called, rfl⟩ := List.mem_map.mp member
  cases source : made.source with
  | none =>
      obtain ⟨rng, call⟩ := decoys made called source
      rw [CoverNetwork.forwarded, call]
      exact CoverNetwork.seenPackets_send counts _ _ selects _ _
        (length_buildCoverPayload_le config.crypto counts.roomy rng)
  | some ticket =>
      have queued : ticket ∈ state.pushed.zipIdx := by
        rw [← faithful.conserved]
        exact List.mem_append_left _
          (List.mem_filterMap.mpr ⟨made, called, source⟩)
      have pushed : ticket.1 ∈ state.pushed :=
        List.fst_mem_of_mem_zipIdx queued
      exact (unremarkable ticket.1 pushed).seen counts selects
        (faithful.called made called ticket source)

def sampleNetwork : CoverNetwork Unit where
  client := ⟨500000⟩
  sampling := .plain
  pick _ hopCount :=
    .ok (⟨sampleDescriptor, List.replicate (hopCount - 1) sampleDescriptor⟩,
      ())
  pickToExit _ hopCount exit :=
    .ok (⟨sampleDescriptor,
      List.replicate (hopCount - 2) sampleDescriptor ++ [exit]⟩, ())

def sampleHop : Hop :=
  ⟨Bytes.replicate 32 1, some ⟨Bytes.replicate 4 10, 443⟩⟩

theorem sampleDescriptor_describes : sampleDescriptor.Describes sampleHop where
  kem := rfl
  hasRendezvous := rfl
  endpoint addr same := by
    cases same
    exact ⟨rfl, rfl⟩

private theorem sampleNetwork_selects :
    Selects CoverConfig.plain.crypto sampleNetwork.pick := by
  intro rng hopCount low high
  refine ⟨_, _, rfl, ?_, ⟨_, rfl⟩, _,
    List.replicate (hopCount - 1) sampleHop, rfl, ?_, ?_⟩
  · simp only [SelectedPath.hops, List.length_cons, List.length_replicate]
    omega
  · rw [List.forall₂_iff_get]
    simp [sampleDescriptor_describes]
  · intro rng
    refine ⟨_, _, _, rfl, ?_⟩
    intro rng mode records trailer counted
    refine ⟨_, _, if_pos ?_⟩
    rw [counted, List.length_cons, List.length_map, List.length_replicate]
    omega

def sampleHopCount (header : CoverConfig.plain.crypto.Header) : Nat :=
  let bytes : Bytes 3 := header
  (bytes.val.getD 1 0).toNat

private theorem sampleHopCount_counts :
    CoverConfig.plain.crypto.CountsHops sampleHopCount where
  decode_encode _ := rfl
  counts {_ _ _ _ records _ _ _} wrapped := by
    simp only [CoverConfig.plain, SealingCrypto.plain] at wrapped
    split at wrapped <;> cases wrapped
    rename_i short
    exact UInt8.toNat_ofNat_of_lt' (Nat.lt_of_le_of_lt short (by decide))
  roomy := by decide

def quietTick : List (LoopAction Unit) :=
  [.arm 100 true (), .wake, .check, .intend (), .decoy (),
    .sendReturns (.ok ())]

def busyTick (packet : QueuedPacket) : List (LoopAction Unit) :=
  [.push packet, .arm 100 true (), .wake, .check, .intend (), .pop (),
    .sendReturns (.ok ())]

def sampleRun (actions : List (LoopAction Unit)) : CoverLoop Unit Unit :=
  (Trace.exec (step .plain) start actions).getD start

theorem sampleRun_trace {actions : List (LoopAction Unit)}
    (possible : (Trace.exec (step .plain) start actions).isSome = true) :
    Trace (step .plain) (fun _ _ => True) start actions
      (sampleRun actions) :=
  Trace.of_possible possible

def usualPacket : QueuedPacket := ⟨[7], some 3, none, true⟩

end CoverLoop

end GothamRelay
