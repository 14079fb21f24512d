import Mathlib.Algebra.BigOperators.Group.List.Basic
import GothamRelay.Data.Ledger
import GothamRelay.Mixnet.Network
import GothamRelay.Process.Admission

namespace GothamRelay

open Data

variable {ρ : Type}

/-! ## What a relay keeps and what it remembers -/

namespace ReplayCache

private theorem mem_of_mem_popFront {cache : ReplayCache} {key : Gamma}
    (member : key ∈ cache.popFront.map) : key ∈ cache.map := by
  unfold popFront at member
  split at member
  · exact member
  · exact (AList.mem_erase.mp member).2

private theorem mem_of_mem_checkAndInsertAt {cache : ReplayCache}
    {key other : Gamma} {now : Instant}
    (member : other ∈ (cache.checkAndInsertAt key now).2.map) :
    other ∈ cache.map ∨
      (cache.checkAndInsertAt key now).1 = .fresh ∧ other = key := by
  by_cases held : key ∈ (cache.sweepExpired now).map
  · rw [checkAndInsertAt, if_pos held] at member
    exact .inl (mem_of_mem_sweep _ _ _ member)
  · rw [checkAndInsertAt, if_neg held] at member ⊢
    cases AList.mem_insert _ |>.mp member with
    | inl new => exact .inr ⟨rfl, new⟩
    | inr old =>
        left
        split at old
        · exact mem_of_mem_sweep _ _ _ (mem_of_mem_popFront old)
        · exact mem_of_mem_sweep _ _ _ old

end ReplayCache

private theorem Admission.mem_cases {crypto : CryptoGotham}
    {cache after : ReplayCache} {arrival : Arrival}
    {outcome : ProcessOutcome} {gamma : Gamma}
    (admission : Admission crypto cache arrival outcome after)
    (member : gamma ∈ after.map) :
    gamma ∈ cache.map ∨
      outcome.admitted = true ∧ (arrival.entry crypto).1 = gamma := by
  cases admission with
  | unseen dropped => exact .inl member
  | checked decoded verdict =>
      rw [Arrival.entry_of_decoded decoded]
      cases ReplayCache.mem_of_mem_checkAndInsertAt member with
      | inl old => exact .inl old
      | inr new => exact .inr ⟨verdict.mpr new.1, new.2.symm⟩

namespace Relay

/-- What no packet changes: the key, whether packets are limited and whether
the old header is accepted. -/
def settings (relay : Relay) : Key × Bool × Bool :=
  (relay.identitySk, relay.rateLimiter.isUnlimited, relay.acceptHeaderV2)

private theorem identityPublicKey_of_settings {relay initial : Relay}
    (crypto : CryptoGotham) (same : relay.settings = initial.settings) :
    relay.identityPublicKey crypto = initial.identityPublicKey crypto :=
  congrArg (fun settings : Key × Bool × Bool =>
    crypto.publicKey settings.1) same

private theorem settings_process (crypto : CryptoGotham) (sampling : Sampling ρ)
    (relay : Relay) (rng : ρ) (arrival : Arrival) :
    (relay.process crypto sampling rng arrival).2.1.settings =
      relay.settings := by
  have limits := relay.rateLimiter.isUnlimited_checkAt arrival.packet.length
    arrival.limiterNow
  simp only [process]
  split
  · rfl
  · split
    · simp only [settings, limits]
    · split
      · simp only [settings, limits]
      · rename_i header _
        obtain ⟨cache, count, after⟩ := checkVersion_relay crypto sampling
          { relay with rateLimiter := (relay.rateLimiter.checkAt
              arrival.packet.length arrival.limiterNow).2 } rng arrival header
        rw [after]
        simp only [settings, limits]

end Relay

/-! ## A message on its way -/

def latency (delays : List UInt32) : Duration :=
  (delays.map Relay.cappedDelay).sum

def Wrapped.delays {crypto : ClientCrypto ρ} (wrapped : Wrapped crypto) :
    List UInt32 :=
  wrapped.records.map RoutingRecord.delayMicros

namespace Sending

variable {crypto : ClientCrypto ρ}

def keys (sending : Sending crypto) : List (Except GothamError Key) :=
  sending.path.hops.map RelayDescriptor.kemPubkeyBytes

def wrap (sampling : Sampling ρ) (sending : Sending crypto) :
    Except ClientError (Wrapped crypto) :=
  sending.client.wrap crypto sampling sending.rng sending.path

def packets (sending : Sending crypto) (wrapped : Wrapped crypto) :
    List (List UInt8) :=
  crypto.packetsAlong sending.payload.padded wrapped.header wrapped.subKeys

/-- At this hop of the path the relay has the key, and is to see the packet. -/
structure AtHop (sending : Sending crypto) (wrapped : Wrapped crypto)
    (hop : Nat) (key : Key) (packet : List UInt8) : Prop where
  key : sending.keys[hop]? = some (.ok key)
  packet : (sending.packets wrapped)[hop]? = some packet

/-- A packet of a message on its way to the first of the hops that remain. It
is no further than the delays of the hops behind it allow. -/
structure Underway (sending : Sending crypto) (wrapped : Wrapped crypto)
    (flight : Flight) (hops : List Hop) (delays : List UInt32)
    (header : crypto.Header) (subKeys : List crypto.SubKeys) : Prop where
  packet : flight.packet =
    crypto.packet sending.payload.padded header subKeys
  layered : Layered crypto flight.nodeId hops delays header subKeys
  keys : sending.keys.drop flight.hop =
    (flight.nodeId :: hops.map Hop.kem).map .ok
  packets : (sending.packets wrapped).drop flight.hop =
    crypto.packetsAlong sending.payload.padded header subKeys
  delayed : sending.now + latency wrapped.delays ≤ flight.due + latency delays

/-- What the relay of a call `done` may do with a packet of the message, when
`earlier` calls were made in the network before. `relay` is how it started. -/
inductive Treated (sending : Sending crypto) (wrapped : Wrapped crypto)
    (relay : Relay) (earlier : List Handled) (done : Handled) :
    ProcessOutcome → Prop where
  | rateLimited (limited : relay.rateLimiter.isUnlimited = false) :
      Treated sending wrapped relay earlier done (.drop .rateLimited)
  | strict {header} (strict : relay.acceptHeaderV2 = false)
      (decoded : crypto.decode (Bytes.ofSlice crypto.headerLen
        done.arrival.packet) = .ok header)
      (legacy : crypto.version header = crypto.versionLegacy) :
      Treated sending wrapped relay earlier done (.drop .malformed)
  | replay
      (seen : (done.arrival.entry crypto.toCryptoGotham).1 ∈
          relay.replayCache.map ∨
        ∃ other ∈ earlier, other.relay = done.relay ∧
          other.outcome.admitted = true ∧
          (other.arrival.entry crypto.toCryptoGotham).1 =
            (done.arrival.entry crypto.toCryptoGotham).1) :
      Treated sending wrapped relay earlier done (.drop .replay)
  | policyDenied
      (twice : sending.keys[done.hop + 1]? =
        some (.ok (relay.identityPublicKey crypto.toCryptoGotham))) :
      Treated sending wrapped relay earlier done (.drop .policyDenied)
  | forward {nextAddr nextNodeId delay viaRendezvous packet}
      (next : sending.AtHop wrapped (done.hop + 1) nextNodeId packet) :
      Treated sending wrapped relay earlier done
        (.forward nextAddr nextNodeId delay viaRendezvous packet)
  | deliver {delay}
      (exit : sending.keys.getLast? =
        some (.ok (relay.identityPublicKey crypto.toCryptoGotham)))
      (last : (sending.packets wrapped).getLast? = some done.arrival.packet)
      (delayed : sending.now + latency wrapped.delays ≤ done.now + delay) :
      Treated sending wrapped relay earlier done
        (.deliverLocal delay sending.payload.padded)

@[simp] theorem latency_cons (delay : UInt32) (delays : List UInt32) :
    latency (delay :: delays) = Relay.cappedDelay delay + latency delays := by
  simp [latency]

private theorem packetsAlong_single (crypto : CryptoGotham)
    (region : List UInt8) (header : crypto.Header) (sub : crypto.SubKeys) :
    crypto.packetsAlong region header [sub] =
      [crypto.packet region header [sub]] := by
  simp only [CryptoGotham.packetsAlong]
  split <;> rfl

private theorem getElem?_of_drop_eq {items rest : List α} {start : Nat}
    {item : α} (offset : Nat) (remaining : items.drop start = rest)
    (found : rest[offset]? = some item) :
    items[start + offset]? = some item := by
  rw [← found, ← remaining, List.getElem?_drop]

theorem Underway.atHop {sending : Sending crypto} {wrapped : Wrapped crypto}
    {flight : Flight} {hops : List Hop} {delays : List UInt32}
    {header : crypto.Header} {subKeys : List crypto.SubKeys}
    (underway : sending.Underway wrapped flight hops delays header subKeys) :
    sending.AtHop wrapped flight.hop flight.nodeId flight.packet := by
  obtain ⟨rest, seen⟩ :=
    underway.layered.packetsAlong_eq sending.payload.padded
  have ahead := underway.packets
  rw [seen, ← underway.packet] at ahead
  exact ⟨getElem?_of_drop_eq 0 underway.keys rfl,
    getElem?_of_drop_eq 0 ahead rfl⟩

theorem Underway.passed {sending : Sending crypto} (laws : crypto.Laws)
    {wrapped : Wrapped crypto} {flight : Flight} {hops : List Hop}
    {delays : List UInt32} {header : crypto.Header}
    {subKeys : List crypto.SubKeys}
    (underway : sending.Underway wrapped flight hops delays header subKeys)
    (sampling : Sampling ρ) {relay : Relay} (rng : ρ)
    (identity : relay.identityPublicKey crypto.toCryptoGotham =
      flight.nodeId) (limiterNow replayNow : Instant) :
    Passed crypto sending.payload.padded relay header hops delays subKeys
      (relay.process crypto.toCryptoGotham sampling rng
        ⟨flight.packet, limiterNow, replayNow⟩).1 := by
  rw [underway.packet]
  exact passed_of_layered laws sampling relay rng
    (identity ▸ underway.layered) sending.payload.length_padded limiterNow
    replayNow

/-- What leaves a relay is the packet for the next hop, and no earlier than the
delay of this one says. -/
theorem Underway.onward {sending : Sending crypto}
    {wrapped : Wrapped crypto} {flight : Flight} {hops : List Hop}
    {delays : List UInt32} {header : crypto.Header}
    {subKeys : List crypto.SubKeys}
    (underway : sending.Underway wrapped flight hops delays header subKeys)
    {relay : Relay} {done : Handled}
    (passed : Passed crypto sending.payload.padded relay header hops delays
      subKeys done.outcome)
    (hop_eq : done.hop = flight.hop) (waited : flight.due ≤ done.now)
    {next : Flight}
    (member : next ∈ done.onward) :
    ∃ hops delays header subKeys,
      sending.Underway wrapped next hops delays header subKeys := by
  obtain ⟨index, message, hop, arrival, now, outcome⟩ := done
  simp only at passed waited hop_eq
  cases passed with
  | rateLimited limited => cases member
  | strict strict legacy => cases member
  | replay seen => cases member
  | policyDenied same => cases member
  | deliver => cases member
  | @forward hop hops delay delays sub subKeys unwrapped unwraps layered =>
      cases List.mem_singleton.mp member
      have delayed := underway.delayed
      rw [latency_cons] at delayed
      refine ⟨hops, delays, unwrapped.nextHeader, subKeys, rfl, layered, ?_,
        ?_, ?_⟩
      · rw [hop_eq, ← List.tail_drop, underway.keys]
        rfl
      · rw [hop_eq, ← List.tail_drop, underway.packets,
          CryptoGotham.packetsAlong_of_unwraps _ unwraps, List.tail_cons]
      · calc
          _ ≤ flight.due + _ := delayed
          _ ≤ now + (Relay.cappedDelay delay + latency delays) :=
            Nat.add_le_add_right waited _
          _ = now + Relay.cappedDelay delay + latency delays :=
            (Nat.add_assoc _ _ _).symm

theorem Underway.treated {sending : Sending crypto}
    (laws : crypto.Laws) {wrapped : Wrapped crypto} {flight : Flight}
    {hops : List Hop} {delays : List UInt32} {header : crypto.Header}
    {subKeys : List crypto.SubKeys}
    (underway : sending.Underway wrapped flight hops delays header subKeys)
    {relay initial : Relay} {done : Handled}
    (packet : done.arrival.packet = flight.packet)
    (hop_eq : done.hop = flight.hop)
    (passed : Passed crypto sending.payload.padded relay header hops delays
      subKeys done.outcome)
    (identity : relay.identityPublicKey crypto.toCryptoGotham =
      flight.nodeId)
    (waited : flight.due ≤ done.now)
    (same : relay.settings = initial.settings) {earlier : List Handled}
    (remembered : ∀ gamma ∈ relay.replayCache.map,
      gamma ∈ initial.replayCache.map ∨
        ∃ other ∈ earlier, other.relay = done.relay ∧
          other.outcome.admitted = true ∧
          (other.arrival.entry crypto.toCryptoGotham).1 = gamma) :
    sending.Treated wrapped initial earlier done done.outcome := by
  obtain ⟨index, message, hop, arrival, now, outcome⟩ := done
  simp only at packet passed waited remembered hop_eq ⊢
  subst hop_eq
  have key : initial.identityPublicKey crypto.toCryptoGotham =
      flight.nodeId :=
    (Relay.identityPublicKey_of_settings _ same).symm.trans identity
  simp only [Relay.settings, Prod.mk.injEq] at same
  obtain ⟨-, limits, strictness⟩ := same
  have decoded : crypto.decode
      (Bytes.ofSlice crypto.headerLen arrival.packet) = .ok header := by
    rw [packet, underway.packet, CryptoGotham.packet, Bytes.ofSlice_append,
      laws.decode_encode]
  have remaining := underway.keys
  rw [← key] at remaining
  cases passed with
  | rateLimited limited => exact .rateLimited (limits ▸ limited)
  | strict strict legacy =>
      exact .strict (strictness ▸ strict) decoded legacy
  | replay seen =>
      refine .replay ?_
      simp only [Arrival.entry_of_decoded decoded]
      exact remembered _ seen
  | @policyDenied next hops delays subKeys same =>
      rw [identity, ← key] at same
      rw [List.map_cons, List.map_cons, ← same] at remaining
      exact .policyDenied (getElem?_of_drop_eq 1 remaining rfl)
  | @forward next hops delay delays sub subKeys unwrapped unwraps layered =>
      have ahead := underway.packets
      obtain ⟨rest, seen⟩ := layered.packetsAlong_eq sending.payload.padded
      rw [CryptoGotham.packetsAlong_of_unwraps _ unwraps, seen] at ahead
      exact .forward ⟨getElem?_of_drop_eq 1 remaining rfl,
        getElem?_of_drop_eq 1 ahead rfl⟩
  | @deliver sub delay =>
      have ahead := underway.packets
      have delayed := underway.delayed
      rw [latency_cons] at delayed
      rw [packetsAlong_single, ← underway.packet, ← packet] at ahead
      refine .deliver ?_ ?_ ?_
      · rw [← List.take_append_drop flight.hop sending.keys, remaining]
        exact List.getLast?_concat
      · rw [← List.take_append_drop flight.hop (sending.packets wrapped),
          ahead]
        exact List.getLast?_concat
      · exact delayed.trans (Nat.add_le_add_right waited _)

end Sending

theorem Handled.of_mem_onward {done : Handled} {next : Flight}
    (member : next ∈ done.onward) :
    next.message = done.message ∧ next.hop = done.hop + 1 := by
  unfold onward at member
  split at member
  · cases List.mem_singleton.mp member
    exact ⟨rfl, rfl⟩
  · cases member
  · cases member

namespace Mixnet

variable {crypto : ClientCrypto ρ}

/-- The relay had the tag in its cache at the start, or admitted it since. -/
def Remembered (relays : List (Relay × ρ)) (handled : List Handled)
    (crypto : ClientCrypto ρ) (index : Nat) (gamma : Gamma) : Prop :=
  (∃ initial, relays[index]? = some initial ∧
      gamma ∈ initial.1.replayCache.map) ∨
    ∃ other ∈ handled, other.relay = index ∧
      other.outcome.admitted = true ∧
      (other.arrival.entry crypto.toCryptoGotham).1 = gamma

structure Sound (sampling : Sampling ρ) (relays : List (Relay × ρ))
    (net : Mixnet crypto) : Prop where
  settings : net.relays.map (fun state => state.1.settings) =
    relays.map fun state => state.1.settings
  remembered : ∀ {index : Nat} {state : Relay × ρ},
    net.relays[index]? = some state → ∀ gamma ∈ state.1.replayCache.map,
      Remembered relays net.handled crypto index gamma
  underway : ∀ flight ∈ net.flights, ∀ number, flight.message = some number →
    ∃ sending wrapped hops delays header subKeys,
      net.sent[number]? = some sending ∧
        sending.wrap sampling = .ok wrapped ∧
        sending.Underway wrapped flight hops delays header subKeys
  treated : ∀ {earlier later : List Handled} {done : Handled},
    net.handled = earlier ++ done :: later →
      ∀ number, done.message = some number →
        ∃ sending wrapped state, net.sent[number]? = some sending ∧
          sending.wrap sampling = .ok wrapped ∧
          relays[done.relay]? = some state ∧
          sending.AtHop wrapped done.hop
            (state.1.identityPublicKey crypto.toCryptoGotham)
            done.arrival.packet ∧
          sending.Treated wrapped state.1 earlier done done.outcome

theorem sound_start (sampling : Sampling ρ) (relays : List (Relay × ρ)) :
    (start relays : Mixnet crypto).Sound sampling relays where
  settings := rfl
  remembered running gamma member := .inl ⟨_, running, member⟩
  underway _ member := absurd member List.not_mem_nil
  treated split := by
    have length := congrArg List.length split
    simp [start] at length

theorem Remembered.mono {relays : List (Relay × ρ)}
    {handled more : List Handled} {index : Nat} {gamma : Gamma}
    (remembered : Remembered relays handled crypto index gamma)
    (subset : handled ⊆ more) : Remembered relays more crypto index gamma := by
  cases remembered with
  | inl initially => exact .inl initially
  | inr since =>
      obtain ⟨other, member, rest⟩ := since
      exact .inr ⟨other, subset member, rest⟩

theorem Sound.initial {sampling : Sampling ρ} {relays : List (Relay × ρ)}
    {net : Mixnet crypto} (sound : net.Sound sampling relays) {index : Nat}
    {state : Relay × ρ} (running : net.relays[index]? = some state) :
    ∃ initial, relays[index]? = some initial ∧
      state.1.settings = initial.1.settings := by
  have mapped := congrArg (fun settings => settings[index]?) sound.settings
  simp only [List.getElem?_map, running, Option.map_some] at mapped
  obtain ⟨initial, found, same⟩ := Option.map_eq_some_iff.mp mapped.symm
  exact ⟨initial, found, same.symm⟩

private theorem Sound.of_flights {sampling : Sampling ρ}
    {relays : List (Relay × ρ)}
    {net after : Mixnet crypto} (sound : net.Sound sampling relays)
    (running : after.relays = net.relays)
    (handled : after.handled = net.handled) (sent : net.sent <+: after.sent)
    (underway : ∀ flight ∈ after.flights, ∀ number,
      flight.message = some number → flight ∈ net.flights ∨
        ∃ sending wrapped hops delays header subKeys,
          after.sent[number]? = some sending ∧
            sending.wrap sampling = .ok wrapped ∧
            sending.Underway wrapped flight hops delays header subKeys) :
    after.Sound sampling relays where
  settings := running ▸ sound.settings
  remembered found gamma member := by
    rw [running] at found
    rw [handled]
    exact sound.remembered found gamma member
  underway flight member number named := by
    cases underway flight member number named with
    | inl old =>
        obtain ⟨sending, wrapped, hops, delays, header, subKeys, found,
          rest⟩ := sound.underway flight old number named
        exact ⟨sending, wrapped, hops, delays, header, subKeys,
          getElem?_of_isPrefix sent found, rest⟩
    | inr new => exact new
  treated split number named := by
    rw [handled] at split
    obtain ⟨sending, wrapped, state, found, rest⟩ :=
      sound.treated split number named
    exact ⟨sending, wrapped, state, getElem?_of_isPrefix sent found, rest⟩

private theorem Sound.of_launched {sampling : Sampling ρ}
    {relays : List (Relay × ρ)} {net after : Mixnet crypto} {flight : Flight}
    (sound : net.Sound sampling relays)
    (launched : after.flights = net.flights ++ [flight])
    (running : after.relays = net.relays)
    (handled : after.handled = net.handled) (sent : net.sent <+: after.sent)
    (underway : ∀ number, flight.message = some number →
      flight ∈ net.flights ∨
        ∃ sending wrapped hops delays header subKeys,
          after.sent[number]? = some sending ∧
            sending.wrap sampling = .ok wrapped ∧
            sending.Underway wrapped flight hops delays header subKeys) :
    after.Sound sampling relays := by
  refine sound.of_flights running handled sent ?_
  intro other member number named
  rw [launched] at member
  cases List.mem_append.mp member with
  | inl old => exact .inl old
  | inr new =>
      cases List.mem_singleton.mp new
      exact underway number named

theorem Sound.ship {sampling : Sampling ρ} {relays : List (Relay × ρ)}
    {net : Mixnet crypto} (laws : crypto.Laws)
    (sound : net.Sound sampling relays) {sending : Sending crypto}
    {shipment : GothamClient.Shipment}
    (shipped : sending.client.shipPath crypto sampling sending.rng
      sending.path sending.payload = .ok shipment) :
    (net.ship sending shipment).Sound sampling relays := by
  refine sound.of_launched rfl rfl rfl (List.prefix_append _ _) ?_
  intro number named
  cases named
  rw [GothamClient.shipPath_eq] at shipped
  obtain ⟨wrapped, wraps, shipped⟩ := exists_of_bind_ok shipped
  obtain ⟨entryAddr, parsed, shipped⟩ := exists_of_bind_ok shipped
  obtain ⟨entryPk, identified, shipped⟩ := exists_of_bind_ok shipped
  cases shipped
  obtain ⟨kem, hops, entry, described, layered⟩ :=
    GothamClient.layered_of_wrap laws wraps
  rw [ok_of_mapError_ok identified] at entry
  cases entry
  have keys : (entryPk :: hops.map Hop.kem).map .ok = sending.keys := by
    rw [Sending.keys, SelectedPath.hops, List.map_cons, List.map_cons,
      ok_of_mapError_ok identified,
      GothamClient.map_kemPubkeyBytes described]
  exact .inr ⟨sending, wrapped, hops, wrapped.delays, wrapped.header,
    wrapped.subKeys, List.getElem?_concat_length, wraps, rfl, layered,
    keys.symm, rfl, Nat.le_refl _⟩

theorem Sound.arrive {sampling : Sampling ρ} {relays : List (Relay × ρ)}
    {net : Mixnet crypto} (laws : crypto.Laws)
    (sound : net.Sound sampling relays) {index relay : Nat}
    {flight : Flight} {state : Relay × ρ}
    (limiterNow replayNow : Instant) {now : Instant}
    (found : net.flights[index]? = some flight)
    (running : net.relays[relay]? = some state)
    (identity : state.1.identityPublicKey crypto.toCryptoGotham =
      flight.nodeId)
    (waited : flight.due ≤ now) :
    (net.arrive sampling index flight relay state limiterNow replayNow
      now).Sound sampling relays := by
  -- The induction step of a run: a relay takes up a packet.
  obtain ⟨initial, started, same⟩ := sound.initial running
  have old := List.mem_of_getElem? found
  constructor
  · exact (map_set_of_eq running
      (state.1.settings_process _ sampling state.2 _)).trans sound.settings
  · intro other changed found gamma member
    rcases getElem?_set_cases found with ⟨rfl, rfl⟩ | ⟨_, kept⟩
    · have admission := state.1.process_admission crypto.toCryptoGotham
        sampling state.2 ⟨flight.packet, limiterNow, replayNow⟩
      cases admission.mem_cases member with
      | inl held =>
          exact (sound.remembered running gamma held).mono
            (List.subset_append_left _ _)
      | inr new =>
          exact .inr ⟨_, List.mem_append_right _ List.mem_cons_self, rfl,
            new.1, new.2⟩
    · exact (sound.remembered kept gamma member).mono
        (List.subset_append_left _ _)
  · intro next member number named
    cases List.mem_append.mp member with
    | inl kept =>
        exact sound.underway next (List.mem_of_mem_eraseIdx kept) number named
    | inr new =>
        rw [(Handled.of_mem_onward new).1] at named
        obtain ⟨sending, wrapped, hops, delays, header, subKeys, posted,
          wraps, underway⟩ := sound.underway flight old number named
        obtain ⟨hops, delays, header, subKeys, onward⟩ := underway.onward
          (underway.passed laws sampling state.2 identity limiterNow
            replayNow) rfl waited new
        exact ⟨sending, wrapped, hops, delays, header, subKeys, posted, wraps,
          onward⟩
  · intro earlier later done split number named
    rcases concat_split_cases split with ⟨rfl, rfl⟩ | ⟨rest, before⟩
    · obtain ⟨sending, wrapped, hops, delays, header, subKeys, posted, wraps,
        underway⟩ := sound.underway flight old number named
      have key : initial.1.identityPublicKey crypto.toCryptoGotham =
          flight.nodeId :=
        (Relay.identityPublicKey_of_settings _ same).symm.trans identity
      refine ⟨sending, wrapped, initial, posted, wraps, started,
        key ▸ underway.atHop, ?_⟩
      apply underway.treated laws rfl rfl
        (underway.passed laws sampling state.2 identity limiterNow replayNow)
        identity waited same
      intro gamma held
      rcases sound.remembered running gamma held with
        ⟨other, found, held⟩ | since
      · cases started.symm.trans found
        exact .inl held
      · exact .inr since
    · exact sound.treated before number named

theorem Sound.of_step {sampling : Sampling ρ} {relays : List (Relay × ρ)}
    {net after : Mixnet crypto} {action : MixnetAction crypto}
    (laws : crypto.Laws) (sound : net.Sound sampling relays)
    (taken : net.step sampling action = some after) :
    after.Sound sampling relays := by
  cases stepped_of_step taken with
  | ship shipped => exact sound.ship laws shipped
  | inject nodeId packet now =>
      refine sound.of_launched rfl rfl rfl (List.prefix_refl _) ?_
      intro number named
      cases named
  | copy found =>
      refine sound.of_launched rfl rfl rfl (List.prefix_refl _) ?_
      intro number named
      exact .inl (List.mem_of_getElem? found)
  | lose found =>
      refine sound.of_flights rfl rfl (List.prefix_refl _) ?_
      intro flight member number named
      exact .inl (List.mem_of_mem_eraseIdx member)
  | arrive found running identity waited =>
      exact sound.arrive laws _ _ found running identity waited

theorem sound_of_trace {sampling : Sampling ρ} {relays : List (Relay × ρ)}
    {net : Mixnet crypto} {actions : List (MixnetAction crypto)}
    {allowed : Mixnet crypto → MixnetAction crypto → Prop}
    (laws : crypto.Laws)
    (trace : Trace (step sampling) allowed (start relays) actions net) :
    net.Sound sampling relays := by
  apply trace.invariant fun _ net => net.Sound sampling relays
  · exact sound_start sampling relays
  · intro _ before after action sound _ taken
    exact sound.of_step laws taken

/-- A packet of a message is for a relay of its path and as the client made it
for that relay, and a relay drops, forwards or delivers it for the reasons that
it should. -/
structure Faithful (sampling : Sampling ρ) (relays : List (Relay × ρ))
    (net : Mixnet crypto) : Prop where
  inFlight : ∀ flight ∈ net.flights, ∀ number, flight.message = some number →
    ∃ sending wrapped, net.sent[number]? = some sending ∧
      sending.wrap sampling = .ok wrapped ∧
      sending.AtHop wrapped flight.hop flight.nodeId flight.packet
  treated : ∀ {earlier later : List Handled} {done : Handled},
    net.handled = earlier ++ done :: later →
      ∀ number, done.message = some number →
        ∃ sending wrapped state, net.sent[number]? = some sending ∧
          sending.wrap sampling = .ok wrapped ∧
          relays[done.relay]? = some state ∧
          sending.AtHop wrapped done.hop
            (state.1.identityPublicKey crypto.toCryptoGotham)
            done.arrival.packet ∧
          sending.Treated wrapped state.1 earlier done done.outcome

theorem messages_carried (laws : crypto.Laws) {sampling : Sampling ρ}
    {relays : List (Relay × ρ)} {net : Mixnet crypto}
    {actions : List (MixnetAction crypto)}
    (trace : Trace (step sampling) (fun _ _ => True) (start relays) actions
      net) : net.Faithful sampling relays := by
  have sound := sound_of_trace laws trace
  refine ⟨?_, sound.treated⟩
  intro flight member number named
  obtain ⟨sending, wrapped, hops, delays, header, subKeys, posted, wraps,
    underway⟩ := sound.underway flight member number named
  exact ⟨sending, wrapped, posted, wraps, underway.atHop⟩

/-! A message through three relays. The network repeats its packet on the first
leg, and somebody sends the last relay a packet of another kind. -/

def sampleRelays : List (Relay × Unit) :=
  [(Relay.new (Bytes.replicate 32 1) 4 1000 0 0, ()),
    (Relay.new (Bytes.replicate 32 2) 4 1000 0 0, ()),
    (Relay.new (Bytes.replicate 32 3) 4 1000 0 0, ())]

def sampleSending : Sending Station.sampleCrypto where
  client := ⟨500000⟩
  rng := ()
  path := Station.samplePath
  payload := ⟨[7], by decide⟩
  now := 0

def sampleActions : List (MixnetAction Station.sampleCrypto) :=
  [.ship sampleSending, .inject (Bytes.replicate 32 3) [1] 5, .copy 0,
    .arrive 2 0 10 10 10, .arrive 0 0 20 20 20, .arrive 0 2 30 30 30,
    .arrive 0 1 250000010 250000010 250000010,
    .arrive 0 2 500000010 500000010 500000010]

def sampleNet : Mixnet Station.sampleCrypto :=
  (Trace.exec (step .plain) (start sampleRelays) sampleActions).getD
    (start sampleRelays)

theorem sampleNet_trace :
    Trace (step .plain) (fun _ _ => True) (start sampleRelays) sampleActions
      sampleNet :=
  Trace.of_possible (by decide +kernel)

theorem sample_messages_carried :
    sampleNet.handled.map (fun done => (done.message, done.outcome.admitted)) =
        [(some 0, true), (some 0, false), (none, false), (some 0, true),
          (some 0, true)] ∧
      sampleNet.Faithful .plain sampleRelays :=
  ⟨by decide +kernel, messages_carried Station.sampleCrypto_laws
    sampleNet_trace⟩

end Mixnet

end GothamRelay
