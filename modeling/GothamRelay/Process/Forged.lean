import GothamRelay.Process.Relay

namespace GothamRelay

open Data

/-- A packet that fails one of the checks made before the replay cache. -/
inductive Forged (crypto : CryptoGotham) (identitySk : Key)
    (packet : List UInt8) : Prop where
  | length (wrong : packet.length ≠ crypto.packetSize)
  | header (error : GothamError)
      (undecodable :
        crypto.decode (Bytes.ofSlice crypto.headerLen packet) = .error error)
  | subKeys (header : crypto.Header) (error : GothamError)
      (decoded :
        crypto.decode (Bytes.ofSlice crypto.headerLen packet) = .ok header)
      (underivable :
        crypto.deriveHopSubkeys
          (crypto.x25519 identitySk (crypto.alpha header)) = .error error)
  | mac (header : crypto.Header) (subKeys : crypto.SubKeys)
      (error : GothamError)
      (decoded :
        crypto.decode (Bytes.ofSlice crypto.headerLen packet) = .ok header)
      (derived :
        crypto.deriveHopSubkeys
          (crypto.x25519 identitySk (crypto.alpha header)) = .ok subKeys)
      (rejected : crypto.unwrapHeader header subKeys = .error error)

namespace Relay

/-! The counter of legacy headers is the only field that is written before a
packet is authenticated, and no outcome depends on it. -/

def withCount (relay : Relay) (count : UInt64) : Relay :=
  { relay with v2Accepted := count }

def AgreesWith (first second : Relay) : Prop :=
  ∃ count, second = first.withCount count

theorem AgreesWith.refl (relay : Relay) : relay.AgreesWith relay :=
  ⟨relay.v2Accepted, rfl⟩

private theorem AgreesWith.countLegacy_left {first second : Relay}
    (agree : first.AgreesWith second) :
    first.countLegacy.AgreesWith second := by
  obtain ⟨count, rfl⟩ := agree
  exact ⟨count, rfl⟩

/-- Running the same step on relays that agree gives the same outcome, the
same random state, and relays that agree. -/
def Congruent (first second : ProcessOutcome × Relay × ρ) : Prop :=
  first.1 = second.1 ∧ first.2.1.AgreesWith second.2.1 ∧
    first.2.2 = second.2.2

private theorem afterUnwrap_congruent (crypto : CryptoGotham)
    (sampling : Sampling ρ) {first second : Relay}
    (agree : first.AgreesWith second) (rng : ρ) (arrival : Arrival)
    (header : crypto.Header) (subKeys : crypto.SubKeys)
    (unwrapped : Unwrapped crypto.Header) :
    Congruent
      (first.afterUnwrap crypto sampling rng arrival header subKeys unwrapped)
      (second.afterUnwrap crypto sampling rng arrival header subKeys
        unwrapped) := by
  obtain ⟨count, rfl⟩ := agree
  cases verdict : (first.replayCache.checkAndInsertAt (crypto.gamma header)
      arrival.replayNow).1 with
  | fresh =>
      simp only [afterUnwrap, withCount, verdict, reduceCtorEq, if_false]
      exact ⟨rfl, ⟨count, rfl⟩, rfl⟩
  | replay =>
      simp only [afterUnwrap, withCount, verdict, if_true]
      exact ⟨rfl, ⟨count, rfl⟩, rfl⟩

private theorem authenticate_congruent (crypto : CryptoGotham)
    (sampling : Sampling ρ) {first second : Relay}
    (agree : first.AgreesWith second) (rng : ρ) (arrival : Arrival)
    (header : crypto.Header) :
    Congruent (first.authenticate crypto sampling rng arrival header)
      (second.authenticate crypto sampling rng arrival header) := by
  have sameKey : second.identitySk = first.identitySk := by
    obtain ⟨count, rfl⟩ := agree
    rfl
  cases derived : crypto.deriveHopSubkeys
      (crypto.x25519 first.identitySk (crypto.alpha header)) with
  | error error =>
      rw [authenticate_of_underivable derived,
        authenticate_of_underivable (sameKey ▸ derived)]
      exact ⟨rfl, agree, rfl⟩
  | ok subKeys =>
      cases opened : crypto.unwrapHeader header subKeys with
      | error error =>
          rw [authenticate_of_rejected derived opened,
            authenticate_of_rejected (sameKey ▸ derived) opened]
          exact ⟨rfl, agree, rfl⟩
      | ok unwrapped =>
          rw [authenticate_of_unwrapped derived opened,
            authenticate_of_unwrapped (sameKey ▸ derived) opened]
          exact afterUnwrap_congruent crypto sampling agree rng arrival header
            subKeys unwrapped

theorem AgreesWith.countLegacy {first second : Relay}
    (agree : first.AgreesWith second) :
    first.countLegacy.AgreesWith second.countLegacy := by
  obtain ⟨count, rfl⟩ := agree
  exact ⟨saturatingAdd count 1, rfl⟩

private theorem checkVersion_congruent (crypto : CryptoGotham)
    (sampling : Sampling ρ) {first second : Relay}
    (agree : first.AgreesWith second) (rng : ρ) (arrival : Arrival)
    (header : crypto.Header) :
    Congruent (first.checkVersion crypto sampling rng arrival header)
      (second.checkVersion crypto sampling rng arrival header) := by
  have sameFlag : second.acceptHeaderV2 = first.acceptHeaderV2 := by
    obtain ⟨count, rfl⟩ := agree
    rfl
  simp only [checkVersion, sameFlag]
  split
  · split
    · exact ⟨rfl, agree, rfl⟩
    · exact authenticate_congruent crypto sampling agree.countLegacy rng
        arrival header
  · exact authenticate_congruent crypto sampling agree rng arrival header

private theorem process_congruent (crypto : CryptoGotham)
    (sampling : Sampling ρ)
    {first second : Relay} (agree : first.AgreesWith second)
    (exempt : first.rateLimiter.isUnlimited = true) (rng : ρ)
    (arrival : Arrival) :
    Congruent (first.process crypto sampling rng arrival)
      (second.process crypto sampling rng arrival) := by
  have exempt' : second.rateLimiter.isUnlimited = true := by
    obtain ⟨count, rfl⟩ := agree
    exact exempt
  by_cases sized : arrival.packet.length = crypto.packetSize
  · cases decoded : crypto.decode
        (Bytes.ofSlice crypto.headerLen arrival.packet) with
    | error error =>
        rw [process_of_undecodable exempt sized decoded,
          process_of_undecodable exempt' sized decoded]
        exact ⟨rfl, agree, rfl⟩
    | ok header =>
        rw [process_of_decoded exempt sized decoded,
          process_of_decoded exempt' sized decoded]
        exact checkVersion_congruent crypto sampling agree rng arrival header
  · rw [process_of_length_ne sized, process_of_length_ne sized]
    exact ⟨rfl, agree, rfl⟩

/-! The set-up of an unlimited relay stays as it is. -/

structure SameSetup (before after : Relay) : Prop where
  rateLimiter : after.rateLimiter = before.rateLimiter
  identitySk : after.identitySk = before.identitySk

theorem SameSetup.refl (relay : Relay) : SameSetup relay relay := ⟨rfl, rfl⟩

private theorem process_sameSetup (crypto : CryptoGotham)
    (sampling : Sampling ρ)
    {relay : Relay} (exempt : relay.rateLimiter.isUnlimited = true) (rng : ρ)
    (arrival : Arrival) :
    SameSetup relay (relay.process crypto sampling rng arrival).2.1 := by
  by_cases sized : arrival.packet.length = crypto.packetSize
  · cases decoded : crypto.decode
        (Bytes.ofSlice crypto.headerLen arrival.packet) with
    | error error =>
        rw [process_of_undecodable exempt sized decoded]
        exact .refl relay
    | ok header =>
        obtain ⟨cache, count, after⟩ :=
          checkVersion_relay crypto sampling relay rng arrival header
        rw [process_of_decoded exempt sized decoded, after]
        exact ⟨rfl, rfl⟩
  · rw [process_of_length_ne sized]
    exact .refl relay

/-! A forged packet is dropped and leaves at most a trace in the counter. -/

private theorem checkVersion_of_dropped {crypto : CryptoGotham}
    {sampling : Sampling ρ} {relay : Relay} {rng : ρ} {arrival : Arrival}
    {header : crypto.Header}
    (dropped : ∀ relay' : Relay, relay'.identitySk = relay.identitySk →
      (relay'.authenticate crypto sampling rng arrival header).2 =
        (relay', rng)) :
    let after := (relay.checkVersion crypto sampling rng arrival header).2
    after.2 = rng ∧ (after.1 = relay ∨ after.1 = relay.countLegacy) := by
  simp only [checkVersion]
  split
  · split
    · exact ⟨rfl, .inl rfl⟩
    · rw [dropped relay.countLegacy rfl]
      exact ⟨rfl, .inr rfl⟩
  · rw [dropped relay rfl]
    exact ⟨rfl, .inl rfl⟩

private theorem process_of_forged {crypto : CryptoGotham}
    (sampling : Sampling ρ)
    {relay : Relay} (exempt : relay.rateLimiter.isUnlimited = true) (rng : ρ)
    {arrival : Arrival}
    (forged : Forged crypto relay.identitySk arrival.packet) :
    let after := (relay.process crypto sampling rng arrival).2
    after.2 = rng ∧ (after.1 = relay ∨ after.1 = relay.countLegacy) := by
  by_cases sized : arrival.packet.length = crypto.packetSize
  · cases forged with
    | length wrong => exact absurd sized wrong
    | header error undecodable =>
        rw [process_of_undecodable exempt sized undecodable]
        exact ⟨rfl, .inl rfl⟩
    | subKeys header error decoded underivable =>
        rw [process_of_decoded exempt sized decoded]
        apply checkVersion_of_dropped
        intro relay' sameKey
        rw [authenticate_of_underivable (sameKey ▸ underivable)]
    | mac header subKeys error decoded derived rejected =>
        rw [process_of_decoded exempt sized decoded]
        apply checkVersion_of_dropped
        intro relay' sameKey
        rw [authenticate_of_rejected (sameKey ▸ derived) rejected]
  · rw [process_of_length_ne sized]
    exact ⟨rfl, .inl rfl⟩

structure Indistinguishable (identitySk : Key) (first second : Relay × ρ) :
    Prop where
  agree : first.1.AgreesWith second.1
  rng : first.2 = second.2
  exempt : first.1.rateLimiter.isUnlimited = true
  identity : first.1.identitySk = identitySk

theorem unwinding (crypto : CryptoGotham) (sampling : Sampling ρ)
    (identitySk : Key) :
    Unwinding
      (fun state : Relay × ρ => Relay.process crypto sampling state.1 state.2)
      (fun arrival => Forged crypto identitySk arrival.packet)
      (Indistinguishable identitySk) where
  respects := by
    intro first second arrival related
    obtain ⟨same, agree, rng⟩ := process_congruent crypto sampling
      related.agree related.exempt first.2 arrival
    have setup := process_sameSetup crypto sampling related.exempt first.2
      arrival
    rw [← related.rng]
    exact ⟨same, agree, rng, setup.rateLimiter ▸ related.exempt,
      setup.identitySk.trans related.identity⟩
  ignores := by
    intro first second arrival related forged
    obtain ⟨rng, unchanged⟩ := process_of_forged sampling related.exempt
      first.2 (related.identity.symm ▸ forged)
    have setup := process_sameSetup crypto sampling related.exempt first.2
      arrival
    refine ⟨?_, rng.trans related.rng, setup.rateLimiter ▸ related.exempt,
      setup.identitySk.trans related.identity⟩
    cases unchanged with
    | inl same =>
        rw [same]
        exact related.agree
    | inr counted =>
        rw [counted]
        exact related.agree.countLegacy_left

/-- Whatever forged packets are inserted, the packets on the left get the
outcomes they would have got alone. -/
theorem forged_traffic_noninterfering (crypto : CryptoGotham)
    (sampling : Sampling ρ) (relay : Relay)
    (exempt : relay.rateLimiter.isUnlimited = true) (rng : ρ)
    (traffic : List (Arrival ⊕ Arrival))
    (forged : ∀ arrival, .inr arrival ∈ traffic →
      Forged crypto relay.identitySk arrival.packet) :
    observed traffic (relay.outcomes crypto sampling rng (merged traffic)) =
      relay.outcomes crypto sampling rng (purge traffic) := by
  have start : Indistinguishable relay.identitySk (relay, rng) (relay, rng) :=
    ⟨.refl relay, rfl, exempt, rfl⟩
  exact (unwinding crypto sampling relay.identitySk).observed_eq traffic start
    forged

def sampleCrypto : CryptoGotham :=
  .plain 2 [{ RoutingRecord.zero with flag := 1 }]

def sampleRelay : Relay :=
  new (Bytes.replicate 32 7) 4 1000 0 0

/-- A legacy packet, three forgeries around it of which two carry its gamma,
and a replay of it. -/
def sampleTraffic : List (Arrival ⊕ Arrival) :=
  [.inr ⟨[2, 0, 1, 9, 9], 1, 1⟩, .inl ⟨[2, 0, 0, 5, 6], 2, 2⟩,
    .inr ⟨[3, 0, 1, 5, 6], 3, 3⟩, .inr ⟨[], 4, 4⟩,
    .inl ⟨[2, 0, 0, 5, 6], 5, 5⟩]

private theorem sampleTraffic_forged (arrival : Arrival)
    (member : .inr arrival ∈ sampleTraffic) :
    Forged sampleCrypto sampleRelay.identitySk arrival.packet := by
  simp only [sampleTraffic, List.mem_cons, List.not_mem_nil, Sum.inr.injEq,
    reduceCtorEq, false_or, or_false] at member
  obtain rfl | rfl | rfl := member
  · exact .mac (⟨[2, 0, 1], rfl⟩ : Bytes 3) (0 : UInt8) .badMac rfl rfl rfl
  · exact .mac (⟨[3, 0, 1], rfl⟩ : Bytes 3) (0 : UInt8) .badMac rfl rfl rfl
  · exact .length (by decide)

theorem sampleTraffic_noninterfering :
    observed sampleTraffic
        (sampleRelay.outcomes sampleCrypto .plain ()
          (merged sampleTraffic)) =
      [.deliverLocal 0 [5, 6], .drop .replay] :=
  (forged_traffic_noninterfering sampleCrypto .plain sampleRelay
    (by decide +kernel) () sampleTraffic sampleTraffic_forged).trans
    (by decide +kernel)

end Relay

end GothamRelay
