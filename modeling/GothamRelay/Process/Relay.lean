import GothamRelay.Data.Unwinding
import GothamRelay.Delay
import GothamRelay.Path
import GothamRelay.Process.Crypto
import GothamRelay.RateLimit.Limiter

namespace GothamRelay

open Data

inductive DropReason where
  | badMac
  | replay
  | malformed
  | policyDenied
  | rateLimited
  deriving DecidableEq, Repr

structure SocketAddrV4 where
  ip : Bytes 4
  port : UInt16
  deriving DecidableEq

inductive ProcessOutcome where
  | drop (reason : DropReason)
  | forward (nextAddr : SocketAddrV4) (nextNodeId : Key) (delay : Duration)
      (viaRendezvous : Bool) (packet : List UInt8)
  | deliverLocal (delay : Duration) (payload : List UInt8)
  deriving DecidableEq

structure Relay where
  replayCache : ReplayCache
  scheduler : PoissonScheduler
  rateLimiter : RateLimiter
  acceptHeaderV2 : Bool
  v2Accepted : UInt64
  replayPath : Option Path
  identitySk : Key

/-- One call of `process`: the packet and what the clock says when the limiter
and then the replay cache ask for it. -/
structure Arrival where
  packet : List UInt8
  limiterNow : Instant
  replayNow : Instant

namespace Relay

def new (identitySk : Key) (replayMaxSize : Nat) (replayTtl : Duration)
    (meanDelayMicros : UInt64) (now : Instant) : Relay where
  replayCache := ReplayCache.new replayMaxSize replayTtl
  scheduler := PoissonScheduler.new meanDelayMicros
  rateLimiter := RateLimiter.unlimited now
  acceptHeaderV2 := true
  v2Accepted := 0
  replayPath := none
  identitySk := identitySk

def strictHeaderV3 (relay : Relay) : Relay :=
  { relay with acceptHeaderV2 := false }

def withRateLimit (relay : Relay) (maxPps : ℚ) (maxBytesPerDay : UInt64)
    (now : Instant) : Relay :=
  { relay with rateLimiter := RateLimiter.new maxPps maxBytesPerDay now }

def identityPublicKey (crypto : CryptoGotham) (relay : Relay) : Key :=
  crypto.publicKey relay.identitySk

def countLegacy (relay : Relay) : Relay :=
  { relay with v2Accepted := saturatingAdd relay.v2Accepted 1 }

def maxHopDelay : Duration := Duration.fromSecs 30

def hopDelay (sampling : Sampling ρ) (relay : Relay) (rng : ρ)
    (delayMicros : UInt32) : Duration × ρ :=
  if delayMicros = 0 then
    relay.scheduler.nextDelay sampling rng
  else
    (min (Duration.fromMicros delayMicros.toNat) maxHopDelay, rng)

def route (crypto : CryptoGotham) (relay : Relay)
    (unwrapped : Unwrapped crypto.Header) (delay : Duration)
    (payloadRegion : List UInt8) : ProcessOutcome :=
  let record := unwrapped.record
  if crypto.isLastHop record then
    .deliverLocal delay payloadRegion
  else if record.nextNodeId = relay.identityPublicKey crypto then
    .drop .policyDenied
  else
    .forward ⟨record.nextIpv4, record.nextPort⟩ record.nextNodeId delay
      (crypto.isViaRendezvous record)
      ((crypto.encode unwrapped.nextHeader).val ++ payloadRegion)

/-- `process` from the replay check on: the header has been authenticated. -/
def afterUnwrap (crypto : CryptoGotham) (sampling : Sampling ρ) (relay : Relay)
    (rng : ρ) (arrival : Arrival) (header : crypto.Header)
    (subKeys : crypto.SubKeys) (unwrapped : Unwrapped crypto.Header) :
    ProcessOutcome × Relay × ρ :=
  let checked := relay.replayCache.checkAndInsertAt (crypto.gamma header)
    arrival.replayNow
  let relay := { relay with replayCache := checked.2 }
  if checked.1 = .replay then
    (.drop .replay, relay, rng)
  else
    let delay := relay.hopDelay sampling rng unwrapped.record.delayMicros
    let payloadRegion :=
      crypto.decrypt subKeys (arrival.packet.drop crypto.headerLen)
    (relay.route crypto unwrapped delay.1 payloadRegion, relay, delay.2)

def rejection : GothamError → DropReason
  | .badMac => .badMac
  | .other => .malformed

/-- `process` from the key agreement on. -/
def authenticate (crypto : CryptoGotham) (sampling : Sampling ρ)
    (relay : Relay) (rng : ρ) (arrival : Arrival) (header : crypto.Header) :
    ProcessOutcome × Relay × ρ :=
  let shared := crypto.x25519 relay.identitySk (crypto.alpha header)
  match crypto.deriveHopSubkeys shared with
  | .error _ => (.drop .malformed, relay, rng)
  | .ok subKeys =>
      match crypto.unwrapHeader header subKeys with
      | .error error => (.drop (rejection error), relay, rng)
      | .ok unwrapped =>
          relay.afterUnwrap crypto sampling rng arrival header subKeys unwrapped

/-- `process` from the version check on. -/
def checkVersion (crypto : CryptoGotham) (sampling : Sampling ρ)
    (relay : Relay) (rng : ρ) (arrival : Arrival) (header : crypto.Header) :
    ProcessOutcome × Relay × ρ :=
  if crypto.version header = crypto.versionLegacy then
    if !relay.acceptHeaderV2 then
      (.drop .malformed, relay, rng)
    else
      relay.countLegacy.authenticate crypto sampling rng arrival header
  else
    relay.authenticate crypto sampling rng arrival header

def process (crypto : CryptoGotham) (sampling : Sampling ρ) (relay : Relay)
    (rng : ρ) (arrival : Arrival) : ProcessOutcome × Relay × ρ :=
  if arrival.packet.length ≠ crypto.packetSize then
    (.drop .malformed, relay, rng)
  else
    let checked := relay.rateLimiter.checkAt arrival.packet.length
      arrival.limiterNow
    let relay := { relay with rateLimiter := checked.2 }
    if !checked.1.isAllowed then
      (.drop .rateLimited, relay, rng)
    else
      match crypto.decode (Bytes.ofSlice crypto.headerLen arrival.packet) with
      | .error _ => (.drop .malformed, relay, rng)
      | .ok header =>
          relay.checkVersion crypto sampling rng arrival header

def outcomes (crypto : CryptoGotham) (sampling : Sampling ρ) (relay : Relay)
    (rng : ρ) (arrivals : List Arrival) : List ProcessOutcome :=
  outputs (fun state => Relay.process crypto sampling state.1 state.2)
    (relay, rng) arrivals

section Equations

variable {crypto : CryptoGotham} {sampling : Sampling ρ} {relay : Relay}
  {rng : ρ} {arrival : Arrival} {header : crypto.Header}
  {subKeys : crypto.SubKeys}

theorem authenticate_of_underivable
    (underivable : crypto.deriveHopSubkeys
      (crypto.x25519 relay.identitySk (crypto.alpha header)) = .error error) :
    relay.authenticate crypto sampling rng arrival header =
      (.drop .malformed, relay, rng) := by
  simp only [authenticate, underivable]

theorem authenticate_of_rejected
    (derived : crypto.deriveHopSubkeys
      (crypto.x25519 relay.identitySk (crypto.alpha header)) = .ok subKeys)
    (rejected : crypto.unwrapHeader header subKeys = .error error) :
    relay.authenticate crypto sampling rng arrival header =
      (.drop (rejection error), relay, rng) := by
  simp only [authenticate, derived, rejected]

theorem authenticate_of_unwrapped
    (derived : crypto.deriveHopSubkeys
      (crypto.x25519 relay.identitySk (crypto.alpha header)) = .ok subKeys)
    (accepted : crypto.unwrapHeader header subKeys = .ok unwrapped) :
    relay.authenticate crypto sampling rng arrival header =
      relay.afterUnwrap crypto sampling rng arrival header subKeys
        unwrapped := by
  simp only [authenticate, derived, accepted]

theorem process_of_length_ne
    (wrong : arrival.packet.length ≠ crypto.packetSize) :
    relay.process crypto sampling rng arrival =
      (.drop .malformed, relay, rng) :=
  if_pos wrong

section Unlimited

variable (exempt : relay.rateLimiter.isUnlimited = true)
  (sized : arrival.packet.length = crypto.packetSize)

include exempt sized

theorem process_of_undecodable
    (undecodable :
      crypto.decode (Bytes.ofSlice crypto.headerLen arrival.packet) =
        .error error) :
    relay.process crypto sampling rng arrival =
      (.drop .malformed, relay, rng) := by
  rw [process, if_neg (not_not_intro sized),
    RateLimiter.checkAt_of_isUnlimited exempt, undecodable]
  rfl

theorem process_of_decoded
    (decoded :
      crypto.decode (Bytes.ofSlice crypto.headerLen arrival.packet) =
        .ok header) :
    relay.process crypto sampling rng arrival =
      relay.checkVersion crypto sampling rng arrival header := by
  rw [process, if_neg (not_not_intro sized),
    RateLimiter.checkAt_of_isUnlimited exempt, decoded]
  rfl

end Unlimited

end Equations

/-! ## What a packet can change -/

section Changes

variable (crypto : CryptoGotham) (sampling : Sampling ρ) (relay : Relay)
  (rng : ρ) (arrival : Arrival) (header : crypto.Header)

private theorem afterUnwrap_relay (subKeys : crypto.SubKeys)
    (unwrapped : Unwrapped crypto.Header) :
    (relay.afterUnwrap crypto sampling rng arrival header subKeys
        unwrapped).2.1 =
      { relay with
        replayCache := (relay.replayCache.checkAndInsertAt
          (crypto.gamma header) arrival.replayNow).2 } := by
  rw [afterUnwrap]
  split <;> rfl

private theorem authenticate_relay :
    ∃ cache, (relay.authenticate crypto sampling rng arrival header).2.1 =
      { relay with replayCache := cache } := by
  cases derived : crypto.deriveHopSubkeys
      (crypto.x25519 relay.identitySk (crypto.alpha header)) with
  | error error =>
      rw [authenticate_of_underivable derived]
      exact ⟨relay.replayCache, rfl⟩
  | ok subKeys =>
      cases opened : crypto.unwrapHeader header subKeys with
      | error error =>
          rw [authenticate_of_rejected derived opened]
          exact ⟨relay.replayCache, rfl⟩
      | ok unwrapped =>
          rw [authenticate_of_unwrapped derived opened, afterUnwrap_relay]
          exact ⟨_, rfl⟩

theorem checkVersion_relay :
    ∃ cache count,
      (relay.checkVersion crypto sampling rng arrival header).2.1 =
        { relay with replayCache := cache, v2Accepted := count } := by
  rw [checkVersion]
  split
  · split
    · exact ⟨relay.replayCache, relay.v2Accepted, rfl⟩
    · obtain ⟨cache, after⟩ := authenticate_relay crypto sampling
        relay.countLegacy rng arrival header
      exact ⟨cache, _, after⟩
  · obtain ⟨cache, after⟩ := authenticate_relay crypto sampling relay rng
      arrival header
    exact ⟨cache, relay.v2Accepted, after⟩

theorem process_replayPath :
    (relay.process crypto sampling rng arrival).2.1.replayPath =
      relay.replayPath := by
  simp only [process]
  split
  · rfl
  · split
    · rfl
    · split
      · rfl
      · rename_i header _
        obtain ⟨cache, count, after⟩ := checkVersion_relay crypto sampling
          { relay with rateLimiter := (relay.rateLimiter.checkAt
              arrival.packet.length arrival.limiterNow).2 } rng arrival header
        rw [after]

end Changes

end Relay

end GothamRelay
