import GothamRelay.Process.Relay
import GothamRelay.Replay.Window

namespace GothamRelay

open Data
open Data.SlidingWindow

/-- The outcomes of a packet that the replay cache has accepted. -/
def ProcessOutcome.admitted : ProcessOutcome → Bool
  | .drop .policyDenied => true
  | .drop _ => false
  | .forward _ _ _ _ _ => true
  | .deliverLocal _ _ => true

inductive Admission (crypto : CryptoGotham) (cache : ReplayCache)
    (arrival : Arrival) : ProcessOutcome → ReplayCache → Prop where
  | unseen {outcome : ProcessOutcome} (dropped : outcome.admitted = false) :
      Admission crypto cache arrival outcome cache
  | checked {header : crypto.Header} {outcome : ProcessOutcome}
      (decoded : crypto.decode
        (Bytes.ofSlice crypto.headerLen arrival.packet) = .ok header)
      (verdict : outcome.admitted = true ↔
        (cache.checkAndInsertAt (crypto.gamma header)
          arrival.replayNow).1 = .fresh) :
      Admission crypto cache arrival outcome
        (cache.checkAndInsertAt (crypto.gamma header) arrival.replayNow).2

def Arrival.entry (crypto : CryptoGotham) (arrival : Arrival) :
    Gamma × Instant :=
  match crypto.decode (Bytes.ofSlice crypto.headerLen arrival.packet) with
  | .ok header => (crypto.gamma header, arrival.replayNow)
  | .error _ => (Bytes.replicate 16 0, arrival.replayNow)

theorem Arrival.entry_of_decoded {crypto : CryptoGotham} {arrival : Arrival}
    {header : crypto.Header}
    (decoded : crypto.decode
      (Bytes.ofSlice crypto.headerLen arrival.packet) = .ok header) :
    arrival.entry crypto = (crypto.gamma header, arrival.replayNow) := by
  rw [entry, decoded]

theorem Arrival.entry_time (crypto : CryptoGotham) (arrival : Arrival) :
    (arrival.entry crypto).2 = arrival.replayNow := by
  rw [entry]
  split <;> rfl

theorem Arrival.entry_key {crypto : CryptoGotham} {first second : Arrival}
    (same : first.packet = second.packet) :
    (first.entry crypto).1 = (second.entry crypto).1 := by
  rw [entry, entry, same]
  split <;> rfl

/-- The cache goes on refining the log of what it accepted, which an admitted
packet extends. -/
theorem Admission.refines {crypto : CryptoGotham}
    {cache after : ReplayCache} {arrival : Arrival}
    {outcome : ProcessOutcome} {log : Log Gamma}
    (admission : Admission crypto cache arrival outcome after)
    (refines : cache.Refines log arrival.replayNow) :
    after.ttl = cache.ttl ∧ after.maxSize = cache.maxSize ∧
      after.Refines
        (log ++ if outcome.admitted then [arrival.entry crypto] else [])
        arrival.replayNow ∧
      (outcome.admitted = true →
        ¬ Blocked cache.capacity cache.ttl log (arrival.entry crypto).1
          arrival.replayNow) := by
  cases admission with
  | unseen dropped =>
      rw [dropped, if_neg Bool.false_ne_true, List.append_nil]
      exact ⟨rfl, rfl, refines, nofun⟩
  | @checked header _ decoded verdict =>
      rw [Arrival.entry_of_decoded decoded]
      rcases refines.checkAndInsertAt (crypto.gamma header) with
        ⟨_, after, checked, ttl_eq, maxSize_eq, refined⟩ |
          ⟨free, after, checked, ttl_eq, maxSize_eq, refined⟩
      · have dropped : outcome.admitted = false := by
          rw [checked] at verdict
          simpa using verdict
        rw [checked, dropped, if_neg Bool.false_ne_true, List.append_nil]
        exact ⟨ttl_eq, maxSize_eq, refined, nofun⟩
      · have admitted : outcome.admitted = true :=
          verdict.mpr (by rw [checked])
        rw [checked, if_pos admitted]
        exact ⟨ttl_eq, maxSize_eq, refined, fun _ => free⟩

namespace Relay

private theorem route_admitted (crypto : CryptoGotham) (relay : Relay)
    (unwrapped : Unwrapped crypto.Header) (delay : Duration)
    (payloadRegion : List UInt8) :
    (relay.route crypto unwrapped delay payloadRegion).admitted = true := by
  rw [route]
  split
  · rfl
  · split <;> rfl

private theorem afterUnwrap_admission (crypto : CryptoGotham)
    (sampling : Sampling ρ) (relay : Relay) (rng : ρ) (arrival : Arrival)
    {header : crypto.Header} (subKeys : crypto.SubKeys)
    (unwrapped : Unwrapped crypto.Header)
    (decoded : crypto.decode
      (Bytes.ofSlice crypto.headerLen arrival.packet) = .ok header) :
    let after := relay.afterUnwrap crypto sampling rng arrival header subKeys
      unwrapped
    Admission crypto relay.replayCache arrival after.1
      after.2.1.replayCache := by
  cases verdict : (relay.replayCache.checkAndInsertAt (crypto.gamma header)
      arrival.replayNow).1 with
  | fresh =>
      simp only [afterUnwrap, verdict, reduceCtorEq, if_false]
      refine .checked decoded ?_
      rw [verdict, route_admitted]
      simp
  | replay =>
      simp only [afterUnwrap, verdict, if_true]
      refine .checked decoded ?_
      rw [verdict]
      decide

private theorem authenticate_admission (crypto : CryptoGotham)
    (sampling : Sampling ρ) (relay : Relay) (rng : ρ) (arrival : Arrival)
    {header : crypto.Header}
    (decoded : crypto.decode
      (Bytes.ofSlice crypto.headerLen arrival.packet) = .ok header) :
    let after := relay.authenticate crypto sampling rng arrival header
    Admission crypto relay.replayCache arrival after.1
      after.2.1.replayCache := by
  cases derived : crypto.deriveHopSubkeys
      (crypto.x25519 relay.identitySk (crypto.alpha header)) with
  | error error =>
      rw [authenticate_of_underivable derived]
      exact .unseen rfl
  | ok subKeys =>
      cases opened : crypto.unwrapHeader header subKeys with
      | error error =>
          rw [authenticate_of_rejected derived opened]
          cases error <;> exact .unseen rfl
      | ok unwrapped =>
          rw [authenticate_of_unwrapped derived opened]
          exact afterUnwrap_admission crypto sampling relay rng arrival
            subKeys unwrapped decoded

private theorem checkVersion_admission (crypto : CryptoGotham)
    (sampling : Sampling ρ) (relay : Relay) (rng : ρ) (arrival : Arrival)
    {header : crypto.Header}
    (decoded : crypto.decode
      (Bytes.ofSlice crypto.headerLen arrival.packet) = .ok header) :
    let after := relay.checkVersion crypto sampling rng arrival header
    Admission crypto relay.replayCache arrival after.1
      after.2.1.replayCache := by
  rw [checkVersion]
  split
  · split
    · exact .unseen rfl
    · exact authenticate_admission crypto sampling relay.countLegacy rng
        arrival decoded
  · exact authenticate_admission crypto sampling relay rng arrival decoded

/-- Whatever the limiter says, a packet reaches the cache at most once, under
the gamma of its own header. -/
theorem process_admission (crypto : CryptoGotham) (sampling : Sampling ρ)
    (relay : Relay) (rng : ρ) (arrival : Arrival) :
    let after := relay.process crypto sampling rng arrival
    Admission crypto relay.replayCache arrival after.1
      after.2.1.replayCache := by
  simp only [process]
  split
  · exact .unseen rfl
  · split
    · exact .unseen rfl
    · split
      · exact .unseen rfl
      · rename_i header decoded
        exact checkVersion_admission crypto sampling
          { relay with rateLimiter :=
              (relay.rateLimiter.checkAt arrival.packet.length
                arrival.limiterNow).2 } rng arrival decoded

end Relay

end GothamRelay
