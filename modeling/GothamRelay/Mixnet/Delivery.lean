import Mathlib.Data.List.Chain
import GothamRelay.Client.Framing
import GothamRelay.Mixnet.Carriage
import GothamRelay.Serve.Linear

namespace GothamRelay

open Data
open Data.SlidingWindow

variable {ρ : Type}

def MixnetAction.shipped {crypto : ClientCrypto ρ} :
    MixnetAction crypto → Option (Sending crypto)
  | .ship sending => some sending
  | .inject _ _ _ | .copy _ | .lose _ | .arrive _ _ _ _ _ => none

namespace Mixnet

variable {crypto : ClientCrypto ρ}

/-! ## No message vanishes -/

inductive Reached (net : Mixnet crypto) (number : Nat) : Nat → Prop where
  | entry (posted : number < net.sent.length) : Reached net number 0
  | onward {done : Handled} (member : done ∈ net.handled)
      (named : done.message = some number) (forwards : done.onward ≠ []) :
      Reached net number (done.hop + 1)

inductive Placed (net : Mixnet crypto) (number hop : Nat) : Prop where
  | inFlight {flight : Flight} (member : flight ∈ net.flights)
      (named : flight.message = some number) (there : flight.hop = hop)
  | lost (member : some number ∈ net.lost)
  | handled {done : Handled} (member : done ∈ net.handled)
      (named : done.message = some number) (there : done.hop = hop)

def Followed (net : Mixnet crypto) : Prop :=
  ∀ {number hop : Nat}, net.Reached number hop → net.Placed number hop

private theorem mem_or_eq_of_mem {flights : List Flight} {index : Nat}
    {removed flight : Flight} (found : flights[index]? = some removed)
    (member : flight ∈ flights) :
    flight = removed ∨ flight ∈ flights.eraseIdx index := by
  obtain ⟨inside, rfl⟩ := List.getElem?_eq_some_iff.mp found
  exact List.mem_cons.mp
    ((List.getElem_cons_eraseIdx_perm inside).mem_iff.mpr member)

theorem Placed.mono {net after : Mixnet crypto} {number hop : Nat}
    (placed : net.Placed number hop) (flights : net.flights ⊆ after.flights)
    (lost : after.lost = net.lost) (handled : after.handled = net.handled) :
    after.Placed number hop := by
  cases placed with
  | inFlight member named there =>
      exact .inFlight (flights member) named there
  | lost member => exact .lost (lost ▸ member)
  | handled member named there =>
      exact .handled (handled ▸ member) named there

theorem Placed.lose {net : Mixnet crypto} {number hop index : Nat}
    {flight : Flight} (placed : net.Placed number hop)
    (found : net.flights[index]? = some flight) :
    (net.lose index flight).Placed number hop := by
  cases placed with
  | @inFlight other member named there =>
      cases mem_or_eq_of_mem found member with
      | inl same =>
          subst same
          exact .lost (List.mem_append_right _ (named ▸ List.mem_cons_self))
      | inr kept => exact .inFlight kept named there
  | lost member => exact .lost (List.mem_append_left _ member)
  | handled member named there => exact .handled member named there

theorem Placed.arrive {sampling : Sampling ρ} {net : Mixnet crypto}
    {number hop index relay : Nat} {flight : Flight} (state : Relay × ρ)
    (limiterNow replayNow now : Instant) (placed : net.Placed number hop)
    (found : net.flights[index]? = some flight) :
    (net.arrive sampling index flight relay state limiterNow replayNow
      now).Placed number hop := by
  cases placed with
  | @inFlight other member named there =>
      cases mem_or_eq_of_mem found member with
      | inl same =>
          subst same
          exact .handled (List.mem_append_right _ List.mem_cons_self) named
            there
      | inr kept => exact .inFlight (List.mem_append_left _ kept) named there
  | lost member => exact .lost member
  | handled member named there =>
      exact .handled (List.mem_append_left _ member) named there

private theorem Reached.of_handled {net after : Mixnet crypto}
    {number hop : Nat} (reached : after.Reached number hop)
    (sent : after.sent.length = net.sent.length)
    (handled : after.handled = net.handled) : net.Reached number hop := by
  cases reached with
  | entry posted => exact .entry (sent ▸ posted)
  | onward member named forwards =>
      exact .onward (handled ▸ member) named forwards

theorem Followed.ship {net : Mixnet crypto} (followed : net.Followed)
    (sending : Sending crypto) (shipment : GothamClient.Shipment) :
    (net.ship sending shipment).Followed := by
  intro number hop reached
  have flights : net.flights ⊆ (net.ship sending shipment).flights :=
    List.subset_append_left _ _
  cases reached with
  | entry posted =>
      have length_eq : (net.ship sending shipment).sent.length =
          net.sent.length + 1 := List.length_append
      rw [length_eq] at posted
      cases Nat.lt_succ_iff_lt_or_eq.mp posted with
      | inl old => exact (followed (.entry old)).mono flights rfl rfl
      | inr new =>
          subst number
          exact .inFlight (List.mem_append_right _ List.mem_cons_self) rfl rfl
  | onward member named forwards =>
      exact (followed (.onward member named forwards)).mono flights rfl rfl

theorem Followed.arrive {sampling : Sampling ρ} {net : Mixnet crypto}
    {index relay : Nat} {flight : Flight} (followed : net.Followed)
    (state : Relay × ρ) (limiterNow replayNow now : Instant)
    (found : net.flights[index]? = some flight) :
    (net.arrive sampling index flight relay state limiterNow replayNow
      now).Followed := by
  intro number hop reached
  cases reached with
  | entry posted => exact (followed (.entry posted)).arrive _ _ _ _ found
  | @onward done member named forwards =>
      cases List.mem_append.mp member with
      | inl old =>
          exact (followed (.onward old named forwards)).arrive _ _ _ _ found
      | inr new =>
          -- The packet that leaves is the one for the next hop.
          cases List.mem_singleton.mp new
          obtain ⟨next, leaves⟩ := List.exists_mem_of_ne_nil _ forwards
          obtain ⟨message, there⟩ := Handled.of_mem_onward leaves
          exact .inFlight (List.mem_append_right _ leaves)
            (message.trans named) there

theorem Followed.of_step {sampling : Sampling ρ} {net after : Mixnet crypto}
    {action : MixnetAction crypto} (followed : net.Followed)
    (taken : net.step sampling action = some after) : after.Followed := by
  cases stepped_of_step taken with
  | ship shipped => exact followed.ship _ _
  | inject nodeId packet now =>
      intro number hop reached
      exact (followed (reached.of_handled rfl rfl)).mono
        (List.subset_append_left _ _) rfl rfl
  | copy found =>
      intro number hop reached
      exact (followed (reached.of_handled rfl rfl)).mono
        (List.subset_append_left _ _) rfl rfl
  | lose found =>
      intro number hop reached
      exact (followed (reached.of_handled rfl rfl)).lose found
  | arrive found running identity waited =>
      exact followed.arrive _ _ _ _ found

private theorem followed_of_trace {sampling : Sampling ρ}
    {relays : List (Relay × ρ)} {net : Mixnet crypto}
    {actions : List (MixnetAction crypto)}
    {allowed : Mixnet crypto → MixnetAction crypto → Prop}
    (trace : Trace (step sampling) allowed (start relays) actions net) :
    net.Followed := by
  apply trace.invariant fun _ net => Followed net
  · intro number hop reached
    cases reached with
    | entry posted => exact absurd posted (Nat.not_lt_zero number)
    | onward member named forwards => cases member
  · intro _ before after action followed _ taken
    exact followed.of_step taken

private theorem sent_of_trace {sampling : Sampling ρ}
    {relays : List (Relay × ρ)}
    {net : Mixnet crypto} {actions : List (MixnetAction crypto)}
    {allowed : Mixnet crypto → MixnetAction crypto → Prop}
    (trace : Trace (step sampling) allowed (start relays) actions net) :
    net.sent = actions.filterMap MixnetAction.shipped := by
  apply trace.invariant fun actions net =>
    net.sent = actions.filterMap MixnetAction.shipped
  · rfl
  · intro done before after action sent _ taken
    rw [List.filterMap_append, ← sent]
    cases stepped_of_step taken with
    | ship shipped => rfl
    | inject nodeId packet now => exact (List.append_nil _).symm
    | copy found => exact (List.append_nil _).symm
    | lose found => exact (List.append_nil _).symm
    | arrive found running identity waited =>
        exact (List.append_nil _).symm

/-! ## A message arrives unless something stops it -/

def DeliveredAtExit (relays : List (Relay × ρ)) (sending : Sending crypto)
    (done : Handled) : Prop :=
  ∃ state delay, relays[done.relay]? = some state ∧
    sending.keys.getLast? =
      some (.ok (state.1.identityPublicKey crypto.toCryptoGotham)) ∧
    done.outcome = .deliverLocal delay sending.payload.padded

/-- The relay refused the packet because it had the tag of its header in its
cache at the start, or admitted it in one of the `earlier` calls, which was not
for this packet of the message. -/
def AlreadySeen (relays : List (Relay × ρ)) (crypto : ClientCrypto ρ)
    (earlier : List Handled) (done : Handled) : Prop :=
  done.outcome = .drop .replay ∧
    Remembered relays
      (earlier.filter fun other =>
        (other.message, other.hop) ≠ (done.message, done.hop))
      crypto done.relay (done.arrival.entry crypto.toCryptoGotham).1

private theorem exists_first {handled : List Handled} {done : Handled}
    (member : done ∈ handled) :
    ∃ earlier first later, handled = earlier ++ first :: later ∧
      first.message = done.message ∧ first.hop = done.hop ∧
      ∀ other ∈ earlier,
        (other.message, other.hop) ≠ (first.message, first.hop) := by
  have some : (handled.find? fun other =>
      (other.message, other.hop) = (done.message, done.hop)).isSome := by
    rw [List.find?_isSome]
    exact ⟨done, member, by simp⟩
  obtain ⟨first, found⟩ := Option.isSome_iff_exists.mp some
  obtain ⟨same, earlier, later, split, unlike⟩ :=
    List.find?_eq_some_iff_append.mp found
  have same := of_decide_eq_true same
  refine ⟨earlier, first, later, split, congrArg Prod.fst same,
    congrArg Prod.snd same, ?_⟩
  intro other before
  rw [same]
  exact of_decide_eq_false (Bool.not_eq_true' _ ▸ unlike other before)

private theorem delivered_of_reached {sampling : Sampling ρ}
    {relays : List (Relay × ρ)} {net : Mixnet crypto}
    (sound : net.Sound sampling relays) (followed : net.Followed)
    (unlimited : ∀ state ∈ relays, state.1.rateLimiter.isUnlimited = true)
    (lenient : ∀ state ∈ relays, state.1.acceptHeaderV2 = true)
    {number : Nat} {sending : Sending crypto}
    (posted : net.sent[number]? = some sending)
    (distinct : sending.keys.IsChain (· ≠ ·))
    (landed : ∀ flight ∈ net.flights, flight.message ≠ some number)
    (kept : some number ∉ net.lost) {hop : Nat}
    (reached : net.Reached number hop) :
    ∃ earlier done later, net.handled = earlier ++ done :: later ∧
      done.message = some number ∧
      (DeliveredAtExit relays sending done ∨
        AlreadySeen relays crypto earlier done) := by
  -- From a hop that a message reached, the calls lead on to the exit: the
  -- first call for that hop delivers the payload, refuses it or reaches the
  -- next one.
  obtain ⟨call, member, named, rfl⟩ : ∃ call ∈ net.handled,
      call.message = some number ∧ call.hop = hop := by
    cases followed reached with
    | inFlight member named there => exact absurd named (landed _ member)
    | lost member => exact absurd member kept
    | handled member named there => exact ⟨_, member, named, there⟩
  obtain ⟨earlier, done, later, split, message, same, unlike⟩ :=
    exists_first member
  have named := message.trans named
  obtain ⟨_, wrapped, state, found, wraps, started, atHop, treated⟩ :=
    sound.treated split number named
  cases posted.symm.trans found
  have running := List.mem_of_getElem? started
  have inside : done.hop < sending.keys.length :=
    (List.getElem?_eq_some_iff.mp atHop.key).1
  generalize result : done.outcome = outcome at treated
  cases treated with
  | rateLimited limited =>
      rw [unlimited state running] at limited
      cases limited
  | strict strict decoded legacy =>
      rw [lenient state running] at strict
      cases strict
  | replay seen =>
      refine ⟨earlier, done, later, split, named, .inr ⟨result, ?_⟩⟩
      cases seen with
      | inl initially => exact .inl ⟨state, started, initially⟩
      | inr since =>
          obtain ⟨other, before, rest⟩ := since
          exact .inr ⟨other, List.mem_filter.mpr
            ⟨before, decide_eq_true (unlike other before)⟩, rest⟩
  | policyDenied twice =>
      obtain ⟨within, next⟩ := List.getElem?_eq_some_iff.mp twice
      obtain ⟨_, here⟩ := List.getElem?_eq_some_iff.mp atHop.key
      exact absurd (here.trans next.symm)
        (List.isChain_iff_getElem.mp distinct done.hop within)
  | forward next =>
      have forwards : done.onward ≠ [] := by
        rw [Handled.onward, result]
        exact List.cons_ne_nil _ _
      have handled : done ∈ net.handled := by
        rw [split]
        exact List.mem_append_right _ List.mem_cons_self
      exact delivered_of_reached sound followed unlimited lenient posted
        distinct landed kept (.onward handled named forwards)
  | deliver exit final delayed =>
      exact ⟨earlier, done, later, split, named,
        .inl ⟨state, _, started, exit, result⟩⟩
termination_by sending.keys.length - hop
decreasing_by omega

/-- If nothing of a message is in flight or lost, no relay limits its packets
or refuses old headers and no two hops in a row are the same, then the exit
has delivered it or a relay took it for a repetition of something else. -/
theorem quiet_messages_delivered (laws : crypto.Laws)
    {sampling : Sampling ρ} {relays : List (Relay × ρ)}
    {net : Mixnet crypto} {actions : List (MixnetAction crypto)}
    (trace : Trace (step sampling) (fun _ _ => True) (start relays) actions
      net)
    (unlimited : ∀ state ∈ relays, state.1.rateLimiter.isUnlimited = true)
    (lenient : ∀ state ∈ relays, state.1.acceptHeaderV2 = true)
    {number : Nat} {sending : Sending crypto}
    (posted : net.sent[number]? = some sending)
    (distinct : sending.keys.IsChain (· ≠ ·))
    (landed : ∀ flight ∈ net.flights, flight.message ≠ some number)
    (kept : some number ∉ net.lost) :
    ∃ earlier done later, net.handled = earlier ++ done :: later ∧
      done.message = some number ∧
      (DeliveredAtExit relays sending done ∨
        AlreadySeen relays crypto earlier done) :=
  delivered_of_reached (sound_of_trace laws trace) (followed_of_trace trace)
    unlimited lenient posted distinct landed kept
    (.entry (List.getElem?_eq_some_iff.mp posted).1)

theorem sample_quiet_messages_delivered :
    sampleNet.flights.length = 0 ∧
      ∃ earlier done later, sampleNet.handled = earlier ++ done :: later ∧
        done.message = some 0 ∧
        (DeliveredAtExit sampleRelays sampleSending done ∨
          AlreadySeen sampleRelays Station.sampleCrypto earlier done) := by
  have landed : sampleNet.flights.length = 0 := by decide +kernel
  have posted : sampleNet.sent[0]? = some sampleSending := by
    rw [sent_of_trace sampleNet_trace]
    rfl
  refine ⟨landed, quiet_messages_delivered Station.sampleCrypto_laws
    sampleNet_trace (by decide) (by decide) posted (by decide) ?_
    (by decide +kernel)⟩
  intro flight member
  rw [List.length_eq_zero_iff.mp landed] at member
  cases member

/-! ## How often a message is delivered -/

def handledAt (net : Mixnet crypto) (index : Nat) : List Handled :=
  net.handled.filter fun done => done.relay = index

def acceptedAt (net : Mixnet crypto) (index : Nat) : List Handled :=
  (net.handledAt index).filter fun done => done.outcome.admitted

/-- Every relay is where the packets given to it lead, whatever happens in the
rest of the network. -/
structure Linear (sampling : Sampling ρ) (relays : List (Relay × ρ))
    (net : Mixnet crypto) : Prop where
  state : ∀ {index : Nat} {initial : Relay × ρ},
    relays[index]? = some initial → net.relays[index]? =
      some (settled
        (fun state => Relay.process crypto.toCryptoGotham sampling state.1
          state.2) initial ((net.handledAt index).map Handled.arrival))
  outcomes : ∀ {index : Nat} {initial : Relay × ρ},
    relays[index]? = some initial →
      (net.handledAt index).map Handled.outcome =
        initial.1.outcomes crypto.toCryptoGotham sampling initial.2
          ((net.handledAt index).map Handled.arrival)

private theorem handledAt_concat {net after : Mixnet crypto} {done : Handled}
    (handled : after.handled = net.handled ++ [done]) (index : Nat) :
    after.handledAt index =
      net.handledAt index ++ if done.relay = index then [done] else [] := by
  rw [handledAt, handled, List.filter_append, List.filter_singleton]
  by_cases here : done.relay = index <;> simp [handledAt, here]

theorem Linear.arrive {sampling : Sampling ρ} {relays : List (Relay × ρ)}
    {net : Mixnet crypto} (linear : net.Linear sampling relays)
    (index : Nat) (flight : Flight) {relay : Nat} {state : Relay × ρ}
    (limiterNow replayNow now : Instant)
    (running : net.relays[relay]? = some state) :
    (net.arrive sampling index flight relay state limiterNow replayNow
      now).Linear sampling relays := by
  have current {initial : Relay × ρ}
      (started : relays[relay]? = some initial) :=
    Option.some.inj (running.symm.trans (linear.state started))
  constructor
  · intro other initial started
    rw [handledAt_concat rfl]
    by_cases here : relay = other
    · subst other
      obtain ⟨inside, _⟩ := List.getElem?_eq_some_iff.mp running
      rw [if_pos rfl, List.map_append, List.map_singleton, settled_concat,
        ← current started]
      exact List.getElem?_set_self inside
    · rw [if_neg here, List.append_nil, ← linear.state started]
      exact List.getElem?_set_ne here
  · intro other initial started
    rw [handledAt_concat rfl]
    by_cases here : relay = other
    · subst other
      rw [if_pos rfl, List.map_append, List.map_append, List.map_singleton,
        List.map_singleton, Relay.outcomes, outputs_concat,
        ← current started, linear.outcomes started]
      rfl
    · rw [if_neg here, List.append_nil]
      exact linear.outcomes started

theorem linear_of_trace {sampling : Sampling ρ} {relays : List (Relay × ρ)}
    {net : Mixnet crypto} {actions : List (MixnetAction crypto)}
    {allowed : Mixnet crypto → MixnetAction crypto → Prop}
    (trace : Trace (step sampling) allowed (start relays) actions net) :
    net.Linear sampling relays := by
  apply trace.invariant fun _ net => Linear sampling relays net
  · exact ⟨fun started => started, fun _ => rfl⟩
  · intro _ before after action linear _ taken
    cases stepped_of_step taken with
    | ship shipped => exact { linear with }
    | inject nodeId packet now => exact { linear with }
    | copy found => exact { linear with }
    | lose found => exact { linear with }
    | arrive found running identity waited =>
        exact linear.arrive _ _ _ _ _ running

private theorem packet_of_delivered {sampling : Sampling ρ}
    {relays : List (Relay × ρ)} {net : Mixnet crypto}
    (sound : net.Sound sampling relays) {first second : Handled}
    {number : Nat} (hadFirst : first ∈ net.handled)
    (hadSecond : second ∈ net.handled) (named : first.message = some number)
    (again : second.message = some number) {delay delay' : Duration}
    {payload payload' : List UInt8}
    (delivered : first.outcome = .deliverLocal delay payload)
    (redelivered : second.outcome = .deliverLocal delay' payload') :
    first.arrival.packet = second.arrival.packet := by
  have last : ∀ done ∈ net.handled, done.message = some number →
      (∃ delay payload, done.outcome = .deliverLocal delay payload) →
        ∃ sending wrapped, net.sent[number]? = some sending ∧
          sending.wrap sampling = .ok wrapped ∧
          (sending.packets wrapped).getLast? = some done.arrival.packet := by
    intro done member named ends
    obtain ⟨earlier, later, split⟩ := List.append_of_mem member
    obtain ⟨sending, wrapped, state, found, wraps, _, _, treated⟩ :=
      sound.treated split number named
    obtain ⟨delay, payload, outcome⟩ := ends
    rw [outcome] at treated
    cases treated with
    | deliver exit final delayed =>
        exact ⟨sending, wrapped, found, wraps, final⟩
  obtain ⟨sending, wrapped, found, wraps, final⟩ :=
    last first hadFirst named ⟨delay, payload, delivered⟩
  obtain ⟨_, _, found', wraps', final'⟩ :=
    last second hadSecond again ⟨delay', payload', redelivered⟩
  cases found.symm.trans found'
  cases wraps.symm.trans wraps'
  exact Option.some.inj (final.symm.trans final')

/-- However often the network repeats packets on any leg, a relay delivers one
message twice only more than `ttl` apart, or after as many other acceptances as
its cache can hold. -/
theorem repeated_deliveries_apart (laws : crypto.Laws)
    {sampling : Sampling ρ} {relays : List (Relay × ρ)}
    {net : Mixnet crypto} {actions : List (MixnetAction crypto)}
    (trace : Trace (step sampling) (fun _ _ => True) (start relays) actions
      net)
    {index : Nat} {initial : Relay × ρ}
    (started : relays[index]? = some initial)
    {clock : Instant} {prior : Log Gamma}
    (refines : initial.1.replayCache.Refines prior clock)
    (ordered : (clock :: (net.handledAt index).map
      fun done => done.arrival.replayNow).Pairwise (· ≤ ·))
    {first second : Nat} {earlier later : Handled} (before : first < second)
    (hadFirst : (net.acceptedAt index)[first]? = some earlier)
    (hadSecond : (net.acceptedAt index)[second]? = some later)
    {number : Nat} (named : earlier.message = some number)
    (again : later.message = some number) {delay delay' : Duration}
    {payload payload' : List UInt8}
    (delivered : earlier.outcome = .deliverLocal delay payload)
    (redelivered : later.outcome = .deliverLocal delay' payload') :
    initial.1.replayCache.ttl <
        later.arrival.replayNow - earlier.arrival.replayNow ∨
      initial.1.replayCache.capacity ≤ second - first - 1 := by
  have handled : ∀ {position : Nat} {done : Handled},
      (net.acceptedAt index)[position]? = some done → done ∈ net.handled :=
    fun found => List.mem_of_mem_filter
      (List.mem_of_mem_filter (List.mem_of_getElem? found))
  have same := packet_of_delivered (sound_of_trace laws trace)
    (handled hadFirst) (handled hadSecond) named again delivered redelivered
  exact Relay.accepted_apart crypto.toCryptoGotham sampling initial.2 refines
    ((linear_of_trace trace).outcomes started) ordered before hadFirst
    hadSecond same

def repeatedActions : List (MixnetAction Station.sampleCrypto) :=
  [.ship sampleSending, .arrive 0 0 10 10 10,
    .arrive 0 1 250000010 250000010 250000010, .copy 0,
    .arrive 0 2 500000010 500000010 500000010,
    .arrive 0 2 500002000 500002000 500002000]

def repeatedNet : Mixnet Station.sampleCrypto :=
  (Trace.exec (step .plain) (start sampleRelays) repeatedActions).getD
    (start sampleRelays)

theorem two_deliveries_apart :
    repeatedNet.lost.length = 0 ∧
      ∃ earlier later, repeatedNet.acceptedAt 2 = [earlier, later] ∧
        (1000 < later.arrival.replayNow - earlier.arrival.replayNow ∨
          4 ≤ 1 - 0 - 1) := by
  refine ⟨by decide +kernel, ?_⟩
  have trace : Trace (step .plain) (fun _ _ => True) (start sampleRelays)
      repeatedActions repeatedNet := Trace.of_possible (by decide +kernel)
  have named : (repeatedNet.acceptedAt 2).map Handled.message =
      [some 0, some 0] := by decide +kernel
  have delivered : (repeatedNet.acceptedAt 2).map Handled.outcome =
      [.deliverLocal 250000000 [7, 0], .deliverLocal 250000000 [7, 0]] := by
    decide +kernel
  have ordered : (0 :: (repeatedNet.handledAt 2).map
      fun done => done.arrival.replayNow).Pairwise (· ≤ ·) := by
    decide +kernel
  have started : sampleRelays[2]? =
      some (Relay.new (Bytes.replicate 32 3) 4 1000 0 0, ()) := rfl
  obtain ⟨earlier, later, both⟩ : ∃ earlier later,
      repeatedNet.acceptedAt 2 = [earlier, later] :=
    List.length_eq_two.mp (by decide +kernel)
  rw [both] at named delivered
  simp only [List.map_cons, List.map_nil, List.cons.injEq, and_true]
    at named delivered
  refine ⟨earlier, later, both, ?_⟩
  exact repeated_deliveries_apart Station.sampleCrypto_laws trace started
    (ReplayCache.refines_new 4 1000 0) ordered Nat.zero_lt_one
    (by rw [both]; rfl) (by rw [both]; rfl) named.1 named.2 delivered.1
    delivered.2

end Mixnet

end GothamRelay
