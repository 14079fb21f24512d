import GothamRelay.Mixnet.Delivery

namespace GothamRelay

open Data

variable {ρ ε : Type}

namespace ClientCrypto

def resized (crypto : ClientCrypto ρ) (packetSize : Nat)
    (fits : crypto.headerLen ≤ packetSize) : ClientCrypto ρ :=
  { crypto with packetSize, headerLen_le := fits }

variable {crypto : ClientCrypto ρ} {packetSize : Nat}
  (fits : crypto.headerLen ≤ packetSize)

private theorem agreed_resized {recipients alphas : List Key}
    {subKeys : List crypto.SubKeys}
    (agreed : Agreed crypto.toCryptoGotham recipients alphas subKeys) :
    Agreed (crypto.resized packetSize fits).toCryptoGotham recipients alphas
      subKeys := by
  induction agreed with
  | nil => exact .nil
  | cons derives rest ih => exact .cons derives ih

private theorem onion_resized {header : crypto.Header} {alphas : List Key}
    {subKeys : List crypto.SubKeys} {records : List RoutingRecord}
    (onion : Onion crypto.toCryptoGotham header alphas subKeys records) :
    Onion (crypto.resized packetSize fits).toCryptoGotham header alphas
      subKeys records := by
  induction onion with
  | nil header => constructor
  | cons nextGamma unwraps rest ih => exact .cons nextGamma unwraps ih

private theorem Laws.resized (laws : crypto.Laws) :
    (crypto.resized packetSize fits).Laws where
  defaultRecord_eq := laws.defaultRecord_eq
  decode_encode := laws.decode_encode
  decrypt_encrypt := laws.decrypt_encrypt
  agreed derived := agreed_resized fits (laws.agreed derived)
  onion derived _ _ _ _ _ _ counted wrapped :=
    onion_resized fits (laws.onion derived counted wrapped)
  isLastHop_last := laws.isLastHop_last
  isLastHop_next := laws.isLastHop_next
  isViaRendezvous_via := laws.isViaRendezvous_via
  isViaRendezvous_zero := laws.isViaRendezvous_zero

end ClientCrypto

/-! ## Sealed messages -/

namespace GothamClient

def sendSealed (crypto : SealingCrypto ρ) (sampling : Sampling ρ)
    (client : GothamClient) (rng : ρ)
    (pick : ρ → Nat → Except Unit (SelectedPath × ρ)) (hopCount : Nat)
    (recipientPk senderPk : Key) (body : List UInt8) :
    Except ClientError Shipment :=
  match sealAndFrame crypto rng recipientPk senderPk body with
  | (.error error, _) => .error error
  | (.ok framed, rng) =>
      client.send crypto.toClientCrypto sampling rng pick hopCount framed

def sendSealedToExit (crypto : SealingCrypto ρ) (sampling : Sampling ρ)
    (client : GothamClient) (rng : ρ)
    (pickToExit : ρ → Nat → RelayDescriptor →
      Except Unit (SelectedPath × ρ)) (hopCount : Nat)
    (exit : RelayDescriptor) (senderPk : Key) (body : List UInt8) :
    Except ClientError Shipment :=
  match frameSealedForExit crypto rng exit senderPk body with
  | (.error error, _) => .error error
  | (.ok framed, rng) =>
      client.sendToExit crypto.toClientCrypto sampling rng pickToExit hopCount
        exit framed

private theorem exists_of_send {crypto : ClientCrypto ρ} {sampling : Sampling ρ}
    {client : GothamClient} {rng : ρ}
    {pick : ρ → Nat → Except Unit (SelectedPath × ρ)} {hopCount : Nat}
    {payload : List UInt8} {shipment : Shipment}
    (sent : client.send crypto sampling rng pick hopCount payload =
      .ok shipment) (now : Instant) :
    ∃ (sending : Sending crypto) (rng' : ρ), sending.now = now ∧
      sending.payload.val = payload ∧
      pick rng hopCount = .ok (sending.path, rng') ∧
      sending.client.shipPath crypto sampling sending.rng sending.path
        sending.payload = .ok shipment := by
  unfold send at sent
  split at sent
  · rename_i fits
    split at sent
    · obtain ⟨picked, chosen, shipped⟩ := exists_of_bind_ok sent
      exact ⟨⟨client, picked.2, picked.1, ⟨payload, fits⟩, now⟩, picked.2, rfl,
        rfl, ok_of_mapError_ok chosen, shipped⟩
    · cases sent
  · cases sent

private theorem exists_of_sendSealedToExit {crypto : SealingCrypto ρ}
    {sampling : Sampling ρ} {client : GothamClient} {rng : ρ}
    {pickToExit : ρ → Nat → RelayDescriptor →
      Except Unit (SelectedPath × ρ)} {hopCount : Nat}
    {exit : RelayDescriptor} {senderPk : Key} {body : List UInt8}
    {shipment : Shipment}
    (sent : client.sendSealedToExit crypto sampling rng pickToExit hopCount
      exit senderPk body = .ok shipment) :
    ∃ framed rng',
      (frameSealedForExit crypto rng exit senderPk body).1 = .ok framed ∧
        client.send crypto.toClientCrypto sampling rng'
            (fun rng hopCount => pickToExit rng hopCount exit) hopCount
            framed = .ok shipment := by
  unfold sendSealedToExit at sent
  split at sent
  · cases sent
  · rename_i framed rng' done
    exact ⟨framed, rng', congrArg Prod.fst done, sent⟩

private theorem exists_of_sendSealed {crypto : SealingCrypto ρ}
    {sampling : Sampling ρ} {client : GothamClient} {rng : ρ}
    {pick : ρ → Nat → Except Unit (SelectedPath × ρ)} {hopCount : Nat}
    {recipientPk senderPk : Key} {body : List UInt8} {shipment : Shipment}
    (sent : client.sendSealed crypto sampling rng pick hopCount recipientPk
      senderPk body = .ok shipment) :
    ∃ framed rng',
      (sealAndFrame crypto rng recipientPk senderPk body).1 = .ok framed ∧
        client.send crypto.toClientCrypto sampling rng' pick hopCount framed =
          .ok shipment := by
  unfold sendSealed at sent
  split at sent
  · cases sent
  · rename_i framed rng' done
    exact ⟨framed, rng', congrArg Prod.fst done, sent⟩

end GothamClient

namespace Mixnet

section Sealed

variable {crypto : SealingCrypto ρ} (laws : crypto.toClientCrypto.Laws)
  (small : crypto.maxPayloadSize < 2 ^ 32)
  {unsealEnvelope : Key → List UInt8 → Except ε (Key × List UInt8)}
  (opens : ∀ rng recipientSk senderPk body envelope,
    (crypto.sealBody rng (crypto.publicKey recipientSk) senderPk body).1 =
        .ok envelope →
      unsealEnvelope recipientSk envelope = .ok (senderPk, body))

include laws in
private theorem delivered_eq {sampling : Sampling ρ} {relays : List (Relay × ρ)}
    {actions : List (MixnetAction crypto.toClientCrypto)}
    {net : Mixnet crypto.toClientCrypto} {number : Nat}
    {sending : Sending crypto.toClientCrypto}
    (trace : Trace (step sampling) (fun _ _ => True) (start relays) actions
      net)
    (posted : net.sent[number]? = some sending) {done : Handled}
    (member : done ∈ net.handled) (named : done.message = some number)
    {delay : Duration} {payload : List UInt8}
    (delivered : done.outcome = .deliverLocal delay payload) :
    payload = sending.payload.padded ∧
      ∃ state, relays[done.relay]? = some state ∧
        sending.keys.getLast? =
          some (.ok (state.1.identityPublicKey crypto.toCryptoGotham)) := by
  obtain ⟨earlier, later, split⟩ := List.append_of_mem member
  obtain ⟨_, wrapped, state, found, wraps, started, _, treated⟩ :=
    (sound_of_trace laws trace).treated split number named
  cases posted.symm.trans found
  rw [delivered] at treated
  cases treated with
  | deliver last final delayed => exact ⟨rfl, state, started, last⟩

include laws small opens in
/-- Wherever a packet of `send_sealed` is delivered, the secret of the
recipient opens it. -/
theorem opened_by_recipient {sampling : Sampling ρ} {client : GothamClient}
    {rng : ρ} {pick : ρ → Nat → Except Unit (SelectedPath × ρ)}
    {hopCount : Nat} {recipientSk senderPk : Key} {body : List UInt8}
    {shipment : GothamClient.Shipment}
    (sent : client.sendSealed crypto sampling rng pick hopCount
      (crypto.publicKey recipientSk) senderPk body = .ok shipment)
    (now : Instant) :
    ∃ sending : Sending crypto.toClientCrypto, sending.now = now ∧
      sending.client.shipPath crypto.toClientCrypto sampling sending.rng
        sending.path sending.payload = .ok shipment ∧
      ∀ relays actions net number,
        Trace (step sampling) (fun _ _ => True) (start relays) actions net →
          net.sent[number]? = some sending → ∀ done ∈ net.handled,
            done.message = some number → ∀ delay payload,
              done.outcome = .deliverLocal delay payload →
                deliveryCalls (unsealEnvelope recipientSk) payload =
                  some [(senderPk, body)] := by
  obtain ⟨framed, afterSeal, framing, shipped⟩ :=
    GothamClient.exists_of_sendSealed sent
  obtain ⟨sending, afterPick, sentAt, carries, _, shipped⟩ :=
    GothamClient.exists_of_send shipped now
  refine ⟨sending, sentAt, shipped, ?_⟩
  intro relays actions net number trace posted done member named delay payload
    delivered
  rw [(delivered_eq laws trace posted member named delivered).1,
    CryptoGotham.Payload.padded, carries]
  exact GothamClient.deliveryCalls_sealAndFrame small opens framing _

end Sealed

/-- Whoever delivers the message has the key of the exit, and the handler of
the exit is called once, with the sender and the body. -/
def OpensAtExit (crypto : SealingCrypto ρ)
    (unsealEnvelope : Key → List UInt8 → Except ε (Key × List UInt8))
    (exitSk senderPk : Key) (body : List UInt8) (relays : List (Relay × ρ))
    (net : Mixnet crypto.toClientCrypto) (number : Nat) : Prop :=
  ∀ done ∈ net.handled, done.message = some number →
    ∀ delay payload, done.outcome = .deliverLocal delay payload →
      (∃ state, relays[done.relay]? = some state ∧
        state.1.identityPublicKey crypto.toCryptoGotham =
          crypto.publicKey exitSk) ∧
      deliveryCalls (unsealEnvelope exitSk) payload = some [(senderPk, body)]

/-- What `send_sealed_to_exit` ships is, in any network and amid any traffic,
opened at the exit and nowhere else. -/
theorem sealed_mail_opened_at_exit {crypto : SealingCrypto ρ}
    (laws : crypto.toClientCrypto.Laws)
    (small : crypto.maxPayloadSize < 2 ^ 32)
    {unsealEnvelope : Key → List UInt8 → Except ε (Key × List UInt8)}
    (opens : ∀ rng recipientSk senderPk body envelope,
      (crypto.sealBody rng (crypto.publicKey recipientSk) senderPk body).1 =
          .ok envelope →
        unsealEnvelope recipientSk envelope = .ok (senderPk, body))
    {sampling : Sampling ρ} {client : GothamClient} {rng : ρ}
    {pickToExit : ρ → Nat → RelayDescriptor →
      Except Unit (SelectedPath × ρ)} {hopCount : Nat}
    {exit : RelayDescriptor} {exitSk senderPk : Key} {body : List UInt8}
    (ends : ∀ rng path rng', pickToExit rng hopCount exit = .ok (path, rng') →
      path.hops.getLast? = some exit)
    (identified : exit.kemPubkeyBytes = .ok (crypto.publicKey exitSk))
    {shipment : GothamClient.Shipment}
    (sent : client.sendSealedToExit crypto sampling rng pickToExit hopCount
      exit senderPk body = .ok shipment) (now : Instant) :
    ∃ sending : Sending crypto.toClientCrypto, sending.now = now ∧
      sending.client.shipPath crypto.toClientCrypto sampling sending.rng
        sending.path sending.payload = .ok shipment ∧
      ∀ relays actions net number,
        Trace (step sampling) (fun _ _ => True) (start relays) actions net →
          net.sent[number]? = some sending →
            OpensAtExit crypto unsealEnvelope exitSk senderPk body relays net
              number := by
  obtain ⟨framed, afterSeal, framing, shipped⟩ :=
    GothamClient.exists_of_sendSealedToExit sent
  obtain ⟨sending, afterPick, sentAt, carries, picked, shipped⟩ :=
    GothamClient.exists_of_send shipped now
  refine ⟨sending, sentAt, shipped, ?_⟩
  intro relays actions net number trace posted done member named delay payload
    delivered
  obtain ⟨same, state, started, last⟩ :=
    delivered_eq laws trace posted member named delivered
  constructor
  · rw [Sending.keys, List.getLast?_map, ends _ _ _ picked, Option.map_some,
      identified] at last
    exact ⟨state, started, (Except.ok.inj (Option.some.inj last)).symm⟩
  · rw [GothamClient.frameSealedForExit, identified] at framing
    rw [same, CryptoGotham.Payload.padded, carries]
    exact GothamClient.deliveryCalls_sealAndFrame small opens framing _

def letterCrypto : SealingCrypto Unit where
  toClientCrypto := Station.sampleCrypto.resized 67 (by decide)
  randomSecret _ := (Bytes.replicate 32 0, ())
  sealBody _ _ sender body := (.ok (sender.val ++ body), ())

def letterExit : RelayDescriptor :=
  Station.samplePath.rest.getLastD Station.samplePath.entry

def sendLetter : Except ClientError GothamClient.Shipment :=
  GothamClient.sendSealedToExit letterCrypto .plain ⟨500000⟩ ()
    (fun _ _ _ => .ok (Station.samplePath, ())) 3 letterExit
    (Bytes.replicate 32 9) [8]

private theorem sendLetter_ok : ∃ shipment, sendLetter = .ok shipment := by
  have done : sendLetter.isOk = true := by decide +kernel
  cases sent : sendLetter with
  | error error =>
      rw [sent] at done
      cases done
  | ok shipment => exact ⟨shipment, rfl⟩

/-! Nothing but the shipping of a message looks at those shipped before. -/

private theorem step_of_sent {crypto : ClientCrypto ρ} (sampling : Sampling ρ)
    (net : Mixnet crypto) (sent : List (Sending crypto))
    {action : MixnetAction crypto} (other : action.shipped = none) :
    ({ net with sent } : Mixnet crypto).step sampling action =
      (net.step sampling action).map fun after => { after with sent } := by
  cases action with
  | ship sending => cases other
  | inject nodeId packet now => rfl
  | copy index => simp only [step, Option.map_map, Function.comp_def]
  | lose index =>
      simp only [step, Option.map_map]
      rfl
  | arrive index relay limiterNow replayNow now =>
      simp only [step]
      split
      · split
        · rfl
        · rfl
      · rfl

private theorem exec_of_sent {crypto : ClientCrypto ρ} (sampling : Sampling ρ)
    (sent : List (Sending crypto)) {actions : List (MixnetAction crypto)}
    (others : ∀ action ∈ actions, action.shipped = none)
    {net after : Mixnet crypto}
    (run : Trace.exec (step sampling) net actions = some after) :
    Trace.exec (step sampling) { net with sent } actions =
      some { after with sent } := by
  induction actions generalizing net with
  | nil =>
      cases run
      rfl
  | cons action actions ih =>
      rw [Trace.exec] at run ⊢
      rw [step_of_sent sampling net sent (others action List.mem_cons_self)]
      cases stepped : net.step sampling action with
      | none =>
          rw [stepped] at run
          cases run
      | some next =>
          rw [stepped] at run
          exact ih (fun action member =>
            others action (List.mem_cons_of_mem _ member)) run

def letterFlights : List Flight :=
  match sendLetter with
  | .ok shipment => [⟨some 0, 0, shipment.entryPk, 0, shipment.packet⟩]
  | .error _ => []

def letterArrivals : List (MixnetAction letterCrypto.toClientCrypto) :=
  [.arrive 0 0 10 10 10, .arrive 0 1 250000010 250000010 250000010,
    .arrive 0 2 500000010 500000010 500000010]

def letterNet : Mixnet letterCrypto.toClientCrypto :=
  (Trace.exec (step .plain)
    { start sampleRelays with flights := letterFlights }
    letterArrivals).getD { start sampleRelays with flights := letterFlights }

private theorem letterNet_trace {shipment : GothamClient.Shipment}
    (sent : sendLetter = .ok shipment)
    {sending : Sending letterCrypto.toClientCrypto} (sentAt : sending.now = 0)
    (shipped : sending.client.shipPath letterCrypto.toClientCrypto .plain
      sending.rng sending.path sending.payload = .ok shipment) :
    Trace (step .plain) (fun _ _ => True) (start sampleRelays)
      (.ship sending :: letterArrivals)
      { letterNet with sent := [sending] } := by
  apply Trace.of_exec (Trace.permitted_of_forall (fun _ _ => trivial) _ _)
  have posted : step .plain (start sampleRelays) (.ship sending) =
      some ⟨sampleRelays, letterFlights, [sending], [], []⟩ := by
    simp only [step, shipped, ship, letterFlights, sent, sentAt]
    rfl
  rw [Trace.exec, posted]
  have run : Trace.exec (step .plain) ⟨sampleRelays, letterFlights, [], [], []⟩
      letterArrivals = some letterNet := Trace.exec_getD (by decide +kernel)
  exact exec_of_sent .plain [sending] (by decide) run

def letterDelivered : ProcessOutcome :=
  .deliverLocal 250000000
    ([0, 0, 0, 33] ++ List.replicate 32 9 ++
      8 :: List.replicate (letterCrypto.maxPayloadSize - 37) 0)

theorem letter_opened_at_exit :
    letterCrypto.maxPayloadSize < 2 ^ 32 ∧
      ∃ sending : Sending letterCrypto.toClientCrypto, sending.now = 0 ∧
        (∀ relays actions net number,
          Trace (step .plain) (fun _ _ => True) (start relays) actions net →
            net.sent[number]? = some sending →
              OpensAtExit letterCrypto GothamClient.openCarried
                (Bytes.replicate 32 3) (Bytes.replicate 32 9) [8] relays net
                number) ∧
        ∃ actions net,
          Trace (step .plain) (fun _ _ => True) (start sampleRelays) actions
              net ∧
            net.sent = [sending] ∧
            ∃ done ∈ net.handled, done.message = some 0 ∧
              ∃ delay payload, done.outcome = .deliverLocal delay payload ∧
                deliveryCalls
                    (GothamClient.openCarried (Bytes.replicate 32 3))
                    payload = some [(Bytes.replicate 32 9, [8])] := by
  have small : letterCrypto.maxPayloadSize < 2 ^ 32 := by decide
  refine ⟨small, ?_⟩
  obtain ⟨shipment, sent⟩ := sendLetter_ok
  obtain ⟨sending, sentAt, shipped, opened⟩ := sealed_mail_opened_at_exit
    (Station.sampleCrypto_laws.resized _) small
    GothamClient.openCarried_carrying
    (by
      rintro rng path rng' ⟨⟩
      rfl) rfl sent 0
  refine ⟨sending, sentAt, opened, ?_⟩
  have trace := letterNet_trace sent sentAt shipped
  obtain ⟨done, member, named, delivered⟩ : ∃ done ∈ letterNet.handled,
      done.message = some 0 ∧ done.outcome = letterDelivered := by
    decide +kernel
  have calls := opened _ _ _ 0 trace rfl done member named _ _ delivered
  exact ⟨_, _, trace, rfl, done, member, named, _, _, delivered, calls.2⟩

end Mixnet

end GothamRelay
