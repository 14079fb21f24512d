import GothamRelay.Client.Seal
import GothamRelay.Transport.Delivery

namespace GothamRelay

open Data

/-! The delivery handler with the slices and the 64-bit sum it computes, and
the two framings it undoes. -/

section Handler

/-- `bytes[start..stop]`, which panics outside the bytes. -/
def slice (bytes : List UInt8) (start stop : Nat) : Option (List UInt8) :=
  if start ≤ stop ∧ stop ≤ bytes.length then
    some ((bytes.drop start).take (stop - start))
  else
    none

variable {ε κ β : Type}
  (unsealEnvelope : List UInt8 → Except ε (κ × List UInt8))

/-- The calls of `inner` that the handler makes for one payload, or `none`
where it panics. -/
def deliveryCalls (payload : List UInt8) : Option (List (κ × List UInt8)) :=
  if payload.length < 4 then
    some []
  else
    match slice payload 0 4 with
    | none => none
    | some lenBytes =>
        let envLen := ofBeBytes lenBytes
        if (4 + envLen) % 2 ^ 64 > payload.length then
          some []
        else
          match slice payload 4 ((4 + envLen) % 2 ^ 64) with
          | none => none
          | some envelope =>
              match unsealEnvelope envelope with
              | .ok (sender, body) => some [(sender, body)]
              | .error _ => some []

private theorem announced_sum_exact (payload : List UInt8) :
    (4 + ofBeBytes (payload.take 4)) % 2 ^ 64 =
      4 + ofBeBytes (payload.take 4) := by
  have bound := ofBeBytes_lt (payload.take 4)
  have short : (payload.take 4).length ≤ 4 := List.length_take_le 4 payload
  have most : 256 ^ (payload.take 4).length ≤ 256 ^ 4 :=
    Nat.pow_le_pow_right (by decide) short
  apply Nat.mod_eq_of_lt
  omega

private theorem framedEnvelope_eq_some_iff {payload envelope : List UInt8} :
    framedEnvelope payload = some envelope ↔
      4 + ofBeBytes (payload.take 4) ≤ payload.length ∧
        (payload.drop 4).take (ofBeBytes (payload.take 4)) = envelope := by
  simp only [framedEnvelope]
  by_cases short : payload.length < 4
  · rw [if_pos short]
    constructor
    · intro impossible
      cases impossible
    · rintro ⟨inside, _⟩
      omega
  · rw [if_neg short]
    by_cases beyond : 4 + ofBeBytes (payload.take 4) > payload.length
    · rw [if_pos beyond]
      constructor
      · intro impossible
        cases impossible
      · rintro ⟨inside, _⟩
        omega
    · rw [if_neg beyond, Option.some.injEq]
      exact ⟨fun same => ⟨Nat.not_lt.mp beyond, same⟩, And.right⟩

private theorem deliveryCalls_eq (payload : List UInt8) :
    deliveryCalls unsealEnvelope payload =
      some ((framedEnvelope payload).elim [] fun envelope =>
        (unsealEnvelope envelope).toOption.toList) := by
  simp only [deliveryCalls, framedEnvelope]
  by_cases short : payload.length < 4
  · rw [if_pos short, if_pos short]
    rfl
  · have first : slice payload 0 4 = some (payload.take 4) := by
      rw [slice, if_pos ⟨Nat.zero_le 4, Nat.not_lt.mp short⟩]
      rfl
    rw [if_neg short, if_neg short, first]
    simp only [announced_sum_exact]
    by_cases beyond : 4 + ofBeBytes (payload.take 4) > payload.length
    · rw [if_pos beyond, if_pos beyond]
      rfl
    · have second :
          slice payload 4 (4 + ofBeBytes (payload.take 4)) =
            some ((payload.drop 4).take (ofBeBytes (payload.take 4))) := by
        rw [slice, if_pos ⟨Nat.le_add_right 4 _, Nat.not_lt.mp beyond⟩,
          Nat.add_sub_cancel_left]
      rw [if_neg beyond, if_neg beyond, second]
      simp only [Option.elim_some]
      cases unsealEnvelope
          ((payload.drop 4).take (ofBeBytes (payload.take 4))) with
      | error _ => rfl
      | ok opened => rfl

theorem unsealingDelivery_eq (inner : κ → List UInt8 → Option β)
    (payload : List UInt8) :
    unsealingDelivery unsealEnvelope inner payload =
      ((deliveryCalls unsealEnvelope payload).bind List.head?).bind
        fun call => inner call.1 call.2 := by
  rw [deliveryCalls_eq, unsealingDelivery]
  cases framedEnvelope payload with
  | none => rfl
  | some envelope =>
      simp only [Option.elim_some, Option.bind_some]
      cases unsealEnvelope envelope with
      | error _ => rfl
      | ok opened => rfl

private theorem mem_calls {payload : List UInt8} {call : κ × List UInt8}
    (made : call ∈ (framedEnvelope payload).elim [] fun envelope =>
      (unsealEnvelope envelope).toOption.toList) :
    4 + ofBeBytes (payload.take 4) ≤ payload.length ∧
      unsealEnvelope
        ((payload.drop 4).take (ofBeBytes (payload.take 4))) = .ok call := by
  cases framed : framedEnvelope payload with
  | none =>
      rw [framed] at made
      exact absurd made List.not_mem_nil
  | some envelope =>
      obtain ⟨inside, same⟩ := framedEnvelope_eq_some_iff.mp framed
      rw [framed, Option.elim_some] at made
      refine ⟨inside, ?_⟩
      rw [same]
      cases opening : unsealEnvelope envelope with
      | error _ =>
          rw [opening] at made
          exact absurd made List.not_mem_nil
      | ok opened =>
          rw [opening] at made
          rw [List.mem_singleton.mp made]

private theorem framedEnvelope_framed {envelope : List UInt8}
    (fits : envelope.length < 2 ^ 32) (padding : List UInt8) :
    framedEnvelope (beBytes 4 envelope.length ++ envelope ++ padding) =
      some envelope := by
  have announced :
      ofBeBytes
          ((beBytes 4 envelope.length ++ envelope ++ padding).take 4) =
        envelope.length := by
    rw [List.append_assoc, List.take_left' (length_beBytes 4 _)]
    exact ofBeBytes_beBytes fits
  rw [framedEnvelope_eq_some_iff, announced]
  constructor
  · simp only [List.length_append, length_beBytes]
    omega
  · rw [List.append_assoc, List.drop_left' (length_beBytes 4 _),
      List.take_left' rfl]

end Handler

namespace GothamClient

variable {ρ ε : Type}

private theorem sealAndFrame_eq_ok {crypto : SealingCrypto ρ} {rng : ρ}
    {recipientPk senderPk : Key} {body framed : List UInt8}
    (done : (sealAndFrame crypto rng recipientPk senderPk body).1 =
      .ok framed) :
    ∃ envelope,
      (crypto.sealBody rng recipientPk senderPk body).1 = .ok envelope ∧
        beBytes 4 envelope.length ++ envelope = framed := by
  simp only [sealAndFrame] at done
  split at done
  · cases done
  · rename_i envelope after sealed
    split at done
    · cases done
    · cases done
      exact ⟨envelope, congrArg Prod.fst sealed, rfl⟩

private theorem sealAndFrame_of_fits {crypto : SealingCrypto ρ} {rng : ρ}
    {recipientPk senderPk : Key} {body envelope : List UInt8}
    (sealed : (crypto.sealBody rng recipientPk senderPk body).1 =
      .ok envelope)
    (fits : 4 + envelope.length ≤ crypto.maxPayloadSize) :
    (sealAndFrame crypto rng recipientPk senderPk body).1 =
      .ok (beBytes 4 envelope.length ++ envelope) := by
  have width : (beBytes 4 envelope.length ++ envelope).length =
      4 + envelope.length := by
    rw [List.length_append, length_beBytes]
  cases result : crypto.sealBody rng recipientPk senderPk body with
  | mk first after =>
      rw [result] at sealed
      cases sealed
      simp only [sealAndFrame, result, width]
      rw [if_neg (Nat.not_lt.mpr fits)]

private theorem sealAndFrame_payloadTooLarge_iff {crypto : SealingCrypto ρ}
    {rng : ρ} {recipientPk senderPk : Key} {body : List UInt8} :
    (sealAndFrame crypto rng recipientPk senderPk body).1 =
        .error .payloadTooLarge ↔
      ∃ envelope,
        (crypto.sealBody rng recipientPk senderPk body).1 = .ok envelope ∧
          4 + envelope.length > crypto.maxPayloadSize := by
  simp only [sealAndFrame]
  rcases crypto.sealBody rng recipientPk senderPk body with
    ⟨_ | envelope, after⟩
  · constructor
    · intro refused
      cases refused
    · rintro ⟨envelope, sealed, _⟩
      cases sealed
  · have width : (beBytes 4 envelope.length ++ envelope).length =
        4 + envelope.length := by
      rw [List.length_append, length_beBytes]
    simp only [width]
    by_cases large : 4 + envelope.length > crypto.maxPayloadSize
    · rw [if_pos large]
      exact ⟨fun _ => ⟨envelope, rfl, large⟩, fun _ => rfl⟩
    · rw [if_neg large]
      constructor
      · intro refused
        cases refused
      · rintro ⟨other, sealed, larger⟩
        cases sealed
        exact absurd larger large

theorem deliveryCalls_sealAndFrame {crypto : SealingCrypto ρ}
    (small : crypto.maxPayloadSize < 2 ^ 32)
    {unsealEnvelope : Key → List UInt8 → Except ε (Key × List UInt8)}
    (opens : ∀ rng recipientSk senderPk body envelope,
      (crypto.sealBody rng (crypto.publicKey recipientSk) senderPk body).1 =
          .ok envelope →
        unsealEnvelope recipientSk envelope = .ok (senderPk, body))
    {rng : ρ} {recipientSk senderPk : Key} {body framed : List UInt8}
    (done : (sealAndFrame crypto rng (crypto.publicKey recipientSk) senderPk
      body).1 = .ok framed) (padding : List UInt8) :
    deliveryCalls (unsealEnvelope recipientSk) (framed ++ padding) =
      some [(senderPk, body)] := by
  have within := length_sealAndFrame_le done
  obtain ⟨envelope, sealed, rfl⟩ := sealAndFrame_eq_ok done
  have fits : envelope.length < 2 ^ 32 := by
    rw [List.length_append, length_beBytes] at within
    omega
  rw [deliveryCalls_eq, framedEnvelope_framed fits, Option.elim_some,
    opens rng recipientSk senderPk body envelope sealed]
  rfl

theorem sealed_framing_undone {crypto : SealingCrypto ρ}
    (small : crypto.maxPayloadSize < 2 ^ 32)
    {unsealEnvelope : Key → List UInt8 → Except ε (Key × List UInt8)}
    (opens : ∀ rng recipientSk senderPk body envelope,
      (crypto.sealBody rng (crypto.publicKey recipientSk) senderPk body).1 =
          .ok envelope →
        unsealEnvelope recipientSk envelope = .ok (senderPk, body)) :
    (∀ rng recipientSk senderPk body framed padding,
      (sealAndFrame crypto rng (crypto.publicKey recipientSk) senderPk
          body).1 = .ok framed →
        deliveryCalls (unsealEnvelope recipientSk) (framed ++ padding) =
          some [(senderPk, body)]) ∧
      (∀ rng (exit : RelayDescriptor) recipientSk senderPk body framed padding,
        exit.kemPubkeyBytes = .ok (crypto.publicKey recipientSk) →
        (frameSealedForExit crypto rng exit senderPk body).1 = .ok framed →
        deliveryCalls (unsealEnvelope recipientSk) (framed ++ padding) =
          some [(senderPk, body)]) ∧
      (∀ rng recipientPk senderPk body,
        (sealAndFrame crypto rng recipientPk senderPk body).1 =
            .error .payloadTooLarge ↔
          ∃ envelope,
            (crypto.sealBody rng recipientPk senderPk body).1 =
                .ok envelope ∧
              4 + envelope.length > crypto.maxPayloadSize) ∧
      (∀ rng (exit : RelayDescriptor) senderPk body,
        (frameSealedForExit crypto rng exit senderPk body).1 =
            .error .payloadTooLarge ↔
          ∃ exitKem envelope,
            exit.kemPubkeyBytes = .ok exitKem ∧
              (crypto.sealBody rng exitKem senderPk body).1 = .ok envelope ∧
              4 + envelope.length > crypto.maxPayloadSize) ∧
      (∀ rng recipientPk senderPk body envelope,
        (crypto.sealBody rng recipientPk senderPk body).1 = .ok envelope →
        4 + envelope.length ≤ crypto.maxPayloadSize →
        (sealAndFrame crypto rng recipientPk senderPk body).1 =
          .ok (beBytes 4 envelope.length ++ envelope)) ∧
      ∀ recipientSk payload, ∃ calls,
        deliveryCalls (unsealEnvelope recipientSk) payload = some calls ∧
          calls.length ≤ 1 ∧
          ∀ call ∈ calls,
            4 + ofBeBytes (payload.take 4) ≤ payload.length ∧
              unsealEnvelope recipientSk
                  ((payload.drop 4).take (ofBeBytes (payload.take 4))) =
                .ok call := by
  refine ⟨?framed, ?exit, ?large, ?exitLarge, ?fits, ?safe⟩
  case framed =>
    intro rng recipientSk senderPk body framed padding done
    exact deliveryCalls_sealAndFrame small opens done padding
  case exit =>
    intro rng exit recipientSk senderPk body framed padding key done
    rw [frameSealedForExit, key] at done
    exact deliveryCalls_sealAndFrame small opens done padding
  case large =>
    intro rng recipientPk senderPk body
    exact sealAndFrame_payloadTooLarge_iff
  case exitLarge =>
    intro rng exit senderPk body
    rw [frameSealedForExit]
    cases key : exit.kemPubkeyBytes with
    | error _ =>
        constructor
        · intro refused
          cases refused
        · rintro ⟨exitKem, envelope, parsed, _⟩
          cases parsed
    | ok exitKem =>
        simp only [sealAndFrame_payloadTooLarge_iff]
        constructor
        · rintro ⟨envelope, sealed, large⟩
          exact ⟨exitKem, envelope, rfl, sealed, large⟩
        · rintro ⟨other, envelope, parsed, sealed, large⟩
          cases parsed
          exact ⟨envelope, sealed, large⟩
  case fits =>
    intro rng recipientPk senderPk body envelope sealed fits
    exact sealAndFrame_of_fits sealed fits
  case safe =>
    intro recipientSk payload
    refine ⟨_, deliveryCalls_eq (unsealEnvelope recipientSk) payload, ?_, ?_⟩
    · cases framedEnvelope payload with
      | none => exact Nat.zero_le 1
      | some envelope => exact Option.length_toList_le
    · intro call made
      exact mem_calls (unsealEnvelope recipientSk) made

def carryingCrypto : SealingCrypto Unit :=
  { SealingCrypto.plain 64 with
    sealBody := fun _ _ sender body => (.ok (sender.val ++ body), ()) }

def openCarried (_ : Key) (envelope : List UInt8) :
    Except Unit (Key × List UInt8) :=
  .ok (Bytes.ofSlice 32 envelope, envelope.drop 32)

theorem openCarried_carrying (rng : Unit) (recipientSk senderPk : Key)
    (body envelope : List UInt8)
    (sealed : (carryingCrypto.sealBody rng
      (carryingCrypto.publicKey recipientSk) senderPk body).1 =
        .ok envelope) :
    openCarried recipientSk envelope = .ok (senderPk, body) := by
  cases sealed
  rw [openCarried, Bytes.ofSlice_append, List.drop_left' senderPk.property]

theorem carried_framing_undone :
    carryingCrypto.maxPayloadSize < 2 ^ 32 ∧
      deliveryCalls (openCarried (Bytes.replicate 32 1))
          ([0, 0, 0, 34] ++ List.replicate 32 7 ++ [8, 9] ++ [0, 0, 0]) =
        some [(Bytes.replicate 32 7, [8, 9])] := by
  have small : carryingCrypto.maxPayloadSize < 2 ^ 32 := by decide
  refine ⟨small, ?_⟩
  exact (sealed_framing_undone small openCarried_carrying).1 ()
    (Bytes.replicate 32 1) (Bytes.replicate 32 7) [8, 9] _ [0, 0, 0] rfl

end GothamClient

end GothamRelay
