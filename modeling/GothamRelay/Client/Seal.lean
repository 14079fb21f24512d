import GothamRelay.Client.ShipPath

namespace GothamRelay

open Data

structure SealingCrypto (ρ : Type) extends ClientCrypto ρ where
  randomSecret : ρ → Key × ρ
  sealBody : ρ → Key → Key → List UInt8 →
    Except GothamError (List UInt8) × ρ

/-- An instance without secrecy, whose header is its version and the number of
its records. -/
def SealingCrypto.plain (payloadSize : Nat) : SealingCrypto Unit where
  toCryptoGotham := CryptoGotham.plain payloadSize []
  trailerLen := 0
  modeBalanced := 1
  flagIsLastHop := 1
  flagViaRendezvous := 2
  defaultRecord := .zero
  deriveRouteSecrets _ recipients :=
    .ok (recipients, recipients.map fun _ => (0 : UInt8), ())
  fillBytes _ width := (Bytes.replicate width 0, ())
  wrapHeader _ _ _ _ records _ :=
    if records.length ≤ 5 then
      .ok (⟨[3, UInt8.ofNat records.length, 0], rfl⟩, ())
    else .error .other
  randomSecret _ := (Bytes.replicate 32 0, ())
  sealBody _ _ _ body := (.ok body, ())

variable {ρ : Type}

namespace GothamClient

def sealAndFrame (crypto : SealingCrypto ρ) (rng : ρ)
    (recipientPk senderPk : Key) (body : List UInt8) :
    Except ClientError (List UInt8) × ρ :=
  match crypto.sealBody rng recipientPk senderPk body with
  | (.error _, rng) => (.error .crypto, rng)
  | (.ok envelope, rng) =>
      let framed := beBytes 4 envelope.length ++ envelope
      if framed.length > crypto.maxPayloadSize then
        (.error .payloadTooLarge, rng)
      else
        (.ok framed, rng)

/-- After the exit's key, the source repeats `seal_and_frame` word for word. -/
def frameSealedForExit (crypto : SealingCrypto ρ) (rng : ρ)
    (exit : RelayDescriptor) (senderPk : Key) (body : List UInt8) :
    Except ClientError (List UInt8) × ρ :=
  match exit.kemPubkeyBytes with
  | .error _ => (.error (.badDirectory "exit kem pk"), rng)
  | .ok exitKem => sealAndFrame crypto rng exitKem senderPk body

theorem length_sealAndFrame_le {crypto : SealingCrypto ρ} {rng : ρ}
    {recipientPk senderPk : Key} {body framed : List UInt8}
    (done : (sealAndFrame crypto rng recipientPk senderPk body).1 =
      .ok framed) :
    framed.length ≤ crypto.maxPayloadSize := by
  simp only [sealAndFrame] at done
  split at done
  · cases done
  · split at done
    · cases done
    · rename_i fits
      cases done
      exact Nat.not_lt.mp fits

end GothamClient

def dummyPayloadSize : Nat := 32

def coverBodyMin : Nat := 64

def coverBodyMax : Nat := 1024

def buildCoverPayload (crypto : SealingCrypto ρ) (rng : ρ) :
    List UInt8 × ρ :=
  let recipient := crypto.randomSecret rng
  let sender := crypto.randomSecret recipient.2
  let pick := crypto.fillBytes sender.2 2
  let span := coverBodyMax - coverBodyMin
  let len := coverBodyMin + ofBeBytes pick.1.val % span
  let body := crypto.fillBytes pick.2 len
  match GothamClient.sealAndFrame crypto body.2
      (crypto.publicKey recipient.1) (crypto.publicKey sender.1)
      body.1.val with
  | (.ok framed, rng) => (framed, rng)
  | (.error _, rng) =>
      let fallback := crypto.fillBytes rng dummyPayloadSize
      (fallback.1.val, fallback.2)

theorem length_buildCoverPayload_le (crypto : SealingCrypto ρ)
    (roomy : dummyPayloadSize ≤ crypto.maxPayloadSize) (rng : ρ) :
    (buildCoverPayload crypto rng).1.length ≤ crypto.maxPayloadSize := by
  simp only [buildCoverPayload]
  split
  · rename_i framed after sealed
    exact GothamClient.length_sealAndFrame_le (congrArg Prod.fst sealed)
  · rename_i after sealed
    rw [(crypto.fillBytes after dummyPayloadSize).1.property]
    exact roomy

end GothamRelay
