import GothamRelay.Mailbox.Store
import GothamRelay.Process.Crypto

namespace GothamRelay

inductive MailboxWireError where
  | rateLimited
  | unauthorized
  | malformed
  | refused (code : Nat)
  deriving DecidableEq, Repr

inductive MailboxRequest (Id Auth : Type) where
  | deposit (id : Id) (sealed : Envelope) (ttlSecs : Nat)
  | fetch (id : Id) (auth : Option Auth)
  | fetchWithSurb (id : Id) (surb : List UInt8) (auth : Option Auth)

inductive MailboxResponse where
  | ack
  | delivery (sealed : List Envelope) (more : Bool)
  | error (error : MailboxWireError)
  deriving DecidableEq, Repr

/-- The mailbox together with its wire format, its possession proofs and the
sealing of what reaches it over the mixnet. -/
structure MailboxApi (Id : Type) extends MailboxStore Id where
  Auth : Type
  Surb : Type
  maxMailboxFrame : Nat
  maxPayloadSize : Nat
  pk : Auth → Key
  verify : Auth → Key → List UInt8 → Id → Bool
  x25519 : Key → Key → Key
  surbFetchBinding : List UInt8 → List UInt8
  surbFromBytes : List UInt8 → Option Surb
  requestFromBytes : List UInt8 → Except Unit (MailboxRequest Id Auth)
  responseToBytes : MailboxResponse → Except Unit (List UInt8)
  wireError : MailboxError → MailboxWireError
  unsealEnvelope : Key → List UInt8 → Except Unit (Key × List UInt8)

namespace MailboxApi

def proves {Id : Type} (api : MailboxApi Id) (hostSk : Key)
    (auth : api.Auth) (binding : List UInt8) (id : Id) : Bool :=
  api.verify auth (api.x25519 hostSk (api.pk auth)) binding id

/-- A mailbox whose proofs are the binding and the id themselves, with a
one-to-one wire format for fetches and deposits of one-byte ids. -/
def plain (quota defaultTtl : Nat) : MailboxApi UInt8 where
  toMailboxStore := .queue UInt8 quota defaultTtl
  Auth := List UInt8 × UInt8
  Surb := List UInt8
  maxMailboxFrame := 64
  maxPayloadSize := 1664
  pk _ := Data.Bytes.replicate 32 0
  verify auth _ binding id := auth = (binding, id)
  x25519 _ peer := peer
  surbFetchBinding surb := surb
  surbFromBytes surb := some surb
  requestFromBytes
    | 0 :: id :: ttlSecs :: sealed => .ok (.deposit id sealed ttlSecs.toNat)
    | 1 :: id :: binding => .ok (.fetch id (some (binding, id)))
    | 2 :: id :: surb => .ok (.fetchWithSurb id surb (some (surb, id)))
    | _ => .error ()
  responseToBytes
    | .ack => .ok [0]
    | .delivery sealed _ => .ok (1 :: sealed.flatten)
    | .error _ => .ok [2]
  wireError _ := .refused 0
  unsealEnvelope _ envelope := .ok (Data.Bytes.replicate 32 0, envelope)

end MailboxApi

end GothamRelay
