import GothamRelay.Data.Bytes

namespace GothamRelay

open Data

/-- The envelope in a framed payload: four bytes of length, the envelope, and
whatever follows. -/
def framedEnvelope (payload : List UInt8) : Option (List UInt8) :=
  if payload.length < 4 then
    none
  else
    let envLen := ofBeBytes (payload.take 4)
    if 4 + envLen > payload.length then
      none
    else
      some ((payload.drop 4).take envLen)

/-- `make_unsealing_delivery_handler`: `inner` is called at most once, with the
sender and the body. -/
def unsealingDelivery (unsealEnvelope : List UInt8 → Except ε (κ × List UInt8))
    (inner : κ → List UInt8 → Option β) (payload : List UInt8) : Option β :=
  match framedEnvelope payload with
  | none => none
  | some envelope =>
      match unsealEnvelope envelope with
      | .ok (sender, body) => inner sender body
      | .error _ => none

end GothamRelay
