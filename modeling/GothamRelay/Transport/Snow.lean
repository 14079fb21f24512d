import GothamRelay.Process.Crypto
import GothamRelay.Transport.Peer

namespace GothamRelay

open Data

/-! The Noise implementation the transport is built on. -/

inductive NoisePattern where
  | xk
  | ik
  deriving DecidableEq, Repr

namespace NoisePattern

def messages : NoisePattern → Nat
  | xk => 3
  | ik => 2

end NoisePattern

/-- The calls of `snow`. The ephemeral key that a handshake draws when it first
writes is given when it is built, and the room is that of the caller's
buffer. -/
structure Snow where
  Handshake : Type
  Session : Type
  buildInitiator : NoisePattern → (localKey remoteKey ephemeral : Key) →
    Except Unit Handshake
  buildResponder : NoisePattern → (localKey ephemeral : Key) →
    Except Unit Handshake
  writeMessage : (payload : List UInt8) → (room : Nat) → Handshake →
    Except Unit (List UInt8 × Handshake)
  readMessage : (msg : List UInt8) → (room : Nat) → Handshake →
    Except Unit (List UInt8 × Handshake)
  getHandshakeHash : Handshake → List UInt8
  getRemoteStatic : Handshake → Option (List UInt8)
  intoTransportMode : Handshake → Except Unit Session
  sealMessage : List UInt8 → Session → Except Unit (List UInt8 × Session)
  openMessage : List UInt8 → Session → Except Unit (List UInt8 × Session)

/-- A handshake message without payload has at most two keys, the second
sealed, and the tag of the payload. -/
def noiseMaxHandshakeLen : Nat := 2 * 32 + 2 * noiseTagLen

namespace Snow

/-- What the Noise specification promises of two ends that name each other's
keys rightly. `InStep left writer reader` holds when `left` messages are to
come and `writer` writes the first of them. -/
structure Lawful (snow : Snow) where
  publicKey : Key → Key
  InStep : Nat → snow.Handshake → snow.Handshake → Prop
  Paired : snow.Session → snow.Session → Prop
  begins : ∀ pattern localKey remoteKey ephemeral ephemeral',
    ∃ initiator responder,
      snow.buildInitiator pattern localKey (publicKey remoteKey) ephemeral =
          .ok initiator ∧
        snow.buildResponder pattern remoteKey ephemeral' = .ok responder ∧
        InStep pattern.messages initiator responder
  turn : ∀ {left writer reader}, InStep (left + 1) writer reader →
    ∃ msg written read,
      (∀ room, noiseMaxHandshakeLen ≤ room →
        snow.writeMessage [] room writer = .ok (msg, written)) ∧
      msg.length ≤ noiseMaxHandshakeLen ∧
      (∀ room, snow.readMessage msg room reader = .ok ([], read)) ∧
      InStep left read written
  ends : ∀ {writer reader}, InStep 0 writer reader →
    snow.getHandshakeHash writer = snow.getHandshakeHash reader ∧
      ∃ session other,
        snow.intoTransportMode writer = .ok session ∧
          snow.intoTransportMode reader = .ok other ∧ Paired session other
  names : ∀ {localKey remoteKey ephemeral answering ephemeral' initiator
      responder room room' msg written payload read},
    snow.buildInitiator .ik localKey remoteKey ephemeral = .ok initiator →
    snow.buildResponder .ik answering ephemeral' = .ok responder →
    snow.writeMessage [] room initiator = .ok (msg, written) →
    snow.readMessage msg room' responder = .ok (payload, read) →
    snow.getRemoteStatic read = some (publicKey localKey).val
  symm : ∀ {session other}, Paired session other → Paired other session
  message : ∀ {session other}, Paired session other →
    ∀ msg, msg.length + noiseTagLen ≤ noiseMaxMsgLen →
      ∃ sealed session' other',
        snow.sealMessage msg session = .ok (sealed, session') ∧
        sealed.length = msg.length + noiseTagLen ∧
        snow.openMessage sealed other = .ok (msg, other') ∧
        Paired session' other'

/-! ## An implementation without secrets -/

/-- Each message has the static and the ephemeral key of its writer. A reader
that knows the key of its peer takes no other. -/
structure PlainHandshake where
  localKey : Key
  remoteKey : Option Key
  ephemeral : Key
  writes : Bool
  left : Nat
  hash : List UInt8

namespace PlainHandshake

def message (handshake : PlainHandshake) (payload : List UInt8) : List UInt8 :=
  handshake.localKey.val ++ handshake.ephemeral.val ++ payload

def turned (handshake : PlainHandshake) (msg : List UInt8) : PlainHandshake :=
  { handshake with
    writes := !handshake.writes
    left := handshake.left - 1
    hash := handshake.hash ++ msg }

def writeMessage (payload : List UInt8) (room : Nat)
    (handshake : PlainHandshake) :
    Except Unit (List UInt8 × PlainHandshake) :=
  let msg := handshake.message payload
  if handshake.left = 0 ∨ ¬ handshake.writes ∨ room < msg.length then
    .error ()
  else
    .ok (msg, handshake.turned msg)

def readMessage (msg : List UInt8) (handshake : PlainHandshake) :
    Except Unit (List UInt8 × PlainHandshake) :=
  let sender : Key := Bytes.ofSlice 32 msg
  if handshake.left = 0 ∨ handshake.writes ∨ msg.length < 64 ∨
      handshake.remoteKey.getD sender ≠ sender then
    .error ()
  else
    .ok (msg.drop 64,
      { handshake.turned msg with remoteKey := some sender })

end PlainHandshake

structure PlainSession where
  sealed : Nat
  opened : Nat

namespace PlainSession

def sealMessage (noise : OrderedNoise) (msg : List UInt8)
    (session : PlainSession) : Except Unit (List UInt8 × PlainSession) :=
  if noiseMaxMsgLen < msg.length + noiseTagLen then
    .error ()
  else
    .ok (noise.sealAt session.sealed msg,
      ⟨session.sealed + 1, session.opened⟩)

def openMessage (noise : OrderedNoise) (msg : List UInt8)
    (session : PlainSession) : Except Unit (List UInt8 × PlainSession) :=
  match noise.openAt session.opened msg with
  | none => .error ()
  | some opened => .ok (opened, ⟨session.sealed, session.opened + 1⟩)

end PlainSession

def plain : Snow where
  Handshake := PlainHandshake
  Session := PlainSession
  buildInitiator pattern localKey remoteKey ephemeral :=
    .ok ⟨localKey, some remoteKey, ephemeral, true, pattern.messages, []⟩
  buildResponder pattern localKey ephemeral :=
    .ok ⟨localKey, none, ephemeral, false, pattern.messages, []⟩
  writeMessage := PlainHandshake.writeMessage
  readMessage msg _ := PlainHandshake.readMessage msg
  getHandshakeHash := PlainHandshake.hash
  getRemoteStatic handshake := handshake.remoteKey.map Subtype.val
  intoTransportMode handshake :=
    if handshake.left = 0 then .ok ⟨0, 0⟩ else .error ()
  sealMessage := PlainSession.sealMessage .numbered
  openMessage := PlainSession.openMessage .numbered

namespace PlainHandshake

structure InStep (left : Nat) (writer reader : PlainHandshake) : Prop where
  writes : writer.writes = true
  reads : reader.writes = false
  writerLeft : writer.left = left
  readerLeft : reader.left = left
  hash : writer.hash = reader.hash
  writerKnows : writer.remoteKey.getD reader.localKey = reader.localKey
  readerKnows : reader.remoteKey.getD writer.localKey = writer.localKey

private theorem length_message (handshake : PlainHandshake)
    (payload : List UInt8) :
    (handshake.message payload).length = 64 + payload.length := by
  rw [message, List.length_append, List.length_append,
    handshake.localKey.property, handshake.ephemeral.property]

private theorem length_empty_message_le (handshake : PlainHandshake) :
    (handshake.message []).length ≤ noiseMaxHandshakeLen := by
  rw [length_message]
  decide

private theorem sender_message (handshake : PlainHandshake)
    (payload : List UInt8) :
    Bytes.ofSlice 32 (handshake.message payload) = handshake.localKey := by
  rw [message, List.append_assoc, Bytes.ofSlice_append]

private theorem drop_message (handshake : PlainHandshake)
    (payload : List UInt8) :
    (handshake.message payload).drop 64 = payload := by
  apply List.drop_left'
  rw [List.length_append, handshake.localKey.property,
    handshake.ephemeral.property]

theorem InStep.write {left room : Nat} {writer reader : PlainHandshake}
    (step : InStep (left + 1) writer reader)
    (enough : noiseMaxHandshakeLen ≤ room) :
    writer.writeMessage [] room =
      .ok (writer.message [], writer.turned (writer.message [])) := by
  have fits : ¬ (writer.left = 0 ∨ ¬ writer.writes = true ∨
      room < (writer.message []).length) := by
    rw [step.writerLeft, step.writes]
    have short := writer.length_empty_message_le
    simp
    omega
  exact if_neg fits

theorem InStep.read {left : Nat} {writer reader : PlainHandshake}
    (step : InStep (left + 1) writer reader) :
    reader.readMessage (writer.message []) =
      .ok ([], { reader.turned (writer.message []) with
        remoteKey := some writer.localKey }) := by
  have fits : ¬ (reader.left = 0 ∨ reader.writes = true ∨
      (writer.message []).length < 64 ∨
      reader.remoteKey.getD writer.localKey ≠ writer.localKey) := by
    rw [step.readerLeft, step.reads, length_message, step.readerKnows]
    simp
  unfold readMessage
  simp only [sender_message, drop_message]
  exact if_neg fits

theorem InStep.turned {left : Nat} {writer reader : PlainHandshake}
    (step : InStep (left + 1) writer reader) (msg : List UInt8) :
    InStep left
      { reader.turned msg with remoteKey := some writer.localKey }
      (writer.turned msg) where
  writes := by simp [PlainHandshake.turned, step.reads]
  reads := by simp [PlainHandshake.turned, step.writes]
  writerLeft := by simp [PlainHandshake.turned, step.readerLeft]
  readerLeft := by simp [PlainHandshake.turned, step.writerLeft]
  hash := by simp [PlainHandshake.turned, step.hash]
  writerKnows := rfl
  readerKnows := step.writerKnows

end PlainHandshake

structure PlainSession.Paired (session other : PlainSession) : Prop where
  out : session.sealed = other.opened
  back : other.sealed = session.opened

theorem PlainSession.Paired.message {session other : PlainSession}
    (paired : session.Paired other) (noise : OrderedNoise) {msg : List UInt8}
    (short : msg.length + noiseTagLen ≤ noiseMaxMsgLen) :
    ∃ sealed session' other',
      session.sealMessage noise msg = .ok (sealed, session') ∧
      sealed.length = msg.length + noiseTagLen ∧
      other.openMessage noise sealed = .ok (msg, other') ∧
      session'.Paired other' := by
  refine ⟨noise.sealAt session.sealed msg,
    ⟨session.sealed + 1, session.opened⟩, ⟨other.sealed, other.opened + 1⟩,
    ?_, noise.length_sealAt _ msg, ?_, ?_, paired.back⟩
  · rw [PlainSession.sealMessage, if_neg (Nat.not_lt.mpr short)]
  · simp only [PlainSession.openMessage, paired.out, noise.openAt_sealAt]
  · exact congrArg (· + 1) paired.out

def plainLawful : plain.Lawful where
  publicKey := id
  InStep := PlainHandshake.InStep
  Paired := PlainSession.Paired
  begins pattern localKey remoteKey ephemeral ephemeral' :=
    ⟨_, _, rfl, rfl, rfl, rfl, rfl, rfl, rfl, rfl, rfl⟩
  turn {left writer reader} step := by
    exact ⟨_, _, _, fun room enough => step.write enough,
      PlainHandshake.length_empty_message_le writer, fun room => step.read,
      step.turned _⟩
  ends step := by
    refine ⟨step.hash, ⟨0, 0⟩, ⟨0, 0⟩, ?_, ?_, rfl, rfl⟩
    · exact if_pos step.writerLeft
    · exact if_pos step.readerLeft
  names := by
    intro localKey remoteKey ephemeral answering ephemeral' initiator responder
      room room' msg written payload read built waiting wrote took
    cases built
    cases waiting
    simp only [plain, PlainHandshake.writeMessage] at wrote
    split at wrote
    · cases wrote
    · cases wrote
      simp only [plain, PlainHandshake.readMessage] at took
      split at took
      · cases took
      · cases took
        simp only [plain, Option.map_some, PlainHandshake.sender_message]
        rfl
  symm paired := ⟨paired.back, paired.out⟩
  message paired _ short := PlainSession.Paired.message paired _ short

end Snow

end GothamRelay
