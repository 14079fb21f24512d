import GothamRelay.Transport.Snow

namespace GothamRelay

open Data

def maxHandshakeMsg : Nat := 1024

namespace Peer

variable {S : Type}

def writeHandshakeMsg (msg : List UInt8) : Transport (Peer S) Unit := do
  if msg.length > maxHandshakeMsg then
    throw .badHandshake
  writeAll (beBytes 2 msg.length)
  writeAll msg

/-- The part of the caller's buffer that was filled. -/
def readHandshakeMsg : Transport (Peer S) (List UInt8) := do
  let lenBytes ← readTimed 2
  let len := ofBeBytes lenBytes
  if len > maxHandshakeMsg then
    throw .badHandshake
  readTimed len

private theorem streaming_writeHandshakeMsg (msg : List UInt8) :
    Streaming (writeHandshakeMsg msg : Transport (Peer S) Unit) := by
  unfold writeHandshakeMsg
  exact .check ((Streaming.writeAll _).bind fun _ => .writeAll msg)

private theorem streaming_readHandshakeMsg :
    Streaming (readHandshakeMsg : Transport (Peer S) (List UInt8)) :=
  (Streaming.readOr _ 2).bind fun _ => .check (.readOr _ _)

def framed (msg : List UInt8) : Script UInt8 :=
  [.sends (beBytes 2 msg.length), .sends msg]

private theorem plays_writeHandshakeMsg {msg : List UInt8}
    (short : msg.length ≤ maxHandshakeMsg) (session : S) :
    Plays (writeHandshakeMsg msg) session (framed msg) () session := by
  unfold writeHandshakeMsg
  exact .check (Nat.not_lt.mpr short)
    ((Plays.writeAll session _).bind (fun _ => .writeAll msg)
      (.writeAll session msg))

private theorem plays_readHandshakeMsg {msg : List UInt8}
    (short : msg.length ≤ maxHandshakeMsg) (session : S) :
    Plays readHandshakeMsg session ((framed msg).map Move.flip) msg
      session := by
  have encoded : ofBeBytes (beBytes 2 msg.length) = msg.length := by
    apply ofBeBytes_beBytes
    unfold maxHandshakeMsg at short
    omega
  have readLen := Plays.readOr session .badHandshake (beBytes 2 msg.length)
  rw [length_beBytes] at readLen
  refine readLen.bind (fun _ => .check (.readOr _ _)) ?_
  simp only [encoded]
  exact .check (Nat.not_lt.mpr short) (.readOr session .badHandshake msg)

end Peer

namespace Snow

open Peer

variable (snow : Snow)

/-- `write_message` into `tx`, and the filled part of it sent. -/
def sendTurn : Transport (Peer snow.Handshake) Unit := do
  let msg ← stateful (snow.writeMessage [] maxHandshakeMsg)
  writeHandshakeMsg msg

/-- The next message read into `rx`, and from there by `read_message`. -/
def receiveTurn : Transport (Peer snow.Handshake) Unit := do
  let msg ← readHandshakeMsg
  let _ ← stateful (snow.readMessage msg maxHandshakeMsg)
  return ()

def handshakeHash : Transport (Peer snow.Handshake) (List UInt8) :=
  stateful fun hs => .ok (snow.getHandshakeHash hs, hs)

def remoteStatic : Transport (Peer snow.Handshake) (Option (List UInt8)) :=
  stateful fun hs => .ok (snow.getRemoteStatic hs, hs)

def transportMode : Transport (Peer snow.Handshake) snow.Session :=
  stateful fun hs => (snow.intoTransportMode hs).map fun session => (session, hs)

variable {T : Type}

def noiseResponderHandshakeBound (staticSk ephemeral : Key) :
    Transport (Peer T) (snow.Session × List UInt8) := do
  let hs ← noise (snow.buildResponder .xk staticSk ephemeral)
  withSession hs do
    snow.receiveTurn
    snow.sendTurn
    snow.receiveTurn
    let binding ← snow.handshakeHash
    let transport ← snow.transportMode
    return (transport, binding)

def noiseResponderHandshake (staticSk ephemeral : Key) :
    Transport (Peer T) snow.Session := do
  let bound ← snow.noiseResponderHandshakeBound staticSk ephemeral
  return bound.1

def noiseInitiatorHandshakeBound
    (initiatorSk serverStaticPk ephemeral : Key) :
    Transport (Peer T) (snow.Session × List UInt8) := do
  let hs ← noise
    (snow.buildInitiator .xk initiatorSk serverStaticPk ephemeral)
  withSession hs do
    snow.sendTurn
    snow.receiveTurn
    snow.sendTurn
    let binding ← snow.handshakeHash
    let transport ← snow.transportMode
    return (transport, binding)

def noiseInitiatorHandshake (initiatorSk serverStaticPk ephemeral : Key) :
    Transport (Peer T) snow.Session := do
  let bound ←
    snow.noiseInitiatorHandshakeBound initiatorSk serverStaticPk ephemeral
  return bound.1

def remotePk (remote : Option (List UInt8)) :
    Transport (Peer snow.Handshake) Key :=
  match remote with
  | none => throw .badHandshake
  | some remote =>
      if sized : remote.length = 32 then pure ⟨remote, sized⟩
      else throw .badHandshake

def noiseIkResponderHandshake (staticSk ephemeral : Key) :
    Transport (Peer T) (snow.Session × Key) := do
  let hs ← noise (snow.buildResponder .ik staticSk ephemeral)
  withSession hs do
    snow.receiveTurn
    let remote ← snow.remoteStatic
    let remotePk ← snow.remotePk remote
    snow.sendTurn
    let transport ← snow.transportMode
    return (transport, remotePk)

def noiseIkInitiatorHandshake
    (initiatorSk responderStaticPk ephemeral : Key) :
    Transport (Peer T) snow.Session := do
  let hs ← noise
    (snow.buildInitiator .ik initiatorSk responderStaticPk ephemeral)
  withSession hs do
    snow.sendTurn
    snow.receiveTurn
    snow.transportMode

/-! ## Streaming -/

private theorem streaming_sendTurn : Streaming snow.sendTurn :=
  (Streaming.stateful _).bind streaming_writeHandshakeMsg

private theorem streaming_receiveTurn : Streaming snow.receiveTurn :=
  streaming_readHandshakeMsg.bind fun _ =>
    (Streaming.stateful _).bind fun _ => .pure ()

private theorem streaming_transportMode : Streaming snow.transportMode :=
  .stateful _

private theorem streaming_bound : Streaming (do
    let binding ← snow.handshakeHash
    let transport ← snow.transportMode
    return (transport, binding)) :=
  (Streaming.stateful _).bind fun _ =>
    snow.streaming_transportMode.bind fun _ => .pure _

private theorem streaming_remoteStatic : Streaming snow.remoteStatic :=
  .stateful _

private theorem streaming_remotePk (remote : Option (List UInt8)) :
    Streaming (snow.remotePk remote) := by
  cases remote with
  | none => exact .throw _
  | some remote =>
      unfold remotePk
      by_cases sized : remote.length = 32
      · simp only [sized, dif_pos]
        exact .pure _
      · simp only [sized, dif_neg, not_false_eq_true]
        exact .throw _

private theorem streaming_noiseResponderHandshakeBound
    (staticSk ephemeral : Key) :
    Streaming (snow.noiseResponderHandshakeBound staticSk ephemeral :
      Transport (Peer T) (snow.Session × List UInt8)) := by
  refine (Streaming.noise _).bind fun hs => .withSession hs ?_
  exact snow.streaming_receiveTurn.bind fun _ =>
    snow.streaming_sendTurn.bind fun _ =>
      snow.streaming_receiveTurn.bind fun _ => snow.streaming_bound

private theorem streaming_noiseInitiatorHandshakeBound
    (initiatorSk serverStaticPk ephemeral : Key) :
    Streaming (snow.noiseInitiatorHandshakeBound initiatorSk serverStaticPk
      ephemeral : Transport (Peer T) (snow.Session × List UInt8)) := by
  refine (Streaming.noise _).bind fun hs => .withSession hs ?_
  exact snow.streaming_sendTurn.bind fun _ =>
    snow.streaming_receiveTurn.bind fun _ =>
      snow.streaming_sendTurn.bind fun _ => snow.streaming_bound

theorem streaming_noiseResponderHandshake (staticSk ephemeral : Key) :
    Streaming (snow.noiseResponderHandshake staticSk ephemeral :
      Transport (Peer T) snow.Session) :=
  (snow.streaming_noiseResponderHandshakeBound staticSk ephemeral).bind
    fun _ => .pure _

theorem streaming_noiseInitiatorHandshake
    (initiatorSk serverStaticPk ephemeral : Key) :
    Streaming (snow.noiseInitiatorHandshake initiatorSk serverStaticPk
      ephemeral : Transport (Peer T) snow.Session) :=
  (snow.streaming_noiseInitiatorHandshakeBound initiatorSk serverStaticPk
    ephemeral).bind fun _ => .pure _

theorem streaming_noiseIkResponderHandshake (staticSk ephemeral : Key) :
    Streaming (snow.noiseIkResponderHandshake staticSk ephemeral :
      Transport (Peer T) (snow.Session × Key)) := by
  refine (Streaming.noise _).bind fun hs => .withSession hs ?_
  refine snow.streaming_receiveTurn.bind fun _ => ?_
  refine snow.streaming_remoteStatic.bind fun remote => ?_
  refine (snow.streaming_remotePk remote).bind fun remotePk => ?_
  exact snow.streaming_sendTurn.bind fun _ =>
    snow.streaming_transportMode.bind fun _ => .pure _

theorem streaming_noiseIkInitiatorHandshake
    (initiatorSk responderStaticPk ephemeral : Key) :
    Streaming (snow.noiseIkInitiatorHandshake initiatorSk responderStaticPk
      ephemeral : Transport (Peer T) snow.Session) := by
  refine (Streaming.noise _).bind fun hs => .withSession hs ?_
  exact snow.streaming_sendTurn.bind fun _ =>
    snow.streaming_receiveTurn.bind fun _ => snow.streaming_transportMode

/-! ## Two ends that name each other rightly -/

private theorem plays_transportMode {hs : snow.Handshake}
    {session : snow.Session} (into : snow.intoTransportMode hs = .ok session) :
    Plays snow.transportMode hs [] session hs := by
  apply Plays.stateful
  rw [into]
  rfl

private theorem plays_bound {hs : snow.Handshake} {session : snow.Session}
    (into : snow.intoTransportMode hs = .ok session) :
    Plays (do
      let binding ← snow.handshakeHash
      let transport ← snow.transportMode
      return (transport, binding)) hs [] (session, snow.getHandshakeHash hs)
      hs := by
  have hash : Plays snow.handshakeHash hs [] (snow.getHandshakeHash hs) hs :=
    .stateful rfl
  exact hash.bind
    (fun _ => snow.streaming_transportMode.bind fun _ => .pure _)
    ((snow.plays_transportMode into).bind (fun _ => .pure _) (.pure hs _))

namespace Lawful

variable {snow : Snow} (law : snow.Lawful) {U : Type}

private theorem plays_turn {left : Nat} {writer reader : snow.Handshake}
    (step : law.InStep (left + 1) writer reader) :
    ∃ msg written read,
      snow.writeMessage [] maxHandshakeMsg writer = .ok (msg, written) ∧
      snow.readMessage msg maxHandshakeMsg reader = .ok ([], read) ∧
      Plays snow.sendTurn writer (framed msg) () written ∧
      Plays snow.receiveTurn reader ((framed msg).map Move.flip) () read ∧
      law.InStep left read written := by
  obtain ⟨msg, written, read, writes, bounded, reads, further⟩ := law.turn step
  have short : msg.length ≤ maxHandshakeMsg :=
    Nat.le_trans bounded (by decide)
  have wrote := writes maxHandshakeMsg (by decide)
  have took := reads maxHandshakeMsg
  refine ⟨msg, written, read, wrote, took, ?_, ?_, further⟩
  · exact (Plays.stateful wrote).bind streaming_writeHandshakeMsg
      (plays_writeHandshakeMsg short written)
  · have rest := (Plays.stateful took).bind (fun _ => .pure ()) (.pure read ())
    have whole : Plays snow.receiveTurn reader
        ((framed msg).map Move.flip ++ []) () read :=
      (plays_readHandshakeMsg short reader).bind
        (fun _ => (Streaming.stateful _).bind fun _ => .pure ()) rest
    exact whole.of_eq (List.append_nil _)

/-- The three messages of a handshake take both ends to sessions that belong
together, with one binding. -/
theorem plays_xk (initiatorSk serverSk ephemeral ephemeral' : Key) (outer : T)
    (outer' : U) :
    ∃ script session other binding,
      Plays (snow.noiseInitiatorHandshakeBound initiatorSk
        (law.publicKey serverSk) ephemeral) outer script (session, binding)
        outer ∧
      Plays (snow.noiseResponderHandshakeBound serverSk ephemeral') outer'
        (script.map Move.flip) (other, binding) outer' ∧
      law.Paired session other := by
  obtain ⟨initiator, responder, built, waiting, step⟩ :=
    law.begins .xk initiatorSk serverSk ephemeral ephemeral'
  obtain ⟨one, initiator₁, responder₁, -, -, sends₁, takes₁, step₁⟩ :=
    law.plays_turn step
  obtain ⟨two, responder₂, initiator₂, -, -, sends₂, takes₂, step₂⟩ :=
    law.plays_turn step₁
  obtain ⟨three, initiator₃, responder₃, -, -, sends₃, takes₃, step₃⟩ :=
    law.plays_turn step₂
  obtain ⟨hash, other, session, intoOther, into, paired⟩ := law.ends step₃
  refine ⟨framed one ++ ((framed two).map Move.flip ++ framed three), session,
    other, snow.getHandshakeHash initiator₃, ?_, ?_, law.symm paired⟩
  · have last := fun _ : Unit => snow.streaming_bound
    have third := fun _ : Unit => snow.streaming_sendTurn.bind last
    have second := fun _ : Unit => snow.streaming_receiveTurn.bind third
    have talk := sends₁.bind second
      (takes₂.bind third (sends₃.bind last (snow.plays_bound into)))
    have whole := (Plays.noise built outer).bind
      (fun hs => .withSession hs (snow.streaming_sendTurn.bind second))
      (talk.withSession outer)
    exact whole.of_eq (by simp)
  · have last := fun _ : Unit => snow.streaming_bound
    have third := fun _ : Unit => snow.streaming_receiveTurn.bind last
    have second := fun _ : Unit => snow.streaming_sendTurn.bind third
    have talk := takes₁.bind second
      (sends₂.bind third (takes₃.bind last (snow.plays_bound intoOther)))
    have whole := (Plays.noise waiting outer').bind
      (fun hs => .withSession hs (snow.streaming_receiveTurn.bind second))
      (talk.withSession outer')
    rw [← hash]
    exact whole.of_eq (by simp)

/-- Whichever way the streams deliver and whoever gives up waiting, the two
ends of a handshake come to sessions that belong together and to the same
binding, or fail. -/
theorem xk_handshake_settles
    (initiatorSk serverSk ephemeral ephemeral' : Key) (outer : T)
    (outer' : U) :
    ∃ session other binding, law.Paired session other ∧
      ∀ {exchange : Exchange UInt8},
        Exchange.Reaches
            (party outer (snow.streaming_noiseInitiatorHandshakeBound
              initiatorSk (law.publicKey serverSk) ephemeral))
            (party outer' (snow.streaming_noiseResponderHandshakeBound
              serverSk ephemeral')) (.talking .nothing) exchange →
          Settles outer outer'
            (snow.streaming_noiseInitiatorHandshakeBound initiatorSk
              (law.publicKey serverSk) ephemeral)
            (snow.streaming_noiseResponderHandshakeBound serverSk ephemeral')
            (session, binding) (other, binding) exchange := by
  obtain ⟨script, session, other, binding, opens, accepts, paired⟩ :=
    law.plays_xk initiatorSk serverSk ephemeral ephemeral' outer outer'
  refine ⟨session, other, binding, paired, ?_⟩
  intro exchange reaches
  exact opens.settles accepts _ _ reaches

def sampleInitiator : Party UInt8 :=
  party () (plain.streaming_noiseInitiatorHandshakeBound (.replicate 32 1)
    (.replicate 32 2) (.replicate 32 3))

def sampleResponder : Party UInt8 :=
  party () (plain.streaming_noiseResponderHandshakeBound (.replicate 32 2)
    (.replicate 32 4))

private theorem sampleResponder_waits : ¬ sampleResponder.finished [] :=
  not_finished_of_error _ rfl

/-- All is delivered, or the responder gives up at once. -/
theorem sample_xk_handshake_settles :
    ∃ session other binding, plainLawful.Paired session other ∧
      (∃ final,
        Exchange.Reaches sampleInitiator sampleResponder (.talking .nothing)
            (.talking final) ∧
          final.Quiet sampleInitiator sampleResponder ∧
          Ends (plain.noiseInitiatorHandshakeBound (.replicate 32 1)
            (.replicate 32 2) (.replicate 32 3)) () final.toFirst
            (session, binding) ∧
          Ends (plain.noiseResponderHandshakeBound (.replicate 32 2)
            (.replicate 32 4)) () final.toSecond (other, binding)) ∧
      Settles () ()
        (plain.streaming_noiseInitiatorHandshakeBound (.replicate 32 1)
          (.replicate 32 2) (.replicate 32 3))
        (plain.streaming_noiseResponderHandshakeBound (.replicate 32 2)
          (.replicate 32 4)) (session, binding) (other, binding)
        ⟨.nothing, false, true⟩ := by
  obtain ⟨session, other, binding, paired, settles⟩ :=
    plainLawful.xk_handshake_settles (.replicate 32 1) (.replicate 32 2)
      (.replicate 32 3) (.replicate 32 4) () ()
  obtain ⟨final, reaches, quiet⟩ := (settles .refl).completes rfl rfl
  obtain ⟨opened, accepted⟩ := (settles reaches).ends quiet
  exact ⟨session, other, binding, paired,
    ⟨final, reaches, quiet, opened, accepted⟩,
    settles (.single (.secondLeaves sampleResponder_waits))⟩

private theorem plays_remotePk (key : Key) (hs : snow.Handshake) :
    Plays (snow.remotePk (some key.val)) hs [] key hs := by
  unfold remotePk
  simp only [key.property, dif_pos]
  exact .pure hs key

theorem plays_ik (initiatorSk responderSk ephemeral ephemeral' : Key)
    (outer : T) (outer' : U) :
    ∃ script session other,
      Plays (snow.noiseIkInitiatorHandshake initiatorSk
        (law.publicKey responderSk) ephemeral) outer script session outer ∧
      Plays (snow.noiseIkResponderHandshake responderSk ephemeral') outer'
        (script.map Move.flip) (other, law.publicKey initiatorSk) outer' ∧
      law.Paired session other := by
  obtain ⟨initiator, responder, built, waiting, step⟩ :=
    law.begins .ik initiatorSk responderSk ephemeral ephemeral'
  obtain ⟨one, initiator₁, responder₁, wrote, took, sends₁, takes₁, step₁⟩ :=
    law.plays_turn step
  obtain ⟨two, responder₂, initiator₂, -, -, sends₂, takes₂, step₂⟩ :=
    law.plays_turn step₁
  obtain ⟨-, session, other, into, intoOther, paired⟩ := law.ends step₂
  have named := law.names built waiting wrote took
  refine ⟨framed one ++ (framed two).map Move.flip, session, other, ?_, ?_,
    paired⟩
  · have last := fun _ : Unit => snow.streaming_transportMode
    have second := fun _ : Unit => snow.streaming_receiveTurn.bind last
    have talk := sends₁.bind second
      (takes₂.bind last (snow.plays_transportMode into))
    have whole := (Plays.noise built outer).bind
      (fun hs => .withSession hs (snow.streaming_sendTurn.bind second))
      (talk.withSession outer)
    exact whole.of_eq (by simp)
  · have known : Plays snow.remoteStatic responder₁ []
        (some (law.publicKey initiatorSk).val) responder₁ := by
      apply Plays.stateful
      rw [named]
    have last := fun (remotePk : Key) (_ : Unit) =>
      snow.streaming_transportMode.bind
        fun transport => Streaming.pure (transport, remotePk)
    have third := fun remotePk : Key =>
      snow.streaming_sendTurn.bind (last remotePk)
    have second := fun remote => (snow.streaming_remotePk remote).bind third
    have first := fun _ : Unit => snow.streaming_remoteStatic.bind second
    have finish := (snow.plays_transportMode intoOther).bind
      (fun transport => Streaming.pure (transport, law.publicKey initiatorSk))
      (.pure responder₂ _)
    have talk := takes₁.bind first (known.bind second
      ((plays_remotePk _ responder₁).bind third (sends₂.bind (last _) finish)))
    have whole := (Plays.noise waiting outer').bind
      (fun hs => .withSession hs (snow.streaming_receiveTurn.bind first))
      (talk.withSession outer')
    exact whole.of_eq (by simp)

end Lawful

end Snow

end GothamRelay
