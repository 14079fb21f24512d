import GothamRelay.Transport.Handshake

namespace GothamRelay

open Data Peer

/-! Packets over a connection: what `ConnectionPool` and `forward_packet`
write, and what `serve_connection` reads. -/

def frameLen (packetSize : Nat) : Nat := packetSize + noiseTagLen

private theorem frameLen_pos (packetSize : Nat) : 0 < frameLen packetSize :=
  Nat.lt_of_lt_of_le (by decide) (Nat.le_add_left noiseTagLen packetSize)

/-- The buffer of `len` bytes with the message at its start. -/
def buffered (len : Nat) (msg : List UInt8) : List UInt8 :=
  msg ++ List.replicate (len - msg.length) 0

private theorem buffered_eq {len : Nat} {msg : List UInt8}
    (full : msg.length = len) :
    buffered len msg = msg := by
  rw [buffered, full, Nat.sub_self, List.replicate_zero, List.append_nil]

namespace Snow

variable (snow : Snow) (packetSize : Nat)

def writeNoiseFrame (packet : List UInt8) :
    Transport (Peer snow.Session) Unit := do
  if packet.length ≠ packetSize then
    throw .badHandshake
  let sealed ← stateful (snow.sealMessage packet)
  writeAll (buffered (frameLen packetSize) sealed)

def readNoiseFrame : Transport (Peer snow.Session) (List UInt8) := do
  let frame ← readExact (frameLen packetSize)
  let packet ← stateful (snow.openMessage frame)
  return buffered packetSize packet

def writeNoiseFrames : List (List UInt8) → Transport (Peer snow.Session) Unit
  | [] => pure ()
  | packet :: packets => do
      snow.writeNoiseFrame packetSize packet
      writeNoiseFrames packets

variable {T : Type}

/-- A connection as the pool opens it, and the packets sent over it. -/
def sendPackets (mySk peerPk ephemeral : Key) (packets : List (List UInt8)) :
    Transport (Peer T) Unit := do
  let noise ← snow.noiseInitiatorHandshake mySk peerPk ephemeral
  withSession noise (snow.writeNoiseFrames packetSize packets)

def forwardPacket (mySk peerPk ephemeral : Key) (packet : List UInt8) :
    Transport (Peer T) Unit := do
  let noise ← snow.noiseInitiatorHandshake mySk peerPk ephemeral
  withSession noise (snow.writeNoiseFrame packetSize packet)

theorem forwardPacket_eq (mySk peerPk ephemeral : Key) (packet : List UInt8) :
    (snow.forwardPacket packetSize mySk peerPk ephemeral packet :
      Transport (Peer T) Unit) =
      snow.sendPackets packetSize mySk peerPk ephemeral [packet] := by
  simp only [forwardPacket, sendPackets, writeNoiseFrames, bind_pure_unit]

abbrev Serving := snow.Session × List (List UInt8)

def nextPacket : Transport (Peer snow.Serving) (List UInt8) :=
  zoom Prod.fst (fun serving session => (session, serving.2))
    (snow.readNoiseFrame packetSize)

def handOn (peer : Peer snow.Serving) (packet : List UInt8) :
    Peer snow.Serving :=
  { peer with session := (peer.session.1, peer.session.2 ++ [packet]) }

private theorem length_of_readNoiseFrame {peer after : Peer snow.Session}
    {packet : List UInt8}
    (read : (snow.readNoiseFrame packetSize).run peer = (.ok packet, after)) :
    after.input.length < peer.input.length := by
  obtain ⟨frame, between, readFrame, rest⟩ :=
    Transport.run_bind_eq_ok_iff.mp read
  obtain ⟨msg, opened, openFrame, finish⟩ :=
    Transport.run_bind_eq_ok_iff.mp rest
  cases finish
  obtain ⟨enough, dropped⟩ := input_of_readOr readFrame
  have positive := frameLen_pos packetSize
  rw [input_of_stateful openFrame, dropped, List.length_drop]
  omega

private theorem length_of_nextPacket {peer after : Peer snow.Serving}
    {packet : List UInt8}
    (read : (snow.nextPacket packetSize).run peer = (.ok packet, after)) :
    after.input.length < peer.input.length := by
  simp only [nextPacket, zoom, ExceptT.run_mk] at read
  cases ran : (snow.readNoiseFrame packetSize).run
      ⟨peer.input, peer.ended, peer.output, peer.session.1⟩ with
  | mk result inner =>
      rw [ran] at read
      cases read
      exact snow.length_of_readNoiseFrame packetSize ran

/-- The loop of `serve_connection`, which ends only with an error. -/
def serveFrames (peer : Peer snow.Serving) :
    TransportError × Peer snow.Serving :=
  match _read : (snow.nextPacket packetSize).run peer with
  | (.error error, after) => (error, after)
  | (.ok packet, after) => serveFrames (snow.handOn after packet)
termination_by peer.input.length
decreasing_by
  simp only [handOn]
  exact snow.length_of_nextPacket packetSize _read

private theorem serveFrames_of_error {peer after : Peer snow.Serving}
    {error : TransportError}
    (read : (snow.nextPacket packetSize).run peer = (.error error, after)) :
    snow.serveFrames packetSize peer = (error, after) := by
  rw [serveFrames]
  split
  case h_1 stopped =>
    rw [read] at stopped
    cases stopped
    rfl
  case h_2 went =>
    rw [read] at went
    cases went

private theorem serveFrames_of_ok {peer after : Peer snow.Serving}
    {packet : List UInt8}
    (read : (snow.nextPacket packetSize).run peer = (.ok packet, after)) :
    snow.serveFrames packetSize peer =
      snow.serveFrames packetSize (snow.handOn after packet) := by
  rw [serveFrames]
  split
  case h_1 stopped =>
    rw [read] at stopped
    cases stopped
  case h_2 went =>
    rw [read] at went
    cases went
    rfl

def serveLoop : Transport (Peer snow.Serving) Empty :=
  ExceptT.mk fun peer =>
    let ended := snow.serveFrames packetSize peer
    (.error ended.1, ended.2)

/-- `serve_connection`, up to what becomes of the packets. -/
def servePackets (staticSk ephemeral : Key) :
    Transport (Peer (List (List UInt8))) Empty := do
  let noise ← snow.noiseResponderHandshake staticSk ephemeral
  zoom (fun handed => (noise, handed)) (fun _ serving => serving.2)
    (snow.serveLoop packetSize)

/-! ## Streaming -/

private theorem streaming_writeNoiseFrame (packet : List UInt8) :
    Streaming (snow.writeNoiseFrame packetSize packet) := by
  unfold writeNoiseFrame
  exact .check ((Streaming.stateful _).bind fun _ => .writeAll _)

private theorem streaming_writeNoiseFrames (packets : List (List UInt8)) :
    Streaming (snow.writeNoiseFrames packetSize packets) := by
  induction packets with
  | nil => exact .pure ()
  | cons packet packets ih =>
      exact (snow.streaming_writeNoiseFrame packetSize packet).bind fun _ => ih

private theorem streaming_sendPackets (mySk peerPk ephemeral : Key)
    (packets : List (List UInt8)) :
    Streaming (snow.sendPackets packetSize mySk peerPk ephemeral packets :
      Transport (Peer T) Unit) :=
  (snow.streaming_noiseInitiatorHandshake mySk peerPk ephemeral).bind
    fun _ => .withSession _ (snow.streaming_writeNoiseFrames packetSize packets)

private theorem keeps_output_nextPacket :
    Keeps Peer.output (snow.nextPacket packetSize) := by
  have reading : Keeps Peer.output (snow.readNoiseFrame packetSize) :=
    (Keeps.output_readOr _ _).bind fun _ =>
      (Keeps.output_stateful _).bind fun _ => .pure _
  intro peer
  exact reading ⟨peer.input, peer.ended, peer.output, peer.session.1⟩

private theorem output_serveFrames (peer : Peer snow.Serving) :
    (snow.serveFrames packetSize peer).2.output = peer.output := by
  fun_induction snow.serveFrames packetSize peer with
  | case1 peer error after read =>
      have kept := snow.keeps_output_nextPacket packetSize peer
      rw [read] at kept
      exact kept
  | case2 peer packet after read ih =>
      have kept := snow.keeps_output_nextPacket packetSize peer
      rw [read] at kept
      rw [ih]
      exact kept

private theorem keeps_output_serveLoop :
    Keeps Peer.output (snow.serveLoop packetSize) :=
  snow.output_serveFrames packetSize

private theorem streaming_serveLoop : Streaming
    (snow.serveLoop packetSize) := by
  have kept := snow.keeps_output_serveLoop packetSize
  constructor
  · intro peer
    rw [kept peer]
  · intro peer extra
    refine .stopped _ ?_
    rw [kept (peer.fed extra)]
    exact (snow.output_serveFrames packetSize peer).symm ▸ List.prefix_refl _

private theorem streaming_servePackets (staticSk ephemeral : Key) :
    Streaming (snow.servePackets packetSize staticSk ephemeral) :=
  (snow.streaming_noiseResponderHandshake staticSk ephemeral).bind
    fun _ => .zoom _ _ (snow.streaming_serveLoop packetSize)

/-! ## What has arrived is handed on -/

def handedOn (staticSk ephemeral : Key) (input : List UInt8) :
    List (List UInt8) :=
  ((snow.servePackets packetSize staticSk ephemeral).run
    (fresh [] input)).2.session

private theorem serveFrames_short (peer : Peer snow.Serving)
    (short : peer.input.length < frameLen packetSize) :
    (snow.serveFrames packetSize peer).2.session.2 = peer.session.2 := by
  have starved : (snow.readNoiseFrame packetSize).run
      ⟨peer.input, peer.ended, peer.output, peer.session.1⟩ =
        (.error .read,
          ⟨peer.input, peer.ended, peer.output, peer.session.1⟩) := by
    apply Transport.run_bind_error
    simp only [readExact, readOr, ExceptT.run_mk, if_pos short, ite_self]
  have read : (snow.nextPacket packetSize).run peer = (.error .read, peer) := by
    simp only [nextPacket, zoom, ExceptT.run_mk, starved]
  rw [snow.serveFrames_of_error packetSize read]

private theorem keeps_session_noiseResponderHandshake
    (staticSk ephemeral : Key) :
    Keeps Peer.session (snow.noiseResponderHandshake staticSk ephemeral :
      Transport (Peer T) snow.Session) :=
  ((Keeps.noise _).bind fun _ => .session_withSession _ _).bind fun _ => .pure _

/-- At any moment the receiver has handed on the packets whose frames have
arrived, in the order in which they were sent. As long as neither end has left,
all can be delivered, and then the receiver has handed on all of them. -/
def ArrivesInOrder (mySk serverPk serverSk ephemeral ephemeral' : Key)
    (packets : List (List UInt8)) : Prop :=
  let sender := party () (snow.streaming_sendPackets packetSize mySk serverPk
    ephemeral packets)
  let receiver := party [] (snow.streaming_servePackets packetSize serverSk
    ephemeral')
  let handed := snow.handedOn packetSize serverSk ephemeral'
  ∃ opening, ∀ {exchange : Exchange UInt8},
    Exchange.Reaches sender receiver (.talking .nothing) exchange →
      handed exchange.arrived.toSecond =
          packets.take ((exchange.arrived.toSecond.length - opening) /
            frameLen packetSize) ∧
        (exchange.firstLeft = false → exchange.secondLeft = false →
          ∃ final,
            Exchange.Reaches sender receiver exchange (.talking final) ∧
              final.Quiet sender receiver) ∧
        (exchange.arrived.Quiet sender receiver →
          handed exchange.arrived.toSecond = packets)

namespace Lawful

variable {snow : Snow} (law : snow.Lawful) {packetSize : Nat} {U : Type}

private theorem plays_frame {session other : snow.Session}
    (paired : law.Paired session other) {packet : List UInt8}
    (sized : packet.length = packetSize)
    (fits : frameLen packetSize ≤ noiseMaxMsgLen) :
    ∃ frame session' other', frame.length = frameLen packetSize ∧
      Plays (snow.writeNoiseFrame packetSize packet) session [.sends frame] ()
        session' ∧
      Plays (snow.readNoiseFrame packetSize) other [.receives frame] packet
        other' ∧
      law.Paired session' other' := by
  obtain ⟨frame, session', other', seals, length, opens, still⟩ :=
    law.message paired packet (by rw [sized]; exact fits)
  have whole : frame.length = frameLen packetSize := by
    rw [length, sized, frameLen]
  refine ⟨frame, session', other', whole, ?_, ?_, still⟩
  · unfold writeNoiseFrame
    refine .check (fun wrong => wrong sized) ?_
    refine (Plays.stateful seals).bind (fun _ => .writeAll _) ?_
    rw [buffered_eq whole]
    exact .writeAll session' frame
  · have readFrame := Plays.readOr other .read frame
    rw [whole] at readFrame
    have finish := (Plays.stateful opens).bind
      (fun packet => Streaming.pure (buffered packetSize packet))
      (.pure other' _)
    rw [buffered_eq sized] at finish
    exact readFrame.bind
      (fun _ => (Streaming.stateful _).bind fun _ => .pure _) finish

private theorem plays_frames {session other : snow.Session}
    (paired : law.Paired session other)
    (fits : frameLen packetSize ≤ noiseMaxMsgLen)
    {packets : List (List UInt8)}
    (sized : ∀ packet ∈ packets, packet.length = packetSize) :
    ∃ (frames : List (List UInt8)) (session' : snow.Session),
      Plays (snow.writeNoiseFrames packetSize packets) session
        (frames.map Move.sends) () session' ∧
      frames.flatten.length = packets.length * frameLen packetSize ∧
      ∀ arrived, arrived <+: frames.flatten → ∀ ended output handed,
        (snow.serveFrames packetSize
            ⟨arrived, ended, output, (other, handed)⟩).2.session.2 =
          handed ++ packets.take (arrived.length / frameLen packetSize) := by
  induction packets generalizing session other with
  | nil =>
      refine ⟨[], session, .pure session (), (Nat.zero_mul _).symm, ?_⟩
      intro arrived within ended output handed
      have none : arrived = [] := List.prefix_nil.mp within
      have starved := snow.serveFrames_short packetSize
        ⟨[], ended, output, (other, handed)⟩ (frameLen_pos packetSize)
      rw [none, starved, List.take_nil, List.append_nil]
  | cons packet packets ih =>
      obtain ⟨frame, session₁, other₁, whole, writes, reads, paired₁⟩ :=
        law.plays_frame paired (sized packet List.mem_cons_self) fits
      obtain ⟨frames, session', writesRest, total, handsRest⟩ :=
        ih paired₁ fun other member => sized other (List.mem_cons_of_mem _ member)
      refine ⟨frame :: frames, session', ?_, ?_, ?_⟩
      · exact writes.bind
          (fun _ => snow.streaming_writeNoiseFrames packetSize packets)
          writesRest
      · rw [List.flatten_cons, List.length_append, whole, total,
          List.length_cons, Nat.succ_mul, Nat.add_comm]
      · intro arrived within ended output handed
        by_cases short : arrived.length < frameLen packetSize
        · rw [snow.serveFrames_short packetSize _ short,
            Nat.div_eq_of_lt short, List.take_zero, List.append_nil]
        · have covered : frame <+: arrived :=
            List.prefix_of_prefix_length_le (List.prefix_append _ _) within
              (whole ▸ Nat.not_lt.mp short)
          obtain ⟨further, rfl⟩ := covered
          have withinRest := (List.prefix_append_right_inj frame).mp within
          have zoomed : Plays (snow.nextPacket packetSize) (other, handed)
              [.receives frame] packet (other₁, handed) := reads.zoom
          have read := zoomed.finishes further ended output
          rw [Script.receivedBy_receives] at read
          have count : (frame ++ further).length / frameLen packetSize =
              further.length / frameLen packetSize + 1 := by
            rw [List.length_append, whole, Nat.add_comm,
              Nat.add_div_right _ (frameLen_pos packetSize)]
          rw [snow.serveFrames_of_ok packetSize read, count,
            List.take_succ_cons, List.append_cons]
          exact handsRest further withinRest ended _ (handed ++ [packet])

private theorem plays_handshake (mySk serverSk ephemeral ephemeral' : Key)
    (outer : T) (outer' : U) :
    ∃ script session other,
      Plays (snow.noiseInitiatorHandshake mySk (law.publicKey serverSk)
        ephemeral) outer script session outer ∧
      Plays (snow.noiseResponderHandshake serverSk ephemeral') outer'
        (script.map Move.flip) other outer' ∧
      law.Paired session other := by
  obtain ⟨script, session, other, binding, opens, accepts, paired⟩ :=
    law.plays_xk mySk serverSk ephemeral ephemeral' outer outer'
  refine ⟨script, session, other, ?_, ?_, paired⟩
  · have whole := opens.bind (fun bound => Streaming.pure bound.1)
      (.pure outer _)
    exact whole.of_eq (List.append_nil _)
  · have whole := accepts.bind (fun bound => Streaming.pure bound.1)
      (.pure outer' _)
    exact whole.of_eq (List.append_nil _)

private theorem handedOn_eq {serverSk ephemeral' : Key} {opening : Script UInt8}
    {other : snow.Session}
    (accepts : Plays (snow.noiseResponderHandshake serverSk ephemeral')
      ([] : List (List UInt8)) (opening.map Move.flip) other [])
    {frames packets : List (List UInt8)}
    (hands : ∀ arrived, arrived <+: frames.flatten → ∀ ended output handed,
      (snow.serveFrames packetSize
          ⟨arrived, ended, output, (other, handed)⟩).2.session.2 =
        handed ++ packets.take (arrived.length / frameLen packetSize))
    {input : List UInt8} (within : input <+: opening.sentBy ++ frames.flatten) :
    snow.handedOn packetSize serverSk ephemeral' input =
      packets.take
        ((input.length - opening.sentBy.length) / frameLen packetSize) := by
  unfold handedOn servePackets
  by_cases short : input.length < opening.sentBy.length
  · obtain ⟨missing, part⟩ : input <+: opening.sentBy :=
      List.prefix_of_prefix_length_le within (List.prefix_append _ _) short.le
    have some : missing ≠ [] := by
      rintro rfl
      rw [← part, List.append_nil] at short
      exact Nat.lt_irrefl _ short
    rw [← Script.receivedBy_flip] at part
    obtain ⟨error, stopped, ran⟩ := accepts.stops
      (snow.streaming_noiseResponderHandshake _ _) part some false []
    have kept := snow.keeps_session_noiseResponderHandshake serverSk ephemeral'
      (fresh ([] : List (List UInt8)) input)
    rw [fresh, ran] at kept
    rw [fresh, Transport.run_bind_error _ ran, kept,
      Nat.sub_eq_zero_of_le short.le, Nat.zero_div, List.take_zero]
  · obtain ⟨part, rfl⟩ : opening.sentBy <+: input :=
      List.prefix_of_prefix_length_le (List.prefix_append _ _) within
        (Nat.not_lt.mp short)
    have withinRest := (List.prefix_append_right_inj _).mp within
    have ran := accepts.finishes part false []
    rw [Script.receivedBy_flip] at ran
    rw [fresh, Transport.run_bind_ok ran, List.length_append,
      Nat.add_sub_cancel_left]
    exact hands part withinRest false _ []

theorem packets_arrive_in_order {mySk serverSk ephemeral ephemeral' : Key}
    (fits : frameLen packetSize ≤ noiseMaxMsgLen)
    {packets : List (List UInt8)}
    (sized : ∀ packet ∈ packets, packet.length = packetSize) :
    snow.ArrivesInOrder packetSize mySk (law.publicKey serverSk) serverSk
      ephemeral ephemeral' packets := by
  unfold ArrivesInOrder
  intro sender receiver handed
  obtain ⟨opening, session, other, opens, accepts, paired⟩ :=
    law.plays_handshake mySk serverSk ephemeral ephemeral' ()
      ([] : List (List UInt8))
  obtain ⟨frames, session', writes, total, hands⟩ :=
    law.plays_frames paired fits sized
  have sends : Plays (snow.sendPackets packetSize mySk
      (law.publicKey serverSk) ephemeral packets) ()
      (opening ++ frames.map Move.sends) () () :=
    opens.bind (fun _ => .withSession _
      (snow.streaming_writeNoiseFrames packetSize packets))
      (writes.withSession ())
  have listens :
      Script.sentBy ((frames.map Move.sends).map Move.flip) = [] := by
    rw [Script.sentBy_flip, Script.receivedBy_map_sends]
  have follows : Follows (snow.servePackets packetSize serverSk ephemeral') []
      (opening.map Move.flip ++ (frames.map Move.sends).map Move.flip) :=
    accepts.follows_bind
      (fun _ => .zoom _ _ (snow.streaming_serveLoop packetSize))
      (fun peer => snow.keeps_output_serveLoop packetSize
        ⟨peer.input, peer.ended, peer.output, (other, peer.session)⟩) listens
  rw [← List.map_append] at follows
  obtain ⟨known, rest⟩ := sends.follows.course follows
    (snow.streaming_sendPackets packetSize mySk (law.publicKey serverSk)
      ephemeral packets)
    (snow.streaming_servePackets packetSize serverSk ephemeral')
  simp only [Script.sentBy_append, Script.sentBy_map_sends] at known rest
  refine ⟨opening.sentBy.length, ?_⟩
  intro exchange reaches
  have arrives := Exchange.arrived_of_reaches reaches
  obtain ⟨completes, unique⟩ := Arrived.settles known rest arrives
  have sofar : handed exchange.arrived.toSecond = _ := handedOn_eq accepts
    hands (Arrived.within_of_reaches rest arrives).toSecond
  refine ⟨sofar, ?_, ?_⟩
  · obtain ⟨arrived, firstLeft, secondLeft⟩ := exchange
    rintro rfl rfl
    exact ⟨_, Exchange.reaches_talking completes, rest⟩
  intro quiet
  rw [sofar, unique quiet, List.length_append, Nat.add_sub_cancel_left, total,
    Nat.mul_div_cancel _ (frameLen_pos packetSize), List.take_length]

theorem two_packets_arrive_in_order :
    frameLen 3 ≤ noiseMaxMsgLen ∧
      plain.ArrivesInOrder 3 (.replicate 32 1) (.replicate 32 2)
        (.replicate 32 2) (.replicate 32 3) (.replicate 32 4)
        [[1, 2, 3], [4, 5, 6]] :=
  ⟨by decide, plainLawful.packets_arrive_in_order (by decide) (by decide)⟩

end Lawful

end Snow

end GothamRelay
