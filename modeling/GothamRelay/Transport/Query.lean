import GothamRelay.Transport.Handshake

namespace GothamRelay

open Data Peer

namespace Snow

variable (snow : Snow)

def link : NoiseLink (Peer snow.Session) where
  writeMessage msg := stateful (snow.sealMessage msg)
  writeAll := writeAll

def reader : NoiseReader (Peer snow.Session) where
  readExact := readExact
  readMessage cbuf := stateful (snow.openMessage cbuf)

private theorem streaming_writeOneNoiseMsg (msg : List UInt8) :
    Streaming (snow.link.writeOneNoiseMsg msg) :=
  (Streaming.stateful _).bind fun sealed =>
    .check ((Streaming.writeAll _).bind fun _ => .writeAll sealed)

private theorem streaming_readOneNoiseMsg (out : List UInt8) :
    Streaming (snow.reader.readOneNoiseMsg out) :=
  (Streaming.readOr _ 2).bind fun _ =>
    .check ((Streaming.readOr _ _).bind fun _ =>
      (Streaming.stateful _).bind fun _ => .pure _)

private theorem Lawful.plays_message {snow : Snow} (law : snow.Lawful)
    {session other : snow.Session} (paired : law.Paired session other)
    {msg : List UInt8} (sized : Sized noiseChunk msg) :
    ∃ sealed session' other',
      Plays (snow.link.writeOneNoiseMsg msg) session (framed sealed) ()
        session' ∧
      (∀ out, Plays (snow.reader.readOneNoiseMsg out) other
        ((framed sealed).map Move.flip) (msg.length, out ++ msg) other') ∧
      law.Paired session' other' := by
  obtain ⟨positive, short⟩ := sized
  have fits : msg.length + noiseTagLen ≤ noiseMaxMsgLen := by
    unfold noiseChunk at short
    unfold noiseTagLen noiseMaxMsgLen
    omega
  obtain ⟨sealed, session', other', seals, length, opens, still⟩ :=
    law.message paired msg fits
  have clen : sealed.length < 256 ^ 2 := by
    unfold noiseMaxMsgLen at fits
    omega
  have encoded : ofBeBytes (beBytes 2 sealed.length) = sealed.length :=
    ofBeBytes_beBytes clen
  have inside : ¬ ¬ (noiseTagLen + 1 ≤ sealed.length ∧
      sealed.length ≤ noiseChunk + noiseTagLen) := by
    omega
  refine ⟨sealed, session', other', ?_, fun out => ?_, still⟩
  · refine (Plays.stateful seals).bind (fun sealed => .check
      ((Streaming.writeAll _).bind fun _ => .writeAll sealed)) ?_
    exact .check (Nat.not_le.mpr clen) ((Plays.writeAll session' _).bind
      (fun _ => .writeAll sealed) (.writeAll session' sealed))
  · have readLen := Plays.readOr other .read (beBytes 2 sealed.length)
    rw [length_beBytes] at readLen
    have finish := (Plays.stateful opens).bind
      (fun msg => Streaming.pure (msg.length, out ++ msg)) (.pure other' _)
    refine readLen.bind (fun _ => .check ((Streaming.readOr _ _).bind fun _ =>
      (Streaming.stateful _).bind fun _ => .pure _)) ?_
    simp only [encoded]
    have rest := (Plays.readOr other .read sealed).bind
      (fun cbuf => (Streaming.stateful (snow.openMessage cbuf)).bind
        fun msg => Streaming.pure (msg.length, out ++ msg)) finish
    exact .check inside rest

/-! ## The presence query -/

variable {T U Handle : Type}

/-- `serve_rendezvous_query` once it has a session with the authority. -/
def answerQuery (table : Key → Option Handle) :
    Transport (Peer snow.Session) Unit := do
  let read ← snow.reader.readOneNoiseMsg []
  if read.1 ≠ 32 then
    throw .badHandshake
  let hosted := (table (Bytes.ofSlice 32 read.2)).isSome
  snow.link.writeOneNoiseMsg [if hosted then 1 else 0]

def serveRendezvousQuery (staticSk ephemeral : Key)
    (authorityPopPk : Option Key) (table : Key → Option Handle) :
    Transport (Peer T) Unit :=
  match authorityPopPk with
  | none => throw .badHandshake
  | some expected => do
      let accepted ← snow.noiseIkResponderHandshake staticSk ephemeral
      if accepted.2 ≠ expected then
        throw .badHandshake
      withSession accepted.1 (snow.answerQuery table)

def askQuery (nPk : Key) : Transport (Peer snow.Session) Bool := do
  snow.link.writeOneNoiseMsg nPk.val
  let read ← snow.reader.readOneNoiseMsg []
  return decide (1 ≤ read.1) && read.2.head? == some 1

/-- What `probe_rendezvous_hosting` waits for, on the stream it has opened. -/
def probeFuture (rPk authorityPopSk ephemeral nPk : Key) :
    Transport (Peer T) Bool := do
  let noise ← snow.noiseIkInitiatorHandshake authorityPopSk rPk ephemeral
  withSession noise (snow.askQuery nPk)

/-- `expired` says that the timeout was over before the future was ready, which
waits also for the connection to close. -/
def probeRendezvousHosting (rPk authorityPopSk ephemeral nPk : Key)
    (timeout : Duration) (expired : Bool) : Transport (Peer T) Bool :=
  ExceptT.mk fun peer =>
    let ready := (snow.probeFuture rPk authorityPopSk ephemeral nPk).run peer
    (if expired then .error (.unreachable timeout) else ready.1, ready.2)

private theorem streaming_answerQuery (table : Key → Option Handle) :
    Streaming (snow.answerQuery table) :=
  (snow.streaming_readOneNoiseMsg []).bind fun _ =>
    .check (snow.streaming_writeOneNoiseMsg _)

private theorem streaming_serveRendezvousQuery (staticSk ephemeral : Key)
    (authorityPopPk : Option Key) (table : Key → Option Handle) :
    Streaming (snow.serveRendezvousQuery staticSk ephemeral authorityPopPk
      table : Transport (Peer T) Unit) := by
  cases authorityPopPk with
  | none => exact .throw _
  | some expected =>
      exact (snow.streaming_noiseIkResponderHandshake _ _).bind fun _ =>
        .check (.withSession _ (snow.streaming_answerQuery table))

private theorem streaming_askQuery (nPk : Key) : Streaming
    (snow.askQuery nPk) :=
  (snow.streaming_writeOneNoiseMsg _).bind fun _ =>
    (snow.streaming_readOneNoiseMsg []).bind fun _ => .pure _

private theorem streaming_probeFuture
    (rPk authorityPopSk ephemeral nPk : Key) :
    Streaming (snow.probeFuture rPk authorityPopSk ephemeral nPk :
      Transport (Peer T) Bool) :=
  (snow.streaming_noiseIkInitiatorHandshake _ _ _).bind fun _ =>
    .withSession _ (snow.streaming_askQuery nPk)

def sampleServer : Key := .replicate 32 1

def sampleAuthority : Key := .replicate 32 2

def sampleHosted : Key := .replicate 32 3

namespace Lawful

variable {snow : Snow} (law : snow.Lawful)

private theorem plays_query {session other : snow.Session}
    (paired : law.Paired session other) (nPk : Key)
    (table : Key → Option Handle) :
    ∃ script session' other',
      Plays (snow.askQuery nPk) session script (table nPk).isSome session' ∧
      Plays (snow.answerQuery table) other (script.map Move.flip) ()
        other' := by
  let reply : List UInt8 := [if (table nPk).isSome then 1 else 0]
  have keySized : Sized noiseChunk nPk.val := by
    unfold Sized noiseChunk
    rw [nPk.property]
    decide
  have replySized : Sized noiseChunk reply := by
    have short : 1 ≤ noiseChunk := by decide
    exact ⟨Nat.one_pos, short⟩
  obtain ⟨question, session₁, other₁, asks, hears, paired₁⟩ :=
    law.plays_message paired keySized
  obtain ⟨answer, other₂, session₂, answers, learns, -⟩ :=
    law.plays_message (law.symm paired₁) replySized
  refine ⟨framed question ++ (framed answer).map Move.flip, session₂, other₂,
    ?_, ?_⟩
  · have told : (decide (1 ≤ reply.length) && reply.head? == some 1) =
        (table nPk).isSome := by
      cases hosted : (table nPk).isSome <;> simp [reply, hosted]
    have finish := (learns []).bind
      (fun read => Streaming.pure
        (decide (1 ≤ read.1) && read.2.head? == some 1)) (.pure session₂ _)
    rw [List.nil_append, told] at finish
    have whole : Plays (snow.askQuery nPk) session
        (framed question ++ ((framed answer).map Move.flip ++ []))
        (table nPk).isSome session₂ :=
      asks.bind (fun _ => (snow.streaming_readOneNoiseMsg []).bind
        fun _ => .pure _) finish
    exact whole.of_eq (by rw [List.append_nil])
  · have copied : Bytes.ofSlice 32 nPk.val = nPk := by
      have extended := Bytes.ofSlice_append nPk []
      rwa [List.append_nil] at extended
    have sized : ¬ nPk.val.length ≠ 32 := fun wrong => wrong nPk.property
    have whole : Plays (snow.answerQuery table) other
        ((framed question).map Move.flip ++ framed answer) () other₂ := by
      refine (hears []).bind
        (fun _ => .check (snow.streaming_writeOneNoiseMsg _)) ?_
      simp only [List.nil_append, copied]
      exact .check sized answers
    exact whole.of_eq (by simp)

private theorem plays_probe
    (serverSk authoritySk ephemeral ephemeral' nPk : Key)
    (table : Key → Option Handle) (outer : T) (outer' : U) :
    ∃ script,
      Plays (snow.probeFuture (law.publicKey serverSk) authoritySk
        ephemeral nPk) outer script (table nPk).isSome outer ∧
      Plays (snow.serveRendezvousQuery serverSk ephemeral'
        (some (law.publicKey authoritySk)) table) outer'
        (script.map Move.flip) () outer' := by
  obtain ⟨opening, session, other, opens, accepts, paired⟩ :=
    law.plays_ik authoritySk serverSk ephemeral ephemeral' outer outer'
  obtain ⟨script, session', other', asks, answers⟩ :=
    law.plays_query paired nPk table
  refine ⟨opening ++ script, ?_, ?_⟩
  · exact opens.bind
      (fun _ => .withSession _ (snow.streaming_askQuery nPk))
      (asks.withSession outer)
  · have whole : Plays (snow.serveRendezvousQuery serverSk ephemeral'
        (some (law.publicKey authoritySk)) table) outer'
        (opening.map Move.flip ++ script.map Move.flip) () outer' := by
      refine accepts.bind (fun _ => .check
        (.withSession _ (snow.streaming_answerQuery table))) ?_
      exact .check (fun wrong => wrong rfl) (answers.withSession outer')
    exact whole.of_eq List.map_append.symm

/-- The authority of the probe, until the future is ready or given up. -/
def prober (serverSk authoritySk ephemeral nPk : Key) (outer : T) :
    Party UInt8 :=
  party outer (snow.streaming_probeFuture (law.publicKey serverSk) authoritySk
    ephemeral nPk)

def hosting (serverSk authoritySk ephemeral' : Key)
    (table : Key → Option Handle) (outer' : U) : Party UInt8 :=
  party outer' (snow.streaming_serveRendezvousQuery serverSk ephemeral'
    (some (law.publicKey authoritySk)) table)

/-- Whichever way the streams deliver and whoever gives up waiting, the
authority is told whether the relay is hosted, or gets an error, and when the
timeout of the probe is over it is the error that says so. -/
theorem probe_settles (serverSk authoritySk ephemeral ephemeral' nPk : Key)
    (table : Key → Option Handle) (timeout : Duration) (outer : T) (outer' : U)
    {exchange : Exchange UInt8}
    (reaches : Exchange.Reaches
      (law.prober serverSk authoritySk ephemeral nPk outer)
      (law.hosting serverSk authoritySk ephemeral' table outer')
      (.talking .nothing) exchange) :
    let result := fun expired =>
      ((snow.probeRendezvousHosting (law.publicKey serverSk) authoritySk
        ephemeral nPk timeout expired).run
          (fresh outer exchange.arrived.toFirst)).1
    Settles outer outer'
        (snow.streaming_probeFuture (law.publicKey serverSk)
          authoritySk ephemeral nPk)
        (snow.streaming_serveRendezvousQuery serverSk ephemeral'
          (some (law.publicKey authoritySk)) table)
        (table nPk).isSome () exchange ∧
      (exchange.arrived.Quiet
          (law.prober serverSk authoritySk ephemeral nPk outer)
          (law.hosting serverSk authoritySk ephemeral' table outer') →
        result false = .ok (table nPk).isSome) ∧
      (∀ expired answer, result expired = .ok answer →
        answer = (table nPk).isSome) ∧
      result true = .error (.unreachable timeout) := by
  intro result
  obtain ⟨script, asks, answers⟩ := law.plays_probe serverSk authoritySk
    ephemeral ephemeral' nPk table outer outer'
  have settles := asks.settles answers _ _ reaches
  refine ⟨settles, ?_, ?_, rfl⟩
  · intro quiet
    obtain ⟨⟨after, ran, _⟩, _⟩ := settles.ends quiet
    exact congrArg Prod.fst ran
  · intro expired answer done
    cases expired with
    | true => cases done
    | false => exact settles.firstOnly (Prod.ext done rfl)

private theorem sampleHosting_waits :
    ¬ (plainLawful.hosting sampleServer sampleAuthority sampleServer
      (fun _ => some ()) ()).finished [] :=
  not_finished_of_error _ rfl

/-- All is delivered and the answer is `true`, or the relay gives up at once. -/
theorem sample_probe_settles :
    (∃ final,
      Exchange.Reaches
          (plainLawful.prober sampleServer sampleAuthority sampleAuthority
            sampleHosted ())
          (plainLawful.hosting sampleServer sampleAuthority sampleServer
            (fun _ => some ()) ()) (.talking .nothing) (.talking final) ∧
        ((plain.probeRendezvousHosting sampleServer sampleAuthority
          sampleAuthority sampleHosted (Duration.fromSecs 5) false).run
            (fresh () final.toFirst)).1 = .ok true) ∧
      Settles () ()
        (plain.streaming_probeFuture sampleServer sampleAuthority
          sampleAuthority sampleHosted)
        (plain.streaming_serveRendezvousQuery sampleServer sampleServer
          (some sampleAuthority) fun _ => some ())
        true () ⟨.nothing, false, true⟩ := by
  have settles := @probe_settles _ _ _ _ plainLawful sampleServer sampleAuthority
    sampleAuthority sampleServer sampleHosted (fun _ => some ())
    (Duration.fromSecs 5) () ()
  obtain ⟨final, reaches, quiet⟩ := (settles .refl).1.completes rfl rfl
  exact ⟨⟨final, reaches, (settles reaches).2.1 quiet⟩,
    (settles (.single (.secondLeaves sampleHosting_waits))).1⟩

end Lawful

/-! ## Who learns what -/

/-- What has arrived is a handshake with the key of `querier` and then the
question about `pk`. -/
def Asks (staticSk ephemeral : Key) (peer : Peer T) (querier pk : Key) :
    Prop :=
  ∃ session between asked after,
    (snow.noiseIkResponderHandshake staticSk ephemeral).run peer =
        (.ok (session, querier), between) ∧
      (snow.reader.readOneNoiseMsg []).run
          ⟨between.input, between.ended, between.output, session⟩ =
        (.ok (32, asked), after) ∧
      pk = Bytes.ofSlice 32 asked

private theorem run_answerQuery_eq {table other : Key → Option Handle}
    {peer : Peer snow.Session}
    (agree : ∀ asked after,
      (snow.reader.readOneNoiseMsg []).run peer = (.ok (32, asked), after) →
        (table (Bytes.ofSlice 32 asked)).isSome =
          (other (Bytes.ofSlice 32 asked)).isSome) :
    (snow.answerQuery table).run peer = (snow.answerQuery other).run peer := by
  unfold answerQuery
  cases ran : (snow.reader.readOneNoiseMsg []).run peer with
  | mk result after =>
      cases result with
      | error error =>
          rw [Transport.run_bind_error _ ran, Transport.run_bind_error _ ran]
      | ok read =>
          rw [Transport.run_bind_ok ran, Transport.run_bind_ok ran]
          by_cases sized : read.1 = 32
          · have same := agree read.2 after (by rw [ran, ← sized])
            simp only [sized, same]
          · simp only [ne_eq, sized, not_false_eq_true, if_true]
            rfl

/-- If two tables make any difference to what is sent or returned, then the
peer has the key of the configured authority and asked about a key on which
the tables differ. -/
theorem only_authority_learns {staticSk ephemeral : Key}
    {authorityPopPk : Option Key} {table other : Key → Option Handle}
    {peer : Peer T}
    (differ :
      (snow.serveRendezvousQuery staticSk ephemeral authorityPopPk table).run
          peer ≠
        (snow.serveRendezvousQuery staticSk ephemeral authorityPopPk other).run
          peer) :
    ∃ querier pk, authorityPopPk = some querier ∧
      snow.Asks staticSk ephemeral peer querier pk ∧
      (table pk).isSome ≠ (other pk).isSome := by
  by_contra unasked
  apply differ
  cases authorityPopPk with
  | none => rfl
  | some expected =>
      unfold serveRendezvousQuery
      cases ran :
          (snow.noiseIkResponderHandshake staticSk ephemeral).run peer with
      | mk result between =>
          cases result with
          | error error =>
              simp only []
              rw [Transport.run_bind_error _ ran,
                Transport.run_bind_error _ ran]
          | ok accepted =>
              simp only []
              rw [Transport.run_bind_ok ran, Transport.run_bind_ok ran]
              by_cases known : accepted.2 = expected
              · have agree : ∀ asked after,
                    (snow.reader.readOneNoiseMsg []).run
                        ⟨between.input, between.ended, between.output,
                          accepted.1⟩ =
                      (.ok (32, asked), after) →
                    (table (Bytes.ofSlice 32 asked)).isSome =
                      (other (Bytes.ofSlice 32 asked)).isSome := by
                  intro asked after read
                  by_contra unequal
                  exact unasked ⟨expected, _, rfl, ⟨accepted.1, between, asked,
                    after, by rw [ran, ← known], read, rfl⟩, unequal⟩
                simp only [ne_eq, known, not_true, if_false, withSession, zoom,
                  ExceptT.run_mk, snow.run_answerQuery_eq agree]
              · simp only [ne_eq, known, not_false_eq_true, if_true]
                rfl

def sampleQuestion : Peer Unit :=
  fresh () (beBytes 2 64 ++ sampleAuthority.val ++ sampleAuthority.val ++
    beBytes 2 48 ++ sampleHosted.val ++ beBytes 16 0)

def sampleServe (table : Key → Option Unit) : Transport (Peer Unit) Unit :=
  plain.serveRendezvousQuery sampleServer sampleServer (some sampleAuthority)
    table

private theorem sampleServe_differs :
    (sampleServe fun _ => none).run sampleQuestion ≠
      (sampleServe fun _ => some ()).run sampleQuestion := by
  intro same
  have outputs : ((sampleServe fun _ => none).run sampleQuestion).2.output ≠
      ((sampleServe fun _ => some ()).run sampleQuestion).2.output := by
    decide +kernel
  exact outputs (congrArg (fun ran => ran.2.output) same)

theorem sample_only_authority_learns :
    (sampleServe fun _ => none).run sampleQuestion ≠
        (sampleServe fun _ => some ()).run sampleQuestion ∧
      ∃ querier pk, some sampleAuthority = some querier ∧
        plain.Asks sampleServer sampleServer sampleQuestion querier pk ∧
        ((fun _ => none : Key → Option Unit) pk).isSome ≠
          ((fun _ => some () : Key → Option Unit) pk).isSome :=
  ⟨sampleServe_differs, plain.only_authority_learns sampleServe_differs⟩

end Snow

end GothamRelay
