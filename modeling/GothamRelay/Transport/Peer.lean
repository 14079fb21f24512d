import GothamRelay.Data.Conversation
import GothamRelay.Transport.Blobs

namespace GothamRelay

open Data

/-! Programs at one end of a connection, as functions of what arrives. -/

/-- What has arrived and is not yet read, whether the peer has finished its
stream, what was written, and the state of the Noise session. -/
structure Peer (S : Type) where
  input : List UInt8
  ended : Bool
  output : List UInt8
  session : S

namespace Peer

variable {S T α β : Type}

def fed (peer : Peer S) (extra : List UInt8) : Peer S :=
  { peer with input := peer.input ++ extra }

/-- `read_exact`. As long as the bytes have not come, the result is the error
it would end with: that of the stream if the peer has finished it, and that of
giving up otherwise. -/
def readOr (starved : TransportError) (len : Nat) :
    Transport (Peer S) (List UInt8) :=
  ExceptT.mk fun peer =>
    if peer.input.length < len then
      (.error (if peer.ended then .read else starved), peer)
    else
      (.ok (peer.input.take len),
        { peer with input := peer.input.drop len })

def readExact (len : Nat) : Transport (Peer S) (List UInt8) :=
  readOr .read len

/-- `read_exact` under a timeout, whose end is up to the clock: the party that
runs it may leave as long as it waits. -/
def readTimed (len : Nat) : Transport (Peer S) (List UInt8) :=
  readOr .badHandshake len

def writeAll (bytes : List UInt8) : Transport (Peer S) Unit :=
  ExceptT.mk fun peer =>
    (.ok (), { peer with output := peer.output ++ bytes })

def stateful (call : S → Except Unit (α × S)) : Transport (Peer S) α :=
  ExceptT.mk fun peer =>
    match call peer.session with
    | .error _ => (.error .noise, peer)
    | .ok (value, session) => (.ok value, { peer with session })

/-- The result of a call of `snow` that is not about the session. -/
def noise (result : Except Unit α) : Transport (Peer S) α :=
  match result with
  | .error _ => throw .noise
  | .ok value => pure value

def zoom (enter : T → S) (leave : T → S → T)
    (program : Transport (Peer S) α) : Transport (Peer T) α :=
  ExceptT.mk fun peer =>
    let ran := program.run
      ⟨peer.input, peer.ended, peer.output, enter peer.session⟩
    (ran.1, ⟨ran.2.input, ran.2.ended, ran.2.output,
      leave peer.session ran.2.session⟩)

/-- A part of a program with a session that ends with it. -/
def withSession (session : S) (program : Transport (Peer S) α) :
    Transport (Peer T) α :=
  zoom (fun _ => session) (fun outer _ => outer) program

/-! ## What a call leaves alone -/

theorem input_of_readOr {starved : TransportError} {len : Nat}
    {peer after : Peer S} {bytes : List UInt8}
    (read : (readOr starved len).run peer = (.ok bytes, after)) :
    len ≤ peer.input.length ∧ after.input = peer.input.drop len := by
  simp only [readOr, ExceptT.run_mk] at read
  split at read
  case isTrue => cases read
  case isFalse enough =>
    cases read
    exact ⟨Nat.not_lt.mp enough, rfl⟩

theorem input_of_stateful {call : S → Except Unit (α × S)}
    {peer after : Peer S} {value : α}
    (ran : (stateful call).run peer = (.ok value, after)) :
    after.input = peer.input := by
  simp only [stateful, ExceptT.run_mk] at ran
  split at ran
  · cases ran
  · cases ran
    rfl

/-- What the view shows is as it was, whether the program ended or not. -/
def Keeps (view : Peer S → γ) (program : Transport (Peer S) α) : Prop :=
  ∀ peer, view (program.run peer).2 = view peer

namespace Keeps

variable {view : Peer S → γ}

theorem pure (value : α) : Keeps view (pure value : Transport (Peer S) α) :=
  fun _ => rfl

theorem noise (result : Except Unit α) :
    Keeps view (noise result : Transport (Peer S) α) := by
  intro peer
  cases result <;> rfl

theorem bind {program : Transport (Peer S) α}
    {next : α → Transport (Peer S) β} (first : Keeps view program)
    (rest : ∀ value, Keeps view (next value)) :
    Keeps view (program >>= next) := by
  intro peer
  have kept := first peer
  cases ran : program.run peer with
  | mk result after =>
      rw [ran] at kept
      cases result with
      | ok value =>
          rw [Transport.run_bind_ok ran, rest value after]
          exact kept
      | error error =>
          rw [Transport.run_bind_error next ran]
          exact kept

theorem session_withSession (session : S) (program : Transport (Peer S) α) :
    Keeps Peer.session (withSession session program : Transport (Peer T) α) :=
  fun _ => rfl

theorem output_readOr (starved : TransportError) (len : Nat) :
    Keeps Peer.output (readOr starved len : Transport (Peer S) _) := by
  intro peer
  simp only [readOr, ExceptT.run_mk]
  split <;> rfl

theorem output_stateful (call : S → Except Unit (α × S)) :
    Keeps Peer.output (stateful call) := by
  intro peer
  simp only [stateful, ExceptT.run_mk]
  split <;> rfl

end Keeps

/-! ## More input takes back nothing -/

/-- The result on a longer input: the same if the program was finished, and
otherwise at least as much output. -/
inductive Continues (extra : List UInt8) :
    Except TransportError α × Peer S → Except TransportError α × Peer S →
      Prop where
  | finished (value : α) (after : Peer S) :
      Continues extra (.ok value, after) (.ok value, after.fed extra)
  | stopped (error : TransportError) {after : Peer S}
      {later : Except TransportError α × Peer S}
      (sent : after.output <+: later.2.output) :
      Continues extra (.error error, after) later

private theorem Continues.eq_of_ok {extra : List UInt8} {value : α}
    {after : Peer S} {later : Except TransportError α × Peer S}
    (continues : Continues extra (.ok value, after) later) :
    later = (.ok value, after.fed extra) := by
  cases continues
  rfl

structure Streaming (program : Transport (Peer S) α) : Prop where
  grows : ∀ peer, peer.output <+: (program.run peer).2.output
  continues : ∀ peer extra,
    Continues extra (program.run peer) (program.run (peer.fed extra))

namespace Streaming

theorem pure (value : α) : Streaming (pure value : Transport (Peer S) α) where
  grows _ := List.prefix_refl _
  continues peer _ := .finished value peer

theorem throw (error : TransportError) :
    Streaming (throw error : Transport (Peer S) α) where
  grows _ := List.prefix_refl _
  continues _ _ := .stopped error (List.prefix_refl _)

private theorem grows_bind {next : α → Transport (Peer S) β}
    (rest : ∀ value, Streaming (next value)) (program : Transport (Peer S) α)
    (peer : Peer S) :
    (program.run peer).2.output <+: ((program >>= next).run peer).2.output := by
  cases ran : program.run peer with
  | mk result after =>
      cases result with
      | ok value =>
          rw [Transport.run_bind_ok ran]
          exact (rest value).grows after
      | error error =>
          rw [Transport.run_bind_error next ran]

theorem bind {program : Transport (Peer S) α}
    {next : α → Transport (Peer S) β} (first : Streaming program)
    (rest : ∀ value, Streaming (next value)) :
    Streaming (program >>= next) := by
  refine ⟨fun peer => (first.grows peer).trans (grows_bind rest program peer),
    ?_⟩
  intro peer extra
  have continues := first.continues peer extra
  cases ran : program.run peer with
  | mk result after =>
      rw [ran] at continues
      cases result with
      | ok value =>
          rw [Transport.run_bind_ok ran,
            Transport.run_bind_ok continues.eq_of_ok]
          exact (rest value).continues after extra
      | error error =>
          obtain _ | ⟨_, sent⟩ := continues
          rw [Transport.run_bind_error next ran]
          exact .stopped error (sent.trans (grows_bind rest program _))

private theorem ite {condition : Prop} [Decidable condition]
    {yes no : Transport (Peer S) α} (first : Streaming yes)
    (second : Streaming no) : Streaming (if condition then yes else no) := by
  split
  · exact first
  · exact second

theorem check {bad : Prop} [Decidable bad] {error : TransportError}
    {next : Unit → Transport (Peer S) β} (rest : Streaming (next ())) :
    Streaming (if bad then
      (MonadExcept.throw error : Transport (Peer S) Unit) >>= next
      else next ()) :=
  ite ((throw error).bind fun _ => rest) rest

theorem readOr (starved : TransportError) (len : Nat) :
    Streaming (readOr starved len : Transport (Peer S) (List UInt8)) := by
  constructor
  · intro peer
    simp only [Peer.readOr, ExceptT.run_mk]
    split <;> exact List.prefix_refl _
  · intro peer extra
    simp only [Peer.readOr, ExceptT.run_mk, fed, List.length_append]
    by_cases short : peer.input.length < len
    · rw [if_pos short]
      refine .stopped _ ?_
      split <;> exact List.prefix_refl _
    · have enough : len ≤ peer.input.length := Nat.not_lt.mp short
      rw [if_neg short, if_neg (by omega), List.take_append_of_le_length enough,
        List.drop_append_of_le_length enough]
      exact .finished _ { peer with input := peer.input.drop len }

theorem writeAll (bytes : List UInt8) :
    Streaming (writeAll bytes : Transport (Peer S) Unit) where
  grows _ := List.prefix_append _ _
  continues peer _ :=
    .finished () { peer with output := peer.output ++ bytes }

theorem stateful (call : S → Except Unit (α × S)) :
    Streaming (stateful call) := by
  constructor
  · intro peer
    simp only [Peer.stateful, ExceptT.run_mk]
    split <;> exact List.prefix_refl _
  · intro peer extra
    simp only [Peer.stateful, ExceptT.run_mk, fed]
    split
    · exact .stopped _ (List.prefix_refl _)
    · exact .finished _ { peer with session := _ }

theorem noise (result : Except Unit α) :
    Streaming (noise result : Transport (Peer S) α) := by
  cases result with
  | error error => exact throw .noise
  | ok value => exact pure value

theorem zoom (enter : T → S) (leave : T → S → T)
    {program : Transport (Peer S) α} (streaming : Streaming program) :
    Streaming (zoom enter leave program) := by
  constructor
  · intro peer
    exact streaming.grows
      ⟨peer.input, peer.ended, peer.output, enter peer.session⟩
  · intro peer extra
    have continues := streaming.continues
      ⟨peer.input, peer.ended, peer.output, enter peer.session⟩ extra
    simp only [Peer.zoom, ExceptT.run_mk]
    simp only [fed] at continues ⊢
    generalize program.run ⟨peer.input, peer.ended, peer.output,
      enter peer.session⟩ = early at continues
    generalize program.run ⟨peer.input ++ extra, peer.ended, peer.output,
      enter peer.session⟩ = late at continues
    cases continues with
    | finished value after =>
        exact .finished value ⟨after.input, after.ended, after.output,
          leave peer.session after.session⟩
    | stopped error sent => exact .stopped error sent

theorem withSession (session : S) {program : Transport (Peer S) α}
    (streaming : Streaming program) :
    Streaming (withSession session program : Transport (Peer T) α) :=
  zoom _ _ streaming

end Streaming

def fresh (session : S) (input : List UInt8) : Peer S :=
  ⟨input, false, [], session⟩

def party (session : S) {program : Transport (Peer S) α}
    (streaming : Streaming program) : Party UInt8 where
  sent input := (program.run (fresh session input)).2.output
  finished input := ∃ value after,
    program.run (fresh session input) = (.ok value, after)
  sent_mono := by
    rintro early _ ⟨extra, rfl⟩
    have continues := streaming.continues (fresh session early) extra
    change Continues extra _ (program.run (fresh session (early ++ extra)))
      at continues
    generalize program.run (fresh session early) = first at continues
    generalize program.run (fresh session (early ++ extra)) = second
      at continues
    cases continues with
    | finished value after => exact List.prefix_refl _
    | stopped error sent => exact sent

theorem not_finished_of_error {program : Transport (Peer S) α} {session : S}
    (streaming : Streaming program) {input : List UInt8}
    {error : TransportError}
    (stopped : (program.run (fresh session input)).1 = .error error) :
    ¬ (party session streaming).finished input := by
  rintro ⟨value, after, ran⟩
  rw [ran] at stopped
  cases stopped

private theorem value_of_fed {program : Transport (Peer S) α}
    (streaming : Streaming program) {session : S} {early late : List UInt8}
    (prefixed : early <+: late) {value : α} {after : Peer S}
    (ran : program.run (fresh session early) = (.ok value, after)) :
    ∃ later, program.run (fresh session late) = (.ok value, later) := by
  obtain ⟨extra, rfl⟩ := prefixed
  have continues := streaming.continues (fresh session early) extra
  rw [ran] at continues
  exact ⟨_, continues.eq_of_ok⟩

/-! ## Programs that keep to a script -/

/-- On what the script has it receive, the program sends what the script has it
send, each part as soon as the script says, and ends with the value. -/
structure Plays (program : Transport (Peer S) α) (session : S)
    (script : Script UInt8) (value : α) (after : S) : Prop where
  finishes : ∀ later ended output,
    program.run ⟨script.receivedBy ++ later, ended, output, session⟩ =
      (.ok value, ⟨later, ended, output ++ script.sentBy, after⟩)
  prompt : ∀ past, past <+: script → ∀ ended output,
    output ++ Script.sentBy past <+:
      (program.run ⟨Script.receivedBy past, ended, output, session⟩).2.output

namespace Plays

variable {program : Transport (Peer S) α} {session after last : S}
  {script : Script UInt8} {value : α}

theorem of_eq {same : Script UInt8}
    (plays : Plays program session script value after)
    (equal : script = same) : Plays program session same value after :=
  equal ▸ plays

private theorem of_silent
    (silent : ∀ input ended output,
      program.run ⟨input, ended, output, session⟩ =
        (.ok value, ⟨input, ended, output, after⟩)) :
    Plays program session [] value after := by
  constructor
  · intro later ended output
    rw [silent, Script.sentBy_nil, List.append_nil]
    rfl
  · intro past begun ended output
    rw [List.prefix_nil.mp begun, silent, Script.sentBy_nil, List.append_nil]

theorem pure (session : S) (value : α) :
    Plays (pure value) session [] value session :=
  of_silent fun _ _ _ => rfl

theorem noise {result : Except Unit α} (fine : result = .ok value)
    (session : S) : Plays (noise result) session [] value session := by
  rw [fine]
  exact pure session value

theorem stateful {call : S → Except Unit (α × S)}
    (fine : call session = .ok (value, after)) :
    Plays (stateful call) session [] value after := by
  apply of_silent
  intro input ended output
  simp only [Peer.stateful, ExceptT.run_mk, fine]

theorem writeAll (session : S) (bytes : List UInt8) :
    Plays (writeAll bytes) session [.sends bytes] () session := by
  constructor
  · intro later ended output
    rw [Script.sentBy_sends]
    rfl
  · intro past begun ended output
    have within : Script.sentBy past <+: bytes := by
      obtain ⟨rest, whole⟩ := begun
      refine ⟨Script.sentBy rest, ?_⟩
      rw [← Script.sentBy_append, whole, Script.sentBy_sends]
    exact (List.prefix_append_right_inj output).mpr within

theorem readOr (session : S) (starved : TransportError) (bytes : List UInt8) :
    Plays (readOr starved bytes.length) session [.receives bytes] bytes
      session := by
  constructor
  · intro later ended output
    have enough : ¬ (bytes ++ later).length < bytes.length := by
      rw [List.length_append]
      omega
    rw [Script.receivedBy_receives, Script.sentBy_receives, List.append_nil]
    simp only [Peer.readOr, ExceptT.run_mk]
    rw [if_neg enough, List.take_left, List.drop_left]
  · intro past begun ended output
    have silent : Script.sentBy past = [] := by
      obtain ⟨rest, whole⟩ := begun
      have nothing : Script.sentBy (past ++ rest) = [] := by
        rw [whole]
        rfl
      rw [Script.sentBy_append] at nothing
      exact (List.append_eq_nil_iff.mp nothing).1
    rw [silent, List.append_nil]
    exact (Streaming.readOr starved bytes.length).grows
      ⟨Script.receivedBy past, ended, output, session⟩

theorem bind {next : α → Transport (Peer S) β} {rest : Script UInt8}
    {result : β} (plays : Plays program session script value after)
    (streaming : ∀ value, Streaming (next value))
    (continues : Plays (next value) after rest result last) :
    Plays (program >>= next) session (script ++ rest) result last := by
  constructor
  · intro later ended output
    rw [Script.receivedBy_append, List.append_assoc, Script.sentBy_append,
      ← List.append_assoc output,
      Transport.run_bind_ok (plays.finishes _ ended output)]
    exact continues.finishes later ended _
  · intro past begun ended output
    rcases List.prefix_or_prefix_of_prefix begun (List.prefix_append _ _) with
      early | beyond
    · exact (plays.prompt past early ended output).trans
        (Streaming.grows_bind streaming program _)
    · obtain ⟨further, rfl⟩ := beyond
      have begunRest := (List.prefix_append_right_inj script).mp begun
      rw [Script.receivedBy_append, Script.sentBy_append, ← List.append_assoc,
        Transport.run_bind_ok (plays.finishes _ ended output)]
      exact continues.prompt further begunRest ended _

theorem check {bad : Prop} [Decidable bad] (fine : ¬bad)
    {error : TransportError} {next : Unit → Transport (Peer S) α}
    (rest : Plays (next ()) session script value after) :
    Plays (if bad then
      (throw error : Transport (Peer S) Unit) >>= next else next ())
      session script value after := by
  rw [if_neg fine]
  exact rest

theorem zoom {enter : T → S} {leave : T → S → T} {outer : T}
    (plays : Plays program (enter outer) script value after) :
    Plays (zoom enter leave program) outer script value
      (leave outer after) := by
  constructor
  · intro later ended output
    simp only [Peer.zoom, ExceptT.run_mk, plays.finishes]
  · intro past begun ended output
    exact plays.prompt past begun ended output

theorem withSession (outer : T)
    (plays : Plays program session script value after) :
    Plays (withSession session program) outer script value outer :=
  zoom plays

theorem stops (plays : Plays program session script value after)
    (streaming : Streaming program) {input missing : List UInt8}
    (part : input ++ missing = script.receivedBy) (short : missing ≠ [])
    (ended : Bool) (output : List UInt8) :
    ∃ error stopped, program.run ⟨input, ended, output, session⟩ =
      (.error error, stopped) := by
  have finishes := plays.finishes [] ended output
  rw [List.append_nil, ← part] at finishes
  have continues := streaming.continues ⟨input, ended, output, session⟩ missing
  cases ran : program.run ⟨input, ended, output, session⟩ with
  | mk result stopped =>
      cases result with
      | error error => exact ⟨error, stopped, rfl⟩
      | ok early =>
          rw [ran] at continues
          have same := finishes.symm.trans continues.eq_of_ok
          have left : [] = stopped.input ++ missing :=
            congrArg (fun result => result.2.input) same
          exact absurd (List.append_eq_nil_iff.mp left.symm).2 short

end Plays

/-- A program that need not end: on what the script has it receive it sends
what the script has it send, each part as soon as the script says. -/
structure Follows (program : Transport (Peer S) α) (session : S)
    (script : Script UInt8) : Prop where
  prompt : ∀ past, past <+: script →
    Script.sentBy past <+:
      (program.run (fresh session (Script.receivedBy past))).2.output
  all : (program.run (fresh session script.receivedBy)).2.output =
    script.sentBy

theorem Plays.follows {program : Transport (Peer S) α} {session after : S}
    {script : Script UInt8} {value : α}
    (plays : Plays program session script value after) :
    Follows program session script := by
  have finishes := plays.finishes [] false []
  rw [List.append_nil] at finishes
  constructor
  · intro past begun
    exact plays.prompt past begun false []
  · rw [fresh, finishes, List.nil_append]

theorem Plays.follows_bind {program : Transport (Peer S) α}
    {session after : S} {script rest : Script UInt8} {value : α}
    {next : α → Transport (Peer S) β}
    (plays : Plays program session script value after)
    (streaming : ∀ value, Streaming (next value))
    (silent : ∀ peer, ((next value).run peer).2.output = peer.output)
    (listens : rest.sentBy = []) :
    Follows (program >>= next) session (script ++ rest) := by
  have output : ∀ further : Script UInt8,
      ((program >>= next).run (fresh session
        (Script.receivedBy (script ++ further)))).2.output = script.sentBy := by
    intro further
    rw [Script.receivedBy_append, fresh,
      Transport.run_bind_ok (plays.finishes _ false []), silent,
      List.nil_append]
  constructor
  · intro past begun
    rcases List.prefix_or_prefix_of_prefix begun (List.prefix_append _ _) with
      early | beyond
    · exact (plays.prompt past early false []).trans
        (Streaming.grows_bind streaming program _)
    · obtain ⟨further, rfl⟩ := beyond
      obtain ⟨remaining, whole⟩ := (List.prefix_append_right_inj script).mp begun
      have nothing : Script.sentBy further = [] := by
        rw [← whole, Script.sentBy_append] at listens
        exact (List.append_eq_nil_iff.mp listens).1
      rw [output, Script.sentBy_append, nothing, List.append_nil]
  · rw [output, Script.sentBy_append, listens, List.append_nil]

/-- Two programs that follow the two sides of one script get to its end, where
nothing is left to deliver. -/
theorem Follows.course {first : Transport (Peer S) α}
    {second : Transport (Peer T) β} {session : S} {other : T}
    {script : Script UInt8} (follows : Follows first session script)
    (answers : Follows second other (script.map Move.flip))
    (streaming : Streaming first) (answering : Streaming second) :
    Arrived.Reaches (party session streaming) (party other answering) .nothing
        ⟨script.receivedBy, script.sentBy⟩ ∧
      Arrived.Quiet (party session streaming) (party other answering)
        ⟨script.receivedBy, script.sentBy⟩ := by
  have answered := answers.all
  rw [Script.receivedBy_flip, Script.sentBy_flip] at answered
  exact ⟨Script.reaches_of_keptBy follows.prompt answers.prompt,
    answered.symm, follows.all.symm⟩

def Ends (program : Transport (Peer S) α) (session : S) (input : List UInt8)
    (value : α) : Prop :=
  ∃ after, program.run (fresh session input) = (.ok value, after) ∧
    after.input = []

/-- What two programs come to whichever way the streams deliver and whoever
gives up: neither ends with another value than its own, one that gave up never
ends with any, and as long as neither gave up, all can be delivered and both
have ended with their values once it is. -/
structure Settles {first : Transport (Peer S) α}
    {second : Transport (Peer T) β} (session : S) (other : T)
    (streaming : Streaming first) (answering : Streaming second)
    (value : α) (answer : β) (exchange : Exchange UInt8) : Prop where
  completes : exchange.firstLeft = false → exchange.secondLeft = false →
    ∃ final,
      Exchange.Reaches (party session streaming) (party other answering)
          exchange (.talking final) ∧
        final.Quiet (party session streaming) (party other answering)
  ends : exchange.arrived.Quiet (party session streaming)
      (party other answering) →
    Ends first session exchange.arrived.toFirst value ∧
      Ends second other exchange.arrived.toSecond answer
  firstOnly : ∀ {early after},
    first.run (fresh session exchange.arrived.toFirst) = (.ok early, after) →
      early = value
  secondOnly : ∀ {early after},
    second.run (fresh other exchange.arrived.toSecond) = (.ok early, after) →
      early = answer
  firstFails : exchange.firstLeft = true → ∀ {later},
    Exchange.Reaches (party session streaming) (party other answering)
        exchange later →
      ¬ ∃ early after, first.run (fresh session later.arrived.toFirst) =
        (.ok early, after)
  secondFails : exchange.secondLeft = true → ∀ {later},
    Exchange.Reaches (party session streaming) (party other answering)
        exchange later →
      ¬ ∃ early after, second.run (fresh other later.arrived.toSecond) =
        (.ok early, after)

theorem Plays.ends {program : Transport (Peer S) α} {session after : S}
    {script : Script UInt8} {value : α}
    (plays : Plays program session script value after) :
    Ends program session script.receivedBy value := by
  have finishes := plays.finishes [] false []
  rw [List.append_nil] at finishes
  exact ⟨_, finishes, rfl⟩

theorem Plays.only {program : Transport (Peer S) α} {session after : S}
    {script : Script UInt8} {value : α}
    (plays : Plays program session script value after)
    (streaming : Streaming program) {input : List UInt8}
    (within : input <+: script.receivedBy) {early : α} {stopped : Peer S}
    (ran : program.run (fresh session input) = (.ok early, stopped)) :
    early = value := by
  obtain ⟨later, again⟩ := value_of_fed streaming within ran
  obtain ⟨final, finishes, _⟩ := plays.ends
  rw [finishes] at again
  cases again
  rfl

/-- Two programs that keep to the two sides of one script. -/
theorem Plays.settles {first : Transport (Peer S) α}
    {second : Transport (Peer T) β} {session after : S} {other answered : T}
    {script : Script UInt8} {value : α} {answer : β}
    (plays : Plays first session script value after)
    (answers : Plays second other (script.map Move.flip) answer answered)
    (streaming : Streaming first) (answering : Streaming second)
    {exchange : Exchange UInt8}
    (reaches : Exchange.Reaches (party session streaming)
      (party other answering) (.talking .nothing) exchange) :
    Settles session other streaming answering value answer exchange := by
  obtain ⟨known, rest⟩ :=
    plays.follows.course answers.follows streaming answering
  have ended := answers.ends
  rw [Script.receivedBy_flip] at ended
  have arrives := Exchange.arrived_of_reaches reaches
  have within := Arrived.within_of_reaches rest arrives
  obtain ⟨completes, unique⟩ := Arrived.settles known rest arrives
  have unfinished {later : Exchange UInt8}
      (further : Exchange.Reaches (party session streaming)
        (party other answering) exchange later) :=
    (Exchange.leftUnfinished_talking .nothing).of_reaches
      (reaches.trans further)
  refine ⟨?_, ?_, ?_, ?_, ?_, ?_⟩
  · obtain ⟨arrived, firstLeft, secondLeft⟩ := exchange
    rintro rfl rfl
    exact ⟨_, Exchange.reaches_talking completes, rest⟩
  · intro quiet
    rw [unique quiet]
    exact ⟨plays.ends, ended⟩
  · exact plays.only streaming within.toFirst
  · apply answers.only answering
    rw [Script.receivedBy_flip]
    exact within.toSecond
  · intro left later further
    exact (unfinished further).first ((Exchange.left_stays further).1 left)
  · intro left later further
    exact (unfinished further).second ((Exchange.left_stays further).2 left)

end Peer

end GothamRelay
