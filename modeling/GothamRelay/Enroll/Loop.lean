import Mathlib.Data.List.DropRight
import Mathlib.Data.List.Infix
import GothamRelay.Data.Bytes
import GothamRelay.Data.Transition
import GothamRelay.Time

namespace GothamRelay

open Data

/-! `run_enrollment_loop` as the steps of its task, which is run again and
again. -/

/-- `SystemTime`, in nanoseconds since the Unix epoch. The time since then fits
a `Duration`. -/
structure SystemTime where
  nanos : Int
  fits : nanos < UInt64.size * nanosPerSec
  deriving DecidableEq

def nowUnix (now : SystemTime) : UInt64 :=
  if 0 ≤ now.nanos then UInt64.ofNat (now.nanos.toNat / nanosPerSec) else 1

/-- `str::trim_end_matches`. -/
def trimEndMatches (text : String) (char : Char) : String :=
  String.ofList (text.toList.rdropWhile (· == char))

/-- `char::is_whitespace`. -/
def isWhitespace (char : Char) : Bool :=
  let code := char.toNat
  (9 ≤ code && code ≤ 13) || (0x2000 ≤ code && code ≤ 0x200A) ||
    [0x20, 0x85, 0xA0, 0x1680, 0x2028, 0x2029, 0x202F, 0x205F, 0x3000].contains
      code

/-- `str::trim`. -/
def trim (text : String) : String :=
  String.ofList ((text.toList.dropWhile isWhitespace).rdropWhile isWhitespace)

inductive RelayTier where
  | entry
  | mix
  | exit
  deriving DecidableEq, Repr

structure EnrollConfig where
  authorityUrl : String
  extraAuthorityUrls : List String
  advertiseAddr : String
  kemPubkeyHex : String
  tier : RelayTier
  token : Option String
  country : Option String
  operator : Option String
  heartbeat : Duration
  rendezvous : Option String
  rendezvousCapable : Bool
  mailbox : Bool
  relaySk : Bytes 32
  authorityPopPk : Option (Bytes 32)

/-- The heartbeat that `main` makes of its argument. -/
def heartbeatFromSecs (heartbeatSecs : UInt64) : Duration :=
  Duration.fromSecs (max heartbeatSecs.toNat 1)

theorem one_le_heartbeatFromSecs (heartbeatSecs : UInt64) :
    Duration.fromSecs 1 ≤ heartbeatFromSecs heartbeatSecs :=
  Nat.mul_le_mul_right _ (Nat.le_max_right _ _)

/-- The record of `crypto_gotham::enroll`, of which every `with_` function sets
one field. -/
structure RelayEnrollment where
  kemPubkeyHex : String
  advertiseAddr : String
  tier : RelayTier
  country : Option String
  operator : Option String
  seq : UInt64
  attestEpoch : Option UInt64
  rendezvous : Option String
  rendezvousCapable : Bool
  mailbox : Bool
  popProof : Option String
  deriving DecidableEq, Repr

structure EnrollCrypto where
  newEnrollment : String → String → RelayTier → Option String →
    Option String → UInt64 → RelayEnrollment
  seq_newEnrollment : ∀ kemPubkeyHex advertiseAddr tier country operator seq,
    (newEnrollment kemPubkeyHex advertiseAddr tier country operator seq).seq =
      seq
  hexDecode : String → Option (List UInt8)
  hexEncode : List UInt8 → String
  diffieHellman : Bytes 32 → Bytes 32 → Bytes 32
  bindingHash : RelayEnrollment → Bytes 32
  popTagV2 : Bytes 32 → Bytes 32 → List UInt8
  currentAttestEpoch : UInt64 → UInt64

/-- An answer to a request. The body is missing if it could not be read. -/
structure HttpResponse where
  success : Bool
  body : Option String

structure AuthorityTarget where
  baseUrl : String
  enrollUrl : String
  popPk : Option (Bytes 32)
  pinned : Bool

def AuthorityTarget.new (url : String) (popPk : Option (Bytes 32)) :
    AuthorityTarget :=
  let base := trimEndMatches url '/'
  { baseUrl := base
    enrollUrl := base ++ "/enroll"
    popPk
    pinned := popPk.isSome }

namespace EnrollCrypto

variable (crypto : EnrollCrypto)

/-- `<[u8; 32]>::try_from` of what a text decodes to. -/
def decodeKey (text : String) : Option (Bytes 32) := do
  let bytes ← crypto.hexDecode text
  if size : bytes.length = 32 then some ⟨bytes, size⟩ else none

def fetchAuthorityPopPk (response : Option HttpResponse) :
    Option (Bytes 32) := do
  let resp ← response
  if !resp.success then none
  let body ← resp.body
  crypto.decodeKey (trim body)

def attachPopProof (enrollment : RelayEnrollment) (cfg : EnrollConfig)
    (popPk : Bytes 32) : RelayEnrollment :=
  match crypto.decodeKey cfg.kemPubkeyHex with
  | none => enrollment
  | some _ =>
      let shared := crypto.diffieHellman cfg.relaySk popPk
      let tag := crypto.popTagV2 shared (crypto.bindingHash enrollment)
      { enrollment with popProof := some (crypto.hexEncode tag) }

def baseEnrollment (cfg : EnrollConfig) (seq epoch : UInt64) :
    RelayEnrollment :=
  let advertise := if cfg.rendezvous.isSome then "" else cfg.advertiseAddr
  let fresh := crypto.newEnrollment cfg.kemPubkeyHex advertise cfg.tier
    cfg.country cfg.operator seq
  let dated := { fresh with attestEpoch := some epoch }
  let reachable := match cfg.rendezvous with
    | some rendezvous => { dated with rendezvous := some rendezvous }
    | none => dated
  let capable := if cfg.rendezvousCapable then
      { reachable with rendezvousCapable := true }
    else reachable
  if cfg.mailbox then { capable with mailbox := true } else capable

def enrollmentFor (cfg : EnrollConfig) (base : RelayEnrollment)
    (target : AuthorityTarget) : RelayEnrollment :=
  match target.popPk with
  | some popPk => crypto.attachPopProof base cfg popPk
  | none => base

end EnrollCrypto

def EnrollConfig.targets (cfg : EnrollConfig) : List AuthorityTarget :=
  .new cfg.authorityUrl cfg.authorityPopPk ::
    cfg.extraAuthorityUrls.map fun url => .new url none

namespace AuthorityTarget

/-- A target without a key asks for it, and `response` is the answer. -/
def provisioned (crypto : EnrollCrypto) (target : AuthorityTarget)
    (response : Option HttpResponse) : AuthorityTarget :=
  if target.popPk.isNone then
    { target with popPk := crypto.fetchAuthorityPopPk response }
  else target

def rejected (target : AuthorityTarget) (body : Option String) :
    AuthorityTarget :=
  if !target.pinned ∧
      "possession proof".toList <:+: (body.getD "").toList then
    { target with popPk := none }
  else target

def answered (target : AuthorityTarget) :
    Option HttpResponse → AuthorityTarget × Bool
  | none => (target, false)
  | some response =>
      if response.success then (target, true)
      else (target.rejected response.body, false)

end AuthorityTarget

/-! ## The system -/

/-- Where the task is: in a sleep, at the head of the loop, or at the target of
an index, before its enrollment is sent or after. -/
inductive EnrollPhase where
  | sleeping (delay : Duration)
  | looping
  | visiting (base : RelayEnrollment) (index : Nat) (anyOk : Bool)
  | awaiting (base : RelayEnrollment) (index : Nat) (anyOk : Bool)

structure EnrollRun where
  cfg : EnrollConfig
  targets : List AuthorityTarget
  seq : UInt64
  settled : Bool
  retry : Duration
  phase : EnrollPhase

def firstEnrollRetry : Duration := Duration.fromSecs 5

def firstEnrollRetryMax : Duration := Duration.fromSecs 60

namespace EnrollRun

def start (cfg : EnrollConfig) (now : SystemTime) : EnrollRun where
  cfg
  targets := cfg.targets
  seq := nowUnix now
  settled := false
  retry := firstEnrollRetry
  phase := if cfg.rendezvous.isSome then .sleeping (Duration.fromSecs 3)
    else .looping

def finishRound (run : EnrollRun) (anyOk : Bool) : EnrollRun :=
  let next := { run with
    seq := saturatingAdd run.seq 1
    settled := anyOk || run.settled }
  if next.settled then
    { next with phase := .sleeping run.cfg.heartbeat }
  else
    { next with
      phase := .sleeping run.retry
      retry := min (run.retry * 2) firstEnrollRetryMax }

end EnrollRun

structure SentEnrollment where
  enrollUrl : String
  token : Option String
  enrollment : RelayEnrollment
  sentAt : SystemTime

structure EnrollRound where
  run : Nat
  seq : UInt64
  epoch : UInt64
  sent : List SentEnrollment

/-- The relay over all of its runs. `clock` is the time of the last step, `runs`
the number of runs, and `rounds` the history, the latest round first. -/
structure Enroller where
  clock : SystemTime
  runs : Nat
  run : Option EnrollRun
  rounds : List EnrollRound

inductive EnrollEvent where
  | disabled
  | start (cfg : EnrollConfig)
  | wake
  | beginRound
  | visit (popResponse : Option HttpResponse)
  | answer (response : Option HttpResponse)
  | finishRound
  | crash

structure EnrollAction where
  now : SystemTime
  event : EnrollEvent

namespace Enroller

def start (clock : SystemTime) : Enroller where
  clock
  runs := 0
  run := none
  rounds := []

def record (sent : SentEnrollment) : List EnrollRound → List EnrollRound
  | [] => []
  | round :: earlier =>
      { round with sent := round.sent ++ [sent] } :: earlier

def moveTo (state : Enroller) (now : SystemTime) (run : Option EnrollRun) :
    Enroller :=
  { state with clock := now, run }

def stepRun (crypto : EnrollCrypto) (state : Enroller) (run : EnrollRun)
    (now : SystemTime) : EnrollEvent → Option Enroller
  | .wake =>
      match run.phase with
      | .sleeping _ =>
          some (state.moveTo now (some { run with phase := .looping }))
      | _ => none
  | .beginRound =>
      match run.phase with
      | .looping =>
          let epoch := crypto.currentAttestEpoch (nowUnix now)
          let base := crypto.baseEnrollment run.cfg run.seq epoch
          let next := { run with phase := .visiting base 0 false }
          some { state.moveTo now (some next) with
            rounds := ⟨state.runs, run.seq, epoch, []⟩ :: state.rounds }
      | _ => none
  | .visit popResponse =>
      match run.phase with
      | .visiting base index anyOk =>
          (run.targets[index]?).map fun target =>
            let target := target.provisioned crypto popResponse
            let sent :=
              { enrollUrl := target.enrollUrl
                token := run.cfg.token
                enrollment := crypto.enrollmentFor run.cfg base target
                sentAt := now }
            let next := { run with
              targets := run.targets.set index target
              phase := .awaiting base index anyOk }
            { state.moveTo now (some next) with
              rounds := record sent state.rounds }
      | _ => none
  | .answer response =>
      match run.phase with
      | .awaiting base index anyOk =>
          (run.targets[index]?).map fun target =>
            let answered := target.answered response
            state.moveTo now (some { run with
              targets := run.targets.set index answered.1
              phase := .visiting base (index + 1) (answered.2 || anyOk) })
      | _ => none
  | .finishRound =>
      match run.phase with
      | .visiting _ index anyOk =>
          if index < run.targets.length then none
          else some (state.moveTo now (some (run.finishRound anyOk)))
      | _ => none
  | .crash => some (state.moveTo now none)
  | _ => none

/-- `disabled` is a run that cannot build its HTTP client. -/
def step (crypto : EnrollCrypto) (state : Enroller) (action : EnrollAction) :
    Option Enroller :=
  match state.run with
  | some run => state.stepRun crypto run action.now action.event
  | none =>
      match action.event with
      | .start cfg =>
          let run := EnrollRun.start cfg action.now
          some { state.moveTo action.now (some run) with
            runs := state.runs + 1 }
      | .disabled => some (state.moveTo action.now none)
      | _ => none

/-! ## What one step can be -/

inductive Stepped (crypto : EnrollCrypto) (state : Enroller)
    (now : SystemTime) : EnrollEvent → Enroller → Prop where
  | disabled (down : state.run = none) :
      Stepped crypto state now .disabled (state.moveTo now none)
  | start (cfg : EnrollConfig) (down : state.run = none) :
      Stepped crypto state now (.start cfg)
        { state.moveTo now (some (.start cfg now)) with
          runs := state.runs + 1 }
  | wake {run : EnrollRun} {delay : Duration} (up : state.run = some run)
      (asleep : run.phase = .sleeping delay) :
      Stepped crypto state now .wake
        (state.moveTo now (some { run with phase := .looping }))
  | beginRound {run : EnrollRun} {epoch : UInt64} (up : state.run = some run)
      (ready : run.phase = .looping) :
      Stepped crypto state now .beginRound
        { state.moveTo now (some { run with
            phase := .visiting
              (crypto.baseEnrollment run.cfg run.seq epoch) 0 false }) with
          rounds := ⟨state.runs, run.seq, epoch, []⟩ :: state.rounds }
  | visit (popResponse : Option HttpResponse) {run : EnrollRun}
      {base : RelayEnrollment} {index : Nat} {anyOk : Bool}
      {target : AuthorityTarget} {targets : List AuthorityTarget}
      (up : state.run = some run)
      (here : run.phase = .visiting base index anyOk) :
      Stepped crypto state now (.visit popResponse)
        { state.moveTo now (some { run with
            targets, phase := .awaiting base index anyOk }) with
          rounds := record
            { enrollUrl := target.enrollUrl
              token := run.cfg.token
              enrollment := crypto.enrollmentFor run.cfg base target
              sentAt := now } state.rounds }
  | answer (response : Option HttpResponse) {run : EnrollRun}
      {base : RelayEnrollment} {index : Nat} {anyOk nextOk : Bool}
      {targets : List AuthorityTarget} (up : state.run = some run)
      (here : run.phase = .awaiting base index anyOk) :
      Stepped crypto state now (.answer response)
        (state.moveTo now (some { run with
          targets, phase := .visiting base (index + 1) nextOk }))
  | finishRound {run : EnrollRun} {base : RelayEnrollment} {index : Nat}
      {anyOk : Bool} (up : state.run = some run)
      (here : run.phase = .visiting base index anyOk) :
      Stepped crypto state now .finishRound
        (state.moveTo now (some (run.finishRound anyOk)))
  | crash : Stepped crypto state now .crash (state.moveTo now none)

private theorem stepped_of_stepRun {crypto : EnrollCrypto}
    {state after : Enroller}
    {run : EnrollRun} {now : SystemTime} {event : EnrollEvent}
    (up : state.run = some run)
    (stepped : state.stepRun crypto run now event = some after) :
    Stepped crypto state now event after := by
  cases event with
  | disabled => cases stepped
  | start cfg => cases stepped
  | crash =>
      cases stepped
      exact .crash
  | wake =>
      cases phase : run.phase with
      | sleeping delay =>
          simp only [stepRun, phase] at stepped
          cases stepped
          exact .wake up phase
      | _ => simp [stepRun, phase] at stepped
  | beginRound =>
      cases phase : run.phase with
      | looping =>
          simp only [stepRun, phase] at stepped
          cases stepped
          exact .beginRound up phase
      | _ => simp [stepRun, phase] at stepped
  | visit popResponse =>
      cases phase : run.phase with
      | visiting base index anyOk =>
          simp only [stepRun, phase] at stepped
          obtain ⟨target, _, rfl⟩ := Option.map_eq_some_iff.mp stepped
          exact .visit popResponse up phase
      | _ => simp [stepRun, phase] at stepped
  | answer response =>
      cases phase : run.phase with
      | awaiting base index anyOk =>
          simp only [stepRun, phase] at stepped
          obtain ⟨target, _, rfl⟩ := Option.map_eq_some_iff.mp stepped
          exact .answer response up phase
      | _ => simp [stepRun, phase] at stepped
  | finishRound =>
      cases phase : run.phase with
      | visiting base index anyOk =>
          simp only [stepRun, phase] at stepped
          split at stepped
          · cases stepped
          · cases stepped
            exact .finishRound up phase
      | _ => simp [stepRun, phase] at stepped

theorem stepped_of_step {crypto : EnrollCrypto} {state after : Enroller}
    {action : EnrollAction} (stepped : step crypto state action = some after) :
    Stepped crypto state action.now action.event after := by
  obtain ⟨now, event⟩ := action
  cases up : state.run with
  | some run =>
      simp only [step, up] at stepped
      exact stepped_of_stepRun up stepped
  | none =>
      cases event with
      | start cfg =>
          simp only [step, up] at stepped
          cases stepped
          exact .start cfg up
      | disabled =>
          simp only [step, up] at stepped
          cases stepped
          exact .disabled up
      | _ => simp [step, up] at stepped

end Enroller

end GothamRelay
