import GothamRelay.Enroll.Loop

namespace GothamRelay

open Data

/-! The numbers of the rounds increase over all runs, since they never run
ahead of the clock. -/

section Clock

variable {earlier later : SystemTime}

private theorem toNat_nowUnix (since : 0 ≤ earlier.nanos) :
    (nowUnix earlier).toNat = earlier.nanos.toNat / nanosPerSec := by
  have bound := earlier.fits
  have fits : earlier.nanos.toNat / nanosPerSec < UInt64.size := by
    rw [Nat.div_lt_iff_lt_mul (by decide)]
    omega
  rw [nowUnix, if_pos since]
  exact UInt64.toNat_ofNat_of_lt' fits

private theorem nowUnix_le_of_slept (since : 0 ≤ earlier.nanos) {delay : Nat}
    (slept : earlier.nanos + delay ≤ later.nanos) :
    (nowUnix earlier).toNat + Duration.asSecs delay ≤ (nowUnix later).toNat := by
  have sum : earlier.nanos.toNat + delay ≤ later.nanos.toNat := by omega
  rw [toNat_nowUnix since, toNat_nowUnix (by omega), Duration.asSecs]
  unfold nanosPerSec
  omega

private theorem nowUnix_le (since : 0 ≤ earlier.nanos)
    (ordered : earlier.nanos ≤ later.nanos) :
    nowUnix earlier ≤ nowUnix later := by
  have slept : earlier.nanos + (0 : Nat) ≤ later.nanos := by omega
  have advanced := nowUnix_le_of_slept since slept
  exact UInt64.le_iff_toNat_le.mpr (Nat.le_of_add_right_le advanced)

end Clock

namespace Enroller

def lastSent : List EnrollRound → Option SentEnrollment
  | [] => none
  | round :: earlier => round.sent.getLast?.or (lastSent earlier)

def sleeping (state : Enroller) : Option Duration :=
  match state.run with
  | none => none
  | some run =>
      match run.phase with
      | .sleeping delay => some delay
      | _ => none

/-- The clock does not go back and goes on by every sleep, the heartbeat is at
least a second, and a run starts in a later second than the one in which an
enrollment was last sent. -/
def Steady (state : Enroller) (action : EnrollAction) : Prop :=
  state.clock.nanos ≤ action.now.nanos ∧
    match action.event with
    | .start cfg =>
        Duration.fromSecs 1 ≤ cfg.heartbeat ∧
          ∀ last ∈ lastSent state.rounds,
            nowUnix last.sentAt < nowUnix action.now
    | .wake =>
        ∀ delay ∈ state.sleeping,
          state.clock.nanos + (delay : Nat) ≤ action.now.nanos
    | _ => True

instance (state : Enroller) (action : EnrollAction) :
    Decidable (state.Steady action) := by
  unfold Steady
  cases action.event with
  | start cfg => infer_instance
  | wake => infer_instance
  | _ => infer_instance

/-! ## What every run keeps -/

/-- The number, in the run of that number, is not under that of the round. It
is above it if the round is of the same run or anything was sent in it. -/
def Follows (run : Nat) (seq : UInt64) (round : EnrollRound) : Prop :=
  round.seq ≤ seq ∧ (round.run = run ∨ round.sent ≠ [] → round.seq < seq)

private theorem follows_of_lt {run : Nat} {seq : UInt64} {round : EnrollRound}
    (below : round.seq < seq) : Follows run seq round :=
  ⟨UInt64.le_of_lt below, fun _ => below⟩

def Fresh (rounds : List EnrollRound) (run : Nat) (seq : UInt64) : Prop :=
  ∀ round ∈ rounds, Follows run seq round

def Increasing (rounds : List EnrollRound) : Prop :=
  rounds.Pairwise fun later earlier => Follows later.run later.seq earlier

structure Carries (round : EnrollRound) (sent : SentEnrollment) : Prop where
  seq : sent.enrollment.seq = round.seq
  epoch : sent.enrollment.attestEpoch = some round.epoch
  dated : round.seq ≤ nowUnix sent.sentAt

/-- The latest round is the one that goes on, and `base` is its enrollment. -/
def Current (rounds : List EnrollRound) (run : Nat) (seq : UInt64)
    (base : RelayEnrollment) : Prop :=
  ∃ round earlier, rounds = round :: earlier ∧ round.run = run ∧
    round.seq = seq ∧ base.seq = seq ∧ base.attestEpoch = some round.epoch

/-- Where the number stands. In a sleep it may be ahead of the clock, by no
more than the sleep, and it has not saturated if the clock can go on for so
long. -/
def Placed (clock : SystemTime) (rounds : List EnrollRound) (run : Nat)
    (seq : UInt64) : EnrollPhase → Prop
  | .sleeping delay =>
      (nowUnix clock).toNat + delay.asSecs < UInt64.size →
        Fresh rounds run seq ∧
          seq.toNat ≤ (nowUnix clock).toNat + delay.asSecs
  | .looping => Fresh rounds run seq ∧ seq ≤ nowUnix clock
  | .visiting base _ _ => Current rounds run seq base ∧ seq ≤ nowUnix clock
  | .awaiting base _ _ => Current rounds run seq base ∧ seq ≤ nowUnix clock

structure Paced (state : Enroller) (run : EnrollRun) : Prop where
  heartbeat : Duration.fromSecs 1 ≤ run.cfg.heartbeat
  retry : Duration.fromSecs 1 ≤ run.retry
  placed : Placed state.clock state.rounds state.runs run.seq run.phase

structure Ordered (state : Enroller) : Prop where
  since : 0 ≤ state.clock.nanos
  increasing : Increasing state.rounds
  carried : ∀ round ∈ state.rounds, ∀ sent ∈ round.sent, Carries round sent
  past : ∀ round ∈ state.rounds,
    round.run ≤ state.runs ∧ round.seq ≤ nowUnix state.clock
  paced : ∀ run, state.run = some run → Paced state run

private theorem fresh_of_lastSent {rounds : List EnrollRound} {run : Nat}
    {seq : UInt64} (increasing : Increasing rounds)
    (carried : ∀ round ∈ rounds, ∀ sent ∈ round.sent, Carries round sent)
    (past : ∀ round ∈ rounds, round.run ≠ run ∧ round.seq ≤ seq)
    (later : ∀ last ∈ lastSent rounds, nowUnix last.sentAt < seq) :
    Fresh rounds run seq := by
  -- The last enrollment was sent in the latest round that sent any, and the
  -- rounds before that one are below it.
  induction rounds with
  | nil =>
      intro round member
      exact absurd member List.not_mem_nil
  | cons latest earlier ih =>
      obtain ⟨above, increasing⟩ := List.pairwise_cons.mp increasing
      obtain ⟨other, within⟩ := past latest List.mem_cons_self
      cases last : latest.sent.getLast? with
      | none =>
          have empty := List.getLast?_eq_none_iff.mp last
          rw [lastSent, last, Option.none_or] at later
          have fresh := ih increasing
            (fun round member => carried round (List.mem_cons_of_mem _ member))
            (fun round member => past round (List.mem_cons_of_mem _ member))
            later
          intro round member
          cases member with
          | head =>
              refine ⟨within, ?_⟩
              rintro (same | nonempty)
              · exact absurd same other
              · exact absurd empty nonempty
          | tail _ old => exact fresh round old
      | some sent =>
          have dated := (carried latest List.mem_cons_self sent
            (List.mem_of_getLast? last)).dated
          rw [lastSent, last, Option.some_or] at later
          have newest : latest.seq < seq :=
            UInt64.lt_of_le_of_lt dated (later sent rfl)
          intro round member
          cases member with
          | head => exact follows_of_lt newest
          | tail _ old =>
              exact follows_of_lt
                (UInt64.lt_of_le_of_lt (above round old).1 newest)

private theorem seq_baseEnrollment (crypto : EnrollCrypto) (cfg : EnrollConfig)
    (seq epoch : UInt64) :
    (crypto.baseEnrollment cfg seq epoch).seq = seq ∧
      (crypto.baseEnrollment cfg seq epoch).attestEpoch = some epoch := by
  have fresh := crypto.seq_newEnrollment cfg.kemPubkeyHex
    (if cfg.rendezvous.isSome then "" else cfg.advertiseAddr) cfg.tier
    cfg.country cfg.operator seq
  unfold EnrollCrypto.baseEnrollment
  cases reachable : cfg.rendezvous with
  | none =>
      rw [reachable] at fresh
      cases cfg.rendezvousCapable with
      | false => cases cfg.mailbox with | _ => exact ⟨fresh, rfl⟩
      | true => cases cfg.mailbox with | _ => exact ⟨fresh, rfl⟩
  | some rendezvous =>
      rw [reachable] at fresh
      cases cfg.rendezvousCapable with
      | false => cases cfg.mailbox with | _ => exact ⟨fresh, rfl⟩
      | true => cases cfg.mailbox with | _ => exact ⟨fresh, rfl⟩

private theorem seq_enrollmentFor (crypto : EnrollCrypto) (cfg : EnrollConfig)
    (base : RelayEnrollment) (target : AuthorityTarget) :
    (crypto.enrollmentFor cfg base target).seq = base.seq ∧
      (crypto.enrollmentFor cfg base target).attestEpoch =
        base.attestEpoch := by
  unfold EnrollCrypto.enrollmentFor EnrollCrypto.attachPopProof
  cases target.popPk with
  | none => exact ⟨rfl, rfl⟩
  | some popPk =>
      cases crypto.decodeKey cfg.kemPubkeyHex with
      | none => exact ⟨rfl, rfl⟩
      | some key => exact ⟨rfl, rfl⟩

/-- What ends a round: the next number, and a sleep of a second or more. -/
structure Finished (run after : EnrollRun) : Prop where
  cfg : after.cfg = run.cfg
  seq : after.seq = saturatingAdd run.seq 1
  retry : Duration.fromSecs 1 ≤ after.retry
  sleeps : ∃ delay, after.phase = .sleeping delay ∧ 1 ≤ delay.asSecs

private theorem one_le_asSecs {delay : Duration}
    (long : Duration.fromSecs 1 ≤ delay) : 1 ≤ delay.asSecs :=
  (Nat.le_div_iff_mul_le (by decide)).mpr long

private theorem finished_finishRound {run : EnrollRun}
    (heartbeat : Duration.fromSecs 1 ≤ run.cfg.heartbeat)
    (retry : Duration.fromSecs 1 ≤ run.retry) (anyOk : Bool) :
    Finished run (run.finishRound anyOk) := by
  unfold EnrollRun.finishRound
  cases anyOk || run.settled with
  | true => exact ⟨rfl, rfl, retry, _, rfl, one_le_asSecs heartbeat⟩
  | false =>
      have doubled : Duration.fromSecs 1 ≤
          min (run.retry * 2) firstEnrollRetryMax :=
        Nat.le_min.mpr ⟨Nat.le_trans retry (Nat.le_mul_of_pos_right _ Nat.two_pos),
          by decide⟩
      exact ⟨rfl, rfl, doubled, _, rfl, one_le_asSecs retry⟩

section Steps

variable {state : Enroller} {now : SystemTime} {run : EnrollRun}

private theorem Ordered.past_later (ordered : Ordered state)
    (onward : state.clock.nanos ≤ now.nanos) :
    ∀ round ∈ state.rounds,
      round.run ≤ state.runs ∧ round.seq ≤ nowUnix now := fun round member =>
  ⟨(ordered.past round member).1,
    UInt64.le_trans (ordered.past round member).2
      (nowUnix_le ordered.since onward)⟩

theorem Ordered.stop (ordered : Ordered state)
    (onward : state.clock.nanos ≤ now.nanos) :
    Ordered (state.moveTo now none) where
  since := Int.le_trans ordered.since onward
  increasing := ordered.increasing
  carried := ordered.carried
  past := ordered.past_later onward
  paced run up := by cases up

theorem Ordered.move (ordered : Ordered state)
    (onward : state.clock.nanos ≤ now.nanos)
    (paced : Paced (state.moveTo now (some run)) run) :
    Ordered (state.moveTo now (some run)) where
  since := Int.le_trans ordered.since onward
  increasing := ordered.increasing
  carried := ordered.carried
  past := ordered.past_later onward
  paced other up := by
    cases up
    exact paced

theorem Ordered.start (ordered : Ordered state) {cfg : EnrollConfig}
    (steady : state.Steady ⟨now, .start cfg⟩) :
    Ordered { state.moveTo now (some (.start cfg now)) with
      runs := state.runs + 1 } := by
  obtain ⟨onward, heartbeat, later⟩ := steady
  have past := ordered.past_later onward
  have retry : Duration.fromSecs 1 ≤ firstEnrollRetry := by decide
  have fresh : Fresh state.rounds (state.runs + 1) (nowUnix now) := by
    refine fresh_of_lastSent ordered.increasing ordered.carried ?_ later
    intro round member
    obtain ⟨numbered, within⟩ := past round member
    exact ⟨Nat.ne_of_lt (Nat.lt_succ_of_le numbered), within⟩
  constructor
  case since => exact Int.le_trans ordered.since onward
  case increasing => exact ordered.increasing
  case carried => exact ordered.carried
  case past =>
    intro round member
    obtain ⟨numbered, within⟩ := past round member
    exact ⟨Nat.le_succ_of_le numbered, within⟩
  case paced =>
    intro other up
    cases up
    refine ⟨heartbeat, retry, ?_⟩
    unfold EnrollRun.start
    cases cfg.rendezvous with
    | none => exact ⟨fresh, UInt64.le_refl _⟩
    | some rendezvous => exact fun _ => ⟨fresh, Nat.le_add_right _ _⟩

theorem Ordered.wake (ordered : Ordered state) (up : state.run = some run)
    {delay : Duration} (asleep : run.phase = .sleeping delay)
    (steady : state.Steady ⟨now, .wake⟩) :
    Ordered (state.moveTo now (some { run with phase := .looping })) := by
  obtain ⟨onward, slept⟩ := steady
  obtain ⟨heartbeat, retry, placed⟩ := ordered.paced run up
  have sleeping : state.sleeping = some delay := by
    simp only [Enroller.sleeping, up, asleep]
  have advanced := nowUnix_le_of_slept ordered.since (slept delay sleeping)
  have possible : (nowUnix state.clock).toNat + delay.asSecs < UInt64.size :=
    Nat.lt_of_le_of_lt advanced (nowUnix now).toNat_lt_size
  rw [asleep] at placed
  obtain ⟨fresh, behind⟩ := placed possible
  exact ordered.move onward ⟨heartbeat, retry, fresh,
    UInt64.le_iff_toNat_le.mpr (Nat.le_trans behind advanced)⟩

theorem Ordered.beginRound (crypto : EnrollCrypto) (ordered : Ordered state)
    (up : state.run = some run) (ready : run.phase = .looping)
    (onward : state.clock.nanos ≤ now.nanos) (epoch : UInt64) :
    Ordered { state.moveTo now (some { run with
        phase := .visiting (crypto.baseEnrollment run.cfg run.seq epoch) 0
          false }) with
      rounds := ⟨state.runs, run.seq, epoch, []⟩ :: state.rounds } := by
  obtain ⟨heartbeat, retry, placed⟩ := ordered.paced run up
  rw [ready] at placed
  obtain ⟨fresh, behind⟩ := placed
  obtain ⟨seq, attest⟩ := seq_baseEnrollment crypto run.cfg run.seq epoch
  have behindNow := UInt64.le_trans behind (nowUnix_le ordered.since onward)
  constructor
  case since => exact Int.le_trans ordered.since onward
  case increasing => exact List.pairwise_cons.mpr ⟨fresh, ordered.increasing⟩
  case carried =>
    intro round member sent inside
    cases member with
    | head => exact absurd inside List.not_mem_nil
    | tail _ old => exact ordered.carried round old sent inside
  case past =>
    intro round member
    cases member with
    | head => exact ⟨Nat.le_refl _, behindNow⟩
    | tail _ old => exact ordered.past_later onward round old
  case paced =>
    intro other up
    cases up
    exact ⟨heartbeat, retry, ⟨_, _, rfl, rfl, rfl, seq, attest⟩, behindNow⟩

theorem Ordered.visit (ordered : Ordered state) (up : state.run = some run)
    {base : RelayEnrollment} {index : Nat} {anyOk : Bool}
    (here : run.phase = .visiting base index anyOk)
    (onward : state.clock.nanos ≤ now.nanos) {sent : SentEnrollment}
    (seq : sent.enrollment.seq = base.seq)
    (epoch : sent.enrollment.attestEpoch = base.attestEpoch)
    (sentAt : sent.sentAt = now) (targets : List AuthorityTarget) :
    Ordered { state.moveTo now (some { run with
        targets, phase := .awaiting base index anyOk }) with
      rounds := record sent state.rounds } := by
  obtain ⟨heartbeat, retry, placed⟩ := ordered.paced run up
  rw [here] at placed
  obtain ⟨⟨round, earlier, latest, same, number, based, attest⟩, behind⟩ :=
    placed
  have behindNow := UInt64.le_trans behind (nowUnix_le ordered.since onward)
  have increasing := ordered.increasing
  have carried := ordered.carried
  have past := ordered.past_later onward
  rw [latest] at increasing carried past ⊢
  constructor
  case since => exact Int.le_trans ordered.since onward
  case increasing =>
    obtain ⟨above, rest⟩ := List.pairwise_cons.mp increasing
    exact List.pairwise_cons.mpr ⟨above, rest⟩
  case carried =>
    intro other member entry inside
    cases member with
    | tail _ old =>
        exact carried other (List.mem_cons_of_mem _ old) entry inside
    | head =>
        cases List.mem_append.mp inside with
        | inl old =>
            obtain ⟨seq, epoch, dated⟩ :=
              carried round List.mem_cons_self entry old
            exact ⟨seq, epoch, dated⟩
        | inr new =>
            rw [List.mem_singleton.mp new]
            refine ⟨?_, ?_, ?_⟩
            · rw [seq, based, ← number]
            · rw [epoch, attest]
            · rw [sentAt]
              exact (past round List.mem_cons_self).2
  case past =>
    intro other member
    cases member with
    | head => exact past round List.mem_cons_self
    | tail _ old => exact past other (List.mem_cons_of_mem _ old)
  case paced =>
    intro other up
    cases up
    exact ⟨heartbeat, retry, ⟨_, _, rfl, same, number, based, attest⟩,
      behindNow⟩

theorem Ordered.answer (ordered : Ordered state) (up : state.run = some run)
    {base : RelayEnrollment} {index : Nat} {anyOk : Bool}
    (here : run.phase = .awaiting base index anyOk)
    (onward : state.clock.nanos ≤ now.nanos)
    (targets : List AuthorityTarget) (nextOk : Bool) :
    Ordered (state.moveTo now (some { run with
      targets, phase := .visiting base (index + 1) nextOk })) := by
  obtain ⟨heartbeat, retry, placed⟩ := ordered.paced run up
  rw [here] at placed
  exact ordered.move onward ⟨heartbeat, retry, placed.1,
    UInt64.le_trans placed.2 (nowUnix_le ordered.since onward)⟩

/-- The number goes on by one and the clock, before the next round, by at least
as much. -/
theorem Ordered.finishRound (ordered : Ordered state)
    (up : state.run = some run) {base : RelayEnrollment} {index : Nat}
    {anyOk : Bool} (here : run.phase = .visiting base index anyOk)
    (onward : state.clock.nanos ≤ now.nanos) :
    Ordered (state.moveTo now (some (run.finishRound anyOk))) := by
  obtain ⟨heartbeat, retry, placed⟩ := ordered.paced run up
  rw [here] at placed
  obtain ⟨⟨round, earlier, latest, _, number, _, _⟩, behind⟩ := placed
  have behindNow := UInt64.le_iff_toNat_le.mp
    (UInt64.le_trans behind (nowUnix_le ordered.since onward))
  have finished := finished_finishRound heartbeat retry anyOk
  obtain ⟨delay, asleep, long⟩ := finished.sleeps
  refine ordered.move onward ⟨?_, finished.retry, ?_⟩
  · rw [finished.cfg]
    exact heartbeat
  · rw [asleep, finished.seq]
    intro possible
    change (nowUnix now).toNat + delay.asSecs < UInt64.size at possible
    -- A clock that can still go on by a second is not at the largest number.
    have room : run.seq.toNat + (1 : UInt64).toNat < UInt64.size := by
      have one : (1 : UInt64).toNat = 1 := rfl
      omega
    have next : (saturatingAdd run.seq 1).toNat = run.seq.toNat + 1 :=
      toNat_saturatingAdd room
    have above : round.seq < saturatingAdd run.seq 1 := by
      rw [number, UInt64.lt_iff_toNat_lt]
      omega
    refine ⟨?_, ?_⟩
    · have increasing := ordered.increasing
      change Fresh state.rounds _ _
      rw [latest] at increasing ⊢
      intro other member
      cases member with
      | head => exact follows_of_lt above
      | tail _ old =>
          have below := ((List.pairwise_cons.mp increasing).1 other old).1
          exact follows_of_lt (UInt64.lt_of_le_of_lt below above)
    · change _ ≤ (nowUnix now).toNat + delay.asSecs
      omega

end Steps

theorem Ordered.of_stepped {crypto : EnrollCrypto} {state after : Enroller}
    {action : EnrollAction} (ordered : Ordered state)
    (steady : state.Steady action)
    (stepped : Stepped crypto state action.now action.event after) :
    Ordered after := by
  obtain ⟨now, event⟩ := action
  have onward : state.clock.nanos ≤ now.nanos := steady.1
  cases stepped with
  | disabled down => exact ordered.stop onward
  | crash => exact ordered.stop onward
  | start cfg down => exact ordered.start steady
  | wake up asleep => exact ordered.wake up asleep steady
  | beginRound up ready => exact ordered.beginRound crypto up ready onward _
  | visit popResponse up here =>
      obtain ⟨seq, epoch⟩ := seq_enrollmentFor crypto _ _ _
      exact ordered.visit up here onward seq epoch rfl _
  | answer response up here => exact ordered.answer up here onward _ _
  | finishRound up here => exact ordered.finishRound up here onward

private theorem ordered_start {clock : SystemTime} (since : 0 ≤ clock.nanos) :
    Ordered (start clock) where
  since
  increasing := List.Pairwise.nil
  carried _ member := absurd member List.not_mem_nil
  past _ member := absurd member List.not_mem_nil
  paced _ up := by cases up

/-! ## A relay that is started twice -/

def atSecs (secs : Int) (early : secs < UInt64.size) : SystemTime :=
  ⟨secs * nanosPerSec, Int.mul_lt_mul_of_pos_right early (by decide)⟩

def plainCrypto : EnrollCrypto where
  newEnrollment kemPubkeyHex advertiseAddr tier country operator seq :=
    ⟨kemPubkeyHex, advertiseAddr, tier, country, operator, seq, none, none,
      false, false, none⟩
  seq_newEnrollment _ _ _ _ _ _ := rfl
  hexDecode _ := some []
  hexEncode _ := ""
  diffieHellman secret _ := secret
  bindingHash _ := .replicate 32 0
  popTagV2 shared _ := shared.val
  currentAttestEpoch now := now

def plainConfig : EnrollConfig where
  authorityUrl := "https://authority.example/"
  extraAuthorityUrls := []
  advertiseAddr := "203.0.113.7:443"
  kemPubkeyHex := ""
  tier := .mix
  token := none
  country := none
  operator := none
  heartbeat := heartbeatFromSecs 0
  rendezvous := none
  rendezvousCapable := false
  mailbox := false
  relaySk := .replicate 32 9
  authorityPopPk := none

def acceptedRound (now : SystemTime) : List EnrollAction :=
  [⟨now, .beginRound⟩, ⟨now, .visit none⟩,
    ⟨now, .answer (some ⟨true, none⟩)⟩, ⟨now, .finishRound⟩]

/-- Two accepted rounds at the given times, and a crash. Then a run from the
third time on, with a round. -/
def twoRuns (first second third : SystemTime) : List EnrollAction :=
  ⟨first, .start plainConfig⟩ :: acceptedRound first ++
    ⟨second, .wake⟩ :: acceptedRound second ++
    ⟨second, .crash⟩ :: ⟨third, .start plainConfig⟩ :: acceptedRound third

/-- The first run crashes before its second round sends anything. -/
def cutShort (first second third : SystemTime) : List EnrollAction :=
  ⟨first, .start plainConfig⟩ :: acceptedRound first ++
    [⟨second, .wake⟩, ⟨second, .beginRound⟩, ⟨second, .crash⟩] ++
    ⟨third, .start plainConfig⟩ :: acceptedRound third

def endOf (clock : SystemTime) (actions : List EnrollAction) : Enroller :=
  (Trace.exec (step plainCrypto) (start clock) actions).getD (start clock)

private theorem trace_endOf {clock : SystemTime} {actions : List EnrollAction}
    (permitted : Trace.Permitted (step plainCrypto) Steady (start clock) actions)
    (possible :
      (Trace.exec (step plainCrypto) (start clock) actions).isSome) :
    Trace (step plainCrypto) Steady (start clock) actions
      (endOf clock actions) :=
  Trace.of_permitted permitted possible

abbrev ten : SystemTime := atSecs 10 (by decide)

abbrev eleven : SystemTime := atSecs 11 (by decide)

/-- From 1970 on, the number of a round is larger than that of every earlier
round of the same run, and of every round of an earlier run in which an
enrollment was sent. A round sends one number and one epoch to every
authority. -/
theorem round_numbers_increase {crypto : EnrollCrypto} {clock : SystemTime}
    (since : 0 ≤ clock.nanos) {actions : List EnrollAction} {state : Enroller}
    (trace : Trace (step crypto) Steady (start clock) actions state) :
    (state.rounds.Pairwise fun later earlier =>
      earlier.seq ≤ later.seq ∧
        (earlier.run = later.run ∨ earlier.sent ≠ [] →
          earlier.seq < later.seq)) ∧
    ∀ round ∈ state.rounds, ∀ sent ∈ round.sent,
      sent.enrollment.seq = round.seq ∧
        sent.enrollment.attestEpoch = some round.epoch := by
  have ordered : Ordered state :=
    trace.invariant (fun _ => Ordered) (ordered_start since)
      fun ordered steady stepped =>
        ordered.of_stepped steady (stepped_of_step stepped)
  refine ⟨ordered.increasing, ?_⟩
  intro round member sent inside
  have carries := ordered.carried round member sent inside
  exact ⟨carries.seq, carries.epoch⟩

theorem twoRuns_numbers_increase :
    0 ≤ ten.nanos ∧
    let final := endOf ten (twoRuns ten eleven (atSecs 12 (by decide)))
    final.rounds.map (·.seq) = [12, 11, 10] ∧
    (final.rounds.Pairwise fun later earlier =>
      earlier.seq ≤ later.seq ∧
        (earlier.run = later.run ∨ earlier.sent ≠ [] →
          earlier.seq < later.seq)) ∧
    ∀ round ∈ final.rounds, ∀ sent ∈ round.sent,
      sent.enrollment.seq = round.seq ∧
        sent.enrollment.attestEpoch = some round.epoch :=
  ⟨by decide, by decide +kernel,
    round_numbers_increase (by decide)
      (trace_endOf (by decide +kernel) (by decide +kernel))⟩

/-- A round that was cut short before it sent anything has its number used
again, and before 1970 the clock reads as one second whatever it shows, so that
the numbers run ahead of it. -/
theorem round_numbers_repeat :
    (Trace (step plainCrypto) Steady (start ten)
        (cutShort ten eleven eleven)
        (endOf ten (cutShort ten eleven eleven)) ∧
      ¬(endOf ten (cutShort ten eleven eleven)).rounds.Pairwise
        fun later earlier => earlier.seq < later.seq) ∧
    let early := atSecs (-20) (by decide)
    let actions := twoRuns early (atSecs (-19) (by decide))
      (atSecs 2 (by decide))
    Trace (step plainCrypto) Steady (start early) actions
        (endOf early actions) ∧
      (∀ round ∈ (endOf early actions).rounds, round.sent ≠ []) ∧
      ¬(endOf early actions).rounds.Pairwise
        fun later earlier => earlier.seq < later.seq :=
  ⟨⟨trace_endOf (by decide +kernel) (by decide +kernel), by decide +kernel⟩,
    trace_endOf (by decide +kernel) (by decide +kernel),
    by decide +kernel, by decide +kernel⟩

end Enroller

end GothamRelay
