import GothamRelay.Client.Seal
import GothamRelay.Data.Transition

namespace GothamRelay

open Data

/-! `spawn_cover_loop` as the steps of its task, between which producers push
and the handle is stopped. -/

inductive CoverIntent where
  | real
  | drop
  | loop
  deriving DecidableEq, Repr

/-- What is called in `crypto_gotham::cover`. -/
structure CoverScheduling (Mode ρ : Type) where
  batteryAdjusted : Mode → UInt8 → Bool → Mode
  nextInterval : Mode → ρ → Duration
  nextIntent : Mode → ρ → Bool → CoverIntent
  nextIntent_false : ∀ mode rng, nextIntent mode rng false ≠ .real

/-- `done` says whether the packet has a channel for its result. -/
structure QueuedPacket where
  payload : List UInt8
  hops : Option Nat
  exit : Option RelayDescriptor
  done : Bool

inductive ClientCall where
  | send (hopCount : Nat) (payload : List UInt8)
  | sendToExit (hopCount : Nat) (exit : RelayDescriptor)
      (payload : List UInt8)

namespace QueuedPacket

def clientCall (packet : QueuedPacket) (defaultHopCount : Nat) :
    ClientCall :=
  let hopCount := packet.hops.getD defaultHopCount
  match packet.exit with
  | some exit => .sendToExit hopCount exit packet.payload
  | none => .send hopCount packet.payload

/-- The result as the channel gets it. An error is its text. -/
def report (packet : QueuedPacket) (result : Except String Unit) :
    Except String Unit :=
  result.mapError fun error =>
    match packet.exit with
    | some _ => "cover loop deposit send: " ++ error
    | none => "cover loop real send: " ++ error

theorem report_eq (packet : QueuedPacket) (result : Except String Unit) :
    packet.report result =
      match result with
      | .ok () => .ok ()
      | .error error =>
          match packet.exit with
          | some _ => .error ("cover loop deposit send: " ++ error)
          | none => .error ("cover loop real send: " ++ error) := by
  cases result with
  | ok done => rfl
  | error error =>
      rw [report]
      split <;> rfl

end QueuedPacket

/-- A packet in the queue, with the number of packets pushed before it. -/
abbrev Ticket := QueuedPacket × Nat

inductive LoopPhase (Mode : Type) where
  | arming
  | sleeping (mode : Mode) (delay : Duration)
  | woken (mode : Mode)
  | checked (mode : Mode) (hasReal : Bool)
  | popping
  | decoying
  | sendingReal (ticket : Ticket)
  | sendingDecoy
  | stopped

/-- A call that the loop made: for which packet, if it is not a decoy, and with
which generator. -/
structure LoopCall (ρ : Type) where
  source : Option Ticket
  call : ClientCall
  rng : ρ

/-- `pushed`, `calls`, `finished`, `received` and `ticks` are the history. A
value in `received` went into the channel of the packet of that number. -/
structure CoverLoop (Mode ρ : Type) where
  queue : List Ticket
  cancelled : Bool
  phase : LoopPhase Mode
  pushed : List QueuedPacket
  calls : List (LoopCall ρ)
  finished : List (Ticket × Except String Unit)
  received : List (Nat × Except String Unit)
  ticks : Nat

inductive LoopAction (ρ : Type) where
  | push (packet : QueuedPacket)
  | cancel
  | arm (batteryPct : UInt8) (charging : Bool) (rng : ρ)
  | wake
  | stop
  | check
  | intend (rng : ρ)
  | pop (rng : ρ)
  | decoy (rng : ρ)
  | sendReturns (result : Except String Unit)

structure CoverConfig (Mode ρ : Type) where
  crypto : SealingCrypto ρ
  scheduling : CoverScheduling Mode ρ
  baseMode : Mode
  defaultHopCount : Nat

def CoverConfig.plain : CoverConfig Unit Unit where
  crypto := .plain 100
  scheduling :=
    { batteryAdjusted := fun mode _ _ => mode
      nextInterval := fun _ _ => Duration.fromSecs 1
      nextIntent := fun _ _ hasReal => if hasReal then .real else .drop
      nextIntent_false := nofun }
  baseMode := ()
  defaultHopCount := 3

namespace CoverLoop

variable {Mode ρ : Type}

def start : CoverLoop Mode ρ where
  queue := []
  cancelled := false
  phase := .arming
  pushed := []
  calls := []
  finished := []
  received := []
  ticks := 0

def setPhase (state : CoverLoop Mode ρ) (phase : LoopPhase Mode) :
    CoverLoop Mode ρ :=
  { state with phase }

def finish (state : CoverLoop Mode ρ) : CoverLoop Mode ρ :=
  { state with phase := .arming, ticks := state.ticks + 1 }

def step (config : CoverConfig Mode ρ) (state : CoverLoop Mode ρ) :
    LoopAction ρ → Option (CoverLoop Mode ρ)
  | .push packet =>
      some { state with
        queue := state.queue ++ [(packet, state.pushed.length)]
        pushed := state.pushed ++ [packet] }
  | .cancel => some { state with cancelled := true }
  | .arm batteryPct charging rng =>
      match state.phase with
      | .arming =>
          let mode := config.scheduling.batteryAdjusted config.baseMode
            batteryPct charging
          let delay := config.scheduling.nextInterval mode rng
          some (state.setPhase (.sleeping mode delay))
      | _ => none
  | .wake =>
      match state.phase with
      | .sleeping mode _ => some (state.setPhase (.woken mode))
      | _ => none
  | .stop =>
      match state.phase, state.cancelled with
      | .sleeping _ _, true => some (state.setPhase .stopped)
      | _, _ => none
  | .check =>
      match state.phase with
      | .woken mode =>
          some (state.setPhase (.checked mode (!state.queue.isEmpty)))
      | _ => none
  | .intend rng =>
      match state.phase with
      | .checked mode hasReal =>
          match config.scheduling.nextIntent mode rng hasReal with
          | .real => some (state.setPhase .popping)
          | .drop => some (state.setPhase .decoying)
          | .loop => some (state.setPhase .decoying)
      | _ => none
  | .pop rng =>
      match state.phase with
      | .popping =>
          match state.queue with
          | [] => some state.finish
          | ticket :: queue =>
              some { state with
                queue
                phase := .sendingReal ticket
                calls := state.calls ++
                  [{ source := some ticket
                     call := ticket.1.clientCall config.defaultHopCount
                     rng }] }
      | _ => none
  | .decoy rng =>
      match state.phase with
      | .decoying =>
          let dummy := buildCoverPayload config.crypto rng
          some { state with
            phase := .sendingDecoy
            calls := state.calls ++
              [{ source := none
                 call := .send config.defaultHopCount dummy.1
                 rng := dummy.2 }] }
      | _ => none
  | .sendReturns result =>
      match state.phase with
      | .sendingReal ticket =>
          some { state.finish with
            finished := state.finished ++ [(ticket, result)]
            received := state.received ++
              (if ticket.1.done then [(ticket.2, ticket.1.report result)]
              else []) }
      | .sendingDecoy => some state.finish
      | _ => none

end CoverLoop

/-! ## What one step can be -/

namespace LoopPhase

variable {Mode : Type}

def inFlight : LoopPhase Mode → List Ticket
  | .sendingReal ticket => [ticket]
  | _ => []

def sending : LoopPhase Mode → Nat
  | .sendingReal _ => 1
  | .sendingDecoy => 1
  | _ => 0

def expecting : LoopPhase Mode → Bool
  | .checked _ hasReal => hasReal
  | .popping => true
  | _ => false

theorem inFlight_of_not_sending {phase : LoopPhase Mode}
    (idle : phase.sending = 0) : phase.inFlight = [] := by
  cases phase with
  | sendingReal ticket => cases idle
  | _ => rfl

end LoopPhase

namespace CoverLoop

variable {Mode ρ : Type}

inductive Stepped (config : CoverConfig Mode ρ) (state : CoverLoop Mode ρ) :
    LoopAction ρ → CoverLoop Mode ρ → Prop where
  | push (packet : QueuedPacket) :
      Stepped config state (.push packet)
        { state with
          queue := state.queue ++ [(packet, state.pushed.length)]
          pushed := state.pushed ++ [packet] }
  | cancel : Stepped config state .cancel { state with cancelled := true }
  | move {action : LoopAction ρ} {phase : LoopPhase Mode}
      (idle : state.phase.sending = 0) (next : phase.sending = 0)
      (expecting : phase.expecting = true →
        state.phase.expecting = true ∨ state.queue ≠ []) :
      Stepped config state action (state.setPhase phase)
  | starve (rng : ρ) (popping : state.phase = .popping)
      (empty : state.queue = []) :
      Stepped config state (.pop rng) state.finish
  | pop (rng : ρ) {ticket : Ticket} {queue : List Ticket}
      (popping : state.phase = .popping)
      (first : state.queue = ticket :: queue) :
      Stepped config state (.pop rng)
        { state with
          queue
          phase := .sendingReal ticket
          calls := state.calls ++
            [{ source := some ticket
               call := ticket.1.clientCall config.defaultHopCount
               rng }] }
  | decoy (rng : ρ) (decoying : state.phase = .decoying) :
      Stepped config state (.decoy rng)
        { state with
          phase := .sendingDecoy
          calls := state.calls ++
            [{ source := none
               call := .send config.defaultHopCount
                 (buildCoverPayload config.crypto rng).1
               rng := (buildCoverPayload config.crypto rng).2 }] }
  | sent {ticket : Ticket} (result : Except String Unit)
      (sending : state.phase = .sendingReal ticket) :
      Stepped config state (.sendReturns result)
        { state.finish with
          finished := state.finished ++ [(ticket, result)]
          received := state.received ++
            (if ticket.1.done then [(ticket.2, ticket.1.report result)]
            else []) }
  | decoyed (result : Except String Unit)
      (sending : state.phase = .sendingDecoy) :
      Stepped config state (.sendReturns result) state.finish

theorem stepped_of_step {config : CoverConfig Mode ρ}
    {state after : CoverLoop Mode ρ} {action : LoopAction ρ}
    (taken : state.step config action = some after) :
    Stepped config state action after := by
  cases action with
  | push packet =>
      cases taken
      exact .push packet
  | cancel =>
      cases taken
      exact .cancel
  | arm batteryPct charging rng =>
      simp only [step] at taken
      split at taken <;> cases taken
      rename_i phase
      exact .move (by rw [phase]; rfl) rfl nofun
  | wake =>
      simp only [step] at taken
      split at taken <;> cases taken
      rename_i phase
      exact .move (by rw [phase]; rfl) rfl nofun
  | stop =>
      simp only [step] at taken
      split at taken <;> cases taken
      rename_i phase _
      exact .move (by rw [phase]; rfl) rfl nofun
  | check =>
      simp only [step] at taken
      split at taken <;> cases taken
      rename_i phase
      refine .move (by rw [phase]; rfl) rfl ?_
      intro hasReal
      refine .inr fun empty => ?_
      rw [LoopPhase.expecting, empty] at hasReal
      cases hasReal
  | intend rng =>
      simp only [step] at taken
      split at taken
      · rename_i mode hasReal phase
        have idle : state.phase.sending = 0 := by rw [phase]; rfl
        cases intent : config.scheduling.nextIntent mode rng hasReal with
        | real =>
            rw [intent] at taken
            cases taken
            refine .move idle rfl ?_
            intro _
            rw [phase]
            cases hasReal with
            | false =>
                exact absurd intent
                  (config.scheduling.nextIntent_false mode rng)
            | true => exact .inl rfl
        | drop =>
            rw [intent] at taken
            cases taken
            exact .move idle rfl nofun
        | loop =>
            rw [intent] at taken
            cases taken
            exact .move idle rfl nofun
      · cases taken
  | pop rng =>
      simp only [step] at taken
      split at taken
      · rename_i popping
        split at taken <;> cases taken
        · rename_i empty
          exact .starve rng popping empty
        · rename_i first
          exact .pop rng popping first
      · cases taken
  | decoy rng =>
      simp only [step] at taken
      split at taken <;> cases taken
      rename_i decoying
      exact .decoy rng decoying
  | sendReturns result =>
      simp only [step] at taken
      split at taken <;> cases taken
      · rename_i sending
        exact .sent result sending
      · rename_i sending
        exact .decoyed result sending

end CoverLoop

end GothamRelay
