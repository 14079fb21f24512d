import GothamRelay.Cover.Loop

namespace GothamRelay.CoverLoop

open Data

/-! Every packet that is pushed is handed to the client once and in its turn,
and its channel gets the result of its own send. -/

variable {Mode ρ : Type}

def handed (state : CoverLoop Mode ρ) : List Ticket :=
  state.calls.filterMap LoopCall.source

def delivery (entry : Ticket × Except String Unit) :
    Option (Nat × Except String Unit) :=
  if entry.1.1.done then some (entry.1.2, entry.1.1.report entry.2) else none

def receivedBy (received : List (Nat × Except String Unit)) (number : Nat) :
    List (Except String Unit) :=
  (received.filter fun value => value.1 = number).map Prod.snd

structure Faithful (config : CoverConfig Mode ρ)
    (state : CoverLoop Mode ρ) : Prop where
  conserved : state.handed ++ state.queue = state.pushed.zipIdx
  called : ∀ made ∈ state.calls, ∀ ticket, made.source = some ticket →
    made.call = ticket.1.clientCall config.defaultHopCount
  answered : state.handed =
    state.finished.map Prod.fst ++ state.phase.inFlight
  delivered : state.received = state.finished.filterMap delivery
  expecting : state.phase.expecting = true → state.queue ≠ []
  counted : state.calls.length = state.ticks + state.phase.sending

private theorem faithful_start (config : CoverConfig Mode ρ) :
    Faithful config (start : CoverLoop Mode ρ) where
  conserved := rfl
  called _ member := absurd member List.not_mem_nil
  answered := rfl
  delivered := rfl
  expecting expects := Bool.noConfusion expects
  counted := rfl

section Steps

variable {config : CoverConfig Mode ρ} {state : CoverLoop Mode ρ}

theorem Faithful.push (faithful : Faithful config state)
    (packet : QueuedPacket) :
    Faithful config { state with
      queue := state.queue ++ [(packet, state.pushed.length)]
      pushed := state.pushed ++ [packet] } where
  conserved := by
    change state.handed ++ (state.queue ++ _) = _
    rw [← List.append_assoc, faithful.conserved, List.zipIdx_append,
      Nat.zero_add]
    rfl
  called := faithful.called
  answered := faithful.answered
  delivered := faithful.delivered
  expecting _ empty := by simp at empty
  counted := faithful.counted

theorem Faithful.move (faithful : Faithful config state)
    {phase : LoopPhase Mode} (idle : state.phase.sending = 0)
    (next : phase.sending = 0)
    (expecting : phase.expecting = true →
      state.phase.expecting = true ∨ state.queue ≠ []) :
    Faithful config (state.setPhase phase) where
  conserved := faithful.conserved
  called := faithful.called
  answered := by
    change state.handed = _ ++ phase.inFlight
    rw [faithful.answered, LoopPhase.inFlight_of_not_sending idle,
      LoopPhase.inFlight_of_not_sending next]
    rfl
  delivered := faithful.delivered
  expecting expects := by
    cases expecting expects with
    | inl before => exact faithful.expecting before
    | inr queued => exact queued
  counted := by
    change state.calls.length = state.ticks + phase.sending
    rw [faithful.counted, idle, next]

private theorem handed_concat (calls : List (LoopCall ρ)) (made : LoopCall ρ) :
    (calls ++ [made]).filterMap LoopCall.source =
      calls.filterMap LoopCall.source ++ made.source.toList := by
  rw [List.filterMap_append]
  cases source : made.source with
  | none => simp [source]
  | some ticket => simp [source]

private theorem Faithful.called_concat (faithful : Faithful config state)
    {made : LoopCall ρ}
    (agrees : ∀ ticket, made.source = some ticket →
      made.call = ticket.1.clientCall config.defaultHopCount) :
    ∀ other ∈ state.calls ++ [made], ∀ ticket,
      other.source = some ticket →
        other.call = ticket.1.clientCall config.defaultHopCount := by
  intro other member
  cases List.mem_append.mp member with
  | inl old => exact faithful.called other old
  | inr new =>
      rw [List.mem_singleton.mp new]
      exact agrees

theorem Faithful.pop (faithful : Faithful config state) (rng : ρ)
    {ticket : Ticket} {queue : List Ticket}
    (popping : state.phase = .popping)
    (first : state.queue = ticket :: queue) :
    Faithful config { state with
      queue
      phase := .sendingReal ticket
      calls := state.calls ++
        [{ source := some ticket
           call := ticket.1.clientCall config.defaultHopCount
           rng }] } where
  conserved := by
    rw [handed, handed_concat, List.append_assoc]
    exact (congrArg (state.handed ++ ·) first).symm.trans faithful.conserved
  called := faithful.called_concat (by
    intro other same
    cases same
    rfl)
  answered := by
    have answered := faithful.answered
    rw [popping] at answered
    rw [handed, handed_concat]
    exact congrArg (· ++ [ticket]) (answered.trans (List.append_nil _))
  delivered := faithful.delivered
  expecting := nofun
  counted := by
    have counted := faithful.counted
    rw [popping] at counted
    rw [List.length_append, counted]
    rfl

theorem Faithful.decoy (faithful : Faithful config state) (rng : ρ)
    (payload : List UInt8) (decoying : state.phase = .decoying) :
    Faithful config { state with
      phase := .sendingDecoy
      calls := state.calls ++
        [{ source := none
           call := .send config.defaultHopCount payload
           rng }] } where
  conserved := by
    rw [handed, handed_concat]
    exact (congrArg (· ++ state.queue) (List.append_nil _)).trans
      faithful.conserved
  called := faithful.called_concat (by
    intro other same
    cases same)
  answered := by
    have answered := faithful.answered
    rw [decoying] at answered
    rw [handed, handed_concat]
    exact (List.append_nil _).trans answered
  delivered := faithful.delivered
  expecting := nofun
  counted := by
    have counted := faithful.counted
    rw [decoying] at counted
    rw [List.length_append, counted]
    rfl

theorem Faithful.sent (faithful : Faithful config state) {ticket : Ticket}
    (result : Except String Unit)
    (sending : state.phase = .sendingReal ticket) :
    Faithful config { state.finish with
      finished := state.finished ++ [(ticket, result)]
      received := state.received ++
        (if ticket.1.done then [(ticket.2, ticket.1.report result)]
        else []) } where
  conserved := faithful.conserved
  called := faithful.called
  answered := by
    have answered := faithful.answered
    rw [sending] at answered
    rw [List.map_append]
    exact answered.trans (List.append_nil _).symm
  delivered := by
    rw [List.filterMap_append, ← faithful.delivered]
    change state.received ++ _ = state.received ++ _
    congr 1
    cases done : ticket.1.done with
    | false => simp [delivery, done]
    | true => simp [delivery, done]
  expecting := nofun
  counted := by
    have counted := faithful.counted
    rw [sending] at counted
    exact counted

theorem Faithful.decoyed (faithful : Faithful config state)
    (sending : state.phase = .sendingDecoy) :
    Faithful config state.finish where
  conserved := faithful.conserved
  called := faithful.called
  answered := by
    have answered := faithful.answered
    rw [sending] at answered
    exact answered
  delivered := faithful.delivered
  expecting := nofun
  counted := by
    have counted := faithful.counted
    rw [sending] at counted
    exact counted

theorem Faithful.of_stepped (faithful : Faithful config state)
    {action : LoopAction ρ} {after : CoverLoop Mode ρ}
    (stepped : Stepped config state action after) :
    Faithful config after := by
  cases stepped with
  | push packet => exact faithful.push packet
  | cancel =>
      exact ⟨faithful.conserved, faithful.called, faithful.answered,
        faithful.delivered, faithful.expecting, faithful.counted⟩
  | move idle next expecting => exact faithful.move idle next expecting
  | starve rng popping empty =>
      -- Nobody else takes from the queue, so what was seen is still there.
      have expects := faithful.expecting
      rw [popping] at expects
      exact absurd empty (expects rfl)
  | pop rng popping first => exact faithful.pop rng popping first
  | decoy rng decoying => exact faithful.decoy _ _ decoying
  | sent result sending => exact faithful.sent result sending
  | decoyed result sending => exact faithful.decoyed sending

end Steps

/-! ## The channels -/

private theorem receivedBy_of_absent
    {finished : List (Ticket × Except String Unit)}
    {number : Nat} (absent : number ∉ finished.map fun entry => entry.1.2) :
    receivedBy (finished.filterMap delivery) number = [] := by
  rw [receivedBy, List.map_eq_nil_iff, List.filter_eq_nil_iff]
  intro value member same
  obtain ⟨entry, finishedEntry, gives⟩ := List.mem_filterMap.mp member
  apply absent
  rw [delivery] at gives
  split at gives <;> cases gives
  rw [← of_decide_eq_true same]
  exact List.mem_map_of_mem finishedEntry

private theorem receivedBy_of_mem
    {finished : List (Ticket × Except String Unit)}
    (distinct : (finished.map fun entry => entry.1.2).Nodup)
    {ticket : Ticket} {result : Except String Unit}
    (member : (ticket, result) ∈ finished) :
    receivedBy (finished.filterMap delivery) ticket.2 =
      if ticket.1.done then [ticket.1.report result] else [] := by
  induction finished with
  | nil => exact absurd member List.not_mem_nil
  | cons entry finished ih =>
      obtain ⟨single, distinct⟩ := List.nodup_cons.mp distinct
      cases List.mem_cons.mp member with
      | inl here =>
          subst entry
          have rest := receivedBy_of_absent single
          rw [receivedBy] at rest ⊢
          cases done : ticket.1.done with
          | false => simp [delivery, done, rest]
          | true => simp [delivery, done, rest]
      | inr later =>
          have other : entry.1.2 ≠ ticket.2 := by
            intro same
            apply single
            change entry.1.2 ∈ finished.map fun entry => entry.1.2
            rw [same]
            exact List.mem_map_of_mem later
          rw [← ih distinct later, receivedBy, receivedBy]
          cases done : entry.1.1.done with
          | false => simp [delivery, done]
          | true => simp [delivery, done, other]

private theorem Faithful.numbers_nodup {config : CoverConfig Mode ρ}
    {state : CoverLoop Mode ρ} (faithful : Faithful config state) :
    ((state.finished.map Prod.fst ++ state.phase.inFlight ++
      state.queue).map Prod.snd).Nodup := by
  rw [← faithful.answered, faithful.conserved, List.zipIdx_map_snd]
  exact List.nodup_range'

private theorem Faithful.receivedBy_waiting {config : CoverConfig Mode ρ}
    {state : CoverLoop Mode ρ} (faithful : Faithful config state)
    {ticket : Ticket}
    (waiting : ticket ∈ state.phase.inFlight ++ state.queue) :
    receivedBy state.received ticket.2 = [] := by
  have distinct := faithful.numbers_nodup
  rw [List.append_assoc, List.map_append, List.map_map,
    List.nodup_append] at distinct
  rw [faithful.delivered]
  apply receivedBy_of_absent
  intro finished
  exact distinct.2.2 _ finished _ (List.mem_map_of_mem waiting) rfl

private theorem Faithful.receivedBy_finished {config : CoverConfig Mode ρ}
    {state : CoverLoop Mode ρ} (faithful : Faithful config state)
    {ticket : Ticket} {result : Except String Unit}
    (finished : (ticket, result) ∈ state.finished) :
    receivedBy state.received ticket.2 =
      if ticket.1.done then [ticket.1.report result] else [] := by
  have distinct := faithful.numbers_nodup
  rw [List.append_assoc, List.map_append, List.map_map] at distinct
  rw [faithful.delivered]
  exact receivedBy_of_mem distinct.of_append_left finished

theorem faithful_of_trace {config : CoverConfig Mode ρ}
    {actions : List (LoopAction ρ)} {state : CoverLoop Mode ρ}
    (trace : Trace (step config) (fun _ _ => True) start actions state) :
    Faithful config state := by
  apply trace.invariant fun _ state => Faithful config state
  · exact faithful_start config
  · intro _ _ _ _ faithful _ taken
    exact faithful.of_stepped (stepped_of_step taken)

/-- Nothing is lost, sent twice or out of turn; each packet is sent as it asks
to be; its channel gets the one result of its own send; and every turn that
was completed made one call. -/
theorem cover_loop_hands_over_in_order {config : CoverConfig Mode ρ}
    {actions : List (LoopAction ρ)} {state : CoverLoop Mode ρ}
    (trace : Trace (step config) (fun _ _ => True) start actions state) :
    state.handed ++ state.queue = state.pushed.zipIdx ∧
    (∀ made ∈ state.calls, ∀ packet number,
      made.source = some (packet, number) →
        made.call =
          match packet.exit with
          | some exit => .sendToExit
              (packet.hops.getD config.defaultHopCount) exit packet.payload
          | none => .send (packet.hops.getD config.defaultHopCount)
              packet.payload) ∧
    state.handed = state.finished.map Prod.fst ++ state.phase.inFlight ∧
    (∀ packet number, (packet, number) ∈ state.phase.inFlight ++ state.queue →
      receivedBy state.received number = []) ∧
    (∀ packet number result, ((packet, number), result) ∈ state.finished →
      receivedBy state.received number =
        if packet.done then
          [match result with
          | .ok () => .ok ()
          | .error error =>
              match packet.exit with
              | some _ => .error ("cover loop deposit send: " ++ error)
              | none => .error ("cover loop real send: " ++ error)]
        else []) ∧
    state.calls.length = state.ticks + state.phase.sending := by
  have faithful := faithful_of_trace trace
  refine ⟨faithful.conserved, ?_, faithful.answered, ?_, ?_,
    faithful.counted⟩
  · intro made member packet number source
    exact faithful.called made member (packet, number) source
  · intro packet number waiting
    exact faithful.receivedBy_waiting waiting
  · intro packet number result finished
    have received := faithful.receivedBy_finished finished
    rw [QueuedPacket.report_eq] at received
    exact received

def sampleDescriptor : RelayDescriptor where
  kemPubkeyBytes := .ok (Bytes.replicate 32 1)
  hasRendezvous := false
  ipv4Octets := .ok (Bytes.replicate 4 10)
  port := .ok 443
  addr := .ok (.v4 ⟨Bytes.replicate 4 10, 443⟩)

def sampleDeposit : QueuedPacket := ⟨[2], none, some sampleDescriptor, true⟩

/-- A packet for an exit is pushed while the loop takes another, its own send
fails, and the handle is stopped while a packet is in the queue. -/
def sampleActions : List (LoopAction Unit) :=
  [.push ⟨[1], some 4, none, true⟩, .arm 100 true (), .wake, .check,
    .intend (), .push sampleDeposit, .pop (), .sendReturns (.ok ()),
    .arm 100 true (), .wake, .check, .intend (), .pop (),
    .push ⟨[3], none, none, false⟩, .cancel,
    .sendReturns (.error "no route"), .arm 100 true (), .stop]

def sampleEnd : CoverLoop Unit Unit :=
  (Trace.exec (step .plain) start sampleActions).getD start

theorem sampleActions_hand_over_in_order :
    sampleEnd.pushed.length = 3 ∧ sampleEnd.ticks = 2 ∧
      sampleEnd.handed ++ sampleEnd.queue = sampleEnd.pushed.zipIdx ∧
      receivedBy sampleEnd.received 1 =
        [.error ("cover loop deposit send: " ++ "no route")] ∧
      receivedBy sampleEnd.received 2 = [] := by
  obtain ⟨conserved, _, _, waiting, answered, _⟩ :=
    cover_loop_hands_over_in_order
      (Trace.of_possible (by decide +kernel) : Trace (step .plain)
        (fun _ _ => True) start sampleActions sampleEnd)
  refine ⟨by decide +kernel, by decide +kernel, conserved, ?_, ?_⟩
  · exact answered sampleDeposit 1 (.error "no route")
      (List.mem_cons_of_mem _ List.mem_cons_self)
  · exact waiting ⟨[3], none, none, false⟩ 2 List.mem_cons_self

end GothamRelay.CoverLoop
