import GothamRelay.Mailbox.System

namespace GothamRelay

open Data

/-! Where the envelopes of a batch go. -/

variable {Id χ : Type}

inductive Answered (host : MailboxHost Id χ) (binding : List UInt8)
    (mailbox : host.api.Mailbox) (bytes : List UInt8) (now : Nat) :
    MailboxResponse × host.api.Mailbox → Prop where
  | deposit {id : Id} {sealed : Envelope} {ttlSecs : Nat}
      {response : MailboxResponse} {after : host.api.Mailbox}
      (request : host.api.requestFromBytes bytes =
        .ok (.deposit id sealed ttlSecs))
      (stored : (host.api.deposit mailbox id sealed now ttlSecs).2 = after)
      (plain : ∀ sealed more, response ≠ .delivery sealed more) :
      Answered host binding mailbox bytes now (response, after)
  | fetch {id : Id} {auth : host.api.Auth}
      (request : host.api.requestFromBytes bytes =
        .ok (.fetch id (some auth)))
      (proven : host.api.proves host.hostSk auth binding id = true) :
      Answered host binding mailbox bytes now
        (.delivery
          (host.api.fetchBatch mailbox id now mailboxFetchBudget).1.1
          (host.api.fetchBatch mailbox id now mailboxFetchBudget).1.2,
        (host.api.fetchBatch mailbox id now mailboxFetchBudget).2)
  | refuse (error : MailboxWireError) :
      Answered host binding mailbox bytes now (.error error, mailbox)

theorem answered_respond {host : MailboxHost Id χ}
    (strict : host.allowUnauthenticatedFetch = false) (binding : List UInt8)
    (mailbox : host.api.Mailbox) (bytes : List UInt8) (now : Nat) :
    Answered host binding mailbox bytes now
      (host.respond binding mailbox bytes now) := by
  cases decoded : host.api.requestFromBytes bytes with
  | error error =>
      simp only [MailboxHost.respond, decoded]
      exact .refuse .malformed
  | ok request =>
      cases request with
      | deposit id sealed ttlSecs =>
          simp only [MailboxHost.respond, decoded]
          split <;> rename_i taken <;>
            refine .deposit decoded (congrArg Prod.snd taken) ?_ <;>
            intro envelopes more same <;> cases same
      | fetch id auth =>
          cases auth with
          | none =>
              simp only [MailboxHost.respond, decoded, strict]
              exact .refuse .unauthorized
          | some auth =>
              simp only [MailboxHost.respond, decoded]
              split
              · rename_i proven
                exact .fetch decoded proven
              · exact .refuse .unauthorized
      | fetchWithSurb id surb auth =>
          simp only [MailboxHost.respond, decoded]
          exact .refuse .malformed

namespace MailboxState

variable {host : MailboxHost Id χ}

def Fetched (state : MailboxState host) (batch : Nat) (id : Id)
    (channel : Channel host.api) (sealed : List Envelope) : Prop :=
  state.log[batch]? = some (.fetched id channel sealed)

/-- Every batch that a party still holds, and every batch the log says was
sent or put back, is traced to the fetch it comes from. -/
structure Traced (state : MailboxState host) : Prop where
  writing : ∀ {index : Nat} {connection sealed more batch},
    state.connections[index]? = some connection →
      connection.phase = .writing (.delivery sealed more) batch →
        ∃ id, state.Fetched batch id (.connection index) sealed
  shipping : ∀ {task : Nat} {id surb sealed more now batch taken},
    state.tasks[task]? =
        some (Task.shipping id surb sealed more now batch taken) →
      state.Fetched batch id (.surb surb) sealed
  returning : ∀ {task : Nat} {id sealed now batch taken},
    state.tasks[task]? = some (Task.returning id sealed now batch taken) →
      ∃ surb, state.Fetched batch id (.surb surb) sealed
  sent : ∀ {batch channel sealed},
    .sent batch channel sealed ∈ state.log →
      ∃ id, state.Fetched batch id channel sealed
  returned : ∀ {batch id sealed}, .returned batch id sealed ∈ state.log →
    ∃ surb, state.Fetched batch id (.surb surb) sealed

theorem Fetched.mono {before after : MailboxState host} {batch : Nat}
    {id : Id} {channel : Channel host.api} {sealed : List Envelope}
    {events : List (Event host.api)}
    (logged : after.log = before.log ++ events)
    (fetched : before.Fetched batch id channel sealed) :
    after.Fetched batch id channel sealed := by
  rw [Fetched, logged,
    List.getElem?_append_left (List.getElem?_eq_some_iff.mp fetched).1]
  exact fetched

private theorem fetched_last {before after : MailboxState host} {id : Id}
    {channel : Channel host.api} {sealed : List Envelope}
    (logged : after.log = before.log ++ [.fetched id channel sealed]) :
    after.Fetched before.log.length id channel sealed := by
  rw [Fetched, logged, List.getElem?_append_right (Nat.le_refl _),
    Nat.sub_self, List.getElem?_cons_zero]

theorem Traced.extend {before after : MailboxState host}
    (traced : before.Traced) {events : List (Event host.api)}
    (logged : after.log = before.log ++ events)
    (writing : ∀ {index : Nat} {connection sealed more batch},
      after.connections[index]? = some connection →
        connection.phase = .writing (.delivery sealed more) batch →
          before.connections[index]? = some connection ∨
            ∃ id, after.Fetched batch id (.connection index) sealed)
    (shipping : ∀ {task : Nat} {id surb sealed more now batch taken},
      after.tasks[task]? =
          some (Task.shipping id surb sealed more now batch taken) →
        before.tasks[task]? =
            some (Task.shipping id surb sealed more now batch taken) ∨
          after.Fetched batch id (.surb surb) sealed)
    (returning : ∀ {task : Nat} {id sealed now batch taken},
      after.tasks[task]? = some (Task.returning id sealed now batch taken) →
        before.tasks[task]? = some (Task.returning id sealed now batch taken) ∨
          ∃ surb, after.Fetched batch id (.surb surb) sealed)
    (sent : ∀ {batch channel sealed}, .sent batch channel sealed ∈ events →
      ∃ id, before.Fetched batch id channel sealed)
    (returned : ∀ {batch id sealed}, .returned batch id sealed ∈ events →
      ∃ surb, before.Fetched batch id (.surb surb) sealed) :
    after.Traced where
  writing found phase := by
    cases writing found phase with
    | inl old =>
        obtain ⟨id, fetched⟩ := traced.writing old phase
        exact ⟨id, fetched.mono logged⟩
    | inr fresh => exact fresh
  shipping found := by
    cases shipping found with
    | inl old => exact (traced.shipping old).mono logged
    | inr fresh => exact fresh
  returning found := by
    cases returning found with
    | inl old =>
        obtain ⟨surb, fetched⟩ := traced.returning old
        exact ⟨surb, fetched.mono logged⟩
    | inr fresh => exact fresh
  sent member := by
    rw [logged, List.mem_append] at member
    obtain ⟨id, fetched⟩ := member.elim traced.sent sent
    exact ⟨id, fetched.mono logged⟩
  returned member := by
    rw [logged, List.mem_append] at member
    obtain ⟨surb, fetched⟩ := member.elim traced.returned returned
    exact ⟨surb, fetched.mono logged⟩

theorem waiting_of_set {before after : MailboxState host} {task : Nat}
    {next : Task host.api} (tasks : after.tasks = before.tasks.set task next)
    (other : next.isFetch = false) {position : Nat} {id : Id}
    {surb : host.api.Surb}
    (found : after.tasks[position]? = some (Task.fetch id surb)) :
    position ≠ task ∧
      before.tasks[position]? = some (Task.fetch id surb) := by
  rw [tasks] at found
  cases getElem?_set_cases found with
  | inl here =>
      rw [← here.2] at other
      cases other
  | inr old => exact old

/-! ## Every batch is traced -/

private theorem request_log {state : MailboxState host} {index : Nat}
    {bytes : List UInt8} {now : Nat} {connection : Connection χ} :
    ∃ events, (state.request index bytes now connection).log =
        state.log ++ events ∧
      (∀ {batch channel sealed}, .sent batch channel sealed ∉ events) ∧
      (∀ {batch id sealed}, .returned batch id sealed ∉ events) := by
  rw [request]
  split
  · exact ⟨[], (List.append_nil _).symm, nofun, nofun⟩
  · refine ⟨_, rfl, ?_, ?_⟩ <;> intros <;>
      rw [MailboxHost.requestEvents.eq_def] <;> split <;> simp

theorem Traced.request (strict : host.allowUnauthenticatedFetch = false)
    {state : MailboxState host} (traced : state.Traced) (index : Nat)
    (bytes : List UInt8) (now : Nat) (connection : Connection χ) :
    (state.request index bytes now connection).Traced := by
  obtain ⟨events, logged, noSent, noReturned⟩ := @request_log _ _ _ state
    index bytes now connection
  refine traced.extend logged ?_ ?_ ?_ (fun member => absurd member noSent)
    (fun member => absurd member noReturned)
  · intro other found sealed more batch position phase
    rw [MailboxState.request] at position logged ⊢
    split at position
    · rename_i full
      cases getElem?_set_cases position with
      | inl here =>
          rw [here.2] at phase
          cases phase
      | inr old => exact .inl old.2
    · rename_i room
      cases getElem?_set_cases position with
      | inl here =>
          right
          rw [here.2] at phase
          simp only [Phase.writing.injEq] at phase
          obtain ⟨delivered, rfl⟩ := phase
          rw [if_neg room, here.1]
          generalize answer : host.respond connection.binding state.mailbox
            bytes now = answered at delivered
          have possible := answered_respond strict connection.binding
            state.mailbox bytes now
          rw [answer] at possible
          cases possible with
          | deposit request stored plain =>
              exact absurd delivered (plain _ _)
          | refuse error => cases delivered
          | @fetch id auth request proven =>
              cases delivered
              refine ⟨id, fetched_last ?_⟩
              simp only [MailboxHost.requestEvents, request]
      | inr old => exact .inl old.2
  · intro task id surb sealed more later batch taken found
    rw [MailboxState.request] at found
    split at found <;> exact .inl found
  · intro task id sealed later batch taken found
    rw [MailboxState.request] at found
    split at found <;> exact .inl found

theorem Traced.reply {state : MailboxState host} (traced : state.Traced)
    {index : Nat} {connection : Connection χ} {response : MailboxResponse}
    {batch : Nat} (found : state.connections[index]? = some connection)
    (pending : connection.phase = .writing response batch) :
    (state.reply index connection response batch).Traced := by
  refine traced.extend rfl ?_ (fun found => .inl found)
    (fun found => .inl found) ?_ ?_
  · intro other later sealed more number position phase
    cases getElem?_set_cases position with
    | inl here =>
        rw [here.2] at phase
        dsimp only at phase
        split at phase <;> cases phase
    | inr old => exact .inl old.2
  · intro number channel sealed member
    rw [MailboxHost.sentEvents.eq_def] at member
    split at member
    · cases List.mem_singleton.mp member
      exact traced.writing found pending
    · cases member
  · intro number id sealed member
    rw [MailboxHost.sentEvents.eq_def] at member
    split at member
    · cases List.mem_singleton.mp member
    · cases member

theorem Traced.setTask {state after : MailboxState host}
    (traced : state.Traced) {task : Nat} {next : Task host.api}
    {events : List (Event host.api)}
    (logged : after.log = state.log ++ events)
    (connections : after.connections = state.connections)
    (tasks : after.tasks = state.tasks.set task next)
    (shipping : ∀ {id surb sealed more now batch taken},
      next = .shipping id surb sealed more now batch taken →
        after.Fetched batch id (.surb surb) sealed)
    (returning : ∀ {id sealed now batch taken},
      next = .returning id sealed now batch taken →
        ∃ surb, after.Fetched batch id (.surb surb) sealed)
    (sent : ∀ {batch channel sealed}, .sent batch channel sealed ∈ events →
      ∃ id, state.Fetched batch id channel sealed)
    (returned : ∀ {batch id sealed}, .returned batch id sealed ∈ events →
      ∃ surb, state.Fetched batch id (.surb surb) sealed) :
    after.Traced := by
  refine traced.extend logged ?_ ?_ ?_ sent returned
  · intro index connection sealed more batch found phase
    exact .inl (connections ▸ found)
  · intro other id surb sealed more now batch taken found
    rw [tasks] at found
    cases getElem?_set_cases found with
    | inl here => exact .inr (shipping here.2.symm)
    | inr old => exact .inl old.2
  · intro other id sealed now batch taken found
    rw [tasks] at found
    cases getElem?_set_cases found with
    | inl here => exact .inr (returning here.2.symm)
    | inr old => exact .inl old.2

theorem Traced.drain {state : MailboxState host} (traced : state.Traced)
    (task now : Nat) (id : Id) (surb : host.api.Surb) :
    (state.drain task now id surb).Traced := by
  refine traced.setTask rfl rfl rfl ?_ ?_ (by simp) (by simp)
  · intro other channel sealed more later batch taken next
    split at next <;> cases next
    exact fetched_last rfl
  · intro other sealed later batch taken next
    split at next <;> cases next

theorem Traced.ship {state : MailboxState host} (traced : state.Traced)
    {task : Nat} (succeeds : Bool) {id : Id} {surb : host.api.Surb}
    {sealed : List Envelope} {more : Bool} {now batch : Nat}
    {taken : List Stored}
    (found : state.tasks[task]? =
      some (.shipping id surb sealed more now batch taken)) :
    (state.ship task succeeds id surb sealed more now batch taken).Traced := by
  have fetched := traced.shipping found
  rw [MailboxState.ship]
  split
  · refine traced.setTask (List.append_nil _).symm rfl rfl nofun ?_ nofun
      nofun
    intro other envelopes later number entries next
    cases next
    exact ⟨surb, fetched⟩
  · cases succeeds with
    | true =>
        refine traced.setTask rfl rfl rfl nofun nofun ?_ (by simp)
        intro number channel envelopes member
        simp only [List.mem_cons, List.not_mem_nil, reduceCtorEq, or_false]
          at member
        cases member
        exact ⟨id, fetched⟩
    | false =>
        refine traced.setTask rfl rfl rfl nofun ?_ ?_ (by simp)
        · intro other envelopes later number entries next
          cases next
          exact ⟨surb, fetched.mono rfl⟩
        · intro number channel envelopes member
          cases List.mem_singleton.mp member
          exact ⟨id, fetched⟩

theorem Traced.of_stepped (strict : host.allowUnauthenticatedFetch = false)
    {before after : MailboxState host} {action : MailboxAction χ}
    (traced : before.Traced) (stepped : Stepped before action after) :
    after.Traced := by
  cases stepped with
  | connect binding stream =>
      refine traced.extend (List.append_nil _).symm ?_ (fun found => .inl found)
        (fun found => .inl found) nofun nofun
      intro index connection sealed more batch found phase
      cases getElem?_append_singleton_cases found with
      | inl fresh =>
          rw [fresh] at phase
          cases phase
      | inr old => exact .inl old
  | request bytes now found => exact traced.request strict _ bytes now _
  | reply found pending => exact traced.reply found pending
  | refuse found =>
      refine traced.extend (List.append_nil _).symm ?_ (fun found => .inl found)
        (fun found => .inl found) nofun nofun
      intro index connection sealed more batch position phase
      cases getElem?_set_cases position with
      | inl here =>
          rw [here.2] at phase
          cases phase
      | inr old => exact .inl old.2
  | ignore => exact traced
  | spawn spawned =>
      have spawns := MailboxHost.spawns_of_handle spawned
      refine traced.extend (List.append_nil _).symm
        (fun found _ => .inl found) ?_ ?_ nofun nofun
      · intro task id surb sealed more now batch taken found
        cases getElem?_append_singleton_cases found with
        | inl fresh =>
            rw [← fresh] at spawns
            cases spawns
        | inr old => exact .inl old
      · intro task id sealed now batch taken found
        cases getElem?_append_singleton_cases found with
        | inl fresh =>
            rw [← fresh] at spawns
            cases spawns
        | inr old => exact .inl old
  | runDeposit now found =>
      refine traced.setTask rfl rfl rfl nofun nofun ?_ ?_ <;> intros <;>
        rename_i member <;> split at member <;> simp at member
  | drain now found => exact traced.drain _ now _ _
  | ship succeeds found => exact traced.ship succeeds found
  | redeposit found =>
      refine traced.setTask rfl rfl rfl nofun nofun (by simp) ?_
      intro batch id sealed member
      cases List.mem_singleton.mp member
      exact traced.returning found
  | prune now =>
      exact traced.extend (List.append_nil _).symm
        (fun found _ => .inl found) (fun found => .inl found)
        (fun found => .inl found) nofun nofun

end MailboxState

end GothamRelay
