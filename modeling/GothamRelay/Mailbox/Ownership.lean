import GothamRelay.Mailbox.Tracing

namespace GothamRelay

open Data

variable {Id χ : Type}

/-! ## Who may fetch -/

def ConnectionProves (host : MailboxHost Id χ)
    (actions : List (MailboxAction χ)) (bindings : List (List UInt8))
    (index : Nat) (id : Id) : Prop :=
  ∃ binding bytes now auth, bindings[index]? = some binding ∧
    .request index bytes now ∈ actions ∧
    host.api.requestFromBytes bytes = .ok (.fetch id (some auth)) ∧
    host.api.proves host.hostSk auth binding id = true

def SurbProves (host : MailboxHost Id χ) (actions : List (MailboxAction χ))
    (surb : host.api.Surb) (id : Id) : Prop :=
  ∃ payload surbBytes auth, .deliver .service payload ∈ actions ∧
    host.requestIn payload =
      some (.fetchWithSurb id surbBytes (some auth)) ∧
    host.api.proves host.hostSk auth
      (host.api.surbFetchBinding surbBytes) id = true ∧
    host.api.surbFromBytes surbBytes = some surb

def DepositDelivered (host : MailboxHost Id χ)
    (actions : List (MailboxAction χ)) (id : Id) (sealed : Envelope)
    (ttlSecs : Nat) : Prop :=
  ∃ handler payload, .deliver handler payload ∈ actions ∧
    host.requestIn payload = some (.deposit id sealed ttlSecs)

def Proven (host : MailboxHost Id χ) (actions : List (MailboxAction χ))
    (bindings : List (List UInt8)) (id : Id) :
    Channel host.api → Prop
  | .connection index => ConnectionProves host actions bindings index id
  | .surb surb => SurbProves host actions surb id

theorem ConnectionProves.mono {host : MailboxHost Id χ}
    {actions later : List (MailboxAction χ)}
    {bindings more : List (List UInt8)} {index : Nat} {id : Id}
    (proves : ConnectionProves host actions bindings index id) :
    ConnectionProves host (actions ++ later) (bindings ++ more) index id := by
  obtain ⟨binding, bytes, now, auth, found, asked, decoded, verified⟩ := proves
  exact ⟨binding, bytes, now, auth,
    List.getElem?_append_left (List.getElem?_eq_some_iff.mp found).1 ▸ found,
    List.mem_append_left _ asked, decoded, verified⟩

theorem SurbProves.mono {host : MailboxHost Id χ}
    {actions later : List (MailboxAction χ)} {surb : host.api.Surb} {id : Id}
    (proves : SurbProves host actions surb id) :
    SurbProves host (actions ++ later) surb id := by
  obtain ⟨payload, surbBytes, auth, delivered, rest⟩ := proves
  exact ⟨payload, surbBytes, auth, List.mem_append_left _ delivered, rest⟩

theorem Proven.mono {host : MailboxHost Id χ}
    {actions later : List (MailboxAction χ)}
    {bindings more : List (List UInt8)} {id : Id}
    {channel : Channel host.api}
    (proven : Proven host actions bindings id channel) :
    Proven host (actions ++ later) (bindings ++ more) id channel := by
  cases channel with
  | connection index => exact ConnectionProves.mono proven
  | surb surb => exact SurbProves.mono proven

/-- What a task is still to ask of the mailbox was asked by a delivery. -/
def Asked (host : MailboxHost Id χ) (actions : List (MailboxAction χ)) :
    Task host.api → Prop
  | .fetch id surb => SurbProves host actions surb id
  | .deposit id sealed ttlSecs =>
      DepositDelivered host actions id sealed ttlSecs
  | _ => True

theorem Asked.mono {host : MailboxHost Id χ}
    {actions later : List (MailboxAction χ)} {task : Task host.api}
    (asked : Asked host actions task) : Asked host (actions ++ later) task := by
  cases task with
  | fetch id surb => exact SurbProves.mono asked
  | deposit id sealed ttlSecs =>
      obtain ⟨handler, payload, delivered, request⟩ := asked
      exact ⟨handler, payload, List.mem_append_left _ delivered, request⟩
  | shipping id surb sealed more now batch taken => trivial
  | returning id sealed now batch taken => trivial
  | finished => trivial

namespace MailboxState

variable {host : MailboxHost Id χ}

def bindings (state : MailboxState host) : List (List UInt8) :=
  state.connections.map Connection.binding

/-- Every fetch that was made was proven, and the tasks do what deliveries
asked for. -/
structure Justified (actions : List (MailboxAction χ))
    (state : MailboxState host) : Prop where
  fetched : ∀ {id channel sealed}, .fetched id channel sealed ∈ state.log →
    Proven host actions state.bindings id channel
  waiting : ∀ task ∈ state.tasks, Asked host actions task

/-! ## Every fetch is proven -/

private theorem bindings_of_set {before after : MailboxState host} {index : Nat}
    {connection : Connection χ} {served : Nat} {stream : χ} {phase : Phase}
    (connections : after.connections = before.connections.set index
      ⟨connection.binding, served, stream, phase⟩)
    (found : before.connections[index]? = some connection) :
    after.bindings = before.bindings := by
  obtain ⟨inside, value⟩ := List.getElem?_eq_some_iff.mp found
  rw [bindings, connections, List.map_set, ← value, bindings]
  have unchanged := @List.set_getElem_self _
    (before.connections.map Connection.binding) index
    (by rw [List.length_map]; exact inside)
  rw [List.getElem_map] at unchanged
  exact unchanged

private theorem getElem?_bindings {state : MailboxState host} {index : Nat}
    {connection : Connection χ}
    (found : state.connections[index]? = some connection) :
    state.bindings[index]? = some connection.binding := by
  rw [bindings, List.getElem?_map, found]
  rfl

private theorem bindings_of_stepped {before after : MailboxState host}
    {action : MailboxAction χ} (stepped : Stepped before action after) :
    ∃ more, after.bindings = before.bindings ++ more := by
  cases stepped with
  | connect binding stream => exact ⟨[binding], by simp [bindings]⟩
  | request bytes now found =>
      refine ⟨[], ?_⟩
      rw [List.append_nil, request]
      split
      · exact bindings_of_set rfl found
      · exact bindings_of_set rfl found
  | reply found pending =>
      exact ⟨[], (bindings_of_set rfl found).trans
        (List.append_nil _).symm⟩
  | refuse found =>
      exact ⟨[], (bindings_of_set rfl found).trans
        (List.append_nil _).symm⟩
  | ship succeeds found =>
      refine ⟨[], ?_⟩
      rw [List.append_nil, ship]
      split
      · rfl
      · split <;> rfl
  | ignore => exact ⟨[], (List.append_nil _).symm⟩
  | spawn spawned => exact ⟨[], (List.append_nil _).symm⟩
  | runDeposit now found => exact ⟨[], (List.append_nil _).symm⟩
  | drain now found => exact ⟨[], (List.append_nil _).symm⟩
  | redeposit found => exact ⟨[], (List.append_nil _).symm⟩
  | prune now => exact ⟨[], (List.append_nil _).symm⟩

theorem Justified.extend {actions : List (MailboxAction χ)}
    {before after : MailboxState host} {action : MailboxAction χ}
    (justified : Justified actions before)
    (stepped : Stepped before action after)
    {events : List (Event host.api)}
    (logged : after.log = before.log ++ events)
    (fetched : ∀ {id channel sealed}, .fetched id channel sealed ∈ events →
      Proven host (actions ++ [action]) after.bindings id channel)
    (waiting : ∀ task ∈ after.tasks, task ∈ before.tasks ∨
      Asked host (actions ++ [action]) task) :
    Justified (actions ++ [action]) after where
  fetched member := by
    obtain ⟨more, bindings⟩ := bindings_of_stepped stepped
    rw [logged, List.mem_append] at member
    cases member with
    | inl old =>
        rw [bindings]
        exact (justified.fetched old).mono
    | inr fresh => exact fetched fresh
  waiting task member := by
    cases waiting task member with
    | inl old => exact (justified.waiting task old).mono
    | inr fresh => exact fresh

theorem Justified.quiet {actions : List (MailboxAction χ)}
    {before after : MailboxState host} {action : MailboxAction χ}
    (justified : Justified actions before)
    (stepped : Stepped before action after) (logged : after.log = before.log)
    (waiting : ∀ task ∈ after.tasks, task ∈ before.tasks ∨
      Asked host (actions ++ [action]) task) :
    Justified (actions ++ [action]) after :=
  justified.extend stepped (logged.trans (List.append_nil _).symm)
    (fun member => absurd member List.not_mem_nil) waiting

private theorem asked_of_set {before after : MailboxState host} {task : Nat}
    {next : Task host.api} (tasks : after.tasks = before.tasks.set task next)
    {actions : List (MailboxAction χ)} (asked : Asked host actions next) :
    ∀ other ∈ after.tasks,
      other ∈ before.tasks ∨ Asked host actions other := by
  intro other member
  rw [tasks] at member
  rcases List.mem_or_eq_of_mem_set member with old | rfl
  · exact .inl old
  · exact .inr asked

theorem Justified.request (strict : host.allowUnauthenticatedFetch = false)
    {actions : List (MailboxAction χ)} {state : MailboxState host}
    (justified : Justified actions state) {index : Nat} (bytes : List UInt8)
    (now : Nat) {connection : Connection χ}
    (found : state.connections[index]? = some connection) :
    Justified (actions ++ [.request index bytes now])
      (state.request index bytes now connection) := by
  have stepped : Stepped state (.request index bytes now)
      (state.request index bytes now connection) := .request bytes now found
  by_cases full : connection.served + 1 > maxMailboxRequestsPerConn
  · rw [MailboxState.request, if_pos full] at stepped ⊢
    exact justified.quiet stepped rfl (fun _ => .inl)
  · rw [MailboxState.request, if_neg full] at stepped ⊢
    refine justified.extend stepped rfl ?_ (fun _ => .inl)
    intro id channel sealed member
    have possible := answered_respond strict connection.binding state.mailbox
      bytes now
    generalize host.respond connection.binding state.mailbox bytes now =
      answered at possible member
    cases possible with
    | deposit request stored plain =>
        rw [MailboxHost.requestEvents.eq_def, request] at member
        split at member <;> simp_all
    | refuse error =>
        rw [MailboxHost.requestEvents.eq_def] at member
        split at member <;> simp_all
    | fetch request proven =>
        simp only [MailboxHost.requestEvents, request,
          List.mem_singleton] at member
        cases member
        refine ⟨connection.binding, bytes, now, _, ?_,
          List.mem_append_right _ List.mem_cons_self, request, proven⟩
        exact (congrArg (·[index]?) (bindings_of_set rfl found)).trans
          (getElem?_bindings found)

theorem Justified.drain {actions : List (MailboxAction χ)}
    {state : MailboxState host} (justified : Justified actions state)
    {task : Nat} (now : Nat) {id : Id} {surb : host.api.Surb}
    (found : state.tasks[task]? = some (.fetch id surb)) :
    Justified (actions ++ [.drain task now])
      (state.drain task now id surb) := by
  refine justified.extend (.drain now found) rfl ?_ ?_
  · intro other channel sealed member
    cases List.mem_singleton.mp member
    exact (justified.waiting _ (List.mem_of_getElem? found)).mono
  · apply asked_of_set rfl
    split <;> trivial

theorem Justified.ship {actions : List (MailboxAction χ)}
    {state : MailboxState host} (justified : Justified actions state)
    {task : Nat} (succeeds : Bool) {id : Id} {surb : host.api.Surb}
    {sealed : List Envelope} {more : Bool} {now batch : Nat}
    {taken : List Stored}
    (found : state.tasks[task]? =
      some (.shipping id surb sealed more now batch taken)) :
    Justified (actions ++ [.ship task succeeds])
      (state.ship task succeeds id surb sealed more now batch taken) := by
  have stepped : Stepped state (.ship task succeeds)
      (state.ship task succeeds id surb sealed more now batch taken) :=
    .ship succeeds found
  rw [MailboxState.ship.eq_def] at stepped ⊢
  split at stepped
  · exact justified.quiet stepped rfl (asked_of_set rfl (by trivial))
  · cases succeeds with
    | true =>
        exact justified.extend stepped rfl (by simp)
          (asked_of_set rfl (by trivial))
    | false =>
        exact justified.extend stepped rfl (by simp)
          (asked_of_set rfl (by trivial))

theorem Justified.of_stepped
    (strict : host.allowUnauthenticatedFetch = false)
    {actions : List (MailboxAction χ)} {before after : MailboxState host}
    {action : MailboxAction χ} (justified : Justified actions before)
    (stepped : Stepped before action after) :
    Justified (actions ++ [action]) after := by
  have silent := stepped
  cases stepped with
  | connect binding stream =>
      exact justified.quiet silent rfl (fun _ => .inl)
  | request bytes now found => exact justified.request strict bytes now found
  | reply found pending =>
      refine justified.extend silent rfl ?_ (fun _ => .inl)
      intro id channel sealed member
      rw [MailboxHost.sentEvents.eq_def] at member
      split at member <;> simp at member
  | refuse found =>
      exact justified.quiet silent rfl (fun _ => .inl)
  | ignore =>
      exact justified.quiet silent rfl (fun _ => .inl)
  | spawn spawned =>
      refine justified.quiet silent rfl ?_
      intro task member
      cases List.mem_append.mp member with
      | inl old => exact .inl old
      | inr fresh =>
          right
          rw [List.mem_singleton.mp fresh]
          cases MailboxHost.spawns_of_handle spawned with
          | deposit request =>
              exact ⟨_, _, List.mem_append_right _ List.mem_cons_self,
                request⟩
          | fetch request proven parsed =>
              exact ⟨_, _, _, List.mem_append_right _ List.mem_cons_self,
                request, proven, parsed⟩
  | runDeposit now found =>
      refine justified.extend silent rfl ?_ (asked_of_set rfl (by trivial))
      intro id channel sealed member
      split at member <;> simp at member
  | drain now found => exact justified.drain now found
  | ship succeeds found => exact justified.ship succeeds found
  | redeposit found =>
      exact justified.extend silent rfl (by simp)
        (asked_of_set rfl (by trivial))
  | prune now => exact justified.quiet silent rfl (fun _ => .inl)

/-! ## What a step takes out of the mailbox -/

private theorem stored_le_deposit (store : MailboxStore Id)
    (mailbox : store.Mailbox)
    (id : Id) (envelope : Envelope) (now ttl : Nat) (other : Id) :
    store.stored mailbox other ≤
      store.stored (store.deposit mailbox id envelope now ttl).2 other := by
  by_cases same : other = id
  · subst other
    cases result : (store.deposit mailbox id envelope now ttl).1 with
    | ok =>
        rw [store.deposit_ok result]
        exact Multiset.le_cons_self _ _
    | error error => rw [store.deposit_error result]
  · rw [store.deposit_other same]

private theorem stored_le_depositAll (store : MailboxStore Id) (id : Id)
    (now : Nat)
    (mailbox : store.Mailbox) (sealed : List Envelope) (other : Id) :
    store.stored mailbox other ≤
      store.stored (MailboxHost.depositAll store id now mailbox sealed)
        other := by
  induction sealed generalizing mailbox with
  | nil => exact le_rfl
  | cons envelope sealed ih =>
      exact (stored_le_deposit store mailbox id envelope now 0 other).trans
        (ih _)

def Removes (before after : MailboxState host) (id : Id)
    (channel : Channel host.api) : Prop :=
  ∃ taken : List Stored,
    after.log = before.log ++ [.fetched id channel (taken.map Stored.sealed)] ∧
    host.api.stored before.mailbox id =
      (taken : Multiset Stored) + host.api.stored after.mailbox id

def Expires (before after : MailboxState host) (id : Id) (now : Nat) : Prop :=
  host.api.stored after.mailbox id =
    (host.api.stored before.mailbox id).filter fun entry =>
      entry.unexpired now

private theorem removes_of_request
    (strict : host.allowUnauthenticatedFetch = false)
    {state : MailboxState host} {index : Nat} {bytes : List UInt8} {now : Nat}
    {connection : Connection χ} {id : Id}
    (lost : ¬ host.api.stored state.mailbox id ≤ host.api.stored
      (state.request index bytes now connection).mailbox id) :
    state.Removes (state.request index bytes now connection) id
      (.connection index) := by
  rw [request] at lost ⊢
  by_cases full : connection.served + 1 > maxMailboxRequestsPerConn
  · rw [if_pos full] at lost
    exact absurd le_rfl lost
  · rw [if_neg full] at lost ⊢
    have possible := answered_respond strict connection.binding state.mailbox
      bytes now
    generalize host.respond connection.binding state.mailbox bytes now =
      answered at possible lost
    cases possible with
    | deposit request stored plain =>
        rw [← stored] at lost
        exact absurd (stored_le_deposit _ _ _ _ _ _ _) lost
    | refuse error => exact absurd le_rfl lost
    | @fetch owner auth request proven =>
        have own : id = owner := by
          by_contra different
          exact lost (host.api.fetch_other different).ge
        subst owner
        refine ⟨host.api.selected state.mailbox id now mailboxFetchBudget, ?_,
          host.api.fetch_removes _ _ _ _⟩
        simp only [MailboxHost.requestEvents, request,
          host.api.fetch_returns]

private theorem removes_of_drain {state : MailboxState host} {task now : Nat}
    {owner id : Id} {surb : host.api.Surb}
    (lost : ¬ host.api.stored state.mailbox id ≤ host.api.stored
      (state.drain task now owner surb).mailbox id) :
    state.Removes (state.drain task now owner surb) id (.surb surb) := by
  have own : id = owner := by
    by_contra different
    exact lost (host.api.fetch_other different).ge
  subst owner
  refine ⟨host.api.selected state.mailbox id now host.surbFetchBudget, ?_,
    host.api.fetch_removes _ _ _ _⟩
  simp only [drain, host.api.fetch_returns]

private theorem removes_of_stepped
    (strict : host.allowUnauthenticatedFetch = false)
    {before after : MailboxState host} {action : MailboxAction χ}
    (stepped : Stepped before action after) {id : Id}
    (lost : ¬ host.api.stored before.mailbox id ≤
      host.api.stored after.mailbox id) :
    (∃ now, action = .prune now ∧ before.Expires after id now) ∨
      ∃ channel, before.Removes after id channel := by
  cases stepped with
  | request bytes now found =>
      exact .inr ⟨_, removes_of_request strict lost⟩
  | runDeposit now found =>
      exact absurd (stored_le_deposit _ _ _ _ _ _ _) lost
  | drain now found => exact .inr ⟨_, removes_of_drain lost⟩
  | redeposit found =>
      exact absurd (stored_le_depositAll _ _ _ _ _ _) lost
  | prune now => exact .inl ⟨now, rfl, host.api.prune_stored _ _ _⟩
  | ship succeeds found =>
      refine absurd ?_ lost
      rw [ship]
      split
      · exact le_rfl
      · split <;> exact le_rfl
  | connect binding stream => exact absurd le_rfl lost
  | reply found pending => exact absurd le_rfl lost
  | refuse found => exact absurd le_rfl lost
  | ignore => exact absurd le_rfl lost
  | spawn spawned => exact absurd le_rfl lost

/-! ## What a step puts into the mailbox -/

/-- A deposit for `id` that a request or a delivery asked for, or envelopes of
a batch that a SURB fetch of the same id took. -/
inductive Adds (actions : List (MailboxAction χ))
    (before after : MailboxState host) (id : Id) : MailboxAction χ → Prop where
  | request {index : Nat} {bytes : List UInt8} {now : Nat} {sealed : Envelope}
      {ttlSecs : Nat}
      (decoded : host.api.requestFromBytes bytes =
        .ok (.deposit id sealed ttlSecs))
      (stored : host.api.stored after.mailbox id =
        ⟨sealed, host.api.expiry now ttlSecs⟩ ::ₘ
          host.api.stored before.mailbox id) :
      Adds actions before after id (.request index bytes now)
  | runDeposit {task now : Nat} {sealed : Envelope} {ttlSecs : Nat}
      (delivered : DepositDelivered host actions id sealed ttlSecs)
      (stored : host.api.stored after.mailbox id =
        ⟨sealed, host.api.expiry now ttlSecs⟩ ::ₘ
          host.api.stored before.mailbox id) :
      Adds actions before after id (.runDeposit task now)
  | redeposit {task now batch : Nat} {surb : host.api.Surb}
      {sealed back : List Envelope}
      (fetched : before.Fetched batch id (.surb surb) sealed)
      (part : back.Sublist sealed)
      (stored : host.api.stored after.mailbox id =
        (back.map fun envelope =>
            Stored.mk envelope (host.api.expiry now 0) : List Stored) +
          host.api.stored before.mailbox id) :
      Adds actions before after id (.redeposit task)

private theorem deposit_of_not_le (store : MailboxStore Id)
    {mailbox : store.Mailbox}
    {id other : Id} {envelope : Envelope} {now ttl : Nat}
    (grown : ¬ store.stored
      (store.deposit mailbox id envelope now ttl).2 other ≤
        store.stored mailbox other) :
    id = other ∧
      store.stored (store.deposit mailbox id envelope now ttl).2 other =
        ⟨envelope, store.expiry now ttl⟩ ::ₘ store.stored mailbox other := by
  by_cases same : other = id
  · subst other
    cases result : (store.deposit mailbox id envelope now ttl).1 with
    | ok => exact ⟨rfl, store.deposit_ok result⟩
    | error error => exact absurd (store.deposit_error result).le grown
  · exact absurd (store.deposit_other same).le grown

private theorem fetch_stored_le (store : MailboxStore Id)
    (mailbox : store.Mailbox) (id : Id) (now budget : Nat) (other : Id) :
    store.stored (store.fetchBatch mailbox id now budget).2 other ≤
      store.stored mailbox other := by
  by_cases same : other = id
  · subst other
    rw [store.fetch_removes mailbox id now budget]
    exact Multiset.le_add_left _ _
  · rw [store.fetch_other same]

private theorem adds_of_request
    (strict : host.allowUnauthenticatedFetch = false)
    {actions : List (MailboxAction χ)} {state : MailboxState host}
    {index : Nat} {bytes : List UInt8} {now : Nat} {connection : Connection χ}
    {id : Id}
    (grown : ¬ host.api.stored
      (state.request index bytes now connection).mailbox id ≤
        host.api.stored state.mailbox id) :
    Adds actions state (state.request index bytes now connection) id
      (.request index bytes now) := by
  by_cases full : connection.served + 1 > maxMailboxRequestsPerConn
  · rw [request, if_pos full] at grown
    exact absurd le_rfl grown
  · have mailbox : (state.request index bytes now connection).mailbox =
        (host.respond connection.binding state.mailbox bytes now).2 := by
      rw [request, if_neg full]
    have possible := answered_respond strict connection.binding state.mailbox
      bytes now
    rw [mailbox] at grown
    generalize host.respond connection.binding state.mailbox bytes now =
      answered at possible grown mailbox
    cases possible with
    | deposit request stored plain =>
        dsimp only at grown mailbox
        rw [← stored] at grown mailbox
        obtain ⟨rfl, added⟩ := deposit_of_not_le _ grown
        exact .request request (by rw [mailbox, added])
    | fetch request proven => exact absurd (fetch_stored_le _ _ _ _ _ _) grown
    | refuse error => exact absurd le_rfl grown

private theorem adds_of_stepped
    (strict : host.allowUnauthenticatedFetch = false)
    {actions : List (MailboxAction χ)} {before after : MailboxState host}
    {action : MailboxAction χ} (traced : before.Traced)
    (justified : Justified actions before)
    (stepped : Stepped before action after) {id : Id}
    (grown : ¬ host.api.stored after.mailbox id ≤
      host.api.stored before.mailbox id) :
    Adds actions before after id action := by
  cases stepped with
  | request bytes now found => exact adds_of_request strict grown
  | runDeposit now found =>
      obtain ⟨rfl, stored⟩ := deposit_of_not_le _ grown
      exact .runDeposit (justified.waiting _ (List.mem_of_getElem? found))
        stored
  | drain now found => exact absurd (fetch_stored_le _ _ _ _ _ _) grown
  | @redeposit _ owner sealed now _ _ found =>
      have own : id = owner := by
        by_contra different
        exact grown (host.api.stored_depositAll_other different _ _ _).le
      subst owner
      obtain ⟨surb, fetched⟩ := traced.returning found
      obtain ⟨back, part, stored, _⟩ := host.api.exists_deposited id now
        before.mailbox sealed
      exact .redeposit fetched part stored
  | prune now =>
      refine absurd ?_ grown
      change host.api.stored (host.api.pruneExpired before.mailbox now) id ≤ _
      rw [host.api.prune_stored]
      exact Multiset.filter_le _ _
  | ship succeeds found =>
      refine absurd ?_ grown
      rw [ship]
      split
      · exact le_rfl
      · split <;> exact le_rfl
  | connect binding stream => exact absurd le_rfl grown
  | reply found pending => exact absurd le_rfl grown
  | refuse found => exact absurd le_rfl grown
  | ignore => exact absurd le_rfl grown
  | spawn spawned => exact absurd le_rfl grown

/-! ## What a step writes to a connection -/

/-- One reply, and if it delivers a batch, a batch fetched for this
connection. -/
def Writes (state : MailboxState host) (index : Nat) (before after : χ) :
    Prop :=
  ∃ response, after = ((host.reply response).run before).2 ∧
    ∀ sealed more, response = .delivery sealed more →
      ∃ batch id, state.Fetched batch id (.connection index) sealed

private theorem stream_of_set {entries : List (Connection χ)}
    {index other : Nat} {connection next before after : Connection χ}
    (found : entries[index]? = some connection)
    (old : entries[other]? = some before)
    (new : (entries.set index next)[other]? = some after)
    (changed : after.stream ≠ before.stream) :
    other = index ∧ before = connection ∧ after = next := by
  cases getElem?_set_cases new with
  | inl here =>
      obtain ⟨rfl, rfl⟩ := here
      exact ⟨rfl, Option.some.inj (old.symm.trans found), rfl⟩
  | inr same =>
      cases old.symm.trans same.2
      exact absurd rfl changed

private theorem writes_of_stepped {before after : MailboxState host}
    {action : MailboxAction χ} (traced : before.Traced)
    (stepped : Stepped before action after) {index : Nat}
    {old new : Connection χ} (had : before.connections[index]? = some old)
    (has : after.connections[index]? = some new)
    (changed : new.stream ≠ old.stream) :
    before.Writes index old.stream new.stream := by
  have same (kept : after.connections = before.connections) :
      before.Writes index old.stream new.stream := by
    rw [kept, had] at has
    cases has
    exact absurd rfl changed
  cases stepped with
  | connect binding stream =>
      rw [List.getElem?_append_left (List.getElem?_eq_some_iff.mp had).1,
        had] at has
      cases has
      exact absurd rfl changed
  | request bytes now found =>
      rw [request] at has
      split at has
      · obtain ⟨rfl, rfl, rfl⟩ := stream_of_set found had has changed
        exact absurd rfl changed
      · obtain ⟨rfl, rfl, rfl⟩ := stream_of_set found had has changed
        exact absurd rfl changed
  | @reply _ connection response batch found pending =>
      obtain ⟨rfl, rfl, rfl⟩ := stream_of_set found had has changed
      refine ⟨response, rfl, ?_⟩
      intro sealed more delivery
      subst response
      obtain ⟨id, fetched⟩ := traced.writing found pending
      exact ⟨batch, id, fetched⟩
  | refuse found =>
      obtain ⟨rfl, rfl, rfl⟩ := stream_of_set found had has changed
      refine ⟨.error .rateLimited, rfl, ?_⟩
      intro sealed more delivery
      cases delivery
  | ship succeeds found =>
      apply same
      rw [ship]
      split
      · rfl
      · split <;> rfl
  | ignore => exact same rfl
  | spawn spawned => exact same rfl
  | runDeposit now found => exact same rfl
  | drain now found => exact same rfl
  | redeposit found => exact same rfl
  | prune now => exact same rfl

/-- Mail leaves only for a proven owner and only towards the channel of the
proof, or back into the mailbox of the same owner. -/
structure Confined (actions : List (MailboxAction χ))
    (state : MailboxState host) : Prop where
  proven : ∀ {id channel sealed}, .fetched id channel sealed ∈ state.log →
    Proven host actions state.bindings id channel
  sent : ∀ {batch channel sealed}, .sent batch channel sealed ∈ state.log →
    ∃ id, state.Fetched batch id channel sealed
  returned : ∀ {batch id sealed}, .returned batch id sealed ∈ state.log →
    ∃ surb, state.Fetched batch id (.surb surb) sealed
  removal : ∀ {action after id}, state.step action = some after →
    ¬ host.api.stored state.mailbox id ≤ host.api.stored after.mailbox id →
      (∃ now, action = .prune now ∧ state.Expires after id now) ∨
        ∃ channel, state.Removes after id channel ∧
          Proven host (actions ++ [action]) after.bindings id channel
  added : ∀ {action after id}, state.step action = some after →
    ¬ host.api.stored after.mailbox id ≤ host.api.stored state.mailbox id →
      Adds actions state after id action
  written : ∀ {action after} {index : Nat} {old new : Connection χ},
    state.step action = some after →
      state.connections[index]? = some old →
        after.connections[index]? = some new → new.stream ≠ old.stream →
          state.Writes index old.stream new.stream

/-- An envelope is deposited over one connection, while a connection with
another handshake hash shows the proof of the first, and a fetch over the
mixnet drains it and fails to ship it. -/
def sampleUnshipped : List (MailboxAction Nat) :=
  [.connect [9] 100, .connect [8] 100, .request 0 [0, 7, 50, 65] 10, .reply 0,
    .request 1 [1, 7, 9] 20, .deliver .service [0, 0, 0, 4, 2, 7, 3, 3],
    .drain 0 20, .ship 0 false]

/-- The batch is put back and fetched over the connection, and an envelope
delivered by the mixnet expires. -/
def sampleFetches : List (MailboxAction Nat) :=
  sampleUnshipped ++ [.redeposit 0, .request 0 [1, 7, 9] 30, .reply 0,
    .deliver .deposit [0, 0, 0, 4, 0, 7, 5, 66], .runDeposit 1 40, .prune 46]

end MailboxState

end GothamRelay
