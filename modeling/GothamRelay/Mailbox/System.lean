import GothamRelay.Data.Transition
import GothamRelay.Mailbox.Connection
import GothamRelay.Transport.Delivery

namespace GothamRelay

/-! One mailbox behind any number of direct connections and mixnet deliveries.
Each step is what one party does while it holds the lock, or between two holds
of it. -/

variable {Id χ : Type}

inductive Channel (api : MailboxApi Id) where
  | connection (index : Nat)
  | surb (surb : api.Surb)

inductive Phase where
  | reading
  | writing (response : MailboxResponse) (batch : Nat)
  | refusing
  | closed

structure Connection (χ : Type) where
  binding : List UInt8
  served : Nat
  stream : χ
  phase : Phase

/-- A spawned task: a deposit, or a fetch that is waiting for the lock, has
drained its batch, or waits for the lock to put the batch back. Nothing reads
`batch`, the number of the batch, and `taken`, its envelopes as they were
stored. -/
inductive Task (api : MailboxApi Id) where
  | deposit (id : Id) (sealed : Envelope) (ttlSecs : Nat)
  | fetch (id : Id) (surb : api.Surb)
  | shipping (id : Id) (surb : api.Surb) (sealed : List Envelope)
      (more : Bool) (now : Nat) (batch : Nat) (taken : List Stored)
  | returning (id : Id) (sealed : List Envelope) (now : Nat) (batch : Nat)
      (taken : List Stored)
  | finished

def Task.isFetch {api : MailboxApi Id} : Task api → Bool
  | .fetch _ _ => true
  | _ => false

/-- What the steps did, in order. A batch is named by the position of its
`fetched` event. -/
inductive Event (api : MailboxApi Id) where
  | accepted (id : Id) (entry : Stored)
  | fetched (id : Id) (channel : Channel api) (sealed : List Envelope)
  | sent (batch : Nat) (channel : Channel api) (sealed : List Envelope)
  | shipped (batch : Nat) (id : Id) (sealed : List Envelope)
  | returned (batch : Nat) (id : Id) (sealed : List Envelope)

structure MailboxState (host : MailboxHost Id χ) where
  mailbox : host.api.Mailbox
  connections : List (Connection χ)
  tasks : List (Task host.api)
  log : List (Event host.api)

inductive Handler where
  | deposit
  | service
  deriving DecidableEq

inductive MailboxAction (χ : Type) where
  | connect (binding : List UInt8) (stream : χ)
  | request (connection : Nat) (bytes : List UInt8) (now : Nat)
  | reply (connection : Nat)
  | deliver (handler : Handler) (payload : List UInt8)
  | runDeposit (task : Nat) (now : Nat)
  | drain (task : Nat) (now : Nat)
  | ship (task : Nat) (succeeds : Bool)
  | redeposit (task : Nat)
  | prune (now : Nat)

namespace MailboxHost

def surbFetchBudget (host : MailboxHost Id χ) : Nat :=
  host.api.maxPayloadSize - 256

def requestIn (host : MailboxHost Id χ) (payload : List UInt8) :
    Option (MailboxRequest Id host.api.Auth) :=
  unsealingDelivery (host.api.unsealEnvelope host.hostSk)
    (fun _ body => (host.api.requestFromBytes body).toOption) payload

/-- `make_mailbox_deposit_handler`: the task that is spawned. -/
def depositHandler (host : MailboxHost Id χ) (payload : List UInt8) :
    Option (Task host.api) :=
  match host.requestIn payload with
  | some (.deposit id sealed ttlSecs) => some (.deposit id sealed ttlSecs)
  | _ => none

/-- `make_mailbox_service_handler`: the task that is spawned. -/
def serviceHandler (host : MailboxHost Id χ) (payload : List UInt8) :
    Option (Task host.api) :=
  match host.requestIn payload with
  | some (.deposit id sealed ttlSecs) => some (.deposit id sealed ttlSecs)
  | some (.fetchWithSurb id surbBytes (some auth)) =>
      if host.api.proves host.hostSk auth
          (host.api.surbFetchBinding surbBytes) id then
        (host.api.surbFromBytes surbBytes).map fun surb => .fetch id surb
      else none
  | _ => none

def handle (host : MailboxHost Id χ) :
    Handler → List UInt8 → Option (Task host.api)
  | .deposit => host.depositHandler
  | .service => host.serviceHandler

inductive Spawns (host : MailboxHost Id χ) (payload : List UInt8) :
    Handler → Task host.api → Prop where
  | deposit {handler : Handler} {id : Id} {sealed : Envelope}
      {ttlSecs : Nat}
      (request : host.requestIn payload = some (.deposit id sealed ttlSecs)) :
      Spawns host payload handler (.deposit id sealed ttlSecs)
  | fetch {id : Id} {surbBytes : List UInt8} {auth : host.api.Auth}
      {surb : host.api.Surb}
      (request : host.requestIn payload =
        some (.fetchWithSurb id surbBytes (some auth)))
      (proven : host.api.proves host.hostSk auth
        (host.api.surbFetchBinding surbBytes) id = true)
      (parsed : host.api.surbFromBytes surbBytes = some surb) :
      Spawns host payload .service (.fetch id surb)

theorem spawns_of_handle {host : MailboxHost Id χ} {handler : Handler}
    {payload : List UInt8} {task : Task host.api}
    (spawned : host.handle handler payload = some task) :
    Spawns host payload handler task := by
  cases handler with
  | deposit =>
      rw [handle, depositHandler] at spawned
      split at spawned <;> cases spawned
      rename_i request
      exact .deposit request
  | service =>
      rw [handle, serviceHandler] at spawned
      split at spawned
      · rename_i request
        cases spawned
        exact .deposit request
      · rename_i request
        split at spawned
        · rename_i proven
          obtain ⟨surb, parsed, rfl⟩ := Option.map_eq_some_iff.mp spawned
          exact .fetch request proven parsed
        · cases spawned
      · cases spawned

/-- The loop that puts a batch back: a refusal is ignored. -/
def depositAll (store : MailboxStore Id) (id : Id) (now : Nat) :
    store.Mailbox → List Envelope → store.Mailbox
  | mailbox, [] => mailbox
  | mailbox, envelope :: sealed =>
      depositAll store id now (store.deposit mailbox id envelope now 0).2
        sealed

def requestEvents (host : MailboxHost Id χ) (index : Nat)
    (bytes : List UInt8) (now : Nat) (response : MailboxResponse) :
    List (Event host.api) :=
  match host.api.requestFromBytes bytes, response with
  | .ok (.deposit id sealed ttlSecs), .ack =>
      [.accepted id ⟨sealed, host.api.expiry now ttlSecs⟩]
  | .ok (.fetch id _), .delivery sealed _ =>
      [.fetched id (.connection index) sealed]
  | _, _ => []

/-- A delivery reaches its channel unless it cannot be serialised. -/
def sentEvents (host : MailboxHost Id χ) (batch : Nat)
    (channel : Channel host.api) (response : MailboxResponse) :
    List (Event host.api) :=
  match response, host.api.responseToBytes response with
  | .delivery sealed _, .ok _ => [.sent batch channel sealed]
  | _, _ => []

end MailboxHost

namespace MailboxStore

def Accepts (store : MailboxStore Id) (id : Id) (now : Nat) :
    store.Mailbox → List Envelope → Prop
  | _, [] => True
  | mailbox, envelope :: sealed =>
      (store.deposit mailbox id envelope now 0).1 = .ok () ∧
        store.Accepts id now (store.deposit mailbox id envelope now 0).2 sealed

/-- What the loop that puts a batch back adds: a part of the batch, with the
default lifetime from now on. -/
theorem exists_deposited (store : MailboxStore Id) (id : Id) (now : Nat)
    (mailbox : store.Mailbox) (sealed : List Envelope) :
    ∃ deposited : List Envelope, deposited.Sublist sealed ∧
      store.stored (MailboxHost.depositAll store id now mailbox sealed) id =
        (deposited.map fun envelope =>
            Stored.mk envelope (store.expiry now 0) : List Stored) +
          store.stored mailbox id ∧
      (deposited = sealed ↔ store.Accepts id now mailbox sealed) := by
  induction sealed generalizing mailbox with
  | nil =>
      refine ⟨[], List.Sublist.slnil, ?_, ?_⟩
      · exact (zero_add _).symm
      · exact ⟨fun _ => trivial, fun _ => rfl⟩
  | cons envelope sealed ih =>
      obtain ⟨deposited, part, stored, accepts⟩ :=
        ih (store.deposit mailbox id envelope now 0).2
      cases verdict : (store.deposit mailbox id envelope now 0).1 with
      | ok done =>
          refine ⟨envelope :: deposited, part.cons_cons envelope, ?_, ?_⟩
          · rw [MailboxHost.depositAll, stored, store.deposit_ok verdict,
              Multiset.add_cons, List.map_cons, ← Multiset.cons_coe,
              Multiset.cons_add]
          · rw [List.cons_inj_right, accepts, Accepts, verdict]
            exact ⟨fun rest => ⟨rfl, rest⟩, And.right⟩
      | error error =>
          refine ⟨deposited, part.cons envelope, ?_, ?_⟩
          · rw [MailboxHost.depositAll, stored, store.deposit_error verdict]
          · constructor
            · intro whole
              have shorter := part.length_le
              rw [whole, List.length_cons] at shorter
              omega
            · intro accepted
              rw [Accepts, verdict] at accepted
              cases accepted.1

theorem stored_depositAll_other (store : MailboxStore Id) {id other : Id}
    (different : other ≠ id) (now : Nat) (mailbox : store.Mailbox)
    (sealed : List Envelope) :
    store.stored (MailboxHost.depositAll store id now mailbox sealed) other =
      store.stored mailbox other := by
  induction sealed generalizing mailbox with
  | nil => rfl
  | cons envelope sealed ih =>
      rw [MailboxHost.depositAll, ih, store.deposit_other different]

end MailboxStore

namespace MailboxState

variable {host : MailboxHost Id χ}

def setConnection (state : MailboxState host) (index : Nat)
    (connection : Connection χ) : MailboxState host :=
  { state with connections := state.connections.set index connection }

def setTask (state : MailboxState host) (index : Nat)
    (task : Task host.api) : MailboxState host :=
  { state with tasks := state.tasks.set index task }

def request (state : MailboxState host) (index : Nat) (bytes : List UInt8)
    (now : Nat) (connection : Connection χ) : MailboxState host :=
  let served := connection.served + 1
  if served > maxMailboxRequestsPerConn then
    state.setConnection index { connection with served, phase := .refusing }
  else
    let answered := host.respond connection.binding state.mailbox bytes now
    { state.setConnection index
        { connection with
          served, phase := .writing answered.1 state.log.length } with
      mailbox := answered.2
      log := state.log ++ host.requestEvents index bytes now answered.1 }

def reply (state : MailboxState host) (index : Nat)
    (connection : Connection χ) (response : MailboxResponse) (batch : Nat) :
    MailboxState host :=
  let written := (host.reply response).run connection.stream
  let phase : Phase :=
    match written.1 with
    | .ok () => .reading
    | .error _ => .closed
  { state.setConnection index
      { connection with stream := written.2, phase } with
    log := state.log ++
      host.sentEvents batch (.connection index) response }

def refuse (state : MailboxState host) (index : Nat)
    (connection : Connection χ) : MailboxState host :=
  let written := (host.reply (.error .rateLimited)).run connection.stream
  state.setConnection index
    { connection with stream := written.2, phase := .closed }

def runDeposit (state : MailboxState host) (task : Nat) (now : Nat) (id : Id)
    (sealed : Envelope) (ttlSecs : Nat) : MailboxState host :=
  let deposited := host.api.deposit state.mailbox id sealed now ttlSecs
  { state.setTask task .finished with
    mailbox := deposited.2
    log := state.log ++
      match deposited.1 with
      | .ok () => [.accepted id ⟨sealed, host.api.expiry now ttlSecs⟩]
      | .error _ => [] }

def drain (state : MailboxState host) (task : Nat) (now : Nat) (id : Id)
    (surb : host.api.Surb) : MailboxState host :=
  let fetched := host.api.fetchBatch state.mailbox id now host.surbFetchBudget
  { state.setTask task
      (if fetched.1.1.isEmpty then .finished
      else
        .shipping id surb fetched.1.1 fetched.1.2 now state.log.length
          (host.api.selected state.mailbox id now host.surbFetchBudget)) with
    mailbox := fetched.2
    log := state.log ++ [.fetched id (.surb surb) fetched.1.1] }

def ship (state : MailboxState host) (task : Nat) (succeeds : Bool) (id : Id)
    (surb : host.api.Surb) (sealed : List Envelope) (more : Bool) (now : Nat)
    (batch : Nat) (taken : List Stored) : MailboxState host :=
  match host.api.responseToBytes (.delivery sealed more) with
  | .error _ => state.setTask task (.returning id sealed now batch taken)
  | .ok _ =>
      if succeeds then
        { state.setTask task .finished with
          log := state.log ++
            [.sent batch (.surb surb) sealed, .shipped batch id sealed] }
      else
        { state.setTask task (.returning id sealed now batch taken) with
          log := state.log ++ [.sent batch (.surb surb) sealed] }

def redeposit (state : MailboxState host) (task : Nat) (id : Id)
    (sealed : List Envelope) (now : Nat) (batch : Nat) : MailboxState host :=
  { state.setTask task .finished with
    mailbox := MailboxHost.depositAll host.api.toMailboxStore id now
      state.mailbox sealed
    log := state.log ++ [.returned batch id sealed] }

def prune (state : MailboxState host) (now : Nat) : MailboxState host :=
  { state with mailbox := host.api.pruneExpired state.mailbox now }

def step (state : MailboxState host) :
    MailboxAction χ → Option (MailboxState host)
  | .connect binding stream =>
      some { state with
        connections := state.connections ++ [⟨binding, 0, stream, .reading⟩] }
  | .request index bytes now =>
      match state.connections[index]? with
      | none => none
      | some connection =>
          match connection.phase with
          | .reading => some (state.request index bytes now connection)
          | _ => none
  | .reply index =>
      match state.connections[index]? with
      | none => none
      | some connection =>
          match connection.phase with
          | .writing response batch =>
              some (state.reply index connection response batch)
          | .refusing => some (state.refuse index connection)
          | _ => none
  | .deliver handler payload =>
      match host.handle handler payload with
      | none => some state
      | some task => some { state with tasks := state.tasks ++ [task] }
  | .runDeposit task now =>
      match state.tasks[task]? with
      | some (.deposit id sealed ttlSecs) =>
          some (state.runDeposit task now id sealed ttlSecs)
      | _ => none
  | .drain task now =>
      match state.tasks[task]? with
      | some (.fetch id surb) => some (state.drain task now id surb)
      | _ => none
  | .ship task succeeds =>
      match state.tasks[task]? with
      | some (.shipping id surb sealed more now batch taken) =>
          some (state.ship task succeeds id surb sealed more now batch taken)
      | _ => none
  | .redeposit task =>
      match state.tasks[task]? with
      | some (.returning id sealed now batch _) =>
          some (state.redeposit task id sealed now batch)
      | _ => none
  | .prune now => some (state.prune now)

def start (host : MailboxHost Id χ) (mailbox : host.api.Mailbox) :
    MailboxState host where
  mailbox := mailbox
  connections := []
  tasks := []
  log := []

inductive Stepped (state : MailboxState host) :
    MailboxAction χ → MailboxState host → Prop where
  | connect (binding : List UInt8) (stream : χ) :
      Stepped state (.connect binding stream)
        { state with
          connections :=
            state.connections ++ [⟨binding, 0, stream, .reading⟩] }
  | request {index : Nat} (bytes : List UInt8) (now : Nat)
      {connection : Connection χ}
      (found : state.connections[index]? = some connection) :
      Stepped state (.request index bytes now)
        (state.request index bytes now connection)
  | reply {index : Nat} {connection : Connection χ}
      {response : MailboxResponse} {batch : Nat}
      (found : state.connections[index]? = some connection)
      (pending : connection.phase = .writing response batch) :
      Stepped state (.reply index)
        (state.reply index connection response batch)
  | refuse {index : Nat} {connection : Connection χ}
      (found : state.connections[index]? = some connection) :
      Stepped state (.reply index) (state.refuse index connection)
  | ignore {handler : Handler} {payload : List UInt8} :
      Stepped state (.deliver handler payload) state
  | spawn {handler : Handler} {payload : List UInt8} {task : Task host.api}
      (spawned : host.handle handler payload = some task) :
      Stepped state (.deliver handler payload)
        { state with tasks := state.tasks ++ [task] }
  | runDeposit {task : Nat} (now : Nat) {id : Id} {sealed : Envelope}
      {ttlSecs : Nat}
      (found : state.tasks[task]? = some (.deposit id sealed ttlSecs)) :
      Stepped state (.runDeposit task now)
        (state.runDeposit task now id sealed ttlSecs)
  | drain {task : Nat} (now : Nat) {id : Id} {surb : host.api.Surb}
      (found : state.tasks[task]? = some (.fetch id surb)) :
      Stepped state (.drain task now) (state.drain task now id surb)
  | ship {task : Nat} (succeeds : Bool) {id : Id} {surb : host.api.Surb}
      {sealed : List Envelope} {more : Bool} {now batch : Nat}
      {taken : List Stored}
      (found : state.tasks[task]? =
        some (.shipping id surb sealed more now batch taken)) :
      Stepped state (.ship task succeeds)
        (state.ship task succeeds id surb sealed more now batch taken)
  | redeposit {task : Nat} {id : Id} {sealed : List Envelope}
      {now batch : Nat} {taken : List Stored}
      (found : state.tasks[task]? =
        some (.returning id sealed now batch taken)) :
      Stepped state (.redeposit task)
        (state.redeposit task id sealed now batch)
  | prune (now : Nat) : Stepped state (.prune now) (state.prune now)

theorem stepped_of_step {state after : MailboxState host}
    {action : MailboxAction χ} (taken : state.step action = some after) :
    Stepped state action after := by
  cases action with
  | connect binding stream =>
      cases taken
      exact .connect binding stream
  | request index bytes now =>
      simp only [step] at taken
      split at taken
      · cases taken
      · rename_i connection found
        split at taken <;> cases taken
        exact .request bytes now found
  | reply index =>
      simp only [step] at taken
      split at taken
      · cases taken
      · rename_i connection found
        split at taken <;> cases taken
        · rename_i pending
          exact .reply found pending
        · exact .refuse found
  | deliver handler payload =>
      simp only [step] at taken
      split at taken <;> cases taken
      · exact .ignore
      · rename_i task spawned
        exact .spawn spawned
  | runDeposit task now =>
      simp only [step] at taken
      split at taken <;> cases taken
      rename_i found
      exact .runDeposit now found
  | drain task now =>
      simp only [step] at taken
      split at taken <;> cases taken
      rename_i found
      exact .drain now found
  | ship task succeeds =>
      simp only [step] at taken
      split at taken <;> cases taken
      rename_i found
      exact .ship succeeds found
  | redeposit task =>
      simp only [step] at taken
      split at taken <;> cases taken
      rename_i found
      exact .redeposit found
  | prune now =>
      cases taken
      exact .prune now

def sampleHost : MailboxHost UInt8 Nat where
  api := .plain 1 100
  link := MailboxHost.closingLink
  hostSk := Data.Bytes.replicate 32 0
  allowUnauthenticatedFetch := false

def sampleRun (actions : List (MailboxAction Nat)) : MailboxState sampleHost :=
  (Data.Trace.exec step (start sampleHost []) actions).getD
    (start sampleHost [])

end MailboxState

end GothamRelay
