import GothamRelay.Mailbox.Tracing
import GothamRelay.Process.Admission

namespace GothamRelay

open Data
open Data.SlidingWindow

/-! A relay that hosts a mailbox. Packets go through `process`, what it
delivers locally is handed to the service handler when its delay is over, and
the tasks that the handler spawns run on the mailbox. -/

variable {Id χ ρ : Type}

/-- A payload that waits for its delay. `cause` is the position of its packet
among those the replay cache accepted. -/
structure Delivery where
  payload : List UInt8
  cause : Nat

/-- `causes` has the cause of each spawned task and `fetches` that of each
`fetch_batch` for a SURB. -/
structure HostingRelay (host : MailboxHost Id χ) (ρ : Type) where
  relay : Relay
  rng : ρ
  clock : Instant
  accepted : List Arrival
  deliveries : List Delivery
  system : MailboxState host
  causes : List Nat
  fetches : List Nat

inductive HostingAction (χ : Type) where
  | packet (arrival : Arrival)
  | handOver (delivery : Nat)
  | mailbox (action : MailboxAction χ)

def MailboxAction.drained : MailboxAction χ → Option Nat
  | .drain task _ => some task
  | _ => none

namespace HostingRelay

variable {host : MailboxHost Id χ}

def packet (crypto : CryptoGotham) (sampling : Sampling ρ)
    (node : HostingRelay host ρ) (arrival : Arrival) : HostingRelay host ρ :=
  let processed := node.relay.process crypto sampling node.rng arrival
  { node with
    relay := processed.2.1
    rng := processed.2.2
    clock := arrival.replayNow
    accepted := node.accepted ++
      if processed.1.admitted then [arrival] else []
    deliveries := node.deliveries ++
      match processed.1 with
      | .deliverLocal _ payload => [⟨payload, node.accepted.length⟩]
      | _ => [] }

def handOver (node : HostingRelay host ρ) (index : Nat)
    (delivery : Delivery) : HostingRelay host ρ :=
  let deliveries := node.deliveries.eraseIdx index
  match host.serviceHandler delivery.payload with
  | none => { node with deliveries }
  | some task =>
      { node with
        deliveries
        system := { node.system with tasks := node.system.tasks ++ [task] }
        causes := node.causes ++ [delivery.cause] }

def step (crypto : CryptoGotham) (sampling : Sampling ρ)
    (node : HostingRelay host ρ) :
    HostingAction χ → Option (HostingRelay host ρ)
  | .packet arrival => some (node.packet crypto sampling arrival)
  | .handOver index =>
      node.deliveries[index]?.map fun delivery => node.handOver index delivery
  -- Payloads reach the handler only through `handOver`.
  | .mailbox (.deliver _ _) => none
  | .mailbox action =>
      (node.system.step action).map fun system =>
        { node with
          system
          fetches := node.fetches ++
            (action.drained.bind fun task => node.causes[task]?).toList }

inductive Stepped (crypto : CryptoGotham) (sampling : Sampling ρ)
    (node : HostingRelay host ρ) :
    HostingAction χ → HostingRelay host ρ → Prop where
  | packet (arrival : Arrival) :
      Stepped crypto sampling node (.packet arrival)
        (node.packet crypto sampling arrival)
  | handOver {index : Nat} {delivery : Delivery}
      (found : node.deliveries[index]? = some delivery) :
      Stepped crypto sampling node (.handOver index)
        (node.handOver index delivery)
  | mailbox {action : MailboxAction χ} {system : MailboxState host}
      (stepped : node.system.Stepped action system)
      (elsewhere : ∀ handler payload, action ≠ .deliver handler payload) :
      Stepped crypto sampling node (.mailbox action)
        { node with
          system
          fetches := node.fetches ++
            (action.drained.bind fun task => node.causes[task]?).toList }

theorem stepped_of_step {crypto : CryptoGotham} {sampling : Sampling ρ}
    {node after : HostingRelay host ρ} {action : HostingAction χ}
    (taken : node.step crypto sampling action = some after) :
    Stepped crypto sampling node action after := by
  rw [step.eq_def] at taken
  split at taken
  · cases taken
    exact .packet _
  · obtain ⟨delivery, found, rfl⟩ := Option.map_eq_some_iff.mp taken
    exact .handOver found
  · cases taken
  · rename_i elsewhere
    obtain ⟨system, stepped, rfl⟩ := Option.map_eq_some_iff.mp taken
    exact .mailbox (MailboxState.stepped_of_step stepped) elsewhere

def start (relay : Relay) (rng : ρ) (clock : Instant)
    (mailbox : host.api.Mailbox) : HostingRelay host ρ where
  relay := relay
  rng := rng
  clock := clock
  accepted := []
  deliveries := []
  system := .start host mailbox
  causes := []
  fetches := []

/-- Packets are processed under the relay lock, so the cache reads a monotonic
clock in the order of the packets. -/
def InOrder (node : HostingRelay host ρ) : HostingAction χ → Prop
  | .packet arrival => node.clock ≤ arrival.replayNow
  | _ => True

instance decidableInOrder (node : HostingRelay host ρ) :
    ∀ action, Decidable (node.InOrder action)
  | .packet arrival => Nat.decLe node.clock arrival.replayNow
  | .handOver _ => isTrue trivial
  | .mailbox _ => isTrue trivial

end HostingRelay

def surbFetches {api : MailboxApi Id} (log : List (Event api)) :
    List (List Envelope) :=
  log.filterMap fun
    | .fetched _ (.surb _) sealed => some sealed
    | _ => none

namespace HostingRelay

variable {host : MailboxHost Id χ}

/-! ## What the replay cache lets through -/

/-- The cache has accepted exactly `accepted`, after what it had accepted
before the run. -/
structure Guarded (crypto : CryptoGotham) (prior : Log Gamma)
    (capacity : Nat) (ttl : Duration) (node : HostingRelay host ρ) :
    Prop where
  refines : node.relay.replayCache.Refines
    (prior ++ node.accepted.map (Arrival.entry crypto)) node.clock
  capacity_eq : node.relay.replayCache.capacity = capacity
  ttl_eq : node.relay.replayCache.ttl = ttl
  spaced : Spaced capacity ttl (node.accepted.map (Arrival.entry crypto))

theorem Guarded.packet {crypto : CryptoGotham} {sampling : Sampling ρ}
    {prior : Log Gamma} {capacity : Nat} {ttl : Duration}
    {node : HostingRelay host ρ} {arrival : Arrival}
    (guarded : node.Guarded crypto prior capacity ttl)
    (ordered : node.clock ≤ arrival.replayNow) :
    (node.packet crypto sampling arrival).Guarded crypto prior capacity
      ttl := by
  obtain ⟨ttl_eq, maxSize_eq, refines, free⟩ :=
    (node.relay.process_admission crypto sampling node.rng arrival).refines
      (guarded.refines.later ordered)
  rw [guarded.capacity_eq, guarded.ttl_eq] at free
  rw [HostingRelay.packet]
  constructor
  · rw [List.map_append, ← List.append_assoc]
    convert refines using 2
    split <;> rfl
  · rw [← guarded.capacity_eq, ReplayCache.capacity, ReplayCache.capacity,
      maxSize_eq]
  · rw [← guarded.ttl_eq, ttl_eq]
  · cases admitted : (node.relay.process crypto sampling node.rng
        arrival).1.admitted with
    | false =>
        rw [if_neg Bool.false_ne_true, List.append_nil]
        exact guarded.spaced
    | true =>
        rw [if_pos rfl, List.map_append]
        have unblocked := fun blocked =>
          free admitted (Blocked.prepend blocked prior)
        rw [← arrival.entry_time crypto] at unblocked
        exact guarded.spaced.concat unblocked

/-! ## Each acceptance causes at most one fetch -/

private theorem length_surbFetches_append {api : MailboxApi Id}
    (log events : List (Event api)) :
    (surbFetches (log ++ events)).length =
      (surbFetches log).length + (surbFetches events).length := by
  rw [surbFetches, List.filterMap_append, List.length_append]
  rfl

private theorem surbFetches_requestEvents (host : MailboxHost Id χ)
    (index : Nat)
    (bytes : List UInt8) (now : Nat) (response : MailboxResponse) :
    surbFetches (host.requestEvents index bytes now response) = [] := by
  rw [MailboxHost.requestEvents.eq_def]
  split <;> rfl

private theorem surbFetches_sentEvents (host : MailboxHost Id χ) (batch : Nat)
    (channel : Channel host.api) (response : MailboxResponse) :
    surbFetches (host.sentEvents batch channel response) = [] := by
  rw [MailboxHost.sentEvents.eq_def]
  split <;> rfl

private theorem tasks_of_stepped {before after : MailboxState host}
    {action : MailboxAction χ}
    (stepped : before.Stepped action after)
    (elsewhere : ∀ handler payload, action ≠ .deliver handler payload) :
    after.tasks.length = before.tasks.length ∧
      (surbFetches after.log).length =
        (surbFetches before.log).length + action.drained.toList.length ∧
      ∀ {task : Nat} {id : Id} {surb : host.api.Surb},
        after.tasks[task]? = some (Task.fetch id surb) →
          before.tasks[task]? = some (Task.fetch id surb) ∧
            action.drained ≠ some task := by
  have undrained (task : Nat) : none ≠ some task :=
    (Option.some_ne_none task).symm
  cases stepped with
  | connect binding stream =>
      exact ⟨rfl, rfl, fun found => ⟨found, undrained _⟩⟩
  | @request index bytes now connection found =>
      rw [MailboxState.request]
      split
      · exact ⟨rfl, rfl, fun found => ⟨found, undrained _⟩⟩
      · refine ⟨rfl, ?_, fun found => ⟨found, undrained _⟩⟩
        rw [length_surbFetches_append, surbFetches_requestEvents]
        rfl
  | reply found pending =>
      refine ⟨rfl, ?_, fun found => ⟨found, undrained _⟩⟩
      rw [MailboxState.reply, length_surbFetches_append, surbFetches_sentEvents]
      rfl
  | refuse found => exact ⟨rfl, rfl, fun found => ⟨found, undrained _⟩⟩
  | ignore => exact absurd rfl (elsewhere _ _)
  | spawn spawned => exact absurd rfl (elsewhere _ _)
  | @runDeposit task now id sealed ttlSecs found =>
      refine ⟨List.length_set, ?_, fun waiting =>
        ⟨(MailboxState.waiting_of_set rfl rfl waiting).2, undrained _⟩⟩
      rw [MailboxState.runDeposit, length_surbFetches_append]
      split <;> rfl
  | @drain task now id surb found =>
      refine ⟨List.length_set, length_surbFetches_append _ _, ?_⟩
      intro other id' surb' waiting
      obtain ⟨elsewhere, old⟩ := MailboxState.waiting_of_set rfl
        (by split <;> rfl) waiting
      refine ⟨old, ?_⟩
      intro same
      exact elsewhere (Option.some.inj same).symm
  | @ship task succeeds id surb sealed more now batch found =>
      rw [MailboxState.ship]
      split
      · exact ⟨List.length_set, rfl, fun waiting =>
          ⟨(MailboxState.waiting_of_set rfl rfl waiting).2, undrained _⟩⟩
      · split <;> exact ⟨List.length_set, length_surbFetches_append _ _,
          fun waiting =>
            ⟨(MailboxState.waiting_of_set rfl rfl waiting).2, undrained _⟩⟩
  | redeposit found =>
      exact ⟨List.length_set, length_surbFetches_append _ _, fun waiting =>
        ⟨(MailboxState.waiting_of_set rfl rfl waiting).2, undrained _⟩⟩
  | prune now => exact ⟨rfl, rfl, fun found => ⟨found, undrained _⟩⟩

/-- Each accepted packet is owed to at most one delivery or task, and a task
that still waits for its fetch has not been charged with one. -/
structure Ledger (node : HostingRelay host ρ) : Prop where
  owed : (node.deliveries.map Delivery.cause ++ node.causes).Nodup
  known : ∀ {cause : Nat},
    cause ∈ node.deliveries.map Delivery.cause ++ node.causes →
      cause < node.accepted.length
  charged : node.causes.length = node.system.tasks.length
  caused : ∀ {cause : Nat}, cause ∈ node.fetches → cause ∈ node.causes
  once : node.fetches.Nodup
  waiting : ∀ {task cause : Nat} {id : Id} {surb : host.api.Surb},
    node.system.tasks[task]? = some (Task.fetch id surb) →
      node.causes[task]? = some cause → cause ∉ node.fetches
  counted : (surbFetches node.system.log).length = node.fetches.length

private theorem ledger_start (relay : Relay) (rng : ρ) (clock : Instant)
    (mailbox : host.api.Mailbox) :
    (start relay rng clock mailbox : HostingRelay host ρ).Ledger :=
  ⟨.nil, nofun, rfl, nofun, .nil, nofun, rfl⟩

theorem Ledger.accept {node : HostingRelay host ρ} (ledger : node.Ledger)
    (relay : Relay) (rng : ρ) (clock : Instant) (arrivals : List Arrival) :
    Ledger { node with
      relay, rng, clock, accepted := node.accepted ++ arrivals } :=
  { ledger with
    known := fun member => (ledger.known member).trans_le (by simp) }

theorem Ledger.packet {crypto : CryptoGotham} {sampling : Sampling ρ}
    {node : HostingRelay host ρ} (ledger : node.Ledger) (arrival : Arrival) :
    (node.packet crypto sampling arrival).Ledger := by
  rw [HostingRelay.packet]
  cases (node.relay.process crypto sampling node.rng arrival).1 with
  | drop reason =>
      simpa only [List.append_nil] using ledger.accept _ _ _ _
  | forward nextAddr nextNodeId delay viaRendezvous packet =>
      simpa only [List.append_nil] using ledger.accept _ _ _ _
  | deliverLocal delay payload =>
      have unknown : node.accepted.length ∉
          node.deliveries.map Delivery.cause ++ node.causes :=
        fun member => Nat.lt_irrefl _ (ledger.known member)
      have causes_eq : (node.deliveries ++
          [Delivery.mk payload node.accepted.length]).map Delivery.cause ++
            node.causes =
          node.deliveries.map Delivery.cause ++
            node.accepted.length :: node.causes := by simp
      refine { ledger with owed := ?_, known := ?_ }
      · rw [causes_eq, List.perm_middle.nodup_iff]
        exact List.nodup_cons.mpr ⟨unknown, ledger.owed⟩
      · intro cause member
        rw [causes_eq, List.perm_middle.mem_iff, List.mem_cons] at member
        simp only [ProcessOutcome.admitted, if_true, List.length_append,
          List.length_singleton]
        cases member with
        | inl new => omega
        | inr old => exact (ledger.known old).trans (Nat.lt_succ_self _)

private theorem Ledger.handOver {node : HostingRelay host ρ}
    (ledger : node.Ledger) {index : Nat} {delivery : Delivery}
    (found : node.deliveries[index]? = some delivery) :
    (node.handOver index delivery).Ledger := by
  obtain ⟨inside, rfl⟩ := List.getElem?_eq_some_iff.mp found
  have split : (node.deliveries.map Delivery.cause ++ node.causes).Perm
      (node.deliveries[index].cause ::
        ((node.deliveries.eraseIdx index).map Delivery.cause ++
          node.causes)) :=
    ((List.getElem_cons_eraseIdx_perm inside).symm.map
      Delivery.cause).append_right node.causes
  obtain ⟨handed, owed⟩ := List.nodup_cons.mp
    (split.nodup_iff.mp ledger.owed)
  have known : ∀ {cause}, cause ∈ node.deliveries[index].cause ::
      ((node.deliveries.eraseIdx index).map Delivery.cause ++ node.causes) →
        cause < node.accepted.length :=
    fun member => ledger.known (split.mem_iff.mpr member)
  rw [HostingRelay.handOver]
  split
  · exact { ledger with
      owed := owed
      known := fun member => known (List.mem_cons_of_mem _ member) }
  · rename_i task spawned
    have moved : ((node.deliveries.eraseIdx index).map Delivery.cause ++
        (node.causes ++ [node.deliveries[index].cause])).Perm
        (node.deliveries[index].cause ::
          ((node.deliveries.eraseIdx index).map Delivery.cause ++
            node.causes)) := by
      rw [← List.append_assoc]
      exact List.perm_append_singleton _ _
    constructor
    · exact moved.nodup_iff.mpr (List.nodup_cons.mpr ⟨handed, owed⟩)
    · exact fun member => known (moved.mem_iff.mp member)
    · simp [ledger.charged]
    · exact fun member => List.mem_append_left _ (ledger.caused member)
    · exact ledger.once
    · intro position cause id surb waits charged
      cases getElem?_append_singleton_cases charged with
      | inl new =>
          subst cause
          exact fun fetched => handed
            (List.mem_append_right _ (ledger.caused fetched))
      | inr old =>
          have inside : position < node.system.tasks.length := by
            rw [← ledger.charged]
            exact (List.getElem?_eq_some_iff.mp old).1
          exact ledger.waiting
            ((List.getElem?_append_left inside).symm.trans waits) old
    · exact ledger.counted

private theorem fetching_of_drained {before after : MailboxState host}
    {action : MailboxAction χ} {task : Nat}
    (stepped : before.Stepped action after)
    (drained : action.drained = some task) :
    ∃ id surb, before.tasks[task]? = some (Task.fetch id surb) := by
  cases stepped with
  | drain now found =>
      cases drained
      exact ⟨_, _, found⟩
  | _ => cases drained

theorem Ledger.mailbox {node : HostingRelay host ρ} (ledger : node.Ledger)
    {action : MailboxAction χ} {system : MailboxState host}
    (stepped : node.system.Stepped action system)
    (elsewhere : ∀ handler payload, action ≠ .deliver handler payload) :
    Ledger { node with
      system
      fetches := node.fetches ++
        (action.drained.bind fun task => node.causes[task]?).toList } := by
  obtain ⟨length_eq, count_eq, waiting⟩ := tasks_of_stepped stepped elsewhere
  have charged := ledger.charged.trans length_eq.symm
  cases drained : action.drained with
  | none =>
      rw [drained] at count_eq
      simp only [Option.bind_none, Option.toList_none, List.append_nil]
      exact { ledger with
        charged := charged
        waiting := fun found => ledger.waiting (waiting found).1
        counted := count_eq.trans ledger.counted }
  | some task =>
      obtain ⟨id, surb, found⟩ := fetching_of_drained stepped drained
      have inside : task < node.causes.length := by
        rw [ledger.charged]
        exact (List.getElem?_eq_some_iff.mp found).1
      have cause_eq := List.getElem?_eq_getElem inside
      have fresh := ledger.waiting found cause_eq
      rw [drained] at count_eq
      simp only [Option.bind_some, cause_eq, Option.toList_some]
      refine ⟨ledger.owed, ledger.known, charged, ?_, ?_, ?_, ?_⟩
      · intro cause member
        cases List.mem_append.mp member with
        | inl old => exact ledger.caused old
        | inr new =>
            rw [List.mem_singleton.mp new]
            exact List.getElem_mem inside
      · rw [(List.perm_append_singleton _ _).nodup_iff]
        exact List.nodup_cons.mpr ⟨fresh, ledger.once⟩
      · intro other cause id surb waits otherCause member
        obtain ⟨old, elsewhere⟩ := waiting waits
        cases List.mem_append.mp member with
        | inl fetched => exact ledger.waiting old otherCause fetched
        | inr new =>
            rw [List.mem_singleton] at new
            subst cause
            have causes_nodup := (List.nodup_append.mp ledger.owed).2.1
            refine elsewhere (drained.trans (congrArg some ?_))
            exact (List.getElem?_inj inside causes_nodup).mp
              (cause_eq.trans otherCause.symm)
      · rw [count_eq, ledger.counted, List.length_append]
        rfl

/-! ## Whole runs -/

theorem Ledger.of_step {crypto : CryptoGotham} {sampling : Sampling ρ}
    {before after : HostingRelay host ρ} {action : HostingAction χ}
    (ledger : before.Ledger)
    (taken : before.step crypto sampling action = some after) :
    after.Ledger := by
  cases stepped_of_step taken with
  | packet arrival => exact ledger.packet arrival
  | handOver found => exact ledger.handOver found
  | mailbox stepped elsewhere => exact ledger.mailbox stepped elsewhere

theorem Guarded.of_step {crypto : CryptoGotham} {sampling : Sampling ρ}
    {prior : Log Gamma} {capacity : Nat} {ttl : Duration}
    {before after : HostingRelay host ρ} {action : HostingAction χ}
    (guarded : before.Guarded crypto prior capacity ttl)
    (ordered : before.InOrder action)
    (taken : before.step crypto sampling action = some after) :
    after.Guarded crypto prior capacity ttl := by
  cases stepped_of_step taken with
  | packet arrival => exact guarded.packet ordered
  | handOver found =>
      rw [HostingRelay.handOver]
      split <;> exact { guarded with }
  | mailbox stepped elsewhere => exact { guarded with }

/-- Every `fetch_batch` for a SURB is owed to an accepted packet of its own,
and two that are owed to one packet come from acceptances more than `ttl`
apart or with `capacity` other acceptances between them. -/
structure FetchedOnce (capacity : Nat) (ttl : Duration)
    (node : HostingRelay host ρ) : Prop where
  counted : (surbFetches node.system.log).length = node.fetches.length
  accepted : ∀ cause ∈ node.fetches, cause < node.accepted.length
  once : node.fetches.Nodup
  repeated : ∀ {first second : Nat} {earlier later : Arrival},
    first ∈ node.fetches → second ∈ node.fetches → first < second →
      node.accepted[first]? = some earlier →
        node.accepted[second]? = some later →
          earlier.packet = later.packet →
            ttl < later.replayNow - earlier.replayNow ∨
              capacity ≤ second - first - 1

theorem fetch_repeats_only_when_forgotten (crypto : CryptoGotham)
    (sampling : Sampling ρ) (host : MailboxHost Id χ) (relay : Relay)
    (rng : ρ) (clock : Instant) (mailbox : host.api.Mailbox)
    {prior : Log Gamma} (refines : relay.replayCache.Refines prior clock)
    {actions : List (HostingAction χ)} {node : HostingRelay host ρ}
    (trace : Trace (step crypto sampling) InOrder
      (start relay rng clock mailbox) actions node) :
    FetchedOnce relay.replayCache.capacity relay.replayCache.ttl node := by
  have guarded : node.Guarded crypto prior relay.replayCache.capacity
      relay.replayCache.ttl := by
    apply trace.invariant fun _ node => node.Guarded crypto prior
      relay.replayCache.capacity relay.replayCache.ttl
    · refine ⟨?_, rfl, rfl, spaced_nil _ _⟩
      rw [start, List.map_nil, List.append_nil]
      exact refines
    · intro _ _ _ _ guarded ordered taken
      exact guarded.of_step ordered taken
  have ledger : node.Ledger := by
    apply trace.invariant fun _ node => node.Ledger
    · exact ledger_start relay rng clock mailbox
    · intro _ _ _ _ ledger _ taken
      exact ledger.of_step taken
  refine ⟨ledger.counted, ?_, ledger.once, ?_⟩
  · intro cause member
    exact ledger.known (List.mem_append_right _ (ledger.caused member))
  · intro first second earlier later _ _ before hadFirst hadSecond same
    have spaced := guarded.spaced first second (earlier.entry crypto)
      (later.entry crypto) before (by rw [List.getElem?_map, hadFirst]; rfl)
      (by rw [List.getElem?_map, hadSecond]; rfl) (Arrival.entry_key same)
    rwa [Arrival.entry_time, Arrival.entry_time] at spaced

def sampleCrypto : CryptoGotham :=
  .plain 8 [{ RoutingRecord.zero with flag := 1 },
    { RoutingRecord.zero with flag := 1 }]

/-- A relay whose replay cache holds one entry for ten nanoseconds. -/
def sampleStart : HostingRelay MailboxState.sampleHost Unit :=
  start (Relay.new (Bytes.replicate 32 7) 1 10 0 0) () 0 []

def samplePacket : List UInt8 := [3, 0, 0, 0, 0, 0, 4, 2, 7, 3, 3]

def otherPacket : List UInt8 := [3, 1, 0, 0, 0, 0, 0, 0, 0, 0, 0]

/-- The fetch finds nothing, then an envelope is deposited. -/
def sampleFetch : List (HostingAction Nat) :=
  [.packet ⟨samplePacket, 0, 0⟩, .handOver 0, .mailbox (.drain 0 10),
    .mailbox (.connect [9] 100),
    .mailbox (.request 0 [0, 7, 50, 65] 20)]

/-- The packet again, within the time to live and after it. -/
def resentLate : List (HostingAction Nat) :=
  [.packet ⟨samplePacket, 10, 10⟩, .packet ⟨samplePacket, 11, 11⟩,
    .handOver 0, .mailbox (.drain 1 30)]

def resentAfterOther : List (HostingAction Nat) :=
  [.packet ⟨otherPacket, 1, 1⟩, .packet ⟨samplePacket, 2, 2⟩, .handOver 1,
    .mailbox (.drain 1 30)]

def sampleRun (actions : List (HostingAction Nat)) :
    HostingRelay MailboxState.sampleHost Unit :=
  (Trace.exec (step sampleCrypto .plain) sampleStart actions).getD sampleStart

theorem sampleRun_trace {actions : List (HostingAction Nat)}
    (possible : (Trace.exec (step sampleCrypto .plain) sampleStart
      actions).isSome)
    (ordered : Trace.Permitted (step sampleCrypto .plain) InOrder sampleStart
      actions) :
    Trace (step sampleCrypto .plain) InOrder sampleStart actions
      (sampleRun actions) :=
  Trace.of_permitted ordered possible

theorem resent_fetch_is_forgotten :
    (sampleRun (sampleFetch ++ resentLate)).fetches = [0, 1] ∧
      FetchedOnce 1 10 (sampleRun (sampleFetch ++ resentLate)) :=
  ⟨by decide +kernel, fetch_repeats_only_when_forgotten sampleCrypto .plain
    MailboxState.sampleHost (Relay.new (Bytes.replicate 32 7) 1 10 0 0) () 0 []
    (ReplayCache.refines_new 1 10 0)
    (sampleRun_trace (by decide +kernel) (by decide +kernel))⟩

/-- Both fetches are owed to the same packet, and the second one returns the
envelope that was deposited after the first. -/
def DrainsLaterMail (resent : List (HostingAction Nat)) : Prop :=
  ∃ node : HostingRelay MailboxState.sampleHost Unit,
    Trace (step sampleCrypto .plain) InOrder sampleStart
      (sampleFetch ++ resent) node ∧
    surbFetches node.system.log = [[], [[65]]] ∧
    node.fetches.filterMap (fun cause =>
      (node.accepted[cause]?).map Arrival.packet) =
        [samplePacket, samplePacket]

/-- The entry of the packet has expired, or has made room for another one. -/
theorem resent_fetch_drains_later_mail :
    DrainsLaterMail resentLate ∧ DrainsLaterMail resentAfterOther :=
  ⟨⟨_, sampleRun_trace (by decide +kernel) (by decide +kernel),
      by decide +kernel⟩,
    ⟨_, sampleRun_trace (by decide +kernel) (by decide +kernel),
      by decide +kernel⟩⟩

end HostingRelay

end GothamRelay
