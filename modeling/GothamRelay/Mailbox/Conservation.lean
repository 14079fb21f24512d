import Mathlib.Algebra.BigOperators.Group.List.Basic
import Mathlib.Algebra.Order.BigOperators.Group.List
import Mathlib.Tactic.Abel
import GothamRelay.Mailbox.System

namespace GothamRelay

open Data

variable {Id χ : Type}

/-! ## Mail that has not expired -/

/-- The envelopes among the entries that have not expired at a time. -/
def live (time : Nat) (entries : Multiset Stored) : Multiset Envelope :=
  (entries.filter fun entry => entry.unexpired time).map Stored.sealed

@[simp] theorem live_add (time : Nat) (entries more : Multiset Stored) :
    live time (entries + more) = live time entries + live time more := by
  rw [live, Multiset.filter_add, Multiset.map_add, live, live]

private theorem live_le (time : Nat) (entries : Multiset Stored) :
    live time entries ≤ entries.map Stored.sealed :=
  Multiset.map_le_map (Multiset.filter_le _ _)

private theorem live_sum (time : Nat) (parts : List (Multiset Stored)) :
    live time parts.sum = (parts.map (live time)).sum := by
  induction parts with
  | nil => rfl
  | cons entries parts ih =>
      rw [List.sum_cons, live_add, ih, List.map_cons, List.sum_cons]

private theorem live_filter {now time : Nat} (later : now ≤ time)
    (entries : Multiset Stored) :
    live time (entries.filter fun entry => entry.unexpired now) =
      live time entries := by
  rw [live, live, Multiset.filter_filter]
  congr 1
  apply Multiset.filter_congr
  intro entry _
  simp only [Stored.unexpired, decide_eq_true_eq]
  omega

private theorem live_le_renewed (time : Nat) {expiry : Nat}
    {taken : List Stored}
    (lasting : ∀ entry ∈ taken, entry.expiresAt ≤ expiry) :
    live time (taken : Multiset Stored) ≤ live time
      (((taken.map Stored.sealed).map fun envelope =>
        Stored.mk envelope expiry : List Stored) : Multiset Stored) := by
  induction taken with
  | nil => exact le_rfl
  | cons entry taken ih =>
      have rest := ih fun other member =>
        lasting other (List.mem_cons_of_mem _ member)
      have first := lasting entry List.mem_cons_self
      simp only [List.map_cons, ← Multiset.cons_coe, ← Multiset.singleton_add,
        live_add]
      refine add_le_add ?_ rest
      by_cases unexpired : entry.unexpired time = true
      · have renewed : (Stored.mk entry.sealed expiry).unexpired time =
            true := by
          simp only [Stored.unexpired, decide_eq_true_eq] at unexpired ⊢
          omega
        simp only [live, Multiset.filter_singleton, unexpired, renewed,
          if_true, Multiset.map_singleton, le_refl]
      · rw [live, Multiset.filter_singleton, if_neg unexpired,
          Multiset.empty_eq_zero, Multiset.map_zero]
        exact Multiset.zero_le _

private theorem sum_map_set (f : α → Multiset β) {entries : List α}
    {index : Nat}
    {before : α} (found : entries[index]? = some before) (after : α) :
    ((entries.set index after).map f).sum + f before =
      (entries.map f).sum + f after := by
  induction entries generalizing index with
  | nil => cases found
  | cons entry entries ih =>
      cases index with
      | zero =>
          cases found
          simp only [List.set_cons_zero, List.map_cons, List.sum_cons]
          abel
      | succ index =>
          have rest := ih found
          simp only [List.set_cons_succ, List.map_cons, List.sum_cons]
          rw [add_assoc, rest, add_assoc]

/-! ## Where mail can be -/

section Places

variable [DecidableEq Id]

def Event.accepts {api : MailboxApi Id} (id : Id) :
    Event api → Multiset Stored
  | .accepted other entry => if other = id then {entry} else 0
  | _ => 0

def Event.ships {api : MailboxApi Id} (id : Id) :
    Event api → Multiset Envelope
  | .shipped _ other sealed =>
      if other = id then (sealed : Multiset Envelope) else 0
  | _ => 0

def Task.holds {api : MailboxApi Id} (id : Id) : Task api → Multiset Envelope
  | .shipping other _ sealed _ _ _ _ =>
      if other = id then (sealed : Multiset Envelope) else 0
  | .returning other sealed _ _ _ =>
      if other = id then (sealed : Multiset Envelope) else 0
  | _ => 0

def Task.entries {api : MailboxApi Id} (id : Id) : Task api → Multiset Stored
  | .shipping other _ _ _ _ _ taken =>
      if other = id then (taken : Multiset Stored) else 0
  | .returning other _ _ _ taken =>
      if other = id then (taken : Multiset Stored) else 0
  | _ => 0

end Places

def Task.Faithful {api : MailboxApi Id} : Task api → Prop
  | .shipping _ _ sealed _ _ _ taken => taken.map Stored.sealed = sealed
  | .returning _ sealed _ _ taken => taken.map Stored.sealed = sealed
  | _ => True

namespace MailboxState

variable {host : MailboxHost Id χ}

private theorem faithful_of_stepped {before after : MailboxState host}
    {action : MailboxAction χ} (stepped : Stepped before action after)
    (faithful : ∀ task ∈ before.tasks, task.Faithful) :
    ∀ task ∈ after.tasks, task.Faithful := by
  have replaced {index : Nat} {next : Task host.api} (fine : next.Faithful) :
      ∀ task ∈ before.tasks.set index next, task.Faithful := by
    intro task member
    rcases List.mem_or_eq_of_mem_set member with old | rfl
    · exact faithful task old
    · exact fine
  cases stepped with
  | connect binding stream => exact faithful
  | request bytes now found =>
      rw [request]
      split <;> exact faithful
  | reply found pending => exact faithful
  | refuse found => exact faithful
  | ignore => exact faithful
  | spawn spawned =>
      intro task member
      cases List.mem_append.mp member with
      | inl old => exact faithful task old
      | inr new =>
          rw [List.mem_singleton.mp new]
          cases MailboxHost.spawns_of_handle spawned with
          | deposit request => trivial
          | fetch request proven parsed => trivial
  | runDeposit now found => exact replaced trivial
  | drain now found =>
      apply replaced
      split
      · trivial
      · exact (host.api.fetch_returns _ _ _ _).symm
  | ship succeeds found =>
      have held := faithful _ (List.mem_of_getElem? found)
      rw [ship]
      split
      · exact replaced held
      · split
        · exact replaced trivial
        · exact replaced held
  | redeposit found => exact replaced trivial
  | prune now => exact faithful

variable [DecidableEq Id]

def contents (state : MailboxState host) (id : Id) : Multiset Envelope :=
  (host.api.stored state.mailbox id).map Stored.sealed

def accepted (state : MailboxState host) (id : Id) : Multiset Stored :=
  (state.log.map (Event.accepts id)).sum

def shipped (state : MailboxState host) (id : Id) : Multiset Envelope :=
  (state.log.map (Event.ships id)).sum

def held (state : MailboxState host) (id : Id) : Multiset Envelope :=
  (state.tasks.map (Task.holds id)).sum

def heldEntries (state : MailboxState host) (id : Id) : Multiset Stored :=
  (state.tasks.map (Task.entries id)).sum

def kept (state : MailboxState host) (time : Nat) (id : Id) :
    Multiset Envelope :=
  live time (host.api.stored state.mailbox id + state.heldEntries id) +
    state.shipped id

/-- What a step accepts, it keeps, and all that was kept before. -/
def Keeps (time : Nat) (before after : MailboxState host) : Prop :=
  ∀ id, before.kept time id + live time (after.accepted id) ≤
    after.kept time id + live time (before.accepted id)

private theorem keeps_of_changes {time : Nat} {before after : MailboxState host}
    (events : List (Event host.api))
    (logged : after.log = before.log ++ events)
    (moved : ∀ id,
      live time (host.api.stored before.mailbox id + before.heldEntries id +
          (events.map (Event.accepts id)).sum) ≤
        live time (host.api.stored after.mailbox id + after.heldEntries id) +
          (events.map (Event.ships id)).sum) :
    Keeps time before after := by
  intro id
  have step := moved id
  simp only [kept, accepted, shipped, logged, List.map_append,
    List.sum_append, live_add] at step ⊢
  calc
    _ = live time (host.api.stored before.mailbox id) +
          live time (before.heldEntries id) +
          live time (events.map (Event.accepts id)).sum +
        ((before.log.map (Event.ships id)).sum +
          live time (before.log.map (Event.accepts id)).sum) := by abel
    _ ≤ live time (host.api.stored after.mailbox id) +
          live time (after.heldEntries id) +
          (events.map (Event.ships id)).sum +
        ((before.log.map (Event.ships id)).sum +
          live time (before.log.map (Event.accepts id)).sum) := by
      gcongr
    _ = _ := by abel

private theorem keeps_of_moved {time : Nat} {before after : MailboxState host}
    {events : List (Event host.api)}
    (logged : after.log = before.log ++ events)
    (moved : ∀ id,
      host.api.stored before.mailbox id + before.heldEntries id +
          (events.map (Event.accepts id)).sum =
        host.api.stored after.mailbox id + after.heldEntries id) :
    Keeps time before after := by
  apply keeps_of_changes events logged
  intro id
  rw [moved id]
  exact Multiset.le_add_right _ _

private theorem keeps_of_unchanged {time : Nat}
    {before after : MailboxState host} {events : List (Event host.api)}
    (logged : after.log = before.log ++ events)
    (silent : ∀ id, ∀ event ∈ events, event.accepts id = 0)
    (mailbox : after.mailbox = before.mailbox)
    (held : ∀ id, after.heldEntries id = before.heldEntries id) :
    Keeps time before after := by
  apply keeps_of_moved logged
  intro id
  have nothing : (events.map (Event.accepts id)).sum = 0 := by
    apply List.sum_eq_zero
    intro value member
    obtain ⟨event, present, rfl⟩ := List.mem_map.mp member
    exact silent id event present
  rw [nothing, add_zero, mailbox, held id]

private theorem sentEvents_silent (batch : Nat) (channel : Channel host.api)
    (response : MailboxResponse) (id : Id) :
    ∀ event ∈ host.sentEvents batch channel response,
      event.accepts id = 0 := by
  intro event member
  rw [MailboxHost.sentEvents.eq_def] at member
  split at member
  · cases List.mem_singleton.mp member
    rfl
  · cases member

private theorem heldEntries_setTask {state : MailboxState host} {task : Nat}
    {before : Task host.api} (found : state.tasks[task]? = some before)
    (after : Task host.api) (id : Id) :
    (state.setTask task after).heldEntries id + before.entries id =
      state.heldEntries id + after.entries id :=
  sum_map_set (Task.entries id) found after

/-- Among the direct requests only deposits are looked at. -/
def DepositOnly (host : MailboxHost Id χ) : MailboxAction χ → Prop
  | .request _ bytes _ => ∀ id auth,
      host.api.requestFromBytes bytes ≠ .ok (.fetch id auth)
  | _ => True

/-- A batch that is put back finds room for each of its envelopes, and none of
them is to expire earlier than it was. -/
def ReturnsAccepted (state : MailboxState host) : MailboxAction χ → Prop
  | .redeposit task => ∀ id sealed now batch taken,
      state.tasks[task]? = some (.returning id sealed now batch taken) →
        host.api.Accepts id now state.mailbox sealed ∧
          ∀ entry ∈ taken, entry.expiresAt ≤ host.api.expiry now 0
  | _ => True

def PrunesBy (time : Nat) : MailboxAction χ → Prop
  | .prune now => now ≤ time
  | _ => True

def depositEvents (id : Id) (entry : Stored) :
    Except host.api.MailboxError Unit → List (Event host.api)
  | .ok () => [.accepted id entry]
  | .error _ => []

private theorem stored_deposit (mailbox : host.api.Mailbox) (id : Id)
    (sealed : Envelope) (now ttlSecs : Nat) (other : Id) :
    let deposited := host.api.deposit mailbox id sealed now ttlSecs
    let events : List (Event host.api) :=
      depositEvents id ⟨sealed, host.api.expiry now ttlSecs⟩ deposited.1
    host.api.stored mailbox other + (events.map (Event.accepts other)).sum =
      host.api.stored deposited.2 other := by
  intro deposited events
  cases result : deposited.1 with
  | error error =>
      have none : events = [] := by
        simp only [events, result, depositEvents]
      rw [none, List.map_nil, List.sum_nil, add_zero]
      by_cases same : other = id
      · rw [same, host.api.deposit_error result]
      · rw [host.api.deposit_other same]
  | ok done =>
      have one : events =
          [.accepted id ⟨sealed, host.api.expiry now ttlSecs⟩] := by
        simp only [events, result, depositEvents]
      rw [one, List.map_singleton, List.sum_singleton, Event.accepts]
      by_cases same : other = id
      · rw [same, if_pos rfl, host.api.deposit_ok result, add_comm,
          Multiset.singleton_add]
      · rw [if_neg (Ne.symm same), add_zero, host.api.deposit_other same]

omit [DecidableEq Id] in
private theorem respond_deposit {bytes : List UInt8} {id : Id}
    {sealed : Envelope} {ttlSecs : Nat}
    (decoded : host.api.requestFromBytes bytes =
      .ok (.deposit id sealed ttlSecs))
    (binding : List UInt8) (mailbox : host.api.Mailbox) (now index : Nat) :
    let answered := host.respond binding mailbox bytes now
    let deposited := host.api.deposit mailbox id sealed now ttlSecs
    answered.2 = deposited.2 ∧
      host.requestEvents index bytes now answered.1 =
        depositEvents id ⟨sealed, host.api.expiry now ttlSecs⟩
          deposited.1 := by
  cases taken : host.api.deposit mailbox id sealed now ttlSecs with
  | mk result after =>
      cases result with
      | ok =>
          simp only [MailboxHost.respond, MailboxHost.requestEvents, decoded,
            taken, depositEvents, and_self]
      | error error =>
          simp only [MailboxHost.respond, MailboxHost.requestEvents, decoded,
            taken, depositEvents, and_self]

private theorem keeps_request {time : Nat} {state : MailboxState host}
    (index : Nat) {bytes : List UInt8} (now : Nat) (connection : Connection χ)
    (deposits : ∀ id auth,
      host.api.requestFromBytes bytes ≠ .ok (.fetch id auth)) :
    Keeps time state (state.request index bytes now connection) := by
  rw [request]
  split
  · exact keeps_of_unchanged (List.append_nil _).symm
      (fun _ _ member => nomatch member) rfl (fun _ => rfl)
  · apply keeps_of_moved rfl
    intro id
    cases decoded : host.api.requestFromBytes bytes with
    | error error =>
        simp only [MailboxHost.respond, MailboxHost.requestEvents, decoded]
        exact add_zero _
    | ok request =>
        cases request with
        | fetch other auth => exact absurd decoded (deposits other auth)
        | fetchWithSurb other surb auth =>
            simp only [MailboxHost.respond, MailboxHost.requestEvents, decoded]
            exact add_zero _
        | deposit other sealed ttlSecs =>
            obtain ⟨mailbox_eq, events_eq⟩ := respond_deposit decoded
              connection.binding state.mailbox now index
            have stored := stored_deposit state.mailbox other sealed now
              ttlSecs id
            simp only [mailbox_eq, events_eq]
            rw [add_right_comm, stored]
            rfl

private theorem keeps_runDeposit {time : Nat} {state : MailboxState host}
    {task : Nat} (now : Nat) {id : Id} {sealed : Envelope} {ttlSecs : Nat}
    (found : state.tasks[task]? = some (.deposit id sealed ttlSecs)) :
    Keeps time state (state.runDeposit task now id sealed ttlSecs) := by
  let deposited := host.api.deposit state.mailbox id sealed now ttlSecs
  have logged : (state.runDeposit task now id sealed ttlSecs).log =
      state.log ++ depositEvents id ⟨sealed, host.api.expiry now ttlSecs⟩
        deposited.1 := rfl
  apply keeps_of_moved logged
  intro other
  have stored := stored_deposit state.mailbox id sealed now ttlSecs other
  have held := heldEntries_setTask found .finished other
  simp only [Task.entries, add_zero] at held
  rw [add_right_comm, stored, ← held]
  rfl

private theorem keeps_drain {time : Nat} {state : MailboxState host}
    {task : Nat} (now : Nat) {id : Id} {surb : host.api.Surb}
    (found : state.tasks[task]? = some (.fetch id surb)) :
    Keeps time state (state.drain task now id surb) := by
  apply keeps_of_moved rfl
  intro other
  have removed := host.api.fetch_removes state.mailbox id now
    host.surbFetchBudget
  have returned := host.api.fetch_returns state.mailbox id now
    host.surbFetchBudget
  generalize selected_eq : host.api.selected state.mailbox id now
    host.surbFetchBudget = selected at removed returned
  generalize fetched : host.api.fetchBatch state.mailbox id now
    host.surbFetchBudget = result at removed returned
  have held := heldEntries_setTask found
    (if result.1.1.isEmpty then .finished
    else .shipping id surb result.1.1 result.1.2 now state.log.length
      selected) other
  have holds : (if result.1.1.isEmpty then Task.finished
      else .shipping id surb result.1.1 result.1.2 now state.log.length
        selected : Task host.api).entries other =
      if id = other then (selected : Multiset Stored) else 0 := by
    rw [returned]
    cases selected with
    | nil => simp [Task.entries]
    | cons entry selected => simp [Task.entries]
  have after : (state.drain task now id surb).heldEntries other =
      state.heldEntries other +
        if id = other then (selected : Multiset Stored) else 0 := by
    rw [holds] at held
    simp only [Task.entries, add_zero] at held
    rw [← held]
    simp only [drain, heldEntries, setTask, fetched, selected_eq]
  have mailbox : (state.drain task now id surb).mailbox = result.2 := by
    simp only [drain, fetched]
  rw [after, mailbox]
  simp only [List.map_cons, List.map_nil, List.sum_cons, List.sum_nil,
    Event.accepts, add_zero]
  by_cases same : id = other
  · subst other
    rw [if_pos rfl, removed]
    abel
  · have elsewhere : host.api.stored (host.api.fetchBatch state.mailbox id now
        host.surbFetchBudget).2 other = host.api.stored state.mailbox other :=
      host.api.fetch_other (Ne.symm same)
    rw [fetched] at elsewhere
    rw [if_neg same, add_zero, elsewhere]

private theorem keeps_ship {time : Nat} {state : MailboxState host} {task : Nat}
    (succeeds : Bool) {id : Id} {surb : host.api.Surb}
    {sealed : List Envelope} {more : Bool} {now batch : Nat}
    {taken : List Stored}
    (found : state.tasks[task]? =
      some (.shipping id surb sealed more now batch taken))
    (faithful : taken.map Stored.sealed = sealed) :
    Keeps time state
      (state.ship task succeeds id surb sealed more now batch taken) := by
  have returning (other : Id) :
      (state.setTask task
          (.returning id sealed now batch taken)).heldEntries other =
        state.heldEntries other :=
    add_right_cancel (heldEntries_setTask found _ other)
  rw [ship]
  split
  · exact keeps_of_unchanged (List.append_nil _).symm
      (fun _ _ member => nomatch member) rfl returning
  · cases succeeds with
    | false =>
        refine keeps_of_unchanged rfl ?_ rfl returning
        intro other event member
        cases List.mem_singleton.mp member
        rfl
    | true =>
        apply keeps_of_changes _ rfl
        intro other
        have held := heldEntries_setTask found .finished other
        simp only [Task.entries, add_zero] at held
        simp only [List.map_cons, List.map_nil, List.sum_cons, List.sum_nil,
          Event.ships, Event.accepts, add_zero, zero_add]
        change live time (_ + state.heldEntries other) ≤ live time
          (_ + (state.setTask task .finished).heldEntries other) + _
        rw [← held, ← add_assoc, live_add]
        refine add_le_add_right ?_ _
        split
        · rw [← faithful, ← Multiset.map_coe]
          exact live_le time _
        · exact le_rfl

private theorem keeps_redeposit {time : Nat} {state : MailboxState host}
    {task : Nat}
    {id : Id} {sealed : List Envelope} {now batch : Nat} {taken : List Stored}
    (found : state.tasks[task]? =
      some (.returning id sealed now batch taken))
    (faithful : taken.map Stored.sealed = sealed)
    (accepts : host.api.Accepts id now state.mailbox sealed)
    (lasting : ∀ entry ∈ taken, entry.expiresAt ≤ host.api.expiry now 0) :
    Keeps time state (state.redeposit task id sealed now batch) := by
  apply keeps_of_changes _ rfl
  intro other
  have held := heldEntries_setTask found .finished other
  simp only [Task.entries, add_zero] at held
  simp only [List.map_cons, List.map_nil, List.sum_cons, List.sum_nil,
    Event.ships, Event.accepts, add_zero]
  change live time (_ + state.heldEntries other) ≤ live time (host.api.stored
    (MailboxHost.depositAll host.api.toMailboxStore id now state.mailbox
      sealed) other + (state.setTask task .finished).heldEntries other)
  rw [← held]
  by_cases same : id = other
  · subst other
    obtain ⟨deposited, _, stored, whole⟩ := host.api.exists_deposited id now
      state.mailbox sealed
    rw [whole.mpr accepts, ← faithful] at stored
    rw [← faithful, stored, if_pos rfl]
    simp only [live_add]
    have renewed := live_le_renewed time lasting
    calc
      _ = live time (taken : Multiset Stored) +
          (live time (host.api.stored state.mailbox id) +
            live time ((state.setTask task .finished).heldEntries id)) := by
        abel
      _ ≤ _ + (live time (host.api.stored state.mailbox id) +
            live time ((state.setTask task .finished).heldEntries id)) :=
        add_le_add_left renewed _
      _ = _ := by abel
  · rw [if_neg same, add_zero,
      host.api.stored_depositAll_other (Ne.symm same)]

private theorem keeps_prune {time now : Nat} (later : now ≤ time)
    (state : MailboxState host) : Keeps time state (state.prune now) := by
  have logged : (state.prune now).log = state.log ++ [] :=
    (List.append_nil _).symm
  apply keeps_of_changes [] logged
  intro id
  simp only [List.map_nil, List.sum_nil, add_zero, live_add]
  change _ ≤ live time (host.api.stored
    (host.api.pruneExpired state.mailbox now) id) +
      live time (state.heldEntries id)
  rw [host.api.prune_stored, live_filter later]

private theorem keeps_of_stepped {time : Nat} {before after : MailboxState host}
    {action : MailboxAction χ} (stepped : Stepped before action after)
    (faithful : ∀ task ∈ before.tasks, task.Faithful)
    (deposits : DepositOnly host action)
    (returns : before.ReturnsAccepted action)
    (prunes : PrunesBy time action) : Keeps time before after := by
  have unchanged : Keeps time before before := fun id => le_rfl
  cases stepped with
  | connect binding stream => exact unchanged
  | request bytes now found => exact keeps_request _ now _ deposits
  | reply found pending =>
      exact keeps_of_unchanged rfl (fun id => sentEvents_silent _ _ _ id) rfl
        (fun _ => rfl)
  | refuse found => exact unchanged
  | ignore => exact unchanged
  | spawn spawned =>
      refine keeps_of_unchanged (List.append_nil _).symm
        (fun _ _ member => nomatch member) rfl ?_
      intro id
      rw [heldEntries, List.map_append, List.sum_append, List.map_singleton,
        List.sum_singleton]
      cases MailboxHost.spawns_of_handle spawned with
      | deposit request => exact add_zero _
      | fetch request proven parsed => exact add_zero _
  | runDeposit now found => exact keeps_runDeposit now found
  | drain now found => exact keeps_drain now found
  | ship succeeds found =>
      exact keeps_ship succeeds found
        (faithful _ (List.mem_of_getElem? found))
  | redeposit found =>
      obtain ⟨accepts, lasting⟩ := returns _ _ _ _ _ found
      exact keeps_redeposit found (faithful _ (List.mem_of_getElem? found))
        accepts lasting
  | prune now => exact keeps_prune prunes before

/-! ## Whole runs -/

private theorem live_heldEntries_le {state : MailboxState host} (time : Nat)
    (id : Id) (faithful : ∀ task ∈ state.tasks, task.Faithful) :
    live time (state.heldEntries id) ≤ state.held id := by
  rw [heldEntries, live_sum, List.map_map]
  apply List.sum_le_sum
  intro task member
  have same := faithful task member
  cases task with
  | deposit other sealed ttlSecs => exact le_rfl
  | fetch other surb => exact le_rfl
  | finished => exact le_rfl
  | shipping other surb sealed more now batch taken =>
      simp only [Function.comp_apply, Task.entries, Task.holds]
      split
      · rw [← same, ← Multiset.map_coe]
        exact live_le time _
      · exact le_rfl
  | returning other sealed now batch taken =>
      simp only [Function.comp_apply, Task.entries, Task.holds]
      split
      · rw [← same, ← Multiset.map_coe]
        exact live_le time _
      · exact le_rfl

/-- Whatever was in the mailbox at first or accepted by a deposit, and has not
expired at a time after all pruning, is in the mailbox, held by a fetch that
has not finished, or shipped. -/
def Conserved (mailbox : host.api.Mailbox) (actions : List (MailboxAction χ))
    (state : MailboxState host) : Prop :=
  ∀ id time, (∀ now, .prune now ∈ actions → now ≤ time) →
    live time (host.api.stored mailbox id + state.accepted id) ≤
      state.contents id + state.held id + state.shipped id

/-- In every run in which each batch that is put back finds room and is not to
expire earlier, no accepted mail is lost before it expires. -/
theorem accepted_mail_conserved {host : MailboxHost Id χ}
    (mailbox : host.api.Mailbox) {actions : List (MailboxAction χ)}
    {state : MailboxState host}
    (trace : Trace step
      (fun before action => DepositOnly host action ∧
        before.ReturnsAccepted action)
      (start host mailbox) actions state) :
    state.Conserved mailbox actions := by
  have faithful : ∀ task ∈ state.tasks, task.Faithful := by
    apply trace.invariant fun _ state => ∀ task ∈ state.tasks, task.Faithful
    · exact fun _ member => absurd member List.not_mem_nil
    · intro _ before after action faithful _ taken
      exact faithful_of_stepped (stepped_of_step taken) faithful
  intro id time pruned
  have ledger : (∀ now, .prune now ∈ actions → now ≤ time) →
      (∀ task ∈ state.tasks, task.Faithful) ∧
        live time (host.api.stored mailbox id + state.accepted id) ≤
          state.kept time id := by
    apply trace.invariant fun actions state =>
      (∀ now, .prune now ∈ actions → now ≤ time) →
        (∀ task ∈ state.tasks, task.Faithful) ∧
          live time (host.api.stored mailbox id + state.accepted id) ≤
            state.kept time id
    · intro _
      refine ⟨fun _ member => absurd member List.not_mem_nil, ?_⟩
      simp [kept, accepted, heldEntries, shipped, start]
    · intro done before after action ledger allowed taken prunedBy
      obtain ⟨faithful, within⟩ := ledger fun now member =>
        prunedBy now (List.mem_append_left _ member)
      have stepped := stepped_of_step taken
      have prunes : PrunesBy time action := by
        cases action with
        | prune now =>
            exact prunedBy now (List.mem_append_right _ List.mem_cons_self)
        | _ => trivial
      refine ⟨faithful_of_stepped stepped faithful, ?_⟩
      have moved := keeps_of_stepped stepped faithful allowed.1 allowed.2
        prunes id
      rw [live_add] at within ⊢
      apply le_of_add_le_add_right (a := live time (before.accepted id))
      calc
        _ = live time (host.api.stored mailbox id) +
              live time (before.accepted id) +
            live time (after.accepted id) := by abel
        _ ≤ before.kept time id + live time (after.accepted id) :=
          add_le_add_left within _
        _ ≤ _ := moved
  refine (ledger pruned).2.trans ?_
  rw [kept, live_add]
  exact add_le_add_left (add_le_add (live_le time _)
    (live_heldEntries_le time id faithful)) _

/-- An envelope for id 7 is deposited, and a fetch over the mixnet drains it and
fails to ship it. -/
def sampleFailedReply : List (MailboxAction Nat) :=
  [.connect [9] 100, .request 0 [0, 7, 50, 65] 10, .reply 0,
    .deliver .service [0, 0, 0, 4, 2, 7, 3, 3], .drain 0 20, .ship 0 false]

/-- The envelope was to expire at 60, and is pruned at 59. -/
def sampleReturn : List (MailboxAction Nat) :=
  sampleFailedReply ++ [.redeposit 0, .prune 59]

set_option maxRecDepth 8192 in
theorem sample_return_conserves_mail :
    (sampleRun sampleReturn).accepted 7 = {⟨[65], 60⟩} ∧
      (sampleRun sampleReturn).contents 7 = {[65]} ∧
      (sampleRun sampleReturn).Conserved [] sampleReturn := by
  refine ⟨by decide +kernel, by decide +kernel, ?_⟩
  refine @accepted_mail_conserved _ _ _ sampleHost [] sampleReturn _
    (Trace.of_permitted ?_ (by decide +kernel))
  refine ⟨⟨trivial, trivial⟩, ⟨nofun, trivial⟩, ⟨trivial, trivial⟩,
    ⟨trivial, trivial⟩, ⟨trivial, trivial⟩, ⟨trivial, trivial⟩,
    ⟨trivial, ?_⟩, ⟨trivial, trivial⟩, trivial⟩
  intro id sealed now batch taken found
  cases found
  refine ⟨⟨rfl, trivial⟩, ?_⟩
  intro entry member
  cases List.mem_singleton.mp member
  decide

/-- Before the batch is put back, a deposit for another id takes the room. -/
def sampleCrowded : List (MailboxAction Nat) :=
  sampleFailedReply ++ [.request 0 [0, 8, 50, 66] 21, .redeposit 0]

set_option maxRecDepth 8192 in
theorem refused_return_loses_mail :
    Trace step (fun _ action => DepositOnly sampleHost action)
        (start sampleHost []) sampleCrowded (sampleRun sampleCrowded) ∧
      ¬ (sampleRun sampleCrowded).Conserved [] sampleCrowded := by
  constructor
  · refine Trace.of_permitted ?_ (by decide +kernel)
    exact ⟨trivial, nofun, trivial, trivial, trivial, trivial, nofun, trivial,
      trivial⟩
  · intro conserved
    refine absurd (conserved 7 21 ?_) (by decide +kernel)
    intro now member
    simp [sampleCrowded, sampleFailedReply] at member

end MailboxState

end GothamRelay
