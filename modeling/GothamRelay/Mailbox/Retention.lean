import GothamRelay.Mailbox.Conservation

namespace GothamRelay

open Data

variable {Id χ : Type}

/-! How long mail is kept when the reply that drained it fails. -/

namespace MailboxStore

/-- A batch that is put back at once is stored as it was exactly when all of it
is accepted and each of its envelopes had the default lifetime left. -/
private theorem stored_depositAll_fetchBatch_iff (store : MailboxStore Id)
    (id : Id) (now budget : Nat) (mailbox : store.Mailbox) :
    let fetched := store.fetchBatch mailbox id now budget
    store.stored (MailboxHost.depositAll store id now fetched.2 fetched.1.1)
          id = store.stored mailbox id ↔
      (∀ entry ∈ store.selected mailbox id now budget,
        entry.expiresAt = store.expiry now 0) ∧
        store.Accepts id now fetched.2 fetched.1.1 := by
  intro fetched
  obtain ⟨deposited, part, stored, accepts⟩ :=
    store.exists_deposited id now fetched.2 fetched.1.1
  rw [stored, store.fetch_removes mailbox id now budget, add_left_inj,
    ← accepts]
  have returned : fetched.1.1 =
      (store.selected mailbox id now budget).map Stored.sealed :=
    store.fetch_returns mailbox id now budget
  constructor
  · intro same
    have sizes := congrArg Multiset.card same
    simp only [Multiset.coe_card, List.length_map] at sizes
    have whole : deposited = fetched.1.1 := by
      apply part.eq_of_length
      rw [sizes, returned, List.length_map]
    refine ⟨?_, whole⟩
    intro entry member
    have member : entry ∈ (deposited.map fun envelope =>
        Stored.mk envelope (store.expiry now 0) : List Stored) := by
      rw [← Multiset.mem_coe, same]
      exact member
    obtain ⟨envelope, _, rfl⟩ := List.mem_map.mp member
    rfl
  · rintro ⟨lifetime, rfl⟩
    rw [returned, List.map_map]
    congr 1
    conv_rhs => rw [← List.map_id (store.selected mailbox id now budget)]
    apply List.map_congr_left
    intro entry member
    rw [Function.comp_apply, ← lifetime entry member]
    rfl

end MailboxStore

def MailboxHost.Fetches (host : MailboxHost Id χ) (id : Id)
    (payload : List UInt8) : Prop :=
  ∃ surb, host.handle .service payload = some (.fetch id surb)

namespace MailboxState

variable {host : MailboxHost Id χ}

/-- A request over the mixnet whose reply fails, from its delivery at a wall
time to the end of its task, with nothing in between. There is none when the
batch is empty. -/
def failedReply (state : MailboxState host) (request : List UInt8 × Nat) :
    Option (MailboxState host) :=
  let task := state.tasks.length
  Trace.exec step state
    [.deliver .service request.1, .drain task request.2, .ship task false,
      .redeposit task]

private theorem ship_failed (state : MailboxState host) (task : Nat) (id : Id)
    (surb : host.api.Surb) (sealed : List Envelope) (more : Bool)
    (now batch : Nat) (taken : List Stored) :
    ∃ log, state.ship task false id surb sealed more now batch taken =
      { state.setTask task (.returning id sealed now batch taken) with
        log } := by
  rw [ship]
  split
  · exact ⟨state.log, rfl⟩
  · exact ⟨state.log ++ [.sent batch (.surb surb) sealed], rfl⟩

private theorem failedReply_of_fetches {id : Id} {payload : List UInt8}
    (fetches : host.Fetches id payload) (state : MailboxState host)
    (now : Nat) :
    let fetched := host.api.fetchBatch state.mailbox id now
      host.surbFetchBudget
    (fetched.1.1 = [] ∧ state.failedReply (payload, now) = none) ∨
      ∃ after, state.failedReply (payload, now) = some after ∧
        after.mailbox = MailboxHost.depositAll host.api.toMailboxStore id now
          fetched.2 fetched.1.1 := by
  intro fetched
  let taken := host.api.selected state.mailbox id now host.surbFetchBudget
  obtain ⟨surb, spawned⟩ := fetches
  have found (task : Task host.api) :
      (state.tasks ++ [task])[state.tasks.length]? = some task :=
    List.getElem?_concat_length
  have moved (before after : Task host.api) :
      (state.tasks ++ [before]).set state.tasks.length after =
        state.tasks ++ [after] := by
    rw [List.set_append_right _ _ (Nat.le_refl _), Nat.sub_self,
      List.set_cons_zero]
  by_cases empty : fetched.1.1 = []
  · refine .inl ⟨empty, ?_⟩
    simp only [failedReply, Trace.exec, step, spawned, found, drain, setTask,
      moved]
    rw [if_pos (List.isEmpty_iff.mpr empty)]
  · right
    simp only [failedReply, Trace.exec, step, spawned, found, drain, setTask,
      moved]
    rw [if_neg (mt List.isEmpty_iff.mp empty)]
    simp only
    obtain ⟨log, shipped⟩ := ship_failed
      { state with
        mailbox := fetched.2
        tasks := state.tasks ++ [.shipping id surb fetched.1.1 fetched.1.2 now
          state.log.length taken]
        log := state.log ++ [.fetched id (.surb surb) fetched.1.1] }
      state.tasks.length id surb fetched.1.1 fetched.1.2 now state.log.length
      taken
    rw [shipped]
    simp only [setTask, moved, found]
    exact ⟨_, rfl, rfl⟩

def Restorable (id : Id) (state : MailboxState host)
    (request : List UInt8 × Nat) : Prop :=
  let fetched := host.api.fetchBatch state.mailbox id request.2
    host.surbFetchBudget
  (∀ entry ∈ host.api.selected state.mailbox id request.2
      host.surbFetchBudget, entry.expiresAt = host.api.expiry request.2 0) ∧
    host.api.toMailboxStore.Accepts id request.2 fetched.2 fetched.1.1

private theorem restorable_iff {id : Id} {request : List UInt8 × Nat}
    (fetches : host.Fetches id request.1) (state : MailboxState host) :
    state.Restorable id request ↔
      ∀ after, state.failedReply request = some after →
        host.api.stored after.mailbox id =
          host.api.stored state.mailbox id := by
  have unchanged := host.api.stored_depositAll_fetchBatch_iff id request.2
    host.surbFetchBudget state.mailbox
  rcases failedReply_of_fetches fetches state request.2 with
    ⟨empty, none⟩ | ⟨after, shipped, mailbox⟩
  · refine ⟨?_, fun _ => unchanged.mp ?_⟩
    · intro _ after failed
      cases none.symm.trans failed
    · rw [empty, MailboxHost.depositAll]
      have taken := host.api.fetch_removes state.mailbox id request.2
        host.surbFetchBudget
      have returned := host.api.fetch_returns state.mailbox id request.2
        host.surbFetchBudget
      rw [empty] at returned
      rw [taken, List.map_eq_nil_iff.mp returned.symm, Multiset.coe_nil,
        zero_add]
  · rw [shipped]
    constructor
    · intro restorable after' same
      cases same
      rw [mailbox]
      exact unchanged.mpr restorable
    · intro kept
      apply unchanged.mp
      rw [← mailbox]
      exact kept after rfl

/-- Any number of consecutive failed replies leaves the mail of an id with the
expiry of its deposits exactly when each of them drained envelopes that had the
default lifetime left, and found room for all of them. -/
theorem failed_replies_keep_expiry_iff (start : MailboxState host) (id : Id)
    {requests : List (List UInt8 × Nat)}
    (authorised : ∀ request ∈ requests, host.Fetches id request.1) :
    (∀ done state, done <+: requests →
        Trace.exec failedReply start done = some state →
        host.api.stored state.mailbox id =
          host.api.stored start.mailbox id) ↔
      Trace.Permitted failedReply (Restorable id) start requests :=
  Trace.constant_iff_permitted
    (fun state => host.api.stored state.mailbox id)
    (fun state request member =>
      restorable_iff (authorised request member) state) start

def sampleFetch : List UInt8 := [0, 0, 0, 4, 2, 7, 3, 3]

set_option maxRecDepth 8192 in
private theorem sampleFetch_fetches : sampleHost.Fetches 7 sampleFetch :=
  ⟨[3, 3], rfl⟩

/-- The mail of id 7 after failed replies at the given times, when its one
envelope was to expire at the given time. -/
def sampleExpiry (expiresAt : Nat) (times : List Nat) :
    Option (Multiset Stored) :=
  (Trace.exec failedReply (start sampleHost [(7, ⟨[65], expiresAt⟩)])
      (times.map fun now => (sampleFetch, now))).map
    fun state => sampleHost.api.stored state.mailbox 7

set_option maxRecDepth 8192 in
theorem sample_reply_keeps_expiry :
    sampleExpiry 120 [20] = some {⟨[65], 120⟩} ∧
      ∀ done state, done <+: [(sampleFetch, 20)] →
        Trace.exec failedReply (start sampleHost [(7, ⟨[65], 120⟩)]) done =
          some state →
        sampleHost.api.stored state.mailbox 7 = {⟨[65], 120⟩} := by
  refine ⟨by decide +kernel, ?_⟩
  apply (failed_replies_keep_expiry_iff
    (start sampleHost [(7, ⟨[65], 120⟩)]) 7 ?_).mpr
  · refine ⟨⟨?_, rfl, trivial⟩, trivial⟩
    intro entry member
    cases List.mem_singleton.mp member
    rfl
  · intro request member
    cases List.mem_singleton.mp member
    exact sampleFetch_fetches

/-- Failed replies prolong a short lifetime, again and again, and shorten a
long one. -/
theorem failed_replies_move_expiry :
    sampleHost.Fetches 7 sampleFetch ∧
      sampleExpiry 60 [20] = some {⟨[65], 120⟩} ∧
      sampleExpiry 60 [20, 110, 200] = some {⟨[65], 300⟩} ∧
      sampleExpiry 500 [20] = some {⟨[65], 120⟩} :=
  ⟨sampleFetch_fetches, by decide +kernel, by decide +kernel,
    by decide +kernel⟩

end MailboxState

end GothamRelay
