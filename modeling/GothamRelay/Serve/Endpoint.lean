import GothamRelay.Data.Ledger
import GothamRelay.Data.Transition

namespace GothamRelay

open Data

/-! The accept loop of `serve_endpoint_with_services_shared` and the tasks it
spawns, one for each connection that gets a permit. -/

def byteString (text : List Char) : List UInt8 :=
  text.map fun letter => UInt8.ofNat letter.toNat

def mailboxAlpn : List UInt8 :=
  byteString ['g', 'o', 't', 'h', 'a', 'm', '-', 'm', 'b', 'x', '/', '1']

def gossipAlpn : List UInt8 :=
  byteString ['g', 'o', 't', 'h', 'a', 'm', '-', 'd', 'i', 'r', '/', '1']

def rendezvousAlpn : List UInt8 :=
  byteString ['g', 'o', 't', 'h', 'a', 'm', '-', 'r', 'd', 'v', '/', '1']

def rendezvousQueryAlpn : List UInt8 :=
  byteString ['g', 'o', 't', 'h', 'a', 'm', '-', 'r', 'd', 'v', 'q', '/', '1']

structure EndpointServices where
  mailbox : Bool
  gossip : Bool

inductive Service where
  | mailbox
  | gossip
  | rendezvous
  | rendezvousQuery
  | mixnet
  deriving DecidableEq

/-- The arguments of `conn.close`. -/
structure ConnectionClose where
  code : UInt32
  reason : String
  deriving DecidableEq

namespace EndpointServices

/-- The match on the negotiated protocol, `none` if there is none. -/
def dispatch (services : EndpointServices) :
    Option (List UInt8) → Except ConnectionClose Service
  | none => .ok .mixnet
  | some alpn =>
      if alpn = mailboxAlpn then
        if services.mailbox then .ok .mailbox
        else .error ⟨1, "no mailbox here"⟩
      else if alpn = gossipAlpn then
        if services.gossip then .ok .gossip
        else .error ⟨1, "no gossip here"⟩
      else if alpn = rendezvousAlpn then .ok .rendezvous
      else if alpn = rendezvousQueryAlpn then .ok .rendezvousQuery
      else .ok .mixnet

end EndpointServices

inductive InboundPhase where
  | connecting
  | serving (alpn : Option (List UInt8)) (service : Service)
  | refused (alpn : Option (List UInt8)) (close : ConnectionClose)
  | failed
  | served (alpn : Option (List UInt8)) (service : Service)

def InboundPhase.live : InboundPhase → Bool
  | connecting => true
  | serving _ _ => true
  | refused _ _ => false
  | failed => false
  | served _ _ => false

/-- `shed` has the number of live tasks at each connection that got no permit.
Nothing reads it, or `accepted`. -/
structure InboundEndpoint where
  permits : Nat
  tasks : List InboundPhase
  accepted : Nat
  shed : List Nat

inductive InboundAction where
  | accept
  | connected (task : Nat) (alpn : Option (List UInt8))
  | connectionFailed (task : Nat)
  | finished (task : Nat)

def maxInflightConns : Nat := 1024

namespace InboundEndpoint

def start : InboundEndpoint := ⟨maxInflightConns, [], 0, []⟩

def live (endpoint : InboundEndpoint) : Nat :=
  endpoint.tasks.countP InboundPhase.live

def setPhase (endpoint : InboundEndpoint) (task : Nat)
    (phase : InboundPhase) : InboundEndpoint :=
  { endpoint with tasks := endpoint.tasks.set task phase }

/-- A task ends, and with it its `_permit`. -/
def finish (endpoint : InboundEndpoint) (task : Nat)
    (phase : InboundPhase) : InboundEndpoint :=
  { endpoint.setPhase task phase with permits := endpoint.permits + 1 }

def step (services : EndpointServices) (endpoint : InboundEndpoint) :
    InboundAction → Option InboundEndpoint
  | .accept =>
      let accepted := endpoint.accepted + 1
      -- `try_acquire_owned` fails when no permit is left.
      if endpoint.permits = 0 then
        some { endpoint with
          accepted, shed := endpoint.shed ++ [endpoint.live] }
      else
        some { endpoint with
          accepted
          permits := endpoint.permits - 1
          tasks := endpoint.tasks ++ [.connecting] }
  | .connected task alpn =>
      match endpoint.tasks[task]? with
      | some .connecting =>
          match services.dispatch alpn with
          | .ok service => some (endpoint.setPhase task (.serving alpn service))
          | .error close => some (endpoint.finish task (.refused alpn close))
      | _ => none
  | .connectionFailed task =>
      match endpoint.tasks[task]? with
      | some .connecting => some (endpoint.finish task .failed)
      | _ => none
  | .finished task =>
      match endpoint.tasks[task]? with
      | some (.serving alpn service) =>
          some (endpoint.finish task (.served alpn service))
      | _ => none

end InboundEndpoint

/-! ## What a protocol leads to -/

def Service.Offered (services : EndpointServices)
    (alpn : Option (List UInt8)) : Service → Prop
  | .mailbox => alpn = some mailboxAlpn ∧ services.mailbox = true
  | .gossip => alpn = some gossipAlpn ∧ services.gossip = true
  | .rendezvous => alpn = some rendezvousAlpn
  | .rendezvousQuery => alpn = some rendezvousQueryAlpn
  | .mixnet =>
      alpn ≠ some mailboxAlpn ∧ alpn ≠ some gossipAlpn ∧
        alpn ≠ some rendezvousAlpn ∧ alpn ≠ some rendezvousQueryAlpn

def ConnectionClose.Due (services : EndpointServices)
    (alpn : Option (List UInt8)) (close : ConnectionClose) : Prop :=
  (alpn = some mailboxAlpn ∧ services.mailbox = false ∧
      close = ⟨1, "no mailbox here"⟩) ∨
    (alpn = some gossipAlpn ∧ services.gossip = false ∧
      close = ⟨1, "no gossip here"⟩)

namespace EndpointServices

private theorem dispatch_cases (services : EndpointServices)
    (alpn : Option (List UInt8)) :
    (∃ service, services.dispatch alpn = .ok service ∧
        service.Offered services alpn) ∨
      ∃ close, services.dispatch alpn = .error close ∧
        close.Due services alpn := by
  cases alpn with
  | none => exact .inl ⟨.mixnet, rfl, by simp [Service.Offered]⟩
  | some alpn =>
      rw [dispatch]
      by_cases mailbox : alpn = mailboxAlpn
      · subst alpn
        rw [if_pos rfl]
        cases given : services.mailbox with
        | true => exact .inl ⟨.mailbox, rfl, rfl, given⟩
        | false => exact .inr ⟨_, rfl, .inl ⟨rfl, given, rfl⟩⟩
      · rw [if_neg mailbox]
        by_cases gossip : alpn = gossipAlpn
        · subst alpn
          rw [if_pos rfl]
          cases given : services.gossip with
          | true => exact .inl ⟨.gossip, rfl, rfl, given⟩
          | false => exact .inr ⟨_, rfl, .inr ⟨rfl, given, rfl⟩⟩
        · rw [if_neg gossip]
          by_cases rendezvous : alpn = rendezvousAlpn
          · rw [if_pos rendezvous, rendezvous]
            exact .inl ⟨.rendezvous, rfl, rfl⟩
          · rw [if_neg rendezvous]
            by_cases query : alpn = rendezvousQueryAlpn
            · rw [if_pos query, query]
              exact .inl ⟨.rendezvousQuery, rfl, rfl⟩
            · rw [if_neg query]
              refine .inl ⟨.mixnet, rfl, ?_⟩
              simp [Service.Offered, mailbox, gossip, rendezvous, query]

end EndpointServices

namespace InboundEndpoint

/-! ## Whole runs -/

/-- A task serves what its protocol asks for, or was refused for the lack of
it. -/
def Proper (services : EndpointServices) : InboundPhase → Prop
  | .connecting => True
  | .failed => True
  | .serving alpn service => service.Offered services alpn
  | .served alpn service => service.Offered services alpn
  | .refused alpn close => close.Due services alpn

/-- Every permit is free or held by a live task. A connection is shed only when
as many are live as there are permits, and any other becomes a task. -/
structure Conserves (services : EndpointServices)
    (endpoint : InboundEndpoint) : Prop where
  permits : endpoint.permits + endpoint.live = maxInflightConns
  accounted : endpoint.accepted =
    endpoint.tasks.length + endpoint.shed.length
  full : ∀ live ∈ endpoint.shed, live = maxInflightConns
  proper : ∀ phase ∈ endpoint.tasks, Proper services phase

namespace Conserves

variable {services : EndpointServices} {endpoint : InboundEndpoint}

theorem setPhase (conserves : endpoint.Conserves services) {task : Nat}
    {before after : InboundPhase}
    (found : endpoint.tasks[task]? = some before)
    (held : before.live = true) (kept : after.live = true)
    (proper : Proper services after) :
    (endpoint.setPhase task after).Conserves services where
  permits := by
    have moved := countP_set InboundPhase.live found after
    simp only [held, kept, if_true] at moved
    have same : (endpoint.setPhase task after).live = endpoint.live :=
      Nat.add_right_cancel moved
    rw [same]
    exact conserves.permits
  accounted := by
    rw [InboundEndpoint.setPhase, List.length_set]
    exact conserves.accounted
  full := conserves.full
  proper := by
    intro phase member
    cases List.mem_or_eq_of_mem_set member with
    | inl old => exact conserves.proper phase old
    | inr new => exact new ▸ proper

theorem finish (conserves : endpoint.Conserves services) {task : Nat}
    {before after : InboundPhase}
    (found : endpoint.tasks[task]? = some before)
    (held : before.live = true) (ended : after.live = false)
    (proper : Proper services after) :
    (endpoint.finish task after).Conserves services where
  permits := by
    have moved := countP_set InboundPhase.live found after
    simp only [held, ended, if_true, Bool.false_eq_true, if_false] at moved
    have fewer : (endpoint.finish task after).live + 1 = endpoint.live := moved
    have total := conserves.permits
    change endpoint.permits + 1 + (endpoint.finish task after).live = _
    omega
  accounted := by
    rw [InboundEndpoint.finish, InboundEndpoint.setPhase, List.length_set]
    exact conserves.accounted
  full := conserves.full
  proper := by
    intro phase member
    cases List.mem_or_eq_of_mem_set member with
    | inl old => exact conserves.proper phase old
    | inr new => exact new ▸ proper

theorem accept (conserves : endpoint.Conserves services)
    {after : InboundEndpoint}
    (taken : endpoint.step services .accept = some after) :
    after.Conserves services := by
  have total := conserves.permits
  rw [step] at taken
  split at taken
  · rename_i empty
    cases taken
    refine ⟨total, ?_, ?_, conserves.proper⟩
    · simp only [conserves.accounted, List.length_append,
        List.length_singleton, Nat.add_assoc]
    · intro live member
      cases List.mem_append.mp member with
      | inl old => exact conserves.full live old
      | inr new =>
          rw [empty, Nat.zero_add] at total
          exact (List.mem_singleton.mp new).trans total
  · rename_i some
    cases taken
    refine ⟨?_, ?_, conserves.full, ?_⟩
    · simp only [live, List.countP_append, List.countP_singleton,
        InboundPhase.live, if_true] at total ⊢
      omega
    · simp only [conserves.accounted, List.length_append,
        List.length_singleton]
      omega
    · intro phase member
      cases List.mem_append.mp member with
      | inl old => exact conserves.proper phase old
      | inr new =>
          rw [List.mem_singleton.mp new]
          trivial

theorem of_step (conserves : endpoint.Conserves services)
    {after : InboundEndpoint} {action : InboundAction}
    (taken : endpoint.step services action = some after) :
    after.Conserves services := by
  cases action with
  | accept => exact conserves.accept taken
  | connected task alpn =>
      rw [step] at taken
      split at taken
      · rename_i found
        rcases services.dispatch_cases alpn with
          ⟨service, chosen, offered⟩ | ⟨close, refused, due⟩
        · simp only [chosen] at taken
          cases taken
          exact conserves.setPhase found rfl rfl offered
        · simp only [refused] at taken
          cases taken
          exact conserves.finish found rfl rfl due
      · cases taken
  | connectionFailed task =>
      rw [step] at taken
      split at taken <;> cases taken
      rename_i found
      exact conserves.finish found rfl rfl trivial
  | finished task =>
      rw [step] at taken
      split at taken <;> cases taken
      rename_i found
      have offered := conserves.proper _ (List.mem_of_getElem? found)
      exact conserves.finish found rfl rfl offered

end Conserves

def sampleInbound : List InboundAction :=
  [.accept, .accept, .connected 1 (some rendezvousQueryAlpn), .accept,
    .connected 0 (some mailboxAlpn), .connectionFailed 2, .finished 1,
    .accept, .connected 3 none]

def sampleEndpoint : InboundEndpoint :=
  (Trace.exec (step ⟨false, true⟩) start sampleInbound).getD start

end InboundEndpoint

end GothamRelay
