import Mathlib.Order.Basic
import GothamRelay.Data.Ledger
import GothamRelay.Data.Transition
import GothamRelay.Transport.Noise

namespace GothamRelay

open Data

/-! Any number of calls of `serve_gossip_connection` on one roster. The roster
is locked twice for a request, once to merge what the peer sent and once to
copy it for the reply, and between the two others may merge. -/

/-- What `serve_gossip_connection` calls on rosters. -/
structure GossipApi where
  Roster : Type
  AuthoritySet : Type
  Verified : Type
  maxMailboxFrame : Nat
  fromSlice : List UInt8 → Option Roster
  toVecNamed : Roster → Option (List UInt8)
  verifyIncoming : Roster → AuthoritySet → Nat → Verified
  spliceVerified : Roster → Verified → Nat × Roster

def maxGossipFrame : Nat := 4 * 1024 * 1024

/-- A copy of the roster that was sent. Nothing reads `seen`, the number of
merges at the time it was copied. -/
structure GossipReply (api : GossipApi) where
  roster : api.Roster
  seen : Nat

inductive GossipPhase (api : GossipApi) where
  | reading
  | splicing (verified : api.Verified)
  | cloning
  | writing (ours : GossipReply api)
  | ended (result : Except TransportError Unit)

/-- `asked` has what was verified of each request, `none` for one that is not
a roster, and `replies` the answers. Nothing reads them. -/
structure GossipConnection (api : GossipApi) where
  phase : GossipPhase api
  asked : List (Option api.Verified)
  replies : List (GossipReply api)

/-- `merges` records what was merged, with the connection it came from. -/
structure GossipServer (api : GossipApi) where
  roster : api.Roster
  connections : List (GossipConnection api)
  merges : List (Nat × api.Verified)

inductive GossipAction where
  | connect
  | receive (connection : Nat) (blob : List UInt8) (now : Nat)
  | readFails (connection : Nat) (error : TransportError)
  | splice (connection : Nat)
  | clone (connection : Nat)
  | reply (connection : Nat) (result : Except TransportError Unit)

namespace GossipServer

variable {api : GossipApi}

def start (roster : api.Roster) : GossipServer api := ⟨roster, [], []⟩

def setConnection (server : GossipServer api) (index : Nat)
    (connection : GossipConnection api) : GossipServer api :=
  { server with connections := server.connections.set index connection }

def readError : TransportError → Except TransportError Unit
  | .read | .io => .ok ()
  | error => .error error

/-- `write_noise_blob` of the serialised roster. `result` is what the stream
says to a blob that is not too long. -/
def writeRoster (api : GossipApi) (ours : api.Roster)
    (result : Except TransportError Unit) : Except TransportError Unit :=
  match api.toVecNamed ours with
  | none => .error .badHandshake
  | some bytes =>
      if bytes.length > api.maxMailboxFrame then .error .badHandshake
      else result

def receive (set : api.AuthoritySet) (server : GossipServer api)
    (index : Nat) (connection : GossipConnection api) (blob : List UInt8)
    (now : Nat) : GossipServer api :=
  match api.fromSlice blob with
  | some peer =>
      let verified := api.verifyIncoming peer set now
      server.setConnection index
        { connection with
          phase := .splicing verified
          asked := connection.asked ++ [some verified] }
  | none =>
      server.setConnection index
        { connection with
          phase := .cloning, asked := connection.asked ++ [none] }

def splice (server : GossipServer api) (index : Nat)
    (connection : GossipConnection api) (verified : api.Verified) :
    GossipServer api :=
  { server.setConnection index { connection with phase := .cloning } with
    roster := (api.spliceVerified server.roster verified).2
    merges := server.merges ++ [(index, verified)] }

def clone (server : GossipServer api) (index : Nat)
    (connection : GossipConnection api) : GossipServer api :=
  server.setConnection index
    { connection with
      phase := .writing ⟨server.roster, server.merges.length⟩ }

def reply (server : GossipServer api) (index : Nat)
    (connection : GossipConnection api) (ours : GossipReply api)
    (result : Except TransportError Unit) : GossipServer api :=
  match writeRoster api ours.roster result with
  | .ok () =>
      server.setConnection index
        { connection with
          phase := .reading, replies := connection.replies ++ [ours] }
  | .error error =>
      server.setConnection index
        { connection with phase := .ended (.error error) }

def step (set : api.AuthoritySet) (server : GossipServer api) :
    GossipAction → Option (GossipServer api)
  | .connect =>
      some { server with
        connections := server.connections ++ [⟨.reading, [], []⟩] }
  | .receive index blob now =>
      match server.connections[index]? with
      | some ⟨.reading, asked, replies⟩ =>
          if blob.length ≤ maxGossipFrame then
            some (server.receive set index ⟨.reading, asked, replies⟩ blob now)
          else none
      | _ => none
  | .readFails index error =>
      match server.connections[index]? with
      | some ⟨.reading, asked, replies⟩ =>
          some (server.setConnection index
            ⟨.ended (readError error), asked, replies⟩)
      | _ => none
  | .splice index =>
      match server.connections[index]? with
      | some ⟨.splicing verified, asked, replies⟩ =>
          some (server.splice index ⟨.splicing verified, asked, replies⟩
            verified)
      | _ => none
  | .clone index =>
      match server.connections[index]? with
      | some ⟨.cloning, asked, replies⟩ =>
          some (server.clone index ⟨.cloning, asked, replies⟩)
      | _ => none
  | .reply index result =>
      match server.connections[index]? with
      | some ⟨.writing ours, asked, replies⟩ =>
          some (server.reply index ⟨.writing ours, asked, replies⟩ ours result)
      | _ => none

/-! ## The roster as a log of merges -/

def merged (initial : api.Roster) (merges : List (Nat × api.Verified)) :
    api.Roster :=
  merges.foldl (fun roster merge => (api.spliceVerified roster merge.2).2)
    initial

def ofConnection (index : Nat) (merges : List (Nat × api.Verified)) :
    List api.Verified :=
  (merges.filter fun merge => merge.1 = index).map Prod.snd

@[simp] theorem ofConnection_append (index : Nat)
    (merges more : List (Nat × api.Verified)) :
    ofConnection index (merges ++ more) =
      ofConnection index merges ++ ofConnection index more := by
  simp [ofConnection]

@[simp] theorem ofConnection_own (index : Nat) (verified : api.Verified) :
    ofConnection index [(index, verified)] = [verified] := by
  simp [ofConnection]

private theorem ofConnection_other {index other : Nat}
    (different : other ≠ index)
    (verified : api.Verified) : ofConnection index [(other, verified)] = [] := by
  simp [ofConnection, different]

/-- The reply is the roster after a part of the merges, among them what its
connection had `asked`, in that order. -/
structure Explained (initial : api.Roster)
    (merges : List (Nat × api.Verified)) (index : Nat)
    (asked : List (Option api.Verified)) (reply : GossipReply api) :
    Prop where
  inside : reply.seen ≤ merges.length
  roster : reply.roster = merged initial (merges.take reply.seen)
  own : ofConnection index (merges.take reply.seen) = asked.filterMap id

theorem Explained.extend {initial : api.Roster}
    {merges : List (Nat × api.Verified)} {index : Nat}
    {asked : List (Option api.Verified)} {reply : GossipReply api}
    (explained : Explained initial merges index asked reply)
    (more : List (Nat × api.Verified)) :
    Explained initial (merges ++ more) index asked reply := by
  obtain ⟨inside, roster, own⟩ := explained
  refine ⟨?_, ?_, ?_⟩
  · rw [List.length_append]
    omega
  · rw [List.take_append_of_le_length inside]
    exact roster
  · rw [List.take_append_of_le_length inside]
    exact own

inductive InStep (initial : api.Roster) (merges : List (Nat × api.Verified))
    (index : Nat) (connection : GossipConnection api) :
    GossipPhase api → Prop where
  | reading
      (own : ofConnection index merges = connection.asked.filterMap id)
      (answered : connection.replies.length = connection.asked.length) :
      InStep initial merges index connection .reading
  | splicing {verified : api.Verified} {before : List (Option api.Verified)}
      (asked : connection.asked = before ++ [some verified])
      (own : ofConnection index merges = before.filterMap id)
      (answered : connection.replies.length = before.length) :
      InStep initial merges index connection (.splicing verified)
  | cloning
      (own : ofConnection index merges = connection.asked.filterMap id)
      (answered : connection.replies.length + 1 = connection.asked.length) :
      InStep initial merges index connection .cloning
  | writing {ours : GossipReply api}
      (own : ofConnection index merges = connection.asked.filterMap id)
      (answered : connection.replies.length + 1 = connection.asked.length)
      (explained : Explained initial merges index connection.asked ours)
      (latest : ∀ reply ∈ connection.replies, reply.seen ≤ ours.seen) :
      InStep initial merges index connection (.writing ours)
  | ended {result : Except TransportError Unit} :
      InStep initial merges index connection (.ended result)

def Sendable (api : GossipApi) (roster : api.Roster) : Prop :=
  ∃ bytes, api.toVecNamed roster = some bytes ∧
    bytes.length ≤ api.maxMailboxFrame

private theorem sendable_of_writeRoster {ours : api.Roster}
    {result : Except TransportError Unit}
    (written : writeRoster api ours result = .ok ()) : Sendable api ours := by
  rw [writeRoster] at written
  split at written
  · cases written
  · rename_i bytes serialised
    split at written
    · cases written
    · rename_i short
      exact ⟨bytes, serialised, Nat.not_lt.mp short⟩

/-- The replies of a connection are of longer and longer parts of the merges,
and the reply to a request has all in it that the connection had sent by
then. -/
structure Answered (initial : api.Roster)
    (merges : List (Nat × api.Verified)) (index : Nat)
    (connection : GossipConnection api) : Prop where
  explained : ∀ {position : Nat} {reply : GossipReply api},
    connection.replies[position]? = some reply →
      Explained initial merges index
        (connection.asked.take (position + 1)) reply
  ordered : connection.replies.Pairwise fun first second =>
    first.seen ≤ second.seen
  within : connection.replies.length ≤ connection.asked.length
  sendable : ∀ reply ∈ connection.replies, Sendable api reply.roster

structure Sound (initial : api.Roster) (server : GossipServer api) :
    Prop where
  roster : server.roster = merged initial server.merges
  known : ∀ merge ∈ server.merges, merge.1 < server.connections.length
  answered : ∀ {index : Nat} {connection : GossipConnection api},
    server.connections[index]? = some connection →
      Answered initial server.merges index connection
  inStep : ∀ {index : Nat} {connection : GossipConnection api},
    server.connections[index]? = some connection →
      InStep initial server.merges index connection connection.phase

theorem Answered.extend {initial : api.Roster}
    {merges : List (Nat × api.Verified)} {index : Nat}
    {connection : GossipConnection api}
    (answered : Answered initial merges index connection)
    (more : List (Nat × api.Verified)) :
    Answered initial (merges ++ more) index connection where
  explained found := (answered.explained found).extend more
  ordered := answered.ordered
  within := answered.within
  sendable := answered.sendable

private theorem InStep.extend_other {initial : api.Roster}
    {merges : List (Nat × api.Verified)} {index other : Nat}
    {connection : GossipConnection api} {phase : GossipPhase api}
    (inStep : InStep initial merges index connection phase)
    (different : other ≠ index) (verified : api.Verified) :
    InStep initial (merges ++ [(other, verified)]) index connection phase := by
  have same : ofConnection index (merges ++ [(other, verified)]) =
      ofConnection index merges := by
    rw [ofConnection_append, ofConnection_other different, List.append_nil]
  cases inStep with
  | reading own answered => exact .reading (same.trans own) answered
  | splicing asked own answered =>
      exact .splicing asked (same.trans own) answered
  | cloning own answered => exact .cloning (same.trans own) answered
  | writing own answered explained latest =>
      exact .writing (same.trans own) answered (explained.extend _) latest
  | ended => exact .ended

private theorem Answered.ask {initial : api.Roster}
    {merges : List (Nat × api.Verified)} {index : Nat}
    {connection : GossipConnection api}
    (answered : Answered initial merges index connection)
    (phase : GossipPhase api) (request : Option api.Verified) :
    Answered initial merges index
      ⟨phase, connection.asked ++ [request], connection.replies⟩ where
  explained := by
    intro position reply found
    have inside := (List.getElem?_eq_some_iff.mp found).1
    have within := answered.within
    simp only at inside
    rw [List.take_append_of_le_length (by omega)]
    exact answered.explained found
  ordered := answered.ordered
  within := answered.within.trans
    (List.length_append ▸ Nat.le_add_right _ _)
  sendable := answered.sendable

theorem Answered.reply {initial : api.Roster}
    {merges : List (Nat × api.Verified)} {index : Nat}
    {connection : GossipConnection api}
    (answered : Answered initial merges index connection)
    (phase : GossipPhase api) {ours : GossipReply api}
    (due : connection.replies.length + 1 = connection.asked.length)
    (explained : Explained initial merges index connection.asked ours)
    (latest : ∀ reply ∈ connection.replies, reply.seen ≤ ours.seen)
    (sendable : Sendable api ours.roster) :
    Answered initial merges index
      ⟨phase, connection.asked, connection.replies ++ [ours]⟩ where
  explained := by
    intro position reply found
    rcases getElem?_concat_cases found with old | ⟨rfl, rfl⟩
    · exact answered.explained old
    · rw [due, List.take_length]
      exact explained
  ordered := by
    rw [List.pairwise_append]
    refine ⟨answered.ordered, List.pairwise_singleton _ _, ?_⟩
    intro earlier member later same
    rw [List.mem_singleton.mp same]
    exact latest earlier member
  within := by
    rw [List.length_append, List.length_singleton]
    exact due.le
  sendable := by
    intro reply member
    cases List.mem_append.mp member with
    | inl old => exact answered.sendable reply old
    | inr new => exact List.mem_singleton.mp new ▸ sendable

namespace Sound

variable {initial : api.Roster} {server : GossipServer api}

theorem setConnection (sound : server.Sound initial) {index : Nat}
    {connection : GossipConnection api}
    (answered : Answered initial server.merges index connection)
    (inStep : InStep initial server.merges index connection
      connection.phase) :
    (server.setConnection index connection).Sound initial where
  roster := sound.roster
  known merge member := by
    rw [GossipServer.setConnection, List.length_set]
    exact sound.known merge member
  answered found := by
    rcases getElem?_set_cases found with ⟨rfl, rfl⟩ | ⟨_, old⟩
    · exact answered
    · exact sound.answered old
  inStep found := by
    rcases getElem?_set_cases found with ⟨rfl, rfl⟩ | ⟨_, old⟩
    · exact inStep
    · exact sound.inStep old

private theorem ofConnection_new (sound : server.Sound initial) :
    ofConnection server.connections.length server.merges = [] := by
  rw [ofConnection, List.map_eq_nil_iff, List.filter_eq_nil_iff]
  intro merge member
  simp only [decide_eq_true_eq]
  exact Nat.ne_of_lt (sound.known merge member)

theorem connect (sound : server.Sound initial) :
    Sound initial { server with
      connections := server.connections ++ [⟨.reading, [], []⟩] } where
  roster := sound.roster
  known merge member := by
    rw [List.length_append]
    exact Nat.lt_add_right _ (sound.known merge member)
  answered found := by
    rcases getElem?_concat_cases found with old | ⟨rfl, rfl⟩
    · exact sound.answered old
    · exact ⟨fun found => absurd (List.mem_of_getElem? found)
        List.not_mem_nil, .nil, Nat.le_refl 0,
        fun _ member => absurd member List.not_mem_nil⟩
  inStep found := by
    rcases getElem?_concat_cases found with old | ⟨rfl, rfl⟩
    · exact sound.inStep old
    · exact .reading sound.ofConnection_new rfl

private theorem receive (sound : server.Sound initial) (set : api.AuthoritySet)
    {index : Nat} {asked : List (Option api.Verified)}
    {replies : List (GossipReply api)}
    (found : server.connections[index]? = some ⟨.reading, asked, replies⟩)
    (blob : List UInt8) (now : Nat) :
    (server.receive set index ⟨.reading, asked, replies⟩ blob now).Sound
      initial := by
  have answered := sound.answered found
  have inStep := sound.inStep found
  cases inStep with
  | reading own even =>
      unfold GossipServer.receive
      split
      · exact sound.setConnection (answered.ask _ _) (.splicing rfl own even)
      · refine sound.setConnection (answered.ask _ _) (.cloning ?_ ?_)
        · simpa using own
        · simpa using even

theorem splice (sound : server.Sound initial) {index : Nat}
    {verified : api.Verified} {asked : List (Option api.Verified)}
    {replies : List (GossipReply api)}
    (found : server.connections[index]? =
      some ⟨.splicing verified, asked, replies⟩) :
    (server.splice index ⟨.splicing verified, asked, replies⟩
      verified).Sound initial := by
  have answered := sound.answered found
  have inStep := sound.inStep found
  cases inStep with
  | @splicing _ before asked_eq own even =>
      simp only at asked_eq even
      refine ⟨?_, ?_, ?_, ?_⟩
      · simp only [GossipServer.splice, merged, List.foldl_append,
          List.foldl_cons, List.foldl_nil]
        rw [sound.roster, merged]
      · intro merge member
        simp only [GossipServer.splice, GossipServer.setConnection,
          List.length_set]
        cases List.mem_append.mp member with
        | inl old => exact sound.known merge old
        | inr new =>
            rw [List.mem_singleton.mp new]
            exact (List.getElem?_eq_some_iff.mp found).1
      · intro other connection changed
        rcases getElem?_set_cases changed with ⟨rfl, rfl⟩ | ⟨_, old⟩
        · exact { answered.extend [(other, verified)] with }
        · exact (sound.answered old).extend _
      · intro other connection changed
        rcases getElem?_set_cases changed with ⟨rfl, rfl⟩ | ⟨different, old⟩
        · refine .cloning ?_ ?_
          · rw [GossipServer.splice, ofConnection_append, own,
              ofConnection_own, asked_eq, List.filterMap_append]
            rfl
          · rw [asked_eq, List.length_append, even]
            rfl
        · exact (sound.inStep old).extend_other different.symm verified

private theorem clone (sound : server.Sound initial) {index : Nat}
    {asked : List (Option api.Verified)} {replies : List (GossipReply api)}
    (found : server.connections[index]? = some ⟨.cloning, asked, replies⟩) :
    (server.clone index ⟨.cloning, asked, replies⟩).Sound initial := by
  have answered := sound.answered found
  have inStep := sound.inStep found
  cases inStep with
  | cloning own due =>
      refine sound.setConnection { answered with } (.writing own due ?_ ?_)
      · refine ⟨Nat.le_refl _, ?_, ?_⟩
        · rw [List.take_length]
          exact sound.roster
        · rw [List.take_length]
          exact own
      · intro reply member
        obtain ⟨position, here⟩ := List.getElem?_of_mem member
        exact (answered.explained here).inside

theorem reply (sound : server.Sound initial) {index : Nat}
    {ours : GossipReply api} {asked : List (Option api.Verified)}
    {replies : List (GossipReply api)}
    (found : server.connections[index]? =
      some ⟨.writing ours, asked, replies⟩)
    (result : Except TransportError Unit) :
    (server.reply index ⟨.writing ours, asked, replies⟩ ours result).Sound
      initial := by
  have answered := sound.answered found
  have inStep := sound.inStep found
  cases inStep with
  | writing own due explained latest =>
      unfold GossipServer.reply
      split
      · rename_i written
        refine sound.setConnection (answered.reply .reading due explained
          latest (sendable_of_writeRoster written)) (.reading own ?_)
        rw [List.length_append]
        exact due
      · exact sound.setConnection { answered with } .ended

theorem of_step (sound : server.Sound initial) {set : api.AuthoritySet}
    {after : GossipServer api} {action : GossipAction}
    (taken : server.step set action = some after) : after.Sound initial := by
  cases action with
  | connect =>
      cases taken
      exact sound.connect
  | receive index blob now =>
      rw [step] at taken
      split at taken
      · rename_i found
        split at taken <;> cases taken
        exact sound.receive set found blob now
      · cases taken
  | readFails index error =>
      rw [step] at taken
      split at taken <;> cases taken
      rename_i found
      exact sound.setConnection { sound.answered found with } .ended
  | splice index =>
      rw [step] at taken
      split at taken <;> cases taken
      rename_i found
      exact sound.splice found
  | clone index =>
      rw [step] at taken
      split at taken <;> cases taken
      rename_i found
      exact sound.clone found
  | reply index result =>
      rw [step] at taken
      split at taken <;> cases taken
      rename_i found
      exact sound.reply found result

end Sound

/-! ## Whole runs -/

section Grows

variable [Preorder api.Roster]
  (grows : ∀ (roster : api.Roster) (verified : api.Verified),
    roster ≤ (api.spliceVerified roster verified).2)

include grows

private theorem le_merged (roster : api.Roster)
    (merges : List (Nat × api.Verified)) :
    roster ≤ merged roster merges := by
  induction merges generalizing roster with
  | nil => exact le_refl roster
  | cons merge merges ih => exact (grows roster merge.2).trans (ih _)

private theorem merged_take_le (initial : api.Roster)
    (merges : List (Nat × api.Verified)) {early late : Nat}
    (order : early ≤ late) :
    merged initial (merges.take early) ≤ merged initial (merges.take late) := by
  obtain ⟨more, longer⟩ := List.take_prefix_take_left (l := merges) order
  rw [← longer, merged, merged, List.foldl_append]
  exact le_merged grows _ more

end Grows

/-- The roster is what the merges make of it in the order of the lock. Every
reply is what some first part of them makes, which has in it all that the
connection had sent, and no peer sees the roster shrink. -/
structure Serialised [Preorder api.Roster] (initial : api.Roster)
    (server : GossipServer api) : Prop where
  roster : server.roster = merged initial server.merges
  explained : ∀ {index position : Nat} {connection : GossipConnection api}
      {reply : GossipReply api},
    server.connections[index]? = some connection →
      connection.replies[position]? = some reply →
        Explained initial server.merges index
            (connection.asked.take (position + 1)) reply ∧
          Sendable api reply.roster ∧ reply.roster ≤ server.roster
  monotone : ∀ connection ∈ server.connections,
    connection.replies.Pairwise fun first second =>
      first.roster ≤ second.roster

def sampleApi : GossipApi where
  Roster := Nat
  AuthoritySet := Unit
  Verified := Nat
  maxMailboxFrame := 5
  fromSlice := fun blob => blob.head?.map UInt8.toNat
  toVecNamed := fun (roster : Nat) => some (List.replicate roster 0)
  verifyIncoming := fun (peer : Nat) _ _ => peer
  spliceVerified := fun (roster verified : Nat) => (verified, roster + verified)

instance : Preorder sampleApi.Roster := inferInstanceAs (Preorder Nat)

def sampleGossip : List GossipAction :=
  [.connect, .connect, .receive 0 [1] 0, .receive 1 [2] 0, .splice 1,
    .splice 0, .clone 0, .reply 0 (.ok ()), .receive 0 [] 1, .clone 1,
    .clone 0, .reply 0 (.ok ()), .receive 0 [9] 2, .splice 0, .clone 0,
    .reply 0 (.ok ()), .reply 1 (.error .write)]

def sampleServed : GossipServer sampleApi :=
  (Trace.exec (step ()) (start (0 : Nat)) sampleGossip).getD (start (0 : Nat))

end GossipServer

end GothamRelay
