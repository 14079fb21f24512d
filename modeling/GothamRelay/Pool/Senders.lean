import GothamRelay.Data.Eviction
import GothamRelay.Data.Transition
import GothamRelay.Time
import GothamRelay.Transport.Noise

namespace GothamRelay

open Data

/-! `ConnectionPool::send` as the steps of any number of calls. The pool is
locked for the lookup, the removal and the insertion, each on its own, and for
nothing in between. A connection is the number of connections opened before
it. -/

/-- Where a call is, with the connection it has in hand. -/
inductive SendPhase where
  | lookingUp
  | sendingCached (conn : Nat)
  | removing (conn : Nat)
  | opening
  | sendingNew (conn : Nat)
  | inserting (conn : Nat)
  | returned (result : Except TransportError Unit)

structure SendCall (Key : Type) where
  key : Key
  phase : SendPhase

/-- `failed` has the connections on which a send has failed. Nothing reads
it. -/
structure ConnectionPool (Key : Type) [DecidableEq Key] where
  pool : AList fun _ : Key => Nat
  maxSize : Nat
  positive : 0 < maxSize
  lastUsed : List Instant
  failed : List Nat
  calls : List (SendCall Key)

inductive SendAction (Key : Type) where
  | call (key : Key)
  | lookup (call : Nat)
  | sendCached (call : Nat) (result : Except TransportError Unit)
      (now : Instant)
  | remove (call : Nat)
  | openNew (call : Nat) (result : Except TransportError Unit)
      (now : Instant)
  | sendNew (call : Nat) (result : Except TransportError Unit)
      (now : Instant)
  | insert (call : Nat) (victim : Option Key)

namespace ConnectionPool

variable {Key : Type} [DecidableEq Key]

def defaultMaxSize : Nat := 128

def new : ConnectionPool Key where
  pool := ∅
  maxSize := defaultMaxSize
  positive := by decide
  lastUsed := []
  failed := []
  calls := []

def withMaxSize (state : ConnectionPool Key) (maxSize : Nat) :
    ConnectionPool Key :=
  { state with
    maxSize := max maxSize 1
    positive := Nat.le_max_right maxSize 1 }

def len (state : ConnectionPool Key) : Nat := state.pool.keys.length

def setCall (state : ConnectionPool Key) (call : Nat) (key : Key)
    (phase : SendPhase) : ConnectionPool Key :=
  { state with calls := state.calls.set call ⟨key, phase⟩ }

/-- `last_used` of a connection. -/
def used (state : ConnectionPool Key) (conn : Nat) : Instant :=
  (state.lastUsed[conn]?).getD 0

/-- `send_packet`, which notes the time only when it succeeds. -/
def sendPacket (state : ConnectionPool Key) (conn : Nat)
    (result : Except TransportError Unit) (now : Instant) :
    ConnectionPool Key :=
  match result with
  | .ok () => { state with lastUsed := state.lastUsed.set conn now }
  | .error _ => { state with failed := state.failed ++ [conn] }

/-- `evict_oldest_locked`, if the pool is full. The victim is the entry that
the search over the map ends with, which may be any of the oldest. -/
def makeRoom (state : ConnectionPool Key) (victim : Option Key) :
    Option (AList fun _ : Key => Nat) :=
  if state.len ≥ state.maxSize then
    if Eviction.isMinBy state.used state.pool victim then
      some (Eviction.evict state.pool victim)
    else none
  else some state.pool

def step (state : ConnectionPool Key) :
    SendAction Key → Option (ConnectionPool Key)
  | .call key =>
      some { state with calls := state.calls ++ [⟨key, .lookingUp⟩] }
  | .lookup call =>
      match state.calls[call]? with
      | some ⟨key, .lookingUp⟩ =>
          match state.pool.lookup key with
          | some conn => some (state.setCall call key (.sendingCached conn))
          | none => some (state.setCall call key .opening)
      | _ => none
  | .sendCached call result now =>
      match state.calls[call]? with
      | some ⟨key, .sendingCached conn⟩ =>
          let sent := state.sendPacket conn result now
          match result with
          | .ok () => some (sent.setCall call key (.returned (.ok ())))
          | .error _ => some (sent.setCall call key (.removing conn))
      | _ => none
  | .remove call =>
      match state.calls[call]? with
      | some ⟨key, .removing _⟩ =>
          some { state.setCall call key .opening with
            pool := state.pool.erase key }
      | _ => none
  | .openNew call result now =>
      match state.calls[call]? with
      | some ⟨key, .opening⟩ =>
          match result with
          | .ok () =>
              some { state.setCall call key
                  (.sendingNew state.lastUsed.length) with
                lastUsed := state.lastUsed ++ [now] }
          | .error error =>
              some (state.setCall call key (.returned (.error error)))
      | _ => none
  | .sendNew call result now =>
      match state.calls[call]? with
      | some ⟨key, .sendingNew conn⟩ =>
          let sent := state.sendPacket conn result now
          match result with
          | .ok () => some (sent.setCall call key (.inserting conn))
          | .error error =>
              some (sent.setCall call key (.returned (.error error)))
      | _ => none
  | .insert call victim =>
      match state.calls[call]? with
      | some ⟨key, .inserting conn⟩ =>
          (state.makeRoom victim).map fun room =>
            { state.setCall call key (.returned (.ok ())) with
              pool := room.insert key conn }
      | _ => none

/-- What one step can be, by what it does to the map. -/
inductive Stepped (state : ConnectionPool Key) :
    SendAction Key → ConnectionPool Key → Prop where
  | kept {action : SendAction Key} {after : ConnectionPool Key}
      (pool : after.pool = state.pool) (maxSize : after.maxSize = state.maxSize)
      (failed : state.failed ⊆ after.failed)
      (calls : ∀ {call : Nat} {key : Key} {conn : Nat},
        after.calls[call]? = some ⟨key, .removing conn⟩ →
          state.calls[call]? = some ⟨key, .removing conn⟩ ∨
            conn ∈ after.failed) :
      Stepped state action after
  | remove {call : Nat} {key : Key} {conn : Nat}
      (found : state.calls[call]? = some ⟨key, .removing conn⟩) :
      Stepped state (.remove call)
        { state.setCall call key .opening with
          pool := state.pool.erase key }
  | insert {call : Nat} {victim : Option Key} {key : Key} {conn : Nat}
      {room : AList fun _ : Key => Nat}
      (found : state.calls[call]? = some ⟨key, .inserting conn⟩)
      (made : state.makeRoom victim = some room) :
      Stepped state (.insert call victim)
        { state.setCall call key (.returned (.ok ())) with
          pool := room.insert key conn }

private theorem stepped_setCall {state moved : ConnectionPool Key}
    {action : SendAction Key} (call : Nat) (key : Key) {phase : SendPhase}
    (pool : moved.pool = state.pool) (maxSize : moved.maxSize = state.maxSize)
    (failed : state.failed ⊆ moved.failed) (calls : moved.calls = state.calls)
    (noted : ∀ {conn : Nat}, phase = .removing conn → conn ∈ moved.failed) :
    Stepped state action (moved.setCall call key phase) := by
  refine .kept pool maxSize failed ?_
  intro other otherKey conn found
  rw [setCall, calls] at found
  cases getElem?_set_cases found with
  | inl here =>
      cases here.2
      exact .inr (noted rfl)
  | inr old => exact .inl old.2

private theorem sendPacket_frame (state : ConnectionPool Key) (conn : Nat)
    (result : Except TransportError Unit) (now : Instant) :
    (state.sendPacket conn result now).pool = state.pool ∧
      (state.sendPacket conn result now).maxSize = state.maxSize ∧
      state.failed ⊆ (state.sendPacket conn result now).failed ∧
      (state.sendPacket conn result now).calls = state.calls := by
  cases result with
  | ok value => exact ⟨rfl, rfl, List.Subset.refl _, rfl⟩
  | error error => exact ⟨rfl, rfl, List.subset_append_left _ _, rfl⟩

theorem stepped_of_step {state after : ConnectionPool Key}
    {action : SendAction Key} (taken : state.step action = some after) :
    Stepped state action after := by
  cases action with
  | call key =>
      cases taken
      refine .kept rfl rfl (List.Subset.refl _) ?_
      intro call other conn found
      cases getElem?_append_singleton_cases found with
      | inl new => cases new
      | inr old => exact .inl old
  | lookup call =>
      simp only [step] at taken
      split at taken
      · split at taken <;> cases taken
        all_goals
          exact stepped_setCall _ _ rfl rfl (List.Subset.refl _) rfl nofun
      · cases taken
  | sendCached call result now =>
      simp only [step] at taken
      split at taken
      · rename_i key conn _
        obtain ⟨pool, maxSize, failed, calls⟩ :=
          state.sendPacket_frame conn result now
        cases result with
        | ok value =>
            cases taken
            exact stepped_setCall _ _ pool maxSize failed calls nofun
        | error error =>
            cases taken
            refine stepped_setCall _ _ pool maxSize failed calls ?_
            intro other same
            cases same
            exact List.mem_append_right _ List.mem_cons_self
      · cases taken
  | remove call =>
      simp only [step] at taken
      split at taken <;> cases taken
      rename_i found
      exact .remove found
  | openNew call result now =>
      simp only [step] at taken
      split at taken
      · cases result with
        | ok value =>
            cases taken
            change Stepped state _ (setCall
              { state with lastUsed := state.lastUsed ++ [now] } call _ _)
            exact stepped_setCall _ _ rfl rfl (List.Subset.refl _) rfl nofun
        | error error =>
            cases taken
            exact stepped_setCall _ _ rfl rfl (List.Subset.refl _) rfl nofun
      · cases taken
  | sendNew call result now =>
      simp only [step] at taken
      split at taken
      · rename_i key conn _
        obtain ⟨pool, maxSize, failed, calls⟩ :=
          state.sendPacket_frame conn result now
        cases result with
        | ok value =>
            cases taken
            exact stepped_setCall _ _ pool maxSize failed calls nofun
        | error error =>
            cases taken
            exact stepped_setCall _ _ pool maxSize failed calls nofun
      · cases taken
  | insert call victim =>
      simp only [step] at taken
      split at taken
      · rename_i found
        obtain ⟨room, made, rfl⟩ := Option.map_eq_some_iff.mp taken
        exact .insert found made
      · cases taken

end ConnectionPool

end GothamRelay
