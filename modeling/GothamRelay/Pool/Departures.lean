import GothamRelay.Pool.Senders

namespace GothamRelay.ConnectionPool

open Data

/-! What makes a connection leave the pool. -/

variable {Key : Type} [DecidableEq Key]

def Departs (before after : ConnectionPool Key) (conn : Nat) : Prop :=
  (∃ key, before.pool.lookup key = some conn) ∧
    ∀ key, after.pool.lookup key ≠ some conn

/-- A call adds a key that the pool does not have while the pool is full, and
no connection of the pool has been idle for longer. -/
def MakesWay (state : ConnectionPool Key) (action : SendAction Key)
    (conn : Nat) : Prop :=
  ∃ call victim key new, action = .insert call victim ∧
    state.calls[call]? = some ⟨key, .inserting new⟩ ∧
    key ∉ state.pool ∧ state.maxSize ≤ state.len ∧
    ∀ {other : Key} {idle : Nat}, state.pool.lookup other = some idle →
      state.used conn ≤ state.used idle

def Justified (before : ConnectionPool Key) (action : SendAction Key)
    (after : ConnectionPool Key) : Prop :=
  ∀ conn, before.Departs after conn →
    conn ∈ before.failed ∨ before.MakesWay action conn

/-- Nobody else has inserted a connection under the key of the call: where it
removes, since its lookup, and where it inserts, at all. -/
def undisturbed (state : ConnectionPool Key) : SendAction Key → Bool
  | .remove call =>
      match state.calls[call]? with
      | some ⟨key, .removing conn⟩ =>
          match state.pool.lookup key with
          | some held => held == conn
          | none => true
      | _ => true
  | .insert call _ =>
      match state.calls[call]? with
      | some ⟨key, _⟩ => decide (key ∉ state.pool)
      | none => true
  | _ => true

structure Sound (state : ConnectionPool Key) : Prop where
  bounded : state.len ≤ state.maxSize
  removing : ∀ {call : Nat} {key : Key} {conn : Nat},
    state.calls[call]? = some ⟨key, .removing conn⟩ → conn ∈ state.failed

theorem sound_start (maxSize : Nat) :
    Sound ((new : ConnectionPool Key).withMaxSize maxSize) :=
  ⟨Nat.zero_le _, nofun⟩

/-! ## Steps -/

section Steps

variable {state : ConnectionPool Key}

private theorem removing_of_setCall {call : Nat} {key : Key} {phase : SendPhase}
    (moved : ∀ conn, phase ≠ .removing conn)
    (removing : ∀ {call : Nat} {key : Key} {conn : Nat},
      state.calls[call]? = some ⟨key, .removing conn⟩ → conn ∈ state.failed)
    {other : Nat} {otherKey : Key} {conn : Nat}
    (found : (state.calls.set call ⟨key, phase⟩)[other]? =
      some ⟨otherKey, .removing conn⟩) :
    conn ∈ state.failed := by
  cases getElem?_set_cases found with
  | inl here =>
      cases here.2
      exact absurd rfl (moved conn)
  | inr old => exact removing old.2

inductive Room (state : ConnectionPool Key) :
    (AList fun _ : Key => Nat) → Prop where
  | free (fits : state.len < state.maxSize) : Room state state.pool
  | evicted (full : state.maxSize ≤ state.len)
      {room : AList fun _ : Key => Nat}
      (evicted : Eviction.Evicted state.used state.pool room) :
      Room state room

theorem room_of_makeRoom {victim : Option Key}
    {room : AList fun _ : Key => Nat}
    (made : state.makeRoom victim = some room) : state.Room room := by
  rw [makeRoom] at made
  split at made
  · rename_i full
    split at made <;> cases made
    rename_i minimal
    exact .evicted full (Eviction.evicted_of_isMinBy minimal)
  · rename_i fits
    cases made
    exact .free (Nat.not_le.mp fits)

theorem Sound.of_stepped (sound : Sound state) {action : SendAction Key}
    {after : ConnectionPool Key} (stepped : Stepped state action after) :
    Sound after := by
  cases stepped with
  | kept pool maxSize failed calls =>
      refine ⟨?_, ?_⟩
      · rw [len, pool, maxSize]
        exact sound.bounded
      · intro call key conn found
        cases calls found with
        | inl old => exact failed (sound.removing old)
        | inr noted => exact noted
  | remove found =>
      refine ⟨?_, ?_⟩
      · exact Nat.le_trans (Eviction.length_erase_le state.pool _)
          sound.bounded
      · intro other otherKey own there
        refine removing_of_setCall ?_ sound.removing there
        exact fun _ same => SendPhase.noConfusion same
  | @insert call victim key conn room found made =>
      refine ⟨?_, ?_⟩
      · cases room_of_makeRoom made with
        | free fits =>
            exact Nat.le_trans (Eviction.length_insert_le state.pool _ _) fits
        | evicted full evicted =>
            exact evicted.length_insert_le state.positive sound.bounded _ _
      · intro other otherKey own there
        refine removing_of_setCall ?_ sound.removing there
        exact fun _ same => SendPhase.noConfusion same

private theorem not_departs_of_kept {after : ConnectionPool Key}
    (pool : after.pool = state.pool) {conn : Nat}
    (departs : state.Departs after conn) : False := by
  obtain ⟨⟨key, found⟩, gone⟩ := departs
  apply gone key
  rw [pool]
  exact found

private theorem lookup_of_departs_erase {key : Key} {conn : Nat}
    {after : ConnectionPool Key} (pool : after.pool = state.pool.erase key)
    (departs : state.Departs after conn) :
    state.pool.lookup key = some conn := by
  obtain ⟨⟨other, found⟩, gone⟩ := departs
  by_cases same : other = key
  · rw [← same]
    exact found
  · exfalso
    apply gone other
    rw [pool, AList.lookup_erase_ne same]
    exact found

private theorem makesWay_of_departs_insert {call : Nat} {victim : Option Key}
    {key : Key} {new conn : Nat} {room : AList fun _ : Key => Nat}
    {after : ConnectionPool Key}
    (found : state.calls[call]? = some ⟨key, .inserting new⟩)
    (absent : key ∉ state.pool) (made : state.makeRoom victim = some room)
    (pool : after.pool = room.insert key new)
    (departs : state.Departs after conn) :
    state.MakesWay (.insert call victim) conn := by
  obtain ⟨⟨other, held⟩, gone⟩ := departs
  have different : other ≠ key := by
    rintro rfl
    apply absent
    rw [← AList.lookup_isSome, held]
    rfl
  have missing : room.lookup other ≠ some conn := by
    intro kept
    apply gone other
    rw [pool, AList.lookup_insert_ne different]
    exact kept
  cases room_of_makeRoom made with
  | free fits => exact absurd held missing
  | evicted full evicted =>
      cases evicted with
      | empty none => exact absurd held missing
      | @victim gone value there least =>
          have same : other = gone := by
            by_contra different
            rw [AList.lookup_erase_ne different] at missing
            exact missing held
          subst gone
          cases held.symm.trans there
          exact ⟨call, victim, key, new, rfl, found, absent, full, least⟩

theorem Sound.justified (sound : Sound state) {action : SendAction Key}
    {after : ConnectionPool Key} (calm : state.undisturbed action = true)
    (stepped : Stepped state action after) :
    state.Justified action after := by
  intro conn departs
  cases stepped with
  | kept pool maxSize failed calls =>
      exact (not_departs_of_kept pool departs).elim
  | @remove call key own found =>
      have held := lookup_of_departs_erase rfl departs
      simp only [undisturbed, found, held, beq_iff_eq] at calm
      rw [calm]
      exact .inl (sound.removing found)
  | insert found made =>
      simp only [undisturbed, found, decide_eq_true_eq] at calm
      exact .inr (makesWay_of_departs_insert found calm made rfl departs)

end Steps

/-- In a run of undisturbed steps every connection that leaves has failed or
makes way for a new key, and the pool keeps to its size. -/
theorem connections_leave_justified (maxSize : Nat)
    {actions : List (SendAction Key)} {action : SendAction Key}
    {before after : ConnectionPool Key}
    (trace : Trace step (fun state action => state.undisturbed action = true)
      (new.withMaxSize maxSize) actions before)
    (calm : before.undisturbed action = true)
    (taken : before.step action = some after) :
    before.Justified action after ∧ after.len ≤ after.maxSize := by
  have sound : Sound before := by
    apply trace.invariant fun _ state => Sound state
    · exact sound_start maxSize
    · intro _ _ _ _ sound _ taken
      exact sound.of_stepped (stepped_of_step taken)
  have stepped := stepped_of_step taken
  exact ⟨sound.justified calm stepped, (sound.of_stepped stepped).bounded⟩

/-- A call that finds nothing under its key and inserts at the given
instant. -/
def sampleOpen (call : Nat) (key : Bool) (now : Instant) :
    List (SendAction Bool) :=
  [.call key, .lookup call, .openNew call (.ok ()) now,
    .sendNew call (.ok ()) now]

def sampleRun (maxSize : Nat) (actions : List (SendAction Bool)) :
    ConnectionPool Bool :=
  (Trace.exec step (new.withMaxSize maxSize) actions).getD
    (new.withMaxSize maxSize)

def sampleFull : List (SendAction Bool) :=
  sampleOpen 0 true 1 ++ [.insert 0 none] ++ sampleOpen 1 false 2

theorem sampleFull_leaves_justified :
    ∃ after,
      (sampleRun 1 sampleFull).step (.insert 1 (some true)) = some after ∧
      (sampleRun 1 sampleFull).Justified (.insert 1 (some true)) after := by
  obtain ⟨after, taken⟩ := Option.isSome_iff_exists.mp
    (show ((sampleRun 1 sampleFull).step
      (.insert 1 (some true))).isSome = true by decide +kernel)
  refine ⟨after, taken, ?_⟩
  exact (connections_leave_justified 1
    (Trace.of_permitted (by decide +kernel) (by decide +kernel))
    (by decide +kernel) taken).1

def heldAfter (state : ConnectionPool Bool) (action : SendAction Bool) :
    Option (Option Nat × Option Nat) :=
  (state.step action).map fun after =>
    (after.pool.lookup true, after.pool.lookup false)

private theorem not_justified_of_heldAfter (state : ConnectionPool Bool)
    (action : SendAction Bool) (conn : Nat) (key : Bool)
    (kept : Option Nat × Option Nat)
    (held : state.pool.lookup key = some conn)
    (left : state.heldAfter action = some kept)
    (gone : kept.1 ≠ some conn ∧ kept.2 ≠ some conn)
    (healthy : conn ∉ state.failed)
    (stays : ¬state.MakesWay action conn) :
    ∃ after, state.step action = some after ∧
      ¬state.Justified action after := by
  obtain ⟨after, taken, rfl⟩ := Option.map_eq_some_iff.mp left
  refine ⟨after, taken, ?_⟩
  intro justified
  have departs : state.Departs after conn := by
    refine ⟨⟨key, held⟩, ?_⟩
    intro other
    cases other with
    | true => exact gone.1
    | false => exact gone.2
  cases justified conn departs with
  | inl failed => exact healthy failed
  | inr makesWay => exact stays makesWay

private theorem not_makesWay_of_known {state : ConnectionPool Key}
    {call conn : Nat} {victim : Option Key} {key : Key}
    (known : (state.calls[call]?).map SendCall.key = some key)
    (member : key ∈ state.pool) :
    ¬state.MakesWay (.insert call victim) conn := by
  rintro ⟨_, _, other, _, same, found, absent, _⟩
  cases same
  rw [found] at known
  cases known
  exact absent member

/-- Two calls find the same dead connection. The first has replaced it when
the second removes what is under the key. -/
def staleRemoval : List (SendAction Bool) :=
  sampleOpen 0 true 1 ++
    [.insert 0 none, .call true, .call true, .lookup 1, .lookup 2,
      .sendCached 1 (.error .write) 2, .sendCached 2 (.error .write) 2,
      .remove 1, .openNew 1 (.ok ()) 3, .sendNew 1 (.ok ()) 4,
      .insert 1 none]

/-- Two calls open a connection for one key, and the first has inserted its
own. The pool is full then. -/
def doubleInsertion : List (SendAction Bool) :=
  sampleOpen 0 false 1 ++ [.insert 0 none] ++ sampleOpen 1 true 2 ++
    [.call true, .lookup 2, .openNew 2 (.ok ()) 3, .sendNew 2 (.ok ()) 4,
      .insert 1 none]

/-- The removal takes away a connection on which nothing has failed, and the
insertion under a key that the full pool has evicts the other one. -/
theorem working_connections_destroyed :
    (∃ before after, Trace step (fun _ _ => True) (new.withMaxSize 2)
        staleRemoval before ∧
      before.step (.remove 2) = some after ∧
      ¬before.Justified (.remove 2) after) ∧
    ∃ before after, Trace step (fun _ _ => True) (new.withMaxSize 2)
        doubleInsertion before ∧
      before.step (.insert 2 (some false)) = some after ∧
      ¬before.Justified (.insert 2 (some false)) after := by
  constructor
  · have stays : ¬(sampleRun 2 staleRemoval).MakesWay (.remove 2) 1 := by
      rintro ⟨_, _, _, _, same, _⟩
      cases same
    obtain ⟨after, taken, unjustified⟩ := not_justified_of_heldAfter
      (sampleRun 2 staleRemoval) (.remove 2) 1 true (none, none)
      (by decide +kernel) (by decide +kernel) (by decide)
      (by decide +kernel) stays
    exact ⟨_, after, Trace.of_possible (by decide +kernel), taken,
      unjustified⟩
  · obtain ⟨after, taken, unjustified⟩ := not_justified_of_heldAfter
      (sampleRun 2 doubleInsertion) (.insert 2 (some false)) 0 false
      (some 2, none) (by decide +kernel) (by decide +kernel) (by decide)
      (by decide +kernel)
      (not_makesWay_of_known (by decide +kernel : _ = some true)
        (by decide +kernel))
    exact ⟨_, after, Trace.of_possible (by decide +kernel), taken,
      unjustified⟩

end GothamRelay.ConnectionPool
