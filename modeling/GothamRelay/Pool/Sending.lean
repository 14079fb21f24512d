import GothamRelay.Data.Ledger
import GothamRelay.Pool.Departures

namespace GothamRelay

open Data

/-! Where the packets given to the pool go. -/

structure SendAttempt where
  call : Nat
  conn : Nat
  sent : Bool
  deriving DecidableEq

/-- The pool, the key each connection was opened for, and the calls of
`send_packet` so far. -/
structure SendingPool (Key : Type) [DecidableEq Key] where
  state : ConnectionPool Key
  peers : List Key
  attempts : List SendAttempt

namespace SendPhase

def conn : SendPhase → Option Nat
  | sendingCached conn | removing conn | sendingNew conn | inserting conn =>
      some conn
  | lookingUp | opening | returned _ => none

/-- What can have become of the attempts of a call that is at this point. -/
def allows : SendPhase → List Bool → Prop
  | lookingUp, past | sendingCached _, past => past = []
  | removing _, past => past = [false]
  | opening, past | sendingNew _, past => past = [] ∨ past = [false]
  | inserting _, past | returned (.ok ()), past =>
      past = [true] ∨ past = [false, true]
  | returned (.error _), past =>
      past = [] ∨ past = [false] ∨ past = [false, false]

end SendPhase

namespace SendingPool

variable {Key : Type} [DecidableEq Key]

def start (maxSize : Nat) : SendingPool Key :=
  ⟨ConnectionPool.new.withMaxSize maxSize, [], []⟩

def newPeers (state : ConnectionPool Key) : SendAction Key → List Key
  | .openNew call (.ok ()) _ =>
      (state.calls[call]?).toList.map SendCall.key
  | _ => []

def newAttempts (state : ConnectionPool Key) :
    SendAction Key → List SendAttempt
  | .sendCached call result _ | .sendNew call result _ =>
      ((state.calls[call]?).bind fun sender => sender.phase.conn).toList.map
        fun conn => ⟨call, conn, result.isOk⟩
  | _ => []

def step (sending : SendingPool Key) (action : SendAction Key) :
    Option (SendingPool Key) :=
  (sending.state.step action).map fun after =>
    ⟨after, sending.peers ++ newPeers sending.state action,
      sending.attempts ++ newAttempts sending.state action⟩

def history (sending : SendingPool Key) (call : Nat) : List Bool :=
  (sending.attempts.filter fun attempt => attempt.call == call).map
    SendAttempt.sent

/-- Every connection is used for the key it was opened for, and every call has
made the attempts that its phase allows. -/
structure Sound (sending : SendingPool Key) : Prop where
  opened : sending.peers.length = sending.state.lastUsed.length
  pooled : ∀ {key : Key} {conn : Nat},
    sending.state.pool.lookup key = some conn →
      sending.peers[conn]? = some key
  inHand : ∀ {call : Nat} {sender : SendCall Key} {conn : Nat},
    sending.state.calls[call]? = some sender →
      sender.phase.conn = some conn → sending.peers[conn]? = some sender.key
  attempted : ∀ attempt ∈ sending.attempts, ∃ sender,
    sending.state.calls[attempt.call]? = some sender ∧
      sending.peers[attempt.conn]? = some sender.key
  allowed : ∀ {call : Nat} {sender : SendCall Key},
    sending.state.calls[call]? = some sender →
      sender.phase.allows (sending.history call)

theorem sound_start (maxSize : Nat) : Sound
    (start maxSize : SendingPool Key) where
  opened := rfl
  pooled held := by
    change (∅ : AList fun _ : Key => Nat).lookup _ = _ at held
    rw [AList.lookup_empty] at held
    cases held
  inHand found := by cases found
  attempted _ member := absurd member List.not_mem_nil
  allowed found := by cases found

/-! ## One call moves on -/

/-- What a step does when one call moves on: the call's new phase, what it adds
to the connections and to the attempts, and what it puts under which key. -/
structure Advances (before after : SendingPool Key) (call : Nat)
    (sender : SendCall Key) (phase : SendPhase) (added : List Key)
    (more : List SendAttempt) : Prop where
  found : before.state.calls[call]? = some sender
  calls : after.state.calls = before.state.calls.set call ⟨sender.key, phase⟩
  peers : after.peers = before.peers ++ added
  used : after.state.lastUsed.length =
    before.state.lastUsed.length + added.length
  attempts : after.attempts = before.attempts ++ more
  own : ∀ attempt ∈ more,
    attempt.call = call ∧ after.peers[attempt.conn]? = some sender.key
  inHand : ∀ {conn : Nat}, phase.conn = some conn →
    after.peers[conn]? = some sender.key
  pooled : ∀ {key : Key} {conn : Nat},
    after.state.pool.lookup key = some conn →
      before.state.pool.lookup key = some conn ∨
        (key = sender.key ∧ after.peers[conn]? = some key)
  allowed : ∀ {past : List Bool}, sender.phase.allows past →
    phase.allows (past ++ more.map SendAttempt.sent)

namespace Advances

variable {before after : SendingPool Key} {call : Nat}
  {sender : SendCall Key} {phase : SendPhase} {added : List Key}
  {more : List SendAttempt}

theorem peer (advances : Advances before after call sender phase added more)
    {conn : Nat} {key : Key} (known : before.peers[conn]? = some key) :
    after.peers[conn]? = some key := by
  rw [advances.peers]
  exact getElem?_of_isPrefix (List.prefix_append _ _) known

private theorem history_self
    (advances : Advances before after call sender phase added more) :
    after.history call = before.history call ++ more.map SendAttempt.sent := by
  have all : (more.filter fun attempt => attempt.call == call) = more := by
    rw [List.filter_eq_self]
    intro attempt member
    exact beq_iff_eq.mpr (advances.own attempt member).1
  rw [history, advances.attempts, List.filter_append, List.map_append, all]
  rfl

private theorem history_other
    (advances : Advances before after call sender phase added more)
    {other : Nat} (different : other ≠ call) :
    after.history other = before.history other := by
  have none : (more.filter fun attempt => attempt.call == other) = [] := by
    rw [List.filter_eq_nil_iff]
    intro attempt member same
    have own := (advances.own attempt member).1
    exact different ((beq_iff_eq.mp same).symm.trans own)
  rw [history, advances.attempts, List.filter_append, none, List.append_nil]
  rfl

private theorem call_cases
    (advances : Advances before after call sender phase added more)
    {other : Nat} {value : SendCall Key}
    (there : after.state.calls[other]? = some value) :
    (other = call ∧ value = ⟨sender.key, phase⟩) ∨
      (other ≠ call ∧ before.state.calls[other]? = some value) := by
  rw [advances.calls] at there
  exact getElem?_set_cases there

private theorem call_kept
    (advances : Advances before after call sender phase added more)
    {other : Nat} {value : SendCall Key}
    (there : before.state.calls[other]? = some value) :
    ∃ now, after.state.calls[other]? = some now ∧ now.key = value.key := by
  rw [advances.calls]
  by_cases same : other = call
  · subst other
    have inside := (List.getElem?_eq_some_iff.mp there).1
    refine ⟨⟨sender.key, phase⟩, List.getElem?_set_self inside, ?_⟩
    have known := advances.found
    rw [there] at known
    cases known
    rfl
  · rw [List.getElem?_set_ne (fun eq => same eq.symm)]
    exact ⟨value, there, rfl⟩

theorem sound (advances : Advances before after call sender phase added more)
    (sound : Sound before) : Sound after where
  opened := by
    rw [advances.peers, List.length_append, sound.opened, advances.used]
  pooled {key conn} held := by
    cases advances.pooled held with
    | inl old => exact advances.peer (sound.pooled old)
    | inr new => exact new.2
  inHand {other value conn} there inHand := by
    cases advances.call_cases there with
    | inl own =>
        obtain ⟨rfl, rfl⟩ := own
        exact advances.inHand inHand
    | inr old => exact advances.peer (sound.inHand old.2 inHand)
  attempted := by
    intro attempt member
    rw [advances.attempts, List.mem_append] at member
    cases member with
    | inl old =>
        obtain ⟨value, there, peer⟩ := sound.attempted attempt old
        obtain ⟨now, still, same⟩ := advances.call_kept there
        exact ⟨now, still, same ▸ advances.peer peer⟩
    | inr new =>
        obtain ⟨own, peer⟩ := advances.own attempt new
        obtain ⟨now, still, same⟩ := advances.call_kept advances.found
        exact ⟨now, own ▸ still, same ▸ peer⟩
  allowed {other value} there := by
    cases advances.call_cases there with
    | inl own =>
        obtain ⟨rfl, rfl⟩ := own
        rw [advances.history_self]
        exact advances.allowed (sound.allowed advances.found)
    | inr old =>
        rw [advances.history_other old.1]
        exact sound.allowed old.2

end Advances

/-! ## The steps -/

section Steps

variable {before : SendingPool Key} {call : Nat} {key : Key} {conn : Nat}

private theorem Sound.history_eq_nil (sound : Sound before)
    (beyond : before.state.calls.length ≤ call) :
    before.history call = [] := by
  rw [history, List.map_eq_nil_iff, List.filter_eq_nil_iff]
  intro attempt member same
  obtain ⟨value, there, _⟩ := sound.attempted attempt member
  have inside := (List.getElem?_eq_some_iff.mp there).1
  rw [beq_iff_eq.mp same] at inside
  exact Nat.lt_irrefl _ (Nat.lt_of_lt_of_le inside beyond)

theorem Sound.called (sound : Sound before) (key : Key) :
    Sound ⟨{ before.state with
      calls := before.state.calls ++ [⟨key, .lookingUp⟩] },
      before.peers ++ [], before.attempts ++ []⟩ := by
  rw [List.append_nil, List.append_nil]
  have kept : ∀ {other value},
      before.state.calls[other]? = some value →
        (before.state.calls ++ [⟨key, .lookingUp⟩])[other]? = some value :=
    fun found => getElem?_of_isPrefix (List.prefix_append _ _) found
  refine ⟨sound.opened, sound.pooled, ?_, ?_, ?_⟩
  · intro other value conn there inHand
    cases getElem?_append_singleton_cases there with
    | inl new =>
        rw [new] at inHand
        cases inHand
    | inr old => exact sound.inHand old inHand
  · intro attempt member
    obtain ⟨value, there, peer⟩ := sound.attempted attempt member
    exact ⟨value, kept there, peer⟩
  · intro other value there
    by_cases inside : other < before.state.calls.length
    · rw [List.getElem?_append_left inside] at there
      exact sound.allowed there
    · rw [List.getElem?_append_right (Nat.not_lt.mp inside)] at there
      rw [List.mem_singleton.mp (List.mem_of_getElem? there)]
      exact sound.history_eq_nil (Nat.not_lt.mp inside)

theorem Sound.turned (sound : Sound before) {old phase : SendPhase}
    (found : before.state.calls[call]? = some ⟨key, old⟩)
    (inHand : ∀ {conn : Nat}, phase.conn = some conn →
      before.peers[conn]? = some key)
    (allowed : ∀ {past : List Bool}, old.allows past → phase.allows past) :
    Sound ⟨before.state.setCall call key phase, before.peers ++ [],
      before.attempts ++ []⟩ := by
  have advances : Advances before ⟨before.state.setCall call key phase,
      before.peers ++ [], before.attempts ++ []⟩ call ⟨key, old⟩ phase []
      [] := by
    refine ⟨found, rfl, rfl, rfl, rfl, ?_, ?_, fun held => .inl held, ?_⟩
    · exact fun attempt member => absurd member List.not_mem_nil
    · intro conn held
      rw [List.append_nil]
      exact inHand held
    · intro past was
      rw [List.map_nil, List.append_nil]
      exact allowed was
  exact advances.sound sound

theorem Sound.sent (sound : Sound before) {old phase : SendPhase}
    {result : Except TransportError Unit} {now : Instant}
    (found : before.state.calls[call]? = some ⟨key, old⟩)
    (held : old.conn = some conn)
    (inHand : ∀ {other : Nat}, phase.conn = some other → other = conn)
    (allowed : ∀ {past : List Bool}, old.allows past →
      phase.allows (past ++ [result.isOk])) :
    Sound ⟨(before.state.sendPacket conn result now).setCall call key phase,
      before.peers ++ [], before.attempts ++ [⟨call, conn, result.isOk⟩]⟩ := by
  have peer : (before.peers ++ [])[conn]? = some key := by
    rw [List.append_nil]
    exact sound.inHand found held
  have frame : (before.state.sendPacket conn result now).calls =
        before.state.calls ∧
      (before.state.sendPacket conn result now).pool = before.state.pool ∧
      (before.state.sendPacket conn result now).lastUsed.length =
        before.state.lastUsed.length := by
    cases result with
    | ok value => exact ⟨rfl, rfl, List.length_set⟩
    | error error => exact ⟨rfl, rfl, rfl⟩
  obtain ⟨calls, pool, used⟩ := frame
  have advances : Advances before
      ⟨(before.state.sendPacket conn result now).setCall call key phase,
        before.peers ++ [], before.attempts ++ [⟨call, conn, result.isOk⟩]⟩
      call ⟨key, old⟩ phase [] [⟨call, conn, result.isOk⟩] := by
    refine ⟨found, ?_, rfl, used, rfl, ?_, ?_, ?_, allowed⟩
    · simp only [ConnectionPool.setCall, calls]
    · intro attempt member
      rw [List.mem_singleton] at member
      rw [member]
      exact ⟨rfl, peer⟩
    · intro other same
      rw [inHand same]
      exact peer
    · intro other otherConn there
      change (before.state.sendPacket conn result now).pool.lookup other = _
        at there
      rw [pool] at there
      exact .inl there
  exact advances.sound sound

theorem Sound.removed (sound : Sound before)
    (found : before.state.calls[call]? = some ⟨key, .removing conn⟩) :
    Sound ⟨{ before.state.setCall call key .opening with
      pool := before.state.pool.erase key }, before.peers ++ [],
      before.attempts ++ []⟩ := by
  have advances : Advances before
      ⟨{ before.state.setCall call key .opening with
        pool := before.state.pool.erase key }, before.peers ++ [],
        before.attempts ++ []⟩ call ⟨key, .removing conn⟩ .opening [] [] := by
    refine ⟨found, rfl, rfl, rfl, rfl, ?_, ?_, ?_, ?_⟩
    · exact fun attempt member => absurd member List.not_mem_nil
    · intro other held
      cases held
    · intro other otherConn there
      by_cases same : other = key
      · subst other
        rw [AList.lookup_erase] at there
        cases there
      · rw [AList.lookup_erase_ne same] at there
        exact .inl there
    · intro past was
      exact .inr (by rw [List.map_nil, List.append_nil]; exact was)
  exact advances.sound sound

private theorem Sound.openedNew (sound : Sound before)
    (found : before.state.calls[call]? = some ⟨key, .opening⟩)
    (now : Instant) :
    Sound ⟨{ before.state.setCall call key
        (.sendingNew before.state.lastUsed.length) with
        lastUsed := before.state.lastUsed ++ [now] },
      before.peers ++ [key], before.attempts ++ []⟩ := by
  have advances : Advances before
      ⟨{ before.state.setCall call key
          (.sendingNew before.state.lastUsed.length) with
          lastUsed := before.state.lastUsed ++ [now] },
        before.peers ++ [key], before.attempts ++ []⟩ call ⟨key, .opening⟩
      (.sendingNew before.state.lastUsed.length) [key] [] := by
    refine ⟨found, rfl, rfl, List.length_append, rfl, ?_, ?_,
      fun held => .inl held, ?_⟩
    · exact fun attempt member => absurd member List.not_mem_nil
    · intro conn held
      cases held
      rw [← sound.opened, List.getElem?_concat_length]
    · intro past was
      rw [List.map_nil, List.append_nil]
      exact was
  exact advances.sound sound

theorem Sound.inserted (sound : Sound before) {victim : Option Key}
    {room : AList fun _ : Key => Nat}
    (found : before.state.calls[call]? = some ⟨key, .inserting conn⟩)
    (made : before.state.makeRoom victim = some room) :
    Sound ⟨{ before.state.setCall call key (.returned (.ok ())) with
      pool := room.insert key conn }, before.peers ++ [],
      before.attempts ++ []⟩ := by
  have peer := sound.inHand found rfl
  have advances : Advances before
      ⟨{ before.state.setCall call key (.returned (.ok ())) with
        pool := room.insert key conn }, before.peers ++ [],
        before.attempts ++ []⟩ call ⟨key, .inserting conn⟩
      (.returned (.ok ())) [] [] := by
    refine ⟨found, rfl, rfl, rfl, rfl, ?_, ?_, ?_, ?_⟩
    · exact fun attempt member => absurd member List.not_mem_nil
    · intro other held
      cases held
    · intro other otherConn there
      by_cases same : other = key
      · subst other
        rw [AList.lookup_insert] at there
        cases there
        rw [List.append_nil]
        exact .inr ⟨rfl, peer⟩
      · rw [AList.lookup_insert_ne same] at there
        cases ConnectionPool.room_of_makeRoom made with
        | free fits => exact .inl there
        | evicted full evicted => exact .inl (evicted.lookup there)
    · intro past was
      rw [List.map_nil, List.append_nil]
      exact was
  exact advances.sound sound

theorem Sound.of_step (sound : Sound before) {action : SendAction Key}
    {after : SendingPool Key} (taken : before.step action = some after) :
    Sound after := by
  obtain ⟨state, stepped, rfl⟩ := Option.map_eq_some_iff.mp taken
  cases action with
  | call key =>
      cases stepped
      exact sound.called key
  | lookup call =>
      simp only [ConnectionPool.step] at stepped
      split at stepped
      · rename_i key found
        split at stepped
        · rename_i conn held
          cases stepped
          refine sound.turned found ?_ id
          intro other same
          cases same
          exact sound.pooled held
        · cases stepped
          exact sound.turned found (fun held => by cases held) .inl
      · cases stepped
  | sendCached call result now =>
      simp only [ConnectionPool.step] at stepped
      split at stepped
      · rename_i key conn found
        simp only [newPeers, newAttempts, found]
        cases result with
        | ok value =>
            cases stepped
            refine sound.sent found rfl (fun held => by cases held) ?_
            intro past was
            exact .inl (by rw [was]; rfl)
        | error error =>
            cases stepped
            refine sound.sent found rfl ?_ ?_
            · intro other same
              cases same
              rfl
            · intro past was
              change past ++ [false] = [false]
              rw [was]
              rfl
      · cases stepped
  | remove call =>
      simp only [ConnectionPool.step] at stepped
      split at stepped <;> cases stepped
      rename_i found
      exact sound.removed found
  | openNew call result now =>
      simp only [ConnectionPool.step] at stepped
      split at stepped
      · rename_i key found
        cases result with
        | ok value =>
            cases stepped
            simp only [newPeers, newAttempts, found]
            exact sound.openedNew found now
        | error error =>
            cases stepped
            refine sound.turned found (fun held => by cases held) ?_
            intro past was
            cases was with
            | inl none => exact .inl none
            | inr once => exact .inr (.inl once)
      · cases stepped
  | sendNew call result now =>
      simp only [ConnectionPool.step] at stepped
      split at stepped
      · rename_i key conn found
        simp only [newPeers, newAttempts, found]
        cases result with
        | ok value =>
            cases stepped
            refine sound.sent found rfl ?_ ?_
            · intro other same
              cases same
              rfl
            · rintro past (rfl | rfl)
              · exact .inl rfl
              · exact .inr rfl
        | error error =>
            cases stepped
            refine sound.sent found rfl (fun held => by cases held) ?_
            rintro past (rfl | rfl)
            · exact .inr (.inl rfl)
            · exact .inr (.inr rfl)
      · cases stepped
  | insert call victim =>
      simp only [ConnectionPool.step] at stepped
      split at stepped
      · rename_i found
        obtain ⟨room, made, rfl⟩ := Option.map_eq_some_iff.mp stepped
        exact sound.inserted found made
      · cases stepped

end Steps

/-- Every attempt is made on a connection that was opened for the key of its
call. A call that returned `Ok` has had its packet accepted by one such
connection, a call that returned an error by none, and no call has tried more
than twice. The pool keeps to its size. -/
structure SendsOnce (sending : SendingPool Key) : Prop where
  toPeer : ∀ attempt ∈ sending.attempts, ∃ sender,
    sending.state.calls[attempt.call]? = some sender ∧
      sending.peers[attempt.conn]? = some sender.key
  onOk : ∀ {call : Nat} {key : Key},
    sending.state.calls[call]? = some ⟨key, .returned (.ok ())⟩ →
      (sending.history call).count true = 1
  onError : ∀ {call : Nat} {key : Key} {error : TransportError},
    sending.state.calls[call]? = some ⟨key, .returned (.error error)⟩ →
      (sending.history call).count true = 0
  twice : ∀ call, (sending.history call).length ≤ 2
  bounded : sending.state.len ≤ sending.state.maxSize

private theorem length_of_allows {phase : SendPhase} {past : List Bool}
    (allows : phase.allows past) : past.length ≤ 2 := by
  cases phase with
  | lookingUp | sendingCached conn =>
      cases allows
      exact Nat.zero_le 2
  | removing conn =>
      cases allows
      exact Nat.le_succ 1
  | opening | sendingNew conn =>
      rcases allows with rfl | rfl
      · exact Nat.zero_le 2
      · exact Nat.le_succ 1
  | inserting conn =>
      rcases allows with rfl | rfl
      · exact Nat.le_succ 1
      · exact Nat.le_refl 2
  | returned result =>
      cases result with
      | ok value =>
          rcases allows with rfl | rfl
          · exact Nat.le_succ 1
          · exact Nat.le_refl 2
      | error error =>
          rcases allows with rfl | rfl | rfl
          · exact Nat.zero_le 2
          · exact Nat.le_succ 1
          · exact Nat.le_refl 2

theorem packets_sent_once {maxSize : Nat} {actions : List (SendAction Key)}
    {sending : SendingPool Key}
    (trace : Trace step (fun _ _ => True) (start maxSize) actions sending) :
    SendsOnce sending := by
  have sound : Sound sending := by
    apply trace.invariant fun _ sending => Sound sending
    · exact sound_start maxSize
    · intro _ _ _ _ sound _ taken
      exact sound.of_step taken
  have bounded : sending.state.Sound := by
    apply trace.invariant fun _ sending => sending.state.Sound
    · exact ConnectionPool.sound_start maxSize
    · intro _ before after _ sound _ taken
      obtain ⟨state, stepped, rfl⟩ := Option.map_eq_some_iff.mp taken
      exact sound.of_stepped (ConnectionPool.stepped_of_step stepped)
  refine ⟨sound.attempted, ?_, ?_, ?_, bounded.bounded⟩
  · intro call key found
    cases sound.allowed found with
    | inl once => rw [once]; rfl
    | inr again => rw [again]; rfl
  · intro call key error found
    rcases sound.allowed found with none | once | twice
    · rw [none]; rfl
    · rw [once]; rfl
    · rw [twice]; rfl
  · intro call
    by_cases inside : call < sending.state.calls.length
    · exact length_of_allows
        (sound.allowed (List.getElem?_eq_getElem inside))
    · rw [sound.history_eq_nil (Nat.not_lt.mp inside)]
      exact Nat.zero_le 2

def sampleRetry : List (SendAction Bool) :=
  ConnectionPool.sampleOpen 0 true 1 ++
    [.insert 0 none, .call true, .lookup 1, .sendCached 1 (.error .write) 2,
      .remove 1, .openNew 1 (.ok ()) 3, .sendNew 1 (.ok ()) 4,
      .insert 1 none]

def sampleSending : SendingPool Bool :=
  (Trace.exec step (start 2) sampleRetry).getD (start 2)

theorem sampleSending_sends_once :
    sampleSending.history 1 = [false, true] ∧ SendsOnce sampleSending :=
  ⟨by decide +kernel,
    packets_sent_once (Trace.of_possible (by decide +kernel))⟩

end SendingPool

end GothamRelay
