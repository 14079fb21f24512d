import GothamRelay.Data.Eviction
import GothamRelay.Data.Transition
import GothamRelay.RateLimit.Twin

namespace GothamRelay

open Data

/-! One bucket a source, in a table of bounded size. -/

structure PerSourceLimiter (Source : Type) [DecidableEq Source] where
  buckets : AList fun _ : Source => RateLimiter × Instant
  maxEntries : Nat
  maxPps : ℚ
  maxBytesPerDay : UInt64

namespace PerSourceLimiter

variable {Source : Type} [DecidableEq Source]

def new (maxPps : ℚ) (maxBytesPerDay : UInt64) (maxEntries : Nat) :
    PerSourceLimiter Source where
  buckets := ∅
  maxEntries := max maxEntries 1
  maxPps := maxPps
  maxBytesPerDay := maxBytesPerDay

def tracked (limiter : PerSourceLimiter Source) : Nat :=
  limiter.buckets.keys.length

/-- The eviction at the head of `check_at`. The victim is what
`min_by_key(|(_, (_, seen))| *seen)` returns, which may be any of the entries
that are equally idle. -/
def makeRoom (limiter : PerSourceLimiter Source) (src : Source)
    (victim : Option Source) : Option (PerSourceLimiter Source) :=
  if src ∉ limiter.buckets ∧ limiter.tracked ≥ limiter.maxEntries then
    if Eviction.isMinBy Prod.snd limiter.buckets victim then
      some { limiter with buckets := Eviction.evict limiter.buckets victim }
    else none
  else some limiter

/-- `entry(src).or_insert_with(..)`. -/
def bucketOf (limiter : PerSourceLimiter Source) (src : Source)
    (now : Instant) : RateLimiter :=
  match limiter.buckets.lookup src with
  | some entry => entry.1
  | none => RateLimiter.new limiter.maxPps limiter.maxBytesPerDay now

def checkAt (limiter : PerSourceLimiter Source) (victim : Option Source)
    (src : Source) (packetLen : Nat) (now : Instant) :
    Option (RateDecision × PerSourceLimiter Source) :=
  (limiter.makeRoom src victim).map fun room =>
    let checked := (room.bucketOf src now).checkAt packetLen now
    (checked.1,
      { room with buckets := room.buckets.insert src (checked.2, now) })

end PerSourceLimiter

structure SourceCall (Source : Type) where
  src : Source
  victim : Option Source
  packetLen : Nat
  now : Instant

structure Limited (Source : Type) [DecidableEq Source] where
  limiter : PerSourceLimiter Source
  log : List (SourceCall Source × RateDecision)

namespace Limited

variable {Source : Type} [DecidableEq Source]

def step (state : Limited Source) (call : SourceCall Source) :
    Option (Limited Source) :=
  (state.limiter.checkAt call.victim call.src call.packetLen call.now).map
    fun checked =>
      { limiter := checked.2, log := state.log ++ [(call, checked.1)] }

def start (maxPps : ℚ) (maxEntries : Nat) : Limited Source where
  limiter := .new maxPps 0 maxEntries
  log := []

/-- Time does not go back, and a source that was evicted has been quiet for as
long as a bucket takes to fill. -/
structure Rested (state : Limited Source) (call : SourceCall Source) :
    Prop where
  ordered : ∀ entry ∈ state.log, entry.1.now ≤ call.now
  rested : call.src ∉ state.limiter.buckets → ∀ entry ∈ state.log,
    entry.1.src = call.src → entry.1.now + Duration.fromSecs 2 ≤ call.now

instance decidableRested (state : Limited Source)
    (call : SourceCall Source) : Decidable (state.Rested call) :=
  decidable_of_iff
    ((∀ entry ∈ state.log, entry.1.now ≤ call.now) ∧
      (call.src ∉ state.limiter.buckets → ∀ entry ∈ state.log,
        entry.1.src = call.src →
          entry.1.now + Duration.fromSecs 2 ≤ call.now))
    ⟨fun both => ⟨both.1, both.2⟩, fun rested => ⟨rested.1, rested.2⟩⟩

/-- A limiter of one source, made at its first call and fed with its calls
alone. -/
def privateLimiter (maxPps : ℚ) (src : Source)
    (log : List (SourceCall Source × RateDecision)) : Option RateLimiter :=
  (log.filter fun entry => entry.1.src = src).foldl
    (fun own entry => some ((own.getD (.new maxPps 0 entry.1.now)).checkAt
      entry.1.packetLen entry.1.now).2) none

def privateAt (maxPps : ℚ) (call : SourceCall Source)
    (log : List (SourceCall Source × RateDecision)) : RateLimiter :=
  (privateLimiter maxPps call.src log).getD (.new maxPps 0 call.now)

theorem privateLimiter_concat (maxPps : ℚ) (src : Source)
    (log : List (SourceCall Source × RateDecision))
    (call : SourceCall Source) (decision : RateDecision) :
    privateLimiter maxPps src (log ++ [(call, decision)]) =
      if call.src = src then
        some ((privateAt maxPps call log).checkAt call.packetLen call.now).2
      else privateLimiter maxPps src log := by
  rw [privateLimiter, List.filter_append, List.foldl_append, privateAt]
  split
  · rename_i same
    subst src
    simp only [privateLimiter, List.filter_cons, decide_true, if_true,
      List.filter_nil, List.foldl_cons, List.foldl_nil]
  · rename_i other
    simp only [privateLimiter, List.filter_cons, decide_eq_true_eq, other,
      if_false, List.filter_nil, List.foldl_nil]

/-! ## What a call leaves of the table -/

section Room

variable {limiter room : PerSourceLimiter Source} {src : Source}
  {victim : Option Source}

inductive Roomy (limiter : PerSourceLimiter Source) (src : Source) :
    PerSourceLimiter Source → Prop where
  | known (member : src ∈ limiter.buckets) : Roomy limiter src limiter
  | free (absent : src ∉ limiter.buckets)
      (fits : limiter.tracked < limiter.maxEntries) :
      Roomy limiter src limiter
  | evicted (absent : src ∉ limiter.buckets)
      {buckets : AList fun _ : Source => RateLimiter × Instant}
      (evicted : Eviction.Evicted Prod.snd limiter.buckets buckets) :
      Roomy limiter src { limiter with buckets }

private theorem roomy_of_makeRoom
    (made : limiter.makeRoom src victim = some room) :
    Roomy limiter src room := by
  rw [PerSourceLimiter.makeRoom] at made
  split at made
  · rename_i crowded
    split at made <;> cases made
    rename_i minimal
    exact .evicted crowded.1 (Eviction.evicted_of_isMinBy minimal)
  · rename_i roomy
    cases made
    by_cases member : src ∈ limiter.buckets
    · exact .known member
    · exact .free member (Nat.not_le.mp fun full => roomy ⟨member, full⟩)

theorem Roomy.lookup (roomy : Roomy limiter src room) {other : Source}
    {entry : RateLimiter × Instant}
    (found : room.buckets.lookup other = some entry) :
    limiter.buckets.lookup other = some entry := by
  cases roomy with
  | known member => exact found
  | free absent fits => exact found
  | evicted absent evicted => exact evicted.lookup found

private theorem Roomy.lookup_src (roomy : Roomy limiter src room) :
    room.buckets.lookup src = limiter.buckets.lookup src := by
  cases roomy with
  | known member => rfl
  | free absent fits => rfl
  | @evicted absent buckets evicted =>
      have missing := AList.lookup_eq_none.mpr absent
      cases found : buckets.lookup src with
      | none => rw [missing]
      | some entry =>
          rw [evicted.lookup found] at missing
          cases missing

theorem Roomy.maxPps_eq (roomy : Roomy limiter src room) :
    room.maxPps = limiter.maxPps := by
  cases roomy <;> rfl

private theorem Roomy.maxBytesPerDay_eq (roomy : Roomy limiter src room) :
    room.maxBytesPerDay = limiter.maxBytesPerDay := by
  cases roomy <;> rfl

private theorem Roomy.maxEntries_eq (roomy : Roomy limiter src room) :
    room.maxEntries = limiter.maxEntries := by
  cases roomy <;> rfl

theorem Roomy.length_insert_le (roomy : Roomy limiter src room)
    (positive : 0 < limiter.maxEntries)
    (bounded : limiter.tracked ≤ limiter.maxEntries)
    (entry : RateLimiter × Instant) :
    (room.buckets.insert src entry).keys.length ≤ limiter.maxEntries := by
  cases roomy with
  | known member =>
      rw [Eviction.length_insert_of_mem member]
      exact bounded
  | free absent fits =>
      exact Nat.le_trans (Eviction.length_insert_le _ _ _) fits
  | evicted absent evicted =>
      exact evicted.length_insert_le positive bounded src entry

end Room

/-! ## The table stands for the private limiters -/

def Now (log : List (SourceCall Source × RateDecision)) (now : Instant) :
    Prop :=
  ∀ entry ∈ log, entry.1.now ≤ now

structure Isolated (maxPps : ℚ) (maxEntries : Nat) (state : Limited Source) :
    Prop where
  maxPps_eq : state.limiter.maxPps = maxPps
  quota_eq : state.limiter.maxBytesPerDay = 0
  maxEntries_eq : state.limiter.maxEntries = max maxEntries 1
  bounded : state.limiter.tracked ≤ state.limiter.maxEntries
  /-- A private limiter was last written at some call of its source. -/
  own : ∀ {src : Source} {own : RateLimiter},
    privateLimiter maxPps src state.log = some own →
      own.Plain maxPps ∧ ∃ entry ∈ state.log,
        entry.1.src = src ∧ own.lastRefill ≤ entry.1.now
  /-- A bucket of the table holds what the private one holds. -/
  held : ∀ {src : Source} {entry : RateLimiter × Instant},
    state.limiter.buckets.lookup src = some entry →
      entry.1.Plain maxPps ∧ ∃ own,
        privateLimiter maxPps src state.log = some own ∧
        ∀ {now : Instant}, Now state.log now →
          RateLimiter.Twin maxPps now own entry.1
  decided : ∀ {earlier later : List (SourceCall Source × RateDecision)}
    {call : SourceCall Source} {decision : RateDecision},
    state.log = earlier ++ (call, decision) :: later →
      decision = ((privateAt maxPps call earlier).checkAt call.packetLen
        call.now).1

theorem isolated_start (maxPps : ℚ) (maxEntries : Nat) :
    Isolated maxPps maxEntries (start maxPps maxEntries : Limited Source) where
  maxPps_eq := rfl
  quota_eq := rfl
  maxEntries_eq := rfl
  bounded := Nat.zero_le _
  own := nofun
  held found := by
    rw [start, PerSourceLimiter.new, AList.lookup_empty] at found
    cases found
  decided split := by
    have impossible := congrArg List.length split
    simp [start] at impossible

section Step

variable {maxPps : ℚ} {maxEntries : Nat} {state : Limited Source}
  {call : SourceCall Source}

private theorem Isolated.plain_privateAt
    (isolated : Isolated maxPps maxEntries state) (call : SourceCall Source) :
    (privateAt maxPps call state.log).Plain maxPps := by
  rw [privateAt]
  cases found : privateLimiter maxPps call.src state.log with
  | none => exact RateLimiter.plain_new maxPps call.now
  | some own => exact (isolated.own found).1

private theorem Isolated.bucketOf (isolated : Isolated maxPps maxEntries state)
    (rested : state.Rested call) {room : PerSourceLimiter Source}
    (roomy : Roomy state.limiter call.src room) :
    (room.bucketOf call.src call.now).Plain maxPps ∧
      RateLimiter.Twin maxPps call.now (privateAt maxPps call state.log)
        (room.bucketOf call.src call.now) := by
  rw [PerSourceLimiter.bucketOf, roomy.lookup_src, roomy.maxPps_eq,
    roomy.maxBytesPerDay_eq, isolated.maxPps_eq, isolated.quota_eq, privateAt]
  cases found : state.limiter.buckets.lookup call.src with
  | some entry =>
      obtain ⟨plain, own, private_eq, twin⟩ := isolated.held found
      rw [private_eq]
      exact ⟨plain, twin rested.ordered⟩
  | none =>
      refine ⟨RateLimiter.plain_new maxPps call.now, ?_⟩
      cases private_eq : privateLimiter maxPps call.src state.log with
      | none => exact Bucket.Agree.refl _ _
      | some own =>
          -- The source was evicted, and has rested since its last call.
          obtain ⟨plain, entry, member, same, written⟩ :=
            isolated.own private_eq
          have absent := AList.lookup_eq_none.mp found
          exact plain.twin_new (Nat.le_trans
            (Nat.add_le_add_right written _)
            (rested.rested absent entry member same))

private theorem Isolated.lastRefill_privateAt
    (isolated : Isolated maxPps maxEntries state)
    (ordered : Now state.log call.now) :
    (privateAt maxPps call state.log).lastRefill ≤ call.now := by
  rw [privateAt]
  cases found : privateLimiter maxPps call.src state.log with
  | none => exact Nat.le_refl _
  | some own =>
      obtain ⟨_, entry, member, _, written⟩ := isolated.own found
      exact Nat.le_trans written (ordered entry member)

private theorem Isolated.own_concat
    (isolated : Isolated maxPps maxEntries state)
    (ordered : Now state.log call.now) (decision : RateDecision)
    {src : Source} {own : RateLimiter}
    (found : privateLimiter maxPps src (state.log ++ [(call, decision)]) =
      some own) :
    own.Plain maxPps ∧ ∃ entry ∈ state.log ++ [(call, decision)],
      entry.1.src = src ∧ own.lastRefill ≤ entry.1.now := by
  rw [privateLimiter_concat] at found
  split at found
  · rename_i same
    cases found
    refine ⟨(isolated.plain_privateAt call).checkAt _ _, (call, decision),
      List.mem_append_right _ List.mem_cons_self, same, ?_⟩
    exact RateLimiter.checkAt_lastRefill_le
      (isolated.lastRefill_privateAt ordered) (Nat.le_refl _) _
  · obtain ⟨plain, entry, member, same, written⟩ := isolated.own found
    exact ⟨plain, entry, List.mem_append_left _ member, same, written⟩

omit [DecidableEq Source] in
private theorem Now.of_concat {log : List (SourceCall Source × RateDecision)}
    {decision : RateDecision} {now : Instant}
    (after : Now (log ++ [(call, decision)]) now) :
    Now log now ∧ call.now ≤ now :=
  ⟨fun entry member => after entry (List.mem_append_left _ member),
    after (call, decision) (List.mem_append_right _ List.mem_cons_self)⟩

private theorem Isolated.held_concat
    (isolated : Isolated maxPps maxEntries state)
    {room : PerSourceLimiter Source}
    (roomy : Roomy state.limiter call.src room) {checked : RateLimiter}
    (plain : checked.Plain maxPps)
    (twin : RateLimiter.Twin maxPps call.now
      ((privateAt maxPps call state.log).checkAt call.packetLen call.now).2
      checked)
    (decision : RateDecision) {src : Source} {entry : RateLimiter × Instant}
    (found : (room.buckets.insert call.src (checked, call.now)).lookup src =
      some entry) :
    entry.1.Plain maxPps ∧ ∃ own,
      privateLimiter maxPps src (state.log ++ [(call, decision)]) =
        some own ∧
      ∀ {now : Instant}, Now (state.log ++ [(call, decision)]) now →
        RateLimiter.Twin maxPps now own entry.1 := by
  rw [privateLimiter_concat]
  split
  · rename_i same
    subst src
    rw [AList.lookup_insert] at found
    cases found
    exact ⟨plain, _, rfl, fun after => twin.later after.of_concat.2⟩
  · rename_i other
    rw [AList.lookup_insert_ne (fun same => other same.symm)] at found
    obtain ⟨plain, own, private_eq, twin⟩ :=
      isolated.held (roomy.lookup found)
    exact ⟨plain, own, private_eq, fun after => twin after.of_concat.1⟩

theorem Isolated.of_step (isolated : Isolated maxPps maxEntries state)
    (rested : state.Rested call) {after : Limited Source}
    (taken : state.step call = some after) :
    Isolated maxPps maxEntries after := by
  simp only [step, PerSourceLimiter.checkAt, Option.map_map,
    Option.map_eq_some_iff] at taken
  obtain ⟨room, made, rfl⟩ := taken
  have roomy := roomy_of_makeRoom made
  obtain ⟨plain, twin⟩ := isolated.bucketOf rested roomy
  obtain ⟨decision_eq, twin⟩ :=
    twin.checkAt (isolated.plain_privateAt call) plain call.packetLen
  refine ⟨roomy.maxPps_eq.trans isolated.maxPps_eq,
    roomy.maxBytesPerDay_eq.trans isolated.quota_eq,
    roomy.maxEntries_eq.trans isolated.maxEntries_eq, ?_, ?_, ?_, ?_⟩
  · have positive : 0 < state.limiter.maxEntries := by
      rw [isolated.maxEntries_eq]
      omega
    exact (roomy.length_insert_le positive isolated.bounded _).trans
      (Nat.le_of_eq roomy.maxEntries_eq.symm)
  · exact isolated.own_concat rested.ordered _
  · exact isolated.held_concat roomy (plain.checkAt _ _) twin _
  · intro earlier later other decision split
    rcases concat_split_cases split with ⟨rfl, last⟩ | ⟨rest, old⟩
    · cases last
      exact decision_eq.symm
    · exact isolated.decided old

end Step

/-- Every call is decided as the private limiter of its source would decide
it, whichever of the longest idle sources are evicted. -/
theorem sources_limited_in_isolation (maxPps : ℚ) (maxEntries : Nat)
    {calls : List (SourceCall Source)} {state : Limited Source}
    (trace : Trace step Rested (start maxPps maxEntries) calls state) :
    (∀ {earlier later : List (SourceCall Source × RateDecision)}
      {call : SourceCall Source} {decision : RateDecision},
      state.log = earlier ++ (call, decision) :: later →
        decision = ((privateAt maxPps call earlier).checkAt call.packetLen
          call.now).1) ∧
      state.limiter.tracked ≤ max maxEntries 1 := by
  have isolated : Isolated maxPps maxEntries state := by
    apply trace.invariant fun _ state => Isolated maxPps maxEntries state
    · exact isolated_start maxPps maxEntries
    · intro _ before after call isolated rested taken
      exact isolated.of_step rested taken
  exact ⟨isolated.decided,
    isolated.bounded.trans (Nat.le_of_eq isolated.maxEntries_eq)⟩

/-- A table of one entry and two sources that evict each other, the second of
which finds its bucket empty. -/
def sampleCalls : List (SourceCall Bool) :=
  [⟨true, none, 2048, 0⟩, ⟨false, some true, 2048, 5⟩,
    ⟨false, none, 2048, 5⟩, ⟨false, none, 2048, 5⟩,
    ⟨true, some false, 2048, 2000000000⟩]

def sampleEnd : Limited Bool :=
  (Trace.exec step (start 1 0) sampleCalls).getD (start 1 0)

theorem sampleCalls_limited_in_isolation :
    sampleEnd.log.map Prod.snd =
        [.allow, .allow, .allow, .throttled .rate, .allow] ∧
      sampleEnd.limiter.tracked ≤ 1 :=
  ⟨by decide +kernel, (sources_limited_in_isolation 1 0
    (Trace.of_permitted (by decide +kernel) (by decide +kernel))).2⟩

end Limited

end GothamRelay
