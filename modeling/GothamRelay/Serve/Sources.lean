import GothamRelay.Serve.Linear

namespace GothamRelay

open Data

variable {Source ρ : Type} [DecidableEq Source]

/-! ## A private limiter is a token bucket -/

namespace RateLimiter

def checkedAll (limiter : RateLimiter) (calls : List (Nat × Instant)) :
    RateLimiter :=
  calls.foldl (fun limiter call => (limiter.checkAt call.1 call.2).2) limiter

private theorem checkAll_concat (limiter : RateLimiter)
    (calls : List (Nat × Instant)) (packetLen : Nat) (now : Instant) :
    limiter.checkAll (calls ++ [(packetLen, now)]) =
      limiter.checkAll calls ++
        [(now, ((limiter.checkedAll calls).checkAt packetLen now).1)] := by
  induction calls generalizing limiter with
  | nil => rfl
  | cons call calls ih =>
      exact congrArg ((call.2, (limiter.checkAt call.1 call.2).1) :: ·)
        (ih (limiter.checkAt call.1 call.2).2)

private theorem checkedAll_concat (limiter : RateLimiter)
    (calls : List (Nat × Instant)) (packetLen : Nat) (now : Instant) :
    limiter.checkedAll (calls ++ [(packetLen, now)]) =
      ((limiter.checkedAll calls).checkAt packetLen now).2 := by
  rw [checkedAll, List.foldl_append]
  rfl

private theorem allowed_checkAll_le {maxPps : ℚ} (positive : 0 < maxPps)
    (created : Instant) {calls : List (Nat × Instant)}
    (ordered : (calls.map Prod.snd).Pairwise (· ≤ ·)) {start stop : Instant}
    (order : start ≤ stop) :
    ((((new maxPps 0 created).checkAll calls).countP
        (allowedIn start stop) : Nat) : ℚ) ≤
      maxPps * 2 + asSecsF64 (stop.durationSince start) * maxPps := by
  have metered := metered_new positive 0 created
  have bucket_eq : (new maxPps 0 created).bucket = ⟨maxPps * 2, created⟩ :=
    congrArg (Bucket.mk · created) metered.burst_eq
  have simulates := offerAll_checkAll positive ordered metered
    (Bucket.Agree.refl 0 _) (fun _ _ => Nat.zero_le _)
    (fun _ _ => .inr (le_of_eq (congrArg Bucket.tokens bucket_eq).symm))
  have times : ((((new maxPps 0 created).checkAll calls).map wanted).map
      Prod.fst) = calls.map Prod.snd := by
    rw [List.map_map]
    exact checkAll_times _ calls
  have capacity_nonneg : 0 ≤ maxPps * 2 := by linarith
  have bound := Bucket.taken_le (tokenRate_nonneg positive.le)
    capacity_nonneg (times ▸ ordered) order
    (show 0 ≤ (new maxPps 0 created).bucket.tokens from
      bucket_eq ▸ capacity_nonneg)
  rw [simulates, ← countP_allowedIn, ← asSecsF64_mul] at bound
  exact bound

end RateLimiter

/-! ## What one source is told -/

namespace Limited

def ofSource (src : Source) (log : List (SourceCall Source × RateDecision)) :
    List (SourceCall Source × RateDecision) :=
  log.filter fun entry => entry.1.src = src

def asked (entry : SourceCall Source × RateDecision) : Nat × Instant :=
  (entry.1.packetLen, entry.1.now)

def told (entry : SourceCall Source × RateDecision) : Instant × RateDecision :=
  (entry.1.now, entry.2)

def Private (maxPps : ℚ) (log : List (SourceCall Source × RateDecision)) :
    Prop :=
  ∀ (earlier later : List (SourceCall Source × RateDecision))
    (call : SourceCall Source) (decision : RateDecision),
    log = earlier ++ (call, decision) :: later →
      decision = ((privateAt maxPps call earlier).checkAt call.packetLen
        call.now).1

private theorem ofSource_concat (src : Source)
    (log : List (SourceCall Source × RateDecision))
    (entry : SourceCall Source × RateDecision) :
    ofSource src (log ++ [entry]) =
      if entry.1.src = src then ofSource src log ++ [entry]
      else ofSource src log := by
  rw [ofSource, List.filter_append, List.filter_cons]
  split
  · rename_i same
    rw [if_pos (of_decide_eq_true same)]
    rfl
  · rename_i other
    rw [if_neg (fun same => other (decide_eq_true same)), List.filter_nil,
      List.append_nil]
    rfl

/-- The private limiter of a source has answered the calls of the source, from
the moment of the first of them on. -/
inductive Answers (maxPps : ℚ) (src : Source)
    (log : List (SourceCall Source × RateDecision)) : Prop where
  | unasked (missing : privateLimiter maxPps src log = none)
      (empty : ofSource src log = [])
  | asked (created : Instant)
      (kept : privateLimiter maxPps src log =
        some ((RateLimiter.new maxPps 0 created).checkedAll
          ((ofSource src log).map Limited.asked)))
      (answered : (ofSource src log).map told =
        (RateLimiter.new maxPps 0 created).checkAll
          ((ofSource src log).map Limited.asked))

private theorem answers_of_private {maxPps : ℚ}
    {log : List (SourceCall Source × RateDecision)}
    (own : Private maxPps log) (src : Source) : Answers maxPps src log := by
  induction log using List.reverseRecOn with
  | nil => exact .unasked rfl rfl
  | append_singleton log entry ih =>
      obtain ⟨call, decision⟩ := entry
      have before : Private maxPps log := by
        intro earlier later other told split
        apply own earlier (later ++ [(call, decision)])
        rw [split, List.append_assoc, List.cons_append]
      have last := own log [] call decision rfl
      have answers := ih before
      by_cases same : call.src = src
      · have grown := ofSource_concat src log (call, decision)
        rw [if_pos same] at grown
        have kept := privateLimiter_concat maxPps src log call decision
        rw [if_pos same] at kept
        rw [privateAt, same] at last kept
        cases answers with
        | unasked missing empty =>
            rw [missing, Option.getD_none] at last kept
            refine .asked call.now ?_ ?_
            · rw [kept, grown, empty]
              rfl
            · rw [grown, empty, last]
              rfl
        | asked created kept' answered =>
            rw [kept', Option.getD_some] at last kept
            refine .asked created ?_ ?_
            · rw [kept, grown, List.map_append, List.map_singleton,
                Limited.asked, RateLimiter.checkedAll_concat]
            · rw [grown, List.map_append, List.map_append, List.map_singleton,
                List.map_singleton, Limited.asked,
                RateLimiter.checkAll_concat, answered, told, last]
      · have grown := ofSource_concat src log (call, decision)
        rw [if_neg same] at grown
        have kept := privateLimiter_concat maxPps src log call decision
        rw [if_neg same] at kept
        cases answers with
        | unasked missing empty =>
            exact .unasked (kept.trans missing) (grown.trans empty)
        | asked created kept' answered =>
            exact .asked created (by rw [kept, grown, kept'])
              (by rw [grown, answered])

private theorem allowed_ofSource_le {maxPps : ℚ} (positive : 0 < maxPps)
    {log : List (SourceCall Source × RateDecision)}
    (own : Private maxPps log)
    (ordered : (log.map fun entry => entry.1.now).Pairwise (· ≤ ·))
    (src : Source) {start stop : Instant} (order : start ≤ stop) :
    ((((ofSource src log).map told).countP
        (RateLimiter.allowedIn start stop) : Nat) : ℚ) ≤
      maxPps * 2 + RateLimiter.asSecsF64 (stop.durationSince start) * maxPps := by
  cases answers_of_private own src with
  | unasked missing empty =>
      have waited : 0 ≤ RateLimiter.asSecsF64 (stop.durationSince start) :=
        div_nonneg (Nat.cast_nonneg _) (Nat.cast_nonneg _)
      rw [empty, List.map_nil, List.countP_nil, Nat.cast_zero]
      have gained := mul_nonneg waited positive.le
      linarith
  | asked created kept answered =>
      rw [answered]
      apply RateLimiter.allowed_checkAll_le positive created _ order
      rw [List.map_map]
      exact ordered.sublist ((List.filter_sublist).map _)

end Limited

/-! ## The limiter of a server -/

namespace RelayServer

def limited (server : RelayServer Source ρ) : Limited Source where
  limiter := server.limiter
  log := server.checks.map fun check => (check.call, check.decision)

def pendingCall (victim : Option Source) (now : Instant) :
    Worker Source → Option (SourceCall Source)
  | ⟨.connection src, .checking packet⟩ =>
      some ⟨src, victim, packet.bytes.length, now⟩
  | _ => none

/-- The clock does not run backwards, and a source that was evicted rests
before it is heard again. -/
def Rested (server : RelayServer Source ρ) : ServerAction Source → Prop
  | .check index victim now =>
      ∀ call ∈ server.workers[index]?.bind (pendingCall victim now),
        server.limited.Rested call
  | _ => True

instance decidableRested (server : RelayServer Source ρ) :
    ∀ action, Decidable (server.Rested action)
  | .accept _ => isTrue trivial
  | .read _ _ => isTrue trivial
  | .close _ => isTrue trivial
  | .check index victim now =>
      inferInstanceAs (Decidable (∀ call ∈ server.workers[index]?.bind
        (pendingCall victim now), server.limited.Rested call))
  | .process _ _ _ _ => isTrue trivial
  | .wake _ _ _ => isTrue trivial

private theorem limited_of_step {crypto : CryptoGotham} {sampling : Sampling ρ}
    {before after : RelayServer Source ρ} {action : ServerAction Source}
    (rested : before.Rested action)
    (taken : before.step crypto sampling action = some after) :
    after.limited = before.limited ∨
      ∃ call, before.limited.Rested call ∧
        before.limited.step call = some after.limited := by
  cases stepped_of_step taken with
  | accept ingress => exact .inl rfl
  | read bytes found => exact .inl rfl
  | close found => exact .inl rfl
  | @check index src packet victim now checked found decided =>
      have quiet := rested _ (by rw [found]; rfl)
      refine .inr ⟨_, quiet, ?_⟩
      simp only [limited, Limited.step, decided, Option.map_some, check,
        List.map_append, List.map_cons, List.map_nil]
  | process found => exact .inl rfl
  | wake succeeds found due =>
      rw [wake.eq_def]
      split <;> exact .inl rfl

def LetThrough (server : RelayServer Source ρ) (number : Nat)
    (src : Source) : Prop :=
  ∃ check ∈ server.checks, check.number = number ∧ check.call.src = src ∧
    check.decision.isAllowed = true

structure Passed (server : RelayServer Source ρ) : Prop where
  processing : ∀ src packet,
    Worker.mk (.connection src) (.processing packet) ∈ server.workers →
      server.LetThrough packet.number src
  processed : ∀ done ∈ server.processed, ∀ src bytes,
    server.received[done.number]? = some (.connection src, bytes) →
      server.LetThrough done.number src

theorem LetThrough.mono {server after : RelayServer Source ρ} {number : Nat}
    {src : Source} (passed : server.LetThrough number src)
    (kept : server.checks ⊆ after.checks) : after.LetThrough number src := by
  obtain ⟨check, member, facts⟩ := passed
  exact ⟨check, kept member, facts⟩

private theorem Passed.of_frame {server after : RelayServer Source ρ}
    (passed : server.Passed) (justified : server.Justified)
    (workers : ∀ src packet,
      Worker.mk (.connection src) (.processing packet) ∈ after.workers →
        Worker.mk (.connection src) (.processing packet) ∈ server.workers)
    (checks : after.checks = server.checks)
    (processed : after.processed = server.processed)
    (received : server.received <+: after.received) : after.Passed where
  processing src packet member :=
    (passed.processing src packet (workers src packet member)).mono
      (checks ▸ List.Subset.refl _)
  processed done member src bytes read := by
    rw [processed] at member
    obtain ⟨ingress, old⟩ := justified.processed done member
    rw [getElem?_of_isPrefix received old, Option.some.injEq] at read
    rw [read] at old
    exact (passed.processed done member src bytes old).mono
      (checks ▸ List.Subset.refl _)

private theorem mem_of_mem_setPhase {server : RelayServer Source ρ}
    {index : Nat}
    {ingress : Ingress Source} {phase : WorkerPhase} {worker : Worker Source}
    (member : worker ∈ (server.setPhase index ingress phase).workers)
    (other : worker.phase ≠ phase) : worker ∈ server.workers := by
  cases List.mem_or_eq_of_mem_set member with
  | inl old => exact old
  | inr new => exact absurd (congrArg Worker.phase new) other

theorem Passed.check {server : RelayServer Source ρ} (passed : server.Passed)
    {index : Nat} {src : Source} {packet : Received}
    {call : SourceCall Source} (source : call.src = src)
    (checked : RateDecision × PerSourceLimiter Source) :
    (server.check index src packet call checked).Passed := by
  have more : server.checks ⊆
      (server.check index src packet call checked).checks :=
    List.subset_append_left _ _
  constructor
  · intro other held member
    cases List.mem_or_eq_of_mem_set member with
    | inl old => exact (passed.processing other held old).mono more
    | inr new =>
        cases allowed : checked.1.isAllowed with
        | false =>
            rw [allowed, if_neg Bool.false_ne_true] at new
            cases new
        | true =>
            rw [allowed, if_pos rfl] at new
            cases new
            exact ⟨_, List.mem_append_right _ List.mem_cons_self, rfl, source,
              allowed⟩
  · intro done member other bytes read
    exact (passed.processed done member other bytes read).mono more

theorem Passed.process {crypto : CryptoGotham} {sampling : Sampling ρ}
    {server : RelayServer Source ρ} (passed : server.Passed)
    (justified : server.Justified) {index : Nat} {ingress : Ingress Source}
    {packet : Received} (limiterNow replayNow now : Instant)
    (found : server.workers[index]? = some ⟨ingress, .processing packet⟩) :
    (server.process crypto sampling index ingress packet limiterNow replayNow
      now).Passed := by
  have worker := List.mem_of_getElem? found
  constructor
  · intro src held member
    exact passed.processing src held (mem_of_mem_setPhase member (by simp))
  · intro done member src bytes read
    cases List.mem_append.mp member with
    | inl old => exact passed.processed done old src bytes read
    | inr new =>
        rw [List.mem_singleton.mp new] at read ⊢
        have origin := justified.held _ worker packet (.inr rfl)
        rw [show server.received[packet.number]? = _ from read] at origin
        cases origin
        exact passed.processing src packet worker

theorem Passed.of_step {crypto : CryptoGotham} {sampling : Sampling ρ}
    {before after : RelayServer Source ρ} {action : ServerAction Source}
    (passed : before.Passed) (justified : before.Justified)
    (taken : before.step crypto sampling action = some after) :
    after.Passed := by
  cases stepped_of_step taken with
  | accept ingress =>
      refine passed.of_frame justified ?_ rfl rfl (List.prefix_refl _)
      intro src packet member
      cases List.mem_append.mp member with
      | inl old => exact old
      | inr new => cases List.mem_singleton.mp new
  | @read index ingress bytes found =>
      refine passed.of_frame justified ?_ rfl rfl (List.prefix_append _ _)
      intro src packet member
      cases List.mem_or_eq_of_mem_set member with
      | inl old => exact old
      | inr new =>
          obtain ⟨rfl, phase⟩ := Worker.mk.inj new
          cases phase
  | close found =>
      refine passed.of_frame justified ?_ rfl rfl (List.prefix_refl _)
      intro src packet member
      exact mem_of_mem_setPhase member (by simp)
  | check found decided =>
      refine passed.check ?_ _
      rfl
  | process found => exact passed.process justified _ _ _ found
  | wake succeeds found due =>
      rw [wake.eq_def]
      split <;> exact { passed with }

/-- What holds between a source and the relay, however many connections the
source has open. -/
structure SourceBounded (server : RelayServer Source ρ) : Prop where
  passed : ∀ done ∈ server.processed, ∀ src bytes,
    server.received[done.number]? = some (.connection src, bytes) →
      ∃ check ∈ server.checks, check.number = done.number ∧
        check.call.src = src ∧ check.decision.isAllowed = true
  bounded : ∀ (src : Source) {start stop : Instant}, start ≤ stop →
    ((server.checks.countP fun check => check.call.src = src &&
        RateLimiter.allowedIn start stop (check.call.now, check.decision) :
          Nat) : ℚ) ≤
      2 * 200 + 200 * RateLimiter.asSecsF64 (stop.durationSince start)

/-- The run invariant: the limiter stands for the private ones, and its calls
are in the order of the clock. -/
structure Metered (server : RelayServer Source ρ) : Prop where
  isolated : Limited.Isolated perSourceMaxPps perSourceMaxTracked
    server.limited
  ordered : (server.limited.log.map fun entry => entry.1.now).Pairwise
    (· ≤ ·)

theorem Metered.of_step {crypto : CryptoGotham} {sampling : Sampling ρ}
    {before after : RelayServer Source ρ} {action : ServerAction Source}
    (metered : before.Metered) (rested : before.Rested action)
    (taken : before.step crypto sampling action = some after) :
    after.Metered := by
  rcases limited_of_step rested taken with same | ⟨call, quiet, called⟩
  · exact ⟨same ▸ metered.isolated, same ▸ metered.ordered⟩
  · refine ⟨metered.isolated.of_step quiet called, ?_⟩
    rw [Limited.step, Option.map_eq_some_iff] at called
    obtain ⟨checked, _, logged⟩ := called
    rw [← logged, List.map_append, List.map_singleton, List.pairwise_append]
    refine ⟨metered.ordered, List.pairwise_singleton _ _, ?_⟩
    intro time member now same
    obtain ⟨entry, old, rfl⟩ := List.mem_map.mp member
    rw [List.mem_singleton.mp same]
    exact quiet.ordered entry old

private theorem countP_checks (server : RelayServer Source ρ) (src : Source)
    (start stop : Instant) :
    (server.checks.countP fun check => check.call.src = src &&
        RateLimiter.allowedIn start stop (check.call.now, check.decision)) =
      ((Limited.ofSource src server.limited.log).map Limited.told).countP
        (RateLimiter.allowedIn start stop) := by
  rw [List.countP_map, Limited.ofSource, List.countP_filter, limited,
    List.countP_map]
  apply List.countP_congr
  intro check _
  simp only [Function.comp_apply, Limited.told, Bool.and_comm]

theorem source_bounded_over_connections (crypto : CryptoGotham)
    (sampling : Sampling ρ) (relay : Relay) (rng : ρ) (hasDelivery : Bool)
    {actions : List (ServerAction Source)} {server : RelayServer Source ρ}
    (trace : Trace (step crypto sampling)
      (fun server action => server.Timely action ∧ server.Rested action)
      (start relay rng perSourceLimiter hasDelivery) actions server) :
    server.SourceBounded := by
  have metered : server.Metered := by
    apply trace.invariant fun _ server => server.Metered
    · exact ⟨Limited.isolated_start _ _, .nil⟩
    · intro _ before after action metered permitted taken
      exact metered.of_step permitted.2 taken
  have passed : server.Justified ∧ server.Passed := by
    apply trace.invariant fun _ server => server.Justified ∧ server.Passed
    · exact ⟨justified_start relay rng _ hasDelivery,
        fun _ _ member => absurd member List.not_mem_nil,
        fun _ member => absurd member List.not_mem_nil⟩
    · intro _ before after action both permitted taken
      exact ⟨both.1.of_step permitted.1 taken, both.2.of_step both.1 taken⟩
  refine ⟨passed.2.processed, ?_⟩
  intro src start stop order
  have positive : (0 : ℚ) < perSourceMaxPps := by decide
  have bound := Limited.allowed_ofSource_le positive
    (fun _ _ _ _ split => metered.isolated.decided split) metered.ordered src
    order
  rw [countP_checks]
  rw [perSourceMaxPps] at bound
  linarith

def twoConnections : List (ServerAction Bool) :=
  [.accept (.connection true), .accept (.connection true),
    .read 0 [3, 1, 0, 5], .read 1 [3, 0, 0, 6], .check 1 none 0,
    .check 0 none 1, .process 0 1 1 1, .process 1 2 2 2]

def twoConnectionsStart : RelayServer Bool Unit :=
  start (Relay.new (Bytes.replicate 32 7) 8 10 0 0) () perSourceLimiter true

def twoConnectionsEnd : RelayServer Bool Unit :=
  (Trace.exec (step sampleCrypto .plain) twoConnectionsStart
    twoConnections).getD twoConnectionsStart

theorem two_connections_bounded :
    twoConnectionsEnd.checks.map Checked.number = [1, 0] ∧
      twoConnectionsEnd.SourceBounded := by
  refine ⟨by decide +kernel, ?_⟩
  have trace : Trace (step sampleCrypto .plain)
      (fun server action => server.Timely action ∧ server.Rested action)
      twoConnectionsStart twoConnections twoConnectionsEnd :=
    Trace.of_permitted (by decide +kernel) (by decide +kernel)
  exact source_bounded_over_connections sampleCrypto .plain
    (Relay.new (Bytes.replicate 32 7) 8 10 0 0) () true trace

end RelayServer

end GothamRelay
