import Mathlib.Algebra.Order.Field.Basic
import Mathlib.Data.List.Count
import Mathlib.Tactic.Linarith
import Mathlib.Tactic.Ring

namespace GothamRelay.Data

/-! Token buckets. A bucket remembers its tokens at one moment, and what it
holds later follows from the rate and the capacity. -/

structure Bucket (K : Type) where
  tokens : K
  since : Nat

namespace Bucket

variable {K : Type} [Field K]

theorem gained_add (rate : K) {now moment later : Nat} (first : now ≤ moment)
    (second : moment ≤ later) :
    ((moment - now : Nat) : K) * rate + ((later - moment : Nat) : K) * rate =
      ((later - now : Nat) : K) * rate := by
  rw [← add_mul, ← Nat.cast_add]
  congr 2
  omega

variable [LinearOrder K]

def level (rate capacity : K) (bucket : Bucket K) (now : Nat) : K :=
  min (bucket.tokens + ((now - bucket.since : Nat) : K) * rate) capacity

/-- From now on the two buckets hold the same. -/
def Agree (rate capacity : K) (now : Nat) (first second : Bucket K) : Prop :=
  ∀ later, now ≤ later →
    first.level rate capacity later = second.level rate capacity later

/-- Either the bucket was last written before now, or it has been full since
it was made. -/
def Settled (capacity : K) (bucket : Bucket K) (now : Nat) : Prop :=
  bucket.since ≤ now ∨ capacity ≤ bucket.tokens

/-- One request to a bucket that is written down at every request, whether or
not a token is wanted and whether or not there is one. -/
def offer (rate capacity : K) (bucket : Bucket K) (now : Nat)
    (wanted : Bool) : Bool × Bucket K :=
  let level := bucket.level rate capacity now
  if wanted = true ∧ 1 ≤ level then (true, ⟨level - 1, now⟩)
  else (false, ⟨level, now⟩)

def offerAll (rate capacity : K) :
    Bucket K → List (Nat × Bool) → List (Nat × Bool)
  | _, [] => []
  | bucket, (now, wanted) :: requests =>
      let offered := bucket.offer rate capacity now wanted
      (now, offered.1) :: offerAll rate capacity offered.2 requests

def takes (start stop : Nat) (entry : Nat × Bool) : Bool :=
  entry.2 && start ≤ entry.1 && entry.1 ≤ stop

section Order

variable {rate capacity : K}

theorem level_le_capacity (bucket : Bucket K) (now : Nat) :
    bucket.level rate capacity now ≤ capacity :=
  min_le_right _ _

theorem level_of_le {tokens : K} (fits : tokens ≤ capacity) (now : Nat) :
    level rate capacity ⟨tokens, now⟩ now = tokens := by
  rw [level, Nat.sub_self, Nat.cast_zero, zero_mul, add_zero]
  exact min_eq_left fits

theorem level_eq_capacity {bucket : Bucket K} {now : Nat}
    (full : capacity ≤
      bucket.tokens + ((now - bucket.since : Nat) : K) * rate) :
    bucket.level rate capacity now = capacity :=
  min_eq_right full

theorem Agree.refl (now : Nat) (bucket : Bucket K) :
    Agree rate capacity now bucket bucket :=
  fun _ _ => rfl

theorem Agree.later {first second : Bucket K} {now moment : Nat}
    (agree : Agree rate capacity now first second) (order : now ≤ moment) :
    Agree rate capacity moment first second :=
  fun later after => agree later (Nat.le_trans order after)

theorem offer_since (bucket : Bucket K) (now : Nat) (wanted : Bool) :
    (bucket.offer rate capacity now wanted).2.since = now := by
  rw [offer]
  split <;> rfl

theorem offerAll_times {bucket : Bucket K} {requests : List (Nat × Bool)} :
    (offerAll rate capacity bucket requests).map Prod.fst =
      requests.map Prod.fst := by
  induction requests generalizing bucket with
  | nil => rfl
  | cons request requests ih =>
      rw [offerAll, List.map_cons, ih, List.map_cons]

theorem countP_takes_of_late {log : List (Nat × Bool)} {start stop : Nat}
    (late : ∀ time ∈ log.map Prod.fst, stop < time) :
    log.countP (takes start stop) = 0 := by
  rw [List.countP_eq_zero]
  intro entry member
  have after := late entry.1 (List.mem_map_of_mem member)
  simp only [takes, Bool.and_eq_true, decide_eq_true_eq, not_and]
  omega

theorem countP_takes_cons_le (entry : Nat × Bool) (log : List (Nat × Bool))
    (start stop : Nat) :
    (entry :: log).countP (takes start stop) ≤
      log.countP (takes start stop) + (if entry.2 then 1 else 0) := by
  rw [List.countP_cons]
  apply Nat.add_le_add_left
  cases taken : entry.2 with
  | false => simp only [takes, taken, Bool.false_and, Bool.false_eq_true,
      if_false, Nat.le_refl]
  | true =>
      rw [if_pos rfl]
      split <;> omega

end Order

variable [IsStrictOrderedRing K] {rate capacity : K}

theorem gained_nonneg (rate_nonneg : 0 ≤ rate) (now later : Nat) :
    0 ≤ ((later - now : Nat) : K) * rate :=
  mul_nonneg (Nat.cast_nonneg _) rate_nonneg

theorem gained_mono (rate_nonneg : 0 ≤ rate) {short long : Nat}
    (order : short ≤ long) : (short : K) * rate ≤ (long : K) * rate :=
  mul_le_mul_of_nonneg_right (Nat.cast_le.mpr order) rate_nonneg

theorem level_nonneg (rate_nonneg : 0 ≤ rate) (capacity_nonneg : 0 ≤ capacity)
    {bucket : Bucket K} (tokens_nonneg : 0 ≤ bucket.tokens) (now : Nat) :
    0 ≤ bucket.level rate capacity now :=
  le_min (add_nonneg tokens_nonneg (gained_nonneg rate_nonneg _ _))
    capacity_nonneg

theorem level_le_add (rate_nonneg : 0 ≤ rate) (capacity : K)
    (bucket : Bucket K) (now later : Nat) :
    bucket.level rate capacity later ≤
      bucket.level rate capacity now + ((later - now : Nat) : K) * rate := by
  have waited := gained_nonneg rate_nonneg now later
  have gained : ((later - bucket.since : Nat) : K) * rate ≤
      ((now - bucket.since : Nat) : K) * rate +
        ((later - now : Nat) : K) * rate := by
    rw [← add_mul, ← Nat.cast_add]
    apply gained_mono rate_nonneg
    omega
  rw [level, level, min_add]
  apply min_le_min
  · linarith
  · linarith

theorem level_level (rate_nonneg : 0 ≤ rate) {bucket : Bucket K}
    {now later : Nat} (settled : bucket.Settled capacity now)
    (order : now ≤ later) :
    level rate capacity ⟨bucket.level rate capacity now, now⟩ later =
      bucket.level rate capacity later := by
  have waited := gained_nonneg rate_nonneg now later
  cases settled with
  | inl past =>
      have split : later - bucket.since =
          (now - bucket.since) + (later - now) := by
        omega
      rw [level, level, level, split, Nat.cast_add, add_mul, ← add_assoc,
        min_add, min_assoc]
      congr 1
      exact min_eq_right (by linarith)
  | inr full =>
      have here : bucket.level rate capacity now = capacity :=
        level_eq_capacity
          (by linarith [gained_nonneg rate_nonneg bucket.since now])
      have there : bucket.level rate capacity later = capacity :=
        level_eq_capacity
          (by linarith [gained_nonneg rate_nonneg bucket.since later])
      rw [here, there]
      exact level_eq_capacity (by linarith)

theorem Agree.written (rate_nonneg : 0 ≤ rate) {first second : Bucket K}
    {now : Nat} (agree : Agree rate capacity now first second)
    (settled : second.Settled capacity now) :
    Agree rate capacity now first ⟨second.level rate capacity now, now⟩ := by
  intro later order
  rw [level_level rate_nonneg settled order]
  exact agree later order

/-- A bucket that has had time to fill up is as good as a new one. -/
theorem agree_of_refilled (rate_nonneg : 0 ≤ rate) {bucket : Bucket K}
    {now : Nat} (tokens_nonneg : 0 ≤ bucket.tokens)
    (rested : capacity ≤ ((now - bucket.since : Nat) : K) * rate) :
    Agree rate capacity now bucket ⟨capacity, now⟩ := by
  intro later order
  have waited := gained_nonneg rate_nonneg now later
  have longer : ((now - bucket.since : Nat) : K) * rate ≤
      ((later - bucket.since : Nat) : K) * rate := by
    apply gained_mono rate_nonneg
    omega
  rw [level_eq_capacity (by linarith), level_eq_capacity (by linarith)]

/-! ## The tokens that a run of requests can get -/

theorem offer_nonneg (rate_nonneg : 0 ≤ rate) (capacity_nonneg : 0 ≤ capacity)
    {bucket : Bucket K} (tokens_nonneg : 0 ≤ bucket.tokens) (now : Nat)
    (wanted : Bool) :
    0 ≤ (bucket.offer rate capacity now wanted).2.tokens := by
  rw [offer]
  split
  · rename_i enough
    exact sub_nonneg.mpr enough.2
  · exact level_nonneg rate_nonneg capacity_nonneg tokens_nonneg now

theorem level_offer (rate capacity : K) (bucket : Bucket K) (now : Nat)
    (wanted : Bool) :
    (bucket.offer rate capacity now wanted).2.level rate capacity now +
        (if (bucket.offer rate capacity now wanted).1 then 1 else 0) =
      bucket.level rate capacity now := by
  have fits : bucket.level rate capacity now ≤ capacity :=
    level_le_capacity bucket now
  rw [offer]
  split
  · have less : bucket.level rate capacity now - 1 ≤ capacity := by
      linarith
    simp only [level_of_le less, if_true, sub_add_cancel]
  · simp only [level_of_le fits, Bool.false_eq_true, if_false, add_zero]

theorem taken_le_level (rate_nonneg : 0 ≤ rate)
    (capacity_nonneg : 0 ≤ capacity) {requests : List (Nat × Bool)}
    (ordered : (requests.map Prod.fst).Pairwise (· ≤ ·)) (start : Nat)
    {now stop : Nat} {bucket : Bucket K} (tokens_nonneg : 0 ≤ bucket.tokens)
    (future : ∀ time ∈ requests.map Prod.fst, now ≤ time)
    (order : now ≤ stop) :
    (((offerAll rate capacity bucket requests).countP (takes start stop) :
        Nat) : K) ≤
      bucket.level rate capacity now + ((stop - now : Nat) : K) * rate := by
  have holds := level_nonneg rate_nonneg capacity_nonneg tokens_nonneg now
  have waited := gained_nonneg rate_nonneg now stop
  induction requests generalizing bucket now with
  | nil =>
      rw [offerAll, List.countP_nil, Nat.cast_zero]
      linarith
  | cons request requests ih =>
      obtain ⟨moment, wanted⟩ := request
      obtain ⟨first, ordered⟩ := List.pairwise_cons.mp ordered
      cases Nat.lt_or_ge stop moment with
      | inl late =>
          rw [countP_takes_of_late, Nat.cast_zero]
          · linarith
          · rw [offerAll_times]
            exact List.forall_mem_cons.mpr ⟨late, fun time later =>
              Nat.lt_of_lt_of_le late (first time later)⟩
      | inr inside =>
          have reached : now ≤ moment := future moment List.mem_cons_self
          have kept := offer_nonneg rate_nonneg capacity_nonneg tokens_nonneg
            moment wanted
          have rest := ih ordered kept first inside
            (level_nonneg rate_nonneg capacity_nonneg kept moment)
            (gained_nonneg rate_nonneg moment stop)
          have paid := level_offer rate capacity bucket moment wanted
          have grown := level_le_add rate_nonneg capacity bucket now moment
          have elapsed := gained_add rate reached inside
          have counted : (((offerAll rate capacity bucket
                ((moment, wanted) :: requests)).countP (takes start stop) :
                Nat) : K) ≤
              ((offerAll rate capacity
                (bucket.offer rate capacity moment wanted).2
                requests).countP (takes start stop) : Nat) +
              (if (bucket.offer rate capacity moment wanted).1 then 1
                else 0) := by
            have counted := countP_takes_cons_le
              (moment, (bucket.offer rate capacity moment wanted).1)
              (offerAll rate capacity
                (bucket.offer rate capacity moment wanted).2 requests)
              start stop
            exact_mod_cast counted
          linarith

/-- What is taken between two moments is at most a full bucket and what is
gained in between. -/
theorem taken_le (rate_nonneg : 0 ≤ rate) (capacity_nonneg : 0 ≤ capacity)
    {requests : List (Nat × Bool)}
    (ordered : (requests.map Prod.fst).Pairwise (· ≤ ·)) {start stop : Nat}
    (order : start ≤ stop) {bucket : Bucket K}
    (tokens_nonneg : 0 ≤ bucket.tokens) :
    (((offerAll rate capacity bucket requests).countP (takes start stop) :
        Nat) : K) ≤
      capacity + ((stop - start : Nat) : K) * rate := by
  induction requests generalizing bucket with
  | nil =>
      rw [offerAll, List.countP_nil, Nat.cast_zero]
      exact add_nonneg capacity_nonneg (gained_nonneg rate_nonneg start stop)
  | cons request requests ih =>
      obtain ⟨moment, wanted⟩ := request
      obtain ⟨first, later⟩ := List.pairwise_cons.mp ordered
      cases Nat.lt_or_ge moment start with
      | inl early =>
          have uncounted : takes start stop
              (moment, (bucket.offer rate capacity moment wanted).1) =
              false := by
            simp only [takes, Nat.not_le.mpr early, decide_false,
              Bool.and_false, Bool.false_and]
          rw [offerAll, List.countP_cons, uncounted]
          exact ih later (offer_nonneg rate_nonneg capacity_nonneg
            tokens_nonneg moment wanted)
      | inr inside =>
          have future : ∀ time ∈ ((moment, wanted) :: requests).map Prod.fst,
              start ≤ time :=
            List.forall_mem_cons.mpr ⟨inside, fun time rest =>
              Nat.le_trans inside (first time rest)⟩
          have taken := taken_le_level rate_nonneg capacity_nonneg ordered
            start tokens_nonneg future order
          have fits : bucket.level rate capacity start ≤ capacity :=
            level_le_capacity bucket start
          linarith

end Bucket

end GothamRelay.Data
