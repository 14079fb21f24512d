import Mathlib.Data.Multiset.Filter
import Mathlib.Algebra.Order.Group.Multiset

namespace GothamRelay

/-! The mailbox of `crypto_gotham` as its callers see it. Times are seconds of
the wall clock. -/

abbrev Envelope := List UInt8

structure Stored where
  sealed : Envelope
  expiresAt : Nat
  deriving DecidableEq, Repr

def Stored.unexpired (now : Nat) (stored : Stored) : Bool :=
  now < stored.expiresAt

/-- `fetch_batch` removes exactly the envelopes it returns, `deposit` appends
one or refuses, and both touch the given id only. -/
structure MailboxStore (Id : Type) where
  Mailbox : Type
  MailboxError : Type
  stored : Mailbox → Id → Multiset Stored
  expiry : Nat → Nat → Nat
  selected : Mailbox → Id → Nat → Nat → List Stored
  deposit : Mailbox → Id → Envelope → Nat → Nat →
    Except MailboxError Unit × Mailbox
  fetchBatch : Mailbox → Id → Nat → Nat → (List Envelope × Bool) × Mailbox
  pruneExpired : Mailbox → Nat → Mailbox
  deposit_ok : ∀ {mailbox id envelope now ttl},
    (deposit mailbox id envelope now ttl).1 = .ok () →
      stored (deposit mailbox id envelope now ttl).2 id =
        ⟨envelope, expiry now ttl⟩ ::ₘ stored mailbox id
  deposit_error : ∀ {mailbox id envelope now ttl error},
    (deposit mailbox id envelope now ttl).1 = .error error →
      stored (deposit mailbox id envelope now ttl).2 id = stored mailbox id
  deposit_other : ∀ {mailbox id envelope now ttl other}, other ≠ id →
    stored (deposit mailbox id envelope now ttl).2 other =
      stored mailbox other
  fetch_returns : ∀ mailbox id now budget,
    (fetchBatch mailbox id now budget).1.1 =
      (selected mailbox id now budget).map Stored.sealed
  fetch_removes : ∀ mailbox id now budget,
    stored mailbox id = selected mailbox id now budget +
      stored (fetchBatch mailbox id now budget).2 id
  fetch_other : ∀ {mailbox id now budget other}, other ≠ id →
    stored (fetchBatch mailbox id now budget).2 other = stored mailbox other
  prune_stored : ∀ mailbox now id,
    stored (pruneExpired mailbox now) id =
      (stored mailbox id).filter fun entry => entry.unexpired now

namespace MailboxStore

/-- A mailbox of at most `quota` envelopes, in order of arrival, that hands
out all unexpired envelopes of an id at once. -/
def queue (Id : Type) [DecidableEq Id] (quota defaultTtl : Nat) :
    MailboxStore Id where
  Mailbox := List (Id × Stored)
  MailboxError := Unit
  stored mailbox id :=
    ((mailbox.filter fun entry => entry.1 = id).map Prod.snd : List Stored)
  expiry now ttl := now + if ttl = 0 then defaultTtl else ttl
  selected mailbox id now _ :=
    (mailbox.filter fun entry => entry.1 = id ∧ entry.2.unexpired now).map
      Prod.snd
  deposit mailbox id envelope now ttl :=
    if mailbox.length < quota then
      (.ok (), mailbox ++
        [(id, ⟨envelope, now + if ttl = 0 then defaultTtl else ttl⟩)])
    else (.error (), mailbox)
  fetchBatch mailbox id now _ :=
    (((mailbox.filter fun entry => entry.1 = id ∧ entry.2.unexpired now).map
        fun entry => entry.2.sealed, false),
      mailbox.filter fun entry => ¬(entry.1 = id ∧ entry.2.unexpired now))
  pruneExpired mailbox now :=
    mailbox.filter fun entry => entry.2.unexpired now
  deposit_ok := by
    intro mailbox id envelope now ttl accepted
    split at accepted
    case isTrue room => simp [if_pos room, ← Multiset.coe_add, add_comm]
    case isFalse => cases accepted
  deposit_error := by
    intro mailbox id envelope now ttl error refused
    split at refused
    case isTrue => cases refused
    case isFalse full => rw [if_neg full]
  deposit_other := by
    intro mailbox id envelope now ttl other different
    split
    · simp [different.symm]
    · rfl
  fetch_returns := by
    intro mailbox id now budget
    simp
  fetch_removes := by
    intro mailbox id now budget
    rw [Multiset.coe_add, Multiset.coe_eq_coe, ← List.map_append]
    apply List.Perm.map
    have live := List.filter_append_perm (fun entry => entry.2.unexpired now)
      (mailbox.filter fun entry => decide (entry.1 = id))
    simp only [List.filter_filter] at live ⊢
    refine live.symm.trans (List.Perm.of_eq ?_)
    congr 1 <;> apply List.filter_congr <;> intro entry _ <;>
      by_cases own : entry.1 = id <;> simp [own]
  fetch_other := by
    intro mailbox id now budget other different
    rw [List.filter_filter]
    congr 2
    apply List.filter_congr
    intro entry _
    by_cases own : entry.1 = other <;> simp_all
  prune_stored := by
    intro mailbox now id
    simp only [Multiset.filter_coe, List.filter_map, List.filter_filter]
    congr 2
    apply List.filter_congr
    intro entry _
    simp [Bool.and_comm]

end MailboxStore

end GothamRelay
