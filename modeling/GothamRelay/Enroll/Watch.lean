import Mathlib.Data.List.Destutter
import GothamRelay.Enroll.Listing

namespace GothamRelay

/-! The loop of `watch_own_listing` over any number of rounds. -/

def watchRounds (pkHex : String) (wasListed : Option Bool) :
    List (List DirectoryReply) → Option Bool × List SelfCheckLog
  | [] => (wasListed, [])
  | replies :: rounds =>
      let round := watchOwnListing pkHex wasListed replies
      let rest := watchRounds pkHex round.1 rounds
      (rest.1, round.2.toList ++ rest.2)

def shownBy (pkHex : String) (replies : List DirectoryReply) : Option Nat :=
  if replies.countP DirectoryReply.answered = 0 then none
  else some (replies.countP (mentions pkHex))

def isListed (authorities : Nat) : Bool := decide (authorities ≥ watchQuorum)

def SelfCheckLog.ofCount (authorities : Nat) : SelfCheckLog :=
  if isListed authorities then .listed authorities
  else .failed authorities watchQuorum

def VerdictDiffers (before after : Nat) : Prop :=
  isListed before ≠ isListed after

instance : DecidableRel VerdictDiffers := fun before after =>
  inferInstanceAs (Decidable (isListed before ≠ isListed after))

section Round

variable {pkHex : String} {replies : List DirectoryReply}

private theorem watchOwnListing_unanswered
    (unanswered : shownBy pkHex replies = none) (wasListed : Option Bool) :
    watchOwnListing pkHex wasListed replies = (wasListed, none) := by
  have asked : replies.countP DirectoryReply.answered = 0 := by
    by_contra some
    rw [shownBy, if_neg some] at unanswered
    cases unanswered
  simp only [watchOwnListing, foldl_countReply, Nat.zero_add, asked, if_true]

private theorem watchOwnListing_shownBy {authorities : Nat}
    (shown : shownBy pkHex replies = some authorities)
    (wasListed : Option Bool) :
    watchOwnListing pkHex wasListed replies =
      if wasListed = some (isListed authorities) then (wasListed, none)
      else (some (isListed authorities), some (.ofCount authorities)) := by
  rw [shownBy] at shown
  split at shown
  · cases shown
  · rename_i asked
    cases shown
    simp only [watchOwnListing, foldl_countReply, Nat.zero_add, if_neg asked]
    rfl

end Round

private theorem remembered_watchOwnListing {pkHex : String}
    {replies : List DirectoryReply} {authorities : Nat}
    (shown : shownBy pkHex replies = some authorities)
    (wasListed : Option Bool) :
    (watchOwnListing pkHex wasListed replies).1 =
      some (isListed authorities) := by
  rw [watchOwnListing_shownBy shown]
  split
  · assumption
  · rfl

private theorem remembered_watchRounds (pkHex : String)
    (wasListed : Option Bool) (rounds : List (List DirectoryReply)) :
    (watchRounds pkHex wasListed rounds).1 =
      ((rounds.filterMap (shownBy pkHex)).getLast?.map isListed).or
        wasListed := by
  induction rounds generalizing wasListed with
  | nil => rfl
  | cons replies rounds ih =>
      rw [watchRounds, ih]
      cases shown : shownBy pkHex replies with
      | none =>
          rw [watchOwnListing_unanswered shown,
            List.filterMap_cons_none shown]
      | some authorities =>
          rw [remembered_watchOwnListing shown,
            List.filterMap_cons_some shown, List.getLast?_cons]
          cases (rounds.filterMap (shownBy pkHex)).getLast? with
          | none => rfl
          | some _ => rfl

private theorem logs_watchRounds (pkHex : String) (kept : Nat)
    (rounds : List (List DirectoryReply)) :
    SelfCheckLog.ofCount kept ::
        (watchRounds pkHex (some (isListed kept)) rounds).2 =
      ((rounds.filterMap (shownBy pkHex)).destutter' VerdictDiffers kept).map
        SelfCheckLog.ofCount := by
  induction rounds generalizing kept with
  | nil => rfl
  | cons replies rounds ih =>
      cases shown : shownBy pkHex replies with
      | none =>
          rw [watchRounds, watchOwnListing_unanswered shown,
            List.filterMap_cons_none shown]
          exact ih kept
      | some authorities =>
          rw [watchRounds, watchOwnListing_shownBy shown,
            List.filterMap_cons_some shown]
          by_cases same : isListed kept = isListed authorities
          · rw [if_pos (congrArg some same),
              List.destutter'_cons_neg _ (not_not_intro same)]
            exact ih kept
          · rw [if_neg fun equal => same (Option.some.inj equal),
              List.destutter'_cons_pos _ same]
            exact congrArg (List.cons _) (ih authorities)

/-- The task logs exactly the changes of the verdict, each with the number of
authorities it was found with, and remembers the last one. -/
theorem self_check_logs_each_change (pkHex : String)
    (rounds : List (List DirectoryReply)) :
    watchRounds pkHex none rounds =
      ((rounds.filterMap (shownBy pkHex)).getLast?.map isListed,
        ((rounds.filterMap (shownBy pkHex)).destutter VerdictDiffers).map
          SelfCheckLog.ofCount) := by
  apply Prod.ext
  · rw [remembered_watchRounds, Option.or_none]
  · induction rounds with
    | nil => rfl
    | cons replies rounds ih =>
        cases shown : shownBy pkHex replies with
        | none =>
            rw [watchRounds, watchOwnListing_unanswered shown,
              List.filterMap_cons_none shown]
            exact ih
        | some authorities =>
            rw [watchRounds, watchOwnListing_shownBy shown,
              List.filterMap_cons_some shown, List.destutter_cons',
              ← logs_watchRounds]
            rfl

end GothamRelay
