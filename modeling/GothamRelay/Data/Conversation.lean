import Mathlib.Data.List.Infix
import Mathlib.Logic.Relation

namespace GothamRelay.Data

/-! Two parties that talk over a stream in each direction. What a party has
sent, and whether it has finished, depends on what has reached it, and later
input never takes back what was sent. The network delivers any part of what was
sent at any time. -/

structure Party (α : Type u) where
  sent : List α → List α
  finished : List α → Prop
  sent_mono : ∀ {early late : List α}, early <+: late → sent early <+: sent late

@[ext]
structure Arrived (α : Type u) where
  toFirst : List α
  toSecond : List α

namespace Arrived

variable {first second : Party α}

def nothing : Arrived α := ⟨[], []⟩

inductive Delivers (first second : Party α) :
    Arrived α → Arrived α → Prop where
  | toFirst {arrived : Arrived α} {more : List α}
      (later : arrived.toFirst <+: more)
      (sent : more <+: second.sent arrived.toSecond) :
      Delivers first second arrived ⟨more, arrived.toSecond⟩
  | toSecond {arrived : Arrived α} {more : List α}
      (later : arrived.toSecond <+: more)
      (sent : more <+: first.sent arrived.toFirst) :
      Delivers first second arrived ⟨arrived.toFirst, more⟩

def Reaches (first second : Party α) : Arrived α → Arrived α → Prop :=
  Relation.ReflTransGen (Delivers first second)

/-- All that was sent has been delivered. -/
structure Quiet (first second : Party α) (arrived : Arrived α) : Prop where
  toFirst : arrived.toFirst = second.sent arrived.toSecond
  toSecond : arrived.toSecond = first.sent arrived.toFirst

structure Sent (first second : Party α) (arrived : Arrived α) : Prop where
  toFirst : arrived.toFirst <+: second.sent arrived.toSecond
  toSecond : arrived.toSecond <+: first.sent arrived.toFirst

structure Within (early late : Arrived α) : Prop where
  toFirst : early.toFirst <+: late.toFirst
  toSecond : early.toSecond <+: late.toSecond

theorem Within.antisymm {early late : Arrived α}
    (within : early.Within late) (back : late.Within early) :
    early = late := by
  ext1
  · exact within.toFirst.eq_of_length_le back.toFirst.length_le
  · exact within.toSecond.eq_of_length_le back.toSecond.length_le

theorem Delivers.sent {before after : Arrived α}
    (delivers : Delivers first second before after)
    (sent : before.Sent first second) : after.Sent first second := by
  cases delivers with
  | toFirst later more =>
      exact ⟨more, sent.toSecond.trans (first.sent_mono later)⟩
  | toSecond later more =>
      exact ⟨sent.toFirst.trans (second.sent_mono later), more⟩

private theorem sent_of_reaches {arrived : Arrived α}
    (reaches : Reaches first second nothing arrived) :
    arrived.Sent first second := by
  induction reaches with
  | refl => exact ⟨List.nil_prefix, List.nil_prefix⟩
  | tail earlier delivers ih => exact delivers.sent ih

/-- No delivery leads beyond a state in which nothing is left to deliver. -/
theorem within_of_reaches {quiet arrived : Arrived α}
    (final : quiet.Quiet first second)
    (reaches : Reaches first second nothing arrived) :
    arrived.Within quiet := by
  induction reaches with
  | refl => exact ⟨List.nil_prefix, List.nil_prefix⟩
  | tail earlier delivers ih =>
      cases delivers with
      | toFirst later more =>
          refine ⟨?_, ih.toSecond⟩
          rw [final.toFirst]
          exact more.trans (second.sent_mono ih.toSecond)
      | toSecond later more =>
          refine ⟨ih.toFirst, ?_⟩
          rw [final.toSecond]
          exact more.trans (first.sent_mono ih.toFirst)

private theorem catches_up {known arrived : Arrived α}
    (other : Reaches first second nothing known)
    (reaches : Reaches first second nothing arrived) :
    ∃ later, Reaches first second arrived later ∧ known.Within later := by
  induction other with
  | refl => exact ⟨arrived, .refl, List.nil_prefix, List.nil_prefix⟩
  | tail earlier delivers ih =>
      obtain ⟨later, further, within⟩ := ih
      have sent := sent_of_reaches (reaches.trans further)
      cases delivers with
      | toFirst _ more =>
          refine ⟨⟨second.sent later.toSecond, later.toSecond⟩,
            further.tail (.toFirst sent.toFirst (List.prefix_refl _)), ?_,
            within.toSecond⟩
          exact more.trans (second.sent_mono within.toSecond)
      | toSecond _ more =>
          refine ⟨⟨later.toFirst, first.sent later.toFirst⟩,
            further.tail (.toSecond sent.toSecond (List.prefix_refl _)),
            within.toFirst, ?_⟩
          exact more.trans (first.sent_mono within.toFirst)

theorem Quiet.stays {arrived later : Arrived α}
    (quiet : arrived.Quiet first second)
    (reaches : Reaches first second arrived later) : later = arrived := by
  induction reaches with
  | refl => rfl
  | tail earlier delivers ih =>
      rw [ih] at delivers
      cases delivers with
      | toFirst later more =>
          rw [← later.eq_of_length_le (quiet.toFirst ▸ more.length_le)]
      | toSecond later more =>
          rw [← later.eq_of_length_le (quiet.toSecond ▸ more.length_le)]

/-- If some deliveries come to rest, then every way of delivering can be
completed to where they do, and comes to rest nowhere else. -/
theorem settles {final arrived : Arrived α}
    (known : Reaches first second nothing final)
    (rest : final.Quiet first second)
    (reaches : Reaches first second nothing arrived) :
    Reaches first second arrived final ∧
      (arrived.Quiet first second → arrived = final) := by
  obtain ⟨later, further, within⟩ := catches_up known reaches
  have same : later = final :=
    (within_of_reaches rest (reaches.trans further)).antisymm within
  refine ⟨same ▸ further, ?_⟩
  intro quiet
  exact (quiet.stays further).symm.trans same

end Arrived

/-! ## Giving up -/

structure Exchange (α : Type u) where
  arrived : Arrived α
  firstLeft : Bool
  secondLeft : Bool

namespace Exchange

variable {first second : Party α}

def talking (arrived : Arrived α) : Exchange α := ⟨arrived, false, false⟩

/-- A party that has not finished may leave at any time. It does not come back,
and nothing more reaches it, but what it had sent still arrives. -/
inductive Moves (first second : Party α) : Exchange α → Exchange α → Prop where
  | toFirst {arrived : Arrived α} {secondLeft : Bool} {more : List α}
      (later : arrived.toFirst <+: more)
      (sent : more <+: second.sent arrived.toSecond) :
      Moves first second ⟨arrived, false, secondLeft⟩
        ⟨⟨more, arrived.toSecond⟩, false, secondLeft⟩
  | toSecond {arrived : Arrived α} {firstLeft : Bool} {more : List α}
      (later : arrived.toSecond <+: more)
      (sent : more <+: first.sent arrived.toFirst) :
      Moves first second ⟨arrived, firstLeft, false⟩
        ⟨⟨arrived.toFirst, more⟩, firstLeft, false⟩
  | firstLeaves {arrived : Arrived α} {secondLeft : Bool}
      (unfinished : ¬ first.finished arrived.toFirst) :
      Moves first second ⟨arrived, false, secondLeft⟩
        ⟨arrived, true, secondLeft⟩
  | secondLeaves {arrived : Arrived α} {firstLeft : Bool}
      (unfinished : ¬ second.finished arrived.toSecond) :
      Moves first second ⟨arrived, firstLeft, false⟩
        ⟨arrived, firstLeft, true⟩

def Reaches (first second : Party α) : Exchange α → Exchange α → Prop :=
  Relation.ReflTransGen (Moves first second)

theorem arrived_of_reaches {start exchange : Exchange α}
    (reaches : Reaches first second start exchange) :
    Arrived.Reaches first second start.arrived exchange.arrived := by
  induction reaches with
  | refl => exact .refl
  | tail earlier moves ih =>
      cases moves with
      | toFirst later sent => exact ih.tail (.toFirst later sent)
      | toSecond later sent => exact ih.tail (.toSecond later sent)
      | firstLeaves unfinished => exact ih
      | secondLeaves unfinished => exact ih

theorem reaches_talking {early late : Arrived α}
    (reaches : Arrived.Reaches first second early late) :
    Reaches first second (talking early) (talking late) := by
  induction reaches with
  | refl => exact .refl
  | tail earlier delivers ih =>
      cases delivers with
      | toFirst later sent => exact ih.tail (.toFirst later sent)
      | toSecond later sent => exact ih.tail (.toSecond later sent)

structure LeftUnfinished (first second : Party α) (exchange : Exchange α) :
    Prop where
  first : exchange.firstLeft = true →
    ¬ first.finished exchange.arrived.toFirst
  second : exchange.secondLeft = true →
    ¬ second.finished exchange.arrived.toSecond

theorem LeftUnfinished.of_reaches {before after : Exchange α}
    (left : before.LeftUnfinished first second)
    (reaches : Reaches first second before after) :
    after.LeftUnfinished first second := by
  induction reaches with
  | refl => exact left
  | tail earlier moves ih =>
      cases moves with
      | toFirst later sent => exact ⟨nofun, ih.second⟩
      | toSecond later sent => exact ⟨ih.first, nofun⟩
      | firstLeaves unfinished => exact ⟨fun _ => unfinished, ih.second⟩
      | secondLeaves unfinished => exact ⟨ih.first, fun _ => unfinished⟩

theorem leftUnfinished_talking (arrived : Arrived α) :
    (talking arrived).LeftUnfinished first second :=
  ⟨Bool.noConfusion, Bool.noConfusion⟩

theorem left_stays {before after : Exchange α}
    (reaches : Reaches first second before after) :
    (before.firstLeft = true → after.firstLeft = true) ∧
      (before.secondLeft = true → after.secondLeft = true) := by
  induction reaches with
  | refl => exact ⟨id, id⟩
  | tail earlier moves ih =>
      cases moves with
      | toFirst later sent => exact ih
      | toSecond later sent => exact ih
      | firstLeaves unfinished => exact ⟨fun _ => rfl, ih.2⟩
      | secondLeaves unfinished => exact ⟨ih.1, fun _ => rfl⟩

end Exchange

/-! ## Scripts -/

inductive Move (α : Type u) where
  | sends (part : List α)
  | receives (part : List α)

namespace Move

def flip : Move α → Move α
  | sends part => receives part
  | receives part => sends part

def given : Move α → List α
  | sends part => part
  | receives _ => []

def taken : Move α → List α
  | sends _ => []
  | receives part => part

@[simp] theorem flip_comp_flip : (flip ∘ flip : Move α → Move α) = id := by
  funext move
  cases move <;> rfl

@[simp] theorem given_flip (move : Move α) : move.flip.given = move.taken := by
  cases move <;> rfl

@[simp] theorem taken_flip (move : Move α) : move.flip.taken = move.given := by
  cases move <;> rfl

end Move

abbrev Script (α : Type u) := List (Move α)

namespace Script

def sentBy (script : Script α) : List α := script.flatMap Move.given

def receivedBy (script : Script α) : List α := script.flatMap Move.taken

@[simp] theorem sentBy_nil : sentBy ([] : Script α) = [] := rfl

@[simp] theorem sentBy_sends (part : List α) :
    sentBy [.sends part] = part := List.append_nil part

@[simp] theorem receivedBy_sends (part : List α) :
    receivedBy [.sends part] = [] := rfl

@[simp] theorem sentBy_receives (part : List α) :
    sentBy [.receives part] = [] := rfl

@[simp] theorem receivedBy_receives (part : List α) :
    receivedBy [.receives part] = part := List.append_nil part

@[simp] theorem sentBy_map_sends (parts : List (List α)) :
    sentBy (parts.map Move.sends) = parts.flatten := by
  induction parts with
  | nil => rfl
  | cons part parts ih =>
      rw [List.flatten_cons, ← ih]
      rfl

@[simp] theorem receivedBy_map_sends (parts : List (List α)) :
    receivedBy (parts.map Move.sends) = [] := by
  induction parts with
  | nil => rfl
  | cons part parts ih => exact ih

@[simp] theorem sentBy_append (script later : Script α) :
    sentBy (script ++ later) = script.sentBy ++ later.sentBy :=
  List.flatMap_append

@[simp] theorem receivedBy_append (script later : Script α) :
    receivedBy (script ++ later) = script.receivedBy ++ later.receivedBy :=
  List.flatMap_append

@[simp] theorem sentBy_flip (script : Script α) :
    sentBy (script.map Move.flip) = script.receivedBy := by
  simp [sentBy, receivedBy, List.flatMap_map]

@[simp] theorem receivedBy_flip (script : Script α) :
    receivedBy (script.map Move.flip) = script.sentBy := by
  simp [sentBy, receivedBy, List.flatMap_map]

/-- The party keeps to the script: whatever part of it is over, all that it was
to send by then is sent. -/
def KeptBy (party : Party α) (script : Script α) : Prop :=
  ∀ past, past <+: script → sentBy past <+: party.sent (receivedBy past)

/-- Two parties that keep to the two sides of a script get through it. -/
theorem reaches_of_keptBy {first second : Party α} {script : Script α}
    (keeps : script.KeptBy first)
    (answers : KeptBy second (script.map Move.flip)) :
    Arrived.Reaches first second .nothing
      ⟨script.receivedBy, script.sentBy⟩ := by
  suffices reached : ∀ past, past <+: script →
      Arrived.Reaches first second .nothing
        ⟨receivedBy past, sentBy past⟩ from
    reached script (List.prefix_refl _)
  intro past
  induction past using List.reverseRecOn with
  | nil => exact fun _ => .refl
  | append_singleton past move ih =>
      intro played
      have earlier := ih ((List.prefix_append past [move]).trans played)
      have own := keeps _ played
      have other := answers _ (played.map Move.flip)
      rw [sentBy_flip, receivedBy_flip] at other
      simp only [sentBy_append, receivedBy_append] at own other ⊢
      refine earlier.tail ?_
      cases move with
      | sends part =>
          simp only [sentBy_sends, receivedBy_sends, List.append_nil] at own ⊢
          exact .toSecond (List.prefix_append _ _) own
      | receives part =>
          simp only [sentBy_receives, receivedBy_receives,
            List.append_nil] at other ⊢
          exact .toFirst (List.prefix_append _ _) other

end Script

end GothamRelay.Data
