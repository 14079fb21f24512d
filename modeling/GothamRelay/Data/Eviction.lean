import Mathlib.Data.List.AList

namespace GothamRelay.Data.Eviction

/-! Tables that make room by removing an entry of least measure. Which of
several such entries is removed depends on the order of a hash map, so it is
left open. -/

variable {κ : Type u} {υ : Type v} [DecidableEq κ]

/-- What a search for the entry of least measure may return. -/
def isMinBy (measure : υ → Nat) (table : AList fun _ : κ => υ) :
    Option κ → Bool
  | none => table.entries.isEmpty
  | some victim =>
      match table.lookup victim with
      | none => false
      | some value =>
          table.entries.all fun other => measure value ≤ measure other.2

def evict (table : AList fun _ : κ => υ) :
    Option κ → AList fun _ : κ => υ
  | none => table
  | some victim => table.erase victim

inductive Evicted (measure : υ → Nat) (table : AList fun _ : κ => υ) :
    (AList fun _ : κ => υ) → Prop where
  | empty (none : table.keys.length = 0) : Evicted measure table table
  | victim {victim : κ} {value : υ}
      (found : table.lookup victim = some value)
      (least : ∀ {key : κ} {other : υ}, table.lookup key = some other →
        measure value ≤ measure other) :
      Evicted measure table (table.erase victim)

variable {measure : υ → Nat} {table after : AList fun _ : κ => υ}

theorem evicted_of_isMinBy {victim : Option κ}
    (minimal : isMinBy measure table victim = true) :
    Evicted measure table (evict table victim) := by
  cases victim with
  | none =>
      refine .empty ?_
      rw [AList.keys, List.keys, List.length_map]
      exact List.length_eq_zero_iff.mpr (List.isEmpty_iff.mp minimal)
  | some victim =>
      rw [isMinBy] at minimal
      split at minimal
      · cases minimal
      · rename_i value found
        refine .victim found ?_
        intro key other there
        have member : ⟨key, other⟩ ∈ table.entries :=
          AList.mem_lookup_iff.mp there
        exact of_decide_eq_true (List.all_eq_true.mp minimal _ member)

theorem Evicted.lookup (evicted : Evicted measure table after) {key : κ}
    {value : υ} (found : after.lookup key = some value) :
    table.lookup key = some value := by
  cases evicted with
  | empty none => exact found
  | @victim victim _ present least =>
      by_cases same : key = victim
      · subst key
        rw [AList.lookup_erase] at found
        cases found
      · rwa [AList.lookup_erase_ne same] at found

/-! ## The size of the table -/

theorem length_insert_le (table : AList fun _ : κ => υ) (key : κ)
    (value : υ) :
    (table.insert key value).keys.length ≤ table.keys.length + 1 := by
  rw [AList.keys_insert, List.length_cons]
  exact Nat.succ_le_succ List.length_erase_le

theorem length_insert_of_mem {key : κ} (member : key ∈ table) (value : υ) :
    (table.insert key value).keys.length = table.keys.length := by
  have queued := AList.mem_keys.mp member
  have inside := List.length_pos_of_mem queued
  rw [AList.keys_insert, List.length_cons, List.length_erase_of_mem queued]
  omega

theorem length_erase_le (table : AList fun _ : κ => υ) (key : κ) :
    (table.erase key).keys.length ≤ table.keys.length := by
  rw [AList.keys_erase]
  exact List.length_erase_le

theorem Evicted.length_insert_le (evicted : Evicted measure table after)
    {size : Nat} (positive : 0 < size) (bounded : table.keys.length ≤ size)
    (key : κ) (value : υ) :
    (after.insert key value).keys.length ≤ size := by
  have grown := Eviction.length_insert_le after key value
  cases evicted with
  | empty none => omega
  | victim found least =>
      have queued := AList.mem_keys.mp
        (AList.lookup_isSome.mp (Option.isSome_iff_exists.mpr ⟨_, found⟩))
      have inside := List.length_pos_of_mem queued
      rw [AList.keys_erase, List.length_erase_of_mem queued] at grown
      omega

end GothamRelay.Data.Eviction
