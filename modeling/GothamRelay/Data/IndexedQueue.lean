import Mathlib.Data.List.AList

namespace GothamRelay.Data

/-! A queue of keyed entries together with a map that indexes it: the map has
exactly the entries of the queue, and no key is queued twice. -/

structure Indexes [DecidableEq κ] (map : AList fun _ : κ => υ)
    (queue : List (κ × υ)) : Prop where
  nodup : (queue.map Prod.fst).Nodup
  lookup_iff : ∀ key value,
    map.lookup key = some value ↔ (key, value) ∈ queue

namespace Indexes

variable {κ : Type u} {υ : Type v} [DecidableEq κ]
  {map : AList fun _ : κ => υ} {queue : List (κ × υ)}

theorem empty : Indexes (∅ : AList fun _ : κ => υ) [] where
  nodup := List.nodup_nil
  lookup_iff := by simp

theorem mem_iff (indexes : Indexes map queue) (key : κ) :
    key ∈ map ↔ key ∈ queue.map Prod.fst := by
  rw [← AList.lookup_isSome, Option.isSome_iff_exists]
  simp only [indexes.lookup_iff, List.mem_map, Prod.exists,
    exists_and_right, exists_eq_right]

theorem length_keys (indexes : Indexes map queue) :
    map.keys.length = queue.length := by
  have same : map.keys.Perm (queue.map Prod.fst) := by
    rw [List.perm_ext_iff_of_nodup map.keys_nodup indexes.nodup]
    intro key
    rw [← AList.mem_keys, indexes.mem_iff]
  rw [same.length_eq, List.length_map]

theorem eq_of_mem (indexes : Indexes map queue) {key : κ} {first second : υ}
    (firstMember : (key, first) ∈ queue)
    (secondMember : (key, second) ∈ queue) : first = second := by
  rw [← indexes.lookup_iff] at firstMember secondMember
  exact Option.some.inj (firstMember.symm.trans secondMember)

theorem eraseFront {key : κ} {value : υ}
    (indexes : Indexes map ((key, value) :: queue)) :
    Indexes (map.erase key) queue := by
  obtain ⟨unqueued, nodup⟩ := List.nodup_cons.mp indexes.nodup
  refine ⟨nodup, fun other found => ?_⟩
  by_cases same : other = key
  · subst other
    rw [AList.lookup_erase]
    constructor
    · intro impossible
      cases impossible
    · intro member
      exact absurd (List.mem_map_of_mem (f := Prod.fst) member) unqueued
  · rw [AList.lookup_erase_ne same, indexes.lookup_iff, List.mem_cons]
    constructor
    · rintro (equality | member)
      · exact absurd (congrArg Prod.fst equality) same
      · exact member
    · exact Or.inr

theorem insertBack {key : κ} (indexes : Indexes map queue)
    (absent : key ∉ map) (value : υ) :
    Indexes (map.insert key value) (queue ++ [(key, value)]) := by
  rw [indexes.mem_iff] at absent
  constructor
  · rw [List.map_append, List.nodup_append]
    refine ⟨indexes.nodup, by simp, ?_⟩
    intro first firstMember second secondMember equality
    have second_eq : second = key := by simpa using secondMember
    subst second
    subst first
    exact absent firstMember
  · intro other found
    rw [List.mem_append, List.mem_singleton, Prod.mk.injEq]
    by_cases same : other = key
    · subst other
      rw [AList.lookup_insert]
      constructor
      · intro equality
        exact Or.inr ⟨rfl, (Option.some.inj equality).symm⟩
      · rintro (member | ⟨_, rfl⟩)
        · exact absurd (List.mem_map_of_mem (f := Prod.fst) member) absent
        · rfl
    · rw [AList.lookup_insert_ne same, indexes.lookup_iff]
      simp [same]

end Indexes

end GothamRelay.Data
