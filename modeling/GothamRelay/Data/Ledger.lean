import Mathlib.Data.List.Perm.Basic
import Mathlib.Data.List.Count

namespace GothamRelay.Data

/-! Items numbered in the order of their arrival, each of which is at any time
in one of several places. -/

/-- The items numbered below `total`, each once. -/
def Accounted (total : Nat) (places : List Nat) : Prop :=
  places.Perm (List.range total)

namespace Accounted

variable {total : Nat} {before after : List Nat}

theorem empty : Accounted 0 [] := List.Perm.nil

theorem moved (accounted : Accounted total before)
    (same : ∀ item, after.count item = before.count item) :
    Accounted total after :=
  (List.perm_iff_count.mpr same).trans accounted

theorem added (accounted : Accounted total before)
    (same : ∀ item, after.count item = (total :: before).count item) :
    Accounted (total + 1) after := by
  rw [Accounted, List.range_succ]
  calc
    after.Perm (total :: before) := List.perm_iff_count.mpr same
    _ |>.Perm _ := (accounted.cons total).trans
      (List.perm_append_singleton total _).symm

theorem nodup (accounted : Accounted total before) : before.Nodup :=
  accounted.nodup_iff.mpr List.nodup_range

end Accounted

theorem getElem?_of_isPrefix {entries longer : List α} {index : Nat}
    {entry : α} (front : entries <+: longer)
    (found : entries[index]? = some entry) : longer[index]? = some entry := by
  obtain ⟨inside, rfl⟩ := List.getElem?_eq_some_iff.mp found
  exact List.prefix_iff_getElem?.mp front index inside

theorem getElem?_concat_cases {entries : List α} {entry value : α}
    {index : Nat} (found : (entries ++ [entry])[index]? = some value) :
    entries[index]? = some value ∨
      (index = entries.length ∧ value = entry) := by
  by_cases old : index < entries.length
  · rw [List.getElem?_append_left old] at found
    exact .inl found
  · have bound := (List.getElem?_eq_some_iff.mp found).1
    rw [List.length_append, List.length_singleton] at bound
    have last : index = entries.length := by omega
    subst index
    rw [List.getElem?_concat_length] at found
    exact .inr ⟨rfl, (Option.some.inj found).symm⟩

theorem count_flatMap_set [DecidableEq β] (held : α → List β)
    {entries : List α} {index : Nat} {before : α}
    (found : entries[index]? = some before) (after : α) (item : β) :
    ((entries.set index after).flatMap held).count item +
        (held before).count item =
      (entries.flatMap held).count item + (held after).count item := by
  induction entries generalizing index with
  | nil => cases found
  | cons entry entries ih =>
      cases index with
      | zero =>
          cases found
          simp only [List.set_cons_zero, List.flatMap_cons, List.count_append]
          omega
      | succ index =>
          have rest := ih found
          simp only [List.set_cons_succ, List.flatMap_cons, List.count_append]
          omega

theorem countP_set {entries : List α} {index : Nat} {before : α}
    (counted : α → Bool) (found : entries[index]? = some before) (after : α) :
    (entries.set index after).countP counted +
        (if counted before then 1 else 0) =
      entries.countP counted + if counted after then 1 else 0 := by
  induction entries generalizing index with
  | nil => cases found
  | cons entry entries ih =>
      cases index with
      | zero =>
          cases found
          simp only [List.set_cons_zero, List.countP_cons]
          omega
      | succ index =>
          have rest := ih found
          simp only [List.set_cons_succ, List.countP_cons]
          omega

theorem count_map_eraseIdx [DecidableEq β] (label : α → β)
    {entries : List α} {index : Nat} {entry : α}
    (found : entries[index]? = some entry) (item : β) :
    ((entries.eraseIdx index).map label).count item +
        [label entry].count item =
      (entries.map label).count item := by
  obtain ⟨inside, rfl⟩ := List.getElem?_eq_some_iff.mp found
  have perm := (List.getElem_cons_eraseIdx_perm inside).map label
  rw [← perm.count_eq]
  simp only [List.map_cons, List.count_cons, List.count_nil, Nat.zero_add]

end GothamRelay.Data
