import Mathlib.Data.List.Defs

namespace GothamRelay.Data

/-! What `List.toChunks` gives: pieces that are not empty, not longer than
asked, and make up the list. -/

variable {α : Type u}

private theorem flatten_toChunks_go (size : Nat) (entries : List α)
    (chunk : Array α) (chunks : Array (List α)) :
    (List.toChunks.go size entries chunk chunks).flatten =
      chunks.toList.flatten ++ (chunk.toList ++ entries) := by
  induction entries generalizing chunk chunks with
  | nil => simp [List.toChunks.go]
  | cons entry entries ih =>
      rw [List.toChunks.go]
      split
      · rw [ih]
        simp
      · rw [ih]
        simp

def Sized (size : Nat) (piece : List α) : Prop :=
  0 < piece.length ∧ piece.length ≤ size

private theorem sized_push {size : Nat} {chunks : Array (List α)}
    {chunk : List α} (earlier : ∀ piece ∈ chunks.toList, Sized size piece)
    (last : Sized size chunk) :
    ∀ piece ∈ (chunks.push chunk).toList, Sized size piece := by
  intro piece member
  rw [Array.toList_push] at member
  cases List.mem_append.mp member with
  | inl old => exact earlier piece old
  | inr new =>
      rw [List.mem_singleton.mp new]
      exact last

private theorem sized_toChunks_go {size : Nat} (positive : 0 < size)
    (entries : List α) {chunk : Array α} {chunks : Array (List α)}
    (started : Sized size chunk.toList)
    (earlier : ∀ piece ∈ chunks.toList, Sized size piece) :
    ∀ piece ∈ List.toChunks.go size entries chunk chunks,
      Sized size piece := by
  induction entries generalizing chunk chunks with
  | nil => exact sized_push earlier started
  | cons entry entries ih =>
      rw [List.toChunks.go]
      split
      · exact ih ⟨Nat.one_pos, positive⟩ (sized_push earlier started)
      · rename_i unfilled
        refine ih ⟨?_, ?_⟩ earlier
        · simp
        · have fits : chunk.size ≤ size := started.2
          have unequal : chunk.size ≠ size := by simpa using unfilled
          rw [Array.toList_push, List.length_append, List.length_singleton,
            Array.length_toList]
          omega

theorem flatten_toChunks (size : Nat) (entries : List α) :
    (entries.toChunks size).flatten = entries := by
  cases entries with
  | nil => simp [List.toChunks]
  | cons entry entries =>
      cases size with
      | zero => simp [List.toChunks]
      | succ size =>
          rw [List.toChunks, flatten_toChunks_go]
          · rfl
          · exact nofun

theorem sized_toChunks {size : Nat} (positive : 0 < size)
    (entries : List α) : ∀ piece ∈ entries.toChunks size,
      Sized size piece := by
  cases entries with
  | nil =>
      intro piece member
      simp [List.toChunks] at member
  | cons entry entries =>
      cases size with
      | zero => exact absurd positive (Nat.lt_irrefl 0)
      | succ size =>
          rw [List.toChunks]
          · exact sized_toChunks_go positive entries ⟨Nat.one_pos, positive⟩
              (fun _ member => absurd member List.not_mem_nil)
          · exact nofun

end GothamRelay.Data
