import Mathlib.Init

namespace GothamRelay.Data

/-! Streams of bytes that may end or go on for ever. -/

abbrev ByteSource := Nat → Option UInt8

namespace ByteSource

def readAt (source : ByteSource) : Nat → Nat → Option (List UInt8)
  | _, 0 => some []
  | offset, len + 1 =>
      match source offset with
      | none => none
      | some byte => (source.readAt (offset + 1) len).map (byte :: ·)

def Holds (source : ByteSource) : Nat → List UInt8 → Prop
  | _, [] => True
  | offset, byte :: bytes =>
      source offset = some byte ∧ source.Holds (offset + 1) bytes

theorem readAt_eq_some_iff {source : ByteSource} {offset len : Nat}
    {bytes : List UInt8} :
    source.readAt offset len = some bytes ↔
      bytes.length = len ∧ source.Holds offset bytes := by
  induction len generalizing offset bytes with
  | zero =>
      rw [readAt, Option.some_inj]
      constructor
      · rintro rfl
        exact ⟨rfl, trivial⟩
      · rintro ⟨empty, _⟩
        exact (List.eq_nil_of_length_eq_zero empty).symm
  | succ len ih =>
      cases bytes with
      | nil =>
          refine ⟨?_, fun held => absurd held.1 (Nat.succ_ne_zero len).symm⟩
          intro read
          rw [readAt] at read
          split at read
          · cases read
          · obtain ⟨rest, _, mismatch⟩ := Option.map_eq_some_iff.mp read
            cases mismatch
      | cons byte bytes =>
          rw [readAt, Holds, List.length_cons]
          split
          · rename_i ended
            rw [ended]
            constructor
            · intro read
              cases read
            · rintro ⟨_, held, _⟩
              cases held
          · rename_i head found
            rw [found, Option.map_eq_some_iff, Option.some_inj]
            constructor
            · rintro ⟨rest, read, same⟩
              cases same
              obtain ⟨size, held⟩ := ih.mp read
              exact ⟨congrArg (· + 1) size, rfl, held⟩
            · rintro ⟨size, rfl, held⟩
              exact ⟨bytes, ih.mpr ⟨Nat.succ.inj size, held⟩, rfl⟩

theorem holds_append {source : ByteSource} {offset : Nat}
    {front later : List UInt8} :
    source.Holds offset (front ++ later) ↔
      source.Holds offset front ∧
        source.Holds (offset + front.length) later := by
  induction front generalizing offset with
  | nil => simp [Holds]
  | cons byte front ih =>
      rw [List.cons_append, Holds, Holds, ih, List.length_cons, and_assoc,
        Nat.add_right_comm, Nat.add_assoc offset]

end ByteSource

end GothamRelay.Data
